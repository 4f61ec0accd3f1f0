import LeptosWasi.Request

namespace LeptosWasi.BodyTermination

open Http Request

def iterationReads (timeoutNs : Option Nat) (host : Iteration) : Nat :=
  if timeoutNs.isSome ∧ host.expired then 0 else 1

def loopReads (maxBodySize : Nat) (timeoutNs : Option Nat) : ReadState → List Iteration → Nat
  | _, [] => 0
  | s, host :: rest =>
    iterationReads timeoutNs host +
      match loopStep maxBodySize timeoutNs s host with
      | .done _ => 0
      | .again s => loopReads maxBodySize timeoutNs s rest

structure Fits (maxBodySize : Nat) (s : ReadState) : Prop where
  body : s.body.length ≤ maxBodySize
  streak : s.consecutiveEmpty < emptyBodyReadCap

/-- How many iterations are left at most: a byte of the limit pays for a
whole streak of empty reads. -/
def allowance (maxBodySize : Nat) (s : ReadState) : Nat :=
  emptyBodyReadCap * (maxBodySize - s.body.length) + (emptyBodyReadCap - s.consecutiveEmpty)

theorem loopReads_le (maxBodySize : Nat) (timeoutNs : Option Nat)
    (iterations : List Iteration) (s : ReadState) :
    loopReads maxBodySize timeoutNs s iterations ≤ iterations.length := by
  induction iterations generalizing s with
  | nil => exact Nat.le_refl 0
  | cons host rest ih =>
    have hone : iterationReads timeoutNs host ≤ 1 := by
      rw [iterationReads]
      split_ifs <;> omega
    rw [loopReads, List.length_cons]
    cases loopStep maxBodySize timeoutNs s host with
    | done r =>
      simp only
      omega
    | again s' =>
      have hrest := ih s'
      simp only
      omega

section Measure

variable {maxBodySize : Nat} {s s' : ReadState}

theorem noteEmptyBodyRead_measure (hs : Fits maxBodySize s) (h : noteEmptyBodyRead s = .ok s') :
    Fits maxBodySize s' ∧ allowance maxBodySize s' < allowance maxBodySize s := by
  rw [noteEmptyBodyRead] at h
  split_ifs at h with hcap
  obtain rfl := Except.ok.inj h
  have hstreak := hs.streak
  refine ⟨⟨hs.body, Nat.lt_of_not_le hcap⟩, ?_⟩
  simp only [allowance]
  omega

theorem readStep_measure (hs : Fits maxBodySize s) {read : StreamRead} (hread : read ≠ .data [])
    (h : readStep maxBodySize s read = .again s') :
    Fits maxBodySize s' ∧ allowance maxBodySize s' < allowance maxBodySize s := by
  cases read with
  | closed => cases h
  | lastOperationFailed => cases h
  | data bytes =>
    rw [readStep_data] at h
    split_ifs at h with hover
    obtain rfl := LoopStep.again.inj h
    have hbytes : 0 < bytes.length := List.length_pos_iff.mpr fun he => hread (he ▸ rfl)
    have hstreak := hs.streak
    have hlength : (s.body ++ bytes).length = s.body.length + bytes.length := List.length_append
    refine ⟨⟨by rw [hlength]; omega, Nat.zero_lt_succ 63⟩, ?_⟩
    simp only [allowance, hlength, emptyBodyReadCap] at hstreak ⊢
    omega

theorem loopStep_measure (hs : Fits maxBodySize s) {nanoseconds : Nat} {host : Iteration}
    (h : loopStep maxBodySize (some nanoseconds) s host = .again s') :
    Fits maxBodySize s' ∧ allowance maxBodySize s' < allowance maxBodySize s := by
  rw [loopStep] at h
  by_cases hexpired : host.expired = true
  · rw [if_pos hexpired] at h
    cases h
  rw [if_neg hexpired] at h
  by_cases hread : host.read = .data []
  · rw [if_pos hread] at h
    cases hnote : noteEmptyBodyRead s with
    | error e =>
      rw [hnote] at h
      cases h
    | ok s₁ =>
      rw [hnote] at h
      simp only at h
      split_ifs at h
      obtain rfl := LoopStep.again.inj h
      exact noteEmptyBodyRead_measure hs hnote
  · rw [if_neg hread] at h
    exact readStep_measure hs hread h

theorem allowance_pos (hs : Fits maxBodySize s) : 0 < allowance maxBodySize s := by
  have hstreak := hs.streak
  rw [allowance]
  omega

end Measure

theorem readLoop_ends (maxBodySize nanoseconds steps : Nat) (host : Nat → Iteration) {s : ReadState}
    (hs : Fits maxBodySize s) (hsteps : allowance maxBodySize s ≤ steps) :
    ∃ r, readLoop maxBodySize (some nanoseconds) s ((List.range steps).map host) = some r := by
  induction steps generalizing host s with
  | zero =>
    have hpos := allowance_pos hs
    omega
  | succ steps ih =>
    rw [List.range_succ_eq_map, List.map_cons, List.map_map, readLoop]
    cases hstep : loopStep maxBodySize (some nanoseconds) s (host 0) with
    | done r => exact ⟨r, rfl⟩
    | again s' =>
      obtain ⟨hs', hlt⟩ := loopStep_measure hs hstep
      exact ih (host ∘ Nat.succ) hs' (by omega)

/-- Against any host, a body under a read budget is decided after a bounded
number of reads. -/
theorem timed_loop_ends (maxBodySize nanoseconds : Nat) (host : Nat → Iteration) :
    ∃ steps r, readLoop maxBodySize (some nanoseconds) .initial
      ((List.range steps).map host) = some r ∧
      loopReads maxBodySize (some nanoseconds) .initial ((List.range steps).map host) ≤
        64 * (maxBodySize + 2) := by
  have hinitial : Fits maxBodySize .initial := ⟨Nat.zero_le _, by decide⟩
  have hallowance : allowance maxBodySize .initial = 64 * maxBodySize + 64 := rfl
  obtain ⟨r, hr⟩ := readLoop_ends maxBodySize nanoseconds _ host hinitial (Nat.le_refl _)
  have hreads := loopReads_le maxBodySize (some nanoseconds)
    ((List.range (allowance maxBodySize .initial)).map host) .initial
  rw [List.length_map, List.length_range] at hreads
  exact ⟨_, r, hr, by omega⟩

end LeptosWasi.BodyTermination
