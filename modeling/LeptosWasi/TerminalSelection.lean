import Mathlib.Data.List.Rotate
import LeptosWasi.IngressBulkheads

namespace LeptosWasi.TrustedIngress

def healthy (loads : List (Bool × Nat)) : List (Nat × Nat) :=
  (loads.zipIdx.filter (·.1.1)).map fun e => (e.2, e.1.2)

/-- The healthy terminals that are loaded least. -/
def candidates (loads : List (Bool × Nat)) : List Nat :=
  match ((healthy loads).map Prod.snd).min? with
  | none => []
  | some minimum => ((healthy loads).filter (·.2 = minimum)).map Prod.fst

section Candidates

variable {loads : List (Bool × Nat)} {i n : Nat}

theorem selectTerminal_eq (loads : List (Bool × Nat)) (cursor : Nat) :
    selectTerminal loads cursor = (candidates loads)[cursor % (candidates loads).length]? := by
  rw [selectTerminal, candidates, healthy]
  cases hmin : (((loads.zipIdx.filter (·.1.1)).map fun e => (e.2, e.1.2)).map Prod.snd).min? with
  | none => simp
  | some minimum => simp

theorem mem_healthy : (i, n) ∈ healthy loads ↔ loads[i]? = some (true, n) := by
  simp only [healthy, List.mem_map, List.mem_filter,
    List.mem_zipIdx_iff_getElem?, Prod.mk.injEq, Prod.exists]
  constructor
  · rintro ⟨flag, m, j, ⟨hload, hflag⟩, rfl, rfl⟩
    rw [hload, show flag = true from hflag]
  · intro hload
    exact ⟨true, n, i, ⟨hload, rfl⟩, rfl, rfl⟩

theorem mem_candidates : i ∈ candidates loads ↔
    ∃ n, loads[i]? = some (true, n) ∧ ∀ (j m : Nat), loads[j]? = some (true, m) → n ≤ m := by
  rw [candidates]
  cases hmin : ((healthy loads).map Prod.snd).min? with
  | none =>
    have hempty : healthy loads = [] := List.map_eq_nil_iff.mp (List.min?_eq_none_iff.mp hmin)
    refine iff_of_false List.not_mem_nil ?_
    rintro ⟨n, hload, -⟩
    rw [← mem_healthy, hempty] at hload
    cases hload
  | some minimum =>
    obtain ⟨hmem, hle⟩ := List.min?_eq_some_iff.mp hmin
    simp only [List.mem_map, List.mem_filter, decide_eq_true_eq,
      Prod.exists, exists_and_right, exists_eq_right]
    constructor
    · intro hhealthy
      refine ⟨minimum, mem_healthy.mp hhealthy, fun j m hload => hle m ?_⟩
      exact List.mem_map.mpr ⟨(j, m), mem_healthy.mpr hload, rfl⟩
    · rintro ⟨n, hload, hleast⟩
      obtain ⟨⟨j, m⟩, hj, rfl⟩ := List.mem_map.mp hmem
      obtain rfl : n = m := Nat.le_antisymm (hleast j m (mem_healthy.mp hj))
        (hle n (List.mem_map.mpr ⟨(i, n), mem_healthy.mpr hload, rfl⟩))
      exact mem_healthy.mpr hload

theorem candidates_eq_nil : candidates loads = [] ↔ ∀ load ∈ loads, load.1 = false := by
  have hhealthy : candidates loads = [] ↔ healthy loads = [] := by
    rw [candidates]
    cases hmin : ((healthy loads).map Prod.snd).min? with
    | none => exact iff_of_true rfl (List.map_eq_nil_iff.mp (List.min?_eq_none_iff.mp hmin))
    | some minimum =>
      obtain ⟨⟨i, n⟩, hmem, rfl⟩ := List.mem_map.mp (List.min?_eq_some_iff.mp hmin).1
      refine iff_of_false (List.ne_nil_of_mem (a := i) ?_) (List.ne_nil_of_mem hmem)
      exact List.mem_map.mpr ⟨(i, n), List.mem_filter.mpr ⟨hmem, decide_eq_true rfl⟩, rfl⟩
  rw [hhealthy, List.eq_nil_iff_forall_not_mem]
  constructor
  · rintro h ⟨flag, n⟩ hload
    obtain ⟨i, hi, hget⟩ := List.mem_iff_getElem.mp hload
    cases flag with
    | false => rfl
    | true => exact absurd (mem_healthy.mpr (List.getElem?_eq_some_iff.mpr ⟨hi, hget⟩)) (h (i, n))
  · rintro h ⟨i, n⟩ hmem
    cases h _ (List.mem_of_getElem? (mem_healthy.mp hmem))

/-- Every candidate is chosen at some cursor, and nothing else at any. -/
theorem selectTerminal_candidates :
    (∃ cursor, selectTerminal loads cursor = some i) ↔ i ∈ candidates loads := by
  constructor
  · rintro ⟨cursor, h⟩
    rw [selectTerminal_eq] at h
    exact List.mem_of_getElem? h
  · intro h
    obtain ⟨cursor, hlt, hget⟩ := List.mem_iff_getElem.mp h
    refine ⟨cursor, ?_⟩
    rw [selectTerminal_eq, Nat.mod_eq_of_lt hlt, List.getElem?_eq_getElem hlt, hget]

theorem candidates_nodup (loads : List (Bool × Nat)) : (candidates loads).Nodup := by
  have hhealthy : ((healthy loads).map Prod.fst).Nodup := by
    have hsublist : ((healthy loads).map Prod.fst).Sublist (loads.zipIdx.map Prod.snd) := by
      rw [healthy, List.map_map]
      exact List.filter_sublist.map Prod.snd
    refine hsublist.nodup ?_
    rw [List.zipIdx_map_snd]
    exact List.nodup_range' ..
  rw [candidates]
  cases ((healthy loads).map Prod.snd).min? with
  | none => exact List.nodup_nil
  | some minimum => exact (List.filter_sublist.map Prod.fst).nodup hhealthy

end Candidates

section Rotation

variable {A C : Type} (ingress : Ingress A C) (loads : List (Bool × Nat))

/-- What requests choose one after another, while the loads stay. -/
def choices (m : Shared) : List Passed → List (Option Nat)
  | [] => []
  | passed :: rest =>
    selectTerminal loads m.terminalCursor :: choices (ingress.select m passed loads).1 rest

theorem choices_eq (m : Shared) (requests : List Passed) (hsome : candidates loads ≠ [])
    (hcursor : m.terminalCursor + requests.length ≤ 2 ^ 64) :
    choices ingress loads m requests =
      (List.range requests.length).map fun k => selectTerminal loads (m.terminalCursor + k) := by
  induction requests generalizing m with
  | nil => rfl
  | cons passed requests ih =>
    rw [List.length_cons] at hcursor
    obtain ⟨index, hindex⟩ : ∃ index, selectTerminal loads m.terminalCursor = some index := by
      have hlt := Nat.mod_lt m.terminalCursor (List.length_pos_iff.mpr hsome)
      rw [selectTerminal_eq]
      exact ⟨_, List.getElem?_eq_getElem hlt⟩
    have hnext :
      (ingress.select m passed loads).1.terminalCursor = (m.terminalCursor + 1) % 2 ^ 64 := by
      rw [Ingress.select, hindex]
    rw [choices, List.length_cons, List.range_succ_eq_map,
      List.map_cons, List.map_map, Nat.add_zero]
    cases requests with
    | nil => rfl
    | cons passed' requests =>
      rw [List.length_cons] at hcursor
      have hmod : (m.terminalCursor + 1) % 2 ^ 64 = m.terminalCursor + 1 :=
        Nat.mod_eq_of_lt (by omega)
      rw [hmod] at hnext
      rw [ih _ (by rw [hnext, List.length_cons]; omega), hnext]
      refine congrArg _ (List.map_congr_left fun k _ => ?_)
      rw [Function.comp_apply, Nat.succ_eq_add_one, Nat.add_assoc, Nat.add_comm 1 k]

/-- Requests that find the same loads take the least loaded healthy terminals
in turn. -/
theorem terminals_in_turn (m : Shared) (requests : List Passed)
    (hlength : requests.length = (candidates loads).length)
    (hcursor : m.terminalCursor + requests.length ≤ 2 ^ 64) :
    (choices ingress loads m requests).Perm ((candidates loads).map some) ∧
      (candidates loads).Nodup ∧
      (∀ i, i ∈ candidates loads ↔
        ∃ n, loads[i]? = some (true, n) ∧ ∀ (j m : Nat), loads[j]? = some (true, m) → n ≤ m) ∧
      (∀ i, (∃ cursor, selectTerminal loads cursor = some i) ↔
        ∃ n, loads[i]? = some (true, n) ∧ ∀ (j m : Nat), loads[j]? = some (true, m) → n ≤ m) ∧
      ∀ cursor, selectTerminal loads cursor = none ↔ ∀ load ∈ loads, load.1 = false := by
  refine ⟨?_, candidates_nodup loads, fun i => mem_candidates,
    fun i => selectTerminal_candidates.trans mem_candidates, fun cursor => ?_⟩
  · obtain hempty | hsome := eq_or_ne (candidates loads) []
    · rw [hempty] at hlength ⊢
      rw [List.length_eq_zero_iff.mp hlength]
      exact .refl _
    · have hrotate : choices ingress loads m requests =
        ((candidates loads).rotate m.terminalCursor).map some := by
        rw [choices_eq ingress loads m requests hsome hcursor]
        refine List.ext_getElem (by simp [hlength]) fun k hk _ => ?_
        rw [List.length_map, List.length_range, hlength] at hk
        rw [List.getElem_map, List.getElem_map, List.getElem_range,
          List.getElem_rotate, selectTerminal_eq,
          Nat.add_comm k]
        exact List.getElem?_eq_getElem _
      rw [hrotate]
      exact (List.rotate_perm _ _).map some
  · rw [← candidates_eq_nil, selectTerminal_eq, List.getElem?_eq_none_iff]
    constructor
    · intro hle
      by_contra hsome
      exact absurd (Nat.mod_lt cursor (List.length_pos_iff.mpr hsome)) (Nat.not_lt.mpr hle)
    · intro hempty
      rw [hempty]
      exact Nat.zero_le _

end Rotation

theorem terminals_in_turn_two :
    (choices plainIngress [(true, 1), (false, 0), (true, 1), (true, 2)] .start
      [⟨[], none, ∅⟩, ⟨[], none, ∅⟩]).Perm [some 0, some 2] :=
  (terminals_in_turn plainIngress [(true, 1), (false, 0), (true, 1), (true, 2)] .start
    [⟨[], none, ∅⟩, ⟨[], none, ∅⟩] (by decide) (by decide)).1

end LeptosWasi.TrustedIngress
