import LeptosWasi.PollableInvariant

namespace LeptosWasi.ReadyPartition

open Pollables PollableInvariant

variable {P W : Type}

def pendingEntry (w : World P W) (entry : TableEntry P) : Bool :=
  w.heap[entry.registration]?.any WaitRegistration.isPending

def readied (w : World P W) (ready : P → Bool) : List Nat :=
  (w.queue.entries.filter fun entry => pendingEntry w entry && ready entry.pollable).map
    TableEntry.registration

/-- Pending entries that are not ready stay queued in their order, and the
registrations of those that are become ready. -/
def partitioned (w : World P W) (ready : P → Bool) : World P W where
  heap := w.heap.mapIdx fun i r => if i ∈ readied w ready then { r with status := .ready } else r
  queue := ⟨w.queue.nextId,
    w.queue.entries.filter fun entry => pendingEntry w entry && !ready entry.pollable⟩
  polls := w.polls

def readyWakers (w : World P W) (ready : P → Bool) : List W :=
  (readied w ready).eraseDups.filterMap fun i => w.heap[i]?.map WaitRegistration.taskWaker

/-- A dispatch with its wakes. A wake may run any code on the state it finds. -/
def dispatchAndWake (wake : World P W → W → World P W) (w : World P W) (reported : List Nat) :
    World P W × Bool :=
  let (w, wakers, polled) := w.dispatchReady reported
  (wakers.foldl wake w, polled)

def sweepAndWake (wake : World P W → W → World P W) (w : World P W) (ready : P → Bool) :
    World P W × Bool :=
  let (w, wakers, progressed) := w.sweepReady ready
  (wakers.foldl wake w, progressed)

/-- A host that reports the indices of the pending entries that are ready. It
may repeat them in any order, and report others that are out of range. -/
def Reports (w : World P W) (ready : P → Bool) (reported : List Nat) : Prop :=
  ∀ i entry, w.takePending[i]? = some entry → (i ∈ reported ↔ ready entry.pollable = true)

section Duplicates

theorem eraseDups_filter (p : Nat → Bool) (xs : List Nat) :
    (xs.filter p).eraseDups = xs.eraseDups.filter p := by
  induction h : xs.length using Nat.strongRecOn generalizing xs with
  | ind n ih =>
    cases xs with
    | nil => rfl
    | cons x xs =>
      have hlen : (xs.filter fun y => !y == x).length < n := by
        have hle := List.length_filter_le (fun y => !y == x) xs
        rw [List.length_cons] at h
        omega
      have hrest := ih _ hlen (xs.filter fun y => !y == x) rfl
      rw [List.eraseDups_cons]
      by_cases hp : p x = true
      · rw [List.filter_cons_of_pos hp, List.filter_cons_of_pos hp, List.eraseDups_cons, ← hrest,
          List.filter_filter, List.filter_filter]
        simp only [Bool.and_comm]
      · rw [List.filter_cons_of_neg hp, List.filter_cons_of_neg hp, ← hrest, List.filter_filter]
        congr 1
        apply List.filter_congr
        intro y _
        by_cases hy : y = x
        · simp [hy, hp]
        · simp [hy]

theorem eraseDups_of_nodup {xs : List Nat} (h : xs.Nodup) : xs.eraseDups = xs := by
  induction xs with
  | nil => rfl
  | cons x xs ih =>
    obtain ⟨hx, hxs⟩ := List.nodup_cons.mp h
    have hsame : xs.filter (fun y => !y == x) = xs := by
      rw [List.filter_eq_self]
      intro y hy
      have hne : y ≠ x := fun he => hx (he ▸ hy)
      simp [hne]
    rw [List.eraseDups_cons, hsame, ih hxs]

end Duplicates

section Settle

def markedWaker (heap : List (WaitRegistration W)) (i : Nat) : Option W :=
  heap[i]?.bind fun r => r.markReady.2

theorem markReady_twice (r : WaitRegistration W) :
    r.markReady.1.markReady = (r.markReady.1, none) := by
  by_cases h : r.status = .pending
  · simp [WaitRegistration.markReady, WaitRegistration.isPending, h]
  · simp [WaitRegistration.markReady, WaitRegistration.isPending, h]

theorem markedWaker_modify (heap : List (WaitRegistration W)) (i j : Nat) :
    markedWaker (heap.modify i fun r => r.markReady.1) j = if j = i then none
    else markedWaker heap j := by
  rw [markedWaker, List.getElem?_modify, markedWaker]
  by_cases hij : i = j
  · subst hij
    cases heap[i]? with
    | none => simp
    | some r => simp [markReady_twice]
  · cases heap[j]? <;> simp [hij, Ne.symm hij]

theorem settle_heap (flagged : List (TableEntry P × Bool))
    (heap : List (WaitRegistration W)) (i : Nat) :
    (World.settle heap flagged).1[i]? = heap[i]?.map fun r =>
    if i ∈ moved flagged then r.markReady.1 else r := by
  induction flagged generalizing heap with
  | nil => simp [World.settle, moved]
  | cons e flagged ih =>
    obtain ⟨entry, isReady⟩ := e
    cases isReady with
    | false => exact ih heap
    | true =>
      have hmoved : moved ((entry, true) :: flagged) = entry.registration :: moved flagged := rfl
      refine (ih _).trans ?_
      rw [List.getElem?_modify, hmoved]
      cases heap[i]? with
      | none => rfl
      | some r =>
        by_cases hi : entry.registration = i
        · subst hi
          simp [markReady_twice]
        · simp [hi, Ne.symm hi]

theorem settle_wakers (flagged : List (TableEntry P × Bool)) (heap : List (WaitRegistration W)) :
    (World.settle heap flagged).2.2 = (moved flagged).eraseDups.filterMap (markedWaker heap) := by
  induction flagged generalizing heap with
  | nil => rfl
  | cons e flagged ih =>
    obtain ⟨entry, isReady⟩ := e
    cases isReady with
    | false => exact ih heap
    | true =>
      have hmoved : moved ((entry, true) :: flagged) = entry.registration :: moved flagged := rfl
      change (markedWaker heap entry.registration).toList ++
        (World.settle (heap.modify entry.registration fun r => r.markReady.1) flagged).2.2 = _
      have hlater : (moved flagged).eraseDups.filterMap
            (markedWaker (heap.modify entry.registration fun r => r.markReady.1)) =
          ((moved flagged).filter fun j => !j == entry.registration).eraseDups.filterMap
          (markedWaker heap) := by
        rw [eraseDups_filter, List.filterMap_filter]
        apply List.filterMap_congr
        intro j _
        rw [markedWaker_modify]
        by_cases hj : j = entry.registration
        · simp [hj]
        · simp [hj]
      rw [ih, hlater, hmoved, List.eraseDups_cons, List.filterMap_cons]
      cases markedWaker heap entry.registration <;> rfl

end Settle

section Flags

variable (w : World P W) (ready : P → Bool)

def flagged : List (TableEntry P × Bool) :=
  w.takePending.map fun entry => (entry, ready entry.pollable)

theorem takePending_eq_filter : w.takePending = w.queue.entries.filter (pendingEntry w) := rfl

theorem moved_flagged : moved (flagged w ready) = readied w ready := by
  simp only [moved, flagged, readied, takePending_eq_filter, List.filter_map, List.map_map,
    List.filter_filter, Function.comp_def, Bool.and_comm]

theorem kept_flagged : kept (flagged w ready) =
    w.queue.entries.filter fun entry => pendingEntry w entry && !ready entry.pollable := by
  simp only [kept, flagged, takePending_eq_filter,
    List.filter_map, List.map_map, List.filter_filter,
    Function.comp_def, Bool.and_comm, List.map_id']

variable {w} {ready}

theorem pending_of_readied {i : Nat} (hi : i ∈ readied w ready) :
    ∃ r, w.heap[i]? = some r ∧ r.isPending = true := by
  obtain ⟨entry, he, rfl⟩ := List.mem_map.mp hi
  have hp := (List.mem_filter.mp he).2
  rw [Bool.and_eq_true, pendingEntry, Option.any_eq_true] at hp
  exact hp.1

theorem markReady_pending {r : WaitRegistration W} (h : r.isPending = true) :
    r.markReady = ({ r with status := .ready }, some r.taskWaker) := by
  rw [WaitRegistration.markReady, if_pos h]

variable (w) (ready) in
theorem settle_flagged : (World.settle w.heap (flagged w ready)).1 = (partitioned w ready).heap ∧
    (World.settle w.heap (flagged w ready)).2.1 = (partitioned w ready).queue.entries ∧
    (World.settle w.heap (flagged w ready)).2.2 = readyWakers w ready := by
  refine ⟨?_, ?_, ?_⟩
  · apply List.ext_getElem?
    intro i
    rw [settle_heap, moved_flagged, partitioned, List.getElem?_mapIdx]
    cases hr : w.heap[i]? with
    | none => rfl
    | some r =>
      by_cases hi : i ∈ readied w ready
      · obtain ⟨r', hr', hp⟩ := pending_of_readied hi
        obtain rfl := Option.some.inj (hr.symm.trans hr')
        simp [hi, markReady_pending hp]
      · simp [hi]
  · rw [settle_kept, kept_flagged]
    rfl
  · rw [settle_wakers, moved_flagged, readyWakers]
    apply List.filterMap_congr
    intro i hi
    obtain ⟨r, hr, hp⟩ := pending_of_readied (List.mem_eraseDups.mp hi)
    rw [markedWaker, hr, Option.bind_some, markReady_pending hp]
    rfl

theorem getElem?_readyFlags (length : Nat) (reported : List Nat) (i : Nat) (hi : i < length) :
    (World.readyFlags length reported)[i]? = some (decide (i ∈ reported)) := by
  have hfold : ∀ flags : List Bool, i < flags.length →
      (reported.foldl (fun flags index => flags.set index true) flags)[i]? =
        if i ∈ reported then some true else flags[i]? := by
    induction reported with
    | nil => simp
    | cons index reported ih =>
      intro flags hlt
      rw [List.foldl_cons, ih _ (by rwa [List.length_set]), List.getElem?_set]
      by_cases he : index = i
      · subst he
        simp [hlt]
      · simp [he, Ne.symm he]
  rw [World.readyFlags, hfold _ (by rwa [List.length_replicate]),
    List.getElem?_replicate, if_pos hi]
  split_ifs with h <;> simp [h]

theorem zip_readyFlags {reported : List Nat} (h : Reports w ready reported) :
    w.takePending.zip (World.readyFlags w.takePending.length reported) = flagged w ready := by
  apply List.ext_getElem?
  intro i
  rw [flagged, List.getElem?_map]
  cases he : w.takePending[i]? with
  | none =>
    rw [List.getElem?_eq_none]
    · rfl
    · rw [List.length_zip, length_readyFlags, Nat.min_self]
      exact List.getElem?_eq_none_iff.mp he
  | some entry =>
    have hi : i < w.takePending.length := (List.getElem?_eq_some_iff.mp he).1
    have hflag : decide (i ∈ reported) = ready entry.pollable :=
      Bool.eq_iff_iff.mpr (decide_eq_true_iff.trans (h i entry he))
    rw [Option.map_some, ← hflag]
    exact List.getElem?_zip_eq_some.mpr ⟨he, getElem?_readyFlags _ reported i hi⟩

end Flags

section Functions

variable {w : World P W} {ready : P → Bool}

variable (w) (ready) in
theorem settled_world :
    (⟨(World.settle w.heap (flagged w ready)).1,
      ⟨w.queue.nextId, (World.settle w.heap (flagged w ready)).2.1⟩, w.polls⟩ : World P W) =
      partitioned w ready := by
  obtain ⟨hheap, hqueue, -⟩ := settle_flagged w ready
  rw [hheap, hqueue]
  rfl

variable (ready) in
theorem partitioned_of_empty (h : w.takePending = []) :
    w.setEntries [] = partitioned w ready ∧ readyWakers w ready = [] := by
  have hnone : flagged w ready = [] := by
    rw [flagged, h]
    rfl
  have hworld := settled_world w ready
  obtain ⟨-, -, hwakers⟩ := settle_flagged w ready
  rw [hnone] at hworld hwakers
  exact ⟨hworld, hwakers.symm⟩

theorem dispatchReady_partitions {reported : List Nat} (h : Reports w ready reported) :
    w.dispatchReady reported = (partitioned w ready,
      readyWakers w ready, !w.takePending.isEmpty) := by
  simp only [World.dispatchReady]
  cases hpending : w.takePending with
  | nil =>
    obtain ⟨hworld, hwakers⟩ := partitioned_of_empty ready hpending
    rw [hworld, hwakers]
    rfl
  | cons entry entries =>
    obtain ⟨-, -, hwakers⟩ := settle_flagged w ready
    have hworld := settled_world w ready
    rw [← hpending, zip_readyFlags h, hpending]
    rw [← hworld, ← hwakers]
    rfl

theorem sweepReady_partitions : w.sweepReady ready =
    (partitioned w ready, readyWakers w ready,
      w.takePending.any fun entry => ready entry.pollable) := by
  simp only [World.sweepReady]
  cases hpending : w.takePending with
  | nil =>
    obtain ⟨hworld, hwakers⟩ := partitioned_of_empty ready hpending
    rw [hworld, hwakers]
    rfl
  | cons entry entries =>
    obtain ⟨-, -, hwakers⟩ := settle_flagged w ready
    have hworld := settled_world w ready
    rw [flagged, hpending] at hworld hwakers
    rw [← hworld, ← hwakers]
    rfl

end Functions

/-- Blocking dispatch and non-blocking sweep end in the same state and wake
the same wakers in it. They differ in what they report. -/
theorem dispatch_and_sweep_agree (w : World P W) (ready : P → Bool) (reported : List Nat)
    (h : Reports w ready reported) :
    (∀ wake : World P W → W → World P W,
      (dispatchAndWake wake w reported).1 = (readyWakers w ready).foldl wake (partitioned w ready) ∧
      (sweepAndWake wake w ready).1 = (readyWakers w ready).foldl wake (partitioned w ready) ∧
      ((dispatchAndWake wake w reported).2 = true ↔
        ∃ entry ∈ w.queue.entries, pendingEntry w entry) ∧
      ((sweepAndWake wake w ready).2 = true ↔
        ∃ entry ∈ w.queue.entries, pendingEntry w entry ∧ ready entry.pollable)) ∧
    (∀ entry ∈ w.queue.entries, pendingEntry w entry → ready entry.pollable →
      statusAt (partitioned w ready).heap entry.registration = some .ready) ∧
    (∀ i, i ∉ readied w ready → (partitioned w ready).heap[i]? = w.heap[i]?) ∧
    ((queued w).Nodup → readyWakers w ready =
      (w.queue.entries.filter fun entry => pendingEntry w entry && ready entry.pollable).filterMap
        fun entry => w.heap[entry.registration]?.map WaitRegistration.taskWaker) := by
  refine ⟨fun wake => ⟨?_, ?_, ?_, ?_⟩, fun entry he hp hr => ?_, fun i hi => ?_, fun hn => ?_⟩
  · rw [dispatchAndWake, dispatchReady_partitions h]
  · rw [sweepAndWake, sweepReady_partitions]
  · rw [dispatchAndWake, dispatchReady_partitions h, takePending_eq_filter]
    simp
  · rw [sweepAndWake, sweepReady_partitions, takePending_eq_filter]
    simp
  · have hi : entry.registration ∈ readied w ready := by
      refine List.mem_map_of_mem (List.mem_filter.mpr ⟨he, ?_⟩)
      rw [hp, hr]
      rfl
    obtain ⟨r, hr, -⟩ := pending_of_readied hi
    simp [statusAt, partitioned, hr, hi]
  · rw [partitioned, List.getElem?_mapIdx]
    cases w.heap[i]? <;> simp [hi]
  · have hdistinct : (readied w ready).Nodup := hn.sublist (List.filter_sublist.map _)
    rw [readyWakers, eraseDups_of_nodup hdistinct, readied, List.filterMap_map]
    rfl

def mixedQueue : World Nat Nat where
  heap := [⟨1, .pending, 11⟩, ⟨2, .canceled, 12⟩, ⟨3, .pending, 13⟩, ⟨4, .ready, 14⟩]
  queue := ⟨5, [⟨21, 0⟩, ⟨22, 1⟩, ⟨23, 2⟩, ⟨24, 3⟩]⟩
  polls := []

/-- The second pending entry is reported twice, and beside it an index that
does not exist. -/
theorem dispatch_and_sweep_agree_mixed :
    (mixedQueue.dispatchReady [1, 9, 1]).1 = (mixedQueue.sweepReady (· == 23)).1 := by
  have hreports : Reports mixedQueue (· == 23) [1, 9, 1] := by
    have hpending : mixedQueue.takePending = [⟨21, 0⟩, ⟨23, 2⟩] := rfl
    intro i entry he
    rw [hpending] at he
    obtain _ | _ | i := i
    · cases he
      decide
    · cases he
      decide
    · cases he
  obtain ⟨hdispatch, hsweep, -⟩ :=
    (dispatch_and_sweep_agree mixedQueue (· == 23) [1, 9, 1] hreports).1 fun w _ => w
  simp only [dispatchAndWake, List.foldl_fixed] at hdispatch
  simp only [sweepAndWake, List.foldl_fixed] at hsweep
  exact hdispatch.trans hsweep.symm

end LeptosWasi.ReadyPartition
