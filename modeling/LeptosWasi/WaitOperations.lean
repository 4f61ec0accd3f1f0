import LeptosWasi.PollableInvariant

namespace LeptosWasi.WaitOperations

open Pollables PollableInvariant

variable {P W : Type}

inductive Op (P W : Type) where
  | new (pollable : P)
  | poll (handle : Nat) (waker : W)
  | drop (handle : Nat)
  | dispatchReady (ready : List Nat)
  | sweepReady (ready : P → Bool)

/-- Only a future that is alive is polled or dropped. -/
def Op.enabled (w : World P W) : Op P W → Prop
  | .poll handle _ | .drop handle => ∃ inner, w.polls[handle]? = some (some inner)
  | .new _ | .dispatchReady _ | .sweepReady _ => True

def Op.apply (willWake : W → W → Bool) (w : World P W) : Op P W → World P W × List W
  | .new pollable => (w.newWaitPoll pollable, [])
  | .poll handle waker => ((w.pollWait willWake true handle waker).1, [])
  | .drop handle => (w.dropWait true handle, [])
  | .dispatchReady ready => ((w.dispatchReady ready).1, (w.dispatchReady ready).2.1)
  | .sweepReady ready => ((w.sweepReady ready).1, (w.sweepReady ready).2.1)

section Step

variable {willWake : W → W → Bool} {lost : Nat → Prop} {w : World P W}

theorem consistent_settled (hc : Consistent lost w) {flagged : List (TableEntry P × Bool)}
    (hf : Flags w flagged) : Consistent lost (settled w flagged (kept flagged)) := by
  have hs := hc.settled hf (List.Sublist.refl _)
  refine ⟨hs.bound, hs.fresh, hs.ids, hs.distinct, hs.pending, hs.live, hs.holder, hs.cell, ?_⟩
  intro h r hh hpending
  obtain hq | hl | ⟨hq, hm, hk⟩ := hs.waiting h r hh hpending
  · exact Or.inl hq
  · exact Or.inr hl
  · exact absurd ((mem_kept_iff hc hf).mpr ⟨hq, hm⟩) hk

theorem consistent_apply (hc : Consistent lost w) (op : Op P W) :
    Consistent lost (op.apply willWake w).1 := by
  cases op with
  | new pollable => exact hc.newWaitPoll pollable
  | poll h waker => exact hc.pollStep (pollWait_step w willWake true h waker)
  | drop h => exact hc.dropWait h
  | dispatchReady ready =>
    obtain ⟨flagged, hf, heq, -⟩ := dispatchReady_settles hc ready
    rw [Op.apply, heq]
    exact consistent_settled hc hf
  | sweepReady ready =>
    obtain ⟨flagged, hf, heq, -⟩ := sweepReady_settles hc ready
    rw [Op.apply, heq]
    exact consistent_settled hc hf

/-- What an operation does to the registrations: no identifier changes, a
status leaves pending only, and the moved ones are those that become ready. -/
structure Transition (w w' : World P W) (moved : List Nat) : Prop where
  ids : w.heap.map WaitRegistration.id <+: w'.heap.map WaitRegistration.id
  status : ∀ r s, statusAt w.heap r = some s → statusAt w'.heap r = some s ∨ s = .pending ∧
    (statusAt w'.heap r = some .ready ∨ statusAt w'.heap r = some .canceled)
  nodup : moved.Nodup
  ready : ∀ r, r ∈ moved ↔ statusAt w.heap r = some .pending ∧ statusAt w'.heap r = some .ready

theorem Transition.length_le {w' : World P W} {moved : List Nat} (ht : Transition w w' moved) :
    w.heap.length ≤ w'.heap.length := by
  have hlen := ht.ids.length_le
  rwa [List.length_map, List.length_map] at hlen

theorem transition_none {w' : World P W}
    (hids : w.heap.map WaitRegistration.id <+: w'.heap.map WaitRegistration.id)
    (hstatus : ∀ r s, statusAt w.heap r = some s →
      statusAt w'.heap r = some s ∨ s = .pending ∧ statusAt w'.heap r = some .canceled) :
    Transition w w' [] := by
  refine ⟨hids, fun r s hs => ?_, List.nodup_nil, fun r => ?_⟩
  · exact (hstatus r s hs).imp_right fun h => ⟨h.1, Or.inr h.2⟩
  · refine iff_of_false List.not_mem_nil fun ⟨hs, hready⟩ => ?_
    obtain h | ⟨-, h⟩ := hstatus r .pending hs
    · rw [h] at hready
      cases hready
    · rw [h] at hready
      cases hready

theorem transition_pollStep {h : Nat} {waker : W} {w' : World P W}
    (hs : PollStep willWake w h waker w') : Transition w w' [] := by
  cases hs with
  | unchanged hn => exact transition_none List.prefix_rfl fun r s h => Or.inl h
  | failed hn error => exact transition_none List.prefix_rfl fun r s h => Or.inl h
  | registered w' hn hr =>
    apply transition_none
    · rw [hr.heap, List.map_append]
      exact List.prefix_append _ _
    · intro r s hs
      left
      obtain ⟨cell, hcell, rfl⟩ := Option.map_eq_some_iff.mp hs
      rw [statusAt, hr.getElem? (List.getElem?_eq_some_iff.mp hcell).1, hcell]
      rfl
  | repolled r hh =>
    apply transition_none
    · have hids := ids_modify w.heap r fun cell => poll_id willWake cell waker
      exact hids ▸ List.prefix_rfl
    · intro r' s hs
      left
      rw [statusAt_modify]
      split_ifs with hr
      · simp only [poll_status]
        exact hs
      · exact hs

theorem transition_drop (hc : Consistent lost w) (h : Nat) :
    Transition w (w.dropWait true h) [] := by
  by_cases hreg : ∃ r, Holds w h r
  · obtain ⟨r, hh⟩ := hreg
    obtain ⟨hheap, -⟩ := dropWait_registered hc hh
    apply transition_none
    · have hids := ids_modify w.heap r cancel_id
      rw [← hheap] at hids
      exact hids ▸ List.prefix_rfl
    · intro r' s hs
      rw [hheap, statusAt_modify]
      split_ifs with hr
      · obtain ⟨cell, hcell, rfl⟩ := Option.map_eq_some_iff.mp hs
        rw [hcell, Option.map_some, WaitRegistration.cancel, WaitRegistration.isPending]
        cases hstatus : cell.status <;> simp [hstatus]
      · exact Or.inl hs
  · rw [dropWait_unregistered fun r hh => hreg ⟨r, hh⟩]
    exact transition_none List.prefix_rfl fun r s h => Or.inl h

theorem transition_settled (hc : Consistent lost w) {flagged : List (TableEntry P × Bool)}
    (hf : Flags w flagged) (entries : List (TableEntry P)) :
    Transition w (settled w flagged entries) (moved flagged) := by
  have hstatus := statusAt_settled hc hf entries
  refine ⟨?_, fun r s hs => ?_, moved_nodup hc hf, fun r => ?_⟩
  · have hids := settle_ids flagged w.heap
    exact hids ▸ List.prefix_rfl
  · rw [hstatus]
    split_ifs with hm
    · rw [hc.pending r (moved_subset hf hm)] at hs
      cases hs
      exact Or.inr ⟨rfl, Or.inl rfl⟩
    · exact Or.inl hs
  · rw [hstatus]
    constructor
    · intro hm
      exact ⟨hc.pending r (moved_subset hf hm), if_pos hm⟩
    · rintro ⟨hs, hr⟩
      by_contra hm
      rw [if_neg hm, hs] at hr
      cases hr

/-- What an operation wakes: one stored waker for each registration that it
makes ready. -/
theorem transition_apply (hc : Consistent lost w) (willWake : W → W → Bool) (op : Op P W) :
    ∃ moved, Transition w (op.apply willWake w).1 moved ∧ (∀ r ∈ moved, r ∈ queued w) ∧
      (op.apply willWake w).2 = moved.filterMap fun r =>
      w.heap[r]?.map WaitRegistration.taskWaker := by
  cases op with
  | new pollable =>
    exact ⟨[], transition_none List.prefix_rfl fun r s h => Or.inl h, by simp, rfl⟩
  | poll h waker =>
    exact ⟨[], transition_pollStep (pollWait_step w willWake true h waker), by simp, rfl⟩
  | drop h => exact ⟨[], transition_drop hc h, by simp, rfl⟩
  | dispatchReady ready =>
    obtain ⟨flagged, hf, heq, hwakers⟩ := dispatchReady_settles hc ready
    refine ⟨moved flagged, ?_, fun r => moved_subset hf, ?_⟩
    · rw [Op.apply, heq]
      exact transition_settled hc hf _
    · rw [Op.apply, hwakers]
      exact (settled_heap hc hf).2
  | sweepReady ready =>
    obtain ⟨flagged, hf, heq, hwakers⟩ := sweepReady_settles hc ready
    refine ⟨moved flagged, ?_, fun r => moved_subset hf, ?_⟩
    · rw [Op.apply, heq]
      exact transition_settled hc hf _
    · rw [Op.apply, hwakers]
      exact (settled_heap hc hf).2

theorem queued_pollStep {h : Nat} {waker : W} {w' : World P W} (hs : PollStep willWake w h waker w')
    {r : Nat} (hr : r ∈ queued w') : r ∈ queued w ∨ w.heap.length ≤ r := by
  cases hs with
  | unchanged hn => exact Or.inl hr
  | failed hn error => exact Or.inl hr
  | repolled r' hh => exact Or.inl hr
  | registered w' hn hr' => exact (hr'.mem_queued.mp hr).imp_right fun heq => Nat.le_of_eq heq.symm

theorem queued_apply (hc : Consistent lost w) (op : Op P W) {r : Nat}
    (hr : r ∈ queued (op.apply willWake w).1) : r ∈ queued w ∨ w.heap.length ≤ r := by
  cases op with
  | new pollable => exact Or.inl hr
  | poll h waker => exact queued_pollStep (pollWait_step w willWake true h waker) hr
  | drop h =>
    by_cases hreg : ∃ r, Holds w h r
    · obtain ⟨r', hh⟩ := hreg
      obtain ⟨-, -, hqueue, -⟩ := dropWait_registered hc hh
      rw [Op.apply, hqueue] at hr
      exact Or.inl (List.mem_of_mem_erase hr)
    · rw [Op.apply, dropWait_unregistered fun r hh => hreg ⟨r, hh⟩] at hr
      exact Or.inl hr
  | dispatchReady ready =>
    obtain ⟨flagged, hf, heq, -⟩ := dispatchReady_settles hc ready
    rw [Op.apply, heq] at hr
    exact Or.inl ((mem_kept_iff hc hf).mp hr).1
  | sweepReady ready =>
    obtain ⟨flagged, hf, heq, -⟩ := sweepReady_settles hc ready
    rw [Op.apply, heq] at hr
    exact Or.inl ((mem_kept_iff hc hf).mp hr).1

end Step

end LeptosWasi.WaitOperations
