import Mathlib.Data.List.Nodup
import LeptosWasi.Library.Runs
import LeptosWasi.Pollables

namespace LeptosWasi.PollableInvariant

open Pollables

variable {P W : Type}

def Holds (w : World P W) (handle registration : Nat) : Prop :=
  w.polls[handle]? = some (some (.registered registration))

def statusAt (heap : List (WaitRegistration W)) (registration : Nat) : Option RegistrationStatus :=
  heap[registration]?.map WaitRegistration.status

def queued (w : World P W) : List Nat := w.queue.entries.map TableEntry.registration

/-- The invariant of a queue and its futures. A pending registration that a
future holds is queued, unless it is among the lost ones. -/
structure Consistent (lost : Nat → Prop) (w : World P W) : Prop where
  bound : w.queue.nextId < 2 ^ 64
  fresh : ∀ id ∈ w.heap.map WaitRegistration.id, id < w.queue.nextId
  ids : (w.heap.map WaitRegistration.id).Nodup
  distinct : (queued w).Nodup
  pending : ∀ r ∈ queued w, statusAt w.heap r = some .pending
  live : ∀ r ∈ queued w, ∃ handle, Holds w handle r
  holder : ∀ h₁ h₂ r, Holds w h₁ r → Holds w h₂ r → h₁ = h₂
  cell : ∀ h r, Holds w h r → r < w.heap.length
  waiting : ∀ h r, Holds w h r → statusAt w.heap r = some .pending → r ∈ queued w ∨ lost r

theorem Consistent.mono {lost lost' : Nat → Prop} {w : World P W} (hc : Consistent lost w)
    (hlost : ∀ r, lost r → lost' r) : Consistent lost' w :=
  ⟨hc.bound, hc.fresh, hc.ids, hc.distinct, hc.pending, hc.live, hc.holder, hc.cell,
    fun h r hh hs => (hc.waiting h r hh hs).imp_right (hlost r)⟩

theorem consistent_initial (lost : Nat → Prop) : Consistent lost (World.initial : World P W) := by
  constructor <;> simp [World.initial, WaitQueue.default, queued, Holds]

section Heap

theorem ids_modify (heap : List (WaitRegistration W))
    (i : Nat) {f : WaitRegistration W → WaitRegistration W}
    (hf : ∀ r, (f r).id = r.id) :
    (heap.modify i f).map WaitRegistration.id = heap.map WaitRegistration.id := by
  apply List.ext_getElem?
  intro j
  rw [List.getElem?_map, List.getElem?_map, List.getElem?_modify]
  cases heap[j]? with
  | none => rfl
  | some r =>
    by_cases hij : i = j
    · simp [hij, hf]
    · simp [hij]

theorem statusAt_modify (heap : List (WaitRegistration W)) (i j : Nat)
    (f : WaitRegistration W → WaitRegistration W) :
    statusAt (heap.modify i f) j =
      if i = j then heap[j]?.map (fun r => (f r).status) else statusAt heap j := by
  rw [statusAt, List.getElem?_modify]
  by_cases hij : i = j
  · cases heap[j]? <;> simp [hij]
  · cases h : heap[j]? <;> simp [hij, statusAt, h]

theorem markReady_of_pending {r : WaitRegistration W} (h : r.status = .pending) :
    r.markReady = ({ r with status := .ready }, some r.taskWaker) := by
  simp [WaitRegistration.markReady, WaitRegistration.isPending, h]

theorem markReady_id (r : WaitRegistration W) : r.markReady.1.id = r.id := by
  rw [WaitRegistration.markReady]
  split <;> rfl

theorem cancel_id (r : WaitRegistration W) : r.cancel.id = r.id := by
  rw [WaitRegistration.cancel]
  split <;> rfl

theorem poll_id (willWake : W → W → Bool) (r : WaitRegistration W) (waker : W) :
    (r.poll willWake waker).1.id = r.id := by
  rw [WaitRegistration.poll]
  cases r.status <;> simp only
  split <;> rfl

theorem poll_status (willWake : W → W → Bool) (r : WaitRegistration W) (waker : W) :
    (r.poll willWake waker).1.status = r.status := by
  rw [WaitRegistration.poll]
  cases h : r.status <;> simp only [h]
  split <;> simp [h]

end Heap

section Settle

def moved (flagged : List (TableEntry P × Bool)) : List Nat :=
  (flagged.filter Prod.snd).map fun e => e.1.registration

def kept (flagged : List (TableEntry P × Bool)) : List (TableEntry P) :=
  (flagged.filter fun e => !e.2).map Prod.fst

theorem settle_ids (flagged : List (TableEntry P × Bool)) (heap : List (WaitRegistration W)) :
    (World.settle heap flagged).1.map WaitRegistration.id = heap.map WaitRegistration.id := by
  induction flagged generalizing heap with
  | nil => rfl
  | cons e flagged ih =>
    obtain ⟨entry, isReady⟩ := e
    cases isReady with
    | true => exact (ih _).trans (ids_modify heap entry.registration markReady_id)
    | false => exact ih heap

theorem settle_kept (flagged : List (TableEntry P × Bool)) (heap : List (WaitRegistration W)) :
    (World.settle heap flagged).2.1 = kept flagged := by
  induction flagged generalizing heap with
  | nil => rfl
  | cons e flagged ih =>
    obtain ⟨entry, isReady⟩ := e
    cases isReady with
    | true => exact ih _
    | false => exact congrArg (entry :: ·) (ih heap)

/-- Settling makes exactly the flagged pending registrations ready and takes
the waker of each of them once. -/
theorem settle_spec (flagged : List (TableEntry P × Bool)) (heap : List (WaitRegistration W))
    (hn : (flagged.map fun e => e.1.registration).Nodup)
    (hp : ∀ e ∈ flagged, statusAt heap e.1.registration = some .pending) :
    (∀ i, (World.settle heap flagged).1[i]? =
      heap[i]?.map fun r => if i ∈ moved flagged then { r with status := .ready } else r) ∧
    (World.settle heap flagged).2.2 =
      (moved flagged).filterMap fun i => heap[i]?.map WaitRegistration.taskWaker := by
  induction flagged generalizing heap with
  | nil => simp [World.settle, moved]
  | cons e flagged ih =>
    obtain ⟨entry, isReady⟩ := e
    rw [List.map_cons, List.nodup_cons] at hn
    obtain ⟨hentry, hn⟩ := hn
    have hrest : ∀ e ∈ flagged, statusAt heap e.1.registration = some .pending :=
      fun e he => hp e (List.mem_cons_of_mem _ he)
    cases isReady with
    | false => exact ih heap hn hrest
    | true =>
      have hne : ∀ e ∈ flagged, entry.registration ≠ e.1.registration := by
        intro e he heq
        exact hentry (heq ▸ List.mem_map.mpr ⟨e, he, rfl⟩)
      have hnot : entry.registration ∉ moved flagged := by
        intro hm
        obtain ⟨e, he, heq⟩ := List.mem_map.mp hm
        exact hne e (List.mem_filter.mp he).1 heq.symm
      obtain ⟨r, hr, hstatus⟩ := Option.map_eq_some_iff.mp (hp _ List.mem_cons_self)
      obtain ⟨hheap, hwakers⟩ := ih (heap.modify entry.registration fun r => r.markReady.1) hn (by
        intro e he
        rw [statusAt_modify, if_neg (hne e he)]
        exact hrest e he)
      have hmoved : moved ((entry, true) :: flagged) = entry.registration :: moved flagged := rfl
      constructor
      · intro i
        have hi := hheap i
        rw [List.getElem?_modify] at hi
        change (World.settle
          (heap.modify entry.registration fun r => r.markReady.1) flagged).1[i]? = _
        rw [hi, hmoved]
        by_cases heq : entry.registration = i
        · subst heq
          simp [hr, hnot, markReady_of_pending hstatus]
        · have hmem : i ∈ entry.registration :: moved flagged ↔ i ∈ moved flagged := by
            simp [Ne.symm heq]
          simp [heq, hmem]
      · change (heap[entry.registration]?.bind fun r => r.markReady.2).toList ++
          (World.settle (heap.modify entry.registration fun r => r.markReady.1) flagged).2.2 = _
        have hsame : (moved flagged).filterMap (fun i =>
            (heap.modify entry.registration fun r => r.markReady.1)[i]?.map
            WaitRegistration.taskWaker) =
            (moved flagged).filterMap fun i => heap[i]?.map WaitRegistration.taskWaker := by
          apply List.filterMap_congr
          intro i hi
          rw [List.getElem?_modify]
          have hi' : entry.registration ≠ i := fun h => hnot (h ▸ hi)
          cases heap[i]? <;> simp [hi']
        rw [hwakers, hsame, hmoved, List.filterMap_cons, hr]
        simp [markReady_of_pending hstatus]

end Settle

section Futures

variable {lost : Nat → Prop} {w : World P W}

theorem holds_setPoll (w : World P W) (h : Nat) (inner : Option (WaitPollInner P)) (h' r : Nat) :
    Holds (w.setPoll h inner) h' r ↔
      h = h' ∧ h < w.polls.length ∧ inner = some (.registered r) ∨ h ≠ h' ∧ Holds w h' r := by
  simp only [Holds, World.setPoll, List.getElem?_set]
  by_cases hh : h = h'
  · subst hh
    by_cases hl : h < w.polls.length
    · simp [hl]
    · simp [hl]
  · simp [hh]

theorem holds_of_join {h r : Nat} (hj : w.polls[h]?.join = some (.registered r)) : Holds w h r :=
  Option.join_eq_some_iff.mp hj

theorem not_holds_of_join {h : Nat} (hj : ∀ r, w.polls[h]?.join ≠ some (.registered r)) (r : Nat) :
    ¬ Holds w h r := by
  intro hh
  rw [Holds] at hh
  exact hj r (by rw [hh]; rfl)

theorem Consistent.of_holds (hc : Consistent lost w) (w' : World P W) (hheap : w'.heap = w.heap)
    (hqueue : w'.queue = w.queue) (hholds : ∀ h r, Holds w' h r ↔ Holds w h r) :
    Consistent lost w' where
  bound := by rw [hqueue]; exact hc.bound
  fresh := by rw [hqueue, hheap]; exact hc.fresh
  ids := by rw [hheap]; exact hc.ids
  distinct := by rw [queued, hqueue]; exact hc.distinct
  pending := by rw [queued, hqueue, hheap]; exact hc.pending
  live := by
    intro r hr
    rw [queued, hqueue] at hr
    obtain ⟨h, hh⟩ := hc.live r hr
    exact ⟨h, (hholds h r).mpr hh⟩
  holder h₁ h₂ r hh₁ hh₂ := hc.holder h₁ h₂ r ((hholds h₁ r).mp hh₁) ((hholds h₂ r).mp hh₂)
  cell h r hh := by rw [hheap]; exact hc.cell h r ((hholds h r).mp hh)
  waiting h r hh hs := by
    rw [hheap] at hs
    rw [queued, hqueue]
    exact hc.waiting h r ((hholds h r).mp hh) hs

theorem Consistent.of_heap {heap : List (WaitRegistration W)} (hc : Consistent lost w)
    (hids : heap.map WaitRegistration.id = w.heap.map WaitRegistration.id)
    (hstatus : ∀ r, statusAt heap r = statusAt w.heap r) :
    Consistent lost { w with heap := heap } where
  bound := hc.bound
  fresh := by rw [hids]; exact hc.fresh
  ids := by rw [hids]; exact hc.ids
  distinct := hc.distinct
  pending r hr := (hstatus r).trans (hc.pending r hr)
  live := hc.live
  holder := hc.holder
  cell h r hh := by
    have hlen := congrArg List.length hids
    rw [List.length_map, List.length_map] at hlen
    rw [hlen]
    exact hc.cell h r hh
  waiting h r hh hs := hc.waiting h r hh ((hstatus r).symm.trans hs)

theorem holds_newWaitPoll (w : World P W) (pollable : P) (h r : Nat) :
    Holds (w.newWaitPoll pollable) h r ↔ Holds w h r := by
  simp only [Holds, World.newWaitPoll, List.getElem?_append]
  split_ifs with hl
  · rfl
  · rw [List.getElem?_eq_none (by omega : w.polls.length ≤ h)]
    cases h - w.polls.length <;> simp

theorem Consistent.newWaitPoll (hc : Consistent lost w) (pollable : P) :
    Consistent lost (w.newWaitPoll pollable) :=
  hc.of_holds (w.newWaitPoll pollable) rfl rfl (holds_newWaitPoll w pollable)

theorem Consistent.setPoll_failed (hc : Consistent lost w) {h : Nat} (hn : ∀ r, ¬ Holds w h r)
    (error : ExecutorError) : Consistent lost (w.setPoll h (some (.failed error))) := by
  apply hc.of_holds (w.setPoll h (some (.failed error))) rfl rfl
  intro h' r
  rw [holds_setPoll]
  constructor
  · rintro (⟨-, -, he⟩ | ⟨-, hh⟩)
    · cases he
    · exact hh
  · intro hh
    refine Or.inr ⟨?_, hh⟩
    rintro rfl
    exact hn r hh

theorem register_ok {w' : World P W} {r : Nat} {pollable : P} {waker : W}
    (hr : w.register pollable waker = .ok (w', r)) :
    r = w.heap.length ∧ w.queue.nextId + 1 < 2 ^ 64 ∧
      w' = ⟨w.heap ++ [.new w.queue.nextId waker], ⟨w.queue.nextId + 1,
        w.queue.entries ++ [⟨pollable, w.heap.length⟩]⟩, w.polls⟩ := by
  rw [World.register] at hr
  split_ifs at hr with hbound
  cases hr
  exact ⟨rfl, hbound, rfl⟩

/-- What a first poll makes of a world: a registration enters the heap and the
queue together, and the future holds it. -/
structure Registered (w : World P W) (h : Nat) (waker : W) (w' : World P W) : Prop where
  bound : w.queue.nextId + 1 < 2 ^ 64
  heap : w'.heap = w.heap ++ [.new w.queue.nextId waker]
  nextId : w'.queue.nextId = w.queue.nextId + 1
  queue : queued w' = queued w ++ [w.heap.length]
  holds : ∀ h' r, Holds w' h' r ↔ h = h' ∧ r = w.heap.length ∨ h ≠ h' ∧ Holds w h' r

theorem registered_of_register {h : Nat} (hl : h < w.polls.length)
    {w' : World P W} {r : Nat} {pollable : P}
    {waker : W} (hr : w.register pollable waker = .ok (w', r)) :
    Registered w h waker (w'.setPoll h (some (.registered r))) := by
  obtain ⟨rfl, hbound, rfl⟩ := register_ok hr
  refine ⟨hbound, rfl, rfl, List.map_append, ?_⟩
  intro h' r
  rw [holds_setPoll]
  simp [hl, Holds, eq_comm]

theorem Registered.mem_queued {h : Nat} {waker : W}
    {w' : World P W} (hr : Registered w h waker w') {r : Nat} :
    r ∈ queued w' ↔ r ∈ queued w ∨ r = w.heap.length := by
  rw [hr.queue, List.mem_append, List.mem_singleton]

theorem Registered.getElem? {h : Nat} {waker : W}
    {w' : World P W} (hr : Registered w h waker w') {r : Nat}
    (hlt : r < w.heap.length) : w'.heap[r]? = w.heap[r]? := by
  rw [hr.heap, List.getElem?_append_left hlt]

theorem Registered.getElem?_new {h : Nat} {waker : W}
    {w' : World P W} (hr : Registered w h waker w') :
    w'.heap[w.heap.length]? = some (.new w.queue.nextId waker) := by
  rw [hr.heap, List.getElem?_concat_length]

theorem Consistent.lt_of_queued (hc : Consistent lost w) {r : Nat} (hr : r ∈ queued w) :
    r < w.heap.length := by
  obtain ⟨h, hh⟩ := hc.live r hr
  exact hc.cell h r hh

theorem Consistent.registered (hc : Consistent lost w)
    {h : Nat} (hn : ∀ r, ¬ Holds w h r) {w' : World P W}
    {waker : W} (hr : Registered w h waker w') : Consistent lost w' := by
  have hids : w'.heap.map WaitRegistration.id = w.heap.map WaitRegistration.id ++
    [w.queue.nextId] := by
    rw [hr.heap, List.map_append]
    rfl
  have hstatus : ∀ r, r < w.heap.length → statusAt w'.heap r = statusAt w.heap r := by
    intro r hlt
    rw [statusAt, hr.getElem? hlt, statusAt]
  refine ⟨by rw [hr.nextId]; exact hr.bound, ?_, ?_, ?_, ?_, ?_, ?_, ?_, ?_⟩
  · intro id hid
    rw [hids, List.mem_append, List.mem_singleton] at hid
    rw [hr.nextId]
    obtain hid | rfl := hid
    · exact Nat.lt_succ_of_lt (hc.fresh id hid)
    · exact Nat.lt_succ_self _
  · rw [hids, List.nodup_append]
    refine ⟨hc.ids, List.nodup_singleton _, fun a ha b hb => ?_⟩
    rw [List.mem_singleton.mp hb]
    exact Nat.ne_of_lt (hc.fresh a ha)
  · rw [hr.queue, List.nodup_append]
    refine ⟨hc.distinct, List.nodup_singleton _, fun a ha b hb => ?_⟩
    rw [List.mem_singleton.mp hb]
    exact Nat.ne_of_lt (hc.lt_of_queued ha)
  · intro r hq
    obtain hq | rfl := hr.mem_queued.mp hq
    · exact (hstatus r (hc.lt_of_queued hq)).trans (hc.pending r hq)
    · rw [statusAt, hr.getElem?_new]
      rfl
  · intro r hq
    obtain hq | rfl := hr.mem_queued.mp hq
    · obtain ⟨h', hh⟩ := hc.live r hq
      refine ⟨h', (hr.holds h' r).mpr (Or.inr ⟨?_, hh⟩)⟩
      rintro rfl
      exact hn r hh
    · exact ⟨h, (hr.holds h _).mpr (Or.inl ⟨rfl, rfl⟩)⟩
  · intro h₁ h₂ r hh₁ hh₂
    obtain ⟨rfl, rfl⟩ | ⟨-, hh₁⟩ := (hr.holds h₁ r).mp hh₁ <;>
      obtain ⟨rfl, heq⟩ | ⟨-, hh₂⟩ := (hr.holds h₂ _).mp hh₂
    · rfl
    · exact absurd rfl (Nat.ne_of_lt (hc.cell _ _ hh₂))
    · exact absurd heq (Nat.ne_of_lt (hc.cell _ _ hh₁))
    · exact hc.holder h₁ h₂ r hh₁ hh₂
  · intro h' r hh
    rw [hr.heap, List.length_append, List.length_singleton]
    obtain ⟨-, rfl⟩ | ⟨-, hh⟩ := (hr.holds h' r).mp hh
    · exact Nat.lt_succ_self _
    · exact Nat.lt_succ_of_lt (hc.cell h' r hh)
  · intro h' r hh hs
    rw [hr.mem_queued]
    obtain ⟨-, rfl⟩ | ⟨-, hh⟩ := (hr.holds h' r).mp hh
    · exact Or.inl (Or.inr rfl)
    · rw [hstatus r (hc.cell h' r hh)] at hs
      exact (hc.waiting h' r hh hs).imp_left Or.inl

inductive PollStep (willWake : W → W → Bool) (w : World P W) (h : Nat) (waker : W) :
    World P W → Prop
  | unchanged (hn : ∀ r, ¬ Holds w h r) : PollStep willWake w h waker w
  | failed (hn : ∀ r, ¬ Holds w h r) (error : ExecutorError) :
      PollStep willWake w h waker (w.setPoll h (some (.failed error)))
  | registered (w' : World P W) (hn : ∀ r, ¬ Holds w h r) (hr : Registered w h waker w') :
      PollStep willWake w h waker w'
  | repolled (r : Nat) (hh : Holds w h r) : PollStep willWake w h waker
      { w with heap := w.heap.modify r fun cell => (cell.poll willWake waker).1 }

theorem pollWait_step (w : World P W) (willWake : W → W → Bool)
    (current : Bool) (h : Nat) (waker : W) :
    PollStep willWake w h waker (w.pollWait willWake current h waker).1 := by
  rw [World.pollWait]
  cases hj : w.polls[h]?.join with
  | none => exact .unchanged (not_holds_of_join fun r => by simp [hj])
  | some inner =>
    cases inner with
    | unregistered pollable =>
      have hn : ∀ r, ¬ Holds w h r := not_holds_of_join fun r => by simp [hj]
      have hl : h < w.polls.length := by
        by_contra hl
        rw [List.getElem?_eq_none (by omega)] at hj
        cases hj
      cases current with
      | false => exact .failed hn _
      | true =>
        cases hr : w.register pollable waker with
        | ok result =>
          simp only [hr, Bool.not_true, Bool.false_eq_true, if_false]
          exact .registered _ hn (registered_of_register hl hr)
        | error error =>
          simp only [hr, Bool.not_true, Bool.false_eq_true, if_false]
          exact .failed hn error
    | registered r => exact .repolled r (holds_of_join hj)
    | failed error => exact .unchanged (not_holds_of_join fun r => by simp [hj])

theorem Consistent.pollStep (hc : Consistent lost w) {willWake : W → W → Bool} {h : Nat} {waker : W}
    {w' : World P W} (hs : PollStep willWake w h waker w') : Consistent lost w' := by
  cases hs with
  | unchanged hn => exact hc
  | failed hn error => exact hc.setPoll_failed hn error
  | registered w' hn hr => exact hc.registered hn hr
  | repolled r hh =>
    apply hc.of_heap (ids_modify w.heap r fun cell => poll_id willWake cell waker)
    intro j
    rw [statusAt_modify]
    split_ifs with hij
    · subst hij
      simp only [poll_status]
      rfl
    · rfl

end Futures

section Drop

variable {lost : Nat → Prop} {w : World P W}

theorem holds_right_unique {h r r' : Nat} (hr : Holds w h r) (hr' : Holds w h r') : r = r' := by
  rw [Holds] at hr hr'
  rw [hr] at hr'
  simpa using hr'

theorem hasId_iff (hids : (w.heap.map WaitRegistration.id).Nodup)
    {r : Nat} {cell : WaitRegistration W}
    (hcell : w.heap[r]? = some cell) (entry : TableEntry P) :
    w.hasId cell.id entry = (entry.registration == r) := by
  rw [Bool.eq_iff_iff, beq_iff_eq, World.hasId, Option.any_eq_true]
  constructor
  · rintro ⟨cell', hcell', hid⟩
    rw [beq_iff_eq] at hid
    have hlt : entry.registration < (w.heap.map WaitRegistration.id).length := by
      rw [List.length_map]
      exact (List.getElem?_eq_some_iff.mp hcell').1
    apply (List.getElem?_inj hlt hids).mp
    rw [List.getElem?_map, List.getElem?_map, hcell, hcell', Option.map_some, Option.map_some, hid]
  · rintro rfl
    exact ⟨cell, hcell, beq_self_eq_true _⟩

theorem queued_cancel (hids : (w.heap.map WaitRegistration.id).Nodup) {r : Nat}
    {cell : WaitRegistration W} (hcell : w.heap[r]? = some cell) :
    queued (w.cancel cell.id) = (queued w).erase r := by
  have hp : w.hasId cell.id = (fun i => i == r) ∘ TableEntry.registration :=
    funext (hasId_iff hids hcell)
  rw [List.erase_eq_eraseP', queued, queued, World.cancel, World.setEntries, hp, List.eraseP_map]

theorem dropWait_holds {h r : Nat} {cell : WaitRegistration W}
    (hh : Holds w h r) (hcell : w.heap[r]? = some cell) :
    w.dropWait true h =
      (World.cancel { w with heap := w.heap.modify r WaitRegistration.cancel } cell.id).setPoll
      h none := by
  have hj : w.polls[h]?.join = some (.registered r) := Option.join_eq_some_iff.mpr hh
  have hcell' : (w.heap.modify r WaitRegistration.cancel)[r]? = some cell.cancel := by
    rw [List.getElem?_modify_eq, hcell]
    rfl
  rw [World.dropWait]
  simp only [hj, hcell', cancel_id]

theorem dropWait_registered (hc : Consistent lost w) {h r : Nat} (hh : Holds w h r) :
    (w.dropWait true h).heap = w.heap.modify r WaitRegistration.cancel ∧
      (w.dropWait true h).queue.nextId = w.queue.nextId ∧
      queued (w.dropWait true h) = (queued w).erase r ∧
      (w.dropWait true h).polls = w.polls.set h none := by
  obtain ⟨cell, hcell⟩ : ∃ cell, w.heap[r]? = some cell :=
    ⟨_, List.getElem?_eq_getElem (hc.cell h r hh)⟩
  let canceled : World P W := { w with heap := w.heap.modify r WaitRegistration.cancel }
  have hcell' : canceled.heap[r]? = some cell.cancel := by
    rw [List.getElem?_modify_eq, hcell]
    rfl
  have hids : (canceled.heap.map WaitRegistration.id).Nodup := by
    rw [ids_modify _ _ cancel_id]
    exact hc.ids
  have hqueued : queued (canceled.cancel cell.id) = (queued w).erase r := by
    rw [← cancel_id cell]
    exact queued_cancel hids hcell'
  rw [dropWait_holds hh hcell]
  exact ⟨rfl, rfl, hqueued, rfl⟩

theorem dropWait_unregistered {h : Nat} (hn : ∀ r, ¬ Holds w h r) :
    w.dropWait true h = w.setPoll h none := by
  rw [World.dropWait]
  cases hj : w.polls[h]?.join with
  | none => rfl
  | some inner =>
    cases inner with
    | registered r => exact absurd (holds_of_join hj) (hn r)
    | unregistered pollable => rfl
    | failed error => rfl

theorem Consistent.dropWait (hc : Consistent lost w) (h : Nat) :
    Consistent lost (w.dropWait true h) := by
  by_cases hreg : ∃ r, Holds w h r
  · obtain ⟨r, hh⟩ := hreg
    obtain ⟨hheap, hnext, hqueue, hpolls⟩ := dropWait_registered hc hh
    have hholds : ∀ h' r', Holds (w.dropWait true h) h' r' ↔ h ≠ h' ∧ Holds w h' r' := by
      intro h' r'
      rw [Holds, hpolls]
      have hset := holds_setPoll w h none h' r'
      simpa [Holds, World.setPoll] using hset
    have hstatus : ∀ r', r' ≠ r → statusAt (w.dropWait true h).heap r' = statusAt w.heap r' := by
      intro r' hne
      rw [hheap, statusAt_modify, if_neg hne.symm]
    have hmem : ∀ r', r' ∈ queued (w.dropWait true h) ↔ r' ≠ r ∧ r' ∈ queued w := by
      intro r'
      rw [hqueue, hc.distinct.mem_erase_iff]
    have hids : (w.dropWait true h).heap.map WaitRegistration.id =
      w.heap.map WaitRegistration.id := by
      rw [hheap, ids_modify _ _ cancel_id]
    refine ⟨by rw [hnext]; exact hc.bound, by rw [hids, hnext]; exact hc.fresh,
      by rw [hids]; exact hc.ids,
      by rw [hqueue]; exact hc.distinct.erase r, ?_, ?_, ?_, ?_, ?_⟩
    · intro r' hr'
      obtain ⟨hne, hq⟩ := (hmem r').mp hr'
      exact (hstatus r' hne).trans (hc.pending r' hq)
    · intro r' hr'
      obtain ⟨hne, hq⟩ := (hmem r').mp hr'
      obtain ⟨h', hh'⟩ := hc.live r' hq
      refine ⟨h', (hholds h' r').mpr ⟨?_, hh'⟩⟩
      rintro rfl
      exact hne (holds_right_unique hh' hh)
    · intro h₁ h₂ r' hh₁ hh₂
      exact hc.holder h₁ h₂ r' ((hholds h₁ r').mp hh₁).2 ((hholds h₂ r').mp hh₂).2
    · intro h' r' hh'
      rw [hheap, List.length_modify]
      exact hc.cell h' r' ((hholds h' r').mp hh').2
    · intro h' r' hh' hs
      obtain ⟨hne, hh'⟩ := (hholds h' r').mp hh'
      have hrne : r' ≠ r := by
        rintro rfl
        exact hne (hc.holder h h' r' hh hh')
      rw [hstatus r' hrne] at hs
      exact (hc.waiting h' r' hh' hs).imp_left fun hq => (hmem r').mpr ⟨hrne, hq⟩
  · rw [dropWait_unregistered fun r hh => hreg ⟨r, hh⟩]
    apply hc.of_holds (w.setPoll h none) rfl rfl
    intro h' r
    rw [holds_setPoll]
    constructor
    · rintro (⟨-, -, he⟩ | ⟨-, hh⟩)
      · cases he
      · exact hh
    · intro hh
      refine Or.inr ⟨?_, hh⟩
      rintro rfl
      exact hreg ⟨r, hh⟩

end Drop

section Settled

variable {lost : Nat → Prop} {w : World P W} {flagged : List (TableEntry P × Bool)}

/-- The world after a settling that keeps the given entries. -/
def settled (w : World P W) (flagged : List (TableEntry P × Bool)) (entries : List (TableEntry P)) :
    World P W :=
  ⟨(World.settle w.heap flagged).1, ⟨w.queue.nextId, entries⟩, w.polls⟩

def Flags (w : World P W) (flagged : List (TableEntry P × Bool)) : Prop :=
  flagged.map Prod.fst = w.queue.entries

theorem Flags.registrations (hf : Flags w flagged) :
    (flagged.map fun e => e.1.registration) = queued w := by
  rw [queued, ← hf, List.map_map]
  rfl

theorem mem_moved {r : Nat} :
    r ∈ moved flagged ↔ ∃ e ∈ flagged, e.2 = true ∧ e.1.registration = r := by
  simp only [moved, List.mem_map, List.mem_filter, and_assoc]

theorem mem_kept {r : Nat} :
    r ∈ (kept flagged).map TableEntry.registration ↔
    ∃ e ∈ flagged, e.2 = false ∧ e.1.registration = r := by
  simp [kept]

theorem moved_subset (hf : Flags w flagged) {r : Nat} (hr : r ∈ moved flagged) : r ∈ queued w := by
  obtain ⟨e, he, -, rfl⟩ := mem_moved.mp hr
  rw [← hf.registrations]
  exact List.mem_map.mpr ⟨e, he, rfl⟩

theorem moved_nodup (hc : Consistent lost w) (hf : Flags w flagged) : (moved flagged).Nodup := by
  have hn := hc.distinct
  rw [← hf.registrations] at hn
  exact hn.sublist (List.filter_sublist.map _)

theorem mem_kept_iff (hc : Consistent lost w) (hf : Flags w flagged) {r : Nat} :
    r ∈ (kept flagged).map TableEntry.registration ↔ r ∈ queued w ∧ r ∉ moved flagged := by
  have hn := hc.distinct
  rw [← hf.registrations] at hn ⊢
  constructor
  · intro hr
    obtain ⟨e, he, hflag, rfl⟩ := mem_kept.mp hr
    refine ⟨List.mem_map.mpr ⟨e, he, rfl⟩, fun hm => ?_⟩
    obtain ⟨e', he', hflag', heq⟩ := mem_moved.mp hm
    rw [List.inj_on_of_nodup_map hn he' he heq, hflag] at hflag'
    cases hflag'
  · rintro ⟨hr, hm⟩
    obtain ⟨e, he, rfl⟩ := List.mem_map.mp hr
    refine mem_kept.mpr ⟨e, he, ?_, rfl⟩
    cases hflag : e.2 with
    | false => rfl
    | true => exact absurd (mem_moved.mpr ⟨e, he, hflag, rfl⟩) hm

theorem kept_nodup (hc : Consistent lost w) (hf : Flags w flagged) :
    ((kept flagged).map TableEntry.registration).Nodup := by
  have hn := hc.distinct
  rw [← hf.registrations] at hn
  rw [kept, List.map_map]
  exact hn.sublist (List.filter_sublist.map _)

theorem settled_heap (hc : Consistent lost w) (hf : Flags w flagged) :
    (∀ i, (World.settle w.heap flagged).1[i]? =
      w.heap[i]?.map fun r => if i ∈ moved flagged then { r with status := .ready } else r) ∧
    (World.settle w.heap flagged).2.2 =
      (moved flagged).filterMap fun i => w.heap[i]?.map WaitRegistration.taskWaker := by
  have hreg := hf.registrations
  apply settle_spec flagged w.heap
  · rw [hreg]
    exact hc.distinct
  · intro e he
    apply hc.pending
    rw [← hreg]
    exact List.mem_map.mpr ⟨e, he, rfl⟩

theorem statusAt_settled (hc : Consistent lost w) (hf : Flags w flagged)
    (entries : List (TableEntry P)) (r : Nat) :
    statusAt (settled w flagged entries).heap r =
      if r ∈ moved flagged then some .ready else statusAt w.heap r := by
  rw [statusAt, settled, (settled_heap hc hf).1 r]
  split_ifs with hm
  · obtain ⟨cell, hcell, -⟩ := Option.map_eq_some_iff.mp (hc.pending r (moved_subset hf hm))
    rw [hcell]
    rfl
  · cases h : w.heap[r]? <;> simp [statusAt, h]

/-- Settling keeps the invariant. The registrations that it neither makes
ready nor keeps are lost. -/
theorem Consistent.settled (hc : Consistent lost w) (hf : Flags w flagged)
    {entries : List (TableEntry P)} (hsub : entries.Sublist (kept flagged)) :
    Consistent (fun r => lost r ∨ r ∈ queued w ∧ r ∉ moved flagged ∧
      r ∉ entries.map TableEntry.registration) (settled w flagged entries) := by
  have hids : (PollableInvariant.settled w flagged entries).heap.map WaitRegistration.id =
      w.heap.map WaitRegistration.id := settle_ids flagged w.heap
  have hmem : ∀ r, r ∈ queued (PollableInvariant.settled w flagged entries) →
      r ∈ queued w ∧ r ∉ moved flagged :=
    fun r hr => (mem_kept_iff hc hf).mp ((hsub.map _).subset hr)
  have hstatus := statusAt_settled hc hf entries
  refine ⟨hc.bound, by rw [hids]; exact hc.fresh, by rw [hids]; exact hc.ids,
    (kept_nodup hc hf).sublist (hsub.map _), ?_, ?_, hc.holder, ?_, ?_⟩
  · intro r hr
    obtain ⟨hq, hm⟩ := hmem r hr
    rw [hstatus, if_neg hm]
    exact hc.pending r hq
  · intro r hr
    exact hc.live r (hmem r hr).1
  · intro h r hh
    have hlen := congrArg List.length hids
    rw [List.length_map, List.length_map] at hlen
    rw [hlen]
    exact hc.cell h r hh
  · intro h r hh hs
    rw [hstatus] at hs
    split_ifs at hs with hm
    · cases hs
    by_cases he : r ∈ entries.map TableEntry.registration
    · exact Or.inl he
    · exact Or.inr ((hc.waiting h r hh hs).symm.imp_right fun hq => ⟨hq, hm, he⟩)

theorem takePending_eq (hc : Consistent lost w) : w.takePending = w.queue.entries := by
  apply List.filter_eq_self.mpr
  intro entry he
  obtain ⟨cell, hcell, hs⟩ := Option.map_eq_some_iff.mp
    (hc.pending entry.registration (List.mem_map.mpr ⟨entry, he, rfl⟩))
  rw [hcell, Option.any_some, WaitRegistration.isPending, hs]
  rfl

theorem length_readyFlags (length : Nat) (ready : List Nat) :
    (World.readyFlags length ready).length = length := by
  have hfold : ∀ (flags : List Bool),
      (ready.foldl (fun flags index => flags.set index true) flags).length = flags.length := by
    induction ready with
    | nil => exact fun flags => rfl
    | cons index ready ih =>
      intro flags
      rw [List.foldl_cons, ih, List.length_set]
  rw [World.readyFlags, hfold, List.length_replicate]

theorem dispatchReady_settles (hc : Consistent lost w) (ready : List Nat) :
    ∃ flagged, Flags w flagged ∧ (w.dispatchReady ready).1 = settled w flagged (kept flagged) ∧
      (w.dispatchReady ready).2.1 = (World.settle w.heap flagged).2.2 := by
  refine ⟨w.queue.entries.zip (World.readyFlags w.queue.entries.length ready), ?_, ?_⟩
  · apply List.map_fst_zip
    exact Nat.le_of_eq (length_readyFlags _ _).symm
  · rw [World.dispatchReady]
    rw [takePending_eq hc]
    cases he : w.queue.entries with
    | nil => exact ⟨rfl, rfl⟩
    | cons entry entries =>
      simp only [List.isEmpty_cons, Bool.false_eq_true, if_false, World.requeuePending,
        World.setEntries, List.nil_append, settle_kept, and_true]
      rfl

theorem sweepReady_settles (hc : Consistent lost w) (ready : P → Bool) :
    ∃ flagged, Flags w flagged ∧ (w.sweepReady ready).1 = settled w flagged (kept flagged) ∧
      (w.sweepReady ready).2.1 = (World.settle w.heap flagged).2.2 := by
  refine ⟨w.queue.entries.map fun entry => (entry, ready entry.pollable), ?_, ?_⟩
  · simp [Flags, Function.comp_def]
  · rw [World.sweepReady]
    rw [takePending_eq hc]
    cases he : w.queue.entries with
    | nil => exact ⟨rfl, rfl⟩
    | cons entry entries =>
      simp only [List.isEmpty_cons, Bool.false_eq_true, if_false, World.requeuePending,
        World.setEntries, List.nil_append, settle_kept, and_true]
      rfl

theorem abandon_settles (hc : Consistent lost w) (ready : P → Bool) :
    w.abandonLeftoverPollables ready =
      (settled w (w.queue.entries.map fun entry => (entry, ready entry.pollable)) [],
        (World.settle w.heap
          (w.queue.entries.map fun entry => (entry, ready entry.pollable))).2.2) := by
  rw [World.abandonLeftoverPollables]
  rw [takePending_eq hc]
  rfl

end Settled

end LeptosWasi.PollableInvariant
