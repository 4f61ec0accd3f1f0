import LeptosWasi.WaitQueueSafety
import LeptosWasi.WaitQueues

namespace LeptosWasi.QueueIsolation

open Pollables PollableInvariant WaitOperations WaitQueueSafety WaitQueues

variable {P W : Type}

def idAt (s : Queues P W) (registration : Nat) : Option Nat :=
  (s.heap.map WaitRegistration.id)[registration]?

def nextId (s : Queues P W) (queue : Nat) : Nat := (s.queues[queue]?.map WaitQueue.nextId).getD 0

def addresses (s : Queues P W) (queue : Nat) : List Nat :=
  (s.entries queue).map TableEntry.registration

/-- The registration of each queued entry was made with that queue, and the
identifiers of one queue are distinct. -/
structure Housed (s : Recorded P W) : Prop where
  cells : s.homes.length = s.thread.heap.length
  held : ∀ handle r, Holds (s.thread.world .default) handle r → r < s.thread.heap.length
  home : ∀ queue, ∀ r ∈ addresses s.thread queue, s.homes[r]? = some queue
  distinct : ∀ queue, (addresses s.thread queue).Nodup
  fresh : ∀ r queue id, s.homes[r]? = some queue →
    idAt s.thread r = some id → id < nextId s.thread queue
  ids : ∀ r r' queue, s.homes[r]? = some queue → s.homes[r']? = some queue →
    idAt s.thread r = idAt s.thread r' → r = r'

/-- Nothing is registered: entries leave, and futures are dropped or fail. -/
structure Shrinks (w w' : World P W) : Prop where
  ids : w'.heap.map WaitRegistration.id = w.heap.map WaitRegistration.id
  nextId : w'.queue.nextId = w.queue.nextId
  queued : (queued w').Sublist (queued w)
  holds : ∀ handle r, Holds w' handle r → Holds w handle r

section World

variable {w : World P W}

theorem Shrinks.refl (w : World P W) : Shrinks w w :=
  ⟨rfl, rfl, List.Sublist.refl _, fun _ _ h => h⟩

theorem shrinks_setPoll (w : World P W) (handle : Nat) {inner : Option (WaitPollInner P)}
    (hn : ∀ r, inner ≠ some (.registered r)) : Shrinks w (w.setPoll handle inner) := by
  refine ⟨rfl, rfl, List.Sublist.refl _, fun handle' r hh => ?_⟩
  obtain ⟨-, -, he⟩ | ⟨-, hh⟩ := (holds_setPoll w handle inner handle' r).mp hh
  · exact absurd he (hn r)
  · exact hh

theorem Shrinks.trans {w' w'' : World P W} (h : Shrinks w w') (h' : Shrinks w' w'') :
    Shrinks w w'' :=
  ⟨h'.ids.trans h.ids, h'.nextId.trans h.nextId, h'.queued.trans h.queued,
    fun handle r hh => h.holds handle r (h'.holds handle r hh)⟩

theorem pollStep_shrinks_or {willWake : W → W → Bool} {handle : Nat} {waker : W} {w' : World P W}
    (hs : PollStep willWake w handle waker w') : Shrinks w w' ∨ Registered w handle waker w' := by
  cases hs with
  | unchanged hn => exact Or.inl (.refl w)
  | failed hn error => exact Or.inl (shrinks_setPoll w handle (by simp))
  | registered w' hn hr => exact Or.inr hr
  | repolled r hh =>
    left
    exact ⟨ids_modify w.heap r fun cell => poll_id willWake cell waker,
      rfl, List.Sublist.refl _, fun _ _ h => h⟩

theorem shrinks_pollWait (w : World P W) (willWake : W → W → Bool) (handle : Nat) (waker : W) :
    Shrinks w (w.pollWait willWake false handle waker).1 := by
  obtain h | h := pollStep_shrinks_or (pollWait_step w willWake false handle waker)
  · exact h
  · have hheap : (w.pollWait willWake false handle waker).1.heap.length = w.heap.length := by
      rw [World.pollWait]
      split
      · rfl
      · rfl
      · exact List.length_modify _ _ _
      · rfl
    rw [h.heap, List.length_append, List.length_singleton] at hheap
    omega

theorem shrinks_dropWait (w : World P W) (current : Bool) (handle : Nat) :
    Shrinks w (w.dropWait current handle) := by
  rw [World.dropWait]
  split
  · rename_i r hj
    refine Shrinks.trans ?_ (shrinks_setPoll _ handle (by simp))
    have hcancel : Shrinks w { w with heap := w.heap.modify r WaitRegistration.cancel } :=
      ⟨ids_modify _ _ cancel_id, rfl, List.Sublist.refl _, fun _ _ h => h⟩
    simp only
    split
    · exact hcancel.trans ⟨rfl, rfl, List.eraseP_sublist.map _, fun _ _ h => h⟩
    · exact hcancel
  · exact shrinks_setPoll w handle (by simp)

theorem shrinks_settle (w : World P W) (flagged : List (TableEntry P × Bool))
    {entries : List (TableEntry P)}
    (hentries : entries.Sublist w.queue.entries) :
    Shrinks w ⟨(World.settle w.heap flagged).1, ⟨w.queue.nextId, entries⟩, w.polls⟩ :=
  ⟨settle_ids flagged w.heap, rfl, hentries.map _, fun _ _ h => h⟩

theorem shrinks_requeue (w : World P W) {flagged : List (TableEntry P × Bool)}
    (hf : flagged.map Prod.fst = w.takePending) :
    Shrinks w ⟨(World.settle w.heap flagged).1, ⟨w.queue.nextId, (World.settle w.heap flagged).2.1⟩,
      w.polls⟩ := by
  have hkept : (kept flagged).Sublist (flagged.map Prod.fst) := List.filter_sublist.map _
  have hpending : w.takePending.Sublist w.queue.entries := List.filter_sublist
  rw [settle_kept]
  exact shrinks_settle w flagged (hkept.trans (hf ▸ hpending))

theorem shrinks_dispatchReady (w : World P W) (ready : List Nat) :
    Shrinks w (w.dispatchReady ready).1 := by
  rw [World.dispatchReady]
  split_ifs
  · exact ⟨rfl, rfl, List.nil_sublist _, fun _ _ h => h⟩
  · exact shrinks_requeue w (List.map_fst_zip (Nat.le_of_eq (length_readyFlags _ ready).symm))

theorem shrinks_sweepReady (w : World P W) (ready : P → Bool) :
    Shrinks w (w.sweepReady ready).1 := by
  rw [World.sweepReady]
  split_ifs
  · exact ⟨rfl, rfl, List.nil_sublist _, fun _ _ h => h⟩
  · apply shrinks_requeue w
    simp [Function.comp_def]

theorem shrinks_abandon (w : World P W) (ready : P → Bool) :
    Shrinks w (w.abandonLeftoverPollables ready).1 :=
  shrinks_settle w _ (List.nil_sublist _)

end World

section Queues

variable {s s' : Recorded P W}

theorem onQueue_frame {t : Queues P W} {queue : Nat}
    {q : WaitQueue P} (hq : t.queues[queue]? = some q)
    (f : World P W → World P W) (queue' : Nat) :
    (t.onQueue queue f).entries queue' =
        (if queue = queue' then (f (t.world q)).queue.entries else t.entries queue') ∧
      nextId (t.onQueue queue f) queue' =
        if queue = queue' then (f (t.world q)).queue.nextId else nextId t queue' := by
  have hlt := (List.getElem?_eq_some_iff.mp hq).1
  simp only [Queues.onQueue, hq, Queues.entries, nextId, List.getElem?_set]
  by_cases h : queue = queue'
  · subst h
    simp [hlt]
  · simp [h]

theorem addresses_onQueue {t : Queues P W} {queue : Nat}
    {q : WaitQueue P} (hq : t.queues[queue]? = some q)
    (f : World P W → World P W) (queue' : Nat) : addresses (t.onQueue queue f) queue' =
      if queue = queue' then queued (f (t.world q)) else addresses t queue' := by
  rw [addresses, (onQueue_frame hq f queue').1]
  split_ifs
  · rfl
  · rfl

theorem Housed.shrink (hh : Housed s) (hhomes : s'.homes = s.homes)
    (hids : s'.thread.heap.map WaitRegistration.id = s.thread.heap.map WaitRegistration.id)
    (hnext : ∀ queue, nextId s.thread queue ≤ nextId s'.thread queue)
    (hqueued : ∀ queue, (addresses s'.thread queue).Sublist (addresses s.thread queue))
    (hholds : ∀ handle r, Holds (s'.thread.world .default) handle r →
      Holds (s.thread.world .default) handle r) :
    Housed s' := by
  have hlength : s'.thread.heap.length = s.thread.heap.length := by
    simpa using congrArg List.length hids
  have hid : ∀ r, idAt s'.thread r = idAt s.thread r := fun r => congrArg (·[r]?) hids
  refine ⟨by rw [hhomes, hh.cells, hlength], ?_, ?_, ?_, ?_, ?_⟩
  · intro handle r hr
    rw [hlength]
    exact hh.held handle r (hholds handle r hr)
  · intro queue r hr
    rw [hhomes]
    exact hh.home queue r ((hqueued queue).mem hr)
  · intro queue
    exact (hqueued queue).nodup (hh.distinct queue)
  · intro r queue id hr hidr
    rw [hhomes] at hr
    rw [hid] at hidr
    exact Nat.lt_of_lt_of_le (hh.fresh r queue id hr hidr) (hnext queue)
  · intro r r' queue hr hr' heq
    rw [hhomes] at hr hr'
    rw [hid, hid] at heq
    exact hh.ids r r' queue hr hr' heq

theorem Housed.register (hh : Housed s) {queue : Nat} (hhomes : s'.homes = s.homes ++ [queue])
    (hids : s'.thread.heap.map WaitRegistration.id =
      s.thread.heap.map WaitRegistration.id ++ [nextId s.thread queue])
    (hnext : ∀ queue',
      nextId s'.thread queue' = nextId s.thread queue' + if queue = queue' then 1 else 0)
    (hqueued : ∀ queue', addresses s'.thread queue' =
      addresses s.thread queue' ++ if queue = queue' then [s.thread.heap.length] else [])
    (hholds : ∀ handle r, Holds (s'.thread.world .default) handle r →
      Holds (s.thread.world .default) handle r ∨ r = s.thread.heap.length) : Housed s' := by
  have hlength : s'.thread.heap.length = s.thread.heap.length + 1 := by
    simpa using congrArg List.length hids
  have hold (r : Nat) (hr : r < s.thread.heap.length) :
      s'.homes[r]? = s.homes[r]? ∧ idAt s'.thread r = idAt s.thread r := by
    rw [hhomes, idAt, hids]
    exact ⟨List.getElem?_append_left (by rwa [hh.cells]),
      List.getElem?_append_left (by rwa [List.length_map])⟩
  have hnew : s'.homes[s.thread.heap.length]? = some queue ∧
      idAt s'.thread s.thread.heap.length = some (nextId s.thread queue) := by
    rw [hhomes, idAt, hids]
    refine ⟨?_, ?_⟩
    · rw [← hh.cells, List.getElem?_concat_length]
    · rw [← List.length_map WaitRegistration.id, List.getElem?_concat_length]
  have hcase (r queue' : Nat) (hr : s'.homes[r]? = some queue') :
      r < s.thread.heap.length ∧ s.homes[r]? = some queue' ∨
      r = s.thread.heap.length ∧ queue = queue' := by
    obtain hlt | rfl | hgt := Nat.lt_trichotomy r s.thread.heap.length
    · exact Or.inl ⟨hlt, (hold r hlt).1 ▸ hr⟩
    · rw [hnew.1, Option.some.injEq] at hr
      exact Or.inr ⟨rfl, hr⟩
    · have hrange := (List.getElem?_eq_some_iff.mp hr).1
      rw [hhomes, List.length_append, List.length_singleton, hh.cells] at hrange
      omega
  have hlt (queue' r : Nat) (hr : r ∈ addresses s.thread queue') : r < s.thread.heap.length := by
    rw [← hh.cells]
    exact (List.getElem?_eq_some_iff.mp (hh.home queue' r hr)).1
  refine ⟨?_, ?_, ?_, ?_, ?_, ?_⟩
  · rw [hhomes, List.length_append, List.length_singleton, hh.cells, hlength]
  · intro handle r hr
    rw [hlength]
    obtain hr | rfl := hholds handle r hr
    · exact Nat.lt_succ_of_lt (hh.held handle r hr)
    · exact Nat.lt_succ_self _
  · intro queue' r hr
    rw [hqueued, List.mem_append] at hr
    obtain hr | hr := hr
    · rw [(hold r (hlt queue' r hr)).1]
      exact hh.home queue' r hr
    · split_ifs at hr with hq
      · rw [List.mem_singleton.mp hr, hnew.1, hq]
      · cases hr
  · intro queue'
    rw [hqueued]
    split_ifs with hq
    · rw [List.nodup_append]
      refine ⟨hh.distinct queue', List.nodup_singleton _, fun a ha b hb => ?_⟩
      rw [List.mem_singleton.mp hb]
      exact Nat.ne_of_lt (hlt queue' a ha)
    · rw [List.append_nil]
      exact hh.distinct queue'
  · intro r queue' id hr hid
    rw [hnext]
    obtain ⟨hlt, hr⟩ | ⟨rfl, rfl⟩ := hcase r queue' hr
    · rw [(hold r hlt).2] at hid
      exact Nat.lt_of_lt_of_le (hh.fresh r queue' id hr hid) (Nat.le_add_right _ _)
    · rw [hnew.2, Option.some.injEq] at hid
      rw [if_pos rfl, ← hid]
      exact Nat.lt_succ_self _
  · -- The new identifier exceeds those that its queue gave before.
    have hne (r : Nat) (hlt : r < s.thread.heap.length) (hr : s.homes[r]? = some queue) :
        idAt s.thread r ≠ some (nextId s.thread queue) :=
      fun hid => Nat.lt_irrefl _ (hh.fresh r queue _ hr hid)
    intro r r' queue' hr hr' heq
    obtain ⟨hlt, hr⟩ | ⟨rfl, rfl⟩ := hcase r queue' hr <;> obtain ⟨hlt', hr'⟩ | ⟨rfl, heq'⟩ :=
      hcase r' _ hr'
    · rw [(hold r hlt).2, (hold r' hlt').2] at heq
      exact hh.ids r r' queue' hr hr' heq
    · rw [(hold r hlt).2, hnew.2] at heq
      exact absurd heq (hne r hlt (heq' ▸ hr))
    · rw [(hold r' hlt').2, hnew.2] at heq
      exact absurd heq.symm (hne r' hlt' hr')
    · rfl

theorem onQueue_shared {t : Queues P W} {queue : Nat}
    {q : WaitQueue P} (hq : t.queues[queue]? = some q)
    (f : World P W → World P W) : (t.onQueue queue f).heap = (f (t.world q)).heap ∧
      (t.onQueue queue f).polls = (f (t.world q)).polls := by
  rw [Queues.onQueue, hq]
  exact ⟨rfl, rfl⟩

theorem addresses_of_getElem? {t : Queues P W} {queue : Nat}
    {q : WaitQueue P} (hq : t.queues[queue]? = some q) :
    addresses t queue = queued (t.world q) ∧ nextId t queue = q.nextId := by
  rw [addresses, Queues.entries, nextId, hq]
  exact ⟨rfl, rfl⟩

theorem Housed.onQueue (hh : Housed s) (queue : Nat) (f : World P W → World P W)
    (hf : ∀ q, s.thread.queues[queue]? = some q →
      Shrinks (s.thread.world q) (f (s.thread.world q))) :
    Housed ⟨s.thread.onQueue queue f, s.homes⟩ := by
  cases hq : s.thread.queues[queue]? with
  | none =>
    have hsame : s.thread.onQueue queue f = s.thread := by rw [Queues.onQueue, hq]
    rw [hsame]
    exact hh
  | some q =>
    obtain ⟨hqueued, hnext⟩ := addresses_of_getElem? hq
    have hs := hf q hq
    obtain ⟨hheap, hpolls⟩ := onQueue_shared hq f
    refine hh.shrink rfl ?_ (fun queue' => ?_) (fun queue' => ?_) fun handle r hr => ?_
    · exact (congrArg _ hheap).trans hs.ids
    · rw [(onQueue_frame hq f queue').2]
      split_ifs with h
      · rw [hs.nextId, ← h, hnext]
        exact Nat.le_refl _
      · exact Nat.le_refl _
    · rw [addresses_onQueue hq f queue']
      split_ifs with h
      · rw [← h, hqueued]
        exact hs.queued
      · exact List.Sublist.refl _
    · refine hs.holds handle r ?_
      rw [Holds, ← hpolls]
      exact hr

theorem Housed.onCurrent (hh : Housed s) {f : Bool → World P W → World P W}
    (hf : ∀ current w, Shrinks w (f current w)) : Housed ⟨s.thread.onCurrent f, s.homes⟩ := by
  rw [Queues.onCurrent]
  cases s.thread.pollableQueue with
  | some queue => exact hh.onQueue queue (f true) fun q _ => hf true _
  | none =>
    have hs := hf false (s.thread.world .default)
    exact hh.shrink rfl hs.ids (fun _ => Nat.le_refl _) (fun _ => List.Sublist.refl _) hs.holds

theorem Housed.registered (hh : Housed s) {queue handle : Nat} {q : WaitQueue P}
    (hq : s.thread.queues[queue]? = some q) (f : World P W → World P W) {waker : W}
    (hr : Registered (s.thread.world q) handle waker (f (s.thread.world q))) :
    Housed ⟨s.thread.onQueue queue f, s.homes ++ [queue]⟩ := by
  obtain ⟨hqueued, hnext⟩ := addresses_of_getElem? hq
  obtain ⟨hheap, hpolls⟩ := onQueue_shared hq f
  refine hh.register rfl ?_ (fun queue' => ?_) (fun queue' => ?_) fun handle' r hr' => ?_
  · rw [hnext, hheap, hr.heap, List.map_append]
    rfl
  · rw [(onQueue_frame hq f queue').2, hr.nextId]
    split_ifs with h
    · rw [← h, hnext]
      rfl
    · rfl
  · rw [addresses_onQueue hq f queue', hr.queue]
    split_ifs with h
    · rw [← h, hqueued]
      rfl
    · rw [List.append_nil]
  · have hr' : Holds (f (s.thread.world q)) handle' r := by
      rw [Holds, ← hpolls]
      exact hr'
    obtain ⟨-, hr'⟩ | ⟨-, hr'⟩ := (hr.holds handle' r).mp hr'
    · exact Or.inr hr'
    · exact Or.inl hr'

theorem Housed.recorded (hh : Housed s) {willWake : W → W → Bool} {operation : Operation P W}
    (hs : Housed ⟨s.thread.apply willWake operation, s.homes⟩) :
    Housed (s.apply willWake operation) := by
  have hsame : ¬ s.thread.heap.length < (s.thread.apply willWake operation).heap.length := by
    rw [← hh.cells]
    exact Nat.not_lt_of_le (Nat.le_of_eq hs.cells.symm)
  rw [Recorded.apply, if_neg hsame]
  exact hs

theorem Housed.pollWait (hh : Housed s) (willWake : W → W → Bool) (handle : Nat) (waker : W) :
    Housed (s.apply willWake (.pollWait handle waker)) := by
  cases hcurrent : s.thread.pollableQueue with
  | none =>
    apply hh.recorded
    have hs := shrinks_pollWait (s.thread.world .default) willWake handle waker
    rw [Queues.apply, Queues.pollWait, Queues.onCurrent, hcurrent]
    exact hh.shrink rfl hs.ids (fun _ => Nat.le_refl _) (fun _ => List.Sublist.refl _) hs.holds
  | some queue =>
    have heq : s.thread.apply willWake (.pollWait handle waker) =
        s.thread.onQueue queue fun w => (w.pollWait willWake true handle waker).1 := by
      rw [Queues.apply, Queues.pollWait, Queues.onCurrent, hcurrent]
    by_cases hshrinks : ∀ q, s.thread.queues[queue]? = some q →
        Shrinks (s.thread.world q) ((s.thread.world q).pollWait willWake true handle waker).1
    · apply hh.recorded
      rw [heq]
      exact hh.onQueue queue _ hshrinks
    · obtain ⟨q, hq⟩ := not_forall.mp hshrinks
      obtain ⟨hq, hnot⟩ := Classical.not_imp.mp hq
      have hstep := pollWait_step (s.thread.world q) willWake true handle waker
      have hr := (pollStep_shrinks_or hstep).resolve_left hnot
      have hs := hh.registered hq (fun w => (w.pollWait willWake true handle waker).1) hr
      have hgrown :
        s.thread.heap.length < (s.thread.apply willWake (.pollWait handle waker)).heap.length := by
        rw [heq, ← hs.cells, List.length_append, hh.cells]
        exact Nat.lt_succ_self _
      rw [Recorded.apply, if_pos hgrown, hcurrent, heq]
      exact hs

theorem Housed.withQueue (hh : Housed s) : Housed ⟨s.thread.withQueue, s.homes⟩ := by
  have hframe (queue : Nat) : s.thread.withQueue.entries queue = s.thread.entries queue ∧
      nextId s.thread queue ≤ nextId s.thread.withQueue queue := by
    simp only [Queues.withQueue, Queues.entries, nextId, List.getElem?_append]
    split_ifs with hlt
    · exact ⟨rfl, Nat.le_refl _⟩
    · rw [List.getElem?_eq_none (Nat.le_of_not_lt hlt)]
      cases queue - s.thread.queues.length <;> simp [WaitQueue.default]
  refine hh.shrink rfl rfl (fun queue => (hframe queue).2) (fun queue => ?_) fun _ _ h => h
  rw [addresses, (hframe queue).1]
  exact List.Sublist.refl _

theorem Housed.apply (hh : Housed s) (willWake : W → W → Bool) (operation : Operation P W) :
    Housed (s.apply willWake operation) := by
  cases operation with
  | pollWait handle waker => exact hh.pollWait willWake handle waker
  | withQueue => exact hh.recorded hh.withQueue
  | initializeWaitQueue =>
    apply hh.recorded
    rw [Queues.apply, Queues.initializeWaitQueue]
    split
    · exact hh
    · exact ⟨hh.withQueue.cells, hh.withQueue.held, hh.withQueue.home, hh.withQueue.distinct,
        hh.withQueue.fresh, hh.withQueue.ids⟩
  | install queue => exact hh.recorded ⟨hh.cells, hh.held, hh.home, hh.distinct, hh.fresh, hh.ids⟩
  | dropGuard handle =>
    apply hh.recorded
    rw [Queues.apply, Queues.dropGuard]
    split
    · exact ⟨hh.cells, hh.held, hh.home, hh.distinct, hh.fresh, hh.ids⟩
    · exact hh
  | newWaitPoll pollable =>
    refine hh.recorded
      (hh.shrink rfl rfl (fun _ => Nat.le_refl _) (fun _ => List.Sublist.refl _) ?_)
    exact fun handle r hr => (holds_newWaitPoll (s.thread.world .default) pollable handle r).mp hr
  | dropWait handle =>
    exact hh.recorded (hh.onCurrent fun current w => shrinks_dropWait w current handle)
  | dispatchReady queue ready =>
    exact hh.recorded
      (hh.onQueue queue (fun w => (w.dispatchReady ready).1) fun q _ =>
        shrinks_dispatchReady _ ready)
  | sweepReady queue ready =>
    exact hh.recorded
      (hh.onQueue queue (fun w => (w.sweepReady ready).1) fun q _ => shrinks_sweepReady _ ready)
  | abandonLeftoverPollables queue ready =>
    exact hh.recorded
      (hh.onQueue queue (fun w => (w.abandonLeftoverPollables ready).1) fun q _ =>
        shrinks_abandon _ ready)

theorem run_housed {willWake : W → W → Bool} {operations : List (Operation P W)}
    (h : (waitQueues willWake).Run operations s) : Housed s := by
  refine h.invariant (fun _ s => Housed s) ?_ ?_
  · rintro _ rfl
    constructor <;> simp [Queues.initial, Queues.world, Holds, addresses, Queues.entries]
  · rintro _ s operation _ hh ⟨-, rfl⟩
    exact hh.apply willWake operation

end Queues

section Drop

theorem eraseP_eq_filter {α : Type} {p : α → Bool} {l : List α}
    (h : l.Pairwise fun a b => p a = true → p b = false) : l.eraseP p = l.filter fun a => !p a := by
  induction l with
  | nil => rfl
  | cons a l ih =>
    obtain ⟨ha, hl⟩ := List.pairwise_cons.mp h
    cases hp : p a with
    | false => rw [List.eraseP_cons_of_neg (by simp [hp]),
        List.filter_cons_of_pos (by simp [hp]), ih hl]
    | true =>
      rw [List.eraseP_cons_of_pos hp, List.filter_cons_of_neg (by simp [hp])]
      exact (List.filter_eq_self.mpr fun b hb => by rw [ha b hb hp]; rfl).symm

theorem hasId_eq (w : World P W) (id : Nat) (entry : TableEntry P) :
    w.hasId id entry = ((w.heap.map WaitRegistration.id)[entry.registration]? == some id) := by
  rw [World.hasId, List.getElem?_map]
  cases w.heap[entry.registration]? <;> rfl

def sameId (t : Queues P W) (r : Nat) (entry : TableEntry P) : Bool :=
  idAt t entry.registration == idAt t r

theorem world_dropWait_entries {t : Queues P W} {q : WaitQueue P} {handle r : Nat}
    (hr : Holds (t.world q) handle r) (hlt : r < t.heap.length) :
    ((t.world q).dropWait true handle).queue.entries = q.entries.eraseP (sameId t r) := by
  obtain ⟨cell, hcell⟩ : ∃ cell, t.heap[r]? = some cell := ⟨_, List.getElem?_eq_getElem hlt⟩
  have hid : idAt t r = some cell.id := by
    rw [idAt, List.getElem?_map, hcell]
    rfl
  rw [dropWait_holds hr hcell]
  refine congrArg (List.eraseP · q.entries) (funext fun entry => ?_)
  rw [hasId_eq, ids_modify _ _ cancel_id, sameId, hid]
  rfl

theorem entries_dropWait {t : Queues P W} {handle r : Nat} (hr : Holds (t.world .default) handle r)
    (hcell : r < t.heap.length) (queue : Nat) : (t.dropWait handle).entries queue =
      if t.pollableQueue = some queue then (t.entries queue).eraseP (sameId t r)
        else t.entries queue := by
  rw [Queues.dropWait, Queues.onCurrent]
  cases hcurrent : t.pollableQueue with
  | none => rfl
  | some current =>
    simp only [Option.some.injEq]
    cases hq : t.queues[current]? with
    | none =>
      rw [Queues.onQueue, hq]
      split_ifs with h
      · rw [Queues.entries, ← h, hq]
        rfl
      · rfl
    | some q =>
      rw [(onQueue_frame hq _ queue).1]
      split_ifs with h
      · rw [Queues.entries, ← h, hq]
        exact world_dropWait_entries hr hcell
      · rfl

theorem entries_dropWait_unregistered {t : Queues P W} {handle : Nat}
    (hn : ∀ r, ¬ Holds (t.world .default) handle r) (queue : Nat) :
    (t.dropWait handle).entries queue = t.entries queue := by
  rw [Queues.dropWait, Queues.onCurrent]
  cases t.pollableQueue with
  | none => rfl
  | some current =>
    cases hq : t.queues[current]? with
    | none => simp only [Queues.onQueue, hq]
    | some q =>
      rw [(onQueue_frame hq _ queue).1]
      split_ifs with h
      · have hdrop : (t.world q).dropWait true handle = (t.world q).setPoll handle none :=
          dropWait_unregistered hn
        rw [hdrop, Queues.entries, ← h, hq]
        rfl
      · rfl

end Drop

/-- The drop of a future takes the entry of its registration from the queue it
was made with, and no other entry from any queue. -/
def RemovesOwnEntry (s : Recorded P W) (handle r : Nat) : Prop :=
  ∀ queue, (s.thread.dropWait handle).entries queue =
    if s.homes[r]? = some queue then (s.thread.entries queue).filter
      (fun entry => entry.registration != r)
    else s.thread.entries queue

section Removes

variable {s : Recorded P W} {handle r home : Nat}

theorem sameId_iff (hh : Housed s) (hhome : s.homes[r]? = some home) {entry : TableEntry P}
    (he : entry ∈ s.thread.entries home) : sameId s.thread r entry = (entry.registration == r) := by
  rw [sameId, Bool.eq_iff_iff, beq_iff_eq, beq_iff_eq]
  refine ⟨fun h => ?_, fun h => by rw [h]⟩
  exact hh.ids _ _ home (hh.home home _ (List.mem_map_of_mem he)) hhome h

theorem removesOwnEntry_at_home (hh : Housed s) (hr : Holds (s.thread.world .default) handle r)
    (hhome : s.homes[r]? = some home) (hcurrent : s.thread.pollableQueue = some home) :
    RemovesOwnEntry s handle r := by
  intro queue
  rw [entries_dropWait hr (hh.held handle r hr), hcurrent, hhome]
  refine if_ctx_congr Iff.rfl (fun h => ?_) fun _ => rfl
  obtain rfl := Option.some.inj h
  have hdistinct := List.pairwise_map.mp (hh.distinct home)
  rw [eraseP_eq_filter]
  · refine List.filter_congr fun entry he => ?_
    rw [sameId_iff hh hhome he]
    rfl
  · refine hdistinct.imp_of_mem fun {a b} ha hb hne hsame => ?_
    rw [sameId_iff hh hhome ha, beq_iff_eq] at hsame
    rw [sameId_iff hh hhome hb, beq_eq_false_iff_ne, ← hsame]
    exact hne.symm

/-- With another queue, or none, the drop is right only if there is nothing to
take and it takes nothing. -/
theorem removesOwnEntry_elsewhere (hh : Housed s) (hr : Holds (s.thread.world .default) handle r)
    (hhome : s.homes[r]? = some home) (hcurrent : s.thread.pollableQueue ≠ some home) :
    RemovesOwnEntry s handle r ↔ r ∉ addresses s.thread home ∧
      ∀ queue, s.thread.pollableQueue = some queue →
        ∀ r' ∈ addresses s.thread queue, idAt s.thread r' ≠ idAt s.thread r := by
  have hdrop := entries_dropWait hr (hh.held handle r hr)
  have hown : r ∉ addresses s.thread home ↔
      s.thread.entries home = (s.thread.entries home).filter fun entry =>
      entry.registration != r := by
    rw [eq_comm, List.filter_eq_self, addresses, List.mem_map]
    simp
  have hnone (queue : Nat) : (s.thread.entries queue).eraseP
    (sameId s.thread r) = s.thread.entries queue ↔
      ∀ r' ∈ addresses s.thread queue, idAt s.thread r' ≠ idAt s.thread r := by
    rw [List.eraseP_eq_self_iff, addresses, List.forall_mem_map]
    simp [sameId]
  constructor
  · intro hremoves
    refine ⟨hown.mpr ?_, fun queue hqueue => (hnone queue).mp ?_⟩
    · have hhere := hremoves home
      rwa [hdrop, if_neg hcurrent, if_pos hhome] at hhere
    · have hne : s.homes[r]? ≠ some queue := fun h => hcurrent (hqueue.trans (h.symm.trans hhome))
      have hthere := hremoves queue
      rwa [hdrop, if_pos hqueue, if_neg hne] at hthere
  · rintro ⟨hmissing, hclash⟩ queue
    have hleft : (s.thread.dropWait handle).entries queue = s.thread.entries queue := by
      rw [hdrop]
      split_ifs with hqueue
      · exact (hnone queue).mpr (hclash queue hqueue)
      · rfl
    rw [hleft]
    split_ifs with h
    · obtain rfl := Option.some.inj (hhome.symm.trans h)
      exact hown.mp hmissing
    · rfl

end Removes

/-- Dropping a registered future takes its entry and nothing else exactly if
the drop finds the queue that the future was registered with, or the entry has
left that queue and the queue that the drop finds has no entry with the same
identifier. Any other future takes nothing. -/
theorem drop_removes_own_entry_iff {willWake : W → W → Bool}
    {operations : List (Operation P W)} {s : Recorded P W}
    (h : (waitQueues willWake).Run operations s) (handle : Nat) :
    (∀ r, Holds (s.thread.world .default) handle r → ∃ home, s.homes[r]? = some home ∧
      (RemovesOwnEntry s handle r ↔ s.thread.pollableQueue = some home ∨
        r ∉ addresses s.thread home ∧ ∀ queue, s.thread.pollableQueue = some queue →
          ∀ r' ∈ addresses s.thread queue, idAt s.thread r' ≠ idAt s.thread r)) ∧
    ((∀ r, ¬ Holds (s.thread.world .default) handle r) →
      ∀ queue, (s.thread.dropWait handle).entries queue = s.thread.entries queue) := by
  have hh := run_housed h
  refine ⟨fun r hr => ?_, fun hn queue => entries_dropWait_unregistered hn queue⟩
  obtain ⟨home, hhome⟩ : ∃ home, s.homes[r]? = some home :=
    ⟨_, List.getElem?_eq_getElem (hh.cells ▸ hh.held handle r hr)⟩
  refine ⟨home, hhome, ?_⟩
  by_cases hcurrent : s.thread.pollableQueue = some home
  · exact iff_of_true (removesOwnEntry_at_home hh hr hhome hcurrent) (Or.inl hcurrent)
  · rw [removesOwnEntry_elsewhere hh hr hhome hcurrent]
    exact (or_iff_right hcurrent).symm

section Process

structure Single (t : Queues P W) : Prop where
  queues : t.process = none ∧ t.queues = [] ∨ t.process = some 0 ∧ t.queues.length = 1
  current : ∀ queue, t.current = some queue → queue = 0
  guards : ∀ guard, some guard ∈ t.guards → ∀ queue, guard.previous = some queue → queue = 0

variable {t : Queues P W}

theorem Single.onQueue (hs : Single t) (queue : Nat) (f : World P W → World P W) :
    Single (t.onQueue queue f) := by
  rw [Queues.onQueue]
  split
  · refine ⟨hs.queues.imp (And.imp_right fun h => ?_) (And.imp_right fun h => ?_),
      hs.current, hs.guards⟩
    · simp only [h, List.set_nil]
    · rw [List.length_set, h]
  · exact hs

theorem Single.onCurrent (hs : Single t) (f : Bool → World P W → World P W) :
    Single (t.onCurrent f) := by
  rw [Queues.onCurrent]
  split
  · exact hs.onQueue _ _
  · exact ⟨hs.queues, hs.current, hs.guards⟩

theorem Single.apply (hs : Single t) (willWake : W → W → Bool) {operation : Operation P W}
    (he : operation.enabled t) (hone : operation ≠ .withQueue) :
    Single (t.apply willWake operation) := by
  cases operation with
  | withQueue => exact absurd rfl hone
  | initializeWaitQueue =>
    rw [Queues.apply, Queues.initializeWaitQueue]
    obtain ⟨hprocess, hqueues⟩ | ⟨hprocess, -⟩ := hs.queues
    · rw [hprocess]
      exact ⟨Or.inr (by simp [Queues.withQueue, hqueues]), hs.current, hs.guards⟩
    · rw [hprocess]
      exact hs
  | install queue =>
    have hlength : t.queues.length ≤ 1 := by
      obtain ⟨-, hqueues⟩ | ⟨-, hqueues⟩ := hs.queues <;> simp [hqueues]
    have hzero : queue = 0 := Nat.lt_one_iff.mp (Nat.lt_of_lt_of_le he hlength)
    refine ⟨hs.queues, fun queue' h => (Option.some.inj h).symm.trans hzero, fun guard hg => ?_⟩
    obtain hg | hg := List.mem_append.mp hg
    · exact hs.guards guard hg
    · rw [List.mem_singleton, Option.some.injEq] at hg
      subst hg
      exact hs.current
  | dropGuard handle =>
    rw [Queues.apply, Queues.dropGuard]
    split
    · rename_i guard hguard
      have hmem : some guard ∈ t.guards := List.mem_of_getElem? (Option.join_eq_some_iff.mp hguard)
      refine ⟨hs.queues, hs.guards guard hmem, fun guard' hg => ?_⟩
      obtain hg | hg := List.mem_or_eq_of_mem_set hg
      · exact hs.guards guard' hg
      · cases hg
    · exact hs
  | newWaitPoll pollable => exact ⟨hs.queues, hs.current, hs.guards⟩
  | pollWait handle waker =>
    exact hs.onCurrent fun current w => (w.pollWait willWake current handle waker).1
  | dropWait handle => exact hs.onCurrent fun current w => w.dropWait current handle
  | dispatchReady queue ready => exact hs.onQueue queue fun w => (w.dispatchReady ready).1
  | sweepReady queue ready => exact hs.onQueue queue fun w => (w.sweepReady ready).1
  | abandonLeftoverPollables queue ready =>
    exact hs.onQueue queue fun w => (w.abandonLeftoverPollables ready).1

theorem Single.pollableQueue_eq {s : Recorded P W}
    (hs : Single s.thread) (hh : Housed s) {r home : Nat}
    (hhome : s.homes[r]? = some home) : s.thread.pollableQueue = some home := by
  have hlt : r < (s.thread.heap.map WaitRegistration.id).length := by
    rw [List.length_map, ← hh.cells]
    exact (List.getElem?_eq_some_iff.mp hhome).1
  have hfresh := hh.fresh r home _ hhome (List.getElem?_eq_getElem hlt)
  rw [nextId] at hfresh
  obtain ⟨-, hqueues⟩ | ⟨hprocess, hlength⟩ := hs.queues
  · simp [hqueues] at hfresh
  · have hzero : home = 0 := by
      by_contra hne
      rw [List.getElem?_eq_none (by omega)] at hfresh
      simp at hfresh
    rw [Queues.pollableQueue, hzero, hprocess]
    cases hcurrent : s.thread.current with
    | none => rfl
    | some queue => rw [hs.current queue hcurrent, Option.some_or]

/-- Executors that share the queue of the process, as all of `Executor::new`
do, drop their futures without harm to each other. -/
theorem process_queue_isolated {willWake : W → W → Bool}
    {operations : List (Operation P W)} {s : Recorded P W}
    (h : (waitQueues willWake).Run operations s) (hone : .withQueue ∉ operations) {handle r : Nat}
    (hr : Holds (s.thread.world .default) handle r) : RemovesOwnEntry s handle r := by
  have hs : Single s.thread := by
    refine h.invariant (fun operations s => .withQueue ∉ operations → Single s.thread) ?_ ?_ hone
    · rintro _ rfl -
      constructor <;> simp [Queues.initial]
    · rintro operations s operation _ ih ⟨he, rfl⟩ hone
      rw [List.mem_append, List.mem_singleton, not_or] at hone
      exact (ih hone.1).apply willWake he (Ne.symm hone.2)
  have hh := run_housed h
  obtain ⟨home, hhome⟩ : ∃ home, s.homes[r]? = some home :=
    ⟨_, List.getElem?_eq_getElem (hh.cells ▸ hh.held handle r hr)⟩
  exact removesOwnEntry_at_home hh hr hhome (hs.pollableQueue_eq hh hhome)

def ofWorld (w : World P W) : Queues P W := ⟨w.heap, [w.queue], w.polls, some 0, none, []⟩

def onThread : Op P W → Operation P W
  | .new pollable => .newWaitPoll pollable
  | .poll handle waker => .pollWait handle waker
  | .drop handle => .dropWait handle
  | .dispatchReady ready => .dispatchReady 0 ready
  | .sweepReady ready => .sweepReady 0 ready

theorem ofWorld_apply (willWake : W → W → Bool) (w : World P W) (op : Op P W) :
    (ofWorld w).apply willWake (onThread op) = ofWorld (op.apply willWake w).1 := by
  cases op <;> rfl

theorem onThread_enabled {w : World P W} {op : Op P W} (h : op.enabled w) :
    (onThread op).enabled (ofWorld w) := by
  cases op with
  | new pollable => exact trivial
  | poll handle waker | drop handle => exact h
  | dispatchReady ready | sweepReady ready => exact Nat.zero_lt_one

theorem run_ofWorld {willWake : W → W → Bool} {ops : List (Op P W)} {w : World P W}
    (h : (waitSystem willWake).Run ops w) :
    ∃ homes, (waitQueues willWake).Run (.initializeWaitQueue :: ops.map onThread)
      ⟨ofWorld w, homes⟩ := by
  induction h with
  | start h =>
    subst h
    exact ⟨[], .next (.start rfl) ⟨trivial, rfl⟩⟩
  | next _ hs ih =>
    obtain ⟨he, rfl⟩ := hs
    obtain ⟨homes, hrun⟩ := ih
    rw [List.map_append, ← ofWorld_apply]
    exact ⟨_, .next hrun ⟨onThread_enabled he, rfl⟩⟩

end Process

/-- The queues of two executors, the second of which is installed over the first.
A future has registered with each of them. -/
def nested : List (Operation Unit Unit) :=
  [.withQueue, .withQueue, .newWaitPoll (), .newWaitPoll (),
    .install 0, .pollWait 0 (), .install 1, .pollWait 1 ()]

def nestedState : Recorded Unit Unit :=
  nested.foldl (Recorded.apply fun _ _ => true) ⟨.initial, []⟩

theorem run_apply {willWake : W → W → Bool} {operations : List (Operation P W)} {s : Recorded P W}
    (h : (waitQueues willWake).Run operations s)
    (operation : Operation P W) (he : operation.enabled s.thread) :
    (waitQueues willWake).Run (operations ++ [operation]) (s.apply willWake operation) :=
  .next h ⟨he, rfl⟩

theorem nested_run : (waitQueues fun _ _ => true).Run nested nestedState := by
  have hstart : (waitQueues fun _ _ => true).Run [] (⟨.initial, []⟩ : Recorded Unit Unit) :=
    .start rfl
  have hqueues := run_apply (run_apply hstart .withQueue trivial) .withQueue trivial
  have hfutures := run_apply (run_apply hqueues (.newWaitPoll ()) trivial) (.newWaitPoll ()) trivial
  have hfirst :=
    run_apply (run_apply hfutures (.install 0) (by decide : 0 < 2)) (.pollWait 0 ()) ⟨_, rfl⟩
  exact run_apply (run_apply hfirst (.install 1) (by decide : 1 < 2)) (.pollWait 1 ()) ⟨_, rfl⟩

/-- The future of the second executor, which runs. -/
theorem drop_removes_own_entry_iff_inner : RemovesOwnEntry nestedState 1 1 := by
  have hqueue : nestedState.thread.pollableQueue = nestedState.homes[1]? := by decide
  obtain ⟨home, hhome, hiff⟩ := (drop_removes_own_entry_iff nested_run 1).1 1 rfl
  exact hiff.mpr (Or.inl (hqueue.trans hhome))

/-- The future of the first executor: its entry stays, and the entry of the
other future goes. -/
theorem other_entry_removed : (waitQueues fun _ _ => true).Run nested nestedState ∧
    Holds (nestedState.thread.world .default) 0 0 ∧ Holds (nestedState.thread.world .default) 1 1 ∧
    nestedState.homes = [0, 1] ∧ ¬ RemovesOwnEntry nestedState 0 0 ∧
    addresses (nestedState.thread.dropWait 0) 0 = [0] ∧
    addresses (nestedState.thread.dropWait 0) 1 = [] := by
  have hentries : addresses (nestedState.thread.dropWait 0) 1 = [] := by decide
  refine ⟨nested_run, rfl, rfl, by decide, fun h => ?_, by decide, hentries⟩
  have hleft := congrArg (List.map TableEntry.registration) (h 1)
  rw [addresses] at hentries
  rw [hentries] at hleft
  exact absurd hleft (by decide)

end LeptosWasi.QueueIsolation
