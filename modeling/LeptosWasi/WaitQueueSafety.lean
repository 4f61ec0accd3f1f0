import LeptosWasi.WaitOperations

namespace LeptosWasi.WaitQueueSafety

open Pollables PollableInvariant WaitOperations

variable {P W : Type}

def waitSystem (willWake : W → W → Bool) : System (World P W) (Op P W) where
  init w := w = .initial
  step w op w' := op.enabled w ∧ w' = (op.apply willWake w).1

def pollOf (handle : Nat) : Op P W → Option W
  | .poll handle' waker => if handle' = handle then some waker else none
  | _ => none

def lastPoll (handle : Nat) (ops : List (Op P W)) : Option W :=
  ops.reverse.findSome? (pollOf handle)

/-- Two wakers that wake the same task: clones, or equal by `will_wake`. -/
def Equivalent (willWake : W → W → Bool) (stored waker : W) : Prop :=
  stored = waker ∨ willWake stored waker = true

theorem lastPoll_concat (handle : Nat) (ops : List (Op P W)) (op : Op P W) :
    lastPoll handle (ops ++ [op]) = (pollOf handle op).or (lastPoll handle ops) := by
  simp [lastPoll, List.findSome?_cons, Option.or]
  cases pollOf handle op <;> rfl

theorem lastPoll_skip {handle : Nat} {op : Op P W}
    (hop : pollOf handle op = none) (ops : List (Op P W)) :
    lastPoll handle (ops ++ [op]) = lastPoll handle ops := by
  rw [lastPoll_concat, hop, Option.none_or]

def Polled (willWake : W → W → Bool) (ops : List (Op P W)) (w : World P W) : Prop :=
  ∀ h r cell, Holds w h r → w.heap[r]? = some cell → cell.status = .pending →
    ∃ waker, lastPoll h ops = some waker ∧ Equivalent willWake cell.taskWaker waker

def NoneLost : Nat → Prop := fun _ => False

section Step

variable {willWake : W → W → Bool} {ops : List (Op P W)} {w : World P W}

theorem polled_settled (hc : Consistent NoneLost w) (hp : Polled willWake ops w) {op : Op P W}
    (hop : ∀ h, pollOf h op = none) {flagged : List (TableEntry P × Bool)} (hf : Flags w flagged)
    (entries : List (TableEntry P)) :
    Polled willWake (ops ++ [op]) (settled w flagged entries) := by
  intro h r cell hh hcell hs
  rw [lastPoll_skip (hop h)]
  have hheap := (settled_heap hc hf).1 r
  rw [settled] at hcell
  rw [hcell] at hheap
  obtain ⟨before, hbefore, heq⟩ := Option.map_eq_some_iff.mp hheap.symm
  split_ifs at heq with hm
  · rw [← heq] at hs
    cases hs
  · subst heq
    exact hp h r before hh hbefore hs

theorem polled_pollStep (hc : Consistent NoneLost w)
    (hp : Polled willWake ops w) {h : Nat} {waker : W}
    {w' : World P W} (hs : PollStep willWake w h waker w') :
    Polled willWake (ops ++ [.poll h waker]) w' := by
  have hlast : ∀ h', h ≠ h' → lastPoll h' (ops ++ [.poll h waker]) = lastPoll h' ops := by
    intro h' hne
    exact lastPoll_skip (by rw [pollOf, if_neg hne]) ops
  have hself : lastPoll h (ops ++ [.poll h waker]) = some waker := by
    rw [lastPoll_concat, pollOf, if_pos rfl, Option.some_or]
  cases hs with
  | unchanged hn =>
    intro h' r cell hh hcell hpending
    rw [hlast h' (by rintro rfl; exact hn r hh)]
    exact hp h' r cell hh hcell hpending
  | failed hn error =>
    intro h' r cell hh hcell hpending
    obtain ⟨-, -, he⟩ | ⟨hne, hh⟩ := (holds_setPoll w h _ h' r).mp hh
    · cases he
    · rw [hlast h' hne]
      exact hp h' r cell hh hcell hpending
  | registered w' hn hr =>
    intro h' r cell hh hcell hpending
    obtain ⟨rfl, rfl⟩ | ⟨hne, hh⟩ := (hr.holds h' r).mp hh
    · rw [hr.getElem?_new, Option.some.injEq] at hcell
      subst hcell
      exact ⟨waker, hself, Or.inl rfl⟩
    · rw [hlast h' hne]
      rw [hr.getElem? (hc.cell h' r hh)] at hcell
      exact hp h' r cell hh hcell hpending
  | repolled r hh =>
    intro h' r' cell hh' hcell hpending
    have hh' : Holds w h' r' := hh'
    simp only [List.getElem?_modify] at hcell
    obtain ⟨before, hbefore, heq⟩ := Option.map_eq_some_iff.mp hcell
    by_cases hr : r = r'
    · subst hr
      obtain rfl := hc.holder h h' r hh hh'
      rw [if_pos rfl] at heq
      have hstatus : before.status = .pending := by
        rw [← hpending, ← heq, poll_status]
      refine ⟨waker, hself, ?_⟩
      rw [← heq, WaitRegistration.poll, hstatus]
      simp only
      split_ifs with hw
      · exact Or.inr hw
      · exact Or.inl rfl
    · have hne : h ≠ h' := by
        rintro rfl
        exact hr (holds_right_unique hh hh')
      rw [if_neg hr] at heq
      subst heq
      rw [hlast h' hne]
      exact hp h' r' before hh' hbefore hpending

theorem polled_drop (hc : Consistent NoneLost w) (hp : Polled willWake ops w) (h : Nat) :
    Polled willWake (ops ++ [.drop h]) (w.dropWait true h) := by
  intro h' r' cell hh' hcell hpending
  rw [lastPoll_skip rfl]
  by_cases hreg : ∃ r, Holds w h r
  · obtain ⟨r, hh⟩ := hreg
    obtain ⟨hheap, -, -, hpolls⟩ := dropWait_registered hc hh
    rw [Holds, hpolls] at hh'
    obtain ⟨-, -, he⟩ | ⟨hne, hold⟩ := (holds_setPoll w h none h' r').mp hh'
    · cases he
    · have hr : r ≠ r' := by
        rintro rfl
        exact hne (hc.holder h h' r hh hold)
      rw [hheap, List.getElem?_modify_ne _ _ hr] at hcell
      exact hp h' r' cell hold hcell hpending
  · rw [dropWait_unregistered fun r hh => hreg ⟨r, hh⟩] at hh' hcell
    obtain ⟨-, -, he⟩ | ⟨-, hold⟩ := (holds_setPoll w h none h' r').mp hh'
    · cases he
    · exact hp h' r' cell hold hcell hpending

theorem polled_apply (hc : Consistent NoneLost w) (hp : Polled willWake ops w) (op : Op P W) :
    Polled willWake (ops ++ [op]) (op.apply willWake w).1 := by
  cases op with
  | new pollable =>
    intro h r cell hh hcell hpending
    rw [lastPoll_skip rfl]
    exact hp h r cell ((holds_newWaitPoll w pollable h r).mp hh) hcell hpending
  | poll h waker => exact polled_pollStep hc hp (pollWait_step w willWake true h waker)
  | drop h => exact polled_drop hc hp h
  | dispatchReady ready =>
    obtain ⟨flagged, hf, heq, -⟩ := dispatchReady_settles hc ready
    rw [Op.apply, heq]
    exact polled_settled hc hp (fun _ => rfl) hf _
  | sweepReady ready =>
    obtain ⟨flagged, hf, heq, -⟩ := sweepReady_settles hc ready
    rw [Op.apply, heq]
    exact polled_settled hc hp (fun _ => rfl) hf _

/-- The wakers of queued registrations are those of the last polls. -/
theorem woken_last_polls (hc : Consistent NoneLost w)
    (hp : Polled willWake ops w) (moved : List Nat)
    (hm : ∀ r ∈ moved, r ∈ queued w) :
    List.Forall₂ (fun r waker => ∃ h last, Holds w h r ∧ lastPoll h ops = some last ∧
        Equivalent willWake waker last)
      moved (moved.filterMap fun r => w.heap[r]?.map WaitRegistration.taskWaker) := by
  induction moved with
  | nil => exact .nil
  | cons r moved ih =>
    obtain ⟨cell, hcell, hs⟩ := Option.map_eq_some_iff.mp (hc.pending r (hm r List.mem_cons_self))
    obtain ⟨h, hh⟩ := hc.live r (hm r List.mem_cons_self)
    obtain ⟨last, hlast, heq⟩ := hp h r cell hh hcell hs
    rw [List.filterMap_cons, hcell]
    exact .cons ⟨h, last, hh, hlast, heq⟩ (ih fun r hr => hm r (List.mem_cons_of_mem _ hr))

theorem pollWait_exhausted {h : Nat} {pollable : P}
    (hpoll : w.polls[h]? = some (some (.unregistered pollable)))
    (hfull : 2 ^ 64 ≤ w.queue.nextId + 1)
    (waker : W) :
    (w.pollWait willWake true h waker).1.heap = w.heap ∧
      (w.pollWait willWake true h waker).1.queue = w.queue ∧
      (w.pollWait willWake true h waker).2 = some (.error .pollableRegistrationExhausted) := by
  have hr : w.register pollable waker = .error .pollableRegistrationExhausted := if_neg (by omega)
  simp only [World.pollWait, hpoll, Option.join_some,
    Bool.not_true, Bool.false_eq_true, if_false, hr]
  exact ⟨rfl, rfl, trivial⟩

/-- What the drop of a future leaves of it. -/
structure Dropped (w : World P W) (handle : Nat) (w' : World P W) : Prop where
  gone : w'.polls = w.polls.set handle none
  dead : w'.polls[handle]? = some none
  registered : ∀ r, Holds w handle r →
    r ∉ queued w' ∧ queued w' = (queued w).erase r ∧
      (statusAt w.heap r = some .pending → statusAt w'.heap r = some .canceled)
  unregistered : (∀ r, ¬ Holds w handle r) → w'.heap = w.heap ∧ w'.queue = w.queue

theorem dropped_dropWait (hc : Consistent NoneLost w) {handle : Nat} {inner : WaitPollInner P}
    (hpoll : w.polls[handle]? = some (some inner)) : Dropped w handle (w.dropWait true handle) := by
  have hlt : handle < w.polls.length := (List.getElem?_eq_some_iff.mp hpoll).1
  have hpolls : (w.dropWait true handle).polls = w.polls.set handle none := by
    by_cases hreg : ∃ r, Holds w handle r
    · obtain ⟨r, hh⟩ := hreg
      exact (dropWait_registered hc hh).2.2.2
    · rw [dropWait_unregistered fun r hh => hreg ⟨r, hh⟩]
      rfl
  refine ⟨hpolls, ?_, ?_, ?_⟩
  · rw [hpolls, List.getElem?_set_self hlt]
  · intro r hh
    obtain ⟨hheap, -, hqueue, -⟩ := dropWait_registered hc hh
    refine ⟨?_, hqueue, ?_⟩
    · rw [hqueue, hc.distinct.mem_erase_iff]
      exact fun h => h.1 rfl
    · intro hs
      obtain ⟨cell, hcell, hstatus⟩ := Option.map_eq_some_iff.mp hs
      rw [hheap, statusAt_modify, if_pos rfl, hcell, Option.map_some, WaitRegistration.cancel,
        WaitRegistration.isPending, hstatus]
      rfl
  · intro hn
    rw [dropWait_unregistered hn]
    exact ⟨rfl, rfl⟩

theorem pollWait_registers {h : Nat} {pollable : P}
    (hpoll : w.polls[h]? = some (some (.unregistered pollable)))
    (hbound : w.queue.nextId + 1 < 2 ^ 64)
    (waker : W) :
    Registered w h waker (w.pollWait willWake true h waker).1 ∧
      (w.pollWait willWake true h waker).1.queue.entries =
      w.queue.entries ++ [⟨pollable, w.heap.length⟩] ∧
      (w.pollWait willWake true h waker).2 = none := by
  have hlt : h < w.polls.length := (List.getElem?_eq_some_iff.mp hpoll).1
  have hr : w.register pollable waker = .ok (⟨w.heap ++ [.new w.queue.nextId waker],
      ⟨w.queue.nextId + 1, w.queue.entries ++ [⟨pollable, w.heap.length⟩]⟩, w.polls⟩,
      w.heap.length) :=
    if_pos hbound
  have hregistered := registered_of_register hlt hr
  simp only [World.pollWait, hpoll, Option.join_some,
    Bool.not_true, Bool.false_eq_true, if_false, hr]
  exact ⟨hregistered, rfl, trivial⟩

/-- What a later poll answers. -/
def Answers : RegistrationStatus → PollResult
  | .pending => none
  | .ready => some (.ok ())
  | .canceled => some (.error .pollableCanceled)

theorem pollWait_answers {h r : Nat} (hh : Holds w h r) {status : RegistrationStatus}
    (hs : statusAt w.heap r = some status) (waker : W) :
    (w.pollWait willWake true h waker).2 = Answers status := by
  obtain ⟨cell, hcell, rfl⟩ := Option.map_eq_some_iff.mp hs
  have hj : w.polls[h]?.join = some (.registered r) := Option.join_eq_some_iff.mpr hh
  simp only [World.pollWait, hj, hcell, Option.bind_some, WaitRegistration.poll]
  cases cell.status <;> rfl

end Step

theorem run_consistent {willWake : W → W → Bool} {ops : List (Op P W)} {w : World P W}
    (h : (waitSystem willWake).Run ops w) : Consistent NoneLost w ∧ Polled willWake ops w := by
  apply h.invariant fun ops w => Consistent NoneLost w ∧ Polled willWake ops w
  · rintro w rfl
    refine ⟨consistent_initial NoneLost, ?_⟩
    intro h r cell hh
    simp [Holds, World.initial] at hh
  · rintro ops w op w' ⟨hc, hp⟩ ⟨-, rfl⟩
    exact ⟨consistent_apply hc op, polled_apply hc hp op⟩

/-- The queue and the futures stay consistent through any sequence of
operations. Each operation wakes one waker for each registration that it makes
ready, and this is the waker of the last poll. A drop takes the future and its
entry away. -/
theorem wait_queue_safe (willWake : W → W → Bool) (ops : List (Op P W)) (w : World P W)
    (h : (waitSystem willWake).Run ops w) :
    (w.heap.map WaitRegistration.id).Nodup ∧
    (w.queue.entries.map fun entry => w.heap[entry.registration]?.map WaitRegistration.id).Nodup ∧
    (∀ r ∈ queued w, statusAt w.heap r = some .pending ∧ ∃ handle, Holds w handle r) ∧
    (∀ handle r, Holds w handle r → statusAt w.heap r = some .pending → (queued w).count r = 1) ∧
    (∀ op : Op P W, op.enabled w →
      ∃ moved, Transition w (op.apply willWake w).1 moved ∧
        List.Forall₂ (fun r waker => ∃ handle last, Holds w handle r ∧
          lastPoll handle ops = some last ∧
          Equivalent willWake waker last) moved (op.apply willWake w).2) ∧
    (∀ handle, (Op.drop handle : Op P W).enabled w → Dropped w handle (w.dropWait true handle)) ∧
    (∀ handle pollable waker, w.polls[handle]? = some (some (.unregistered pollable)) →
      w.queue.nextId + 1 < 2 ^ 64 →
        Registered w handle waker (w.pollWait willWake true handle waker).1 ∧
        (w.pollWait willWake true handle waker).1.queue.entries =
          w.queue.entries ++ [⟨pollable, w.heap.length⟩] ∧
        (w.pollWait willWake true handle waker).2 = none) ∧
    (∀ handle pollable waker, w.polls[handle]? = some (some (.unregistered pollable)) →
      2 ^ 64 ≤ w.queue.nextId + 1 →
        (w.pollWait willWake true handle waker).1.heap = w.heap ∧
        (w.pollWait willWake true handle waker).1.queue = w.queue ∧
        (w.pollWait willWake true handle waker).2 = some (.error .pollableRegistrationExhausted)) ∧
    (∀ handle r status waker, Holds w handle r → statusAt w.heap r = some status →
      (w.pollWait willWake true handle waker).2 = Answers status) := by
  obtain ⟨hc, hp⟩ := run_consistent h
  refine ⟨hc.ids, ?_, ?_, ?_, ?_, ?_, ?_, ?_, ?_⟩
  · have hcells : ∀ r ∈ queued w, r < w.heap.length := by
      intro r hr
      obtain ⟨handle, hh⟩ := hc.live r hr
      exact hc.cell handle r hh
    have hmap : (w.queue.entries.map fun entry =>
      w.heap[entry.registration]?.map WaitRegistration.id) =
        (queued w).map fun r => (w.heap.map WaitRegistration.id)[r]? := by
      simp [queued, Function.comp_def]
    rw [hmap]
    refine hc.distinct.map_on fun r hr r' hr' heq => ?_
    exact (List.getElem?_inj (by rw [List.length_map]; exact hcells r hr) hc.ids).mp heq
  · intro r hr
    exact ⟨hc.pending r hr, hc.live r hr⟩
  · intro handle r hh hs
    have hq : r ∈ queued w := (hc.waiting handle r hh hs).resolve_right id
    exact List.count_eq_one_of_mem hc.distinct hq
  · intro op _
    obtain ⟨moved, htransition, hqueued, hwakers⟩ := transition_apply hc willWake op
    rw [hwakers]
    exact ⟨moved, htransition, woken_last_polls hc hp moved hqueued⟩
  · rintro handle ⟨inner, hpoll⟩
    exact dropped_dropWait hc hpoll
  · intro handle pollable waker hpoll hbound
    exact pollWait_registers hpoll hbound waker
  · intro handle pollable waker hpoll hfull
    exact pollWait_exhausted hpoll hfull waker
  · intro handle r status waker hh hs
    exact pollWait_answers hh hs waker

section Canceled

def waiting : World Nat Nat :=
  ⟨[⟨1, .pending, 8⟩, ⟨2, .pending, 9⟩], ⟨3, [⟨10, 0⟩, ⟨20, 1⟩]⟩,
    [some (.registered 0), some (.registered 1)]⟩

def oneCanceled : World Nat Nat :=
  ⟨[⟨1, .pending, 8⟩, ⟨2, .canceled, 9⟩], ⟨3, [⟨10, 0⟩]⟩, [some (.registered 0), none]⟩

/-- The drop of a queued future leaves no entry of it, and a host that repeats
its index and reports one out of range wakes the last task of the other, once. -/
theorem wait_queue_safe_canceled :
    Dropped waiting 1 (waiting.dropWait true 1) ∧
    ∃ moved, Transition oneCanceled (oneCanceled.dispatchReady [5, 0, 0]).1 moved ∧
      List.Forall₂ (fun r waker => ∃ handle last, Holds oneCanceled handle r ∧
        lastPoll handle [.new 10, .poll 0 7, .new 20, .poll 1 9, .poll 0 8, .drop 1] = some last ∧
        Equivalent (fun a b : Nat => a == b) waker last) moved [8] := by
  have hnew : (waitSystem fun a b : Nat => a == b).Run
    [.new 10] ⟨[], ⟨1, []⟩, [some (.unregistered 10)]⟩ :=
    .next (.start rfl) ⟨trivial, rfl⟩
  have hfirst : (waitSystem fun a b : Nat => a == b).Run [.new 10, .poll 0 7]
      ⟨[⟨1, .pending, 7⟩], ⟨2, [⟨10, 0⟩]⟩, [some (.registered 0)]⟩ :=
    .next hnew ⟨⟨_, rfl⟩, rfl⟩
  have hother : (waitSystem fun a b : Nat => a == b).Run [.new 10, .poll 0 7, .new 20]
      ⟨[⟨1, .pending, 7⟩], ⟨2, [⟨10, 0⟩]⟩, [some (.registered 0), some (.unregistered 20)]⟩ :=
    .next hfirst ⟨trivial, rfl⟩
  have hsecond : (waitSystem fun a b : Nat => a == b).Run [.new 10, .poll 0 7, .new 20, .poll 1 9]
      ⟨[⟨1, .pending, 7⟩, ⟨2, .pending, 9⟩], ⟨3, [⟨10, 0⟩, ⟨20, 1⟩]⟩,
        [some (.registered 0), some (.registered 1)]⟩ :=
    .next hother ⟨⟨_, rfl⟩, rfl⟩
  have hwaiting : (waitSystem fun a b : Nat => a == b).Run
      [.new 10, .poll 0 7, .new 20, .poll 1 9, .poll 0 8] waiting := .next hsecond ⟨⟨_, rfl⟩, rfl⟩
  have hcanceled : (waitSystem fun a b : Nat => a == b).Run
      [.new 10, .poll 0 7, .new 20, .poll 1 9, .poll 0 8, .drop 1] oneCanceled :=
    .next hwaiting ⟨⟨_, rfl⟩, rfl⟩
  constructor
  · exact (wait_queue_safe _ _ _ hwaiting).2.2.2.2.2.1 1 ⟨_, rfl⟩
  · exact (wait_queue_safe _ _ _ hcanceled).2.2.2.2.1 (.dispatchReady [5, 0, 0]) trivial

end Canceled

end LeptosWasi.WaitQueueSafety
