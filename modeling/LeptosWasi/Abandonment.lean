import LeptosWasi.Executor
import LeptosWasi.WaitOperations

namespace LeptosWasi.Abandonment

open Pollables PollableInvariant WaitOperations Executor Executor.ExecutorInner

variable {P W T : Type}

/-- A registration that no host answer can resolve any more. -/
structure Forgotten (w : World P W) (r : Nat) : Prop where
  cell : r < w.heap.length
  unqueued : r ∉ queued w
  status : statusAt w.heap r = some .pending ∨ statusAt w.heap r = some .canceled
  held : ∀ handle, Holds w handle r → statusAt w.heap r = some .pending

section Forgotten

variable {willWake : W → W → Bool} {lost : Nat → Prop} {w w' : World P W} {r : Nat}

theorem held_settled (hc : Consistent lost w) (hf : Forgotten w r)
    {flagged : List (TableEntry P × Bool)}
    (hflags : Flags w flagged) (entries : List (TableEntry P)) {handle : Nat}
    (hh : Holds (settled w flagged entries) handle r) :
    statusAt (settled w flagged entries).heap r = some .pending := by
  have hm : r ∉ moved flagged := fun hm => hf.unqueued (moved_subset hflags hm)
  rw [statusAt_settled hc hflags, if_neg hm]
  exact hf.held handle hh

theorem held_pollStep (hf : Forgotten w r) {h : Nat} {waker : W}
    (hs : PollStep willWake w h waker w') {handle : Nat} (hh : Holds w' handle r) :
    statusAt w'.heap r = some .pending := by
  cases hs with
  | unchanged hn => exact hf.held handle hh
  | failed hn error =>
    obtain ⟨-, -, he⟩ | ⟨-, hh⟩ := (holds_setPoll w h _ handle r).mp hh
    · cases he
    · exact hf.held handle hh
  | registered w' hn hr =>
    obtain ⟨-, rfl⟩ | ⟨-, hh⟩ := (hr.holds handle r).mp hh
    · exact absurd hf.cell (Nat.lt_irrefl _)
    · rw [statusAt, hr.getElem? hf.cell]
      exact hf.held handle hh
  | repolled r' hh' =>
    rw [statusAt_modify]
    have hpending := hf.held handle hh
    split_ifs with heq
    · simp only [poll_status]
      exact hpending
    · exact hpending

theorem held_drop (hc : Consistent lost w) (hf : Forgotten w r) (h : Nat) {handle : Nat}
    (hh : Holds (w.dropWait true h) handle r) :
    statusAt (w.dropWait true h).heap r = some .pending := by
  by_cases hreg : ∃ r', Holds w h r'
  · obtain ⟨r', hr'⟩ := hreg
    obtain ⟨hheap, -, -, hpolls⟩ := dropWait_registered hc hr'
    rw [Holds, hpolls] at hh
    obtain ⟨-, -, he⟩ | ⟨hne, hold⟩ := (holds_setPoll w h none handle r).mp hh
    · cases he
    · have hr : r' ≠ r := by
        rintro rfl
        exact hne (hc.holder h handle r' hr' hold)
      rw [hheap, statusAt_modify, if_neg hr]
      exact hf.held handle hold
  · rw [dropWait_unregistered fun r hh => hreg ⟨r, hh⟩] at hh ⊢
    obtain ⟨-, -, he⟩ | ⟨-, hold⟩ := (holds_setPoll w h none handle r).mp hh
    · cases he
    · exact hf.held handle hold

theorem held_apply (hc : Consistent lost w) (hf : Forgotten w r) (op : Op P W) {handle : Nat}
    (hh : Holds (op.apply willWake w).1 handle r) :
    statusAt (op.apply willWake w).1.heap r = some .pending := by
  cases op with
  | new pollable => exact hf.held handle ((holds_newWaitPoll w pollable handle r).mp hh)
  | poll h waker => exact held_pollStep hf (pollWait_step w willWake true h waker) hh
  | drop h => exact held_drop hc hf h hh
  | dispatchReady ready =>
    obtain ⟨flagged, hflags, heq, -⟩ := dispatchReady_settles hc ready
    rw [Op.apply, heq] at hh ⊢
    exact held_settled hc hf hflags _ hh
  | sweepReady ready =>
    obtain ⟨flagged, hflags, heq, -⟩ := sweepReady_settles hc ready
    rw [Op.apply, heq] at hh ⊢
    exact held_settled hc hf hflags _ hh

theorem forgotten_apply (hc : Consistent lost w) (hf : Forgotten w r) (op : Op P W) :
    Forgotten (op.apply willWake w).1 r := by
  obtain ⟨moved, ht, hmoved, -⟩ := transition_apply hc willWake op
  refine ⟨Nat.lt_of_lt_of_le hf.cell ht.length_le, ?_, ?_, fun handle hh => held_apply hc hf op hh⟩
  · intro hr
    obtain hq | hlen := queued_apply hc op hr
    · exact hf.unqueued hq
    · exact absurd hf.cell (Nat.not_lt.mpr hlen)
  · obtain hs | hs := hf.status
    · obtain hsame | ⟨-, hready | hcanceled⟩ := ht.status r .pending hs
      · exact Or.inl hsame
      · exact absurd (hmoved r ((ht.ready r).mpr ⟨hs, hready⟩)) hf.unqueued
      · exact Or.inr hcanceled
    · obtain hsame | ⟨hpending, -⟩ := ht.status r .canceled hs
      · exact Or.inr hsame
      · cases hpending

def probe (w : World P W) (ready : P → Bool) : List (TableEntry P × Bool) :=
  w.queue.entries.map fun entry => (entry, ready entry.pollable)

theorem flags_probe (w : World P W) (ready : P → Bool) : Flags w (probe w ready) := by
  rw [Flags, probe, List.map_map]
  exact List.map_id _

theorem mem_leftovers (hc : Consistent lost w) (ready : P → Bool) :
    r ∈ w.leftovers ready ↔ r ∈ queued w ∧ r ∉ moved (probe w ready) := by
  rw [← mem_kept_iff hc (flags_probe w ready), World.leftovers, takePending_eq hc, mem_kept]
  simp [probe, and_assoc]

theorem abandon_consistent (hc : Consistent lost w) (ready : P → Bool) :
    Consistent (fun r => lost r ∨ r ∈ w.leftovers ready) (w.abandonLeftoverPollables ready).1 := by
  rw [abandon_settles hc]
  apply (hc.settled (flags_probe w ready) (List.nil_sublist _)).mono
  intro r hr
  apply hr.imp_right
  rintro ⟨hq, hm, -⟩
  exact (mem_leftovers hc ready).mpr ⟨hq, hm⟩

theorem abandon_forgotten (hc : Consistent lost w) (ready : P → Bool)
    (hf : Forgotten w r ∨ r ∈ w.leftovers ready) :
    Forgotten (w.abandonLeftoverPollables ready).1 r := by
  have hflags := flags_probe w ready
  have hlen := (transition_settled hc hflags []).length_le
  have hstatus := statusAt_settled hc hflags [] r
  rw [abandon_settles hc]
  obtain hf | hd := hf
  · refine ⟨Nat.lt_of_lt_of_le hf.cell hlen, List.not_mem_nil, ?_, ?_⟩
    · have hm : r ∉ moved (probe w ready) := fun hm => hf.unqueued (moved_subset hflags hm)
      rw [if_neg hm] at hstatus
      exact hf.status.imp hstatus.trans hstatus.trans
    · intro handle hh
      exact held_settled hc hf hflags [] hh
  · obtain ⟨hq, hm⟩ := (mem_leftovers hc ready).mp hd
    obtain ⟨handle, hh⟩ := hc.live r hq
    rw [if_neg hm, hc.pending r hq] at hstatus
    exact ⟨Nat.lt_of_lt_of_le (hc.cell handle r hh) hlen,
      List.not_mem_nil, Or.inl hstatus, fun _ _ => hstatus⟩

end Forgotten

section Executor

variable {wk : Wakers W} {pool : LocalPool wk P T} {mode : Mode} {lost : Nat → Prop}
  {e e' : ExecutorInner P W T}

def Evolves (wk : Wakers W) : World P W → World P W → Prop :=
  Relation.ReflTransGen fun w w' => ∃ op : Op P W, w' = (op.apply wk.willWake w).1

theorem consistent_evolves {w w' : World P W} (h : Evolves wk w w') (hc : Consistent lost w) :
    Consistent lost w' ∧ ∀ r, Forgotten w r → Forgotten w' r := by
  induction h with
  | refl => exact ⟨hc, fun r hf => hf⟩
  | tail _ hop ih =>
    obtain ⟨op, rfl⟩ := hop
    obtain ⟨hc, hforgotten⟩ := ih
    exact ⟨consistent_apply hc op, fun r hf => forgotten_apply hc (hforgotten r hf) op⟩

theorem evolves_act (accepts : Bool) (action : Action P W) :
    Evolves wk e.world (e.act wk accepts action).world := by
  cases action with
  | wait pollable => exact .single ⟨.new pollable, rfl⟩
  | poll handle waker => exact .single ⟨.poll handle waker, rfl⟩
  | drop handle => exact .single ⟨.drop handle, rfl⟩
  | wake task => exact .refl
  | spawn => cases accepts <;> exact .refl
  | runUntil => cases accepts <;> exact .refl

theorem evolves_polled (accepts : Bool) (task : Nat) (actions : List (Action P W)) :
    Evolves wk e.world (e.polled wk accepts task actions).world := by
  have hfold : ∀ s : ExecutorInner P W T,
    Evolves wk s.world (actions.foldl (act wk accepts) s).world := by
    induction actions with
    | nil => exact fun s => .refl
    | cons action actions ih => exact fun s => (evolves_act accepts action).trans (ih _)
  exact hfold { e with tasks := e.tasks.set task .waiting }

theorem evolves_polls {accepts : Bool} (h : Polls wk accepts e e') :
    Evolves wk e.world e'.world := by
  induction h with
  | refl => exact .refl
  | tail _ hstep ih =>
    obtain ⟨completed, hstep⟩ := hstep
    cases hstep <;> exact ih.trans (evolves_polled accepts _ _)

theorem evolves_runGuest {guestProgress : Bool} (h : e.runGuest pool mode guestProgress e') :
    Evolves wk e.world e'.world := by
  cases mode with
  | stalled => exact evolves_polls (pool.stalled_polls h.1)
  | preemptive =>
    cases guestProgress with
    | false => exact evolves_polls (pool.one_polls h)
    | true =>
      obtain ⟨e₁, hpolls, hlast⟩ := pool.one_completes h
      exact evolves_polls (hpolls.tail ⟨true, hlast⟩)

theorem evolves_pollHost (guestProgress : Bool) (poller : Poller P) :
    Evolves wk e.world (e.pollHost wk mode guestProgress poller).executor.world := by
  rw [pollHost]
  cases hostWait mode guestProgress with
  | sweep => exact .single ⟨.sweepReady poller.ready, wakeAll_world _ _ _⟩
  | block => exact .single ⟨.dispatchReady _, wakeAll_world _ _ _⟩

theorem abort_world : e.abort.world = e.world := by
  rw [abort]
  cases e.root <;> rfl

end Executor

/-- The end of a call that returned an output dropped the registration. -/
def Abandoned (events : List (Event P W T)) (r : Nat) : Prop :=
  ∃ output dropped, .finished output dropped ∈ events ∧ r ∈ dropped

section Runs

variable {wk : Wakers W} {pool : LocalPool wk P T} {mode : Mode} {events : List (Event P W T)}
  {s s' : Session P W T} {event : Event P W T} {r : Nat}

theorem abandoned_concat :
    Abandoned (events ++ [event]) r ↔
      Abandoned events r ∨ ∃ output dropped, event = .finished output dropped ∧ r ∈ dropped := by
  constructor
  · rintro ⟨output, dropped, hmem, hr⟩
    obtain hmem | hmem := List.mem_append.mp hmem
    · exact Or.inl ⟨output, dropped, hmem, hr⟩
    · exact Or.inr ⟨output, dropped, (List.mem_singleton.mp hmem).symm, hr⟩
  · rintro (⟨output, dropped, hmem, hr⟩ | ⟨output, dropped, rfl, hr⟩)
    · exact ⟨output, dropped, List.mem_append_left _ hmem, hr⟩
    · exact ⟨output, dropped, List.mem_append_right _ List.mem_cons_self, hr⟩

theorem step_world (h : Session.Step pool mode s event s') :
    Evolves wk s.executor.world s'.executor.world ∧
    (∀ output dropped, event ≠ .finished output dropped) ∨
    ∃ output ready, event = .finished output (s.executor.world.leftovers ready) ∧
      s'.executor.world = (s.executor.world.abandonLeftoverPollables ready).1 := by
  cases h with
  | finished poller hl => exact Or.inr ⟨_, poller.ready, rfl, wakeAll_world _ _ _⟩
  | outside action h => exact Or.inl ⟨evolves_act pool.accepts action, by simp⟩
  | pollLocal poller h =>
    exact Or.inl ⟨(evolves_runGuest h).trans (evolves_pollHost _ poller), by simp⟩
  | runUntil h => exact Or.inl ⟨.refl, by simp⟩
  | rejected h => exact Or.inl ⟨.refl, by simp⟩
  | runGuest hl h => exact Or.inl ⟨evolves_runGuest h, by simp⟩
  | pollHost poller hl => exact Or.inl ⟨evolves_pollHost _ poller, by simp⟩
  | iterate hl => exact Or.inl ⟨.refl, by simp⟩
  | leave hl =>
    refine Or.inl ⟨?_, by simp⟩
    dsimp only
    split_ifs <;> exact .refl
  | fail h =>
    refine Or.inl ⟨?_, by simp⟩
    rw [← abort_world]
    exact evolves_polls (pool.stalled_polls h)

/-- Every step keeps the invariant of the queue, with the abandoned
registrations as those that are lost. -/
theorem abandoned_step (hc : Consistent (Abandoned events) s.executor.world)
    (hf : ∀ r, Abandoned events r → Forgotten s.executor.world r)
    (h : Session.Step pool mode s event s') :
    Consistent (Abandoned (events ++ [event])) s'.executor.world ∧
      ∀ r, Abandoned (events ++ [event]) r → Forgotten s'.executor.world r := by
  obtain ⟨hw, hevent⟩ | ⟨output, ready, rfl, hw⟩ := step_world h
  · obtain ⟨hc', hforgotten⟩ := consistent_evolves hw hc
    refine ⟨hc'.mono fun r hr => abandoned_concat.mpr (Or.inl hr), ?_⟩
    intro r hr
    obtain hr | ⟨output, dropped, heq, -⟩ := abandoned_concat.mp hr
    · exact hforgotten r (hf r hr)
    · exact absurd heq (hevent output dropped)
  · rw [hw]
    constructor
    · apply (abandon_consistent hc ready).mono
      intro r hr
      exact abandoned_concat.mpr (hr.imp_right fun hd => ⟨output, _, rfl, hd⟩)
    · intro r hr
      apply abandon_forgotten hc ready
      obtain hr | ⟨output', dropped, heq, hd⟩ := abandoned_concat.mp hr
      · exact Or.inl (hf r hr)
      · cases heq
        exact Or.inr hd

theorem run_abandoned (h : (sessionSystem pool mode).Run events s) :
    Consistent (Abandoned events) s.executor.world ∧
      ∀ r, Abandoned events r → Forgotten s.executor.world r := by
  apply h.invariant fun events s => Consistent (Abandoned events) s.executor.world ∧
    ∀ r, Abandoned events r → Forgotten s.executor.world r
  · rintro s rfl
    refine ⟨consistent_initial _, ?_⟩
    rintro r ⟨output, dropped, hmem, -⟩
    cases hmem
  · rintro events s event s' ⟨hc, hf⟩ hstep
    exact abandoned_step hc hf hstep

/-- At the end of every call a live waiter is resolved or queued, or its
registration was abandoned by the end of a call that returned an output. An
abandoned registration stays out of the queue and never becomes ready, and is
pending for as long as a future holds it. -/
theorem waiters_kept (pool : LocalPool wk P T) (mode : Mode) (events : List (Event P W T))
    (s : Session P W T) (h : (sessionSystem pool mode).Run events s) :
    (∀ handle r, Holds s.executor.world handle r →
      statusAt s.executor.world.heap r = some .ready ∨
        statusAt s.executor.world.heap r = some .canceled ∨
        r ∈ queued s.executor.world ∨ Abandoned events r) ∧
    (∀ r, Abandoned events r → r ∉ queued s.executor.world ∧
      (statusAt s.executor.world.heap r = some .pending ∨
        statusAt s.executor.world.heap r = some .canceled) ∧
      ∀ handle, Holds s.executor.world handle r →
        statusAt s.executor.world.heap r = some .pending) := by
  obtain ⟨hc, hf⟩ := run_abandoned h
  constructor
  · intro handle r hh
    obtain ⟨cell, hcell⟩ : ∃ cell, s.executor.world.heap[r]? = some cell :=
      ⟨_, List.getElem?_eq_getElem (hc.cell handle r hh)⟩
    have hstatus : statusAt s.executor.world.heap r = some cell.status := by
      rw [statusAt, hcell]
      rfl
    rw [hstatus]
    cases hs : cell.status with
    | ready => exact Or.inl rfl
    | canceled => exact Or.inr (Or.inl rfl)
    | pending =>
      rw [hs] at hstatus
      exact Or.inr (Or.inr (hc.waiting handle r hh hstatus))
  · intro r hr
    exact ⟨(hf r hr).unqueued, (hf r hr).status, (hf r hr).held⟩

end Runs

section Background

def background (entries : List (TableEntry Unit)) : ExecutorInner Unit Unit Unit :=
  ⟨⟨[⟨1, .pending, ()⟩], ⟨2, entries⟩, [some (.registered 0)]⟩,
    [.completed, .waiting], false, some 0, .sent (), []⟩

theorem background_idle (entries : List (TableEntry Unit)) : (background entries).Idle := by
  intro task h
  match task with
  | 0 => cases h
  | 1 => cases h
  | n + 2 => cases h

theorem background_run (wk : Wakers Unit) :
    (sessionSystem (LocalPool.anyOrder wk : LocalPool wk Unit Unit) .stalled).Run
      [.runUntil, .runGuest, .finished () [0]] ⟨background [], .returned (some (.ok ()))⟩ := by
  have hcall : (sessionSystem (LocalPool.anyOrder wk : LocalPool wk Unit Unit) .stalled).Run
    [.runUntil]
      ⟨withQueue.spawnRoot, .head⟩ := .next (.start rfl) (.runUntil rfl)
  have hroot : PollTask (P := Unit) wk true withQueue.spawnRoot true
      ⟨.initial, [.completed, .runnable], false, some 0, .sent (), []⟩ :=
    @PollTask.output _ _ _ _ _ _ 0 [.spawn] () rfl rfl List.not_mem_nil
  have htask : PollTask wk true ⟨.initial, [.completed, .runnable],
    false, some 0, .sent (), []⟩ false
      (background [⟨(), 0⟩]) :=
    @PollTask.pending _ _ _ _ _ _ 1 [.wait (), .poll 0 ()] rfl List.not_mem_nil
  have hpolls : Polls wk true withQueue.spawnRoot (background [⟨(), 0⟩]) :=
    .tail (.single ⟨true, hroot⟩) ⟨false, htask⟩
  have hguest : (sessionSystem (LocalPool.anyOrder wk : LocalPool wk Unit Unit) .stalled).Run
      [.runUntil, .runGuest] ⟨background [⟨(), 0⟩], .guestRan false⟩ :=
    .next hcall (.runGuest rfl ⟨⟨hpolls, background_idle _⟩, rfl⟩)
  exact .next hguest (.finished ⟨fun _ => [], fun _ => false⟩ rfl)

theorem waiters_kept_background :
    0 ∉ queued (background []).world ∧
      (statusAt (background []).world.heap 0 = some .pending ∨
        statusAt (background []).world.heap 0 = some .canceled) ∧
      ∀ handle, Holds (background []).world handle 0 →
        statusAt (background []).world.heap 0 = some .pending :=
  (waiters_kept _ _ _ _ (background_run ⟨fun _ _ => true, fun _ => [1]⟩)).2 0
  ⟨(), [0], by simp, by simp⟩

/-- A live waiter of a background task is neither resolved nor queued after
the call returned. -/
theorem background_stranded :
    ¬ ∀ (wk : Wakers Unit) (pool : LocalPool wk Unit Unit)
      (mode : Mode) (events : List (Event Unit Unit Unit))
      (s : Session Unit Unit Unit) (result : Except ExecutorError Unit),
      (sessionSystem pool mode).Run events s → s.control = .returned (some result) →
        ∀ handle r, Holds s.executor.world handle r →
          statusAt s.executor.world.heap r = some .ready ∨
            statusAt s.executor.world.heap r = some .canceled ∨
            r ∈ queued s.executor.world := by
  intro hall
  obtain hs | hs | hq :=
    hall ⟨fun _ _ => true, fun _ => [1]⟩ _ _ _ _ (.ok ()) (background_run _) rfl 0 0 rfl
  · cases hs
  · cases hs
  · cases hq

end Background

end LeptosWasi.Abandonment
