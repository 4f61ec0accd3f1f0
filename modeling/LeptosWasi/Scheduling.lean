import LeptosWasi.Executor
import LeptosWasi.PollableInvariant

namespace LeptosWasi.Scheduling

open Pollables PollableInvariant Executor Executor.ExecutorInner

variable {P W T : Type}

/-- The root is pending, and neither a task nor a registration can go on. -/
structure Quiescent (e : ExecutorInner P W T) : Prop where
  pending : e.receiver = .pending
  idle : e.Idle
  queue : ∀ r ∈ queued e.world, statusAt e.world.heap r ≠ some .pending

theorem takePending_eq_nil (w : World P W) :
    w.takePending = [] ↔ ∀ r ∈ queued w, statusAt w.heap r ≠ some .pending := by
  rw [World.takePending, List.filter_eq_nil_iff, queued, List.forall_mem_map]
  apply forall₂_congr
  intro entry _
  apply not_congr
  rw [statusAt]
  cases w.heap[entry.registration]? with
  | none => simp
  | some cell => simp [WaitRegistration.isPending]

section Host

variable {w : World P W} {mode : Mode} {guestProgress : Bool} {e : ExecutorInner P W T}

theorem dispatchReady_progress (w : World P W) (ready : List Nat) :
    (w.dispatchReady ready).2.2 = !w.takePending.isEmpty := by
  rw [World.dispatchReady]
  cases w.takePending.isEmpty <;> rfl

theorem dispatchReady_none (h : w.takePending = []) (ready : List Nat) :
    w.dispatchReady ready = (w.setEntries [], [], false) := by
  rw [World.dispatchReady, h]
  rfl

theorem sweepReady_none (h : w.takePending = []) (ready : P → Bool) :
    w.sweepReady ready = (w.setEntries [], [], false) := by
  rw [World.sweepReady, h]
  rfl

theorem pollHost_none (h : e.world.takePending = []) (wk : Wakers W) (poller : Poller P) :
    e.pollHost wk mode guestProgress poller = ⟨{ e with world := e.world.setEntries [] },
      false, []⟩ := by
  rw [pollHost]
  cases hostWait mode guestProgress with
  | sweep =>
    rw [sweepReady_none h, h]
    rfl
  | block =>
    rw [dispatchReady_none h]
    rfl

theorem pollHost_block (wk : Wakers W) (poller : Poller P)
    (hw : hostWait mode guestProgress = .block) :
    (e.pollHost wk mode guestProgress poller).progress = !e.world.takePending.isEmpty := by
  rw [pollHost, hw]
  exact dispatchReady_progress e.world _

theorem pollHost_calls {wk : Wakers W} {poller : Poller P} {pollables : List P}
    (h : .poll pollables ∈ (e.pollHost wk mode guestProgress poller).calls) :
    hostWait mode guestProgress = .block := by
  rw [pollHost] at h
  cases hw : hostWait mode guestProgress with
  | block => rfl
  | sweep =>
    rw [hw] at h
    obtain ⟨pollable, -, heq⟩ := List.mem_map.mp h
    cases heq

theorem hostWait_false (mode : Mode) : hostWait mode false = .block := by
  cases mode <;> rfl

theorem quiescent_pollHost (h : Quiescent e) (wk : Wakers W) (mode : Mode) (guestProgress : Bool)
    (poller : Poller P) :
    (e.pollHost wk mode guestProgress poller).progress = false ∧
      (e.pollHost wk mode guestProgress poller).executor.spawnFailed = e.spawnFailed ∧
      Quiescent (e.pollHost wk mode guestProgress poller).executor := by
  rw [pollHost_none ((takePending_eq_nil _).mpr h.queue)]
  exact ⟨rfl, rfl, h.pending, h.idle, fun r hr => absurd hr List.not_mem_nil⟩

end Host

section Guest

variable {wk : Wakers W} {pool : LocalPool wk P T} {mode : Mode} {e e' : ExecutorInner P W T}
  {guestProgress : Bool}

theorem not_pollTask (hi : e.Idle) {accepts completed : Bool} :
    ¬ PollTask wk accepts e completed e' := by
  intro h
  cases h with
  | pending actions h ha => exact hi _ h
  | done actions h hroot => exact hi _ h
  | output actions output h hroot ha => exact hi _ h

theorem polls_idle (hi : e.Idle) {accepts : Bool} (h : Polls wk accepts e e') : e' = e := by
  obtain rfl | ⟨e₁, ⟨completed, hstep⟩, -⟩ := Relation.ReflTransGen.cases_head h
  · rfl
  · exact absurd hstep (not_pollTask hi)

theorem runGuest_false (h : e.runGuest pool mode false e') : e'.Idle := by
  cases mode with
  | preemptive => exact pool.one_idle h
  | stalled => exact pool.stalled_idle h.1

theorem runGuest_true (h : e.runGuest pool mode true e') : mode = .preemptive := by
  cases mode with
  | preemptive => rfl
  | stalled => cases h.2

theorem runGuest_idle (hi : e.Idle) (h : e.runGuest pool mode guestProgress e') :
    guestProgress = false ∧ e' = e := by
  cases mode with
  | stalled => exact ⟨h.2, polls_idle hi (pool.stalled_polls h.1)⟩
  | preemptive =>
    cases guestProgress with
    | false => exact ⟨rfl, polls_idle hi (pool.one_polls h)⟩
    | true =>
      obtain ⟨e₁, hpolls, hlast⟩ := pool.one_completes h
      rw [polls_idle hi hpolls] at hlast
      exact absurd hlast (not_pollTask hi)

theorem runGuest_returns (pool : LocalPool wk P T) (mode : Mode) (hi : e.Idle) :
    ∃ guestProgress e', e.runGuest pool mode guestProgress e' := by
  cases mode with
  | preemptive => exact pool.one_returns hi
  | stalled =>
    obtain ⟨e', h⟩ := pool.stalled_returns hi
    exact ⟨false, e', h, rfl⟩

end Guest

section Spawn

variable {wk : Wakers W} {e e' : ExecutorInner P W T}

theorem wakeAll_spawnFailed (wakers : List W) :
    (e.wakeAll wk wakers).spawnFailed = e.spawnFailed := by
  obtain ⟨tasks, h⟩ := wakeAll_frame wk e wakers
  rw [h]

theorem act_spawnFailed (hs : e.spawnFailed = false) (action : Action P W) :
    (e.act wk true action).spawnFailed = false := by
  cases action with
  | runUntil => rfl
  | _ => exact hs

theorem polled_spawnFailed (hs : e.spawnFailed = false) (task : Nat) (actions : List (Action P W)) :
    (e.polled wk true task actions).spawnFailed = false := by
  have hfold : ∀ e₁ : ExecutorInner P W T, e₁.spawnFailed = false →
      (actions.foldl (act wk true) e₁).spawnFailed = false := by
    induction actions with
    | nil => exact fun e₁ hs₁ => hs₁
    | cons action actions ih => exact fun e₁ hs₁ => ih _ (act_spawnFailed hs₁ action)
  exact hfold { e with tasks := e.tasks.set task .waiting } hs

theorem polls_spawnFailed (hs : e.spawnFailed = false) (h : Polls wk true e e') :
    e'.spawnFailed = false := by
  induction h with
  | refl => exact hs
  | tail _ hstep ih =>
    obtain ⟨completed, hstep⟩ := hstep
    cases hstep <;> exact polled_spawnFailed ih _ _

theorem runGuest_spawnFailed {pool : LocalPool wk P T} {mode : Mode} {guestProgress : Bool}
    (ha : pool.accepts = true) (hs : e.spawnFailed = false)
    (h : e.runGuest pool mode guestProgress e') :
    e'.spawnFailed = false := by
  have hpolls : Polls wk true e e' := by
    rw [← ha]
    cases mode with
    | stalled => exact pool.stalled_polls h.1
    | preemptive =>
      cases guestProgress with
      | false => exact pool.one_polls h
      | true =>
        obtain ⟨e₁, hpolls, hlast⟩ := pool.one_completes h
        exact hpolls.tail ⟨true, hlast⟩
  exact polls_spawnFailed hs hpolls

theorem pollHost_spawnFailed (mode : Mode) (guestProgress : Bool) (poller : Poller P) :
    (e.pollHost wk mode guestProgress poller).executor.spawnFailed = e.spawnFailed := by
  rw [pollHost]
  cases hostWait mode guestProgress with
  | sweep => exact wakeAll_spawnFailed _
  | block => exact wakeAll_spawnFailed _

end Spawn

section Checks

variable {e : ExecutorInner P W T}

theorem received_none : e.received = none ↔ e.receiver = .pending := by
  rw [received]
  cases e.receiver <;> simp

theorem received_ne_stalled : e.received ≠ some (.error .stalled) := by
  rw [received]
  cases e.receiver <;> simp

theorem leaves_head :
    Session.leaves ⟨e, .head⟩ = none ↔ e.spawnFailed = false ∧ e.receiver = .pending := by
  rw [Session.leaves]
  cases e.spawnFailed <;> simp [received_none]

theorem leaves_guestRan {guestProgress : Bool} :
    Session.leaves ⟨e, .guestRan guestProgress⟩ = none ↔
    e.spawnFailed = false ∧ e.receiver = .pending := by
  rw [Session.leaves]
  cases e.spawnFailed <;> simp [received_none]

theorem leaves_hostRan {guestProgress hostProgress : Bool} (h : e.receiver = .pending) :
    Session.leaves ⟨e, .hostRan guestProgress hostProgress⟩ =
      if !guestProgress && !hostProgress then some (.error .stalled) else none := by
  simp only [Session.leaves, received_none.mpr h]
  rfl

theorem leaves_stalled {s : Session P W T} (h : s.leaves = some (.error .stalled)) :
    s.control = .hostRan false false ∧ s.executor.receiver = .pending := by
  obtain ⟨e, control⟩ := s
  cases control with
  | returned last => cases h
  | failed error => cases h
  | head =>
    cases hs : e.spawnFailed with
    | true => simp [Session.leaves, hs] at h
    | false => exact absurd (by simpa [Session.leaves, hs] using h) received_ne_stalled
  | guestRan guestProgress =>
    cases hs : e.spawnFailed with
    | true => simp [Session.leaves, hs] at h
    | false => exact absurd (by simpa [Session.leaves, hs] using h) received_ne_stalled
  | hostRan guestProgress hostProgress =>
    cases hr : e.received with
    | some result =>
      have heq : e.received = some (.error .stalled) := by
        rw [hr]
        simpa [Session.leaves, hr] using h
      exact absurd heq received_ne_stalled
    | none =>
      refine ⟨?_, received_none.mp hr⟩
      cases guestProgress <;> cases hostProgress <;> simp [Session.leaves, hr] at h ⊢

end Checks

def Known (mode : Mode) (s : Session P W T) : Prop :=
  match s.control with
  | .returned _ | .head => True
  | .guestRan guestProgress => if guestProgress then mode = .preemptive else s.executor.Idle
  | .hostRan guestProgress hostProgress =>
    guestProgress = false → hostProgress = false →
    s.executor.Idle ∧ s.executor.world.takePending = []
  | .failed error => error = .stalled → Quiescent s.executor

section Runs

variable {wk : Wakers W} {pool : LocalPool wk P T} {mode : Mode} {s s' : Session P W T}
  {event : Event P W T}

theorem known_step (hk : Known mode s) (h : Session.Step pool mode s event s') : Known mode s' := by
  cases h with
  | outside action h => trivial
  | pollLocal poller h => trivial
  | runUntil h => trivial
  | rejected h => trivial
  | iterate hl => trivial
  | finished poller hl => trivial
  | fail h => trivial
  | @runGuest e e' guestProgress hl h =>
    cases guestProgress with
    | true => exact runGuest_true h
    | false => exact runGuest_false h
  | @pollHost e guestProgress poller hl =>
    rintro rfl hhost
    have hi : e.Idle := hk
    rw [pollHost_block wk poller (hostWait_false mode)] at hhost
    have hnone : e.world.takePending = [] := by simpa using hhost
    rw [pollHost_none hnone]
    exact ⟨hi, rfl⟩
  | leave hl =>
    rintro rfl
    obtain ⟨hcontrol, hpending⟩ := leaves_stalled hl
    rw [Known, hcontrol] at hk
    obtain ⟨hi, hnone⟩ := hk rfl rfl
    exact ⟨hpending, hi, (takePending_eq_nil _).mp hnone⟩

theorem spawnFailed_step (ha : pool.accepts = true) (hs : s.executor.spawnFailed = false)
    (h : Session.Step pool mode s event s') : s'.executor.spawnFailed = false := by
  cases h with
  | outside action h =>
    rw [ha]
    exact act_spawnFailed hs action
  | pollLocal poller h =>
    exact (pollHost_spawnFailed _ _ _).trans (runGuest_spawnFailed ha hs h)
  | runUntil h => exact hs
  | rejected h => exact hs
  | iterate hl => exact hs
  | finished poller hl => exact (wakeAll_spawnFailed _).trans hs
  | runGuest hl h => exact runGuest_spawnFailed ha hs h
  | pollHost poller hl => exact (pollHost_spawnFailed _ _ _).trans hs
  | leave hl =>
    dsimp only
    split_ifs
    · rfl
    · exact hs
  | @fail e e' error h =>
    have hpolls := pool.stalled_polls h
    rw [ha] at hpolls
    apply polls_spawnFailed _ hpolls
    rw [abort]
    cases e.root <;> exact hs

theorem run_known {events : List (Event P W T)} (h : (sessionSystem pool mode).Run events s) :
    Known mode s ∧ (pool.accepts = true → s.executor.spawnFailed = false) := by
  apply h.invariant fun _ s => Known mode s ∧ (pool.accepts = true → s.executor.spawnFailed = false)
  · rintro s rfl
    exact ⟨trivial, fun _ => rfl⟩
  · rintro _ s event s' ⟨hk, hs⟩ hstep
    exact ⟨known_step hk hstep, fun ha => spawnFailed_step ha (hs ha) hstep⟩

def ReturnedStalled (s : Session P W T) : Prop := s.control = .returned (some (.error .stalled))

/-- Once the root is aborted in a state in which nothing could go on, the pool
comes to rest again: the drop of the root sets nothing going that never stops. -/
def DropsAborted (pool : LocalPool wk P T) : Prop :=
  ∀ e : ExecutorInner P W T, Quiescent e → ∃ e', pool.runUntilStalled e.abort e'

def AtHead (s : Session P W T) : Prop := s.control = .head

def InLoop (s : Session P W T) : Prop :=
  match s.control with
  | .head | .guestRan _ | .hostRan _ _ => True
  | .returned _ | .failed _ => False

section Stalls

variable {e : ExecutorInner P W T} {guestProgress hostProgress : Bool} {n : Nat}

abbrev Stalls (pool : LocalPool wk P T) (mode : Mode) (n : Nat) (s : Session P W T) : Prop :=
  (sessionSystem pool mode).Reaches ReturnedStalled AtHead n s

theorem failed_returns {error : ExecutorError} (hcontrol : s.control = .failed error)
    (h : Session.Step pool mode s event s') : s'.control = .returned (some (.error error)) := by
  cases h with
  | fail h =>
    cases hcontrol
    rfl
  | finished poller hl => simp [Session.leaves, hcontrol] at hl
  | leave hl => simp [Session.leaves, hcontrol] at hl
  | _ => cases hcontrol

/-- After the loop the aborted root is dropped, and the call returns. -/
theorem stalls_failed (hdrops : DropsAborted pool) (h : Quiescent e) (n : Nat) :
    Stalls pool mode n ⟨e, .failed .stalled⟩ := by
  obtain ⟨e', he⟩ := hdrops e h
  refine .step (by rintro ⟨⟩) ⟨_, _, .fail he⟩ ?_
  intro event s' hstep
  exact .here (failed_returns rfl hstep)

theorem stalls_hostRan_false (hdrops : DropsAborted pool) (h : Quiescent e) (n : Nat) :
    Stalls pool mode n ⟨e, .hostRan false false⟩ := by
  have hl : Session.leaves ⟨e, .hostRan false false⟩ = some (.error .stalled) :=
    leaves_hostRan h.pending
  refine .step (by rintro ⟨⟩) ⟨_, _, .leave hl⟩ ?_
  intro event s' hs
  cases hs with
  | iterate hl' =>
    cases hl.symm.trans hl'
  | finished poller hl' =>
    cases hl.symm.trans hl'
  | leave hl' =>
    cases hl.symm.trans hl'
    exact stalls_failed hdrops h n

theorem stalls_guestRan (h : Quiescent e) (hs : e.spawnFailed = false)
    (hnext : ∀ e' : ExecutorInner P W T, Quiescent e' → e'.spawnFailed = false →
      Stalls pool mode n ⟨e', .hostRan guestProgress false⟩) :
    Stalls pool mode n ⟨e, .guestRan guestProgress⟩ := by
  have hl : Session.leaves ⟨e, .guestRan guestProgress⟩ = none :=
    leaves_guestRan.mpr ⟨hs, h.pending⟩
  refine .step (by rintro ⟨⟩) ⟨_, _, .pollHost ⟨fun _ => [], fun _ => false⟩ hl⟩ ?_
  intro event s' hstep
  cases hstep with
  | pollHost poller hl' =>
    obtain ⟨hnone, hspawn, hq⟩ := quiescent_pollHost h wk mode guestProgress poller
    rw [hnone]
    exact hnext _ hq (hspawn.trans hs)
  | finished poller hl' =>
    cases hl.symm.trans hl'
  | leave hl' =>
    cases hl.symm.trans hl'

theorem stalls_head (hdrops : DropsAborted pool)
    (h : Quiescent e) (hs : e.spawnFailed = false) (n : Nat) :
    Stalls pool mode (n + 1) ⟨e, .head⟩ := by
  have hl : Session.leaves ⟨e, .head⟩ = none := leaves_head.mpr ⟨hs, h.pending⟩
  obtain ⟨guestProgress, e', hguest⟩ := runGuest_returns pool mode h.idle
  refine .pass ⟨_, _, .runGuest hl hguest⟩ ?_
  intro event s' hstep
  cases hstep with
  | runGuest hl' hguest =>
    obtain ⟨rfl, rfl⟩ := runGuest_idle h.idle hguest
    exact stalls_guestRan h hs fun e' hq _ => stalls_hostRan_false hdrops hq n
  | finished poller hl' =>
    cases hl.symm.trans hl'
  | leave hl' =>
    cases hl.symm.trans hl'

theorem stalls_hostRan (hdrops : DropsAborted pool) (h : Quiescent e) (hs : e.spawnFailed = false)
    (guestProgress hostProgress : Bool) :
    Stalls pool mode (n + 1) ⟨e, .hostRan guestProgress hostProgress⟩ := by
  cases hp : !guestProgress && !hostProgress with
  | true =>
    obtain ⟨rfl, rfl⟩ : guestProgress = false ∧ hostProgress = false := by simpa using hp
    exact stalls_hostRan_false hdrops h (n + 1)
  | false =>
    have hl : Session.leaves ⟨e, .hostRan guestProgress hostProgress⟩ = none := by
      rw [leaves_hostRan h.pending, hp]
      rfl
    refine .step (by rintro ⟨⟩) ⟨_, _, .iterate hl⟩ ?_
    intro event s' hstep
    cases hstep with
    | iterate hl' => exact stalls_head hdrops h hs n
    | finished poller hl' =>
      cases hl.symm.trans hl'
    | leave hl' =>
      cases hl.symm.trans hl'

end Stalls

/-- The host is asked to block only while the root is pending and no task can
run. -/
theorem blocking_poll_idle (hk : Known mode s) {calls : List (HostCall P)} {pollables : List P}
    (h : Session.Step pool mode s (.pollHost calls) s') (hcall : .poll pollables ∈ calls) :
    s.executor.receiver = .pending ∧ s.executor.Idle := by
  cases h with
  | @pollHost e guestProgress poller hl =>
    refine ⟨(leaves_guestRan.mp hl).2, ?_⟩
    cases guestProgress with
    | false => exact hk
    | true =>
      obtain rfl : mode = .preemptive := hk
      cases pollHost_calls hcall

theorem stalled_returned (hk : Known mode s) (h : Session.Step pool mode s event s')
    (hreturned : s'.control = .returned (some (.error .stalled))) :
    s.control = .returned (some (.error .stalled)) ∨
      s.control = .failed .stalled ∧ Quiescent s.executor := by
  cases h with
  | outside action h => exact Or.inl hreturned
  | pollLocal poller h => exact Or.inl hreturned
  | fail h =>
    cases hreturned
    exact Or.inr ⟨rfl, hk rfl⟩
  | _ => cases hreturned

theorem quiescent_stalls (hdrops : DropsAborted pool)
    (hs : s.executor.spawnFailed = false) (hloop : InLoop s) (hq : Quiescent s.executor) :
    Stalls pool mode 1 s := by
  obtain ⟨e, control⟩ := s
  cases control with
  | returned last => cases hloop
  | failed error => cases hloop
  | head => exact stalls_head hdrops hq hs 0
  | guestRan guestProgress =>
    apply stalls_guestRan hq hs
    intro e' hq' hs'
    exact stalls_hostRan hdrops hq' hs' guestProgress false
  | hostRan guestProgress hostProgress =>
    exact stalls_hostRan hdrops hq hs guestProgress hostProgress

/-- The blocking poll waits only for the host, `Stalled` is returned only when
nothing can go on, and then at the latest in the next iteration. The spawner of
a pool that is alive takes every task. That the call returns after its loop
rests on the drop of the aborted root. -/
theorem scheduling (pool : LocalPool wk P T) (mode : Mode) (events : List (Event P W T))
    (s : Session P W T) (h : (sessionSystem pool mode).Run events s) :
    (∀ calls pollables s', Session.Step pool mode s (.pollHost calls) s' → .poll pollables ∈ calls →
      s.executor.receiver = .pending ∧ s.executor.Idle) ∧
    (∀ event s', Session.Step pool mode s event s' →
      s'.control = .returned (some (.error .stalled)) →
        s.control = .returned (some (.error .stalled)) ∨
        s.control = .failed .stalled ∧ Quiescent s.executor) ∧
    (pool.accepts = true → DropsAborted pool → InLoop s →
      Quiescent s.executor → Stalls pool mode 1 s) ∧
    (∀ error event s', s.control = .failed error → Session.Step pool mode s event s' →
      s'.control = .returned (some (.error error))) := by
  obtain ⟨hk, hspawn⟩ := run_known h
  refine ⟨?_, ?_, ?_, ?_⟩
  · intro calls pollables s' hstep hcall
    exact blocking_poll_idle hk hstep hcall
  · intro event s' hstep hreturned
    exact stalled_returned hk hstep hreturned
  · intro ha hdrops hloop hq
    exact quiescent_stalls hdrops (hspawn ha) hloop hq
  · intro error event s' hcontrol hstep
    exact failed_returns hcontrol hstep

end Runs

section LoneRoot

def loneRoot : ExecutorInner Unit Unit Unit := ⟨.initial, [.waiting], false, some 0, .pending, []⟩

theorem loneRoot_idle : loneRoot.Idle := by
  intro task h
  cases task <;> cases h

theorem loneRoot_run (wk : Wakers Unit) :
    (sessionSystem (LocalPool.anyOrder wk : LocalPool wk Unit Unit) .stalled).Run
    [.runUntil, .runGuest]
      ⟨loneRoot, .guestRan false⟩ := by
  have hcall : (sessionSystem (LocalPool.anyOrder wk : LocalPool wk Unit Unit) .stalled).Run
    [.runUntil]
      ⟨withQueue.spawnRoot, .head⟩ := .next (.start rfl) (.runUntil rfl)
  have hroot : Runnable (withQueue.spawnRoot : ExecutorInner Unit Unit Unit) 0 := rfl
  have hpolls : Polls wk true withQueue.spawnRoot loneRoot :=
    .single ⟨false, PollTask.pending [] hroot List.not_mem_nil⟩
  exact .next hcall (.runGuest rfl ⟨⟨hpolls, loneRoot_idle⟩, rfl⟩)

theorem anyOrder_dropsAborted (wk : Wakers W) :
    DropsAborted (LocalPool.anyOrder wk : LocalPool wk P T) := by
  intro e h
  cases hroot : e.root with
  | none =>
    rw [abort, hroot]
    exact ⟨e, .refl, h.idle⟩
  | some root =>
    have habort : e.abort = { e with aborted := root :: e.aborted }.wake root := by
      rw [abort, hroot]
    have hother : ∀ task, e.abort.Runnable task → task = root := by
      intro task ht
      by_contra hne
      rw [habort, Runnable, wake, List.getElem?_modify_ne _ _ (Ne.symm hne)] at ht
      exact h.idle task ht
    by_cases hr : e.abort.Runnable root
    · have haborted : root ∈ e.abort.aborted := by
        rw [habort]
        exact List.mem_cons_self
      refine ⟨_, .single ⟨true, PollTask.done [] hr fun _ => haborted⟩, ?_⟩
      intro task ht
      by_cases hsame : root = task
      · subst hsame
        have hlt : root < e.abort.tasks.length := (List.getElem?_eq_some_iff.mp hr).1
        simp [Runnable, complete, polled, hlt] at ht
      · refine hsame (hother task ?_).symm
        simpa [Runnable, complete, polled, List.getElem?_set_ne hsame] using ht
    · refine ⟨e.abort, .refl, fun task ht => ?_⟩
      rw [hother task ht] at ht
      exact hr ht

theorem scheduling_lone_root :
    Stalls (LocalPool.anyOrder ⟨fun _ _ => true, fun _ => [0]⟩ : LocalPool _ Unit Unit) .stalled 1
      ⟨loneRoot, .guestRan false⟩ :=
  (scheduling _ _ _ _ (loneRoot_run _)).2.2.1 rfl (anyOrder_dropsAborted _) trivial
    ⟨rfl, loneRoot_idle, fun _ hr => absurd hr List.not_mem_nil⟩

end LoneRoot

end LeptosWasi.Scheduling
