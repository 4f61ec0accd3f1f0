import Mathlib.Logic.Function.Basic
import LeptosWasi.Executor

namespace LeptosWasi.RunUntil

open Pollables Executor

variable {Q P W T : Type}

/-- Who keeps a future that waits on a pollable: code outside the pool, a task,
or the output that the root of the current call has sent. -/
inductive Holder where
  | outside
  | task (task : Nat)
  | output
deriving DecidableEq

/-- A thread with its executor. The executor's world has the process queue. -/
structure Machine (Q P W T : Type) where
  executor : ExecutorInner P W T
  current : Option Q
  others : Q → WaitQueue P
  holders : List Holder

structure CurrentQueueGuard (Q : Type) where
  previous : Option Q

def CurrentQueueGuard.install (queue : Q) (m : Machine Q P W T) :
    CurrentQueueGuard Q × Machine Q P W T :=
  (⟨m.current⟩, { m with current := some queue })

def CurrentQueueGuard.drop (guard : CurrentQueueGuard Q) (m : Machine Q P W T) : Machine Q P W T :=
  { m with current := guard.previous }

namespace Machine

def initial : Machine Q P W T := ⟨.withQueue, none, fun _ => .default, []⟩

def world (m : Machine Q P W T) : World P W := m.executor.world

def setWorld (m : Machine Q P W T) (w : World P W) : Machine Q P W T :=
  { m with executor := { m.executor with world := w } }

def Alive (m : Machine Q P W T) (task : Nat) : Prop :=
  ∃ status, m.executor.tasks[task]? = some status ∧ status ≠ .completed

instance (m : Machine Q P W T) (task : Nat) : Decidable (m.Alive task) :=
  decidable_of_iff (m.executor.tasks[task]?.any (· ≠ .completed) = true)
    (by simp [Alive, Option.any_eq_true])

def assign (m : Machine Q P W T) (handles : List Nat) (holder : Holder) : Machine Q P W T :=
  { m with holders := m.holders.mapIdx fun handle old => if handle ∈ handles then holder else old }

def held (m : Machine Q P W T) (holder : Holder) : List Nat :=
  (List.range m.holders.length).filter fun handle => m.holders[handle]? = some holder

def enter (m : Machine Q P W T) (handles : List Nat) : Machine Q P W T :=
  let spawned : Machine Q P W T :=
    { m with executor := { m.executor with tasks := m.executor.tasks ++ [.runnable] } }
  spawned.assign handles (.task m.executor.tasks.length)

/-- An aborted task is woken, and `Abortable` does not poll its future again. -/
def abort (m : Machine Q P W T) (root : Nat) : Machine Q P W T :=
  { m with executor := { m.executor with aborted := root :: m.executor.aborted }.wake root }

/-- `drive_until_output` inside a running task. The root was not polled and has
sent nothing, and the pool is in use. -/
def driveInside (m : Machine Q P W T) : ExecutorError × Machine Q P W T :=
  if m.executor.spawnFailed then
    (.taskSpawnFailed, { m with executor := { m.executor with spawnFailed := false } })
  else (.reentrantPoll, m)

section Queue

-- The process queue, which the executor got when it was created.
variable [DecidableEq Q] (process : Q)

def pollableQueue (m : Machine Q P W T) : Q := m.current.getD process

def onQueue (f : World P W → World P W) (m : Machine Q P W T) : Machine Q P W T :=
  let queue := m.pollableQueue process
  if queue = process then m.setWorld (f m.world)
  else
    let w := f { m.world with queue := m.others queue }
    { m.setWorld { w with queue := m.world.queue } with
      others := Function.update m.others queue w.queue }

def dropHeld (m : Machine Q P W T) (holder : Holder) : Machine Q P W T :=
  (m.held holder).foldl (fun m handle => m.onQueue process (·.dropWait true handle)) m

def complete (m : Machine Q P W T) (task : Nat) : Machine Q P W T :=
  let m := m.dropHeld process (.task task)
  { m with executor := m.executor.complete task }

def refuse (m : Machine Q P W T) (handles : List Nat) : Machine Q P W T :=
  (m.enter handles).complete process m.executor.tasks.length

end Queue

end Machine

/-- What a task does while it is polled, or code outside between calls. A
spawner may refuse a future. -/
inductive Action (P W : Type) where
  | wait (pollable : P)
  | poll (handle : Nat) (waker : W)
  | drop (handle : Nat)
  | give (handle : Nat) (holder : Option Nat)
  | wake (task : Nat)
  | spawn (accepted : Bool) (handles : List Nat)
  | runUntil (accepted : Bool) (handles : List Nat)
  | pollLocal

def Action.calls : Action P W → Bool
  | .runUntil .. | .pollLocal => true
  | _ => false

/-- A call of `run_until`: the task of its root, what the root future holds, and
the thread before the call. A call inside a running task is nested. -/
structure Call (Q P W T : Type) where
  root : Nat
  handles : List Nat
  nested : Bool
  accepted : Bool
  before : Machine Q P W T

inductive Entry (Q P W T : Type) where
  | polled (task : Nat)
  | returned (call : Call Q P W T) (result : Except ExecutorError T) (after : Machine Q P W T)

structure Thread (Q P W T : Type) where
  machine : Machine Q P W T
  journal : List (Entry Q P W T)

namespace Thread

def update (t : Thread Q P W T) (f : Machine Q P W T → Machine Q P W T) : Thread Q P W T :=
  { t with machine := f t.machine }

def returned (t : Thread Q P W T) (call : Call Q P W T) (result : Except ExecutorError T)
    (after : Machine Q P W T) : Thread Q P W T :=
  ⟨after, .returned call result after :: t.journal⟩

variable [DecidableEq Q] (wk : Wakers W) (process : Q)

/-- `run_until` inside a running task. The pool is in use, so `drop_aborted_tasks`
leaves the aborted root in it. -/
def runUntilInside (t : Thread Q P W T) (accepted : Bool) (handles : List Nat) : Thread Q P W T :=
  let call : Call Q P W T := ⟨t.machine.executor.tasks.length, handles, true, accepted, t.machine⟩
  if accepted then
    let (guard, m) := CurrentQueueGuard.install process (t.machine.enter handles)
    let (error, m) := m.driveInside
    t.returned call (.error error) ((guard.drop m).abort call.root)
  else t.returned call (.error .taskSpawnFailed) (t.machine.refuse process handles)

def pollLocalInside (m : Machine Q P W T) : Machine Q P W T :=
  let (guard, m) := CurrentQueueGuard.install process m
  guard.drop m

def act (actor : Holder) (t : Thread Q P W T) : Action P W → Thread Q P W T
  | .wait pollable => t.update fun m =>
    { m.setWorld (m.world.newWaitPoll pollable) with holders := m.holders ++ [actor] }
  | .poll handle waker =>
    t.update (·.onQueue process fun w => (w.pollWait wk.willWake true handle waker).1)
  | .drop handle => t.update (·.onQueue process (·.dropWait true handle))
  | .give handle none => t.update (·.assign [handle] .outside)
  | .give handle (some task) => t.update fun m =>
    if m.Alive task then m.assign [handle] (.task task) else m
  | .wake task => t.update fun m => { m with executor := m.executor.wake task }
  | .spawn true handles => t.update (·.enter handles)
  | .spawn false handles => t.update fun m =>
    let m := m.refuse process handles
    { m with executor := { m.executor with spawnFailed := true } }
  | .runUntil accepted handles => t.runUntilInside process accepted handles
  | .pollLocal => t.update (pollLocalInside process)

def acts (actor : Holder) (t : Thread Q P W T) (actions : List (Action P W)) : Thread Q P W T :=
  actions.foldl (act wk process actor) t

def polled (t : Thread Q P W T) (task : Nat) (actions : List (Action P W)) : Thread Q P W T :=
  acts wk process (.task task)
    ⟨{ t.machine with
        executor :=
          { t.machine.executor with tasks := t.machine.executor.tasks.set task .waiting } },
      .polled task :: t.journal⟩ actions

def Runnable (t : Thread Q P W T) (task : Nat) : Prop := t.machine.executor.Runnable task

def Aborted (t : Thread Q P W T) (task : Nat) : Prop := task ∈ t.machine.executor.aborted

/-- What the pool does with a runnable task. The root ends by sending its
output, which may hold futures, and an aborted task is discarded. -/
inductive PollTask (t : Thread Q P W T) : Thread Q P W T → Prop
  | pending {task : Nat} (actions : List (Action P W))
      (h : t.Runnable task) (ha : ¬ t.Aborted task) :
      PollTask t (t.polled wk process task actions)
  | done {task : Nat} (actions : List (Action P W)) (h : t.Runnable task) (ha : ¬ t.Aborted task)
      (hroot : t.machine.executor.root ≠ some task) :
      PollTask t ((t.polled wk process task actions).update (·.complete process task))
  | output {task : Nat} (actions : List (Action P W))
      (handles : List Nat) (output : T) (h : t.Runnable task)
      (ha : ¬ t.Aborted task) (hroot : t.machine.executor.root = some task) :
      PollTask t ((t.polled wk process task actions).update fun m =>
        { m.assign handles .output with executor := m.executor.send output }.complete process task)
  | discarded {task : Nat} (actions : List (Action P W))
      (h : t.Runnable task) (ha : t.Aborted task) :
      PollTask t ((t.acts wk process (.task task) actions).update (·.complete process task))

def Polls : Thread Q P W T → Thread Q P W T → Prop := Relation.ReflTransGen (PollTask wk process)

end Thread

/-- The local pool of the `futures` crate on a thread. -/
structure ThreadPool [DecidableEq Q] (wk : Wakers W) (process : Q) (P T : Type) where
  runUntilStalled : Thread Q P W T → Thread Q P W T → Prop
  tryRunOne : Thread Q P W T → Bool → Thread Q P W T → Prop
  stalled_polls : ∀ {t t'}, runUntilStalled t t' → Thread.Polls wk process t t'
  stalled_idle : ∀ {t t'}, runUntilStalled t t' → t'.machine.executor.Idle
  one_polls : ∀ {t t' progress}, tryRunOne t progress t' → Thread.Polls wk process t t'

def ThreadPool.anyOrder [DecidableEq Q] (wk : Wakers W) (process : Q) :
    ThreadPool wk process P T where
  runUntilStalled t t' := Thread.Polls wk process t t' ∧ t'.machine.executor.Idle
  tryRunOne t _ t' := Thread.Polls wk process t t'
  stalled_polls h := h.1
  stalled_idle h := h.2
  one_polls h := h

structure Frame (Q P W T : Type) where
  call : Call Q P W T
  guard : CurrentQueueGuard Q

structure State (Q P W T : Type) where
  thread : Thread Q P W T
  control : Control T
  frame : Frame Q P W T

namespace State

def leaves (s : State Q P W T) : Option (Except ExecutorError T) :=
  Session.leaves ⟨s.thread.machine.executor, s.control⟩

variable [DecidableEq Q] {wk : Wakers W} {process : Q}

def runGuest (pool : ThreadPool wk process P T) (mode : Mode)
    (t : Thread Q P W T) (guestProgress : Bool)
    (t' : Thread Q P W T) : Prop :=
  match mode with
  | .preemptive => pool.tryRunOne t guestProgress t'
  | .stalled => pool.runUntilStalled t t' ∧ guestProgress = false

def pollHost (wk : Wakers W) (mode : Mode) (guestProgress : Bool)
    (poller : Poller P) (t : Thread Q P W T) :
    Thread Q P W T :=
  t.update fun m =>
  { m with executor := (m.executor.pollHost wk mode guestProgress poller).executor }

def entered (process : Q) (t : Thread Q P W T) (accepted : Bool) (handles : List Nat) :
    Frame Q P W T :=
  ⟨⟨t.machine.executor.tasks.length, handles, false, accepted, t.machine⟩,
    (CurrentQueueGuard.install process t.machine).1⟩

def start (process : Q) (t : Thread Q P W T) (handles : List Nat) : Thread Q P W T :=
  t.update fun m =>
    let m := { m with executor := m.executor.spawnRoot }.assign handles
      (.task m.executor.tasks.length)
    (CurrentQueueGuard.install process m).2

def finish (wk : Wakers W) (poller : Poller P) (t : Thread Q P W T)
    (frame : Frame Q P W T) (output : T) :
    Thread Q P W T :=
  let m := { t.machine with executor := t.machine.executor.abandonLeftoverPollables wk poller }
  t.returned frame.call (.ok output) ((frame.guard.drop m).assign (m.held .output) .outside)

def leave (t : Thread Q P W T) (frame : Frame Q P W T) (error : ExecutorError) : Thread Q P W T :=
  t.update fun m => frame.guard.drop
    (if error = .taskSpawnFailed
      then { m with executor := { m.executor with spawnFailed := false } }
      else m)

def fail (process : Q) (t : Thread Q P W T) (frame : Frame Q P W T) (error : ExecutorError) :
    Thread Q P W T :=
  t.returned frame.call (.error error) (t.machine.dropHeld process .output)

/-- A step of a thread that calls `run_until` and `poll_local`, while its tasks
may call them too. -/
inductive Step (pool : ThreadPool wk process P T) (mode : Mode) :
    State Q P W T → Unit → State Q P W T → Prop
  | outside {t last frame} (action : Action P W) (h : action.calls = false) :
      Step pool mode ⟨t, .returned last, frame⟩ ()
        ⟨t.act wk process .outside action, .returned last, frame⟩
  | pollLocal {t t' last frame guestProgress} (poller : Poller P)
      (h : runGuest pool mode
        (t.update fun m => (CurrentQueueGuard.install process m).2) guestProgress t') :
      Step pool mode ⟨t, .returned last, frame⟩ ()
        ⟨(pollHost wk mode guestProgress poller t').update
          (CurrentQueueGuard.install process t.machine).1.drop,
          .returned last, frame⟩
  | runUntil {t last frame} (handles : List Nat) :
      Step pool mode ⟨t, .returned last, frame⟩ ()
        ⟨start process t handles, .head, entered process t true handles⟩
  | refused {t last frame} (handles : List Nat) :
      Step pool mode ⟨t, .returned last, frame⟩ ()
        ⟨t.returned (entered process t false handles).call (.error .taskSpawnFailed)
          (t.machine.refuse process handles), .returned (some (.error .taskSpawnFailed)), frame⟩
  | runGuest {t t' frame guestProgress} (hl : leaves ⟨t, .head, frame⟩ = none)
      (h : runGuest pool mode t guestProgress t') :
      Step pool mode ⟨t, .head, frame⟩ () ⟨t', .guestRan guestProgress, frame⟩
  | pollHost {t frame guestProgress} (poller : Poller P)
      (hl : leaves ⟨t, .guestRan guestProgress, frame⟩ = none) :
      Step pool mode ⟨t, .guestRan guestProgress, frame⟩ ()
        ⟨pollHost wk mode guestProgress poller t,
          .hostRan guestProgress
            (t.machine.executor.pollHost wk mode guestProgress poller).progress, frame⟩
  | iterate {t frame guestProgress hostProgress}
      (hl : leaves ⟨t, .hostRan guestProgress hostProgress, frame⟩ = none) :
      Step pool mode ⟨t, .hostRan guestProgress hostProgress, frame⟩ () ⟨t, .head, frame⟩
  | finished {s output} (poller : Poller P) (hl : s.leaves = some (.ok output)) :
      Step pool mode s () ⟨finish wk poller s.thread s.frame output,
        .returned (some (.ok output)), s.frame⟩
  | leave {s error} (hl : s.leaves = some (.error error)) :
      Step pool mode s () ⟨leave s.thread s.frame error, .failed error, s.frame⟩
  | fail {t t' frame error} (h : pool.runUntilStalled (t.update (·.abort frame.call.root)) t') :
      Step pool mode ⟨t, .failed error, frame⟩ ()
        ⟨fail process t' frame error, .returned (some (.error error)), frame⟩

end State

/-- A thread from its start, with the executor that `Executor::new` creates. -/
def threadSystem [DecidableEq Q] {wk : Wakers W}
    {process : Q} (pool : ThreadPool wk process P T) (mode : Mode) :
    System (State Q P W T) Unit where
  init s := s.thread = ⟨.initial, []⟩ ∧ s.control = .returned none
  step := State.Step pool mode

end LeptosWasi.RunUntil
