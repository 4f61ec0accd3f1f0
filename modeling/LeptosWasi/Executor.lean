import Mathlib.Logic.Relation
import LeptosWasi.Library.Runs
import LeptosWasi.Pollables

namespace LeptosWasi.Executor

open Pollables

variable {P W T : Type}

inductive Mode where
  | preemptive
  | stalled
deriving DecidableEq

inductive HostWait where
  | sweep
  | block

def hostWait : Mode → Bool → HostWait
  | .preemptive, true => .sweep
  | .preemptive, false | .stalled, _ => .block

structure Poller (P : Type) where
  poll : List P → List Nat
  ready : P → Bool

inductive HostCall (P : Type) where
  | poll (pollables : List P)
  | ready (pollable : P)

structure Wakers (W : Type) where
  willWake : W → W → Bool
  tasks : W → List Nat

inductive Task where
  | waiting
  | runnable
  | completed
deriving DecidableEq

inductive Receiver (T : Type) where
  | pending
  | sent (output : T)
  | canceled

/-- The executor: its queue with the futures that wait on it, the tasks of its
pool, the root task of the current call, and the tasks that were aborted. -/
structure ExecutorInner (P W T : Type) where
  world : World P W
  tasks : List Task
  spawnFailed : Bool
  root : Option Nat
  receiver : Receiver T
  aborted : List Nat

structure HostPhase (P W T : Type) where
  executor : ExecutorInner P W T
  progress : Bool
  calls : List (HostCall P)

inductive Action (P W : Type) where
  | wait (pollable : P)
  | poll (handle : Nat) (waker : W)
  | drop (handle : Nat)
  | wake (task : Nat)
  | spawn
  | runUntil

namespace ExecutorInner

def withQueue : ExecutorInner P W T := ⟨.initial, [], false, none, .pending, []⟩

def Runnable (e : ExecutorInner P W T) (task : Nat) : Prop := e.tasks[task]? = some .runnable

def Idle (e : ExecutorInner P W T) : Prop := ∀ task, ¬ e.Runnable task

def wake (e : ExecutorInner P W T) (task : Nat) : ExecutorInner P W T :=
  { e with tasks := e.tasks.modify task fun t => if t = .waiting then .runnable else t }

def wakeAll (wk : Wakers W) (e : ExecutorInner P W T) (wakers : List W) : ExecutorInner P W T :=
  (wakers.flatMap wk.tasks).foldl wake e

theorem wakeAll_frame (wk : Wakers W) (e : ExecutorInner P W T) (wakers : List W) :
    ∃ tasks, e.wakeAll wk wakers = { e with tasks := tasks } := by
  rw [wakeAll]
  induction wakers.flatMap wk.tasks generalizing e with
  | nil => exact ⟨e.tasks, rfl⟩
  | cons task tasks ih => exact ih (e.wake task)

theorem wakeAll_world (wk : Wakers W) (e : ExecutorInner P W T) (wakers : List W) :
    (e.wakeAll wk wakers).world = e.world := by
  obtain ⟨tasks, h⟩ := wakeAll_frame wk e wakers
  rw [h]

def spawn (accepts : Bool) (e : ExecutorInner P W T) : ExecutorInner P W T :=
  if accepts then { e with tasks := e.tasks ++ [.runnable] } else { e with spawnFailed := true }

/-- `run_until` from inside a running task. The pool is in use, so the call
fails and leaves an aborted root in it. -/
def reentrantRunUntil (accepts : Bool) (e : ExecutorInner P W T) : ExecutorInner P W T :=
  if accepts then
    { e with
      tasks := e.tasks ++ [.runnable]
      spawnFailed := false
      aborted := e.tasks.length :: e.aborted }
  else e

/-- The process queue exists since the executor was created, so a future always
finds it. -/
def act (wk : Wakers W) (accepts : Bool) (e : ExecutorInner P W T) :
    Action P W → ExecutorInner P W T
  | .wait pollable => { e with world := e.world.newWaitPoll pollable }
  | .poll handle waker => { e with world := (e.world.pollWait wk.willWake true handle waker).1 }
  | .drop handle => { e with world := e.world.dropWait true handle }
  | .wake task => e.wake task
  | .spawn => e.spawn accepts
  | .runUntil => e.reentrantRunUntil accepts

def polled (wk : Wakers W) (accepts : Bool) (e : ExecutorInner P W T) (task : Nat)
    (actions : List (Action P W)) : ExecutorInner P W T :=
  actions.foldl (act wk accepts) { e with tasks := e.tasks.set task .waiting }

def send (e : ExecutorInner P W T) (output : T) : ExecutorInner P W T :=
  { e with receiver := .sent output }

def complete (e : ExecutorInner P W T) (task : Nat) : ExecutorInner P W T :=
  { e with
    tasks := e.tasks.set task .completed
    receiver :=
      match e.receiver with
      | .pending => if e.root = some task then .canceled else .pending
      | receiver => receiver }

/-- One poll of a runnable task and whether the task completes. The root ends
by sending its output, and an aborted task ends at its next poll. -/
inductive PollTask (wk : Wakers W) (accepts : Bool) (e : ExecutorInner P W T) :
    Bool → ExecutorInner P W T → Prop
  | pending {task : Nat} (actions : List (Action P W))
      (h : e.Runnable task) (ha : task ∉ e.aborted) :
      PollTask wk accepts e false (e.polled wk accepts task actions)
  | done {task : Nat} (actions : List (Action P W)) (h : e.Runnable task)
      (hroot : e.root = some task → task ∈ e.aborted) :
      PollTask wk accepts e true ((e.polled wk accepts task actions).complete task)
  | output {task : Nat} (actions : List (Action P W)) (output : T) (h : e.Runnable task)
      (hroot : e.root = some task) (ha : task ∉ e.aborted) :
      PollTask wk accepts e true (((e.polled wk accepts task actions).send output).complete task)

def Polls (wk : Wakers W) (accepts : Bool) : ExecutorInner P W T → ExecutorInner P W T → Prop :=
  Relation.ReflTransGen fun e e' => ∃ completed, PollTask wk accepts e completed e'

end ExecutorInner

/-- The local pool of the `futures` crate, with what its documentation says. -/
structure LocalPool (wk : Wakers W) (P T : Type) where
  accepts : Bool
  runUntilStalled : ExecutorInner P W T → ExecutorInner P W T → Prop
  tryRunOne : ExecutorInner P W T → Bool → ExecutorInner P W T → Prop
  stalled_polls : ∀ {e e'}, runUntilStalled e e' → ExecutorInner.Polls wk accepts e e'
  stalled_idle : ∀ {e e'}, runUntilStalled e e' → e'.Idle
  stalled_returns : ∀ {e}, e.Idle → ∃ e', runUntilStalled e e'
  one_completes : ∀ {e e'}, tryRunOne e true e' →
    ∃ e₁, ExecutorInner.Polls wk accepts e e₁ ∧ ExecutorInner.PollTask wk accepts e₁ true e'
  one_polls : ∀ {e e'}, tryRunOne e false e' → ExecutorInner.Polls wk accepts e e'
  one_idle : ∀ {e e'}, tryRunOne e false e' → e'.Idle
  one_returns : ∀ {e}, e.Idle → ∃ progress e', tryRunOne e progress e'

def LocalPool.anyOrder (wk : Wakers W) : LocalPool wk P T where
  accepts := true
  runUntilStalled e e' := ExecutorInner.Polls wk true e e' ∧ e'.Idle
  tryRunOne e progress e' :=
    if progress then ∃ e₁, ExecutorInner.Polls wk true e e₁ ∧
      ExecutorInner.PollTask wk true e₁ true e'
    else ExecutorInner.Polls wk true e e' ∧ e'.Idle
  stalled_polls h := h.1
  stalled_idle h := h.2
  stalled_returns h := ⟨_, .refl, h⟩
  one_completes h := by simpa using h
  one_polls h := And.left (by simpa using h)
  one_idle h := And.right (by simpa using h)
  one_returns h := ⟨false, _, .refl, h⟩

namespace ExecutorInner

variable {wk : Wakers W}

def runGuest (pool : LocalPool wk P T) (mode : Mode)
    (e : ExecutorInner P W T) (guestProgress : Bool)
    (e' : ExecutorInner P W T) : Prop :=
  match mode with
  | .preemptive => pool.tryRunOne e guestProgress e'
  | .stalled => pool.runUntilStalled e e' ∧ guestProgress = false

/-- `poll_host`: the state after it, whether it made progress, and its calls on
the host, of which only `poll` blocks. A dispatch asks the host exactly if it
makes progress. -/
def pollHost (wk : Wakers W) (mode : Mode) (guestProgress : Bool) (poller : Poller P)
    (e : ExecutorInner P W T) : HostPhase P W T :=
  let pollables := e.world.takePending.map TableEntry.pollable
  match hostWait mode guestProgress with
  | .sweep =>
    let (world, wakers, progress) := e.world.sweepReady poller.ready
    ⟨{ e with world := world }.wakeAll wk wakers, progress, pollables.map .ready⟩
  | .block =>
    let (world, wakers, asked) := e.world.dispatchReady (poller.poll pollables)
    ⟨{ e with world := world }.wakeAll wk wakers, asked, if asked then [.poll pollables] else []⟩

def abandonLeftoverPollables (wk : Wakers W) (poller : Poller P) (e : ExecutorInner P W T) :
    ExecutorInner P W T :=
  let (world, wakers) := e.world.abandonLeftoverPollables poller.ready
  { e with world := world }.wakeAll wk wakers

def spawnRoot (e : ExecutorInner P W T) : ExecutorInner P W T :=
  { e with
    tasks := e.tasks ++ [.runnable]
    root := some e.tasks.length
    receiver := .pending }

def abort (e : ExecutorInner P W T) : ExecutorInner P W T :=
  match e.root with
  | none => e
  | some task => { e with aborted := task :: e.aborted }.wake task

/-- What the receiver finds: nothing yet, the output, or a closed channel. -/
def received (e : ExecutorInner P W T) : Option (Except ExecutorError T) :=
  match e.receiver with
  | .pending => none
  | .sent output => some (.ok output)
  | .canceled => some (.error .runUntilCanceled)

end ExecutorInner

/-- Where a thread is: between calls, with the result of the last one, at a
check of `drive_until_output`, or at the end of a call that failed. -/
inductive Control (T : Type) where
  | returned (last : Option (Except ExecutorError T))
  | head
  | guestRan (guestProgress : Bool)
  | hostRan (guestProgress hostProgress : Bool)
  | failed (error : ExecutorError)

structure Session (P W T : Type) where
  executor : ExecutorInner P W T
  control : Control T

inductive Event (P W T : Type) where
  | outside (action : Action P W)
  | pollLocal (calls : List (HostCall P))
  | runUntil
  | runGuest
  | pollHost (calls : List (HostCall P))
  | iterate
  | finished (output : T) (dropped : List Nat)
  | leave (error : ExecutorError)
  | fail (error : ExecutorError)

namespace Session

/-- The checks of the loop, in their order. The third check does not look at
failed spawns, and only it can find the executor stalled. -/
def leaves (s : Session P W T) : Option (Except ExecutorError T) :=
  match s.control with
  | .head | .guestRan _ =>
    if s.executor.spawnFailed then some (.error .taskSpawnFailed) else s.executor.received
  | .hostRan guestProgress hostProgress =>
    s.executor.received <|> if !guestProgress && !hostProgress then some (.error .stalled) else none
  | .returned _ | .failed _ => none

/-- A step of a thread that calls `run_until` any number of times. -/
inductive Step {wk : Wakers W} (pool : LocalPool wk P T) (mode : Mode) :
    Session P W T → Event P W T → Session P W T → Prop
  | outside {e last} (action : Action P W) (h : action ≠ .runUntil) :
      Step pool mode ⟨e, .returned last⟩ (.outside action)
        ⟨e.act wk pool.accepts action, .returned last⟩
  | pollLocal {e e' last guestProgress} (poller : Poller P)
      (h : e.runGuest pool mode guestProgress e') :
      Step pool mode ⟨e, .returned last⟩
        (.pollLocal (e'.pollHost wk mode guestProgress poller).calls)
        ⟨(e'.pollHost wk mode guestProgress poller).executor, .returned last⟩
  | runUntil {e last} (h : pool.accepts = true) :
      Step pool mode ⟨e, .returned last⟩ .runUntil ⟨e.spawnRoot, .head⟩
  | rejected {e last} (h : pool.accepts = false) :
      Step pool mode ⟨e, .returned last⟩ .runUntil ⟨e, .returned (some (.error .taskSpawnFailed))⟩
  | runGuest {e e' guestProgress} (hl : leaves ⟨e, .head⟩ = none)
      (h : e.runGuest pool mode guestProgress e') :
      Step pool mode ⟨e, .head⟩ .runGuest ⟨e', .guestRan guestProgress⟩
  | pollHost {e guestProgress} (poller : Poller P)
      (hl : leaves ⟨e, .guestRan guestProgress⟩ = none) :
      Step pool mode ⟨e, .guestRan guestProgress⟩
        (.pollHost (e.pollHost wk mode guestProgress poller).calls)
        ⟨(e.pollHost wk mode guestProgress poller).executor,
          .hostRan guestProgress (e.pollHost wk mode guestProgress poller).progress⟩
  | iterate {e guestProgress hostProgress}
      (hl : leaves ⟨e, .hostRan guestProgress hostProgress⟩ = none) :
      Step pool mode ⟨e, .hostRan guestProgress hostProgress⟩ .iterate ⟨e, .head⟩
  | finished {s : Session P W T} {output} (poller : Poller P) (hl : s.leaves = some (.ok output)) :
      Step pool mode s (.finished output (s.executor.world.leftovers poller.ready))
        ⟨s.executor.abandonLeftoverPollables wk poller, .returned (some (.ok output))⟩
  | leave {s : Session P W T} {error} (hl : s.leaves = some (.error error)) :
      Step pool mode s (.leave error)
        ⟨if error = .taskSpawnFailed then { s.executor with spawnFailed := false } else s.executor,
          .failed error⟩
  | fail {e e' error} (h : pool.runUntilStalled e.abort e') :
      Step pool mode ⟨e, .failed error⟩ (.fail error) ⟨e', .returned (some (.error error))⟩

end Session

def sessionSystem {wk : Wakers W} (pool : LocalPool wk P T) (mode : Mode) :
    System (Session P W T) (Event P W T) where
  init s := s = ⟨.withQueue, .returned none⟩
  step := Session.Step pool mode

end LeptosWasi.Executor
