import LeptosWasi.Library.Runs
import LeptosWasi.Pollables

namespace LeptosWasi.WaitQueues

open Pollables

variable {P W : Type}

structure CurrentQueueGuard where
  previous : Option Nat

/-- The wait queues by index, with the shared registrations by address and the
futures and guards by handle. What was dropped is gone. -/
structure Queues (P W : Type) where
  heap : List (WaitRegistration W)
  queues : List (WaitQueue P)
  polls : List (Option (WaitPollInner P))
  process : Option Nat
  current : Option Nat
  guards : List (Option CurrentQueueGuard)

namespace Queues

def initial : Queues P W := ⟨[], [], [], none, none, []⟩

def withQueue (s : Queues P W) : Queues P W := { s with queues := s.queues ++ [.default] }

def initializeWaitQueue (s : Queues P W) : Queues P W :=
  match s.process with
  | some _ => s
  | none => { s.withQueue with process := some s.queues.length }

def pollableQueue (s : Queues P W) : Option Nat := s.current.or s.process

def install (s : Queues P W) (queue : Nat) : Queues P W :=
  { s with current := some queue, guards := s.guards ++ [some ⟨s.current⟩] }

def dropGuard (s : Queues P W) (handle : Nat) : Queues P W :=
  match s.guards[handle]?.join with
  | some guard => { s with current := guard.previous, guards := s.guards.set handle none }
  | none => s

def world (s : Queues P W) (queue : WaitQueue P) : World P W := ⟨s.heap, queue, s.polls⟩

def onQueue (s : Queues P W) (queue : Nat) (f : World P W → World P W) : Queues P W :=
  match s.queues[queue]? with
  | some entries =>
    let w := f (s.world entries)
    { s with heap := w.heap, queues := s.queues.set queue w.queue, polls := w.polls }
  | none => s

def onCurrent (s : Queues P W) (f : Bool → World P W → World P W) : Queues P W :=
  match s.pollableQueue with
  | some queue => s.onQueue queue (f true)
  | none =>
    let w := f false (s.world .default)
    { s with heap := w.heap, polls := w.polls }

def newWaitPoll (s : Queues P W) (pollable : P) : Queues P W :=
  { s with polls := s.polls ++ [some (.unregistered pollable)] }

def pollWait (willWake : W → W → Bool) (s : Queues P W) (handle : Nat) (waker : W) : Queues P W :=
  s.onCurrent fun current w => (w.pollWait willWake current handle waker).1

def dropWait (s : Queues P W) (handle : Nat) : Queues P W :=
  s.onCurrent fun current w => w.dropWait current handle

def entries (s : Queues P W) (queue : Nat) : List (TableEntry P) :=
  (s.queues[queue]?.map WaitQueue.entries).getD []

end Queues

inductive Operation (P W : Type) where
  | withQueue
  | initializeWaitQueue
  | install (queue : Nat)
  | dropGuard (handle : Nat)
  | newWaitPoll (pollable : P)
  | pollWait (handle : Nat) (waker : W)
  | dropWait (handle : Nat)
  | dispatchReady (queue : Nat) (ready : List Nat)
  | sweepReady (queue : Nat) (ready : P → Bool)
  | abandonLeftoverPollables (queue : Nat) (ready : P → Bool)

/-- A queue is one that was made, and a future or a guard is not used after it
was dropped. -/
def Operation.enabled (s : Queues P W) : Operation P W → Prop
  | .withQueue | .initializeWaitQueue | .newWaitPoll _ => True
  | .install queue | .dispatchReady queue _ | .sweepReady queue _ |
      .abandonLeftoverPollables queue _ =>
    queue < s.queues.length
  | .dropGuard handle => ∃ guard, s.guards[handle]? = some (some guard)
  | .pollWait handle _ | .dropWait handle => ∃ inner, s.polls[handle]? = some (some inner)

def Queues.apply (willWake : W → W → Bool) (s : Queues P W) : Operation P W → Queues P W
  | .withQueue => s.withQueue
  | .initializeWaitQueue => s.initializeWaitQueue
  | .install queue => s.install queue
  | .dropGuard handle => s.dropGuard handle
  | .newWaitPoll pollable => s.newWaitPoll pollable
  | .pollWait handle waker => s.pollWait willWake handle waker
  | .dropWait handle => s.dropWait handle
  | .dispatchReady queue ready => s.onQueue queue fun w => (w.dispatchReady ready).1
  | .sweepReady queue ready => s.onQueue queue fun w => (w.sweepReady ready).1
  | .abandonLeftoverPollables queue ready =>
    s.onQueue queue fun w => (w.abandonLeftoverPollables ready).1

/-- A thread, and for each registration the queue that it was made with. The
code does not keep the latter. -/
structure Recorded (P W : Type) where
  thread : Queues P W
  homes : List Nat

def Recorded.apply (willWake : W → W → Bool) (s : Recorded P W) (operation : Operation P W) :
    Recorded P W :=
  let thread := s.thread.apply willWake operation
  ⟨thread, if s.thread.heap.length < thread.heap.length
    then s.homes ++ s.thread.pollableQueue.toList
    else s.homes⟩

/-- Everything that can happen on one thread, in any order. -/
def waitQueues (willWake : W → W → Bool) : System (Recorded P W) (Operation P W) where
  init s := s = ⟨.initial, []⟩
  step s operation s' := operation.enabled s.thread ∧ s' = s.apply willWake operation

end LeptosWasi.WaitQueues
