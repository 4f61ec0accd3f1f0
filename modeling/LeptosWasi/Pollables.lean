import Mathlib.Algebra.Group.Nat.Defs
import Mathlib.Data.List.Basic

namespace LeptosWasi.Pollables

inductive ExecutorError where
  | preview2NotInitialized
  | preview2ModeMismatch
  | preview2InitializationReentrant
  | pollableRegistrationExhausted
  | pollableCanceled
  | taskSpawnFailed
  | runUntilCanceled
  | reentrantPoll
  | stalled
  | spawnerAlreadyInitialized
deriving DecidableEq

inductive RegistrationStatus where
  | pending
  | ready
  | canceled
deriving DecidableEq

/-- The result of a poll, with nothing for `Poll::Pending`. -/
abbrev PollResult := Option (Except ExecutorError Unit)

variable {P W : Type}

structure WaitRegistration (W : Type) where
  id : Nat
  status : RegistrationStatus
  taskWaker : W

namespace WaitRegistration

def new (id : Nat) (waker : W) : WaitRegistration W := ⟨id, .pending, waker⟩

def poll (willWake : W → W → Bool) (r : WaitRegistration W) (waker : W) :
    WaitRegistration W × PollResult :=
  match r.status with
  | .ready => (r, some (.ok ()))
  | .canceled => (r, some (.error .pollableCanceled))
  | .pending => (if willWake r.taskWaker waker then r else { r with taskWaker := waker }, none)

def isPending (r : WaitRegistration W) : Bool := r.status == .pending

def markReady (r : WaitRegistration W) : WaitRegistration W × Option W :=
  if r.isPending then ({ r with status := .ready }, some r.taskWaker) else (r, none)

def cancel (r : WaitRegistration W) : WaitRegistration W :=
  if r.isPending then { r with status := .canceled } else r

end WaitRegistration

/-- A queued pollable and the address of its shared registration. -/
structure TableEntry (P : Type) where
  pollable : P
  registration : Nat

structure WaitQueue (P : Type) where
  nextId : Nat
  entries : List (TableEntry P)

def WaitQueue.default : WaitQueue P := ⟨1, []⟩

inductive WaitPollInner (P : Type) where
  | unregistered (pollable : P)
  | registered (registration : Nat)
  | failed (error : ExecutorError)

/-- The shared registrations by address, the queue, and the futures by handle.
A future that was dropped is gone. -/
structure World (P W : Type) where
  heap : List (WaitRegistration W)
  queue : WaitQueue P
  polls : List (Option (WaitPollInner P))

namespace World

def initial : World P W := ⟨[], .default, []⟩

def setEntries (w : World P W) (entries : List (TableEntry P)) : World P W :=
  { w with queue := { w.queue with entries := entries } }

/-- Register a pollable, unless the `u64` of the next identifier is used up. -/
def register (w : World P W) (pollable : P) (waker : W) : Except ExecutorError (World P W × Nat) :=
  if w.queue.nextId + 1 < 2 ^ 64 then
    .ok ({ w with
      heap := w.heap ++ [.new w.queue.nextId waker]
      queue := ⟨w.queue.nextId + 1, w.queue.entries ++ [⟨pollable, w.heap.length⟩]⟩ },
        w.heap.length)
  else .error .pollableRegistrationExhausted

def hasId (w : World P W) (id : Nat) (entry : TableEntry P) : Bool :=
  w.heap[entry.registration]?.any fun r => r.id == id

def cancel (w : World P W) (id : Nat) : World P W :=
  w.setEntries (w.queue.entries.eraseP (w.hasId id))

def takePending (w : World P W) : List (TableEntry P) :=
  w.queue.entries.filter fun entry => w.heap[entry.registration]?.any WaitRegistration.isPending

def requeuePending (w : World P W) (entries : List (TableEntry P)) : World P W :=
  w.setEntries (w.queue.entries ++ entries)

def newWaitPoll (w : World P W) (pollable : P) : World P W :=
  { w with polls := w.polls ++ [some (.unregistered pollable)] }

def setPoll (w : World P W) (handle : Nat) (inner : Option (WaitPollInner P)) : World P W :=
  { w with polls := w.polls.set handle inner }

def pollWait (willWake : W → W → Bool) (current : Bool) (w : World P W) (handle : Nat) (waker : W) :
    World P W × PollResult :=
  match w.polls[handle]?.join with
  | none => (w, none)
  | some (.unregistered pollable) =>
    if !current then
      (w.setPoll handle (some (.failed .preview2NotInitialized)),
        some (.error .preview2NotInitialized))
    else
      match w.register pollable waker with
      | .ok (w, registration) => (w.setPoll handle (some (.registered registration)), none)
      | .error error => (w.setPoll handle (some (.failed error)), some (.error error))
  | some (.registered registration) =>
    ({ w with heap := w.heap.modify registration fun r => (r.poll willWake waker).1 },
      w.heap[registration]?.bind fun r => (r.poll willWake waker).2)
  | some (.failed error) => (w, some (.error error))

def dropWait (current : Bool) (w : World P W) (handle : Nat) : World P W :=
  match w.polls[handle]?.join with
  | some (.registered registration) =>
    let canceled := { w with heap := w.heap.modify registration WaitRegistration.cancel }
    let dequeued :=
      match current, canceled.heap[registration]? with
      | true, some r => canceled.cancel r.id
      | _, _ => canceled
    dequeued.setPoll handle none
  | _ => w.setPoll handle none

/-- The flags that a host sets for the indices it reports. An index out of
range is ignored. -/
def readyFlags (length : Nat) (ready : List Nat) : List Bool :=
  ready.foldl (fun flags index => flags.set index true) (List.replicate length false)

/-- The loop over flagged entries: the registrations after it, the entries
that are not ready and the wakers of those that became ready. -/
def settle : List (WaitRegistration W) → List (TableEntry P × Bool) →
    List (WaitRegistration W) × List (TableEntry P) × List W
  | heap, [] => (heap, [], [])
  | heap, (entry, isReady) :: rest =>
    if isReady then
      let waker := heap[entry.registration]?.bind fun r => r.markReady.2
      let (heap, pending, wakers) :=
        settle (heap.modify entry.registration fun r => r.markReady.1) rest
      (heap, pending, waker.toList ++ wakers)
    else
      let (heap, pending, wakers) := settle heap rest
      (heap, entry :: pending, wakers)

/-- The state after a dispatch, its wakers, and whether the host was asked. -/
def dispatchReady (w : World P W) (ready : List Nat) : World P W × List W × Bool :=
  let entries := w.takePending
  let w := w.setEntries []
  if entries.isEmpty then (w, [], false)
  else
    let (heap, pending, wakers) := settle w.heap (entries.zip (readyFlags entries.length ready))
    ({ w with heap := heap }.requeuePending pending, wakers, true)

def sweepReady (w : World P W) (ready : P → Bool) : World P W × List W × Bool :=
  let entries := w.takePending
  let w := w.setEntries []
  if entries.isEmpty then (w, [], false)
  else
    let (heap, pending, wakers) :=
      settle w.heap (entries.map fun entry => (entry, ready entry.pollable))
    ({ w with heap := heap }.requeuePending pending,
      wakers, entries.any fun entry => ready entry.pollable)

def leftovers (w : World P W) (ready : P → Bool) : List Nat :=
  (w.takePending.filter fun entry => !ready entry.pollable).map TableEntry.registration

/-- A probe of the pending entries that keeps none of them. -/
def abandonLeftoverPollables (w : World P W) (ready : P → Bool) : World P W × List W :=
  let entries := w.takePending
  let w := w.setEntries []
  let (heap, _, wakers) := settle w.heap (entries.map fun entry => (entry, ready entry.pollable))
  ({ w with heap := heap }, wakers)

end World

end LeptosWasi.Pollables
