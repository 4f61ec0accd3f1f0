import LeptosWasi.Library.Runs

namespace LeptosWasi.Admission

abbrev Limit := {n : Nat // 0 < n ∧ n ≤ 65536}

/-- The permits are those the semaphore has left. The counters count callers
that are in memory, so they do not wrap. -/
structure AdmissionGate where
  permits : Nat
  active : Nat
  queued : Nat
  maxActiveObserved : Nat
  maxQueuedObserved : Nat
  maxQueue : Limit
deriving DecidableEq

/-- A call of `acquire` and then its lease, between two accesses to what the
callers share. -/
inductive Caller where
  | entered (queued : Nat)
  | observed (queued : Nat)
  | waiting (permit : Bool)
  | resumed (permit : Bool)
  | left (permit : Bool)
  | counted (active : Nat)
  | leased
  | dropping
  | dropped
  | overloaded
  | canceled
deriving DecidableEq

/-- What happens to a caller. It advances by its own code; the semaphore grants
a permit; the timeout of the queue expires; the future of `acquire` is dropped
while it waits. -/
inductive Event where
  | advance
  | grant
  | expire
  | cancel
deriving DecidableEq

namespace AdmissionGate

def shared (limit maxQueue : Limit) : AdmissionGate := ⟨limit, 0, 0, 0, 0, maxQueue⟩

def release (gate : AdmissionGate) (permit : Bool) : AdmissionGate :=
  { gate with permits := gate.permits + permit.toNat }

def advance (gate : AdmissionGate) : Caller → Option (AdmissionGate × Caller)
  | .entered queued =>
    some ({ gate with maxQueuedObserved := max gate.maxQueuedObserved (queued + 1) },
      .observed queued)
  | .observed queued =>
    if gate.maxQueue ≤ queued then some ({ gate with queued := gate.queued - 1 }, .overloaded)
    -- The first poll of the timeout polls the semaphore.
    else if 0 < gate.permits then some ({ gate with permits := gate.permits - 1 }, .resumed true)
    else some (gate, .waiting false)
  | .waiting true => some (gate, .resumed true)
  | .waiting false => none
  | .resumed permit => some ({ gate with queued := gate.queued - 1 }, .left permit)
  | .left false => some (gate, .overloaded)
  | .left true => some ({ gate with active := gate.active + 1 }, .counted (gate.active + 1))
  | .counted active =>
    some ({ gate with maxActiveObserved := max gate.maxActiveObserved active }, .leased)
  -- `AdmissionLease::drop`, and then its permit.
  | .leased => some ({ gate with active := gate.active - 1 }, .dropping)
  | .dropping => some (gate.release true, .dropped)
  | .dropped | .overloaded | .canceled => none

/-- An event that cannot happen to the caller has no result. -/
def act (gate : AdmissionGate) : Event → Caller → Option (AdmissionGate × Caller)
  | .advance, caller => gate.advance caller
  | .grant, .waiting false =>
    if 0 < gate.permits then some ({ gate with permits := gate.permits - 1 }, .waiting true)
    else none
  | .expire, .waiting permit => some (gate.release permit, .resumed false)
  | .cancel, .waiting permit => some (gate.release permit, .canceled)
  | _, _ => none

end AdmissionGate

structure State where
  gate : AdmissionGate
  callers : List Caller
deriving DecidableEq

inductive Move where
  | arrive
  | event (caller : Nat) (event : Event)
deriving DecidableEq

namespace State

def start (limit maxQueue : Limit) : State := ⟨.shared limit maxQueue, []⟩

def arrive (s : State) : State :=
  ⟨{ s.gate with queued := s.gate.queued + 1 }, s.callers ++ [.entered s.gate.queued]⟩

def apply (s : State) : Move → Option State
  | .arrive => some s.arrive
  | .event caller event => do
    let current ← s.callers[caller]?
    let (gate, next) ← s.gate.act event current
    some ⟨gate, s.callers.set caller next⟩

def applyAll (s : State) (moves : List Move) : Option State := moves.foldlM apply s

def admitNext (s : State) : Option State :=
  s.applyAll (.arrive :: List.replicate 5 (.event s.callers.length .advance))

end State

/-- The callers of one gate, in any order. -/
def admission (limit maxQueue : Limit) : System State Move where
  init s := s = .start limit maxQueue
  step s move s' := s.apply move = some s'

end LeptosWasi.Admission
