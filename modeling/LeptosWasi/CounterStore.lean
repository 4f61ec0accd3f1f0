import Mathlib.Logic.Function.Basic
import LeptosWasi.Http
import LeptosWasi.Library.Runs

namespace LeptosWasi.CounterStore

open Http

abbrev CounterId := Bytes
abbrev OperationId := Bytes

inductive StoreError where
  | invalidRequest
  | unavailable
deriving DecidableEq

def maxIdentifierLength : Nat := 128

def isIdentifierByte (b : UInt8) : Bool :=
  decide (48 ≤ b ∧ b ≤ 57 ∨ 65 ≤ b ∧ b ≤ 90 ∨ 97 ≤ b ∧ b ≤ 122) || b == 45 || b == 95 || b == 46

def validateIdentifier (value : Bytes) : Bool :=
  !value.isEmpty && decide (value.length ≤ maxIdentifierLength) && value.all isIdentifierByte

/-- The two tables by their primary keys: the value of a counter, and the result
of an operation, which is null until it is known. -/
structure Database where
  counters : CounterId → Option Nat
  operations : CounterId × OperationId → Option (Option Nat)

namespace Database

def empty : Database := ⟨fun _ => none, fun _ => none⟩

section Statements

variable (db : Database) (counter : CounterId) (operation : OperationId)

def insertCounter : Database :=
  match db.counters counter with
  | none => { db with counters := Function.update db.counters counter (some 0) }
  | some _ => db

def reserve : Database × Bool :=
  match db.operations (counter, operation) with
  | none =>
      ({ db with
        operations := Function.update db.operations (counter, operation) (some none) }, true)
  | some _ => (db, false)

/-- `UPDATE counters SET value = value + 1 … RETURNING value`. The successor of
the last 64-bit integer is no integer, which decoding the row finds. -/
def increment : Option (Database × Nat) :=
  match db.counters counter with
  | none => none
  | some value =>
    if value + 1 < 2 ^ 63 then
      some ({ db with counters := Function.update db.counters counter (some (value + 1)) },
        value + 1)
    else none

def saveResult (value : Nat) : Database :=
  match db.operations (counter, operation) with
  | none => db
  | some _ =>
    { db with operations := Function.update db.operations (counter, operation) (some (some value)) }

def savedResult : Except StoreError Nat :=
  match db.operations (counter, operation) with
  | none => .error .unavailable
  | some none => .error .invalidRequest
  | some (some value) => .ok value

def readCounter : Nat := (db.counters counter).getD 0

end Statements

end Database

/-- A call of `increment_counter` between two of its statements. The database of
a stage is what its transaction sees. -/
inductive Stage where
  | received
  | begun (db : Database)
  | ensured (db : Database)
  | reserved (db : Database) (fresh : Bool)
  | incremented (db : Database) (value : Nat)
  | valued (db : Database) (value : Nat)
  | committed (value : Nat)
  | answered (result : Except StoreError Nat)
  | dropped

namespace Stage

def isOpen : Stage → Bool
  | .begun _ | .ensured _ | .reserved _ _ | .incremented _ _ | .valued _ _ => true
  | .received | .committed _ | .answered _ | .dropped => false

def isOver : Stage → Bool
  | .answered _ | .dropped => true
  | .received | .begun _ | .ensured _ | .reserved _ _ |
      .incremented _ _ | .valued _ _ | .committed _ => false

end Stage

structure Call where
  counter : CounterId
  operation : OperationId
  stage : Stage

namespace Call

def isValid (call : Call) : Bool :=
  validateIdentifier call.counter && validateIdentifier call.operation

def advance (call : Call) (db : Database) (free : Bool) : Option (Database × Stage) :=
  match call.stage with
  | .received =>
    if !call.isValid then some (db, .answered (.error .invalidRequest))
    else if free then some (db, .begun db)
    else none
  | .begun w => some (db, .ensured (w.insertCounter call.counter))
  | .ensured w =>
    let (w, fresh) := w.reserve call.counter call.operation
    some (db, .reserved w fresh)
  | .reserved w true =>
    match w.increment call.counter with
    | some (w, value) => some (db, .incremented w value)
    | none => some (db, .answered (.error .unavailable))
  | .reserved w false =>
    match w.savedResult call.counter call.operation with
    | .ok value => some (db, .valued w value)
    | .error e => some (db, .answered (.error e))
  | .incremented w value =>
    some (db, .valued (w.saveResult call.counter call.operation value) value)
  | .valued w value =>
    -- The foreign key is checked now.
    if (w.counters call.counter).isSome then some (w, .committed value)
    else some (db, .answered (.error .unavailable))
  | .committed value => some (db, .answered (.ok value))
  | .answered _ | .dropped => none

/-- A database error ends a call that has passed its checks, also one whose
commit took effect. An open transaction is rolled back. -/
def fail (call : Call) : Option Stage :=
  if call.isValid && !call.stage.isOver then some (.answered (.error .unavailable)) else none

def drop (call : Call) : Option Stage := if call.stage.isOver then none else some .dropped

end Call

structure State where
  db : Database
  calls : List Call

inductive Event where
  | requested (counter : CounterId) (operation : OperationId)
  | counted (counter : CounterId) (operation : OperationId)
  | answered (counter : CounterId) (operation : OperationId) (result : Except StoreError Nat)
  | read (counter : CounterId) (result : Except StoreError Nat)
  | quiet

def Call.event (call : Call) (db : Database) : Stage → Event
  | .committed _ =>
    if (db.operations (call.counter, call.operation)).isNone then
      .counted call.counter call.operation else .quiet
  | .answered result => .answered call.counter call.operation result
  | _ => .quiet

namespace State

def start : State := ⟨.empty, []⟩

def free (s : State) : Bool := s.calls.all fun call => !call.stage.isOpen

def setStage (s : State) (i : Nat) (call : Call) (stage : Stage) : List Call :=
  s.calls.set i { call with stage := stage }

end State

/-- The steps of a store: requests arrive, the calls advance, fail or are
dropped in any order, and counters are read, which takes the free connection or
comes to an error. -/
inductive Step : State → Event → State → Prop
  | arrive {s : State} (counter : CounterId) (operation : OperationId) :
    Step s (.requested counter operation) ⟨s.db, s.calls ++ [⟨counter, operation, .received⟩]⟩
  | advance {s : State} {i : Nat} {call : Call} {db : Database}
      {stage : Stage} (hcall : s.calls[i]? = some call)
    (h : call.advance s.db s.free = some (db, stage)) :
    Step s (call.event s.db stage) ⟨db, s.setStage i call stage⟩
  | fail {s : State} {i : Nat} {call : Call} {stage : Stage} (hcall : s.calls[i]? = some call)
    (h : call.fail = some stage) : Step s (call.event s.db stage) ⟨s.db, s.setStage i call stage⟩
  | drop {s : State} {i : Nat} {call : Call} {stage : Stage} (hcall : s.calls[i]? = some call)
    (h : call.drop = some stage) : Step s (call.event s.db stage) ⟨s.db, s.setStage i call stage⟩
  | read {s : State} (counter : CounterId) (hvalid : validateIdentifier counter = true)
      (hfree : s.free = true) :
    Step s (.read counter (.ok (s.db.readCounter counter))) s
  | readInvalid {s : State} (counter : CounterId) (hinvalid : validateIdentifier counter = false) :
    Step s (.read counter (.error .invalidRequest)) s
  | readFailed {s : State} (counter : CounterId) (hvalid : validateIdentifier counter = true) :
    Step s (.read counter (.error .unavailable)) s

def store : System State Event where
  init s := s = .start
  step := Step

end LeptosWasi.CounterStore
