import LeptosWasi.Policy

namespace LeptosWasi.Request

open Http Policy

inductive RequestError where
  | http
  | wasiIo
  | bodyTooLarge (limit : Nat)
  | bodyReadTimeout (nanoseconds : Nat)
  | bodyAlreadyConsumed
  | bodyStreamUnavailable
  | invalidHeaders
  | policy (error : RequestPolicyError)
deriving DecidableEq

def RequestError.clientStatus : RequestError → Option StatusCode
  | .http | .wasiIo => some .badRequest
  | .bodyAlreadyConsumed | .bodyStreamUnavailable | .bodyTooLarge _ | .bodyReadTimeout _
  | .invalidHeaders | .policy _ => none

inductive StreamRead where
  | data (bytes : Bytes)
  | closed
  | lastOperationFailed
deriving DecidableEq

/-- What the host reports in one iteration of the read loop: whether the timer
is ready, what a read gives, and whether the poll after it names the timer. -/
structure Iteration where
  expired : Bool
  read : StreamRead
  polledTimer : Bool
deriving DecidableEq

structure IncomingBody where
  consumable : Bool
  streamable : Bool
  iterations : List Iteration

structure ReadState where
  body : Bytes
  consecutiveEmpty : Nat
deriving DecidableEq

def ReadState.initial : ReadState := ⟨[], 0⟩

def emptyBodyReadCap : Nat := 64

def noteEmptyBodyRead (s : ReadState) : Except RequestError ReadState :=
  if emptyBodyReadCap ≤ s.consecutiveEmpty + 1 then .error .bodyStreamUnavailable
  else .ok { s with consecutiveEmpty := s.consecutiveEmpty + 1 }

def resetEmptyBodyReads (s : ReadState) : ReadState := { s with consecutiveEmpty := 0 }

inductive LoopStep where
  | again (s : ReadState)
  | done (collected : Except RequestError Bytes)
deriving DecidableEq

def readStep (maxBodySize : Nat) (s : ReadState) : StreamRead → LoopStep
  | .closed => .done (.ok s.body)
  | .lastOperationFailed => .done (.error .wasiIo)
  | .data bytes =>
    let s := resetEmptyBodyReads s
    if maxBodySize < s.body.length + bytes.length then .done (.error (.bodyTooLarge maxBodySize))
    else .again { s with body := s.body ++ bytes }

def loopStep (maxBodySize : Nat) (timeoutNs : Option Nat)
    (s : ReadState) (host : Iteration) : LoopStep :=
  match timeoutNs with
  | none => readStep maxBodySize s host.read
  | some nanoseconds =>
    if host.expired then .done (.error (.bodyReadTimeout nanoseconds))
    else if host.read = .data [] then
      match noteEmptyBodyRead s with
      | .error e => .done (.error e)
      | .ok s =>
        if host.polledTimer then .done (.error (.bodyReadTimeout nanoseconds)) else .again s
    else readStep maxBodySize s host.read

/-- The read loop. It is still running when the host has no more to report. -/
def readLoop (maxBodySize : Nat) (timeoutNs : Option Nat) :
    ReadState → List Iteration → Option (Except RequestError Bytes)
  | _, [] => none
  | s, host :: rest =>
    match loopStep maxBodySize timeoutNs s host with
    | .done collected => some collected
    | .again s => readLoop maxBodySize timeoutNs s rest

def declaredLengthMatches (declared : Option Nat) (actual : Nat) : Bool := declared.all (· = actual)

def checkDeclared (declared : Option Nat) (collected : Except RequestError Bytes) :
    Except RequestError Bytes := do
  let body ← collected
  if declaredLengthMatches declared body.length then return body
  throw (.policy .invalidContentLength)

/-- Collect the body of a request whose head is already converted. -/
def collectWasiBody (method : Method) (headers : HeaderMap)
    (body : IncomingBody) (maxBodySize : Nat)
    (timeoutNs : Option Nat) : Option (Except RequestError Bytes) :=
  match validateContentLength headers maxBodySize with
  | .error e => some (.error (.policy e))
  | .ok declared =>
    if method = .get ∨ method = .head then some (.ok [])
    else if !body.consumable then some (.error .bodyAlreadyConsumed)
    else if !body.streamable then some (.error .bodyStreamUnavailable)
    else (readLoop maxBodySize timeoutNs .initial body.iterations).map (checkDeclared declared)

theorem readStep_data (maxBodySize : Nat) (s : ReadState) (bytes : Bytes) :
    readStep maxBodySize s (.data bytes) =
      if maxBodySize < s.body.length + bytes.length then .done (.error (.bodyTooLarge maxBodySize))
      else .again ⟨s.body ++ bytes, 0⟩ := rfl

theorem readLoop_closed (maxBodySize : Nat) (chunks : List Bytes) (iterations : List Iteration)
    (hread : iterations.map Iteration.read = chunks.map StreamRead.data ++ [.closed])
    (s : ReadState)
    (hs : s.body.length ≤ maxBodySize) :
    readLoop maxBodySize none s iterations =
      some (if maxBodySize < s.body.length + chunks.flatten.length
        then .error (.bodyTooLarge maxBodySize)
        else .ok (s.body ++ chunks.flatten)) := by
  induction chunks generalizing iterations s with
  | nil =>
    obtain ⟨host, rest, rfl, hh, -⟩ := List.map_eq_cons_iff.mp hread
    have hn : ¬ maxBodySize < s.body.length := by omega
    simp [readLoop, loopStep, hh, readStep, hn]
  | cons chunk chunks ih =>
    obtain ⟨host, rest, rfl, hh, hrest⟩ := List.map_eq_cons_iff.mp hread
    simp only [readLoop, loopStep, hh, readStep_data]
    by_cases hlen : maxBodySize < s.body.length + chunk.length
    · have hall : maxBodySize < s.body.length + (chunk :: chunks).flatten.length := by
        rw [List.flatten_cons, List.length_append]
        omega
      rw [if_pos hlen, if_pos hall]
    · rw [if_neg hlen]
      simp only
      rw [ih rest hrest ⟨s.body ++ chunk, 0⟩ (by rw [List.length_append]; omega)]
      simp only [List.length_append, List.flatten_cons, List.append_assoc, Nat.add_assoc]

theorem collectWasiBody_closed {method : Method} (hget : method ≠ .get) (hhead : method ≠ .head)
    (headers : HeaderMap) (maxBodySize : Nat) (chunks : List Bytes) (iterations : List Iteration)
    (hread : iterations.map Iteration.read = chunks.map StreamRead.data ++ [.closed]) :
    collectWasiBody method headers ⟨true, true, iterations⟩ maxBodySize none = some
      (match validateContentLength headers maxBodySize with
      | .error e => .error (.policy e)
      | .ok declared =>
        if maxBodySize < chunks.flatten.length then .error (.bodyTooLarge maxBodySize)
        else if declaredLengthMatches declared chunks.flatten.length then .ok chunks.flatten
        else .error (.policy .invalidContentLength)) := by
  rw [collectWasiBody]
  cases validateContentLength headers maxBodySize with
  | error e => rfl
  | ok declared =>
    have hloop := readLoop_closed maxBodySize chunks iterations hread .initial (Nat.zero_le _)
    simp only [ReadState.initial, List.length_nil, Nat.zero_add, List.nil_append] at hloop
    simp only [hget, hhead, or_self, if_false, Bool.not_true,
      Bool.false_eq_true, ReadState.initial, hloop,
      Option.map_some]
    by_cases hlimit : maxBodySize < chunks.flatten.length
    · rw [if_pos hlimit, if_pos hlimit]
      rfl
    · rw [if_neg hlimit, if_neg hlimit]
      cases hd : declaredLengthMatches declared chunks.flatten.length <;>
        simp only [checkDeclared, hd, bind, Except.bind, if_true, Bool.false_eq_true, if_false] <;>
          rfl

end LeptosWasi.Request
