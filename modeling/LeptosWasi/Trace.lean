import LeptosWasi.Core

namespace LeptosWasi.Trace

open Http Routes LeptosWasi.Core

def routeClassName : RouteClass → String
  | .static => "static"
  | .requestPolicy => "request_policy"

def ssrModeName : SsrMode → String
  | .async => "async"
  | .inOrder => "in_order"
  | .partiallyBlocked => "partially_blocked"
  | .outOfOrder => "out_of_order"
  | .static => "static"

/-- The counters of a request. The first byte is stored one microsecond late,
so that zero means none. -/
structure RequestTraceState where
  firstByteMicros : Nat
  finished : Bool
deriving DecidableEq

structure RequestTrace where
  preview : String
  method : Method
  path : Bytes
  routeClass : String
  ssrMode : String
  requestId : Bytes
  requestBytes : Nat
  state : RequestTraceState
deriving DecidableEq

structure CompletionEvent where
  status : StatusCode
  responseBytes : Nat
  duration : Nat
  firstByte : Option Nat
  cancellation : Bool
  errorClass : String
deriving DecidableEq

def isAsciiGraphic (b : UInt8) : Bool := decide (33 ≤ b ∧ b ≤ 126)

def acceptedRequestId (headers : HeaderMap) : Bytes :=
  (((headers.get .xRequestId).bind HeaderValue.toStr).filter fun value =>
    decide (value.length ≤ 128) && value.all fun b => isAsciiGraphic b || b == 32).getD []

section

variable (crates : Crates)

def tracePath (core : HandlerCore) : Bytes := core.tracePath.getD core.req.uri.path

def RequestTrace.new (core : HandlerCore) (preview : String) : RequestTrace :=
  let path := tracePath core
  let bestMatch := crates.bestMatch core.ssrRouter path
  let routeClass := match core.selection with
    | .serverFn _ => "server_fn"
    | .preset _ routeClass => routeClassName routeClass
    | .notFound => "not_found"
    | .unclaimed => if bestMatch.isNone then "not_found" else "ssr"
  let ssrMode := if routeClass = "ssr"
    then bestMatch.elim "none" fun matched => ssrModeName matched.mode
    else "none"
  { preview := preview
    method := core.req.method
    path := path
    routeClass := routeClass
    ssrMode := ssrMode
    requestId := acceptedRequestId core.req.headers
    requestBytes := core.req.body.length
    state := ⟨0, false⟩ }

end

namespace RequestTraceState

def u64Max : Nat := 2 ^ 64 - 1

def saturatingAdd (a b : Nat) : Nat := min (a + b) u64Max

/-- Remembers when the first byte was sent, once. -/
def markFirstByte (s : RequestTraceState) (elapsed : Nat) : RequestTraceState :=
  if s.firstByteMicros ≠ 0 then s
  else
    let micros := if elapsed ≤ u64Max then elapsed else u64Max - 1
    { s with firstByteMicros := saturatingAdd micros 1 }

def finish (s : RequestTraceState) (elapsed : Nat) (status : StatusCode) (responseBytes : Nat)
    (cancellation : Bool) (errorClass : String) : RequestTraceState × Option CompletionEvent :=
  if s.finished then (s, none)
  else
    let firstByte := if s.firstByteMicros = 0 then none else some (s.firstByteMicros - 1)
    ({ s with finished := true },
      some ⟨status, responseBytes, elapsed, firstByte, cancellation, errorClass⟩)

end RequestTraceState

end LeptosWasi.Trace
