import Mathlib.Logic.Function.Basic
import LeptosWasi.TrustedIngress

namespace LeptosWasi.TrustedIngress

open Http Admission

variable {A C : Type}

/-- What a request has passed: its identity, the decision on its origin and the
headers it goes on with. -/
structure Passed where
  id : Bytes
  cors : Option CorsDecision
  headers : HeaderMap

/-- Where `handle` is, and then the body that it returned. -/
inductive Stage (A : Type) where
  | identify
  | route (id : Bytes)
  | policy (id : Bytes)
  | broker (passed : Passed) (authorization : Bytes)
  | authenticating (passed : Passed)
  | authenticated (passed : Passed) (result : Except Rejection A)
  | select (passed : Passed)
  | terminal (passed : Passed) (index : Nat)
  | sending (passed : Passed) (index : Nat)
  | body (index : Nat)
  | leaving (response : Option ResponseHead)
  | finished

structure Shared where
  activeRequests : Nat
  overloadRejections : Nat
  errors : ErrorClass → Nat
  requestIds : Nat
  terminalCursor : Nat

namespace Shared

def start : Shared := ⟨0, 0, fun _ => 0, 1, 0⟩

def error (m : Shared) (errorClass : ErrorClass) : Shared :=
  { m with errors := Function.update m.errors errorClass (m.errors errorClass + 1) }

def overload (m : Shared) : Shared :=
  { m with overloadRejections := m.overloadRejections + 1 }.error .overload

end Shared

inductive Reply (R : Type) where
  | answered (response : R)
  | failed
  | timedOut

inductive Output where
  | asked (request : Request)
  | answered (reply : Reply (StatusCode × Bytes))
  | sent (index : Nat) (request : Request)
  | responded (response : ResponseHead)
  | disconnected

namespace Ingress

variable (ingress : Ingress A C)

def identify (m : Shared) (request : Request) : Shared × Stage A :=
  let generated : Shared × Stage A :=
    ({ m with requestIds := (m.requestIds + 1) % 2 ^ 64 },
      .route (ingress.generatedId m.requestIds))
  if ingress.profile = .proxyBaseline then generated
  else
    match ingress.crates.canonicalize request.headers with
    | some (some id) => (m, .route id)
    | some none => generated
    | none => (m.error .protocol, .leaving (some (ingress.reject .unavailable none none)))

def rejected (passed : Passed) (rejection : Rejection) : Stage A :=
  .leaving (some (ingress.reject rejection (some passed.id)
    (passed.cors.map CorsDecision.responseHeaders)))

def promoted (passed : Passed) : Except Rejection A → Stage A
  | .error rejection => ingress.rejected passed rejection
  | .ok context =>
    match ingress.installTrustedHeaders passed.headers context passed.id with
    | some headers => .select { passed with headers := headers.remove host }
    | none => ingress.rejected passed .unavailable

def policy (request : Request) (id : Bytes) : Stage A :=
  match ingress.evaluateCors request with
  | .error rejection => .leaving (some (ingress.reject rejection (some id) none))
  | .ok cors =>
    let passed : Passed :=
      ⟨id, cors, ingress.crates.stripReservedAuthHeaders (request.headers.remove authorization)⟩
    match cors.bind CorsDecision.status, ingress.crates.authorizationValue request.headers with
    | some status, _ =>
      .leaving (some ⟨status, ingress.finishResponseHeaders
        (cors.elim ∅ fun cors => mergeHeaders ∅ cors.responseHeaders) id⟩)
    | none, none => ingress.rejected passed .invalidRequest
    | none, some value =>
      match ingress.profile, value with
      | .edgeAuthenticated, some value => .broker passed value
      | _, _ => ingress.promoted passed ingress.anonymousContext

def askBroker (m : Shared) (passed : Passed) (value : Bytes) : Shared × Stage A × List Output :=
  match ingress.crates.authnRequest passed.id with
  | none => (m.error .authnContract, .authenticated passed (.error .unavailable), [])
  | some body =>
    match ingress.brokerRequest value passed.id body with
    | none => (m.error .authnTransport, .authenticated passed (.error .unavailable), [])
    | some request => (m, .authenticating passed, [.asked request])

def brokerResult (m : Shared) : Reply (StatusCode × Bytes) → Shared × Except Rejection A
  | .failed => (m.error .authnTransport, .error .unavailable)
  | .timedOut => (m.error .authnTimeout, .error .unavailable)
  | .answered (status, body) =>
    match ingress.crates.parseAuthnResponse status body with
    | .unauthenticated => (m, .error .unauthenticated)
    | .unavailable => (m.error .authnContract, .error .unavailable)
    | .allow claims =>
      match ingress.crates.intoContext claims with
      | some context => (m, .ok context)
      | none => (m.error .authnContract, .error .unavailable)

def select (m : Shared) (passed : Passed) (loads : List (Bool × Nat)) : Shared × Stage A :=
  match selectTerminal loads m.terminalCursor with
  | some index =>
    ({ m with terminalCursor := (m.terminalCursor + 1) % 2 ^ 64 }, .terminal passed index)
  | none => (m.error .terminalTransport, ingress.rejected passed .unavailable)

def send (request : Request) (passed : Passed) (index : Nat) : Stage A × List Output :=
  match ingress.terminals[index]?.bind fun origin => ingress.downstreamUri origin request.uri with
  | some uri =>
    (.sending passed index, [.sent index { request with uri := uri, headers := passed.headers }])
  | none => (ingress.rejected passed .invalidRequest, [])

def terminalReply (m : Shared) (passed : Passed) (index : Nat) :
    Reply ResponseHead → Shared × Stage A × List Output
  | .failed => (m.error .terminalTransport, ingress.rejected passed .unavailable, [])
  | .timedOut => (m.error .terminalTimeout, ingress.rejected passed .unavailable, [])
  | .answered response =>
    let headers := ingress.crates.stripReservedAuthHeaders response.headers
    let headers := passed.cors.elim headers fun cors => mergeHeaders headers cors.responseHeaders
    (m, .body index,
      [.responded ⟨response.status, ingress.finishResponseHeaders headers passed.id⟩])

def wants (request : Request) : Stage A → Option GateId
  | .route _ => some (.route (ingress.routeClass request.uri.path))
  | .broker _ _ => some .broker
  | .terminal _ index => some (.terminal index)
  | _ => none

def leased (m : Shared) (request : Request) : Stage A → Shared × Stage A × List Output
  | .route id => (m, .policy id, [])
  | .broker passed value => ingress.askBroker m passed value
  | .terminal passed index => (m, ingress.send request passed index)
  | stage => (m, stage, [])

def refused : Stage A → Stage A
  | .route id => .leaving (some (ingress.reject .overloaded (some id) none))
  | .broker passed _ | .terminal passed _ => ingress.rejected passed .overloaded
  | stage => stage

def released : Stage A → Stage A
  | .authenticated passed result => ingress.promoted passed result
  | stage => stage

end Ingress

def Stage.releases : Stage A → Bool
  | .authenticated _ _ | .leaving _ => true
  | _ => false

def Stage.awaits : Stage A → Bool
  | .authenticating _ | .sending _ _ => true
  | _ => false

/-- A caller of a gate. -/
structure Ticket where
  gate : GateId
  caller : Nat
deriving DecidableEq

/-- A request with its leases, the one to be dropped first at the front, the
lease it acquires and its `RequestGuard`. -/
structure Call (A : Type) where
  request : Request
  stage : Stage A
  held : List Ticket
  acquiring : Option Ticket
  guarded : Bool

structure State (A : Type) where
  gates : GateId → Admission.State
  shared : Shared
  calls : List (Call A)

namespace State

def setGate (s : State A) (g : GateId) (gate : Admission.State) : State A :=
  { s with gates := Function.update s.gates g gate }

def setCall (s : State A) (i : Nat) (c : Call A) : State A := { s with calls := s.calls.set i c }

def caller (s : State A) (t : Ticket) : Option Caller := (s.gates t.gate).callers[t.caller]?

end State

/-- What happens between two accesses to a gate. The loads of `select_terminal`
are those of some moments before. -/
inductive Local (ingress : Ingress A C) :
    Shared → Stage A → Request → List Output → Shared → Stage A → Prop
  | identify {m : Shared} {request : Request} :
    Local ingress m .identify request [] (ingress.identify m request).1
      (ingress.identify m request).2
  | policy {m : Shared} {request : Request} {id : Bytes} :
    Local ingress m (.policy id) request [] m (ingress.policy request id)
  | answered {m : Shared} {request : Request} {passed : Passed}
      (reply : Reply (StatusCode × Bytes)) :
    Local ingress m (.authenticating passed) request
      [.answered reply] (ingress.brokerResult m reply).1
      (.authenticated passed (ingress.brokerResult m reply).2)
  | select {m : Shared} {request : Request} {passed : Passed} (loads : List (Bool × Nat))
      (h : loads.length = ingress.terminals.length) :
    Local ingress m (.select passed) request [] (ingress.select m passed loads).1
      (ingress.select m passed loads).2
  | replied {m : Shared} {request : Request} {passed : Passed}
      {index : Nat} (reply : Reply ResponseHead) :
    Local ingress m (.sending passed index) request (ingress.terminalReply m passed index reply).2.2
      (ingress.terminalReply m passed index reply).1
      (ingress.terminalReply m passed index reply).2.1

inductive Event where
  | arrived (call : Nat) (request : Request)
  | output (call : Nat) (output : Output)

/-- One access of a request to what requests share, in any order of requests. -/
inductive Step (ingress : Ingress A C) : State A → List Event → State A → Prop
  | arrive {s : State A} (request : Request) :
    Step ingress s [.arrived s.calls.length request]
      ⟨s.gates, { s.shared with activeRequests := s.shared.activeRequests + 1 },
        s.calls ++ [⟨request, .identify, [], none, true⟩]⟩
  | proceed {s : State A} {i : Nat} {c : Call A} {out : List Output} {m : Shared} {stage : Stage A}
      (h : s.calls[i]? = some c) (hl : Local ingress s.shared c.stage c.request out m stage) :
    Step ingress s (out.map (.output i))
      ({ s with shared := m }.setCall i { c with stage := stage })
  | acquire {s : State A} {i : Nat} {c : Call A} {g : GateId} (h : s.calls[i]? = some c)
      (hw : ingress.wants c.request c.stage = some g) (ha : c.acquiring = none) :
    Step ingress s [] ((s.setGate g (s.gates g).arrive).setCall i
      { c with acquiring := some ⟨g, (s.gates g).callers.length⟩ })
  | queue {s : State A} {i : Nat} {c : Call A} {t : Ticket}
      {e : Admission.Event} {gate : Admission.State}
      (h : s.calls[i]? = some c) (ha : c.acquiring = some t)
      (hn : s.caller t ≠ some .leased) (hc : e ≠ .cancel)
      (hm : (s.gates t.gate).apply (.event t.caller e) = some gate) :
    Step ingress s [] (s.setGate t.gate gate)
  | admitted {s : State A} {i : Nat} {c : Call A} {t : Ticket} (h : s.calls[i]? = some c)
      (ha : c.acquiring = some t) (hs : s.caller t = some .leased) :
    Step ingress s ((ingress.leased s.shared c.request c.stage).2.2.map (.output i))
      ({ s with shared := (ingress.leased s.shared c.request c.stage).1 }.setCall i
        ⟨c.request, (ingress.leased s.shared c.request c.stage).2.1, t :: c.held, none, c.guarded⟩)
  | refused {s : State A} {i : Nat} {c : Call A} {t : Ticket} (h : s.calls[i]? = some c)
      (ha : c.acquiring = some t) (hs : s.caller t = some .overloaded) :
    Step ingress s [] ({ s with shared := s.shared.overload }.setCall i
      { c with stage := ingress.refused c.stage, acquiring := none })
  | release {s : State A} {i : Nat} {c : Call A}
      {t : Ticket} {rest : List Ticket} {gate : Admission.State}
      (h : s.calls[i]? = some c) (hr : c.stage.releases = true) (hh : c.held = t :: rest)
      (hm : (s.gates t.gate).apply (.event t.caller .advance) = some gate) :
    Step ingress s [] ((s.setGate t.gate gate).setCall i
      (if gate.callers[t.caller]? = some .dropped
        then { c with stage := ingress.released c.stage, held := rest }
        else c))
  | closed {s : State A} {i index : Nat} {c : Call A}
      (h : s.calls[i]? = some c) (hb : c.stage = .body index) :
    Step ingress s [] (s.setCall i { c with stage := .leaving none, held := c.held.reverse })
  | disconnected {s : State A} {i : Nat} {c : Call A}
      (h : s.calls[i]? = some c) (hw : c.stage.awaits = true) :
    Step ingress s [.output i .disconnected] (s.setCall i { c with stage := .leaving none })
  | canceled {s : State A} {i : Nat} {c : Call A}
      {t : Ticket} {gate : Admission.State} (h : s.calls[i]? = some c)
      (ha : c.acquiring = some t)
      (hm : (s.gates t.gate).apply (.event t.caller .cancel) = some gate) :
    Step ingress s [.output i .disconnected] ((s.setGate t.gate gate).setCall i
      { c with stage := .leaving none, acquiring := none })
  | finish {s : State A} {i : Nat} {c : Call A} {response : Option ResponseHead}
      (h : s.calls[i]? = some c)
      (hl : c.stage = .leaving response) (hh : c.held = []) :
    Step ingress s (response.toList.map fun response => .output i (.responded response))
      ({ s with
          shared := { s.shared with activeRequests := s.shared.activeRequests - 1 } }.setCall i
        { c with stage := .finished, guarded := false })

def State.start (ingress : Ingress A C) : State A :=
  ⟨fun g => .start (ingress.limit g) (ingress.maxQueue g), .start, []⟩

def requests (ingress : Ingress A C) : System (State A) (List Event) where
  init s := s = .start ingress
  step := Step ingress

end LeptosWasi.TrustedIngress
