import Mathlib.Data.List.DropRight
import LeptosWasi.Http
import LeptosWasi.Admission

namespace LeptosWasi.TrustedIngress

open Http Admission

inductive PolicyProfile where
  | proxyBaseline
  | edgeAnonymous
  | edgeAuthenticated
deriving DecidableEq

inductive RouteClass where
  | «public»
  | authnOnly
  | cedar
  | relationship
  | hybrid
deriving DecidableEq

inductive GateId where
  | route (routeClass : RouteClass)
  | broker
  | terminal (index : Nat)
deriving DecidableEq

inductive Rejection where
  | invalidRequest
  | unauthenticated
  | unavailable
  | overloaded
deriving DecidableEq

def Rejection.status : Rejection → StatusCode
  | .invalidRequest => .badRequest
  | .unauthenticated => ⟨401, by decide⟩
  | .unavailable | .overloaded => .serviceUnavailable

inductive ErrorClass where
  | overload
  | authnTimeout
  | authnTransport
  | authnContract
  | terminalTimeout
  | terminalTransport
  | streamTimeout
  | protocol
deriving DecidableEq

structure ResponseHead where
  status : StatusCode
  headers : HeaderMap
deriving DecidableEq

structure CorsDecision where
  status : Option StatusCode
  responseHeaders : HeaderMap

inductive AuthDecision (C : Type) where
  | allow (claims : C)
  | unauthenticated
  | unavailable

/-- What comes from `wasi_http_metadata` and `wasi_http_policy_core` for one
deployment, with nothing for an error, and the parser of `http::Uri`. -/
structure Crates (A C : Type) where
  authContextHeader : HeaderName
  requestIdHeader : HeaderName
  canonicalize : HeaderMap → Option (Option Bytes)
  evaluateCors : Method → HeaderMap → Option CorsDecision
  authorizationValue : HeaderMap → Option (Option Bytes)
  stripReservedAuthHeaders : HeaderMap → HeaderMap
  applySecurityHeaders : HeaderMap → HeaderMap
  anonymous : Option A
  intoContext : C → Option A
  encodeAuthContext : A → Option HeaderValue
  authnRequest : Bytes → Option Bytes
  parseAuthnResponse : StatusCode → Bytes → AuthDecision C
  parseUri : Bytes → Option Uri

structure Ingress (A C : Type) where
  crates : Crates A C
  profile : PolicyProfile
  routePolicy : List (Bytes × RouteClass)
  terminals : List Bytes
  brokerUri : Uri
  processId : Nat
  limit : GateId → Limit
  maxQueue : GateId → Limit

def authorization : HeaderName := "authorization"
def host : HeaderName := "host"
def retryAfter : HeaderName := "retry-after"

def mergeHeaders (target source : HeaderMap) : HeaderMap :=
  source.entries.foldl
    (fun target e => e.2.foldl (fun target value => target.insert e.1 value) target) target

def pathAndQuery (uri : Uri) : Bytes :=
  (if uri.path = [] then [slash] else uri.path) ++ uri.query.elim [] (63 :: ·)

/-- The index that `select_terminal` takes, from what it loads of each terminal,
its flag and its count, and from the cursor. -/
def selectTerminal (loads : List (Bool × Nat)) (cursor : Nat) : Option Nat := do
  let candidates := (loads.zipIdx.filter (·.1.1)).map fun e => (e.2, e.1.2)
  let minimum ← (candidates.map Prod.snd).min?
  let candidates := (candidates.filter (·.2 = minimum)).map Prod.fst
  candidates[cursor % candidates.length]?

namespace Ingress

variable {A C : Type} (ingress : Ingress A C)

def generatedId (count : Nat) : Bytes :=
  text "trusted-ingress-" ++ HeaderValue.fromNat ingress.processId ++
    text "-" ++ HeaderValue.fromNat count

def routeClass (path : Bytes) : RouteClass := (ingress.routePolicy.lookup path).getD .public

def evaluateCors (request : Request) : Except Rejection (Option CorsDecision) :=
  if ingress.profile = .proxyBaseline then .ok none
  else
    match ingress.crates.evaluateCors request.method request.headers with
    | some decision => .ok (some decision)
    | none => .error .invalidRequest

def anonymousContext : Except Rejection A :=
  match ingress.crates.anonymous with
  | some context => .ok context
  | none => .error .unavailable

def finishResponseHeaders (headers : HeaderMap) (requestId : Bytes) : HeaderMap :=
  let headers := ingress.crates.stripReservedAuthHeaders headers
  if ingress.profile = .proxyBaseline then headers
  else
    let headers := ingress.crates.applySecurityHeaders headers
    match HeaderValue.fromStr requestId with
    | some value => headers.insert ingress.crates.requestIdHeader value
    | none => headers

def reject (rejection : Rejection) (requestId : Option Bytes) (cors : Option HeaderMap) :
    ResponseHead :=
  let headers : HeaderMap := (∅ : HeaderMap).insert HeaderName.cacheControl (text "no-store")
  let headers :=
    if rejection = .unauthenticated then headers.insert HeaderName.wwwAuthenticate (text "Bearer")
    else headers
  let headers := if rejection = .overloaded then headers.insert retryAfter (text "1") else headers
  let headers := cors.elim headers (mergeHeaders headers)
  match requestId with
  | some requestId => ⟨rejection.status, ingress.finishResponseHeaders headers requestId⟩
  | none =>
    ⟨rejection.status, if ingress.profile = .proxyBaseline then headers
      else ingress.crates.applySecurityHeaders headers⟩

def installTrustedHeaders (headers : HeaderMap) (context : A) (requestId : Bytes) :
    Option HeaderMap := do
  let headers :=
    headers.insert ingress.crates.authContextHeader (← ingress.crates.encodeAuthContext context)
  if ingress.profile = .proxyBaseline then some headers
  else some (headers.insert ingress.crates.requestIdHeader (← HeaderValue.fromStr requestId))

def brokerRequest (authorizationValue requestId body : Bytes) : Option Request := do
  let headers := (∅ : HeaderMap).append HeaderName.contentType (text "application/json")
  let headers := headers.append authorization (← HeaderValue.fromStr authorizationValue)
  let headers := headers.append ingress.crates.requestIdHeader (← HeaderValue.fromStr requestId)
  some ⟨.post, ingress.brokerUri, headers.remove host, body⟩

def downstreamUri (origin : Bytes) (incoming : Uri) : Option Uri :=
  ingress.crates.parseUri (origin.rdropWhile (· == slash) ++ pathAndQuery incoming)

end Ingress

end LeptosWasi.TrustedIngress
