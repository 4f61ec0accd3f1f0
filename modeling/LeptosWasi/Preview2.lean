import LeptosWasi.Core
import LeptosWasi.Request

namespace LeptosWasi.Preview2

open Http Policy LeptosWasi.Core Request

/-- A host request: its converted head, its method as the host names it and
its body. -/
structure IncomingRequest where
  parts : Except RequestError Http.Request
  method : Method
  body : IncomingBody

def emptyRequest : Http.Request := ⟨.get, pathUri "/", ∅, []⟩

def policyRejection (policy : RequestPolicyError)
    (request : Http.Request) (config : HandlerConfig) :
    HandlerCore :=
  (HandlerCore.new request config).withPreset (policyResponse policy) .requestPolicy

def handlerFromRequestError (error : RequestError)
    (request : Http.Request) (config : HandlerConfig) :
    Except RequestError HandlerCore :=
  match error with
  | .bodyTooLarge _ =>
    .ok (policyRejection (.bodyTooLarge config.maxRequestBodySize) request config)
  | .bodyReadTimeout nanoseconds =>
    .ok (policyRejection (.bodyReadTimeout nanoseconds) request config)
  | .policy policy => .ok (policyRejection policy request config)
  | error =>
    match error.clientStatus with
    | some status =>
      .ok ((HandlerCore.new request config).withPreset
        (plainResponse status (text "invalid request"))
        .requestPolicy)
    | none => .error error

/-- The handler of a request, once the read loop has ended. -/
def buildWithConfig (request : IncomingRequest) (config : HandlerConfig) :
    Option (Except RequestError HandlerCore) :=
  match request.parts with
  | .error e => some (handlerFromRequestError e emptyRequest config)
  | .ok parts =>
    (collectWasiBody request.method parts.headers request.body config.maxRequestBodySize
      config.requestBodyTimeoutNs).map fun collected =>
        match collected with
        | .ok body => .ok (HandlerCore.new { parts with body := body } config)
        | .error e => handlerFromRequestError e { parts with body := [] } config

end LeptosWasi.Preview2
