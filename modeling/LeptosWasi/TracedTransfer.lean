import LeptosWasi.ResponseTransfer
import LeptosWasi.Trace

namespace LeptosWasi.TracedTransfer

open Http LeptosWasi.Core Render Pollables ResponseTransfer Trace

def internalServerError : StatusCode := ⟨500, by decide⟩

/-- A write that the host took and that was not empty. -/
def wrote : HostCall → Bool
  | .write bytes (.ok ()) => !bytes.isEmpty
  | _ => false

def markWrites (trace : RequestTraceState) (elapsed : Nat) (calls : List HostCall) :
    RequestTraceState :=
  if calls.any wrote then trace.markFirstByte elapsed else trace

def isCancellation : HandlerError → Bool
  | .wasiStream .closed | .executor .pollableCanceled | .executor .runUntilCanceled => true
  | _ => false

def transferErrorClass : HandlerError → String
  | .responseStream _ => "response_stream"
  | .wasiStream _ => "wasi_stream"
  | .executor _ => "executor"
  | _ => "response_transfer"

def traceFinish (trace : RequestTraceState) (elapsed : Nat)
    (status : StatusCode) (responseBytes : Nat)
    (transfer : Except HandlerError Unit) (finish : Except ErrorCode Unit) :
    Option CompletionEvent :=
  match transfer with
  | .error e =>
    (trace.finish elapsed status responseBytes (isCancellation e) (transferErrorClass e)).2
  | .ok () =>
    match finish with
    | .ok () => (trace.finish elapsed status responseBytes false "none").2
    | .error _ => (trace.finish elapsed status responseBytes false "response_finish").2

/-- `handle_with_context` of a built handler with the trace of its request. -/
inductive TracedSender where
  | rendering (handler : Handler) (app : App)
  | transfer (point : Transfer) (responseBytes : Nat)
      (status : StatusCode) (trace : RequestTraceState)
  | ended (outcome : Outcome)

structure TracedLabel where
  label : Label
  elapsed : Nat
  event : Option CompletionEvent

section

variable (crates : Crates) (host : FreshResponse)

def requestTrace (core : HandlerCore) : RequestTraceState :=
  (RequestTrace.new crates core "p2").state

inductive TracedSender.Step : TracedSender → TracedLabel → TracedSender → Prop
  | dropRendering {handler app} (elapsed : Nat) :
      Step (.rendering handler app) ⟨⟨none, handler.responseOut.drop host⟩, elapsed, none⟩
        (.ended .dropped)
  | noOutparam {handler app} (elapsed : Nat) (h : handler.responseOut.take.1 = none) :
      Step (.rendering handler app) ⟨⟨none, []⟩, elapsed, none⟩
        (.ended (.returned (.error (.outgoingResponse "response out-parameter"))))
  | prepared {handler app out outgoing calls} (elapsed : Nat) (setup : Preparation)
      (h : handler.responseOut.take.1 = some out)
      (hp : prepare (render crates app handler.core).1 setup = (calls, .ok outgoing)) :
      Step (.rendering handler app)
        ⟨⟨some (.prepared (render crates app handler.core).1), calls ++ [.set out outgoing]⟩,
          elapsed, none⟩
        (.transfer (.start (render crates app handler.core).1.body) 0
          (render crates app handler.core).1.status
          (requestTrace crates handler.core))
  | unprepared {handler app out error calls} (elapsed : Nat) (setup : Preparation)
      (h : handler.responseOut.take.1 = some out)
      (hp : prepare (render crates app handler.core).1 setup = (calls, .error error)) :
      Step (.rendering handler app)
        ⟨⟨none, calls ++ sendInternalError host out⟩, elapsed,
          ((requestTrace crates handler.core).finish
            elapsed internalServerError 0 false "response_setup").2⟩
        (.ended (.returned (.error error)))
  | transfer {point n calls point' n' status trace}
      (elapsed : Nat) (h : Transfer.Step point n calls point' n') :
      Step (.transfer point n status trace) ⟨⟨none, calls⟩, elapsed, none⟩
        (.transfer point' n' status (markWrites trace elapsed calls))
  | dropTransfer {point n status trace} (elapsed : Nat) (h : point.Awaits) :
      Step (.transfer point n status trace) ⟨⟨none, [.dropOutput]⟩, elapsed, none⟩ (.ended .dropped)
  | close {result n status trace} (elapsed : Nat) :
      Step (.transfer (.complete result) n status trace) ⟨⟨none, [.dropOutput]⟩, elapsed, none⟩
        (.transfer (.closed result) n status trace)
  | finish {result n status trace} (elapsed : Nat) (finish : Except ErrorCode Unit) :
      Step (.transfer (.closed result) n status trace)
        ⟨⟨none, [.finish]⟩, elapsed, traceFinish trace elapsed status n result finish⟩
        (.ended (.returned (finishResult result finish)))

def TracedSender.erase : TracedSender → Sender
  | .rendering handler app => .rendering handler app
  | .transfer point responseBytes _ _ => .transfer point responseBytes
  | .ended outcome => .ended outcome

def tracedSystem (core : HandlerCore) (app : App) (out : ResponseOutparam) :
    System TracedSender TracedLabel where
  init s := s = .rendering ⟨core, .new out⟩ app
  step := TracedSender.Step crates host

end

end LeptosWasi.TracedTransfer
