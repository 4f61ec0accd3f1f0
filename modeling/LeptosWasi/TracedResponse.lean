import LeptosWasi.Library.Runs
import LeptosWasi.Render
import LeptosWasi.Trace

namespace LeptosWasi.TracedResponse

open Http LeptosWasi.Core Render Trace

inductive Frame where
  | data (bytes : Bytes)
  | trailers (headers : HeaderMap)

inductive PollFrame (E : Type) where
  | pending
  | frame (frame : Frame)
  | error (error : E)
  | ended

structure HttpBody (B E : Type) where
  pollFrame : B → B × PollFrame E
  isEndStream : B → Bool

/-- A response body as Preview 3 sends it, and at which of its next polls its
stream is pending. -/
structure ResponseBody where
  body : Body
  pending : List Bool

def responseBody : HttpBody ResponseBody BodyError where
  pollFrame b :=
    match b.body with
    | .sync [] => (b, .ended)
    | .sync bytes => ({ b with body := .sync [] }, .frame (.data bytes))
    | .async items =>
      if b.pending.headD false then ({ b with pending := b.pending.tail }, .pending)
      else
        match items with
        | [] => ({ b with pending := b.pending.tail }, .ended)
        | .ok bytes :: rest => (⟨.async rest, b.pending.tail⟩, .frame (.data bytes))
        | .error e :: rest => (⟨.async rest, b.pending.tail⟩, .error e)
  isEndStream b :=
    match b.body with
    | .sync bytes => bytes.isEmpty
    | .async _ => false

structure TraceBody (B : Type) where
  inner : B
  trace : RequestTraceState
  status : StatusCode
  responseBytes : Nat

namespace TraceBody

variable {B E : Type}

def new (inner : B) (trace : RequestTraceState) (status : StatusCode) : TraceBody B :=
  ⟨inner, trace, status, 0⟩

def traceFinish (t : TraceBody B) (elapsed : Nat) (cancellation : Bool) (errorClass : String) :
    TraceBody B × Option CompletionEvent :=
  let (trace, event) := t.trace.finish elapsed t.status t.responseBytes cancellation errorClass
  ({ t with trace := trace }, event)

def count (t : TraceBody B) (elapsed : Nat) : Frame → TraceBody B
  | .data bytes =>
    if bytes.length ≠ 0 then
      { t with
        trace := t.trace.markFirstByte elapsed
        responseBytes := RequestTraceState.saturatingAdd t.responseBytes bytes.length }
    else t
  | .trailers _ => t

def pollFrame (body : HttpBody B E) (t : TraceBody B) (elapsed : Nat) :
    TraceBody B × PollFrame E × Option CompletionEvent :=
  let (inner, poll) := body.pollFrame t.inner
  let t := { t with inner := inner }
  match poll with
  | .frame frame => (t.count elapsed frame, .frame frame, none)
  | .error error =>
    let (t, event) := t.traceFinish elapsed false "response_stream"
    (t, .error error, event)
  | .ended =>
    let (t, event) := t.traceFinish elapsed false "none"
    (t, .ended, event)
  | .pending => (t, .pending, none)

def drop (t : TraceBody B) (elapsed : Nat) : Option CompletionEvent :=
  (t.traceFinish elapsed true "body_dropped").2

end TraceBody

def tracedResponse (crates : Crates) (app : App) (core : HandlerCore) (pending : List Bool) :
    TraceBody ResponseBody :=
  let trace := RequestTrace.new crates core "p3"
  let response := (render crates app core).1
  TraceBody.new ⟨response.body, pending⟩ trace.state response.status

structure TracedHttpResponse where
  status : StatusCode
  headers : HeaderMap
  body : TraceBody ResponseBody

/-- `handle_with_context` of Preview 3, up to the conversion by the host. -/
def handleWithContext (crates : Crates) (app : App) (core : HandlerCore) (pending : List Bool) :
    TracedHttpResponse :=
  let response := (render crates app core).1
  ⟨response.status, response.headers, tracedResponse crates app core pending⟩

structure Session (B E : Type) where
  body : TraceBody B
  results : List (PollFrame E)
  events : List CompletionEvent

namespace Session

variable {B E : Type}

def start (body : TraceBody B) : Session B E := ⟨body, [], []⟩

def poll (body : HttpBody B E) (s : Session B E) (elapsed : Nat) : Session B E :=
  let (t, result, event) := s.body.pollFrame body elapsed
  ⟨t, s.results ++ [result], s.events ++ event.toList⟩

def dropped (s : Session B E) (elapsed : Nat) : List CompletionEvent :=
  s.events ++ (s.body.drop elapsed).toList

end Session

def PollFrame.closes {E : Type} : PollFrame E → Bool
  | .error _ | .ended => true
  | .pending | .frame _ => false

/-- A consumer that obeys the contract of `http_body::Body`. It may stop after
any poll. -/
def consumer {B E : Type} (body : HttpBody B E) (start : TraceBody B) :
    System (Session B E) Nat where
  init s := s = .start start
  step s elapsed s' := (∀ r ∈ s.results, r.closes = false) ∧ s' = s.poll body elapsed

end LeptosWasi.TracedResponse
