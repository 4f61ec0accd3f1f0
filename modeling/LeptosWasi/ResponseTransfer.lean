import LeptosWasi.Library.Runs
import LeptosWasi.Pollables
import LeptosWasi.Preview2
import LeptosWasi.Render

namespace LeptosWasi.ResponseTransfer

open Http Policy LeptosWasi.Core Request Preview2 Render Pollables

inductive HeaderError where
  | invalidSyntax
  | forbidden
  | immutable
deriving DecidableEq

inductive StreamError where
  | lastOperationFailed
  | closed
deriving DecidableEq

structure ErrorCode where
  debug : String
deriving DecidableEq

inductive HandlerError where
  | request (error : RequestError)
  | response (error : HeaderError)
  | responseStream (error : BodyError)
  | wasiStream (error : StreamError)
  | wasiResponseBody (code : ErrorCode)
  | outgoingResponse (operation : String)
  | executor (error : ExecutorError)
deriving DecidableEq

abbrev ResponseOutparam := Nat

structure OutgoingResponse where
  status : Nat
  headers : List (HeaderName × HeaderValue)
deriving DecidableEq

/-- The calls on the host that send a response. -/
inductive HostCall where
  | fromList (entries : List (HeaderName × HeaderValue))
  | append (name : HeaderName) (value : HeaderValue)
  | newResponse
  | setStatusCode (status : Nat)
  | body
  | bodyWrite
  | set (out : ResponseOutparam) (response : OutgoingResponse)
  | checkWrite (reply : Except StreamError Nat)
  | write (bytes : Bytes) (reply : Except StreamError Unit)
  | flush (reply : Except StreamError Unit)
  | subscribe
  | blockingWriteAndFlush (bytes : Bytes)
  | dropOutput
  | finish
deriving DecidableEq

section InternalError

structure FreshResponse where
  appendContentType : Bool
  appendNosniff : Bool
  setStatusCode : Bool
  body : Bool
  write : Bool

/-- The host takes what is set first on a response that was just created. -/
structure FreshResponse.Accepts (host : FreshResponse) : Prop where
  setStatusCode : host.setStatusCode = true
  body : host.body = true
  write : host.write = true

def droppedResponseStatus : Nat := 500

def droppedResponseBody : Bytes := text "internal server error"

variable (host : FreshResponse)

def internalErrorResponse : OutgoingResponse where
  status := droppedResponseStatus
  headers :=
    (if host.appendContentType then [(.contentType, text "text/plain; charset=utf-8")] else []) ++
      if host.appendNosniff then [(.xContentTypeOptions, text "nosniff")] else []

/-- The out-parameter is dropped unset when the host refuses a call. -/
def sendInternalError (out : ResponseOutparam) : List HostCall :=
  let built :=
    [.append .contentType (text "text/plain; charset=utf-8"),
      .append .xContentTypeOptions (text "nosniff"),
      .newResponse, .setStatusCode droppedResponseStatus]
  if !host.setStatusCode then built
  else if !host.body then built ++ [.body]
  else if !host.write then built ++ [.body, .bodyWrite]
  else
    built ++ [.body, .bodyWrite, .set out (internalErrorResponse host),
      .blockingWriteAndFlush droppedResponseBody, .dropOutput, .finish]

end InternalError

structure ResponseOutGuard where
  held : Option ResponseOutparam

namespace ResponseOutGuard

def new (out : ResponseOutparam) : ResponseOutGuard := ⟨some out⟩

def take (guard : ResponseOutGuard) : Option ResponseOutparam × ResponseOutGuard :=
  (guard.held, ⟨none⟩)

def drop (host : FreshResponse) (guard : ResponseOutGuard) : List HostCall :=
  match guard.take.1 with
  | some out => sendInternalError host out
  | none => []

end ResponseOutGuard

structure Handler where
  core : HandlerCore
  responseOut : ResponseOutGuard

section Preparation

structure Preparation where
  fromList : Except HeaderError Unit
  setStatusCode : Bool
  body : Bool
  write : Bool

/-- Every value of a name is an entry of its own. -/
def headerEntries (response : Http.Response) : List (HeaderName × HeaderValue) :=
  response.headers.entries.flatMap fun entry => entry.2.map fun value => (entry.1, value)

def outgoingResponse (response : Http.Response) : OutgoingResponse :=
  ⟨response.status.code, headerEntries response⟩

def prepare (response : Http.Response) (host : Preparation) :
    List HostCall × Except HandlerError OutgoingResponse :=
  let entries := headerEntries response
  match host.fromList with
  | .error e => ([.fromList entries], .error (.response e))
  | .ok () =>
    let calls := [.fromList entries, .newResponse, .setStatusCode response.status.code]
    if !host.setStatusCode then (calls, .error (.outgoingResponse "status"))
    else if !host.body then (calls ++ [.body], .error (.outgoingResponse "body"))
    else if !host.write then (calls ++ [.body, .bodyWrite],
      .error (.outgoingResponse "body writer"))
    else (calls ++ [.body, .bodyWrite], .ok (outgoingResponse response))

end Preparation

/-- The point that a transfer has reached. The items are what the stream has
yet to yield, and a buffer has none. -/
inductive Transfer where
  | next (items : List (Except BodyError Bytes))
  | write (bytes : Bytes) (items : Option (List (Except BodyError Bytes)))
  | await (bytes : Bytes) (items : Option (List (Except BodyError Bytes)))
  | flush
  | flushed
  | complete (result : Except HandlerError Unit)
  | closed (result : Except HandlerError Unit)

namespace Transfer

def start : Body → Transfer
  | .sync bytes => .write bytes none
  | .async items => .next items

def Awaits : Transfer → Prop
  | .next _ | .await _ _ | .flushed => True
  | .write _ _ | .flush | .complete _ | .closed _ => False

def usizeMax : Nat := 2 ^ 32 - 1

def writeCount (capacity length : Nat) : Nat :=
  min (if capacity ≤ usizeMax then capacity else usizeMax) length

def saturatingAdd (a b : Nat) : Nat := min (a + b) (2 ^ 64 - 1)

inductive Step : Transfer → Nat → List HostCall → Transfer → Nat → Prop
  | exhausted {n} : Step (.next []) n [] .flush n
  | chunk {bytes items n} : Step (.next (.ok bytes :: items)) n [] (.write bytes (some items)) n
  | streamError {e items n} :
    Step (.next (.error e :: items)) n [] (.complete (.error (.responseStream e))) n
  | bufferWritten {n} : Step (.write [] none) n [] .flush n
  | chunkWritten {items n} : Step (.write [] (some items)) n [] (.next items) n
  | checkFailed {bytes items n} (e : StreamError) (hb : bytes ≠ []) :
      Step (.write bytes items) n [.checkWrite (.error e)] (.complete (.error (.wasiStream e))) n
  | full {bytes items n} (hb : bytes ≠ []) :
      Step (.write bytes items) n [.checkWrite (.ok 0), .subscribe] (.await bytes items) n
  | written {bytes items n} (capacity : Nat) (hb : bytes ≠ []) (hc : capacity ≠ 0) :
      Step (.write bytes items) n
        [.checkWrite (.ok capacity),
          .write (bytes.take (writeCount capacity bytes.length)) (.ok ())]
        (.write (bytes.drop (writeCount capacity bytes.length)) items)
        (saturatingAdd n (writeCount capacity bytes.length))
  | writeFailed {bytes items n} (capacity : Nat)
      (e : StreamError) (hb : bytes ≠ []) (hc : capacity ≠ 0) :
      Step (.write bytes items) n
        [.checkWrite (.ok capacity),
          .write (bytes.take (writeCount capacity bytes.length)) (.error e)]
        (.complete (.error (.wasiStream e))) n
  | awaited {bytes items n} : Step (.await bytes items) n [] (.write bytes items) n
  | awaitFailed {bytes items n} (e : ExecutorError) :
      Step (.await bytes items) n [] (.complete (.error (.executor e))) n
  | flush {n} : Step .flush n [.flush (.ok ()), .subscribe] .flushed n
  | flushFailed {n} (e : StreamError) :
      Step .flush n [.flush (.error e)] (.complete (.error (.wasiStream e))) n
  | flushed {n} : Step .flushed n [] (.complete (.ok ())) n
  | flushedFailed {n} (e : ExecutorError) : Step .flushed n [] (.complete (.error (.executor e))) n

end Transfer

/-- How the life of an out-parameter ends for the component. -/
inductive Outcome where
  | buildFailed (error : HandlerError)
  | registrationFailed (error : RegistrationError)
  | dropped
  | returned (result : Except HandlerError Unit)

inductive Sender where
  | building (request : IncomingRequest) (config : HandlerConfig) (guard : ResponseOutGuard)
  | built (handler : Handler)
  | rendering (handler : Handler) (app : App)
  | transfer (point : Transfer) (responseBytes : Nat)
  | ended (outcome : Outcome)

inductive Event where
  | built (request : IncomingRequest) (config : HandlerConfig) (core : HandlerCore)
  | registered (call : BuilderCall)
  | handled (app : App)
  | prepared (response : Http.Response)

structure Label where
  event : Option Event
  calls : List HostCall

def Label.prepared (label : Label) : Option Http.Response :=
  match label.event with
  | some (.prepared response) => some response
  | _ => none

def finishResult (transfer : Except HandlerError Unit) (finish : Except ErrorCode Unit) :
    Except HandlerError Unit :=
  match transfer with
  | .error e => .error e
  | .ok () => finish.mapError .wasiResponseBody

/-- From `ResponseOutGuard::new` to the end of `handle_with_context`, or to the
point where the component drops the handler or its future. -/
inductive Sender.Step (crates : Crates) (host : FreshResponse) : Sender → Label → Sender → Prop
  | built {request config guard core} (h : buildWithConfig request config = some (.ok core)) :
      Step crates host (.building request config guard) ⟨some (.built request config core), []⟩
        (.built ⟨core, guard⟩)
  | buildFailed {request config guard error}
      (h : buildWithConfig request config = some (.error error)) :
      Step crates host (.building request config guard) ⟨none, guard.drop host⟩
        (.ended (.buildFailed (.request error)))
  | call {handler core effects} (call : BuilderCall)
      (h : call.apply crates handler.core = (.ok core, effects)) :
      Step crates host (.built handler) ⟨some (.registered call), []⟩
        (.built { handler with core := core })
  | callFailed {handler error effects} (call : BuilderCall)
      (h : call.apply crates handler.core = (.error error, effects)) :
      Step crates host (.built handler) ⟨none, handler.responseOut.drop host⟩
        (.ended (.registrationFailed error))
  | unused {handler} :
      Step crates host (.built handler) ⟨none, handler.responseOut.drop host⟩ (.ended .dropped)
  | handleWithContext {handler} (app : App) :
      Step crates host (.built handler) ⟨some (.handled app), []⟩ (.rendering handler app)
  | dropRendering {handler app} :
      Step crates host (.rendering handler app) ⟨none, handler.responseOut.drop host⟩
        (.ended .dropped)
  | noOutparam {handler app} (h : handler.responseOut.take.1 = none) :
      Step crates host (.rendering handler app) ⟨none, []⟩
        (.ended (.returned (.error (.outgoingResponse "response out-parameter"))))
  | prepared {handler app out outgoing calls} (setup : Preparation)
      (h : handler.responseOut.take.1 = some out)
      (hp : prepare (render crates app handler.core).1 setup = (calls, .ok outgoing)) :
      Step crates host (.rendering handler app)
        ⟨some (.prepared (render crates app handler.core).1), calls ++ [.set out outgoing]⟩
        (.transfer (.start (render crates app handler.core).1.body) 0)
  | unprepared {handler app out error calls} (setup : Preparation)
      (h : handler.responseOut.take.1 = some out)
      (hp : prepare (render crates app handler.core).1 setup = (calls, .error error)) :
      Step crates host (.rendering handler app) ⟨none, calls ++ sendInternalError host out⟩
        (.ended (.returned (.error error)))
  | transfer {point n calls point' n'} (h : Transfer.Step point n calls point' n') :
      Step crates host (.transfer point n) ⟨none, calls⟩ (.transfer point' n')
  | dropTransfer {point n} (h : point.Awaits) :
      Step crates host (.transfer point n) ⟨none, [.dropOutput]⟩ (.ended .dropped)
  | close {result n} :
      Step crates host (.transfer (.complete result) n)
        ⟨none, [.dropOutput]⟩ (.transfer (.closed result) n)
  | finish {result n} (finish : Except ErrorCode Unit) :
      Step crates host (.transfer (.closed result) n) ⟨none, [.finish]⟩
        (.ended (.returned (finishResult result finish)))

def senderSystem (crates : Crates) (host : FreshResponse) (out : ResponseOutparam) :
    System Sender Label where
  init s := ∃ request config, s = .building request config (.new out)
  step := Sender.Step crates host

end LeptosWasi.ResponseTransfer
