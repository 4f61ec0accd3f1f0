import LeptosWasi.Losslessness
import LeptosWasi.TracedTransfer

namespace LeptosWasi.TransferEvents

open Http LeptosWasi.Core Render Pollables ResponseTransfer
    Trace RequestTraceState TracedTransfer ExactlyOnce Losslessness

def events (labels : List TracedLabel) : List CompletionEvent := labels.filterMap TracedLabel.event

def callsOf (labels : List TracedLabel) : List HostCall :=
  ExactlyOnce.callsOf (labels.map TracedLabel.label)

def firstWrite (labels : List TracedLabel) : Option Nat :=
  (labels.find? fun label => label.label.calls.any wrote).map TracedLabel.elapsed

def errorClass : Except HandlerError Unit → String
  | .ok () => "none"
  | .error (.responseStream _) => "response_stream"
  | .error (.wasiStream _) => "wasi_stream"
  | .error (.executor _) => "executor"
  | .error (.wasiResponseBody _) => "response_finish"
  | .error (.request _) | .error (.response _) | .error (.outgoingResponse _) => "response_setup"

def Canceled (result : Except HandlerError Unit) : Prop :=
  result = .error (.wasiStream .closed) ∨ result = .error (.executor .pollableCanceled) ∨
    result = .error (.executor .runUntilCanceled)

def reported (elapsed : Nat) : Nat := min elapsed (u64Max - 1)

theorem events_concat (labels : List TracedLabel) (label : TracedLabel) :
    events (labels ++ [label]) = events labels ++ label.event.toList := by
  rw [events, List.filterMap_append, events]
  cases h : label.event <;> simp [h]

theorem callsOf_concat (labels : List TracedLabel) (label : TracedLabel) :
    callsOf (labels ++ [label]) = callsOf labels ++ label.label.calls := by
  rw [callsOf, List.map_append, List.map_singleton, ExactlyOnce.callsOf_concat, callsOf]

theorem firstWrite_concat (labels : List TracedLabel) (label : TracedLabel) :
    firstWrite (labels ++ [label]) =
      (firstWrite labels).or
      (if label.label.calls.any wrote then some label.elapsed else none) := by
  rw [firstWrite, List.find?_append, Option.map_or, firstWrite]
  cases h : label.label.calls.any wrote <;> simp [h]

theorem callsOf_singleton (label : TracedLabel) : callsOf [label] = label.label.calls :=
  List.append_nil _

theorem firstWrite_singleton {label : TracedLabel} (h : label.label.calls.any wrote = false) :
    firstWrite [label] = none := by
  simp only [firstWrite, List.find?_cons, h, List.find?_nil, Option.map_none]

/-- The result of a response that could not be prepared. -/
def Unprepared (result : Except HandlerError Unit) : Prop :=
  (∃ error, result = .error (.response error)) ∨
  ∃ operation, result = .error (.outgoingResponse operation)

/-- An event says what a returned response came to: the status that the
out-parameter was set to, or 500 where there was nothing to set it to. -/
structure Exact (host : FreshResponse) (response : Http.Response) (out : ResponseOutparam)
    (labels : List TracedLabel) (result : Except HandlerError Unit)
    (event : CompletionEvent) : Prop where
  prepared : ¬ Unprepared result → ∃ outgoing, answers (callsOf labels) = [(out, outgoing)] ∧
    Carries outgoing response ∧ event.status.code = outgoing.status
  unprepared : Unprepared result → event.status.code = 500 ∧
    ∀ answer ∈ answers (callsOf labels), answer.1 = out ∧ InternalError host answer.2
  bytes : event.responseBytes = min (taken (callsOf labels)).length u64Max
  firstByte : event.firstByte = (firstWrite labels).map reported
  errorClass : event.errorClass = errorClass result
  cancellation : event.cancellation = true ↔ Canceled result

def TransferError (e : HandlerError) : Prop :=
  (∃ error, e = .responseStream error) ∨ (∃ error, e = .wasiStream error) ∨
  ∃ error, e = .executor error

structure Transferring (response : Http.Response)
    (out : ResponseOutparam) (labels : List TracedLabel)
    (point : Transfer) (n : Nat) (status : StatusCode) (trace : RequestTraceState) : Prop where
  answered : answers (callsOf labels) = [(out, outgoingResponse response)]
  status : status = response.status
  silent : events labels = []
  marked : trace = ⟨(firstWrite labels).elim 0 fun elapsed => reported elapsed + 1, false⟩
  sent : ∃ calls, Transferred response.body calls point n ∧ passed (callsOf labels) = passed calls ∧
    taken (callsOf labels) = taken calls
  whole : ¬ Failed point → taken (callsOf labels) = passed (callsOf labels)
  failing : ∀ e, point = .complete (.error e) ∨ point = .closed (.error e) → TransferError e

section Transfer

variable {response : Http.Response} {out : ResponseOutparam} {labels : List TracedLabel}
  {point point' : Transfer} {n n' : Nat} {status : StatusCode}
  {trace : RequestTraceState} {calls : List HostCall}

theorem markFirstByte_fresh (elapsed : Nat) :
    (⟨0, false⟩ : RequestTraceState).markFirstByte elapsed = ⟨reported elapsed + 1, false⟩ := by
  have hmax : 0 < u64Max := by decide
  simp only [RequestTraceState.markFirstByte, ne_eq,
    not_true_eq_false, if_false, saturatingAdd, reported,
    RequestTraceState.mk.injEq, and_true]
  split_ifs <;> omega

theorem markWrites_first (labels : List TracedLabel) (elapsed : Nat) (calls : List HostCall)
    (event : Option CompletionEvent) :
    markWrites ⟨(firstWrite labels).elim 0 fun elapsed => reported elapsed + 1,
      false⟩ elapsed calls =
      ⟨(firstWrite (labels ++ [⟨⟨none, calls⟩, elapsed, event⟩])).elim 0 fun elapsed =>
        reported elapsed + 1,
        false⟩ := by
  rw [firstWrite_concat, markWrites]
  cases hfirst : firstWrite labels with
  | none =>
    cases hwrote : calls.any wrote
    · rfl
    · exact markFirstByte_fresh elapsed
  | some first => cases hwrote : calls.any wrote <;> rfl

theorem step_taken (h : Transfer.Step point n calls point' n') (hok : ¬ Failed point') :
    taken calls = passed calls := by
  cases h with
  | writeFailed => exact absurd trivial hok
  | _ => rfl

theorem step_failing (h : Transfer.Step point n calls point' n') (e : HandlerError)
    (he : point' = .complete (.error e) ∨ point' = .closed (.error e)) : TransferError e := by
  cases h <;> obtain he | he := he <;> cases he
  · exact Or.inl ⟨_, rfl⟩
  all_goals first | exact Or.inr (Or.inl ⟨_, rfl⟩) | exact Or.inr (Or.inr ⟨_, rfl⟩)

theorem transferring_step (h : Transferring response out labels point n status trace)
    (hs : Transfer.Step point n calls point' n') (elapsed : Nat) :
    Transferring response out (labels ++ [⟨⟨none, calls⟩, elapsed, none⟩]) point' n' status
      (markWrites trace elapsed calls) := by
  obtain ⟨sent, htransferred, hpassed, htaken⟩ := h.sent
  refine ⟨?_, h.status, ?_, ?_, ⟨sent ++ calls, transferred_step htransferred hs, ?_, ?_⟩,
    fun hok => ?_,
    step_failing hs⟩
  · rw [callsOf_concat, answers_append, h.answered, (transfer_calls hs).1]
    rfl
  · rw [events_concat, h.silent]
    rfl
  · rw [h.marked]
    exact markWrites_first labels elapsed calls none
  · rw [callsOf_concat, passed_append, passed_append, hpassed]
  · rw [callsOf_concat, taken_append, taken_append, htaken]
  · rw [callsOf_concat, taken_append, passed_append, h.whole (step_from hs), step_taken hs hok]

theorem transferring_close {result : Except HandlerError Unit}
    (h : Transferring response out labels (.complete result) n status trace) (elapsed : Nat) :
    Transferring response out (labels ++ [⟨⟨none, [.dropOutput]⟩, elapsed, none⟩])
      (.closed result) n status trace := by
  obtain ⟨sent, htransferred, hpassed, htaken⟩ := h.sent
  have hfailed : Failed (.closed result) ↔ Failed (.complete result) := by
    cases result <;> exact Iff.rfl
  refine ⟨?_, h.status, ?_, ?_,
    ⟨sent, ⟨htransferred.guarded, htransferred.counted, htransferred.within, ?_, nofun⟩,
    ?_, ?_⟩, fun hok => ?_, fun e he => ?_⟩
  · rw [callsOf_concat, answers_append, h.answered]
    rfl
  · rw [events_concat, h.silent]
    rfl
  · have hfirst := markWrites_first labels elapsed [.dropOutput] none
    rw [← hfirst, h.marked]
    rfl
  · intro rest hrest hok
    exact htransferred.conserved rest hrest (hfailed.not.mp hok)
  · rw [callsOf_concat, passed_append, hpassed]
    exact List.append_nil _
  · rw [callsOf_concat, taken_append, htaken]
    exact List.append_nil _
  · rw [callsOf_concat, taken_append, passed_append, h.whole (hfailed.not.mp hok)]
    rfl
  · obtain he | he := he <;> cases he
    exact h.failing e (Or.inl rfl)

end Transfer

section Runs

variable {crates : Crates} {host : FreshResponse}
    {core : HandlerCore} {app : App} {out : ResponseOutparam}
  {labels : List TracedLabel} {s s' : TracedSender} {label : TracedLabel}

def Progress (crates : Crates) (host : FreshResponse)
    (core : HandlerCore) (app : App) (out : ResponseOutparam)
    (labels : List TracedLabel) : TracedSender → Prop
  | .rendering handler app' => handler = ⟨core, .new out⟩ ∧ app' = app ∧ labels = []
  | .transfer point n status trace =>
    Transferring (render crates app core).1 out labels point n status trace
  | .ended (.returned result) =>
    (∃ event, events labels = [event] ∧
      Exact host (render crates app core).1 out labels result event) ∧
        (result = .ok () →
        taken (callsOf labels) = contents allChunks (render crates app core).1.body)
  | .ended _ => events labels = []

theorem prepare_writes_nothing (response : Http.Response) (setup : Preparation) :
    (prepare response setup).1.any wrote = false ∧ passed (prepare response setup).1 = [] ∧
      taken (prepare response setup).1 = [] := by
  rw [prepare]
  cases setup.fromList with
  | error e => exact ⟨rfl, rfl, rfl⟩
  | ok _ => cases setup.setStatusCode <;> cases setup.body <;> cases setup.write <;> exact ⟨rfl,
      rfl, rfl⟩

theorem prepare_error {response : Http.Response}
    {setup : Preparation} {calls : List HostCall} {e : HandlerError}
    (h : prepare response setup = (calls, .error e)) : Unprepared (.error e) := by
  rw [prepare] at h
  cases hl : setup.fromList with
  | error error =>
    rw [hl] at h
    cases h
    exact Or.inl ⟨error, rfl⟩
  | ok _ =>
    right
    rw [hl] at h
    cases hs : setup.setStatusCode <;> cases hb : setup.body <;> cases hw : setup.write <;>
      simp only [hs, hb, hw, Bool.not_true, Bool.not_false,
        Bool.false_eq_true, if_true, if_false, Prod.mk.injEq,
        Except.error.injEq, reduceCtorEq, and_false] at h <;>
        exact ⟨_, congrArg Except.error h.2.symm⟩

theorem sendInternalError_answers (host : FreshResponse) (out : ResponseOutparam) :
    ∀ answer ∈ answers (sendInternalError host out), answer.1 = out ∧
      InternalError host answer.2 := by
  intro answer hanswer
  have hsent : answer = (out, internalErrorResponse host) := by
    rw [sendInternalError] at hanswer
    split_ifs at hanswer
    · cases hanswer
    · cases hanswer
    · cases hanswer
    · exact List.mem_singleton.mp hanswer
  rw [hsent]
  exact ⟨rfl, internalErrorResponse_internalError host⟩

theorem sendInternalError_writes_nothing (host : FreshResponse) (out : ResponseOutparam) :
    (sendInternalError host out).any wrote = false ∧ taken (sendInternalError host out) = [] := by
  rw [sendInternalError]
  cases host.setStatusCode <;> cases host.body <;> cases host.write <;> exact ⟨rfl, rfl⟩

theorem transferring_start {setup : Preparation}
    {calls : List HostCall} {outgoing : OutgoingResponse}
    {response : Http.Response} (hp : prepare response setup = (calls, .ok outgoing))
    (elapsed : Nat) :
    Transferring response out
      [⟨⟨some (.prepared response), calls ++ [.set out outgoing]⟩, elapsed, none⟩]
      (.start response.body) 0 response.status ⟨0, false⟩ := by
  obtain ⟨hwrote, hpassed, htaken⟩ := prepare_writes_nothing response setup
  rw [hp] at hwrote hpassed htaken
  have hpassed' : passed (calls ++ [.set out outgoing]) = [] := by rw [passed_append, hpassed]; rfl
  have htaken' : taken (calls ++ [.set out outgoing]) = [] := by rw [taken_append, htaken]; rfl
  have hwrote' : (calls ++ [HostCall.set out outgoing]).any wrote = false := by
    rw [List.any_append, hwrote]; rfl
  refine ⟨?_, rfl, rfl, ?_, ⟨[], transferred_start _, ?_, ?_⟩, fun _ => ?_, fun e he => ?_⟩
  · have hanswers := (prepare_calls response setup).1
    rw [hp] at hanswers
    rw [callsOf_singleton, answers_append, hanswers, prepare_ok hp]
    rfl
  · rw [firstWrite_singleton hwrote']
    rfl
  · rw [callsOf_singleton, hpassed']
    rfl
  · rw [callsOf_singleton, htaken']
    rfl
  · rw [callsOf_singleton, htaken', hpassed']
  · cases hb : response.body <;> rw [hb] at he <;> obtain he | he := he <;> cases he

theorem exact_unprepared {setup : Preparation} {calls : List HostCall}
    {e : HandlerError} {response : Http.Response}
    (hp : prepare response setup = (calls, .error e)) (elapsed : Nat) :
    ∃ event, events [⟨⟨none, calls ++ sendInternalError host out⟩, elapsed,
        ((⟨0, false⟩ : RequestTraceState).finish
          elapsed internalServerError 0 false "response_setup").2⟩] = [event] ∧
      Exact host response out [⟨⟨none, calls ++ sendInternalError host out⟩, elapsed,
        ((⟨0, false⟩ : RequestTraceState).finish
          elapsed internalServerError 0 false "response_setup").2⟩]
        (.error e) event := by
  obtain ⟨hwrote, -, htaken⟩ := prepare_writes_nothing response setup
  obtain ⟨hwrote', htaken'⟩ := sendInternalError_writes_nothing host out
  have hanswers := (prepare_calls response setup).1
  rw [hp] at hwrote htaken hanswers
  have hsetup := prepare_error hp
  refine ⟨⟨internalServerError, 0, elapsed, none, false, "response_setup"⟩,
    rfl, ?_, fun _ => ⟨rfl, ?_⟩, ?_, ?_, ?_, ?_⟩
  · exact fun h => absurd hsetup h
  · rw [callsOf_singleton, answers_append, hanswers]
    exact sendInternalError_answers host out
  · rw [callsOf_singleton, taken_append, htaken, htaken']
    rfl
  · rw [firstWrite_singleton]
    · rfl
    · rw [List.any_append, hwrote, hwrote']
      rfl
  · obtain ⟨error, he⟩ | ⟨operation, he⟩ := hsetup <;> cases he <;> rfl
  · obtain ⟨error, he⟩ | ⟨operation, he⟩ := hsetup <;> cases he <;> simp [Canceled]

theorem exact_event {response : Http.Response} {result : Except HandlerError Unit}
    {n : Nat} {status : StatusCode} {trace : RequestTraceState}
    (h : Transferring response out labels (.closed result) n status trace) (elapsed : Nat)
    (outcome : Except HandlerError Unit) (cancellation : Bool) (hprepared : ¬ Unprepared outcome)
    (hcancel : cancellation = true ↔ Canceled outcome) :
    ∃ event, (trace.finish elapsed status n cancellation (errorClass outcome)).2 = some event ∧
      Exact host response out (labels ++ [⟨⟨none, [.finish]⟩, elapsed, some event⟩])
        outcome event := by
  have hfresh : trace.finished = false := by rw [h.marked]
  have hfirst : (if trace.firstByteMicros = 0 then none else some (trace.firstByteMicros - 1)) =
      (firstWrite labels).map reported := by
    rw [h.marked]
    cases firstWrite labels <;> simp
  have hbytes : n = min (taken (callsOf labels)).length u64Max := by
    obtain ⟨sent, htransferred, -, htaken⟩ := h.sent
    rw [htransferred.counted, htaken]
    rfl
  refine ⟨⟨status, n, elapsed, (firstWrite labels).map reported, cancellation, errorClass outcome⟩,
    ?_, ?_, ?_, ?_, ?_, rfl, hcancel⟩
  · simp only [RequestTraceState.finish, hfresh, Bool.false_eq_true, if_false, hfirst]
  · intro _
    refine ⟨_, ?_, outgoingResponse_carries response, congrArg StatusCode.code h.status⟩
    rw [callsOf_concat, answers_append, h.answered]
    rfl
  · exact fun hsetup => absurd hsetup hprepared
  · rw [callsOf_concat, taken_append, hbytes]
    exact congrArg (fun bytes : Bytes => min bytes.length u64Max) (List.append_nil _).symm
  · rw [firstWrite_concat]
    change _ = ((firstWrite labels).or none).map reported
    rw [Option.or_none]

theorem exact_finish {response : Http.Response} {result : Except HandlerError Unit}
    {n : Nat} {status : StatusCode} {trace : RequestTraceState}
    (h : Transferring response out labels (.closed result) n status trace)
    (elapsed : Nat) (finish : Except ErrorCode Unit) :
    ∃ event, traceFinish trace elapsed status n result finish = some event ∧
      Exact host response out (labels ++ [⟨⟨none, [.finish]⟩, elapsed, some event⟩])
        (finishResult result finish) event := by
  cases result with
  | ok _ =>
    cases finish with
    | ok _ =>
      apply exact_event h elapsed (.ok ()) false
      · simp [Unprepared]
      · simp [Canceled]
    | error code =>
      apply exact_event h elapsed (.error (.wasiResponseBody code)) false
      · simp [Unprepared]
      · simp [Canceled]
  | error e =>
    obtain ⟨error, rfl⟩ | ⟨error, rfl⟩ | ⟨error, rfl⟩ := h.failing e (Or.inr rfl)
    · apply exact_event h elapsed (.error (.responseStream error)) false
      · simp [Unprepared]
      · simp [Canceled]
    · apply exact_event h elapsed (.error (.wasiStream error)) _
      · simp [Unprepared]
      · cases error <;> simp [Canceled, isCancellation]
    · apply exact_event h elapsed (.error (.executor error)) _
      · simp [Unprepared]
      · cases error <;> simp [Canceled, isCancellation]

theorem finishResult_ok {result : Except HandlerError Unit} {finish : Except ErrorCode Unit}
    (h : finishResult result finish = .ok ()) : result = .ok () := by
  cases result with
  | ok _ => rfl
  | error e => cases h

/-- A transfer that succeeds has sent all of its body. -/
theorem transferring_whole {response : Http.Response} {result : Except HandlerError Unit} {n : Nat}
    {status : StatusCode} {trace : RequestTraceState}
    (h : Transferring response out labels (.closed result) n status trace)
    (hok : result = .ok ()) : taken (callsOf labels) = contents allChunks response.body := by
  subst hok
  obtain ⟨sent, htransferred, hpassed, -⟩ := h.sent
  have hall := htransferred.conserved allChunks sums_allChunks id
  rw [h.whole id, hpassed, ← hall]
  exact (List.append_nil _).symm

theorem progress_step (h : Progress crates host core app out labels s)
    (hs : TracedSender.Step crates host s label s') :
    Progress crates host core app out (labels ++ [label]) s' := by
  cases hs with
  | dropRendering elapsed =>
    obtain ⟨-, -, rfl⟩ := h
    rfl
  | noOutparam elapsed hnone =>
    obtain ⟨rfl, -, -⟩ := h
    cases hnone
  | prepared elapsed setup hout hp =>
    obtain ⟨rfl, rfl, rfl⟩ := h
    cases hout
    exact transferring_start hp elapsed
  | unprepared elapsed setup hout hp =>
    obtain ⟨rfl, rfl, rfl⟩ := h
    cases hout
    exact ⟨exact_unprepared hp elapsed, nofun⟩
  | transfer elapsed ht => exact transferring_step h ht elapsed
  | dropTransfer elapsed ha =>
    have hsilent := Transferring.silent h
    change events (labels ++ _) = []
    rw [events_concat, hsilent]
    rfl
  | close elapsed => exact transferring_close h elapsed
  | @finish result n status trace elapsed reply =>
    have h : Transferring (render crates app core).1 out labels (.closed result) n status trace := h
    obtain ⟨event, hevent, hexact⟩ := exact_finish h elapsed reply
    rw [hevent]
    refine ⟨⟨event, ?_, hexact⟩, fun hok => ?_⟩
    · rw [events_concat, h.silent]
      rfl
    · rw [callsOf_concat, taken_append, transferring_whole h (finishResult_ok hok)]
      exact List.append_nil _

theorem run_progress (h : (tracedSystem crates host core app out).Run labels s) :
    Progress crates host core app out labels s := by
  apply h.invariant (Progress crates host core app out)
  · rintro s rfl
    exact ⟨rfl, rfl, rfl⟩
  · intro labels s label s' hprogress hstep
    exact progress_step hprogress hstep

theorem erase_step (hs : TracedSender.Step crates host s label s') :
    Sender.Step crates host s.erase label.label s'.erase := by
  cases hs with
  | dropRendering => exact .dropRendering
  | noOutparam _ h => exact .noOutparam h
  | prepared _ setup h hp => exact .prepared setup h hp
  | unprepared _ setup h hp => exact .unprepared setup h hp
  | transfer _ h => exact .transfer h
  | dropTransfer _ h => exact .dropTransfer h
  | close => exact .close
  | finish _ reply => exact .finish reply

/-- A traced run goes on from any run of the sender that has handed the
application over. -/
theorem erase_run {before : List Label}
    (hb : (senderSystem crates host out).Run before (.rendering ⟨core, .new out⟩ app))
    (h : (tracedSystem crates host core app out).Run labels s) :
    (senderSystem crates host out).Run (before ++ labels.map TracedLabel.label) s.erase := by
  refine h.invariant
    (fun labels s =>
      (senderSystem crates host out).Run (before ++ labels.map TracedLabel.label) s.erase) ?_ ?_
  · rintro _ rfl
    rwa [List.map_nil, List.append_nil]
  · intro labels s label s' hrun hstep
    rw [List.map_append, ← List.append_assoc]
    exact hrun.next (erase_step hstep)

/-- Preview 2 emits one event for a response that is returned and none for one
that is dropped. The event has the status that was sent, the bytes that the
host took, when it took the first of them, and how the transfer ended. The
trace changes nothing of what is sent. -/
theorem transfer_event_exact (crates : Crates) (host : FreshResponse)
    (core : HandlerCore) (app : App)
    (out : ResponseOutparam) (labels : List TracedLabel) (s : TracedSender)
    (h : (tracedSystem crates host core app out).Run labels s) :
    (∀ result, s = .ended (.returned result) →
      ∃ event, events labels = [event] ∧
      Exact host (render crates app core).1 out labels result event) ∧
    ((∀ result, s ≠ .ended (.returned result)) → events labels = []) ∧
    (∀ before, (senderSystem crates host out).Run before (.rendering ⟨core, .new out⟩ app) →
      (senderSystem crates host out).Run (before ++ labels.map TracedLabel.label) s.erase) := by
  have hprogress := run_progress h
  refine ⟨?_, fun hopen => ?_, fun before hb => erase_run hb h⟩
  · rintro result rfl
    exact hprogress.1
  · cases s with
    | rendering handler app' =>
      obtain ⟨-, -, rfl⟩ := hprogress
      rfl
    | transfer point n status trace => exact Transferring.silent hprogress
    | ended outcome =>
      cases outcome with
      | returned result => exact absurd rfl (hopen result)
      | _ => exact hprogress

end Runs

section NotFound

def missing : HandlerCore := HandlerCore.new ⟨.get, pathUri "/", ∅, []⟩ .default

def notFound : Http.Response := (render .originForm .silent missing).1

/-- The response is set and then sent in one write of all its bytes. -/
def sentAtOnce : List TracedLabel :=
  [⟨⟨some (.prepared notFound),
    (prepare notFound acceptingSetup).1 ++ [.set 7 (outgoingResponse notFound)]⟩, 2, none⟩] ++
    [⟨⟨none, [.checkWrite (.ok 64), .write (text "404 not found") (.ok ())]⟩, 3, none⟩] ++
    [⟨⟨none, []⟩, 3, none⟩] ++ [⟨⟨none, [.flush (.ok ()), .subscribe]⟩, 4, none⟩] ++
    [⟨⟨none, []⟩, 5, none⟩] ++
    [⟨⟨none, [.dropOutput]⟩, 5, none⟩] ++
    [⟨⟨none, [.finish]⟩, 6, some ⟨.notFound, 13, 6, some 3, false, "none"⟩⟩]

theorem sentAtOnce_run : (tracedSystem .originForm acceptingHost missing .silent 7).Run sentAtOnce
    (.ended (.returned (.ok ()))) := by
  have hprepared :=
    System.Run.next (S := tracedSystem .originForm acceptingHost missing .silent 7) (.start rfl)
    (.prepared 2 acceptingSetup rfl rfl)
  have hwritten := hprepared.next (.transfer 3 (.written 64 (by decide) (by decide)))
  have hflushed := ((hwritten.next (.transfer 3 .bufferWritten)).next (.transfer 4 .flush)).next
    (.transfer 5 .flushed)
  exact (hflushed.next (.close 5)).next (.finish 6 (.ok ()))

theorem transfer_event_exact_not_found :
    ∃ event, events sentAtOnce = [event] ∧
      Exact acceptingHost notFound 7 sentAtOnce (.ok ()) event :=
  (transfer_event_exact _ acceptingHost missing .silent 7 sentAtOnce _ sentAtOnce_run).1 _ rfl

end NotFound

end LeptosWasi.TransferEvents
