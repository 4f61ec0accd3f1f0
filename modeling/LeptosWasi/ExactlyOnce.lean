import LeptosWasi.Library.MultimapPairs
import LeptosWasi.Registration
import LeptosWasi.ResponseTransfer

namespace LeptosWasi.ExactlyOnce

open Http Policy LeptosWasi.Core Preview2 Render ResponseTransfer

def answerOf : HostCall → Option (ResponseOutparam × OutgoingResponse)
  | .set out response => some (out, response)
  | _ => none

def answers (calls : List HostCall) : List (ResponseOutparam × OutgoingResponse) :=
  calls.filterMap answerOf

def IsClosing (call : HostCall) : Prop := call = .dropOutput ∨ call = .finish

instance : DecidablePred IsClosing := fun _ => inferInstanceAs (Decidable (_ ∨ _))

def closing (calls : List HostCall) : List HostCall := calls.filter IsClosing

def callsOf (labels : List Label) : List HostCall := labels.flatMap Label.calls

def preparedOf (labels : List Label) : List Http.Response := labels.filterMap Label.prepared

def history (labels : List Label) : List Event := labels.filterMap Label.event

def valuesOf (outgoing : OutgoingResponse) (name : HeaderName) : List HeaderValue :=
  (outgoing.headers.filter fun header => decide (header.1 = name)).map Prod.snd

/-- A host response has the status of a rendered one and its header values. -/
structure Carries (outgoing : OutgoingResponse) (response : Http.Response) : Prop where
  status : outgoing.status = response.status.code
  values : ∀ name, valuesOf outgoing name = response.headers.getAll name

/-- A host response is the internal error, with the headers that the host
accepted. -/
structure InternalError (host : FreshResponse) (outgoing : OutgoingResponse) : Prop where
  status : outgoing.status = 500
  contentType : valuesOf outgoing "content-type" =
    if host.appendContentType then [text "text/plain; charset=utf-8"] else []
  nosniff : valuesOf outgoing "x-content-type-options" =
    if host.appendNosniff then [text "nosniff"] else []
  only : ∀ header ∈ outgoing.headers, header.1 = "content-type" ∨
    header.1 = "x-content-type-options"

def internalErrorCalls (out : ResponseOutparam) (outgoing : OutgoingResponse) : List HostCall :=
  [.set out outgoing, .blockingWriteAndFlush (text "internal server error"), .dropOutput, .finish]

def Registered (crates : Crates) (events : List Event) (core : HandlerCore) : Prop :=
  ∃ request config built calls effects, buildWithConfig request config = some (.ok built) ∧
    register crates built calls = (.ok core, effects) ∧
    events = .built request config built :: calls.map Event.registered

/-- A response is what the handler of a run renders with the application that
it was given. -/
def Rendered (crates : Crates) (events : List Event) (response : Http.Response) : Prop :=
  ∃ before core app, Registered crates before core ∧ response = (render crates app core).1 ∧
    events = before ++ [.handled app, .prepared response]

section Calls

theorem outgoingResponse_carries (response : Http.Response) :
    Carries (outgoingResponse response) response where
  status := rfl
  values name := by
    have hpairs := Multimap.getAll_ofPairs response.headers.pairs name
    rw [Multimap.ofPairs_pairs] at hpairs
    exact hpairs.symm

theorem internalErrorResponse_internalError (host : FreshResponse) :
    InternalError host (internalErrorResponse host) := by
  obtain ⟨contentType, nosniff, _, _, _⟩ := host
  refine ⟨rfl, ?_, ?_, ?_⟩ <;> cases contentType <;> cases nosniff <;>
    simp [valuesOf, internalErrorResponse, HeaderName.contentType, HeaderName.xContentTypeOptions]

theorem history_concat (labels : List Label) (label : Label) :
    history (labels ++ [label]) = history labels ++ label.event.toList := by
  rw [history, List.filterMap_append, history]
  cases h : label.event <;> simp [h]

theorem registered_built {crates : Crates} {request : IncomingRequest}
    {config : HandlerConfig} {core : HandlerCore}
    (h : buildWithConfig request config = some (.ok core)) :
    Registered crates [.built request config core] core :=
    ⟨request, config, core, [], [], h, rfl, rfl⟩

theorem registered_concat {crates : Crates} {events : List Event} {core core' : HandlerCore}
    (h : Registered crates events core) {call : BuilderCall} {effects : List Effect}
    (hcall : call.apply crates core = (.ok core', effects)) :
    Registered crates (events ++ [.registered call]) core' := by
  obtain ⟨request, config, built, calls, earlier, hbuilt, hregister, rfl⟩ := h
  refine ⟨request, config, built, calls ++ [call], earlier ++ effects, hbuilt, ?_, by simp⟩
  exact Registration.register_concat hregister hcall

theorem answers_append (calls calls' : List HostCall) :
    answers (calls ++ calls') = answers calls ++ answers calls' := List.filterMap_append

theorem closing_append (calls calls' : List HostCall) :
    closing (calls ++ calls') = closing calls ++ closing calls' := List.filter_append ..

theorem callsOf_concat (labels : List Label) (label : Label) :
    callsOf (labels ++ [label]) = callsOf labels ++ label.calls := by
  rw [callsOf, List.flatMap_append, List.flatMap_singleton, callsOf]

theorem preparedOf_concat (labels : List Label) (label : Label) :
    preparedOf (labels ++ [label]) = preparedOf labels ++ label.prepared.toList := by
  rw [preparedOf, List.filterMap_append, preparedOf]
  cases h : label.prepared <;> simp [h]

theorem prepare_calls (response : Http.Response) (setup : Preparation) :
    answers (prepare response setup).1 = [] ∧ closing (prepare response setup).1 = [] := by
  rw [prepare]
  cases setup.fromList with
  | error e => exact ⟨rfl, rfl⟩
  | ok _ =>
    cases setup.setStatusCode <;> cases setup.body <;> cases setup.write <;> exact ⟨rfl, rfl⟩

theorem prepare_ok {response : Http.Response} {setup : Preparation} {calls : List HostCall}
    {outgoing : OutgoingResponse} (h : prepare response setup = (calls, .ok outgoing)) :
    outgoing = outgoingResponse response := by
  rw [prepare] at h
  cases hl : setup.fromList with
  | error e =>
    rw [hl] at h
    cases h
  | ok _ =>
    rw [hl] at h
    cases hs : setup.setStatusCode <;> cases hb : setup.body <;> cases hw : setup.write <;>
      simp [hs, hb, hw] at h
    exact h.2.symm

theorem sendInternalError_calls {host : FreshResponse}
    (hh : host.Accepts) (out : ResponseOutparam) :
    answers (sendInternalError host out) = [(out, internalErrorResponse host)] ∧
      closing (sendInternalError host out) = [.dropOutput, .finish] ∧
      ∃ before, answers before = [] ∧
        sendInternalError host out = before ++ internalErrorCalls out
          (internalErrorResponse host) := by
  rw [sendInternalError, hh.setStatusCode, hh.body, hh.write]
  exact ⟨rfl, rfl, [_, _, _, _, _, _], rfl, rfl⟩

theorem transfer_calls {point point' : Transfer} {n n' : Nat} {calls : List HostCall}
    (h : Transfer.Step point n calls point' n') :
    answers calls = [] ∧ closing calls = [] ∧ (∀ result, point ≠ .closed result) ∧
      ∀ result, point' ≠ .closed result := by
  cases h <;> refine ⟨rfl, rfl, ?_, ?_⟩ <;> rintro result ⟨⟩

end Calls

structure Unanswered (out : ResponseOutparam) (guard : ResponseOutGuard)
    (labels : List Label) : Prop where
  held : guard.held = some out
  prepared : preparedOf labels = []
  answers : answers (callsOf labels) = []
  closing : closing (callsOf labels) = []

def Committed (crates : Crates) (out : ResponseOutparam) (labels : List Label) : Prop :=
  ∃ response, preparedOf labels = [response] ∧ Rendered crates (history labels) response ∧
    answers (callsOf labels) = [(out, outgoingResponse response)]

structure Refused (host : FreshResponse) (out : ResponseOutparam) (labels : List Label) : Prop where
  prepared : preparedOf labels = []
  answers : answers (callsOf labels) = [(out, internalErrorResponse host)]
  closing : closing (callsOf labels) = [.dropOutput, .finish]
  calls : ∃ before, ExactlyOnce.answers before = [] ∧
    callsOf labels = before ++ internalErrorCalls out (internalErrorResponse host)

/-- What has happened to the out-parameter at each point. -/
def Progress (crates : Crates) (host : FreshResponse)
    (out : ResponseOutparam) (labels : List Label) :
    Sender → Prop
  | .building _ _ guard => Unanswered out guard labels ∧ history labels = []
  | .built handler =>
    Unanswered out handler.responseOut labels ∧ Registered crates (history labels) handler.core
  | .rendering handler app => Unanswered out handler.responseOut labels ∧
    ∃ events, Registered crates events handler.core ∧ history labels = events ++ [.handled app]
  | .transfer (.closed _) _ =>
    Committed crates out labels ∧ closing (callsOf labels) = [.dropOutput]
  | .transfer _ _ => Committed crates out labels ∧ closing (callsOf labels) = []
  | .ended (.returned _) =>
    Refused host out labels ∨ Committed crates out labels ∧
    closing (callsOf labels) = [.dropOutput, .finish]
  | .ended _ => Refused host out labels ∨ Committed crates out labels

section Runs

variable {crates : Crates} {host : FreshResponse} {out : ResponseOutparam} {labels : List Label}
  {s s' : Sender} {label : Label} {guard : ResponseOutGuard}

theorem unanswered_silent (h : Unanswered out guard labels)
    {event : Event} (he : ∀ response, event ≠ .prepared response) :
    Unanswered out guard (labels ++ [⟨some event, []⟩]) := by
  refine ⟨h.held, ?_, ?_, ?_⟩
  · rw [preparedOf_concat, h.prepared]
    cases event with
    | prepared response => exact absurd rfl (he response)
    | _ => rfl
  · rw [callsOf_concat, List.append_nil]
    exact h.answers
  · rw [callsOf_concat, List.append_nil]
    exact h.closing

theorem refused_of_unanswered (h : Unanswered out guard labels)
    (hh : host.Accepts) {calls : List HostCall}
    (ha : answers calls = []) (hc : closing calls = []) :
    Refused host out (labels ++ [⟨none, calls ++ sendInternalError host out⟩]) := by
  obtain ⟨herror, hclose, before, hbefore, hsent⟩ := sendInternalError_calls hh out
  refine ⟨?_, ?_, ?_, callsOf labels ++ calls ++ before, ?_, ?_⟩
  · rw [preparedOf_concat, h.prepared]
    rfl
  · rw [callsOf_concat, answers_append, answers_append, h.answers, ha, herror]
    rfl
  · rw [callsOf_concat, closing_append, closing_append, h.closing, hc, hclose]
    rfl
  · rw [answers_append, answers_append, h.answers, ha, hbefore]
    rfl
  · rw [callsOf_concat, hsent]
    simp only [List.append_assoc]

theorem refused_of_drop (h : Unanswered out guard labels) (hh : host.Accepts) :
    Refused host out (labels ++ [⟨none, guard.drop host⟩]) := by
  have hdrop : guard.drop host = sendInternalError host out := by
    simp only [ResponseOutGuard.drop, ResponseOutGuard.take, h.held]
  have hrefused : Refused host out (labels ++ [⟨none, [] ++ sendInternalError host out⟩]) :=
    refused_of_unanswered h hh rfl rfl
  rw [hdrop]
  exact hrefused

theorem committed_next (h : Committed crates out labels)
    {calls : List HostCall} (ha : answers calls = []) :
    Committed crates out (labels ++ [⟨none, calls⟩]) := by
  obtain ⟨response, hprepared, hrendered, hanswers⟩ := h
  refine ⟨response, ?_, ?_, ?_⟩
  · rw [preparedOf_concat, hprepared]
    rfl
  · rw [history_concat]
    change Rendered crates (history labels ++ []) response
    rwa [List.append_nil]
  · rw [callsOf_concat, answers_append, hanswers, ha]
    rfl

theorem committed_of_prepare (h : Unanswered out guard labels)
    {core : HandlerCore} {app : App} {events : List Event}
    (hr : Registered crates events core) (hhistory : history labels = events ++ [.handled app])
    {setup : Preparation} {calls : List HostCall} {outgoing : OutgoingResponse}
    (hp : prepare (render crates app core).1 setup = (calls, .ok outgoing)) :
    Committed crates out
      (labels ++ [⟨some (.prepared (render crates app core).1), calls ++ [.set out outgoing]⟩]) ∧
      closing (callsOf
        (labels ++ [⟨some (.prepared (render crates app core).1), calls ++ [.set out outgoing]⟩])) =
        [] := by
  obtain ⟨ha, hc⟩ := prepare_calls (render crates app core).1 setup
  rw [hp] at ha hc
  rw [prepare_ok hp]
  refine ⟨⟨_, ?_, ⟨events, core, app, hr, rfl, ?_⟩, ?_⟩, ?_⟩
  · rw [preparedOf_concat, h.prepared]
    rfl
  · rw [history_concat, hhistory, List.append_assoc]
    rfl
  · rw [callsOf_concat, answers_append, answers_append, h.answers, ha]
    rfl
  · rw [callsOf_concat, closing_append, closing_append, h.closing, hc]
    rfl

theorem progress_transfer {point point' : Transfer} {n n' : Nat} {calls : List HostCall}
    (h : Progress crates host out labels (.transfer point n))
    (hs : Transfer.Step point n calls point' n') :
    Progress crates host out (labels ++ [⟨none, calls⟩]) (.transfer point' n') := by
  obtain ⟨ha, hc, hpoint, hpoint'⟩ := transfer_calls hs
  have hopen : Committed crates out labels ∧ closing (callsOf labels) = [] := by
    cases point with
    | closed result => exact absurd rfl (hpoint result)
    | _ => exact h
  have hnext : Committed crates out (labels ++ [⟨none, calls⟩]) ∧
      closing (callsOf (labels ++ [⟨none, calls⟩])) = [] := by
    refine ⟨committed_next hopen.1 ha, ?_⟩
    rw [callsOf_concat, closing_append, hopen.2, hc]
    rfl
  cases point' with
  | closed result => exact absurd rfl (hpoint' result)
  | _ => exact hnext

theorem progress_step (hh : host.Accepts) (h : Progress crates host out labels s)
    (hs : Sender.Step crates host s label s') :
    Progress crates host out (labels ++ [label]) s' := by
  cases hs with
  | built hb =>
    refine ⟨unanswered_silent h.1 nofun, ?_⟩
    rw [history_concat, h.2]
    exact registered_built hb
  | buildFailed hb => exact Or.inl (refused_of_drop h.1 hh)
  | call call hc =>
    refine ⟨unanswered_silent h.1 nofun, ?_⟩
    rw [history_concat]
    exact registered_concat h.2 hc
  | callFailed call hc => exact Or.inl (refused_of_drop h.1 hh)
  | unused => exact Or.inl (refused_of_drop h.1 hh)
  | handleWithContext app =>
    refine ⟨unanswered_silent h.1 nofun, _, h.2, ?_⟩
    rw [history_concat]
    rfl
  | dropRendering => exact Or.inl (refused_of_drop h.1 hh)
  | noOutparam hn =>
    have hheld := Unanswered.held h.1
    rw [ResponseOutGuard.take] at hn
    cases hheld.symm.trans hn
  | @prepared handler app out' outgoing calls setup ht hp =>
    obtain ⟨hu, events, hr, hhistory⟩ := h
    obtain rfl : out' = out := Option.some.inj (ht.symm.trans hu.held)
    have hcommitted := committed_of_prepare hu hr hhistory hp
    cases hbody : (render crates app handler.core).1.body with
    | sync bytes => exact hcommitted
    | async items => exact hcommitted
  | @unprepared handler app out' error calls setup ht hp =>
    obtain rfl : out' = out := Option.some.inj (ht.symm.trans (Unanswered.held h.1))
    obtain ⟨ha, hc⟩ := prepare_calls (render crates app handler.core).1 setup
    rw [hp] at ha hc
    exact Or.inl (refused_of_unanswered h.1 hh ha hc)
  | transfer ht => exact progress_transfer h ht
  | @dropTransfer point n ha =>
    cases point with
    | next items => exact Or.inr (committed_next h.1 rfl)
    | await bytes items => exact Or.inr (committed_next h.1 rfl)
    | flushed => exact Or.inr (committed_next h.1 rfl)
    | write bytes items => cases ha
    | flush => cases ha
    | complete result => cases ha
    | closed result => cases ha
  | close =>
    refine ⟨committed_next h.1 rfl, ?_⟩
    rw [callsOf_concat, closing_append, h.2]
    rfl
  | finish reply =>
    refine Or.inr ⟨committed_next h.1 rfl, ?_⟩
    rw [callsOf_concat, closing_append, h.2]
    rfl

theorem run_progress (hh : host.Accepts) (h : (senderSystem crates host out).Run labels s) :
    Progress crates host out labels s := by
  apply h.invariant (Progress crates host out)
  · rintro s ⟨request, config, rfl⟩
    exact ⟨⟨rfl, rfl, rfl, rfl⟩, rfl⟩
  · rintro labels s label s' hprogress hstep
    exact progress_step hh hprogress hstep

end Runs

section BadRequest

def rejected : HandlerCore :=
  (HandlerCore.new Preview2.emptyRequest .default).withPreset
  (plainResponse .badRequest (text "invalid request"))
    .requestPolicy

def badRequest : Http.Response := (render Crates.originForm App.silent rejected).1

def acceptingHost : FreshResponse := ⟨true, true, true, true, true⟩

def acceptingSetup : Preparation := ⟨.ok (), true, true, true⟩

end BadRequest

end LeptosWasi.ExactlyOnce
