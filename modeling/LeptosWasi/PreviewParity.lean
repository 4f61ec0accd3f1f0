import LeptosWasi.BodyPolicy
import LeptosWasi.CompletionEvents
import LeptosWasi.TransferEvents

namespace LeptosWasi.PreviewParity

open Http Policy LeptosWasi.Core Request Render ResponseTransfer
    Trace TracedResponse TracedTransfer Losslessness
  TransferEvents CompletionEvents

section Requests

/-- What makes the two previews read one body alike: none where the method has
none, and else one that a usable declared length agrees with. -/
def Alike (parts : Http.Request) (config : HandlerConfig) (body : Bytes) : Prop :=
  if parts.method = .get ∨ parts.method = .head then body = []
  else BodyPolicy.Consistent parts.headers config.maxRequestBodySize body

variable {collect : Preview3.LimitedCollect} {parts : Http.Request} {config : HandlerConfig}
  {chunks₂ chunks₃ : List Bytes} {iterations : List Iteration}

def builtCore (parts : Http.Request) (config : HandlerConfig) (body : Bytes) : HandlerCore :=
  match validateContentLength parts.headers config.maxRequestBodySize with
  | .error policy => Preview2.policyRejection policy { parts with body := [] } config
  | .ok _ =>
    if config.maxRequestBodySize < body.length then
      Preview2.policyRejection (.bodyTooLarge config.maxRequestBodySize)
        { parts with body := [] } config
    else HandlerCore.new { parts with body := body } config

theorem preview3_builds (hc : collect.Documented)
    (hbudget : config.requestBodyTimeoutNs = none) (expired : Bool) :
    Preview3.buildWithConfig collect parts ⟨chunks₃, none⟩ config expired =
      .ok (builtCore parts config chunks₃.flatten) := by
  simp only [Preview3.buildWithConfig, Preview3.ingest, hbudget, Option.isSome_none, Bool.false_and,
    Bool.false_eq_true, if_false, Preview3.collect_clean hc, builtCore]
  cases validateContentLength parts.headers config.maxRequestBodySize with
  | error e => rfl
  | ok declared =>
    simp only
    split_ifs <;> rfl

theorem preview2_builds (hbudget : config.requestBodyTimeoutNs = none)
    (hread : iterations.map Iteration.read = chunks₂.map StreamRead.data ++ [.closed])
    (halike : Alike parts config chunks₂.flatten) :
    Preview2.buildWithConfig ⟨.ok parts, parts.method, ⟨true, true, iterations⟩⟩ config =
      some (.ok (builtCore parts config chunks₂.flatten)) := by
  rw [Alike] at halike
  simp only [Preview2.buildWithConfig, hbudget, builtCore]
  by_cases hbodyless : parts.method = .get ∨ parts.method = .head
  · rw [if_pos hbodyless] at halike
    rw [halike, collectWasiBody]
    cases validateContentLength parts.headers config.maxRequestBodySize with
    | error e => rfl
    | ok declared =>
      simp only [hbodyless, if_true]
      rfl
  · rw [if_neg hbodyless] at halike
    obtain ⟨hget, hhead⟩ := not_or.mp hbodyless
    rw [collectWasiBody_closed hget hhead parts.headers
      config.maxRequestBodySize chunks₂ iterations hread]
    cases hv : validateContentLength parts.headers config.maxRequestBodySize with
    | error e => rfl
    | ok declared =>
      by_cases hlimit : config.maxRequestBodySize < chunks₂.flatten.length
      · simp only [hlimit, if_true]
        rfl
      · have hmatches : declaredLengthMatches declared chunks₂.flatten.length = true := by
          cases declared with
          | none => rfl
          | some declared => exact decide_eq_true ((halike declared hv).resolve_left hlimit)
        simp only [hlimit, if_false, hmatches, if_true]
        rfl

end Requests

section Sessions

def dataOf : PollFrame BodyError → Bytes
  | .frame (.data bytes) => bytes
  | _ => []

def delivered (results : List (PollFrame BodyError)) : Bytes := results.flatMap dataOf

/-- What a consumer has of a response body: the front of it, and all of it at
the end. -/
structure Handed (body : Body) (s : Session ResponseBody BodyError) : Prop where
  front : ¬ Closed s.results → ∀ rest, Sums rest →
    delivered s.results ++ contents rest s.body.inner.body = contents rest body
  ended : .ended ∈ s.results → ∀ rest, Sums rest → delivered s.results = contents rest body
  clean : .ended ∈ s.results → ∀ event ∈ s.events, event.errorClass = "none"

variable {body : Body} {s : Session ResponseBody BodyError}
    {rest : List (Except BodyError Bytes) → Bytes}

theorem delivered_concat (results : List (PollFrame BodyError)) (r : PollFrame BodyError) :
    delivered (results ++ [r]) = delivered results ++ dataOf r := by
  rw [delivered, List.flatMap_append, List.flatMap_singleton, delivered]

theorem responseBody_pending {items : List (Except BodyError Bytes)} {pending : List Bool}
    (h : pending.headD false = true) :
    responseBody.pollFrame ⟨.async items, pending⟩ = (⟨.async items, pending.tail⟩, .pending) :=
  if_pos h

theorem responseBody_next {items : List (Except BodyError Bytes)} {pending : List Bool}
    (h : pending.headD false = false) :
    responseBody.pollFrame ⟨.async items, pending⟩ =
      match items with
      | [] => (⟨.async items, pending.tail⟩, .ended)
      | .ok bytes :: rest => (⟨.async rest, pending.tail⟩, .frame (.data bytes))
      | .error e :: rest => (⟨.async rest, pending.tail⟩, .error e) :=
  if_neg (by rw [h]; exact Bool.false_ne_true)

theorem responseBody_conserves (hrest : Sums rest) (b : ResponseBody) :
    ((responseBody.pollFrame b).2.closes = false →
      dataOf (responseBody.pollFrame b).2 ++ contents rest (responseBody.pollFrame b).1.body =
        contents rest b.body) ∧
    ((responseBody.pollFrame b).2 = .ended → contents rest b.body = []) := by
  obtain ⟨body, pending⟩ := b
  cases body with
  | sync bytes =>
    cases bytes with
    | nil => exact ⟨nofun, fun _ => rfl⟩
    | cons byte bytes => exact ⟨fun _ => List.append_nil _, nofun⟩
  | async items =>
    cases hpending : pending.headD false with
    | true =>
      rw [responseBody_pending hpending]
      exact ⟨fun _ => rfl, nofun⟩
    | false =>
      rw [responseBody_next hpending]
      cases items with
      | nil => exact ⟨nofun, fun _ => hrest.nil⟩
      | cons item items =>
        cases item with
        | ok bytes => exact ⟨fun _ => (hrest.ok bytes items).symm, nofun⟩
        | error e => exact ⟨nofun, nofun⟩

theorem handed_eq_length (results : List (PollFrame BodyError)) :
    handed results = (delivered results).length := by
  have hlength : ∀ r : PollFrame BodyError, dataLength r = (dataOf r).length := by
    intro r
    cases r with
    | frame frame => cases frame <;> rfl
    | _ => rfl
  rw [handed, delivered, List.length_flatMap]
  exact congrArg List.sum (List.map_congr_left fun r _ => hlength r)

theorem session_poll {B E : Type} (body : HttpBody B E) (s : Session B E) (elapsed : Nat) :
    (s.poll body elapsed).results = s.results ++ [(body.pollFrame s.body.inner).2] ∧
      (s.poll body elapsed).body.inner = (body.pollFrame s.body.inner).1 ∧
      ((body.pollFrame s.body.inner).2 = .ended →
        ∀ event ∈ (s.poll body elapsed).events, event ∈ s.events ∨ event.errorClass = "none") := by
  obtain ⟨inner, r, hpoll⟩ : ∃ inner r, body.pollFrame s.body.inner = (inner, r) := ⟨_, _, rfl⟩
  have hcount : ∀ (t : TraceBody B) frame, (t.count elapsed frame).inner = t.inner := by
    intro t frame
    cases frame with
    | trailers headers => rfl
    | data bytes =>
      rw [TraceBody.count]
      split_ifs <;> rfl
  simp only [Session.poll, TraceBody.pollFrame, hpoll]
  cases r with
  | pending => exact ⟨rfl, rfl, fun h => by cases h⟩
  | frame frame => exact ⟨rfl, hcount _ _, fun h => by cases h⟩
  | error e => exact ⟨rfl, rfl, fun h => by cases h⟩
  | ended =>
    refine ⟨rfl, rfl, fun _ event hevent => ?_⟩
    simp only [List.mem_append, Option.mem_toList] at hevent
    refine hevent.imp_right fun hfinish => ?_
    simp only [TraceBody.traceFinish, RequestTraceState.finish] at hfinish
    split at hfinish <;> cases hfinish
    rfl

theorem handed_start (inner : ResponseBody) (trace : RequestTraceState) (status : StatusCode) :
    Handed inner.body (.start (.new inner trace status)) :=
  ⟨fun _ _ _ => rfl, nofun, nofun⟩

theorem handed_poll (h : Handed body s) (hopen : ¬ Closed s.results)
    (hevents : s.events = []) (elapsed : Nat) :
    Handed body (s.poll responseBody elapsed) := by
  obtain ⟨hresults, hinner, hlast⟩ := session_poll responseBody s elapsed
  have hunended : .ended ∉ s.results := fun hmem => hopen ⟨.ended, hmem, rfl⟩
  have hended : .ended ∈ (s.poll responseBody elapsed).results →
    (responseBody.pollFrame s.body.inner).2 = .ended := by
    intro hmem
    rw [hresults, List.mem_append, List.mem_singleton] at hmem
    exact (hmem.resolve_left hunended).symm
  refine ⟨fun hclosed rest hrest => ?_, fun hmem rest hrest => ?_, fun hmem event hevent => ?_⟩
  · rw [hresults, closed_concat, not_or, Bool.not_eq_true] at hclosed
    rw [hresults, hinner, delivered_concat, List.append_assoc,
      (responseBody_conserves hrest s.body.inner).1 hclosed.2, h.front hopen rest hrest]
  · have hpoll := hended hmem
    have hall := h.front hopen rest hrest
    rw [(responseBody_conserves hrest s.body.inner).2 hpoll, List.append_nil] at hall
    rw [hresults, delivered_concat, hpoll, ← hall]
    exact List.append_nil _
  · obtain hold | hnone := hlast (hended hmem) event hevent
    · rw [hevents] at hold
      cases hold
    · exact hnone

theorem run_handed {inner : ResponseBody} {status : StatusCode} {polls : List Nat}
    (h : (consumer responseBody (.new inner ⟨0, false⟩ status)).Run polls s) :
    Handed inner.body s := by
  have hboth : Handed inner.body s ∧ Accounted status s := by
    refine h.invariant (fun _ s => Handed inner.body s ∧ Accounted status s) ?_ ?_
    · rintro _ rfl
      exact ⟨handed_start inner _ status, accounted_start inner status⟩
    · rintro _ s elapsed _ ⟨hhanded, haccounted⟩ ⟨hresults, rfl⟩
      have hopen : ¬ Closed s.results := by
        rintro ⟨r, hr, hcloses⟩
        rw [hresults r hr] at hcloses
        cases hcloses
      exact ⟨handed_poll hhanded hopen (haccounted.opened hopen).2 elapsed,
        haccounted.poll responseBody hopen elapsed⟩
  exact hboth.1

end Sessions

section Parity

/-- The two previews send one response to one request: from equal heads and
bodies, however cut, they build one handler, and whatever is registered on it
and rendered by it, a Preview 2 transfer that succeeds and a Preview 3 body
that is read to its end carry the same status, headers and bytes, and their
events say so. -/
theorem previews_send_same {collect : Preview3.LimitedCollect}
    (hc : collect.Documented) (crates : Crates)
    (parts : Http.Request) (config : HandlerConfig) (hbudget : config.requestBodyTimeoutNs = none)
    (chunks₂ chunks₃ : List Bytes) (hcut : chunks₂.flatten = chunks₃.flatten)
    (halike : Alike parts config chunks₂.flatten) (iterations : List Iteration)
    (hread : iterations.map Iteration.read = chunks₂.map StreamRead.data ++ [.closed])
    (expired : Bool) :
    ∃ built, Preview2.buildWithConfig ⟨.ok parts, parts.method, ⟨true, true, iterations⟩⟩ config =
        some (.ok built) ∧
      Preview3.buildWithConfig collect parts ⟨chunks₃, none⟩ config expired = .ok built ∧
      ∀ calls core effects, register crates built calls = (.ok core, effects) →
      ∀ host app out labels, (tracedSystem crates host core app out).Run labels
        (.ended (.returned (.ok ()))) →
      ∀ pending polls session elapsed,
        (consumer responseBody (handleWithContext crates app core pending).body).Run polls session →
        .ended ∈ session.results →
        (∃ outgoing, ExactlyOnce.answers (callsOf labels) = [(out, outgoing)] ∧
          ExactlyOnce.Carries outgoing (render crates app core).1 ∧
          (handleWithContext crates app core pending).status.code = outgoing.status ∧
          ∀ name, (handleWithContext crates app core pending).headers.getAll name =
            ExactlyOnce.valuesOf outgoing name) ∧
        taken (callsOf labels) = delivered session.results ∧
        delivered session.results = contents allChunks (render crates app core).1.body ∧
        ∃ e₂ e₃, events labels = [e₂] ∧ session.dropped elapsed = [e₃] ∧
          e₂.status.code = (render crates app core).1.status.code ∧
          e₃.status.code = (render crates app core).1.status.code ∧
          e₂.responseBytes = e₃.responseBytes ∧ e₂.cancellation = false ∧ e₃.cancellation = false ∧
          e₂.errorClass = "none" ∧ e₃.errorClass = "none" := by
  refine ⟨_, preview2_builds hbudget hread halike, hcut ▸ preview3_builds hc hbudget expired, ?_⟩
  intro calls core effects _ host app out labels hsent pending polls session elapsed hpolled hended
  obtain ⟨⟨e₂, hevents, hexact⟩, hok⟩ := TransferEvents.run_progress hsent
  have hprepared : ¬ Unprepared (.ok ()) := by simp [Unprepared]
  obtain ⟨outgoing, hanswers, hcarries, hstatus₂⟩ := hexact.prepared hprepared
  have htaken := hok rfl
  have hhanded := run_handed hpolled
  have hdelivered := hhanded.ended hended allChunks sums_allChunks
  have hsame : taken (callsOf labels) = delivered session.results := htaken.trans hdelivered.symm
  have hclosed : Closed session.results := ⟨.ended, hended, rfl⟩
  obtain ⟨e₃, hdropped, hstatus₃, hbytes, hcancel⟩ := dropped_event (run_accounted hpolled) elapsed
  have hsent₃ : ∀ name, (handleWithContext crates app core pending).headers.getAll name =
      ExactlyOnce.valuesOf outgoing name := fun name => (hcarries.values name).symm
  refine ⟨⟨outgoing, hanswers, hcarries, hcarries.status.symm, hsent₃⟩,
    hsame, hdelivered, e₂, e₃, hevents, hdropped,
    ?_, ?_, ?_, ?_, ?_, hexact.errorClass, ?_⟩
  · rw [hstatus₂, hcarries.status]
  · exact congrArg StatusCode.code hstatus₃
  · rw [hexact.bytes, hsame, hbytes, handed_eq_length]
  · rw [← Bool.not_eq_true, hexact.cancellation]
    simp [Canceled]
  · rw [← Bool.not_eq_true, hcancel]
    exact not_not.mpr hclosed
  · refine hhanded.clean hended e₃ ?_
    obtain ⟨hfinished, -⟩ := (run_accounted hpolled).closed hclosed
    have hmem : e₃ ∈ session.dropped elapsed := by rw [hdropped]; exact List.mem_singleton.mpr rfl
    rwa [Session.dropped, TraceBody.drop, traceFinish_finished hfinished,
      Option.toList_none, List.append_nil] at hmem

def echo : ServerFns.ServerFn where
  method := .post
  path := text "/echo"
  runOnServer request options := (⟨.ok, ∅, .sync request.body⟩, options)

def greeting : Http.Request :=
  ⟨.post, pathUri "/echo", (∅ : HeaderMap).insert .contentLength (text "3"), []⟩

def greeted : HandlerCore := HandlerCore.new { greeting with body := text "hey" } .default

def echoing : HandlerCore := greeted.withServerFn echo

def echoed : Http.Response := (render .originForm .silent echoing).1

def echoedAtOnce : List TracedLabel :=
  [⟨⟨some (.prepared echoed),
    (prepare echoed ExactlyOnce.acceptingSetup).1 ++ [.set 7 (outgoingResponse echoed)]⟩,
      2, none⟩] ++
    [⟨⟨none, [.checkWrite (.ok 2), .write (text "he") (.ok ())]⟩, 3, none⟩] ++
    [⟨⟨none, [.checkWrite (.ok 2), .write (text "y") (.ok ())]⟩, 4, none⟩] ++
    [⟨⟨none, []⟩, 4, none⟩] ++ [⟨⟨none, [.flush (.ok ()), .subscribe]⟩, 5, none⟩] ++
    [⟨⟨none, []⟩, 5, none⟩] ++
    [⟨⟨none, [.dropOutput]⟩, 6, none⟩] ++
    [⟨⟨none, [.finish]⟩, 7, some ⟨.ok, 3, 7, some 3, false, "none"⟩⟩]

theorem echoedAtOnce_run :
    (tracedSystem .originForm ExactlyOnce.acceptingHost echoing .silent 7).Run echoedAtOnce
    (.ended (.returned (.ok ()))) := by
  have hprepared :=
    System.Run.next (S := tracedSystem .originForm ExactlyOnce.acceptingHost echoing .silent 7)
    (.start rfl) (.prepared 2 ExactlyOnce.acceptingSetup rfl rfl)
  have hfirst := hprepared.next (.transfer 3 (.written 2 (by decide) (by decide)))
  have hsecond := hfirst.next (.transfer 4 (.written 2 (by decide) (by decide)))
  have hflushed := ((hsecond.next (.transfer 4 .bufferWritten)).next (.transfer 5 .flush)).next
    (.transfer 5 .flushed)
  exact (hflushed.next (.close 6)).next (.finish 7 (.ok ()))

def echoSession : Session ResponseBody BodyError :=
  (Session.start (handleWithContext .originForm .silent echoing []).body).poll responseBody 5

theorem echoSession_ended :
    (consumer responseBody (handleWithContext .originForm .silent echoing []).body).Run ([5] ++ [6])
        (echoSession.poll responseBody 6) ∧
      .ended ∈ (echoSession.poll responseBody 6).results := by
  have hfirst :
    (consumer responseBody (handleWithContext .originForm .silent echoing []).body).Run [5]
      echoSession := .next (.start rfl) ⟨by simp [Session.start], rfl⟩
  have hframe : echoSession.results = [.frame (.data (text "hey"))] := rfl
  have hresults : (echoSession.poll responseBody 6).results = [.frame (.data (text "hey")),
    .ended] := rfl
  refine ⟨.next hfirst ⟨?_, rfl⟩, by rw [hresults]; simp⟩
  intro r hr
  rw [hframe] at hr
  obtain rfl := List.mem_singleton.mp hr
  rfl

/-- A body that comes in two frames and in three is echoed to both clients. -/
theorem previews_send_same_echo :
    (∃ outgoing, ExactlyOnce.answers (callsOf echoedAtOnce) = [(7, outgoing)] ∧
      ExactlyOnce.Carries outgoing echoed ∧ echoed.status.code = outgoing.status ∧
      ∀ name, echoed.headers.getAll name = ExactlyOnce.valuesOf outgoing name) ∧
    taken (callsOf echoedAtOnce) = delivered (echoSession.poll responseBody 6).results := by
  have halike : Alike greeting .default [text "he", text "y"].flatten := by
    rw [Alike, if_neg (by decide)]
    intro declared hdeclared
    have hlength : validateContentLength greeting.headers HandlerConfig.default.maxRequestBodySize =
      .ok (some 3) := by
      decide +kernel
    rw [hlength] at hdeclared
    cases hdeclared
    exact Or.inr rfl
  obtain ⟨built, h₂, -, hsame⟩ :=
    previews_send_same Preview3.limitedCollect_documented .originForm greeting .default
    rfl [text "he", text "y"] [text "h", text "e", text "y"] rfl halike
    [⟨false, .data (text "he"), false⟩, ⟨false, .data (text "y"), false⟩,
      ⟨false, .closed, false⟩] rfl false
  have hbuilt : Preview2.buildWithConfig ⟨.ok greeting, .post, ⟨true, true,
      [⟨false, .data (text "he"), false⟩, ⟨false, .data (text "y"), false⟩,
        ⟨false, .closed, false⟩]⟩⟩ .default =
        some (.ok greeted) := rfl
  obtain rfl : greeted = built := Except.ok.inj (Option.some.inj (hbuilt.symm.trans h₂))
  have hboth :=
    hsame [.withServerFn echo] echoing [] rfl ExactlyOnce.acceptingHost .silent 7 echoedAtOnce
    echoedAtOnce_run [] _ _ 7 echoSession_ended.1 echoSession_ended.2
  exact ⟨hboth.1, hboth.2.1⟩

end Parity

end LeptosWasi.PreviewParity
