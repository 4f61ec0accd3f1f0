import LeptosWasi.FirstClaim

namespace LeptosWasi.HeadAgreement

open Http Policy LeptosWasi.Core Request Render Registration FirstClaim

inductive StaticRegistration where
  | files (pre : Except Bytes Uri) (handler : Bytes → Option Body)
  | filesWith (pre : Except Bytes Uri) (handler : StaticRequest → Option Http.Response)

namespace StaticRegistration

def pre : StaticRegistration → Except Bytes Uri
  | .files pre _ | .filesWith pre _ => pre

def handler : StaticRegistration → StaticRequest → Option Http.Response
  | .files _ handler => fun request => (handler request.path).map Http.Response.new
  | .filesWith _ handler => handler

def call : StaticRegistration → BuilderCall
  | .files pre handler => .staticFilesHandler pre handler
  | .filesWith pre handler => .staticFilesHandlerWith pre handler

end StaticRegistration

inductive Outcome where
  | unmatched
  | missing
  | found (key : Bytes) (response : Http.Response)

def outcome (req : Http.Request) : List StaticRegistration → Outcome
  | [] => .unmatched
  | r :: rest =>
    match staticPrefix r.pre with
    | .error _ => .unmatched
    | .ok prefixPath =>
      if prefixMatches prefixPath req.uri.path then
        match StaticFiles.normalizeStaticPath (rawStaticPath prefixPath req.uri.path) with
        | .error _ => .missing
        | .ok key => (r.handler (staticRequest req key)).elim .missing (.found key)
      else outcome req rest

def Outcome.selection (crates : Crates) (method : Method) : Outcome → Selection
  | .unmatched => .unclaimed
  | .missing => .notFound
  | .found key response =>
    .preset (staticResponse method (contentTypeForStaticPath crates.mimeGuess key) response) .static

/-- A stream of unknown length that declares none. -/
def Unmeasured (response : Http.Response) : Prop :=
  syncLength response.body = none ∧ response.headers.getAll .contentLength = []

def Agrees (get head : Http.Response) : Prop :=
  head.status = get.status ∧ head.headers = get.headers ∧ head.body = .sync []

/-- The cores that a preview builds for the GET and the HEAD request of one
target, with an empty body. Preview 2 may fail to convert the head. -/
inductive Built (uri : Uri) (headers : HeaderMap) (config : HandlerConfig) :
    (Method → HandlerCore) → Prop
  | preview2 (body : IncomingBody) (start : Method → HandlerCore)
      (h : ∀ m, m = .get ∨ m = .head → Preview2.buildWithConfig ⟨.ok ⟨m, uri, headers, []⟩, m, body⟩
        config = some (.ok (start m))) : Built uri headers config start
  | malformed (error : RequestError) (body : IncomingBody) (start : Method → HandlerCore)
      (h : ∀ m, m = .get ∨ m = .head → Preview2.buildWithConfig ⟨.error error, m, body⟩ config =
        some (.ok (start m))) : Built uri headers config start
  | preview3 (collect : Preview3.LimitedCollect) (hc : collect.Documented) (expired : Bool)
      (start : Method → HandlerCore)
      (h : ∀ m, m = .get ∨ m = .head →
        Preview3.buildWithConfig collect ⟨m, uri, headers, []⟩ ⟨[], none⟩
        config expired = .ok (start m)) : Built uri headers config start

def startCore (rejection : Option RequestPolicyError)
    (req : Http.Request) (config : HandlerConfig) :
    HandlerCore :=
  match rejection with
  | some policy => Preview2.policyRejection policy req config
  | none => HandlerCore.new req config

def MalformedStart (config : HandlerConfig) (core : HandlerCore) : Prop :=
  ∃ response bytes, bytes ≠ [] ∧ response.body = .sync bytes ∧
    core = (HandlerCore.new Preview2.emptyRequest config).withPreset response .requestPolicy

section Build

variable {uri : Uri} {headers : HeaderMap} {config : HandlerConfig} {start : Method → HandlerCore}

theorem policyResponse_body (policy : RequestPolicyError) :
    ∃ bytes, bytes ≠ [] ∧ (policyResponse policy).body = .sync bytes := by
  refine ⟨policy.message, ?_, rfl⟩
  cases policy <;> simp only [RequestPolicyError.message] <;> decide +kernel

theorem handlerFromRequestError_malformed {error : RequestError} {core : HandlerCore}
    (h : Preview2.handlerFromRequestError error Preview2.emptyRequest config = .ok core) :
    MalformedStart config core := by
  have hpolicy : ∀ policy, MalformedStart config
      (Preview2.policyRejection policy Preview2.emptyRequest config) := by
    intro policy
    obtain ⟨bytes, hne, hbody⟩ := policyResponse_body policy
    exact ⟨policyResponse policy, bytes, hne, hbody, rfl⟩
  have hclient : MalformedStart config ((HandlerCore.new Preview2.emptyRequest config).withPreset
      (plainResponse .badRequest (text "invalid request")) .requestPolicy) :=
    ⟨_, text "invalid request", by decide +kernel, rfl, rfl⟩
  cases error with
  | http | wasiIo =>
    cases h
    exact hclient
  | bodyTooLarge _ | bodyReadTimeout _ | policy _ =>
    cases h
    exact hpolicy _
  | bodyAlreadyConsumed | bodyStreamUnavailable | invalidHeaders => cases h

/-- Both previews reject GET and HEAD alike, and a head that is not converted
is answered as a GET request. -/
theorem built_cases (h : Built uri headers config start) :
    (∃ rejection, ∀ m, m = .get ∨ m = .head →
      start m = startCore rejection ⟨m, uri, headers, []⟩ config) ∨
    MalformedStart config (start .get) ∧ start .head = start .get := by
  cases h with
  | preview2 body _ h =>
    left
    cases hv : validateContentLength headers config.maxRequestBodySize with
    | error policy =>
      refine ⟨some policy, fun m hm => ?_⟩
      have hb := h m hm
      simp only [Preview2.buildWithConfig, collectWasiBody, hv, Option.map_some, Option.some.injEq,
        Preview2.handlerFromRequestError, Except.ok.injEq] at hb
      exact hb.symm
    | ok declared =>
      refine ⟨none, fun m hm => ?_⟩
      have hb := h m hm
      simp only [Preview2.buildWithConfig, collectWasiBody, hv, if_pos hm, Option.map_some,
        Option.some.injEq, Except.ok.injEq] at hb
      exact hb.symm
  | malformed error body _ h =>
    right
    simp only [Preview2.buildWithConfig, Option.some.injEq] at h
    have hget := h .get (Or.inl rfl)
    have hhead := h .head (Or.inr rfl)
    exact ⟨handlerFromRequestError_malformed hget, Except.ok.inj (hhead.symm.trans hget)⟩
  | preview3 collect hc expired _ h =>
    left
    simp only [Preview3.buildWithConfig, Preview3.ingest,
      Preview3.collect_clean hc, List.flatten_nil,
      List.length_nil, Nat.not_lt_zero, if_false] at h
    cases hv : validateContentLength headers config.maxRequestBodySize with
    | error policy =>
      refine ⟨some policy, fun m hm => ?_⟩
      have hb := h m hm
      simp only [hv] at hb
      exact (Except.ok.inj hb).symm
    | ok declared =>
      simp only [hv] at h
      cases hexp : config.requestBodyTimeoutNs.isSome && expired with
      | true =>
        simp only [hexp, if_true] at h
        exact ⟨some _, fun m hm => (Except.ok.inj (h m hm)).symm⟩
      | false =>
        simp only [hexp, Bool.false_eq_true, if_false] at h
        exact ⟨none, fun m hm => (Except.ok.inj (h m hm)).symm⟩

end Build

section Statics

variable {crates : Crates}

def Valid (regs : List StaticRegistration) : Prop := ∀ r ∈ regs, ∃ p, staticPrefix r.pre = .ok p

theorem apply_call (core : HandlerCore) (r : StaticRegistration) :
    r.call.apply crates core = staticFilesHandlerWith crates core r.pre r.handler := by
  cases r <;> rfl

theorem staticSelection_outcome {req : Http.Request} (hm : req.method = .get ∨ req.method = .head)
    (prefixPath : Bytes) (handler : StaticRequest → Option Http.Response) :
    staticSelection crates req prefixPath handler =
      Outcome.selection crates req.method
        (match StaticFiles.normalizeStaticPath (rawStaticPath prefixPath req.uri.path) with
        | .error _ => .missing
        | .ok key => (handler (staticRequest req key)).elim .missing (.found key)) := by
  rw [staticSelection]
  rw [if_neg (by tauto)]
  cases StaticFiles.normalizeStaticPath (rawStaticPath prefixPath req.uri.path) with
  | error e => rfl
  | ok key => cases hh : handler (staticRequest req key) <;> simp [hh, Outcome.selection]

theorem valid_of_register {core core' : HandlerCore} {regs : List StaticRegistration}
    (h : (register crates core (regs.map StaticRegistration.call)).1 = .ok core') : Valid regs := by
  induction regs generalizing core with
  | nil => simp [Valid]
  | cons r regs ih =>
    obtain ⟨mid, e₁, e₂, ha, hr, -⟩ := register_cons (Prod.ext h rfl :
      register crates core (r.call :: regs.map StaticRegistration.call) = (.ok core', _))
    rw [apply_call, staticFilesHandlerWith] at ha
    intro r' hr'
    obtain rfl | hr' := List.mem_cons.mp hr'
    · cases hp : staticPrefix r'.pre with
      | error e => simp [hp] at ha
      | ok prefixPath => exact ⟨prefixPath, rfl⟩
    · exact ih (by rw [hr]) r' hr'

theorem register_statics (crates : Crates) {core : HandlerCore}
    (hm : core.req.method = .get ∨ core.req.method = .head)
    {regs : List StaticRegistration} (hv : Valid regs) :
    ∃ core', (register crates core (regs.map StaticRegistration.call)).1 = .ok core' ∧
      core'.req = core.req ∧ core'.ssrRouter = core.ssrRouter ∧
      core'.selection = if core.shortcut then core.selection
        else (outcome core.req regs).selection crates core.req.method := by
  induction regs generalizing core with
  | nil =>
    refine ⟨core, rfl, rfl, rfl, ?_⟩
    cases hs : core.shortcut with
    | true => rfl
    | false => exact (shortcut_eq_false_iff core).mp hs
  | cons r regs ih =>
    obtain ⟨prefixPath, hp⟩ := hv r List.mem_cons_self
    have hrest : Valid regs := fun r' hr' => hv r' (List.mem_cons_of_mem r hr')
    have hstep : ∃ mid e, r.call.apply crates core = (.ok mid, e) ∧ mid.req = core.req ∧
        mid.ssrRouter = core.ssrRouter ∧
        (if mid.shortcut then mid.selection
          else (outcome mid.req regs).selection crates mid.req.method) =
        if core.shortcut then core.selection
          else (outcome core.req (r :: regs)).selection crates core.req.method := by
      rw [apply_call, staticFilesHandlerWith, hp]
      cases hs : core.shortcut with
      | true => exact ⟨core, [], rfl, rfl, rfl, by rw [if_pos hs, if_pos rfl]⟩
      | false =>
        simp only [Bool.false_eq_true, if_false, outcome, hp]
        cases hmatch : prefixMatches prefixPath core.req.uri.path with
        | false => exact ⟨core, [], rfl, rfl, rfl,
            by rw [if_neg (by simp [hs]), if_neg (by decide)]⟩
        | true =>
          refine ⟨_, _, rfl, by rw [claimStatic_core], by rw [claimStatic_core], ?_⟩
          have hsel : (claimStatic crates core prefixPath r.handler).1.selection =
              staticSelection crates core.req prefixPath r.handler := by rw [claimStatic_core]
          have hc : (claimStatic crates core prefixPath r.handler).1.shortcut = true := by
            rw [shortcut_iff, hsel]
            exact staticSelection_ne_unclaimed _ _ _
          rw [if_pos hc, hsel, if_pos rfl, staticSelection_outcome hm]
    obtain ⟨mid, e, ha, hreq, hrouter, hsel⟩ := hstep
    obtain ⟨core', hr, hreq', hrouter', hsel'⟩ := ih (by rw [hreq]; exact hm) hrest
    refine ⟨core', ?_, hreq'.trans hreq, hrouter'.trans hrouter, hsel'.trans hsel⟩
    rw [List.map_cons, register, ha]
    exact hr

end Statics

theorem finish_agrees (response : Http.Response) :
    Agrees (finish .get response) (finish .head response) :=
  ⟨rfl, rfl, rfl⟩

/-- The length of a stream that declares none is reported as zero. -/
theorem finish_static_agrees_iff (mime : HeaderValue) (response : Http.Response) :
    Agrees (finish .get (staticResponse .get mime response))
      (finish .head (staticResponse .head mime response)) ↔ ¬ Unmeasured response := by
  obtain ⟨status, headers, body⟩ := response
  have hname : ∀ h : HeaderMap, (h.insertIfAbsent .xContentTypeOptions (text "nosniff")).getAll
      .contentLength = h.getAll .contentLength := by
    intro h
    rw [Multimap.getAll_insertIfAbsent, if_neg (fun hk => absurd hk.1 (by decide))]
  have hmime : (headers.insertIfAbsent .contentType mime).getAll .contentLength =
      headers.getAll .contentLength := by
    rw [Multimap.getAll_insertIfAbsent, if_neg (fun hk => absurd hk.1 (by decide))]
  cases body with
  | sync bytes =>
    have hlength : ((headers.insertIfAbsent .contentType mime).insertIfAbsent .contentLength
        (HeaderValue.fromNat bytes.length)).getAll .contentLength ≠ [] := by
      rw [Multimap.getAll_insertIfAbsent]
      split_ifs with h
      · simp
      · exact fun hnil => h ⟨rfl, hnil⟩
    have hself : ∀ value, (((headers.insertIfAbsent .contentType mime).insertIfAbsent .contentLength
        (HeaderValue.fromNat bytes.length)).insertIfAbsent .xContentTypeOptions
        (text "nosniff")).insertIfAbsent .contentLength value = _ :=
      Multimap.insertIfAbsent_eq_self (by rw [hname]; exact hlength)
    refine iff_of_true ⟨rfl, ?_, rfl⟩ (fun h => by cases h.1)
    simp only [finish, staticResponse, setDefaultNosniff, syncLength, insertContentLength, if_true,
      reduceCtorEq, if_false]
    rw [hself, hself]
  | async items =>
    simp only [Agrees, Unmeasured, finish, staticResponse, setDefaultNosniff, syncLength,
      insertContentLength, if_true, reduceCtorEq, if_false, true_and, and_true]
    constructor
    · intro h hnone
      have hg := congrArg (fun m => m.getAll .contentLength) h
      simp only [Multimap.getAll_insertIfAbsent, hname, hmime, hnone] at hg
      simp at hg
    · intro h
      exact Multimap.insertIfAbsent_eq_self (by rwa [hname, hmime]) _

theorem handler_of_outcome {req : Http.Request} {regs : List StaticRegistration} {key : Bytes}
    {response : Http.Response} (h : outcome req regs = .found key response) :
    ∃ r ∈ regs, r.handler (staticRequest req key) = some response := by
  induction regs with
  | nil => cases h
  | cons r regs ih =>
    rw [outcome] at h
    cases hp : staticPrefix r.pre with
    | error e =>
      rw [hp] at h
      cases h
    | ok prefixPath =>
      simp only [hp] at h
      split_ifs at h
      · cases hn : StaticFiles.normalizeStaticPath (rawStaticPath prefixPath req.uri.path) with
        | error e =>
          rw [hn] at h
          cases h
        | ok key' =>
          rw [hn] at h
          cases hh : r.handler (staticRequest req key') with
          | none => simp [hh] at h
          | some response' =>
            simp only [hh, Option.elim_some, Outcome.found.injEq] at h
            obtain ⟨rfl, rfl⟩ := h
            exact ⟨r, List.mem_cons_self, hh⟩
      · obtain ⟨r', hr', hresponse⟩ := ih h
        exact ⟨r', List.mem_cons_of_mem r hr', hresponse⟩

theorem outcome_method (req : Http.Request) (m : Method) (regs : List StaticRegistration) :
    outcome { req with method := m } regs = outcome req regs := by
  induction regs with
  | nil => rfl
  | cons r regs ih =>
    simp only [outcome, ih]
    rfl

theorem render_not_found {crates : Crates} {app : App} {core : HandlerCore}
    (h : core.selection = .notFound ∨ core.selection = .unclaimed ∧
      (crates.bestMatch core.ssrRouter core.req.uri.path).isNone) :
    (render crates app core).1 = finish core.req.method notFoundResponse := by
  obtain h | ⟨h, hnone⟩ := h
  · simp only [render, answer, h, Answer.merge, Option.map_none, Option.getD_none]
  · simp only [render, answer, h, Option.isNone_iff_eq_none.mp hnone, Option.map_none, Answer.merge,
      Option.getD_none]

theorem agrees_of_outcome {crates : Crates} {app : App} {coreG coreH : HandlerCore} {o : Outcome}
    (hget : coreG.req.method = .get) (hhead : coreH.req.method = .head)
    (hG : coreG.selection = o.selection crates .get)
    (hH : coreH.selection = o.selection crates .head)
    (hanswer : coreG.selection ≠ .unclaimed ∨
      (crates.bestMatch coreG.ssrRouter coreG.req.uri.path).isNone)
    (hpath : coreH.req.uri = coreG.req.uri) (hrouter : coreH.ssrRouter = coreG.ssrRouter) :
    Agrees (render crates app coreG).1 (render crates app coreH).1 ↔
      ∀ key response, o = .found key response → ¬ Unmeasured response := by
  cases o with
  | unmatched =>
    have hnone := hanswer.resolve_left fun h => h hG
    rw [render_not_found (Or.inr ⟨hG, hnone⟩),
      render_not_found (Or.inr ⟨hH, by rw [hpath, hrouter]; exact hnone⟩), hget, hhead]
    exact iff_of_true (finish_agrees _) (fun key response h => by cases h)
  | missing =>
    rw [render_not_found (Or.inl hG), render_not_found (Or.inl hH), hget, hhead]
    exact iff_of_true (finish_agrees _) (fun key response h => by cases h)
  | found key response =>
    rw [render_preset hG, render_preset hH, hget, hhead, finish_static_agrees_iff]
    constructor
    · intro h key' response' he
      cases he
      exact h
    · intro h
      exact h key response rfl

section Target

variable {crates : Crates} {app : App} {uri : Uri} {headers : HeaderMap} {config : HandlerConfig}
  {start : Method → HandlerCore} {regs : List StaticRegistration} {coreG : HandlerCore}

theorem head_agrees_converted {rejection : Option RequestPolicyError}
    (hstart : ∀ m, m = .get ∨ m = .head →
      start m = startCore rejection ⟨m, uri, headers, []⟩ config)
    (hG : (register crates (start .get) (regs.map StaticRegistration.call)).1 = .ok coreG)
    (hanswer : coreG.selection ≠ .unclaimed ∨
      (crates.bestMatch coreG.ssrRouter coreG.req.uri.path).isNone) :
    (start .head).req.method = .head ∧
      ∃ coreH, (register crates (start .head) (regs.map StaticRegistration.call)).1 = .ok coreH ∧
        (Agrees (render crates app coreG).1 (render crates app coreH).1 ↔
          ∀ key response, (start .get).selection = .unclaimed →
            outcome (start .get).req regs = .found key response → ¬ Unmeasured response) := by
  have hv := valid_of_register hG
  have hreq : ∀ m, m = .get ∨ m = .head → (start m).req = ⟨m, uri, headers, []⟩ := by
    intro m hm
    rw [hstart m hm]
    cases rejection <;> rfl
  have hgetReq := hreq .get (Or.inl rfl)
  have hheadReq := hreq .head (Or.inr rfl)
  have hrouter : (start .head).ssrRouter = (start .get).ssrRouter := by
    rw [hstart .get (Or.inl rfl), hstart .head (Or.inr rfl)]
    cases rejection <;> rfl
  obtain ⟨coreG', hG', hreqG, hrouterG, hselG⟩ :=
    register_statics crates (Or.inl (by rw [hgetReq]) : (start .get).req.method = .get ∨ _) hv
  obtain ⟨coreH, hH, hreqH, hrouterH, hselH⟩ :=
    register_statics crates (Or.inr (by rw [hheadReq]) : _ ∨ (start .head).req.method = .head) hv
  rw [hG', Except.ok.injEq] at hG
  subst hG
  refine ⟨by rw [hheadReq], coreH, hH, ?_⟩
  cases rejection with
  | some policy =>
    have hpolicy : ∀ m, m = .get ∨ m = .head →
        (start m).selection = .preset (policyResponse policy) .requestPolicy := by
      intro m hm
      rw [hstart m hm]
      rfl
    have hshort : ∀ m, m = .get ∨ m = .head → (start m).shortcut = true := by
      intro m hm
      rw [hstart m hm]
      rfl
    rw [hshort .get (Or.inl rfl), if_pos rfl, hpolicy .get (Or.inl rfl)] at hselG
    rw [hshort .head (Or.inr rfl), if_pos rfl, hpolicy .head (Or.inr rfl)] at hselH
    rw [render_preset hselG, render_preset hselH, hreqG, hreqH, hgetReq, hheadReq,
      hpolicy .get (Or.inl rfl)]
    exact iff_of_true (finish_agrees _) (fun key response h => by cases h)
  | none =>
    have hshort : ∀ m, m = .get ∨ m = .head → (start m).shortcut = false := by
      intro m hm
      rw [hstart m hm]
      rfl
    have hunclaimed := (shortcut_eq_false_iff _).mp (hshort .get (Or.inl rfl))
    rw [hshort .get (Or.inl rfl), if_neg (by decide), hgetReq] at hselG
    rw [hshort .head (Or.inr rfl), if_neg (by decide), hheadReq] at hselH
    rw [agrees_of_outcome (by rw [hreqG, hgetReq]) (by rw [hreqH, hheadReq]) hselG
      (hselH.trans (by rw [← outcome_method ⟨.get, uri, headers, []⟩ .head regs])) hanswer
      (by rw [hreqG, hreqH, hgetReq, hheadReq]) (by rw [hrouterG, hrouterH, hrouter]), hgetReq]
    simp only [hunclaimed, forall_const]

theorem head_disagrees_malformed (hm : MalformedStart config (start .get))
    (hG : (register crates (start .get) (regs.map StaticRegistration.call)).1 = .ok coreG) :
    (start .get).req.method = .get ∧
    ¬ Agrees (render crates app coreG).1 (render crates app coreG).1 := by
  obtain ⟨response, bytes, hne, hbody, hget⟩ := hm
  have hc : (start .get).shortcut = true := by
    rw [hget]
    rfl
  obtain ⟨hcore, -⟩ := register_claimed hc (Prod.ext hG rfl :
    register crates (start .get) (regs.map StaticRegistration.call) = (.ok coreG, _))
  have hbodyG : (render crates app coreG).1.body = response.body := by
    rw [render_after_claim hc hcore, hget, render_preset rfl]
    rfl
  refine ⟨by rw [hget]; rfl, fun hagrees => ?_⟩
  have hempty := hagrees.2.2
  rw [hbodyG, hbody] at hempty
  exact hne (Body.sync.inj hempty)

end Target

/-- A HEAD request agrees with the GET request of its target exactly when its
head is converted and no callback answers it with a stream that declares no
length. -/
theorem head_agrees_iff (crates : Crates) (app : App) (uri : Uri) (headers : HeaderMap)
    (config : HandlerConfig) (start : Method → HandlerCore) (hb : Built uri headers config start)
    (regs : List StaticRegistration) (coreG : HandlerCore)
    (hG : (register crates (start .get) (regs.map StaticRegistration.call)).1 = .ok coreG)
    (hanswer : coreG.selection ≠ .unclaimed ∨
      (crates.bestMatch coreG.ssrRouter coreG.req.uri.path).isNone) :
    ∃ coreH, (register crates (start .head) (regs.map StaticRegistration.call)).1 = .ok coreH ∧
      (Agrees (render crates app coreG).1 (render crates app coreH).1 ↔
        (start .head).req.method = .head ∧
          ∀ key response, (start .get).selection = .unclaimed →
            outcome (start .get).req regs = .found key response → ¬ Unmeasured response) := by
  obtain ⟨rejection, hstart⟩ | ⟨hm, hhead⟩ := built_cases hb
  · obtain ⟨hmethod, coreH, hH, hiff⟩ := head_agrees_converted hstart hG hanswer
    exact ⟨coreH, hH, hiff.trans (and_iff_right hmethod).symm⟩
  · obtain ⟨hmethod, hdisagrees⟩ := head_disagrees_malformed hm hG
    refine ⟨coreG, by rw [hhead]; exact hG, iff_of_false hdisagrees fun h => ?_⟩
    rw [hhead, hmethod] at h
    cases h.1

def pageFiles : StaticRegistration :=
  .files (.ok (pathUri "/pkg")) fun _ => some (.sync (text "page"))

def clipFiles : StaticRegistration :=
  .files (.ok (pathUri "/pkg")) fun _ => some (.async [.ok (text "frame")])

def fileCore (m : Method) : HandlerCore :=
  HandlerCore.new ⟨m, pathUri "/pkg/a.html", ∅, []⟩ .default

def serve (m : Method) (r : StaticRegistration) : Except RegistrationError Http.Response :=
  (register .originForm (fileCore m) ([r].map StaticRegistration.call)).1.map fun core =>
    (render .originForm .silent core).1

theorem fileCore_built : Built (pathUri "/pkg/a.html") ∅ .default fileCore :=
  .preview2 ⟨true, true, []⟩ fileCore fun m hm => by rcases hm with rfl | rfl <;> rfl

theorem head_agrees_buffered_file :
    ∃ get head, serve .get pageFiles = .ok get ∧
      serve .head pageFiles = .ok head ∧ Agrees get head := by
  have hv : Valid [pageFiles] := by
    intro r hr
    rw [List.mem_singleton.mp hr]
    exact ⟨text "/pkg", by decide +kernel⟩
  have hclaim : ((register .originForm (fileCore .get)
      ([pageFiles].map StaticRegistration.call)).1.toOption.any HandlerCore.shortcut) = true := by
    decide +kernel
  obtain ⟨coreG, hG, -⟩ :=
    register_statics .originForm (Or.inl rfl : (fileCore .get).req.method = .get ∨ _) hv
  have hanswer : coreG.selection ≠ .unclaimed := by
    rw [hG] at hclaim
    exact (shortcut_iff coreG).mp hclaim
  obtain ⟨coreH, hH, hiff⟩ := head_agrees_iff .originForm .silent (pathUri "/pkg/a.html") ∅ .default
    fileCore fileCore_built [pageFiles] coreG hG (Or.inl hanswer)
  refine ⟨_, _, by rw [serve, hG]; rfl, by rw [serve, hH]; rfl,
    hiff.mpr ⟨rfl, fun key response _ ho hu => ?_⟩⟩
  obtain ⟨r, hr, hresponse⟩ := handler_of_outcome ho
  rw [List.mem_singleton.mp hr] at hresponse
  cases hresponse
  cases hu.1

/-- The streamed file has no length for GET and the length zero for HEAD. -/
theorem head_disagrees_streamed_file :
    Preview2.buildWithConfig ⟨.ok ⟨.get, pathUri "/pkg/a.html", ∅, []⟩,
      .get, ⟨true, true, []⟩⟩ .default =
        some (.ok (fileCore .get)) ∧
      Preview2.buildWithConfig ⟨.ok ⟨.head, pathUri "/pkg/a.html", ∅, []⟩, .head, ⟨true, true, []⟩⟩
        .default = some (.ok (fileCore .head)) ∧
      (serve .get clipFiles).map (fun r => r.headers.getAll .contentLength) = .ok [] ∧
      (serve .head clipFiles).map (fun r => r.headers.getAll .contentLength) = .ok [text "0"] :=
  ⟨rfl, rfl, by decide +kernel, by decide +kernel⟩

end LeptosWasi.HeadAgreement
