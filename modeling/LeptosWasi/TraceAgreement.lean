import LeptosWasi.FirstClaim
import LeptosWasi.Trace

namespace LeptosWasi.TraceAgreement

open Http Policy Routes ServerFns LeptosWasi.Core Render Registration Trace

inductive Built (config : HandlerConfig) : HandlerCore → Prop
  | preview2 (request : Preview2.IncomingRequest) (start : HandlerCore)
      (h : Preview2.buildWithConfig request config = some (.ok start)) : Built config start
  | preview3 (collect : Preview3.LimitedCollect)
      (parts : Http.Request) (body : Preview3.IncomingBody)
      (expired : Bool) (start : HandlerCore)
      (h : Preview3.buildWithConfig collect parts body config expired = .ok start) :
      Built config start

/-- What is known of a core between its calls: a traced path comes with a
claim, and a server function that runs was registered. -/
structure Traced (config : HandlerConfig) (calls : List BuilderCall)
    (core : HandlerCore) : Prop where
  sameConfig : core.config = config
  claimed : core.selection = .unclaimed → core.tracePath = none
  registered : ∀ handler, core.selection = .serverFn handler →
    ∃ f, .withServerFn f ∈ calls ∧ handler = boxedHandler f config.maxRequestBodySize

section

variable {crates : Crates} {config : HandlerConfig}

theorem traced_new (calls : List BuilderCall) (req : Http.Request) :
    Traced config calls (HandlerCore.new req config) :=
  ⟨rfl, fun _ => rfl, fun _ h => by cases h⟩

theorem traced_preset (calls : List BuilderCall) (req : Http.Request) (response : Http.Response)
    (routeClass : RouteClass) :
    Traced config calls ((HandlerCore.new req config).withPreset response routeClass) :=
  ⟨rfl, fun _ => rfl, fun _ h => by cases h⟩

theorem traced_requestError {error : Request.RequestError}
    {req : Http.Request} {start : HandlerCore}
    (calls : List BuilderCall) (h : Preview2.handlerFromRequestError error req config = .ok start) :
    Traced config calls start := by
  unfold Preview2.handlerFromRequestError at h
  split at h
  · cases h
    exact traced_preset calls req _ _
  · cases h
    exact traced_preset calls req _ _
  · cases h
    exact traced_preset calls req _ _
  · split at h
    · cases h
      exact traced_preset calls req _ _
    · cases h

theorem traced_built {start : HandlerCore} (calls : List BuilderCall) (h : Built config start) :
    Traced config calls start := by
  cases h with
  | preview2 request _ h =>
    unfold Preview2.buildWithConfig at h
    cases hparts : request.parts with
    | error e =>
      rw [hparts] at h
      exact traced_requestError calls (Option.some.inj h)
    | ok parts =>
      simp only [hparts, Option.map_eq_some_iff] at h
      obtain ⟨collected, -, h⟩ := h
      cases collected with
      | ok body =>
        cases h
        exact traced_new calls _
      | error e => exact traced_requestError calls h
  | preview3 collect parts body expired _ h =>
    rw [Preview3.buildWithConfig] at h
    cases hi : Preview3.ingest collect parts body config expired with
    | error e =>
      rw [hi] at h
      cases h
    | ok ingested =>
      rw [hi] at h
      cases ingested with
      | collected parts body =>
        cases h
        exact traced_new calls _
      | rejected parts policy =>
        cases h
        exact traced_preset calls _ _ _

theorem claimed_serverFn {req : Http.Request} {call : BuilderCall} {handler : ServerFnHandler}
    (h : claimed crates req config call = .serverFn handler) :
    ∃ f, call = .withServerFn f ∧ handler = boxedHandler f config.maxRequestBodySize := by
  have hstatic : ∀ pre found, staticClaim crates req pre found ≠ .serverFn handler := by
    intro pre found
    rw [staticClaim]
    cases staticPrefix pre with
    | error e => simp
    | ok prefixPath =>
      simp only [staticSelection]
      split_ifs
      · simp
      · cases StaticFiles.normalizeStaticPath (rawStaticPath prefixPath req.uri.path) with
        | error e => simp
        | ok decoded => cases hfound : found (staticRequest req decoded) <;> simp [hfound]
  cases call with
  | withServerFn f =>
    rw [claimed, Selection.serverFn.injEq] at h
    exact ⟨f, rfl, h.symm⟩
  | staticFilesHandler pre found => exact absurd h (hstatic pre _)
  | staticFilesHandlerWith pre found => exact absurd h (hstatic pre found)
  | generateRoutes discovered excluded => cases h
  | generateRoutesFrom table => cases h

theorem staticFilesHandlerWith_tracePath {core core' : HandlerCore} {pre : Except Bytes Uri}
    {found : StaticRequest → Option Http.Response}
    {effects : List Effect} (hu : core.shortcut = false)
    (h : staticFilesHandlerWith crates core pre found = (.ok core', effects))
    (hsel : core'.selection = .unclaimed) : core'.tracePath = core.tracePath := by
  obtain ⟨prefixPath, -, hm⟩ := staticFilesHandlerWith_unclaimed hu h
  split_ifs at hm
  · obtain ⟨rfl, -⟩ := hm
    rw [claimStatic_core] at hsel
    exact absurd hsel (staticSelection_ne_unclaimed core.req prefixPath found)
  · rw [hm.1]

theorem apply_tracePath {core core' : HandlerCore} {call : BuilderCall} {effects : List Effect}
    (hu : core.shortcut = false) (h : call.apply crates core = (.ok core', effects))
    (hsel : core'.selection = .unclaimed) : core'.tracePath = core.tracePath := by
  cases call with
  | withServerFn f =>
    simp only [BuilderCall.apply, HandlerCore.withServerFn, Prod.mk.injEq, Except.ok.injEq] at h
    rw [← h.1]
    split_ifs <;> rfl
  | staticFilesHandler pre found =>
    simp only [BuilderCall.apply, Core.staticFilesHandler] at h
    exact staticFilesHandlerWith_tracePath hu h hsel
  | staticFilesHandlerWith pre found => exact staticFilesHandlerWith_tracePath hu h hsel
  | generateRoutes discovered excluded =>
    simp only [BuilderCall.apply, generateRoutesWithExclusionsAndDiscoveryContext,
      hu, Bool.false_eq_true,
      if_false] at h
    split_ifs at h
    · cases h
    · split at h
      · cases h
      · cases h
        rfl
  | generateRoutesFrom table =>
    simp only [BuilderCall.apply, Core.generateRoutesFrom, hu, Bool.false_eq_true, if_false] at h
    split_ifs at h
    · cases h
    · cases h
      rfl

theorem Traced.apply {calls : List BuilderCall} {core core' : HandlerCore} {call : BuilderCall}
    {effects : List Effect} (ht : Traced config calls core) (hcall : call ∈ calls)
    (h : call.apply crates core = (.ok core', effects)) : Traced config calls core' := by
  cases hc : core.shortcut with
  | true =>
    obtain ⟨hcore, -⟩ := apply_claimed hc h
    rw [hcore]
    exact ⟨ht.sameConfig, ht.claimed, ht.registered⟩
  | false =>
    have hstep := apply_unclaimed hc h
    have hunclaimed := (shortcut_eq_false_iff core).mp hc
    refine ⟨hstep.config.trans ht.sameConfig, fun hsel => ?_, fun handler hsel => ?_⟩
    · rw [apply_tracePath hc h hsel, ht.claimed hunclaimed]
    · rw [hstep.selection] at hsel
      split_ifs at hsel
      obtain ⟨f, rfl, rfl⟩ := claimed_serverFn hsel
      exact ⟨f, hcall, by rw [ht.sameConfig]⟩

theorem Traced.register {calls more : List BuilderCall}
    {core core' : HandlerCore} {effects : List Effect}
    (ht : Traced config calls core) (hmore : more ⊆ calls)
    (h : register crates core more = (.ok core', effects)) : Traced config calls core' := by
  induction more generalizing core effects with
  | nil =>
    cases h
    exact ht
  | cons call more ih =>
    obtain ⟨mid, e₁, e₂, happly, hrest, -⟩ := register_cons h
    exact ih (ht.apply (hmore List.mem_cons_self) happly)
      (fun c hc => hmore (List.mem_cons_of_mem _ hc)) hrest

def withQuery (core : HandlerCore) (query : Option Bytes) : HandlerCore :=
  { core with req := { core.req with uri := { core.req.uri with query := query } } }

@[simp] theorem withQuery_shortcut (core : HandlerCore) (query : Option Bytes) :
    (withQuery core query).shortcut = core.shortcut := rfl

@[simp] theorem withQuery_method (core : HandlerCore) (query : Option Bytes) :
    (withQuery core query).req.method = core.req.method := rfl

@[simp] theorem withQuery_path (core : HandlerCore) (query : Option Bytes) :
    (withQuery core query).req.uri.path = core.req.uri.path := rfl

@[simp] theorem withQuery_routesRegistered (core : HandlerCore) (query : Option Bytes) :
    (withQuery core query).routesRegistered = core.routesRegistered := rfl

@[simp] theorem withQuery_staticRequest (core : HandlerCore)
    (query : Option Bytes) (decoded : Bytes) :
    staticRequest (withQuery core query).req decoded = staticRequest core.req decoded := rfl

theorem claimStatic_withQuery (core : HandlerCore) (query : Option Bytes) (prefixPath : Bytes)
    (found : StaticRequest → Option Http.Response) :
    claimStatic crates (withQuery core query) prefixPath found =
      (withQuery (claimStatic crates core prefixPath found).1 query,
        (claimStatic crates core prefixPath found).2) := by
  have hmethod :
    ({ withQuery core query with tracePath := some prefixPath } : HandlerCore).req.method =
      core.req.method := rfl
  rw [claimStatic, claimStatic, hmethod]
  split_ifs
  · rfl
  · simp only [withQuery_path, withQuery_method, withQuery_staticRequest]
    cases StaticFiles.normalizeStaticPath (rawStaticPath prefixPath core.req.uri.path) with
    | error e => rfl
    | ok decoded =>
      cases hfound : found (staticRequest core.req decoded) <;> simp only [hfound] <;> rfl

theorem staticFilesHandlerWith_withQuery (core : HandlerCore)
    (query : Option Bytes) (pre : Except Bytes Uri)
    (found : StaticRequest → Option Http.Response) :
    staticFilesHandlerWith crates (withQuery core query) pre found =
      ((staticFilesHandlerWith crates core pre found).1.map (withQuery · query),
        (staticFilesHandlerWith crates core pre found).2) := by
  rw [staticFilesHandlerWith, staticFilesHandlerWith]
  cases staticPrefix pre with
  | error e => rfl
  | ok prefixPath =>
    simp only [withQuery_shortcut, withQuery_path, claimStatic_withQuery]
    split_ifs <;> rfl

theorem withServerFn_withQuery (core : HandlerCore) (query : Option Bytes) (f : ServerFn) :
    (withQuery core query).withServerFn f = withQuery (core.withServerFn f) query := by
  rw [HandlerCore.withServerFn, HandlerCore.withServerFn,
    withQuery_shortcut, withQuery_method, withQuery_path]
  split_ifs <;> rfl

theorem apply_withQuery (core : HandlerCore) (query : Option Bytes) (call : BuilderCall) :
    call.apply crates (withQuery core query) =
      ((call.apply crates core).1.map (withQuery · query), (call.apply crates core).2) := by
  cases call with
  | withServerFn f =>
    rw [BuilderCall.apply, BuilderCall.apply, withServerFn_withQuery]
    rfl
  | staticFilesHandler pre found =>
    exact staticFilesHandlerWith_withQuery core query pre fun request =>
      (found request.path).map Http.Response.new
  | staticFilesHandlerWith pre found => exact staticFilesHandlerWith_withQuery core query pre found
  | generateRoutes discovered excluded =>
    rw [BuilderCall.apply, BuilderCall.apply, generateRoutesWithExclusionsAndDiscoveryContext,
      generateRoutesWithExclusionsAndDiscoveryContext,
      withQuery_routesRegistered, withQuery_shortcut]
    split_ifs
    · rfl
    · rfl
    · cases validatedRouteTable crates.routeSpec discovered excluded <;> rfl
  | generateRoutesFrom table =>
    rw [BuilderCall.apply, BuilderCall.apply, Core.generateRoutesFrom, Core.generateRoutesFrom,
      withQuery_routesRegistered, withQuery_shortcut]
    split_ifs <;> rfl

theorem register_withQuery (core : HandlerCore) (query : Option Bytes) (calls : List BuilderCall) :
    register crates (withQuery core query) calls =
      ((register crates core calls).1.map (withQuery · query), (register crates core calls).2) := by
  induction calls generalizing core with
  | nil => rfl
  | cons call calls ih =>
    rw [register, register, apply_withQuery]
    cases happly : call.apply crates core with
    | mk result effects =>
      cases result with
      | error e => rfl
      | ok mid => simp only [Except.map, ih]

theorem new_withQuery (core : HandlerCore) (query : Option Bytes) (preview : String) :
    RequestTrace.new crates (withQuery core query) preview = RequestTrace.new crates core preview :=
    rfl

end

def modeNames : List (SsrMode × String) :=
  [(.async, "async"), (.inOrder, "in_order"), (.partiallyBlocked, "partially_blocked"),
    (.outOfOrder, "out_of_order"), (.static, "static")]

def presetNames : List (RouteClass × String) :=
  [(.static, "static"), (.requestPolicy, "request_policy")]

structure Fallback (method : Method) (response : Http.Response) : Prop where
  status : response.status.code = 404
  contentType : response.headers.getAll "content-type" = [text "text/plain; charset=utf-8"]
  body : response.body = .sync (if method = .head then [] else text "404 not found")

/-- The route class and the mode of a trace are those of the response that
`render` makes of the core. -/
structure Describes (crates : Crates) (core : HandlerCore) (trace : RequestTrace) : Prop where
  ssr : ∀ app, trace.routeClass = "ssr" ↔ .appRender ∈ (render crates app core).2
  notFound : ∀ app, trace.routeClass = "not_found" ↔ (answer crates app core).response = none
  fallback : trace.routeClass = "not_found" →
    ∀ app, Fallback core.req.method (render crates app core).1
  serverFn : ∀ app, trace.routeClass = "server_fn" ↔ .serverFn ∈ (render crates app core).2
  preset : ∀ response routeClass, core.selection = .preset response routeClass →
    (routeClass, trace.routeClass) ∈ presetNames ∧
      ∀ app, render crates app core = (finish core.req.method response, [])
  other : trace.routeClass ∉ ["ssr", "not_found", "server_fn"] →
    ∃ response routeClass, core.selection = .preset response routeClass
  mode : trace.routeClass = "ssr" → ∃ mode, (mode, trace.ssrMode) ∈ modeNames ∧
    ∀ app, answer crates app core = answerSsr crates app core.req mode
  noMode : trace.routeClass ≠ "ssr" → trace.ssrMode = "none"

section

variable {crates : Crates} {core : HandlerCore}

theorem ssrModeName_mem (mode : SsrMode) : (mode, ssrModeName mode) ∈ modeNames := by
  cases mode <;> decide

theorem fallback_of_answer {app : App} (h : answer crates app core = ⟨none, .default, []⟩) :
    Fallback core.req.method (render crates app core).1 := by
  have hrender : (render crates app core).1 = finish core.req.method notFoundResponse := by
    rw [render, h]
    rfl
  have htype : (finish core.req.method notFoundResponse).headers.getAll .contentType =
      notFoundResponse.headers.getAll .contentType := by
    rw [getAll_finish, if_neg (fun h => absurd h.1 (by decide)),
      if_neg (fun h => absurd h.1 (by decide))]
  rw [hrender]
  refine ⟨rfl, htype, ?_⟩
  by_cases hhead : core.req.method = .head
  · simp [finish, hhead]
  · simp [finish, hhead, setDefaultNosniff, notFoundResponse, plainResponse]

theorem describes_unclaimed (hsel : core.selection = .unclaimed) (hpath : core.tracePath = none)
    (preview : String) : Describes crates core (RequestTrace.new crates core preview) := by
  have htrace : tracePath core = core.req.uri.path := by rw [tracePath, hpath, Option.getD_none]
  cases hbest : crates.bestMatch core.ssrRouter core.req.uri.path with
  | none =>
    have hclass : (RequestTrace.new crates core preview).routeClass = "not_found" := by
      simp [RequestTrace.new, hsel, htrace, hbest]
    have hmode : (RequestTrace.new crates core preview).ssrMode = "none" := by
      simp [RequestTrace.new, hsel, htrace, hbest]
    have hanswer : ∀ app, answer crates app core = ⟨none, .default, []⟩ := by
      intro app
      simp [answer, hsel, hbest]
    exact
      { ssr := fun app => by simp [hclass, render, hanswer]
        notFound := fun app => by simp [hclass, hanswer]
        fallback := fun _ app => fallback_of_answer (hanswer app)
        serverFn := fun app => by simp [hclass, render, hanswer]
        preset := fun response routeClass h => by rw [hsel] at h; cases h
        other := fun h => absurd h (by simp [hclass])
        mode := fun h => absurd h (by simp [hclass])
        noMode := fun _ => hmode }
  | some listing =>
    have hclass : (RequestTrace.new crates core preview).routeClass = "ssr" := by
      simp [RequestTrace.new, hsel, htrace, hbest]
    have hmode : (RequestTrace.new crates core preview).ssrMode = ssrModeName listing.mode := by
      simp [RequestTrace.new, hsel, htrace, hbest]
    have hanswer : ∀ app, answer crates app core = answerSsr crates app core.req listing.mode := by
      intro app
      simp [answer, hsel, hbest]
    exact
      { ssr := fun app => by simp [hclass, render, hanswer, answerSsr]
        notFound := fun app => by simp [hclass, hanswer, answerSsr]
        fallback := fun h => absurd h (by simp [hclass])
        serverFn := fun app => by simp [hclass, render, hanswer, answerSsr]
        preset := fun response routeClass h => by rw [hsel] at h; cases h
        other := fun h => absurd h (by simp [hclass])
        mode := fun _ => ⟨listing.mode, hmode ▸ ssrModeName_mem listing.mode, hanswer⟩
        noMode := fun h => absurd hclass h }

theorem describes_claimed (hsel : core.selection ≠ .unclaimed) (preview : String) :
    Describes crates core (RequestTrace.new crates core preview) := by
  cases hs : core.selection with
  | unclaimed => exact absurd hs hsel
  | notFound =>
    have hanswer : ∀ app, answer crates app core = ⟨none, .default, []⟩ := fun app => by
      rw [answer, hs]
    constructor
    case fallback => exact fun _ app => fallback_of_answer (hanswer app)
    all_goals simp [RequestTrace.new, hanswer, render, hs]
  | preset response routeClass =>
    have hrender : ∀ app, render crates app core = (finish core.req.method response, []) :=
      fun app => FirstClaim.render_preset hs
    constructor <;> cases routeClass <;>
      simp [RequestTrace.new, answer, hrender, hs, routeClassName, presetNames]
  | serverFn handler =>
    constructor <;> simp [RequestTrace.new, answer, answerServerFn, render, hs]

end

/-- The body limit was enforced before the server function is reached. -/
theorem boxedHandler_within {f : ServerFn} {limit : Nat}
    {req : Http.Request} (h : req.body.length ≤ limit)
    (crates : Crates) (app : App) :
    answerServerFn crates app req
      (boxedHandler f limit) = answerServerFn crates app req f.runOnServer := by
  have hlimit : ¬ limit < req.body.length := by omega
  simp only [answerServerFn, boxedHandler, if_neg hlimit]

theorem selected_of_serverFn {crates : Crates} {app : App} {core : HandlerCore}
    (h : .serverFn ∈ (render crates app core).2) :
    ∃ handler, core.selection = .serverFn handler := by
  cases hsel : core.selection with
  | serverFn handler => exact ⟨handler, rfl⟩
  | notFound => simp [render, answer, hsel] at h
  | preset response routeClass => simp [render, answer, hsel] at h
  | unclaimed =>
    cases hbest : crates.bestMatch core.ssrRouter core.req.uri.path <;>
      simp [render, answer, answerSsr, hsel, hbest] at h

/-- The trace that is made just before a response is rendered describes that
response, and nothing of it depends on the query. -/
theorem trace_describes_response {crates : Crates}
    {config : HandlerConfig} {start core : HandlerCore}
    {calls : List BuilderCall} {effects : List Effect} (hstart : Built config start)
    (h : register crates start calls = (.ok core, effects)) (preview : String) :
    Describes crates core (RequestTrace.new crates core preview) ∧
    (core.req.body.length ≤ config.maxRequestBodySize →
      ((RequestTrace.new crates core preview).routeClass = "server_fn" ↔
        ∃ f, .withServerFn f ∈ calls ∧
        ∀ app, answer crates app core = answerServerFn crates app core.req f.runOnServer)) ∧
    ∀ query, register crates (withQuery start query) calls = (.ok (withQuery core query), effects) ∧
      RequestTrace.new crates
        (withQuery core query) preview = RequestTrace.new crates core preview := by
  have ht : Traced config calls core :=
    (traced_built calls hstart).register (List.Subset.refl calls) h
  have hdescribes : Describes crates core (RequestTrace.new crates core preview) := by
    by_cases hsel : core.selection = .unclaimed
    · exact describes_unclaimed hsel (ht.claimed hsel) preview
    · exact describes_claimed hsel preview
  refine ⟨hdescribes, fun hbody => ⟨fun hclass => ?_, ?_⟩,
    fun query => ⟨?_, new_withQuery core query preview⟩⟩
  · obtain ⟨handler, hsel⟩ := selected_of_serverFn ((hdescribes.serverFn .silent).mp hclass)
    obtain ⟨f, hf, rfl⟩ := ht.registered handler hsel
    refine ⟨f, hf, fun app => ?_⟩
    rw [← boxedHandler_within hbody, answer, hsel]
  · rintro ⟨f, -, hanswer⟩
    rw [hdescribes.serverFn .silent, render, hanswer]
    simp [answerServerFn]
  · rw [register_withQuery, h]
    rfl

def assetFiles : BuilderCall :=
  .staticFilesHandler (.ok (pathUri "/static")) fun _ => some (.sync (text "asset"))

def assetRequest : Http.Request :=
  ⟨.get, ⟨none, none, text "/static/nested%20asset.js", some (text "v=1")⟩, ∅, []⟩

/-- A file under a static prefix is traced under its normalized path. -/
theorem trace_describes_response_static :
    ∃ core effects, register .originForm (HandlerCore.new assetRequest .default)
      [assetFiles] = (.ok core, effects) ∧
      Describes .originForm core (RequestTrace.new .originForm core "p2") ∧
      (RequestTrace.new .originForm core "p2").path = text "/static/nested asset.js" := by
  have hbuilt : Built .default (HandlerCore.new assetRequest .default) :=
    .preview2 ⟨.ok assetRequest, .get, ⟨true, true, []⟩⟩ _ rfl
  cases h : register .originForm (HandlerCore.new assetRequest .default) [assetFiles] with
  | mk result effects =>
    have hpath : (register .originForm (HandlerCore.new assetRequest .default)
      [assetFiles]).1.toOption.map tracePath =
        some (text "/static/nested asset.js") := by decide +kernel
    rw [h] at hpath
    cases result with
    | error e => cases hpath
    | ok core => exact ⟨core, effects, rfl, (trace_describes_response hbuilt h "p2").1,
        Option.some.inj hpath⟩

end LeptosWasi.TraceAgreement
