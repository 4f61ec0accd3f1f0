import LeptosWasi.HeadAgreement
import LeptosWasi.Redirects

namespace LeptosWasi.Defaults

open Http Response Policy ServerFns LeptosWasi.Core Render Registration FirstClaim Redirects

/-- The values of a header that the application supplies: those of its own
response, under the response options of each merge. -/
def supplied (name : HeaderName) (own : HeaderMap) (merges : List HeaderMap) : List HeaderValue :=
  merges.foldl (fun values options => merged name values (options.getAll name)) (own.getAll name)

def textPlain : HeaderValue := text "text/plain; charset=utf-8"

def textHtml : HeaderValue := text "text/html; charset=utf-8"

/-- How a core is answered: the headers of the application's own response, the
response options of the merges after it, and the default content type. -/
inductive Answered (crates : Crates) (app : App) (core : HandlerCore) :
    HeaderMap → List HeaderMap → Option HeaderValue → Prop
  | error (status : StatusCode) (message : Bytes) (routeClass : RouteClass)
      (h : core.selection = .preset (plainResponse status message) routeClass) :
      Answered crates app core ∅ [] (some textPlain)
  | methodNotAllowed (routeClass : RouteClass)
      (h : core.selection = .preset methodNotAllowedResponse routeClass) :
      Answered crates app core ∅ [] (some textPlain)
  | notFound (h : core.selection = .notFound ∨ core.selection = .unclaimed ∧
      (crates.bestMatch core.ssrRouter core.req.uri.path).isNone) :
      Answered crates app core ∅ [] (some textPlain)
  | static (mime : HeaderValue) (response : Http.Response)
      (h : core.selection = .preset (staticResponse core.req.method mime response) .static) :
      Answered crates app core response.headers [] (some mime)
  | serverFn (handler : ServerFnHandler) (h : core.selection = .serverFn handler) :
      Answered crates app core (serverFnResult app core.req handler).1.headers
        [(serverFnResult app core.req handler).2.headers] none
  | ssr (listing : Routes.RouteListing) (rendering : Rendering) (h : core.selection = .unclaimed)
      (hmatch : crates.bestMatch core.ssrRouter core.req.uri.path = some listing)
      (hrendering : rendering = app.view core.req listing.mode
        (isIslandsRouterNavigation crates core.req) (app.context core.req .default)) :
      Answered crates app core ∅
        [rendering.options.headers,
          (rendering.late { rendering.options with headers := ∅ }).headers]
        (some textHtml)

structure MergedWith (method : Method) (own : HeaderMap) (merges : List HeaderMap)
    (default : Option HeaderValue) (response : Http.Response) : Prop where
  nosniff : response.headers.getAll .xContentTypeOptions = supplied .xContentTypeOptions own merges
  contentType : response.headers.getAll .contentType =
    if supplied .contentType own merges = [] then default.toList
      else supplied .contentType own merges
  contentLength : supplied .contentLength own merges ≠ [] →
    response.headers.getAll .contentLength = supplied .contentLength own merges
  measured : supplied .contentLength own merges = [] → method ≠ .head →
    response.headers.getAll .contentLength = [] ∨
      response.headers.getAll .contentLength =
        ((syncLength response.body).map HeaderValue.fromNat).toList

theorem merged_single {name : HeaderName} (hl : isListValued name = false)
    (own override : List HeaderValue) :
    merged name own override = if override = [] then own else override.getLast?.toList := by
  obtain rfl | ⟨init, last, rfl⟩ := List.eq_nil_or_concat override
  · simp
  · simp [merged, hl]

theorem supplied_getLast? {name : HeaderName} (hl : isListValued name = false) (own : HeaderMap)
    (merges : List HeaderMap) :
    (supplied name own merges).getLast? =
      (own.getAll name ++ merges.flatMap fun options => options.getAll name).getLast? := by
  rw [supplied]
  generalize own.getAll name = values
  induction merges generalizing values with
  | nil => simp
  | cons options merges ih =>
    rw [List.foldl_cons, ih, List.flatMap_cons, ← List.append_assoc, List.getLast?_append,
      List.getLast?_append, merged_single hl]
    congr 1
    obtain h | ⟨init, last, h⟩ := List.eq_nil_or_concat (options.getAll name)
    · simp [h]
    · simp [h]

theorem getAll_applyServerFnRedirect (parseUri : Bytes → Option (Option Bytes))
    (response : Http.Response)
    (acceptsHtml : Bool) (referrer : Option HeaderValue)
    {name : HeaderName} (hn : name ≠ .location) :
    (applyServerFnRedirect parseUri response acceptsHtml referrer).headers.getAll name =
      response.headers.getAll name := by
  rw [applyServerFnRedirect]
  simp only
  split
  · simp [hn]
  · split
    · split_ifs
      · simp [hn]
      · rfl
    · rfl

theorem setDefaultContentType_html (response : Http.Response) :
    setDefaultContentType response (text "text/html; charset=utf-8") =
      { response with headers := response.headers.insertIfAbsent .contentType textHtml } :=
  setDefaultContentType_eq response (by decide +kernel)

section Merge

variable {crates : Crates} {app : App} {core : HandlerCore}

theorem mergedWith_plain {status : StatusCode} {message : Bytes} :
    MergedWith core.req.method ∅ [] (some textPlain) (plainResponse status message) where
  nosniff := by
    simp [supplied, plainResponse, HeaderName.xContentTypeOptions, HeaderName.contentType]
  contentType := by simp [supplied, plainResponse, textPlain]
  contentLength := by simp [supplied]
  measured _ _ := Or.inl (by simp [plainResponse, HeaderName.contentLength, HeaderName.contentType])

theorem mergedWith_methodNotAllowed :
    MergedWith core.req.method ∅ [] (some textPlain) methodNotAllowedResponse where
  nosniff := by
    simp [supplied, methodNotAllowedResponse, plainResponse, HeaderName.xContentTypeOptions,
    HeaderName.contentType, HeaderName.allow]
  contentType := by simp [supplied, methodNotAllowedResponse, plainResponse, textPlain,
    HeaderName.contentType, HeaderName.allow]
  contentLength := by simp [supplied]
  measured _ _ :=
  Or.inl (by simp [methodNotAllowedResponse, plainResponse, HeaderName.contentLength,
    HeaderName.contentType, HeaderName.allow])

theorem mergedWith_static (mime : HeaderValue) (response : Http.Response) (method : Method) :
    MergedWith method response.headers [] (some mime) (staticResponse method mime response) := by
  have hmime : ∀ name, name ≠ .contentType →
      (response.headers.insertIfAbsent .contentType mime).getAll name =
      response.headers.getAll name := by
    intro name hn
    rw [Multimap.getAll_insertIfAbsent, if_neg (fun h => hn h.1)]
  have hget : ∀ name, (staticResponse method mime response).headers.getAll name =
      (insertContentLength (response.headers.insertIfAbsent .contentType mime)
        (syncLength response.body)).getAll name := fun _ => rfl
  constructor
  · rw [hget, getAll_insertContentLength, if_neg (fun h => absurd h.1 (by decide)),
      hmime _ (by decide)]
    rfl
  · rw [hget, getAll_insertContentLength, if_neg (fun h => absurd h.1 (by decide)),
      Multimap.getAll_insertIfAbsent]
    by_cases h : response.headers.getAll .contentType = [] <;> simp [supplied, h]
  · intro hne
    rw [hget, getAll_insertContentLength, hmime _ (by decide), if_neg (fun h => hne h.2)]
    rfl
  · intro hnone hhead
    right
    rw [hget, getAll_insertContentLength, hmime _ (by decide), if_pos ⟨rfl, hnone⟩]
    simp only [staticResponse, if_neg hhead]

theorem mergedWith_serverFn (method : Method) (response : Http.Response) (options : ResponseParts)
    (acceptsHtml : Bool) (referrer : Option HeaderValue) :
    MergedWith method response.headers [options.headers] none
      (extendResponse
        (applyServerFnRedirect crates.parseUri response acceptsHtml referrer) options).1 := by
  have hget : ∀ name, name ≠ .location →
    (extendResponse (applyServerFnRedirect crates.parseUri response
      acceptsHtml referrer) options).1.headers.getAll name =
        supplied name response.headers [options.headers] := by
    intro name hn
    rw [getAll_extendResponse, getAll_applyServerFnRedirect _ _ _ _ hn]
    rfl
  refine ⟨hget _ (by decide), ?_, fun _ => hget _ (by decide), fun hnone _ => Or.inl ?_⟩
  · rw [hget _ (by decide)]
    split_ifs with h
    · exact h
    · rfl
  · rw [hget _ (by decide), hnone]

/-- The default content type of an SSR response comes between the two merges. -/
theorem mergedWith_ssr (method : Method) (chunks : List Bytes) (options late : ResponseParts) :
    MergedWith method ∅ [options.headers, late.headers] (some textHtml)
      (extendResponse (fromApp chunks options).1 late).1 := by
  have hfirst : ∀ name, (fromApp chunks options).1.headers.getAll name =
      if name = .contentType ∧ supplied .contentType ∅ [options.headers] = [] then [textHtml]
      else supplied name ∅ [options.headers] := by
    intro name
    have hmerge : ∀ key,
      (extendResponse (Http.Response.new (.async (chunks.map .ok))) options).1.headers.getAll
        key = supplied key ∅ [options.headers] := fun key => getAll_extendResponse _ _ key
    simp only [fromApp]
    rw [setDefaultContentType_html, Multimap.getAll_insertIfAbsent, hmerge, hmerge]
  have hget : ∀ name, name ≠ .contentType →
      (extendResponse (fromApp chunks options).1 late).1.headers.getAll name =
        supplied name ∅ [options.headers, late.headers] := by
    intro name hn
    rw [getAll_extendResponse, hfirst, if_neg (fun h => hn h.1)]
    rfl
  have hbody : syncLength (extendResponse (fromApp chunks options).1 late).1.body = none := by
    simp only [fromApp, setDefaultContentType_html, extendResponse_body]
    rfl
  refine ⟨hget _ (by decide), ?_, fun _ => hget _ (by decide), fun hnone _ => Or.inl ?_⟩
  · have hlist : isListValued .contentType = false := by decide +kernel
    rw [getAll_extendResponse, hfirst, merged_single hlist]
    have hall : supplied .contentType ∅ [options.headers, late.headers] =
        merged .contentType (supplied .contentType ∅ [options.headers])
          (late.headers.getAll .contentType) := rfl
    rw [hall, merged_single hlist]
    obtain h | ⟨init, last, h⟩ := List.eq_nil_or_concat (late.headers.getAll .contentType)
    · simp [h]
    · simp [h]
  · rw [hget _ (by decide), hnone]

theorem answered_merged {own : HeaderMap} {merges : List HeaderMap} {default : Option HeaderValue}
    (h : Answered crates app core own merges default) :
    ∃ response, (render crates app core).1 = finish core.req.method response ∧
      MergedWith core.req.method own merges default response := by
  cases h with
  | error status message routeClass h => exact ⟨_, by rw [render_preset h], mergedWith_plain⟩
  | methodNotAllowed routeClass h => exact ⟨_, by rw [render_preset h], mergedWith_methodNotAllowed⟩
  | notFound h => exact ⟨_, HeadAgreement.render_not_found h, mergedWith_plain⟩
  | static mime response h => exact ⟨_, by rw [render_preset h], mergedWith_static mime response _⟩
  | serverFn handler h =>
    obtain ⟨acceptsHtml, referrer, hrender⟩ := render_serverFn crates app h
    exact ⟨_, hrender, mergedWith_serverFn _ _ _ acceptsHtml referrer⟩
  | ssr listing rendering h hmatch hrendering =>
    refine ⟨_, ?_, mergedWith_ssr core.req.method rendering.chunks rendering.options
      (rendering.late { rendering.options with headers := ∅ })⟩
    subst hrendering
    simp only [render, answer, h, hmatch, Option.map_some,
      answerSsr, Answer.merge, Option.getD_some]
    rfl

end Merge

section Registered

variable {crates : Crates}

inductive Answerable (method : Method) : Selection → Prop
  | unclaimed : Answerable method .unclaimed
  | notFound : Answerable method .notFound
  | error (status : StatusCode) (message : Bytes) (routeClass : RouteClass) :
      Answerable method (.preset (plainResponse status message) routeClass)
  | methodNotAllowed (routeClass : RouteClass) :
    Answerable method (.preset methodNotAllowedResponse routeClass)
  | static (mime : HeaderValue) (response : Http.Response) :
      Answerable method (.preset (staticResponse method mime response) .static)
  | serverFn (handler : ServerFnHandler) : Answerable method (.serverFn handler)

inductive BuiltCore (config : HandlerConfig) : HandlerCore → Prop
  | preview2 (incoming : Preview2.IncomingRequest) (core : HandlerCore)
      (h : Preview2.buildWithConfig incoming config = some (.ok core)) : BuiltCore config core
  | preview3 (collect : Preview3.LimitedCollect) (parts : Request) (body : Preview3.IncomingBody)
      (expired : Bool) (core : HandlerCore)
      (h : Preview3.buildWithConfig collect parts body config expired = .ok core) :
      BuiltCore config core

theorem answerable_of_request_error {error : Request.RequestError}
    {req : Request} {config : HandlerConfig}
    {core : HandlerCore} (h : Preview2.handlerFromRequestError error req config = .ok core) :
    Answerable core.req.method core.selection := by
  cases error with
  | http | wasiIo =>
    cases h
    exact .error _ _ _
  | bodyTooLarge _ | bodyReadTimeout _ | policy _ =>
    cases h
    exact .error _ _ _
  | bodyAlreadyConsumed | bodyStreamUnavailable | invalidHeaders => cases h

theorem answerable_of_built {config : HandlerConfig}
    {core : HandlerCore} (h : BuiltCore config core) :
    Answerable core.req.method core.selection := by
  cases h with
  | preview2 incoming _ h =>
    rw [Preview2.buildWithConfig] at h
    cases hp : incoming.parts with
    | error e =>
      simp only [hp, Option.some.injEq] at h
      exact answerable_of_request_error h
    | ok parts =>
      simp only [hp, Option.map_eq_some_iff] at h
      obtain ⟨collected, -, h⟩ := h
      cases collected with
      | error e => exact answerable_of_request_error h
      | ok body =>
        cases h
        exact .unclaimed
  | preview3 collect parts body expired _ h =>
    rw [Preview3.buildWithConfig] at h
    cases hi : Preview3.ingest collect parts body config expired with
    | error e =>
      rw [hi] at h
      cases h
    | ok ingested =>
      rw [hi] at h
      cases ingested <;> cases h
      · exact .unclaimed
      · exact .error _ _ _

theorem answerable_staticSelection (req : Request) (prefixPath : Bytes)
    (handler : StaticRequest → Option Http.Response) :
    Answerable req.method (staticSelection crates req prefixPath handler) := by
  rw [staticSelection]
  split_ifs with hm
  · exact .methodNotAllowed _
  · cases StaticFiles.normalizeStaticPath (rawStaticPath prefixPath req.uri.path) with
    | error e => exact .notFound
    | ok decoded =>
      cases hh : handler (staticRequest req decoded) <;> simp only [hh]
      · exact .notFound
      · exact .static _ _

theorem answerable_claimed (req : Request) (config : HandlerConfig) (call : BuilderCall) :
    Answerable req.method (claimed crates req config call) := by
  have hstatic : ∀ pre handler, Answerable req.method (staticClaim crates req pre handler) := by
    intro pre handler
    rw [staticClaim]
    cases staticPrefix pre with
    | error e => exact .unclaimed
    | ok prefixPath => exact answerable_staticSelection req prefixPath handler
  cases call with
  | withServerFn f => exact .serverFn _
  | staticFilesHandler pre handler => exact hstatic pre _
  | staticFilesHandlerWith pre handler => exact hstatic pre handler
  | generateRoutes _ _ | generateRoutesFrom _ => exact .unclaimed

theorem answerable_apply {core core' : HandlerCore} {call : BuilderCall} {effects : List Effect}
    (ha : Answerable core.req.method core.selection)
    (h : call.apply crates core = (.ok core', effects)) :
    Answerable core'.req.method core'.selection := by
  cases hs : core.shortcut with
  | true =>
    rw [(apply_claimed hs h).1]
    exact ha
  | false =>
    have hstep := apply_unclaimed hs h
    rw [hstep.req, hstep.selection]
    split_ifs
    · exact answerable_claimed _ _ _
    · exact .unclaimed

theorem answerable_register {core core' : HandlerCore}
    {calls : List BuilderCall} {effects : List Effect}
    (ha : Answerable core.req.method core.selection)
    (h : register crates core calls = (.ok core', effects)) :
    Answerable core'.req.method core'.selection := by
  induction calls generalizing core effects with
  | nil =>
    cases h
    exact ha
  | cons call calls ih =>
    obtain ⟨mid, e₁, e₂, hstep, hrest, -⟩ := register_cons h
    exact ih (answerable_apply ha hstep) hrest

theorem answered_of_answerable (app : App) {core : HandlerCore}
    (h : Answerable core.req.method core.selection) :
    ∃ own merges default, Answered crates app core own merges default := by
  cases hs : core.selection with
  | unclaimed =>
    cases hmatch : crates.bestMatch core.ssrRouter core.req.uri.path with
    | none => exact ⟨_, _, _, .notFound (Or.inr ⟨hs, by rw [hmatch]; rfl⟩)⟩
    | some listing => exact ⟨_, _, _, .ssr listing _ hs hmatch rfl⟩
  | notFound => exact ⟨_, _, _, .notFound (Or.inl hs)⟩
  | serverFn handler => exact ⟨_, _, _, .serverFn handler hs⟩
  | preset response routeClass =>
    rw [hs] at h
    cases h with
    | error status message => exact ⟨_, _, _, .error status message routeClass hs⟩
    | methodNotAllowed => exact ⟨_, _, _, .methodNotAllowed routeClass hs⟩
    | static mime response => exact ⟨_, _, _, .static mime response hs⟩

end Registered

/-- What the application supplies is what is sent. The defaults fill in only
what it leaves open. -/
theorem application_headers_win (crates : Crates) (app : App) (config : HandlerConfig)
    (start core : HandlerCore) (calls : List BuilderCall) (hstart : BuiltCore config start)
    (hcore : (register crates start calls).1 = .ok core) :
    (∃ own merges default, Answered crates app core own merges default) ∧
      ∀ own merges default, Answered crates app core own merges default →
        (∀ name, name = .xContentTypeOptions ∨ name = .contentType ∨ name = .contentLength →
          supplied name own merges ≠ [] →
            (render crates app core).1.headers.getAll name = supplied name own merges ∧
            ((render crates app core).1.headers.getAll name).getLast? =
              (own.getAll name ++ merges.flatMap fun options => options.getAll name).getLast?) ∧
        (supplied .xContentTypeOptions own merges = [] →
          (render crates app core).1.headers.getAll .xContentTypeOptions = [text "nosniff"]) ∧
        (supplied .contentType own merges = [] →
          (render crates app core).1.headers.getAll .contentType = default.toList) ∧
        (supplied .contentLength own merges = [] → core.req.method ≠ .head →
          (render crates app core).1.headers.getAll .contentLength =
            ((syncLength (render crates app core).1.body).map HeaderValue.fromNat).toList) := by
  refine ⟨answered_of_answerable app (answerable_register (answerable_of_built hstart)
    (Prod.ext hcore rfl : register crates start calls = (.ok core, _))), ?_⟩
  intro own merges default hanswered
  obtain ⟨response, hrender, hmerged⟩ := answered_merged hanswered
  rw [hrender]
  refine ⟨fun name hname hne => ?_, fun hnone => ?_, fun hnone => ?_, fun hnone hhead => ?_⟩
  · have hget :
      (finish core.req.method response).headers.getAll name = supplied name own merges := by
      rw [getAll_finish]
      obtain rfl | rfl | rfl := hname
      · rw [if_neg (fun h => absurd h.1 (by decide)), hmerged.nosniff, if_neg (fun h => hne h.2)]
      · rw [if_neg (fun h => absurd h.1 (by decide)), if_neg (fun h => absurd h.1 (by decide)),
          hmerged.contentType, if_neg hne]
      · rw [hmerged.contentLength hne, if_neg (fun h => hne h.2),
          if_neg (fun h => absurd h.1 (by decide))]
    refine ⟨hget, ?_⟩
    rw [hget]
    exact supplied_getLast? (by rcases hname with rfl | rfl | rfl <;> decide +kernel) own merges
  · rw [getAll_finish, if_neg (fun h => absurd h.1 (by decide)),
      hmerged.nosniff, if_pos ⟨rfl, hnone⟩]
  · rw [getAll_finish, if_neg (fun h => absurd h.1 (by decide)),
      if_neg (fun h => absurd h.1 (by decide)),
      hmerged.contentType, if_pos hnone]
  · have hbody : (finish core.req.method response).body = response.body := if_neg hhead
    rw [getAll_finish, hbody]
    obtain h | h := hmerged.measured hnone hhead
    · rw [if_pos ⟨rfl, h⟩]
    · by_cases hnil : response.headers.getAll .contentLength = []
      · rw [if_pos ⟨rfl, hnil⟩]
      · rw [if_neg (fun hk => hnil hk.2), if_neg (fun hk => absurd hk.1 (by decide)), h]

def firstRouteCrates : Crates :=
  { Crates.originForm with bestMatch := fun table _ => table.router.head?.map Prod.snd }

def sniffedApp : App where
  context _ options := options
  view _ _ _ options :=
  ⟨[text "page"], options.insertHeader .xContentTypeOptions (text "allow"), id⟩

def rootTable : Routes.RouteTable := ⟨[(⟨[.slash]⟩, ⟨.async⟩)]⟩

def rootCore : HandlerCore := HandlerCore.new ⟨.get, pathUri "/", ∅, []⟩ .default

theorem application_headers_win_ssr :
    ∃ core, (register firstRouteCrates rootCore [.generateRoutesFrom rootTable]).1 = .ok core ∧
      (render firstRouteCrates sniffedApp core).1.headers.getAll .xContentTypeOptions =
      [text "allow"] ∧
      (render firstRouteCrates sniffedApp core).1.headers.getAll .contentType = [textHtml] := by
  obtain ⟨-, hwin⟩ := application_headers_win firstRouteCrates sniffedApp .default rootCore _
    [.generateRoutesFrom rootTable]
    (.preview2 ⟨.ok ⟨.get, pathUri "/", ∅, []⟩, .get, ⟨true, true, []⟩⟩ rootCore rfl) rfl
  obtain ⟨hsupplied, -, htype, -⟩ := hwin _ _ _ (.ssr ⟨.async⟩ _ rfl rfl rfl)
  exact ⟨_, rfl, (hsupplied .xContentTypeOptions (Or.inl rfl) (by decide +kernel)).1.trans
    (by decide +kernel), htype (by decide +kernel)⟩

end LeptosWasi.Defaults
