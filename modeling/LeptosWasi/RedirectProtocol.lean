import LeptosWasi.OptionsMerge
import LeptosWasi.Redirects
import LeptosWasi.Utils

namespace LeptosWasi.RedirectProtocol

open Http Response Routes ServerFns HttpUtil LeptosWasi.Core Render OptionsMerge Redirects Utils

def lastValid (paths : List Bytes) : Option HeaderValue :=
  (paths.filterMap HeaderValue.fromStr).getLast?

/-- The status that is left. The last call decides it for a client that accepts
HTML. For another client only a path that is no header value sets one, and no
later call takes it back. -/
def redirectStatus (html : Bool) (paths : List Bytes) : Option StatusCode :=
  if html then
    paths.getLast?.map fun path => if (HeaderValue.fromStr path).isSome then .found else .badRequest
  else if paths.all fun path => (HeaderValue.fromStr path).isSome then none
  else some .badRequest

/-- What redirects make of the response that would be sent without them. -/
structure Redirected (req : Request) (paths : List Bytes)
    (plain directed : Http.Response) : Prop where
  status : directed.status = (redirectStatus (acceptsHtml req.headers) paths).getD plain.status
  location : directed.headers.getAll .location =
    match lastValid paths with
    | some value => [value]
    | none => plain.headers.getAll .location
  client : directed.headers.getAll redirectHeader =
    if acceptsHtml req.headers = false ∧ (lastValid paths).isSome then [[]]
    else plain.headers.getAll redirectHeader
  others : ∀ name, name ≠ .location → name ≠ redirectHeader →
    directed.headers.getAll name = plain.headers.getAll name
  body : directed.body = plain.body

section Options

variable {req : Request}

theorem redirects_snoc (paths : List Bytes) (path : Bytes) (res : ResponseParts) :
    redirects req (paths ++ [path]) res = writeRedirect req path (redirects req paths res) := by
  have hsome : ∃ res', paths.foldl (fun res path => redirect (some req) path res)
    (some res) = some res' := by
    induction paths using List.reverseRecOn with
    | nil => exact ⟨res, rfl⟩
    | append_singleton paths path ih =>
      obtain ⟨res', hres⟩ := ih
      rw [List.foldl_append, hres]
      exact ⟨_, rfl⟩
  obtain ⟨res', hres⟩ := hsome
  rw [redirects, redirects, List.foldl_append, hres]
  rfl

theorem lastValid_snoc (paths : List Bytes) (path : Bytes) :
    lastValid (paths ++ [path]) = (HeaderValue.fromStr path).or (lastValid paths) := by
  rw [lastValid, List.filterMap_append]
  cases hvalid : HeaderValue.fromStr path <;> simp [hvalid, lastValid]

theorem redirectStatus_snoc (html : Bool) (paths : List Bytes) (path : Bytes) :
    redirectStatus html (paths ++ [path]) =
      if (HeaderValue.fromStr path).isSome then if html then some .found
        else redirectStatus html paths
      else some .badRequest := by
  cases html with
  | true =>
    simp only [redirectStatus, if_true, List.getLast?_concat, Option.map_some]
    split_ifs <;> rfl
  | false =>
    simp only [redirectStatus, Bool.false_eq_true,
      if_false, List.all_append, List.all_cons, List.all_nil,
      Bool.and_true]
    cases (HeaderValue.fromStr path).isSome <;> simp

theorem redirects_spec (req : Request) (paths : List Bytes) (res : ResponseParts) :
    (redirects req paths res).status = (redirectStatus (acceptsHtml req.headers) paths).or
    res.status ∧
      ∀ name, (redirects req paths res).headers.getAll name =
        if name = .location then (lastValid paths).elim (res.headers.getAll name) ([·])
        else if name = redirectHeader ∧ acceptsHtml req.headers = false ∧
          (lastValid paths).isSome then [[]]
        else res.headers.getAll name := by
  have hne : HeaderName.location ≠ redirectHeader := by decide
  induction paths using List.reverseRecOn with
  | nil =>
    refine ⟨?_, fun name => ?_⟩
    · cases acceptsHtml req.headers <;> rfl
    · simp [redirects, lastValid]
  | append_singleton paths path ih =>
    obtain ⟨hstatus, hheaders⟩ := ih
    rw [redirects_snoc, redirectStatus_snoc, lastValid_snoc, writeRedirect]
    cases hvalid : HeaderValue.fromStr path with
    | none =>
      refine ⟨rfl, fun name => ?_⟩
      exact hheaders name
    | some value =>
      cases hhtml : acceptsHtml req.headers with
      | true =>
        refine ⟨rfl, fun name => ?_⟩
        by_cases hname : name = .location
        · simp [ResponseParts.insertHeader, ResponseParts.setStatus, hname]
        · simp [ResponseParts.insertHeader, ResponseParts.setStatus, hname, hheaders, hhtml]
      | false =>
        rw [hhtml] at hstatus
        refine ⟨hstatus, fun name => ?_⟩
        by_cases hname : name = .location
        · simp [ResponseParts.insertHeader, hname, hne]
        · by_cases hclient : name = redirectHeader
          · simp [ResponseParts.insertHeader, hclient, hne.symm]
          · simp [ResponseParts.insertHeader, hname, hclient, hheaders]

end Options

theorem redirected_extend (req : Request) (paths : List Bytes)
    (response : Http.Response) (res : ResponseParts) :
    Redirected req paths (extendResponse response res).1
      (extendResponse response (redirects req paths res)).1 := by
  obtain ⟨hstatus, hheaders⟩ := redirects_spec req paths res
  have hlocation : isListValued .location = false := by decide
  have hclient : isListValued redirectHeader = false := by decide
  have hne : redirectHeader ≠ HeaderName.location := by decide
  refine ⟨?_, ?_, ?_, fun name hl hc => ?_, rfl⟩
  · rw [extendResponse_status, extendResponse_status, hstatus]
    cases redirectStatus (acceptsHtml req.headers) paths <;> rfl
  · rw [getAll_extendResponse, getAll_extendResponse, hheaders, if_pos rfl]
    cases lastValid paths with
    | none => rfl
    | some value => simp [merged, hlocation]
  · rw [getAll_extendResponse, getAll_extendResponse, hheaders, if_neg hne]
    by_cases h : acceptsHtml req.headers = false ∧ (lastValid paths).isSome
    · rw [if_pos ⟨rfl, h⟩, if_pos h]
      simp [merged, hclient]
    · rw [if_neg (fun hall => h hall.2), if_neg h]
  · rw [getAll_extendResponse, getAll_extendResponse,
      hheaders, if_neg hl, if_neg (fun hall => hc hall.1)]

theorem redirected_finish {req : Request} {paths : List Bytes}
    {plain directed : Http.Response} (method : Method)
    (h : Redirected req paths plain directed) :
    Redirected req paths (finish method plain) (finish method directed) := by
  have hlength := h.others .contentLength (by decide) (by decide)
  have hnosniff := h.others .xContentTypeOptions (by decide) (by decide)
  have hkept (response : Http.Response) (name : HeaderName) (h₁ : name ≠ .contentLength)
      (h₂ : name ≠ .xContentTypeOptions) :
      (finish method response).headers.getAll name = response.headers.getAll name := by
    rw [getAll_finish, if_neg (fun hall => h₁ hall.1), if_neg (fun hall => h₂ hall.1)]
  refine ⟨h.status, ?_, ?_, fun name hl hc => ?_, ?_⟩
  · rw [hkept _ _ (by decide) (by decide), hkept _ _ (by decide) (by decide), h.location]
  · rw [hkept _ _ (by decide) (by decide), hkept _ _ (by decide) (by decide), h.client]
  · rw [getAll_finish, getAll_finish, h.others name hl hc, hlength, hnosniff, h.body]
  · have hbody (response : Http.Response) :
        (finish method response).body = if method = .head then .sync [] else response.body := rfl
    rw [hbody, hbody, h.body]

section Pipeline

variable {crates : Crates} {app : App} {core : HandlerCore} {paths : List Bytes}

theorem redirected_serverFn {handler : ServerFnHandler}
    (hsel : core.selection = .serverFn handler) :
    Redirected core.req paths (render crates app core).1
      (render crates app { core with
        selection := .serverFn (redirectingFn core.req paths handler) }).1 := by
  simp only [render, answer, hsel]
  exact redirected_finish _ (redirected_extend _ _ _ _)

theorem redirected_fromApp {req : Request} (chunks : List Bytes) (res : ResponseParts) :
    Redirected req paths (fromApp chunks res).1 (fromApp chunks (redirects req paths res)).1 := by
  have h := redirected_extend req paths (Http.Response.new (.async (chunks.map .ok))) res
  have htype := h.others .contentType (by decide) (by decide)
  simp only [fromApp, setDefaultContentType_eq _ htmlContentType_valid]
  have hkept (headers : HeaderMap) (value : HeaderValue)
    (name : HeaderName) (hname : name ≠ .contentType) :
      (headers.insertIfAbsent .contentType value).getAll name = headers.getAll name := by
    rw [Multimap.getAll_insertIfAbsent, if_neg (fun hall => hname hall.1)]
  refine ⟨h.status, ?_, ?_, fun name hl hc => ?_, h.body⟩
  · rw [hkept _ _ _ (by decide), hkept _ _ _ (by decide), h.location]
  · rw [hkept _ _ _ (by decide), hkept _ _ _ (by decide), h.client]
  · rw [Multimap.getAll_insertIfAbsent, Multimap.getAll_insertIfAbsent, htype, h.others name hl hc]

theorem merge_answerSsr_eq {mode : SsrMode}
    (hlate : ∀ options, (rendering crates app core.req mode).late options = options) :
    (answerSsr crates app core.req mode).merge =
      (fromApp (rendering crates app core.req mode).chunks
        (rendering crates app core.req mode).options).1 := by
  rw [merge_answerSsr, hlate]
  generalize (rendering crates app core.req mode).options = options
  generalize (rendering crates app core.req mode).chunks = chunks
  have hdrained : (fromApp chunks options).2 = { options with headers := ∅ } := rfl
  have hstatus : (fromApp chunks options).1.status = options.status.getD .ok := by
    simp only [fromApp, setDefaultContentType_eq _ htmlContentType_valid]
    rfl
  have hheaders :=
    extendResponse_drained (fromApp chunks options).1 { options with headers := ∅ } rfl
  rw [hdrained]
  cases hfirst : (fromApp chunks options).1 with
  | mk status headers body =>
    rw [hfirst] at hstatus hheaders
    obtain rfl : status = _ := hstatus
    simp only [extendResponse, Http.Response.mk.injEq, and_true] at hheaders ⊢
    refine ⟨?_, hheaders⟩
    cases options.status <;> rfl

theorem redirected_ssr {mode : SsrMode}
    (hlate : ∀ options, (rendering crates app core.req mode).late options = options) :
    Redirected core.req paths (answerSsr crates app core.req mode).merge
      (answerSsr crates (redirectingApp paths app) core.req mode).merge := by
  rw [merge_answerSsr_eq hlate, @merge_answerSsr_eq crates (redirectingApp paths app) _ _ hlate]
  exact redirected_fromApp _ _

theorem redirected_unclaimed (hsel : core.selection = .unclaimed)
    {listing : RouteListing}
    (hroute : crates.bestMatch core.ssrRouter core.req.uri.path = some listing)
    (hlate : ∀ options, (rendering crates app core.req listing.mode).late options = options) :
    Redirected core.req paths (render crates app core).1
      (render crates (redirectingApp paths app) core).1 := by
  simp only [render, answer, hsel, hroute, Option.map_some]
  exact redirected_finish _ (redirected_ssr hlate)

end Pipeline

/-- Every call of `redirect` reaches the client, from a server function and from
a view, and changes nothing else. No call lets a byte into the headers that no
header value has. -/
theorem redirects_delivered (crates : Crates) (app : App) (core : HandlerCore) (paths : List Bytes)
    (plain directed : Http.Response)
    (h : (∃ handler, core.selection = .serverFn handler ∧ plain = (render crates app core).1 ∧
        directed =
          (render crates app { core with
            selection := .serverFn (redirectingFn core.req paths handler) }).1) ∨
      ∃ listing, core.selection = .unclaimed ∧
        crates.bestMatch core.ssrRouter core.req.uri.path = some listing ∧
        (∀ options, (rendering crates app core.req listing.mode).late options = options) ∧
        plain = (render crates app core).1 ∧
        directed = (render crates (redirectingApp paths app) core).1) :
    Redirected core.req paths plain directed ∧
      ∀ value ∈ directed.headers.getAll .location,
        value ∈ plain.headers.getAll .location ∨
        value ∈ paths ∧ HeaderValue.fromStr value = some value := by
  have hdirected : Redirected core.req paths plain directed := by
    rcases h with ⟨handler, hsel, rfl, rfl⟩ | ⟨listing, hsel, hroute, hlate, rfl, rfl⟩
    · exact redirected_serverFn hsel
    · exact redirected_unclaimed hsel hroute hlate
  refine ⟨hdirected, fun value hvalue => ?_⟩
  rw [hdirected.location] at hvalue
  cases hlast : lastValid paths with
  | none =>
    rw [hlast] at hvalue
    exact .inl hvalue
  | some found =>
    rw [hlast] at hvalue
    obtain rfl := List.mem_singleton.mp hvalue
    obtain ⟨path, hpath, hvalid⟩ := List.mem_filterMap.mp (List.mem_of_getLast? hlast)
    obtain rfl := HeaderValue.fromStr_eq_self hvalid
    exact .inr ⟨hpath, hvalid⟩

def formRequest : Request :=
  ⟨.post, pathUri "/api/login", (∅ : HeaderMap).insert .accept (text "text/html"), []⟩

def doneFn : ServerFnHandler := fun _ options => (Http.Response.new (.sync []), options)

def formCore (handler : ServerFnHandler) : HandlerCore :=
  { HandlerCore.new formRequest .default with selection := .serverFn handler }

def injectedPaths : List Bytes := [text "/done", text "/\r\nset-cookie: a=1"]

theorem redirects_delivered_injected :
    (render .originForm .silent
      (formCore (redirectingFn formRequest injectedPaths doneFn))).1.status =
        .badRequest ∧
      (render .originForm .silent
        (formCore (redirectingFn formRequest injectedPaths doneFn))).1.headers.getAll
        .location = [text "/done"] := by
  obtain ⟨h, -⟩ := redirects_delivered .originForm .silent (formCore doneFn) injectedPaths _ _
    (.inl ⟨doneFn, rfl, rfl, rfl⟩)
  exact ⟨h.status.trans (by decide +kernel), h.location.trans (by decide +kernel)⟩

end LeptosWasi.RedirectProtocol
