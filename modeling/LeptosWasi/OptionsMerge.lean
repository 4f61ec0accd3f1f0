import LeptosWasi.Render

namespace LeptosWasi.OptionsMerge

open Http Response LeptosWasi.Core Routes Render

inductive Write where
  | setStatus (status : StatusCode)
  | clearStatus
  | insertHeader (key : HeaderName) (value : HeaderValue)
  | appendHeader (key : HeaderName) (value : HeaderValue)
  | overwrite (parts : ResponseParts)

def Write.apply (p : ResponseParts) : Write → ResponseParts
  | .setStatus status => p.setStatus status
  | .clearStatus => p.clearStatus
  | .insertHeader key value => p.insertHeader key value
  | .appendHeader key value => p.appendHeader key value
  | .overwrite parts => p.overwrite parts

def written (writes : List Write) : ResponseParts := writes.foldl Write.apply .default

theorem merged_listValued {name : HeaderName} (h : isListValued name)
    (own override : List HeaderValue) :
    merged name own override = own ++ override := by
  rw [merged, if_pos h]

theorem merged_single {name : HeaderName} (h : ¬ isListValued name) (own : List HeaderValue)
    {override : List HeaderValue} (hne : override ≠ []) :
    merged name own override = [override.getLast hne] := by
  rw [merged, if_neg h, List.getLast?_eq_some_getLast hne]

theorem extendResponse_drained (response : Http.Response)
    (opt : ResponseParts) (h : opt.headers = ∅) :
    (extendResponse response opt).1.headers = response.headers := by
  rw [extendResponse, h]
  rfl

/-- The header map that one merge into a fresh response gives. -/
def mergedOnce (opt : ResponseParts) : HeaderMap :=
  (extendResponse (Http.Response.new (.sync [])) opt).1.headers

theorem getAll_mergedOnce (opt : ResponseParts) (name : HeaderName) :
    (mergedOnce opt).getAll name = merged name [] (opt.headers.getAll name) :=
  getAll_extendResponse _ opt name

theorem htmlContentType_valid :
    HeaderValue.fromStr (text "text/html; charset=utf-8") = some
      (text "text/html; charset=utf-8") := by
  decide +kernel

theorem getAll_fromApp (chunks : List Bytes) (opt : ResponseParts) (name : HeaderName) :
    (fromApp chunks opt).1.headers.getAll name =
      if name = .contentType ∧ opt.headers.getAll .contentType = [] then
        [text "text/html; charset=utf-8"]
      else (mergedOnce opt).getAll name := by
  have hempty : merged .contentType [] (opt.headers.getAll .contentType) = [] ↔
      opt.headers.getAll .contentType = [] := by
    by_cases hnone : opt.headers.getAll .contentType = []
    · simp [hnone]
    · rw [merged_single (by decide) [] hnone]
      simp [hnone]
  have hfirst : ∀ key,
    (extendResponse (Http.Response.new (.async (chunks.map .ok))) opt).1.headers.getAll key =
      merged key [] (opt.headers.getAll key) := getAll_extendResponse _ opt
  rw [fromApp]
  simp only [setDefaultContentType_eq _ htmlContentType_valid,
    Multimap.getAll_insertIfAbsent, hfirst, hempty,
    getAll_mergedOnce]

section Ssr

variable (crates : Crates) (app : App) (req : Request) (mode : SsrMode)

/-- What the views of a request render. -/
def rendering : Rendering :=
  app.view req mode (isIslandsRouterNavigation crates req) (app.context req .default)

theorem merge_answerSsr : (answerSsr crates app req mode).merge =
    (extendResponse (fromApp (rendering crates app req mode).chunks
      (rendering crates app req mode).options).1
      ((rendering crates app req mode).late
        (fromApp (rendering crates app req mode).chunks
          (rendering crates app req mode).options).2)).1 := rfl

theorem getAll_merge_answerSsr (name : HeaderName) :
    (answerSsr crates app req mode).merge.headers.getAll name =
      merged name ((fromApp (rendering crates app req mode).chunks
          (rendering crates app req mode).options).1.headers.getAll name)
        (((rendering crates app req mode).late
          { (rendering crates app req mode).options with headers := ∅ }).headers.getAll name) := by
  rw [merge_answerSsr, getAll_extendResponse]
  rfl

end Ssr

/-- Response options are merged once and in order, and merging again adds
nothing, as on the SSR path. -/
theorem response_options_merged_once (response : Http.Response) (writes : List Write) :
    let opt := written writes
    let result := extendResponse response opt
    (∀ name, isListValued name →
      result.1.headers.getAll name = response.headers.getAll name ++ opt.headers.getAll name) ∧
    (∀ name, ¬ isListValued name → ∀ hne : opt.headers.getAll name ≠ [],
      result.1.headers.getAll name = [(opt.headers.getAll name).getLast hne]) ∧
    (∀ name, opt.headers.getAll name = [] →
      result.1.headers.getAll name = response.headers.getAll name) ∧
    result.1.status = opt.status.getD response.status ∧ result.2.headers = ∅ ∧
    (extendResponse result.1 result.2).1.headers = result.1.headers ∧
    ∀ (crates : Crates) (app : App) (req : Request) (mode : SsrMode),
      (rendering crates app req mode).options = opt →
      ((rendering crates app req mode).late { opt with headers := ∅ } = { opt with headers := ∅ } →
        ∀ name, (answerSsr crates app req mode).merge.headers.getAll name =
          if name = .contentType ∧
            opt.headers.getAll .contentType = [] then [text "text/html; charset=utf-8"]
          else (mergedOnce opt).getAll name) ∧
      (answerSsr crates app req mode).merge.headers.getAll .setCookie =
      opt.headers.getAll .setCookie ++
        ((rendering crates app req mode).late { opt with headers := ∅ }).headers.getAll
        .setCookie := by
  intro opt result
  refine ⟨fun name hl => ?_, fun name hl hne => ?_, fun name hnone => ?_, rfl, rfl,
    extendResponse_drained result.1 result.2 rfl,
    fun crates app req mode hopt => ⟨fun hlate name => ?_, ?_⟩⟩
  · rw [getAll_extendResponse, merged_listValued hl]
  · rw [getAll_extendResponse, merged_single hl _ hne]
  · rw [getAll_extendResponse, hnone, merged_nil]
  · rw [getAll_merge_answerSsr, hopt, hlate, Multimap.getAll_empty, merged_nil, getAll_fromApp]
  · rw [getAll_merge_answerSsr, hopt, merged_listValued (by decide), getAll_fromApp,
      if_neg (fun h => absurd h.1 (by decide)), getAll_mergedOnce, merged_listValued (by decide),
      List.nil_append]

def cookieApp : App where
  context _ options := options
  view _ _ _ _ :=
  ⟨[], written [.appendHeader .setCookie (text "a=1"), .appendHeader .setCookie (text "b=2")], id⟩

theorem response_options_merged_once_cookies :
    (answerSsr .originForm cookieApp ⟨.get, pathUri "/", ∅, []⟩ .outOfOrder).merge.headers.getAll
    .setCookie =
      [text "a=1", text "b=2"] := by
  obtain ⟨-, -, -, -, -, -, hssr⟩ := response_options_merged_once (Http.Response.new (.sync []))
    [.appendHeader .setCookie (text "a=1"), .appendHeader .setCookie (text "b=2")]
  have hcookies := (hssr .originForm cookieApp ⟨.get, pathUri "/", ∅, []⟩ .outOfOrder rfl).2
  exact hcookies.trans (by decide +kernel)

end LeptosWasi.OptionsMerge
