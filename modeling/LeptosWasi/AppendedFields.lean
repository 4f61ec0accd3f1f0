import LeptosWasi.OptionsMerge

namespace LeptosWasi.AppendedFields

open Http Response OptionsMerge

/-- Fields that HTTP defines as a list or as repeatable. -/
def listFields : List HeaderName :=
  [.setCookie, .link, .wwwAuthenticate, .cacheControl, .vary, .allow, .via, .contentLanguage,
    .proxyAuthenticate, .contentSecurityPolicy]

def appended (opt : ResponseParts) (calls : List (HeaderName × HeaderValue)) : ResponseParts :=
  calls.foldl (fun p call => p.appendHeader call.1 call.2) opt

def valuesOf (name : HeaderName) (calls : List (HeaderName × HeaderValue)) : List HeaderValue :=
  (calls.filter fun call => call.1 = name).map Prod.snd

/-- After the merge a field has the values of the response, those that the
options had, and all that were appended. -/
def Survives (name : HeaderName) (response : Http.Response) (opt : ResponseParts)
    (calls : List (HeaderName × HeaderValue)) : Prop :=
  (extendResponse response (appended opt calls)).1.headers.getAll name =
    response.headers.getAll name ++ (opt.headers.getAll name ++ valuesOf name calls)

theorem getAll_appended (opt : ResponseParts) (calls : List (HeaderName × HeaderValue))
    (name : HeaderName) :
    (appended opt calls).headers.getAll name = opt.headers.getAll name ++ valuesOf name calls := by
  induction calls generalizing opt with
  | nil => simp [appended, valuesOf]
  | cons call calls ih =>
    have hcons : appended opt (call :: calls) = appended (opt.appendHeader call.1 call.2) calls :=
      rfl
    rw [hcons, ih, ResponseParts.appendHeader, Multimap.getAll_append]
    by_cases hname : call.1 = name
    · simp [valuesOf, hname]
    · simp [valuesOf, hname, Ne.symm hname]

theorem merged_eq_append_iff (name : HeaderName) (own override : List HeaderValue) :
    merged name own override = own ++ override ↔
      isListValued name ∨ override = [] ∨ own = [] ∧ override.length = 1 := by
  by_cases hlist : isListValued name
  · simp [merged_listValued hlist, hlist]
  · by_cases hnone : override = []
    · simp [hnone]
    · rw [merged_single hlist own hnone]
      simp only [hlist, hnone, Bool.false_eq_true, false_or]
      constructor
      · intro h
        have hlength := congrArg List.length h
        rw [List.length_singleton, List.length_append] at hlength
        have hpos := List.length_pos_iff.mpr hnone
        exact ⟨List.length_eq_zero_iff.mp (by omega), by omega⟩
      · rintro ⟨rfl, hone⟩
        obtain ⟨value, rfl⟩ := List.length_eq_one_iff.mp hone
        rfl

theorem survives_iff (name : HeaderName) (response : Http.Response) (opt : ResponseParts)
    (calls : List (HeaderName × HeaderValue)) :
    Survives name response opt calls ↔ isListValued name ∨
      opt.headers.getAll name ++ valuesOf name calls = [] ∨
      response.headers.getAll name = [] ∧
      (opt.headers.getAll name ++ valuesOf name calls).length = 1 := by
  rw [Survives, getAll_extendResponse, getAll_appended, merged_eq_append_iff]

/-- Appended values of a field survive the merge exactly when the table of
list-valued names has it, or there is no other value to lose. So the fields in
the table, and no others, keep their values in general. -/
theorem appended_values_survive_iff (name : HeaderName) :
    (∀ (response : Http.Response) (opt : ResponseParts) (calls : List (HeaderName × HeaderValue)),
      Survives name response opt calls ↔ isListValued name ∨
        opt.headers.getAll name ++ valuesOf name calls = [] ∨
        response.headers.getAll name = [] ∧
        (opt.headers.getAll name ++ valuesOf name calls).length = 1) ∧
    ((∀ response calls, Survives name response .default calls) ↔ isListValued name) := by
  refine ⟨survives_iff name, fun h => ?_, fun hlist response calls => ?_⟩
  · have htwo := (survives_iff name _ .default _).mp
      (h (Http.Response.new (.sync [])) [(name, []), (name, [])])
    simpa [ResponseParts.default, valuesOf, Http.Response.new] using htwo
  · exact (survives_iff name response .default calls).mpr (Or.inl hlist)

example : listFields.filter isListValued = [.setCookie,
    .link, .wwwAuthenticate, .cacheControl] := by decide

/-- A cache key that the response already had is lost. -/
theorem vary_value_lost :
    let response := { Http.Response.new (.sync []) with
      headers := (∅ : HeaderMap).insert .vary (text "accept-encoding") }
    .vary ∈ listFields ∧ ¬ Survives .vary response .default [(.vary, text "cookie")] ∧
      (extendResponse response
        (appended .default [(.vary, text "cookie")])).1.headers.getAll .vary =
        [text "cookie"] := by
  intro response
  refine ⟨by decide, ?_, by decide +kernel⟩
  rw [survives_iff]
  decide +kernel

end LeptosWasi.AppendedFields
