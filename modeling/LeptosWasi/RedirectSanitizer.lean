import LeptosWasi.Redirects

namespace LeptosWasi.RedirectSanitizer

open Http Response HttpUtil ServerFns Redirects LeptosWasi.Core

section Sanitizer

variable (parseUri : Bytes → Option (Option Bytes))

inductive OriginForm : Bytes → Prop
  | root : OriginForm (text "/")
  | parsed {value path : Bytes} (htext : HeaderValue.toStr value = some value)
      (hparse : parseUri value = some (some path)) (hroot : [slash] <+: path) : OriginForm path

/-- URI parsing keeps an origin form as it is, and invents no byte that a
header text cannot hold. -/
structure KeepsOriginForm : Prop where
  unchanged : ∀ path, OriginForm parseUri path → parseUri path = some (some path)
  visible : ∀ path, OriginForm parseUri path → HeaderValue.toStr path = some path

/-- The value that a redirect is sanitized from. -/
def redirectSource (response : Http.Response) (referrer : Option HeaderValue) :
    Option HeaderValue :=
  (response.headers.get .location).or referrer

def SanitizedFrom (source : Option HeaderValue) (target : HeaderValue) : Prop :=
  target = text "/" ∨
    ∃ value, source = some value ∧ HeaderValue.toStr value = some value ∧
      parseUri value = some (some target)

def sanitizedTarget (value : HeaderValue) : HeaderValue :=
  (sanitizeReferrer parseUri value).getD (text "/")

theorem fromStr_of_toStr {value : Bytes} (h : HeaderValue.toStr value = some value) :
    HeaderValue.fromStr value = some value := by
  rw [HeaderValue.toStr] at h
  split_ifs at h with hall
  rw [HeaderValue.fromStr, if_pos]
  rw [List.all_eq_true] at hall ⊢
  intro b hb
  have hvisible := hall b hb
  simp only [decide_eq_true_eq] at hvisible ⊢
  obtain ⟨hlow, hhigh⟩ | htab := hvisible
  · exact Or.inl ⟨hlow, UInt8.ne_of_lt hhigh⟩
  · exact Or.inr htab

theorem sanitizeReferrer_eq {value target : HeaderValue}
    (h : sanitizeReferrer parseUri value = some target) :
    HeaderValue.toStr value = some value ∧ parseUri value = some (some target) := by
  simp only [sanitizeReferrer, Option.bind_eq_bind, Option.bind_eq_some_iff] at h
  obtain ⟨str, hstr, pathAndQuery, hparse, path, hpath, h⟩ := h
  obtain rfl := HeaderValue.toStr_eq_self hstr
  split_ifs at h with hbad hroot
  obtain rfl := HeaderValue.fromStr_eq_self h
  exact ⟨hstr, hpath ▸ hparse⟩

theorem sanitizedTarget_from (value : HeaderValue) :
    SanitizedFrom parseUri (some value) (sanitizedTarget parseUri value) := by
  rw [sanitizedTarget]
  cases h : sanitizeReferrer parseUri value with
  | none => exact Or.inl rfl
  | some target => exact Or.inr ⟨value, rfl, sanitizeReferrer_eq parseUri h⟩

theorem sanitizeReferrer_self {path : Bytes} (hsafe : SafeLocation path)
    (htext : HeaderValue.toStr path = some path) (hparse : parseUri path = some (some path)) :
    sanitizeReferrer parseUri path = some path := by
  obtain ⟨rest, rfl⟩ := hsafe.eq_cons
  obtain ⟨-, horigin, hplain, hlower, hupper⟩ := hsafe
  have hdouble : [slash, slash].isPrefixOf (slash :: rest) = false := by
    rw [← Bool.not_eq_true, List.isPrefixOf_iff_prefix]
    exact horigin
  have hmixed : [slash, backslash].isPrefixOf (slash :: rest) = false := by
    rw [← Bool.not_eq_true, List.isPrefixOf_iff_prefix]
    rintro ⟨t, ht⟩
    exact hplain (ht ▸ by simp)
  rw [← containsSlice_iff, Bool.not_eq_true] at hlower hupper
  simp only [sanitizeReferrer, htext, hparse, Option.bind_eq_bind,
    Option.bind_some, hmixed, hplain, hlower,
    hupper, hdouble, Bool.false_eq_true, or_self, if_false, not_false_eq_true, and_true]
  rw [if_pos (by simp), fromStr_of_toStr htext]

theorem sanitizedTarget_idem (hparse : KeepsOriginForm parseUri) (value : HeaderValue) :
    sanitizedTarget parseUri (sanitizedTarget parseUri value) = sanitizedTarget parseUri value := by
  have hsafe : SafeLocation (sanitizedTarget parseUri value) := sanitized_safe parseUri value
  have horigin : OriginForm parseUri (sanitizedTarget parseUri value) := by
    obtain hroot | ⟨source, -, htext, hp⟩ := sanitizedTarget_from parseUri value
    · rw [hroot]
      exact .root
    · obtain ⟨rest, he⟩ := hsafe.eq_cons
      exact .parsed htext hp ⟨rest, he.symm⟩
  have hself :=
    sanitizeReferrer_self parseUri hsafe (hparse.visible _ horigin) (hparse.unchanged _ horigin)
  rw [sanitizedTarget, hself, Option.getD_some]

theorem applyServerFnRedirect_redirect {response : Http.Response} {location : HeaderValue}
    (hstatus : response.status.isRedirection)
    (hlocation : response.headers.get .location = some location)
    (acceptsHtml : Bool) (referrer : Option HeaderValue) :
    applyServerFnRedirect parseUri response acceptsHtml referrer =
      { response with
        headers := response.headers.insert .location (sanitizedTarget parseUri location) } := by
  have hcontains : response.headers.containsKey .location = true := by
    rw [Multimap.containsKey_iff]
    intro hnone
    rw [Multimap.get, hnone] at hlocation
    cases hlocation
  simp only [applyServerFnRedirect, hcontains, Bool.not_true,
    Bool.and_false, Bool.false_eq_true, if_false,
    hlocation, hstatus, if_true]
  rfl

/-- The function leaves a response alone, or makes a redirect of it whose
location is sanitized from the source. -/
theorem applyServerFnRedirect_source (response : Http.Response) (acceptsHtml : Bool)
    (referrer : Option HeaderValue) :
    (applyServerFnRedirect parseUri response acceptsHtml referrer = response ∧
      (response.status.isRedirection → response.headers.getAll .location = [])) ∨
    ∃ source status, redirectSource response referrer = some source ∧ status.isRedirection ∧
      (response.status.isRedirection ∨ response.status.isSuccess ∧
        response.headers.getAll .location = []) ∧
      applyServerFnRedirect parseUri response acceptsHtml referrer =
        { response with
          status := status
          headers := response.headers.insert .location (sanitizedTarget parseUri source) } := by
  cases hlocation : response.headers.get .location with
  | some location =>
    by_cases hstatus : response.status.isRedirection = true
    · right
      refine ⟨location, response.status, by rw [redirectSource, hlocation, Option.some_or], hstatus,
        Or.inl hstatus, ?_⟩
      exact applyServerFnRedirect_redirect parseUri hstatus hlocation acceptsHtml referrer
    · left
      refine ⟨?_, fun h => absurd h hstatus⟩
      have hcontains : response.headers.containsKey .location = true := by
        rw [Multimap.containsKey_iff]
        intro hnone
        rw [Multimap.get, hnone] at hlocation
        cases hlocation
      simp only [applyServerFnRedirect, hcontains,
        Bool.not_true, Bool.and_false, Bool.false_eq_true,
        if_false, hlocation, hstatus]
  | none =>
    have hnone : response.headers.getAll .location = [] := List.head?_eq_none_iff.mp hlocation
    have hcontains := (Multimap.containsKey_eq_false_iff response.headers .location).mpr hnone
    cases hpromoted : acceptsHtml &&
      (response.status.isSuccess || response.status.isRedirection) with
    | false =>
      left
      refine ⟨?_, fun _ => hnone⟩
      simp only [applyServerFnRedirect, hpromoted,
        Bool.false_and, Bool.false_eq_true, if_false, hlocation]
    | true =>
      cases referrer with
      | none =>
        left
        refine ⟨?_, fun _ => hnone⟩
        simp only [applyServerFnRedirect, ite_self, hlocation]
      | some referrer =>
        right
        simp only [Bool.and_eq_true, Bool.or_eq_true] at hpromoted
        refine ⟨referrer, .found, by rw [redirectSource, hlocation, Option.none_or], by decide,
          hpromoted.2.symm.imp_right fun h => ⟨h, hnone⟩, ?_⟩
        simp only [applyServerFnRedirect, hpromoted.1, hcontains, Bool.or_eq_true, hpromoted.2,
          Bool.true_and, Bool.not_false, Bool.and_true, if_true]
        rfl

/-- The redirect of a server function is sanitized once and for all, and
everything else of its response is kept. -/
theorem apply_server_fn_redirect_sanitizes (hparse : KeepsOriginForm parseUri)
    (response : Http.Response)
    (acceptsHtml : Bool) (referrer : Option HeaderValue) :
    let result := applyServerFnRedirect parseUri response acceptsHtml referrer
    (result.status.isRedirection → result.headers.getAll .location ≠ [] →
      ∃ target, result.headers.getAll .location = [target] ∧
        SanitizedFrom parseUri (redirectSource response referrer) target ∧ SafeLocation target) ∧
    (¬ response.status.isSuccess → ¬ response.status.isRedirection → result = response) ∧
    (response.status.isSuccess → response.headers.getAll .location ≠ [] → result = response) ∧
    (result.body = response.body ∧
      ∀ name, name ≠ .location → result.headers.getAll name = response.headers.getAll name) ∧
    applyServerFnRedirect parseUri result acceptsHtml referrer = result := by
  intro result
  obtain ⟨hsame, hempty⟩ | ⟨source, status, hsource, hstatus, hwas, hresult⟩ :=
    applyServerFnRedirect_source parseUri response acceptsHtml referrer
  · have hr : result = response := hsame
    rw [hr]
    refine ⟨fun hs hne => absurd (hempty hs) hne,
      fun _ _ => rfl, fun _ _ => rfl, ⟨rfl, fun _ _ => rfl⟩, hsame⟩
  · have hr : result = _ := hresult
    rw [hr]
    refine ⟨fun _ _ => ⟨sanitizedTarget parseUri source,
      by simp, ?_, sanitized_safe parseUri source⟩, ?_, ?_,
      ⟨rfl, fun name hname => ?_⟩, ?_⟩
    · rw [hsource]
      exact sanitizedTarget_from parseUri source
    · intro hnot hno
      exact hwas.elim (fun h => absurd h hno) fun h => absurd h.1 hnot
    · intro hsuccess hne
      obtain hredirect | ⟨-, hnone⟩ := hwas
      · simp only [StatusCode.isSuccess, StatusCode.isRedirection, decide_eq_true_eq]
          at hsuccess hredirect
        omega
      · exact absurd hnone hne
    · rw [Multimap.getAll_insert, if_neg hname]
    · have hlocation :
        (response.headers.insert .location (sanitizedTarget parseUri source)).get .location =
          some (sanitizedTarget parseUri source) := by
        simp [Multimap.get]
      rw [applyServerFnRedirect_redirect parseUri hstatus hlocation]
      simp only [Multimap.insert_insert, sanitizedTarget_idem parseUri hparse]

end Sanitizer

theorem keepsOriginForm_originForm : KeepsOriginForm Crates.originForm.parseUri := by
  have hself : ∀ {value path : Bytes},
      Crates.originForm.parseUri value = some (some path) →
      value = path ∧ value.head? = some slash := by
    intro value path h
    simp only [Crates.originForm] at h
    split_ifs at h with hslash
    simp only [Option.some.injEq] at h
    exact ⟨h, hslash⟩
  constructor
  · rintro path (_ | ⟨-, hparse, -⟩)
    · decide +kernel
    · obtain ⟨rfl, -⟩ := hself hparse
      exact hparse
  · rintro path (_ | ⟨htext, hparse, -⟩)
    · decide +kernel
    · obtain ⟨rfl, -⟩ := hself hparse
      exact htext

/-- A location that names another host without a scheme. -/
theorem apply_server_fn_redirect_sanitizes_double_slash :
    (∃ target, (applyServerFnRedirect Crates.originForm.parseUri
        (withLocation .found "//elsewhere.example") false none).headers.getAll .location =
        [target] ∧
      SanitizedFrom Crates.originForm.parseUri (some (text "//elsewhere.example")) target ∧
      SafeLocation target) ∧
    applyServerFnRedirect Crates.originForm.parseUri
      (applyServerFnRedirect Crates.originForm.parseUri
        (withLocation .found "//elsewhere.example") false none) false none =
      applyServerFnRedirect Crates.originForm.parseUri
        (withLocation .found "//elsewhere.example") false none := by
  obtain ⟨hredirect, -, -, -, hagain⟩ :=
    apply_server_fn_redirect_sanitizes Crates.originForm.parseUri
    keepsOriginForm_originForm (withLocation .found "//elsewhere.example") false none
  exact ⟨hredirect (by decide +kernel) (by decide +kernel), hagain⟩

end LeptosWasi.RedirectSanitizer
