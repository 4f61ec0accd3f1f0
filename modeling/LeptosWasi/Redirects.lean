import Mathlib.Data.List.Infix
import LeptosWasi.Render

namespace LeptosWasi.Redirects

open Http Response Policy HttpUtil ServerFns LeptosWasi.Core Render

/-- A location that stays on the origin of the request. -/
structure SafeLocation (v : HeaderValue) : Prop where
  rooted : v.head? = some slash
  origin : ¬ [slash, slash] <+: v
  plain : backslash ∉ v
  encoded : ¬ text "%5c" <:+: v ∧ ¬ text "%5C" <:+: v

theorem SafeLocation.eq_cons {v : HeaderValue} (h : SafeLocation v) :
    ∃ rest, v = slash :: rest := by
  obtain ⟨hrooted, -⟩ := h
  cases v with
  | nil => cases hrooted
  | cons b rest => exact ⟨rest, by rw [Option.some.inj hrooted]⟩

theorem containsSlice_iff (needle s : Bytes) : containsSlice needle s = true ↔ needle <:+: s := by
  rw [containsSlice, List.any_eq_true, List.infix_iff_prefix_suffix]
  constructor
  · rintro ⟨t, ht, hp⟩
    exact ⟨t, List.isPrefixOf_iff_prefix.mp hp, (List.mem_tails t s).mp ht⟩
  · rintro ⟨t, hp, ht⟩
    exact ⟨t, (List.mem_tails t s).mpr ht, List.isPrefixOf_iff_prefix.mpr hp⟩

theorem safeLocation_root : SafeLocation (text "/") :=
  ⟨by decide +kernel, by decide +kernel, by decide +kernel, by decide +kernel, by decide +kernel⟩

section Sanitizer

variable (parseUri : Bytes → Option (Option Bytes))

theorem sanitizeReferrer_safe {value target : HeaderValue}
    (h : sanitizeReferrer parseUri value = some target) : SafeLocation target := by
  simp only [sanitizeReferrer, Option.bind_eq_bind, Option.bind_eq_some_iff] at h
  obtain ⟨_, _, _, _, path, _, h⟩ := h
  split_ifs at h with hbad hroot
  · simp only [not_or] at hbad
    have htarget : path = target := by
      rw [HeaderValue.fromStr] at h
      split_ifs at h
      exact Option.some.inj h
    subst htarget
    obtain ⟨-, hplain, hlower, hupper⟩ := hbad
    rw [containsSlice_iff] at hlower hupper
    refine ⟨?_, fun hp => hroot.2 (List.isPrefixOf_iff_prefix.mpr hp), hplain, hlower, hupper⟩
    obtain ⟨rest, rfl⟩ := List.isPrefixOf_iff_prefix.mp hroot.1
    rfl

theorem sanitized_safe (value : HeaderValue) :
    SafeLocation ((sanitizeReferrer parseUri value).getD (text "/")) := by
  cases h : sanitizeReferrer parseUri value with
  | none => exact safeLocation_root
  | some target => exact sanitizeReferrer_safe parseUri h

theorem applyServerFnRedirect_cases (response : Http.Response) (acceptsHtml : Bool)
    (referrer : Option HeaderValue) :
    (∃ target, SafeLocation target ∧
      (applyServerFnRedirect parseUri response acceptsHtml referrer).headers.getAll .location =
      [target] ∧
      (response.headers.getAll .location = [] ∨ response.status.isRedirection)) ∨
    applyServerFnRedirect parseUri response acceptsHtml referrer = response ∧
      (response.status.isRedirection → response.headers.getAll .location = []) := by
  rw [applyServerFnRedirect]
  simp only
  split
  · rename_i value hpromoted
    left
    split_ifs at hpromoted with hcond
    refine ⟨_, sanitized_safe parseUri value, by simp, Or.inl ?_⟩
    simp only [Bool.and_eq_true, Bool.not_eq_true'] at hcond
    exact (Multimap.containsKey_eq_false_iff _ _).mp hcond.2
  · split
    · rename_i location hlocation
      split_ifs with hredirect
      · exact Or.inl ⟨_, sanitized_safe parseUri location, by simp, Or.inr hredirect⟩
      · exact Or.inr ⟨rfl, fun h => absurd h hredirect⟩
    · rename_i hlocation
      refine Or.inr ⟨rfl, fun _ => ?_⟩
      simpa [Multimap.get] using hlocation

end Sanitizer

/-- A redirect that carries a location carries one that is safe. -/
def SafeRedirect (response : Http.Response) : Prop :=
  response.status.isRedirection → response.headers.getAll .location ≠ [] →
    ∃ v, response.headers.getAll .location = [v] ∧ SafeLocation v

/-- The response options turn a response that is no redirect, and carries a
location that is not safe, into a redirect. -/
def LateRedirect (response : Http.Response) (options : ResponseParts) : Prop :=
  ¬ response.status.isRedirection ∧
    (∃ status, options.status = some status ∧ status.isRedirection) ∧
    response.headers.getAll .location ≠ [] ∧
    ¬ ∃ v, response.headers.getAll .location = [v] ∧ SafeLocation v

def serverFnResult (app : App) (req : Request) (handler : ServerFnHandler) :
    Http.Response × ResponseParts :=
  handler { req with headers := mirrorReferrerSpelling req.headers } (app.context req .default)

theorem finish_location (method : Method) (response : Http.Response) :
    (finish method response).headers.getAll .location = response.headers.getAll .location := by
  rw [getAll_finish, if_neg (fun h => absurd h.1 (by decide)),
    if_neg (fun h => absurd h.1 (by decide))]

theorem render_serverFn (crates : Crates) (app : App)
    {core : HandlerCore} {handler : ServerFnHandler}
    (hsel : core.selection = .serverFn handler) :
    ∃ acceptsHtml referrer, (render crates app core).1 = finish core.req.method
      (extendResponse (applyServerFnRedirect crates.parseUri (serverFnResult app core.req handler).1
        acceptsHtml referrer) (serverFnResult app core.req handler).2).1 := by
  refine ⟨acceptsHtml (mirrorReferrerSpelling core.req.headers),
    (mirrorReferrerSpelling core.req.headers).get .referer, ?_⟩
  simp only [render, answer, hsel]
  rfl

/-- A redirect of a server function stays on the origin, unless the response
options make the redirect of it. -/
theorem server_fn_redirect_safe_iff (crates : Crates) (app : App) (core : HandlerCore)
    (handler : ServerFnHandler) (hsel : core.selection = .serverFn handler)
    (hoptions : (serverFnResult app core.req handler).2.headers.getAll .location = []) :
    SafeRedirect (render crates app core).1 ↔
      ¬ LateRedirect (serverFnResult app core.req handler).1
        (serverFnResult app core.req handler).2 := by
  obtain ⟨response, options, hresult⟩ : ∃ response options,
    serverFnResult app core.req handler = (response, options) := ⟨_, _, rfl⟩
  rw [hresult] at hoptions ⊢
  obtain ⟨acceptsHtml, referrer, hrender⟩ := render_serverFn crates app hsel
  rw [hresult] at hrender
  have hlocation : (render crates app core).1.headers.getAll .location =
      (applyServerFnRedirect crates.parseUri response acceptsHtml referrer).headers.getAll
      .location := by
    rw [hrender, finish_location, getAll_extendResponse, hoptions, merged_nil]
  have hstatus : (render crates app core).1.status = options.status.getD
      (applyServerFnRedirect crates.parseUri response acceptsHtml referrer).status := by
    rw [hrender]
    rfl
  rw [SafeRedirect]
  rw [hlocation, hstatus]
  rcases applyServerFnRedirect_cases crates.parseUri response acceptsHtml referrer with
    ⟨target, hsafe, htarget, horigin⟩ | ⟨hsame, hempty⟩
  · refine iff_of_true (fun _ _ => ⟨target, htarget, hsafe⟩) (fun ⟨hno, _, hne, _⟩ => ?_)
    exact horigin.elim hne hno
  · rw [hsame]
    rw [LateRedirect]
    cases hopt : options.status with
    | none =>
      refine iff_of_true (fun hr hne => absurd (hempty hr) hne) (fun ⟨_, ⟨_, hs, _⟩, _⟩ => ?_)
      cases hs
    | some status =>
      simp only [Option.getD_some, Option.some.injEq, exists_eq_left']
      by_cases hr : response.status.isRedirection
      · exact iff_of_true (fun _ hne => absurd (hempty hr) hne) (fun h => h.1 hr)
      · refine ⟨fun h ⟨_, hs, hne, hno⟩ => hno (h hs hne), fun h hs hne => ?_⟩
        by_contra hno
        exact h ⟨hr, hs, hne, hno⟩

def resultCore (response : Http.Response) (options : ResponseParts) : HandlerCore :=
  { HandlerCore.new ⟨.post, pathUri "/api/login", ∅, []⟩ .default with
    selection := .serverFn fun _ _ => (response, options) }

def withLocation (status : StatusCode) (location : String) : Http.Response :=
  ⟨status, (∅ : HeaderMap).insert .location (text location), .sync []⟩

theorem server_fn_redirect_safe_found :
    SafeRedirect
      (render .originForm .silent (resultCore (withLocation .found "/done") .default)).1 :=
  (server_fn_redirect_safe_iff .originForm .silent
    (resultCore (withLocation .found "/done") .default)
    (fun _ _ => (withLocation .found "/done", .default)) rfl rfl).mpr
    fun ⟨hno, _⟩ => hno (by decide)

/-- A response of status 200 that the options turn into a redirect elsewhere. -/
theorem server_fn_redirect_unsafe_promoted :
    ¬ SafeRedirect (render .originForm .silent
      (resultCore (withLocation .ok "https://elsewhere.example/")
        (.setStatus .default .found))).1 := by
  intro h
  obtain ⟨v, hv, hsafe⟩ := h (by decide +kernel) (by decide +kernel)
  have hlocation : [text "https://elsewhere.example/"] = [v] := by
    rw [← hv]
    decide +kernel
  rw [← List.head_eq_of_cons_eq hlocation] at hsafe
  exact absurd hsafe.rooted (by decide +kernel)

end LeptosWasi.Redirects
