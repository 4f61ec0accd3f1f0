import LeptosWasi.Core

namespace LeptosWasi.Registration

open Http Policy ServerFns LeptosWasi.Core

section

variable {crates : Crates}

/-- Whether a call claims a request that nothing has claimed: a server
function of its method and path, or a valid prefix that matches its path. -/
def claims (req : Request) : BuilderCall → Bool
  | .withServerFn f => decide (req.method = f.method ∧ req.uri.path = f.path)
  | .staticFilesHandler pre _ | .staticFilesHandlerWith pre _ =>
    match staticPrefix pre with
    | .ok prefixPath => prefixMatches prefixPath req.uri.path
    | .error _ => false
  | .generateRoutes _ _ | .generateRoutesFrom _ => false

def staticSelection (crates : Crates) (req : Request) (prefixPath : Bytes)
    (handler : StaticRequest → Option Http.Response) : Selection :=
  if req.method ≠ .get ∧ req.method ≠ .head then .preset methodNotAllowedResponse .static
  else
    match StaticFiles.normalizeStaticPath (rawStaticPath prefixPath req.uri.path) with
    | .error _ => .notFound
    | .ok decoded =>
      match handler (staticRequest req decoded) with
      | none => .notFound
      | some response =>
        .preset (staticResponse req.method
          (contentTypeForStaticPath crates.mimeGuess decoded) response)
          .static

def staticClaim (crates : Crates) (req : Request) (pre : Except Bytes Uri)
    (handler : StaticRequest → Option Http.Response) : Selection :=
  match staticPrefix pre with
  | .ok prefixPath => staticSelection crates req prefixPath handler
  | .error _ => .unclaimed

def claimed (crates : Crates) (req : Request) (config : HandlerConfig) : BuilderCall → Selection
  | .withServerFn f => .serverFn (boxedHandler f config.maxRequestBodySize)
  | .staticFilesHandler pre handler =>
    staticClaim crates req pre fun request => (handler request.path).map Http.Response.new
  | .staticFilesHandlerWith pre handler => staticClaim crates req pre handler
  | .generateRoutes _ _ | .generateRoutesFrom _ => .unclaimed

theorem shortcut_eq_false_iff (core : HandlerCore) :
    core.shortcut = false ↔ core.selection = .unclaimed := by
  unfold HandlerCore.shortcut
  cases core.selection <;> simp

theorem shortcut_iff (core : HandlerCore) : core.shortcut = true ↔ core.selection ≠ .unclaimed := by
  rw [ne_eq, ← shortcut_eq_false_iff, Bool.not_eq_false]

theorem staticSelection_ne_unclaimed (req : Request) (prefixPath : Bytes)
    (handler : StaticRequest → Option Http.Response) :
    staticSelection crates req prefixPath handler ≠ .unclaimed := by
  rw [staticSelection]
  split_ifs with hm
  · simp
  · cases StaticFiles.normalizeStaticPath (rawStaticPath prefixPath req.uri.path) with
    | error e => simp
    | ok decoded => cases hh : handler (staticRequest req decoded) <;> simp [hh]

theorem claimStatic_core (core : HandlerCore) (prefixPath : Bytes)
    (handler : StaticRequest → Option Http.Response) :
    (claimStatic crates core prefixPath handler).1 =
      { core with
        selection := staticSelection crates core.req prefixPath handler
        tracePath := (claimStatic crates core prefixPath handler).1.tracePath } := by
  unfold claimStatic staticSelection HandlerCore.withPreset
  simp only
  split_ifs with hm
  · rfl
  · cases StaticFiles.normalizeStaticPath (rawStaticPath prefixPath core.req.uri.path) with
    | error e => rfl
    | ok decoded => cases hh : handler (staticRequest core.req decoded) <;> simp only [hh]

theorem staticFilesHandlerWith_claimed {core core' : HandlerCore} {pre : Except Bytes Uri}
    {handler : StaticRequest → Option Http.Response}
    {effects : List Effect} (hc : core.shortcut = true)
    (h : staticFilesHandlerWith crates core pre handler = (.ok core', effects)) :
    core' = core ∧ effects = [] := by
  rw [staticFilesHandlerWith] at h
  cases hp : staticPrefix pre with
  | error e => simp [hp] at h
  | ok prefixPath =>
    simp only [hp, hc, if_true, Prod.mk.injEq, Except.ok.injEq] at h
    exact ⟨h.1.symm, h.2.symm⟩

theorem apply_claimed {core core' : HandlerCore} {call : BuilderCall} {effects : List Effect}
    (hc : core.shortcut = true) (h : call.apply crates core = (.ok core', effects)) :
    core' = { core with routesRegistered := core'.routesRegistered } ∧ effects = [] := by
  cases call with
  | withServerFn f =>
    simp only [BuilderCall.apply, HandlerCore.withServerFn, hc, if_true, Prod.mk.injEq,
      Except.ok.injEq] at h
    obtain ⟨rfl, rfl⟩ := h
    exact ⟨rfl, rfl⟩
  | staticFilesHandler pre handler =>
    simp only [BuilderCall.apply, Core.staticFilesHandler] at h
    obtain ⟨rfl, rfl⟩ := staticFilesHandlerWith_claimed hc h
    exact ⟨rfl, rfl⟩
  | staticFilesHandlerWith pre handler =>
    simp only [BuilderCall.apply] at h
    obtain ⟨rfl, rfl⟩ := staticFilesHandlerWith_claimed hc h
    exact ⟨rfl, rfl⟩
  | generateRoutes discovered excluded =>
    simp only [BuilderCall.apply, generateRoutesWithExclusionsAndDiscoveryContext, hc, if_true] at h
    split_ifs at h
    · cases h
    · cases h
      exact ⟨rfl, rfl⟩
  | generateRoutesFrom table =>
    simp only [BuilderCall.apply, Core.generateRoutesFrom, hc, if_true] at h
    split_ifs at h
    · cases h
    · cases h
      exact ⟨rfl, rfl⟩

theorem apply_claimed_effects {core : HandlerCore}
    (hc : core.shortcut = true) (call : BuilderCall) :
    (call.apply crates core).2 = [] := by
  have hstatic : ∀ pre handler, (staticFilesHandlerWith crates core pre handler).2 = [] := by
    intro pre handler
    rw [staticFilesHandlerWith]
    cases staticPrefix pre with
    | error e => rfl
    | ok prefixPath => rw [hc]; rfl
  cases call with
  | withServerFn f => rfl
  | staticFilesHandler pre handler => exact hstatic pre _
  | staticFilesHandlerWith pre handler => exact hstatic pre handler
  | generateRoutes discovered excluded =>
    simp only [BuilderCall.apply, generateRoutesWithExclusionsAndDiscoveryContext, hc, if_true]
    split_ifs <;> rfl
  | generateRoutesFrom table =>
    simp only [BuilderCall.apply, Core.generateRoutesFrom, hc, if_true]
    split_ifs <;> rfl

theorem staticFilesHandlerWith_unclaimed {core core' : HandlerCore} {pre : Except Bytes Uri}
    {handler : StaticRequest → Option Http.Response}
    {effects : List Effect} (hu : core.shortcut = false)
    (h : staticFilesHandlerWith crates core pre handler = (.ok core', effects)) :
    ∃ prefixPath, staticPrefix pre = .ok prefixPath ∧
      if prefixMatches prefixPath core.req.uri.path then
        core' = (claimStatic crates core prefixPath handler).1 ∧
          effects = (claimStatic crates core prefixPath handler).2
      else core' = core ∧ effects = [] := by
  rw [staticFilesHandlerWith] at h
  cases hp : staticPrefix pre with
  | error e => simp [hp] at h
  | ok prefixPath =>
    refine ⟨prefixPath, rfl, ?_⟩
    simp only [hp, hu, Bool.false_eq_true, if_false] at h
    split_ifs at h ⊢
    · cases h
      exact ⟨rfl, rfl⟩
    · cases h
      exact ⟨rfl, rfl⟩

/-- What a successful call leaves of an unclaimed request. -/
structure Claimed (crates : Crates) (core core' : HandlerCore) (call : BuilderCall) : Prop where
  req : core'.req = core.req
  config : core'.config = core.config
  selection : core'.selection =
    if claims core.req call then claimed crates core.req core.config call else .unclaimed
  proper : claims core.req call = true → core'.selection ≠ .unclaimed

theorem claimed_of_static {core core' : HandlerCore} {call : BuilderCall} {pre : Except Bytes Uri}
    {handler : StaticRequest → Option Http.Response}
    {effects : List Effect} (hu : core.shortcut = false)
    (h : staticFilesHandlerWith crates core pre handler = (.ok core', effects))
    (hclaims : ∀ p, staticPrefix pre = .ok p →
      claims core.req call = prefixMatches p core.req.uri.path)
    (hclaimed : claimed crates core.req core.config call =
      staticClaim crates core.req pre handler) :
    Claimed crates core core' call := by
  obtain ⟨prefixPath, hp, hm⟩ := staticFilesHandlerWith_unclaimed hu h
  have hcl := hclaims prefixPath hp
  simp only [staticClaim, hp] at hclaimed
  cases hmatch : prefixMatches prefixPath core.req.uri.path with
  | true =>
    simp only [hmatch, if_true] at hm
    obtain ⟨rfl, -⟩ := hm
    rw [claimStatic_core]
    refine ⟨rfl, rfl, ?_, fun _ => staticSelection_ne_unclaimed _ _ _⟩
    rw [hcl, hmatch, if_pos rfl, hclaimed]
  | false =>
    simp only [hmatch, Bool.false_eq_true, if_false] at hm
    obtain ⟨rfl, -⟩ := hm
    refine ⟨rfl, rfl, ?_, fun hc => ?_⟩
    · rw [hcl, hmatch, if_neg (by decide), (shortcut_eq_false_iff _).mp hu]
    · rw [hcl, hmatch] at hc
      cases hc

theorem apply_unclaimed {core core' : HandlerCore} {call : BuilderCall} {effects : List Effect}
    (hu : core.shortcut = false) (h : call.apply crates core = (.ok core', effects)) :
    Claimed crates core core' call := by
  have hsel := (shortcut_eq_false_iff core).mp hu
  cases call with
  | withServerFn f =>
    simp only [BuilderCall.apply, HandlerCore.withServerFn, hu, Bool.false_eq_true, if_false,
      Prod.mk.injEq, Except.ok.injEq] at h
    obtain ⟨rfl, -⟩ := h
    by_cases hf : core.req.method = f.method ∧ core.req.uri.path = f.path
    · rw [if_pos hf]
      exact ⟨rfl, rfl, by simp [claims, claimed, hf], fun _ => by simp⟩
    · rw [if_neg hf]
      exact ⟨rfl, rfl, by simp [claims, hf, hsel], fun hc => absurd (of_decide_eq_true hc) hf⟩
  | staticFilesHandler pre handler =>
    simp only [BuilderCall.apply, Core.staticFilesHandler] at h
    exact claimed_of_static hu h (fun p hp => by simp only [claims, hp]) rfl
  | staticFilesHandlerWith pre handler =>
    simp only [BuilderCall.apply] at h
    exact claimed_of_static hu h (fun p hp => by simp only [claims, hp]) rfl
  | generateRoutes discovered excluded =>
    simp only [BuilderCall.apply, generateRoutesWithExclusionsAndDiscoveryContext, hu,
      Bool.false_eq_true, if_false] at h
    split_ifs at h
    · cases h
    · split at h
      · cases h
      · cases h
        exact ⟨rfl, rfl, by simp [claims, hsel], fun hc => by cases hc⟩
  | generateRoutesFrom table =>
    simp only [BuilderCall.apply, Core.generateRoutesFrom, hu, Bool.false_eq_true, if_false] at h
    split_ifs at h
    · cases h
    · cases h
      exact ⟨rfl, rfl, by simp [claims, hsel], fun hc => by cases hc⟩

theorem register_cons {core core' : HandlerCore} {call : BuilderCall} {calls : List BuilderCall}
    {effects : List Effect} (h : register crates core (call :: calls) = (.ok core', effects)) :
    ∃ mid e₁ e₂, call.apply crates core = (.ok mid, e₁) ∧
      register crates mid calls = (.ok core', e₂) ∧
      effects = e₁ ++ e₂ := by
  rw [register] at h
  cases ha : call.apply crates core with
  | mk result e₁ =>
    rw [ha] at h
    cases result with
    | error e => cases h
    | ok mid =>
      cases hr : register crates mid calls with
      | mk result e₂ =>
        simp only [hr, Prod.mk.injEq] at h
        obtain ⟨rfl, rfl⟩ := h
        exact ⟨mid, e₁, e₂, rfl, hr, rfl⟩

theorem register_append {core core' : HandlerCore} {before after : List BuilderCall}
    {effects : List Effect} (h : register crates core (before ++ after) = (.ok core', effects)) :
    ∃ mid e₁ e₂, register crates core before = (.ok mid, e₁) ∧
      register crates mid after = (.ok core', e₂) ∧ effects = e₁ ++ e₂ := by
  induction before generalizing core effects with
  | nil => exact ⟨core, [], effects, rfl, h, rfl⟩
  | cons call calls ih =>
    obtain ⟨next, d₁, d₂, ha, hr, rfl⟩ := register_cons h
    obtain ⟨mid, e₁, e₂, hb, hafter, rfl⟩ := ih hr
    refine ⟨mid, d₁ ++ e₁, e₂, ?_, hafter, by rw [List.append_assoc]⟩
    simp only [register, ha, hb]

theorem register_concat {core mid core' : HandlerCore}
    {calls : List BuilderCall} {call : BuilderCall}
    {effects e : List Effect} (h : register crates core calls = (.ok mid, effects))
    (hcall : call.apply crates mid = (.ok core', e)) :
    register crates core (calls ++ [call]) = (.ok core', effects ++ e) := by
  induction calls generalizing core effects with
  | nil =>
    cases h
    simp only [List.nil_append, register, hcall, List.append_nil]
  | cons first calls ih =>
    obtain ⟨next, d₁, d₂, hfirst, hrest, rfl⟩ := register_cons h
    simp only [List.cons_append, register, hfirst, ih hrest, List.append_assoc]

theorem register_claimed {core core' : HandlerCore}
    {calls : List BuilderCall} {effects : List Effect}
    (hc : core.shortcut = true) (h : register crates core calls = (.ok core', effects)) :
    core' = { core with routesRegistered := core'.routesRegistered } ∧ effects = [] := by
  induction calls generalizing core effects with
  | nil =>
    cases h
    exact ⟨rfl, rfl⟩
  | cons call calls ih =>
    obtain ⟨mid, e₁, e₂, ha, hr, rfl⟩ := register_cons h
    obtain ⟨hmid, rfl⟩ := apply_claimed hc ha
    obtain ⟨hcore, rfl⟩ := ih (by rw [hmid]; exact hc) hr
    exact ⟨by rw [hcore, hmid], rfl⟩

theorem register_claimed_effects {core : HandlerCore} (hc : core.shortcut = true)
    (calls : List BuilderCall) : (register crates core calls).2 = [] := by
  induction calls generalizing core with
  | nil => rfl
  | cons call calls ih =>
    have heffects : (call.apply crates core).2 = [] := apply_claimed_effects hc call
    rw [register]
    cases ha : call.apply crates core with
    | mk result e₁ =>
      rw [ha] at heffects
      cases result with
      | error e => exact heffects
      | ok mid =>
        obtain ⟨hmid, rfl⟩ := apply_claimed hc ha
        exact ih (by rw [hmid]; exact hc)

theorem register_unclaimed {core core' : HandlerCore}
    {calls : List BuilderCall} {effects : List Effect}
    (hu : core.shortcut = false) (hno : ∀ call ∈ calls, claims core.req call = false)
    (h : register crates core calls = (.ok core', effects)) :
    core'.selection = .unclaimed ∧ core'.req = core.req ∧ core'.config = core.config := by
  induction calls generalizing core effects with
  | nil =>
    cases h
    exact ⟨(shortcut_eq_false_iff _).mp hu, rfl, rfl⟩
  | cons call calls ih =>
    obtain ⟨mid, e₁, e₂, ha, hr, -⟩ := register_cons h
    have hstep := apply_unclaimed hu ha
    have hsel := hstep.selection
    rw [hno call List.mem_cons_self, if_neg (by decide)] at hsel
    have hrest : ∀ c ∈ calls, claims mid.req c = false := by
      intro c hcalls
      rw [hstep.req]
      exact hno c (List.mem_cons_of_mem _ hcalls)
    obtain ⟨hs, hreq, hconfig⟩ := ih ((shortcut_eq_false_iff _).mpr hsel) hrest hr
    exact ⟨hs, hreq.trans hstep.req, hconfig.trans hstep.config⟩

/-- The first call that claims a request decides. -/
theorem register_first_claim {core core' : HandlerCore} {before after : List BuilderCall}
    {call : BuilderCall} {effects : List Effect} (hu : core.shortcut = false)
    (hno : ∀ c ∈ before, claims core.req c = false) (hcall : claims core.req call = true)
    (h : register crates core (before ++ call :: after) = (.ok core', effects)) :
    ∃ mid e, register crates core (before ++ [call]) = (.ok mid, e) ∧ mid.shortcut = true ∧
      mid.selection = claimed crates core.req core.config call ∧ effects = e ∧
      core' = { mid with routesRegistered := core'.routesRegistered } := by
  rw [List.append_cons] at h
  obtain ⟨mid, e₁, e₂, hfirst, hafter, rfl⟩ := register_append h
  obtain ⟨pre, d₁, d₂, hbefore, hlast, -⟩ := register_append hfirst
  obtain ⟨hpre, hreq, hconfig⟩ := register_unclaimed hu hno hbefore
  obtain ⟨last, _, _, ha, hnil, -⟩ := register_cons hlast
  cases hnil
  have hstep := apply_unclaimed ((shortcut_eq_false_iff pre).mpr hpre) ha
  have hproper := hstep.proper (by rw [hreq, hcall])
  have hsel := hstep.selection
  rw [hreq, hconfig, hcall, if_pos rfl] at hsel
  obtain ⟨hcore, rfl⟩ := register_claimed ((shortcut_iff _).mpr hproper) hafter
  exact ⟨_, _, hfirst, (shortcut_iff _).mpr hproper, hsel, List.append_nil e₁, hcore⟩

end

end LeptosWasi.Registration
