import LeptosWasi.Registration
import LeptosWasi.RouteExclusion

namespace LeptosWasi.RouteReuse

open Http Policy Routes LeptosWasi.Core Registration RouteExclusion

/-- The same registration with the table that an instance has discovered before. -/
def reuse (table : List (String × RouteListing) → Option (List String) → RouteTable) :
    BuilderCall → BuilderCall
  | .generateRoutes discovered excluded => .generateRoutesFrom (table discovered excluded)
  | call => call

def Discovered (crates : Crates) (table : List (String × RouteListing) →
    Option (List String) → RouteTable) :
    BuilderCall → Prop
  | .generateRoutes discovered excluded =>
    RouteTable.discover crates.routeSpec discovered excluded = .ok (table discovered excluded)
  | .generateRoutesFrom given =>
    ∃ discovered excluded, RouteTable.discover crates.routeSpec discovered excluded = .ok given
  | .withServerFn _ | .staticFilesHandler _ _ | .staticFilesHandlerWith _ _ => True

/-- The errors that no check of the routes finds. -/
def Misused (e : RegistrationError) : Prop :=
  e = .routesAlreadyGenerated ∨ ∃ detail, e = .invalidStaticPrefix detail

def Served (router : RouteTable) : Prop := ∀ route ∈ router.router, route.2.mode ≠ .static

section

variable {crates : Crates} {table : List (String × RouteListing) →
    Option (List String) → RouteTable}
  {discovered : List (String × RouteListing)} {excluded : Option (List String)}

theorem discover_ok {given : RouteTable}
    (h : RouteTable.discover crates.routeSpec discovered excluded = .ok given) :
    validatedRouteTable crates.routeSpec discovered excluded = .ok given.router := by
  rw [RouteTable.discover] at h
  cases hroutes : validatedRouteTable crates.routeSpec discovered excluded with
  | error e => rw [hroutes] at h; cases h
  | ok routes => rw [hroutes] at h; cases h; rfl

theorem validateRouteTable_error {e : RegistrationError}
    (h : validateRouteTable crates.routeSpec discovered excluded = .error e) :
    validatedRouteTable crates.routeSpec discovered excluded = .error e := by
  rw [validateRouteTable] at h
  cases hroutes : validatedRouteTable crates.routeSpec discovered excluded with
  | error e' => rw [hroutes] at h; exact congrArg _ (Except.error.inj h)
  | ok routes => rw [hroutes] at h; cases h

theorem served_of_discover {given : RouteTable}
    (h : RouteTable.discover crates.routeSpec discovered excluded = .ok given) : Served given := by
  have hvalidated := discover_ok h
  cases hroutes : registeredRoutes crates.routeSpec discovered with
  | error e =>
    rw [validatedRouteTable_error excluded hroutes] at hvalidated
    cases hvalidated
  | ok routes =>
    rw [validatedRouteTable_excluded excluded hroutes] at hvalidated
    exact (validatedRouteTable_sound hvalidated).served

theorem staticFilesHandlerWith_effects (core : HandlerCore) (pre : Except Bytes Uri)
    (handler : StaticRequest → Option Http.Response) :
    .discovery ∉ (staticFilesHandlerWith crates core pre handler).2 := by
  rw [staticFilesHandlerWith]
  cases staticPrefix pre with
  | error e => exact List.not_mem_nil
  | ok prefixPath =>
    simp only [claimStatic]
    split_ifs
    · exact List.not_mem_nil
    · exact List.not_mem_nil
    · cases StaticFiles.normalizeStaticPath (rawStaticPath prefixPath core.req.uri.path) with
      | error e => exact List.not_mem_nil
      | ok decoded => cases hfound : handler (staticRequest core.req decoded) <;> simp [hfound]
    · exact List.not_mem_nil

theorem staticFilesHandlerWith_error {core : HandlerCore} {pre : Except Bytes Uri}
    {handler : StaticRequest → Option Http.Response} {e : RegistrationError}
    (h : (staticFilesHandlerWith crates core pre handler).1 = .error e) : Misused e := by
  rw [staticFilesHandlerWith] at h
  cases hp : staticPrefix pre with
  | error e' =>
    rw [hp] at h
    obtain rfl := Except.error.inj h
    unfold staticPrefix at hp
    split at hp
    · exact .inr ⟨_, (Except.error.inj hp).symm⟩
    · split_ifs at hp
      exact .inr ⟨_, (Except.error.inj hp).symm⟩
  | ok prefixPath =>
    rw [hp] at h
    dsimp only at h
    split_ifs at h

theorem apply_reuse {call : BuilderCall} (hcall : Discovered crates table call)
    (core : HandlerCore) :
    ((reuse table call).apply crates core).1 = (call.apply crates core).1 ∧
      ((reuse table call).apply crates core).2 = (call.apply crates core).2.filter
      (· ≠ .discovery) := by
  have hkept (effects : List Effect) (h : .discovery ∉ effects) :
    effects = effects.filter (· ≠ .discovery) := by
    refine (List.filter_eq_self.mpr fun effect he => decide_eq_true ?_).symm
    rintro rfl
    exact h he
  cases call with
  | withServerFn f => exact ⟨rfl, rfl⟩
  | staticFilesHandler pre handler =>
    exact ⟨rfl, hkept _ (staticFilesHandlerWith_effects core pre _)⟩
  | staticFilesHandlerWith pre handler =>
    exact ⟨rfl, hkept _ (staticFilesHandlerWith_effects core pre _)⟩
  | generateRoutes discovered excluded =>
    have hroutes := discover_ok hcall
    simp only [reuse, BuilderCall.apply, Core.generateRoutesFrom,
      generateRoutesWithExclusionsAndDiscoveryContext, hroutes, routerFromListings]
    split_ifs
    · exact ⟨rfl, rfl⟩
    · exact ⟨rfl, rfl⟩
    · exact ⟨rfl, rfl⟩
  | generateRoutesFrom given =>
    refine ⟨rfl, hkept _ ?_⟩
    simp only [BuilderCall.apply, Core.generateRoutesFrom]
    split_ifs <;> exact List.not_mem_nil

theorem apply_error {call : BuilderCall} (hcall : Discovered crates table call) {core : HandlerCore}
    {e : RegistrationError} (h : (call.apply crates core).1 = .error e) : Misused e := by
  cases call with
  | withServerFn f => cases h
  | staticFilesHandler pre handler => exact staticFilesHandlerWith_error h
  | staticFilesHandlerWith pre handler => exact staticFilesHandlerWith_error h
  | generateRoutes discovered excluded =>
    have hroutes := discover_ok hcall
    simp only [BuilderCall.apply, generateRoutesWithExclusionsAndDiscoveryContext, hroutes] at h
    split_ifs at h
    exact .inl (Except.error.inj h).symm
  | generateRoutesFrom given =>
    simp only [BuilderCall.apply, Core.generateRoutesFrom] at h
    split_ifs at h
    exact .inl (Except.error.inj h).symm

theorem apply_served {call : BuilderCall} (hcall : Discovered crates table call)
    {core core' : HandlerCore}
    (hcore : Served core.ssrRouter) {effects : List Effect}
    (h : call.apply crates core = (.ok core', effects)) :
    Served core'.ssrRouter := by
  have hstatic (pre : Except Bytes Uri) (handler : StaticRequest → Option Http.Response)
      (hs : staticFilesHandlerWith crates core pre handler = (.ok core', effects)) :
      core'.ssrRouter = core.ssrRouter := by
    rw [staticFilesHandlerWith] at hs
    cases hp : staticPrefix pre with
    | error e => rw [hp] at hs; cases hs
    | ok prefixPath =>
      rw [hp] at hs
      dsimp only at hs
      split_ifs at hs
      · cases hs; rfl
      · cases hs
        rw [claimStatic_core]
      · cases hs; rfl
  cases call with
  | withServerFn f =>
    simp only [BuilderCall.apply, HandlerCore.withServerFn, Prod.mk.injEq, Except.ok.injEq] at h
    rw [← h.1]
    split_ifs <;> exact hcore
  | staticFilesHandler pre handler =>
    rw [hstatic pre (fun request => (handler request.path).map Http.Response.new) h]; exact hcore
  | staticFilesHandlerWith pre handler => rw [hstatic pre _ h]; exact hcore
  | generateRoutes discovered excluded =>
    have hroutes := discover_ok hcall
    simp only [BuilderCall.apply, generateRoutesWithExclusionsAndDiscoveryContext, hroutes] at h
    split_ifs at h
    · cases h
    · cases h
      exact hcore
    · cases h
      exact served_of_discover hcall
  | generateRoutesFrom given =>
    obtain ⟨discovered, excluded, hgiven⟩ := hcall
    simp only [BuilderCall.apply, Core.generateRoutesFrom] at h
    split_ifs at h
    · cases h
    · cases h
      exact hcore
    · cases h
      exact served_of_discover hgiven

theorem register_reuse {calls : List BuilderCall}
    (hcalls : ∀ call ∈ calls, Discovered crates table call)
    (core : HandlerCore) :
    (register crates core (calls.map (reuse table))).1 = (register crates core calls).1 ∧
      (register crates core (calls.map (reuse table))).2 =
        (register crates core calls).2.filter (· ≠ .discovery) := by
  induction calls generalizing core with
  | nil => exact ⟨rfl, rfl⟩
  | cons call calls ih =>
    obtain ⟨hresult, heffects⟩ := apply_reuse (hcalls call List.mem_cons_self) core
    simp only [List.map_cons, register]
    cases hplain : call.apply crates core with
    | mk result effects =>
      cases hreused : (reuse table call).apply crates core with
      | mk result' effects' =>
        rw [hplain, hreused] at hresult heffects
        obtain rfl : result' = result := hresult
        cases result' with
        | error e => exact ⟨rfl, heffects⟩
        | ok mid =>
          obtain ⟨hrest, hmore⟩ := ih (fun c hc => hcalls c (List.mem_cons_of_mem _ hc)) mid
          refine ⟨hrest, ?_⟩
          dsimp only
          rw [List.filter_append, ← hmore, ← heffects]

theorem register_error {calls : List BuilderCall}
    (hcalls : ∀ call ∈ calls, Discovered crates table call)
    {core : HandlerCore} {e : RegistrationError} (h : (register crates core calls).1 = .error e) :
    Misused e := by
  induction calls generalizing core with
  | nil => cases h
  | cons call calls ih =>
    rw [register] at h
    cases hplain : call.apply crates core with
    | mk result effects =>
      rw [hplain] at h
      cases result with
      | error e' =>
        obtain rfl := Except.error.inj h
        exact apply_error (hcalls call List.mem_cons_self) (congrArg Prod.fst hplain)
      | ok mid => exact ih (fun c hc => hcalls c (List.mem_cons_of_mem _ hc)) h

theorem register_served {calls : List BuilderCall}
    (hcalls : ∀ call ∈ calls, Discovered crates table call)
    {core core' : HandlerCore} (hcore : Served core.ssrRouter) {effects : List Effect}
    (h : register crates core calls = (.ok core', effects)) : Served core'.ssrRouter := by
  induction calls generalizing core effects with
  | nil => cases h; exact hcore
  | cons call calls ih =>
    obtain ⟨mid, _, _, ha, hr, -⟩ := register_cons h
    have hmid := apply_served (hcalls call List.mem_cons_self) hcore ha
    exact ih (fun c hc => hcalls c (List.mem_cons_of_mem _ hc)) hmid hr

theorem register_after {before after : List BuilderCall}
    {core mid : HandlerCore} {effects : List Effect}
    (h : register crates core before = (.ok mid, effects)) :
    register crates core (before ++ after) =
      ((register crates mid after).1, effects ++ (register crates mid after).2) := by
  induction before generalizing core effects with
  | nil => cases h; rfl
  | cons call calls ih =>
    obtain ⟨next, e₁, e₂, ha, hr, rfl⟩ := register_cons h
    simp only [List.cons_append, register, ha, ih hr, List.append_assoc]

theorem register_rejected {before after : List BuilderCall}
    {core mid : HandlerCore} {effects : List Effect}
    {e : RegistrationError} (h : register crates core before = (.ok mid, effects))
    (hmid : mid.shortcut = false)
    (hfirst : mid.routesRegistered = false)
    (hinvalid : validateRouteTable crates.routeSpec discovered excluded = .error e) :
    register crates core (before ++ .generateRoutes discovered excluded :: after) =
      (.error e, effects ++ [.discovery]) := by
  rw [register_after h]
  simp only [register, BuilderCall.apply, generateRoutesWithExclusionsAndDiscoveryContext,
    hmid, hfirst,
    validateRouteTable_error hinvalid]
  rfl

end

/-- Reusing discovered tables changes nothing but the discovery. Routes that
pass the check never fail a request, nor does a route of theirs that a request
finds have static mode; routes that do not pass fail every request that would
consult them. -/
theorem route_tables_agree {crates : Crates}
    (hmatch : ∀ router path listing, crates.bestMatch router path = some listing →
      ∃ spec, (spec, listing) ∈ router.router)
    {core : HandlerCore} (hcore : core.ssrRouter = ⟨[]⟩) :
    (∀ table calls, (∀ call ∈ calls, Discovered crates table call) →
      (register crates core (calls.map (reuse table))).1 = (register crates core calls).1 ∧
      (register crates core (calls.map (reuse table))).2 =
        (register crates core calls).2.filter (· ≠ .discovery) ∧
      (∀ e, (register crates core calls).1 = .error e → Misused e) ∧
      ∀ core' path listing, (register crates core calls).1 = .ok core' →
        crates.bestMatch core'.ssrRouter path = some listing → listing.mode ≠ .static) ∧
    ∀ before after mid effects discovered excluded e,
      register crates core before = (.ok mid, effects) → mid.selection = .unclaimed →
      mid.routesRegistered = false →
      validateRouteTable crates.routeSpec discovered excluded = .error e →
        register crates core (before ++ .generateRoutes discovered excluded :: after) =
          (.error e, effects ++ [.discovery]) := by
  constructor
  · intro table calls hcalls
    obtain ⟨hresult, heffects⟩ := register_reuse hcalls core
    refine ⟨hresult, heffects, fun e he => register_error hcalls he, ?_⟩
    intro core' path listing hok hfound
    have hempty : Served core.ssrRouter := by
      rw [hcore]
      intro route h
      cases h
    have hserved :=
      register_served hcalls hempty (Prod.ext hok rfl : register crates core calls = (.ok core', _))
    obtain ⟨spec, hroute⟩ := hmatch _ _ _ hfound
    exact hserved _ hroute
  · intro before after mid effects discovered excluded e h hmid hfirst hinvalid
    exact register_rejected h ((shortcut_eq_false_iff mid).mpr hmid) hfirst hinvalid

def staticPatterns : Crates :=
  { Crates.originForm with
    routeSpec := fun path => .ok ⟨[.slash, .exact ((path.drop 1).toString)]⟩
    bestMatch := fun router path =>
      (router.router.find? fun route => route.1.segments.any
        (· = .exact "cached") && path == text "/cached").map
        Prod.snd }

def cachedRoutes : List (String × RouteListing) := [("/cached", ⟨.outOfOrder⟩)]

def cachedTable : RouteTable := ⟨[(⟨[.slash, .exact "cached"]⟩, ⟨.outOfOrder⟩)]⟩

theorem route_tables_agree_cached :
    (register staticPatterns (.new ⟨.get, pathUri "/cached", ∅, []⟩ .default)
      [.generateRoutesFrom cachedTable]).1 =
      (register staticPatterns (.new ⟨.get, pathUri "/cached", ∅, []⟩ .default)
        [.generateRoutes cachedRoutes none]).1 := by
  have hmatch (router : RouteTable) (path : Bytes) (listing : RouteListing)
      (h : staticPatterns.bestMatch router path = some listing) :
      ∃ spec, (spec, listing) ∈ router.router := by
    obtain ⟨⟨spec, found⟩, hroute, rfl⟩ := Option.map_eq_some_iff.mp h
    exact ⟨spec, List.mem_of_find?_eq_some hroute⟩
  refine ((route_tables_agree hmatch rfl).1 (fun _ _ => cachedTable)
    [.generateRoutes cachedRoutes none] ?_).1
  intro call hcall
  rw [List.mem_singleton.mp hcall]
  rfl

end LeptosWasi.RouteReuse
