import LeptosWasi.Routes

namespace LeptosWasi.RouteExclusion

open Policy Routes

def rejectedPath : RegistrationError → Option String
  | .duplicateRoute path | .unsupportedStaticSsr path | .invalidRoute path _ => some path
  | .invalidStaticPrefix _ | .routesAlreadyGenerated => none

def isExcluded (excluded : Option (List String)) (path : String) : Bool := excluded.any (path ∈ ·)

def withoutExcluded (discovered : List (String × RouteListing)) (excluded : Option (List String)) :
    List (String × RouteListing) :=
  discovered.filter fun found => !isExcluded excluded found.1

section Exclusion

variable (tryFrom : String → Except String RouteSpec)

def TableRoute (found : String × RouteListing) (route : RouteSpec × RouteListing) : Prop :=
  tryFrom found.1 = .ok route.1 ∧ route.2 = found.2

structure SoundTable (found : List (String × RouteListing))
    (table : List (RouteSpec × RouteListing)) : Prop where
  entries : List.Forall₂ (TableRoute tryFrom) found table
  distinct : (table.map fun route => routeCollisionKey route.1).Nodup
  served : ∀ route ∈ table, route.2.mode ≠ .static

/-- Excluding routes is the same as not having them. -/
structure ExcludedAsAbsent (discovered : List (String × RouteListing))
    (excluded : Option (List String)) : Prop where
  agrees : validatedRouteTable tryFrom discovered excluded =
    validatedRouteTable tryFrom (withoutExcluded discovered excluded) none
  blameless : ∀ e path, validatedRouteTable tryFrom discovered excluded = .error e →
    rejectedPath e = some path → isExcluded excluded path = false
  sound : ∀ table, validatedRouteTable tryFrom discovered excluded = .ok table →
    SoundTable tryFrom (withoutExcluded discovered excluded) table

def firstUnparsed (discovered : List (String × RouteListing)) : Option (String × RouteListing) :=
  discovered.find? fun found => !(tryFrom found.1).isOk

def ParsedRoute (found : String × RouteListing)
    (route : String × RouteSpec × RouteListing) : Prop :=
  route.1 = found.1 ∧ TableRoute tryFrom found route.2

end Exclusion

section Discovery

variable {tryFrom : String → Except String RouteSpec}

theorem registeredRoutes_cons_ok {path : String} {listing : RouteListing}
    {rest : List (String × RouteListing)} {routes : List (String × RouteSpec × RouteListing)}
    (h : registeredRoutes tryFrom ((path, listing) :: rest) = .ok routes) :
    ∃ spec tail, tryFrom path = .ok spec ∧ registeredRoutes tryFrom rest = .ok tail ∧
      routes = (path, spec, listing) :: tail := by
  rw [registeredRoutes] at h
  cases hpath : tryFrom path with
  | error reason => simp [hpath] at h
  | ok spec =>
    cases hrest : registeredRoutes tryFrom rest with
    | error e => simp [hpath, hrest] at h
    | ok tail =>
      simp only [hpath, hrest] at h
      exact ⟨spec, tail, rfl, rfl, (Except.ok.inj h).symm⟩

theorem registeredRoutes_cons_error {path : String} {listing : RouteListing}
    {rest : List (String × RouteListing)} {e : RegistrationError}
    (h : registeredRoutes tryFrom ((path, listing) :: rest) = .error e) :
    (∃ reason, tryFrom path = .error reason ∧ e = .invalidRoute path reason) ∨
      (tryFrom path).isOk = true ∧ registeredRoutes tryFrom rest = .error e := by
  rw [registeredRoutes] at h
  cases hpath : tryFrom path with
  | error reason => simp_all
  | ok spec => cases hrest : registeredRoutes tryFrom rest <;> simp_all [Except.isOk, Except.toBool]

theorem registeredRoutes_error {discovered : List (String × RouteListing)} {e : RegistrationError}
    (h : registeredRoutes tryFrom discovered = .error e) :
    ∃ found reason, firstUnparsed tryFrom discovered = some found ∧
      e = .invalidRoute found.1 reason := by
  induction discovered with
  | nil => simp [registeredRoutes] at h
  | cons head rest ih =>
    obtain ⟨path, listing⟩ := head
    obtain ⟨reason, hpath, rfl⟩ | ⟨hpath, hrest⟩ := registeredRoutes_cons_error h
    · refine ⟨(path, listing), reason, ?_, rfl⟩
      simp [firstUnparsed, hpath, Except.isOk, Except.toBool]
    · obtain ⟨found, reason, hfound, he⟩ := ih hrest
      refine ⟨found, reason, ?_, he⟩
      rw [firstUnparsed, List.find?_cons_of_neg (by simp [hpath])]
      exact hfound

theorem registeredRoutes_ok {discovered : List (String × RouteListing)}
    {routes : List (String × RouteSpec × RouteListing)}
    (h : registeredRoutes tryFrom discovered = .ok routes) :
    List.Forall₂ (ParsedRoute tryFrom) discovered routes := by
  induction discovered generalizing routes with
  | nil =>
    obtain rfl := Except.ok.inj h
    exact List.Forall₂.nil
  | cons head rest ih =>
    obtain ⟨path, listing⟩ := head
    obtain ⟨spec, tail, hpath, hrest, rfl⟩ := registeredRoutes_cons_ok h
    exact List.Forall₂.cons ⟨rfl, hpath, rfl⟩ (ih hrest)

theorem registeredRoutes_paths {discovered : List (String × RouteListing)}
    {routes : List (String × RouteSpec × RouteListing)}
    (h : registeredRoutes tryFrom discovered = .ok routes) :
    routes.map Prod.fst = discovered.map Prod.fst := by
  have hsame : List.Forall₂ (fun found route => found.1 = route.1) discovered routes :=
    (registeredRoutes_ok h).imp fun _ _ hparsed => hparsed.1.symm
  rw [eq_comm, ← List.forall₂_eq_eq_eq, List.forall₂_map_left_iff, List.forall₂_map_right_iff]
  exact hsame

theorem firstUnparsed_of_ok {discovered : List (String × RouteListing)}
    {routes : List (String × RouteSpec × RouteListing)}
    (h : registeredRoutes tryFrom discovered = .ok routes) :
    firstUnparsed tryFrom discovered = none := by
  induction discovered generalizing routes with
  | nil => rfl
  | cons head rest ih =>
    obtain ⟨path, listing⟩ := head
    obtain ⟨spec, tail, hpath, hrest, -⟩ := registeredRoutes_cons_ok h
    rw [firstUnparsed, List.find?_cons_of_neg (by simp [hpath, Except.isOk, Except.toBool])]
    exact ih hrest

theorem registeredRoutes_unparsed {discovered : List (String × RouteListing)}
    {found : String × RouteListing}
    (h : firstUnparsed tryFrom discovered = some found) :
    ∃ reason, registeredRoutes tryFrom discovered = .error (.invalidRoute found.1 reason) := by
  cases hroutes : registeredRoutes tryFrom discovered with
  | error e =>
    obtain ⟨found', reason, hfound', rfl⟩ := registeredRoutes_error hroutes
    rw [h] at hfound'
    obtain rfl := Option.some.inj hfound'
    exact ⟨reason, rfl⟩
  | ok routes =>
    rw [firstUnparsed_of_ok hroutes] at h
    cases h

theorem registeredRoutes_filter (kept : String → Bool) {discovered : List (String × RouteListing)}
    {routes : List (String × RouteSpec × RouteListing)}
    (h : registeredRoutes tryFrom discovered = .ok routes) :
    registeredRoutes tryFrom (discovered.filter fun found => kept found.1) =
      .ok (routes.filter fun route => kept route.1) := by
  induction discovered generalizing routes with
  | nil =>
    obtain rfl := Except.ok.inj h
    rfl
  | cons head rest ih =>
    obtain ⟨path, listing⟩ := head
    obtain ⟨spec, tail, hpath, hrest, rfl⟩ := registeredRoutes_cons_ok h
    by_cases hkept : kept path = true
    · simp only [List.filter_cons, hkept, if_true]
      rw [registeredRoutes, hpath]
      dsimp only
      rw [ih hrest]
      rfl
    · simp only [List.filter_cons, hkept]
      exact ih hrest

theorem registeredRoutes_error_filter (kept : String → Bool)
    {discovered : List (String × RouteListing)}
    {found : String × RouteListing} {e : RegistrationError}
    (h : registeredRoutes tryFrom discovered = .error e)
    (hfound : firstUnparsed tryFrom discovered = some found) (hkept : kept found.1 = true) :
    registeredRoutes tryFrom (discovered.filter fun found => kept found.1) = .error e := by
  induction discovered with
  | nil => simp [registeredRoutes] at h
  | cons head rest ih =>
    obtain ⟨path, listing⟩ := head
    obtain ⟨reason, hpath, rfl⟩ | ⟨hpath, hrest⟩ := registeredRoutes_cons_error h
    · have hhead : firstUnparsed tryFrom ((path, listing) :: rest) = some (path, listing) := by
        simp [firstUnparsed, hpath, Except.isOk, Except.toBool]
      rw [hhead] at hfound
      obtain rfl := Option.some.inj hfound
      simp only [List.filter_cons, hkept, if_true]
      rw [registeredRoutes, hpath]
    · rw [firstUnparsed, List.find?_cons_of_neg (by simp [hpath])] at hfound
      have htail := ih hrest hfound
      by_cases hhead : kept path = true
      · simp only [List.filter_cons, hhead, if_true]
        rw [registeredRoutes, htail]
        cases hspec : tryFrom path with
        | error reason => simp [hspec, Except.isOk, Except.toBool] at hpath
        | ok spec => rfl
      · simp only [List.filter_cons, hhead]
        exact htail

end Discovery

section Validation

variable {excluded : Option (List String)} {registeredPaths : List (List RouteCollisionSegment)}
  {path : String} {spec : RouteSpec} {listing : RouteListing}
  {rest routes : List (String × RouteSpec × RouteListing)}

theorem validateRoutes_skip (h : isExcluded excluded path = true) :
    validateRoutes excluded registeredPaths ((path, spec, listing) :: rest) =
      validateRoutes excluded registeredPaths rest := by
  rw [validateRoutes]
  exact if_pos h

theorem validateRoutes_check (h : isExcluded excluded path = false) :
    validateRoutes excluded registeredPaths ((path, spec, listing) :: rest) =
      if routeCollisionKey spec ∈ registeredPaths then .error (.duplicateRoute path)
      else if listing.mode = .static then .error (.unsupportedStaticSsr path)
      else ((spec, listing) :: ·) <$>
        validateRoutes excluded (routeCollisionKey spec :: registeredPaths) rest := by
  rw [validateRoutes]
  exact if_neg (by simpa [isExcluded] using h)

theorem validateRoutes_excluded (excluded : Option (List String))
    (registeredPaths : List (List RouteCollisionSegment))
    (routes : List (String × RouteSpec × RouteListing)) :
    validateRoutes excluded registeredPaths routes =
      validateRoutes none registeredPaths
        (routes.filter fun route => !isExcluded excluded route.1) := by
  induction routes generalizing registeredPaths with
  | nil => rfl
  | cons head rest ih =>
    obtain ⟨path, spec, listing⟩ := head
    cases hpath : isExcluded excluded path with
    | true =>
      rw [validateRoutes_skip hpath, ih]
      simp [hpath]
    | false =>
      have hkept : (!isExcluded excluded path) = true := by rw [hpath, Bool.not_false]
      simp only [List.filter_cons, hkept, if_true]
      rw [validateRoutes_check hpath, validateRoutes_check rfl, ih]

theorem validateRoutes_error {e : RegistrationError}
    (h : validateRoutes none registeredPaths routes = .error e) :
    ∃ route ∈ routes, rejectedPath e = some route.1 := by
  induction routes generalizing registeredPaths with
  | nil => simp [validateRoutes] at h
  | cons head rest ih =>
    obtain ⟨path, spec, listing⟩ := head
    rw [validateRoutes_check rfl] at h
    split_ifs at h with hduplicate hstatic
    · cases h
      exact ⟨_, List.mem_cons_self, rfl⟩
    · cases h
      exact ⟨_, List.mem_cons_self, rfl⟩
    · cases hrest : validateRoutes none (routeCollisionKey spec :: registeredPaths) rest with
      | ok table => simp [hrest] at h
      | error e' =>
        rw [hrest] at h
        obtain rfl := Except.error.inj h
        obtain ⟨route, hroute, hpath⟩ := ih hrest
        exact ⟨route, List.mem_cons_of_mem _ hroute, hpath⟩

theorem validateRoutes_ok {table : List (RouteSpec × RouteListing)}
    (h : validateRoutes none registeredPaths routes = .ok table) :
    table = routes.map Prod.snd ∧ (table.map fun route => routeCollisionKey route.1).Nodup ∧
      (∀ route ∈ table, routeCollisionKey route.1 ∉ registeredPaths) ∧
      ∀ route ∈ table, route.2.mode ≠ .static := by
  induction routes generalizing registeredPaths table with
  | nil =>
    obtain rfl := Except.ok.inj h
    simp
  | cons head rest ih =>
    obtain ⟨path, spec, listing⟩ := head
    rw [validateRoutes_check rfl] at h
    split_ifs at h with hduplicate hstatic
    cases hrest : validateRoutes none (routeCollisionKey spec :: registeredPaths) rest with
    | error e => simp [hrest] at h
    | ok tail =>
      rw [hrest] at h
      obtain rfl := Except.ok.inj h
      obtain ⟨hentries, hdistinct, hnew, hserved⟩ := ih hrest
      refine ⟨by rw [hentries, List.map_cons], ?_, ?_, ?_⟩
      · rw [List.map_cons, List.nodup_cons]
        refine ⟨?_, hdistinct⟩
        rw [List.mem_map]
        rintro ⟨route, hroute, hkey⟩
        exact hnew route hroute (hkey ▸ List.mem_cons_self)
      · intro route hroute
        obtain rfl | hroute := List.mem_cons.mp hroute
        · exact hduplicate
        · exact fun hold => hnew route hroute (List.mem_cons_of_mem _ hold)
      · intro route hroute
        obtain rfl | hroute := List.mem_cons.mp hroute
        · exact hstatic
        · exact hserved route hroute

end Validation

section Exclusion

variable {tryFrom : String → Except String RouteSpec} {discovered : List (String × RouteListing)}

theorem validatedRouteTable_sound {table : List (RouteSpec × RouteListing)}
    (h : validatedRouteTable tryFrom discovered none = .ok table) :
    SoundTable tryFrom discovered table := by
  rw [validatedRouteTable] at h
  cases hroutes : registeredRoutes tryFrom discovered with
  | error e => rw [hroutes] at h; cases h
  | ok routes =>
    rw [hroutes] at h
    obtain ⟨rfl, hdistinct, -, hserved⟩ := validateRoutes_ok h
    refine ⟨?_, hdistinct, hserved⟩
    rw [List.forall₂_map_right_iff]
    exact (registeredRoutes_ok hroutes).imp fun _ _ hparsed => hparsed.2

theorem validatedRouteTable_rejects {e : RegistrationError}
    (h : validatedRouteTable tryFrom discovered none = .error e) :
    ∃ found ∈ discovered, rejectedPath e = some found.1 := by
  rw [validatedRouteTable] at h
  cases hroutes : registeredRoutes tryFrom discovered with
  | error e' =>
    obtain ⟨found, reason, hfound, rfl⟩ := registeredRoutes_error hroutes
    rw [hroutes] at h
    obtain rfl := Except.error.inj h
    exact ⟨found, List.mem_of_find?_eq_some hfound, rfl⟩
  | ok routes =>
    rw [hroutes] at h
    obtain ⟨route, hroute, hpath⟩ := validateRoutes_error h
    have hknown : route.1 ∈ discovered.map Prod.fst := by
      rw [← registeredRoutes_paths hroutes]
      exact List.mem_map_of_mem hroute
    obtain ⟨found, hfound, hsame⟩ := List.mem_map.mp hknown
    exact ⟨found, hfound, hsame ▸ hpath⟩

theorem validatedRouteTable_excluded {routes : List (String × RouteSpec × RouteListing)}
    (excluded : Option (List String)) (h : registeredRoutes tryFrom discovered = .ok routes) :
    validatedRouteTable tryFrom discovered excluded =
      validatedRouteTable tryFrom (withoutExcluded discovered excluded) none := by
  have hkept := registeredRoutes_filter (fun path => !isExcluded excluded path) h
  rw [validatedRouteTable, validatedRouteTable, h, withoutExcluded, hkept]
  exact validateRoutes_excluded excluded [] routes

theorem validatedRouteTable_error {e : RegistrationError} (excluded : Option (List String))
    (h : registeredRoutes tryFrom discovered = .error e) :
    validatedRouteTable tryFrom discovered excluded = .error e := by
  rw [validatedRouteTable, h]
  rfl

/-- The table with exclusions is that of the remaining routes as soon as the
first route that does not parse remains. -/
theorem validatedRouteTable_agrees {excluded : Option (List String)}
    (h : ∀ found, firstUnparsed tryFrom discovered = some found →
      isExcluded excluded found.1 = false) :
    validatedRouteTable tryFrom discovered excluded =
      validatedRouteTable tryFrom (withoutExcluded discovered excluded) none := by
  cases hroutes : registeredRoutes tryFrom discovered with
  | ok routes => exact validatedRouteTable_excluded excluded hroutes
  | error e =>
    obtain ⟨found, reason, hfound, -⟩ := registeredRoutes_error hroutes
    have hkept : (!isExcluded excluded found.1) = true := by rw [h found hfound, Bool.not_false]
    have hrest :=
      registeredRoutes_error_filter (fun path => !isExcluded excluded path) hroutes hfound hkept
    rw [validatedRouteTable_error excluded hroutes,
      withoutExcluded, validatedRouteTable_error none hrest]

/-- Patterns are parsed before exclusions are applied: excluding is as good as
not having the routes unless the first pattern that does not parse is excluded. -/
theorem excluded_as_absent_iff (tryFrom : String → Except String RouteSpec)
    (discovered : List (String × RouteListing)) (excluded : Option (List String)) :
    ExcludedAsAbsent tryFrom discovered excluded ↔
      ∀ found, firstUnparsed tryFrom discovered = some found →
        isExcluded excluded found.1 = false := by
  constructor
  · intro h found hfound
    obtain ⟨reason, hroutes⟩ := registeredRoutes_unparsed hfound
    exact h.blameless _ found.1 (validatedRouteTable_error excluded hroutes) rfl
  · intro h
    have hagrees := validatedRouteTable_agrees h
    refine ⟨hagrees, ?_, ?_⟩
    · intro e path he hpath
      rw [hagrees] at he
      obtain ⟨found, hfound, hrejected⟩ := validatedRouteTable_rejects he
      rw [hpath] at hrejected
      obtain rfl := Option.some.inj hrejected
      rw [withoutExcluded, List.mem_filter] at hfound
      simpa using hfound.2
    · intro table htable
      rw [hagrees] at htable
      exact validatedRouteTable_sound htable

/-- A parser that takes `/home` and not a static segment `*any`. -/
def RejectsStar (tryFrom : String → Except String RouteSpec) : Prop :=
  (∃ home, tryFrom "/home" = .ok home) ∧ ∃ reason, tryFrom "/files/*any" = .error reason

/-- With every such parser the excluded route fails the table of the other. -/
theorem excluded_route_rejected :
    (∃ tryFrom, RejectsStar tryFrom) ∧ ∀ tryFrom, RejectsStar tryFrom →
      ¬ ExcludedAsAbsent tryFrom [("/home", ⟨.outOfOrder⟩), ("/files/*any", ⟨.outOfOrder⟩)]
        (some ["/files/*any"]) := by
  refine ⟨⟨fun path => if path = "/home" then .ok ⟨[.slash, .exact "home"]⟩ else .error path,
    ?_⟩, ?_⟩
  · exact ⟨⟨_, rfl⟩, _, rfl⟩
  rintro tryFrom ⟨⟨home, hhome⟩, reason, hfiles⟩ h
  have htable : validatedRouteTable tryFrom
    [("/home", ⟨.outOfOrder⟩), ("/files/*any", ⟨.outOfOrder⟩)]
      (some ["/files/*any"]) = .error (.invalidRoute "/files/*any" reason) := by
    apply validatedRouteTable_error
    simp only [registeredRoutes, hhome, hfiles]
    rfl
  have hblameless := h.blameless _ "/files/*any" htable rfl
  exact absurd hblameless (by decide)

end Exclusion

end LeptosWasi.RouteExclusion
