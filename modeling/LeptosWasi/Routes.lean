import LeptosWasi.Policy

namespace LeptosWasi.Routes

open Policy

inductive Segment where
  | slash
  | dot
  | exact (value : String)
  | param (name : String)
  | wildcard
deriving DecidableEq

structure RouteSpec where
  segments : List Segment
deriving DecidableEq

inductive SsrMode where
  | outOfOrder
  | partiallyBlocked
  | inOrder
  | async
  | static
deriving DecidableEq

structure RouteListing where
  mode : SsrMode
deriving DecidableEq

inductive RouteCollisionSegment where
  | slash
  | dot
  | exact (value : String)
  | param
  | wildcard
deriving DecidableEq

def routeCollisionKey (route : RouteSpec) : List RouteCollisionSegment :=
  route.segments.map fun segment =>
    match segment with
    | .slash => .slash
    | .dot => .dot
    | .exact value => .exact value
    | .param _ => .param
    | .wildcard => .wildcard

section Discovery

-- `RouteSpec::try_from` of the path patterns.
variable (tryFrom : String → Except String RouteSpec)

def registeredRoutes :
    List (String × RouteListing) →
    Except RegistrationError (List (String × RouteSpec × RouteListing))
  | [] => .ok []
  | (path, listing) :: rest =>
    match tryFrom path with
    | .error reason => .error (.invalidRoute path reason)
    | .ok spec => ((path, spec, listing) :: ·) <$> registeredRoutes rest

/-- The loop of `validated_route_table`. -/
def validateRoutes (excluded : Option (List String)) :
    List (List RouteCollisionSegment) → List (String × RouteSpec × RouteListing) →
      Except RegistrationError (List (RouteSpec × RouteListing))
  | _, [] => .ok []
  | registeredPaths, (path, spec, listing) :: rest =>
    if excluded.any (path ∈ ·) then validateRoutes excluded registeredPaths rest
    else
      let collisionKey := routeCollisionKey spec
      if collisionKey ∈ registeredPaths then .error (.duplicateRoute path)
      else if listing.mode = .static then .error (.unsupportedStaticSsr path)
      else ((spec, listing) :: ·) <$> validateRoutes excluded (collisionKey :: registeredPaths) rest

def validatedRouteTable (discovered : List (String × RouteListing))
    (excluded : Option (List String)) :
    Except RegistrationError (List (RouteSpec × RouteListing)) := do
  validateRoutes excluded [] (← registeredRoutes tryFrom discovered)

end Discovery

/-- The routes of a router, in the order of their insertion. -/
structure RouteTable where
  router : List (RouteSpec × RouteListing)
deriving DecidableEq

def routerFromListings (routes : List (RouteSpec × RouteListing)) : RouteTable := ⟨routes⟩

def RouteTable.discover (tryFrom : String → Except String RouteSpec)
    (discovered : List (String × RouteListing)) (excluded : Option (List String)) :
    Except RegistrationError RouteTable :=
  routerFromListings <$> validatedRouteTable tryFrom discovered excluded

def validateRouteTable (tryFrom : String → Except String RouteSpec)
    (discovered : List (String × RouteListing))
    (excluded : Option (List String)) : Except RegistrationError Unit :=
  (fun _ => ()) <$> validatedRouteTable tryFrom discovered excluded

end LeptosWasi.Routes
