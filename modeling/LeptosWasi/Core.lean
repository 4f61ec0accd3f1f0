import LeptosWasi.Routes
import LeptosWasi.ServerFns
import LeptosWasi.StaticFiles

namespace LeptosWasi.Core

open Http Policy Routes ServerFns StaticFiles HttpUtil

/-- What the crates below the handler compute. -/
structure Crates where
  /-- Parsing a text as a URI gives its optional path and query. -/
  parseUri : Bytes → Option (Option Bytes)
  mimeGuess : Bytes → Bytes
  routeSpec : String → Except String RouteSpec
  bestMatch : RouteTable → Bytes → Option RouteListing
  /-- The cargo feature `islands-router`. -/
  islandsRouter : Bool

def Crates.originForm : Crates where
  parseUri value := if value.head? = some slash then some (some value) else none
  mimeGuess _ := text "application/octet-stream"
  routeSpec _ := .error "no pattern"
  bestMatch _ _ := none
  islandsRouter := false

structure StaticRequest where
  path : Bytes
  ifNoneMatch : Option HeaderValue
  ifModifiedSince : Option HeaderValue
  acceptEncoding : Option HeaderValue
deriving DecidableEq

/-- What of the application runs on behalf of a request. -/
inductive Effect where
  | staticCallback (request : StaticRequest)
  | discovery
  | requestContext
  | serverFn
  | appRender
deriving DecidableEq

inductive RouteClass where
  | static
  | requestPolicy
deriving DecidableEq

/-- How a request is answered once a registration has claimed it. -/
inductive Selection where
  | unclaimed
  | notFound
  | preset (response : Http.Response) (routeClass : RouteClass)
  | serverFn (handler : ServerFnHandler)

def pathUri (path : String) : Uri := ⟨none, none, text path, none⟩

structure HandlerCore where
  req : Request
  selection : Selection
  ssrRouter : RouteTable
  routesRegistered : Bool
  config : HandlerConfig
  tracePath : Option Bytes

/-- A builder method consumes the core and gives it back or fails. -/
abbrev Registered := Except RegistrationError HandlerCore × List Effect

namespace HandlerCore

def new (req : Request) (config : HandlerConfig) : HandlerCore where
  req := req
  selection := .unclaimed
  ssrRouter := ⟨[]⟩
  routesRegistered := false
  config := config
  tracePath := none

def withPreset (core : HandlerCore) (response : Http.Response) (routeClass : RouteClass) :
    HandlerCore :=
  { core with selection := .preset response routeClass }

def shortcut (core : HandlerCore) : Bool :=
  match core.selection with
  | .unclaimed => false
  | _ => true

def withServerFn (core : HandlerCore) (f : ServerFn) : HandlerCore :=
  if core.shortcut then core
  else if core.req.method = f.method ∧ core.req.uri.path = f.path then
    { core with selection := .serverFn (boxedHandler f core.config.maxRequestBodySize) }
  else core

end HandlerCore

def fileName (path : Bytes) : Option Bytes :=
  match (components path).getLast? with
  | some (.normal value) => some value
  | _ => none

/-- `Path::extension`: what follows the last dot that is not the first byte. -/
def extension (path : Bytes) : Option Bytes := do
  let parts := (← fileName path).splitOn dot
  if parts.dropLast = [] ∨ parts.dropLast = [[]] then none else parts.getLast?

def contentTypes : List (String × String) :=
  [("css", "text/css"), ("gif", "image/gif"), ("htm", "text/html"), ("html", "text/html"),
    ("ico", "image/x-icon"), ("jpeg", "image/jpeg"),
    ("jpg", "image/jpeg"), ("js", "text/javascript"),
    ("json", "application/json"), ("map", "text/plain"), ("txt", "text/plain"),
    ("mjs", "application/javascript"), ("png", "image/png"), ("svg", "image/svg+xml"),
    ("ttf", "font/ttf"), ("wasm", "application/wasm"), ("webp", "image/webp"),
    ("woff", "application/font-woff"), ("woff2", "font/woff2")]

def contentTypeForStaticPath (mimeGuess : Bytes → Bytes) (path : Bytes) : HeaderValue :=
  let known := (extension path).bind fun ext =>
    contentTypes.find? fun entry => text entry.1 = toAsciiLowercase ext
  match known with
  | some entry => text entry.2
  | none => (HeaderValue.fromStr (mimeGuess path)).getD (text "application/octet-stream")

def displayUri (uri : Uri) : Bytes :=
  (uri.scheme.elim [] (· ++ text "://")) ++ uri.authority.getD [] ++ uri.path ++
    uri.query.elim [] (text "?" ++ ·)

/-- The path of a static prefix: absolute, and the only part of its URI. -/
def staticPrefix (uri : Except Bytes Uri) : Except RegistrationError Bytes :=
  match uri with
  | .error detail => .error (.invalidStaticPrefix detail)
  | .ok uri =>
    if uri.path.head? ≠ some slash ∨ uri.scheme.isSome ∨
      uri.authority.isSome ∨ uri.query.isSome then
      .error (.invalidStaticPrefix (displayUri uri))
    else .ok uri.path

def endsWithSlash (path : Bytes) : Bool := path.getLast? == some slash

def prefixMatches (prefixPath reqPath : Bytes) : Bool :=
  reqPath == prefixPath || (stripPrefix prefixPath reqPath).any fun rest =>
    rest.head? == some slash || endsWithSlash prefixPath

def rawStaticPath (prefixPath reqPath : Bytes) : Bytes :=
  let stripped := (stripPrefix prefixPath reqPath).getD []
  if endsWithSlash prefixPath then stripped else (stripPrefix [slash] stripped).getD stripped

def staticTracePath (prefixPath decoded : Bytes) : Bytes :=
  if decoded = [] then prefixPath
  else if endsWithSlash prefixPath then prefixPath ++ decoded
  else prefixPath ++ [slash] ++ decoded

def methodNotAllowedResponse : Http.Response :=
  let response := plainResponse .methodNotAllowed (text "method not allowed")
  { response with headers := response.headers.insert .allow (text "GET, HEAD") }

def staticRequest (req : Request) (decoded : Bytes) : StaticRequest where
  path := decoded
  ifNoneMatch := req.headers.get .ifNoneMatch
  ifModifiedSince := req.headers.get .ifModifiedSince
  acceptEncoding := req.headers.get .acceptEncoding

def syncLength : Body → Option Nat
  | .sync bytes => some bytes.length
  | .async _ => none

def insertContentLength (headers : HeaderMap) (length : Option Nat) : HeaderMap :=
  match length with
  | some length => headers.insertIfAbsent .contentLength (HeaderValue.fromNat length)
  | none => headers

theorem getAll_insertContentLength (headers : HeaderMap) (length : Option Nat) (name : HeaderName) :
    (insertContentLength headers length).getAll name =
      if name = .contentLength ∧ headers.getAll .contentLength = [] then
        (length.map HeaderValue.fromNat).toList
      else headers.getAll name := by
  cases length with
  | none =>
    simp only [insertContentLength, Option.map_none, Option.toList_none]
    split_ifs with h
    · rw [h.1, h.2]
    · rfl
  | some n => exact Multimap.getAll_insertIfAbsent _ _ _ _

def staticResponse (method : Method) (mime : HeaderValue) (response : Http.Response) :
    Http.Response where
  status := response.status
  headers := insertContentLength (response.headers.insertIfAbsent .contentType mime)
    (syncLength response.body)
  body := if method = .head then .sync [] else response.body

section Builder

variable (crates : Crates)

def claimStatic (core : HandlerCore) (prefixPath : Bytes)
    (handler : StaticRequest → Option Http.Response) : HandlerCore × List Effect :=
  let core := { core with tracePath := some prefixPath }
  if core.req.method ≠ .get ∧ core.req.method ≠ .head then
    (core.withPreset methodNotAllowedResponse .static, [])
  else
    match normalizeStaticPath (rawStaticPath prefixPath core.req.uri.path) with
    | .error _ => ({ core with selection := .notFound }, [])
    | .ok decoded =>
      let core := { core with tracePath := some (staticTracePath prefixPath decoded) }
      let mime := contentTypeForStaticPath crates.mimeGuess decoded
      let request := staticRequest core.req decoded
      match handler request with
      | none => ({ core with selection := .notFound }, [.staticCallback request])
      | some response =>
        (core.withPreset (staticResponse core.req.method mime response) .static,
          [.staticCallback request])

def staticFilesHandlerWith (core : HandlerCore) (pre : Except Bytes Uri)
    (handler : StaticRequest → Option Http.Response) : Registered :=
  match staticPrefix pre with
  | .error e => (.error e, [])
  | .ok prefixPath =>
    if core.shortcut then (.ok core, [])
    else if prefixMatches prefixPath core.req.uri.path then
      let (core, effects) := claimStatic crates core prefixPath handler
      (.ok core, effects)
    else (.ok core, [])

def staticFilesHandler (core : HandlerCore) (pre : Except Bytes Uri)
    (handler : Bytes → Option Body) :
    Registered :=
  staticFilesHandlerWith crates core pre fun request => (handler request.path).map Http.Response.new

/-- Discovery finds the given routes when it runs. -/
def generateRoutesWithExclusionsAndDiscoveryContext (core : HandlerCore)
    (discovered : List (String × RouteListing))
    (excludedRoutes : Option (List String)) : Registered :=
  if core.routesRegistered then (.error .routesAlreadyGenerated, [])
  else if core.shortcut then (.ok { core with routesRegistered := true }, [])
  else
    match validatedRouteTable crates.routeSpec discovered excludedRoutes with
    | .error e => (.error e, [.discovery])
    | .ok routes =>
      (.ok { core with ssrRouter := routerFromListings routes, routesRegistered := true },
        [.discovery])

def generateRoutesFrom (core : HandlerCore) (table : RouteTable) : Registered :=
  if core.routesRegistered then (.error .routesAlreadyGenerated, [])
  else if core.shortcut then (.ok { core with routesRegistered := true }, [])
  else (.ok { core with ssrRouter := table, routesRegistered := true }, [])

inductive BuilderCall where
  | withServerFn (f : ServerFn)
  | staticFilesHandler (pre : Except Bytes Uri) (handler : Bytes → Option Body)
  | staticFilesHandlerWith (pre : Except Bytes Uri) (handler : StaticRequest → Option Http.Response)
  | generateRoutes (discovered : List (String × RouteListing)) (excluded : Option (List String))
  | generateRoutesFrom (table : RouteTable)

def BuilderCall.apply (core : HandlerCore) : BuilderCall → Registered
  | .withServerFn f => (.ok (core.withServerFn f), [])
  | .staticFilesHandler pre handler => Core.staticFilesHandler crates core pre handler
  | .staticFilesHandlerWith pre handler => Core.staticFilesHandlerWith crates core pre handler
  | .generateRoutes discovered excluded =>
    generateRoutesWithExclusionsAndDiscoveryContext crates core discovered excluded
  | .generateRoutesFrom table => Core.generateRoutesFrom core table

/-- A sequence of builder calls, up to the first that fails. -/
def register : HandlerCore → List BuilderCall → Registered
  | core, [] => (.ok core, [])
  | core, call :: calls =>
    match call.apply crates core with
    | (.error e, effects) => (.error e, effects)
    | (.ok core, effects) =>
      let (result, more) := register core calls
      (result, effects ++ more)

end Builder

end LeptosWasi.Core
