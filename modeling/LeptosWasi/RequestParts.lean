import LeptosWasi.Library.MultimapPairs
import LeptosWasi.Preview2

namespace LeptosWasi.RequestParts

open Http Request

inductive WasiMethod where
  | get | head | post | put | delete | connect | options | trace | patch
  | other (name : String)
deriving DecidableEq

inductive WasiScheme where
  | http | https
  | other (name : Bytes)
deriving DecidableEq

structure RequestHead where
  method : WasiMethod
  scheme : Option WasiScheme
  authority : Option Bytes
  pathWithQuery : Option Bytes
  headers : List (String × Bytes)
deriving DecidableEq

/-- The parsers of the parts of a URI, and the number of names at which a header
map is full. -/
structure HttpCrate where
  parseScheme : Bytes → Option Bytes
  parseAuthority : Bytes → Option Bytes
  parsePathAndQuery : Bytes → Option (Bytes × Option Bytes)
  maxNames : Nat

def displayPathAndQuery (path : Bytes) (query : Option Bytes) : Bytes :=
  path ++ query.elim [] (63 :: ·)

/-- Schemes and authorities keep their bytes, and a path and query parses to
itself from what it displays as. -/
structure HttpCrate.Documented (crate : HttpCrate) : Prop where
  scheme : ∀ value scheme, crate.parseScheme value = some scheme → scheme = value
  authority : ∀ value authority, crate.parseAuthority value = some authority → authority = value
  path : ∀ value path query, crate.parsePathAndQuery value = some (path, query) → path ≠ []
  display : ∀ value path query, crate.parsePathAndQuery value = some (path, query) →
    crate.parsePathAndQuery (displayPathAndQuery path query) = some (path, query)

def isTokenChar (c : Char) : Bool :=
  decide (48 ≤ c.toNat ∧ c.toNat ≤ 57 ∨ 65 ≤ c.toNat ∧ c.toNat ≤ 90 ∨
    97 ≤ c.toNat ∧ c.toNat ≤ 122) ||
    [33, 35, 36, 37, 38, 39, 42, 43, 45, 46, 94, 95, 96, 124, 126].contains c.toNat

def isToken (s : String) : Bool := !s.toList.isEmpty && s.toList.all isTokenChar

def methodFromBytes (name : String) : Option Method :=
  match name with
  | "GET" => some .get
  | "HEAD" => some .head
  | "POST" => some .post
  | "PUT" => some .put
  | "DELETE" => some .delete
  | "CONNECT" => some .connect
  | "OPTIONS" => some .options
  | "TRACE" => some .trace
  | "PATCH" => some .patch
  | name => if isToken name then some (.extension name) else none

def methodWasiToHttp : WasiMethod → Option Method
  | .get => some .get
  | .head => some .head
  | .post => some .post
  | .put => some .put
  | .delete => some .delete
  | .connect => some .connect
  | .options => some .options
  | .trace => some .trace
  | .patch => some .patch
  | .other name => methodFromBytes name

def headerName (name : String) : Option HeaderName :=
  if isToken name ∧ name.toList.length ≤ 65535 then
    some (.ofList (name.toList.map Char.toLower))
  else none

def headerEntry (entry : String × Bytes) : Option (HeaderName × HeaderValue) := do
  some (← headerName entry.1, ← HeaderValue.fromStr entry.2)

namespace HttpCrate

variable (crate : HttpCrate)

def schemeWasiToHttp : WasiScheme → Option Bytes
  | .http => some (text "http")
  | .https => some (text "https")
  | .other name => crate.parseScheme name

/-- One call of the request builder's `header`. The map makes room for a name
before it looks whether it has the name. -/
def addHeader (headers : HeaderMap) (entry : String × Bytes) : Option HeaderMap := do
  let (name, value) ← headerEntry entry
  if headers.entries.length < crate.maxNames then some (headers.append name value) else none

def uriFromParts (scheme authority : Option Bytes)
    (pathAndQuery : Option (Bytes × Option Bytes)) : Option Uri :=
  if scheme.isSome then
    if authority.isSome ∧ pathAndQuery.isSome then
      some ⟨scheme, authority, (pathAndQuery.map Prod.fst).getD [], pathAndQuery.bind Prod.snd⟩
    else none
  else if authority.isSome ∧ pathAndQuery.isSome then none
  else some ⟨scheme, authority, (pathAndQuery.map Prod.fst).getD [], pathAndQuery.bind Prod.snd⟩

def transpose {α β : Type} (parse : α → Option β) : Option α → Option (Option β)
  | none => some none
  | some value => (parse value).map some

def uri (head : RequestHead) : Option Uri := do
  let scheme ← transpose crate.schemeWasiToHttp head.scheme
  let authority ← transpose crate.parseAuthority head.authority
  let pathAndQuery ← transpose crate.parsePathAndQuery head.pathWithQuery
  uriFromParts scheme authority pathAndQuery

/-- The parts of a request. Every error is one of the `http` crate. -/
def requestParts (head : RequestHead) : Except RequestError Http.Request :=
  match methodWasiToHttp head.method, crate.uri head, head.headers.foldlM crate.addHeader ∅ with
  | some method, some uri, some headers => .ok ⟨method, uri, headers, []⟩
  | _, _, _ => .error .http

end HttpCrate

/-- The method of the host, where the body is collected. An extension is never
one of the methods without a body, whatever its name. -/
def hostMethod : WasiMethod → Method
  | .get => .get
  | .head => .head
  | .post => .post
  | .put => .put
  | .delete => .delete
  | .connect => .connect
  | .options => .options
  | .trace => .trace
  | .patch => .patch
  | .other name => .extension name

def incoming (crate : HttpCrate) (head : RequestHead) (body : IncomingBody) :
    Preview2.IncomingRequest :=
  ⟨crate.requestParts head, hostMethod head.method, body⟩

end LeptosWasi.RequestParts
