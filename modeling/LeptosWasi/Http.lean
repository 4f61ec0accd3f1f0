import Mathlib.Algebra.Group.Nat.Defs
import LeptosWasi.Library.Multimap
import LeptosWasi.Library.Utf8

namespace LeptosWasi.Http

abbrev Bytes := List UInt8

def text (s : String) : Bytes := Utf8.encode s

def slash : UInt8 := 47
def backslash : UInt8 := 92
def percent : UInt8 := 37
def dot : UInt8 := 46
def colon : UInt8 := 58
def comma : UInt8 := 44
def semicolon : UInt8 := 59

inductive Method where
  | get | head | post | put | delete | options | connect | patch | trace
  | extension (token : String)
deriving DecidableEq

structure StatusCode where
  code : Nat
  valid : 100 ≤ code ∧ code < 1000
deriving DecidableEq

namespace StatusCode

def isSuccess (s : StatusCode) : Bool := decide (200 ≤ s.code ∧ s.code < 300)

def isRedirection (s : StatusCode) : Bool := decide (300 ≤ s.code ∧ s.code < 400)

def ok : StatusCode := ⟨200, by decide⟩
def found : StatusCode := ⟨302, by decide⟩
def badRequest : StatusCode := ⟨400, by decide⟩
def notFound : StatusCode := ⟨404, by decide⟩
def methodNotAllowed : StatusCode := ⟨405, by decide⟩
def requestTimeout : StatusCode := ⟨408, by decide⟩
def payloadTooLarge : StatusCode := ⟨413, by decide⟩
def serviceUnavailable : StatusCode := ⟨503, by decide⟩

end StatusCode

/-- A header name in the lower case that the `http` crate stores. -/
abbrev HeaderName := String
abbrev HeaderValue := Bytes
abbrev HeaderMap := Multimap HeaderName HeaderValue

namespace HeaderName

def accept : HeaderName := "accept"
def acceptEncoding : HeaderName := "accept-encoding"
def acceptLanguage : HeaderName := "accept-language"
def allow : HeaderName := "allow"
def cacheControl : HeaderName := "cache-control"
def contentLanguage : HeaderName := "content-language"
def contentLength : HeaderName := "content-length"
def contentSecurityPolicy : HeaderName := "content-security-policy"
def contentType : HeaderName := "content-type"
def cookie : HeaderName := "cookie"
def ifModifiedSince : HeaderName := "if-modified-since"
def ifNoneMatch : HeaderName := "if-none-match"
def link : HeaderName := "link"
def location : HeaderName := "location"
def proxyAuthenticate : HeaderName := "proxy-authenticate"
def referer : HeaderName := "referer"
def referrer : HeaderName := "referrer"
def setCookie : HeaderName := "set-cookie"
def vary : HeaderName := "vary"
def via : HeaderName := "via"
def warning : HeaderName := "warning"
def wwwAuthenticate : HeaderName := "www-authenticate"
def xContentTypeOptions : HeaderName := "x-content-type-options"
def xRequestId : HeaderName := "x-request-id"

end HeaderName

namespace HeaderValue

/-- `HeaderValue::to_str`: visible ASCII, spaces and tabs only. -/
def toStr (v : HeaderValue) : Option Bytes :=
  if v.all (fun b => decide (32 ≤ b ∧ b < 127 ∨ b = 9)) then some v else none

/-- `HeaderValue::from_str`: no control byte other than a tab. -/
def fromStr (s : Bytes) : Option HeaderValue :=
  if s.all (fun b => decide (32 ≤ b ∧ b ≠ 127 ∨ b = 9)) then some s else none

theorem toStr_eq_self {v : HeaderValue} {str : Bytes} (h : toStr v = some str) : str = v := by
  rw [toStr] at h
  split_ifs at h
  exact (Option.some.inj h).symm

theorem fromStr_eq_self {s : Bytes} {v : HeaderValue} (h : fromStr s = some v) : v = s := by
  rw [fromStr] at h
  split_ifs at h
  exact (Option.some.inj h).symm

def fromNat (n : Nat) : HeaderValue := (Nat.toDigits 10 n).map fun c => UInt8.ofNat c.toNat

end HeaderValue

structure Uri where
  scheme : Option Bytes
  authority : Option Bytes
  path : Bytes
  query : Option Bytes
deriving DecidableEq

structure Request where
  method : Method
  uri : Uri
  headers : HeaderMap
  body : Bytes

structure BodyError where
  message : String
deriving DecidableEq

/-- A buffer, or the items that a stream will produce. -/
inductive Body where
  | sync (bytes : Bytes)
  | async (items : List (Except BodyError Bytes))

structure Response where
  status : StatusCode
  headers : HeaderMap
  body : Body

def Response.new (body : Body) : Response := ⟨.ok, ∅, body⟩

end LeptosWasi.Http
