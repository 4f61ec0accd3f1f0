import LeptosWasi.Response

namespace LeptosWasi.Policy

open Http

def defaultMaxRequestBodySize : Nat := 16 * 1024 * 1024

structure HandlerConfig where
  maxRequestBodySize : Nat
  requestBodyTimeoutNs : Option Nat
deriving DecidableEq

namespace HandlerConfig

def default : HandlerConfig := ⟨defaultMaxRequestBodySize, none⟩

end HandlerConfig

inductive RegistrationError where
  | invalidStaticPrefix (detail : Bytes)
  | routesAlreadyGenerated
  | duplicateRoute (path : String)
  | unsupportedStaticSsr (path : String)
  | invalidRoute (path reason : String)
deriving DecidableEq

inductive RequestPolicyError where
  | invalidContentLength
  | conflictingContentLength
  | bodyTooLarge (limit : Nat)
  | bodyReadTimeout (nanoseconds : Nat)
deriving DecidableEq

def RequestPolicyError.status : RequestPolicyError → StatusCode
  | .bodyTooLarge _ => .payloadTooLarge
  | .bodyReadTimeout _ => .requestTimeout
  | .invalidContentLength | .conflictingContentLength => .badRequest

def isBlank (b : UInt8) : Bool := b == 32 || b == 9

def trim (s : Bytes) : Bytes := ((s.dropWhile isBlank).reverse.dropWhile isBlank).reverse

def isAsciiDigit (b : UInt8) : Bool := decide (48 ≤ b ∧ b ≤ 57)

def digitsValue (s : Bytes) : Nat := s.foldl (fun n b => 10 * n + (b.toNat - 48)) 0

/-- `str::parse::<u64>` on a nonempty text of digits. -/
def parseU64 (s : Bytes) : Option Nat :=
  if digitsValue s < 2 ^ 64 then some (digitsValue s) else none

/-- `usize::try_from(u64)` where `usize` has the given number of bits. -/
def usizeTryFrom (bits n : Nat) : Option Nat := if n < 2 ^ bits then some n else none

def usizeBits : Nat := 32

def parseLengthItems : Option Nat → List Bytes → Except RequestPolicyError (Option Nat)
  | parsed, [] => .ok parsed
  | parsed, item :: rest =>
    let value := trim item
    if value = [] ∨ !value.all isAsciiDigit then .error .invalidContentLength
    else
      match parseU64 value with
      | none => .error .invalidContentLength
      | some value =>
        if parsed.any (· ≠ value) then .error .conflictingContentLength
        else parseLengthItems (some value) rest

def parseLengthLines : Option Nat → List HeaderValue → Except RequestPolicyError (Option Nat)
  | parsed, [] => .ok parsed
  | parsed, line :: rest =>
    match HeaderValue.toStr line with
    | none => .error .invalidContentLength
    | some value => do parseLengthLines (← parseLengthItems parsed (value.splitOn comma)) rest

def validateContentLengthFor (bits : Nat) (headers : HeaderMap) (limit : Nat) :
    Except RequestPolicyError (Option Nat) := do
  let parsed ← parseLengthLines none (headers.getAll .contentLength)
  if parsed.any (limit < ·) then throw (.bodyTooLarge limit)
  return parsed.map fun length => (usizeTryFrom bits length).getD limit

/-- The declared body length, once it agrees with itself and the limit. -/
def validateContentLength (headers : HeaderMap) (limit : Nat) :
    Except RequestPolicyError (Option Nat) :=
  validateContentLengthFor usizeBits headers limit

def plainResponse (status : StatusCode) (message : Bytes) : Http.Response :=
  { status := status
    headers := (∅ : HeaderMap).insert .contentType (text "text/plain; charset=utf-8")
    body := .sync message }

def RequestPolicyError.message : RequestPolicyError → Bytes
  | .bodyTooLarge _ => text "request body too large"
  | .bodyReadTimeout _ => text "request body timed out"
  | .invalidContentLength | .conflictingContentLength => text "invalid Content-Length"

def policyResponse (error : RequestPolicyError) : Http.Response :=
  plainResponse error.status error.message

def setDefaultNosniff (response : Http.Response) : Http.Response :=
  { response with headers := response.headers.insertIfAbsent .xContentTypeOptions (text "nosniff") }

theorem parseLengthItems_error {parsed : Option Nat} {items : List Bytes} {e : RequestPolicyError}
    (h : parseLengthItems parsed items = .error e) : e.status = .badRequest := by
  induction items generalizing parsed with
  | nil => cases h
  | cons item items ih =>
    rw [parseLengthItems] at h
    split_ifs at h
    · cases h
      rfl
    · split at h
      · cases h
        rfl
      · split_ifs at h
        · cases h
          rfl
        · exact ih h

theorem parseLengthLines_error {parsed : Option Nat}
    {lines : List HeaderValue} {e : RequestPolicyError}
    (h : parseLengthLines parsed lines = .error e) : e.status = .badRequest := by
  induction lines generalizing parsed with
  | nil => cases h
  | cons line lines ih =>
    rw [parseLengthLines] at h
    split at h
    · cases h
      rfl
    · rename_i value _
      cases hi : parseLengthItems parsed (value.splitOn comma) with
      | error e' =>
        rw [hi] at h
        cases h
        exact parseLengthItems_error hi
      | ok parsed' =>
        rw [hi] at h
        exact ih h

theorem validateContentLength_error {headers : HeaderMap} {limit : Nat} {e : RequestPolicyError}
    (h : validateContentLength headers limit = .error e) :
    e.status = .badRequest ∨ e.status = .payloadTooLarge := by
  unfold validateContentLength validateContentLengthFor at h
  cases hp : parseLengthLines none (headers.getAll .contentLength) with
  | error e' =>
    rw [hp] at h
    cases h
    exact Or.inl (parseLengthLines_error hp)
  | ok parsed =>
    simp only [hp, bind, Except.bind] at h
    split_ifs at h
    · cases h
      exact Or.inr rfl
    · cases h

end LeptosWasi.Policy
