import Mathlib.Algebra.Field.Rat
import LeptosWasi.Policy

namespace LeptosWasi.HttpUtil

open Http Policy

/-- A value of `str::parse::<f32>`, before rounding to the format. -/
inductive F32 where
  | nan
  | infinity (negative : Bool)
  | decimal (negative : Bool) (digits : Nat) (exponent : Int)
deriving DecidableEq

/-- `value > 0.0`. A decimal of at most `2 ^ (-150)` rounds to zero. -/
def F32.isPositive : F32 → Bool
  | .nan => false
  | .infinity negative => !negative
  | .decimal negative digits exponent =>
    !negative && decide ((1 : Rat) / 2 ^ 150 < (digits : Rat) * (10 : Rat) ^ exponent)

def toAsciiLowercase (s : Bytes) : Bytes := s.map fun b => if 65 ≤ b ∧ b ≤ 90 then b + 32 else b

def takeSign : Bytes → Bool × Bytes
  | 45 :: rest => (true, rest)
  | 43 :: rest => (false, rest)
  | s => (false, s)

def parseExponent : Bytes → Option Int
  | [] => some 0
  | e :: rest =>
    let (negative, digits) := takeSign rest
    if (e = 101 ∨ e = 69) ∧ digits ≠ [] ∧ digits.all isAsciiDigit then
      some (if negative then -(digitsValue digits : Int) else digitsValue digits)
    else none

def parseNumber (negative : Bool) (s : Bytes) : Option F32 :=
  let whole := s.takeWhile isAsciiDigit
  let rest := s.dropWhile isAsciiDigit
  let (fraction, rest) := match rest with
    | 46 :: rest => (rest.takeWhile isAsciiDigit, rest.dropWhile isAsciiDigit)
    | rest => ([], rest)
  if whole = [] ∧ fraction = [] then none
  else (parseExponent rest).map fun exponent =>
    .decimal negative (digitsValue (whole ++ fraction)) (exponent - fraction.length)

def parseF32 (s : Bytes) : Option F32 :=
  let (negative, rest) := takeSign s
  if toAsciiLowercase rest = text "nan" then some .nan
  else if toAsciiLowercase rest = text "inf" ∨ toAsciiLowercase rest = text "infinity" then
    some (.infinity negative)
  else parseNumber negative rest

def stripPrefix (pre s : Bytes) : Option Bytes :=
  if pre.isPrefixOf s then some (s.drop pre.length) else none

def acceptsMediaRange (mediaRange : Bytes) : Bool :=
  let fields := mediaRange.splitOn semicolon
  let mediaType := trim (fields.headD [])
  let qualities := fields.tail.filterMap fun field => stripPrefix (text "q=") (trim field)
  let quality := qualities.findSome? parseF32
  (quality.all F32.isPositive) &&
    (mediaType == text "text/html" || mediaType == text "application/xhtml+xml")

def acceptsHtml (headers : HeaderMap) : Bool :=
  ((headers.getAll .accept).filterMap HeaderValue.toStr).any fun value =>
    (value.splitOn comma).any acceptsMediaRange

def containsSlice (needle s : Bytes) : Bool := s.tails.any needle.isPrefixOf

section Uri

-- Parsing a text as a URI gives its optional path and query.
variable (parseUri : Bytes → Option (Option Bytes))

def sanitizeReferrer (referrer : HeaderValue) : Option HeaderValue := do
  let value ← HeaderValue.toStr referrer
  let pathAndQuery ← parseUri value
  let path ← pathAndQuery
  if [slash, backslash].isPrefixOf path ∨ backslash ∈ path ∨ containsSlice (text "%5c") path ∨
      containsSlice (text "%5C") path then none
  else if [slash].isPrefixOf path ∧ ¬ [slash, slash].isPrefixOf path then HeaderValue.fromStr path
  else none

end Uri

def mirrorReferrerSpelling (headers : HeaderMap) : HeaderMap :=
  match headers.get .referer, headers.get .referrer with
  | none, some alternate => headers.insert .referer alternate
  | _, _ => headers

end LeptosWasi.HttpUtil
