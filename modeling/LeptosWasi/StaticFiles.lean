import LeptosWasi.Http

namespace LeptosWasi.StaticFiles

open Http

inductive StaticPathError where
  | malformedPercentEncoding
  | invalidUtf8
  | encodedSeparator
  | backslashSeparator
  | nulByte
  | controlCharacter
  | absolutePath
  | platformPrefix
  | currentDirectory
  | parentDirectory
  | residualPercentEncoding
deriving DecidableEq

def maxResidualDecodePasses : Nat := 8

def decodeHexDigit (byte : UInt8) : Option UInt8 :=
  if 48 ≤ byte ∧ byte ≤ 57 then some (byte - 48)
  else if 97 ≤ byte ∧ byte ≤ 102 then some (byte - 97 + 10)
  else if 65 ≤ byte ∧ byte ≤ 70 then some (byte - 65 + 10)
  else none

def percentDecodeOnce : Bytes → Except StaticPathError Bytes
  | [] => .ok []
  | byte :: rest =>
    if byte ≠ percent then (byte :: ·) <$> percentDecodeOnce rest
    else
      match rest with
      | high :: low :: rest =>
        match decodeHexDigit high, decodeHexDigit low with
        | some high, some low =>
          let byte := (high <<< 4) ||| low
          if byte = slash ∨ byte = backslash then .error .encodedSeparator
          else (byte :: ·) <$> percentDecodeOnce rest
        | _, _ => .error .malformedPercentEncoding
      | _ => .error .malformedPercentEncoding

def validateDecodedBytes : Bytes → Except StaticPathError Unit
  | [] => .ok ()
  | byte :: rest =>
    if byte = 0 then .error .nulByte
    else if byte = backslash then .error .backslashSeparator
    else if byte ≤ 31 ∨ byte = 127 then .error .controlCharacter
    else validateDecodedBytes rest

def decodeResidualLoop : Bytes → Except StaticPathError (Bytes × Bool)
  | [] => .ok ([], false)
  | byte :: rest =>
    let keep := fun (r : Bytes × Bool) => (byte :: r.1, r.2)
    if byte = percent then
      match rest with
      | high :: low :: tail =>
        match decodeHexDigit high, decodeHexDigit low with
        | some high, some low =>
          let byte := (high <<< 4) ||| low
          if byte ≤ 31 ∨ byte = 127 ∨ byte = slash ∨ byte = backslash then
            .error .residualPercentEncoding
          else (fun r => (byte :: r.1, true)) <$> decodeResidualLoop tail
        | _, _ => keep <$> decodeResidualLoop (high :: low :: tail)
      | rest => keep <$> decodeResidualLoop rest
    else keep <$> decodeResidualLoop rest

def decodeResidualOnce (value : Bytes) : Except StaticPathError (Option Bytes) := do
  let (decoded, changed) ← decodeResidualLoop value
  if !changed then return none
  if Utf8.Valid decoded then return some decoded
  throw .residualPercentEncoding

def isAsciiAlphabetic (b : UInt8) : Bool := decide (65 ≤ b ∧ b ≤ 90 ∨ 97 ≤ b ∧ b ≤ 122)

def hasPlatformPrefix : Bytes → Bool
  | a :: b :: _ => isAsciiAlphabetic a && b == colon
  | _ => false

def validatePlatformPrefix (decoded : Bytes) : Except StaticPathError Unit :=
  if hasPlatformPrefix ((decoded.splitOn slash).headD []) then .error .platformPrefix else .ok ()

inductive Component where
  | normal (value : Bytes)
  | curDir
  | parentDir
  | rootDir
  | winPrefix (value : Bytes)
deriving DecidableEq

/-- `Path::components` on Unix: a root for a leading separator, a current
directory only at the start, and neither empty nor later `.` components. -/
def components (path : Bytes) : List Component :=
  let root := if path.head? = some slash then [Component.rootDir] else []
  let body := (path.splitOn slash).filterMap fun part =>
    if part = [] ∨ part = [dot] then none
    else if part = [dot, dot] then some .parentDir
    else some (.normal part)
  let current :=
    if root = [] ∧ (path.splitOn slash).headD [] = [dot] then [Component.curDir] else []
  root ++ current ++ body

def joinComponents : Bytes → List Component → Except StaticPathError Bytes
  | normalized, [] => .ok normalized
  | normalized, component :: rest =>
    match component with
    | .normal value =>
      let normalized := if normalized ≠ [] then normalized ++ [slash] else normalized
      if Utf8.Valid value then joinComponents (normalized ++ value) rest else .error .invalidUtf8
    | .curDir => .error .currentDirectory
    | .parentDir => .error .parentDirectory
    | .rootDir => .error .absolutePath
    | .winPrefix _ => .error .platformPrefix

def checkDots : List Bytes → Except StaticPathError Unit
  | [] => .ok ()
  | component :: rest =>
    if component = [dot] then .error .currentDirectory
    else if component = [dot, dot] then .error .parentDirectory
    else checkDots rest

def validateComponents (decoded : Bytes) : Except StaticPathError Bytes := do
  if decoded.head? = some slash then throw .absolutePath
  checkDots (decoded.splitOn slash)
  joinComponents [] (components decoded)

/-- The decoding passes that are left, from a probe. -/
def residualPasses : Nat → Bytes → Except StaticPathError Unit
  | 0, _ => .error .residualPercentEncoding
  | passes + 1, probe => do
    match ← decodeResidualOnce probe with
    | none => return ()
    | some next =>
      (validatePlatformPrefix next).mapError fun _ => .residualPercentEncoding
      let _ ← (validateComponents next).mapError fun _ => .residualPercentEncoding
      residualPasses passes next

def validateResidualEncoding (decoded : Bytes) : Except StaticPathError Unit :=
  if percent ∉ decoded then .ok () else residualPasses maxResidualDecodePasses decoded

/-- Decode and normalize the path that remains after a static prefix. -/
def normalizeStaticPath (rawPath : Bytes) : Except StaticPathError Bytes := do
  let decoded ← percentDecodeOnce rawPath
  validateDecodedBytes decoded
  if ¬ Utf8.Valid decoded then throw .invalidUtf8
  validateResidualEncoding decoded
  validatePlatformPrefix decoded
  validateComponents decoded

end LeptosWasi.StaticFiles
