/-
  PATH NORMALIZATION (`vellaveto-engine/src/path.rs`).

  A raw path is percent-decoded, with backslashes turned into slashes, until nothing changes; then
  `.` and empty components are dropped and `..` removes the component before it.  The iteration
  limit and every malformed input lead to an error, which the callers turn into a denial.
-/
import Vellaveto.Lib.Percent
import Vellaveto.Types.Core

namespace Vellaveto.Path

open Vellaveto.Lib

/-- One round of decoding: percent-decode, then `\` becomes `/`. -/
def decodeOnce (current : List Char) : Except EngineError (List Char) :=
  match percentDecodeUtf8 current with
  | none => .error (.pathNormalization "decoded path contains invalid UTF-8")
  | some decoded =>
    if decoded.contains (Char.ofNat 0) then
      .error (.pathNormalization "decoded path contains null byte")
    else .ok (decoded.map fun c => if c = '\\' then '/' else c)

/-- The decode loop.  `left` is how many more changes are allowed: the source gives up once
    `iterations` has reached `max_iterations`, also when that is zero. -/
def decodeLoop (maxIterations : Nat) : Nat → List Char → Except EngineError (List Char)
  | left, current =>
    match decodeOnce current with
    | .error e => .error e
    | .ok decoded =>
      if decoded = current then .ok current
      else
        match left with
        | 0 | 1 => .error (.pathNormalization
            s!"decode iteration limit ({maxIterations}) exceeded")
        | left + 2 => decodeLoop maxIterations (left + 1) decoded

/-- What one component does to the stack of kept components (top first). -/
def pushComponent (stack : List (List Char)) (component : List Char) : List (List Char) :=
  if component = [] ∨ component = ['.'] then stack
  else if component = ['.', '.'] then stack.tail
  else component :: stack

/-- `normalize_decoded_path`. -/
def normalizeDecodedPath (decoded : List Char) : Except EngineError (List Char) :=
  if decoded.contains (Char.ofNat 0) then
    .error (.pathNormalization "decoded path contains null byte")
  else
    let stack := ((decoded.splitOn '/').foldl pushComponent []).reverse
    if stack.isEmpty && decoded.head? ≠ some '/' then
      .error (.pathNormalization "normalization produced empty path")
    else .ok ('/' :: ['/'].intercalate stack)

/-- `normalize_path_bounded`. -/
def normalizePathBounded (raw : String) (maxIterations : Nat) : Except EngineError String :=
  if hasNull raw then .error (.pathNormalization "input contains null byte")
  else do
    let decoded ← decodeLoop maxIterations maxIterations raw.toList
    let normalized ← normalizeDecodedPath decoded
    .ok (String.ofList normalized)

/-- `DEFAULT_MAX_PATH_DECODE_ITERATIONS`. -/
def defaultMaxPathDecodeIterations : Nat := 20

/-- `normalize_path`. -/
def normalizePath (raw : String) : Except EngineError String :=
  normalizePathBounded raw defaultMaxPathDecodeIterations

end Vellaveto.Path
