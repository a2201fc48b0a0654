/-
  TOOL MATCHERS: pre-compiled patterns for the `tool:function` part of a policy id
  (`vellaveto-engine/src/matcher.rs`).

  A segment is `*`, a literal, `prefix*` or `*suffix`; any other use of `*` matches everything,
  since over-matching is the safe side for a deny policy.  Pattern texts are normalized when the
  policy is compiled, names when an action is evaluated.
-/
import Vellaveto.Engine.Externals

namespace Vellaveto

open Vellaveto.Lib

/-- `PatternMatcher`. -/
inductive PatternMatcher where
  | any
  | exact (s : String)
  | startsWith (p : String)
  | endsWith (s : String)
deriving DecidableEq, Repr

namespace PatternMatcher

/-- `PatternMatcher::compile`. -/
def compile (ext : Externals) (pattern : String) : PatternMatcher :=
  let cs := pattern.toList
  if cs = ['*'] then .any
  else
    match stripPrefix ['*'] cs with
    | some suffix =>
      if suffix.contains '*' then .any else .endsWith (ext.normalizeFull (String.ofList suffix))
    | none =>
      match stripSuffix ['*'] cs with
      | some start =>
        if start.contains '*' then .any
        else .startsWith (ext.normalizeFull (String.ofList start))
      | none => if cs.contains '*' then .any else .exact (ext.normalizeFull pattern)

/-- `PatternMatcher::matches`. -/
def matchesValue : PatternMatcher → String → Bool
  | .any, _ => true
  | .exact s, value => s == value
  | .startsWith p, value => p.toList.isPrefixOf value.toList
  | .endsWith s, value => s.toList.isSuffixOf value.toList

end PatternMatcher

/-- `CompiledToolMatcher`. -/
inductive CompiledToolMatcher where
  | universal
  | toolOnly (tool : PatternMatcher)
  | toolAndFunction (tool function : PatternMatcher)
deriving DecidableEq, Repr

namespace CompiledToolMatcher

/-- `CompiledToolMatcher::compile`: an id is `*`, a tool pattern, or `tool:function` with anything
    after a second colon ignored. -/
def compile (ext : Externals) (id : String) : CompiledToolMatcher :=
  if id = "*" then .universal
  else if id.toList.contains ':' then
    let toolPat := beforeFirst ':' id.toList
    let funcRemainder := id.toList.drop (toolPat.length + 1)
    .toolAndFunction (.compile ext (String.ofList toolPat))
      (.compile ext (String.ofList (beforeFirst ':' funcRemainder)))
  else .toolOnly (.compile ext id)

/-- `CompiledToolMatcher::matches_normalized`. -/
def matchesNormalized : CompiledToolMatcher → String → String → Bool
  | .universal, _, _ => true
  | .toolOnly m, tool, _ => m.matchesValue tool
  | .toolAndFunction t f, tool, function => t.matchesValue tool && f.matchesValue function

end CompiledToolMatcher

end Vellaveto
