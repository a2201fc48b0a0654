/-
  THE TARGETS OF A REST REQUEST (`auto_extract_targets` and its helpers in
  `vellaveto-server/src/routes/main.rs`).

  The server has a walk of its own over the parameters of an action.  It has the limits and the shape of the
  walk of the MCP proxy, and differs in what it takes from a string: a domain from every scheme and not only
  from `http(s)`, a domain and no path from a remote `file://` URI, decoded paths, and a backslash of an
  authority is a slash.
-/
import Vellaveto.Mcp.Extractor

namespace Vellaveto.Server

open Vellaveto.Lib
open Vellaveto.Extractor (Targets stripQueryAndFragment withinLimits hostOf)

/-- `looks_like_relative_path` of the server, which decodes first. -/
def looksLikeRelativePath (s : List Char) : Bool :=
  if s.contains ' ' then false
  else
    match percentDecodeUtf8 s with
    | none => false
    | some decoded =>
      let d := Domain.backslashesToSlashes decoded
      "../".toList.isPrefixOf d || "./".toList.isPrefixOf d || "~/".toList.isPrefixOf d ||
        containsInfix "/../".toList d || d == "..".toList || d == "~".toList

/-- Add the path of a text, decoded, behind `front`; nothing if it is empty or cannot be decoded. -/
def addDecodedPath (front path : List Char) (t : Targets) : Targets :=
  let clean := stripQueryAndFragment path
  if clean.isEmpty then t
  else
    match percentDecodeUtf8 clean with
    | some decoded => { t with paths := t.paths ++ [String.ofList (front ++ decoded)] }
    | none => t

/-- The text before the first `://`. -/
def findScheme (cs : List Char) : Option (List Char) :=
  (Domain.afterScheme cs).map fun rest => cs.take (cs.length - rest.length - 3)

/-- The schemes whose authority is looked at. -/
def isDomainScheme (scheme : List Char) : Bool :=
  !scheme.isEmpty && decide ((String.ofList scheme).utf8ByteSize ≤ 10) && scheme.all Char.isAlpha &&
    scheme != "data".toList

section Scan

variable (ext : Externals)

/-- The branch for `file://` URIs, with `none` for the panics of its slices. -/
def scanFile (s lowerAfterScheme : List Char) (t : Targets) : Option Targets := do
  let afterScheme ← byteSuffix s 7
  if lowerAfterScheme = "localhost".toList ∨ "localhost/".toList.isPrefixOf lowerAfterScheme then
    let path ← byteSuffix afterScheme 9
    some (addDecodedPath [] path t)
  else if afterScheme.head? = some '/' then some (addDecodedPath [] afterScheme t)
  else if afterScheme.contains '/' then
    let hostPart := beforeFirst '/' afterScheme
    some (if hostPart.isEmpty then t else t.pushDomain (ext.toLowercase (String.ofList hostPart)))
  else some t

/-- The branch for other URIs. -/
def scanUrl (s scheme : List Char) (t : Targets) : Targets :=
  if !isDomainScheme scheme then t
  else
    match (byteSuffix s ((String.ofList scheme).utf8ByteSize + 3)).bind fun authority =>
        percentDecodeUtf8 (beforeFirst '/' (Domain.backslashesToSlashes authority)) with
    | some decoded =>
      let host := hostOf decoded
      if host.isEmpty then t else t.pushDomain (ext.toLowercase (String.ofList host))
    | none => t

/-- The branch of `scan_params_for_targets_inner` for a string. -/
def scanString (s : String) (t : Targets) : Option Targets :=
  let cs := s.toList
  let lower := (ext.toLowercase s).toList
  match stripPrefix "file://".toList lower with
  | some lowerAfterScheme => scanFile ext cs lowerAfterScheme t
  | none =>
    match findScheme lower with
    | some scheme => some (scanUrl ext cs scheme t)
    | none =>
      if cs.head? = some '/' ∧ ¬cs.contains ' ' then some (addDecodedPath [] cs t)
      else if looksLikeRelativePath cs then some (addDecodedPath ['/'] cs t)
      else some t

mutual

/-- `scan_params_for_targets_inner`. -/
def scanParamsForTargetsInner (depth : Nat) : Json → Targets → Option Targets
  | .string s, t => if withinLimits depth t then scanString ext s t else some t
  | .object members, t => if withinLimits depth t then scanMembers (depth + 1) members t else some t
  | .array items, t => if withinLimits depth t then scanItems (depth + 1) items t else some t
  | .null, t => some t
  | .bool _, t => some t
  | .number _, t => some t

/-- The loop over the items of an array. -/
def scanItems (depth : Nat) : List Json → Targets → Option Targets
  | [], t => some t
  | x :: xs, t => do
    let t ← scanParamsForTargetsInner depth x t
    scanItems depth xs t

/-- The loop over the members of an object. -/
def scanMembers (depth : Nat) : List (String × Json) → Targets → Option Targets
  | [], t => some t
  | (_, x) :: ms, t => do
    let t ← scanParamsForTargetsInner depth x t
    scanMembers depth ms t

end

/-- `scan_params_for_targets`. -/
def scanParamsForTargets (value : Json) (t : Targets) : Option Targets :=
  scanParamsForTargetsInner ext 0 value t

/-- `auto_extract_targets`, which adds to the targets that the request lists. -/
def autoExtractTargets (action : Action) : Option Action :=
  (scanParamsForTargetsInner ext 0 action.parameters ⟨action.targetPaths, action.targetDomains⟩).map
    fun t => { action with targetPaths := t.paths, targetDomains := t.domains }

end Scan

end Vellaveto.Server
