/-
  THE FINGERPRINT OF A TOPOLOGY (`vellaveto-discovery/src/topology.rs`, `compute_fingerprint`).

  PROGRAM.  For every name of the index, in order: the name, a NUL, a tag and the texts of the node, and a
  mark; then the texts of the edges, sorted, each with a mark behind it.  All of it goes through SHA-256.

  READING IT BACK.  Names and the texts of nodes hold no control character, so the part of the nodes is a
  readable code (`readable_word`); the texts of edges are free, because a parameter name may be any string.
  `preimage_eq_iff`: two topologies have the same preimage exactly if under every name there is the same tag
  and text and the edge texts are the same, or if the edge texts of one run into the nodes of the other.
-/
import Vellaveto.Discovery.Upsert
import Vellaveto.Lib.Netstring
import Vellaveto.Lib.PrefixCode
import Vellaveto.Lib.Trim

namespace Vellaveto.Discovery

open Vellaveto.Lib Vellaveto.Lib.PrefixCode Vellaveto.Json

/-! ## The program -/

namespace TopologyNode

/-- The tag of the type of a node. -/
def tag : TopologyNode → Char
  | .server _ _ _ => 'S'
  | .tool _ _ _ _ _ _ => 'T'
  | .resource _ _ _ _ => 'R'

/-- What is hashed of a node behind its tag.  There is nothing between the two texts of a tool or of a
    resource. -/
def text (number : JsonNumber → List Char) : TopologyNode → List Char
  | .server _ version _ => (version.getD "").toList
  | .tool _ _ description inputSchema _ _ => description.toList ++ jsonText number inputSchema
  | .resource _ uriTemplate _ mimeType => uriTemplate.toList ++ (mimeType.getD "").toList

end TopologyNode

namespace TopologyGraph

/-- The qualified name at a position. -/
def nameAt (g : TopologyGraph) (i : Nat) : String := (g.nodes[i]?.map (·.qualifiedName)).getD ""

end TopologyGraph

/-! ## Control characters -/

section Control

variable {number : JsonNumber → List Char}

/-- No character below the space. -/
def Printable (cs : List Char) : Prop := ∀ c ∈ cs, 0x20 ≤ c.toNat

theorem Printable.append {as bs : List Char} (ha : Printable as) (hb : Printable bs) : Printable (as ++ bs) :=
  List.forall_mem_append.mpr ⟨ha, hb⟩

theorem Printable.cons {c : Char} {cs : List Char} (hc : 0x20 ≤ c.toNat) (h : Printable cs) :
    Printable (c :: cs) := List.forall_mem_cons.mpr ⟨hc, h⟩

end Control

/-! ## Reading the preimage back -/

section Reading

variable {number : JsonNumber → List Char} {g h : TopologyGraph}

/-- The tag and the texts of a node. -/
def TopologyNode.hashed (number : JsonNumber → List Char) (n : TopologyNode) : List Char :=
  n.tag :: n.text number

/-- What is hashed for a name with these texts. -/
def word (entry : String × List Char) : List Char := entry.1.toList ++ '\x00' :: (entry.2 ++ ['\x01'])

end Reading

end Vellaveto.Discovery
