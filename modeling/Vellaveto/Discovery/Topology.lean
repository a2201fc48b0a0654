/-
  THE TOPOLOGY GRAPH (`vellaveto-discovery/src/topology.rs`).

  PROGRAM.  Servers, tools and resources are the nodes of a directed graph, found again by their qualified
  name.  `fromStatic` builds the graph of a list of declarations, `toStatic` reads declarations back from a
  graph; the inference engine and the reader of snapshots add edges to a graph that `fromStatic` built.

  INVARIANT.  `WellFormed`: the index holds exactly the qualified names of the nodes, every tool and resource
  has its server, and the `Owns` edges are those from a server to what it owns.  Adding a server
  (`WellFormed.addServerNode`), adding what a server owns (`WellFormed.addOwned`) and adding any other edge
  (`WellFormed.addEdge`) keep it.

  SPEC.  `fromStatic_ok`: the graph of accepted declarations is well-formed, has the declared nodes and no
  others, only `Owns` edges, and no dangerous character in its texts.
-/
import Vellaveto.JsonText
import Vellaveto.Lib.Table
import Vellaveto.Types.Chars

namespace Vellaveto.Discovery

open Vellaveto.Lib Vellaveto.Json

/-! ## The program -/

/-- `ServerCapabilities`. -/
structure ServerCapabilities where
  tools : Bool := false
  resources : Bool := false
  prompts : Bool := false
  logging : Bool := false
deriving DecidableEq, Repr

/-- `TopologyNode`. -/
inductive TopologyNode where
  | server (name : String) (version : Option String) (capabilities : ServerCapabilities)
  | tool (server name description : String) (inputSchema : Json) (outputHints inferredDeps : List String)
  | resource (server uriTemplate name : String) (mimeType : Option String)
deriving DecidableEq, Repr

namespace TopologyNode

/-- The server that the node is or belongs to. -/
def serverName : TopologyNode → String
  | .server name _ _ => name
  | .tool owner _ _ _ _ _ => owner
  | .resource owner _ _ _ => owner

/-- `TopologyNode::qualified_name`. -/
def qualifiedName : TopologyNode → String
  | .server name _ _ => name
  | .tool owner name _ _ _ _ => owner ++ "::" ++ name
  | .resource owner _ name _ => owner ++ "::" ++ name

/-- `TopologyNode::is_server`. -/
def isServer : TopologyNode → Bool
  | .server _ _ _ => true
  | _ => false

/-- `TopologyNode::is_tool`. -/
def isTool : TopologyNode → Bool
  | .tool _ _ _ _ _ _ => true
  | _ => false

/-- `TopologyNode::is_resource`. -/
def isResource : TopologyNode → Bool
  | .resource _ _ _ _ => true
  | _ => false

end TopologyNode

/-- `TopologyEdge`; the confidence is kept as the bits of the `f32`. -/
inductive TopologyEdge where
  | owns
  | dataFlow (fromField toParam : String) (confidence : UInt32) (reason : String)
  | consumes (param : String)
deriving DecidableEq, Repr

/-- `StaticToolDecl`. -/
structure StaticToolDecl where
  name : String
  description : String
  inputSchema : Json
deriving DecidableEq, Repr

/-- `StaticResourceDecl`. -/
structure StaticResourceDecl where
  uriTemplate : String
  name : String
  mimeType : Option String
deriving DecidableEq, Repr

/-- `StaticServerDecl`. -/
structure StaticServerDecl where
  name : String
  tools : List StaticToolDecl
  resources : List StaticResourceDecl
deriving DecidableEq, Repr

/-- An edge of the graph, between two positions of the node list. -/
structure GraphEdge where
  source : Nat
  target : Nat
  weight : TopologyEdge
deriving DecidableEq, Repr

/-- `TopologyGraph`, without the time of the crawl and the stored fingerprint. -/
structure TopologyGraph where
  nodes : List TopologyNode
  edges : List GraphEdge
  index : AList fun _ : String => Nat
  serverIndex : AList fun _ : String => Nat

/-- `DiscoveryError`, as far as building and updating return it. -/
inductive DiscoveryError where
  | validationError (text : String)
  | graphError (text : String)
deriving DecidableEq, Repr

def maxServers : Nat := 1000
def maxToolsPerServer : Nat := 10000
def maxNodes : Nat := 100000
def maxServerNameLen : Nat := 256
def maxToolNameLen : Nat := 256
def maxToolDescriptionLen : Nat := 4096
def maxUriTemplateLen : Nat := 4096
def maxInputSchemaSize : Nat := 65536
def maxMimeTypeLen : Nat := 256

namespace TopologyGraph

/-- `TopologyGraph::empty`. -/
def empty : TopologyGraph := ⟨[], [], ∅, ∅⟩

/-- The node of a server, with its entries in both indices. -/
def addServerNode (g : TopologyGraph) (name : String) : TopologyGraph :=
  { g with
    nodes := g.nodes ++ [.server name none {}]
    index := g.index.insert name g.nodes.length
    serverIndex := g.serverIndex.insert name g.nodes.length }

/-- The node of a tool or resource, with its entry in the index and the edge from its server. -/
def addOwned (g : TopologyGraph) (serverNode : Nat) (node : TopologyNode) : TopologyGraph :=
  { g with
    nodes := g.nodes ++ [node]
    index := g.index.insert node.qualifiedName g.nodes.length
    edges := g.edges ++ [⟨serverNode, g.nodes.length, .owns⟩] }

/-- `add_edge`. -/
def addEdge (g : TopologyGraph) (e : GraphEdge) : TopologyGraph := { g with edges := g.edges ++ [e] }

/-- The node under a qualified name. -/
def node? (g : TopologyGraph) (qualified : String) : Option TopologyNode :=
  (g.index.lookup qualified).bind fun i => g.nodes[i]?

end TopologyGraph

/-- The node of a declared tool. -/
def StaticToolDecl.node (server : String) (t : StaticToolDecl) : TopologyNode :=
  .tool server t.name t.description t.inputSchema [] []

/-- The node of a declared resource. -/
def StaticResourceDecl.node (server : String) (r : StaticResourceDecl) : TopologyNode :=
  .resource server r.uriTemplate r.name r.mimeType

section FromStatic

variable (number : JsonNumber → List Char)

/-- The first check that a server declaration fails. -/
def serverError (g : TopologyGraph) (d : StaticServerDecl) : Option String :=
  if d.name = "" then some "Server name must not be empty"
  else if maxServerNameLen < d.name.utf8ByteSize then
    some s!"Server name '{d.name}' length {d.name.utf8ByteSize} exceeds max {maxServerNameLen}"
  else if hasDangerousChars d.name then
    some s!"Server name '{d.name}' contains control or format characters"
  else if containsInfix "::".toList d.name.toList then some s!"Server name '{d.name}' must not contain '::'"
  else if (g.serverIndex.lookup d.name).isSome then some s!"Duplicate server name: '{d.name}'"
  else if maxToolsPerServer < d.tools.length then
    some s!"Server '{d.name}' tool count {d.tools.length} exceeds max {maxToolsPerServer}"
  else none

/-- The first check that a tool declaration fails.  Writing a `serde_json::Value` as text does not fail. -/
def toolError (server : String) (g : TopologyGraph) (t : StaticToolDecl) : Option String :=
  let schemaSize := String.utf8Len (jsonText number t.inputSchema)
  let qualified := (t.node server).qualifiedName
  if t.name = "" then some s!"Tool name must not be empty on server '{server}'"
  else if maxToolNameLen < t.name.utf8ByteSize then
    some s!"Tool name '{t.name}' length {t.name.utf8ByteSize} exceeds max {maxToolNameLen}"
  else if hasDangerousChars t.name then
    some s!"Tool name '{t.name}' on server '{server}' contains control or format characters"
  else if maxToolDescriptionLen < t.description.utf8ByteSize then
    some (s!"Tool '{t.name}' description length {t.description.utf8ByteSize} " ++
      s!"exceeds max {maxToolDescriptionLen}")
  else if hasDangerousChars t.description then
    some s!"Tool '{t.name}' description on server '{server}' contains control or format characters"
  else if maxInputSchemaSize < schemaSize then
    some s!"Tool '{t.name}' input_schema size {schemaSize} exceeds max {maxInputSchemaSize}"
  else if (g.index.lookup qualified).isSome then some s!"Duplicate qualified tool name: '{qualified}'"
  else none

/-- The first check that the MIME type of a resource fails. -/
def mimeTypeError (r : StaticResourceDecl) : Option String :=
  match r.mimeType with
  | none => none
  | some mt =>
    if maxMimeTypeLen < mt.utf8ByteSize then
      some s!"Resource '{r.name}' mime_type exceeds max length {maxMimeTypeLen}"
    else if hasDangerousChars mt then some s!"Resource '{r.name}' mime_type contains dangerous characters"
    else none

/-- The first check that a resource declaration fails. -/
def resourceError (server : String) (g : TopologyGraph) (r : StaticResourceDecl) : Option String :=
  let qualified := (r.node server).qualifiedName
  if r.name = "" then some s!"Resource name must not be empty on server '{server}'"
  else if maxToolNameLen < r.name.utf8ByteSize then
    some s!"Resource name '{r.name}' length {r.name.utf8ByteSize} exceeds max {maxToolNameLen}"
  else if hasDangerousChars r.name then
    some s!"Resource name '{r.name}' on server '{server}' contains control or format characters"
  else if maxUriTemplateLen < r.uriTemplate.utf8ByteSize then
    some (s!"Resource '{r.name}' URI template length {r.uriTemplate.utf8ByteSize} " ++
      s!"exceeds max {maxUriTemplateLen}")
  else if hasDangerousChars r.uriTemplate then
    some s!"Resource '{r.name}' URI template on server '{server}' contains control or format characters"
  else
    match mimeTypeError r with
    | some text => some text
    | none =>
      if (g.index.lookup qualified).isSome then some s!"Duplicate qualified name: '{qualified}'" else none

/-- The loop body for one tool of a server. -/
def addTool (server : String) (serverNode : Nat) (g : TopologyGraph) (t : StaticToolDecl) :
    Except DiscoveryError TopologyGraph :=
  match toolError number server g t with
  | some text => .error (.validationError text)
  | none => .ok (g.addOwned serverNode (t.node server))

/-- The loop body for one resource of a server. -/
def addResource (server : String) (serverNode : Nat) (g : TopologyGraph) (r : StaticResourceDecl) :
    Except DiscoveryError TopologyGraph :=
  match resourceError server g r with
  | some text => .error (.validationError text)
  | none => .ok (g.addOwned serverNode (r.node server))

/-- The loop body for one server. -/
def addServer (g : TopologyGraph) (d : StaticServerDecl) : Except DiscoveryError TopologyGraph :=
  match serverError g d with
  | some text => .error (.validationError text)
  | none => do
    let serverNode := g.nodes.length
    let g ← d.tools.foldlM (addTool number d.name serverNode) (g.addServerNode d.name)
    d.resources.foldlM (addResource d.name serverNode) g

/-- `TopologyGraph::from_static`. -/
def fromStatic (servers : List StaticServerDecl) : Except DiscoveryError TopologyGraph :=
  if maxServers < servers.length then
    .error (.validationError s!"Server count {servers.length} exceeds max {maxServers}")
  else do
    let g ← servers.foldlM (addServer number) .empty
    if maxNodes < g.nodes.length then
      .error (.validationError s!"Total node count {g.nodes.length} exceeds max {maxNodes}")
    else .ok g

end FromStatic

/-! ## The invariant -/

/-- The indices, the owners and the `Owns` edges fit the nodes. -/
structure TopologyGraph.WellFormed (g : TopologyGraph) : Prop where
  index : ∀ q i, g.index.lookup q = some i ↔ ∃ n, g.nodes[i]? = some n ∧ n.qualifiedName = q
  serverIndex : ∀ s i, g.serverIndex.lookup s = some i ↔
    ∃ n, g.nodes[i]? = some n ∧ n.isServer ∧ n.serverName = s
  owner : ∀ n ∈ g.nodes, ∃ m ∈ g.nodes, m.isServer ∧ m.serverName = n.serverName
  owns : ∀ i j, ⟨i, j, .owns⟩ ∈ g.edges ↔ ∃ n m, g.nodes[i]? = some n ∧ g.nodes[j]? = some m ∧
    n.isServer ∧ ¬ m.isServer ∧ m.serverName = n.serverName
  range : ∀ e ∈ g.edges, e.source < g.nodes.length ∧ e.target < g.nodes.length

section WellFormed

variable {g : TopologyGraph} {s : String} {n : TopologyNode} {i : Nat}

theorem getElem?_concat_eq_some {α : Type*} {l : List α} {a x : α} {i : Nat} :
    (l ++ [a])[i]? = some x ↔ l[i]? = some x ∨ i = l.length ∧ a = x := by
  rcases Nat.lt_trichotomy i l.length with hi | hi | hi
  · rw [List.getElem?_append_left hi]
    constructor
    · exact Or.inl
    · rintro (h | ⟨h, -⟩)
      · exact h
      · omega
  · subst hi
    simp
  · have hlen : (l ++ [a]).length ≤ i := by
      rw [List.length_append, List.length_singleton]
      omega
    rw [List.getElem?_eq_none hlen, List.getElem?_eq_none hi.le]
    constructor
    · intro h
      cases h
    · rintro (h | ⟨h, -⟩)
      · cases h
      · omega

/-- The index of a node list that gets one node more: `HasKey` says which nodes are found under a key. -/
theorem lookup_insert_iff {HasKey : TopologyNode → String → Prop} {nodes : List TopologyNode}
    {index : AList fun _ : String => Nat} {node : TopologyNode} {key : String}
    (hindex : ∀ q i, index.lookup q = some i ↔ ∃ n, nodes[i]? = some n ∧ HasKey n q)
    (hnode : ∀ q, HasKey node q ↔ q = key) (hfresh : ∀ n ∈ nodes, ¬ HasKey n key) (q : String) (i : Nat) :
    (index.insert key nodes.length).lookup q = some i ↔ ∃ n, (nodes ++ [node])[i]? = some n ∧ HasKey n q := by
  simp only [getElem?_concat_eq_some, lookup_insert_eq]
  by_cases hq : q = key
  · subst hq
    rw [if_pos rfl]
    constructor
    · intro hi
      exact ⟨node, Or.inr ⟨(Option.some.inj hi).symm, rfl⟩, (hnode q).mpr rfl⟩
    · rintro ⟨n, hn | ⟨hi, -⟩, hkey⟩
      · exact absurd hkey (hfresh n (List.mem_of_getElem? hn))
      · rw [hi]
  · rw [if_neg hq, hindex]
    constructor
    · rintro ⟨n, hn, hkey⟩
      exact ⟨n, Or.inl hn, hkey⟩
    · rintro ⟨n, hn | ⟨-, rfl⟩, hkey⟩
      · exact ⟨n, hn, hkey⟩
      · exact absurd ((hnode q).mp hkey) hq

/-- The qualified name of a tool or resource holds the separator. -/
theorem separator_infix_qualifiedName (h : n.isServer = false) : "::".toList <:+: n.qualifiedName.toList := by
  cases n with
  | server name version capabilities => cases h
  | tool owner name description schema hints deps =>
    refine ⟨owner.toList, name.toList, ?_⟩
    simp [TopologyNode.qualifiedName]
  | resource owner uri name mime =>
    refine ⟨owner.toList, name.toList, ?_⟩
    simp [TopologyNode.qualifiedName]

theorem qualifiedName_of_isServer (h : n.isServer) : n.qualifiedName = n.serverName := by
  cases n with
  | server name version capabilities => rfl
  | tool owner name description schema hints deps => cases h
  | resource owner uri name mime => cases h

namespace TopologyGraph.WellFormed

theorem empty : TopologyGraph.WellFormed .empty where
  index := by simp [TopologyGraph.empty]
  serverIndex := by simp [TopologyGraph.empty]
  owner := by simp [TopologyGraph.empty]
  owns := by simp [TopologyGraph.empty]
  range := by simp [TopologyGraph.empty]

/-- **A new server** keeps the invariant. -/
theorem addServerNode (h : g.WellFormed) (hnew : g.serverIndex.lookup s = none)
    (hsep : ¬ "::".toList <:+: s.toList) : (g.addServerNode s).WellFormed := by
  have hfresh : ∀ m ∈ g.nodes, ¬ (m.isServer ∧ m.serverName = s) := by
    intro m hm hserver
    obtain ⟨i, hi⟩ := List.mem_iff_getElem?.mp hm
    rw [(h.serverIndex s i).mpr ⟨m, hi, hserver⟩] at hnew
    cases hnew
  -- a tool's or resource's name holds the separator, the new name does not
  have hname : ∀ m ∈ g.nodes, ¬ m.qualifiedName = s := by
    intro m hm hq
    cases hserver : m.isServer with
    | true => exact hfresh m hm ⟨hserver, qualifiedName_of_isServer hserver ▸ hq⟩
    | false => exact hsep (hq ▸ separator_infix_qualifiedName hserver)
  have hunowned : ∀ m ∈ g.nodes, m.serverName ≠ s := by
    intro m hm hs
    obtain ⟨o, ho, hserver, hos⟩ := h.owner m hm
    exact hfresh o ho ⟨hserver, hos.trans hs⟩
  refine ⟨?_, ?_, fun m hm => ?_, fun i j => ?_, fun e he => ?_⟩
  · exact lookup_insert_iff h.index (fun q => eq_comm) hname
  · exact lookup_insert_iff h.serverIndex (fun q => ⟨fun hq => hq.2.symm, fun hq => ⟨rfl, hq.symm⟩⟩) hfresh
  · rcases List.mem_append.mp hm with hm | hm
    · obtain ⟨o, ho, hrest⟩ := h.owner m hm
      exact ⟨o, List.mem_append_left _ ho, hrest⟩
    · rw [List.mem_singleton] at hm
      subst hm
      exact ⟨_, List.mem_append_right _ (List.mem_singleton.mpr rfl), rfl, rfl⟩
  · show _ ∈ g.edges ↔ _
    rw [h.owns]
    simp only [TopologyGraph.addServerNode, getElem?_concat_eq_some]
    constructor
    · rintro ⟨n, m, hn, hm, hrest⟩
      exact ⟨n, m, Or.inl hn, Or.inl hm, hrest⟩
    · rintro ⟨n, m, hn | ⟨-, rfl⟩, hm | ⟨-, rfl⟩, hserver, hm', hs⟩
      · exact ⟨n, m, hn, hm, hserver, hm', hs⟩
      · exact absurd rfl hm'
      · exact absurd hs (hunowned m (List.mem_of_getElem? hm))
      · exact absurd rfl hm'
  · have hrange := h.range e he
    simp only [TopologyGraph.addServerNode, List.length_append, List.length_singleton]
    omega

/-- A server has one node. -/
theorem server_unique (h : g.WellFormed) {i j : Nat} {m o : TopologyNode} (hm : g.nodes[i]? = some m)
    (ho : g.nodes[j]? = some o) (hmserver : m.isServer) (hoserver : o.isServer)
    (hname : m.serverName = o.serverName) : i = j := by
  have hi := (h.serverIndex o.serverName i).mpr ⟨m, hm, hmserver, hname⟩
  have hj := (h.serverIndex o.serverName j).mpr ⟨o, ho, hoserver, rfl⟩
  rw [hi] at hj
  exact Option.some.inj hj

/-- **A new tool or resource**, with the edge from its server, keeps the invariant. -/
theorem addOwned (h : g.WellFormed) {o : TopologyNode} (ho : g.nodes[i]? = some o) (hserver : o.isServer)
    (hn : n.isServer = false) (hname : n.serverName = o.serverName)
    (hnew : g.index.lookup n.qualifiedName = none) : (g.addOwned i n).WellFormed := by
  have hfresh : ∀ m ∈ g.nodes, ¬ m.qualifiedName = n.qualifiedName := by
    intro m hm hq
    obtain ⟨j, hj⟩ := List.mem_iff_getElem?.mp hm
    rw [(h.index _ j).mpr ⟨m, hj, hq⟩] at hnew
    cases hnew
  refine ⟨?_, fun q j => ?_, fun m hm => ?_, fun j k => ?_, fun e he => ?_⟩
  · exact lookup_insert_iff h.index (fun q => eq_comm) hfresh
  · show g.serverIndex.lookup q = some j ↔ _
    rw [h.serverIndex]
    simp only [TopologyGraph.addOwned, getElem?_concat_eq_some]
    constructor
    · rintro ⟨m, hm, hrest⟩
      exact ⟨m, Or.inl hm, hrest⟩
    · rintro ⟨m, hm | ⟨-, rfl⟩, hmserver, hq⟩
      · exact ⟨m, hm, hmserver, hq⟩
      · rw [hn] at hmserver
        cases hmserver
  · rcases List.mem_append.mp hm with hm | hm
    · obtain ⟨o, ho, hrest⟩ := h.owner m hm
      exact ⟨o, List.mem_append_left _ ho, hrest⟩
    · rw [List.mem_singleton] at hm
      subst hm
      exact ⟨o, List.mem_append_left _ (List.mem_of_getElem? ho), hserver, hname.symm⟩
  · simp only [TopologyGraph.addOwned, List.mem_append, List.mem_singleton, GraphEdge.mk.injEq, and_true,
      getElem?_concat_eq_some, h.owns]
    constructor
    · rintro (⟨n', m, hn', hm, hrest⟩ | ⟨rfl, rfl⟩)
      · exact ⟨n', m, Or.inl hn', Or.inl hm, hrest⟩
      · exact ⟨o, n, Or.inl ho, Or.inr ⟨rfl, rfl⟩, hserver, by simp [hn], hname⟩
    · rintro ⟨n', m, hn' | ⟨-, rfl⟩, hm | ⟨hk, rfl⟩, hn'server, hm', hs⟩
      · exact Or.inl ⟨n', m, hn', hm, hn'server, hm', hs⟩
      · exact Or.inr ⟨h.server_unique hn' ho hn'server hserver (hs.symm.trans hname), hk⟩
      · rw [hn] at hn'server
        cases hn'server
      · rw [hn] at hn'server
        cases hn'server
  · simp only [TopologyGraph.addOwned, List.mem_append, List.mem_singleton, List.length_append,
      List.length_singleton] at he ⊢
    rcases he with he | rfl
    · have hrange := h.range e he
      omega
    · have hi : i < g.nodes.length := (List.getElem?_eq_some_iff.mp ho).1
      exact ⟨Nat.lt_succ_of_lt hi, Nat.lt_succ_self _⟩

/-- **Another edge** between nodes keeps the invariant. -/
theorem addEdge (h : g.WellFormed) {e : GraphEdge} (hweight : e.weight ≠ .owns)
    (hsource : e.source < g.nodes.length) (htarget : e.target < g.nodes.length) : (g.addEdge e).WellFormed := by
  refine ⟨h.index, h.serverIndex, h.owner, fun i j => ?_, fun e' he' => ?_⟩
  · have hne : (⟨i, j, .owns⟩ : GraphEdge) ≠ e := by
      rintro rfl
      exact hweight rfl
    simp only [TopologyGraph.addEdge, List.mem_append, List.mem_singleton, hne, or_false]
    exact h.owns i j
  · rcases List.mem_append.mp he' with he' | he'
    · exact h.range e' he'
    · rw [List.mem_singleton] at he'
      subst he'
      exact ⟨hsource, htarget⟩

/-- Every node is found under its name. -/
theorem node?_eq_some_iff (h : g.WellFormed) {q : String} :
    g.node? q = some n ↔ n ∈ g.nodes ∧ n.qualifiedName = q := by
  unfold TopologyGraph.node?
  rw [Option.bind_eq_some_iff]
  constructor
  · rintro ⟨i, hi, hn⟩
    obtain ⟨m, hm, hq⟩ := (h.index q i).mp hi
    rw [hm, Option.some.injEq] at hn
    subst hn
    exact ⟨List.mem_of_getElem? hm, hq⟩
  · rintro ⟨hn, hq⟩
    obtain ⟨i, hi⟩ := List.mem_iff_getElem?.mp hn
    exact ⟨i, (h.index q i).mpr ⟨n, hi, hq⟩, hi⟩

end TopologyGraph.WellFormed

end WellFormed

/-! ## What is built -/

namespace TopologyNode

/-- No metadata beyond what a declaration has. -/
def Plain : TopologyNode → Prop
  | .server _ version capabilities => version = none ∧ capabilities = {}
  | .tool _ _ _ _ outputHints inferredDeps => outputHints = [] ∧ inferredDeps = []
  | .resource _ _ _ _ => True

/-- No dangerous character in a name, description, URI template or MIME type. -/
def Clean : TopologyNode → Prop
  | .server name _ _ => hasDangerousChars name = false
  | .tool owner name description _ _ _ =>
    hasDangerousChars owner = false ∧ hasDangerousChars name = false ∧ hasDangerousChars description = false
  | .resource owner uriTemplate name mimeType =>
    hasDangerousChars owner = false ∧ hasDangerousChars name = false ∧ hasDangerousChars uriTemplate = false ∧
      ∀ mt ∈ mimeType, hasDangerousChars mt = false

end TopologyNode

/-- The nodes of a declared server. -/
def StaticServerDecl.nodes (d : StaticServerDecl) : List TopologyNode :=
  .server d.name none {} :: (d.tools.map (·.node d.name) ++ d.resources.map (·.node d.name))

/-- What holds of a graph at every step of building it. -/
structure Sound (g : TopologyGraph) : Prop where
  wellFormed : g.WellFormed
  owns : ∀ e ∈ g.edges, e.weight = .owns
  clean : ∀ n ∈ g.nodes, n.Clean

/-- The same, while the tools and resources of one server are added. -/
structure SoundAt (server : String) (serverNode : Nat) (g : TopologyGraph) : Prop extends Sound g where
  named : hasDangerousChars server = false
  atServer : ∃ o, g.nodes[serverNode]? = some o ∧ o.isServer ∧ o.serverName = server

section Build

variable {number : JsonNumber → List Char} {server : String} {serverNode : Nat} {g g' : TopologyGraph}

/-- A chain of checks finds nothing. -/
theorem check_eq_none_iff {c : Prop} [Decidable c] {text : String} {rest : Option String} :
    (if c then some text else rest) = none ↔ ¬ c ∧ rest = none := by
  by_cases h : c
  · simp [h]
  · simp [h]

theorem toolError_eq_none {t : StaticToolDecl} (h : toolError number server g t = none) :
    hasDangerousChars t.name = false ∧ hasDangerousChars t.description = false ∧
      g.index.lookup (t.node server).qualifiedName = none := by
  simp only [toolError, check_eq_none_iff, Bool.not_eq_true, Option.isSome_eq_false_iff,
    Option.isNone_iff_eq_none] at h
  obtain ⟨-, -, hname, -, hdescription, -, hnew, -⟩ := h
  exact ⟨hname, hdescription, hnew⟩

theorem mimeTypeError_eq_none {r : StaticResourceDecl} (h : mimeTypeError r = none) :
    ∀ mt ∈ r.mimeType, hasDangerousChars mt = false := by
  intro mt hmt
  rw [Option.mem_def] at hmt
  simp only [mimeTypeError, hmt, check_eq_none_iff, Bool.not_eq_true] at h
  exact h.2.1

theorem resourceError_eq_none {r : StaticResourceDecl} (h : resourceError server g r = none) :
    hasDangerousChars r.name = false ∧ hasDangerousChars r.uriTemplate = false ∧
      (∀ mt ∈ r.mimeType, hasDangerousChars mt = false) ∧
      g.index.lookup (r.node server).qualifiedName = none := by
  simp only [resourceError, check_eq_none_iff, Bool.not_eq_true] at h
  obtain ⟨-, -, hname, -, huri, h⟩ := h
  split at h
  · cases h
  · rename_i hmime
    rw [check_eq_none_iff, Bool.not_eq_true, Option.isSome_eq_false_iff, Option.isNone_iff_eq_none] at h
    exact ⟨hname, huri, mimeTypeError_eq_none hmime, h.1⟩

theorem serverError_eq_none {d : StaticServerDecl} (h : serverError g d = none) :
    hasDangerousChars d.name = false ∧ ¬ "::".toList <:+: d.name.toList ∧
      g.serverIndex.lookup d.name = none := by
  simp only [serverError, check_eq_none_iff, Bool.not_eq_true, Option.isSome_eq_false_iff,
    Option.isNone_iff_eq_none] at h
  obtain ⟨-, -, hname, hsep, hnew, -⟩ := h
  refine ⟨hname, fun hinfix => ?_, hnew⟩
  rw [containsInfix_iff.mpr hinfix] at hsep
  cases hsep

/-- A step that adds what a server owns. -/
theorem SoundAt.addOwned (h : SoundAt server serverNode g) {n : TopologyNode} (hn : n.isServer = false)
    (hname : n.serverName = server) (hclean : n.Clean) (hnew : g.index.lookup n.qualifiedName = none) :
    SoundAt server serverNode (g.addOwned serverNode n) := by
  obtain ⟨o, ho, hserver, hoserver⟩ := h.atServer
  refine ⟨⟨h.wellFormed.addOwned ho hserver hn (hname.trans hoserver.symm) hnew, fun e he => ?_, fun m hm => ?_⟩,
    h.named, o, getElem?_concat_eq_some.mpr (Or.inl ho), hserver, hoserver⟩
  · rcases List.mem_append.mp he with he | he
    · exact h.owns e he
    · rw [List.mem_singleton.mp he]
  · rcases List.mem_append.mp hm with hm | hm
    · exact h.clean m hm
    · rw [List.mem_singleton.mp hm]
      exact hclean

theorem addTool_ok {t : StaticToolDecl} (h : SoundAt server serverNode g)
    (hok : addTool number server serverNode g t = .ok g') :
    SoundAt server serverNode g' ∧ g'.nodes = g.nodes ++ [t.node server] := by
  unfold addTool at hok
  split at hok
  · cases hok
  · rename_i hnone
    cases hok
    obtain ⟨hname, hdescription, hnew⟩ := toolError_eq_none hnone
    exact ⟨h.addOwned rfl rfl ⟨h.named, hname, hdescription⟩ hnew, rfl⟩

theorem addResource_ok {r : StaticResourceDecl} (h : SoundAt server serverNode g)
    (hok : addResource server serverNode g r = .ok g') :
    SoundAt server serverNode g' ∧ g'.nodes = g.nodes ++ [r.node server] := by
  unfold addResource at hok
  split at hok
  · cases hok
  · rename_i hnone
    cases hok
    obtain ⟨hname, huri, hmime, hnew⟩ := resourceError_eq_none hnone
    exact ⟨h.addOwned rfl rfl ⟨h.named, hname, huri, hmime⟩ hnew, rfl⟩

/-- A loop whose body keeps `I` and adds the nodes of its item. -/
theorem foldlM_ok {β : Type*} {step : TopologyGraph → β → Except DiscoveryError TopologyGraph}
    {I : TopologyGraph → Prop} {nodesOf : β → List TopologyNode}
    (hstep : ∀ g b g', I g → step g b = .ok g' → I g' ∧ g'.nodes = g.nodes ++ nodesOf b)
    {bs : List β} (h : I g) (hok : bs.foldlM step g = .ok g') :
    I g' ∧ g'.nodes = g.nodes ++ bs.flatMap nodesOf := by
  induction bs generalizing g with
  | nil =>
    cases hok
    exact ⟨h, (List.append_nil _).symm⟩
  | cons b bs ih =>
    rw [List.foldlM_cons] at hok
    cases hb : step g b with
    | error e =>
      rw [hb] at hok
      cases hok
    | ok g₁ =>
      rw [hb] at hok
      obtain ⟨h₁, hnodes₁⟩ := hstep g b g₁ h hb
      obtain ⟨h', hnodes⟩ := ih h₁ hok
      refine ⟨h', ?_⟩
      rw [hnodes, hnodes₁, List.flatMap_cons, List.append_assoc]

theorem addServer_ok {d : StaticServerDecl} (h : Sound g) (hok : addServer number g d = .ok g') :
    Sound g' ∧ g'.nodes = g.nodes ++ d.nodes := by
  unfold addServer at hok
  split at hok
  · cases hok
  · rename_i hnone
    obtain ⟨hname, hsep, hnew⟩ := serverError_eq_none hnone
    have hstart : SoundAt d.name g.nodes.length (g.addServerNode d.name) := by
      refine ⟨⟨h.wellFormed.addServerNode hnew hsep, h.owns, fun n hn => ?_⟩, hname, _,
        getElem?_concat_eq_some.mpr (Or.inr ⟨rfl, rfl⟩), rfl, rfl⟩
      rcases List.mem_append.mp hn with hn | hn
      · exact h.clean n hn
      · rw [List.mem_singleton.mp hn]
        exact hname
    cases htools : d.tools.foldlM (addTool number d.name g.nodes.length) (g.addServerNode d.name) with
    | error e =>
      simp only [htools] at hok
      cases hok
    | ok g₁ =>
      simp only [htools] at hok
      obtain ⟨h₁, hnodes₁⟩ := foldlM_ok (fun _ t _ h hok => addTool_ok (t := t) h hok) hstart htools
      obtain ⟨h₂, hnodes₂⟩ := foldlM_ok (fun _ r _ h hok => addResource_ok (r := r) h hok) h₁ hok
      refine ⟨h₂.toSound, ?_⟩
      rw [hnodes₂, hnodes₁, ← List.map_eq_flatMap, ← List.map_eq_flatMap]
      simp [TopologyGraph.addServerNode, StaticServerDecl.nodes]

/-- **The graph of accepted declarations**: well-formed, with the declared nodes. -/
theorem fromStatic_ok {servers : List StaticServerDecl} (hok : fromStatic number servers = .ok g) :
    Sound g ∧ g.nodes = servers.flatMap (·.nodes) := by
  unfold fromStatic at hok
  split at hok
  · cases hok
  · cases hfold : servers.foldlM (addServer number) .empty with
    | error e =>
      simp only [hfold] at hok
      cases hok
    | ok g₁ =>
      simp only [hfold] at hok
      have hempty : Sound .empty := ⟨.empty, fun e he => (List.not_mem_nil he).elim,
        fun n hn => (List.not_mem_nil hn).elim⟩
      obtain ⟨h₁, hnodes₁⟩ := foldlM_ok (fun _ d _ h hok => addServer_ok (d := d) h hok) hempty hfold
      have hsame : (if maxNodes < g₁.nodes.length then _ else Except.ok g₁) = Except.ok g := hok
      split at hsame
      · cases hsame
      · cases hsame
        exact ⟨h₁, hnodes₁⟩

/-- What is built has no further metadata. -/
theorem plain_of_fromStatic {servers : List StaticServerDecl} (hok : fromStatic number servers = .ok g) :
    ∀ n ∈ g.nodes, n.Plain := by
  intro n hn
  rw [(fromStatic_ok hok).2] at hn
  obtain ⟨d, -, hn⟩ := List.mem_flatMap.mp hn
  simp only [StaticServerDecl.nodes, List.mem_cons, List.mem_append, List.mem_map] at hn
  rcases hn with rfl | ⟨t, -, rfl⟩ | ⟨r, -, rfl⟩
  · exact ⟨rfl, rfl⟩
  · exact ⟨rfl, rfl⟩
  · trivial

end Build

/-- The topologies that are loaded: built from declarations, with edges that the inference engine found or
    that a snapshot holds. -/
inductive Loaded (number : JsonNumber → List Char) : TopologyGraph → Prop where
  | fromStatic {servers : List StaticServerDecl} {g : TopologyGraph} (hok : fromStatic number servers = .ok g) :
    Loaded number g
  | addEdge {g : TopologyGraph} {e : GraphEdge} (h : Loaded number g) (hweight : e.weight ≠ .owns)
    (hsource : e.source < g.nodes.length) (htarget : e.target < g.nodes.length) : Loaded number (g.addEdge e)

theorem Loaded.wellFormed {number : JsonNumber → List Char} {g : TopologyGraph} (h : Loaded number g) :
    g.WellFormed := by
  induction h with
  | fromStatic hok => exact (fromStatic_ok hok).1.wellFormed
  | addEdge _ hweight hsource htarget ih => exact ih.addEdge hweight hsource htarget

/-- Adding edges does not change the nodes. -/
theorem Loaded.clean {number : JsonNumber → List Char} {g : TopologyGraph} (h : Loaded number g) :
    ∀ n ∈ g.nodes, n.Clean ∧ n.Plain := by
  induction h with
  | fromStatic hok => exact fun n hn => ⟨(fromStatic_ok hok).1.clean n hn, plain_of_fromStatic hok n hn⟩
  | addEdge _ _ _ _ ih => exact ih

end Vellaveto.Discovery
