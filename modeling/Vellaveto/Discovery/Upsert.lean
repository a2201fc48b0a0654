/-
  UPSERTING ONE SERVER (`vellaveto-discovery/src/guard.rs`, `to_static` of `topology.rs`).

  PROGRAM.  The guard reads declarations back from the loaded graph, replaces or appends the declaration of
  one server, and builds a new graph from the list.

  SPEC.  `OthersUnchanged`: every node of another server is there with all its fields, every edge between
  such nodes is still present.

  RESULT.  A declaration has no version, capabilities, hints or dependencies, and no edge other than `Owns`.
  `Lossless` says that the other servers have none of these; `upsert_server_frame_iff` shows that an upsert
  leaves the other servers alone exactly then, and that a refused upsert changes nothing.
-/
import Mathlib.Data.List.Sort
import Mathlib.Data.String.Basic
import Vellaveto.Discovery.Topology

namespace Vellaveto.Discovery

open Vellaveto.Json

/-! ## The program -/

namespace TopologyGraph

/-- `neighbors`: the targets of the edges from a node, the newest edge first. -/
def neighbors (g : TopologyGraph) (i : Nat) : List Nat :=
  ((g.edges.filter fun e => e.source = i).map (·.target)).reverse

/-- `server_names`. -/
def serverNames (g : TopologyGraph) : List String := g.serverIndex.keys.insertionSort (· ≤ ·)

/-- The nodes that the edges from the node of a server lead to. -/
def serverNeighbors (g : TopologyGraph) (server : String) : List TopologyNode :=
  match g.serverIndex.lookup server with
  | none => []
  | some i => (g.neighbors i).filterMap fun j => g.nodes[j]?

/-- `server_tools`. -/
def serverTools (g : TopologyGraph) (server : String) : List TopologyNode :=
  (g.serverNeighbors server).filter (·.isTool)

/-- `server_resources`. -/
def serverResources (g : TopologyGraph) (server : String) : List TopologyNode :=
  (g.serverNeighbors server).filter (·.isResource)

end TopologyGraph

/-- The declaration of a tool node. -/
def TopologyNode.toolDecl? : TopologyNode → Option StaticToolDecl
  | .tool _ name description inputSchema _ _ => some ⟨name, description, inputSchema⟩
  | _ => none

/-- The declaration of a resource node. -/
def TopologyNode.resourceDecl? : TopologyNode → Option StaticResourceDecl
  | .resource _ uriTemplate name mimeType => some ⟨uriTemplate, name, mimeType⟩
  | _ => none

namespace TopologyGraph

/-- The declaration that `to_static` makes of one server. -/
def serverDecl (g : TopologyGraph) (server : String) : StaticServerDecl :=
  { name := server
    tools := (g.serverTools server).filterMap (·.toolDecl?)
    resources := (g.serverResources server).filterMap (·.resourceDecl?) }

/-- `TopologyGraph::to_static`. -/
def toStatic (g : TopologyGraph) : List StaticServerDecl := g.serverNames.map g.serverDecl

end TopologyGraph

/-- `TopologyGuard`: the loaded topology, and whether the lock is poisoned. -/
structure TopologyGuard where
  topology : Option TopologyGraph
  poisoned : Bool

/-- Replace the first declaration with the name, or append. -/
def upsertDecl (decl : StaticServerDecl) : List StaticServerDecl → List StaticServerDecl
  | [] => [decl]
  | d :: decls => if d.name = decl.name then decl :: decls else d :: upsertDecl decl decls

/-- `TopologyGuard::upsert_server`. -/
def upsertServer (number : JsonNumber → List Char) (guard : TopologyGuard) (decl : StaticServerDecl) :
    Except DiscoveryError Unit × TopologyGuard :=
  if guard.poisoned then (.error (.graphError "TopologyGuard RwLock poisoned during upsert"), guard)
  else
    let decls :=
      match guard.topology with
      | some topo => topo.toStatic
      | none => []
    match fromStatic number (upsertDecl decl decls) with
    | .error e => (.error e, guard)
    | .ok newTopology => (.ok (), { guard with topology := some newTopology })

/-! ## The specification -/

/-- **The other servers are left alone**: their nodes are unchanged, the edges between them are there. -/
structure OthersUnchanged (g g' : TopologyGraph) (server : String) : Prop where
  nodes : ∀ n ∈ g.nodes, n.serverName ≠ server → g'.node? n.qualifiedName = some n
  edges : ∀ e ∈ g.edges, ∀ n m, g.nodes[e.source]? = some n → g.nodes[e.target]? = some m →
    n.serverName ≠ server → m.serverName ≠ server →
    ∃ e' ∈ g'.edges, g'.nodes[e'.source]? = some n ∧ g'.nodes[e'.target]? = some m ∧ e'.weight = e.weight

/-- The other servers have nothing that a declaration does not hold. -/
structure Lossless (g : TopologyGraph) (server : String) : Prop where
  nodes : ∀ n ∈ g.nodes, n.serverName ≠ server → n.Plain
  edges : ∀ e ∈ g.edges, ∀ n m, g.nodes[e.source]? = some n → g.nodes[e.target]? = some m →
    n.serverName ≠ server → m.serverName ≠ server → e.weight = .owns

/-! ## Reading declarations back -/

section ToStatic

variable {number : JsonNumber → List Char} {g g' : TopologyGraph} {decl : StaticServerDecl} {n : TopologyNode}

theorem mem_upsertDecl {decls : List StaticServerDecl} {d : StaticServerDecl} (hd : d ∈ decls)
    (hname : d.name ≠ decl.name) : d ∈ upsertDecl decl decls := by
  induction decls with
  | nil => cases hd
  | cons c decls ih =>
    rw [upsertDecl]
    rcases List.mem_cons.mp hd with rfl | hd
    · rw [if_neg hname]
      exact List.mem_cons_self
    · split
      · exact List.mem_cons_of_mem _ hd
      · exact List.mem_cons_of_mem _ (ih hd)

/-- What a server owns is among its neighbours. -/
theorem mem_serverNeighbors (hg : g.WellFormed) (hn : n ∈ g.nodes) (hserver : n.isServer = false) :
    n ∈ g.serverNeighbors n.serverName := by
  obtain ⟨o, ho, hoserver, hname⟩ := hg.owner n hn
  obtain ⟨i, hi⟩ := List.mem_iff_getElem?.mp ho
  obtain ⟨j, hj⟩ := List.mem_iff_getElem?.mp hn
  have hedge : (⟨i, j, .owns⟩ : GraphEdge) ∈ g.edges :=
    (hg.owns i j).mpr ⟨o, n, hi, hj, hoserver, by simp [hserver], hname.symm⟩
  unfold TopologyGraph.serverNeighbors
  rw [(hg.serverIndex n.serverName i).mpr ⟨o, hi, hoserver, hname⟩]
  refine List.mem_filterMap.mpr ⟨j, ?_, hj⟩
  unfold TopologyGraph.neighbors
  rw [List.mem_reverse, List.mem_map]
  exact ⟨_, List.mem_filter.mpr ⟨hedge, by simp⟩, rfl⟩

theorem mem_serverNames_iff (hg : g.WellFormed) {name : String} :
    name ∈ g.serverNames ↔ ∃ n ∈ g.nodes, n.isServer ∧ n.serverName = name := by
  unfold TopologyGraph.serverNames
  rw [(List.perm_insertionSort (· ≤ ·) _).mem_iff, ← AList.mem_keys, ← AList.lookup_isSome,
    Option.isSome_iff_exists]
  constructor
  · rintro ⟨i, hi⟩
    obtain ⟨n, hn, hserver⟩ := (hg.serverIndex name i).mp hi
    exact ⟨n, List.mem_of_getElem? hn, hserver⟩
  · rintro ⟨n, hn, hserver⟩
    obtain ⟨i, hi⟩ := List.mem_iff_getElem?.mp hn
    exact ⟨i, (hg.serverIndex name i).mpr ⟨n, hi, hserver⟩⟩

/-- **A plain node** is a node of the declaration of its server. -/
theorem mem_nodes_serverDecl (hg : g.WellFormed) (hn : n ∈ g.nodes) (hplain : n.Plain) :
    n ∈ (g.serverDecl n.serverName).nodes := by
  cases n with
  | server name version capabilities =>
    obtain ⟨rfl, rfl⟩ := hplain
    exact List.mem_cons_self
  | tool owner name description schema hints deps =>
    obtain ⟨rfl, rfl⟩ := hplain
    refine List.mem_cons_of_mem _ (List.mem_append_left _ (List.mem_map.mpr ⟨⟨name, description, schema⟩, ?_, rfl⟩))
    exact List.mem_filterMap.mpr ⟨_, List.mem_filter.mpr ⟨mem_serverNeighbors hg hn rfl, rfl⟩, rfl⟩
  | resource owner uri name mime =>
    refine List.mem_cons_of_mem _ (List.mem_append_right _ (List.mem_map.mpr ⟨⟨uri, name, mime⟩, ?_, rfl⟩))
    exact List.mem_filterMap.mpr ⟨_, List.mem_filter.mpr ⟨mem_serverNeighbors hg hn rfl, rfl⟩, rfl⟩

/-! ## The frame -/

/-- A plain node of another server is built again. -/
theorem mem_rebuilt (hg : g.WellFormed) (hok : fromStatic number (upsertDecl decl g.toStatic) = .ok g')
    (hn : n ∈ g.nodes) (hname : n.serverName ≠ decl.name) (hplain : n.Plain) : n ∈ g'.nodes := by
  rw [(fromStatic_ok hok).2]
  refine List.mem_flatMap.mpr ⟨g.serverDecl n.serverName, ?_, mem_nodes_serverDecl hg hn hplain⟩
  exact mem_upsertDecl (List.mem_map_of_mem ((mem_serverNames_iff hg).mpr (hg.owner n hn))) hname

/-- **The rebuilt graph keeps the other servers exactly if they had nothing to lose.** -/
theorem othersUnchanged_iff (hg : g.WellFormed)
    (hok : fromStatic number (upsertDecl decl g.toStatic) = .ok g') :
    OthersUnchanged g g' decl.name ↔ Lossless g decl.name := by
  have hsound := (fromStatic_ok hok).1
  have hg' := hsound.wellFormed
  constructor
  · intro h
    refine ⟨fun n hn hname => ?_, fun e he n m hsource htarget hn hm => ?_⟩
    · exact plain_of_fromStatic hok n (hg'.node?_eq_some_iff.mp (h.nodes n hn hname)).1
    · obtain ⟨e', he', -, -, hweight⟩ := h.edges e he n m hsource htarget hn hm
      rw [← hweight]
      exact hsound.owns e' he'
  · intro h
    have hrebuilt : ∀ n ∈ g.nodes, n.serverName ≠ decl.name → n ∈ g'.nodes :=
      fun n hn hname => mem_rebuilt hg hok hn hname (h.nodes n hn hname)
    refine ⟨fun n hn hname => ?_, fun e he n m hsource htarget hn hm => ?_⟩
    · exact hg'.node?_eq_some_iff.mpr ⟨hrebuilt n hn hname, rfl⟩
    · have howns := h.edges e he n m hsource htarget hn hm
      obtain ⟨source, target, weight⟩ := e
      subst howns
      obtain ⟨n', m', hn', hm', hserver, howned, hsame⟩ := (hg.owns source target).mp he
      obtain rfl : n = n' := Option.some.inj (hsource.symm.trans hn')
      obtain rfl : m = m' := Option.some.inj (htarget.symm.trans hm')
      obtain ⟨i, hi⟩ := List.mem_iff_getElem?.mp (hrebuilt n (List.mem_of_getElem? hsource) hn)
      obtain ⟨j, hj⟩ := List.mem_iff_getElem?.mp (hrebuilt m (List.mem_of_getElem? htarget) hm)
      exact ⟨⟨i, j, .owns⟩, (hg'.owns i j).mpr ⟨n, m, hi, hj, hserver, howned, hsame⟩, hi, hj, rfl⟩

end ToStatic

/-- **An upsert leaves the other servers alone exactly if they are plain and no edge between them is other than
    `Owns`.**  A refused upsert changes nothing. -/
theorem upsert_server_frame_iff (number : JsonNumber → List Char) (guard : TopologyGuard) (g : TopologyGraph)
    (decl : StaticServerDecl) (hg : guard.topology = some g) (hwf : g.WellFormed) :
    (∀ error, (upsertServer number guard decl).1 = .error error → (upsertServer number guard decl).2 = guard) ∧
      ((upsertServer number guard decl).1 = .ok () →
        ∃ g', (upsertServer number guard decl).2.topology = some g' ∧
          (OthersUnchanged g g' decl.name ↔ Lossless g decl.name)) := by
  unfold upsertServer
  rw [hg]
  cases guard.poisoned with
  | true => exact ⟨fun error _ => rfl, fun h => nomatch h⟩
  | false =>
    rw [if_neg Bool.false_ne_true]
    simp only
    cases hok : fromStatic number (upsertDecl decl g.toStatic) with
    | error e => exact ⟨fun error _ => rfl, fun h => nomatch h⟩
    | ok g' =>
      refine ⟨fun error h => ?_, fun _ => ⟨g', rfl, othersUnchanged_iff hwf hok⟩⟩
      cases h

/-! ### Two servers -/

/-- A server of the example. -/
def exampleServer (name : String) (tools : List String) : StaticServerDecl :=
  ⟨name, tools.map fun tool => ⟨tool, "", .object []⟩, []⟩

def exampleServers : List StaticServerDecl :=
  [exampleServer "files" ["read", "write"], exampleServer "mail" ["send"]]

/-- Two file tools and a mail tool. -/
def exampleGraph : TopologyGraph := (fromStatic plainNumber exampleServers).toOption.getD .empty

/-- What is read flows into what is written. -/
def flowGraph : TopologyGraph := exampleGraph.addEdge ⟨1, 2, .dataFlow "read" "text" 0 "name"⟩

/-- A build that succeeds is the build of its value. -/
theorem eq_ok_getD {built : Except DiscoveryError TopologyGraph} (h : built.toOption.isSome) :
    built = .ok (built.toOption.getD .empty) := by
  cases built with
  | error e => cases h
  | ok g => rfl

theorem exampleGraph_ok : fromStatic plainNumber exampleServers = .ok exampleGraph :=
  eq_ok_getD (by decide +kernel)

theorem nodes_exampleGraph : exampleGraph.nodes = exampleServers.flatMap (·.nodes) :=
  (fromStatic_ok exampleGraph_ok).2

/-- Without the flow, the mail server can be replaced. -/
theorem upsert_server_frame_iff_mail :
    ∃ g', (upsertServer plainNumber ⟨some exampleGraph, false⟩ (exampleServer "mail" [])).2.topology = some g' ∧
      OthersUnchanged exampleGraph g' "mail" := by
  have hsound := (fromStatic_ok exampleGraph_ok).1
  obtain ⟨g', hg', hiff⟩ := (upsert_server_frame_iff plainNumber ⟨some exampleGraph, false⟩ exampleGraph
    (exampleServer "mail" []) rfl hsound.wellFormed).2 (by decide +kernel)
  refine ⟨g', hg', hiff.mpr ⟨fun n hn _ => ?_, fun e he _ _ _ _ _ _ => ?_⟩⟩
  · exact plain_of_fromStatic exampleGraph_ok n hn
  · exact hsound.owns e he

/-- **The flow is lost** when the mail server is replaced. -/
theorem data_flow_lost_by_upsert :
    Loaded plainNumber flowGraph ∧
      ∃ g', upsertServer plainNumber ⟨some flowGraph, false⟩ (exampleServer "mail" []) =
          (.ok (), ⟨some g', false⟩) ∧
        ¬ OthersUnchanged flowGraph g' "mail" := by
  have hlength : exampleGraph.nodes.length = 5 := by
    rw [nodes_exampleGraph]
    rfl
  have hloaded : Loaded plainNumber flowGraph := by
    refine .addEdge (.fromStatic exampleGraph_ok) (fun h => nomatch h) ?_ ?_
    · rw [hlength]
      decide
    · rw [hlength]
      decide
  obtain ⟨g', hok⟩ : ∃ g', fromStatic plainNumber
      (upsertDecl (exampleServer "mail" []) flowGraph.toStatic) = .ok g' := ⟨_, eq_ok_getD (by decide +kernel)⟩
  refine ⟨hloaded, g', ?_, fun h => ?_⟩
  · unfold upsertServer
    simp only [Bool.false_eq_true, if_false, hok]
  · have hlossless := (othersUnchanged_iff hloaded.wellFormed hok).mp h
    have hnode : ∀ (i : Nat) (n : TopologyNode), (exampleServers.flatMap (·.nodes))[i]? = some n →
        flowGraph.nodes[i]? = some n := by
      intro i n hn
      rw [← nodes_exampleGraph] at hn
      exact hn
    have hweight := hlossless.edges _ (List.mem_append_right _ (List.mem_singleton.mpr rfl)) _ _
      (hnode 1 _ rfl) (hnode 2 _ rfl) (by decide) (by decide)
    cases hweight

end Vellaveto.Discovery
