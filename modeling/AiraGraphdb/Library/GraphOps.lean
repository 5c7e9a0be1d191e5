import AiraGraphdb.Library.Tx
import AiraGraphdb.Schemes.Ieee
import AiraGraphdb.Schemes.Maps

/-! # Operations on the in-memory graph

The methods of the store. Where one goes through a hash map, the order in which the map hands out
its entries is a parameter (`HashOrder`): any arrangement of the entries. A graph is `Keyed` when
every node and edge is stored under its own id; its sorted listings do not depend on that order. A
counter that would overflow stops the process. -/

namespace AiraGraphdb.Library

open Schemes

/-- The order in which the two hash maps of a graph hand out their entries. -/
structure HashOrder where
  nodes : Map GraphNode → List GraphNode
  edges : Map GraphEdge → List GraphEdge
  nodes_perm : ∀ m, (nodes m).Perm (m.toList.map Prod.snd)
  edges_perm : ∀ m, (edges m).Perm (m.toList.map Prod.snd)

/-- The order of the keys, and the one against it. -/
def HashOrder.ascending : HashOrder :=
  ⟨fun m => m.toList.map Prod.snd, fun m => m.toList.map Prod.snd, fun _ => .rfl, fun _ => .rfl⟩

def HashOrder.descending : HashOrder :=
  ⟨fun m => (m.toList.map Prod.snd).reverse, fun m => (m.toList.map Prod.snd).reverse,
    fun _ => List.reverse_perm _, fun _ => List.reverse_perm _⟩

def F64.ieee (x : F64) : Schemes.F64 := ⟨x.bits⟩

/-- Equality of values as the program compares them: numbers as numbers. -/
def Value.eq : Value → Value → Bool
  | .string s, .string t => s == t
  | .int64 n, .int64 m => n == m
  | .float64 x, .float64 y => x.ieee.eq y.ieee
  | .bool b, .bool c => b == c
  | .bytes bs, .bytes cs => bs == cs
  | _, _ => false

namespace InMemoryGraphStore

def nodeIdOf (n : ℕ) : String := "n" ++ n.repr

def edgeIdOf (n : ℕ) : String := "e" ++ n.repr

theorem nodeIdOf_injective {n m : ℕ} (h : nodeIdOf n = nodeIdOf m) : n = m := by
  have := congrArg String.toList h
  simp only [nodeIdOf, String.toList_append] at this
  exact Nat.repr_injective (String.ext (List.append_cancel_left this))

theorem edgeIdOf_injective {n m : ℕ} (h : edgeIdOf n = edgeIdOf m) : n = m := by
  have := congrArg String.toList h
  simp only [edgeIdOf, String.toList_append] at this
  exact Nat.repr_injective (String.ext (List.append_cancel_left this))

def createNode (g : InMemoryGraphStore) (labels : List String) (properties : Properties) :
    Option (InMemoryGraphStore × GraphNode) := do
  let seq ← increment g.nextNodeSeq
  let node : GraphNode := ⟨nodeIdOf seq.toNat, labels, properties⟩
  return ({ g with nodes := g.nodes.insert node.id node, nextNodeSeq := seq }, node)

def getNode (g : InMemoryGraphStore) (nodeId : String) : Option GraphNode := g.nodes[nodeId]?

/-- A change of a stored node through a mutable reference to it. -/
def getNodeMut (g : InMemoryGraphStore) (nodeId : String) (f : GraphNode → GraphNode) :
    Option InMemoryGraphStore :=
  (g.nodes[nodeId]?).map fun node => { g with nodes := g.nodes.insert nodeId (f node) }

def updateNode (g : InMemoryGraphStore) (nodeId : String) (labels : List String)
    (properties : Properties) : Option InMemoryGraphStore :=
  g.getNodeMut nodeId fun node => { node with labels, properties }

def deleteNode (g : InMemoryGraphStore) (nodeId : String) : InMemoryGraphStore :=
  { g with nodes := g.nodes.erase nodeId }

def createEdge (g : InMemoryGraphStore) (src dst edgeType : String) (properties : Properties) :
    Option (InMemoryGraphStore × Option GraphEdge) :=
  if g.nodes.contains src && g.nodes.contains dst then do
    let seq ← increment g.nextEdgeSeq
    let edge : GraphEdge := ⟨edgeIdOf seq.toNat, src, dst, edgeType, properties⟩
    return ({ g with edges := g.edges.insert edge.id edge, nextEdgeSeq := seq }, some edge)
  else some (g, none)

def getEdge (g : InMemoryGraphStore) (edgeId : String) : Option GraphEdge := g.edges[edgeId]?

def updateEdge (g : InMemoryGraphStore) (edgeId edgeType : String) (properties : Properties) :
    Option InMemoryGraphStore :=
  (g.edges[edgeId]?).map fun edge =>
    { g with edges := g.edges.insert edgeId { edge with edgeType, properties } }

def deleteEdge (g : InMemoryGraphStore) (edgeId : String) : InMemoryGraphStore :=
  { g with edges := g.edges.erase edgeId }

def hasNode (g : InMemoryGraphStore) (nodeId : String) : Bool := g.nodes.contains nodeId

def nodeCount (g : InMemoryGraphStore) : ℕ := g.nodes.size

def edgeCount (g : InMemoryGraphStore) : ℕ := g.edges.size

def renameLabels (old new : String) (node : GraphNode) : GraphNode :=
  { node with labels := node.labels.map fun l => if l = old then new else l }

/-- The graph with a label renamed, and the number of nodes that had it. -/
def renameLabel (g : InMemoryGraphStore) (old new : String) : InMemoryGraphStore × ℕ :=
  ({ g with nodes := g.nodes.map fun _ node => renameLabels old new node },
    (g.nodes.toList.filter fun p => decide (old ∈ p.2.labels)).length)

section Ordered

variable (order : HashOrder)

/-- The nodes, sorted by id. -/
def listNodes (g : InMemoryGraphStore) : List GraphNode :=
  (order.nodes g.nodes).mergeSort fun a b => decide (a.id ≤ b.id)

def listEdges (g : InMemoryGraphStore) : List GraphEdge :=
  (order.edges g.edges).mergeSort fun a b => decide (a.id ≤ b.id)

/-- A node has the label, if one is asked for, and all the properties. -/
def matchesNode (label : Option String) (props : Properties) (node : GraphNode) : Bool :=
  label.all (fun l => decide (l ∈ node.labels)) &&
    props.toList.all fun p => match node.properties[p.1]? with
      | some v => v.eq p.2
      | none => false

/-- The first match in the order of the hash map. -/
def findNodeByLabelAndProps (g : InMemoryGraphStore) (label : Option String) (props : Properties) :
    Option GraphNode :=
  (order.nodes g.nodes).find? (matchesNode label props)

def edgesTouchingNode (g : InMemoryGraphStore) (nodeId : String) : List String :=
  ((order.edges g.edges).filter fun edge => edge.src = nodeId ∨ edge.dst = nodeId).map GraphEdge.id

def deleteNodeDetach (g : InMemoryGraphStore) (nodeId : String) : InMemoryGraphStore :=
  let touching := edgesTouchingNode order g nodeId
  deleteNode { g with edges := touching.foldl (fun m edgeId => m.erase edgeId) g.edges } nodeId

end Ordered

/-! ### Nodes and edges under their own ids -/

structure Keyed (g : InMemoryGraphStore) : Prop where
  nodes : ∀ (k : String) (n : GraphNode), g.nodes[k]? = some n → n.id = k
  edges : ∀ (k : String) (e : GraphEdge), g.edges[k]? = some e → e.id = k

section KeyedMaps

variable {α : Type} {m : Map α} {id : α → String}

theorem keyed_insert (h : ∀ k v, m[k]? = some v → id v = k) {k : String} {v : α} (hv : id v = k) :
    ∀ k' v', (m.insert k v)[k']? = some v' → id v' = k' := by
  intro k' v' hk
  by_cases hne : k = k'
  · subst hne
    rw [Map.getElem?_insert_self] at hk
    rwa [← Option.some.inj hk]
  · rw [Map.getElem?_insert_ne _ hne] at hk
    exact h k' v' hk

theorem getElem?_of_erase {k k' : String} {v : α} (h : (m.erase k)[k']? = some v) :
    k ≠ k' ∧ m[k']? = some v := by
  by_cases hne : k = k'
  · subst hne
    rw [Map.getElem?_erase_self] at h
    cases h
  · rw [Map.getElem?_erase_ne _ hne] at h
    exact ⟨hne, h⟩

end KeyedMaps

/-- The values of a map that is keyed by an id, in the order of the keys. -/
theorem pairwise_values {α : Type} {m : Map α} {id : α → String}
    (h : ∀ k v, m[k]? = some v → id v = k) :
    (m.toList.map Prod.snd).Pairwise fun a b => id a < id b := by
  have hk : m.toList.Pairwise fun a b => a.1 < b.1 := by
    have := Std.ExtTreeMap.ordered_keys_toList (t := m)
    refine this.imp ?_
    intro a b hab
    exact compare_lt_iff_lt.mp hab
  rw [List.pairwise_map]
  refine hk.imp_of_mem ?_
  intro a b ha hb hab
  rwa [h a.1 a.2 (Map.mem_toList.mp ha), h b.1 b.2 (Map.mem_toList.mp hb)]

/-- Sorting any arrangement of the values of such a map by id gives the values in order. -/
theorem mergeSort_values {α : Type} {m : Map α} {id : α → String}
    (h : ∀ k v, m[k]? = some v → id v = k) {l : List α} (hl : l.Perm (m.toList.map Prod.snd)) :
    (l.mergeSort fun a b => decide (id a ≤ id b)) = m.toList.map Prod.snd := by
  have hv := pairwise_values h
  have hs : (l.mergeSort fun a b => decide (id a ≤ id b)).Pairwise fun a b => id a ≤ id b := by
    simpa using @List.pairwise_mergeSort _ (fun a b => decide (id a ≤ id b))
      (fun a b c => by simpa using le_trans) (fun a b => by simpa using le_total _ _) l
  have hp := (List.mergeSort_perm l fun a b => decide (id a ≤ id b)).trans hl
  refine List.Perm.eq_of_pairwise ?_ hs (hv.imp le_of_lt) hp
  intro a b ha hb hab hba
  have hid := le_antisymm hab hba
  obtain ⟨⟨k, x⟩, hx, rfl⟩ := List.mem_map.mp (hp.mem_iff.mp ha)
  obtain ⟨⟨k', y⟩, hy, rfl⟩ := List.mem_map.mp hb
  rw [Map.mem_toList] at hx hy
  obtain rfl : k = k' := by rw [← h k x hx, ← h k' y hy]; exact hid
  exact Option.some.inj (hx.symm.trans hy)

theorem listNodes_keyed {g : InMemoryGraphStore} (hk : g.Keyed) (order : HashOrder) :
    listNodes order g = g.nodes.toList.map Prod.snd :=
  mergeSort_values hk.nodes (order.nodes_perm _)

theorem listEdges_keyed {g : InMemoryGraphStore} (hk : g.Keyed) (order : HashOrder) :
    listEdges order g = g.edges.toList.map Prod.snd :=
  mergeSort_values hk.edges (order.edges_perm _)

/-! ### What the operations make -/

section Operations

variable {g g' : InMemoryGraphStore}

theorem createNode_eq {labels : List String} {properties : Properties} {node : GraphNode}
    (h : g.createNode labels properties = some (g', node)) :
    node.id = nodeIdOf (g.nextNodeSeq.toNat + 1) ∧
      g'.nextNodeSeq.toNat = g.nextNodeSeq.toNat + 1 ∧ g'.nextEdgeSeq = g.nextEdgeSeq ∧
      g'.nodes = g.nodes.insert node.id node ∧ g'.edges = g.edges := by
  obtain ⟨seq, hseq, h⟩ := Option.bind_eq_some_iff.mp h
  cases h
  exact ⟨by rw [increment_toNat hseq], increment_toNat hseq, rfl, rfl, rfl⟩

theorem createEdge_eq {src dst edgeType : String} {properties : Properties} {edge : GraphEdge}
    (h : g.createEdge src dst edgeType properties = some (g', some edge)) :
    edge.id = edgeIdOf (g.nextEdgeSeq.toNat + 1) ∧ edge.src ∈ g.nodes ∧ edge.dst ∈ g.nodes ∧
      g'.nextEdgeSeq.toNat = g.nextEdgeSeq.toNat + 1 ∧ g'.nextNodeSeq = g.nextNodeSeq ∧
      g'.edges = g.edges.insert edge.id edge ∧ g'.nodes = g.nodes := by
  rw [createEdge] at h
  split at h
  · rename_i hends
    obtain ⟨seq, hseq, h⟩ := Option.bind_eq_some_iff.mp h
    cases h
    rw [Bool.and_eq_true] at hends
    exact ⟨by rw [increment_toNat hseq], hends.1, hends.2, increment_toNat hseq, rfl, rfl, rfl⟩
  · cases h

theorem getNodeMut_eq {nodeId : String} {f : GraphNode → GraphNode}
    (h : g.getNodeMut nodeId f = some g') :
    ∃ node, g.nodes[nodeId]? = some node ∧
      g' = { g with nodes := g.nodes.insert nodeId (f node) } := by
  obtain ⟨node, hn, rfl⟩ := Option.map_eq_some_iff.mp h
  exact ⟨node, hn, rfl⟩

theorem updateEdge_eq {edgeId edgeType : String} {properties : Properties}
    (h : g.updateEdge edgeId edgeType properties = some g') :
    ∃ edge, g.edges[edgeId]? = some edge ∧
      g' = { g with edges := g.edges.insert edgeId { edge with edgeType, properties } } := by
  obtain ⟨edge, he, rfl⟩ := Option.map_eq_some_iff.mp h
  exact ⟨edge, he, rfl⟩

/-- The edges that touch a node. -/
theorem mem_edgesTouchingNode (hk : g.Keyed) {order : HashOrder} {nodeId k : String} :
    k ∈ edgesTouchingNode order g nodeId ↔
      ∃ e, g.edges[k]? = some e ∧ (e.src = nodeId ∨ e.dst = nodeId) := by
  simp only [edgesTouchingNode, List.mem_map, List.mem_filter, decide_eq_true_eq,
    (order.edges_perm g.edges).mem_iff]
  constructor
  · rintro ⟨e, ⟨⟨⟨k', e'⟩, hm, rfl⟩, ht⟩, rfl⟩
    have hget := Map.mem_toList.mp hm
    exact ⟨e', by rw [hk.edges k' e' hget]; exact hget, ht⟩
  · rintro ⟨e, hget, ht⟩
    exact ⟨e, ⟨⟨(k, e), Map.mem_toList.mpr hget, rfl⟩, ht⟩, hk.edges k e hget⟩

/-- Detaching a node takes away the edges that touch it and no others. -/
theorem deleteNodeDetach_edges (hk : g.Keyed) (order : HashOrder) (nodeId k : String) :
    (deleteNodeDetach order g nodeId).edges[k]? =
      (g.edges[k]?).filter fun e => e.src ≠ nodeId ∧ e.dst ≠ nodeId := by
  have he : (deleteNodeDetach order g nodeId).edges =
      (edgesTouchingNode order g nodeId).foldl (fun m edgeId => m.erase edgeId) g.edges := rfl
  rw [he, Map.getElem?_foldl_erase]
  simp only [mem_edgesTouchingNode hk]
  rcases hg : g.edges[k]? with _ | e
  · simp
  · by_cases ht : e.src = nodeId ∨ e.dst = nodeId
    · simp only [Option.some.injEq, exists_eq_left', ht, if_true, Option.filter_some]
      rw [if_neg]
      simpa [or_iff_not_imp_left] using ht
    · simp only [Option.some.injEq, exists_eq_left', ht, if_false, Option.filter_some]
      rw [if_pos]
      simpa using not_or.mp ht

theorem getElem?_deleteNodeDetach (hk : g.Keyed) {order : HashOrder} {nodeId k : String}
    {e : GraphEdge} (h : (deleteNodeDetach order g nodeId).edges[k]? = some e) :
    g.edges[k]? = some e ∧ e.src ≠ nodeId ∧ e.dst ≠ nodeId := by
  rw [deleteNodeDetach_edges hk, Option.filter_eq_some_iff] at h
  simpa using h

end Operations

/-! ### What the operations keep -/

section Keeps

variable {g g' : InMemoryGraphStore} (h : g.Keyed)

include h

theorem Keyed.createNode {labels : List String} {properties : Properties} {node : GraphNode}
    (hc : g.createNode labels properties = some (g', node)) : g'.Keyed := by
  obtain ⟨-, -, -, hnodes, hedges⟩ := createNode_eq hc
  exact ⟨hnodes ▸ keyed_insert h.nodes rfl, hedges ▸ h.edges⟩

theorem Keyed.createEdge {src dst edgeType : String} {properties : Properties} {edge : GraphEdge}
    (hc : g.createEdge src dst edgeType properties = some (g', some edge)) : g'.Keyed := by
  obtain ⟨-, -, -, -, -, hedges, hnodes⟩ := createEdge_eq hc
  exact ⟨hnodes ▸ h.nodes, hedges ▸ keyed_insert h.edges rfl⟩

theorem Keyed.getNodeMut {nodeId : String} {f : GraphNode → GraphNode}
    (hf : ∀ node, (f node).id = node.id) (hm : g.getNodeMut nodeId f = some g') : g'.Keyed := by
  obtain ⟨node, hn, rfl⟩ := getNodeMut_eq hm
  exact ⟨keyed_insert h.nodes ((hf node).trans (h.nodes nodeId node hn)), h.edges⟩

theorem Keyed.updateEdge {edgeId edgeType : String} {properties : Properties}
    (hu : g.updateEdge edgeId edgeType properties = some g') : g'.Keyed := by
  obtain ⟨edge, he, rfl⟩ := updateEdge_eq hu
  refine ⟨h.nodes, keyed_insert h.edges ?_⟩
  exact h.edges edgeId edge he

theorem Keyed.renameLabel (old new : String) : (g.renameLabel old new).1.Keyed := by
  refine ⟨fun k n hk => ?_, h.edges⟩
  rw [InMemoryGraphStore.renameLabel, Std.ExtTreeMap.getElem?_map] at hk
  obtain ⟨node, hn, rfl⟩ := Option.map_eq_some_iff.mp hk
  exact h.nodes k node hn

theorem Keyed.deleteNode (nodeId : String) : (g.deleteNode nodeId).Keyed :=
  ⟨fun k n hk => h.nodes k n (getElem?_of_erase hk).2, h.edges⟩

theorem Keyed.deleteNodeDetach (order : HashOrder) (nodeId : String) :
    (deleteNodeDetach order g nodeId).Keyed :=
  ⟨fun k n hk => h.nodes k n (getElem?_of_erase hk).2,
    fun k e hk => h.edges k e (getElem?_deleteNodeDetach h hk).1⟩

theorem Keyed.deleteEdge (edgeId : String) : (g.deleteEdge edgeId).Keyed :=
  ⟨h.nodes, fun k e hk => h.edges k e (getElem?_of_erase hk).2⟩

end Keeps

end InMemoryGraphStore

end AiraGraphdb.Library
