import AiraGraphdb.Library.CommitCrash
import AiraGraphdb.Library.Query.Effects

/-! # Integrity of the graphs in a run

A run is any sequence of queries and edge operations in sessions, commits (also ones that stop half
way), rollbacks, recoveries and restarts, from an empty directory. Every graph in it has grown from
the empty one by its own operations (`Lineage`); what these keep is `Sound`. The ids that all
operations of the run issued are listed too: a rolled back session's ids are issued again. -/

namespace AiraGraphdb.Library

open Schemes InMemoryGraphStore Query CommitCrash
open Library.Connections (CypherDialect)

namespace Integrity

/-! ### The ids of a graph -/

/-- The ids of the numbers after `n` up to `m`. -/
def idsAfter (idOf : ℕ → String) (n m : ℕ) : List String := (List.range' (n + 1) (m - n)).map idOf

/-- The ids that were issued between two states of a graph, by its counters. -/
def idsIssued (g g' : InMemoryGraphStore) : List String :=
  idsAfter nodeIdOf g.nextNodeSeq.toNat g'.nextNodeSeq.toNat ++
    idsAfter edgeIdOf g.nextEdgeSeq.toNat g'.nextEdgeSeq.toNat

theorem nodeIdOf_ne_edgeIdOf {n m : ℕ} : nodeIdOf n ≠ edgeIdOf m := by
  intro h
  have := congrArg String.toList h
  simp [nodeIdOf, edgeIdOf] at this

theorem mem_erase_ne {α : Type} {m : Map α} {k k' : String} (hne : k' ≠ k) (hk : k' ∈ m) :
    k' ∈ m.erase k :=
  Std.ExtTreeMap.mem_erase.mpr ⟨fun h => hne (Std.LawfulEqOrd.eq_of_compare h).symm, hk⟩

theorem idsAfter_self (idOf : ℕ → String) (n : ℕ) : idsAfter idOf n n = [] := by
  simp [idsAfter]

theorem idsAfter_succ (idOf : ℕ → String) (n : ℕ) : idsAfter idOf n (n + 1) = [idOf (n + 1)] := by
  simp [idsAfter]

theorem idsAfter_append (idOf : ℕ → String) {n m k : ℕ} (hnm : n ≤ m) (hmk : m ≤ k) :
    idsAfter idOf n m ++ idsAfter idOf m k = idsAfter idOf n k := by
  have h := @List.range'_append_1 (n + 1) (m - n) (k - m)
  rw [show n + 1 + (m - n) = m + 1 by omega, show m - n + (k - m) = k - n by omega] at h
  rw [idsAfter, idsAfter, idsAfter, ← List.map_append, h]

/-- The counters only grow, by what a change issues. -/
theorem Mutation.issued {g g' : InMemoryGraphStore} {ids : List String} (h : Mutation g ids g') :
    g.nextNodeSeq.toNat ≤ g'.nextNodeSeq.toNat ∧ g.nextEdgeSeq.toNat ≤ g'.nextEdgeSeq.toNat ∧
      idsIssued g g' = ids := by
  have same {g g' : InMemoryGraphStore} (hn : g'.nextNodeSeq = g.nextNodeSeq)
      (he : g'.nextEdgeSeq = g.nextEdgeSeq) : g.nextNodeSeq.toNat ≤ g'.nextNodeSeq.toNat ∧
        g.nextEdgeSeq.toNat ≤ g'.nextEdgeSeq.toNat ∧ idsIssued g g' = [] := by
    rw [idsIssued, hn, he, idsAfter_self, idsAfter_self]
    exact ⟨le_rfl, le_rfl, rfl⟩
  cases h with
  | createNode h =>
    obtain ⟨hid, hn, he, -, -⟩ := createNode_eq h
    rw [idsIssued, hn, he, idsAfter_succ, idsAfter_self, hid]
    exact ⟨by omega, le_rfl, rfl⟩
  | getNodeMut _ h =>
    obtain ⟨node, -, rfl⟩ := getNodeMut_eq h
    exact same rfl rfl
  | renameLabel => exact same rfl rfl
  | deleteNode => exact same rfl rfl
  | deleteNodeDetach => exact same rfl rfl
  | createEdge h =>
    obtain ⟨hid, -, -, he, hn, -, -⟩ := createEdge_eq h
    rw [idsIssued, hn, he, idsAfter_succ, idsAfter_self, hid]
    exact ⟨le_rfl, by omega, rfl⟩
  | updateEdge h =>
    obtain ⟨edge, -, rfl⟩ := updateEdge_eq h
    exact same rfl rfl
  | deleteEdge => exact same rfl rfl

/-- The counters tell which ids a sequence of changes issued. -/
theorem Changes.issued {g g' : InMemoryGraphStore} {ids : List String} (h : Changes g ids g') :
    g.nextNodeSeq.toNat ≤ g'.nextNodeSeq.toNat ∧ g.nextEdgeSeq.toNat ≤ g'.nextEdgeSeq.toNat ∧
      (idsIssued g g').Perm ids := by
  induction h with
  | refl => simp [idsIssued, idsAfter_self]
  | tail _ hm ih =>
    obtain ⟨hn, he, hp⟩ := ih
    obtain ⟨hn', he', rfl⟩ := Mutation.issued hm
    refine ⟨hn.trans hn', he.trans he', ?_⟩
    rw [idsIssued, ← idsAfter_append _ hn hn', ← idsAfter_append _ he he']
    -- the ids of the nodes and of the edges change places
    refine List.Perm.trans ?_ (hp.append_right _)
    simp only [idsIssued, List.append_assoc]
    exact (List.perm_append_comm_assoc _ _ _).append_left _

/-! ### What changes keep -/

/-- A graph whose nodes and edges are under their own ids, whose edges have both ends, and whose
    ids were all issued, each once and none beyond the counters. -/
structure Sound (ids : List String) (g : InMemoryGraphStore) : Prop where
  keyed : g.Keyed
  closed : ∀ (k : String) (e : GraphEdge), g.edges[k]? = some e → e.src ∈ g.nodes ∧ e.dst ∈ g.nodes
  nodes : ∀ k ∈ g.nodes, k ∈ ids
  edges : ∀ k ∈ g.edges, k ∈ ids
  issued : ∀ id ∈ ids, (∃ i, i ≤ g.nextNodeSeq.toNat ∧ id = nodeIdOf i) ∨
    ∃ i, i ≤ g.nextEdgeSeq.toNat ∧ id = edgeIdOf i
  nodup : ids.Nodup

theorem sound_new : Sound [] .new where
  keyed := ⟨fun k n h => by simp [InMemoryGraphStore.new] at h,
    fun k e h => by simp [InMemoryGraphStore.new] at h⟩
  closed k e h := by simp [InMemoryGraphStore.new] at h
  nodes k h := by simp [InMemoryGraphStore.new] at h
  edges k h := by simp [InMemoryGraphStore.new] at h
  issued id h := by simp at h
  nodup := .nil

theorem Sound.perm {ids ids' : List String} {g : InMemoryGraphStore} (h : Sound ids g)
    (hp : ids.Perm ids') : Sound ids' g where
  keyed := h.keyed
  closed := h.closed
  nodes k hk := hp.mem_iff.mp (h.nodes k hk)
  edges k hk := hp.mem_iff.mp (h.edges k hk)
  issued id hid := h.issued id (hp.mem_iff.mpr hid)
  nodup := hp.nodup_iff.mp h.nodup

/-- A change that adds no node or edge, moves no edge and takes away no end of an edge. -/
theorem Sound.keep {ids : List String} {g g' : InMemoryGraphStore} (h : Sound ids g)
    (hk : g'.Keyed) (hn : ∀ k ∈ g'.nodes, k ∈ g.nodes)
    (he : ∀ (k : String) (e' : GraphEdge), g'.edges[k]? = some e' →
      ∃ e, g.edges[k]? = some e ∧ e'.src = e.src ∧ e'.dst = e.dst ∧
        (e.src ∈ g.nodes → e.src ∈ g'.nodes) ∧ (e.dst ∈ g.nodes → e.dst ∈ g'.nodes))
    (hns : g'.nextNodeSeq = g.nextNodeSeq) (hes : g'.nextEdgeSeq = g.nextEdgeSeq) :
    Sound ids g' where
  keyed := hk
  closed k e' hke := by
    obtain ⟨e, hge, hs, hd, hsrc, hdst⟩ := he k e' hke
    obtain ⟨h₁, h₂⟩ := h.closed k e hge
    exact ⟨hs ▸ hsrc h₁, hd ▸ hdst h₂⟩
  nodes k hk := h.nodes k (hn k hk)
  edges k hk := by
    obtain ⟨e', hke⟩ := Map.mem_iff.mp hk
    obtain ⟨e, hge, -⟩ := he k e' hke
    exact h.edges k (Map.mem_iff.mpr ⟨e, hge⟩)
  issued := by rw [hns, hes]; exact h.issued
  nodup := h.nodup

theorem Sound.nodeId_fresh {ids : List String} {g : InMemoryGraphStore} (h : Sound ids g) :
    nodeIdOf (g.nextNodeSeq.toNat + 1) ∉ ids := by
  intro hmem
  rcases h.issued _ hmem with ⟨i, hi, he⟩ | ⟨i, hi, he⟩
  · have := nodeIdOf_injective he
    omega
  · exact nodeIdOf_ne_edgeIdOf he

theorem Sound.edgeId_fresh {ids : List String} {g : InMemoryGraphStore} (h : Sound ids g) :
    edgeIdOf (g.nextEdgeSeq.toNat + 1) ∉ ids := by
  intro hmem
  rcases h.issued _ hmem with ⟨i, hi, he⟩ | ⟨i, hi, he⟩
  · exact nodeIdOf_ne_edgeIdOf he.symm
  · have := edgeIdOf_injective he
    omega

theorem nodup_snoc {ids : List String} {id : String} (h : ids.Nodup) (hid : id ∉ ids) :
    (ids ++ [id]).Nodup := by
  rw [List.nodup_append_comm]
  exact List.nodup_cons.mpr ⟨hid, h⟩

theorem Sound.createNode {ids : List String} {g g' : InMemoryGraphStore} (h : Sound ids g)
    {labels : List String} {properties : Properties} {node : GraphNode}
    (hc : g.createNode labels properties = some (g', node)) : Sound (ids ++ [node.id]) g' := by
  obtain ⟨hid, hns, hes, hnodes, hedges⟩ := createNode_eq hc
  refine ⟨h.keyed.createNode hc, fun k e hk => ?_, fun k hk => ?_, ?_, fun x hmem => ?_, ?_⟩
  · rw [hedges] at hk
    rw [hnodes, Std.ExtTreeMap.mem_insert, Std.ExtTreeMap.mem_insert]
    exact (h.closed k e hk).imp .inr .inr
  · rw [hnodes, Std.ExtTreeMap.mem_insert] at hk
    rw [List.mem_append, List.mem_singleton]
    rcases hk with hk | hk
    · exact .inr (Std.LawfulEqOrd.eq_of_compare hk).symm
    · exact .inl (h.nodes k hk)
  · rw [hedges]
    exact fun k hk => List.mem_append_left _ (h.edges k hk)
  · rw [hns, hes]
    rcases List.mem_append.mp hmem with hmem | hmem
    · refine (h.issued x hmem).imp ?_ id
      rintro ⟨i, hi, rfl⟩
      exact ⟨i, by omega, rfl⟩
    · rw [List.mem_singleton] at hmem
      exact .inl ⟨_, le_rfl, hmem.trans hid⟩
  · exact nodup_snoc h.nodup (hid ▸ h.nodeId_fresh)

theorem Sound.createEdge {ids : List String} {g g' : InMemoryGraphStore} (h : Sound ids g)
    {src dst edgeType : String} {properties : Properties} {edge : GraphEdge}
    (hc : g.createEdge src dst edgeType properties = some (g', some edge)) :
    Sound (ids ++ [edge.id]) g' := by
  obtain ⟨hid, hsrc, hdst, hes, hns, hedges, hnodes⟩ := createEdge_eq hc
  have hget {k : String} {e : GraphEdge} (hk : g'.edges[k]? = some e) :
      (k = edge.id ∧ e = edge) ∨ g.edges[k]? = some e := by
    rw [hedges] at hk
    by_cases hne : edge.id = k
    · subst hne
      rw [Map.getElem?_insert_self] at hk
      exact .inl ⟨rfl, (Option.some.inj hk).symm⟩
    · rw [Map.getElem?_insert_ne _ hne] at hk
      exact .inr hk
  refine ⟨h.keyed.createEdge hc, fun k e hk => ?_, ?_, fun k hk => ?_, fun x hmem => ?_, ?_⟩
  · rw [hnodes]
    rcases hget hk with ⟨rfl, rfl⟩ | hk
    · exact ⟨hsrc, hdst⟩
    · exact h.closed k e hk
  · rw [hnodes]
    exact fun k hk => List.mem_append_left _ (h.nodes k hk)
  · obtain ⟨e, hk⟩ := Map.mem_iff.mp hk
    rcases hget hk with ⟨rfl, rfl⟩ | hk
    · simp
    · exact List.mem_append_left _ (h.edges k (Map.mem_iff.mpr ⟨e, hk⟩))
  · rw [hns, hes]
    rcases List.mem_append.mp hmem with hmem | hmem
    · refine (h.issued x hmem).imp id ?_
      rintro ⟨i, hi, rfl⟩
      exact ⟨i, by omega, rfl⟩
    · rw [List.mem_singleton] at hmem
      exact .inr ⟨_, le_rfl, hmem.trans hid⟩
  · exact nodup_snoc h.nodup (hid ▸ h.edgeId_fresh)

theorem Sound.getNodeMut {ids : List String} {g g' : InMemoryGraphStore} (h : Sound ids g)
    {nodeId : String} {f : GraphNode → GraphNode} (hf : ∀ node, (f node).id = node.id)
    (hm : g.getNodeMut nodeId f = some g') : Sound ids g' := by
  have hkeyed := h.keyed.getNodeMut hf hm
  obtain ⟨node, hn, rfl⟩ := getNodeMut_eq hm
  refine h.keep hkeyed (fun k hk => ?_) (fun k e hk => ⟨e, hk, rfl, rfl, ?_, ?_⟩) rfl rfl
  · rcases Std.ExtTreeMap.mem_insert.mp hk with hk | hk
    · rw [← Std.LawfulEqOrd.eq_of_compare hk]
      exact Map.mem_iff.mpr ⟨node, hn⟩
    · exact hk
  · exact fun hs => Std.ExtTreeMap.mem_insert.mpr (.inr hs)
  · exact fun hd => Std.ExtTreeMap.mem_insert.mpr (.inr hd)

theorem Sound.updateEdge {ids : List String} {g g' : InMemoryGraphStore} (h : Sound ids g)
    {edgeId edgeType : String} {properties : Properties}
    (hu : g.updateEdge edgeId edgeType properties = some g') : Sound ids g' := by
  have hkeyed := h.keyed.updateEdge hu
  obtain ⟨edge, he, rfl⟩ := updateEdge_eq hu
  refine h.keep hkeyed (fun k hk => hk) (fun k e' hk => ?_) rfl rfl
  by_cases hne : edgeId = k
  · subst hne
    rw [Map.getElem?_insert_self] at hk
    cases hk
    exact ⟨edge, he, rfl, rfl, id, id⟩
  · rw [Map.getElem?_insert_ne _ hne] at hk
    exact ⟨e', hk, rfl, rfl, id, id⟩

theorem Sound.renameLabel {ids : List String} {g : InMemoryGraphStore} (h : Sound ids g)
    (old new : String) : Sound ids (g.renameLabel old new).1 := by
  have hmem {k : String} : k ∈ (g.renameLabel old new).1.nodes ↔ k ∈ g.nodes :=
    Std.ExtTreeMap.mem_map
  exact h.keep (h.keyed.renameLabel old new) (fun k hk => hmem.mp hk)
    (fun k e hk => ⟨e, hk, rfl, rfl, hmem.mpr, hmem.mpr⟩) rfl rfl

theorem Sound.deleteNode {ids : List String} {g : InMemoryGraphStore} (h : Sound ids g)
    {order : HashOrder} {nodeId : String} (ht : edgesTouchingNode order g nodeId = []) :
    Sound ids (g.deleteNode nodeId) := by
  refine h.keep (h.keyed.deleteNode nodeId) (fun k hk => Std.ExtTreeMap.mem_of_mem_erase hk)
    (fun k e hk => ?_) rfl rfl
  have hfree : ¬ (e.src = nodeId ∨ e.dst = nodeId) := fun hor => by
    have := (@mem_edgesTouchingNode _ h.keyed order _ _).mpr ⟨e, hk, hor⟩
    simp [ht] at this
  exact ⟨e, hk, rfl, rfl, fun hs => mem_erase_ne (not_or.mp hfree).1 hs,
    fun hd => mem_erase_ne (not_or.mp hfree).2 hd⟩

theorem Sound.deleteNodeDetach {ids : List String} {g : InMemoryGraphStore} (h : Sound ids g)
    (order : HashOrder) (nodeId : String) : Sound ids (deleteNodeDetach order g nodeId) := by
  refine h.keep (h.keyed.deleteNodeDetach order nodeId)
    (fun k hk => Std.ExtTreeMap.mem_of_mem_erase hk) (fun k e hk => ?_) rfl rfl
  obtain ⟨hge, hs, hd⟩ := getElem?_deleteNodeDetach h.keyed hk
  exact ⟨e, hge, rfl, rfl, fun h => mem_erase_ne hs h, fun h => mem_erase_ne hd h⟩

theorem Sound.deleteEdge {ids : List String} {g : InMemoryGraphStore} (h : Sound ids g)
    (edgeId : String) : Sound ids (g.deleteEdge edgeId) :=
  h.keep (h.keyed.deleteEdge edgeId) (fun _ hk => hk)
    (fun _ e hk => ⟨e, (getElem?_of_erase hk).2, rfl, rfl, id, id⟩) rfl rfl

theorem Mutation.sound {ids new : List String} {g g' : InMemoryGraphStore} (h : Sound ids g)
    (hm : Mutation g new g') : Sound (ids ++ new) g' := by
  cases hm with
  | createNode hc => exact h.createNode hc
  | createEdge hc => exact h.createEdge hc
  | getNodeMut hf hg => exact (List.append_nil ids).symm ▸ h.getNodeMut hf hg
  | renameLabel old new => exact (List.append_nil ids).symm ▸ h.renameLabel old new
  | deleteNode order ht => exact (List.append_nil ids).symm ▸ h.deleteNode ht
  | deleteNodeDetach order nodeId => exact (List.append_nil ids).symm ▸ h.deleteNodeDetach order nodeId
  | updateEdge hu => exact (List.append_nil ids).symm ▸ h.updateEdge hu
  | deleteEdge edgeId => exact (List.append_nil ids).symm ▸ h.deleteEdge edgeId

theorem Changes.sound {ids new : List String} {g g' : InMemoryGraphStore} (h : Sound ids g)
    (hc : Changes g new g') : Sound (ids ++ new) g' := by
  induction hc with
  | refl => rwa [List.append_nil]
  | tail _ hm ih =>
    rw [← List.append_assoc]
    exact Mutation.sound ih hm

end Integrity

end AiraGraphdb.Library
