import AiraGraphdb.Library.Query.Nesting

/-! # What queries do to a graph

Every clause touches the graph by one operation of the store, and a query by a sequence of them
(`executeQueryWithDialect_changes`): it creates nodes, changes a stored node but not its id, renames
labels, and deletes a node that no edge touches or together with the edges that do. The operations
on edges are not reached from a query, and are listed here for the sessions that call them. -/

namespace AiraGraphdb.Library

open Schemes InMemoryGraphStore

/-- One change of a graph, with the ids that it issues. -/
inductive Mutation : InMemoryGraphStore → List String → InMemoryGraphStore → Prop
  | createNode {g g' : InMemoryGraphStore} {labels : List String} {properties : Properties}
      {node : GraphNode} : g.createNode labels properties = some (g', node) →
      Mutation g [node.id] g'
  | getNodeMut {g g' : InMemoryGraphStore} {nodeId : String} {f : GraphNode → GraphNode} :
      (∀ node, (f node).id = node.id) → g.getNodeMut nodeId f = some g' → Mutation g [] g'
  | renameLabel (g : InMemoryGraphStore) (old new : String) :
      Mutation g [] (g.renameLabel old new).1
  | deleteNode {g : InMemoryGraphStore} (order : HashOrder) {nodeId : String} :
      edgesTouchingNode order g nodeId = [] → Mutation g [] (g.deleteNode nodeId)
  | deleteNodeDetach (g : InMemoryGraphStore) (order : HashOrder) (nodeId : String) :
      Mutation g [] (deleteNodeDetach order g nodeId)
  | createEdge {g g' : InMemoryGraphStore} {src dst edgeType : String} {properties : Properties}
      {edge : GraphEdge} : g.createEdge src dst edgeType properties = some (g', some edge) →
      Mutation g [edge.id] g'
  | updateEdge {g g' : InMemoryGraphStore} {edgeId edgeType : String} {properties : Properties} :
      g.updateEdge edgeId edgeType properties = some g' → Mutation g [] g'
  | deleteEdge (g : InMemoryGraphStore) (edgeId : String) : Mutation g [] (g.deleteEdge edgeId)

/-- A sequence of changes, with all the ids that it issues. -/
inductive Changes (g : InMemoryGraphStore) : List String → InMemoryGraphStore → Prop
  | refl : Changes g [] g
  | tail {ids new : List String} {g' g'' : InMemoryGraphStore} :
      Changes g ids g' → Mutation g' new g'' → Changes g (ids ++ new) g''

theorem Changes.single {g g' : InMemoryGraphStore} {ids : List String} (h : Mutation g ids g') :
    Changes g ids g' := .tail .refl h

theorem Changes.trans {g g' g'' : InMemoryGraphStore} {ids new : List String}
    (h : Changes g ids g') (h' : Changes g' new g'') : Changes g (ids ++ new) g'' := by
  induction h' with
  | refl => simpa using h
  | tail _ hm ih => rw [← List.append_assoc]; exact ih.tail hm

theorem Mutation.keyed {g g' : InMemoryGraphStore} {ids : List String} (hm : Mutation g ids g')
    (h : g.Keyed) : g'.Keyed := by
  cases hm with
  | createNode hc => exact h.createNode hc
  | getNodeMut hf hg => exact h.getNodeMut hf hg
  | renameLabel old new => exact h.renameLabel old new
  | deleteNode order ht => exact h.deleteNode _
  | deleteNodeDetach order nodeId => exact h.deleteNodeDetach order nodeId
  | createEdge hc => exact h.createEdge hc
  | updateEdge hu => exact h.updateEdge hu
  | deleteEdge edgeId => exact h.deleteEdge edgeId

theorem Changes.keyed {g g' : InMemoryGraphStore} {ids : List String} (hc : Changes g ids g')
    (h : g.Keyed) : g'.Keyed := by
  induction hc with
  | refl => exact h
  | tail _ hm ih => exact hm.keyed ih

namespace Query

open Library.Connections (CypherDialect)

/-- The graph of a step comes from the one before it. -/
def Follows (g : InMemoryGraphStore) (st : Step) : Prop := ∃ ids, Changes g ids st.1

theorem Follows.same (g : InMemoryGraphStore) (r : Except Failure QueryResult) :
    Follows g (g, r) := ⟨[], .refl⟩

theorem Follows.one {g g' : InMemoryGraphStore} {ids : List String} (h : Mutation g ids g')
    (r : Except Failure QueryResult) : Follows g (g', r) := ⟨ids, .single h⟩

theorem Follows.after {g g' : InMemoryGraphStore} {ids : List String} {st : Step}
    (h : Changes g ids g') (h' : Follows g' st) : Follows g st := by
  obtain ⟨new, h'⟩ := h'
  exact ⟨ids ++ new, h.trans h'⟩

theorem parsed_follows {α : Type} {g : InMemoryGraphStore} {p : Except Failure α} {k : α → Step}
    (h : ∀ a, p = .ok a → Follows g (k a)) : Follows g (parsed g p k) := by
  rcases hp : p with e | a
  · exact .same g _
  · exact h a hp

/-! ### The writing clauses -/

theorem created_follows {g : InMemoryGraphStore} {labels : List String} {props : Properties}
    {k : InMemoryGraphStore → GraphNode → Step} (h : ∀ g' node, Follows g' (k g' node)) :
    Follows g (created g labels props k) := by
  rw [created]
  split
  · rename_i g' node hc
    exact (h g' node).after (.single (.createNode hc))
  · exact .same g _

theorem executeCreate_follows (g : InMemoryGraphStore) (query : Text) :
    Follows g (executeCreate g query) := by
  rw [executeCreate]
  split
  · exact .same g _
  · exact parsed_follows fun _ _ => created_follows fun g' _ => .same g' _

theorem setProperty_follows (g : InMemoryGraphStore) (nodeId key : String) (value : Value)
    (missing : String) : Follows g (setProperty g nodeId key value missing) := by
  rw [setProperty]
  split
  · rename_i g' hs
    exact .one (.getNodeMut (by exact fun _ => rfl) hs) _
  · exact .same g _

theorem mergeSet_follows (g : InMemoryGraphStore) (tail : Text) (marker nodeId missing : String) :
    Follows g (mergeSet g tail marker nodeId missing) := by
  refine parsed_follows fun set _ => ?_
  rcases set with _ | ⟨key, value⟩
  · exact .same g _
  · exact setProperty_follows g nodeId key value missing

theorem executeMerge_follows (order : HashOrder) (g : InMemoryGraphStore) (query : Text) :
    Follows g (executeMerge order g query) := by
  rw [executeMerge]
  split
  · exact .same g _
  refine parsed_follows fun ⟨patternPart, tail⟩ _ => parsed_follows fun ⟨label, props⟩ _ => ?_
  dsimp only
  split
  · exact mergeSet_follows g tail _ _ _
  · exact created_follows fun g' node => mergeSet_follows g' tail _ _ _

theorem executeSet_follows (g : InMemoryGraphStore) (query : Text) :
    Follows g (executeSet g query) := by
  unfold executeSet
  dsimp only
  split
  · exact .same g _
  · exact parsed_follows fun ⟨nodeId, key, value⟩ _ => setProperty_follows g nodeId key value _

theorem executeRemove_follows (g : InMemoryGraphStore) (query : Text) :
    Follows g (executeRemove g query) := by
  unfold executeRemove
  dsimp only
  split
  · exact .same g _
  refine parsed_follows fun ⟨nodeId, key⟩ _ => ?_
  dsimp only
  split
  · rename_i g' hs
    exact .one (.getNodeMut (by exact fun _ => rfl) hs) _
  · exact .same g _

theorem executeDelete_follows (order : HashOrder) (g : InMemoryGraphStore) (query : Text) :
    Follows g (executeDelete order g query) := by
  unfold executeDelete
  split
  · split
    · exact .same g _
    dsimp only
    split
    · exact .same g _
    split
    · exact .same g _
    rename_i htouch
    split
    · exact .one (.deleteNodeDetach g order _) _
    · rename_i hdetach
      refine .one (.deleteNode order ?_) _
      simpa only [hdetach, Bool.not_false, Bool.and_true, Bool.not_eq_true', Bool.not_eq_false,
        List.isEmpty_iff] using htouch
  · exact .same g _

theorem executeCall_follows (std : FloatStd) (g : InMemoryGraphStore) (query : Text) :
    Follows g (executeCall std g query) := by
  refine parsed_follows fun ⟨name, argsRaw⟩ _ => ?_
  dsimp only
  split
  · exact .same g _
  split
  · exact .same g _
  · exact .same g _
  · exact .same g _
  · exact parsed_follows fun ⟨old, new⟩ _ => .one (.renameLabel g old new) _
  · exact .same g _

/-! ### Queries in queries -/

section Nested

variable {run : InMemoryGraphStore → Text → Step}

theorem executeUnionBranches_follows (mode : UnionMode) : ∀ {branches : List Text},
    (∀ b ∈ branches, ∀ g, Follows g (run g b)) →
    ∀ rows g, Follows g (executeUnionBranches run mode branches rows g)
  | [], _, _, g => .same g _
  | b :: bs, h, rows, g => by
    have hb := h b (by simp) g
    rw [executeUnionBranches]
    rcases hr : run g b with ⟨g', e | result⟩ <;> rw [hr] at hb
    · exact hb
    · dsimp only
      split
      · exact hb
      · obtain ⟨ids, hc⟩ := hb
        exact (executeUnionBranches_follows mode (fun b hb => h b (by simp [hb])) _ g').after hc

theorem executeCallSubquery_follows {g : InMemoryGraphStore} {q : Text}
    (h : ∀ s : Text, s.length < q.length → ∀ g, Follows g (run g s)) :
    Follows g (executeCallSubquery run g q) := by
  refine parsed_follows fun ⟨inner, projection⟩ hp => ?_
  have hi := h inner (parseCallSubquery_length hp) g
  dsimp only
  rcases hr : run g inner with ⟨g', e | result⟩ <;> rw [hr] at hi <;> exact hi

end Nested

section Engine

variable (std : FloatStd) (order : HashOrder)

theorem executeClause_follows (run : InMemoryGraphStore → Text → Step) (g : InMemoryGraphStore)
    (q : Text) : Follows g (executeClause std order run g q) := by
  unfold executeClause
  repeat' split
  · exact .same g _
  · exact .same g _
  · exact .same g _
  · exact .same g _
  · exact .same g _
  · exact .same g _
  · exact executeCreate_follows g q
  · exact executeMerge_follows order g q
  · exact executeDelete_follows order g q
  · exact executeSet_follows g q
  · exact executeRemove_follows g q
  · exact executeCall_follows std g q
  · exact .same g _

theorem executeTrimmed_follows {run : InMemoryGraphStore → Text → Step} {q : Text}
    (h : ∀ s : Text, s.length < q.length → ∀ g, Follows g (run g s)) (g : InMemoryGraphStore)
    (dialect : CypherDialect) : Follows g (executeTrimmed std order run g q dialect) := by
  rw [executeTrimmed]
  split
  · exact .same g _
  refine parsed_follows fun split hu => ?_
  rcases split with _ | ⟨branches, mode⟩
  · dsimp only
    split
    · exact .same g _
    split
    · exact executeCallSubquery_follows h
    · exact parsed_follows fun q' _ => executeClause_follows std order run g q'
  · exact executeUnionBranches_follows mode
      (fun b hb => h b (splitTopLevelUnion_length hu b hb)) _ g

/-- A query, successful or not, leaves a graph that a sequence of changes leads to. -/
theorem executeQueryWithDialect_changes (g : InMemoryGraphStore) (query : Text)
    (dialect : CypherDialect) :
    ∃ ids, Changes g ids (executeQueryWithDialect std order g query dialect).1 :=
  executeQueryWithDialect_induct std order (P := fun g _ st => Follows g st)
    (fun _ ih g => executeTrimmed_follows std order ih g dialect) g query

end Engine

end Query

end AiraGraphdb.Library
