import AiraGraphdb.Library.Runs

/-! # Queries and the order of hash maps

A listing is sorted, so a query answers the same for every order in which the hash maps hand out
their entries. One clause takes what comes first: a `MERGE` that finds a node changes the first
match. `reachedMerge` is the merge that a query comes to, with the graph it finds there, and
`executeQueryWithDialect_order_iff` says that the order shows exactly when that merge changes one
of several nodes. -/

namespace AiraGraphdb.Library

open Schemes InMemoryGraphStore

/-- The order of the keys, but for one node that comes first. -/
theorem perm_first {α : Type} (m : Map α) (k : String) :
    ((m[k]?).toList ++ (m.erase k).toList.map Prod.snd).Perm (m.toList.map Prod.snd) := by
  rcases hk : m[k]? with _ | v
  · rw [Map.erase_of_getElem?_eq_none hk]
    rfl
  have hnodup (m : Map α) : m.toList.Nodup := by
    refine (Std.ExtTreeMap.ordered_keys_toList (t := m)).imp ?_
    rintro a b hab rfl
    exact absurd (compare_lt_iff_lt.mp hab) (lt_irrefl _)
  have hp : ((k, v) :: (m.erase k).toList).Perm m.toList := by
    rw [List.perm_ext_iff_of_nodup ?_ (hnodup m)]
    · rintro ⟨k', v'⟩
      rw [List.mem_cons, Map.mem_toList, Map.mem_toList]
      by_cases hne : k = k'
      · subst hne
        simp [hk, eq_comm]
      · rw [Map.getElem?_erase_ne _ hne]
        simp [Ne.symm hne]
    · rw [List.nodup_cons, Map.mem_toList, Map.getElem?_erase_self]
      exact ⟨by simp, hnodup _⟩
  exact hp.map Prod.snd

theorem perm_values {α : Type} (m : Map α) :
    (m.toList.map Prod.snd).Perm (m.toList.map Prod.snd) := .rfl

def HashOrder.first (k : String) : HashOrder :=
  ⟨fun m => (m[k]?).toList ++ (m.erase k).toList.map Prod.snd, fun m => m.toList.map Prod.snd,
    fun m => perm_first m k, perm_values⟩

namespace Query

open Library.Connections (CypherDialect)

/-! ### Clauses that read -/

section Reading

variable {g : InMemoryGraphStore} (hk : g.Keyed) (o o' : HashOrder)

include hk

theorem executeMatch_order (q : Text) : executeMatch o g q = executeMatch o' g q := by
  unfold executeMatch
  rw [listNodes_keyed hk, listNodes_keyed hk]

theorem executeOptionalMatch_order (q : Text) :
    executeOptionalMatch o g q = executeOptionalMatch o' g q :=
  executeMatch_order hk o o' _

theorem executeMatchRelationship_order (q : Text) (optional : Bool) :
    executeMatchRelationship o g q optional = executeMatchRelationship o' g q optional := by
  unfold executeMatchRelationship buildRelationshipRows relationshipEdges
  rw [listNodes_keyed hk, listNodes_keyed hk, listEdges_keyed hk, listEdges_keyed hk]

theorem executeDelete_order (q : Text) : executeDelete o g q = executeDelete o' g q := by
  have htouch (nodeId : String) : (edgesTouchingNode o g nodeId).isEmpty =
      (edgesTouchingNode o' g nodeId).isEmpty := by
    rw [Bool.eq_iff_iff, List.isEmpty_iff, List.isEmpty_iff, List.eq_nil_iff_forall_not_mem,
      List.eq_nil_iff_forall_not_mem]
    simp only [mem_edgesTouchingNode hk]
  have hdetach (nodeId : String) : deleteNodeDetach o g nodeId = deleteNodeDetach o' g nodeId := by
    have he : (deleteNodeDetach o g nodeId).edges = (deleteNodeDetach o' g nodeId).edges :=
      Std.ExtTreeMap.ext_getElem? fun k => by
        rw [deleteNodeDetach_edges hk, deleteNodeDetach_edges hk]
    exact congrArg (fun edges => (⟨g.nodes.erase nodeId, edges, g.nextNodeSeq, g.nextEdgeSeq⟩ :
      InMemoryGraphStore)) he
  unfold executeDelete
  simp only [htouch, hdetach]

end Reading

/-! ### The merge -/

/-- The nodes that a merge may find. -/
def Matching (g : InMemoryGraphStore) (label : String) (props : Properties) (k : String)
    (n : GraphNode) : Prop := g.nodes[k]? = some n ∧ matchesNode (some label) props n = true

/-- A merge that does not choose: it changes nothing that it finds, it finds one node at most, or
    every node that it could find is already as it would be set. -/
def Settled (g : InMemoryGraphStore) (q : Text) : Prop :=
  ∀ (pattern tail : Text) (label : String) (props : Properties) (key : String) (value : Value),
    startsWith q "MERGE (" = true →
    splitPatternAndTail q "MERGE " = .ok (pattern, tail) →
    parseCreateOrMergePayload pattern "MERGE " = .ok (label, props) →
    parseMergeSetClause tail "ON MATCH SET" = .ok (some (key, value)) →
    (∀ k n k' n', Matching g label props k n → Matching g label props k' n' → k = k') ∨
    ∀ k n, Matching g label props k n → n.properties[key]? = some value

section Merge

variable {g : InMemoryGraphStore} (hk : g.Keyed)

/-- A merge whose text is refused, and one that looks for a node. -/
theorem executeMerge_cases (g : InMemoryGraphStore) (q : Text) :
    (∃ e, ∀ o, executeMerge o g q = (g, .error e)) ∨
    ∃ pattern tail label props, startsWith q "MERGE (" = true ∧
      splitPatternAndTail q "MERGE " = .ok (pattern, tail) ∧
      parseCreateOrMergePayload pattern "MERGE " = .ok (label, props) ∧
      ∀ o, executeMerge o g q = match findNodeByLabelAndProps o g (some label) props with
        | some existing => mergeSet g tail "ON MATCH SET" existing.id "MERGE target missing"
        | none => created g [label] props fun g' node =>
          mergeSet g' tail "ON CREATE SET" node.id "MERGE create target missing" := by
  unfold executeMerge
  rcases hstart : startsWith q "MERGE (" with _ | _
  · exact .inl ⟨_, fun _ => rfl⟩
  rcases hp : splitPatternAndTail q "MERGE " with e | ⟨pattern, tail⟩
  · exact .inl ⟨_, fun _ => rfl⟩
  rcases hq : parseCreateOrMergePayload pattern "MERGE " with e | ⟨label, props⟩
  · exact .inl ⟨e, fun _ => by simp only [parsed, hq]; rfl⟩
  · exact .inr ⟨pattern, tail, label, props, rfl, rfl, hq, fun _ => by simp only [parsed, hq]; rfl⟩

theorem find_matching {o : HashOrder} {label : String} {props : Properties} {n : GraphNode}
    (h : findNodeByLabelAndProps o g (some label) props = some n) :
    ∃ k, Matching g label props k n := by
  have hmem := (o.nodes_perm g.nodes).mem_iff.mp (List.mem_of_find?_eq_some h)
  obtain ⟨⟨k, n⟩, hm, rfl⟩ := List.mem_map.mp hmem
  exact ⟨k, Map.mem_toList.mp hm, by simpa using List.find?_some h⟩

theorem find_none_iff {o : HashOrder} {label : String} {props : Properties} :
    findNodeByLabelAndProps o g (some label) props = none ↔
      ∀ k n, ¬ Matching g label props k n := by
  rw [findNodeByLabelAndProps, List.find?_eq_none]
  simp only [(o.nodes_perm g.nodes).mem_iff]
  constructor
  · rintro h k n ⟨hn, hm⟩
    exact h n (List.mem_map.mpr ⟨(k, n), Map.mem_toList.mpr hn, rfl⟩) hm
  · intro h n hmem hm
    obtain ⟨⟨k, n⟩, hn, rfl⟩ := List.mem_map.mp hmem
    exact h k n ⟨Map.mem_toList.mp hn, hm⟩

theorem find_first {label : String} {props : Properties} {k : String} {n : GraphNode}
    (h : Matching g label props k n) :
    findNodeByLabelAndProps (.first k) g (some label) props = some n := by
  show ((g.nodes[k]?).toList ++ _).find? (matchesNode (some label) props) = some n
  rw [h.1]
  exact List.find?_cons_of_pos h.2

/-- The graph with one property of a stored node set. -/
def withProperty (g : InMemoryGraphStore) (n : GraphNode) (key : String) (value : Value) :
    InMemoryGraphStore :=
  { g with nodes := g.nodes.insert n.id { n with properties := n.properties.insert key value } }

include hk

theorem setProperty_found {k : String} {n : GraphNode} (hn : g.nodes[k]? = some n) (key : String)
    (value : Value) (missing : String) :
    setProperty g n.id key value missing = (withProperty g n key value, .ok .ack) := by
  rw [← hk.nodes k n hn] at hn
  simp only [setProperty, getNodeMut, hn, Option.map_some]
  rfl

/-- What a merge does with a node that it has found. -/
theorem mergeSet_found {k : String} {n : GraphNode} (hn : g.nodes[k]? = some n) (tail : Text)
    (marker missing : String) : mergeSet g tail marker n.id missing =
      match parseMergeSetClause tail marker with
      | .error e => (g, .error e)
      | .ok none => (g, .ok .ack)
      | .ok (some (key, value)) => (withProperty g n key value, .ok .ack) := by
  unfold mergeSet
  rcases parseMergeSetClause tail marker with e | _ | ⟨key, value⟩
  · rfl
  · rfl
  · exact setProperty_found hk hn key value missing

omit hk in
/-- Two orders find no node both, or each one that matches. -/
theorem find_cases (o o' : HashOrder) (label : String) (props : Properties) :
    (findNodeByLabelAndProps o g (some label) props = none ∧
      findNodeByLabelAndProps o' g (some label) props = none) ∨
    ∃ k n k' n', Matching g label props k n ∧ Matching g label props k' n' ∧
      findNodeByLabelAndProps o g (some label) props = some n ∧
      findNodeByLabelAndProps o' g (some label) props = some n' := by
  rcases hf : findNodeByLabelAndProps o g (some label) props with _ | n
  · exact .inl ⟨rfl, find_none_iff.mpr (find_none_iff.mp hf)⟩
  obtain ⟨k, hn⟩ := find_matching hf
  rcases hf' : findNodeByLabelAndProps o' g (some label) props with _ | n'
  · exact absurd hn (find_none_iff.mp hf' k n)
  obtain ⟨k', hn'⟩ := find_matching hf'
  exact .inr ⟨k, n, k', n', hn, hn', rfl, rfl⟩

/-- Every merge that finds a node answers the same, whichever node it finds. -/
theorem executeMerge_result (o o' : HashOrder) (q : Text) :
    (executeMerge o g q).2 = (executeMerge o' g q).2 := by
  rcases executeMerge_cases g q with ⟨e, he⟩ | ⟨pattern, tail, label, props, -, -, -, he⟩
  · rw [he, he]
  rw [he, he]
  rcases find_cases o o' label props with ⟨hf, hf'⟩ | ⟨k, n, k', n', hn, hn', hf, hf'⟩
  · rw [hf, hf']
  · rw [hf, hf']
    simp only [mergeSet_found hk hn.1, mergeSet_found hk hn'.1]
    rcases parseMergeSetClause tail "ON MATCH SET" with e | _ | ⟨key, value⟩ <;> rfl

omit hk in
theorem setProperty_ack {nodeId key : String} {value : Value} {missing : String} {r : QueryResult}
    (h : (setProperty g nodeId key value missing).2 = .ok r) : r = .ack := by
  rw [setProperty] at h
  split at h <;> cases h
  rfl

omit hk in
theorem mergeSet_ack {tail : Text} {marker nodeId missing : String} {r : QueryResult}
    (h : (mergeSet g tail marker nodeId missing).2 = .ok r) : r = .ack := by
  unfold mergeSet parsed at h
  split at h
  · dsimp only at h
    split at h
    · exact setProperty_ack h
    · cases h
      rfl
  · cases h

omit hk in
/-- A merge has no rows. -/
theorem executeMerge_ack {o : HashOrder} {q : Text} {r : QueryResult}
    (h : (executeMerge o g q).2 = .ok r) : r = .ack := by
  rcases executeMerge_cases g q with ⟨e, he⟩ | ⟨pattern, tail, label, props, -, -, -, he⟩
  · rw [he] at h
    cases h
  rw [he] at h
  split at h
  · exact mergeSet_ack h
  · rw [created] at h
    split at h
    · exact mergeSet_ack h
    · cases h

/-- A node that already has the value stays as it is. -/
theorem withProperty_of_holds {k : String} {n : GraphNode} (hn : g.nodes[k]? = some n)
    {key : String} {value : Value} (hv : n.properties[key]? = some value) :
    withProperty g n key value = g := by
  have hid : g.nodes[n.id]? = some n := by rwa [hk.nodes k n hn]
  rw [withProperty, Map.insert_eq_self hv, Map.insert_eq_self hid]

theorem executeMerge_settled {q : Text} (hs : Settled g q) (o o' : HashOrder) :
    executeMerge o g q = executeMerge o' g q := by
  rcases executeMerge_cases g q with ⟨e, he⟩ | ⟨pattern, tail, label, props, hstart, hp, hq, he⟩
  · rw [he, he]
  rw [he, he]
  rcases find_cases o o' label props with ⟨hf, hf'⟩ | ⟨k, n, k', n', hn, hn', hf, hf'⟩
  · rw [hf, hf']
  rw [hf, hf']
  simp only [mergeSet_found hk hn.1, mergeSet_found hk hn'.1]
  rcases ht : parseMergeSetClause tail "ON MATCH SET" with e | _ | ⟨key, value⟩
  · rfl
  · rfl
  rcases hs pattern tail label props key value hstart hp hq ht with hone | hall
  · obtain rfl := hone k n k' n' hn hn'
    obtain rfl : n = n' := Option.some.inj (hn.1.symm.trans hn'.1)
    rfl
  · simp only [withProperty_of_holds hk hn.1 (hall k n hn),
      withProperty_of_holds hk hn'.1 (hall k' n' hn')]

/-- A merge that chooses leaves different graphs when different nodes come first. -/
theorem executeMerge_not_settled {q : Text} (hs : ¬ Settled g q) :
    ∃ o o' : HashOrder, (executeMerge o g q).1 ≠ (executeMerge o' g q).1 := by
  simp only [Settled, not_forall, not_or] at hs
  obtain ⟨pattern, tail, label, props, key, value, hstart, hp, hq, ht, hmany, hlack⟩ := hs
  obtain ⟨k, n, hn, hv⟩ := hlack
  -- another match, next to the one that lacks the value
  obtain ⟨k', n', hn', hne⟩ : ∃ k' n', Matching g label props k' n' ∧ k' ≠ k := by
    obtain ⟨k₁, n₁, k₂, n₂, h₁, h₂, hne⟩ := hmany
    by_cases hk₁ : k₁ = k
    · exact ⟨k₂, n₂, h₂, fun h => hne (hk₁.trans h.symm)⟩
    · exact ⟨k₁, n₁, h₁, hk₁⟩
  have hmerge {k : String} {n : GraphNode} (hn : Matching g label props k n) :
      (executeMerge (.first k) g q).1 = withProperty g n key value := by
    unfold executeMerge
    simp only [hstart, hp, hq, parsed, find_first hn, mergeSet_found hk hn.1, ht, Bool.not_true,
      Bool.false_eq_true, if_false]
  refine ⟨.first k, .first k', fun he => ?_⟩
  rw [hmerge hn, hmerge hn'] at he
  have hid := hk.nodes k n hn.1
  have hid' := hk.nodes k' n' hn'.1
  have hat := congrArg (fun g : InMemoryGraphStore => (g.nodes[k]?).bind (·.properties[key]?)) he
  simp only [withProperty, hid, hid', Map.getElem?_insert_self, Map.getElem?_insert_ne _ hne,
    hn.1, Option.bind_some] at hat
  exact hv hat.symm

end Merge

/-! ### The merge that a query comes to -/

section Reached

variable (std : FloatStd) (dialect : CypherDialect)

/-- The first merge that the branches come to; a branch without one leaves rows, or ends the
    union. -/
def unionMerge (reached : InMemoryGraphStore → Text → Option (InMemoryGraphStore × Text))
    (run : InMemoryGraphStore → Text → Step) :
    List Text → UnionRows → InMemoryGraphStore → Option (InMemoryGraphStore × Text)
  | [], _, _ => none
  | branch :: branches, rows, g =>
    match reached g branch with
    | some merge => some merge
    | none => match run g branch with
      | (_, .error _) => none
      | (g', .ok result) => match rows.extend result with
        | .error _ => none
        | .ok rows' => unionMerge reached run branches rows' g'

/-- The merge clause that a query comes to, and the graph it is run on. An existence test has none:
    its inner query runs on a copy. -/
def reachedMerge : ℕ → InMemoryGraphStore → Text → Option (InMemoryGraphStore × Text)
  | 0, _, _ => none
  | n + 1, g, query =>
    let q := trim query
    match if dialect = .neo4jCompat then rejectNeo4jCompatExtension q else none with
    | some _ => none
    | none => match splitTopLevelUnion q with
      | .error _ => none
      | .ok (some (branches, _)) =>
        unionMerge (reachedMerge n) (execute std .ascending dialect n) branches .none g
      | .ok none =>
        if startsWith q "RETURN " then none
        else if startsWith q "CALL \x7b" then
          match parseCallSubquery q with
          | .error _ => none
          | .ok (innerQuery, _) => reachedMerge n g innerQuery
        else match withoutWith q with
          | .error _ => none
          | .ok q' => if startsWith q' "MERGE " then some (g, q') else none

/-- The steps of one query under the order `o` and under another: the same, or both those of the
    merge that it comes to, with the same answer and no rows. -/
def Agrees (o : HashOrder) : Option (InMemoryGraphStore × Text) → Step → Step → Prop
  | none, st, st₀ => st = st₀
  | some (g, q), st, st₀ => g.Keyed ∧ st.1 = (executeMerge o g q).1 ∧ st.2 = st₀.2 ∧
      ∀ r, st.2 = .ok r → r = .ack

theorem Agrees.result {o : HashOrder} {merge : Option (InMemoryGraphStore × Text)} {st st₀ : Step}
    (h : Agrees o merge st st₀) : st.2 = st₀.2 := by
  rcases merge with _ | ⟨g, q⟩
  · rw [show st = st₀ from h]
  · exact h.2.2.1

theorem extend_ack (rows : UnionRows) :
    rows.extend .ack = .error (unionError "UNION does not support ACK branches") := by
  cases rows <;> rfl

variable {o : HashOrder} {run run₀ : InMemoryGraphStore → Text → Step}
  {reached : InMemoryGraphStore → Text → Option (InMemoryGraphStore × Text)}

theorem executeUnionBranches_agrees
    (hrun : ∀ g, g.Keyed → ∀ q, Agrees o (reached g q) (run g q) (run₀ g q))
    (hkeyed : ∀ g, g.Keyed → ∀ q, (run₀ g q).1.Keyed) (mode : UnionMode) :
    ∀ (branches : List Text) (rows : UnionRows) (g : InMemoryGraphStore), g.Keyed →
      Agrees o (unionMerge reached run₀ branches rows g)
        (executeUnionBranches run mode branches rows g)
        (executeUnionBranches run₀ mode branches rows g)
  | [], rows, g, _ => rfl
  | b :: bs, rows, g, hk => by
    have hb := hrun g hk b
    rw [unionMerge, executeUnionBranches, executeUnionBranches]
    rcases hm : reached g b with _ | ⟨g', m⟩ <;> rw [hm] at hb
    · rw [show run g b = run₀ g b from hb]
      have hkb := hkeyed g hk b
      rcases hr : run₀ g b with ⟨g₁, e | result⟩ <;> rw [hr] at hkb
      · rfl
      · dsimp only
        rcases hx : rows.extend result with e | rows'
        · rfl
        · exact executeUnionBranches_agrees hrun hkeyed mode bs rows' g₁ hkb
    · -- a merge leaves no rows, so the union ends with an error
      obtain ⟨hkm, hg, hres, hack⟩ := hb
      rcases hr : run g b with ⟨g₁, e | result⟩ <;> rcases hr₀ : run₀ g b with ⟨g₂, e₀ | result₀⟩ <;>
        rw [hr] at hg hack <;> rw [hr, hr₀] at hres <;> cases hres
      · exact ⟨hkm, hg, rfl, fun r h => by cases h⟩
      · obtain rfl := hack result rfl
        simp only [extend_ack]
        exact ⟨hkm, hg, rfl, fun r h => by cases h⟩

theorem projectSubquery_ack {projection : Text} {r : QueryResult}
    (h : projectSubquery projection .ack = .ok r) : r = .ack := by
  rw [projectSubquery] at h
  split at h
  · cases h
  split at h
  · cases h
    rfl
  · cases h

theorem executeCallSubquery_agrees
    (hrun : ∀ g, g.Keyed → ∀ q, Agrees o (reached g q) (run g q) (run₀ g q))
    {g : InMemoryGraphStore} (hk : g.Keyed) (q : Text) :
    Agrees o (match parseCallSubquery q with
      | .error _ => none
      | .ok (innerQuery, _) => reached g innerQuery)
      (executeCallSubquery run g q) (executeCallSubquery run₀ g q) := by
  unfold executeCallSubquery
  rcases parseCallSubquery q with e | ⟨inner, projection⟩
  · rfl
  have hi := hrun g hk inner
  dsimp only [parsed]
  rcases hm : reached g inner with _ | ⟨g', m⟩ <;> rw [hm] at hi
  · rw [show run g inner = run₀ g inner from hi]
    rfl
  · obtain ⟨hkm, hg, hres, hack⟩ := hi
    rcases hr : run g inner with ⟨g₁, e | result⟩ <;>
      rcases hr₀ : run₀ g inner with ⟨g₂, e₀ | result₀⟩ <;>
      rw [hr] at hg hack <;> rw [hr, hr₀] at hres <;> cases hres
    · exact ⟨hkm, hg, rfl, fun r h => by cases h⟩
    · obtain rfl := hack result rfl
      exact ⟨hkm, hg, rfl, fun r h => projectSubquery_ack h⟩

theorem executeExistsSubqueryMatch_order
    (hrun : ∀ g, g.Keyed → ∀ q, Agrees o (reached g q) (run g q) (run₀ g q))
    {g : InMemoryGraphStore} (hk : g.Keyed) (o' : HashOrder) (q : Text) :
    executeExistsSubqueryMatch run o g q = executeExistsSubqueryMatch run₀ o' g q := by
  unfold executeExistsSubqueryMatch
  rcases parseExistsSubquery q with e | parts
  · rfl
  · simp only [bind, Except.bind, (hrun g hk parts.innerQuery).result,
      executeMatch_order hk o o' parts.rewritten]

theorem executeClause_merge {q : Text} (hm : startsWith q "MERGE " = true)
    (g : InMemoryGraphStore) : executeClause std o run g q = executeMerge o g q := by
  obtain ⟨rest, rfl⟩ := Text.startsWith_iff.mp hm
  rfl

theorem executeClause_agrees
    (hrun : ∀ g, g.Keyed → ∀ q, Agrees o (reached g q) (run g q) (run₀ g q))
    {g : InMemoryGraphStore} (hk : g.Keyed) (q : Text) :
    Agrees o (if startsWith q "MERGE " then some (g, q) else none)
      (executeClause std o run g q) (executeClause std .ascending run₀ g q) := by
  by_cases hm : startsWith q "MERGE " = true
  · rw [if_pos hm, executeClause_merge std hm, executeClause_merge std hm]
    exact ⟨hk, rfl, executeMerge_result hk o .ascending q, fun r h => executeMerge_ack h⟩
  · rw [if_neg hm]
    unfold executeClause
    rw [executeExistsSubqueryMatch_order hrun hk .ascending q, executeMatch_order hk o .ascending q,
      executeOptionalMatch_order hk o .ascending q, executeDelete_order hk o .ascending q,
      executeMatchRelationship_order hk o .ascending q false,
      executeMatchRelationship_order hk o .ascending q true, if_neg hm, if_neg hm]
    rfl

theorem execute_follows (o : HashOrder) : ∀ (n : ℕ) (g : InMemoryGraphStore) (q : Text),
    Follows g (execute std o dialect n g q)
  | 0, g, _ => .same g _
  | n + 1, g, _ => executeTrimmed_follows std o (fun s _ g => execute_follows o n g s) g dialect

theorem execute_keyed (o : HashOrder) (n : ℕ) {g : InMemoryGraphStore} (hk : g.Keyed) (q : Text) :
    (execute std o dialect n g q).1.Keyed := by
  obtain ⟨ids, hc⟩ := execute_follows std dialect o n g q
  exact hc.keyed hk

/-- One query under two orders. -/
theorem execute_agrees (o : HashOrder) : ∀ (n : ℕ) (g : InMemoryGraphStore), g.Keyed →
    ∀ query, Agrees o (reachedMerge std dialect n g query) (execute std o dialect n g query)
      (execute std .ascending dialect n g query)
  | 0, _, _, _ => rfl
  | n + 1, g, hk, query => by
    have hrun := execute_agrees o n
    rw [reachedMerge, execute, execute, executeTrimmed, executeTrimmed]
    generalize (if dialect = .neo4jCompat then rejectNeo4jCompatExtension (trim query) else none) =
      rejected
    rcases rejected with _ | e
    · rcases splitTopLevelUnion (trim query) with e | _ | ⟨branches, mode⟩
      · rfl
      · dsimp only [parsed]
        by_cases hr : startsWith (trim query) "RETURN " = true
        · rw [if_pos hr, if_pos hr, if_pos hr]
          rfl
        rw [if_neg hr, if_neg hr, if_neg hr]
        by_cases hc : startsWith (trim query) "CALL \x7b" = true
        · rw [if_pos hc, if_pos hc, if_pos hc]
          exact executeCallSubquery_agrees hrun hk _
        rw [if_neg hc, if_neg hc, if_neg hc]
        rcases withoutWith (trim query) with e | q'
        · rfl
        · exact executeClause_agrees std hrun hk q'
      · exact executeUnionBranches_agrees hrun
          (fun g hk q => execute_keyed std dialect .ascending n hk q) mode branches _ g hk
    · rfl

end Reached

/-- A query leaves the same graph and the same answer under every two orders exactly when the merge
    that it comes to, if it comes to one, does not choose between nodes. -/
theorem executeQueryWithDialect_order_iff (std : FloatStd) (dialect : CypherDialect)
    {g : InMemoryGraphStore} (hk : g.Keyed) (query : Text) :
    (∀ o o' : HashOrder, executeQueryWithDialect std o g query dialect =
      executeQueryWithDialect std o' g query dialect) ↔
    ∀ g' q, reachedMerge std dialect (query.length + 1) g query = some (g', q) → Settled g' q := by
  have hag (o : HashOrder) := execute_agrees std dialect o (query.length + 1) g hk query
  simp only [executeQueryWithDialect]
  rcases hm : reachedMerge std dialect (query.length + 1) g query with _ | ⟨g', q⟩
  · simp only [hm, Agrees] at hag
    simp [hag]
  simp only [hm, Agrees] at hag
  constructor
  · intro h g'' q' he
    cases he
    by_contra hs
    obtain ⟨o, o', hne⟩ := executeMerge_not_settled (hag .ascending).1 hs
    exact hne (by rw [← (hag o).2.1, ← (hag o').2.1, h o o'])
  · intro h o o'
    have hs := executeMerge_settled (hag o).1 (h g' q rfl) o o'
    refine Prod.ext ?_ ?_
    · rw [(hag o).2.1, (hag o').2.1, hs]
    · rw [(hag o).2.2.1, (hag o').2.2.1]

open Integrity

/-- A graph with two nodes that no merge tells apart. -/
def twins : InMemoryGraphStore := createA.run plainStd (createA.run plainStd .new)

theorem twins_keyed : twins.Keyed := by
  obtain ⟨ids, h⟩ := createA.changes plainStd .new
  obtain ⟨ids', h'⟩ := createA.changes plainStd (createA.run plainStd .new)
  exact (h.trans h').keyed sound_new.keyed

theorem matched_twins_order :
    executeQueryWithDialect plainStd .ascending twins "MATCH (n:A) RETURN n".toList .openCypher9 =
      executeQueryWithDialect plainStd .descending twins "MATCH (n:A) RETURN n".toList
        .openCypher9 := by
  refine (executeQueryWithDialect_order_iff plainStd .openCypher9 twins_keyed _).mpr ?_
    .ascending .descending
  intro g' q hm
  have hnone : (reachedMerge plainStd .openCypher9 ("MATCH (n:A) RETURN n".toList.length + 1) twins
      "MATCH (n:A) RETURN n".toList).isNone = true := by decide +kernel
  rw [hm] at hnone
  cases hnone

/-- A merge that finds the twins changes the one that comes first. -/
theorem merged_twins_differ : ¬ ∀ (g : InMemoryGraphStore) (query : Text) (dialect : CypherDialect)
    (o o' : HashOrder), executeQueryWithDialect plainStd o g query dialect =
      executeQueryWithDialect plainStd o' g query dialect := by
  intro h
  have he := congrArg (fun st : Step => (st.1.nodes["n1"]?).bind (·.properties["y"]?))
    (h twins "MERGE (n:A) ON MATCH SET n.y=2".toList .openCypher9 .ascending .descending)
  revert he
  decide +kernel

end Query

end AiraGraphdb.Library
