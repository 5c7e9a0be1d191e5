import AiraGraphdb.Native.DeleteDocument
import AiraGraphdb.Native.Validated

/-! # A deleted document leaves nothing

After `memory_delete_document` nothing of the corpus names the document (`NoResidue`): what is kept
of the snapshot, the graph and the vectors was pruned of it or never held it. Where nothing names
it, a delete does nothing. Both together make the delete idempotent. -/

namespace AiraGraphdb.Native

open Schemes Schemes.Json

namespace DeleteDocument

/-! ### Members of pruned values -/

theorem itemsOf_eq_of_get {v w : Value} {field : String} (h : v.get field = w.get field) :
    itemsOf v field = itemsOf w field := by
  rw [itemsOf, itemsOf, h]

theorem itemsOf_modify_ne {field k : String} (h : field ≠ k) (v : Value) (f : Value → Value) :
    itemsOf (v.modify k f) field = itemsOf v field :=
  itemsOf_eq_of_get (Value.get_modify_ne h v f)

theorem itemsOf_set_ne {field k : String} (h : field ≠ k) (v w : Value) :
    itemsOf (v.set k w) field = itemsOf v field :=
  itemsOf_eq_of_get (Value.get_set_ne h v w)

theorem itemsOf_mapItems (v : Value) (field : String) (f : List Value → List Value) :
    itemsOf (v.modify field fun array => array.mapItems f) field = f (itemsOf v field)
      ∨ itemsOf (v.modify field fun array => array.mapItems f) field = [] := by
  rw [itemsOf, itemsOf, Value.get_modify_self]
  rcases v.get field with _ | w
  · exact .inr rfl
  · cases w with
    | arr items => exact .inl rfl
    | _ => exact .inr rfl

theorem stringArrayContains_pruneString (v : Value) (field d : String) :
    stringArrayContains (pruneString v field d) field d = false := by
  rw [stringArrayContains, pruneString, pruneStrings]
  rcases itemsOf_mapItems v field
    (fun items => items.filter fun item => !item.asStr.any (· == d)) with h | h
  · rw [h]
    refine List.any_eq_false.mpr ?_
    intro item hitem
    have := (List.mem_filter.mp hitem).2
    rcases hs : item.asStr with _ | s
    · simp
    · rw [hs] at this
      simpa using this
  · rw [h]
    rfl

theorem stringArrayContains_modify_ne {field k : String} (h : field ≠ k) (v : Value)
    (f : Value → Value) (d : String) :
    stringArrayContains (v.modify k f) field d = stringArrayContains v field d := by
  rw [stringArrayContains, stringArrayContains, itemsOf_modify_ne h]

theorem stringArrayContains_set_ne {field k : String} (h : field ≠ k) (v w : Value) (d : String) :
    stringArrayContains (v.set k w) field d = stringArrayContains v field d := by
  rw [stringArrayContains, stringArrayContains, itemsOf_set_ne h]

/-- The first string of an array is one that it holds. -/
theorem firstString_ne {v : Value} {field d first : String}
    (h : stringArrayContains v field d = false) (hf : firstString v field = some first) :
    first ≠ d := by
  obtain ⟨item, hitem, hs⟩ := List.exists_of_findSome?_eq_some hf
  rintro rfl
  have := List.any_eq_false.mp h item hitem
  simp [hs] at this

/-- What lists its documents names exactly those. -/
theorem namesDocument_eq {node : GraphNode} {d : String}
    (h : (firstString node.ref "sourceDocumentIds").isSome) :
    namesDocument d node = stringArrayContains node.ref "sourceDocumentIds" d := by
  have harr : ∃ ids, (node.ref.get "sourceDocumentIds").bind Value.asArray = some ids := by
    rw [firstString, itemsOf] at h
    rcases hids : (node.ref.get "sourceDocumentIds").bind Value.asArray with _ | ids
    · rw [hids] at h
      cases h
    · exact ⟨ids, rfl⟩
  obtain ⟨ids, hids⟩ := harr
  rw [namesDocument, docIdsFromRef, stringArrayContains, itemsOf, hids]
  simp only [Option.getD_some, List.any_filterMap]
  congr 1
  funext item
  rcases item.asStr with _ | s
  · rfl
  · simp

/-- A value that does not list the document as a source. -/
def Clean (d : String) (v : Value) : Prop :=
  stringArrayContains v "sourceDocumentIds" d = false

theorem Clean.modify {d k : String} {v : Value} (h : Clean d v) (hk : "sourceDocumentIds" ≠ k)
    (f : Value → Value) : Clean d (v.modify k f) :=
  (stringArrayContains_modify_ne hk v f d).trans h

theorem Clean.set {d k : String} {v : Value} (h : Clean d v) (hk : "sourceDocumentIds" ≠ k)
    (w : Value) : Clean d (v.set k w) :=
  (stringArrayContains_set_ne hk v w d).trans h

theorem clean_pruneString (d : String) (v : Value) :
    Clean d (pruneString v "sourceDocumentIds" d) :=
  stringArrayContains_pruneString v "sourceDocumentIds" d

theorem firstString_modify_ne {field k : String} (h : field ≠ k) (v : Value) (f : Value → Value) :
    firstString (v.modify k f) field = firstString v field := by
  rw [firstString, firstString, itemsOf_modify_ne h]

/-! ### The snapshot -/

/-- A clean value that has a source. -/
structure Sourced (d : String) (v : Value) : Prop where
  clean : Clean d v
  first : (firstString v "sourceDocumentIds").isSome

/-- The pass over the facts keeps clean facts, the shared ones with a source. -/
structure FactPass.Cleaned (d : String) (pass : FactPass) : Prop where
  kept : ∀ f ∈ pass.kept, Clean d f
  post : ∀ (id : String) f, pass.factPost[id]? = some f → Sourced d f

theorem factStep_cleaned {d : String} (updatedAt : String) (removed : List String)
    {pass : FactPass} (h : pass.Cleaned d) (fact : Value) :
    (factStep d updatedAt removed pass fact).Cleaned d := by
  rw [factStep]
  split
  · next hc =>
    refine ⟨?_, h.post⟩
    intro f hf
    rcases List.mem_append.mp hf with hf | hf
    · exact h.kept f hf
    · rw [List.mem_singleton.mp hf]
      simpa [Clean] using hc
  · dsimp only
    split
    · next hc =>
      rw [Bool.and_eq_true] at hc
      have hclean : Clean d (stampExistingUpdatedAt (pruneIds (pruneString fact
          "sourceDocumentIds" d) "passageIds" removed) updatedAt) :=
        ((clean_pruneString d fact).modify (by decide) _).modify (by decide) _
      have hfirst : (firstString (stampExistingUpdatedAt (pruneIds (pruneString fact
          "sourceDocumentIds" d) "passageIds" removed) updatedAt) "sourceDocumentIds").isSome := by
        rw [stampExistingUpdatedAt, firstString_modify_ne (by decide), pruneIds, pruneStrings,
          firstString_modify_ne (by decide)]
        exact hc.1
      refine ⟨?_, ?_⟩
      · intro f hf
        rcases List.mem_append.mp hf with hf | hf
        · exact h.kept f hf
        · rw [List.mem_singleton.mp hf]
          exact hclean
      · intro id f hf
        dsimp only at hf
        split at hf
        · next factId _ =>
          by_cases hid : factId = id
          · subst hid
            rw [Map.getElem?_insert_self] at hf
            cases hf
            exact ⟨hclean, hfirst⟩
          · rw [Map.getElem?_insert_ne _ hid] at hf
            exact h.post id f hf
        · exact h.post id f hf
    · exact ⟨h.kept, h.post⟩

theorem clean_pruneSchemaValue (d updatedAt : String) (removed : List String) (schema : Value) :
    Clean d (pruneSchemaValue d updatedAt removed schema).1 := by
  have hpruned : Clean d (pruneIds (pruneString schema "sourceDocumentIds" d) "factIds" removed) :=
    (clean_pruneString d schema).modify (by decide) _
  rw [pruneSchemaValue]
  split
  · exact hpruned.set (by decide) _
  · dsimp only
    split
    · exact ((hpruned.set (by decide) _).set (by decide) _).set (by decide) _
    · exact (hpruned.set (by decide) _).set (by decide) _

/-- The pass over the schemas leaves clean ones. -/
structure SchemaPass.Cleaned (d : String) (pass : SchemaPass) : Prop where
  schemas : ∀ s ∈ pass.schemas, Clean d s
  post : ∀ (id : String) s, pass.schemaPost[id]? = some s → Clean d s

theorem clean_insert {d k : String} {v : Value} {m : Map Value}
    (h : ∀ (id : String) s, m[id]? = some s → Clean d s) (hv : Clean d v) :
    ∀ (id : String) s, (m.insert k v)[id]? = some s → Clean d s := by
  intro id s hs
  by_cases hid : k = id
  · subst hid
    rw [Map.getElem?_insert_self] at hs
    cases hs
    exact hv
  · rw [Map.getElem?_insert_ne _ hid] at hs
    exact h id s hs

theorem schemaStep_cleaned {d : String} (updatedAt : String)
    (removed factSchemaIds needed : List String) {pass : SchemaPass} (h : pass.Cleaned d)
    {schema : Value} (hid : ((schema.get "schemaId").bind Value.asStr).isSome) :
    (schemaStep d updatedAt removed factSchemaIds needed pass schema).Cleaned d := by
  have snoc : ∀ {s : Value}, Clean d s → ∀ t ∈ pass.schemas ++ [s], Clean d t := by
    intro s hs t ht
    rcases List.mem_append.mp ht with ht | ht
    · exact h.schemas t ht
    · rw [List.mem_singleton.mp ht]
      exact hs
  rw [schemaStep]
  split
  · next hnone =>
    rw [hnone] at hid
    cases hid
  · next schemaId _ =>
    split
    · have hpruned := clean_pruneSchemaValue d updatedAt removed schema
      exact ⟨snoc hpruned, clean_insert h.post hpruned⟩
    · next haffected =>
      have hclean : Clean d schema := by
        simp only [schemaAffected, Bool.or_eq_true, not_or] at haffected
        simpa [Clean] using haffected.1.1
      refine ⟨snoc hclean, ?_⟩
      dsimp only
      split
      · exact clean_insert h.post hclean
      · exact h.post

/-- The ids of the schemas of a snapshot are strings. -/
def SchemasNamed (snapshot : Value) : Prop :=
  ∀ s ∈ itemsOf snapshot "schemas", ((s.get "schemaId").bind Value.asStr).isSome

theorem itemsOf_setSection_ne {sect other : String} (h : other ≠ sect) (snapshot : Value)
    (items : List Value) :
    itemsOf (setSection snapshot sect items) other = itemsOf snapshot other :=
  itemsOf_modify_ne h snapshot _

theorem mem_itemsOf_setSection {snapshot : Value} {sect : String} {items : List Value} {v : Value}
    (h : v ∈ itemsOf (setSection snapshot sect items) sect) : v ∈ items := by
  rcases itemsOf_mapItems snapshot sect (fun _ => items) with he | he
  · rwa [setSection, he] at h
  · rw [setSection, he] at h
    cases h

/-- What the pass over the snapshot leaves of the document: nothing. -/
structure SnapshotPass.Cleaned (d : String) (s : SnapshotPass) : Prop where
  passages : ∀ p ∈ itemsOf s.snapshot "passages", ownsPassage d p = false
  facts : ∀ f ∈ itemsOf s.snapshot "facts", Clean d f
  schemas : ∀ v ∈ itemsOf s.snapshot "schemas", Clean d v
  factPost : ∀ (id : String) f, s.factPost[id]? = some f → Sourced d f
  schemaPost : ∀ (id : String) v, s.schemaPost[id]? = some v → Clean d v

theorem snapshotPass_cleaned {d : String} (updatedAt : String) (sc : Scan) {snapshot : Value}
    (hnamed : SchemasNamed snapshot) : (snapshotPass d updatedAt sc snapshot).Cleaned d := by
  have hfacts : ((itemsOf snapshot "facts").foldl (factStep d updatedAt sc.removedPassageIds)
      ⟨[], [], sc.removedFactIds, ∅, 0⟩).Cleaned d := by
    refine foldl_keeps (P := fun pass : FactPass => pass.Cleaned d) ⟨by simp, by simp⟩ ?_
    intro pass fact _ h
    exact factStep_cleaned updatedAt _ h fact
  have hschemas : ∀ removed ids needed, ((itemsOf snapshot "schemas").foldl
      (schemaStep d updatedAt removed ids needed) ⟨[], ∅, 0, 0⟩).Cleaned d := by
    intro removed ids needed
    refine foldl_keeps (P := fun pass : SchemaPass => pass.Cleaned d) ⟨by simp, by simp⟩ ?_
    intro pass schema hs h
    exact schemaStep_cleaned updatedAt removed ids needed h (hnamed schema hs)
  refine ⟨?_, ?_, ?_, hfacts.post, (hschemas _ _ _).post⟩
  · intro p hp
    simp only [snapshotPass] at hp
    rw [itemsOf_setSection_ne (by decide), itemsOf_setSection_ne (by decide)] at hp
    simpa using (List.mem_filter.mp (mem_itemsOf_setSection hp)).2
  · intro f hf
    simp only [snapshotPass] at hf
    rw [itemsOf_setSection_ne (by decide)] at hf
    exact hfacts.kept f (mem_itemsOf_setSection hf)
  · intro v hv
    exact (hschemas _ _ _).schemas v (mem_itemsOf_setSection hv)

/-! ### The nodes, one by one -/

/-- What the fate of a node makes of it. -/
def fateNode (documentId updatedAt : String) (removedPassageIds : List String) (s : SnapshotPass)
    (p : String × NodeFate) (node : GraphNode) : Option GraphNode :=
  match finalFate s.removedFactIds node p.2 with
  | .prune =>
    some { node with ref := prunedRef documentId updatedAt removedPassageIds s.factPost node }
  | .remove => none

/-- What becomes of an ontology node. -/
def ontologyNode (documentId updatedAt : String) (s : SnapshotPass) (node : GraphNode) :
    Option GraphNode :=
  (firstString (ontologyRef documentId updatedAt s node) "sourceDocumentIds").map fun _ =>
    { node with ref := ontologyRef documentId updatedAt s node }

theorem getElem?_insert_ite (m : Map GraphNode) (k k' : String) (n : GraphNode) :
    (m.insert k n)[k']? = if k' = k then some n else m[k']? := by
  split
  · next h =>
    rw [h, Map.getElem?_insert_self]
  · next h => rw [Map.getElem?_insert_ne _ (Ne.symm h)]

theorem getElem?_erase_ite (m : Map GraphNode) (k k' : String) :
    (m.erase k)[k']? = if k' = k then none else m[k']? := by
  split
  · next h =>
    rw [h, Map.getElem?_erase_self]
  · next h => rw [Map.getElem?_erase_ne _ (Ne.symm h)]

theorem fateStep_nodes (d updatedAt : String) (removed : List String) (s : SnapshotPass)
    (pass : NodePass) (p : String × NodeFate) (k : String) :
    (fateStep d updatedAt removed s pass p).nodes[k]? =
      if k = p.1 then (pass.nodes[k]?).bind (fateNode d updatedAt removed s p)
      else pass.nodes[k]? := by
  rw [fateStep]
  rcases hn : pass.nodes[p.1]? with _ | node
  · dsimp only
    split
    · next h => rw [h, hn, Option.bind_none]
    · rfl
  · dsimp only
    rcases hf : finalFate s.removedFactIds node p.2 with _ | _
    · simp only [getElem?_erase_ite]
      split
      · next h => simp only [h, hn, Option.bind_some, fateNode, hf]
      · rfl
    · simp only [getElem?_insert_ite]
      split
      · next h => simp only [h, hn, Option.bind_some, fateNode, hf]
      · rfl

theorem ontologyStep_nodes (d updatedAt : String) (s : SnapshotPass) (pass : NodePass)
    (e k : String) :
    (ontologyStep d updatedAt s pass e).nodes[k]? =
      if k = e then (pass.nodes[k]?).bind (ontologyNode d updatedAt s) else pass.nodes[k]? := by
  rw [ontologyStep]
  rcases hn : pass.nodes[e]? with _ | node
  · dsimp only
    split
    · next h => rw [h, hn, Option.bind_none]
    · rfl
  · dsimp only
    rcases hf : firstString (ontologyRef d updatedAt s node) "sourceDocumentIds" with _ | first
    · simp only [getElem?_erase_ite]
      split
      · next h => simp only [h, hn, Option.bind_some, ontologyNode, hf, Option.map_none]
      · rfl
    · simp only [getElem?_insert_ite]
      split
      · next h => simp only [h, hn, Option.bind_some, ontologyNode, hf, Option.map_some]
      · rfl

theorem nodup_fst_toList {α : Type} (m : Map α) : (m.toList.map Prod.fst).Nodup := by
  have h := Std.ExtTreeMap.distinct_keys_toList (t := m)
  rw [List.Nodup, List.pairwise_map]
  refine h.imp ?_
  intro a b hab he
  exact hab (by rw [he]; exact Std.ReflCmp.compare_self)

theorem nodup_keys {α : Type} (m : Map α) : m.keys.Nodup := by
  have h := Std.ExtTreeMap.distinct_keys (t := m)
  refine h.imp ?_
  intro a b hab he
  exact hab (by rw [he]; exact Std.ReflCmp.compare_self)

/-- A node after the passes over the nodes: what was not scanned is as it was, what was scanned is
what its fate or its schema makes of it. -/
inductive NodeAfter (state : State) (c d updatedAt : String) (sc : Scan) (s : SnapshotPass)
    (k : String) (node : GraphNode) : Option GraphNode → Prop
  | untouched (hf : sc.fates[k]? = none)
      (ho : isOntologyTarget c d s.schemaPost k node = false) :
      NodeAfter state c d updatedAt sc s k node (some node)
  | fated {fate : NodeFate} (hf : sc.fates[k]? = some fate)
      (ho : isOntologyTarget c d s.schemaPost k node = false) :
      NodeAfter state c d updatedAt sc s k node
        (fateNode d updatedAt sc.removedPassageIds s (k, fate) node)
  | mirrored (hf : sc.fates[k]? = none)
      (ho : isOntologyTarget c d s.schemaPost k node = true) :
      NodeAfter state c d updatedAt sc s k node (ontologyNode d updatedAt s node)

theorem fateOf_layer {c d : String} {node : GraphNode} {fate : NodeFate}
    (h : nodeFate c d node = some fate) :
    node.corpusId = c ∧ node.layer ≠ "ontology" ∧ node.layer ≠ "entity" := by
  rw [nodeFate] at h
  split at h
  · cases h
  · next hc =>
    simp only [Bool.or_eq_true, not_or] at hc
    exact ⟨by simpa using hc.1.1, by simpa using hc.1.2, by simpa using hc.2⟩

theorem scan_fates {state : State} {c d k : String} {fate : NodeFate}
    (h : (scan state c d).fates[k]? = some fate) :
    ∃ node first, state.nodes[k]? = some node ∧ nodeFate c d node = some first
      ∧ fate = fateOfFact (scan state c d).removedPassageIds node first := by
  obtain ⟨first, h1, h2⟩ := Map.filterMap_eq_some.mp h
  obtain ⟨node, hn, hf⟩ := Map.filterMap_eq_some.mp h1
  obtain ⟨node', hn', h2⟩ := Option.map_eq_some_iff.mp h2
  obtain rfl := Option.some.inj (hn.symm.trans hn')
  exact ⟨node, first, hn, hf, h2.symm⟩

theorem scan_fates_none {state : State} {c d k : String} {node : GraphNode}
    (hn : state.nodes[k]? = some node) (h : (scan state c d).fates[k]? = none) :
    nodeFate c d node = none := by
  rcases hf : nodeFate c d node with _ | first
  · rfl
  · have : (scan state c d).fates[k]? = some (fateOfFact (scan state c d).removedPassageIds node
        first) :=
      Map.filterMap_eq_some.mpr
        ⟨first, Map.filterMap_eq_some.mpr ⟨node, hn, hf⟩, by rw [hn]; rfl⟩
    rw [h] at this
    cases this

theorem not_ontologyTarget_of_fate {state : State} {c d k : String} {fate : NodeFate}
    {node : GraphNode} {schemaPost : Map Value} (hn : state.nodes[k]? = some node)
    (h : (scan state c d).fates[k]? = some fate) :
    isOntologyTarget c d schemaPost k node = false := by
  obtain ⟨node', first, hn', hf, -⟩ := scan_fates h
  obtain rfl := Option.some.inj (hn.symm.trans hn')
  have hlayer : (node.layer == "ontology") = false := by simpa using (fateOf_layer hf).2.1
  simp [isOntologyTarget, namedOntologyNode, hlayer]

/-- The passes over the nodes, at one key. -/
theorem nodePass_getElem? (state : State) (c d updatedAt : String) (s : SnapshotPass)
    (k : String) :
    (state.nodes[k]? = none ∧
        (nodePass state c d updatedAt (scan state c d) s).nodes[k]? = none)
      ∨ ∃ node, state.nodes[k]? = some node
          ∧ NodeAfter state c d updatedAt (scan state c d) s k node
              (nodePass state c d updatedAt (scan state c d) s).nodes[k]? := by
  obtain ⟨hother, hown⟩ := Map.foldl_pointwise NodePass.nodes
    (fateStep d updatedAt (scan state c d).removedPassageIds s) Prod.fst
    (fateNode d updatedAt (scan state c d).removedPassageIds s)
    (fun p e k => fateStep_nodes d updatedAt _ s p e k)
    (nodup_fst_toList (scan state c d).fates)
    ⟨state.nodes, schemaRekey s.schemaPost, [], s.counts⟩
  have hnodup : (((state.nodes.filter (isOntologyTarget c d s.schemaPost)).keys).map id).Nodup := by
    rw [List.map_id]
    exact nodup_keys _
  obtain ⟨hother', hown'⟩ := Map.foldl_pointwise NodePass.nodes (ontologyStep d updatedAt s) id
    (fun _ => ontologyNode d updatedAt s) (fun p e k => ontologyStep_nodes d updatedAt s p e k)
    hnodup
    ((scan state c d).fates.toList.foldl
      (fateStep d updatedAt (scan state c d).removedPassageIds s)
      ⟨state.nodes, schemaRekey s.schemaPost, [], s.counts⟩)
  rw [List.map_id] at hother'
  have hkeys : k ∈ (state.nodes.filter (isOntologyTarget c d s.schemaPost)).keys ↔
      ∃ node, state.nodes[k]? = some node ∧ isOntologyTarget c d s.schemaPost k node = true := by
    rw [Std.ExtTreeMap.mem_keys, Map.mem_iff]
    simp only [Map.filter_eq_some]
  have hfates : k ∈ (scan state c d).fates.toList.map Prod.fst ↔
      ∃ fate, (scan state c d).fates[k]? = some fate := by
    constructor
    · intro h
      obtain ⟨⟨k', fate⟩, hm, rfl⟩ := List.mem_map.mp h
      exact ⟨fate, Map.mem_toList.mp hm⟩
    · rintro ⟨fate, h⟩
      exact List.mem_map.mpr ⟨(k, fate), Map.mem_toList.mpr h, rfl⟩
  simp only [nodePass]
  rcases hf : (scan state c d).fates[k]? with _ | fate
  · have hk : k ∉ (scan state c d).fates.toList.map Prod.fst := by
      rw [hfates, hf]
      simp
    have hafter := hother k hk
    rcases hn : state.nodes[k]? with _ | node
    · left
      refine ⟨rfl, ?_⟩
      rw [hother' k (by rw [hkeys, hn]; simp), hafter, hn]
    · right
      refine ⟨node, rfl, ?_⟩
      rcases ho : isOntologyTarget c d s.schemaPost k node with _ | _
      · rw [hother' k (by rw [hkeys, hn]; simp [ho]), hafter, hn]
        exact .untouched hf ho
      · have := hown' k (hkeys.mpr ⟨node, hn, ho⟩)
        rw [id_eq, hafter, hn, Option.bind_some] at this
        rw [this]
        exact .mirrored hf ho
  · have hafter := hown (k, fate) (Map.mem_toList.mpr hf)
    obtain ⟨node, first, hn, -, -⟩ := scan_fates hf
    have ho : isOntologyTarget c d s.schemaPost k node = false :=
      not_ontologyTarget_of_fate hn hf
    right
    refine ⟨node, hn, ?_⟩
    rw [hother' k (by rw [hkeys, hn]; simp [ho]), hafter]
    dsimp only
    rw [hn]
    exact .fated hf ho

/-! ### What is left of the document -/

/-- A pruned reference lists its documents without the deleted one, where it listed any before. -/
theorem names_prunedRef {d updatedAt : String} {removed : List String} {s : SnapshotPass}
    {node : GraphNode} (hs : s.Cleaned d)
    (harr : ((node.ref.get "sourceDocumentIds").bind Value.asArray).isSome) :
    namesDocument d { node with ref := prunedRef d updatedAt removed s.factPost node } = false := by
  have hpruned : namesDocument d { node with ref := stampExistingUpdatedAt (pruneIds (pruneString
      node.ref "sourceDocumentIds" d) "passageIds" removed) updatedAt } = false := by
    have hget : (stampExistingUpdatedAt (pruneIds (pruneString node.ref "sourceDocumentIds" d)
        "passageIds" removed) updatedAt).get "sourceDocumentIds"
        = (pruneString node.ref "sourceDocumentIds" d).get "sourceDocumentIds" := by
      rw [stampExistingUpdatedAt, Value.get_modify_ne (by decide), pruneIds, pruneStrings,
        Value.get_modify_ne (by decide)]
    rw [namesDocument, docIdsFromRef, hget, pruneString, pruneStrings, Value.get_modify_self]
    rcases hw : node.ref.get "sourceDocumentIds" with _ | w
    · rw [hw] at harr
      cases harr
    · cases w with
      | arr items =>
        simp only [Option.map_some, Value.mapItems, Option.bind_some, Value.asArray,
          List.any_filterMap]
        refine List.any_eq_false.mpr ?_
        intro item hitem
        have := (List.mem_filter.mp hitem).2
        rcases hs : item.asStr with _ | str
        · simp
        · rw [hs] at this
          simpa using this
      | _ =>
        rw [hw] at harr
        cases harr
  rw [prunedRef]
  split
  · next post hpost =>
    split
    · obtain ⟨id, -, hpost⟩ := Option.bind_eq_some_iff.mp hpost
      have hsourced := hs.factPost id post hpost
      exact (namesDocument_eq hsourced.first).trans hsourced.clean
    · exact hpruned
  · exact hpruned

theorem array_of_prune {c d : String} {removed : List String} {node : GraphNode}
    {first : NodeFate} (h : nodeFate c d node = some first)
    (hp : fateOfFact removed node first = .prune) :
    ((node.ref.get "sourceDocumentIds").bind Value.asArray).isSome := by
  have hfirst : first = .prune := by
    rw [fateOfFact] at hp
    split at hp
    · cases hp
    · exact hp
  subst hfirst
  rw [nodeFate] at h
  split at h
  · cases h
  · split at h
    · next ids hids => rw [hids]; rfl
    · split at h <;> cases h

theorem clean_ontologyRef {d updatedAt : String} {s : SnapshotPass} {node : GraphNode}
    (hs : s.Cleaned d) : Clean d (ontologyRef d updatedAt s node) := by
  rw [ontologyRef]
  split
  · next post hpost =>
    obtain ⟨id, -, hpost⟩ := Option.bind_eq_some_iff.mp hpost
    exact hs.schemaPost id post hpost
  · exact ((clean_pruneString d node.ref).modify (by decide) _).modify (by decide) _

/-- A node after the delete, of the corpus and no entity, does not name the document. -/
theorem names_nodeAfter {state : State} {c d updatedAt k : String} {s : SnapshotPass}
    {node after : GraphNode} (hs : s.Cleaned d) (hn : state.nodes[k]? = some node)
    (h : NodeAfter state c d updatedAt (scan state c d) s k node (some after))
    (hc : after.corpusId = c) (hentity : after.layer ≠ "entity") :
    namesDocument d after = false := by
  generalize hres : some after = result at h
  cases h with
  | untouched hf ho =>
    cases hres
    have hfate := scan_fates_none hn hf
    by_contra hnames
    rw [Bool.not_eq_false] at hnames
    have hlayer : node.layer ≠ "ontology" := by
      intro hl
      simp [isOntologyTarget, namedOntologyNode, hc, hl, hnames] at ho
    rw [nodeFate, if_neg (by simp [hc, hlayer, hentity])] at hfate
    split at hfate
    · next ids hids =>
      split at hfate
      · next hnot =>
        rw [namesDocument, docIdsFromRef, hids, List.any_filterMap] at hnames
        rw [Bool.not_eq_true', ← Bool.not_eq_true] at hnot
        refine hnot ?_
        obtain ⟨item, hitem, hi⟩ := List.any_eq_true.mp hnames
        refine List.any_eq_true.mpr ⟨item, hitem, ?_⟩
        rcases hstr : item.asStr with _ | str
        · rw [hstr] at hi
          cases hi
        · rw [hstr] at hi
          simpa using hi
      · split at hfate <;> cases hfate
    · rw [if_pos hnames] at hfate
      cases hfate
  | @fated fate hf ho =>
    obtain ⟨node', first, hn', hfirst, rfl⟩ := scan_fates hf
    obtain rfl := Option.some.inj (hn.symm.trans hn')
    simp only [fateNode] at hres
    split at hres
    · next hfinal =>
      cases hres
      have hprune : fateOfFact (scan state c d).removedPassageIds node first = .prune := by
        rw [finalFate] at hfinal
        split at hfinal
        · cases hfinal
        · exact hfinal
      exact names_prunedRef hs (array_of_prune hfirst hprune)
    · cases hres
  | mirrored hf ho =>
    rw [ontologyNode] at hres
    obtain ⟨first, hfirst, rfl⟩ := Option.map_eq_some_iff.mp hres.symm
    exact (namesDocument_eq (by rw [hfirst]; rfl)).trans (clean_ontologyRef hs)

/-- No vector is filed anew under the deleted document. -/
def Rekeyed (d : String) (rekey : Map String) : Prop :=
  ∀ (id : String) first, rekey[id]? = some first → first ≠ d

theorem Rekeyed.insert {d id first : String} {rekey : Map String} (h : Rekeyed d rekey)
    (hf : first ≠ d) : Rekeyed d (rekey.insert id first) := by
  intro id' first' hr
  by_cases hid : id = id'
  · subst hid
    rw [Map.getElem?_insert_self] at hr
    cases hr
    exact hf
  · rw [Map.getElem?_insert_ne _ hid] at hr
    exact h id' first' hr

theorem Rekeyed.erase {d : String} {rekey : Map String} (h : Rekeyed d rekey) (id : String) :
    Rekeyed d (rekey.erase id) := by
  intro id' first' hr
  by_cases hid : id = id'
  · subst hid
    rw [Map.getElem?_erase_self] at hr
    cases hr
  · rw [Map.getElem?_erase_ne _ hid] at hr
    exact h id' first' hr

theorem Rekeyed.insertFirst {d id : String} {rekey : Map String} {ref : Value}
    (h : Rekeyed d rekey) (hr : Clean d ref) : Rekeyed d (insertFirst rekey id ref) := by
  rw [DeleteDocument.insertFirst]
  split
  · next first hfirst => exact h.insert (firstString_ne hr hfirst)
  · exact h

theorem clean_prunedRef {d updatedAt : String} {removed : List String} {s : SnapshotPass}
    {node : GraphNode} (hs : s.Cleaned d) :
    Clean d (prunedRef d updatedAt removed s.factPost node) := by
  have hpruned : Clean d (stampExistingUpdatedAt (pruneIds (pruneString node.ref
      "sourceDocumentIds" d) "passageIds" removed) updatedAt) :=
    ((clean_pruneString d node.ref).modify (by decide) _).modify (by decide) _
  rw [prunedRef]
  split
  · next post hpost =>
    split
    · obtain ⟨id, -, hpost⟩ := Option.bind_eq_some_iff.mp hpost
      exact (hs.factPost id post hpost).clean
    · exact hpruned
  · exact hpruned

theorem nodePass_rekeyed {state : State} {c d updatedAt : String} {s : SnapshotPass} (sc : Scan)
    (hs : s.Cleaned d) : Rekeyed d (nodePass state c d updatedAt sc s).rekey := by
  have hschemas : Rekeyed d (schemaRekey s.schemaPost) := by
    refine foldl_keeps (P := fun rekey : Map String => Rekeyed d rekey) ?_ ?_
    · intro id first h
      rw [Std.ExtTreeMap.getElem?_empty] at h
      cases h
    · intro rekey p hp h
      exact h.insertFirst (hs.schemaPost p.1 p.2 (Map.mem_toList.mp hp))
  simp only [nodePass]
  refine foldl_keeps (P := fun pass : NodePass => Rekeyed d pass.rekey)
    (foldl_keeps (P := fun pass : NodePass => Rekeyed d pass.rekey) hschemas ?_) ?_
  · intro pass p _ h
    rw [fateStep]
    split
    · exact h
    · split
      · exact h.insertFirst (clean_prunedRef hs)
      · exact h
  · intro pass k _ h
    rw [ontologyStep]
    split
    · exact h
    · dsimp only
      split
      · next first hfirst => exact h.insert (firstString_ne (clean_ontologyRef hs) hfirst)
      · exact h.erase _

/-- The pass over the edges takes entities out and files nothing anew. -/
theorem edgePass_rekey (edges : Map GraphEdge) (c : String) (removed : List String)
    (pass : NodePass) : (edgePass edges c removed pass).2.rekey = pass.rekey := by
  rw [edgePass]
  dsimp only
  split
  · rfl
  · refine foldl_keeps (P := fun q : NodePass => q.rekey = pass.rekey) rfl ?_
    intro q id _ h
    rw [orphanStep]
    split
    · exact h
    · exact h

theorem edgePass_nodes {edges : Map GraphEdge} {c : String} {removed : List String}
    {pass : NodePass} {k : String} {node : GraphNode}
    (h : (edgePass edges c removed pass).2.nodes[k]? = some node) :
    pass.nodes[k]? = some node := by
  revert h
  rw [edgePass]
  dsimp only
  split
  · exact id
  · refine foldl_keeps (P := fun q : NodePass => q.nodes[k]? = some node → _) id ?_
    intro q id _ hq
    rw [orphanStep]
    split
    · exact hq
    · intro h
      refine hq ?_
      rw [getElem?_erase_ite] at h
      split at h
      · cases h
      · exact h

/-- Nothing of the corpus names the document: no passage of its snapshot is the document's, no fact
or schema lists it, no node but an entity names it, no lexical passage belongs to it, and no vector
is filed under it. -/
structure NoResidue (state : State) (c d : String) : Prop where
  passages : ∀ snapshot, state.snapshots[c]? = some snapshot →
    ∀ p ∈ itemsOf snapshot "passages", ownsPassage d p = false
  facts : ∀ snapshot, state.snapshots[c]? = some snapshot →
    ∀ f ∈ itemsOf snapshot "facts", Clean d f
  schemas : ∀ snapshot, state.snapshots[c]? = some snapshot →
    ∀ v ∈ itemsOf snapshot "schemas", Clean d v
  nodes : ∀ (k : String) node, state.nodes[k]? = some node → node.corpusId = c →
    node.layer ≠ "entity" → namesDocument d node = false
  lexical : ∀ (k : String) p, state.passages[k]? = some p → ¬ (p.corpusId = c ∧ p.documentId = d)
  vectors : ∀ (k : String) v, state.vectors[k]? = some v → v.corpusId = c →
    metadataString v "documentId" ≠ some d

theorem noSnapshot_cleaned (d : String) (sc : Scan) : (noSnapshot sc).Cleaned d :=
  ⟨by simp [noSnapshot, itemsOf, Value.get], by simp [noSnapshot, itemsOf, Value.get],
    by simp [noSnapshot, itemsOf, Value.get], by simp [noSnapshot], by simp [noSnapshot]⟩

/-- The pass over the snapshot of a corpus, if it has one. -/
def snapshotOf (state : State) (c d updatedAt : String) : SnapshotPass :=
  match state.snapshots[c]? with
  | some snapshot => snapshotPass d updatedAt (scan state c d) snapshot
  | none => noSnapshot (scan state c d)

theorem snapshotOf_cleaned {state : State} {c d : String} (updatedAt : String)
    (hnamed : ∀ snapshot, state.snapshots[c]? = some snapshot → SchemasNamed snapshot) :
    (snapshotOf state c d updatedAt).Cleaned d := by
  rw [snapshotOf]
  split
  · next snapshot hs => exact snapshotPass_cleaned updatedAt _ (hnamed snapshot hs)
  · exact noSnapshot_cleaned d _

theorem reviseVector_document {c d : String} {rekey : Map String} {removed : List String}
    {v w : VectorRecord} (hr : Rekeyed d rekey) (h : reviseVector c d rekey removed v = some w)
    (hc : w.corpusId = c) : metadataString w "documentId" ≠ some d := by
  rw [reviseVector] at h
  split at h
  · next hne =>
    cases h
    simp [hc] at hne
  · split at h
    · cases h
    · split at h
      · next hdoc =>
        cases h
        simpa using hdoc
      · next hdoc =>
        obtain ⟨first, hfirst, rfl⟩ := Option.map_eq_some_iff.mp h
        have hmeta : (v.metadata.get "documentId").isSome := by
          rw [metadataString] at hdoc
          rcases hg : v.metadata.get "documentId" with _ | w
          · rw [hg] at hdoc
            simp at hdoc
          · rfl
        obtain ⟨w, hw⟩ := Option.isSome_iff_exists.mp hmeta
        obtain ⟨ms, hms⟩ := Value.asObject_of_get hw
        rw [metadataString, Value.get_set_self hms]
        intro he
        exact hr _ _ hfirst (by simpa [Value.asStr] using he)

theorem apply_noResidue {mem : Memory} {c d : String} (updatedAt : String)
    (hnamed : ∀ snapshot, mem.state.snapshots[c]? = some snapshot → SchemasNamed snapshot) :
    NoResidue (applyMemoryDeleteDocument mem c d updatedAt).memory.state c d := by
  have hs := snapshotOf_cleaned (d := d) updatedAt hnamed
  have hsnapshot : ∀ snapshot,
      (applyMemoryDeleteDocument mem c d updatedAt).memory.state.snapshots[c]? = some snapshot →
      snapshot = (snapshotOf mem.state c d updatedAt).snapshot := by
    intro snapshot h
    change (if (mem.state.snapshots[c]?).isSome then
        mem.state.snapshots.insert c (snapshotOf mem.state c d updatedAt).snapshot
        else mem.state.snapshots)[c]? = some snapshot at h
    split at h
    · rw [Map.getElem?_insert_self] at h
      exact (Option.some.inj h).symm
    · next hnone => simp [h] at hnone
  refine ⟨?_, ?_, ?_, ?_, ?_, ?_⟩
  · intro snapshot h
    rw [hsnapshot snapshot h]
    exact hs.passages
  · intro snapshot h
    rw [hsnapshot snapshot h]
    exact hs.facts
  · intro snapshot h
    rw [hsnapshot snapshot h]
    exact hs.schemas
  · intro k after h hc hentity
    have hpass := edgePass_nodes h
    rcases nodePass_getElem? mem.state c d updatedAt (snapshotOf mem.state c d updatedAt) k
      with ⟨-, hnone⟩ | ⟨node, hn, hafter⟩
    · cases hnone.symm.trans hpass
    · exact names_nodeAfter hs hn (hpass ▸ hafter) hc hentity
  · intro k p h
    have := (Map.filter_eq_some.mp h).2
    rintro ⟨rfl, rfl⟩
    simp at this
  · intro k w h hc
    obtain ⟨v, -, hv⟩ := Map.filterMap_eq_some.mp h
    refine reviseVector_document ?_ hv hc
    rw [edgePass_rekey]
    exact nodePass_rekeyed _ hs

/-! ### A document that nothing names -/

theorem nodeFate_eq_none {state : State} {c d k : String} {node : GraphNode}
    (h : NoResidue state c d) (hn : state.nodes[k]? = some node) : nodeFate c d node = none := by
  rw [nodeFate]
  split
  · rfl
  · next hkind =>
    simp only [Bool.or_eq_true, not_or] at hkind
    have hnames := h.nodes k node hn (by simpa using hkind.1.1) (by simpa using hkind.2)
    split
    · next ids hids =>
      rw [if_pos]
      rw [namesDocument, docIdsFromRef, hids, List.any_filterMap] at hnames
      rw [Bool.not_eq_true']
      refine List.any_eq_false.mpr ?_
      intro item hitem
      have := List.any_eq_false.mp hnames item hitem
      rcases hstr : item.asStr with _ | str
      · simp
      · rw [hstr] at this
        simpa using this
    · rw [if_neg (by simp [hnames])]

theorem namedOntologyNode_eq_false {state : State} {c d k : String} {node : GraphNode}
    (h : NoResidue state c d) (hn : state.nodes[k]? = some node) :
    namedOntologyNode c d node = false := by
  by_contra hnamed
  rw [Bool.not_eq_false, namedOntologyNode, Bool.and_eq_true, Bool.and_eq_true] at hnamed
  have hlayer : node.layer = "ontology" := by simpa using hnamed.1.2
  have := h.nodes k node hn (by simpa using hnamed.1.1) (by rw [hlayer]; decide)
  rw [hnamed.2] at this
  cases this

theorem toList_empty {α : Type} : (∅ : Map α).toList = [] :=
  Std.ExtTreeMap.toList_eq_nil_iff.mpr rfl

theorem keys_empty {α : Type} : (∅ : Map α).keys = [] := by
  refine List.eq_nil_iff_forall_not_mem.mpr ?_
  intro k hk
  rw [Std.ExtTreeMap.mem_keys] at hk
  simp at hk

/-- The scan finds nothing. -/
theorem scan_eq {state : State} {c d : String} (h : NoResidue state c d) :
    scan state c d = ⟨∅, [], [], []⟩ := by
  have hfirst : (state.nodes.filterMap fun _ node => nodeFate c d node) = ∅ :=
    Map.filterMap_eq_empty fun k node hn => nodeFate_eq_none h hn
  have hnodes : (state.nodes.filter fun _ node =>
      nodeFate c d node == some .remove && node.layer == "passage") = ∅ :=
    Map.filter_eq_empty fun k node hn => by simp [nodeFate_eq_none h hn]
  have hontology : (state.nodes.filter fun _ node => namedOntologyNode c d node) = ∅ :=
    Map.filter_eq_empty fun k node hn => namedOntologyNode_eq_false h hn
  have hvectors : (state.vectors.filter fun _ v => v.corpusId == c && isOntologyVector v &&
      metadataString v "documentId" == some d) = ∅ := by
    refine Map.filter_eq_empty fun k v hv => ?_
    by_contra hdoc
    simp only [Bool.not_eq_false, Bool.and_eq_true, beq_iff_eq] at hdoc
    exact h.vectors k v hv hdoc.1.1 hdoc.2
  have hfates : ((∅ : Map NodeFate).filterMap fun k fate => (state.nodes[k]?).map fun node =>
      fateOfFact [] node fate) = ∅ :=
    Map.filterMap_eq_empty fun k fate hk => by simp at hk
  have hfacts : (state.nodes.filter fun k node =>
      node.layer == "fact" && (∅ : Map NodeFate)[k]? == some .remove) = ∅ :=
    Map.filter_eq_empty fun k node hn => by simp
  rcases hs : state.snapshots[c]? with _ | snapshot
  · simp only [scan, hs, hfirst, hnodes, hontology, hvectors, toList_empty, List.map_nil,
      List.filterMap_nil, List.append_nil, passageIds, hfates, hfacts]
  · have hpassages : (itemsOf snapshot "passages").filter (ownsPassage d) = [] := by
      refine List.filter_eq_nil_iff.mpr ?_
      intro p hp
      simp [h.passages snapshot hs p hp]
    simp only [scan, hs, hfirst, hnodes, hontology, hvectors, hpassages, toList_empty,
      List.map_nil, List.filterMap_nil, List.append_nil, passageIds, hfates, hfacts]

theorem factStep_clean {d updatedAt : String} {removed : List String} {pass : FactPass}
    {fact : Value} (h : Clean d fact) :
    factStep d updatedAt removed pass fact = { pass with kept := pass.kept ++ [fact] } := by
  rw [Clean] at h
  rw [factStep, if_pos (by simp [h])]

theorem foldl_factStep_clean {d updatedAt : String} {removed : List String} {facts : List Value}
    (h : ∀ f ∈ facts, Clean d f) (pass : FactPass) :
    facts.foldl (factStep d updatedAt removed) pass = { pass with kept := pass.kept ++ facts } := by
  induction facts generalizing pass with
  | nil => simp
  | cons fact facts ih =>
    rw [List.foldl_cons, factStep_clean (h fact (by simp)), ih fun f hf => h f (by simp [hf])]
    simp

theorem schemaStep_clean {d updatedAt : String} {pass : SchemaPass} {schema : Value}
    (h : Clean d schema) :
    schemaStep d updatedAt [] [] [] pass schema
      = { pass with schemas := pass.schemas ++ [schema] } := by
  rw [Clean] at h
  have hany : ((itemsOf schema "factIds").any fun id => id.asStr.any fun id =>
      ([] : List String).contains id) = false := by
    refine List.any_eq_false.mpr ?_
    intro item _
    rcases item.asStr with _ | s
    · simp
    · simp
  rw [schemaStep]
  split
  · rfl
  · next schemaId _ =>
    rw [if_neg (by rw [schemaAffected, h, hany]; simp)]
    simp

theorem foldl_schemaStep_clean {d updatedAt : String} {schemas : List Value}
    (h : ∀ s ∈ schemas, Clean d s) (pass : SchemaPass) :
    schemas.foldl (schemaStep d updatedAt [] [] []) pass
      = { pass with schemas := pass.schemas ++ schemas } := by
  induction schemas generalizing pass with
  | nil => simp
  | cons schema schemas ih =>
    rw [List.foldl_cons, schemaStep_clean (h schema (by simp)), ih fun s hs => h s (by simp [hs])]
    simp

/-- A section put back as it is. -/
theorem setSection_itemsOf {snapshot : Value} (h : snapshot.SortedKeys) (sect : String) :
    setSection snapshot sect (itemsOf snapshot sect) = snapshot := by
  refine h.modify_eq_self ?_
  intro w hw
  cases w with
  | arr items => simp [Value.mapItems, itemsOf, hw, Value.asArray]
  | _ => rfl

/-- The pass over a snapshot that nothing of the document is in. -/
theorem snapshotPass_eq {d updatedAt : String} {snapshot : Value} (hsorted : snapshot.SortedKeys)
    (hp : ∀ p ∈ itemsOf snapshot "passages", ownsPassage d p = false)
    (hf : ∀ f ∈ itemsOf snapshot "facts", Clean d f)
    (hs : ∀ v ∈ itemsOf snapshot "schemas", Clean d v) :
    snapshotPass d updatedAt ⟨∅, [], [], []⟩ snapshot = ⟨snapshot, [], ∅, ∅, {}⟩ := by
  have hkept : ((itemsOf snapshot "passages").filter fun p => !ownsPassage d p)
      = itemsOf snapshot "passages" :=
    List.filter_eq_self.mpr fun p hm => by simp [hp p hm]
  simp only [snapshotPass, hkept, foldl_factStep_clean hf, List.nil_append,
    foldl_schemaStep_clean hs, setSection_itemsOf hsorted, Nat.sub_self]

/-- The passes over the graph find nothing to do. -/
theorem nodePass_eq {state : State} {c d updatedAt : String} {snapshot : Value}
    (h : NoResidue state c d) :
    nodePass state c d updatedAt ⟨∅, [], [], []⟩ ⟨snapshot, [], ∅, ∅, {}⟩
      = ⟨state.nodes, ∅, [], {}⟩ := by
  have htargets : state.nodes.filter (isOntologyTarget c d ∅) = ∅ := by
    refine Map.filter_eq_empty fun k node hn => ?_
    simp [isOntologyTarget, namedOntologyNode_eq_false h hn, keys_empty]
  simp only [nodePass, htargets, keys_empty, toList_empty, List.foldl_nil, schemaRekey]

theorem edgePass_eq (edges : Map GraphEdge) (c : String) (nodes : Map GraphNode)
    (rekey : Map String) (counts : DeleteCounts) :
    edgePass edges c [] ⟨nodes, rekey, [], counts⟩ = (edges, ⟨nodes, rekey, [], counts⟩) := by
  have hremoves : ∀ edge, removesEdge c [] [] edge = false := by
    intro edge
    simp only [removesEdge, atRemovedNode, List.contains_nil, Bool.or_self, Bool.and_false,
      Bool.false_or]
    rcases cooccurrenceFactId edge with _ | id
    · simp
    · simp
  have hkept : (edges.filter fun _ edge => !removesEdge c [] [] edge) = edges :=
    Map.filter_eq_self fun k edge _ => by simp [hremoves]
  have hgone : (edges.filter fun _ edge => removesEdge c [] [] edge) = ∅ :=
    Map.filter_eq_empty fun k edge _ => hremoves edge
  simp only [edgePass, hkept, hgone, entityCandidates, toList_empty, List.flatMap_nil,
    List.filter_nil, List.isEmpty_nil, if_true]

/-- Where nothing names the document, a delete of it changes nothing and says so. -/
theorem apply_noop {mem : Memory} {c d : String} (updatedAt : String)
    (h : NoResidue mem.state c d)
    (hsorted : ∀ snapshot, mem.state.snapshots[c]? = some snapshot → snapshot.SortedKeys) :
    applyMemoryDeleteDocument mem c d updatedAt = ⟨mem, false, answer c d {}⟩ := by
  have hrevise : ∀ (k : String) v, mem.state.vectors[k]? = some v → reviseVector c d ∅ [] v = some v := by
    intro k v hv
    rw [reviseVector]
    split
    · rfl
    · next hc =>
      rw [if_neg (by simp), if_pos]
      simpa using h.vectors k v hv (by simpa using hc)
  have hvectors : (mem.state.vectors.filterMap fun _ v => reviseVector c d ∅ [] v)
      = mem.state.vectors := Map.filterMap_eq_self hrevise
  have hremoved : (mem.state.vectors.filter fun _ v => (reviseVector c d ∅ [] v).isNone) = ∅ :=
    Map.filter_eq_empty fun k v hv => by rw [hrevise k v hv]; rfl
  have hrekeyed : (mem.state.vectors.filter fun _ v => rekeysVector c d ∅ [] v) = ∅ :=
    Map.filter_eq_empty fun k v hv => by simp [rekeysVector]
  have hlexical : (mem.state.passages.filter fun _ p =>
      !(p.corpusId == c && p.documentId == d)) = mem.state.passages := by
    refine Map.filter_eq_self fun k p hp => ?_
    by_contra hdoc
    refine h.lexical k p hp ?_
    simpa using hdoc
  have hsize : ∀ {α : Type}, (∅ : Map α).size = 0 := fun {α} => Std.ExtTreeMap.size_empty
  rcases hs : mem.state.snapshots[c]? with _ | snapshot
  · simp only [applyMemoryDeleteDocument, hs, scan_eq h, noSnapshot, nodePass_eq h, edgePass_eq,
      hvectors, hremoved, hrekeyed, hlexical, keys_empty, hsize, List.foldl_nil, List.length_nil,
      Nat.sub_self, Option.isSome_none, Bool.false_eq_true, if_false]
    rfl
  · simp only [applyMemoryDeleteDocument, hs, scan_eq h, nodePass_eq h, edgePass_eq,
      snapshotPass_eq (hsorted snapshot hs) (h.passages snapshot hs) (h.facts snapshot hs)
        (h.schemas snapshot hs), Map.insert_eq_self hs,
      hvectors, hremoved, hrekeyed, hlexical, keys_empty, hsize, List.foldl_nil, List.length_nil,
      Nat.sub_self, Option.isSome_some, if_true]
    rfl

/-! ### Validated states -/

theorem schemasNamed_of_validated {snapshots : Map Value} {c : String} {snapshot : Value}
    (h : validateStoredSnapshotForUpsert snapshots c = .ok ())
    (hs : snapshots[c]? = some snapshot) : SchemasNamed snapshot := by
  intro schema hschema
  have hsection : ("schemas", "schemaId") ∈ snapshotSections := by decide
  obtain ⟨id, hid, -⟩ := (validateStoredSnapshot_items h hs hsection schema hschema).id
  rw [hid]
  rfl

/-- The snapshot after a delete is an object like the one before. -/
theorem apply_sortedKeys {mem : Memory} {c d updatedAt : String}
    (hnormal : ∀ snapshot, mem.state.snapshots[c]? = some snapshot → snapshot.Normal) :
    ∀ snapshot,
      (applyMemoryDeleteDocument mem c d updatedAt).memory.state.snapshots[c]? = some snapshot →
      snapshot.SortedKeys := by
  intro snapshot h
  change (if (mem.state.snapshots[c]?).isSome then
      mem.state.snapshots.insert c (snapshotOf mem.state c d updatedAt).snapshot
      else mem.state.snapshots)[c]? = some snapshot at h
  split at h
  · rw [Map.getElem?_insert_self, snapshotOf] at h
    rcases hs : mem.state.snapshots[c]? with _ | before
    · next hsome =>
      rw [hs] at hsome
      cases hsome
    · rw [hs] at h
      cases h
      exact (((hnormal before hs).sortedKeys.modify _ _).modify _ _).modify _ _
  · exact (hnormal snapshot h).sortedKeys

/-- In every state whose snapshot of the corpus is validated, a delete leaves nothing of the
document, and a second delete of it changes nothing and answers that it did nothing. -/
theorem delete_document_idempotent (mem : Memory) (c d t1 t2 : String)
    (hvalid : validateStoredSnapshotForUpsert mem.state.snapshots c = .ok ())
    (hnormal : ∀ snapshot, mem.state.snapshots[c]? = some snapshot → snapshot.Normal) :
    NoResidue (applyMemoryDeleteDocument mem c d t1).memory.state c d
      ∧ applyMemoryDeleteDocument (applyMemoryDeleteDocument mem c d t1).memory c d t2
          = ⟨(applyMemoryDeleteDocument mem c d t1).memory, false, answer c d {}⟩
      ∧ (answer c d {}).get "noop" = some (.bool true) := by
  have hclean : NoResidue (applyMemoryDeleteDocument mem c d t1).memory.state c d :=
    apply_noResidue t1 fun snapshot hs => schemasNamed_of_validated hvalid hs
  refine ⟨hclean, apply_noop t2 hclean (apply_sortedKeys hnormal), ?_⟩
  rfl

/-- A corpus whose snapshot holds one passage of one document. -/
def sampleSnapshot : Value :=
  .obj [("corpusId", .str "c"), ("passages", .arr [
    .obj [("metadata", .obj [("documentId", .str "d")]), ("passageId", .str "p")]])]

def sampleMemory : Memory where
  state := { State.default with
    snapshots := (∅ : Map Value).insert "c" sampleSnapshot
    passages := (∅ : Map Passage).insert "c:p" ⟨"p", "c", "d", "text"⟩ }
  vectorValues := ∅

theorem delete_document_idempotent_sample :
    NoResidue (applyMemoryDeleteDocument sampleMemory "c" "d" "t1").memory.state "c" "d"
      ∧ applyMemoryDeleteDocument (applyMemoryDeleteDocument sampleMemory "c" "d" "t1").memory
          "c" "d" "t2"
          = ⟨(applyMemoryDeleteDocument sampleMemory "c" "d" "t1").memory, false,
              answer "c" "d" {}⟩ := by
  have hsnapshot : sampleMemory.state.snapshots["c"]? = some sampleSnapshot :=
    Map.getElem?_insert_self _ _ _
  have h := delete_document_idempotent sampleMemory "c" "d" "t1" "t2"
    (by
      simp only [validateStoredSnapshotForUpsert, snapshotSections, checkAll, storedItems,
        storedSnapshotSection, hsnapshot]
      rfl)
    (by
      intro snapshot hs
      obtain rfl := Option.some.inj (hsnapshot.symm.trans hs)
      simp only [sampleSnapshot, Value.Normal, NormalItems, NormalMembers, Sorted, List.pairwise_cons,
        List.mem_singleton, forall_eq, List.not_mem_nil, false_implies, implies_true, List.Pairwise.nil,
        and_true, true_and]
      decide)
  exact ⟨h.1, h.2.1⟩

end DeleteDocument

end AiraGraphdb.Native
