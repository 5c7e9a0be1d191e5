import AiraGraphdb.Library.Integrity
import AiraGraphdb.Schemes.Except

/-! # Runs of the library

`Reaches` lists the managers of all runs from an empty directory, with the ids that the operations
of the run issued. What holds of every graph that has grown from the empty one holds of every graph
in a run: of the base graph, of the sessions and of what the files give back. -/

namespace AiraGraphdb.Library

open Schemes InMemoryGraphStore Query CommitCrash
open Library.Connections (CypherDialect)

namespace Integrity

/-! ### Deleting and matching -/

section Clauses

variable {ids : List String} {g : InMemoryGraphStore} (order : HashOrder)

/-- A node with an edge is not deleted without `DETACH`. -/
theorem executeDelete_referenced (h : Sound ids g) {query : Text} {nodeId : Text}
    {rest : List Text} (hw : words query = "DELETE".toList :: "NODE".toList :: nodeId :: rest)
    (hd : rest.head? ≠ some "DETACH".toList) {k : String} {e : GraphEdge}
    (he : g.edges[k]? = some e)
    (ht : e.src = String.ofList nodeId ∨ e.dst = String.ofList nodeId) :
    executeDelete order g query = (g, .error (fail .referentialIntegrityViolation
      "node is still referenced by edges; use DETACH")) := by
  have hnode : g.hasNode (String.ofList nodeId) = true := by
    obtain ⟨hs, hd⟩ := h.closed k e he
    rcases ht with ht | ht <;> rw [← ht]
    · exact hs
    · exact hd
  have hne : (edgesTouchingNode order g (String.ofList nodeId)).isEmpty = false := by
    rw [Bool.eq_false_iff]
    intro hemp
    have hk := (@mem_edgesTouchingNode _ h.keyed order _ _).mpr ⟨e, he, ht⟩
    rw [List.isEmpty_iff.mp hemp] at hk
    cases hk
  unfold executeDelete
  simp only [hw, hnode, hne, hd]
  rfl

/-- `DETACH` takes away the node and the edges that touch it, and nothing else. -/
theorem executeDelete_detach (h : Sound ids g) {query : Text} {nodeId : Text}
    {rest : List Text} (hw : words query =
      "DELETE".toList :: "NODE".toList :: nodeId :: "DETACH".toList :: rest) :
    (executeDelete order g query).2 = .ok .ack ∧
      (executeDelete order g query).1.nodes = g.nodes.erase (String.ofList nodeId) ∧
      ∀ k : String, (executeDelete order g query).1.edges[k]? =
        (g.edges[k]?).filter fun e : GraphEdge =>
          e.src ≠ String.ofList nodeId ∧ e.dst ≠ String.ofList nodeId := by
  unfold executeDelete
  simp only [hw, List.head?_cons, decide_true, Bool.not_true, Bool.and_false, Bool.false_eq_true,
    if_true, if_false, ne_eq, not_true_eq_false, or_self]
  by_cases hn : g.hasNode (String.ofList nodeId) = true
  · simp only [hn, Bool.not_true, Bool.false_eq_true, if_false]
    exact ⟨trivial, rfl, deleteNodeDetach_edges h.keyed order _⟩
  · rw [Bool.not_eq_true] at hn
    simp only [hn, Bool.not_false, if_true]
    have hmem : String.ofList nodeId ∉ g.nodes := fun hm => by
      rw [hasNode, Std.ExtTreeMap.contains_iff_mem.mpr hm] at hn
      cases hn
    have hnone : g.nodes[String.ofList nodeId]? = none :=
      Std.ExtTreeMap.getElem?_eq_none hmem
    refine ⟨trivial, (Map.erase_of_getElem?_eq_none hnone).symm, fun k => ?_⟩
    -- no edge ends in a node that is not there
    rcases he : g.edges[k]? with _ | e
    · rfl
    · obtain ⟨hs, hd⟩ := h.closed k e he
      rw [Option.filter_some, if_pos]
      have hs' : e.src ≠ String.ofList nodeId := fun h => hmem (h ▸ hs)
      have hd' : e.dst ≠ String.ofList nodeId := fun h => hmem (h ▸ hd)
      simp [hs', hd']

/-- A result that is no violation of referential integrity. -/
def NoViolation {α : Type} (r : Except Failure α) : Prop :=
  ∀ e : QueryError, r = .error (.error e) → e.error.code ≠ .referentialIntegrityViolation

theorem noViolation_ok {α : Type} (a : α) : NoViolation (.ok a : Except Failure α) := by
  rintro e ⟨⟩

theorem noViolation_unsupported {α : Type} (message clause : String) :
    NoViolation (.error (unsupported message clause) : Except Failure α) := by
  rintro e ⟨⟩ h
  cases h

theorem NoViolation.bind {α β : Type} {r : Except Failure α} {f : α → Except Failure β}
    (hr : NoViolation r) (hf : ∀ a, r = .ok a → NoViolation (f a)) : NoViolation (r >>= f) := by
  rcases h : r with e | a
  · intro e' he'
    exact hr e' (h.trans (by cases he'; rfl))
  · exact hf a h

theorem noViolation_ofOption {α : Type} (x : Option α) (message clause : String) :
    NoViolation (ofOption x (unsupported message clause)) := by
  rcases x with _ | a
  · exact noViolation_unsupported message clause
  · exact noViolation_ok a

theorem parseModifier_noViolation (query : Text) (word missing invalid : String) :
    NoViolation (parseModifier query word missing invalid) := by
  unfold parseModifier
  split
  · exact noViolation_ok _
  · exact (noViolation_ofOption _ _ _).bind fun _ _ =>
      (noViolation_ofOption _ _ _).bind fun _ _ => noViolation_ok _

theorem parseReturnModifiers_noViolation (query : Text) :
    NoViolation (parseReturnModifiers query) := by
  have hrest (orderBy : Bool) : NoViolation (do
      let skip ← parseModifier query "SKIP " "SKIP requires number" "invalid SKIP number"
      let limit ← parseModifier query "LIMIT " "LIMIT requires number" "invalid LIMIT number"
      return (⟨orderBy, skip, limit⟩ : ReturnModifiers)) :=
    (parseModifier_noViolation _ _ _ _).bind fun _ _ =>
      (parseModifier_noViolation _ _ _ _).bind fun _ _ => noViolation_ok _
  unfold parseReturnModifiers
  dsimp only
  split
  · exact hrest false
  split
  · exact hrest true
  · exact noViolation_unsupported _ _

theorem parseRelationshipWeightFilter_noViolation (query : Text) :
    NoViolation (parseRelationshipWeightFilter query) := by
  unfold parseRelationshipWeightFilter
  dsimp only
  repeat' split
  all_goals first | exact noViolation_ok _ | exact noViolation_unsupported _ _

/-- Every edge of a listing has its two ends. -/
theorem edgeEnds_ok (h : Sound ids g) {edge : GraphEdge} (he : edge ∈ listEdges order g) :
    ∃ ends, edgeEnds g edge = .ok ends := by
  rw [listEdges_keyed h.keyed] at he
  obtain ⟨⟨k, e⟩, hm, rfl⟩ := List.mem_map.mp he
  obtain ⟨hs, hd⟩ := h.closed k e (Map.mem_toList.mp hm)
  obtain ⟨source, hs⟩ := Map.mem_iff.mp hs
  obtain ⟨target, hd⟩ := Map.mem_iff.mp hd
  refine ⟨(source, target), ?_⟩
  simp only [edgeEnds, getNode, hs, hd]
  rfl

theorem buildRelationshipRows_ok (h : Sound ids g) (directed optional : Bool)
    (weightFilter : Option Schemes.F64) :
    ∃ rows, buildRelationshipRows order g directed optional weightFilter = .ok rows := by
  rw [buildRelationshipRows]
  refine bind_exists_ok (mapM_of_ok fun edge he => ?_) fun matched => ⟨_, rfl⟩
  obtain ⟨⟨source, target⟩, hends⟩ := edgeEnds_ok order h (List.mem_filter.mp he).1
  exact ⟨_, by rw [hends]; rfl⟩

/-- A relationship query does not find an edge without its ends. -/
theorem executeMatchRelationship_noViolation (h : Sound ids g) (query : Text) (optional : Bool) :
    NoViolation (executeMatchRelationship order g query optional) := by
  unfold executeMatchRelationship
  split
  · exact noViolation_unsupported _ _
  split
  · exact noViolation_unsupported _ _
  refine (parseRelationshipWeightFilter_noViolation query).bind fun weightFilter _ => ?_
  obtain ⟨rows, hrows⟩ := buildRelationshipRows_ok order h (contains query "-[r]->(") optional
    weightFilter
  rw [hrows]
  refine (noViolation_ok rows).bind fun rows _ => NoViolation.bind ?_ fun _ _ => noViolation_ok _
  exact (parseReturnModifiers_noViolation query).bind fun _ _ => noViolation_ok _

end Clauses

/-! ### Runs -/

/-- What a session may do to its graph. -/
inductive GraphOp where
  | query (text : Text) (dialect : CypherDialect) (order : HashOrder)
  | createEdge (src dst edgeType : String) (properties : Properties)
  | updateEdge (edgeId edgeType : String) (properties : Properties)
  | deleteEdge (edgeId : String)

variable (json : LegacyJson) (std : FloatStd)

/-- The graph after an operation, whether it succeeded or not. -/
def GraphOp.run : GraphOp → InMemoryGraphStore → InMemoryGraphStore
  | .query text dialect order, g => (executeQueryWithDialect std order g text dialect).1
  | .createEdge src dst edgeType properties, g =>
    match g.createEdge src dst edgeType properties with
    | some (g', _) => g'
    | none => g
  | .updateEdge edgeId edgeType properties, g =>
    (g.updateEdge edgeId edgeType properties).getD g
  | .deleteEdge edgeId, g => g.deleteEdge edgeId

theorem GraphOp.changes (op : GraphOp) (g : InMemoryGraphStore) :
    ∃ ids, Changes g ids (op.run std g) := by
  cases op with
  | query text dialect order => exact executeQueryWithDialect_changes std order g text dialect
  | createEdge src dst edgeType properties =>
    rw [GraphOp.run]
    split
    · rename_i g' edge hc
      rcases edge with _ | edge
      · rw [InMemoryGraphStore.createEdge] at hc
        split at hc
        · obtain ⟨seq, -, hc⟩ := Option.bind_eq_some_iff.mp hc
          cases hc
        · cases hc
          exact ⟨[], .refl⟩
      · exact ⟨_, .single (.createEdge hc)⟩
    · exact ⟨[], .refl⟩
  | updateEdge edgeId edgeType properties =>
    rw [GraphOp.run]
    rcases hu : g.updateEdge edgeId edgeType properties with _ | g'
    · exact ⟨[], .refl⟩
    · exact ⟨[], .single (.updateEdge hu)⟩
  | deleteEdge edgeId => exact ⟨[], .single (.deleteEdge g edgeId)⟩

/-- A graph that has grown from the empty one, with the ids that its operations issued. -/
inductive Lineage : List String → InMemoryGraphStore → Prop
  | new : Lineage [] .new
  | step {ids : List String} {g : InMemoryGraphStore} (op : GraphOp) :
      Lineage ids g → Lineage (ids ++ idsIssued g (op.run std g)) (op.run std g)

theorem Lineage.sound {ids : List String} {g : InMemoryGraphStore} (h : Lineage std ids g) :
    Sound ids g := by
  induction h with
  | new => exact sound_new
  | step op _ ih =>
    obtain ⟨new, hc⟩ := op.changes std _
    exact (Changes.sound ih hc).perm ((Changes.issued hc).2.2.symm.append_left _)

/-- The managers of all runs from an empty directory, each with the ids that the operations of its
    run issued. A crash is a restart at any point, also after a commit that stopped half way. -/
inductive Reaches : List String → TransactionManager → Prop
  | start {t : TransactionManager} : TransactionManager.new json ⟨none, none⟩ = .ok t →
      Reaches [] t
  | begin {issued : List String} {t t' : TransactionManager} {r : Reply} :
      Reaches issued t → t.begin = some (t', r) → Reaches issued t'
  | work {issued : List String} {t : TransactionManager} {txId : String} {s : TxSession}
      (op : GraphOp) : Reaches issued t → t.sessions[txId]? = some s →
      Reaches (issued ++ idsIssued s.graph (op.run std s.graph)) (t.graphMut txId (op.run std)).1
  | commit {issued : List String} {t t' : TransactionManager} {txId : String} {stop : Option ℕ}
      {r : Reply} : Reaches issued t →
      (∀ s : TxSession, t.sessions[txId]? = some s → Storable txId s.graph) →
      t.commit txId stop = some (t', r) → Reaches issued t'
  | rollback {issued : List String} {t : TransactionManager} (txId : String) :
      Reaches issued t → Reaches issued (t.rollback txId).1
  | recover {issued : List String} {t t' : TransactionManager} :
      Reaches issued t → t.recover json = some (.ok t') → Reaches issued t'
  | reopen {issued : List String} {t t' : TransactionManager} :
      Reaches issued t → TransactionManager.new json t.storage = .ok t' → Reaches issued t'

/-- The graphs that a manager works on. -/
def Holds (t : TransactionManager) (g : InMemoryGraphStore) : Prop :=
  g = t.baseGraph ∨ ∃ (txId : String) (s : TxSession), t.sessions[txId]? = some s ∧ g = s.graph

/-! ### What the files give back -/

section Files

variable {P : InMemoryGraphStore → Prop}

/-- The graphs that the snapshot and the log give back have the property. -/
structure FilesOk (P : InMemoryGraphStore → Prop) (f : Files) : Prop where
  db : ∀ g, DbHolds json f g → P g
  wal : ∀ s, walSnapshot json f = .ok (some s) →
    ∃ g, s = snapshotOf g ∧ InMemoryGraphStore.codec.Fits g ∧ P g

theorem FilesOk.imp {Q : InMemoryGraphStore → Prop} {f : Files} (h : FilesOk json P f)
    (hpq : ∀ g, P g → Q g) : FilesOk json Q f where
  db g hg := hpq g (h.db g hg)
  wal s hs := by
    obtain ⟨g, hsg, hfit, hg⟩ := h.wal s hs
    exact ⟨g, hsg, hfit, hpq g hg⟩

theorem dbHolds_of_load {f f' : Files} {g : InMemoryGraphStore}
    (h : loadOrInit json f = .ok (g, f')) : DbHolds json f' g := by
  have hl := loadOrInit_stable json h
  rcases hdb : f'.db with _ | raw
  · simp [loadGraph, hdb] at hl
  · exact (loadGraph_iff json hdb).mp ⟨f', hl⟩

theorem dbHolds_encoded {f : Files} {g : InMemoryGraphStore}
    (hg : InMemoryGraphStore.codec.Fits g) (hf : f.db = some (encodeSnapshot (snapshotOf g))) :
    DbHolds json f g :=
  (loadGraph_iff json hf).mp ⟨f, loadGraph_encoded json hg hf⟩

theorem FilesOk.loadOrInit {f f' : Files} {g : InMemoryGraphStore} (h : FilesOk json P f)
    (hl : Library.loadOrInit json f = .ok (g, f')) : P g ∧ FilesOk json P f' := by
  have hg := h.db g ((loadOrInit_iff json).mp ⟨f', hl⟩)
  refine ⟨hg, fun g' hg' => ?_, fun s hs => h.wal s ?_⟩
  · rwa [hg'.unique json (dbHolds_of_load json hl)]
  · rwa [walSnapshot, loadOrInit_wal json hl] at hs

theorem FilesOk.recover {f f' : Files} {g : InMemoryGraphStore} (h : FilesOk json P f)
    (hr : Library.recover json f = .ok (g, f')) : P g ∧ FilesOk json P f' := by
  change start json f .recover = .ok (g, f') at hr
  rcases hw : walSnapshot json f with e | _ | s
  · rw [start_recover_error json hw] at hr
    cases hr
  · rw [start_recover_none json hw] at hr
    exact h.loadOrInit json hr
  · rw [start_recover_some json hw] at hr
    obtain ⟨rfl, rfl⟩ := Prod.mk.inj (Except.ok.inj hr)
    obtain ⟨g, rfl, hfit, hg⟩ := h.wal s hw
    refine ⟨hg, fun g' hg' => ?_, fun s hs => h.wal s hs⟩
    rwa [hg'.unique json (dbHolds_encoded json hfit rfl)]

/-- A commit that writes a graph with the property, stopped anywhere. -/
theorem FilesOk.commit {f : Files} {txId : String} {g : InMemoryGraphStore} (h : FilesOk json P f)
    (hs : Storable txId g) (hg : P g) (k : ℕ) :
    FilesOk json P (after applyEffect k (persistAfterWal txId g) f) := by
  have hlen := length_persistAfterWal txId g
  have hfull : latestInWal json (walBytes txId (snapshotOf g)) = .ok (some (snapshotOf g)) := by
    have := (latestInWal_cut json hs _).2.2 rfl
    rwa [List.take_length] at this
  have hrecord {s : PersistedSnapshot} (heq : s = snapshotOf g) :
      ∃ g, s = snapshotOf g ∧ InMemoryGraphStore.codec.Fits g ∧ P g := ⟨g, heq, hs.graph, hg⟩
  have hwhole {s : PersistedSnapshot}
      (hl : latestInWal json (walBytes txId (snapshotOf g)) = .ok (some s)) :
      ∃ g, s = snapshotOf g ∧ InMemoryGraphStore.codec.Fits g ∧ P g := by
    rw [hfull] at hl
    exact hrecord (Option.some.inj (Except.ok.inj hl)).symm
  rcases Nat.eq_zero_or_pos k with rfl | hpos
  · exact h
  by_cases hlog : k ≤ 1 + (walBytes txId (snapshotOf g)).length
  · -- the stop is in the log
    obtain ⟨j, rfl⟩ : ∃ j, k = 1 + j := ⟨k - 1, by omega⟩
    rw [after_persistAfterWal_log (by omega)]
    refine ⟨fun g' hg' => h.db g' ((DbHolds.congr json rfl).mp hg'), fun s hw => ?_⟩
    have hcut : latestInWal json ((walBytes txId (snapshotOf g)).take j) = .ok (some s) := hw
    obtain ⟨hnone, herr, -⟩ := latestInWal_cut json hs j
    by_cases h₁ : j = 0 ∨ (6 ≤ j ∧ j < 14)
    · rw [hnone h₁] at hcut
      cases hcut
    by_cases h₂ : j = (walBytes txId (snapshotOf g)).length
    · rw [h₂, List.take_length] at hcut
      exact hwhole hcut
    · obtain ⟨e, he⟩ := herr (by omega)
      rw [he] at hcut
      cases hcut
  -- the stop is in the snapshot, or there is none
  obtain ⟨j, rfl⟩ : ∃ j, k = 2 + (walBytes txId (snapshotOf g)).length + j :=
    ⟨k - 2 - (walBytes txId (snapshotOf g)).length, by omega⟩
  rw [after_persistAfterWal_snapshot]
  refine ⟨fun g' hg' => ?_, fun s hw => hwhole hw⟩
  by_cases hj : j < (encodeSnapshot (snapshotOf g)).length
  · obtain ⟨e, he⟩ := decodeSnapshot_cut json hs.graph hj
    obtain ⟨s, m, hd, -⟩ := hg'
    rw [he] at hd
    cases hd
  · rw [List.take_of_length_le (by omega)] at hg'
    rwa [hg'.unique json (dbHolds_encoded json hs.graph rfl)]

end Files

/-! ### What holds of every graph in a run -/

/-- The graphs that a manager works on or that its files give back have the property. -/
structure Intact (P : InMemoryGraphStore → Prop) (t : TransactionManager) : Prop where
  base : P t.baseGraph
  session : ∀ (txId : String) (s : TxSession), t.sessions[txId]? = some s → P s.graph
  files : FilesOk json P t.storage

theorem Intact.imp {P Q : InMemoryGraphStore → Prop} {t : TransactionManager}
    (h : Intact json P t) (hpq : ∀ g, P g → Q g) : Intact json Q t where
  base := hpq _ h.base
  session txId s hs := hpq _ (h.session txId s hs)
  files := h.files.imp json hpq

theorem Intact.holds {P : InMemoryGraphStore → Prop} {t : TransactionManager}
    (h : Intact json P t) {g : InMemoryGraphStore} (hg : Holds t g) : P g := by
  rcases hg with rfl | ⟨txId, s, hs, rfl⟩
  · exact h.base
  · exact h.session txId s hs

section Calls

variable {P : InMemoryGraphStore → Prop} {t t' : TransactionManager}

theorem intact_new {f : Files} (h : FilesOk json P f)
    (hn : TransactionManager.new json f = .ok t) : Intact json P t := by
  obtain ⟨⟨g, f'⟩, hl, hn⟩ := bind_ok.mp hn
  cases hn
  obtain ⟨hg, hf⟩ := h.loadOrInit json hl
  exact ⟨hg, fun txId s hs => by simp at hs, hf⟩

theorem Intact.begin (h : Intact json P t) {r : Reply} (hb : t.begin = some (t', r)) :
    Intact json P t' := by
  obtain ⟨n, -, -, rfl⟩ := Serializable.begin_cases hb
  refine ⟨h.base, fun txId s hs => ?_, h.files⟩
  rw [Std.ExtTreeMap.getElem?_insert] at hs
  split at hs
  · cases hs
    exact h.base
  · exact h.session txId s hs

theorem Intact.graphMut (h : Intact json P t) {txId : String} {s : TxSession}
    (hs : t.sessions[txId]? = some s) {op : InMemoryGraphStore → InMemoryGraphStore}
    (hop : P (op s.graph)) : Intact json P (t.graphMut txId op).1 := by
  rcases Serializable.graphMut_cases t txId op with ⟨hnone, -⟩ | ⟨s', hs', he⟩
  · rw [hs] at hnone
    cases hnone
  · rw [hs] at hs'
    cases hs'
    rw [he]
    refine ⟨h.base, fun txId' s' hs' => ?_, h.files⟩
    rw [Std.ExtTreeMap.getElem?_insert] at hs'
    split at hs'
    · cases hs'
      exact hop
    · exact h.session txId' s' hs'

theorem Intact.erase (h : Intact json P t) (txId : String) :
    Intact json P { t with sessions := t.sessions.erase txId } := by
  refine ⟨h.base, fun txId' s hs => ?_, h.files⟩
  rw [Std.ExtTreeMap.getElem?_erase] at hs
  split at hs
  · cases hs
  · exact h.session txId' s hs

theorem Intact.commit (h : Intact json P t) {txId : String} {stop : Option ℕ} {r : Reply}
    (hst : ∀ s : TxSession, t.sessions[txId]? = some s → Storable txId s.graph)
    (hc : t.commit txId stop = some (t', r)) : Intact json P t' := by
  rcases Serializable.commit_cases hc with ⟨-, rfl, -⟩ | ⟨s, hs, hcase⟩
  · exact h
  have hfiles (k : ℕ) := h.files.commit json (hst s hs) (h.session txId s hs) k
  have herase := h.erase json txId
  rcases hcase with ⟨-, rfl, -⟩ | ⟨-, k, -, rfl, -⟩ | ⟨-, -, v, -, rfl, -⟩
  · exact herase
  · exact ⟨h.base, herase.session, hfiles k⟩
  · have hdone := hfiles (persistAfterWal txId s.graph).length
    rw [after_of_length_le applyEffect le_rfl] at hdone
    refine ⟨h.session txId s hs, herase.session, ?_⟩
    dsimp only
    exact hdone

theorem Intact.rollback (h : Intact json P t) (txId : String) :
    Intact json P (t.rollback txId).1 := by
  rcases Serializable.rollback_cases t txId with ⟨-, he⟩ | ⟨-, he⟩ <;> rw [he]
  · exact h
  · exact h.erase json txId

theorem Intact.recover (h : Intact json P t) (hr : t.recover json = some (.ok t')) :
    Intact json P t' := by
  rw [TransactionManager.recover] at hr
  split at hr
  · cases hr
  · rename_i g f hl
    obtain ⟨v, -, hr⟩ := Option.bind_eq_some_iff.mp hr
    cases hr
    obtain ⟨hg, hf⟩ := h.files.recover json hl
    exact ⟨hg, fun txId s hs => by simp at hs, hf⟩

end Calls

/-- Every graph of a run has grown by its own operations, and its ids are among those that the
    operations of the run issued. -/
theorem Reaches.intact {issued : List String} {t : TransactionManager}
    (h : Reaches json std issued t) :
    Intact json (fun g => ∃ ids, ids.Sublist issued ∧ Lineage std ids g) t := by
  induction h with
  | start hn =>
    refine intact_new json ⟨fun g hg => ?_, fun s hs => by cases hs⟩ hn
    obtain rfl : g = .new := hg
    exact ⟨[], .slnil, .new⟩
  | begin _ hb ih => exact ih.begin json hb
  | @work issued t txId s op _ hs ih =>
    obtain ⟨ids, hsub, hl⟩ := ih.session txId s hs
    refine (ih.imp json fun g hg => ?_).graphMut json hs ⟨_, hsub.append_right _, hl.step op⟩
    obtain ⟨ids, hsub, hl⟩ := hg
    exact ⟨ids, hsub.trans (List.sublist_append_left _ _), hl⟩
  | commit _ hst hc ih => exact ih.commit json hst hc
  | rollback txId _ ih => exact ih.rollback json txId
  | recover _ hr ih => exact ih.recover json hr
  | reopen _ hn ih => exact intact_new json ih.files hn

/-- In every run: the nodes and edges of a graph are under their own ids and its edges have both
    ends; it has grown without issuing an id twice; a node with an edge is not deleted, a detached
    one goes with its edges and nothing else does; and no relationship query, on the graph or on one
    that changes of it lead to, finds an edge without its ends. -/
theorem referential_integrity {issued : List String} {t : TransactionManager}
    (h : Reaches json std issued t) {g : InMemoryGraphStore} (hg : Holds t g) :
    g.Keyed ∧
    (∀ (k : String) (e : GraphEdge), g.edges[k]? = some e → e.src ∈ g.nodes ∧ e.dst ∈ g.nodes) ∧
    (∃ ids, ids.Sublist issued ∧ Lineage std ids g ∧ ids.Nodup ∧
      (∀ k ∈ g.nodes, k ∈ ids) ∧ ∀ k ∈ g.edges, k ∈ ids) ∧
    (∀ (order : HashOrder) (query nodeId : Text) (rest : List Text),
      words query = "DELETE".toList :: "NODE".toList :: nodeId :: rest →
      rest.head? ≠ some "DETACH".toList →
      (∃ (k : String) (e : GraphEdge), g.edges[k]? = some e ∧
        (e.src = String.ofList nodeId ∨ e.dst = String.ofList nodeId)) →
      executeDelete order g query = (g, .error (fail .referentialIntegrityViolation
        "node is still referenced by edges; use DETACH"))) ∧
    (∀ (order : HashOrder) (query nodeId : Text) (rest : List Text),
      words query = "DELETE".toList :: "NODE".toList :: nodeId :: "DETACH".toList :: rest →
      (executeDelete order g query).2 = .ok .ack ∧
        (executeDelete order g query).1.nodes = g.nodes.erase (String.ofList nodeId) ∧
        ∀ k : String, (executeDelete order g query).1.edges[k]? =
          (g.edges[k]?).filter fun e : GraphEdge =>
            e.src ≠ String.ofList nodeId ∧ e.dst ≠ String.ofList nodeId) ∧
    (∀ (new : List String) (g' : InMemoryGraphStore), Changes g new g' →
      ∀ (order : HashOrder) (query : Text) (optional : Bool),
        NoViolation (executeMatchRelationship order g' query optional)) := by
  obtain ⟨ids, hsub, hl⟩ := (h.intact json std).holds json hg
  have hs := hl.sound std
  refine ⟨hs.keyed, hs.closed, ⟨ids, hsub, hl, hs.nodup, hs.nodes, hs.edges⟩, ?_, ?_, ?_⟩
  · rintro order query nodeId rest hw hd ⟨k, e, he, ht⟩
    exact executeDelete_referenced order hs hw hd he ht
  · intro order query nodeId rest hw
    exact executeDelete_detach order hs hw
  · intro new g' hc order query optional
    exact executeMatchRelationship_noViolation order (Changes.sound hs hc) query optional

/-- A standard library for queries that print and compare no double. -/
def plainStd : FloatStd := ⟨fun x => x.bits.toNat.repr, fun x _ => x, fun x _ => x⟩

def createA : GraphOp := .query "CREATE (n:A)".toList .openCypher9 .ascending

theorem createA_issued : idsIssued .new (createA.run plainStd .new) = ["n1"] := by decide +kernel

/-- A manager with one session, on the empty graph, and no other work done. -/
def opened (n : UInt64) (txId : String) : TransactionManager :=
  { TransactionManager.empty with
    txSeq := n
    sessions := (∅ : Std.ExtTreeMap String TxSession).insert txId ⟨.new, 0⟩ }

theorem opened_work (n : UInt64) (txId : String) (op : InMemoryGraphStore → InMemoryGraphStore) :
    ((opened n txId).graphMut txId op).1 = { opened n txId with
      sessions := (opened n txId).sessions.insert txId ⟨op .new, 0⟩ } := by
  simp [TransactionManager.graphMut, opened]

theorem reaches_opened : Reaches .rejecting plainStd [] (opened 1 "tx-1") :=
  .begin (.start (TransactionManager.new_empty _)) (show _ = some (_, .began "tx-1") from rfl)

theorem reaches_created : Reaches .rejecting plainStd ["n1"]
    ((opened 1 "tx-1").graphMut "tx-1" (createA.run plainStd)).1 := by
  have h := @Reaches.work _ _ _ _ "tx-1" ⟨.new, 0⟩ createA reaches_opened (by simp [opened])
  rwa [createA_issued] at h

/-- The session of the run that created a node. -/
theorem referential_integrity_created : (createA.run plainStd .new).Keyed ∧
    ∀ (order : HashOrder) (query : Text) (optional : Bool),
      NoViolation (executeMatchRelationship order (createA.run plainStd .new) query optional) := by
  have hg : Holds ((opened 1 "tx-1").graphMut "tx-1" (createA.run plainStd)).1
      (createA.run plainStd .new) := by
    rw [opened_work]
    exact .inr ⟨"tx-1", ⟨createA.run plainStd .new, 0⟩, by simp, rfl⟩
  obtain ⟨hk, -, -, -, -, hm⟩ := referential_integrity .rejecting plainStd reaches_created hg
  exact ⟨hk, hm [] _ .refl⟩

/-- A rolled back session's id is issued again. -/
theorem ids_not_issued_once : ¬ ∀ (issued : List String) (t : TransactionManager),
    Reaches .rejecting plainStd issued t → issued.Nodup := by
  intro h
  have hroll := Reaches.rollback "tx-1" reaches_created
  have hsessions : ((opened 1 "tx-1").sessions.insert "tx-1"
      ⟨createA.run plainStd .new, 0⟩).erase "tx-1" = ∅ := by
    refine Std.ExtTreeMap.ext_getElem? fun k => ?_
    by_cases hk : "tx-1" = k
    · subst hk
      simp
    · simp [opened, hk]
  have hempty : (((opened 1 "tx-1").graphMut "tx-1" (createA.run plainStd)).1.rollback "tx-1").1 =
      { TransactionManager.empty with txSeq := 1 } := by
    rw [opened_work, TransactionManager.rollback]
    simp only [Std.ExtTreeMap.getElem?_insert_self, hsessions]
    rfl
  rw [hempty] at hroll
  have hbegin : Reaches .rejecting plainStd ["n1"] (opened 2 "tx-2") :=
    hroll.begin (show _ = some (_, .began "tx-2") from rfl)
  have hwork := @Reaches.work _ _ _ _ "tx-2" ⟨.new, 0⟩ createA hbegin (by simp [opened])
  rw [createA_issued] at hwork
  exact absurd (h _ _ hwork) (by decide)

end Integrity

end AiraGraphdb.Library
