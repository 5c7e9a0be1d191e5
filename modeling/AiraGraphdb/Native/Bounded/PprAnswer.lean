import AiraGraphdb.Native.Bounded.ContractSchema
import AiraGraphdb.Native.Bounded.Rankings

/-! # What PPR answers with

In the arithmetic of doubles the scores are whatever rounding makes of them. What is certain is what
the iterations check: they are numbers, none of them the negative zero, and the distance they stop at
is the one they report. -/

namespace AiraGraphdb.Native.Bounded

open Schemes Schemes.Json

/-- The logarithm of the platform. -/
class Logarithm where
  log2 : F64 → F64

instance doubles [Logarithm] : Arithmetic F64 := ieee Logarithm.log2

namespace Finds

variable {α : Type} {D : Prop}

/-- Nothing is claimed of a run. -/
theorem any (r : Run α) : Finds True r fun _ => True := by
  intro m _
  rcases r m with e | ⟨a, m'⟩
  · exact fun _ => trivial
  · trivial

theorem accountGraphScanUnit : Finds D accountGraphScanUnit fun _ => True :=
  (count (by decide)).bind fun _ _ => advance 1

theorem scanUnits : ∀ n : ℕ, Finds D (scanUnits n) fun _ => True
  | 0 => pure trivial
  | n + 1 => accountGraphScanUnit.bind fun _ _ => scanUnits n

theorem buildCountedGraphVec (len : ℕ) (build : ℕ → α) :
    Finds D (buildCountedGraphVec len build) fun values => values = (List.range len).map build := by
  rw [buildCountedGraphVec_eq]
  exact checkpoint.bind fun _ _ => checkpoint.bind fun _ _ => (scanUnits len).bind fun _ _ => pure rfl

theorem canonicalCountedSort (cmp : α → α → Ordering) (values : List α) :
    Finds D (canonicalCountedSort cmp values) fun sorted =>
      sorted = MergeSort.sort (noGreater cmp) values := by
  rw [canonicalCountedSort_eq]
  split
  · exact pure rfl
  · exact checkpoint.bind fun _ _ => checkpoint.bind fun _ _ => (scanUnits _).bind fun _ _ => pure rfl

end Finds

/-! ### The nodes -/

theorem discoverEndpoint_finds {nodeIds : List String} (h : nodeIds.Nodup) (nodeId : String) :
    Finds True (discoverEndpoint nodeIds nodeId) List.Nodup := by
  rw [discoverEndpoint]
  split
  · exact Finds.pure h
  · rename_i hnew
    refine (Finds.any _).bind fun _ _ => (Finds.any _).bind fun _ _ => Finds.pure ?_
    rw [List.nodup_append_comm, List.singleton_append, List.nodup_cons]
    exact ⟨hnew, h⟩

/-- Every node is there once. -/
theorem pprGraph_finds (edges : List (String × GraphEdge)) (corpusId : String)
    (graphNodes graphEdges : ℕ) :
    Finds True (pprGraph edges corpusId graphNodes graphEdges) fun graph => graph.1.Nodup := by
  rw [pprGraph]
  refine (Finds.any _).bind fun _ _ => (Finds.any _).bind fun _ _ => (Finds.any _).bind fun _ _ =>
    (Finds.any _).bind fun _ _ => (Finds.any _).bind fun _ _ => (Finds.any _).bind fun _ _ => ?_
  refine (Finds.any _).bind fun arcs _ => (Finds.any _).bind fun _ _ => ?_
  refine (Finds.any _).bind fun arcs _ => ?_
  have hdiscovered : Finds True (arcs.foldlM discoverArc []) List.Nodup := by
    refine Finds.foldlM (I := fun _ (nodeIds : List String) => nodeIds.Nodup) List.nodup_nil ?_
    intro done arc rest nodeIds _ h
    rw [discoverArc]
    refine (discoverEndpoint_finds h _).bind fun nodeIds h => ?_
    refine (discoverEndpoint_finds h _).bind fun nodeIds h => ?_
    exact (Finds.any _).bind fun _ _ => (Finds.any _).bind fun _ _ => Finds.pure h
  refine hdiscovered.bind fun nodeIds hnodup => ?_
  refine (Finds.canonicalCountedSort Utf16.cmp nodeIds).bind fun sorted hsorted => ?_
  refine (Finds.any _).bind fun _ _ => (Finds.any _).bind fun _ _ => (Finds.any _).bind fun _ _ =>
    Finds.pure ?_
  rw [hsorted]
  exact (MergeSort.sort_perm _).nodup_iff.mpr hnodup

/-! ### The iterations -/

section Doubles

variable [Logarithm]

/-- Numbers that can be told apart by comparing them: finite, and none the negative zero. -/
def Plain (x : F64) : Prop := x.isFinite = true ∧ x ≠ F64.negZero

omit [Logarithm] in
theorem getD_ne_negZero {values : List F64} (h : ∀ x ∈ values, x ≠ F64.negZero) (i : ℕ) :
    values.getD i F64.zero ≠ F64.negZero := by
  rw [List.getD_eq_getElem?_getD]
  rcases hi : values[i]? with _ | x
  · exact (by decide : F64.zero ≠ F64.negZero)
  · exact h x (List.mem_of_getElem? hi)

theorem ofNat_eq (n : ℕ) : (Arithmetic.ofNat n : F64) = F64.ofInt n := rfl

theorem zero_eq : (Arithmetic.zero : F64) = F64.zero := by
  rw [Arithmetic.zero, ofNat_eq, Nat.cast_zero, F64.ofInt_zero]

theorem distribute_finds {input : PprInput F64} {scores next : List F64} {n : ℕ}
    (h : next.length = n ∧ ∀ x ∈ next, x ≠ F64.negZero) (source : ℕ) :
    Finds True (distribute input scores next source) fun next =>
      next.length = n ∧ ∀ x ∈ next, x ≠ F64.negZero := by
  rw [distribute]
  refine (Finds.any _).bind fun _ _ => ?_
  dsimp only
  split
  · exact Finds.pure h
  · refine (Finds.any _).bind fun _ _ => ?_
    refine Finds.foldlM (I := fun _ (next : List F64) => next.length = n
      ∧ ∀ x ∈ next, x ≠ F64.negZero) h ?_
    intro done arc rest next _ hnext
    refine (Finds.any _).bind fun _ _ => Finds.pure ⟨by rw [List.length_set, hnext.1], ?_⟩
    intro x hx
    rcases List.mem_or_eq_of_mem_set hx with hx | rfl
    · exact hnext.2 x hx
    · refine F64.add_ne_negZero ?_
      rw [zero_eq]
      exact getD_ne_negZero hnext.2 _

/-- The numbers of one iteration, as many as there are teleport places. -/
theorem pprIteration_finds {input : PprInput F64} {scores : List F64}
    (hscores : min input.nodes input.teleport.length ≤ scores.length) :
    Finds True (pprIteration input scores) fun next =>
      (∀ x ∈ next.1, Plain x) ∧ next.1.length = min input.nodes input.teleport.length
        ∧ next.2.isFinite = true ∧ next.2.negative = false := by
  rw [pprIteration]
  refine (Finds.buildCountedGraphVec input.nodes _).bind fun empty hempty => ?_
  have hstart : empty.length = input.nodes ∧ ∀ x ∈ empty, x ≠ F64.negZero := by
    rw [hempty]
    refine ⟨by simp, fun x hx => ?_⟩
    obtain ⟨_, -, rfl⟩ := List.mem_map.mp hx
    rw [zero_eq]
    decide
  refine (Finds.foldlM (I := fun _ (next : List F64) => next.length = input.nodes
    ∧ ∀ x ∈ next, x ≠ F64.negZero) hstart fun _ source _ _ _ h => distribute_finds h source).bind
    fun pushed hpushed => ?_
  -- the teleport is added to what the edges brought
  refine (Finds.foldlM (D := True) (I := fun (done : List (F64 × F64)) (next : List F64) =>
    next.length = done.length ∧ ∀ x ∈ next, x ≠ F64.negZero) ?_ ?_).bind fun next hnext => ?_
  · exact ⟨rfl, fun x hx => absurd hx List.not_mem_nil⟩
  · intro done pair rest next hdone h
    refine (Finds.any _).bind fun _ _ => Finds.pure ⟨by simp [h.1], fun x hx => ?_⟩
    rcases List.mem_append.mp hx with hx | hx
    · exact h.2 x hx
    · rw [List.mem_singleton.mp hx]
      have hpair : (pair.1, pair.2) ∈ pushed.zip input.teleport := by rw [hdone]; simp
      exact F64.add_ne_negZero (hpushed.2 _ (List.of_mem_zip hpair).1)
  have hlength : next.length = min input.nodes input.teleport.length := by
    rw [hnext.1, List.length_zip, hpushed.1]
  -- the distance is a sum of numbers without a sign
  refine (Finds.foldlM (D := True) (I := fun (done : List (F64 × F64)) (delta : F64) =>
    delta.negative = false ∧ ∀ pair ∈ done, pair.1.isFinite = true) ?_ ?_).bind
    fun delta hdelta => ?_
  · exact ⟨by rw [zero_eq]; decide, fun pair hp => absurd hp List.not_mem_nil⟩
  · intro done pair rest delta _ h
    refine (Finds.require fun _ _ => trivial).bind fun _ hfinite => ?_
    refine (Finds.any _).bind fun _ _ => Finds.pure ⟨F64.negative_add h.1 (F64.negative_abs _), ?_⟩
    intro other hother
    rcases List.mem_append.mp hother with hother | hother
    · exact h.2 other hother
    · rw [List.mem_singleton.mp hother]
      exact hfinite
  refine (Finds.require fun _ _ => trivial).bind fun _ hfinite => Finds.pure ?_
  refine ⟨fun x hx => ⟨?_, hnext.2 x hx⟩, hlength, hfinite, hdelta.1⟩
  have hfst : (next.zip scores).map Prod.fst = next := List.map_fst_zip (hlength ▸ hscores)
  rw [← hfst] at hx
  obtain ⟨pair, hpair, rfl⟩ := List.mem_map.mp hx
  exact hdelta.2 pair hpair

/-- What the iterations end with. -/
structure Scored (epsilon : F64) (maxIterations : ℕ) (scored : PprScores F64) : Prop where
  scores : ∀ x ∈ scored.scores, Plain x
  finite : scored.l1Delta.isFinite = true
  unsigned : scored.l1Delta.negative = false
  converged : scored.converged = F64.lt scored.l1Delta epsilon
  began : 1 ≤ scored.iterations
  ended : scored.iterations ≤ maxIterations
  exhausted : scored.converged = false → scored.iterations = maxIterations

theorem pprIterate_finds (input : PprInput F64) (left : ℕ) :
    ∀ (iteration : ℕ) (scores : List F64) (l1Delta : F64),
      min input.nodes input.teleport.length ≤ scores.length → 1 ≤ iteration + left →
      (1 ≤ iteration → (∀ x ∈ scores, Plain x) ∧ l1Delta.isFinite = true ∧ l1Delta.negative = false
        ∧ F64.lt l1Delta input.epsilon = false) →
      Finds True (pprIterate input iteration scores l1Delta left)
        (Scored input.epsilon (iteration + left)) := by
  induction left with
  | zero =>
    intro iteration scores l1Delta _ hbegan hprevious
    obtain ⟨hscores, hfinite, hsign, hlt⟩ := hprevious hbegan
    exact Finds.pure ⟨hscores, hfinite, hsign, hlt.symm, hbegan, le_rfl, fun _ => rfl⟩
  | succ left ih =>
    intro iteration scores l1Delta hlength hbegan _
    rw [pprIterate]
    refine (pprIteration_finds hlength).bind fun next hnext => ?_
    obtain ⟨hscores, hnodes, hfinite, hsign⟩ := hnext
    refine (Finds.any _).bind fun _ _ => ?_
    split
    · rename_i hlt
      have hended : iteration + 1 ≤ iteration + (left + 1) := by omega
      exact Finds.pure ⟨hscores, hfinite, hsign, hlt.symm, Nat.le_add_left 1 iteration, hended,
        fun h => by cases h⟩
    · rename_i hlt
      refine (ih (iteration + 1) next.1 next.2 hnodes.ge (by omega) fun _ =>
        ⟨hscores, hfinite, hsign, Bool.eq_false_iff.mpr hlt⟩).post fun scored h => ?_
      rwa [Nat.add_assoc, Nat.add_comm 1 left] at h

/-- The nodes of a PPR and what its iterations end with. -/
theorem pprScores_finds (edges : List (String × GraphEdge)) (corpusId : String) (plan : Value)
    (graphNodes graphEdges : ℕ) :
    Finds True (pprScores (R := F64) edges corpusId plan graphNodes graphEdges) fun result =>
      result.1.Nodup ∧ ∃ epsilon maxIterations, getF64 plan "convergenceEpsilon" = some epsilon
        ∧ getU64 plan "maxIterations" = some maxIterations
        ∧ (1 ≤ maxIterations → Scored epsilon maxIterations result.2) := by
  rw [pprScores]
  refine (pprGraph_finds edges corpusId graphNodes graphEdges).bind fun graph hnodup => ?_
  refine (Finds.any _).bind fun csr _ => (Finds.any _).bind fun threshold _ => ?_
  refine (Finds.any _).bind fun damping _ => (Finds.any _).bind fun teleport _ => ?_
  refine (Finds.any _).bind fun probability _ => ?_
  refine (Finds.orBlank fun _ _ => trivial).bind fun epsilon hepsilon => ?_
  refine (Finds.orBlank fun _ _ => trivial).bind fun iterations hiterations => ?_
  refine (Finds.buildCountedGraphVec teleport.length _).bind fun scores hscores => ?_
  by_cases hbegan : 1 ≤ iterations
  · refine (pprIterate_finds _ iterations 0 scores Arithmetic.zero ?_ (by omega) fun h => ?_).bind
      fun scored h => Finds.pure ⟨hnodup, epsilon, iterations, hepsilon, hiterations, fun _ => ?_⟩
    · rw [hscores, List.length_map, List.length_range]
      exact min_le_right _ _
    · omega
    · rwa [Nat.zero_add] at h
  · exact (Finds.any _).bind fun scored _ =>
      Finds.pure ⟨hnodup, epsilon, iterations, hepsilon, hiterations, fun h => absurd h hbegan⟩

end Doubles

/-! ### The ranking -/

section Kept

variable {R : Type} [Arithmetic R]

/-- Nodes of a kind as entries of a ranking. -/
def nodeItems (kind : String → Bool) (nodes : List (String × R)) : List (RankedItem R Unit) :=
  (nodes.filter fun node => kind node.1).map fun node => ⟨node.1, node.2, ()⟩

def isPassageNode (nodeId : String) : Bool := hasPrefix nodeId "passage:"

def isFactNode (nodeId : String) : Bool := !hasPrefix nodeId "passage:" && hasPrefix nodeId "fact:"

/-- All entries offered to what is kept already. -/
def retainAll (limit : ℕ) (retained items : List (RankedItem R Unit)) : List (RankedItem R Unit) :=
  items.foldl (fun retained item =>
    retainBoundedRanked retained item.id item.score item.payload limit) retained

/-- The two kinds are ranked each for itself. -/
theorem foldl_rankNodeScore (passageLimit factLimit : ℕ) (nodes : List (String × R))
    (kept : List (RankedItem R Unit) × List (RankedItem R Unit)) :
    nodes.foldl (rankNodeScore passageLimit factLimit) kept
      = (retainAll passageLimit kept.1 (nodeItems isPassageNode nodes),
        retainAll factLimit kept.2 (nodeItems isFactNode nodes)) := by
  induction nodes generalizing kept with
  | nil => rfl
  | cons node nodes ih =>
    rw [List.foldl_cons, ih, rankNodeScore]
    by_cases hpassage : hasPrefix node.1 "passage:" = true
    · simp [hpassage, nodeItems, isPassageNode, isFactNode, retainAll]
    · by_cases hfact : hasPrefix node.1 "fact:" = true <;>
        simp [hpassage, hfact, nodeItems, isPassageNode, isFactNode, retainAll]

theorem fst_zip_sublist {α β : Type} (xs : List α) (ys : List β) :
    ((xs.zip ys).map Prod.fst).Sublist xs := by
  induction xs generalizing ys with
  | nil => exact List.Sublist.refl []
  | cons x xs ih =>
    cases ys with
    | nil => exact List.nil_sublist _
    | cons y ys => exact (ih ys).cons_cons x

omit [Arithmetic R] in
theorem nodeItems_nodup {nodeIds : List String} (h : nodeIds.Nodup) (kind : String → Bool)
    (scores : List R) : ((nodeItems kind (nodeIds.zip scores)).map RankedItem.id).Nodup := by
  have hids : ((nodeIds.zip scores).map Prod.fst).Nodup :=
    h.sublist (fst_zip_sublist _ _)
  rw [nodeItems, List.map_map]
  exact hids.sublist ((List.filter_sublist).map _)

/-- A ranked node with the stored object that its id names. -/
structure NodeOf [Externals] (state : State) (catalog : Catalog) (corpusId sectionName text : String)
    (entry : RankedItem R Unit × ℕ) (node : RankedNode R) : Prop where
  nodeId : node.nodeId = entry.1.id
  score : node.score = entry.1.score
  rank : node.rank = entry.2 + 1
  object : ∃ itemId, entry.1.id = text ++ itemId
    ∧ boundedSnapshotItem state catalog corpusId sectionName itemId = .ok node.object

omit [Arithmetic R] in
theorem materializeRanked_finds [Externals] (state : State) (catalog : Catalog)
    (corpusId sectionName text : String) (retained : List (RankedItem R Unit)) [Arithmetic R] :
    Finds True (materializeRanked state catalog corpusId sectionName text retained)
      (List.Forall₂ (NodeOf state catalog corpusId sectionName text)
        (finishBoundedRanking retained).zipIdx) := by
  rw [materializeRanked]
  refine Finds.mapM fun entry _ => ?_
  refine (Finds.orFail fun _ _ => trivial).bind fun itemId hitemId => ?_
  refine (Finds.ofExcept (fun object hobject => hobject) fun _ _ _ => trivial).bind
    fun object hobject => ?_
  refine (Finds.materializeDomainObject object).bind fun copy hcopy => Finds.pure ?_
  refine ⟨rfl, rfl, rfl, String.ofList itemId, ?_, by rw [hcopy]; exact hobject⟩
  rw [Text.stripPrefix_eq_some] at hitemId
  rw [← String.toList_inj, hitemId, String.toList_append, String.toList_ofList]

end Kept

theorem exists_of_forall₂ {α β : Type} {S : α → β → Prop} {xs : List α} {ys : List β}
    (h : List.Forall₂ S xs ys) {y : β} (hy : y ∈ ys) : ∃ x ∈ xs, S x y := by
  induction h with
  | nil => cases hy
  | cons hxy _ ih =>
    rcases List.mem_cons.mp hy with rfl | hy
    · exact ⟨_, List.mem_cons_self, hxy⟩
    · obtain ⟨x, hx, hxy⟩ := ih hy
      exact ⟨x, List.mem_cons_of_mem _ hx, hxy⟩

section Answer

variable [Externals] [Logarithm]

instance : Std.TransCmp (Arithmetic.totalCmp (R := F64)) :=
  inferInstanceAs (Std.TransCmp F64.totalCmp)

instance : Std.LawfulEqCmp (Arithmetic.totalCmp (R := F64)) :=
  inferInstanceAs (Std.LawfulEqCmp F64.totalCmp)

/-- Ranked nodes as they are answered: so many, each once, in their order, and each with the object of
the corpus that its id names. -/
structure RankedNodes (corpusId text idField : String) (limit : ℕ) (nodes : List (RankedNode F64)) :
    Prop where
  length : nodes.length ≤ limit
  nodup : (nodes.map RankedNode.nodeId).Nodup
  ordered : orderedScoreDescIdAsc none (nodes.map fun node => (node.score, node.nodeId)) = true
  ranks : nodes.map RankedNode.rank = (List.range nodes.length).map (· + 1)
  finite : ∀ node ∈ nodes, node.score.isFinite = true
  objects : ∀ node ∈ nodes, getStr node.object "corpusId" = some corpusId
    ∧ ∃ itemId, node.nodeId = text ++ itemId ∧ getStr node.object idField = some itemId

theorem rankedNodes_of_forall₂ {state : State} {catalog : Catalog} {corpusId text : String}
    {names : String × String} (hnames : names ∈ snapshotSections) {limit : ℕ}
    {items : List (RankedItem F64 Unit)} {nodes : List (RankedNode F64)}
    (hnodup : (items.map RankedItem.id).Nodup) (hplain : ∀ item ∈ items, Plain item.score)
    (h : List.Forall₂ (NodeOf state catalog corpusId names.1 text) (rankAll limit items).zipIdx nodes) :
    RankedNodes corpusId text names.2 limit nodes := by
  have hranking := rankAll_eq limit items
  have hperm := TopK.ranking_perm (RankedItem.cmp (R := F64) (T := Unit)) items
  have hmem : ∀ item ∈ rankAll limit items, Plain item.score := fun item hitem =>
    hplain item (hperm.mem_iff.mp (List.mem_of_mem_take (hranking ▸ hitem)))
  have hids : ((rankAll limit items).map fun item => (item.score, item.id))
      = nodes.map fun node => (node.score, node.nodeId) := by
    rw [map_eq_of_forall₂ h (g := fun entry => (entry.1.score, entry.1.id)) fun entry node hnode => by
      rw [hnode.score, hnode.nodeId]]
    conv_lhs => rw [← List.zipIdx_map_fst 0 (rankAll limit items)]
    rw [List.map_map]
    rfl
  have hlength : nodes.length = (rankAll limit items).length := by
    rw [← h.length_eq, List.length_zipIdx]
  refine ⟨?_, ?_, ?_, ?_, ?_, ?_⟩
  · rw [hlength, hranking]
    exact List.length_take_le _ _
  · have hsnd := congrArg (List.map Prod.snd) hids
    rw [List.map_map, List.map_map] at hsnd
    show (nodes.map (Prod.snd ∘ fun node => (node.score, node.nodeId))).Nodup
    rw [← hsnd, hranking]
    exact ((hperm.map RankedItem.id).nodup_iff.mpr hnodup).sublist ((List.take_sublist _ _).map _)
  · rw [← hids, hranking]
    have hfinite : ∀ item ∈ items, item.score.isFinite = true :=
      fun item hitem => (hplain item hitem).1
    have hcmp : ∀ a b : RankedItem F64 Unit, RankedItem.cmp a b
        = (F64.totalCmp b.score a.score).then (Utf16.cmp a.id b.id) := fun _ _ => rfl
    refine (ordered_iff hcmp hfinite).mpr ?_
    rintro ⟨-, a, -, b, hb, -, hzero, -⟩
    obtain ⟨item, hitem, rfl⟩ := List.mem_map.mp hb
    exact (hplain item hitem).2 hzero
  · rw [map_eq_of_forall₂ h (g := fun entry => entry.2 + 1) fun _ _ hnode => hnode.rank, hlength,
      List.range_eq_range', ← List.zipIdx_map_snd 0 (rankAll limit items), List.map_map]
    rfl
  · intro node hnode
    obtain ⟨entry, hentry, hof⟩ := exists_of_forall₂ h hnode
    rw [hof.score]
    exact (hmem entry.1 (List.fst_mem_of_mem_zipIdx hentry)).1
  · intro node hnode
    obtain ⟨entry, -, hof⟩ := exists_of_forall₂ h hnode
    obtain ⟨itemId, hid, hitem⟩ := hof.object
    obtain ⟨hcorpus, hnamed⟩ := boundedSnapshotItem_fields hnames hitem
    exact ⟨hcorpus, itemId, by rw [hof.nodeId, hid], hnamed⟩

/-- What a PPR over a corpus with nodes is answered with. -/
structure RankedAnswer (corpusId : String) (plan : Value) (result : PprResult F64) : Prop where
  finite : result.l1Delta.isFinite = true
  unsigned : result.l1Delta.negative = false
  began : 1 ≤ result.iterations
  stopped : ∃ epsilon maxIterations, getF64 plan "convergenceEpsilon" = some epsilon
    ∧ getU64 plan "maxIterations" = some maxIterations
    ∧ result.converged = F64.lt result.l1Delta epsilon ∧ result.iterations ≤ maxIterations
    ∧ (result.converged = false → result.iterations = maxIterations)
  passages : ∃ limit, getU64 plan "passageLimit" = some limit
    ∧ RankedNodes corpusId "passage:" "passageId" limit result.rankedPassages
  facts : ∃ limit, getU64 plan "entityLimit" = some limit
    ∧ RankedNodes corpusId "fact:" "factId" limit result.rankedFacts

theorem pprRank_finds (state : State) (catalog : Catalog) (corpusId : String) {plan : Value}
    {nodeIds : List String} {scored : PprScores F64} {epsilon : F64} {maxIterations : ℕ}
    (hepsilon : getF64 plan "convergenceEpsilon" = some epsilon)
    (hiterations : getU64 plan "maxIterations" = some maxIterations) (hnodup : nodeIds.Nodup)
    (hscored : Scored epsilon maxIterations scored) :
    Finds True (pprRank state catalog corpusId plan nodeIds scored) (RankedAnswer corpusId plan) := by
  rw [pprRank]
  refine (Finds.orBlank fun _ _ => trivial).bind fun passageLimit hpassages => ?_
  refine (Finds.orBlank fun _ _ => trivial).bind fun factLimit hfacts => ?_
  have hheap : Finds True (boundedRankHeap : Run (List (RankedItem F64 Unit))) fun heap => heap = [] :=
    (Finds.any _).bind fun _ _ => (Finds.any _).bind fun _ _ => Finds.pure rfl
  refine hheap.bind fun passages hempty => hheap.bind fun facts hempty' => ?_
  subst hempty hempty'
  rw [foldlM_charged, foldl_rankNodeScore, bind_assoc]
  refine (Finds.any _).bind fun _ _ => ?_
  rw [pure_bind]
  dsimp only
  have hranked : ∀ {kind : String → Bool} {names : String × String} {text : String} {limit : ℕ},
      names ∈ snapshotSections → Finds True (materializeRanked state catalog corpusId names.1 text
        (retainAll limit [] (nodeItems kind (nodeIds.zip scored.scores))))
        (RankedNodes corpusId text names.2 limit) := by
    intro kind names text limit hnames
    refine (materializeRanked_finds state catalog corpusId names.1 text _).post fun nodes hnodes => ?_
    refine rankedNodes_of_forall₂ hnames (nodeItems_nodup hnodup kind scored.scores) ?_ hnodes
    intro item hitem
    obtain ⟨node, hnode, rfl⟩ := List.mem_map.mp hitem
    exact hscored.scores _ (List.of_mem_zip (List.mem_filter.mp hnode).1).2
  have hsection : ("passages", "passageId") ∈ snapshotSections := by decide
  have hsection' : ("facts", "factId") ∈ snapshotSections := by decide
  refine (hranked hsection).bind fun rankedPassages hp => ?_
  refine (hranked hsection').bind fun rankedFacts hf => ?_
  exact Finds.pure ⟨hscored.finite, hscored.unsigned, hscored.began, ⟨epsilon, maxIterations, hepsilon,
    hiterations, hscored.converged, hscored.ended, hscored.exhausted⟩, ⟨passageLimit, hpassages, hp⟩,
    ⟨factLimit, hfacts, hf⟩⟩

/-- What a PPR is answered with. -/
structure PprAnswer (catalog : Catalog) (params : Value) (result : PprResult F64) : Prop where
  exact : ∃ corpusId plan, getStr params "corpusId" = some corpusId
    ∧ params.get "plan" = some plan
    ∧ (catalogNodes catalog params = 0 ∧ result = emptyPpr
      ∨ catalogNodes catalog params ≠ 0 ∧ RankedAnswer corpusId plan result)

theorem executePpr_finds {state : State} (walk : Walk state) (catalog : Catalog) {params : Value}
    (hbegan : ∀ plan maxIterations, params.get "plan" = some plan →
      getU64 plan "maxIterations" = some maxIterations → 1 ≤ maxIterations) :
    Finds True (executePpr (R := F64) state walk catalog params) (PprAnswer catalog params) := by
  have hbody : Finds True (pprBody (R := F64) state walk catalog params)
      (PprAnswer catalog params) := by
    rw [pprBody]
    refine (Finds.orBlank fun _ _ => trivial).bind fun corpusId hcorpus => ?_
    refine (Finds.orBlank fun _ _ => trivial).bind fun plan hplan => (Finds.any _).bind fun _ _ => ?_
    have hnodes : catalog.endpointCountsByCorpus[corpusId]?.getD 0 = catalogNodes catalog params := by
      rw [catalogNodes, requestCorpus, hcorpus, Option.getD_some]
    dsimp only
    rw [hnodes]
    split
    · rename_i hzero
      exact Finds.pure ⟨corpusId, plan, hcorpus, hplan, .inl ⟨hzero, rfl⟩⟩
    · rename_i hne
      refine (pprScores_finds walk.edges corpusId plan _ _).bind fun scored hscored => ?_
      obtain ⟨hnodup, epsilon, iterations, hepsilon, hiterations, hscored⟩ := hscored
      refine (pprRank_finds state catalog corpusId hepsilon hiterations hnodup
        (hscored (hbegan plan iterations hplan hiterations))).post fun result hresult => ?_
      exact ⟨corpusId, plan, hcorpus, hplan, .inr ⟨hne, hresult⟩⟩
  rw [executePpr]
  exact hbody.bind fun result hresult => (Finds.any _).bind fun _ _ => Finds.pure hresult

end Answer

end AiraGraphdb.Native.Bounded
