import AiraGraphdb.Native.Bounded.Iteration
import AiraGraphdb.Native.Concrete

/-! # The work of PPR

Ranking and copying add their own work to that of the scores. All of it together stays within the
ceiling, so the check at the end has nothing to find. -/

namespace AiraGraphdb.Native.Bounded

open Schemes Schemes.Json

variable {calm : Prop} {w B : WorkCounts} {E : ExecutionFailure → Prop}

/-! ### Copies -/

section Copies

variable {P : Meter → Prop}

theorem tryCloneJsonString_meets (hc : Meets P checkpoint (fun _ => P) E) (value : String) :
    Meets P (tryCloneJsonString value) (fun copy m => copy = value ∧ P m) E :=
  hc.bind fun _ => hc.bind fun _ =>
    Meets.pure fun _ hm => ⟨rfl, hm⟩

mutual

/-- A copy is what is copied. -/
theorem tryCloneJsonValue_meets (hc : Meets P checkpoint (fun _ => P) E) : ∀ value : Value,
    Meets P (tryCloneJsonValue value) (fun copy m => copy = value ∧ P m) E
  | .null => by
    rw [tryCloneJsonValue]
    exact Meets.pure fun m hm => ⟨rfl, hm⟩
  | .bool b => by
    rw [tryCloneJsonValue]
    exact Meets.pure fun m hm => ⟨rfl, hm⟩
  | .num n => by
    rw [tryCloneJsonValue]
    exact Meets.pure fun m hm => ⟨rfl, hm⟩
  | .str s => by
    rw [tryCloneJsonValue]
    exact (tryCloneJsonString_meets hc s).bind fun copy => Meets.of_fact fun hcopy =>
      Meets.pure fun m hm => ⟨by rw [hcopy], hm⟩
  | .arr values => by
    rw [tryCloneJsonValue]
    refine hc.bind fun _ => (tryCloneItems_meets hc values).bind fun copies =>
      Meets.of_fact fun hcopies => ?_
    exact hc.bind fun _ => Meets.pure fun m hm => ⟨by rw [hcopies], hm⟩
  | .obj members => by
    rw [tryCloneJsonValue]
    refine (tryCloneMembers_meets hc members).bind fun copies => Meets.of_fact fun hcopies => ?_
    exact hc.bind fun _ => Meets.pure fun m hm => ⟨by rw [hcopies], hm⟩

theorem tryCloneItems_meets (hc : Meets P checkpoint (fun _ => P) E) : ∀ values : List Value,
    Meets P (tryCloneItems values) (fun copies m => copies = values ∧ P m) E
  | [] => by
    rw [tryCloneItems]
    exact Meets.pure fun m hm => ⟨rfl, hm⟩
  | v :: vs => by
    rw [tryCloneItems]
    refine (tryCloneJsonValue_meets hc v).bind fun copy => Meets.of_fact fun hcopy => ?_
    refine (tryCloneItems_meets hc vs).bind fun copies => Meets.of_fact fun hcopies => ?_
    exact Meets.pure fun m hm => ⟨by rw [hcopy, hcopies], hm⟩

theorem tryCloneMembers_meets (hc : Meets P checkpoint (fun _ => P) E) : ∀ members : Object,
    Meets P (tryCloneMembers members) (fun copies m => copies = members ∧ P m) E
  | [] => by
    rw [tryCloneMembers]
    exact Meets.pure fun m hm => ⟨rfl, hm⟩
  | (k, v) :: ms => by
    rw [tryCloneMembers]
    refine (tryCloneJsonString_meets hc k).bind fun key => Meets.of_fact fun hkey => ?_
    refine (tryCloneJsonValue_meets hc v).bind fun copy => Meets.of_fact fun hcopy => ?_
    refine (tryCloneMembers_meets hc ms).bind fun copies => Meets.of_fact fun hcopies => ?_
    exact Meets.pure fun m hm => ⟨by rw [hkey, hcopy, hcopies], hm⟩

end

end Copies

theorem checkWork_meets (hF : Excuses False B E) (hw : w ≤ B) :
    Meets (At calm w) checkWork (fun _ => At calm w) E := by
  intro m hm
  rw [checkWork]
  by_cases h : m.work.check.isSome = true
  · rw [if_pos h]
    exact hm
  · rw [if_neg h, hm.work]
    exact hF id _ _ hw

section Materialize

variable [Externals] (hE : Tolerates calm B E) (hF : Excuses False B E)

include hE hF

theorem materializeDomainObject_meets {value : Value}
    (hw : w.add .objectsConsideredForEncoding 1 ≤ B) :
    Meets (At calm w) (materializeDomainObject value)
      (fun copy m => (copy = value ∧ (encodeObject value).isSome)
        ∧ At calm (w.add .objectsConsideredForEncoding 1) m) E := by
  rw [materializeDomainObject]
  refine (count_meets hE (by simp [Counter.Metered]) hw).bind fun _ => ?_
  refine (checkWork_meets hF hw).bind fun _ => ?_
  refine (checkpoint_meets hE hw).bind fun _ => ?_
  refine (orFail_meets hF hw False.elim).bind fun bytes => Meets.of_fact fun hbytes => ?_
  refine (tryCloneJsonValue_meets (checkpoint_meets hE hw) value).post ?_
  rintro copy m ⟨hcopy, hm⟩
  exact ⟨⟨hcopy, by rw [hbytes]; rfl⟩, hm⟩

end Materialize

/-! ### The ranking -/

section Rank

variable {R : Type} [Arithmetic R]

theorem length_finishBoundedRanking {T : Type} (retained : List (RankedItem R T)) :
    (finishBoundedRanking retained).length = retained.length := by
  rw [finishBoundedRanking, List.length_mergeSort]

omit [Arithmetic R] in
theorem boundedRankHeap_meets {T : Type} (hE : Tolerates calm B E) (hw : w ≤ B) :
    Meets (At calm w) (boundedRankHeap : Run (List (RankedItem R T)))
      (fun heap m => heap = [] ∧ At calm w m) E :=
  (checkpoint_meets hE hw).bind fun _ => (checkpoint_meets hE hw).bind fun _ =>
    Meets.pure fun _ hm => ⟨rfl, hm⟩

/-- The nodes that are kept of each kind. -/
def keptNodes (passageLimit factLimit : ℕ) (nodes : List (String × R)) :
    List (RankedItem R Unit) × List (RankedItem R Unit) :=
  nodes.foldl (rankNodeScore passageLimit factLimit) ([], [])

theorem length_keptNodes_le (passageLimit factLimit : ℕ) (nodes : List (String × R)) :
    (keptNodes passageLimit factLimit nodes).1.length ≤ passageLimit
      ∧ (keptNodes passageLimit factLimit nodes).2.length ≤ factLimit := by
  refine foldl_keeps (P := fun kept : List (RankedItem R Unit) × List (RankedItem R Unit) =>
    kept.1.length ≤ passageLimit ∧ kept.2.length ≤ factLimit) ⟨Nat.zero_le _, Nat.zero_le _⟩ ?_
  rintro kept node - ⟨hp, hf⟩
  rw [rankNodeScore]
  split_ifs
  · exact ⟨TopK.length_retain_le _ hp _, hf⟩
  · exact ⟨hp, TopK.length_retain_le _ hf _⟩
  · exact ⟨hp, hf⟩

variable [Externals]

/-- A ranked node with the stored object that its id names. -/
structure Materialized (state : State) (catalog : Catalog) (corpusId sectionName text : String)
    (entry : RankedItem R Unit × ℕ) (node : RankedNode R) : Prop where
  nodeId : node.nodeId = entry.1.id
  score : node.score = entry.1.score
  rank : node.rank = entry.2 + 1
  object : ∃ itemId, Text.stripPrefix entry.1.id.toList text.toList = some itemId
    ∧ boundedSnapshotItem state catalog corpusId sectionName (String.ofList itemId) = .ok node.object
  printed : (encodeObject node.object).isSome

theorem materializeRanked_meets (hE : Tolerates calm B E) (hF : Excuses False B E) {state : State}
    {catalog : Catalog} {corpusId sectionName text : String} {retained : List (RankedItem R Unit)}
    (hblank : ∀ itemId e, boundedSnapshotItem state catalog corpusId sectionName itemId = .error e →
      E e)
    (hw : w.add .objectsConsideredForEncoding retained.length ≤ B) :
    Meets (At calm w) (materializeRanked state catalog corpusId sectionName text retained)
      (fun nodes m => List.Forall₂ (Materialized state catalog corpusId sectionName text)
        (finishBoundedRanking retained).zipIdx nodes
        ∧ At calm (w.add .objectsConsideredForEncoding retained.length) m) E := by
  rw [materializeRanked]
  refine ((Meets.mapM (I := fun done => At calm (w.add .objectsConsideredForEncoding done.length))
    (R := Materialized state catalog corpusId sectionName text) ?_).pre ?_).post ?_
  · intro done entry rest hdone
    have hlen := congrArg List.length hdone
    rw [List.length_zipIdx, length_finishBoundedRanking, List.length_append, List.length_cons] at hlen
    have hstep : (w.add .objectsConsideredForEncoding done.length).add
        .objectsConsideredForEncoding 1 ≤ B := by
      rw [WorkCounts.add_add]
      exact WorkCounts.add_le_of_le hw (by omega)
    have hhere := WorkCounts.le_trans (WorkCounts.le_add _ _ _) hstep
    refine (orFail_meets hF hhere False.elim).bind fun itemId => Meets.of_fact fun hid => ?_
    refine Meets.bind (Q := fun object m => boundedSnapshotItem state catalog corpusId sectionName
      (String.ofList itemId) = .ok object ∧ At calm _ m) (Meets.ofExcept
      (fun object h m hm => ⟨h, hm⟩) fun e h => hblank _ e h) fun object => Meets.of_fact fun hitem => ?_
    refine (materializeDomainObject_meets hE hF hstep).bind fun copy => Meets.of_fact fun hcopy =>
      Meets.pure fun m hm => ⟨⟨rfl, rfl, rfl, ⟨itemId, hid, ?_⟩, ?_⟩, ?_⟩
    · rw [hitem, hcopy.1]
    · rw [hcopy.1]
      exact hcopy.2
    · rw [WorkCounts.add_add] at hm
      rwa [List.length_append, List.length_singleton]
  · intro m hm
    simpa using hm
  · rintro nodes m ⟨hnodes, hm⟩
    rw [List.length_zipIdx, length_finishBoundedRanking] at hm
    exact ⟨hnodes, hm⟩

/-- What the ranking leaves. -/
structure Ranked (state : State) (catalog : Catalog) (corpusId : String) (plan : Value)
    (nodeIds : List String) (scored : PprScores R) (result : PprResult R) : Prop where
  iterations : result.iterations = scored.iterations
  converged : result.converged = scored.converged
  l1Delta : result.l1Delta = scored.l1Delta
  nodes : ∃ passageLimit factLimit, getU64 plan "passageLimit" = some passageLimit
    ∧ getU64 plan "entityLimit" = some factLimit
    ∧ List.Forall₂ (Materialized state catalog corpusId "passages" "passage:")
        (finishBoundedRanking
          (keptNodes passageLimit factLimit (nodeIds.zip scored.scores)).1).zipIdx
        result.rankedPassages
    ∧ List.Forall₂ (Materialized state catalog corpusId "facts" "fact:")
        (finishBoundedRanking
          (keptNodes passageLimit factLimit (nodeIds.zip scored.scores)).2).zipIdx
        result.rankedFacts

theorem pprRank_meets (hE : Tolerates calm B E) (hF : Excuses False B E) {state : State}
    {catalog : Catalog} {corpusId : String} {plan : Value} {nodeIds : List String}
    {scored : PprScores R} {objects : ℕ}
    (hblank : ∀ sectionName itemId e,
      boundedSnapshotItem state catalog corpusId sectionName itemId = .error e → E e)
    (hlen : scored.scores.length = nodeIds.length)
    (hobjects : ∀ passageLimit factLimit, getU64 plan "passageLimit" = some passageLimit →
      getU64 plan "entityLimit" = some factLimit → passageLimit + factLimit ≤ objects)
    (hw : (w.add .graphScanUnits nodeIds.length).add .objectsConsideredForEncoding objects ≤ B) :
    Meets (At calm w) (pprRank state catalog corpusId plan nodeIds scored)
      (fun result m => (Ranked state catalog corpusId plan nodeIds scored result
        ∧ result.rankedPassages.length + result.rankedFacts.length ≤ objects)
        ∧ At calm ((w.add .graphScanUnits nodeIds.length).add .objectsConsideredForEncoding
          (result.rankedPassages.length + result.rankedFacts.length)) m) E := by
  have hunits := WorkCounts.le_trans (WorkCounts.le_add _ _ _) hw
  have h0 := WorkCounts.le_trans (WorkCounts.le_add _ _ _) hunits
  rw [pprRank]
  refine (orBlank_meets hF False.elim).bind fun passageLimit => Meets.of_fact fun hp => ?_
  refine (orBlank_meets hF False.elim).bind fun factLimit => Meets.of_fact fun hf => ?_
  refine (boundedRankHeap_meets hE h0).bind fun passages => Meets.of_fact fun hpassages => ?_
  refine (boundedRankHeap_meets hE h0).bind fun facts => Meets.of_fact fun hfacts => ?_
  subst hpassages hfacts
  have hpairs : (nodeIds.zip scored.scores).length = nodeIds.length := by
    rw [List.length_zip, hlen, Nat.min_self]
  rw [foldlM_charged, hpairs, bind_assoc]
  refine (scanUnits_meets hE hunits).bind fun _ => ?_
  rw [pure_bind]
  have hkept := length_keptNodes_le passageLimit factLimit (nodeIds.zip scored.scores)
  have hsum := hobjects passageLimit factLimit hp hf
  change Meets _ (materializeRanked state catalog corpusId "passages" "passage:"
    (keptNodes passageLimit factLimit (nodeIds.zip scored.scores)).1 >>= fun rankedPassages =>
      materializeRanked state catalog corpusId "facts" "fact:"
        (keptNodes passageLimit factLimit (nodeIds.zip scored.scores)).2 >>= _) _ _
  refine (materializeRanked_meets hE hF (hblank _) ?_).bind fun rankedPassages => Meets.of_fact
    fun hrankedPassages => ?_
  · exact WorkCounts.add_le_of_le hw (by omega)
  refine (materializeRanked_meets hE hF (hblank _) ?_).bind fun rankedFacts => Meets.of_fact
    fun hrankedFacts => ?_
  · rw [WorkCounts.add_add]
    exact WorkCounts.add_le_of_le hw (by omega)
  have hl := hrankedPassages.length_eq
  have hl' := hrankedFacts.length_eq
  rw [List.length_zipIdx, length_finishBoundedRanking] at hl hl'
  refine Meets.pure fun m hm => ⟨⟨⟨rfl, rfl, rfl, passageLimit, factLimit, hp, hf, hrankedPassages,
    hrankedFacts⟩, ?_⟩, ?_⟩
  · dsimp only
    omega
  · rw [WorkCounts.add_add] at hm
    rwa [← hl, ← hl']

end Rank

/-! ### The whole operation -/

section Body

theorem orBlankError_error {α : Type} {x : Option α} {cls : FailureClass} {e : ExecutionFailure}
    (h : orBlankError x cls = .error e) : e.work = .zero := by
  rcases x with _ | a
  · cases h
    rfl
  · cases h

/-- A lookup that fails does not report work. -/
theorem boundedSnapshotItem_error [Externals] {state : State} {catalog : Catalog}
    {corpusId sectionName itemId : String} {e : ExecutionFailure}
    (h : boundedSnapshotItem state catalog corpusId sectionName itemId = .error e) :
    e.work = .zero := by
  rw [boundedSnapshotItem] at h
  rcases bind_error.mp h with h | ⟨index, -, h⟩
  · exact orBlankError_error h
  rcases bind_error.mp h with h | ⟨items, -, h⟩
  · rcases bind_error.mp h with h | ⟨snapshot, -, h⟩
    · exact orBlankError_error h
    · rw [storedSnapshotSectionOrEmpty] at h
      split at h
      · cases h
      · cases h
      · cases h
        rfl
  rcases bind_error.mp h with h | ⟨item, -, h⟩
  · exact orBlankError_error h
  rcases bind_error.mp h with h | ⟨idField, -, h⟩
  · rw [sectionIdField] at h
    split_ifs at h
    cases h
    rfl
  · split at h
    · cases h
      rfl
    · cases h

theorem resourceUsage_le {usage : ResourceUsage} (h : usage.check = true) :
    usage.graphNodes ≤ maxGraphNodes ∧ usage.graphEdges ≤ maxGraphEdges
      ∧ usage.iterations ≤ maxIterations ∧ usage.combinedObjects ≤ maxCombinedObjects := by
  rw [ResourceUsage.check, List.all_eq_true] at h
  exact ⟨of_decide_eq_true (h (usage.graphNodes, maxGraphNodes) (by simp)),
    of_decide_eq_true (h (usage.graphEdges, maxGraphEdges) (by simp)),
    of_decide_eq_true (h (usage.iterations, maxIterations) (by simp)),
    of_decide_eq_true (h (usage.combinedObjects, maxCombinedObjects) (by simp))⟩

/-- What an admitted request asks for. -/
theorem pprLimits {params plan : Value} {usage : ResourceUsage}
    (h : ResourceUsage.forRequest pprMaterialize params = some usage)
    (hplan : params.get "plan" = some plan) :
    (getU64 plan "maxIterations").getD 0 ≤ maxIterations ∧ ∀ passageLimit factLimit,
      getU64 plan "passageLimit" = some passageLimit → getU64 plan "entityLimit" = some factLimit →
      passageLimit + factLimit ≤ maxCombinedObjects := by
  obtain ⟨usage', hppr, h⟩ := Option.bind_eq_some_iff.mp h
  dsimp only at h
  split at h
  · rename_i hcheck
    cases h
    obtain ⟨plan', hplan', hppr⟩ := Option.bind_eq_some_iff.mp hppr
    obtain rfl : plan' = plan := Option.some.inj (hplan'.symm.trans hplan)
    obtain ⟨-, -, hppr⟩ := Option.bind_eq_some_iff.mp hppr
    obtain ⟨seeds, -, hppr⟩ := Option.bind_eq_some_iff.mp hppr
    obtain ⟨iterations, hi, hppr⟩ := Option.bind_eq_some_iff.mp hppr
    obtain ⟨passages, hp, hppr⟩ := Option.bind_eq_some_iff.mp hppr
    obtain ⟨facts, hf, hppr⟩ := Option.bind_eq_some_iff.mp hppr
    obtain ⟨combined, hc, hppr⟩ := Option.bind_eq_some_iff.mp hppr
    cases hppr
    obtain ⟨-, -, hiter, hcomb⟩ := resourceUsage_le hcheck
    rw [checkedAdd] at hc
    split at hc
    · cases hc
      rw [hi]
      refine ⟨hiter, ?_⟩
      intro passageLimit factLimit hp' hf'
      rw [hp] at hp'
      rw [hf] at hf'
      cases hp'
      cases hf'
      exact hcomb
    · cases hc
  · cases h

theorem pprAdmission_meets (hE : Tolerates calm B E) (hF : Excuses False B E) {params : Value}
    {graphNodes graphEdges : ℕ} (hw : w ≤ B) :
    Meets (At calm w) (pprAdmission params graphNodes graphEdges)
      (fun _ m => ((ResourceUsage.forRequest pprMaterialize params).isSome
        ∧ graphNodes ≤ maxGraphNodes ∧ graphEdges ≤ maxGraphEdges) ∧ At calm w m) E := by
  rw [pprAdmission]
  refine (orBlank_meets hF False.elim).bind fun usage => Meets.of_fact fun husage => ?_
  refine (orBlank_meets hF False.elim).bind fun _ => Meets.of_fact fun hcheck => ?_
  refine (orBlank_meets hF False.elim).bind fun _ => Meets.of_fact fun _ => ?_
  refine (orBlank_meets hF False.elim).bind fun _ => Meets.of_fact fun _ => ?_
  refine (checkpoint_meets hE hw).post fun _ m hm => ⟨⟨by rw [husage]; rfl, ?_⟩, hm⟩
  have hcaps := resourceUsage_le ((Option.guard_eq_some' _).mp hcheck)
  exact ⟨hcaps.1, hcaps.2.1⟩

/-- The work of a PPR that is done. -/
def doneWork (edges nodes arcs iterations objects : ℕ) : WorkCounts :=
  ((pprWork .zero edges nodes arcs iterations).add .graphScanUnits nodes).add
    .objectsConsideredForEncoding objects

/-- The corpus that a request names, its edges, and what a catalog counts of it. -/
def requestCorpus (params : Value) : String := (getStr params "corpusId").getD ""

def requestArcs (params : Value) (edges : List (String × GraphEdge)) : List Arc :=
  sortedArcs (requestCorpus params) edges

def catalogNodes (catalog : Catalog) (params : Value) : ℕ :=
  catalog.endpointCountsByCorpus[requestCorpus params]?.getD 0

def catalogEdges (catalog : Catalog) (params : Value) : ℕ :=
  catalog.edgeCountsByCorpus[requestCorpus params]?.getD 0

theorem length_requestArcs_le (params : Value) (edges : List (String × GraphEdge)) :
    (requestArcs params edges).length ≤ edges.length := by
  rw [requestArcs, length_sortedArcs]
  exact List.length_filter_le _ _

variable [Externals] {R : Type} [Arithmetic R]

/-- A PPR that is done: at once for a corpus without nodes, else after its work. -/
inductive Done (walk : List (String × GraphEdge)) (catalog : Catalog) (params : Value)
    (result : PprResult R) : WorkCounts → Prop where
  | empty : catalogNodes catalog params = 0 → catalogEdges catalog params ≤ maxGraphEdges →
      result = emptyPpr → Done walk catalog params result .zero
  | ranked : (sortedNodes (requestArcs params walk)).length = catalogNodes catalog params →
      (requestArcs params walk).length = catalogEdges catalog params →
      catalogNodes catalog params ≤ maxGraphNodes → result.iterations ≤ maxIterations →
      result.rankedPassages.length + result.rankedFacts.length ≤ maxCombinedObjects →
      Done walk catalog params result (doneWork walk.length (catalogNodes catalog params)
        (catalogEdges catalog params) result.iterations
        (result.rankedPassages.length + result.rankedFacts.length))

theorem pprBody_meets (hE : Tolerates calm B E) (hF : Excuses False B E) {state : State}
    {walk : Walk state} {catalog : Catalog} {params : Value} {arcs : List Arc}
    (harcs : requestArcs params walk.edges = arcs) (hlen : arcs.length < 2 ^ 63)
    (hw : doneWork walk.edges.length (sortedNodes arcs).length arcs.length maxIterations
      maxCombinedObjects ≤ B) :
    Meets (At calm .zero) (pprBody state walk catalog params)
      (fun (result : PprResult R) m => ∃ w, Done walk.edges catalog params result w ∧ At calm w m)
      E := by
  have h0 : WorkCounts.zero ≤ B := WorkCounts.zero_le B
  rw [pprBody]
  refine (orBlank_meets hF False.elim).bind fun corpusId => Meets.of_fact fun hcorpus => ?_
  have hname : requestCorpus params = corpusId := by rw [requestCorpus, hcorpus, Option.getD_some]
  have hgraphNodes : catalog.endpointCountsByCorpus[corpusId]?.getD 0 = catalogNodes catalog params := by
    rw [catalogNodes, hname]
  have hgraphEdges : catalog.edgeCountsByCorpus[corpusId]?.getD 0 = catalogEdges catalog params := by
    rw [catalogEdges, hname]
  have harcs' : sortedArcs corpusId walk.edges = arcs := by rw [← harcs, requestArcs, hname]
  rw [hgraphNodes, hgraphEdges]
  refine (orBlank_meets hF False.elim).bind fun plan => Meets.of_fact fun hplan => ?_
  refine (pprAdmission_meets hE hF h0).bind fun _ => Meets.of_fact fun hadmitted => ?_
  obtain ⟨husage, hnodes, hedges⟩ := hadmitted
  obtain ⟨usage, husage⟩ := Option.isSome_iff_exists.mp husage
  obtain ⟨hiterations, hobjects⟩ := pprLimits husage hplan
  split
  · rename_i hzero
    exact Meets.pure fun m hm => ⟨_, .empty hzero hedges rfl, hm⟩
  have hscored {k n : ℕ} (hk : k ≤ maxIterations) (hn : n ≤ maxCombinedObjects) :
      doneWork walk.edges.length (sortedNodes arcs).length arcs.length k n ≤ B := by
    refine WorkCounts.le_trans ?_ hw
    have := Nat.mul_le_mul_right (iterationUnits (sortedNodes arcs).length arcs.length) hk
    rw [WorkCounts.le_iff]
    simp only [doneWork, pprWork, WorkCounts.add, WorkCounts.set, WorkCounts.get, WorkCounts.spent]
    omega
  have hpart {k : ℕ} (hk : k ≤ maxIterations) :
      pprWork .zero walk.edges.length (sortedNodes arcs).length arcs.length k ≤ B :=
    WorkCounts.le_trans (WorkCounts.le_trans (WorkCounts.le_add _ _ _) (WorkCounts.le_add _ _ _))
      (hscored hk (Nat.zero_le _))
  refine (pprScores_meets hE hF harcs' hlen False.elim ⟨rfl, rfl, rfl⟩ (hpart hiterations)).bind
    fun result => Meets.of_fact fun hresult => ?_
  obtain ⟨⟨hn, he⟩, read, csr, hread, -, rfl⟩ := hresult
  dsimp only
  have hiter : (scoresOf (R := R) read (sortedNodes arcs) csr).iterations ≤ maxIterations := by
    have hle := (iterations_le (inputOf (R := R) read (sortedNodes arcs) csr) read.maxIterations 0
      (teleportOf csr.index (sortedNodes arcs).length read.seeds) Arithmetic.zero).2
    rw [(readPprPlan_iff.mp hread).2.2.2.2, Option.getD_some] at hiterations
    exact (hle.trans_eq (Nat.zero_add _)).trans hiterations
  refine (pprRank_meets hE hF (fun sectionName itemId e h => ?_) (length_scoresOf _ _ _) hobjects
    (hscored hiter le_rfl)).post ?_
  · have := boundedSnapshotItem_error h
    obtain ⟨cls, work⟩ := e
    obtain rfl : work = .zero := this
    exact hF id _ _ h0
  · rintro result m ⟨⟨hranked, hcount⟩, hm⟩
    rw [← hranked.iterations] at hm hiter
    refine ⟨_, .ranked (by rw [harcs, hn]) (by rw [harcs, he]) hnodes hiter hcount, ?_⟩
    rw [← hn, ← he]
    exact hm

omit [Externals] in
/-- The ceiling is above what any graph within the caps takes. -/
theorem doneWork_le {edges nodes arcs iterations objects : ℕ} (hedges : edges ≤ maxGraphEdges)
    (harcs : arcs ≤ edges) (hnodes : nodes ≤ maxGraphNodes) (hi : iterations ≤ maxIterations)
    (ho : objects ≤ maxCombinedObjects) :
    (doneWork edges nodes arcs iterations objects).graphScanUnits
        ≤ 57 * nodes + 50 * edges + iterations * (4 * nodes + arcs) + 1
      ∧ 57 * nodes + 50 * edges + iterations * (4 * nodes + arcs) + 1 ≤ maxGraphScanUnits
      ∧ doneWork edges nodes arcs iterations objects ≤ .caps := by
  have hsortNodes := sortUnits_le (n := nodes) (k := 21) (hnodes.trans (by decide))
  have hsortArcs := sortUnits_le_of_even (n := arcs) (k := 22)
    ((harcs.trans hedges).trans (by decide)) (by decide)
  have hunits : (doneWork edges nodes arcs iterations objects).graphScanUnits
      ≤ 57 * nodes + 50 * edges + iterations * (4 * nodes + arcs) + 1 := by
    simp only [doneWork, pprWork, scoresUnits, graphUnits, layoutUnits, iterationUnits,
      WorkCounts.add, WorkCounts.set, WorkCounts.get, WorkCounts.spent, WorkCounts.found,
      WorkCounts.zero]
    omega
  have hiterated : iterations * (4 * nodes + arcs)
      ≤ maxIterations * (4 * maxGraphNodes + maxGraphEdges) := Nat.mul_le_mul hi (by omega)
  have hceiling : 57 * nodes + 50 * edges + iterations * (4 * nodes + arcs) + 1
      ≤ maxGraphScanUnits := by
    rw [maxGraphScanUnits]
    omega
  refine ⟨hunits, hceiling, ?_⟩
  rw [WorkCounts.le_iff]
  refine ⟨Nat.zero_le _, Nat.zero_le _, ?_, ?_, ?_, hunits.trans hceiling, ?_⟩
  · simpa [doneWork, pprWork, WorkCounts.add, WorkCounts.set, WorkCounts.spent, WorkCounts.found,
      WorkCounts.zero, WorkCounts.caps] using hi
  · simpa [doneWork, pprWork, WorkCounts.add, WorkCounts.set, WorkCounts.spent, WorkCounts.found,
      WorkCounts.zero, WorkCounts.caps] using hnodes
  · simpa [doneWork, pprWork, WorkCounts.add, WorkCounts.set, WorkCounts.spent, WorkCounts.found,
      WorkCounts.zero, WorkCounts.caps] using harcs.trans hedges
  · simpa [doneWork, pprWork, WorkCounts.add, WorkCounts.set, WorkCounts.spent, WorkCounts.found,
      WorkCounts.zero, WorkCounts.caps] using ho

omit [Externals] in
theorem Done.within {edges : List (String × GraphEdge)} {catalog : Catalog} {params : Value}
    {result : PprResult R} {w : WorkCounts} (h : Done edges catalog params result w)
    (htotal : edges.length ≤ maxGraphEdges)
    (hlen : (requestArcs params edges).length ≤ edges.length) :
    w.graphScanUnits ≤ 57 * catalogNodes catalog params + 50 * edges.length
        + result.iterations * (4 * catalogNodes catalog params + catalogEdges catalog params) + 1
      ∧ 57 * catalogNodes catalog params + 50 * edges.length
        + result.iterations * (4 * catalogNodes catalog params + catalogEdges catalog params) + 1
        ≤ maxGraphScanUnits
      ∧ w ≤ .caps := by
  cases h with
  | empty hzero hcap hresult =>
    have hunits : 50 * maxGraphEdges + 1 ≤ maxGraphScanUnits := by decide
    subst hresult
    rw [hzero, emptyPpr]
    dsimp only
    rw [Nat.zero_mul]
    refine ⟨Nat.zero_le _, by omega, WorkCounts.zero_le _⟩
  | ranked _ he hn hi ho => exact doneWork_le htotal (he ▸ hlen) hn hi ho

/-- A catalog bounds the number of all edges. -/
theorem edges_le_of_catalog {state : State} {walk : Walk state} {catalog : Catalog}
    (h : ensureBoundedCatalog state walk = .ok catalog) : walk.edges.length ≤ maxGraphEdges := by
  obtain ⟨_, -, h⟩ := bind_ok.mp h
  obtain ⟨indices, -, h⟩ := bind_ok.mp h
  split at h
  · exact absurd h blank_ne_ok
  · rename_i hlen
    omega

/-- A meter before any work. -/
def Meter.Fresh (m : Meter) : Prop := At False .zero m

/-- A PPR that has done its work has stayed below the ceiling, so the check at the end passes. Its
    nodes are those of the corpus, unless it had none to begin with. -/
theorem ppr_ceiling_never_hit {state : State} {walk : Walk state} {catalog : Catalog}
    {params : Value} {result : PprResult R} {m m' : Meter} {nodes edges : ℕ}
    (hcatalog : ensureBoundedCatalog state walk = .ok catalog)
    (hnodes : catalogNodes catalog params = nodes) (hedges : catalogEdges catalog params = edges)
    (hm : m.Fresh) (h : pprBody state walk catalog params m = .ok (result, m')) :
    m'.work.graphScanUnits ≤ 57 * nodes + 50 * walk.edges.length
        + result.iterations * (4 * nodes + edges) + 1
      ∧ 57 * nodes + 50 * walk.edges.length + result.iterations * (4 * nodes + edges) + 1
        ≤ maxGraphScanUnits
      ∧ m'.work ≤ .caps ∧ m'.work.check.isSome
      ∧ executePpr state walk catalog params m = .ok (result, m')
      ∧ (nodes ≠ 0 → (endpointSet (requestCorpus params)
          (walk.edges.flatMap endpointPairs)).card = nodes
        ∧ (edgesOf (requestCorpus params) walk.edges).length = edges) := by
  subst hnodes hedges
  have htotal := edges_le_of_catalog hcatalog
  have hlen := length_requestArcs_le params walk.edges
  have hcap : maxGraphEdges < 2 ^ 63 := by decide
  have hE : ∀ B, Tolerates False B (fun _ => True) :=
    fun _ => ⟨.inl fun _ => trivial, fun _ _ _ => trivial⟩
  obtain ⟨w, hdone, hm'⟩ := (pprBody_meets (hE _) (fun _ _ _ _ => trivial) rfl (by omega)
    (WorkCounts.le_refl _)).ok hm h
  have hbound := hdone.within htotal hlen
  rw [← hm'.work] at hbound
  have hpasses := WorkCounts.check_isSome.mpr hbound.2.2
  refine ⟨hbound.1, hbound.2.1, hbound.2.2, hpasses, ?_, ?_⟩
  · rw [executePpr, Proc.bind_apply, h]
    dsimp only
    rw [Proc.bind_apply, checkWork, if_pos hpasses]
    rfl
  · intro hne
    cases hdone with
    | empty hzero => exact absurd hzero hne
    | ranked hn he =>
      rw [requestArcs, length_sortedNodes] at hn
      rw [requestArcs, length_sortedArcs] at he
      exact ⟨hn, he⟩

end Body

/-! ### A loop -/

section Loop

attribute [local instance] Concrete.externals

/-- Rationals whose roots and logarithms are not asked for. -/
@[reducible] def plainRationals : Arithmetic ℚ := exact id id fun _ => .null

attribute [local instance] plainRationals

/-- One node with an edge to itself. -/
def loopState : State :=
  { State.default with
    nodes := (∅ : Map GraphNode).insert (nodeKey "c" "a") ⟨"a", "c", "semantic", .null, "a"⟩
    edges := (∅ : Map GraphEdge).insert (nodeKey "c" "e")
      ⟨"e", "c", "a", "a", "r", Concrete.ofInt 1, none⟩ }

def loopRequest : Value := .obj [("corpusId", .str "c"), ("plan", .obj
  [("convergenceEpsilon", numU64 1), ("entityLimit", numU64 1), ("hubDegreeThreshold", numU64 1),
    ("maxIterations", numU64 2), ("passageLimit", numU64 1), ("seeds", .arr []),
    ("teleportProbability", numU64 1)])]

theorem ppr_ceiling_never_hit_loop : ∃ (catalog : Catalog) (result : PprResult ℚ) (m : Meter),
    catalogNodes catalog loopRequest = 1 ∧ m.work.graphScanUnits = 24 ∧ m.work.check.isSome
      ∧ executePpr loopState (keyWalk loopState) catalog loopRequest stillMeter
        = .ok (result, m) := by
  obtain ⟨⟨catalog, result, m⟩, h⟩ := exists_ok (x := do
    let catalog ← ensureBoundedCatalog loopState (keyWalk loopState)
    let done ← pprBody (R := ℚ) loopState (keyWalk loopState) catalog loopRequest stillMeter
    if catalogNodes catalog loopRequest = 1 ∧ done.2.work.graphScanUnits = 24 then
      return (catalog, done)
    else blank .client) (by decide +kernel)
  obtain ⟨catalog', hcatalog, h⟩ := bind_ok.mp h
  obtain ⟨done, hdone, h⟩ := bind_ok.mp h
  split at h
  · rename_i hnodes
    cases h
    obtain ⟨-, -, -, hcheck, hexecute, -⟩ :=
      ppr_ceiling_never_hit hcatalog rfl rfl (stillMeter_at False) hdone
    exact ⟨catalog, result, m, hnodes.1, hnodes.2, hcheck, hexecute⟩
  · cases h

end Loop

end AiraGraphdb.Native.Bounded
