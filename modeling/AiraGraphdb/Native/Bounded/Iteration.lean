import AiraGraphdb.Native.Bounded.Layout

/-! # The iterations, with the work they take

Each stage of PPR charges for its length and its numbers follow from what the stages before it have
computed: the teleport vector from the seeds, an iteration from the scores. -/

namespace AiraGraphdb.Native.Bounded

open Schemes Schemes.Json

variable {R : Type} [Arithmetic R]

open Arithmetic Buckets

/-! ### What is computed -/

/-- What PPR reads of a plan. -/
structure PprPlan where
  hubDegreeThreshold : ℕ
  teleportProbability : F64
  convergenceEpsilon : F64
  maxIterations : ℕ
  seeds : List (String × F64)

def seedOf (seed : Value) : Option (String × F64) := do
  let nodeId ← getStr seed "nodeId"
  let score ← getF64 seed "score"
  return (nodeId, score)

def readPprPlan (plan : Value) : Option PprPlan := do
  let hubDegreeThreshold ← getU64 plan "hubDegreeThreshold"
  let seeds ← getArray plan "seeds"
  let seeds ← seeds.mapM seedOf
  let teleportProbability ← getF64 plan "teleportProbability"
  let convergenceEpsilon ← getF64 plan "convergenceEpsilon"
  let maxIterations ← getU64 plan "maxIterations"
  return ⟨hubDegreeThreshold, teleportProbability, convergenceEpsilon, maxIterations, seeds⟩

/-- The scores of the present seeds, and their sum. -/
def placedSeeds (index : Map ℕ) (nodes : ℕ) (seeds : List (String × F64)) : List R × R :=
  (sortSeeds seeds).foldl (placeSeed index) (List.replicate nodes zero, zero)

def teleportOf (index : Map ℕ) (nodes : ℕ) (seeds : List (String × F64)) : List R :=
  let placed : List R × R := placedSeeds index nodes seeds
  if lt zero placed.2 then placed.1.map fun value => div value placed.2
  else placed.1.map fun _ => div one (ofNat nodes)

def pushArc (input : PprInput R) (scores : List R) (source : ℕ) (total : R) (next : List R)
    (arc : ℕ × R) : List R :=
  next.set arc.1 (add (next.getD arc.1 zero) (share input scores source total arc.1 arc.2))

def pushSource (input : PprInput R) (scores next : List R) (source : ℕ) : List R :=
  (outgoing input.csr source).foldl
    (pushArc input scores source (input.csr.degrees.weightSums.getD source zero)) next

/-- The scores moved along all edges. -/
def pushed (input : PprInput R) (scores : List R) (sources : List ℕ) : List R :=
  sources.foldl (pushSource input scores) (List.replicate input.nodes zero)

def nextScores (input : PprInput R) (scores : List R) : List R :=
  ((pushed input scores (List.range input.nodes)).zip input.teleport).map fun pair =>
    add pair.1 (mul input.teleportProbability pair.2)

def deltaOf (next scores : List R) : R :=
  (next.zip scores).foldl (fun l1Delta pair => add l1Delta (Arithmetic.abs (sub pair.1 pair.2))) zero

def iterated (input : PprInput R) (iteration : ℕ) (scores : List R) (l1Delta : R) : ℕ → PprScores R
  | 0 => ⟨scores, iteration, false, l1Delta⟩
  | left + 1 =>
    let next := nextScores input scores
    let l1Delta := deltaOf next scores
    if lt l1Delta input.epsilon then ⟨next, iteration + 1, true, l1Delta⟩
    else iterated input (iteration + 1) next l1Delta left

def inputOf (plan : PprPlan) (nodeIds : List String) (csr : Csr R) : PprInput R where
  nodes := nodeIds.length
  csr := csr
  damping := (List.range nodeIds.length).map
    (hubDamping nodeIds csr.degrees plan.hubDegreeThreshold)
  teleport := teleportOf csr.index nodeIds.length plan.seeds
  teleportProbability := ofF64 plan.teleportProbability
  epsilon := ofF64 plan.convergenceEpsilon

/-- The scores that a plan ends in, from the teleport vector on. -/
def scoresOf (plan : PprPlan) (nodeIds : List String) (csr : Csr R) : PprScores R :=
  iterated (inputOf plan nodeIds csr) 0 (teleportOf csr.index nodeIds.length plan.seeds) zero
    plan.maxIterations

/-! ### Lengths -/

theorem length_pushArc (input : PprInput R) (scores : List R) (source : ℕ) (total : R)
    (next : List R) (arc : ℕ × R) :
    (pushArc input scores source total next arc).length = next.length := by
  rw [pushArc, List.length_set]

theorem length_pushSource (input : PprInput R) (scores next : List R) (source : ℕ) :
    (pushSource input scores next source).length = next.length := by
  refine foldl_keeps (P := fun values : List R => values.length = next.length) rfl ?_
  intro values arc _ h
  rw [length_pushArc, h]

theorem length_pushed (input : PprInput R) (scores : List R) (sources : List ℕ) :
    (pushed input scores sources).length = input.nodes := by
  refine foldl_keeps (P := fun values : List R => values.length = input.nodes) (by simp) ?_
  intro values source _ h
  rw [length_pushSource, h]

theorem length_nextScores (input : PprInput R) (scores : List R)
    (h : input.teleport.length = input.nodes) : (nextScores input scores).length = input.nodes := by
  rw [nextScores, List.length_map, List.length_zip, length_pushed, h, Nat.min_self]

theorem length_placedSeeds (index : Map ℕ) (nodes : ℕ) (seeds : List (String × F64)) :
    (placedSeeds index nodes seeds : List R × R).1.length = nodes := by
  refine foldl_keeps (P := fun placed : List R × R => placed.1.length = nodes) (by simp) ?_
  intro placed seed _ h
  rw [placeSeed]
  split
  · rwa [List.length_set]
  · exact h

theorem length_teleportOf (index : Map ℕ) (nodes : ℕ) (seeds : List (String × F64)) :
    (teleportOf index nodes seeds : List R).length = nodes := by
  rw [teleportOf]
  split <;> rw [List.length_map, length_placedSeeds]

theorem length_iterated (input : PprInput R) (h : input.teleport.length = input.nodes) (left : ℕ) :
    ∀ (iteration : ℕ) (scores : List R) (l1Delta : R), scores.length = input.nodes →
      (iterated input iteration scores l1Delta left).scores.length = input.nodes := by
  induction left with
  | zero => exact fun _ _ _ hs => hs
  | succ left ih =>
    intro iteration scores l1Delta hs
    rw [iterated]
    split
    · exact length_nextScores input scores h
    · exact ih _ _ _ (length_nextScores input scores h)

theorem length_scoresOf (plan : PprPlan) (nodeIds : List String) (csr : Csr R) :
    (scoresOf plan nodeIds csr).scores.length = nodeIds.length :=
  length_iterated _ (length_teleportOf _ _ _) _ _ _ _ (length_teleportOf _ _ _)

theorem iterations_le (input : PprInput R) (left : ℕ) :
    ∀ (iteration : ℕ) (scores : List R) (l1Delta : R),
      iteration ≤ (iterated input iteration scores l1Delta left).iterations
        ∧ (iterated input iteration scores l1Delta left).iterations ≤ iteration + left := by
  induction left with
  | zero => exact fun _ _ _ => ⟨le_rfl, le_rfl⟩
  | succ left ih =>
    intro iteration scores l1Delta
    rw [iterated]
    split
    · exact ⟨Nat.le_succ _, by dsimp only; omega⟩
    · have := ih (iteration + 1) (nextScores input scores) (deltaOf (nextScores input scores) scores)
      omega

/-! ### The stretches -/

/-- The edges that leave a node are its stretch. -/
theorem LaidOut.outgoing {nodeIds : List String} {arcs : List Arc} {csr : Csr R}
    (h : LaidOut nodeIds arcs csr) (hnodes : Increasing Utf16.cmp nodeIds)
    (hsorted : SortedBy Arc.source Utf16.cmp arcs) (hs : ∀ a ∈ arcs, a.source ∈ nodeIds) {i : ℕ}
    {node : String} (hi : nodeIds[i]? = some node) :
    Bounded.outgoing csr i = (Buckets.bucket Arc.source arcs node).map (entryOf nodeIds) := by
  have hlt := (List.getElem?_eq_some_iff.mp hi).1
  rw [Bounded.outgoing, h.offsets, h.adjacency, offsetsOf_getD hlt, offsetsOf_getD hlt.le,
    ← List.map_take, ← List.map_drop, slice_eq hnodes hs hsorted hi]

theorem LaidOut.sum_outgoing {nodeIds : List String} {arcs : List Arc} {csr : Csr R}
    (h : LaidOut nodeIds arcs csr) (hnodes : Increasing Utf16.cmp nodeIds)
    (hsorted : SortedBy Arc.source Utf16.cmp arcs) (hs : ∀ a ∈ arcs, a.source ∈ nodeIds) :
    ((List.range nodeIds.length).map fun i => (Bounded.outgoing csr i).length).sum = arcs.length := by
  rw [← sum_length_buckets_eq Arc.source arcs hnodes.nodup hs]
  congr 1
  refine List.ext_getElem (by simp) ?_
  intro i hi hi'
  rw [List.length_map, List.length_range] at hi
  rw [List.getElem_map, List.getElem_range, List.getElem_map,
    h.outgoing hnodes hsorted hs (List.getElem?_eq_getElem hi), List.length_map]

theorem LaidOut.weightSum {nodeIds : List String} {arcs : List Arc} {csr : Csr R}
    (h : LaidOut nodeIds arcs csr) {i : ℕ} {node : String} (hi : nodeIds[i]? = some node) :
    csr.degrees.weightSums.getD i zero = Bounded.weightSum arcs node := by
  rw [h.degrees, degreesOf, getD_map hi]

/-! ### The work -/

theorem readSeed_eq : readSeed = fun seed => orBlank (seedOf seed) .client := by
  funext seed
  rw [readSeed, requiredStr]
  simp only [requiredF64, orBlank_map, orBlank_bind]
  congr 1
  rw [seedOf]
  cases getStr seed "nodeId"
  · rfl
  · cases getF64 seed "score" <;> rfl

variable {calm good : Prop} {w B : WorkCounts} {E : ExecutionFailure → Prop}

theorem pprTeleport_meets (hE : Tolerates calm B E) (hF : Excuses good B E) {plan : Value}
    {index : Map ℕ} {nodes : ℕ}
    (hgood : good → ((getArray plan "seeds").bind fun seeds => seeds.mapM seedOf).isSome)
    (hw : w.add .graphScanUnits (2 * nodes) ≤ B) :
    Meets (At calm w) (pprTeleport plan index nodes)
      (fun (teleport : List R) m => (∃ seeds,
        ((getArray plan "seeds").bind fun seeds => seeds.mapM seedOf) = some seeds
          ∧ teleport = teleportOf index nodes seeds)
        ∧ At calm (w.add .graphScanUnits (2 * nodes)) m) E := by
  rw [two_mul] at hw ⊢
  have hfirst := WorkCounts.add_le_of_le hw (Nat.le_add_left nodes nodes)
  rw [pprTeleport]
  refine (buildCountedGraphVec_meets hE _ hfirst).bind fun empty => Meets.of_fact fun hempty => ?_
  refine (orFail_meets hF hfirst fun h => ?_).bind fun seeds => Meets.of_fact fun hseeds => ?_
  · obtain ⟨seeds, h⟩ := Option.isSome_iff_exists.mp (hgood h)
    obtain ⟨values, hvalues, -⟩ := Option.bind_eq_some_iff.mp h
    rw [hvalues]
    rfl
  rw [readSeed_eq, mapM_orBlank]
  refine (orBlank_meets hF fun h => ?_).bind fun read => Meets.of_fact fun hread => ?_
  · have := hgood h
    rwa [hseeds, Option.bind_some] at this
  have hplaced : (sortSeeds read).foldl (placeSeed index) (empty, zero)
      = (placedSeeds index nodes read : List R × R) := by
    rw [placedSeeds, hempty]
    simp
  rw [hplaced]
  have hlen := length_placedSeeds (R := R) index nodes read
  dsimp only
  rw [hseeds, Option.bind_some]
  split
  · rename_i hlt
    rw [mapCounted, foldlM_concat_charged, hlen]
    refine (scanUnits_meets hE ?_).bind fun _ => Meets.pure fun m hm => ⟨⟨read, hread, ?_⟩, ?_⟩
    · rwa [WorkCounts.add_add]
    · rw [teleportOf, if_pos hlt]
    · rwa [WorkCounts.add_add] at hm
  · rename_i hlt
    rw [mapCounted, foldlM_concat_charged, hlen]
    refine (scanUnits_meets hE ?_).bind fun _ => Meets.pure fun m hm => ⟨⟨read, hread, ?_⟩, ?_⟩
    · rwa [WorkCounts.add_add]
    · rw [teleportOf, if_neg hlt]
    · rwa [WorkCounts.add_add] at hm

/-- Numbers that the checks of an iteration do not stumble over. -/
structure Steps (input : PprInput R) : Prop where
  finite : ∀ x : R, isFinite x = true
  sums : ∀ source < input.nodes, outgoing input.csr source ≠ [] →
    le (input.csr.degrees.weightSums.getD source zero) zero = false

theorem distribute_meets (hE : Tolerates calm B E) (hF : Excuses good B E) {input : PprInput R}
    {scores next : List R} {source : ℕ} (hsource : source < input.nodes) (hgood : good → Steps input)
    (hw : w.add .graphScanUnits (1 + (outgoing input.csr source).length) ≤ B) :
    Meets (At calm w) (distribute input scores next source)
      (fun next' m => next' = pushSource input scores next source
        ∧ At calm (w.add .graphScanUnits (1 + (outgoing input.csr source).length)) m) E := by
  have hone := WorkCounts.add_le_of_le hw (Nat.le_add_right 1 _)
  rw [distribute]
  refine (accountGraphScanUnit_meets hE hone).bind fun _ => ?_
  dsimp only
  rw [pushSource]
  split
  · rename_i hnil
    rw [hnil]
    exact Meets.pure fun m hm => ⟨rfl, hm⟩
  · rename_i hne
    refine (require_meets hF hone fun h => ⟨(hgood h).finite _, (hgood h).sums _ hsource hne⟩).bind
      fun _ => Meets.of_fact fun _ => ?_
    rw [foldlM_charged]
    refine (scanUnits_meets hE ?_).bind fun _ => Meets.pure fun m hm => ⟨rfl, ?_⟩
    · rwa [WorkCounts.add_add]
    · rwa [WorkCounts.add_add] at hm

/-- What an iteration takes. -/
def iterationUnits (nodes arcs : ℕ) : ℕ := 4 * nodes + arcs

theorem pprIteration_meets (hE : Tolerates calm B E) (hF : Excuses good B E) {input : PprInput R}
    {scores : List R} {arcs : ℕ} (hteleport : input.teleport.length = input.nodes)
    (hscores : scores.length = input.nodes)
    (hsum : ((List.range input.nodes).map fun i => (outgoing input.csr i).length).sum = arcs)
    (hgood : good → Steps input)
    (hw : w.add .graphScanUnits (iterationUnits input.nodes arcs) ≤ B) :
    Meets (At calm w) (pprIteration input scores)
      (fun next m => next = (nextScores input scores, deltaOf (nextScores input scores) scores)
        ∧ At calm (w.add .graphScanUnits (iterationUnits input.nodes arcs)) m) E := by
  have hwithin {k : ℕ} (hk : k ≤ iterationUnits input.nodes arcs) :
      w.add .graphScanUnits k ≤ B := WorkCounts.add_le_of_le hw hk
  simp only [iterationUnits] at hwithin ⊢
  have hcost : ((List.range input.nodes).map fun i => 1 + (outgoing input.csr i).length).sum
      = input.nodes + arcs := by
    rw [List.sum_map_add, hsum]
    simp
  rw [pprIteration]
  refine (buildCountedGraphVec_meets hE _ (hwithin (by omega))).bind fun empty => Meets.of_fact
    fun hempty => ?_
  obtain rfl : empty = pushed input scores [] := by
    rw [hempty, pushed]
    simp
  -- along the edges
  refine (foldlM_cost_meets (B := B) (pushed input scores)
    (fun i => 1 + (outgoing input.csr i).length) _ ?_ ?_).bind fun next => Meets.of_fact fun hnext => ?_
  · rw [hcost, WorkCounts.add_add]
    exact hwithin (by omega)
  · intro done source rest hdone v hv
    have hsource : source < input.nodes := by
      rw [← List.mem_range, hdone]
      simp
    rw [pushed, pushed, List.foldl_append]
    exact distribute_meets hE hF hsource hgood hv
  subst hnext
  rw [hcost, WorkCounts.add_add]
  -- the teleport
  have hlen : ((pushed input scores (List.range input.nodes)).zip input.teleport).length
      = input.nodes := by
    rw [List.length_zip, length_pushed, hteleport, Nat.min_self]
  rw [foldlM_concat_charged, hlen, bind_assoc]
  refine (scanUnits_meets hE ?_).bind fun _ => ?_
  · rw [WorkCounts.add_add]
    exact hwithin (by omega)
  rw [pure_bind, WorkCounts.add_add]
  -- the distance
  have hlen' : ((nextScores input scores).zip scores).length = input.nodes := by
    rw [List.length_zip, length_nextScores input scores hteleport, hscores, Nat.min_self]
  refine (foldlM_unit_meets (B := B) (fun done => done.foldl (fun l1Delta pair =>
    add l1Delta (Arithmetic.abs (sub pair.1 pair.2))) zero) ((nextScores input scores).zip scores)
    ?_ ?_).bind fun l1Delta => Meets.of_fact fun hdelta => ?_
  · rw [hlen', WorkCounts.add_add]
    exact hwithin (by omega)
  · intro done pair rest _ v hv
    refine (require_meets hF (WorkCounts.le_trans (WorkCounts.le_add _ _ _) hv)
      fun h => (hgood h).finite _).bind fun _ => Meets.of_fact fun _ => ?_
    refine (accountGraphScanUnit_meets hE hv).bind fun _ => Meets.pure fun m hm => ⟨?_, hm⟩
    rw [List.foldl_append]
    rfl
  subst hdelta
  rw [hlen', WorkCounts.add_add]
  refine (require_meets hF (hwithin (by omega)) fun h => (hgood h).finite _).bind fun _ =>
    Meets.of_fact fun _ => Meets.pure fun m hm => ⟨rfl, ?_⟩
  convert hm using 2
  omega

/-- The work after so many more iterations. -/
def WorkCounts.spent (w : WorkCounts) (iterations units : ℕ) : WorkCounts :=
  { w with
    iterations := w.iterations + iterations
    graphScanUnits := w.graphScanUnits + iterations * units }

theorem WorkCounts.spent_zero (w : WorkCounts) (units : ℕ) : w.spent 0 units = w := by
  simp [WorkCounts.spent]

theorem WorkCounts.spent_spent (w : WorkCounts) (m n units : ℕ) :
    (w.spent m units).spent n units = w.spent (m + n) units := by
  simp only [WorkCounts.spent, Nat.add_mul, Nat.add_assoc]

theorem WorkCounts.spent_mono (w : WorkCounts) {m n units : ℕ} (h : m ≤ n) :
    w.spent m units ≤ w.spent n units := by
  have := Nat.mul_le_mul_right units h
  rw [WorkCounts.le_iff]
  simp only [WorkCounts.spent]
  omega

theorem WorkCounts.add_le_spent (w : WorkCounts) (units : ℕ) :
    w.add .graphScanUnits units ≤ w.spent 1 units := by
  rw [WorkCounts.le_iff]
  simp only [WorkCounts.spent, WorkCounts.add, WorkCounts.set, WorkCounts.get]
  omega

theorem pprIterate_meets (hE : Tolerates calm B E) (hF : Excuses good B E) (input : PprInput R)
    {arcs : ℕ} (hteleport : input.teleport.length = input.nodes)
    (hsum : ((List.range input.nodes).map fun i => (outgoing input.csr i).length).sum = arcs)
    (hgood : good → Steps input) (left : ℕ) :
    ∀ (w : WorkCounts) (iteration : ℕ) (scores : List R) (l1Delta : R), w.iterations = iteration →
      scores.length = input.nodes → w.spent left (iterationUnits input.nodes arcs) ≤ B →
      Meets (At calm w) (pprIterate input iteration scores l1Delta left)
        (fun scored m => scored = iterated input iteration scores l1Delta left
          ∧ At calm (w.spent (scored.iterations - iteration) (iterationUnits input.nodes arcs)) m)
        E := by
  induction left with
  | zero =>
    intro w iteration scores l1Delta _ _ _
    refine Meets.pure fun m hm => ⟨rfl, ?_⟩
    rwa [Nat.sub_self, WorkCounts.spent_zero]
  | succ left ih =>
    intro w iteration scores l1Delta hw hscores hB
    have hone := WorkCounts.le_trans (w.spent_mono (Nat.le_add_left 1 left)) hB
    rw [pprIterate, iterated]
    refine (pprIteration_meets hE hF hteleport hscores hsum hgood
      (WorkCounts.le_trans (w.add_le_spent _) hone)).bind fun next => Meets.of_fact fun hnext => ?_
    subst hnext
    refine (setIterations_meets _).bind fun _ => ?_
    have hset : (w.add .graphScanUnits (iterationUnits input.nodes arcs)).set .iterations
        (iteration + 1) = w.spent 1 (iterationUnits input.nodes arcs) := by
      simp only [WorkCounts.spent, WorkCounts.add, WorkCounts.set, WorkCounts.get, hw, one_mul]
    rw [hset]
    split
    · refine Meets.pure fun m hm => ⟨rfl, ?_⟩
      dsimp only
      rwa [Nat.add_sub_cancel_left]
    · have hle := iterations_le input left (iteration + 1) (nextScores input scores)
        (deltaOf (nextScores input scores) scores)
      refine (ih _ (iteration + 1) _ _ ?_ (length_nextScores input scores hteleport) ?_).post ?_
      · simp only [WorkCounts.spent, hw]
      · rw [WorkCounts.spent_spent, Nat.add_comm]
        exact hB
      · rintro scored m ⟨rfl, hm⟩
        refine ⟨rfl, ?_⟩
        rw [WorkCounts.spent_spent] at hm
        convert hm using 2
        omega

theorem map_range_getD {α : Type} (xs : List α) (d : α) :
    (List.range xs.length).map (fun i => xs.getD i d) = xs := by
  refine List.ext_getElem (by simp) ?_
  intro i _ hi
  simp [List.getElem?_eq_getElem hi]

theorem readPprPlan_iff {plan : Value} {read : PprPlan} :
    readPprPlan plan = some read ↔ getU64 plan "hubDegreeThreshold" = some read.hubDegreeThreshold
      ∧ (getArray plan "seeds").bind (fun seeds => seeds.mapM seedOf) = some read.seeds
      ∧ getF64 plan "teleportProbability" = some read.teleportProbability
      ∧ getF64 plan "convergenceEpsilon" = some read.convergenceEpsilon
      ∧ getU64 plan "maxIterations" = some read.maxIterations := by
  rw [readPprPlan]
  constructor
  · intro h
    obtain ⟨threshold, h1, h⟩ := Option.bind_eq_some_iff.mp h
    obtain ⟨seeds, h2, h⟩ := Option.bind_eq_some_iff.mp h
    obtain ⟨values, h3, h⟩ := Option.bind_eq_some_iff.mp h
    obtain ⟨probability, h4, h⟩ := Option.bind_eq_some_iff.mp h
    obtain ⟨epsilon, h5, h⟩ := Option.bind_eq_some_iff.mp h
    obtain ⟨iterations, h6, h⟩ := Option.bind_eq_some_iff.mp h
    cases h
    exact ⟨h1, Option.bind_eq_some_iff.mpr ⟨seeds, h2, h3⟩, h4, h5, h6⟩
  · rintro ⟨h1, h2, h3, h4, h5⟩
    obtain ⟨seeds, h2, h2'⟩ := Option.bind_eq_some_iff.mp h2
    simp [h1, h2, h2', h3, h4, h5]

theorem steps_of_sound {nodeIds : List String} {arcs : List Arc} {csr : Csr R}
    (h : LaidOut nodeIds arcs csr) (hnodes : Increasing Utf16.cmp nodeIds)
    (hsorted : SortedBy Arc.source Utf16.cmp arcs) (hs : ∀ a ∈ arcs, a.source ∈ nodeIds)
    (plan : PprPlan) (hsound : Sound R arcs) : Steps (inputOf plan nodeIds csr) where
  finite := hsound.finite
  sums := by
    intro i hi hne
    have hnode : nodeIds[i]? = some nodeIds[i] := List.getElem?_eq_getElem hi
    rw [inputOf, h.outgoing hnodes hsorted hs hnode, Ne, List.map_eq_nil_iff] at hne
    obtain ⟨arc, harc⟩ := List.exists_mem_of_ne_nil _ hne
    obtain ⟨harc, hsource⟩ := List.mem_filter.mp harc
    rw [inputOf, h.weightSum hnode, ← of_decide_eq_true hsource]
    exact hsound.sums arc harc

/-- What PPR takes apart from the iterations and the ranking. -/
def scoresUnits (edges nodes arcs : ℕ) : ℕ :=
  graphUnits edges nodes arcs + layoutUnits nodes arcs + 4 * nodes

/-- The work after so many iterations. -/
def pprWork (w : WorkCounts) (edges nodes arcs iterations : ℕ) : WorkCounts :=
  ((w.found nodes arcs).add .graphScanUnits (scoresUnits edges nodes arcs)).spent iterations
    (iterationUnits nodes arcs)

theorem pprScores_meets (hE : Tolerates calm B E) (hF : Excuses good B E) {corpusId : String}
    {edges : List (String × GraphEdge)} {arcs : List Arc} (harcs : sortedArcs corpusId edges = arcs)
    {plan : Value} {graphNodes graphEdges : ℕ} (hlen : arcs.length < 2 ^ 63)
    (hgood : good → (sortedNodes arcs).length = graphNodes ∧ arcs.length = graphEdges
      ∧ Sound R arcs ∧ (readPprPlan plan).isSome)
    (hfresh : w.nodesInitialized = 0 ∧ w.edgesVisited = 0 ∧ w.iterations = 0)
    (hw : pprWork w edges.length (sortedNodes arcs).length arcs.length
      ((getU64 plan "maxIterations").getD 0) ≤ B) :
    Meets (At calm w) (pprScores edges corpusId plan graphNodes graphEdges)
      (fun (result : List String × PprScores R) m => (((sortedNodes arcs).length = graphNodes
        ∧ arcs.length = graphEdges) ∧ ∃ read csr, readPprPlan plan = some read
          ∧ LaidOut (sortedNodes arcs) arcs csr
          ∧ result = (sortedNodes arcs, scoresOf read (sortedNodes arcs) csr))
        ∧ At calm (pprWork w edges.length (sortedNodes arcs).length arcs.length
          result.2.iterations) m) E := by
  have hs {a : Arc} (ha : a ∈ arcs) := source_mem_sortedNodes ha
  have ht {a : Arc} (ha : a ∈ arcs) := target_mem_sortedNodes ha
  have hnodes := sortedNodes_increasing arcs
  have hsorted : SortedBy Arc.source Utf16.cmp arcs := harcs ▸ sortedArcs_sorted corpusId edges
  have hread (h : good) : ∃ read, readPprPlan plan = some read :=
    Option.isSome_iff_exists.mp (hgood h).2.2.2
  have hw0 : (w.found (sortedNodes arcs).length arcs.length).add .graphScanUnits
      (scoresUnits edges.length (sortedNodes arcs).length arcs.length) ≤ B := by
    refine WorkCounts.le_trans ?_ hw
    rw [pprWork]
    conv_lhs => rw [← WorkCounts.spent_zero (WorkCounts.add _ _ _)
      (iterationUnits (sortedNodes arcs).length arcs.length)]
    exact WorkCounts.spent_mono _ (Nat.zero_le _)
  have hwithin {k : ℕ}
      (hk : k ≤ scoresUnits edges.length (sortedNodes arcs).length arcs.length) :
      (w.found (sortedNodes arcs).length arcs.length).add .graphScanUnits k ≤ B :=
    WorkCounts.add_le_of_le hw0 hk
  simp only [scoresUnits] at hwithin
  rw [pprScores]
  refine (pprGraph_meets hE hF harcs (fun h => ⟨(hgood h).1, (hgood h).2.1⟩)
    ⟨hfresh.1, hfresh.2.1⟩ (hwithin (by omega))).bind fun graph => Meets.of_fact fun hgraph => ?_
  obtain ⟨rfl, hcounts⟩ := hgraph
  dsimp only
  refine (pprLayout_meets hE hF hnodes hsorted (fun a => hs) (fun a => ht) hlen
    (fun h => (hgood h).2.2.1) ?_).bind fun csr => Meets.of_fact fun hcsr => ?_
  · rw [WorkCounts.add_add]
    exact hwithin (by omega)
  rw [WorkCounts.add_add]
  refine (orBlank_meets hF fun h => ?_).bind fun threshold => Meets.of_fact fun hthreshold => ?_
  · obtain ⟨read, hread⟩ := hread h
    rw [(readPprPlan_iff.mp hread).1]
    rfl
  refine (buildCountedGraphVec_meets hE _ ?_).bind fun damping => Meets.of_fact fun hdamping => ?_
  · rw [WorkCounts.add_add]
    exact hwithin (by omega)
  subst hdamping
  refine (pprTeleport_meets hE hF (fun h => ?_) ?_).bind fun teleport => Meets.of_fact
    fun hteleport => ?_
  · obtain ⟨read, hread⟩ := hread h
    rw [(readPprPlan_iff.mp hread).2.1]
    rfl
  · rw [WorkCounts.add_add, WorkCounts.add_add]
    exact hwithin (by omega)
  obtain ⟨seeds, hseeds, rfl⟩ := hteleport
  refine (orBlank_meets hF fun h => ?_).bind fun probability => Meets.of_fact fun hprobability => ?_
  · obtain ⟨read, hread⟩ := hread h
    rw [(readPprPlan_iff.mp hread).2.2.1]
    rfl
  refine (orBlank_meets hF fun h => ?_).bind fun epsilon => Meets.of_fact fun hepsilon => ?_
  · obtain ⟨read, hread⟩ := hread h
    rw [(readPprPlan_iff.mp hread).2.2.2.1]
    rfl
  refine (orBlank_meets hF fun h => ?_).bind fun iterations => Meets.of_fact fun hiterations => ?_
  · obtain ⟨read, hread⟩ := hread h
    rw [(readPprPlan_iff.mp hread).2.2.2.2]
    rfl
  have hplan : readPprPlan plan = some ⟨threshold, probability, epsilon, iterations, seeds⟩ :=
    readPprPlan_iff.mpr ⟨hthreshold, hseeds, hprobability, hepsilon, hiterations⟩
  rw [length_teleportOf]
  simp only [WorkCounts.add_add]
  refine (buildCountedGraphVec_meets hE _ ?_).bind fun scores => Meets.of_fact fun hscores => ?_
  · rw [WorkCounts.add_add]
    exact hwithin (by omega)
  obtain rfl : scores = teleportOf csr.index (sortedNodes arcs).length seeds := by
    have := map_range_getD (teleportOf (R := R) csr.index (sortedNodes arcs).length seeds) zero
    rw [length_teleportOf] at this
    rw [hscores, this]
  -- the iterations
  have hmeets := pprIterate_meets hE hF
    (inputOf ⟨threshold, probability, epsilon, iterations, seeds⟩ (sortedNodes arcs) csr)
    (length_teleportOf _ _ _) (hcsr.sum_outgoing hnodes hsorted fun a => hs)
    (fun h => steps_of_sound hcsr hnodes hsorted (fun a => hs) _ (hgood h).2.2.1) iterations
    ((w.found (sortedNodes arcs).length arcs.length).add .graphScanUnits
      (scoresUnits edges.length (sortedNodes arcs).length arcs.length)) 0
    (teleportOf csr.index (sortedNodes arcs).length seeds) zero hfresh.2.2 (length_teleportOf _ _ _)
    (by rw [hiterations] at hw; exact hw)
  refine ((hmeets.pre fun m hm => ?_).bind fun scored => Meets.of_fact fun hscored =>
    Meets.pure fun m hm => ⟨⟨hcounts, _, csr, hplan, hcsr, ?_⟩, ?_⟩)
  · rw [WorkCounts.add_add] at hm
    convert hm using 2
    rw [scoresUnits]
    omega
  · rw [hscored]
    rfl
  · rw [Nat.sub_zero] at hm
    exact hm

end AiraGraphdb.Native.Bounded
