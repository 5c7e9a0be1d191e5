import AiraGraphdb.Native.Bounded.Graph

/-! # The graph and its layout, with the work they take

Collecting, sorting and discovering end in the sorted edges and nodes of the corpus; counting,
offsets and cursors end with every edge in the stretch of its source. -/

namespace AiraGraphdb.Native.Bounded

open Schemes

/-! ### Discovery -/

/-- The work after so many nodes are found and so many edges visited. -/
def WorkCounts.found (w : WorkCounts) (nodes edges : ℕ) : WorkCounts :=
  { w with
    nodesInitialized := w.nodesInitialized + nodes
    edgesVisited := w.edgesVisited + edges
    graphScanUnits := w.graphScanUnits + (nodes + edges) }

namespace WorkCounts

@[simp] theorem found_zero (w : WorkCounts) : w.found 0 0 = w := rfl

theorem found_node (w : WorkCounts) (n e : ℕ) :
    ((w.found n e).add .nodesInitialized 1).add .graphScanUnits 1 = w.found (n + 1) e := by
  simp only [found, add, set, get, mk.injEq, true_and, and_true]
  omega

theorem found_edge (w : WorkCounts) (n e : ℕ) :
    ((w.found n e).add .edgesVisited 1).add .graphScanUnits 1 = w.found n (e + 1) := by
  simp only [found, add, set, get, mk.injEq, true_and, and_true]
  omega

theorem found_add (w : WorkCounts) (n e k : ℕ) :
    (w.add .graphScanUnits k).found n e = (w.found n e).add .graphScanUnits k := by
  simp only [found, add, set, get, mk.injEq, true_and, and_true]
  omega

theorem found_mono (w : WorkCounts) {n n' e e' : ℕ} (hn : n ≤ n') (he : e ≤ e') :
    w.found n e ≤ w.found n' e' := by
  rw [le_iff]
  simp only [found]
  omega

theorem le_found (w : WorkCounts) (n e : ℕ) : w ≤ w.found n e := by
  rw [le_iff]
  simp only [found]
  omega

end WorkCounts

section Graph

variable {calm good : Prop} {w B : WorkCounts} {E : ExecutionFailure → Prop}

theorem length_discovered_le_append (arcs rest : List Arc) :
    (discovered arcs).length ≤ (discovered (arcs ++ rest)).length := by
  induction rest using List.reverseRecOn with
  | nil => simp
  | append_singleton rest arc ih =>
    rw [← List.append_assoc, discovered_concat]
    exact ih.trans ((length_le_addNew _ _).trans (length_le_addNew _ _))

theorem discoverEndpoint_meets (hE : Tolerates calm B E) {nodeIds : List String} {nodeId : String}
    {e : ℕ} (hw : w.found (addNew nodeIds nodeId).length e ≤ B) :
    Meets (At calm (w.found nodeIds.length e)) (discoverEndpoint nodeIds nodeId)
      (fun nodeIds' m => nodeIds' = addNew nodeIds nodeId ∧ At calm (w.found nodeIds'.length e) m)
      E := by
  rw [discoverEndpoint]
  by_cases h : nodeId ∈ nodeIds
  · rw [if_pos h]
    exact Meets.pure fun m hm => by rw [addNew, if_pos h]; exact ⟨rfl, hm⟩
  · rw [addNew, if_neg h, List.length_append, List.length_singleton, ← WorkCounts.found_node] at hw
    rw [if_neg h]
    refine (count_meets hE (by simp [Counter.Metered])
      (WorkCounts.le_trans (WorkCounts.le_add _ _ _) hw)).bind fun _ => ?_
    refine (accountGraphScanUnit_meets hE hw).bind fun _ => Meets.pure fun m hm => ?_
    rw [addNew, if_neg h, List.length_append, List.length_singleton, ← WorkCounts.found_node]
    exact ⟨rfl, hm⟩

theorem discoverArc_meets (hE : Tolerates calm B E) {done : List Arc} {arc : Arc}
    (hw : w.found (discovered (done ++ [arc])).length (done.length + 1) ≤ B) :
    Meets (At calm (w.found (discovered done).length done.length))
      (discoverArc (discovered done) arc)
      (fun nodeIds m => nodeIds = discovered (done ++ [arc])
        ∧ At calm (w.found (discovered (done ++ [arc])).length (done.length + 1)) m) E := by
  rw [discovered_concat] at hw ⊢
  have hlen := length_le_addNew (addNew (discovered done) arc.source) arc.target
  refine (discoverEndpoint_meets hE ?_).bind fun ids => Meets.of_fact fun hids => ?_
  · exact WorkCounts.le_trans (w.found_mono hlen (Nat.le_succ _)) hw
  subst hids
  refine (discoverEndpoint_meets hE ?_).bind fun ids => Meets.of_fact fun hids => ?_
  · exact WorkCounts.le_trans (w.found_mono le_rfl (Nat.le_succ _)) hw
  subst hids
  rw [← WorkCounts.found_edge] at hw ⊢
  refine (count_meets hE (by simp [Counter.Metered])
    (WorkCounts.le_trans (WorkCounts.le_add _ _ _) hw)).bind fun _ => ?_
  exact (accountGraphScanUnit_meets hE hw).bind fun _ => Meets.pure fun m hm => ⟨rfl, hm⟩

theorem discover_meets (hE : Tolerates calm B E) {arcs : List Arc}
    (hw : w.found (discovered arcs).length arcs.length ≤ B) :
    Meets (At calm w) (arcs.foldlM discoverArc [])
      (fun nodeIds m => nodeIds = discovered arcs
        ∧ At calm (w.found (discovered arcs).length arcs.length) m) E := by
  refine (Meets.foldlM (I := fun done nodeIds m => nodeIds = discovered done
    ∧ At calm (w.found (discovered done).length done.length) m) ?_ []).pre fun m hm => ⟨rfl, hm⟩
  rintro done arc rest rfl nodeIds
  refine Meets.of_fact ?_
  rintro rfl
  rw [List.length_append, List.length_singleton]
  refine discoverArc_meets hE (WorkCounts.le_trans (w.found_mono ?_ ?_) hw)
  · have := length_discovered_le_append (done ++ [arc]) rest
    rwa [List.append_assoc] at this
  · simp

theorem checkpoints_meets {α : Type} (hE : Tolerates calm B E) (hw : w ≤ B) {r : Run α}
    {Q : α → Meter → Prop} (h : Meets (At calm w) r Q E) :
    Meets (At calm w) (do beforeAllocation; r) Q E :=
  (checkpoint_meets hE hw).bind fun _ => h

/-- What collecting, sorting and discovering takes. -/
def graphUnits (edges nodes arcs : ℕ) : ℕ := edges + sortUnits arcs + sortUnits nodes

theorem pprGraph_meets (hE : Tolerates calm B E) (hF : Excuses good B E) {corpusId : String}
    {edges : List (String × GraphEdge)} {arcs : List Arc} (harcs : sortedArcs corpusId edges = arcs)
    {graphNodes graphEdges : ℕ} (hgood : good → (sortedNodes arcs).length = graphNodes
      ∧ arcs.length = graphEdges)
    (hfresh : w.nodesInitialized = 0 ∧ w.edgesVisited = 0)
    (hw : (w.found (sortedNodes arcs).length arcs.length).add .graphScanUnits
      (graphUnits edges.length (sortedNodes arcs).length arcs.length) ≤ B) :
    Meets (At calm w) (pprGraph edges corpusId graphNodes graphEdges)
      (fun graph m => (graph = (sortedNodes arcs, arcs) ∧ (sortedNodes arcs).length = graphNodes
        ∧ arcs.length = graphEdges)
        ∧ At calm ((w.found (sortedNodes arcs).length arcs.length).add .graphScanUnits
          (graphUnits edges.length (sortedNodes arcs).length arcs.length)) m) E := by
  have hlen : (corpusArcs corpusId edges).length = arcs.length := by
    rw [← harcs, (sortedArcs_perm corpusId edges).length_eq]
  have hnodes : (discovered arcs).length = (sortedNodes arcs).length :=
    (sortedNodes_perm arcs).length_eq.symm
  -- the bound at each stage
  have hfound {k : ℕ} (hk : k ≤ graphUnits edges.length (sortedNodes arcs).length arcs.length) :
      (w.found (sortedNodes arcs).length arcs.length).add .graphScanUnits k ≤ B :=
    WorkCounts.add_le_of_le hw hk
  have hbefore {k : ℕ} (hk : k ≤ graphUnits edges.length (sortedNodes arcs).length arcs.length) :
      w.add .graphScanUnits k ≤ B := by
    refine WorkCounts.le_trans ?_ (hfound hk)
    rw [← WorkCounts.found_add]
    exact WorkCounts.le_found _ _ _
  have h0 : w ≤ B := by simpa using hbefore (Nat.zero_le _)
  have hL : edges.length ≤ graphUnits edges.length (sortedNodes arcs).length arcs.length := by
    rw [graphUnits]
    omega
  have hLE : edges.length + sortUnits arcs.length
      ≤ graphUnits edges.length (sortedNodes arcs).length arcs.length := by
    rw [graphUnits]
    omega
  rw [pprGraph]
  refine checkpoints_meets hE h0 (checkpoints_meets hE h0 (checkpoints_meets hE h0
    (checkpoints_meets hE h0 (checkpoints_meets hE h0 (checkpoints_meets hE h0 ?_)))))
  rw [collectEdges_eq, bind_assoc]
  refine (scanUnits_meets hE (hbefore hL)).bind fun _ => ?_
  rw [pure_bind]
  refine (require_meets hF (hbefore hL) fun h => hlen.trans (hgood h).2).bind fun _ =>
    Meets.of_fact fun hedges => ?_
  rw [hlen] at hedges
  refine (canonicalCountedSort_meets compareArcs hE _ ?_).bind fun sorted => Meets.of_fact
    fun hsorted => ?_
  · rw [hlen, WorkCounts.add_add]
    exact hbefore hLE
  obtain rfl : sorted = arcs := hsorted.trans harcs
  rw [hlen, WorkCounts.add_add]
  refine (discover_meets hE ?_).bind fun nodeIds => Meets.of_fact fun hids => ?_
  · rw [hnodes, WorkCounts.found_add]
    exact hfound hLE
  subst hids
  refine (canonicalCountedSort_meets Utf16.cmp hE _ ?_).bind fun nodeIds => Meets.of_fact
    fun hids => ?_
  · rw [hnodes, WorkCounts.found_add, WorkCounts.add_add]
    exact hfound le_rfl
  obtain rfl : nodeIds = sortedNodes sorted := hids
  rw [hnodes, WorkCounts.found_add, WorkCounts.add_add]
  refine (require_meets hF (hfound le_rfl) fun h => (hgood h).1).bind fun _ =>
    Meets.of_fact fun hcount => ?_
  refine Meets.get.bind fun m => ?_
  refine (Meets.of_fact (p := m.work = _) fun hm => ?_).pre fun s hs => ⟨hs.1 ▸ hs.2.work, hs.2⟩
  refine (require_meets hF (hfound le_rfl) fun h => ?_).bind fun _ => Meets.of_fact fun _ =>
    Meets.pure fun m hm => ⟨⟨rfl, hcount, hedges⟩, hm⟩
  rw [hm]
  simp only [WorkCounts.found, WorkCounts.add, WorkCounts.set]
  rw [hfresh.1, hfresh.2, Nat.zero_add, Nat.zero_add]
  exact hgood h

end Graph

/-! ### The layout -/

section Csr

variable {R : Type} [Arithmetic R]

open Arithmetic Buckets

/-- The weights of the edges that leave a node, added up in their order. -/
def weightSum (arcs : List Arc) (source : String) : R :=
  (Buckets.bucket Arc.source arcs source).foldl (fun total arc => add total (ofF64 arc.weight.1)) zero

def degreesOf (nodeIds : List String) (arcs : List Arc) : Degrees R :=
  ⟨nodeIds.map fun node => (Buckets.bucket Arc.source arcs node).length,
    nodeIds.map fun node => (Buckets.bucket Arc.target arcs node).length, nodeIds.map (weightSum arcs)⟩

/-- An edge by the number of its target. -/
def entryOf (nodeIds : List String) (arc : Arc) : ℕ × R :=
  (nodeIds.idxOf arc.target, ofF64 arc.weight.1)

def offsetsOf (nodeIds : List String) (arcs : List Arc) : List ℕ :=
  (List.range (nodeIds.length + 1)).map (offset Arc.source arcs nodeIds)

/-- Every edge is in its place. -/
structure LaidOut (nodeIds : List String) (arcs : List Arc) (csr : Csr R) : Prop where
  index : Indexes nodeIds.zipIdx csr.index
  degrees : csr.degrees = degreesOf nodeIds arcs
  offsets : csr.offsets = offsetsOf nodeIds arcs
  adjacency : csr.adjacency = arcs.map (entryOf nodeIds)

/-- Numbers that the checks of the weights do not stumble over. -/
structure Sound (R : Type) [Arithmetic R] (arcs : List Arc) : Prop where
  finite : ∀ x : R, isFinite x = true
  weights : ∀ arc ∈ arcs, lt (ofF64 arc.weight.1 : R) zero = false
  sums : ∀ arc ∈ arcs, le (weightSum arcs arc.source : R) zero = false

variable {calm good : Prop} {w B : WorkCounts} {E : ExecutionFailure → Prop}

theorem indexes_get {nodeIds : List String} {index : Map ℕ} (h : Indexes nodeIds.zipIdx index)
    {x : String} {i : ℕ} : index[x]? = some i ↔ nodeIds[i]? = some x := by
  rw [h x i, List.mem_zipIdx_iff_getElem?]

theorem indexes_isSome {nodeIds : List String} {index : Map ℕ} (h : Indexes nodeIds.zipIdx index)
    {x : String} (hx : x ∈ nodeIds) : (index[x]? : Option ℕ).isSome := by
  obtain ⟨i, hi⟩ := List.getElem?_of_mem hx
  rw [(indexes_get h).mpr hi]
  rfl

theorem indexNodes_meets (hE : Tolerates calm B E) {nodeIds : List String} (hnd : nodeIds.Nodup)
    (hw : w.add .graphScanUnits nodeIds.length ≤ B) :
    Meets (At calm w) (indexNodes nodeIds) (fun index m => Indexes nodeIds.zipIdx index
      ∧ At calm (w.add .graphScanUnits nodeIds.length) m) E := by
  have h0 : w ≤ B := by simpa using WorkCounts.add_le_of_le hw (Nat.zero_le _)
  rw [indexNodes]
  refine checkpoints_meets hE h0 (checkpoints_meets hE h0 ?_)
  refine ((Meets.foldlM (I := fun done index m => Indexes done index
    ∧ At calm (w.add .graphScanUnits done.length) m) ?_ ∅).pre ?_).post ?_
  · intro done entry rest hdone index
    refine Meets.of_fact fun hi => ?_
    have hlen := congrArg List.length hdone
    rw [List.length_zipIdx, List.length_append, List.length_cons] at hlen
    have hids : nodeIds = done.map Prod.fst ++ entry.1 :: rest.map Prod.fst := by
      rw [← List.zipIdx_map_fst 0 nodeIds, hdone, List.map_append, List.map_cons]
    have hnew : entry.1 ∉ index := by
      intro hmem
      obtain ⟨i, hi'⟩ := Option.isSome_iff_exists.mp (Std.ExtTreeMap.isSome_getElem?_iff_mem.mpr hmem)
      rw [hids] at hnd
      exact (List.nodup_append.mp hnd).2.2 entry.1 (List.mem_map.mpr ⟨_, (hi _ _).mp hi', rfl⟩)
        entry.1 (by simp) rfl
    have hstep : (w.add .graphScanUnits done.length).add .graphScanUnits 1 ≤ B := by
      rw [WorkCounts.add_add]
      exact WorkCounts.add_le_of_le hw (by omega)
    refine (require_meets excuses_true (WorkCounts.le_trans (WorkCounts.le_add _ _ _) hstep)
      fun _ => hnew).bind fun _ => Meets.of_fact fun _ => ?_
    refine (accountGraphScanUnit_meets hE hstep).bind fun _ => Meets.pure fun m hm => ?_
    rw [WorkCounts.add_add] at hm
    rw [List.length_append, List.length_singleton]
    exact ⟨hi.insert hnew entry.2, hm⟩
  · intro m hm
    exact ⟨fun k i => by simp, by simpa using hm⟩
  · rintro index m ⟨hi, hm⟩
    rw [List.length_zipIdx] at hm
    exact ⟨hi, hm⟩

theorem weightSum_concat_self (done : List Arc) (arc : Arc) :
    (weightSum (done ++ [arc]) arc.source : R)
      = add (weightSum done arc.source) (ofF64 arc.weight.1) := by
  rw [weightSum, bucket_concat_self, List.foldl_append]
  rfl

theorem weightSum_concat_ne (done : List Arc) {arc : Arc} {k : String} (h : k ≠ arc.source) :
    (weightSum (done ++ [arc]) k : R) = weightSum done k := by
  rw [weightSum, bucket_concat_ne _ _ h, weightSum]

/-- One more edge changes the degrees of its two nodes. -/
theorem degreesOf_concat {nodeIds : List String} (hnd : nodeIds.Nodup) {done : List Arc} {arc : Arc}
    {source target : ℕ} (hs : nodeIds[source]? = some arc.source)
    (ht : nodeIds[target]? = some arc.target) :
    (degreesOf nodeIds (done ++ [arc]) : Degrees R)
      = ⟨(nodeIds.map fun node => (Buckets.bucket Arc.source done node).length).set source
            ((Buckets.bucket Arc.source done arc.source).length + 1),
          (nodeIds.map fun node => (Buckets.bucket Arc.target done node).length).set target
            ((Buckets.bucket Arc.target done arc.target).length + 1),
          (nodeIds.map (weightSum done)).set source
            (add (weightSum done arc.source) (ofF64 arc.weight.1))⟩ := by
  have hout : (Buckets.bucket Arc.source done arc.source).length + 1
      = (Buckets.bucket Arc.source (done ++ [arc]) arc.source).length := by
    rw [bucket_concat_self, List.length_append, List.length_singleton]
  have hinto : (Buckets.bucket Arc.target done arc.target).length + 1
      = (Buckets.bucket Arc.target (done ++ [arc]) arc.target).length := by
    rw [bucket_concat_self, List.length_append, List.length_singleton]
  rw [hout, hinto, ← weightSum_concat_self,
    map_set (g := fun node => (Buckets.bucket Arc.source (done ++ [arc]) node).length) hnd hs,
    map_set (g := fun node => (Buckets.bucket Arc.target (done ++ [arc]) node).length) hnd ht,
    map_set (g := weightSum (done ++ [arc])) hnd hs, degreesOf]
  · intro k hk
    exact weightSum_concat_ne done hk
  · intro k hk
    rw [bucket_concat_ne _ _ hk]
  · intro k hk
    rw [bucket_concat_ne _ _ hk]

theorem countDegrees_meets (hE : Tolerates calm B E) (hF : Excuses good B E)
    {nodeIds : List String} (hnd : nodeIds.Nodup) {index : Map ℕ}
    (hi : Indexes nodeIds.zipIdx index) {done : List Arc} {arc : Arc}
    (hs : arc.source ∈ nodeIds) (ht : arc.target ∈ nodeIds) (hlen : done.length + 1 < 2 ^ 64)
    (hgood : good → (∀ x : R, isFinite x = true) ∧ lt (ofF64 arc.weight.1 : R) zero = false)
    (hw : w.add .graphScanUnits 1 ≤ B) :
    Meets (At calm w) (countDegrees index (degreesOf nodeIds done : Degrees R) arc)
      (fun degrees m => degrees = degreesOf nodeIds (done ++ [arc])
        ∧ At calm (w.add .graphScanUnits 1) m) E := by
  have h0 : w ≤ B := WorkCounts.le_trans (WorkCounts.le_add _ _ _) hw
  rw [countDegrees]
  refine (require_meets hF h0 fun h => ⟨(hgood h).1 _, (hgood h).2⟩).bind fun _ =>
    Meets.of_fact fun _ => ?_
  refine (orFail_meets hF h0 fun _ => indexes_isSome hi hs).bind fun source => Meets.of_fact
    fun hsource => ?_
  rw [indexes_get hi] at hsource
  refine (orFail_meets hF h0 fun _ => indexes_isSome hi ht).bind fun target => Meets.of_fact
    fun htarget => ?_
  rw [indexes_get hi] at htarget
  have hout := bucket_length_le Arc.source done arc.source
  have hinto := bucket_length_le Arc.target done arc.target
  simp only [degreesOf, getD_map hsource, getD_map htarget]
  refine (orFail_meets hF h0 fun _ => ?_).bind fun out => Meets.of_fact fun hout' => ?_
  · rw [checkedAdd, if_pos (by omega)]
    rfl
  rw [checkedAdd, if_pos (by omega)] at hout'
  refine (require_meets hF h0 fun h => (hgood h).1 _).bind fun _ => Meets.of_fact fun _ => ?_
  refine (orFail_meets hF h0 fun _ => ?_).bind fun into => Meets.of_fact fun hinto' => ?_
  · rw [checkedAdd, if_pos (by omega)]
    rfl
  rw [checkedAdd, if_pos (by omega)] at hinto'
  refine (accountGraphScanUnit_meets hE hw).bind fun _ => Meets.pure fun m hm => ⟨?_, hm⟩
  cases hout'
  cases hinto'
  exact (degreesOf_concat hnd hsource htarget).symm

/-- The cursors after some of the edges are placed. -/
def cursorsOf (nodeIds : List String) (arcs done : List Arc) : List ℕ :=
  nodeIds.map fun node =>
    offset Arc.source arcs nodeIds (nodeIds.idxOf node) + (Buckets.bucket Arc.source done node).length

/-- The places after some of the edges are placed. -/
def placedOf (nodeIds : List String) (arcs done : List Arc) : List (ℕ × R) :=
  done.map (entryOf nodeIds) ++ List.replicate (arcs.length - done.length) (0, zero)

theorem idxOf_eq {nodeIds : List String} (hnd : nodeIds.Nodup) {i : ℕ} {x : String}
    (h : nodeIds[i]? = some x) : nodeIds.idxOf x = i := by
  obtain ⟨hi, rfl⟩ := List.getElem?_eq_some_iff.mp h
  exact hnd.idxOf_getElem i hi

theorem offsetsOf_getD {nodeIds : List String} {arcs : List Arc} {i : ℕ} (h : i ≤ nodeIds.length)
    (d : ℕ) : (offsetsOf nodeIds arcs).getD i d = offset Arc.source arcs nodeIds i := by
  rw [offsetsOf, List.getD_eq_getElem?_getD, List.getElem?_map,
    List.getElem?_range (Nat.lt_succ_of_le h)]
  rfl

theorem cursorsOf_nil {nodeIds : List String} (hnd : nodeIds.Nodup) (arcs : List Arc) :
    (List.range nodeIds.length).map (fun node => (offsetsOf nodeIds arcs).getD node 0)
      = cursorsOf nodeIds arcs [] := by
  refine List.ext_getElem (by simp [cursorsOf]) ?_
  intro i hi hi'
  rw [List.length_map, List.length_range] at hi
  simp only [cursorsOf, List.getElem_map, List.getElem_range, hnd.idxOf_getElem, Buckets.bucket,
    List.filter_nil, List.length_nil, Nat.add_zero]
  exact offsetsOf_getD hi.le 0

theorem placeArc_meets (hE : Tolerates calm B E) {nodeIds : List String}
    (hnodes : Increasing Utf16.cmp nodeIds) {index : Map ℕ} (hi : Indexes nodeIds.zipIdx index)
    {arcs done rest : List Arc} {arc : Arc} (harcs : arcs = done ++ arc :: rest)
    (hsorted : SortedBy Arc.source Utf16.cmp arcs) (hs : ∀ a ∈ arcs, a.source ∈ nodeIds)
    (ht : ∀ a ∈ arcs, a.target ∈ nodeIds) (hlen : arcs.length < 2 ^ 63)
    (hw : w.add .graphScanUnits 1 ≤ B) :
    Meets (At calm w)
      (placeArc index (cursorsOf nodeIds arcs done, (placedOf nodeIds arcs done : List (ℕ × R))) arc)
      (fun placed m => placed = (cursorsOf nodeIds arcs (done ++ [arc]),
        placedOf nodeIds arcs (done ++ [arc])) ∧ At calm (w.add .graphScanUnits 1) m) E := by
  have h0 : w ≤ B := WorkCounts.le_trans (WorkCounts.le_add _ _ _) hw
  have hmem : arc ∈ arcs := by simp [harcs]
  have hdone : done.length + (rest.length + 1) = arcs.length := by simp [harcs]
  rw [placeArc]
  refine (orFail_meets excuses_true h0 fun _ => indexes_isSome hi (hs arc hmem)).bind fun source =>
    Meets.of_fact fun hsource => ?_
  rw [indexes_get hi] at hsource
  refine (orFail_meets excuses_true h0 fun _ => indexes_isSome hi (ht arc hmem)).bind fun target =>
    Meets.of_fact fun htarget => ?_
  rw [indexes_get hi] at htarget
  have hposition : (cursorsOf nodeIds arcs done).getD source 0 = done.length := by
    rw [cursorsOf, getD_map hsource, idxOf_eq hnodes.nodup hsource]
    subst harcs
    exact place_eq hnodes hs hsorted hsource
  have hplaced : (placedOf nodeIds arcs done : List (ℕ × R)).length = arcs.length := by
    simp only [placedOf, List.length_append, List.length_map, List.length_replicate]
    omega
  dsimp only
  rw [hposition, hplaced]
  refine (require_meets excuses_true h0 fun _ => by omega).bind fun _ => Meets.of_fact fun _ => ?_
  refine (orFail_meets excuses_true h0 fun _ => ?_).bind fun next => Meets.of_fact fun hnext => ?_
  · rw [checkedAdd, if_pos (by omega)]
    rfl
  rw [checkedAdd, if_pos (by omega)] at hnext
  cases hnext
  refine (accountGraphScanUnit_meets hE hw).bind fun _ => Meets.pure fun m hm => ⟨?_, hm⟩
  refine Prod.ext ?_ ?_
  · have hcursor : done.length + 1 = offset Arc.source arcs nodeIds (nodeIds.idxOf arc.source)
        + (Buckets.bucket Arc.source (done ++ [arc]) arc.source).length := by
      rw [bucket_concat_self, List.length_append, List.length_singleton,
        ← hposition, cursorsOf, getD_map hsource, Nat.add_assoc]
    dsimp only
    rw [hcursor, cursorsOf, map_set (g := fun node => offset Arc.source arcs nodeIds
      (nodeIds.idxOf node) + (Buckets.bucket Arc.source (done ++ [arc]) node).length) hnodes.nodup hsource,
      cursorsOf]
    intro k hk
    rw [bucket_concat_ne _ _ hk]
  · dsimp only [placedOf]
    rw [List.set_append_right _ _ (by simp), List.length_map, Nat.sub_self, List.map_append,
      List.length_append, List.length_singleton, List.append_assoc, List.map_singleton,
      List.singleton_append, show arcs.length - done.length = rest.length + 1 by omega,
      show arcs.length - (done.length + 1) = rest.length by omega, List.replicate_succ,
      List.set_cons_zero, entryOf, idxOf_eq hnodes.nodup htarget]

/-- After all edges are placed every cursor is where the next stretch begins. -/
theorem cursor_eq {nodeIds : List String} (hnd : nodeIds.Nodup) {arcs : List Arc}
    {done rest : List (ℕ × ℕ)} {cursor : ℕ × ℕ}
    (h : (cursorsOf nodeIds arcs arcs).zipIdx = done ++ cursor :: rest) :
    cursor.1 = (offsetsOf nodeIds arcs).getD (cursor.2 + 1) 0 := by
  have hmem : cursor ∈ (cursorsOf nodeIds arcs arcs).zipIdx := by simp [h]
  obtain ⟨value, i⟩ := cursor
  rw [List.mem_zipIdx_iff_getElem?, cursorsOf, List.getElem?_map, Option.map_eq_some_iff] at hmem
  obtain ⟨node, hnode, hvalue⟩ := hmem
  have hi := (List.getElem?_eq_some_iff.mp hnode).1
  rw [idxOf_eq hnd hnode] at hvalue
  dsimp only
  rw [offsetsOf_getD (by omega), offset_succ _ _ hnode, hvalue]

/-- What the layout takes. -/
def layoutUnits (nodes arcs : ℕ) : ℕ := 7 * nodes + 1 + 3 * arcs

theorem pprLayout_meets (hE : Tolerates calm B E) (hF : Excuses good B E) {nodeIds : List String}
    (hnodes : Increasing Utf16.cmp nodeIds) {arcs : List Arc}
    (hsorted : SortedBy Arc.source Utf16.cmp arcs) (hs : ∀ a ∈ arcs, a.source ∈ nodeIds)
    (ht : ∀ a ∈ arcs, a.target ∈ nodeIds) (hlen : arcs.length < 2 ^ 63)
    (hgood : good → Sound R arcs)
    (hw : w.add .graphScanUnits (layoutUnits nodeIds.length arcs.length) ≤ B) :
    Meets (At calm w) (pprLayout nodeIds arcs)
      (fun (csr : Csr R) m => LaidOut nodeIds arcs csr
        ∧ At calm (w.add .graphScanUnits (layoutUnits nodeIds.length arcs.length)) m) E := by
  have hwithin {k : ℕ} (hk : k ≤ layoutUnits nodeIds.length arcs.length) :
      w.add .graphScanUnits k ≤ B := WorkCounts.add_le_of_le hw hk
  simp only [layoutUnits] at hwithin ⊢
  rw [pprLayout]
  -- the index and the empty degrees
  refine (indexNodes_meets hE hnodes.nodup (hwithin (by omega))).bind fun index =>
    Meets.of_fact fun hi => ?_
  refine (buildCountedGraphVec_meets hE _ ?_).bind fun out => Meets.of_fact fun hout => ?_
  · rw [WorkCounts.add_add]
    exact hwithin (by omega)
  refine (buildCountedGraphVec_meets hE _ ?_).bind fun into => Meets.of_fact fun hinto => ?_
  · rw [WorkCounts.add_add, WorkCounts.add_add]
    exact hwithin (by omega)
  refine (buildCountedGraphVec_meets hE _ ?_).bind fun sums => Meets.of_fact fun hsums => ?_
  · simp only [WorkCounts.add_add]
    exact hwithin (by omega)
  have hempty : (⟨out, into, sums⟩ : Degrees R) = degreesOf nodeIds [] := by
    have hzero : (weightSum [] : String → R) = fun _ => zero := rfl
    rw [hout, hinto, hsums, degreesOf, hzero]
    simp [Buckets.bucket]
  simp only [WorkCounts.add_add]
  rw [hempty]
  -- the degrees and the offsets
  refine (foldlM_unit_meets (B := B) (degreesOf nodeIds) _ ?_ ?_).bind fun degrees => Meets.of_fact
    fun hdegrees => ?_
  · rw [WorkCounts.add_add]
    exact hwithin (by omega)
  · rintro done arc rest rfl v hv
    refine countDegrees_meets hE hF hnodes.nodup hi (hs arc (by simp)) (ht arc (by simp)) ?_ ?_ hv
    · simp only [List.length_append, List.length_cons] at hlen
      omega
    · exact fun h => ⟨(hgood h).finite, (hgood h).weights arc (by simp)⟩
  subst hdegrees
  refine (buildCountedGraphVec_meets hE _ ?_).bind fun offsets => Meets.of_fact fun hoffsets => ?_
  · simp only [WorkCounts.add_add]
    exact hwithin (by omega)
  obtain rfl : offsets = offsetsOf nodeIds arcs := hoffsets
  simp only [WorkCounts.add_add]
  refine (require_meets excuses_true (hwithin (by omega)) fun _ => ?_).bind fun _ =>
    Meets.of_fact fun _ => ?_
  · exact sum_length_buckets_eq _ _ hnodes.nodup hs
  -- the cursors and the places
  refine (buildCountedGraphVec_meets hE _ ?_).bind fun cursors => Meets.of_fact fun hcursors => ?_
  · simp only [WorkCounts.add_add]
    exact hwithin (by omega)
  refine (buildCountedGraphVec_meets hE _ ?_).bind fun places => Meets.of_fact fun hplaces => ?_
  · simp only [WorkCounts.add_add]
    exact hwithin (by omega)
  simp only [WorkCounts.add_add]
  have hstart : (cursors, places) = (cursorsOf nodeIds arcs [], placedOf nodeIds arcs []) := by
    rw [hcursors, hplaces, cursorsOf_nil hnodes.nodup]
    simp [placedOf]
  rw [hstart]
  refine (foldlM_unit_meets (B := B)
    (fun done => (cursorsOf nodeIds arcs done, placedOf nodeIds arcs done)) _ ?_ ?_).bind
    fun placed => Meets.of_fact fun hplaced => ?_
  · rw [WorkCounts.add_add]
    exact hwithin (by omega)
  · intro done arc rest harcs v hv
    exact placeArc_meets hE hnodes hi harcs hsorted hs ht hlen hv
  subst hplaced
  -- every cursor has come to the next offset
  simp only [WorkCounts.add_add]
  refine (Meets.forM (I := fun done m => At calm (w.add .graphScanUnits
    (6 * nodeIds.length + 1 + 3 * arcs.length + done.length)) m) ?_).pre ?_ |>.bind fun _ =>
    Meets.pure fun m hm => ⟨⟨hi, rfl, rfl, ?_⟩, ?_⟩
  · intro done cursor rest hcursor
    have hdone := congrArg List.length hcursor
    simp only [List.length_zipIdx, cursorsOf, List.length_map, List.length_append,
      List.length_cons] at hdone
    refine (require_meets excuses_true (hwithin (by omega)) fun _ =>
      cursor_eq hnodes.nodup hcursor).bind fun _ => Meets.of_fact fun _ => ?_
    refine (accountGraphScanUnit_meets hE ?_).post fun _ m hm => ?_
    · rw [WorkCounts.add_add]
      exact hwithin (by omega)
    · rw [WorkCounts.add_add] at hm
      rwa [List.length_append, List.length_singleton, ← Nat.add_assoc]
  · intro m hm
    simp only [List.length_nil, Nat.add_zero]
    convert hm using 2
    omega
  · simp [placedOf]
  · simp only [List.length_zipIdx, cursorsOf, List.length_map] at hm
    convert hm using 2
    omega

end Csr

end AiraGraphdb.Native.Bounded
