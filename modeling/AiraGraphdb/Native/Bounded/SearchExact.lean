import AiraGraphdb.Native.Bounded.CatalogExact
import AiraGraphdb.Native.Bounded.Search
import AiraGraphdb.Native.Bounded.Work
import AiraGraphdb.Native.Lowercase

/-! # What is found

A search scores every vector of its corpus and namespace, and an expansion every fact of its corpus.
What is kept while the state is walked is what a full sort would have put first, whatever the order
of the walk; it fails over the stored data only where these have a fault. -/

namespace AiraGraphdb.Native.Bounded

open Schemes Schemes.Json

/-! ### Runs that look for faults -/

/-- A run that reports a fault of the stored data only if `D` holds, and else comes to a value that
satisfies `Q` or fails for another reason. -/
abbrev Finds {α : Type} (D : Prop) (r : Run α) (Q : α → Prop) : Prop :=
  Meets (fun _ => True) r (fun a _ => Q a) fun e => e.cls = .integrity → D

namespace Finds

variable {α β : Type} {D : Prop}

theorem bind {r : Run α} {f : α → Run β} {Q : α → Prop} {S : β → Prop} (h : Finds D r Q)
    (hf : ∀ a, Q a → Finds D (f a) S) : Finds D (r >>= f) S :=
  Meets.bind h fun a s ha => hf a ha s trivial

theorem pure {a : α} {Q : α → Prop} (h : Q a) : Finds D (pure a) Q := Meets.pure fun _ _ => h

theorem failWith {cls : FailureClass} {Q : α → Prop} (h : cls = .integrity → D) :
    Finds D (failWith cls) Q := Meets.fail fun _ _ => h

theorem checkpoint : Finds D checkpoint fun _ => True := by
  intro m _
  rw [Bounded.checkpoint]
  rcases m.deadline.checkpoint (m.clock 0) m.completedUnits with e | d
  · intro h
    cases h
  · trivial

theorem advance (n : ℕ) : Finds D (advance n) fun _ => True := by
  intro m _
  rw [Bounded.advance]
  rcases checkedAdd m.completedUnits n with _ | k
  · intro h
    cases h
  · dsimp only
    by_cases h : deadlineCheckIntervalUnits ≤ k - m.lastCheckpointUnits
    · rw [if_pos h]
      exact checkpoint _ trivial
    · rw [if_neg h]
      trivial

theorem count {c : Counter} {o : FailureClass} (ho : o ≠ .integrity) :
    Finds D (count c o) fun _ => True := by
  intro m _
  rw [Bounded.count]
  rcases checkedAdd (m.work.get c) 1 with _ | n
  · exact fun h => absurd h ho
  · trivial

theorem checkWork : Finds D checkWork fun _ => True := by
  intro m _
  rw [Bounded.checkWork]
  by_cases h : m.work.check.isSome = true
  · rw [if_pos h]
    trivial
  · rw [if_neg h]
    intro h
    cases h

theorem orFail {x : Option α} {cls : FailureClass} (h : x = none → cls = .integrity → D) :
    Finds D (orFail x cls) fun a => x = some a :=
  Meets.ofOption (fun _ ha _ _ => ha) fun hx _ _ => h hx

theorem orBlank {x : Option α} {cls : FailureClass} (h : x = none → cls = .integrity → D) :
    Finds D (orBlank x cls) fun a => x = some a :=
  Meets.ofOption (fun _ ha _ _ => ha) fun hx _ _ => h hx

theorem require {p : Prop} [Decidable p] {cls : FailureClass} (h : ¬ p → cls = .integrity → D) :
    Finds D (require p cls) fun _ => p :=
  Meets.ensure (fun hp _ _ => hp) fun hp _ _ => h hp

theorem ofExcept {x : Checked α} {Q : α → Prop} (hq : ∀ a, x = .ok a → Q a)
    (he : ∀ e, x = .error e → e.cls = .integrity → D) : Finds D (Proc.ofExcept x) Q :=
  Meets.ofExcept (fun a ha _ _ => hq a ha) he

theorem foldlM {f : β → α → Run β} {I : List α → β → Prop} {xs : List α} {b : β} (hb : I [] b)
    (h : ∀ done x rest b, xs = done ++ x :: rest → I done b → Finds D (f b x) (I (done ++ [x]))) :
    Finds D (xs.foldlM f b) (I xs) :=
  (Meets.foldlM (I := fun done b _ => I done b)
    (fun done x rest hx b s hs => h done x rest b hx hs s trivial) b).pre fun _ _ => hb

theorem mapM {f : α → Run β} {S : α → β → Prop} {xs : List α}
    (h : ∀ x ∈ xs, Finds D (f x) (S x)) : Finds D (xs.mapM f) (List.Forall₂ S xs) := by
  refine (Meets.mapM (I := fun _ _ => True) (R := S) ?_).post fun _ _ hys => hys.1
  intro done x rest hx
  exact (h x (by simp [hx])).post fun _ _ hy => ⟨hy, trivial⟩

theorem post {r : Run α} {Q Q' : α → Prop} (h : Finds D r Q) (hq : ∀ a, Q a → Q' a) : Finds D r Q' :=
  Meets.post h fun a _ => hq a

theorem mono {D' : Prop} {r : Run α} {Q : α → Prop} (h : Finds D r Q) (hd : D → D') :
    Finds D' r Q := Meets.error_imp h fun _ he hcls => hd (he hcls)

theorem materializeDomainObject [Externals] (value : Value) :
    Finds D (materializeDomainObject value) fun copy => copy = value := by
  rw [Bounded.materializeDomainObject]
  refine (count (by decide)).bind fun _ _ => checkWork.bind fun _ _ => checkpoint.bind fun _ _ => ?_
  refine (orFail fun _ h => ?_).bind fun _ _ => ?_
  · cases h
  exact (tryCloneJsonValue_meets checkpoint value).post fun _ _ h => h.1

end Finds

/-! ### The first places -/

section First

variable {R T : Type} [Arithmetic R]

/-- The first places of a list sorted by score descending, then id ascending. -/
def bestFirst (limit : ℕ) (items : List (RankedItem R T)) : List (RankedItem R T) :=
  (items.mergeSort fun left right => (RankedItem.cmp left right).isLE).take limit

variable [Std.TransCmp (Arithmetic.totalCmp (R := R))]

/-- What is kept of a stream are the first places, whatever the order it comes in. -/
theorem rankAll_eq_bestFirst (limit : ℕ) {items items' : List (RankedItem R T)}
    (hperm : items.Perm items')
    (hinj : ∀ a ∈ items, ∀ b ∈ items, RankedItem.cmp a b = .eq → a = b) :
    rankAll limit items = bestFirst limit items' := by
  rw [rankAll_eq, bestFirst]
  congr 1
  refine (((TopK.ranking_perm _ items).trans hperm).trans
    (List.mergeSort_perm items' _).symm).eq_of_pairwise ?_ (TopK.ranking_inOrder _ items) ?_
  · intro a b ha hb hab hba
    have ha := (TopK.ranking_perm _ items).mem_iff.mp ha
    have hb := hperm.mem_iff.mpr ((List.mergeSort_perm items' _).mem_iff.mp hb)
    exact hinj a ha b hb (Std.OrientedCmp.isLE_antisymm hab hba)
  · have htrans (a b c : RankedItem R T) (hab : (RankedItem.cmp a b).isLE = true)
        (hbc : (RankedItem.cmp b c).isLE = true) : (RankedItem.cmp a c).isLE = true :=
      Std.TransCmp.isLE_trans hab hbc
    refine List.pairwise_mergeSort htrans (fun a b => ?_) items'
    rw [cmp_swap (RankedItem.cmp (R := R) (T := T)) a b]
    cases RankedItem.cmp b a <;> rfl

variable [Std.LawfulEqCmp (Arithmetic.totalCmp (R := R))]

omit [Std.TransCmp (Arithmetic.totalCmp (R := R))] in
/-- Entries without an order between them agree in score and id. -/
theorem RankedItem.eq_of_cmp {a b : RankedItem R T} (h : RankedItem.cmp a b = .eq) :
    a.score = b.score ∧ a.id = b.id := by
  rw [RankedItem.cmp, rankedCmp, Ordering.then_eq_eq] at h
  exact ⟨(Std.LawfulEqCmp.eq_of_compare h.1).symm, Std.LawfulEqCmp.eq_of_compare h.2⟩

end First

/-! ### Search -/

section Search

variable {R : Type} [Arithmetic R]

/-- What a slot of a request asks for. -/
def slotQuery (slot : Value) : Option (SlotQuery R) := do
  let slotId ← getStr slot "slotId"
  let ns ← getStr slot "namespace"
  let threshold ← getF64 slot "threshold"
  let limit ← getU64 slot "limit"
  let query ← getArray slot "queryVector"
  let query ← query.mapM fun value => ((asDouble value).filter F64.isFinite).map Arithmetic.ofF64
  let queryNorm ← boundedQueryNorm query
  return ⟨slotId, ns, Arithmetic.ofF64 threshold, limit, query, queryNorm⟩

/-- The clamped cosine of a stored vector and the query. -/
def vectorCosine (vectorValues : Map (List F64)) (query : SlotQuery R) (key : String) : R :=
  boundedCosineWithQueryNorm query.query query.queryNorm
    ((vectorValues[key]?.getD []).map Arithmetic.ofF64)

/-- The vectors of a corpus and namespace that reach the threshold, with their scores. -/
def candidates (vectorValues : Map (List F64)) (corpusId : String) (query : SlotQuery R)
    (vectors : List (String × VectorRecord)) : List (RankedItem R Unit) :=
  ((vectors.filter fun entry => entry.2.corpusId = corpusId ∧ entry.2.namespace = query.ns).map
    fun entry => ⟨entry.2.id, vectorCosine vectorValues query entry.1, ()⟩).filter
      fun item => Arithmetic.le query.threshold item.score

/-- The section of a namespace with its id field, and the prefix of its ids. -/
def namespaceNames (ns : String) : Option ((String × String) × String) :=
  if ns = "passage" then some (("passages", "passageId"), "passage:")
  else if ns = "fact" then some (("facts", "factId"), "fact:")
  else if ns = "schema" then some (("schemas", "schemaId"), "schema:")
  else none

/-- A hit for an entry of the ranking: the one stored object that its id names. -/
structure HitOf (state : State) (corpusId : String) (names : String × String) (text : String)
    (item : RankedItem R Unit) (hit : Hit R) : Prop where
  id : hit.id = item.id
  score : hit.score = item.score
  item : ∃ itemId, item.id = text ++ itemId ∧ itemsNamed state corpusId names itemId = [hit.item]

/-- What a slot is answered with. -/
structure SlotAnswer (state : State) (vectorValues : Map (List F64)) (corpusId : String)
    (slot : Value) (answer : SlotHits R) : Prop where
  exact : ∃ query : SlotQuery R, slotQuery slot = some query ∧ answer.slotId = query.slotId
    ∧ answer.ns = query.ns ∧ ∃ names text, namespaceNames query.ns = some (names, text)
      ∧ List.Forall₂ (HitOf state corpusId names text)
        (bestFirst query.limit (candidates vectorValues corpusId query state.vectors.toList))
        answer.hits

/-- A vector that cannot be compared with a query. -/
def BadVector (vectorValues : Map (List F64)) (query : SlotQuery R) (entry : String × VectorRecord) :
    Prop :=
  isStoredDomainId entry.2.id = false ∨ ∀ vector, vectorValues[entry.1]? = some vector →
    ¬ (vector.length = query.query.length
      ∧ (vector.map (Arithmetic.ofF64 (R := R))).all Arithmetic.isFinite = true)

/-- A fault of the stored vectors for a query: one cannot be compared, or one of the first places has
no stored object. -/
def VectorFault (state : State) (vectorValues : Map (List F64)) (corpusId : String)
    (query : SlotQuery R) : Prop :=
  (∃ entry ∈ state.vectors.toList, entry.2.corpusId = corpusId ∧ entry.2.namespace = query.ns
    ∧ BadVector vectorValues query entry) ∨
  ∃ names text, namespaceNames query.ns = some (names, text) ∧
    ∃ item ∈ bestFirst query.limit (candidates vectorValues corpusId query state.vectors.toList),
      ∀ itemId, item.id = text ++ itemId → itemsNamed state corpusId names itemId = []

theorem namespaceSection_eq (ns : String) :
    namespaceSection ns = (namespaceNames ns).map fun place => (place.1.1, place.2) := by
  rw [namespaceSection, namespaceNames]
  split_ifs <;> rfl

theorem namespaceNames_mem {ns : String} {names : String × String} {text : String}
    (h : namespaceNames ns = some (names, text)) : names ∈ snapshotSections := by
  rw [namespaceNames] at h
  split_ifs at h <;> cases h <;> decide

theorem candidates_append (vectorValues : Map (List F64)) (corpusId : String) (query : SlotQuery R)
    (xs ys : List (String × VectorRecord)) :
    candidates vectorValues corpusId query (xs ++ ys)
      = candidates vectorValues corpusId query xs ++ candidates vectorValues corpusId query ys := by
  simp [candidates]

theorem candidates_perm (vectorValues : Map (List F64)) (corpusId : String) (query : SlotQuery R)
    {xs ys : List (String × VectorRecord)} (h : xs.Perm ys) :
    (candidates vectorValues corpusId query xs).Perm (candidates vectorValues corpusId query ys) :=
  ((h.filter _).map _).filter _

theorem readSlot_finds {D : Prop} (slot : Value) :
    Finds D (readSlot (R := R) slot) fun query => slotQuery slot = some query := by
  rw [readSlot, slotQuery]
  refine (Finds.orBlank nofun).bind fun slotId hslotId => ?_
  refine (Finds.orBlank nofun).bind fun ns hns => ?_
  refine (Finds.orBlank nofun).bind fun threshold hthreshold => ?_
  refine (Finds.orBlank nofun).bind fun limit hlimit => ?_
  refine (Finds.orFail nofun).bind fun values hvalues => ?_
  have hread : Finds D (values.mapM (readQueryValue (R := R))) fun query =>
      values.mapM (fun value => ((asDouble value).filter F64.isFinite).map Arithmetic.ofF64)
        = some query := by
    refine (Finds.mapM (S := fun value x =>
      ((asDouble value).filter F64.isFinite).map Arithmetic.ofF64 = some x) fun value _ => ?_).post ?_
    · rw [readQueryValue]
      refine (Finds.orFail nofun).bind fun x hx => Finds.pure ?_
      rw [hx]
      rfl
    · intro query hquery
      clear hvalues
      induction hquery with
      | nil => rfl
      | cons hx _ ih => rw [List.mapM_cons, hx, ih]; rfl
  refine hread.bind fun query hquery => ?_
  refine (Finds.orFail nofun).bind fun queryNorm hnorm => Finds.pure ?_
  rw [hslotId, hns, hthreshold, hlimit, hvalues]
  simp only [Option.bind_eq_bind, Option.bind_some, hquery, hnorm]
  rfl

/-- The step of a search: a vector enters the ranking if it is a candidate. -/
theorem searchVector_finds {D : Prop} {vectorValues : Map (List F64)} {corpusId : String}
    {query : SlotQuery R} {entry : String × VectorRecord} {done : List (String × VectorRecord)}
    (hbad : entry.2.corpusId = corpusId → entry.2.namespace = query.ns →
      BadVector vectorValues query entry → D) :
    Finds D (searchVector vectorValues corpusId query
      ((candidates vectorValues corpusId query done).foldl (fun retained item =>
        retainBoundedRanked retained item.id item.score item.payload query.limit) []) entry)
      fun retained => retained = (candidates vectorValues corpusId query (done ++ [entry])).foldl
        (fun retained item =>
          retainBoundedRanked retained item.id item.score item.payload query.limit) [] := by
  rw [searchVector]
  refine (Finds.count (by decide)).bind fun _ _ => (Finds.advance 1).bind fun _ _ => ?_
  rw [candidates_append, List.foldl_append]
  split
  · rename_i hother
    refine Finds.pure ?_
    have hnone : candidates vectorValues corpusId query [entry] = [] := by
      rw [← not_and_or] at hother
      simp [candidates, hother]
    rw [hnone]
    rfl
  · rename_i hsame
    obtain ⟨hcorpus, hns⟩ : entry.2.corpusId = corpusId ∧ entry.2.namespace = query.ns := by
      simpa [not_or] using hsame
    have hone : candidates vectorValues corpusId query [entry]
        = if Arithmetic.le query.threshold (vectorCosine vectorValues query entry.1) then
          [⟨entry.2.id, vectorCosine vectorValues query entry.1, ()⟩] else [] := by
      simp [candidates, hcorpus, hns, List.filter_cons]
    have hscore : Finds D (vectorScore vectorValues query entry.1 entry.2) fun score =>
        score = vectorCosine vectorValues query entry.1 := by
      rw [vectorScore]
      refine (Finds.require fun hid _ => hbad hcorpus hns (.inl (by simpa using hid))).bind
        fun _ _ => ?_
      refine (Finds.orFail fun hnone _ => hbad hcorpus hns (.inr fun vector hvector => by
        rw [hnone] at hvector
        cases hvector)).bind fun vector hvector => ?_
      refine (Finds.require fun hshape _ => hbad hcorpus hns (.inr fun vector' hvector' => by
        rw [hvector] at hvector'
        obtain rfl := Option.some.inj hvector'
        rwa [List.length_map] at hshape)).bind fun _ _ => Finds.pure ?_
      rw [vectorCosine, hvector, Option.getD_some]
    refine hscore.bind fun score heq => ?_
    subst heq
    rw [hone]
    split
    · exact Finds.pure rfl
    · exact Finds.pure rfl

variable [Externals]

omit [Arithmetic R] in
theorem materializeHit_finds {state : State} {catalog : Catalog} (hleads : catalog.Leads state)
    {D : Prop} {corpusId : String} {names : String × String} {text : String}
    (hnames : names ∈ snapshotSections) {item : RankedItem R Unit}
    (hmissing : (∀ itemId, item.id = text ++ itemId → itemsNamed state corpusId names itemId = []) →
      D) :
    Finds D (materializeHit state catalog corpusId (names.1, text) item)
      (HitOf state corpusId names text item) := by
  have hbelow (rest : Text) : Text.stripPrefix item.id.toList text.toList = some rest ↔
      item.id = text ++ String.ofList rest := by
    rw [Text.stripPrefix_eq_some, ← String.toList_inj, String.toList_append, String.toList_ofList]
  rw [materializeHit]
  refine (Finds.orFail fun hnone _ => hmissing fun itemId hid => ?_).bind fun itemId hitemId => ?_
  · have hsome := (hbelow itemId.toList).mpr (by rw [hid, String.ofList_toList])
    rw [hnone] at hsome
    cases hsome
  · rw [hbelow] at hitemId
    have hlookup : Finds D (Proc.ofExcept (boundedSnapshotItem state catalog corpusId names.1
        (String.ofList itemId))) fun object =>
          itemsNamed state corpusId names (String.ofList itemId) = [object] := by
      refine Finds.ofExcept (fun object hobject => (hleads.items _ hnames _ _).mp hobject)
        fun e he _ => hmissing fun other hother => ?_
      have hsame : String.ofList itemId = other := by
        rw [hitemId] at hother
        rw [← String.toList_inj] at hother ⊢
        simpa using hother
      rw [← hsame]
      have hle := hleads.unique corpusId hnames (String.ofList itemId)
      rcases hfound : itemsNamed state corpusId names (String.ofList itemId) with _ | ⟨x, _ | ⟨y, ys⟩⟩
      · rfl
      · rw [(hleads.items _ hnames _ _).mpr hfound] at he
        cases he
      · rw [hfound] at hle
        simp at hle
    refine hlookup.bind fun object hobject => ?_
    refine (Finds.materializeDomainObject object).bind fun copy hcopy => Finds.pure ?_
    exact ⟨rfl, rfl, String.ofList itemId, hitemId, by rw [hcopy]; exact hobject⟩

variable [Std.TransCmp (Arithmetic.totalCmp (R := R))] [Std.LawfulEqCmp (Arithmetic.totalCmp (R := R))]

theorem searchSlot_finds {state : State} {catalog : Catalog} (hleads : catalog.Leads state)
    (vectorValues : Map (List F64)) (walk : Walk state) (corpusId : String) (slot : Value) :
    Finds (∃ query : SlotQuery R, slotQuery slot = some query
        ∧ VectorFault state vectorValues corpusId query)
      (searchSlot (R := R) state vectorValues walk catalog corpusId slot)
      (SlotAnswer state vectorValues corpusId slot) := by
  rw [searchSlot]
  refine (readSlot_finds slot).bind fun query hquery => ?_
  have hheap : Finds (∃ query : SlotQuery R, slotQuery slot = some query
      ∧ VectorFault state vectorValues corpusId query)
      (boundedRankHeap : Run (List (RankedItem R Unit))) fun heap => heap = [] :=
    Finds.checkpoint.bind fun _ _ => Finds.checkpoint.bind fun _ _ => Finds.pure rfl
  refine hheap.bind fun heap hempty => ?_
  subst hempty
  have hwalk : Finds (∃ query : SlotQuery R, slotQuery slot = some query
      ∧ VectorFault state vectorValues corpusId query)
      (walk.vectors.foldlM (searchVector vectorValues corpusId query) []) fun retained =>
        retained = (candidates vectorValues corpusId query walk.vectors).foldl (fun retained item =>
          retainBoundedRanked retained item.id item.score item.payload query.limit) [] := by
    refine Finds.foldlM (I := fun done retained => retained
      = (candidates vectorValues corpusId query done).foldl (fun retained item =>
          retainBoundedRanked retained item.id item.score item.payload query.limit) []) rfl ?_
    rintro done entry rest retained hdone rfl
    refine searchVector_finds fun hcorpus hns hbad => ⟨query, hquery, .inl ⟨entry, ?_, hcorpus, hns, hbad⟩⟩
    exact walk.vectors_perm.mem_iff.mp (by rw [hdone]; simp)
  refine hwalk.bind fun retained hretained => ?_
  have hbest : finishBoundedRanking retained
      = bestFirst query.limit (candidates vectorValues corpusId query state.vectors.toList) := by
    rw [hretained]
    refine rankAll_eq_bestFirst query.limit (candidates_perm _ _ _ walk.vectors_perm) ?_
    rintro ⟨id, score, ⟨⟩⟩ _ ⟨id', score', ⟨⟩⟩ _ hcmp
    obtain ⟨rfl, rfl⟩ := RankedItem.eq_of_cmp hcmp
    rfl
  refine (Finds.orFail nofun).bind fun place hplace => ?_
  rw [namespaceSection_eq] at hplace
  obtain ⟨⟨names, text⟩, hnames, rfl⟩ := Option.map_eq_some_iff.mp hplace
  rw [hbest]
  refine (Finds.mapM (S := HitOf state corpusId names text) fun item hitem =>
    materializeHit_finds hleads (namespaceNames_mem hnames) fun hmissing =>
      ⟨query, hquery, .inr ⟨names, text, hnames, item, hitem, hmissing⟩⟩).bind fun hits hhits => ?_
  exact Finds.pure ⟨query, hquery, rfl, rfl, names, text, hnames, hhits⟩

omit [Externals] in
theorem searchAdmission_finds {D : Prop} (state : State) (params : Value) (slots : List Value) :
    Finds D (searchAdmission state params slots) fun _ => True := by
  rw [searchAdmission]
  refine (Finds.orBlank nofun).bind fun _ _ => (Finds.orBlank nofun).bind fun _ _ => ?_
  refine (Finds.orBlank nofun).bind fun _ _ => ?_
  refine (Finds.foldlM (I := fun _ _ => True) trivial fun _ _ _ _ _ _ => ?_).bind fun _ _ => ?_
  · exact (Finds.orBlank nofun).bind fun _ _ => (Finds.orBlank nofun).post fun _ _ => trivial
  · refine (Finds.orBlank nofun).bind fun _ _ => (Finds.orBlank nofun).bind fun _ _ => ?_
    exact Finds.checkpoint

/-- What a search is answered with. -/
structure SearchAnswer (state : State) (vectorValues : Map (List F64)) (params : Value)
    (results : List (SlotHits R)) : Prop where
  exact : ∃ corpusId slots, getStr params "corpusId" = some corpusId
    ∧ getArray params "slots" = some slots
    ∧ List.Forall₂ (SlotAnswer state vectorValues corpusId) slots results

/-- A fault of the stored vectors for a slot of a request. -/
def SearchFault (R : Type) [Arithmetic R] (state : State) (vectorValues : Map (List F64))
    (params : Value) : Prop :=
  ∃ corpusId slots, getStr params "corpusId" = some corpusId ∧ getArray params "slots" = some slots
    ∧ ∃ slot ∈ slots, ∃ query : SlotQuery R, slotQuery slot = some query
      ∧ VectorFault state vectorValues corpusId query

theorem executeCandidateSearch_finds {state : State} {catalog : Catalog}
    (hleads : catalog.Leads state) (vectorValues : Map (List F64)) (walk : Walk state)
    (params : Value) :
    Finds (SearchFault R state vectorValues params)
      (executeCandidateSearch (R := R) state vectorValues walk catalog params)
      (SearchAnswer state vectorValues params) := by
  rw [executeCandidateSearch]
  refine (Finds.orBlank nofun).bind fun corpusId hcorpus => ?_
  refine (Finds.orBlank nofun).bind fun slots hslots => ?_
  refine (searchAdmission_finds state params slots).bind fun _ _ => ?_
  refine (Finds.mapM fun slot hslot =>
    (searchSlot_finds hleads vectorValues walk corpusId slot).mono ?_).bind fun results hresults => ?_
  · rintro ⟨query, hquery, hfault⟩
    exact ⟨corpusId, slots, hcorpus, hslots, slot, hslot, query, hquery, hfault⟩
  · exact Finds.checkWork.bind fun _ _ => Finds.pure ⟨⟨corpusId, slots, hcorpus, hslots, hresults⟩⟩

end Search

/-! ### Lower case -/

section Lowercase

variable [LowercaseTables] {D : Prop}

/-- A text in lower case, as the tables have it. -/
def lowered (value : String) : String := String.ofList (Lowercase.mappedFrom [] value.toList)

omit [LowercaseTables] in
theorem scalarStep_finds (steps : ℕ) : Finds D (scalarStep steps) fun _ => True := by
  rw [scalarStep]
  refine (Finds.orFail nofun).bind fun n _ => ?_
  split
  · exact Finds.checkpoint.bind fun _ _ => Finds.pure trivial
  · exact Finds.pure trivial

omit [LowercaseTables] in
theorem scalarSteps_finds (cs : List Char) (steps : ℕ) :
    Finds D (scalarSteps cs steps) fun _ => True := by
  induction cs generalizing steps with
  | nil => exact Finds.pure trivial
  | cons c cs ih => exact (scalarStep_finds steps).bind fun n _ => ih n

omit [LowercaseTables] in
theorem pushScalars_finds (maximum : ℕ) (output cs : List Char) :
    Finds D (pushScalars maximum output cs) fun out => out = output ++ cs := by
  induction cs generalizing output with
  | nil => exact Finds.pure (List.append_nil output).symm
  | cons c cs ih =>
    rw [pushScalars]
    refine (Finds.orFail nofun).bind fun next _ => ?_
    split
    · exact Finds.failWith nofun
    · exact (ih (output ++ [c])).post fun out hout => by rw [hout, List.append_assoc]; rfl

theorem firstUnignored_finds (answer : Char → Bool) (default : Bool) (cs : List Char) (steps : ℕ) :
    Finds D (firstUnignored answer default cs steps) fun r =>
      r.1 = Native.firstUnignored answer default cs := by
  induction cs generalizing steps with
  | nil => exact Finds.pure rfl
  | cons c cs ih =>
    rw [firstUnignored, Native.firstUnignored]
    refine (scalarStep_finds steps).bind fun n _ => ?_
    split
    · exact ih n
    · exact Finds.pure rfl

theorem isFinalSigmaChecked_finds (before after : List Char) (steps : ℕ) :
    Finds D (isFinalSigmaChecked before after steps) fun r =>
      r.1 = Native.isFinalSigma before after := by
  rw [isFinalSigmaChecked, Native.isFinalSigma]
  refine (firstUnignored_finds _ _ _ steps).bind fun r hr => ?_
  rw [← hr]
  rcases r with ⟨hasCased, n⟩
  cases hasCased
  · exact Finds.pure rfl
  · exact (firstUnignored_finds _ _ after n).post fun r hr => by rw [hr]; rfl

theorem lowercaseScalars_finds (maximum : ℕ) (before output cs : List Char) (steps : ℕ) :
    Finds D (lowercaseScalars maximum before output cs steps) fun out =>
      out = output ++ Lowercase.mappedFrom before cs := by
  induction cs generalizing before output steps with
  | nil => exact Finds.pure (List.append_nil output).symm
  | cons c cs ih =>
    rw [lowercaseScalars, Lowercase.mappedFrom]
    refine (scalarStep_finds steps).bind fun n _ => ?_
    have hmapped : (if decide (c.toNat = 0x03A3 ∧ Native.isFinalSigma before cs = true) = true
        then [Char.ofNat 0x03C2] else (LowercaseTables.mapping c).getD [c])
        = Native.lowercaseMapped before c cs := by
      rw [Native.lowercaseMapped]
      simp
    -- what follows once it is known whether this is a final sigma
    have hrest (isFinal : Bool) (n : ℕ)
        (hfinal : isFinal = decide (c.toNat = 0x03A3 ∧ Native.isFinalSigma before cs = true)) :
        Finds D (do
          let output ← pushScalars maximum output
            (if isFinal then [Char.ofNat 0x03C2] else (LowercaseTables.mapping c).getD [c])
          lowercaseScalars maximum (before ++ [c]) output cs n) fun out =>
            out = output ++ (Native.lowercaseMapped before c cs
              ++ Lowercase.mappedFrom (before ++ [c]) cs) := by
      rw [hfinal, hmapped]
      refine (pushScalars_finds maximum output _).bind fun out hout => ?_
      exact (ih (before ++ [c]) out n).post fun r hr => by rw [hr, hout, List.append_assoc]
    by_cases hc : c.toNat = 0x03A3
    · rw [if_pos hc]
      refine (isFinalSigmaChecked_finds before cs n).bind fun r hr => ?_
      exact hrest r.1 r.2 (by simp [hr, hc])
    · rw [if_neg hc]
      exact hrest false n (by simp [hc])

theorem normalizeFactEntity_finds (value : String) :
    Finds D (normalizeFactEntity value) fun text => text = lowered value := by
  rw [normalizeFactEntity]
  split
  · exact Finds.failWith nofun
  · refine Finds.checkpoint.bind fun _ _ => ?_
    have hlower : Finds D (lowercaseBounded value maxObjectBytes) fun text => text = lowered value := by
      rw [lowercaseBounded]
      refine (scalarSteps_finds value.toList 0).bind fun n _ => ?_
      refine (lowercaseScalars_finds maxObjectBytes [] [] value.toList n).bind fun out hout => ?_
      exact Finds.pure (by rw [hout]; rfl)
    exact hlower.bind fun text htext => Finds.checkpoint.bind fun _ _ => Finds.pure htext

end Lowercase

/-! ### Expansion -/

section Expansion

variable {R : Type} [Arithmetic R] [LowercaseTables]

/-- What a plan of a request asks for. -/
def expandPlan (plan : Value) : Option (ExpandPlan R) := do
  let limit ← getU64 plan "limit"
  let attenuation ← getF64 plan "attenuation"
  let seeds ← getArray plan "seedEntities"
  let seeds ← seeds.mapM fun seed => do
    let entityKey ← getStr seed "key"
    let score ← getF64 seed "score"
    return (entityKey, score)
  let excluded ← getArray plan "excludedSeedFactIds"
  let excluded ← excluded.mapM Value.asStr
  return ⟨limit, Arithmetic.ofF64 attenuation,
    seeds.foldl (fun map seed => map.insert seed.1 seed.2) ∅, excluded⟩

/-- A fact that is not excluded and has a seed for its head or its tail, with its score. -/
def factItem (plan : ExpandPlan R) (fact : Value) : Option (RankedItem R Value) := do
  let factId ← getStr fact "factId"
  if factId ∈ plan.excluded then none
  else
    let head ← getStr fact "headEntity"
    let tail ← getStr fact "tailEntity"
    let score ← factScore plan (lowered head) (lowered tail)
    return ⟨factId, score, fact⟩

/-- A fact that cannot be scored: it is not excluded, and has no head or no tail, or its score is
not finite. -/
def FactFault (plan : ExpandPlan R) (fact : Value) : Prop :=
  ∃ factId, getStr fact "factId" = some factId ∧ factId ∉ plan.excluded ∧
    (getStr fact "headEntity" = none ∨ getStr fact "tailEntity" = none ∨
      ∃ item, factItem plan fact = some item ∧ Arithmetic.isFinite item.score = false)

/-- The facts of a corpus. -/
def corpusFacts (state : State) (corpusId : String) : List Value :=
  state.snapshots[corpusId]?.elim [] (sectionItems · "facts")

structure ExpandedOf (item : RankedItem R Value) (answer : ExpandedFact R) : Prop where
  factId : answer.factId = item.id
  score : answer.score = item.score
  fact : answer.fact = item.payload

omit [LowercaseTables] in
theorem readExpandPlan_finds {D : Prop} (plan : Value) {limit : ℕ}
    (hlimit : getU64 plan "limit" = some limit) :
    Finds D (readExpandPlan (R := R) plan limit) fun p => expandPlan plan = some p := by
  rw [readExpandPlan, expandPlan, hlimit]
  refine (Finds.orBlank nofun).bind fun attenuation hattenuation => ?_
  refine (Finds.orBlank nofun).bind fun values hvalues => ?_
  have hread : Finds D (values.mapM readSeedEntity) fun seeds => (values.mapM fun seed => do
      let entityKey ← getStr seed "key"
      let score ← getF64 seed "score"
      return (entityKey, score)) = some seeds := by
    refine (Finds.mapM (S := fun seed s => (do
      let entityKey ← getStr seed "key"
      let score ← getF64 seed "score"
      return (entityKey, score)) = some s) fun seed _ => ?_).post ?_
    · rw [readSeedEntity]
      refine (Finds.orBlank nofun).bind fun entityKey hkey => ?_
      refine (Finds.orBlank nofun).bind fun score hscore => Finds.pure ?_
      rw [hkey, Option.bind_eq_bind, Option.bind_some, hscore]
      rfl
    · intro seeds hseeds
      clear hvalues
      induction hseeds with
      | nil => rfl
      | cons hx _ ih => rw [List.mapM_cons, hx, ih]; rfl
  refine hread.bind fun seeds hseeds => ?_
  refine (Finds.orBlank nofun).bind fun texts htexts => ?_
  have hids : Finds D (texts.mapM fun value => orBlank value.asStr .client) fun excluded =>
      texts.mapM Value.asStr = some excluded := by
    refine (Finds.mapM (S := fun value s => value.asStr = some s) fun value _ =>
      Finds.orBlank nofun).post ?_
    intro excluded hexcluded
    clear htexts
    induction hexcluded with
    | nil => rfl
    | cons hx _ ih => rw [List.mapM_cons, hx, ih]; rfl
  refine hids.bind fun excluded hexcluded => Finds.pure ?_
  rw [hattenuation, hvalues, htexts]
  simp only [Option.bind_eq_bind, Option.bind_some, hexcluded] at hseeds ⊢
  rw [hseeds]
  rfl

/-- The step of an expansion: a fact enters the ranking if it is scored. -/
theorem expandFact_finds {D : Prop} {plan : ExpandPlan R} {fact : Value} {done : List Value}
    (hid : ∃ factId, getStr fact "factId" = some factId) (hfault : FactFault plan fact → D) :
    Finds D (expandFact plan ((done.filterMap (factItem plan)).foldl (fun retained item =>
        retainBoundedRanked retained item.id item.score item.payload plan.limit) []) fact)
      fun retained => retained = ((done ++ [fact]).filterMap (factItem plan)).foldl
        (fun retained item =>
          retainBoundedRanked retained item.id item.score item.payload plan.limit) [] := by
  obtain ⟨factId, hfactId⟩ := hid
  rw [expandFact, List.filterMap_append, List.foldl_append]
  refine (Finds.count (by decide)).bind fun _ _ => (Finds.advance 1).bind fun _ _ => ?_
  refine (Finds.orFail fun hnone _ => by rw [hnone] at hfactId; cases hfactId).bind fun id hid => ?_
  obtain rfl := Option.some.inj (hfactId.symm.trans hid)
  split
  · rename_i hexcluded
    refine Finds.pure ?_
    have hnone : factItem plan fact = none := by
      rw [factItem, hfactId, Option.bind_eq_bind, Option.bind_some, if_pos hexcluded]
    simp [hnone]
  · rename_i hexcluded
    refine (Finds.orFail fun hnone _ => hfault ⟨factId, hfactId, hexcluded, .inl hnone⟩).bind
      fun head hhead => ?_
    refine (normalizeFactEntity_finds head).bind fun lowHead hlowHead => ?_
    refine (Finds.orFail fun hnone _ => hfault ⟨factId, hfactId, hexcluded, .inr (.inl hnone)⟩).bind
      fun tail htail => ?_
    refine (normalizeFactEntity_finds tail).bind fun lowTail hlowTail => ?_
    have hitem : factItem plan fact
        = (factScore plan (lowered head) (lowered tail)).map fun score => ⟨factId, score, fact⟩ := by
      rw [factItem, hfactId, Option.bind_eq_bind, Option.bind_some, if_neg hexcluded, hhead,
        Option.bind_eq_bind, Option.bind_some, htail, Option.bind_some]
      cases factScore plan (lowered head) (lowered tail) <;> rfl
    rw [hlowHead, hlowTail]
    rcases hscore : factScore plan (lowered head) (lowered tail) with _ | score
    · rw [hscore] at hitem
      exact Finds.pure (by simp [hitem])
    · rw [hscore] at hitem
      refine (Finds.require fun hfinite _ => hfault ⟨factId, hfactId, hexcluded, .inr (.inr
        ⟨_, hitem, by simpa using hfinite⟩)⟩).bind fun _ _ => Finds.pure ?_
      simp [hitem]

/-- An item of the ranking is for the fact that it has as its payload. -/
theorem factItem_some {plan : ExpandPlan R} {fact : Value} {item : RankedItem R Value}
    (h : factItem plan fact = some item) :
    getStr fact "factId" = some item.id ∧ item.payload = fact := by
  rw [factItem] at h
  obtain ⟨factId, hfactId, h⟩ := Option.bind_eq_some_iff.mp h
  split at h
  · cases h
  · obtain ⟨head, -, h⟩ := Option.bind_eq_some_iff.mp h
    obtain ⟨tail, -, h⟩ := Option.bind_eq_some_iff.mp h
    obtain ⟨score, -, h⟩ := Option.bind_eq_some_iff.mp h
    cases h
    exact ⟨hfactId, rfl⟩

omit [Arithmetic R] [LowercaseTables] in
theorem materializeFact_finds [Externals] {D : Prop} (item : RankedItem R Value) :
    Finds D (materializeFact item) (ExpandedOf item) := by
  rw [materializeFact]
  refine (Finds.materializeDomainObject item.payload).bind fun fact hfact => ?_
  exact Finds.pure ⟨rfl, rfl, hfact⟩

omit [Arithmetic R] [LowercaseTables] in
theorem expandAdmission_finds {D : Prop} (params plan : Value) (facts : ℕ) :
    Finds D (expandAdmission params plan facts) fun limit => getU64 plan "limit" = some limit := by
  rw [expandAdmission]
  refine (Finds.orBlank nofun).bind fun _ _ => (Finds.orBlank nofun).bind fun _ _ => ?_
  refine (Finds.orBlank nofun).bind fun limit hlimit => ?_
  refine (Finds.orBlank nofun).bind fun _ _ => Finds.checkpoint.bind fun _ _ => ?_
  exact Finds.pure hlimit

/-- What an expansion is answered with. -/
structure FactsAnswer (state : State) (params : Value) (facts : List (ExpandedFact R)) : Prop where
  exact : ∃ corpusId value, getStr params "corpusId" = some corpusId
    ∧ params.get "plan" = some value ∧ ∃ plan : ExpandPlan R, expandPlan value = some plan
      ∧ List.Forall₂ ExpandedOf
        (bestFirst plan.limit ((corpusFacts state corpusId).filterMap (factItem plan))) facts

/-- A fault of the stored facts for a request: there is no corpus, or a fact cannot be scored. -/
def FactsFault (R : Type) [Arithmetic R] (state : State) (params : Value) : Prop :=
  ∃ corpusId, getStr params "corpusId" = some corpusId ∧ (state.snapshots[corpusId]? = none ∨
    ∃ value, params.get "plan" = some value ∧ ∃ plan : ExpandPlan R, expandPlan value = some plan
      ∧ ∃ fact ∈ corpusFacts state corpusId, FactFault plan fact)

variable [Std.TransCmp (Arithmetic.totalCmp (R := R))] [Std.LawfulEqCmp (Arithmetic.totalCmp (R := R))]

theorem executeFactExpand_finds [Externals] {state : State} {catalog : Catalog}
    (hleads : catalog.Leads state) (params : Value) :
    Finds (FactsFault R state params) (executeFactExpand (R := R) state params)
      (FactsAnswer state params) := by
  rw [executeFactExpand]
  refine (Finds.orBlank nofun).bind fun corpusId hcorpus => ?_
  refine (Finds.orBlank nofun).bind fun value hvalue => ?_
  have hfacts : Finds (FactsFault R state params)
      (Proc.ofExcept (boundedSnapshotItems state corpusId "facts")) fun facts =>
        facts = corpusFacts state corpusId ∧ (facts.map (getStr · "factId")).Nodup
          ∧ ∀ fact ∈ facts, ∃ factId, getStr fact "factId" = some factId := by
    rcases hsnapshot : state.snapshots[corpusId]? with _ | snapshot
    · rw [boundedSnapshotItems, hsnapshot]
      exact Finds.ofExcept nofun fun _ _ _ => ⟨corpusId, hcorpus, .inl hsnapshot⟩
    · have hentry : (corpusId, snapshot) ∈ state.snapshots.toList := Map.mem_toList.mpr hsnapshot
      have hnames : ("facts", "factId") ∈ snapshotSections := by decide
      have hsection := (hleads.snapshots _ hentry).sections _ hnames
      have hitems : boundedSnapshotItems state corpusId "facts" = .ok (corpusFacts state corpusId) := by
        rw [corpusFacts, hsnapshot]
        exact bind_ok.mpr ⟨snapshot, orBlankError_ok.mpr hsnapshot,
          storedSnapshotSectionOrEmpty_of_array hsection.array⟩
      rw [hitems]
      refine Finds.pure ⟨rfl, ?_, ?_⟩
      · rw [corpusFacts, hsnapshot]
        exact hleads.distinct _ hentry _ hnames
      · rw [corpusFacts, hsnapshot]
        intro fact hfact
        obtain ⟨factId, hfactId, -⟩ := (hsection.items fact hfact).named
        exact ⟨factId, hfactId⟩
  refine hfacts.bind fun facts hfacts => ?_
  obtain ⟨rfl, hnodup, hnamed⟩ := hfacts
  refine (expandAdmission_finds params value _).bind fun limit hlimit => ?_
  refine (readExpandPlan_finds value hlimit).bind fun plan hplan => ?_
  have hheap : Finds (FactsFault R state params)
      (boundedRankHeap : Run (List (RankedItem R Value))) fun heap => heap = [] :=
    Finds.checkpoint.bind fun _ _ => Finds.checkpoint.bind fun _ _ => Finds.pure rfl
  refine hheap.bind fun heap hempty => ?_
  subst hempty
  have hwalk : Finds (FactsFault R state params)
      ((corpusFacts state corpusId).foldlM (expandFact plan) []) fun retained =>
        retained = ((corpusFacts state corpusId).filterMap (factItem plan)).foldl
          (fun retained item =>
            retainBoundedRanked retained item.id item.score item.payload plan.limit) [] := by
    refine Finds.foldlM (I := fun done retained => retained
      = (done.filterMap (factItem plan)).foldl (fun retained item =>
          retainBoundedRanked retained item.id item.score item.payload plan.limit) []) rfl ?_
    rintro done fact rest retained hdone rfl
    have hfact : fact ∈ corpusFacts state corpusId := by rw [hdone]; simp
    exact expandFact_finds (hnamed fact hfact) fun hfault =>
      ⟨corpusId, hcorpus, .inr ⟨value, hvalue, plan, hplan, fact, hfact, hfault⟩⟩
  refine hwalk.bind fun retained hretained => ?_
  have hbest : finishBoundedRanking retained
      = bestFirst plan.limit ((corpusFacts state corpusId).filterMap (factItem plan)) := by
    rw [hretained]
    refine rankAll_eq_bestFirst plan.limit (.refl _) ?_
    rintro a ha b hb hcmp
    obtain ⟨hscore, hid⟩ := RankedItem.eq_of_cmp hcmp
    obtain ⟨fact, hfact, ha⟩ := List.mem_filterMap.mp ha
    obtain ⟨fact', hfact', hb⟩ := List.mem_filterMap.mp hb
    obtain ⟨hidA, hpayloadA⟩ := factItem_some ha
    obtain ⟨hidB, hpayloadB⟩ := factItem_some hb
    have hsame : fact = fact' :=
      List.inj_on_of_nodup_map hnodup hfact hfact' (by rw [hidA, hidB, hid])
    subst hsame
    exact Option.some.inj (ha.symm.trans hb)
  rw [hbest]
  refine (Finds.mapM fun item _ => materializeFact_finds item).post fun answer hanswer => ?_
  exact ⟨corpusId, value, hcorpus, hvalue, plan, hplan, hanswer⟩

end Expansion

section

variable {R : Type} [Arithmetic R] [Std.TransCmp (Arithmetic.totalCmp (R := R))]
  [Std.LawfulEqCmp (Arithmetic.totalCmp (R := R))] [LowercaseTables] [Externals]

end

section Witness

attribute [local instance] Concrete.externals plainRationals Lowercase.raisedTables

instance : Std.TransCmp (Arithmetic.totalCmp (R := ℚ)) :=
  inferInstanceAs (Std.TransCmp (compare : ℚ → ℚ → Ordering))

instance : Std.LawfulEqCmp (Arithmetic.totalCmp (R := ℚ)) :=
  inferInstanceAs (Std.LawfulEqCmp (compare : ℚ → ℚ → Ordering))

/-- The class of the failure that a run ends in. -/
def failure {α : Type} (r : Run α) (m : Meter) : Option FailureClass :=
  match r m with
  | .ok _ => none
  | .error e => some e.cls

theorem failure_eq_some {α : Type} {r : Run α} {m : Meter} {cls : FailureClass}
    (h : failure r m = some cls) : ∃ e, r m = .error e ∧ e.cls = cls := by
  rw [failure] at h
  split at h
  · cases h
  · rename_i e he
    exact ⟨e, he, Option.some.inj h⟩

/-- A passage and a fact, with a vector for a passage. -/
def vectorState (id : String) : State :=
  { State.default with
    snapshots := (∅ : Map Value).insert "c" (.obj [("corpusId", .str "c"),
      ("facts", .arr [.obj [("corpusId", .str "c"), ("factId", .str "f"), ("headEntity", .str "A"),
        ("tailEntity", .str "b")]]),
      ("passages", .arr [.obj [("corpusId", .str "c"), ("passageId", .str "p")]])])
    vectors := (∅ : Map VectorRecord).insert "v" ⟨id, "c", "passage", [], none, .null⟩ }

def unitVectors : Map (List F64) := (∅ : Map (List F64)).insert "v" [F64.ofInt 1]

def unitSlot (name : String) : Value := .obj [("limit", numU64 1), ("namespace", .str name),
  ("queryVector", .arr [numU64 1]), ("slotId", .str name), ("threshold", numU64 0)]

def unitSearch : Value := .obj [("corpusId", .str "c"),
  ("slots", .arr [unitSlot "passage", unitSlot "fact", unitSlot "schema"])]

def unitExpansion : Value := .obj [("corpusId", .str "c"), ("plan", .obj
  [("attenuation", numU64 1), ("excludedSeedFactIds", .arr []), ("limit", numU64 1),
    ("normalizationContractDigest", .str normalizationDigest),
    ("seedEntities", .arr [.obj [("key", .str "a"), ("score", numU64 1)]])])]

end Witness

end AiraGraphdb.Native.Bounded
