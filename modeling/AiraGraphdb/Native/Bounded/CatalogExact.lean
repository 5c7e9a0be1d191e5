import AiraGraphdb.Native.Bounded.Endpoints
import AiraGraphdb.Native.Concrete

/-! # The catalog is exact

A catalog is built exactly for the states whose snapshots, items and edges are in order. Its entries
are found by digests of three texts, each after its length; as long as the hash does not take two of
the texts at hand for one, an entry leads to the one stored item that it is for. -/

namespace AiraGraphdb.Native.Bounded

open Schemes Schemes.Json

/-! ### Frames -/

/-- What is hashed for an entry: three texts, each after its length. -/
def indexFrame (t : String × String × String) : Bytes :=
  [t.1, t.2.1, t.2.2].flatMap fun component => leBytes 8 component.utf8ByteSize ++ utf8 component

/-- The length of each text fits the eight bytes it is written in. -/
structure Framable (t : String × String × String) : Prop where
  corpus : t.1.utf8ByteSize < 2 ^ 64
  sectionName : t.2.1.utf8ByteSize < 2 ^ 64
  item : t.2.2.utf8ByteSize < 2 ^ 64

/-- A text after its length ends where it says. -/
theorem framed_append {a b : String} {xs ys : Bytes} (ha : a.utf8ByteSize < 2 ^ 64)
    (hb : b.utf8ByteSize < 2 ^ 64)
    (h : leBytes 8 a.utf8ByteSize ++ utf8 a ++ xs = leBytes 8 b.utf8ByteSize ++ utf8 b ++ ys) :
    a = b ∧ xs = ys := by
  rw [List.append_assoc, List.append_assoc] at h
  obtain ⟨hlength, h⟩ := List.append_inj h (by simp)
  have hsize : a.utf8ByteSize = b.utf8ByteSize := by
    rw [← ofLe_leBytes (w := 8) (n := a.utf8ByteSize) (by omega), hlength,
      ofLe_leBytes (w := 8) (n := b.utf8ByteSize) (by omega)]
  obtain ⟨htext, h⟩ := List.append_inj h (by rw [length_utf8, length_utf8, hsize])
  exact ⟨utf8_injective htext, h⟩

theorem indexFrame_injective {t u : String × String × String} (ht : Framable t) (hu : Framable u)
    (h : indexFrame t = indexFrame u) : t = u := by
  simp only [indexFrame, List.flatMap_cons, List.flatMap_nil] at h
  obtain ⟨hcorpus, h⟩ := framed_append ht.corpus hu.corpus h
  obtain ⟨hsection, h⟩ := framed_append ht.sectionName hu.sectionName h
  obtain ⟨hitem, -⟩ := framed_append ht.item hu.item h
  exact Prod.ext hcorpus (Prod.ext hsection hitem)

section

variable [Externals]

/-- The hash tells the frames of these triples apart. -/
structure Separated (triples : List (String × String × String)) : Prop where
  framable : ∀ t ∈ triples, Framable t
  distinct : ∀ t ∈ triples, ∀ u ∈ triples,
    sha256 (indexFrame t) = sha256 (indexFrame u) → indexFrame t = indexFrame u

theorem Separated.inj {triples : List (String × String × String)} (h : Separated triples)
    {a b c a' b' c' : String} (ht : (a, b, c) ∈ triples) (hu : (a', b', c') ∈ triples)
    (hkey : boundedIndexKey a b c = boundedIndexKey a' b' c') : (a, b, c) = (a', b', c') :=
  indexFrame_injective (h.framable _ ht) (h.framable _ hu)
    (h.distinct _ ht _ hu (Digest.hex_injective hkey))

theorem Separated.subset {triples triples' : List (String × String × String)} (h : Separated triples)
    (hsub : triples' ⊆ triples) : Separated triples' :=
  ⟨fun t ht => h.framable t (hsub ht), fun t ht u hu => h.distinct t (hsub ht) u (hsub hu)⟩

omit [Externals] in
/-- What an item is indexed by. -/
def itemTriples (corpusId : String) (snapshot : Value) (names : String × String) :
    List (String × String × String) :=
  (sectionItems snapshot names.1).map fun item =>
    (corpusId, names.1, (getStr item names.2).getD "")

def snapshotTriples (snapshots : List (String × Value)) : List (String × String × String) :=
  snapshots.flatMap fun entry => snapshotSections.flatMap (itemTriples entry.1 entry.2)

def endpointTriples (edges : List (String × GraphEdge)) : List (String × String × String) :=
  (edges.flatMap endpointPairs).map fun p => (p.1, "nodes", p.2)

/-- All that is hashed for the catalog of a state. -/
def stateTriples (state : State) : List (String × String × String) :=
  snapshotTriples state.snapshots.toList ++ endpointTriples state.edges.toList

/-! ### States in order -/

/-- A stored item of a section. -/
structure ItemOk (corpusId : String) (names : String × String) (item : Value) : Prop where
  corpus : getStr item "corpusId" = some corpusId
  named : ∃ id, getStr item names.2 = some id ∧ isStoredDomainId id = true

structure SectionOk (corpusId : String) (snapshot : Value) (names : String × String) : Prop where
  array : ∀ v, snapshot.get names.1 = some v → ∃ items, v = .arr items
  items : ∀ item ∈ sectionItems snapshot names.1, ItemOk corpusId names item

structure SnapshotOk (entry : String × Value) : Prop where
  own : getStr entry.2 "corpusId" = some entry.1
  sections : ∀ names ∈ snapshotSections, SectionOk entry.1 entry.2 names

def itemCount (snapshots : List (String × Value)) : ℕ :=
  (snapshots.map fun entry =>
    (snapshotSections.map fun names => (sectionItems entry.2 names.1).length).sum).sum

/-- A state that a catalog can be built for. -/
structure Cataloguable (state : State) : Prop where
  snapshots : ∀ entry ∈ state.snapshots.toList, SnapshotOk entry
  distinct : ∀ entry ∈ state.snapshots.toList, ∀ names ∈ snapshotSections,
    ((sectionItems entry.2 names.1).map (getStr · names.2)).Nodup
  countable : itemCount state.snapshots.toList < 2 ^ 64
  anchored : ∀ entry ∈ state.edges.toList, Anchored state entry
  edges_le : state.edges.toList.length ≤ maxGraphEdges
  nodes_le : ∀ c, (endpointSet c (state.edges.toList.flatMap endpointPairs)).card ≤ maxGraphNodes

/-! ### Counting the items -/

omit [Externals] in
theorem storedSnapshotSectionOrEmpty_iff {snapshot : Value} {name : String} :
    (∃ items, storedSnapshotSectionOrEmpty snapshot name = .ok items) ↔
      ∀ v, snapshot.get name = some v → ∃ items, v = .arr items := by
  rw [storedSnapshotSectionOrEmpty]
  split
  · rename_i hg
    simp [hg]
  · rename_i items hg
    simp [hg]
  · rename_i v hne hg
    constructor
    · rintro ⟨items, h⟩
      exact absurd h blank_ne_ok
    · intro h
      obtain ⟨items, rfl⟩ := h v hg
      exact absurd rfl (hne items)

omit [Externals] in
theorem storedSnapshotSectionOrEmpty_of_array {snapshot : Value} {name : String}
    (h : ∀ v, snapshot.get name = some v → ∃ items, v = .arr items) :
    storedSnapshotSectionOrEmpty snapshot name = .ok (sectionItems snapshot name) := by
  obtain ⟨items, hitems⟩ := storedSnapshotSectionOrEmpty_iff.mpr h
  rw [hitems, storedSnapshotSectionOrEmpty_ok hitems]

omit [Externals] in
/-- A fold that adds up numbers goes through when the sum can be written. -/
theorem foldlM_checkedAdd {α : Type} {f : ℕ → α → Checked ℕ} (count : α → ℕ) {xs : List α} {n : ℕ}
    (hf : ∀ n, ∀ x ∈ xs, n + count x < 2 ^ 64 → f n x = .ok (n + count x))
    (h : n + (xs.map count).sum < 2 ^ 64) : xs.foldlM f n = .ok (n + (xs.map count).sum) := by
  induction xs generalizing n with
  | nil => rfl
  | cons x xs ih =>
    rw [List.map_cons, List.sum_cons, ← Nat.add_assoc] at h ⊢
    rw [List.foldlM_cons, hf n x (by simp) (by omega)]
    exact ih (fun n y hy => hf n y (List.mem_cons_of_mem _ hy)) h

omit [Externals] in
theorem countItems_ok {snapshots : List (String × Value)}
    (hok : ∀ entry ∈ snapshots, SnapshotOk entry) (h : itemCount snapshots < 2 ^ 64) :
    countItems snapshots = .ok (itemCount snapshots) := by
  rw [countItems, ← Nat.zero_add (itemCount snapshots)]
  refine foldlM_checkedAdd _ (fun n entry hentry hn => ?_) (by rwa [Nat.zero_add])
  refine foldlM_checkedAdd _ (fun m names hnames hm => ?_) hn
  rw [storedSnapshotSectionOrEmpty_of_array ((hok entry hentry).sections names hnames).array]
  show orBlankError (checkedAdd m _) _ = _
  rw [checkedAdd_of_lt hm]
  rfl

omit [Externals] in
/-- The sum is written when the fold goes through. -/
theorem countItems_lt {snapshots : List (String × Value)} {total : ℕ}
    (h : countItems snapshots = .ok total) : itemCount snapshots < 2 ^ 64 := by
  have key : ∀ (names : List (String × String)) (snapshot : Value) (m n : ℕ), m < 2 ^ 64 →
      names.foldlM (fun subtotal sectionName => do
        let items ← storedSnapshotSectionOrEmpty snapshot sectionName.1
        orBlankError (checkedAdd subtotal items.length) .resource) m = .ok n →
      n = m + (names.map fun names => (sectionItems snapshot names.1).length).sum ∧ n < 2 ^ 64 := by
    intro names snapshot
    induction names with
    | nil =>
      intro m n hm h
      cases h
      exact ⟨rfl, hm⟩
    | cons name names ih =>
      intro m n hm h
      rw [List.foldlM_cons] at h
      obtain ⟨k, hk, h⟩ := bind_ok.mp h
      obtain ⟨items, hitems, hk⟩ := bind_ok.mp hk
      rw [orBlankError_ok, checkedAdd] at hk
      split at hk
      · rename_i hlt
        obtain rfl := Option.some.inj hk
        obtain ⟨rfl, hn⟩ := ih _ n hlt h
        rw [List.map_cons, List.sum_cons, storedSnapshotSectionOrEmpty_ok hitems]
        exact ⟨by omega, hn⟩
      · cases hk
  have hfold : total = itemCount snapshots ∧ total < 2 ^ 64 := by
    refine foldlM_induct (I := fun done n => n = itemCount done ∧ n < 2 ^ 64) ?_ ?_ h
    · exact ⟨rfl, Nat.two_pow_pos 64⟩
    · rintro done entry m n - ⟨rfl, hm⟩ hstep
      obtain ⟨rfl, hn⟩ := key snapshotSections entry.2 _ n hm hstep
      refine ⟨?_, hn⟩
      simp [itemCount]
  exact hfold.1 ▸ hfold.2

/-! ### Indexing -/

theorem indexItem_iff {corpusId : String} {names : String × String} {indices : Map ℕ}
    {item : Value × ℕ} :
    (∃ indices', indexItem corpusId names.1 names.2 indices item = .ok indices') ↔
      ItemOk corpusId names item.1
        ∧ boundedIndexKey corpusId names.1 ((getStr item.1 names.2).getD "") ∉ indices := by
  constructor
  · rintro ⟨indices', h⟩
    obtain ⟨id, hid, h⟩ := bind_ok.mp h
    rw [orBlankError_ok] at hid
    obtain ⟨id', hid', h⟩ := bind_ok.mp h
    obtain ⟨hstored, rfl⟩ := boundedStoredDomainId_ok.mp hid'
    split at h
    · exact absurd h blank_ne_ok
    rename_i hcorpus
    dsimp only at h
    split at h
    · exact absurd h blank_ne_ok
    rename_i hnew
    rw [hid, Option.getD_some]
    exact ⟨⟨not_not.mp hcorpus, id, hid, hstored⟩, hnew⟩
  · rintro ⟨⟨hcorpus, id, hid, hstored⟩, hnew⟩
    rw [hid, Option.getD_some] at hnew
    refine ⟨indices.insert (boundedIndexKey corpusId names.1 id) item.2, bind_ok.mpr ⟨id, ?_, ?_⟩⟩
    · exact orBlankError_ok.mpr hid
    · refine bind_ok.mpr ⟨id, boundedStoredDomainId_ok.mpr ⟨hstored, rfl⟩, ?_⟩
      rw [if_neg (not_not.mpr hcorpus)]
      dsimp only
      rw [if_neg hnew]
      rfl

omit [Externals] in
/-- A pass that adds entries goes through exactly when each of its items is in order and no entry is
there twice. -/
theorem foldlM_entries_iff {α : Type} {f : Map ℕ → α → Checked (Map ℕ)}
    {new : α → List (String × ℕ)} (P : α → Prop) {xs : List α}
    (hstep : ∀ x ∈ xs, ∀ entries indices, Indexes entries indices → (entries.map Prod.fst).Nodup →
      ((∃ r, f indices x = .ok r) ↔ P x ∧ ((entries ++ new x).map Prod.fst).Nodup))
    (hkeep : ∀ x ∈ xs, ∀ entries indices r, Indexes entries indices → f indices x = .ok r →
      Indexes (entries ++ new x) r) {entries : List (String × ℕ)} {indices : Map ℕ}
    (hi : Indexes entries indices) (hn : (entries.map Prod.fst).Nodup) :
    (∃ r, xs.foldlM f indices = .ok r) ↔
      (∀ x ∈ xs, P x) ∧ ((entries ++ xs.flatMap new).map Prod.fst).Nodup := by
  induction xs generalizing entries indices with
  | nil =>
    constructor
    · intro _
      exact ⟨by simp, by simpa using hn⟩
    · intro _
      exact ⟨indices, rfl⟩
  | cons x xs ih =>
    have hx := hstep x (by simp) entries indices hi hn
    have htail : ∀ r, f indices x = .ok r → ((entries ++ new x).map Prod.fst).Nodup →
        ((∃ s, xs.foldlM f r = .ok s) ↔
          (∀ y ∈ xs, P y) ∧ ((entries ++ new x ++ xs.flatMap new).map Prod.fst).Nodup) :=
      fun r hr hnodup => ih (fun y hy => hstep y (by simp [hy])) (fun y hy => hkeep y (by simp [hy]))
        (hkeep x (by simp) entries indices r hi hr) hnodup
    rw [List.flatMap_cons, ← List.append_assoc]
    constructor
    · rintro ⟨s, hs⟩
      rw [List.foldlM_cons] at hs
      obtain ⟨r, hr, hs⟩ := bind_ok.mp hs
      obtain ⟨hok, hnodup⟩ := hx.mp ⟨r, hr⟩
      obtain ⟨hrest, hall⟩ := (htail r hr hnodup).mp ⟨s, hs⟩
      exact ⟨by simpa using ⟨hok, hrest⟩, hall⟩
    · rintro ⟨hok, hall⟩
      have hnodup : ((entries ++ new x).map Prod.fst).Nodup := by
        rw [List.map_append] at hall
        exact (List.nodup_append.mp hall).1
      obtain ⟨r, hr⟩ := hx.mpr ⟨hok x (by simp), hnodup⟩
      obtain ⟨s, hs⟩ := (htail r hr hnodup).mpr ⟨fun y hy => hok y (by simp [hy]), hall⟩
      exact ⟨s, by rw [List.foldlM_cons]; exact bind_ok.mpr ⟨r, hr, hs⟩⟩

omit [Externals] in
theorem Indexes.mem_iff {entries : List (String × ℕ)} {indices : Map ℕ} (h : Indexes entries indices)
    {k : String} : k ∈ indices ↔ k ∈ entries.map Prod.fst := by
  rw [Map.mem_iff, List.mem_map]
  constructor
  · rintro ⟨i, hi⟩
    exact ⟨(k, i), (h k i).mp hi, rfl⟩
  · rintro ⟨⟨k', i⟩, hm, rfl⟩
    exact ⟨i, (h k' i).mpr hm⟩

theorem indexItems_iff (corpusId : String) (names : String × String) (items : List (Value × ℕ))
    {entries : List (String × ℕ)} {indices : Map ℕ} (hi : Indexes entries indices)
    (hn : (entries.map Prod.fst).Nodup) :
    (∃ r, items.foldlM (indexItem corpusId names.1 names.2) indices = .ok r) ↔
      (∀ item ∈ items, ItemOk corpusId names item.1) ∧ ((entries ++ items.map fun item =>
        (boundedIndexKey corpusId names.1 ((getStr item.1 names.2).getD ""), item.2)).map
          Prod.fst).Nodup := by
  have hmap : (items.map fun item : Value × ℕ =>
      (boundedIndexKey corpusId names.1 ((getStr item.1 names.2).getD ""), item.2))
      = items.flatMap fun item =>
        [(boundedIndexKey corpusId names.1 ((getStr item.1 names.2).getD ""), item.2)] :=
    List.map_eq_flatMap
  rw [hmap]
  refine foldlM_entries_iff (fun item : Value × ℕ => ItemOk corpusId names item.1) ?_ ?_ hi hn
  · intro item _ entries indices hi hn
    rw [indexItem_iff, hi.mem_iff, List.map_append, List.map_singleton, List.nodup_append]
    constructor
    · rintro ⟨hok, hnew⟩
      refine ⟨hok, hn, List.nodup_singleton _, fun k hk k' hk' heq => hnew ?_⟩
      rw [heq, List.mem_singleton.mp hk'] at hk
      exact hk
    · rintro ⟨hok, -, -, hne⟩
      exact ⟨hok, fun hmem => hne _ hmem _ (List.mem_singleton_self _) rfl⟩
  · intro item _ entries indices r hi hr
    exact indexItem_ok hi hr

theorem indexSections_iff {entry : String × Value} {entries : List (String × ℕ)} {indices : Map ℕ}
    (hi : Indexes entries indices) (hn : (entries.map Prod.fst).Nodup) :
    (∃ r, snapshotSections.foldlM (fun indices sectionName => do
      let items ← storedSnapshotSectionOrEmpty entry.2 sectionName.1
      items.zipIdx.foldlM (indexItem entry.1 sectionName.1 sectionName.2) indices) indices = .ok r) ↔
      (∀ names ∈ snapshotSections, SectionOk entry.1 entry.2 names)
        ∧ ((entries ++ snapshotSections.flatMap (sectionEntries entry.1 entry.2)).map
          Prod.fst).Nodup := by
  refine foldlM_entries_iff (SectionOk entry.1 entry.2) ?_ ?_ hi hn
  · intro names _ entries indices hi hn
    have hzip : (∀ item ∈ (sectionItems entry.2 names.1).zipIdx, ItemOk entry.1 names item.1) ↔
        ∀ item ∈ sectionItems entry.2 names.1, ItemOk entry.1 names item := by
      constructor
      · intro h item hitem
        obtain ⟨i, hi⟩ := List.mem_iff_getElem?.mp hitem
        exact h (item, i) (List.mk_mem_zipIdx_iff_getElem?.mpr hi)
      · intro h item hitem
        exact h item.1 (List.fst_mem_of_mem_zipIdx hitem)
    have hinner := indexItems_iff entry.1 names (sectionItems entry.2 names.1).zipIdx hi hn
    rw [hzip] at hinner
    constructor
    · rintro ⟨r, hr⟩
      obtain ⟨items, hitems, hr⟩ := bind_ok.mp hr
      have harray := storedSnapshotSectionOrEmpty_iff.mp ⟨items, hitems⟩
      rw [← storedSnapshotSectionOrEmpty_ok hitems] at hr
      obtain ⟨hok, hnodup⟩ := hinner.mp ⟨r, hr⟩
      exact ⟨⟨harray, hok⟩, hnodup⟩
    · rintro ⟨⟨harray, hok⟩, hnodup⟩
      obtain ⟨r, hr⟩ := hinner.mpr ⟨hok, hnodup⟩
      exact ⟨r, bind_ok.mpr ⟨_, storedSnapshotSectionOrEmpty_of_array harray, hr⟩⟩
  · intro names _ entries indices r hi hr
    obtain ⟨items, hitems, hr⟩ := bind_ok.mp hr
    have hkeep := indexItems_ok hi hr
    rw [← storedSnapshotSectionOrEmpty_ok hitems] at hkeep
    exact hkeep

theorem indexSnapshots_iff {snapshots : List (String × Value)} :
    (∃ r, snapshots.foldlM indexSnapshot ∅ = .ok r) ↔
      (∀ entry ∈ snapshots, SnapshotOk entry) ∧ ((snapshotEntries snapshots).map Prod.fst).Nodup := by
  have hempty : Indexes [] (∅ : Map ℕ) := by
    intro k i
    simp
  refine foldlM_entries_iff SnapshotOk ?_ ?_ hempty List.nodup_nil
  · intro entry _ entries indices hi hn
    rw [indexSnapshot]
    split
    · rename_i hown
      constructor
      · rintro ⟨r, hr⟩
        exact absurd hr blank_ne_ok
      · rintro ⟨hok, -⟩
        exact absurd hok.own hown
    · rename_i hown
      rw [indexSections_iff hi hn]
      constructor
      · rintro ⟨hsections, hnodup⟩
        exact ⟨⟨not_not.mp hown, hsections⟩, hnodup⟩
      · rintro ⟨hok, hnodup⟩
        exact ⟨hok.sections, hnodup⟩
  · intro entry _ entries indices r hi hr
    exact indexSnapshot_ok hi hr

/-! ### Distinct entries -/

omit [Externals] in
theorem nodup_itemTriples {corpusId : String} {snapshot : Value} {names : String × String}
    (hok : SectionOk corpusId snapshot names) :
    (itemTriples corpusId snapshot names).Nodup ↔
      ((sectionItems snapshot names.1).map (getStr · names.2)).Nodup := by
  have heq : itemTriples corpusId snapshot names
      = ((sectionItems snapshot names.1).map (getStr · names.2)).map fun id =>
        (corpusId, names.1, id.getD "") := by
    simp [itemTriples, Function.comp_def]
  have hsome : ∀ id ∈ (sectionItems snapshot names.1).map (getStr · names.2), ∃ s, id = some s := by
    intro id hid
    obtain ⟨item, hitem, rfl⟩ := List.mem_map.mp hid
    obtain ⟨s, hs, -⟩ := (hok.items item hitem).named
    exact ⟨s, hs⟩
  rw [heq]
  constructor
  · exact List.Nodup.of_map _
  · refine List.Nodup.map_on ?_
    intro x hx y hy hxy
    obtain ⟨s, rfl⟩ := hsome x hx
    obtain ⟨s', rfl⟩ := hsome y hy
    simpa using hxy

omit [Externals] in
theorem nodup_snapshotTriples {snapshots : List (String × Value)}
    (hkeys : (snapshots.map Prod.fst).Nodup) (hok : ∀ entry ∈ snapshots, SnapshotOk entry) :
    (snapshotTriples snapshots).Nodup ↔ ∀ entry ∈ snapshots, ∀ names ∈ snapshotSections,
      ((sectionItems entry.2 names.1).map (getStr · names.2)).Nodup := by
  -- the triples of two snapshots differ in the corpus, those of two sections in the section
  have hcorpus : snapshots.Pairwise fun a b => List.Disjoint
      (snapshotSections.flatMap (itemTriples a.1 a.2))
      (snapshotSections.flatMap (itemTriples b.1 b.2)) := by
    refine (List.pairwise_map.mp hkeys).imp ?_
    intro a b hne t hta htb
    obtain ⟨names, -, hta⟩ := List.mem_flatMap.mp hta
    obtain ⟨names', -, htb⟩ := List.mem_flatMap.mp htb
    obtain ⟨item, -, rfl⟩ := List.mem_map.mp hta
    obtain ⟨item', -, heq⟩ := List.mem_map.mp htb
    exact hne (Prod.mk.inj heq).1.symm
  have hsection (entry : String × Value) : snapshotSections.Pairwise fun a b => List.Disjoint
      (itemTriples entry.1 entry.2 a) (itemTriples entry.1 entry.2 b) := by
    have hnames : snapshotSections.Pairwise fun a b => a.1 ≠ b.1 := by decide
    refine hnames.imp ?_
    intro a b hne t hta htb
    obtain ⟨item, -, rfl⟩ := List.mem_map.mp hta
    obtain ⟨item', -, heq⟩ := List.mem_map.mp htb
    exact hne (Prod.mk.inj (Prod.mk.inj heq).2).1.symm
  rw [snapshotTriples, List.nodup_flatMap]
  constructor
  · rintro ⟨hnodup, -⟩ entry hentry names hnames
    rw [← nodup_itemTriples ((hok entry hentry).sections names hnames)]
    exact (List.nodup_flatMap.mp (hnodup entry hentry)).1 names hnames
  · intro h
    refine ⟨fun entry hentry => List.nodup_flatMap.mpr ⟨fun names hnames => ?_, hsection entry⟩,
      hcorpus⟩
    exact (nodup_itemTriples ((hok entry hentry).sections names hnames)).mpr (h entry hentry names hnames)

theorem snapshotEntries_keys (snapshots : List (String × Value)) :
    (snapshotEntries snapshots).map Prod.fst
      = (snapshotTriples snapshots).map fun t => boundedIndexKey t.1 t.2.1 t.2.2 := by
  have hsection (corpusId : String) (snapshot : Value) (names : String × String) :
      (sectionEntries corpusId snapshot names).map Prod.fst
        = (itemTriples corpusId snapshot names).map fun t => boundedIndexKey t.1 t.2.1 t.2.2 := by
    rw [sectionEntries, itemTriples, List.map_map, List.map_map]
    have hzip := List.zipIdx_map_fst 0 (sectionItems snapshot names.1)
    conv_rhs => rw [← hzip, List.map_map]
    rfl
  simp only [snapshotEntries, snapshotTriples, List.map_flatMap, hsection]

/-- Distinct entries have distinct ids, whatever the hash. -/
theorem distinct_of_nodup {snapshots : List (String × Value)} (hkeys : (snapshots.map Prod.fst).Nodup)
    (hok : ∀ entry ∈ snapshots, SnapshotOk entry)
    (h : ((snapshotEntries snapshots).map Prod.fst).Nodup) :
    ∀ entry ∈ snapshots, ∀ names ∈ snapshotSections,
      ((sectionItems entry.2 names.1).map (getStr · names.2)).Nodup := by
  rw [snapshotEntries_keys] at h
  exact (nodup_snapshotTriples hkeys hok).mp (h.of_map _)

theorem nodup_snapshotEntries {snapshots : List (String × Value)}
    (hsep : Separated (snapshotTriples snapshots)) (hkeys : (snapshots.map Prod.fst).Nodup)
    (hok : ∀ entry ∈ snapshots, SnapshotOk entry) :
    ((snapshotEntries snapshots).map Prod.fst).Nodup ↔
      ∀ entry ∈ snapshots, ∀ names ∈ snapshotSections,
        ((sectionItems entry.2 names.1).map (getStr · names.2)).Nodup := by
  refine ⟨distinct_of_nodup hkeys hok, fun h => ?_⟩
  rw [snapshotEntries_keys]
  exact ((nodup_snapshotTriples hkeys hok).mpr h).map_on fun _ ht _ hu hkey => hsep.inj ht hu hkey

/-! ### Edges -/

section Edges

variable {state : State}

theorem scanEndpoint_exists {corpusId nodeId : String} {scan : EdgeScan}
    {pairs : List (String × String)} (hs : Scanned pairs scan)
    (hstored : isStoredDomainId nodeId = true)
    (hnode : ∃ node, state.nodes[nodeKey corpusId nodeId]? = some node
      ∧ node.corpusId = corpusId ∧ node.nodeId = nodeId)
    (hcap : (endpointSet corpusId (pairs ++ [(corpusId, nodeId)])).card ≤ maxGraphNodes) :
    ∃ scan', scanEndpoint state corpusId scan nodeId = .ok scan' := by
  obtain ⟨node, hnode, hcorpus, hid⟩ := hnode
  by_cases hseen : boundedIndexKey corpusId "nodes" nodeId ∈ scan.endpointIds
  · refine ⟨scan, bind_ok.mpr ⟨nodeId, boundedStoredDomainId_ok.mpr ⟨hstored, rfl⟩, ?_⟩⟩
    refine bind_ok.mpr ⟨node, orBlankError_ok.mpr hnode, ?_⟩
    rw [if_neg (by simp [hcorpus, hid])]
    dsimp only
    rw [if_pos hseen]
    rfl
  · have hnew : nodeId ∉ endpointSet corpusId pairs := fun hmem =>
      hseen ((hs.ids _).mpr ⟨_, mem_endpointSet.mp hmem, rfl⟩)
    rw [endpointSet_concat, if_pos rfl, Finset.card_insert_of_notMem hnew, ← hs.counts] at hcap
    have hmax : maxGraphNodes < 2 ^ 64 - 1 := by decide
    have hmore : countMore scan.endpointCounts corpusId
        = .ok (scan.endpointCounts.insert corpusId (scan.endpointCounts[corpusId]?.getD 0 + 1),
          scan.endpointCounts[corpusId]?.getD 0 + 1) := by
      rw [countMore, checkedAdd_of_lt (by omega)]
      rfl
    refine ⟨{ scan with
      endpointIds := scan.endpointIds.insert (boundedIndexKey corpusId "nodes" nodeId) ()
      endpointCounts := scan.endpointCounts.insert corpusId
        (scan.endpointCounts[corpusId]?.getD 0 + 1) },
      bind_ok.mpr ⟨nodeId, boundedStoredDomainId_ok.mpr ⟨hstored, rfl⟩, ?_⟩⟩
    refine bind_ok.mpr ⟨node, orBlankError_ok.mpr hnode, ?_⟩
    rw [if_neg (by simp [hcorpus, hid])]
    dsimp only
    rw [if_neg hseen]
    refine bind_ok.mpr ⟨_, hmore, ?_⟩
    dsimp only
    rw [if_neg (by omega)]
    rfl

omit [Externals] in
theorem endpointSet_card_le {c : String} {pairs pairs' : List (String × String)}
    (h : pairs ⊆ pairs') : (endpointSet c pairs).card ≤ (endpointSet c pairs').card := by
  refine Finset.card_le_card fun x hx => ?_
  rw [mem_endpointSet] at hx ⊢
  exact h hx

theorem scanEdge_exists {done : List (String × GraphEdge)} {entry : String × GraphEdge}
    {scan : EdgeScan} (hfree : CollisionFree (done ++ [entry]))
    (hs : Scanned (done.flatMap endpointPairs) scan)
    (hc : ∀ c : String, scan.edgeCounts[c]?.getD 0 = (edgesOf c done).length)
    (hlen : done.length < maxGraphEdges) (hanchored : Anchored state entry)
    (hcap : ∀ c, (endpointSet c ((done ++ [entry]).flatMap endpointPairs)).card ≤ maxGraphNodes) :
    ∃ scan', scanEdge state scan entry = .ok scan' := by
  have hpairs : (done ++ [entry]).flatMap endpointPairs
      = done.flatMap endpointPairs ++ [(entry.2.corpusId, entry.2.sourceNodeId)]
        ++ [(entry.2.corpusId, entry.2.targetNodeId)] := by
    rw [List.flatMap_append, List.flatMap_singleton, List.append_assoc]
    rfl
  have hsource : (entry.2.corpusId, entry.2.sourceNodeId) ∈ endpointPairs entry := by
    simp [endpointPairs]
  have htarget : (entry.2.corpusId, entry.2.targetNodeId) ∈ endpointPairs entry := by
    simp [endpointPairs]
  obtain ⟨scan₁, h₁⟩ := scanEndpoint_exists hs (hanchored.ids _ hsource) (hanchored.nodes _ hsource)
    ((endpointSet_card_le (by rw [hpairs]; exact List.subset_append_left _ _)).trans
      (hcap entry.2.corpusId))
  obtain ⟨hs₁, he₁, -⟩ := scanEndpoint_ok hs (fun p hp hk => hfree p
    (by rw [hpairs]; simp [hp]) (entry.2.corpusId, entry.2.sourceNodeId)
    (by rw [hpairs]; simp) hk) h₁
  obtain ⟨scan₂, h₂⟩ := scanEndpoint_exists hs₁ (hanchored.ids _ htarget) (hanchored.nodes _ htarget)
    (by rw [← hpairs]; exact hcap entry.2.corpusId)
  obtain ⟨-, he₂, -⟩ := scanEndpoint_ok hs₁ (fun p hp hk => hfree p
    (by rw [hpairs]; exact List.mem_append_left _ hp) (entry.2.corpusId, entry.2.targetNodeId)
    (by rw [hpairs]; simp) hk) h₂
  have hcount : scan₂.edgeCounts[entry.2.corpusId]?.getD 0 < maxGraphEdges := by
    rw [he₂, he₁, hc, edgesOf]
    exact (List.length_filter_le _ _).trans_lt hlen
  have hmax : maxGraphEdges < 2 ^ 64 - 1 := by decide
  have hmore : countMore scan₂.edgeCounts entry.2.corpusId
      = .ok (scan₂.edgeCounts.insert entry.2.corpusId
          (scan₂.edgeCounts[entry.2.corpusId]?.getD 0 + 1),
        scan₂.edgeCounts[entry.2.corpusId]?.getD 0 + 1) := by
    rw [countMore, checkedAdd_of_lt (by omega)]
    rfl
  refine ⟨_, bind_ok.mpr ⟨scan₂, ?_, bind_ok.mpr ⟨_, hmore, rfl⟩⟩⟩
  rw [List.foldlM_cons, h₁]
  show [entry.2.targetNodeId].foldlM (scanEndpoint state entry.2.corpusId) scan₁ = _
  rw [List.foldlM_cons, h₂]
  rfl

theorem scanEdges_iff {edges : List (String × GraphEdge)} (hfree : CollisionFree edges)
    (hlen : edges.length ≤ maxGraphEdges) :
    (∃ scan, edges.foldlM (scanEdge state) ⟨∅, ∅, ∅⟩ = .ok scan) ↔
      (∀ e ∈ edges, Anchored state e)
        ∧ ∀ c, (endpointSet c (edges.flatMap endpointPairs)).card ≤ maxGraphNodes := by
  constructor
  · rintro ⟨scan, hscan⟩
    obtain ⟨hs, -, hanchored⟩ := scanEdges_ok hfree hscan
    exact ⟨hanchored, fun c => hs.counts c ▸ hs.capped c⟩
  · rintro ⟨hanchored, hcap⟩
    have hfold : ∃ scan, edges.foldlM (scanEdge state) ⟨∅, ∅, ∅⟩ = .ok scan
        ∧ Scanned (edges.flatMap endpointPairs) scan
        ∧ ∀ c : String, scan.edgeCounts[c]?.getD 0 = (edgesOf c edges).length := by
      refine foldlM_of_ok (I := fun done scan => Scanned (done.flatMap endpointPairs) scan
        ∧ ∀ c : String, scan.edgeCounts[c]?.getD 0 = (edgesOf c done).length)
        ⟨Scanned.empty, by simp [edgesOf]⟩ ?_
      rintro done entry rest scan rfl ⟨hs, hc⟩
      have hpart : (done ++ [entry]).flatMap endpointPairs
          ⊆ (done ++ entry :: rest).flatMap endpointPairs := by
        intro p hp
        obtain ⟨e, he, hp⟩ := List.mem_flatMap.mp hp
        exact List.mem_flatMap.mpr ⟨e, by simp only [List.mem_append, List.mem_cons] at he ⊢; tauto, hp⟩
      have hfree' : CollisionFree (done ++ [entry]) :=
        fun p hp q hq => hfree p (hpart hp) q (hpart hq)
      have hroom : done.length < maxGraphEdges := by
        simp only [List.length_append, List.length_cons] at hlen
        omega
      obtain ⟨scan', hscan'⟩ := scanEdge_exists hfree' hs hc hroom (hanchored entry (by simp))
        fun c => (endpointSet_card_le hpart).trans (hcap c)
      obtain ⟨hs', hc', -⟩ := scanEdge_ok hfree' hs hc hscan'
      exact ⟨scan', hscan', hs', hc'⟩
    exact hfold.imp fun _ h => h.1

end Edges

/-! ### The catalog of a state -/

section Exact

variable {state : State}

omit [Externals] in
theorem Walk.mem_snapshots (walk : Walk state) {entry : String × Value} :
    entry ∈ walk.snapshots ↔ entry ∈ state.snapshots.toList :=
  walk.snapshots_perm.mem_iff

omit [Externals] in
theorem Walk.endpoints (walk : Walk state) (c : String) :
    endpointSet c (walk.edges.flatMap endpointPairs)
      = endpointSet c (state.edges.toList.flatMap endpointPairs) := by
  ext x
  simp only [mem_endpointSet, List.mem_flatMap, walk.edges_perm.mem_iff]

omit [Externals] in
theorem Walk.itemCount (walk : Walk state) :
    Bounded.itemCount walk.snapshots = Bounded.itemCount state.snapshots.toList :=
  (walk.snapshots_perm.map _).sum_eq

omit [Externals] in
theorem Walk.nodup_keys (walk : Walk state) : (walk.snapshots.map Prod.fst).Nodup := by
  refine ((walk.snapshots_perm.map Prod.fst).nodup_iff).mpr ?_
  rw [Std.ExtTreeMap.map_fst_toList_eq_keys]
  exact Std.ExtTreeMap.nodup_keys

theorem Walk.separated (walk : Walk state) (h : Separated (stateTriples state)) :
    Separated (snapshotTriples walk.snapshots) ∧ CollisionFree walk.edges := by
  constructor
  · refine h.subset fun t ht => ?_
    obtain ⟨entry, hentry, ht⟩ := List.mem_flatMap.mp ht
    exact List.mem_append_left _ (List.mem_flatMap.mpr ⟨entry, walk.mem_snapshots.mp hentry, ht⟩)
  · have hin {p : String × String} (hp : p ∈ walk.edges.flatMap endpointPairs) :
        (p.1, "nodes", p.2) ∈ stateTriples state := by
      obtain ⟨e, he, hp⟩ := List.mem_flatMap.mp hp
      exact List.mem_append_right _ (List.mem_map.mpr
        ⟨p, List.mem_flatMap.mpr ⟨e, walk.edges_perm.mem_iff.mp he, hp⟩, rfl⟩)
    intro p hp q hq hkey
    have heq := h.inj (hin hp) (hin hq) hkey
    exact Prod.ext (Prod.mk.inj heq).1 (Prod.mk.inj (Prod.mk.inj heq).2).2

theorem ensureBoundedCatalog_iff (walk : Walk state) (hsep : Separated (stateTriples state)) :
    (∃ catalog, ensureBoundedCatalog state walk = .ok catalog) ↔ Cataloguable state := by
  obtain ⟨hsnapshots, hfree⟩ := walk.separated hsep
  have hkeys := walk.nodup_keys
  have hlength : walk.edges.length = state.edges.toList.length := walk.edges_perm.length_eq
  constructor
  · rintro ⟨catalog, h⟩
    obtain ⟨total, htotal, h⟩ := bind_ok.mp h
    obtain ⟨indices, hindices, h⟩ := bind_ok.mp h
    split at h
    · exact absurd h blank_ne_ok
    rename_i hlen
    obtain ⟨_, -, h⟩ := bind_ok.mp h
    obtain ⟨scan, hscan, -⟩ := bind_ok.mp h
    obtain ⟨hok, hnodup⟩ := indexSnapshots_iff.mp ⟨indices, hindices⟩
    obtain ⟨hanchored, hcap⟩ := (scanEdges_iff hfree (by omega)).mp ⟨scan, hscan⟩
    refine ⟨fun entry he => hok entry (walk.mem_snapshots.mpr he), fun entry he => ?_, ?_,
      fun entry he => hanchored entry (walk.edges_perm.mem_iff.mpr he), by omega, fun c => ?_⟩
    · exact (nodup_snapshotEntries hsnapshots hkeys hok).mp hnodup entry (walk.mem_snapshots.mpr he)
    · rw [← walk.itemCount]
      exact countItems_lt htotal
    · rw [← walk.endpoints]
      exact hcap c
  · intro h
    have hok : ∀ entry ∈ walk.snapshots, SnapshotOk entry :=
      fun entry he => h.snapshots entry (walk.mem_snapshots.mp he)
    have hcount := countItems_ok hok (walk.itemCount ▸ h.countable)
    obtain ⟨indices, hindices⟩ := indexSnapshots_iff.mpr ⟨hok, (nodup_snapshotEntries hsnapshots
      hkeys hok).mpr fun entry he => h.distinct entry (walk.mem_snapshots.mp he)⟩
    have hedges := h.edges_le
    obtain ⟨scan, hscan⟩ := (scanEdges_iff hfree (by omega)).mpr
      ⟨fun e he => h.anchored e (walk.edges_perm.mem_iff.mp he), fun c => walk.endpoints c ▸ h.nodes_le c⟩
    have hmax : maxGraphEdges * 2 < 2 ^ 64 := by decide
    refine ⟨⟨indices, scan.edgeCounts, scan.endpointCounts⟩, bind_ok.mpr ⟨_, hcount, ?_⟩⟩
    refine bind_ok.mpr ⟨indices, hindices, ?_⟩
    rw [if_neg (by omega)]
    refine bind_ok.mpr ⟨walk.edges.length * 2, ?_, bind_ok.mpr ⟨scan, hscan, rfl⟩⟩
    rw [orBlankError_ok, checkedMul, if_pos (by omega)]

omit [Externals] in
/-- The items of a section with this id. -/
def itemsNamed (state : State) (corpusId : String) (names : String × String) (itemId : String) :
    List Value :=
  (state.snapshots[corpusId]?.elim [] (sectionItems · names.1)).filter fun item =>
    getStr item names.2 = some itemId

/-- A catalog that leads to the stored items and has the right counts. -/
structure Catalog.Exact (state : State) (catalog : Catalog) : Prop where
  unique : ∀ c, ∀ names ∈ snapshotSections, ∀ id, (itemsNamed state c names id).length ≤ 1
  items : ∀ c, ∀ names ∈ snapshotSections, ∀ id item,
    boundedSnapshotItem state catalog c names.1 id = .ok item ↔ itemsNamed state c names id = [item]
  others : ∀ c sectionName id item, sectionName ∉ snapshotSections.map Prod.fst →
    boundedSnapshotItem state catalog c sectionName id ≠ .ok item
  edges : ∀ c : String, catalog.edgeCountsByCorpus[c]?.getD 0
    = (edgesOf c state.edges.toList).length
  endpoints : ∀ c : String, catalog.endpointCountsByCorpus[c]?.getD 0
    = (endpointSet c (state.edges.toList.flatMap endpointPairs)).card

omit [Externals] in
theorem length_filter_le_one {α β : Type} [DecidableEq β] {g : α → β} {xs : List α}
    (h : (xs.map g).Nodup) (b : β) : (xs.filter fun x => g x = b).length ≤ 1 := by
  have hreplicate : (xs.filter fun x => g x = b).map g
      = List.replicate (xs.filter fun x => g x = b).length b := by
    refine List.eq_replicate_iff.mpr ⟨by simp, fun y hy => ?_⟩
    obtain ⟨x, hx, rfl⟩ := List.mem_map.mp hy
    simpa using (List.mem_filter.mp hx).2
  have hnodup := h.sublist (List.filter_sublist.map g : ((xs.filter fun x => g x = b).map g).Sublist _)
  rw [hreplicate] at hnodup
  exact List.nodup_replicate.mp hnodup

omit [Externals] in
theorem sectionIdField_ok {names : String × String} (h : names ∈ snapshotSections) :
    sectionIdField names.1 = .ok names.2 := by
  simp only [snapshotSections, List.mem_cons, List.not_mem_nil, or_false] at h
  rcases h with rfl | rfl | rfl <;> rfl

theorem boundedSnapshotItem_ok {catalog : Catalog} {c sectionName id : String} {item : Value}
    (h : boundedSnapshotItem state catalog c sectionName id = .ok item) :
    ∃ snapshot idField, state.snapshots[c]? = some snapshot ∧ item ∈ sectionItems snapshot sectionName
      ∧ sectionIdField sectionName = .ok idField ∧ getStr item idField = some id := by
  obtain ⟨index, -, h⟩ := bind_ok.mp h
  obtain ⟨items, hitems, h⟩ := bind_ok.mp h
  obtain ⟨snapshot, hsnapshot, hitems⟩ := bind_ok.mp hitems
  obtain ⟨found, hfound, h⟩ := bind_ok.mp h
  obtain ⟨idField, hidField, h⟩ := bind_ok.mp h
  split at h
  · exact absurd h blank_ne_ok
  rename_i hcheck
  cases h
  rw [not_or, not_not, not_not] at hcheck
  refine ⟨snapshot, idField, orBlankError_ok.mp hsnapshot, ?_, hidField, hcheck.2⟩
  rw [storedSnapshotSectionOrEmpty_ok hitems]
  exact List.mem_of_getElem? (orBlankError_ok.mp hfound)

/-- A catalog that leads to the stored items, each the only one with its id in its section. -/
structure Catalog.Leads (state : State) (catalog : Catalog) : Prop where
  snapshots : ∀ entry ∈ state.snapshots.toList, SnapshotOk entry
  distinct : ∀ entry ∈ state.snapshots.toList, ∀ names ∈ snapshotSections,
    ((sectionItems entry.2 names.1).map (getStr · names.2)).Nodup
  indices : ∀ entry ∈ state.snapshots.toList, ∀ names ∈ snapshotSections, ∀ item i id,
    (sectionItems entry.2 names.1)[i]? = some item → getStr item names.2 = some id →
      catalog.snapshotIndices[boundedIndexKey entry.1 names.1 id]? = some i

/-- The index leads to the items when it is built: two items under one entry would be refused. -/
theorem leads_of_ok {walk : Walk state} {catalog : Catalog}
    (h : ensureBoundedCatalog state walk = .ok catalog) : catalog.Leads state := by
  obtain ⟨_, -, h⟩ := bind_ok.mp h
  obtain ⟨indices, hindices, h⟩ := bind_ok.mp h
  split at h
  · exact absurd h blank_ne_ok
  obtain ⟨_, -, h⟩ := bind_ok.mp h
  obtain ⟨scan, -, h⟩ := bind_ok.mp h
  cases h
  obtain ⟨hok, hnodup⟩ := indexSnapshots_iff.mp ⟨indices, hindices⟩
  have hdistinct := distinct_of_nodup walk.nodup_keys hok hnodup
  refine ⟨fun entry he => hok entry (walk.mem_snapshots.mpr he),
    fun entry he => hdistinct entry (walk.mem_snapshots.mpr he), ?_⟩
  intro entry hentry names hnames item i id hi hid
  refine (indexSnapshots_ok hindices _ i).mpr ?_
  refine List.mem_flatMap.mpr ⟨entry, walk.mem_snapshots.mpr hentry, ?_⟩
  refine List.mem_flatMap.mpr ⟨names, hnames, ?_⟩
  refine List.mem_map.mpr ⟨(item, i), List.mk_mem_zipIdx_iff_getElem?.mpr hi, ?_⟩
  rw [hid, Option.getD_some]

namespace Catalog.Leads

variable {catalog : Catalog}

theorem unique (h : catalog.Leads state) (c : String) {names : String × String}
    (hnames : names ∈ snapshotSections) (id : String) :
    (itemsNamed state c names id).length ≤ 1 := by
  rw [itemsNamed]
  rcases hsnapshot : state.snapshots[c]? with _ | snapshot
  · simp
  · exact length_filter_le_one
      (h.distinct (c, snapshot) (Map.mem_toList.mpr hsnapshot) names hnames) (some id)

theorem items (h : catalog.Leads state) (c : String) {names : String × String}
    (hnames : names ∈ snapshotSections) (id : String) (item : Value) :
    boundedSnapshotItem state catalog c names.1 id = .ok item ↔
      itemsNamed state c names id = [item] := by
  constructor
  · intro hitem
    obtain ⟨snapshot, idField, hsnapshot, hmem, hfield, hid⟩ := boundedSnapshotItem_ok hitem
    rw [sectionIdField_ok hnames] at hfield
    injection hfield with hfield
    subst hfield
    have hfound : item ∈ itemsNamed state c names id := by
      rw [itemsNamed, hsnapshot, Option.elim_some, List.mem_filter]
      exact ⟨hmem, by simpa using hid⟩
    obtain ⟨one, hone⟩ := List.length_eq_one_iff.mp
      (le_antisymm (h.unique c hnames id) (List.length_pos_of_mem hfound))
    rw [hone, List.mem_singleton] at hfound
    rw [hone, hfound]
  · intro hone
    have hfound : item ∈ itemsNamed state c names id := by rw [hone]; simp
    rw [itemsNamed] at hfound
    rcases hsnapshot : state.snapshots[c]? with _ | snapshot
    · rw [hsnapshot] at hfound
      simp at hfound
    rw [hsnapshot, Option.elim_some, List.mem_filter, decide_eq_true_eq] at hfound
    obtain ⟨hmem, hid⟩ := hfound
    have hentry : (c, snapshot) ∈ state.snapshots.toList := Map.mem_toList.mpr hsnapshot
    have hsection := (h.snapshots _ hentry).sections names hnames
    obtain ⟨i, hi⟩ := List.mem_iff_getElem?.mp hmem
    have hindex := h.indices _ hentry names hnames item i id hi hid
    refine bind_ok.mpr ⟨i, orBlankError_ok.mpr hindex, bind_ok.mpr ⟨_, bind_ok.mpr ⟨snapshot,
      orBlankError_ok.mpr hsnapshot, storedSnapshotSectionOrEmpty_of_array hsection.array⟩, ?_⟩⟩
    refine bind_ok.mpr ⟨item, orBlankError_ok.mpr hi, bind_ok.mpr ⟨_, sectionIdField_ok hnames, ?_⟩⟩
    rw [if_neg (by simp [(hsection.items item hmem).corpus, hid])]
    rfl

end Catalog.Leads

theorem exact_of_ok {walk : Walk state} {catalog : Catalog} (hsep : Separated (stateTriples state))
    (h : ensureBoundedCatalog state walk = .ok catalog) : catalog.Exact state := by
  have hleads := leads_of_ok h
  have hdescribes := ensureBoundedCatalog_ok (walk.separated hsep).2 h
  refine ⟨fun c names hnames id => hleads.unique c hnames id,
    fun c names hnames id item => hleads.items c hnames id item, ?_, ?_, ?_⟩
  · intro c sectionName id item hother hitem
    obtain ⟨_, idField, -, -, hfield, -⟩ := boundedSnapshotItem_ok hitem
    simp only [snapshotSections, List.map_cons, List.map_nil, List.mem_cons, List.not_mem_nil,
      or_false, not_or] at hother
    rw [sectionIdField, if_neg hother.1, if_neg hother.2.1, if_neg hother.2.2] at hfield
    exact blank_ne_ok hfield
  · intro c
    rw [hdescribes.edges, edgesOf, edgesOf]
    exact (walk.edges_perm.filter _).length_eq
  · intro c
    rw [hdescribes.nodes, walk.endpoints]

end Exact

/-! ### The catalog of a server -/

/-- A server with its catalog, when one is ready. -/
structure CatalogServer where
  state : State
  catalog : Option Catalog

namespace CatalogServer

/-- A catalog that is ready is not built again. -/
def ensureBoundedCatalog (s : CatalogServer) (walk : Walk s.state) : Checked CatalogServer :=
  match s.catalog with
  | some _ => .ok s
  | none => (Bounded.ensureBoundedCatalog s.state walk).map fun catalog =>
    { s with catalog := some catalog }

/-- Every change of the state drops the catalog. -/
def markCacheDirty (_s : CatalogServer) (state : State) : CatalogServer := ⟨state, none⟩

inductive Reachable : CatalogServer → Prop where
  | opened (state : State) : Reachable ⟨state, none⟩
  | ensured {s s' : CatalogServer} (walk : Walk s.state) (h : Reachable s)
      (heq : s.ensureBoundedCatalog walk = .ok s') : Reachable s'
  | changed {s : CatalogServer} (state : State) (h : Reachable s) : Reachable (s.markCacheDirty state)

theorem ensureBoundedCatalog_built {s s' : CatalogServer} {walk : Walk s.state}
    (h : s.ensureBoundedCatalog walk = .ok s') :
    s = s' ∧ s.catalog.isSome = true ∨ ∃ catalog,
      Bounded.ensureBoundedCatalog s.state walk = .ok catalog ∧ s' = { s with catalog := some catalog } := by
  rw [ensureBoundedCatalog] at h
  split at h
  · rename_i hready
    injection h with h
    exact .inl ⟨h, by rw [hready]; rfl⟩
  · obtain ⟨catalog, hcatalog, rfl⟩ := map_ok.mp h
    exact .inr ⟨catalog, hcatalog, rfl⟩

/-- A catalog that is ready was built from the state as it is. -/
theorem Reachable.built {s : CatalogServer} (h : s.Reachable) {catalog : Catalog}
    (hc : s.catalog = some catalog) :
    ∃ walk, Bounded.ensureBoundedCatalog s.state walk = .ok catalog := by
  induction h with
  | opened state => cases hc
  | changed state _ _ => cases hc
  | ensured walk _ heq ih =>
    rcases ensureBoundedCatalog_built heq with ⟨rfl, -⟩ | ⟨built, hbuilt, rfl⟩
    · exact ih hc
    · cases hc
      exact ⟨walk, hbuilt⟩

end CatalogServer

/-- The catalog can be built exactly for the states in order, and leads to each stored item and has
the right counts. -/
theorem bounded_catalog_exact {s : CatalogServer} (hs : s.Reachable) (walk : Walk s.state)
    (hsep : Separated (stateTriples s.state)) :
    ((∃ s', s.ensureBoundedCatalog walk = .ok s') ↔ Cataloguable s.state) ∧
      ∀ s', s.ensureBoundedCatalog walk = .ok s' →
        s'.state = s.state ∧ ∃ catalog, s'.catalog = some catalog ∧ catalog.Exact s.state := by
  rcases hready : s.catalog with _ | catalog
  · have hbuild : s.ensureBoundedCatalog walk
        = (Bounded.ensureBoundedCatalog s.state walk).map fun catalog =>
          { s with catalog := some catalog } := by
      rw [CatalogServer.ensureBoundedCatalog, hready]
    rw [hbuild]
    refine ⟨?_, ?_⟩
    · rw [← ensureBoundedCatalog_iff walk hsep]
      constructor
      · rintro ⟨s', h⟩
        obtain ⟨catalog, hcatalog, -⟩ := map_ok.mp h
        exact ⟨catalog, hcatalog⟩
      · rintro ⟨catalog, hcatalog⟩
        exact ⟨_, map_ok.mpr ⟨catalog, hcatalog, rfl⟩⟩
    · intro s' h
      obtain ⟨catalog, hcatalog, rfl⟩ := map_ok.mp h
      exact ⟨rfl, catalog, rfl, exact_of_ok hsep hcatalog⟩
  · have hkept : s.ensureBoundedCatalog walk = .ok s := by
      rw [CatalogServer.ensureBoundedCatalog, hready]
    obtain ⟨walk', hwalk⟩ := hs.built hready
    rw [hkept]
    refine ⟨⟨fun _ => (ensureBoundedCatalog_iff walk' hsep).mp ⟨catalog, hwalk⟩, fun _ => ⟨s, rfl⟩⟩, ?_⟩
    rintro s' h
    injection h with h
    subst h
    exact ⟨rfl, catalog, hready, exact_of_ok hsep hwalk⟩

end

section Witness

attribute [local instance] Concrete.externals

/-- A node with an edge to itself. -/
def selfEdge (nodeId : String) : GraphEdge := ⟨"e", "c", nodeId, nodeId, "r", Concrete.ofInt 1, none⟩

def selfEdgeState (nodeId : String) : State :=
  { State.default with
    nodes := (∅ : Map GraphNode).insert (nodeKey "c" nodeId) ⟨nodeId, "c", "semantic", .null, "a"⟩
    edges := (∅ : Map GraphEdge).insert "e" (selfEdge nodeId) }

/-- With a corpus of one passage. -/
def passageState : State :=
  { selfEdgeState "a" with
    snapshots := (∅ : Map Value).insert "c" (.obj [("corpusId", .str "c"),
      ("passages", .arr [.obj [("corpusId", .str "c"), ("passageId", .str "p")]])]) }

theorem bounded_catalog_exact_passage : ∃ catalog : Catalog, catalog.Exact passageState := by
  have hsep : Separated (stateTriples passageState) := by
    have htriples : stateTriples passageState
        = [("c", "passages", "p"), ("c", "nodes", "a"), ("c", "nodes", "a")] := by decide +kernel
    have hne : sha256 (indexFrame ("c", "passages", "p"))
        ≠ sha256 (indexFrame ("c", "nodes", "a")) := by decide +kernel
    rw [htriples]
    refine ⟨?_, ?_⟩
    · intro t ht
      fin_cases ht <;> exact ⟨by decide, by decide, by decide⟩
    · intro t ht u hu
      fin_cases ht <;> fin_cases hu <;> simp [hne, hne.symm]
  obtain ⟨built, hbuilt⟩ := exists_ok (x := CatalogServer.ensureBoundedCatalog
    ⟨passageState, none⟩ (keyWalk _)) (by decide +kernel)
  obtain ⟨-, catalog, -, hexact⟩ :=
    (bounded_catalog_exact (.opened _) (keyWalk _) hsep).2 built hbuilt
  exact ⟨catalog, hexact⟩

theorem mem_selfEdges {nodeId : String} {entry : String × GraphEdge} :
    entry ∈ (selfEdgeState nodeId).edges.toList ↔ entry = ("e", selfEdge nodeId) := by
  obtain ⟨k, edge⟩ := entry
  rw [Map.mem_toList]
  show ((∅ : Map GraphEdge).insert "e" (selfEdge nodeId))[k]? = some edge ↔ _
  by_cases hk : "e" = k
  · subst hk
    simp [eq_comm]
  · rw [Map.getElem?_insert_ne _ hk]
    simp [Ne.symm hk]

/-- A node may be stored under the empty id, and be the endpoint of an edge, but no catalog is built
then. -/
theorem ensureBoundedCatalog_emptyId :
    (selfEdgeState "").snapshots.toList = [] ∧ (selfEdgeState "").edges.toList.length = 1 ∧
    (∀ entry ∈ (selfEdgeState "").edges.toList, ∀ p ∈ endpointPairs entry,
      ∃ node, (selfEdgeState "").nodes[nodeKey p.1 p.2]? = some node
        ∧ node.corpusId = p.1 ∧ node.nodeId = p.2) ∧
    ∀ walk, ¬ ∃ catalog, ensureBoundedCatalog (selfEdgeState "") walk = .ok catalog := by
  have hpairs (entry : String × GraphEdge) (h : entry ∈ (selfEdgeState "").edges.toList)
      (p : String × String) (hp : p ∈ endpointPairs entry) : p = ("c", "") := by
    rw [mem_selfEdges.mp h] at hp
    simpa [endpointPairs, selfEdge] using hp
  refine ⟨by decide, by decide +kernel, ?_, ?_⟩
  · intro entry hentry p hp
    rw [hpairs entry hentry p hp]
    exact ⟨⟨"", "c", "semantic", .null, "a"⟩, Map.getElem?_insert_self _ _ _, rfl, rfl⟩
  · rintro walk ⟨catalog, hcatalog⟩
    have hone (p : String × String) (hp : p ∈ walk.edges.flatMap endpointPairs) : p = ("c", "") := by
      obtain ⟨entry, hentry, hp⟩ := List.mem_flatMap.mp hp
      exact hpairs entry (walk.edges_perm.mem_iff.mp hentry) p hp
    have hfree : CollisionFree walk.edges := fun p hp q hq _ => by rw [hone p hp, hone q hq]
    have hanchored := (ensureBoundedCatalog_ok hfree hcatalog).anchored ("e", selfEdge "")
      (walk.edges_perm.mem_iff.mpr (mem_selfEdges.mpr rfl))
    exact absurd (hanchored.ids ("c", "") (by simp [endpointPairs, selfEdge])) (by decide)

end Witness

end AiraGraphdb.Native.Bounded
