import AiraGraphdb.Native.Bounded.Evaluates
import AiraGraphdb.Native.Bounded.SearchExact
import AiraGraphdb.Schemes.IeeeOrder

/-! # The assertions about a ranking

The three operations answer with rankings of stored objects, and the contract says much the same of each
of them. Of a ranking that was computed most of it holds as a matter of course; left are the two things
that may fail, the repetition of an id and the order of the zeros. -/

namespace AiraGraphdb.Native.Bounded

open Schemes Schemes.Json

/-! ### Members as values of expressions -/

theorem get_of_getStr {v : Value} {name s : String} (h : getStr v name = some s) :
    v.get name = some (.str s) := by
  obtain ⟨w, hw, hs⟩ := Option.bind_eq_some_iff.mp h
  cases w with
  | str t =>
    cases hs
    exact hw
  | _ => cases hs

theorem get_of_getArray {v : Value} {name : String} {values : List Value}
    (h : getArray v name = some values) : v.get name = some (.arr values) := by
  obtain ⟨w, hw, hs⟩ := Option.bind_eq_some_iff.mp h
  cases w with
  | arr ws =>
    cases hs
    exact hw
  | _ => cases hs

theorem get_of_getU64 {v : Value} {name : String} {n : ℕ} (h : getU64 v name = some n) :
    ∃ u : UInt64, v.get name = some (numU64 u) ∧ u.toNat = n := by
  obtain ⟨u, hu, rfl⟩ := Option.map_eq_some_iff.mp h
  obtain ⟨w, hw, hs⟩ := Option.bind_eq_some_iff.mp hu
  cases w with
  | num k =>
    cases k with
    | posInt u' =>
      cases hs
      exact ⟨u, hw, rfl⟩
    | _ => cases hs
  | _ => cases hs

theorem get_of_getF64 {v : Value} {name : String} {x : F64} (h : getF64 v name = some x) :
    ∃ w, v.get name = some w ∧ (EvalValue.ref w).asNumber = some x ∧ x.isFinite = true := by
  obtain ⟨hx, hfinite⟩ := Option.filter_eq_some_iff.mp h
  obtain ⟨w, hw, hs⟩ := Option.bind_eq_some_iff.mp hx
  refine ⟨w, hw, ?_, hfinite⟩
  rw [EvalValue.asNumber, EvalValue.one, Option.bind_some, hs]
  exact Option.filter_eq_some_iff.mpr ⟨rfl, hfinite⟩

theorem asNumber_ref_numU64 (u : UInt64) :
    (EvalValue.ref (numU64 u)).asNumber = some (F64.ofInt u.toNat) := by
  rw [EvalValue.asNumber, EvalValue.one, Option.bind_some, numU64, asDouble, numberF64]
  exact Option.filter_eq_some_iff.mpr ⟨rfl, F64.isFinite_ofInt (by simpa using u.toNat_lt)⟩

theorem jsonOfF64_finite {x : F64} (h : x.isFinite = true) : jsonOfF64 x = .num (.float ⟨x, h⟩) :=
  dif_pos h

theorem asNumber_jsonOfF64 {x : F64} (h : x.isFinite = true) :
    (EvalValue.ref (jsonOfF64 x)).asNumber = some x := by
  rw [jsonOfF64_finite h, EvalValue.asNumber, EvalValue.one, Option.bind_some, asDouble, numberF64]
  exact Option.filter_eq_some_iff.mpr ⟨rfl, h⟩

theorem conforms_jsonOfF64 {x : F64} (h : x.isFinite = true) : Conforms .number (jsonOfF64 x) := by
  rw [jsonOfF64_finite h]
  exact conforms_number h

/-! ### Stored objects -/

/-- An object that is looked up is of its corpus and has its id. -/
theorem boundedSnapshotItem_fields {state : State} {catalog : Catalog} [Externals]
    {corpusId itemId : String} {names : String × String} (hnames : names ∈ snapshotSections)
    {item : Value} (h : boundedSnapshotItem state catalog corpusId names.1 itemId = .ok item) :
    getStr item "corpusId" = some corpusId ∧ getStr item names.2 = some itemId := by
  have hfield : sectionIdField names.1 = .ok names.2 := by
    simp only [snapshotSections, List.mem_cons, List.not_mem_nil, or_false] at hnames
    rcases hnames with rfl | rfl | rfl <;> rfl
  obtain ⟨index, -, h⟩ := bind_ok.mp h
  obtain ⟨items, -, h⟩ := bind_ok.mp h
  obtain ⟨found, -, h⟩ := bind_ok.mp h
  obtain ⟨idField, hid, h⟩ := bind_ok.mp h
  rw [hfield] at hid
  cases hid
  split at h
  · exact absurd h blank_ne_ok
  · rename_i hsame
    cases h
    rw [not_or, not_not, not_not] at hsame
    exact hsame

/-! ### Rankings -/

section Ranking

variable {m : Type → Type} [Monad m] [LawfulMonad m]
  {normalizer : String → String → OptionT m String} {request result : Value} {α : Type}
  {entries : List α} {value : α → Value} {collection : List String} {scope idField : String}
  {id : α → String} {score : α → F64}

/-- Where a ranking is in a result, with the ids and the scores of its entries. -/
structure RankedAt (result : Value) (collection : List String) (entries : List α) (value : α → Value)
    (idField : String) (id : α → String) (score : α → F64) : Prop where
  found : pointerValue result collection = some (.ref (.arr (entries.map value)))
  field : idField ≠ "*"
  ids : ∀ a ∈ entries, (value a).get idField = some (.str (id a))
  scores : ∀ a ∈ entries, (value a).get "score" = some (jsonOfF64 (score a))
  finite : ∀ a ∈ entries, (score a).isFinite = true

namespace RankedAt

variable (h : RankedAt result collection entries value idField id score)

include h

omit [LawfulMonad m] in
theorem evaluates : Evaluates normalizer ⟨request, some result⟩ none (Bounded.result collection)
    (.ref (.arr (entries.map value))) := evaluates_result rfl h.found

omit [LawfulMonad m] in
theorem evaluates_id {context : EvalContext} {a : α} (ha : a ∈ entries) :
    Evaluates normalizer context (some (scope, value a)) (.iterationPointer scope [idField])
      (.ref (.str (id a))) :=
  evaluates_item ((pointerValue_field (h.ids a ha) h.field).trans (pointerValue_nil _))

omit [LawfulMonad m] in
theorem evaluates_score {context : EvalContext} {a : α} (ha : a ∈ entries) :
    ∃ v, Evaluates normalizer context (some (scope, value a)) (.iterationPointer scope ["score"]) v
      ∧ v.asNumber = some (score a) :=
  ⟨_, evaluates_item ((pointerValue_field (h.scores a ha) (by decide)).trans (pointerValue_nil _)),
    asNumber_jsonOfF64 (h.finite a ha)⟩

/-- A list is as long as it may be. -/
theorem evaluates_length {limit : List String} {u : UInt64}
    (hlimit : pointerValue request limit = some (.ref (numU64 u)))
    (hlength : entries.length ≤ u.toNat) :
    Evaluates normalizer ⟨request, some result⟩ none
      (.lengthLteRef (Bounded.result collection) (Bounded.request limit)) (.bool true) := by
  have hbound : Evaluates normalizer ⟨request, some result⟩ none (Bounded.request limit)
      (.ref (numU64 u)) := evaluates_request hlimit
  have := evaluates_lengthLteRef (e := Bounded.result collection) h.evaluates hbound
    (asNumber_ref_numU64 u)
  rwa [List.length_map, F64.le_ofInt hlength] at this

theorem evaluates_unique : Evaluates normalizer ⟨request, some result⟩ none
    (.uniqueBy (Bounded.result collection) scope (.iterationPointer scope [idField]))
    (.bool (decide (entries.map id).Nodup)) :=
  evaluates_uniqueBy h.evaluates fun _ ha => h.evaluates_id ha

theorem evaluates_order : Evaluates normalizer ⟨request, some result⟩ none
    (.orderedScoreDescIdAsc (Bounded.result collection) scope (.iterationPointer scope ["score"])
      (.iterationPointer scope [idField]))
    (.bool (orderedScoreDescIdAsc none (entries.map fun a => (score a, id a)))) :=
  evaluates_ordered h.evaluates (fun _ ha => h.evaluates_score ha) fun _ ha => h.evaluates_id ha

/-- What is asked of a ranking comes to what may fail of it. -/
theorem decides {limit : List String} {u : UInt64}
    (hlimit : pointerValue request limit = some (.ref (numU64 u)))
    (hlength : entries.length ≤ u.toNat) :
    Decides normalizer ⟨request, some result⟩ (ranked collection scope idField limit)
      (decide (entries.map id).Nodup
        && orderedScoreDescIdAsc none (entries.map fun a => (score a, id a))) := by
  have hbounded : Evaluates normalizer ⟨request, some result⟩ none
      (.lengthLteRef (Bounded.result collection) (Bounded.request limit)) (.bool true) :=
    h.evaluates_length hlimit hlength
  have hdistinct : Evaluates normalizer ⟨request, some result⟩ none
      (.uniqueBy (Bounded.result collection) scope (.iterationPointer scope [idField]))
      (.bool (decide (entries.map id).Nodup)) := h.evaluates_unique
  have hordered : Evaluates normalizer ⟨request, some result⟩ none
      (.orderedScoreDescIdAsc (Bounded.result collection) scope (.iterationPointer scope ["score"])
        (.iterationPointer scope [idField]))
      (.bool (orderedScoreDescIdAsc none (entries.map fun a => (score a, id a)))) :=
    h.evaluates_order
  have := decides_cons hbounded (decides_cons hdistinct (decides_cons hordered decides_nil))
  rwa [Bool.true_and, Bool.and_true] at this

/-- A predicate that every entry satisfies. -/
theorem evaluates_each {predicate : Expr}
    (hp : ∀ a ∈ entries, Evaluates normalizer ⟨request, some result⟩ (some (scope, value a)) predicate
      (.bool true)) :
    Evaluates normalizer ⟨request, some result⟩ none
      (.forEach (Bounded.result collection) scope predicate) (.bool true) := by
  have := evaluates_forEach (p := fun _ => true) h.evaluates fun a ha => ⟨_, hp a ha, rfl⟩
  rwa [show (entries.all fun _ => true) = true by simp] at this

/-- The id names the object of the entry. -/
theorem evaluates_prefixed {object : α → Value} {text objectField nameField : String}
    (hobject : ∀ a ∈ entries, (value a).get objectField = some (object a))
    (hnamed : ∀ a ∈ entries, ∃ itemId, id a = text ++ itemId
      ∧ getStr (object a) nameField = some itemId)
    (hne : objectField ≠ "*") (hne' : nameField ≠ "*") :
    Evaluates normalizer ⟨request, some result⟩ none
      (prefixedId collection scope idField text [objectField, nameField]) (.bool true) := by
  refine h.evaluates_each fun a ha => ?_
  obtain ⟨itemId, hid, hitem⟩ := hnamed a ha
  have hpath : pointerValue (value a) [objectField, nameField] = some (.ref (.str itemId)) := by
    rw [pointerValue_field (hobject a ha) hne, pointerValue_field (get_of_getStr hitem) hne',
      pointerValue_nil]
  have hread : Evaluates normalizer ⟨request, some result⟩ (some (scope, value a))
      (.iterationPointer scope [idField]) (.ref (.str (id a))) := h.evaluates_id ha
  have heq := evaluates_eq hread
    (evaluates_concat (evaluates_literal (.str text)) rfl (evaluates_item hpath) rfl) rfl
  rwa [hid, Value.beq, beq_self_eq_true] at heq

/-- The object of the entry is of the corpus that is asked about. -/
theorem evaluates_corpus {object : α → Value} {objectField corpusId : String}
    (hobject : ∀ a ∈ entries, (value a).get objectField = some (object a))
    (hcorpus : ∀ a ∈ entries, getStr (object a) "corpusId" = some corpusId)
    (hasked : getStr request "corpusId" = some corpusId) (hne : objectField ≠ "*") :
    Evaluates normalizer ⟨request, some result⟩ none (sameCorpus collection scope objectField)
      (.bool true) := by
  refine h.evaluates_each fun a ha => ?_
  have hpath : pointerValue (value a) [objectField, "corpusId"] = some (.ref (.str corpusId)) := by
    rw [pointerValue_field (hobject a ha) hne,
      pointerValue_field (get_of_getStr (hcorpus a ha)) (by decide), pointerValue_nil]
  have hpath' : pointerValue request ["corpusId"] = some (.ref (.str corpusId)) := by
    rw [pointerValue_field (get_of_getStr hasked) (by decide), pointerValue_nil]
  have hread : Evaluates normalizer ⟨request, some result⟩ (some (scope, value a))
      (.iterationPointer scope [objectField, "corpusId"]) (.ref (.str corpusId)) :=
    evaluates_item hpath
  have heq := evaluates_eq hread (evaluates_request hpath') rfl
  rwa [Value.beq, beq_self_eq_true] at heq

end RankedAt

end Ranking

end AiraGraphdb.Native.Bounded
