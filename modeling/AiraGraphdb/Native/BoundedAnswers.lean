import AiraGraphdb.Native.BoundedReads
import AiraGraphdb.Native.Merge

/-! # The answers of bounded reads

A bounded read is answered exactly when the answer keeps to the limit of bytes, and then with the
stored objects that its parameters select: by id in the order of the request, each id once, or the
active facts, or the facts about some entities in the order of their ids. -/

namespace AiraGraphdb.Native

open Schemes Schemes.Json

/-! ### Folding -/

section Folding

/-- The bytes of the characters. -/
abbrev charBytes (cs : List Char) : ℕ := (cs.map Char.utf8Size).sum

theorem pushBounded_some {maximum : ℕ} : ∀ {cs output : List Char},
    charBytes output + charBytes cs ≤ maximum → pushBounded maximum output cs = some (output ++ cs)
  | [], output, _ => by rw [pushBounded, List.append_nil]
  | c :: cs, output, h => by
    rw [charBytes, charBytes, List.map_cons, List.sum_cons] at h
    rw [pushBounded, if_neg (by omega), pushBounded_some, List.append_assoc, List.singleton_append]
    rw [charBytes, charBytes, List.map_append, List.sum_append, List.map_singleton,
      List.sum_singleton]
    omega

theorem charBytes_le (cs : List Char) : charBytes cs ≤ 4 * cs.length := by
  induction cs with
  | nil => exact le_rfl
  | cons c cs ih =>
    have hc := c.utf8Size_le_four
    simp only [charBytes, List.map_cons, List.sum_cons, List.length_cons] at ih ⊢
    omega

theorem length_le_utf8Len (cs : List Char) : cs.length ≤ String.utf8Len cs := by
  induction cs with
  | nil => exact le_rfl
  | cons c cs ih =>
    have hc := c.utf8Size_pos
    rw [List.length_cons, String.utf8Len]
    omega

variable [Bounded.LowercaseTables]

/-- No character is mapped to more than three. -/
def ShortMappings : Prop :=
  ∀ c cs, Bounded.LowercaseTables.mapping c = some cs → cs.length ≤ 3

theorem charBytes_lowercaseMapped (h : ShortMappings) (before : List Char) (c : Char)
    (after : List Char) : charBytes (lowercaseMapped before c after) ≤ 12 := by
  have hlength : (lowercaseMapped before c after).length ≤ 3 := by
    rw [lowercaseMapped]
    split
    · simp
    · rcases hc : Bounded.LowercaseTables.mapping c with _ | cs
      · simp
      · exact h c cs hc
  exact (charBytes_le _).trans (by omega)

/-- The step: a character adds twelve bytes at most. -/
theorem lowercaseFrom_some (h : ShortMappings) {maximum : ℕ} : ∀ {cs before output : List Char},
    charBytes output + 12 * cs.length ≤ maximum →
      ∃ out, lowercaseFrom maximum before output cs = some out
  | [], _, output, _ => ⟨output, rfl⟩
  | c :: cs, before, output, hle => by
    have hmapped := charBytes_lowercaseMapped h before c cs
    rw [List.length_cons] at hle
    rw [lowercaseFrom, pushBounded_some (by omega)]
    refine lowercaseFrom_some h ?_
    rw [charBytes, List.map_append, List.sum_append]
    rw [charBytes] at hle hmapped
    omega

/-- An entity that a request may name folds within the bound. -/
theorem foldMemoryReadEntity_some (h : ShortMappings) {entity : String}
    (hentity : isBounded entity maxIndexingDomainIdBytes = true) :
    ∃ folded, foldMemoryReadEntity entity = some folded := by
  have hsize : entity.utf8ByteSize ≤ maxIndexingDomainIdBytes := by
    simp only [isBounded, Bool.and_eq_true, decide_eq_true_eq] at hentity
    exact hentity.2
  have hlength : entity.toList.length ≤ entity.utf8ByteSize := by
    have hbytes := String.utf8ByteSize_ofList entity.toList
    rw [String.ofList_toList] at hbytes
    rw [hbytes]
    exact length_le_utf8Len _
  have hmax : maxMemoryReadFoldedEntityBytes = 12 * maxIndexingDomainIdBytes := rfl
  rw [foldMemoryReadEntity, if_neg (by omega), lowercaseBounded]
  obtain ⟨out, hout⟩ := @lowercaseFrom_some _ h maxMemoryReadFoldedEntityBytes entity.toList [] []
    (by simp only [charBytes, List.map_nil, List.sum_nil]; omega)
  rw [hout]
  exact ⟨_, rfl⟩

end Folding

/-! ### The ids of a request -/

/-- Ids read from a list of a request: each of its strings once, in the order of the list. -/
structure NamedIds (params : Value) (name : String) (ids : List String) : Prop where
  nodup : ids.Nodup
  named : ∃ values, params.get name = some (.arr values) ∧ (ids.map Value.str).Sublist values
    ∧ ∀ id, .str id ∈ values → id ∈ ids
  bounded : ∀ id ∈ ids, isBounded id maxIndexingDomainIdBytes = true

theorem boundedId_ok {name id : String} {item : Value} (h : boundedId name item = .ok id) :
    item = .str id ∧ isBounded id maxIndexingDomainIdBytes = true := by
  rw [boundedId] at h
  cases item with
  | str s =>
    dsimp only [Value.asStr] at h
    by_cases hs : isBounded s maxIndexingDomainIdBytes = true
    · rw [if_pos hs] at h
      cases h
      exact ⟨rfl, hs⟩
    · rw [if_neg hs] at h
      cases h
  | _ => cases h

/-- What the items of a list were read as, on top of what was read before. -/
structure ReadIds (values : List Value) (seen ids : List String) : Prop where
  nodup : ids.Nodup
  added : ∃ more, ids = seen ++ more ∧ (more.map Value.str).Sublist values
    ∧ ∀ id ∈ more, isBounded id maxIndexingDomainIdBytes = true
  all : ∀ id, .str id ∈ values → id ∈ ids

theorem ReadIds.cons {values : List Value} {seen ids : List String} {id : String}
    (h : ReadIds values (seen ++ [id]) ids) (hid : isBounded id maxIndexingDomainIdBytes = true) :
    ReadIds (.str id :: values) seen ids := by
  obtain ⟨hnodup, ⟨more, rfl, hsub, hbounded⟩, hall⟩ := h
  refine ⟨hnodup, ⟨id :: more, by simp, hsub.cons_cons _, by simpa using ⟨hid, hbounded⟩⟩, ?_⟩
  intro id' hid'
  rcases List.mem_cons.mp hid' with heq | hmem
  · cases heq
    simp
  · exact hall id' hmem

theorem ReadIds.skip {values : List Value} {seen ids : List String} {id : String}
    (h : ReadIds values seen ids) (hid : id ∈ seen) : ReadIds (.str id :: values) seen ids := by
  obtain ⟨hnodup, ⟨more, rfl, hsub, hbounded⟩, hall⟩ := h
  refine ⟨hnodup, ⟨more, rfl, hsub.cons _, hbounded⟩, ?_⟩
  intro id' hid'
  rcases List.mem_cons.mp hid' with heq | hmem
  · cases heq
    exact List.mem_append_left more hid
  · exact hall id' hmem

theorem nodup_snoc {id : String} {seen : List String} (h : seen.Nodup) (hid : id ∉ seen) :
    (seen ++ [id]).Nodup := by
  refine List.nodup_append.mpr ⟨h, by simp, ?_⟩
  rintro id' hid' _ hlast rfl
  rw [List.mem_singleton.mp hlast] at hid'
  exact hid hid'

theorem readDistinct_ids {name : String} : ∀ {values : List Value} {seen ids : List String},
    seen.Nodup → readDistinct (boundedId name) seen values = .ok ids → ReadIds values seen ids
  | [], seen, ids, hseen, h => by
    cases h
    exact ⟨hseen, ⟨[], by simp⟩, by simp⟩
  | value :: values, seen, ids, hseen, h => by
    obtain ⟨id, hid, hrest⟩ := bind_ok.mp h
    obtain ⟨rfl, hbounded⟩ := boundedId_ok hid
    by_cases hin : id ∈ seen
    · rw [if_pos hin] at hrest
      exact (readDistinct_ids hseen hrest).skip hin
    · rw [if_neg hin] at hrest
      exact (readDistinct_ids (nodup_snoc hseen hin) hrest).cons hbounded

theorem readUnique_ids {name duplicate : String} :
    ∀ {values : List Value} {seen ids : List String}, seen.Nodup →
      readUnique (boundedId name) duplicate seen values = .ok ids → ReadIds values seen ids
  | [], seen, ids, hseen, h => by
    cases h
    exact ⟨hseen, ⟨[], by simp⟩, by simp⟩
  | value :: values, seen, ids, hseen, h => by
    obtain ⟨id, hid, hrest⟩ := bind_ok.mp h
    obtain ⟨rfl, hbounded⟩ := boundedId_ok hid
    dsimp only at hrest
    by_cases hin : id ∈ seen
    · rw [if_pos hin] at hrest
      cases hrest
    · rw [if_neg hin] at hrest
      exact (readUnique_ids (nodup_snoc hseen hin) hrest).cons hbounded

theorem ReadIds.named {params : Object} {name : String} {values : List Value} {ids : List String}
    (h : ReadIds values [] ids) (hvalues : lookupKey name params = some (.arr values)) :
    NamedIds (.obj params) name ids := by
  obtain ⟨hnodup, ⟨more, rfl, hsub, hbounded⟩, hall⟩ := h
  exact ⟨hnodup, ⟨values, hvalues, hsub, hall⟩, hbounded⟩

theorem optionalArray_ok {params : Object} {name : String} {values : List Value}
    (h : optionalArray params name = .ok (some values)) :
    lookupKey name params = some (.arr values) := by
  rw [optionalArray] at h
  rcases hname : lookupKey name params with _ | value
  · rw [hname] at h
    cases h
  · rw [hname] at h
    cases value with
    | arr values' =>
      cases h
      rfl
    | _ => cases h

theorem boundedDeduplicatedIds_ok {params : Object} {name : String} {maximum : ℕ}
    {ids : List String} (h : boundedDeduplicatedIds params name maximum = .ok ids) :
    NamedIds (.obj params) name ids := by
  obtain ⟨found, hfound, h⟩ := bind_ok.mp h
  cases found with
  | none => cases h
  | some values =>
    obtain ⟨_, hvalues, h⟩ := bind_ok.mp h
    cases hvalues
    dsimp only at h
    by_cases hlong : maximum < values.length
    · rw [if_pos hlong] at h
      cases h
    · rw [if_neg hlong] at h
      exact (readDistinct_ids .nil h).named (optionalArray_ok hfound)

theorem boundedUniqueIds_ok {params : Object} {name : String} {maximum : ℕ} {allowEmpty : Bool}
    {ids : List String} (h : boundedUniqueIds params name maximum allowEmpty = .ok ids) :
    NamedIds (.obj params) name ids := by
  obtain ⟨found, hfound, h⟩ := bind_ok.mp h
  cases found with
  | none => cases h
  | some values =>
    obtain ⟨_, hvalues, h⟩ := bind_ok.mp h
    cases hvalues
    dsimp only at h
    by_cases hlong : values.length < (if allowEmpty then 0 else 1) ∨ maximum < values.length
    · rw [if_pos hlong] at h
      cases h
    · rw [if_neg hlong] at h
      exact (@readUnique_ids name _ values [] ids .nil h).named (optionalArray_ok hfound)

/-- The ids that an admitted read names are those of the request. -/
def BoundedRead.Requested (params : Value) : BoundedRead → Prop
  | .schemasByIds _ ids _ => NamedIds params "schemaIds" ids
  | .activeFacts _ _ => True
  | .passagesByIds _ ids => NamedIds params "passageIds" ids
  | .factsByIds _ ids => NamedIds params "factIds" ids
  | .factsByEntities _ entities _ _ => NamedIds params "entities" entities

theorem itemsByIdsParams_ok {params : Object} {name : String} {r : String × List String}
    (h : itemsByIdsParams params name = .ok r) : NamedIds (.obj params) name r.2 := by
  obtain ⟨_, -, h⟩ := bind_ok.mp h
  obtain ⟨corpusId, -, h⟩ := bind_ok.mp h
  obtain ⟨ids, hids, h⟩ := bind_ok.mp h
  cases h
  exact boundedDeduplicatedIds_ok hids

theorem requested_of_params {read : BoundedRead} {params : Value} {f : Object → Result BoundedRead}
    (hf : ∀ object, params = .obj object → f object = .ok read → read.Requested params)
    (h : (paramsObject params >>= f) = .ok read) : read.Requested params := by
  obtain ⟨object, hobject, h⟩ := bind_ok.mp h
  rw [paramsObject] at hobject
  cases params with
  | obj object' =>
    cases hobject
    exact hf _ rfl h
  | _ => cases hobject

theorem admitRead_requested {req : RpcRequest} {read : BoundedRead}
    (h : admitRead req = some (.ok read)) : read.Requested req.params := by
  rw [admitRead] at h
  split at h
  · refine requested_of_params ?_ (Option.some.inj h)
    intro params hparams hread
    obtain ⟨_, -, hread⟩ := bind_ok.mp hread
    obtain ⟨_, -, hread⟩ := bind_ok.mp hread
    obtain ⟨ids, hids, hread⟩ := bind_ok.mp hread
    cases hread
    rw [hparams]
    exact boundedUniqueIds_ok hids
  · refine requested_of_params ?_ (Option.some.inj h)
    intro params hparams hread
    obtain ⟨_, -, hread⟩ := bind_ok.mp hread
    obtain ⟨_, -, hread⟩ := bind_ok.mp hread
    obtain ⟨_, -, hread⟩ := bind_ok.mp hread
    cases hread
    trivial
  · refine requested_of_params ?_ (Option.some.inj h)
    intro params hparams hread
    obtain ⟨r, hr, rfl⟩ := map_ok.mp hread
    rw [hparams]
    exact itemsByIdsParams_ok hr
  · refine requested_of_params ?_ (Option.some.inj h)
    intro params hparams hread
    obtain ⟨r, hr, rfl⟩ := map_ok.mp hread
    rw [hparams]
    exact itemsByIdsParams_ok hr
  · refine requested_of_params ?_ (Option.some.inj h)
    intro params hparams hread
    obtain ⟨_, -, hread⟩ := bind_ok.mp hread
    obtain ⟨corpusId, -, hread⟩ := bind_ok.mp hread
    obtain ⟨entities, hentities, hread⟩ := bind_ok.mp hread
    have hread' : ∃ activeOnly limit,
        BoundedRead.factsByEntities corpusId entities activeOnly limit = read := by
      dsimp only at hread
      split at hread
      · obtain ⟨activeOnly, -, hread⟩ := bind_ok.mp hread
        obtain ⟨limit, -, hread⟩ := bind_ok.mp hread
        exact ⟨activeOnly, limit, Except.ok.inj hread⟩
      · obtain ⟨activeOnly, -, hread⟩ := bind_ok.mp hread
        obtain ⟨limit, -, hread⟩ := bind_ok.mp hread
        exact ⟨activeOnly, limit, Except.ok.inj hread⟩
      · cases hread
    obtain ⟨activeOnly, limit, rfl⟩ := hread'
    rw [hparams]
    exact boundedDeduplicatedIds_ok hentities
  · cases h

/-! ### What a read selects -/

/-- The items of a section under the ids, in the order of the ids; ids of no item are left out. -/
def itemsOfIds (idKey : String) (ids : List String) (items : List Value) : List Value :=
  ids.filterMap fun id => items.find? fun item => itemId idKey item == some id

section Selected

variable [Externals]

/-- A schema as the projection shows it: its fields without the lists, whether the document has
contributed to it, and the token for a merge. -/
def projectedSchema (contributionDocumentId : String) (schema : Value) : Value :=
  let sources := ((schema.get "sourceDocumentIds").bind Value.asArray).getD []
  .obj [("canonicalKey", schema.index "canonicalKey"),
    ("contributionPresent",
      .bool (sources.any fun value => value.asStr == some contributionDocumentId)),
    ("corpusId", schema.index "corpusId"),
    ("firstSourceDocumentId", sources.head?.getD .null),
    ("frequency", schema.index "frequency"), ("headType", schema.index "headType"),
    ("mergeToken", .str (schemaMergeToken schema)), ("relation", schema.index "relation"),
    ("schemaId", schema.index "schemaId"),
    ("stabilizationThreshold", schema.index "stabilizationThreshold"),
    ("state", schema.index "state"), ("tailType", schema.index "tailType")]

variable [Bounded.LowercaseTables]

/-- The facts about the entities, in the order of their ids. -/
def factsAbout (entities : List String) (activeOnly : Bool) (facts : List Value) : List Value :=
  sortBy (fun fact => (itemId "factId" fact).getD "") (facts.filter fun fact =>
    (!activeOnly || isActive fact) && hits (entities.filterMap foldMemoryReadEntity) fact)

/-- The stored objects that a read is answered with. -/
def BoundedRead.selected (items : List Value) : BoundedRead → List Value
  | .schemasByIds _ ids none => itemsOfIds "schemaId" ids items
  | .schemasByIds _ ids (some documentId) =>
    (itemsOfIds "schemaId" ids items).map (projectedSchema documentId)
  | .passagesByIds _ ids => itemsOfIds "passageId" ids items
  | .factsByIds _ ids => itemsOfIds "factId" ids items
  | .activeFacts _ limit => (items.filter isActive).take limit
  | .factsByEntities _ entities activeOnly limit =>
    (factsAbout entities activeOnly items).take limit

end Selected

/-- The section a read is about, and the key of its items' ids. -/
def BoundedRead.source : BoundedRead → String × String × String
  | .schemasByIds corpusId _ _ => (corpusId, "schemas", "schemaId")
  | .passagesByIds corpusId _ => (corpusId, "passages", "passageId")
  | .factsByIds corpusId _ | .activeFacts corpusId _ | .factsByEntities corpusId _ _ _ =>
    (corpusId, "facts", "factId")

/-- What a read takes a stored item to be. -/
def BoundedRead.Formed [Externals] (item : Value) : BoundedRead → Prop
  | .schemasByIds corpusId _ none =>
    validateStoredSectionItem item corpusId "schemas" "schemaId" = .ok ()
  | .schemasByIds corpusId _ (some _) =>
    validateStoredSectionItem item corpusId "schemas" "schemaId" = .ok ()
      ∧ ∃ object, validateSchemaValue item corpusId "stored schema" .stored = .ok object
  | .passagesByIds corpusId _ =>
    validateStoredSectionItem item corpusId "passages" "passageId" = .ok ()
  | .factsByIds corpusId _ => validateStoredSectionItem item corpusId "facts" "factId" = .ok ()
  | .activeFacts corpusId _ | .factsByEntities corpusId _ _ _ =>
    validateStoredFactItem item corpusId = .ok ()

/-- The stored section of a read: well-formed items, no two with the same id. -/
structure BoundedRead.Stored [Externals] (read : BoundedRead) (snapshots : Map Value)
    (items : List Value) : Prop where
  stored : storedItems snapshots read.source.1 read.source.2.1 = .ok items
  formed : ∀ item ∈ items, read.Formed item
  unique : (items.map (itemId read.source.2.2)).Nodup

/-! ### Answers are what is selected -/

section Exact

variable [Externals] {snapshots : Map Value} {requestId : UInt64} {items : List Value}

omit [Externals] in
theorem itemId_of_valid {corpusId sect idKey : String} {item : Value}
    (h : validateStoredSectionItem item corpusId sect idKey = .ok ()) :
    ∃ id, itemId idKey item = some id ∧ isBounded id maxIndexingDomainIdBytes = true :=
  (validateStoredSectionItem_ok h).id

omit [Externals] in
/-- What was found by a name that is the items' id is what has the id. -/
theorem answered_eq {idKey : String} {ids : List String} {answer : Value → Value}
    (h : ∀ item ∈ items, ∃ id, itemId idKey item = some id) :
    answered (fun item => (itemId idKey item).getD "") answer ids items
      = (itemsOfIds idKey ids items).map answer := by
  rw [answered, itemsOfIds, List.map_filterMap]
  refine List.filterMap_congr ?_
  intro id _
  refine congrArg (Option.map answer) (List.find?_congr ?_)
  intro item hitem
  obtain ⟨id', hid'⟩ := h item hitem
  rw [hid', Option.getD_some]
  simp

omit [Externals] in
theorem unique_names {idKey : String} (h : ∀ item ∈ items, ∃ id, itemId idKey item = some id)
    (hunique : (items.map (itemId idKey)).Nodup) :
    (items.map fun item => (itemId idKey item).getD "").Nodup := by
  refine List.Nodup.of_map some ?_
  rw [List.map_map]
  refine (List.map_congr_left ?_).subst hunique
  intro item hitem
  obtain ⟨id, hid⟩ := h item hitem
  simp [hid]

omit [Externals] in
theorem storedItemId_ok {idKey id : String} {item : Value} (h : itemId idKey item = some id) :
    storedItemId idKey item = .ok ((itemId idKey item).getD "") := by
  rw [h]
  exact expect_of_some h _

omit [Externals] in
/-- The second look at the id of a schema finds what the first has found. -/
theorem storedSchemaId_ok {corpusId : String} {item : Value}
    (h : validateStoredSectionItem item corpusId "schemas" "schemaId" = .ok ()) :
    storedSchemaId item = .ok ((itemId "schemaId" item).getD "") := by
  obtain ⟨⟨ms, rfl⟩, id, hid, hbounded⟩ := validateStoredSectionItem_ok h
  have hlookup : (lookupKey "schemaId" ms).bind Value.asStr = some id := hid
  have hne : (!id.isEmpty) = true := by
    simp only [isBounded, Bool.and_eq_true] at hbounded
    exact hbounded.1
  rw [itemId, hid, Option.getD_some, storedSchemaId]
  simp only [bind, Except.bind, Value.asObject, hlookup, if_pos hne]
  rfl

/-- The fields that the projection of a schema shows as they are. -/
def projectedFields : List String :=
  ["canonicalKey", "corpusId", "frequency", "headType", "relation", "schemaId",
    "stabilizationThreshold", "state", "tailType"]

omit [Externals] in
theorem exists_of_bind {α : Type} {object : Object} {k : String} {f : Value → Option α} {a : α}
    (h : (lookupKey k object).bind f = some a) : ∃ v, lookupKey k object = some v := by
  obtain ⟨v, hv, -⟩ := Option.bind_eq_some_iff.mp h
  exact ⟨v, hv⟩

theorem validateSchemaValue_fields {value : Value} {corpusId label : String}
    {context : SchemaValidationContext} {schema : Object}
    (h : validateSchemaValue value corpusId label context = .ok schema) :
    ∀ field ∈ projectedFields, ∃ v, lookupKey field schema = some v := by
  obtain ⟨rfl, hshape⟩ := validateSchemaValue_ok h
  rw [validateSchemaValue] at h
  dsimp only [Value.asObject] at h
  obtain ⟨_, hobject, h⟩ := bind_ok.mp h
  cases hobject
  obtain ⟨embedded, hcorpus, h⟩ := bind_ok.mp h
  split at h
  · cases h
  obtain ⟨_, htext, h⟩ := bind_ok.mp h
  obtain ⟨_, -, h⟩ := bind_ok.mp h
  obtain ⟨_, hnum, h⟩ := bind_ok.mp h
  split at h
  swap
  · cases h
  next state hstate =>
  split at h
  · cases h
  split at h
  swap
  · cases h
  obtain ⟨_, -, h⟩ := bind_ok.mp h
  obtain ⟨_, -, h⟩ := bind_ok.mp h
  obtain ⟨_, -, h⟩ := bind_ok.mp h
  cases h
  obtain ⟨threshold, hthreshold, -⟩ :=
    bind_ok.mp (checkAll_ok.mp hnum "stabilizationThreshold" (by simp))
  obtain ⟨frequency, hfrequency, -⟩ := hshape.frequency
  have hnames : ∀ field ∈ ["schemaId", "headType", "relation", "tailType", "canonicalKey"],
      ∃ v, lookupKey field schema = some v := by
    intro field hfield
    obtain ⟨s, hs⟩ := hshape.text field hfield
    exact exists_of_bind hs
  intro field hfield
  simp only [projectedFields, List.mem_cons, List.not_mem_nil, or_false] at hfield
  rcases hfield with rfl | rfl | rfl | rfl | rfl | rfl | rfl | rfl | rfl
  · exact hnames _ (by simp)
  · exact exists_of_bind (boundedObjectString_ok hcorpus).1
  · exact exists_of_bind hfrequency
  · exact hnames _ (by simp)
  · exact hnames _ (by simp)
  · exact hnames _ (by simp)
  · exact exists_of_bind (safeU64Field_ok hthreshold).1
  · exact exists_of_bind hstate
  · exact hnames _ (by simp)

/-- The projection of a valid schema does not fail. -/
theorem schemaProjection_ok {schema : Value} {corpusId documentId : String} {object : Object}
    (h : validateSchemaValue schema corpusId "stored schema" .stored = .ok object) :
    schemaProjection schema corpusId documentId = .ok (projectedSchema documentId schema) := by
  obtain ⟨rfl, hshape⟩ := validateSchemaValue_ok h
  obtain ⟨sources, hsources⟩ := hshape.ids "sourceDocumentIds" (by simp)
  have hget : ((Value.obj object).get "sourceDocumentIds").bind Value.asArray = some sources :=
    hsources
  have hindex : ∀ field ∈ projectedFields,
      indexKey object field = .ok ((Value.obj object).index field) := by
    intro field hfield
    obtain ⟨v, hv⟩ := validateSchemaValue_fields h field hfield
    rw [indexKey_of_some hv, Value.index, Value.get, hv, Option.getD_some]
  rw [schemaProjection, h, projectedSchema, hget]
  simp only [bind, Except.bind, expect_of_some hsources, hindex "canonicalKey" (by decide),
    hindex "corpusId" (by decide), hindex "frequency" (by decide), hindex "headType" (by decide),
    hindex "relation" (by decide), hindex "schemaId" (by decide),
    hindex "stabilizationThreshold" (by decide), hindex "state" (by decide),
    hindex "tailType" (by decide), Option.getD_some]
  rfl

/-- An answer of these items is given, and exactly when it keeps to the limit. -/
def GivenIf (outcome : Result Value) (requestId : UInt64) (selected : List Value) : Prop :=
  ∀ v, outcome = .ok v ↔
    (responseText requestId (.arr selected)).length ≤ maxIndexingResponseBytes ∧ v = .arr selected

theorem readSectionItemsByIds_given {corpusId sect idKey : String} {ids : List String}
    (hitems : storedItems snapshots corpusId sect = .ok items) (hids : ids.Nodup)
    (hformed : ∀ item ∈ items, validateStoredSectionItem item corpusId sect idKey = .ok ())
    (hunique : (items.map (itemId idKey)).Nodup) :
    GivenIf (readSectionItemsByIds snapshots requestId corpusId sect idKey ids) requestId
      (itemsOfIds idKey ids items) := by
  intro v
  have hnames : ∀ item ∈ items, ∃ id, itemId idKey item = some id := by
    intro item hitem
    obtain ⟨id, hid, -⟩ := itemId_of_valid (hformed item hitem)
    exact ⟨id, hid⟩
  have hsame := @answered_eq items idKey ids id hnames
  rw [List.map_id] at hsame
  rw [← hsame]
  refine answerByIds_ok_iff hitems hids ?_ (unique_names hnames hunique)
  intro item hitem
  obtain ⟨id, hid⟩ := hnames item hitem
  exact ⟨hformed item hitem, storedItemId_ok hid, fun _ => rfl⟩

theorem memoryGetSchemasByIds_given {corpusId : String} {ids : List String}
    {contributionDocumentId : Option String} {answer : Value → Value}
    (hitems : storedItems snapshots corpusId "schemas" = .ok items) (hids : ids.Nodup)
    (hformed : ∀ item ∈ items,
      validateStoredSectionItem item corpusId "schemas" "schemaId" = .ok ())
    (hanswer : ∀ item ∈ items,
      respondSchema corpusId contributionDocumentId item = .ok (answer item))
    (hunique : (items.map (itemId "schemaId")).Nodup) :
    GivenIf (memoryGetSchemasByIds snapshots requestId corpusId ids contributionDocumentId)
      requestId ((itemsOfIds "schemaId" ids items).map answer) := by
  intro v
  have hnames : ∀ item ∈ items, ∃ id, itemId "schemaId" item = some id := by
    intro item hitem
    obtain ⟨id, hid, -⟩ := itemId_of_valid (hformed item hitem)
    exact ⟨id, hid⟩
  rw [← answered_eq hnames]
  refine answerByIds_ok_iff hitems hids ?_ (unique_names hnames hunique)
  intro item hitem
  exact ⟨hformed item hitem, storedSchemaId_ok (hformed item hitem), fun _ => hanswer item hitem⟩

theorem memoryGetActiveFacts_given {corpusId : String} {count : ℕ}
    (hitems : storedItems snapshots corpusId "facts" = .ok items)
    (hformed : ∀ item ∈ items, validateStoredFactItem item corpusId = .ok ()) :
    GivenIf (memoryGetActiveFacts snapshots requestId corpusId count) requestId
      ((items.filter isActive).take count) := by
  intro v
  obtain ⟨limit, hlimit, hle, htwo, hiff⟩ := indexingResultArrayLimit_ok requestId
  rw [memoryGetActiveFacts]
  by_cases hcount : count = 0
  · rw [if_pos hcount, hcount, List.take_zero]
    constructor
    · intro h
      cases h
      exact ⟨(hiff []).mp htwo, rfl⟩
    · rintro ⟨-, rfl⟩
      rfl
  · have hscan := fun out => @scanActive_ok_iff _ limit hle corpusId count out items [] hformed
      (Nat.pos_of_ne_zero hcount) htwo
    rw [if_neg hcount, ← hiff]
    constructor
    · intro h
      obtain ⟨limit', hlimit', h⟩ := bind_ok.mp h
      obtain rfl := Except.ok.inj (hlimit.symm.trans hlimit')
      obtain ⟨items', hitems', h⟩ := bind_ok.mp h
      obtain rfl := Except.ok.inj (hitems.symm.trans hitems')
      obtain ⟨active, hactive, h⟩ := bind_ok.mp h
      obtain ⟨hfits, rfl⟩ := (hscan active).mp hactive
      cases h
      exact ⟨hfits, rfl⟩
    · rintro ⟨hfits, rfl⟩
      exact bind_ok.mpr ⟨limit, hlimit, bind_ok.mpr ⟨items, hitems,
        bind_ok.mpr ⟨_, (hscan _).mpr ⟨hfits, rfl⟩, rfl⟩⟩⟩

theorem memoryGetActiveFacts_bounded {corpusId : String} {count : ℕ} {v : Value}
    (h : memoryGetActiveFacts snapshots requestId corpusId count = .ok v) :
    (responseText requestId v).length ≤ maxIndexingResponseBytes := by
  obtain ⟨limit, hlimit, hle, htwo, hiff⟩ := indexingResultArrayLimit_ok requestId
  rw [memoryGetActiveFacts] at h
  by_cases hcount : count = 0
  · rw [if_pos hcount] at h
    cases h
    exact (hiff []).mp htwo
  · rw [if_neg hcount] at h
    obtain ⟨limit', hlimit', h⟩ := bind_ok.mp h
    obtain rfl := Except.ok.inj (hlimit.symm.trans hlimit')
    obtain ⟨items, -, h⟩ := bind_ok.mp h
    obtain ⟨active, hactive, h⟩ := bind_ok.mp h
    cases h
    exact (hiff _).mp (@scanActive_bounded _ limit hle _ _ _ items [] htwo hactive)

section Entities

variable [Bounded.LowercaseTables]

omit [Externals] in
theorem foldAll_ok (hshort : ShortMappings) {entities : List String}
    (h : ∀ entity ∈ entities, isBounded entity maxIndexingDomainIdBytes = true) :
    (entities.mapM fun entity => match foldMemoryReadEntity entity with
      | some folded => (.ok folded : Result String)
      | none => clientError "entities must fold within the bounded entity size")
      = .ok (entities.filterMap foldMemoryReadEntity) := by
  induction entities with
  | nil => rfl
  | cons entity entities ih =>
    obtain ⟨folded, hfolded⟩ := foldMemoryReadEntity_some hshort (h entity (by simp))
    rw [List.mapM_cons, ih fun e he => h e (List.mem_cons_of_mem entity he),
      List.filterMap_cons_some hfolded, hfolded]
    rfl

omit [Externals] in
theorem hits_nil (fact : Value) : hits [] fact = false := by
  have h : ∀ x : Option String, x.any ([] : List String).contains = false := by
    rintro (_ | s) <;> rfl
  simp only [hits, List.any_cons, List.any_nil, h, Bool.or_false]

omit [Externals] [Bounded.LowercaseTables] in
theorem sortBy_map {f : Value → String} (facts : List Value) :
    (sortBy Prod.fst (facts.map fun fact => (f fact, fact))).map Prod.snd = sortBy f facts := by
  have h := List.map_mergeSort (f := fun fact => (f fact, fact)) (l := facts)
    (r := fun a b => decide (f a ≤ f b)) (s := fun a b => decide (a.1 ≤ b.1))
    fun _ _ _ _ => rfl
  rw [sortBy, sortBy, ← h, List.map_map]
  exact List.map_id _

theorem memoryFindFactsByEntities_given (hshort : ShortMappings) {corpusId : String}
    {entities : List String} {activeOnly : Bool} {count : ℕ}
    (hentities : ∀ entity ∈ entities, isBounded entity maxIndexingDomainIdBytes = true)
    (hitems : storedItems snapshots corpusId "facts" = .ok items)
    (hformed : ∀ item ∈ items, validateStoredFactItem item corpusId = .ok ()) :
    GivenIf (memoryFindFactsByEntities snapshots requestId corpusId entities activeOnly count)
      requestId ((factsAbout entities activeOnly items).take count) := by
  intro v
  obtain ⟨limit, hlimit, hle, htwo, hiff⟩ := indexingResultArrayLimit_ok requestId
  rw [memoryFindFactsByEntities]
  by_cases hnone : count = 0 ∨ entities.isEmpty = true
  · have hempty : (factsAbout entities activeOnly items).take count = [] := by
      rcases hnone with rfl | hnone
      · exact List.take_zero
      · rw [List.isEmpty_iff.mp hnone, factsAbout]
        simp [hits_nil, sortBy]
    rw [if_pos hnone, hempty]
    constructor
    · intro h
      cases h
      exact ⟨(hiff []).mp htwo, rfl⟩
    · rintro ⟨-, rfl⟩
      rfl
  · have hmatched := @matchFacts_ok _ corpusId activeOnly (entities.filterMap foldMemoryReadEntity)
      (fun fact => (itemId "factId" fact).getD "") items fun fact hfact => by
        obtain ⟨_, hvalid, -⟩ := bind_ok.mp (hformed fact hfact)
        obtain ⟨id, hid, -⟩ := itemId_of_valid hvalid
        refine ⟨hformed fact hfact, ?_⟩
        rw [hid]
        exact hid
    have hadd := fun out => @addFacts_ok_iff _ limit hle out ((sortBy Prod.fst
      ((items.filter fun fact => (!activeOnly || isActive fact)
        && hits (entities.filterMap foldMemoryReadEntity) fact).map fun fact =>
          ((itemId "factId" fact).getD "", fact))).take count) [] htwo
    rw [List.map_take, sortBy_map, ← factsAbout] at hadd
    rw [if_neg hnone, ← hiff]
    constructor
    · intro h
      obtain ⟨folded, hfolded, h⟩ := bind_ok.mp h
      obtain rfl := Except.ok.inj ((foldAll_ok hshort hentities).symm.trans hfolded)
      obtain ⟨items', hitems', h⟩ := bind_ok.mp h
      obtain rfl := Except.ok.inj (hitems.symm.trans hitems')
      obtain ⟨matched, hmatched', h⟩ := bind_ok.mp h
      obtain rfl := Except.ok.inj (hmatched.symm.trans hmatched')
      obtain ⟨limit', hlimit', h⟩ := bind_ok.mp h
      obtain rfl := Except.ok.inj (hlimit.symm.trans hlimit')
      obtain ⟨result, hresult, h⟩ := bind_ok.mp h
      obtain ⟨hfits, rfl⟩ := (hadd result).mp hresult
      cases h
      exact ⟨hfits, rfl⟩
    · rintro ⟨hfits, rfl⟩
      exact bind_ok.mpr ⟨_, foldAll_ok hshort hentities, bind_ok.mpr ⟨items, hitems,
        bind_ok.mpr ⟨_, hmatched, bind_ok.mpr ⟨limit, hlimit,
          bind_ok.mpr ⟨_, (hadd _).mpr ⟨hfits, rfl⟩, rfl⟩⟩⟩⟩⟩

theorem memoryFindFactsByEntities_bounded {corpusId : String} {entities : List String}
    {activeOnly : Bool} {count : ℕ} {v : Value}
    (h : memoryFindFactsByEntities snapshots requestId corpusId entities activeOnly count = .ok v) :
    (responseText requestId v).length ≤ maxIndexingResponseBytes := by
  obtain ⟨limit, hlimit, hle, htwo, hiff⟩ := indexingResultArrayLimit_ok requestId
  rw [memoryFindFactsByEntities] at h
  by_cases hnone : count = 0 ∨ entities.isEmpty = true
  · rw [if_pos hnone] at h
    cases h
    exact (hiff []).mp htwo
  · rw [if_neg hnone] at h
    obtain ⟨folded, -, h⟩ := bind_ok.mp h
    obtain ⟨items, -, h⟩ := bind_ok.mp h
    obtain ⟨matched, -, h⟩ := bind_ok.mp h
    obtain ⟨limit', hlimit', h⟩ := bind_ok.mp h
    obtain rfl := Except.ok.inj (hlimit.symm.trans hlimit')
    obtain ⟨result, hresult, h⟩ := bind_ok.mp h
    cases h
    obtain ⟨hfits, rfl⟩ := (@addFacts_ok_iff _ limit hle result _ [] htwo).mp hresult
    exact (hiff _).mp hfits

/-! ### Every bounded read -/

/-- An answer keeps to the limit, whatever the request and the snapshot. -/
theorem BoundedRead.answer_bounded {read : BoundedRead} {v : Value}
    (h : read.answer snapshots requestId = .ok v) :
    (responseText requestId v).length ≤ maxIndexingResponseBytes := by
  cases read with
  | schemasByIds corpusId ids contributionDocumentId => exact answerByIds_bounded h
  | activeFacts corpusId count => exact memoryGetActiveFacts_bounded h
  | passagesByIds corpusId ids => exact answerByIds_bounded h
  | factsByIds corpusId ids => exact answerByIds_bounded h
  | factsByEntities corpusId entities activeOnly count =>
    exact memoryFindFactsByEntities_bounded h

/-- Over a well-formed section a read is answered with what it selects. -/
theorem BoundedRead.answer_given (hshort : ShortMappings) {read : BoundedRead} {params : Value}
    (hrequested : read.Requested params) (hstored : read.Stored snapshots items) :
    GivenIf (read.answer snapshots requestId) requestId (read.selected items) := by
  obtain ⟨hitems, hformed, hunique⟩ := hstored
  cases read with
  | schemasByIds corpusId ids contributionDocumentId =>
    cases contributionDocumentId with
    | none =>
      have hgiven := @memoryGetSchemasByIds_given _ _ requestId _ _ _ none id hitems
        hrequested.nodup hformed (fun _ _ => rfl) hunique
      rwa [List.map_id] at hgiven
    | some documentId =>
      refine memoryGetSchemasByIds_given hitems hrequested.nodup (fun item h => (hformed item h).1)
        ?_ hunique
      intro item hitem
      obtain ⟨-, object, hobject⟩ := hformed item hitem
      exact schemaProjection_ok hobject
  | activeFacts corpusId count => exact memoryGetActiveFacts_given hitems hformed
  | passagesByIds corpusId ids =>
    exact readSectionItemsByIds_given hitems hrequested.nodup hformed hunique
  | factsByIds corpusId ids =>
    exact readSectionItemsByIds_given hitems hrequested.nodup hformed hunique
  | factsByEntities corpusId entities activeOnly count =>
    exact memoryFindFactsByEntities_given hshort hrequested.bounded hitems hformed

/-- Reads of bounded size count exactly. What is answered always passes the check of its size; a
read of well-formed items is answered exactly when the answer passes it, with the items it selects,
and the ids it selects by are those of the request, each once. -/
theorem bounded_reads_exact (hshort : ShortMappings) :
    (∀ (s : Server) (req : RpcRequest) (v : Value), boundedRead s req = some (.ok v) →
      validateIndexingResponseSize req.id v = .ok ())
    ∧ ∀ (s : Server) (req : RpcRequest) (read : BoundedRead) (items : List Value),
      admitRead req = some (.ok read) → read.Stored s.state.snapshots items →
      (∀ v, boundedRead s req = some (.ok v) ↔
        (responseText req.id (.arr (read.selected items))).length ≤ maxIndexingResponseBytes
          ∧ v = .arr (read.selected items))
      ∧ read.Requested req.params := by
  refine ⟨?_, ?_⟩
  · intro s req v h
    obtain ⟨admitted, -, h⟩ := Option.map_eq_some_iff.mp h
    obtain ⟨read, -, h⟩ := bind_ok.mp h
    exact validateIndexingResponseSize_ok.mpr (BoundedRead.answer_bounded h)
  · intro s req read items hadmit hstored
    have hrequested := admitRead_requested hadmit
    refine ⟨?_, hrequested⟩
    intro v
    rw [boundedRead, hadmit, Option.map_some, Option.some.injEq]
    exact BoundedRead.answer_given hshort hrequested hstored v

end Entities

end Exact

section Witness

attribute [local instance] Concrete.externals

/-- The lower case of the letters from A to Z. -/
abbrev letterTables : Bounded.LowercaseTables where
  mapping c := if c.isUpper then some [c.toLower] else none
  caseIgnorable _ := false
  cased c := c.isAlpha

attribute [local instance] letterTables

def storedPassage (id : String) : Value := .obj [("passageId", .str id)]

/-- A store of two passages. -/
def passageStore : Server where
  state := { State.default with
    snapshots := (∅ : Map Value).insert "c" (.obj [("corpusId", .str "c"),
      ("passages", .arr [storedPassage "p", storedPassage "q"])]) }
  vectorValues := ∅
  dbStem := "a"
  vectorBlobLineage := []
  transaction := .idle
  walBytes := 0
  walRecordCount := 0
  walHashed := []
  walFile := none
  walIdentity := none
  activeMutationRequestIds := []
  caches := none
  fatal := false

/-- Both passages, the second one first and twice, and one that is not there. -/
def passagesRequest : RpcRequest :=
  ⟨1, "memory_get_passages_by_ids", .obj [("corpusId", .str "c"),
    ("passageIds", .arr [.str "q", .str "r", .str "p", .str "q"])]⟩

theorem bounded_reads_exact_passages : boundedRead passageStore passagesRequest
    = some (.ok (.arr [storedPassage "q", storedPassage "p"])) := by
  have hshort : ShortMappings := by
    intro c cs hcs
    have hcs' : (if c.isUpper then some [c.toLower] else none) = some cs := hcs
    split at hcs'
    · cases hcs'
      simp
    · cases hcs'
  have hstored : (BoundedRead.passagesByIds "c" ["q", "r", "p"]).Stored
      passageStore.state.snapshots [storedPassage "p", storedPassage "q"] := by
    refine ⟨?_, ?_, by decide⟩
    · simp [passageStore, BoundedRead.source, storedItems, storedSnapshotSection, Value.asObject]
      rfl
    · intro item hitem
      simp only [List.mem_cons, List.not_mem_nil, or_false] at hitem
      rcases hitem with rfl | rfl <;> rfl
  have hadmit : admitRead passagesRequest
      = some (.ok (.passagesByIds "c" ["q", "r", "p"])) := by
    decide +kernel
  obtain ⟨hexact, -⟩ := (bounded_reads_exact hshort).2 passageStore passagesRequest
    (.passagesByIds "c" ["q", "r", "p"]) [storedPassage "p", storedPassage "q"] hadmit hstored
  exact (hexact _).mpr ⟨by decide +kernel, rfl⟩

end Witness

end AiraGraphdb.Native
