import AiraGraphdb.Native.Admission
import AiraGraphdb.Native.Handlers

/-! # What is accepted can be applied

A request that the checks accept is applied without an error and without reaching anything the
handlers take to be there. The merge intents are the long way round: they are checked against the
stored schemas, and applied one after another to schemas that earlier ones have changed. -/

namespace AiraGraphdb.Native

open Schemes Schemes.Json

section Applicable

variable [Externals]

/-! ### Chains -/

omit [Externals] in
theorem bind_total {α β : Type} {x : Result α} {f : α → Result β} (hx : ∃ a, x = .ok a)
    (hf : ∀ a, x = .ok a → ∃ b, f a = .ok b) : ∃ b, (x >>= f) = .ok b := by
  obtain ⟨a, ha⟩ := hx
  obtain ⟨b, hb⟩ := hf a ha
  exact ⟨b, bind_ok.mpr ⟨a, ha, hb⟩⟩

omit [Externals] in
theorem expect_of_some {α : Type} {x : Option α} {a : α} (h : x = some a) (message : String) :
    expect x message = .ok a := by
  rw [h]
  rfl

omit [Externals] in
theorem indexKey_of_some {object : Object} {k : String} {v : Value}
    (h : lookupKey k object = some v) : indexKey object k = .ok v := expect_of_some h _

/-! ### Merging into one schema -/

omit [Externals] in
theorem sameAlias_ok {addition : Object} (stored : Value)
    (h : ∀ field ∈ ["label", "language", "source"], ∃ v, lookupKey field addition = some v) :
    ∃ b, sameAlias addition stored = .ok b := by
  obtain ⟨label, hl⟩ := h "label" (by simp)
  obtain ⟨language, hg⟩ := h "language" (by simp)
  obtain ⟨source, hs⟩ := h "source" (by simp)
  rw [sameAlias, indexKey_of_some hl, indexKey_of_some hg, indexKey_of_some hs]
  simp only [bind, Except.bind, pure, Except.pure]
  split
  · exact ⟨_, rfl⟩
  · split
    · exact ⟨_, rfl⟩
    · exact ⟨_, rfl⟩

omit [Externals] in
theorem anyM_ok {α : Type} {f : α → Result Bool} : ∀ {xs : List α},
    (∀ x ∈ xs, ∃ b, f x = .ok b) → ∃ b, xs.anyM f = .ok b
  | [], _ => ⟨false, rfl⟩
  | x :: xs, h => by
    obtain ⟨b, hb⟩ := h x (by simp)
    obtain ⟨c, hc⟩ := anyM_ok fun y hy => h y (List.mem_cons_of_mem x hy)
    rw [List.anyM, hb]
    cases b with
    | true => exact ⟨true, rfl⟩
    | false => exact ⟨c, hc⟩

omit [Externals] in
theorem addAlias_ok (aliases : List Value) {addition : Value} (h : AliasShape addition) :
    ∃ aliases', addAlias aliases addition = .ok aliases' := by
  obtain ⟨ms, rfl, hfields⟩ := h.object
  have hsame : ∀ stored ∈ aliases, ∃ b, sameAlias ms stored = .ok b :=
    fun stored _ => sameAlias_ok stored hfields
  obtain ⟨b, hb⟩ := anyM_ok hsame
  rw [addAlias, expect_of_some (show (Value.obj ms).asObject = some ms from rfl)]
  simp only [bind, Except.bind, hb]
  cases b with
  | true => exact ⟨_, rfl⟩
  | false => exact ⟨_, rfl⟩

omit [Externals] in
theorem foldlM_ok {α β : Type} {f : β → α → Result β} : ∀ {xs : List α} (b : β),
    (∀ x ∈ xs, ∀ b, ∃ c, f b x = .ok c) → ∃ c, xs.foldlM f b = .ok c
  | [], b, _ => ⟨b, rfl⟩
  | x :: xs, b, h => by
    obtain ⟨c, hc⟩ := h x (by simp) b
    rw [List.foldlM_cons, hc]
    exact foldlM_ok c fun y hy => h y (by simp [hy])

omit [Externals] in
theorem mapM_exists {α β : Type} {f : α → Result β} : ∀ {xs : List α},
    (∀ x ∈ xs, ∃ y, f x = .ok y) → ∃ ys, xs.mapM f = .ok ys
  | [], _ => ⟨[], rfl⟩
  | x :: xs, h => by
    obtain ⟨y, hy⟩ := h x (by simp)
    obtain ⟨ys, hys⟩ := mapM_exists fun z hz => h z (List.mem_cons_of_mem x hz)
    rw [List.mapM_cons, hy]
    simp only [bind, Except.bind, hys]
    exact ⟨_, rfl⟩

/-- An intent and the stored schema that it can be merged into. -/
structure Fits (current object : Object) : Prop where
  schema : SchemaShape current
  intent : MergeIntent object
  frequency : ∀ old delta, (lookupKey "frequency" current).bind Value.asU64 = some old →
    (lookupKey "frequencyDelta" object).bind Value.asU64 = some delta →
    old.toNat + delta.toNat < 2 ^ 64

omit [Externals] in
/-- A merge succeeds and leaves the id. -/
theorem mergeSchema_ok {current intent : Object} (h : Fits current intent) :
    ∃ merged : Object, mergeSchema (.obj current) intent = .ok (.obj merged)
      ∧ lookupKey "schemaId" merged = lookupKey "schemaId" current := by
  obtain ⟨old, hold, -⟩ := h.schema.frequency
  obtain ⟨delta, hdelta⟩ := h.intent.frequencyDelta
  obtain ⟨state, hstate⟩ := lookupKey_of_bind h.intent.desiredState.choose_spec
  obtain ⟨threshold, hthreshold⟩ := lookupKey_of_bind h.intent.stabilizationThreshold.choose_spec
  obtain ⟨updatedAt, hupdated⟩ := lookupKey_of_bind h.intent.updatedAt.choose_spec
  obtain ⟨contribution, hcontribution⟩ := lookupKey_of_bind h.intent.contribution.choose_spec
  obtain ⟨aliases, haliases⟩ := h.schema.aliases
  obtain ⟨additions, hadditions, hshape⟩ := h.intent.aliasAdditions
  obtain ⟨added, hadded⟩ := foldlM_ok (f := addAlias) aliases fun item hitem b =>
    addAlias_ok b (hshape item hitem)
  obtain ⟨factIds, hids⟩ := h.schema.ids "factIds" (by simp)
  obtain ⟨newIds, hnew⟩ := h.intent.factIdAdditions
  obtain ⟨sources, hsources⟩ := h.schema.ids "sourceDocumentIds" (by simp)
  have hne : ∀ {k k' : String} {v : Value} {object : Object}, k' ≠ k →
      lookupKey k' (insertKey k v object) = lookupKey k' object :=
    fun hk => lookupKey_insertKey_ne hk _ _
  have hfrequency := h.frequency old delta hold hdelta
  rw [mergeSchema, expect_of_some (show (Value.obj current).asObject = some current from rfl)]
  simp only [bind, Except.bind, expect_of_some hold, expect_of_some hdelta, if_pos hfrequency,
    indexKey_of_some hstate, indexKey_of_some hthreshold, indexKey_of_some hupdated]
  rw [expect_of_some rfl]
  dsimp only
  rw [expect_of_some (a := aliases)]
  swap
  · rw [hne (by decide), hne (by decide), hne (by decide), hne (by decide)]
    exact haliases
  dsimp only
  rw [expect_of_some hadditions]
  dsimp only
  rw [hadded]
  dsimp only
  rw [expect_of_some (a := factIds)]
  swap
  · rw [hne (by decide), hne (by decide), hne (by decide), hne (by decide), hne (by decide)]
    exact hids
  dsimp only
  rw [expect_of_some hnew]
  dsimp only
  rw [expect_of_some (a := sources)]
  swap
  · rw [hne (by decide), hne (by decide), hne (by decide), hne (by decide), hne (by decide),
      hne (by decide)]
    exact hsources
  dsimp only
  rw [indexKey_of_some hcontribution]
  refine ⟨_, rfl, ?_⟩
  rw [hne (by decide), hne (by decide), hne (by decide), hne (by decide), hne (by decide),
    hne (by decide), hne (by decide)]

/-! ### Merging into the schemas of a snapshot -/

/-- The first schema of an id. -/
def firstSchema (id : String) (schemas : List Value) : Option Value :=
  schemas.find? fun schema => (schema.index "schemaId").asStr == some id

omit [Externals] in
theorem firstSchema_cons_self {id : String} {schema : Value} (schemas : List Value)
    (h : (schema.index "schemaId").asStr = some id) :
    firstSchema id (schema :: schemas) = some schema := by
  rw [firstSchema, List.find?_cons_of_pos (by simp [h])]

omit [Externals] in
theorem firstSchema_cons_ne {id : String} {schema : Value} (schemas : List Value)
    (h : (schema.index "schemaId").asStr ≠ some id) :
    firstSchema id (schema :: schemas) = firstSchema id schemas := by
  rw [firstSchema, List.find?_cons_of_neg (by simpa using h), firstSchema]

omit [Externals] in
/-- A merge finds its schema, and leaves the others where they are. -/
theorem mergeFirst_ok {id : String} {current intent : Object} (h : Fits current intent) :
    ∀ {schemas : List Value}, firstSchema id schemas = some (.obj current) →
      ∃ schemas', mergeFirst id intent schemas = .ok schemas'
        ∧ ∀ id' ≠ id, firstSchema id' schemas' = firstSchema id' schemas
  | [], hfirst => by cases hfirst
  | schema :: schemas, hfirst => by
    rw [mergeFirst]
    by_cases hid : (schema.index "schemaId").asStr = some id
    · rw [firstSchema_cons_self schemas hid] at hfirst
      cases hfirst
      obtain ⟨merged, hmerged, hkeep⟩ := mergeSchema_ok h
      have hindex : ((Value.obj merged).index "schemaId").asStr
          = ((Value.obj current).index "schemaId").asStr := by
        rw [Value.index, Value.index, Value.get, Value.get, hkeep]
      rw [if_pos hid, hmerged]
      refine ⟨_, rfl, ?_⟩
      intro id' hne
      have hne' : ((Value.obj current).index "schemaId").asStr ≠ some id' := by
        rw [hid]
        intro heq
        exact hne (Option.some.inj heq).symm
      rw [firstSchema_cons_ne schemas hne', firstSchema_cons_ne schemas (hindex ▸ hne')]
    · rw [firstSchema_cons_ne schemas hid] at hfirst
      obtain ⟨schemas', hmerge, hkeep⟩ := mergeFirst_ok h hfirst
      rw [if_neg hid, hmerge]
      refine ⟨_, rfl, ?_⟩
      intro id' hne
      by_cases hid' : (schema.index "schemaId").asStr = some id'
      · rw [firstSchema_cons_self _ hid', firstSchema_cons_self _ hid']
      · rw [firstSchema_cons_ne _ hid', firstSchema_cons_ne _ hid', hkeep id' hne]

/-- An intent about this id can be applied to these schemas. -/
inductive Applies (schemas : List Value) (intent : Value) (id : String) : Prop
  | create (object : Object) (hobject : intent = .obj object)
      (hmode : (lookupKey "mode" object).bind Value.asStr = some "create") (schema : Value)
      (hschema : lookupKey "schema" object = some schema)
      (hid : (schema.index "schemaId").asStr = some id)
  | merge (object current : Object) (hobject : intent = .obj object)
      (hmode : (lookupKey "mode" object).bind Value.asStr = some "merge")
      (hid : (lookupKey "schemaId" object).bind Value.asStr = some id)
      (hfirst : firstSchema id schemas = some (.obj current)) (h : Fits current object)

omit [Externals] in
/-- It can be applied to any schemas that have the same one under its id. -/
theorem Applies.congr {schemas schemas' : List Value} {intent : Value} {id : String}
    (h : Applies schemas intent id) (heq : firstSchema id schemas' = firstSchema id schemas) :
    Applies schemas' intent id := by
  cases h with
  | create object hobject hmode schema hschema hid =>
    exact .create object hobject hmode schema hschema hid
  | merge object current hobject hmode hid hfirst hfits =>
    exact .merge object current hobject hmode hid (heq.trans hfirst) hfits

omit [Externals] in
/-- The step: an intent is applied, and only its own id is touched. -/
theorem Applies.step {schemas : List Value} {intent : Value} {id : String}
    (h : Applies schemas intent id) :
    ∃ schemas', applyIntent schemas intent = .ok schemas'
      ∧ ∀ id' ≠ id, firstSchema id' schemas' = firstSchema id' schemas := by
  cases h with
  | create object hobject hmode schema hschema hid =>
    subst hobject
    obtain ⟨mode, hm, hmode⟩ := Option.bind_eq_some_iff.mp hmode
    rw [applyIntent, expect_of_some (show (Value.obj object).asObject = some object from rfl)]
    simp only [bind, Except.bind, indexKey_of_some hm, hmode, if_true, indexKey_of_some hschema]
    refine ⟨_, rfl, ?_⟩
    intro id' hne
    have hneg : ((schema.index "schemaId").asStr == some id') = false := by
      rw [hid, beq_eq_false_iff_ne]
      intro heq
      exact hne (Option.some.inj heq).symm
    rw [firstSchema, List.find?_append, firstSchema]
    simp [hneg]
  | merge object current hobject hmode hid hfirst hfits =>
    subst hobject
    obtain ⟨mode, hm, hmode⟩ := Option.bind_eq_some_iff.mp hmode
    obtain ⟨schemas', hmerge, hkeep⟩ := mergeFirst_ok hfits hfirst
    rw [applyIntent, expect_of_some (show (Value.obj object).asObject = some object from rfl)]
    simp only [bind, Except.bind, indexKey_of_some hm, hmode, expect_of_some hid]
    rw [if_neg (by decide), hmerge]
    exact ⟨schemas', rfl, hkeep⟩

omit [Externals] in
/-- The run: intents about different ids are applied one after another. -/
theorem applyIntents_ok : ∀ {intents : List Value} {ids : List String} {schemas : List Value},
    List.Forall₂ (Applies schemas) intents ids → ids.Nodup →
      ∃ schemas', intents.foldlM applyIntent schemas = .ok schemas'
  | [], _, schemas, _, _ => ⟨schemas, rfl⟩
  | intent :: intents, id :: ids, schemas, .cons hfirst hrest, hnodup => by
    obtain ⟨hnew, hnodup⟩ := List.nodup_cons.mp hnodup
    obtain ⟨schemas', hstep, hkeep⟩ := hfirst.step
    have hrest' : List.Forall₂ (Applies schemas') intents ids := by
      refine List.forall₂_iff_zip.mpr ⟨hrest.length_eq, ?_⟩
      intro i d hmem
      refine (List.forall₂_iff_zip.mp hrest).2 hmem |>.congr (hkeep d ?_)
      rintro rfl
      exact hnew (List.of_mem_zip hmem).2
    rw [List.foldlM_cons, hstep]
    exact applyIntents_ok hrest' hnodup

/-! ### The intents of a request -/

/-- What an accepted intent is about. -/
inductive Names (intent : Value) (id : String) : Prop
  | create (object : Object) (hobject : intent = .obj object)
      (hmode : (lookupKey "mode" object).bind Value.asStr = some "create") (schema : Value)
      (hschema : lookupKey "schema" object = some schema)
      (hid : (schema.index "schemaId").asStr = some id)
  | merge (object : Object) (hobject : intent = .obj object)
      (hmode : (lookupKey "mode" object).bind Value.asStr = some "merge")
      (hid : (lookupKey "schemaId" object).bind Value.asStr = some id) (h : MergeIntent object)

theorem validateIntentShape_names {intent : Value} {corpusId : String} {shape : IntentShape}
    (h : validateIntentShape corpusId intent = .ok shape) : Names intent shape.schemaId := by
  rw [validateIntentShape] at h
  cases intent with
  | obj object =>
    dsimp only [Value.asObject] at h
    obtain ⟨object', ho, h⟩ := bind_ok.mp h
    cases ho
    split at h
    · cases h
    next mode hmode =>
    split at h
    · next hcreate =>
      subst hcreate
      have hid := validateCreateIntent_ok h
      rcases hschema : lookupKey "schema" object with _ | schema
      · have hindex : (Value.obj object).index "schema" = .null := by
          rw [Value.index, Value.get, hschema]
          rfl
        rw [hindex] at hid
        cases hid
      · have hindex : (Value.obj object).index "schema" = schema := by
          rw [Value.index, Value.get, hschema]
          rfl
        rw [hindex] at hid
        exact .create object rfl hmode schema hschema hid
    · split at h
      · next hmerge =>
        subst hmerge
        obtain ⟨hshape, hid⟩ := validateMergeIntent_ok h
        exact .merge object rfl hmode hid hshape
      · cases h
  | _ => cases h

/-- No two accepted intents are about the same schema. -/
theorem validateIntentShapes_names {corpusId : String} : ∀ {intents : List Value}
    {seen shapes : List IntentShape}, validateIntentShapes corpusId seen intents = .ok shapes →
      (seen.map (·.schemaId)).Nodup → ∃ new, shapes = seen ++ new
        ∧ (shapes.map (·.schemaId)).Nodup
        ∧ List.Forall₂ Names intents (new.map (·.schemaId))
  | [], seen, _, h, hnodup => by
    cases h
    exact ⟨[], by simp, hnodup, .nil⟩
  | intent :: intents, seen, shapes, h, hnodup => by
    rw [validateIntentShapes] at h
    obtain ⟨shape, hshape, h⟩ := bind_ok.mp h
    dsimp only at h
    split at h
    · cases h
    next hfresh =>
    have hnew : shape.schemaId ∉ seen.map (·.schemaId) := by
      intro hmem
      obtain ⟨s, hs, heq⟩ := List.mem_map.mp hmem
      exact hfresh (List.any_eq_true.mpr ⟨s, hs, beq_iff_eq.mpr heq⟩)
    have hnodup' : ((seen ++ [shape]).map (·.schemaId)).Nodup := by
      rw [List.map_append, List.nodup_append]
      refine ⟨hnodup, by simp, ?_⟩
      intro a ha b hb heq
      obtain rfl : b = shape.schemaId := by simpa using hb
      exact hnew (heq ▸ ha)
    obtain ⟨new, rfl, hall, hnames⟩ := validateIntentShapes_names h hnodup'
    refine ⟨shape :: new, by simp, hall, ?_⟩
    exact .cons (validateIntentShape_names hshape) hnames

omit [Externals] in
theorem lookupKey_append {α : Type} (k : String) : ∀ xs ys : List (String × α),
    lookupKey k (xs ++ ys) = (lookupKey k xs).or (lookupKey k ys)
  | [], ys => rfl
  | (k', v) :: xs, ys => by
    rw [List.cons_append, lookupKey, lookupKey]
    split
    · rfl
    · exact lookupKey_append k xs ys

omit [Externals] in
/-- A stored schema that an intent names is the first of its id. -/
theorem storedIntentSchemas_ok {corpusId : String} {ids : List String} {id : String}
    (hid : id ∈ ids) {v : Value} : ∀ {schemas : List Value} {found stored : List (String × Value)},
      storedIntentSchemas corpusId ids found schemas = .ok stored → lookupKey id stored = some v →
        lookupKey id found = some v
          ∨ lookupKey id found = none ∧ firstSchema id schemas = some v
  | [], found, stored, h, hv => by
    cases h
    exact .inl hv
  | schema :: schemas, found, stored, h, hv => by
    rw [storedIntentSchemas] at h
    obtain ⟨_, -, h⟩ := bind_ok.mp h
    obtain ⟨schemaId, hschema, h⟩ := bind_ok.mp h
    have hschema : (schema.index "schemaId").asStr = some schemaId := by
      rw [index_asStr]
      exact expect_some hschema
    have hskip : schemaId ≠ id → firstSchema id (schema :: schemas) = firstSchema id schemas := by
      intro hne
      refine firstSchema_cons_ne schemas ?_
      rw [hschema]
      intro heq
      exact hne (Option.some.inj heq)
    split at h
    · dsimp only at h
      split at h
      · cases h
      have hlookup : lookupKey id (found ++ [(schemaId, schema)])
          = (lookupKey id found).or (if id = schemaId then some schema else none) := by
        rw [lookupKey_append, lookupKey, lookupKey]
      rcases storedIntentSchemas_ok hid h hv with hleft | ⟨hnone, hright⟩
      · rw [hlookup, Option.or_eq_some_iff] at hleft
        rcases hleft with hleft | ⟨hnone, hleft⟩
        · exact .inl hleft
        · split at hleft
          · next heq =>
            cases hleft
            exact .inr ⟨hnone, firstSchema_cons_self schemas (heq ▸ hschema)⟩
          · cases hleft
      · rw [hlookup, Option.or_eq_none_iff] at hnone
        have hne : schemaId ≠ id := by
          rintro rfl
          rw [if_pos rfl] at hnone
          cases hnone.2
        exact .inr ⟨hnone.1, (hskip hne).trans hright⟩
    · next hout =>
      have hne : schemaId ≠ id := by
        rintro rfl
        exact hout (List.contains_iff_mem.mpr hid)
      rcases storedIntentSchemas_ok hid h hv with hleft | ⟨hnone, hright⟩
      · exact .inl hleft
      · exact .inr ⟨hnone, (hskip hne).trans hright⟩

/-- An intent that passes against the stored schemas can be applied to them. -/
theorem validateIntentTarget_applies {corpusId id : String} {intent : Value}
    {stored : List (String × Value)} {schemas : List Value} (hnames : Names intent id)
    (hstored : ∀ v, lookupKey id stored = some v → firstSchema id schemas = some v)
    (h : validateIntentTarget corpusId stored intent = .ok ()) : Applies schemas intent id := by
  cases hnames with
  | create object hobject hmode schema hschema hid =>
    exact .create object hobject hmode schema hschema hid
  | merge object hobject hmode hid hshape =>
    subst hobject
    have hne : intentMode (.obj object) ≠ some "create" := by
      rw [intentMode, Value.get, hmode]
      decide
    rw [validateIntentTarget, if_neg hne] at h
    obtain ⟨schemaId, hschemaId, h⟩ := bind_ok.mp h
    rw [expect_ok, index_asStr, Value.get, hid] at hschemaId
    cases hschemaId
    dsimp only at h
    split at h
    swap
    · cases h
    next schema hschema =>
    obtain ⟨_, hs, h⟩ := bind_ok.mp h
    cases hs
    obtain ⟨current, hcurrent, h⟩ := bind_ok.mp h
    obtain ⟨rfl, hfields⟩ := validateSchemaValue_ok hcurrent
    obtain ⟨expected, -, h⟩ := bind_ok.mp h
    split at h
    · cases h
    obtain ⟨contribution, -, h⟩ := bind_ok.mp h
    obtain ⟨sources, -, h⟩ := bind_ok.mp h
    obtain ⟨delta, hdelta, h⟩ := bind_ok.mp h
    split at h
    · cases h
    split at h
    · cases h
    obtain ⟨frequency, hfrequency, h⟩ := bind_ok.mp h
    split at h
    · cases h
    next hle =>
    refine .merge object current rfl hmode hid (hstored _ hschema) ⟨hfields, hshape, ?_⟩
    intro old delta' hold hdelta'
    rw [expect_ok, index_asU64, Value.get, hdelta'] at hdelta
    rw [expect_ok, hold] at hfrequency
    cases hdelta
    cases hfrequency
    have hmax : jsonSafeIntegerMax < 2 ^ 64 := by decide
    omega

/-- Accepted intents can be applied to the schemas they were checked against. -/
theorem validateSchemaMergeIntents_applies {snapshots : Map Value} {corpusId : String}
    {intents schemas : List Value} (hschemas : storedItems snapshots corpusId "schemas" = .ok schemas)
    (h : validateSchemaMergeIntents snapshots corpusId intents = .ok ()) :
    ∃ schemas', intents.foldlM applyIntent schemas = .ok schemas' := by
  rw [validateSchemaMergeIntents] at h
  dsimp only at h
  split at h
  · cases h
  obtain ⟨shapes, hshapes, h⟩ := bind_ok.mp h
  split at h
  · cases h
  split at h
  · cases h
  obtain ⟨schemas', hs, h⟩ := bind_ok.mp h
  obtain rfl := Except.ok.inj (hschemas.symm.trans hs)
  obtain ⟨stored, hstored, h⟩ := bind_ok.mp h
  obtain ⟨new, hnew, hnodup, hnames⟩ := validateIntentShapes_names hshapes (by simp)
  obtain rfl : shapes = new := hnew
  refine applyIntents_ok (List.forall₂_iff_zip.mpr ⟨hnames.length_eq, ?_⟩) hnodup
  intro intent id hmem
  have hid := (List.of_mem_zip hmem).2
  refine validateIntentTarget_applies ((List.forall₂_iff_zip.mp hnames).2 hmem) ?_
    (checkAll_ok.mp h intent (List.of_mem_zip hmem).1)
  intro v hv
  rcases storedIntentSchemas_ok hid hstored hv with hleft | ⟨-, hright⟩
  · cases hleft
  · exact hright

/-! ### The sections of a snapshot -/

omit [Externals] in
theorem paramItems_of_array {params : Object} {name : String} {r : Option (List Value)}
    (h : optionalArray params name = .ok r) : paramItems (.obj params) name = r.getD [] := by
  rw [optionalArray] at h
  rw [paramItems, Value.get]
  split at h
  · next hnone =>
    cases h
    rw [hnone]
    rfl
  · next value hvalue =>
    split at h
    · next items hitems =>
      cases h
      rw [hvalue, Option.bind_some, hitems]
    · cases h

omit [Externals] in
theorem validateUpsertItems_ids {corpusId sect idKey : String} : ∀ {items : List Value}
    {seen : List String}, validateUpsertItems corpusId sect idKey seen items = .ok () →
      ∀ item ∈ items, ∃ id, (item.get idKey).bind Value.asStr = some id
  | [], _, _ => by simp
  | item :: items, seen, h => by
    rw [validateUpsertItems] at h
    obtain ⟨id, hid, h⟩ := bind_ok.mp h
    dsimp only at h
    split at h
    · cases h
    obtain ⟨_, -, h⟩ := bind_ok.mp h
    intro i hi
    rcases List.mem_cons.mp hi with rfl | hi
    · rw [validateUpsertItem] at hid
      cases i with
      | obj ms =>
        dsimp only [Value.asObject] at hid
        obtain ⟨object, ho, hid⟩ := bind_ok.mp hid
        cases ho
        rcases hkey : (lookupKey idKey ms).bind Value.asStr with _ | found
        · rw [hkey] at hid
          cases hid
        · exact ⟨found, hkey⟩
      | _ => cases hid
    · exact validateUpsertItems_ids h i hi

omit [Externals] in
theorem validateUpsertSection_ids {params : Object} {corpusId sect idKey : String}
    (h : validateUpsertSection params corpusId sect idKey = .ok ()) :
    ∀ item ∈ paramItems (.obj params) sect, ∃ id, (item.get idKey).bind Value.asStr = some id := by
  obtain ⟨r, hr, h⟩ := bind_ok.mp h
  rw [paramItems_of_array hr]
  rcases r with _ | items
  · simp
  · dsimp only at h
    split at h
    · cases h
    · exact validateUpsertItems_ids h

omit [Externals] in
theorem mergeSnapshotSection_total (existing : List Value) {incoming : List Value} {idKey : String}
    (h : ∀ item ∈ incoming, ∃ id, (item.get idKey).bind Value.asStr = some id) :
    ∃ merged, mergeSnapshotSection existing incoming idKey = .ok merged := by
  have hread : ∀ item ∈ incoming, ∃ id, expect ((item.get idKey).bind Value.asStr)
      "validated memory upsert item has an ID" = .ok id := by
    intro item hitem
    obtain ⟨id, hid⟩ := h item hitem
    exact ⟨id, expect_of_some hid _⟩
  obtain ⟨ids, hids⟩ := mapM_exists hread
  rw [mergeSnapshotSection, hids]
  exact ⟨_, rfl⟩

omit [Externals] in
/-- The step: a section is merged into an object, whose other members stay. -/
theorem upsertSection_total {params : Value} {s : String × String} (ms : Object)
    (h : ∀ item ∈ paramItems params s.1, ∃ id, (item.get s.2).bind Value.asStr = some id) :
    ∃ ms', upsertSection params (.obj ms) s = .ok (.obj ms')
      ∧ ∀ k, (s.1 = k → paramItems params k = []) → lookupKey k ms' = lookupKey k ms := by
  have hkeep : ∀ v, (paramItems params s.1).isEmpty ≠ true → ∀ k,
      (s.1 = k → paramItems params k = []) → lookupKey k (insertKey s.1 v ms) = lookupKey k ms := by
    intro v hne k hk
    refine lookupKey_insertKey_ne ?_ v ms
    rintro rfl
    exact hne (List.isEmpty_iff.mpr (hk rfl))
  rw [upsertSection]
  split
  · exact ⟨ms, rfl, fun _ _ => rfl⟩
  · next hne =>
    split
    · next existing _ =>
      obtain ⟨merged, hmerged⟩ := mergeSnapshotSection_total existing h
      rw [hmerged]
      exact ⟨_, rfl, hkeep _ hne⟩
    · exact ⟨_, rfl, hkeep _ hne⟩

omit [Externals] in
/-- The run: all sections are merged, and what is in none of them stays. -/
theorem upsertSections_total {params : Value} : ∀ {sections : List (String × String)} (ms : Object),
    (∀ s ∈ sections, ∀ item ∈ paramItems params s.1,
      ∃ id, (item.get s.2).bind Value.asStr = some id) →
    ∃ ms', sections.foldlM (upsertSection params) (.obj ms) = .ok (.obj ms')
      ∧ ∀ k, paramItems params k = [] → lookupKey k ms' = lookupKey k ms
  | [], ms, _ => ⟨ms, rfl, fun _ _ => rfl⟩
  | s :: sections, ms, h => by
    obtain ⟨ms', hstep, hkeep⟩ := upsertSection_total ms (h s (by simp))
    obtain ⟨ms'', hrun, hkeep'⟩ := upsertSections_total ms'
      fun s' hs' => h s' (List.mem_cons_of_mem s hs')
    rw [List.foldlM_cons, hstep]
    exact ⟨ms'', hrun, fun k hk => (hkeep' k hk).trans (hkeep k fun _ => hk)⟩

omit [Externals] in
/-- Intents that can be applied to the schemas of an object are applied to it. -/
theorem applySchemaMergeIntents_total {ms : Object} {intents schemas : List Value}
    (h : ∃ schemas', intents.foldlM applyIntent schemas = .ok schemas')
    (hschemas : ((lookupKey "schemas" ms).bind Value.asArray).getD [] = schemas) :
    ∃ ms', applySchemaMergeIntents (.obj ms) intents = .ok (.obj ms') := by
  obtain ⟨schemas', h⟩ := h
  rcases harray : (lookupKey "schemas" ms).bind Value.asArray with _ | vs
  · rw [harray] at hschemas
    obtain rfl : [] = schemas := hschemas
    have hindex : ((Value.obj (insertKey "schemas" (.arr []) ms)).index "schemas").asArray
        = some [] := by
      rw [index_asArray, Value.get, lookupKey_insertKey_self]
      rfl
    simp only [applySchemaMergeIntents, Value.get, harray, assignKey, bind, Except.bind]
    rw [expect_of_some hindex]
    simp only [h]
    exact ⟨_, rfl⟩
  · rw [harray] at hschemas
    obtain rfl : vs = schemas := hschemas
    have hindex : ((Value.obj ms).index "schemas").asArray = some vs := by
      rw [index_asArray, Value.get, harray]
    simp only [applySchemaMergeIntents, Value.get, harray, bind, Except.bind]
    rw [expect_of_some hindex]
    simp only [h]
    exact ⟨_, rfl⟩

/-! ### The requests -/

/-- The check of the merge intents that a request may have. -/
def mergeIntentsCheck (snapshots : Map Value) (corpusId : String) :
    Option (List Value) → Result Unit
  | none => .ok ()
  | some intents => validateSchemaMergeIntents snapshots corpusId intents

theorem validateMemoryUpsert_ok {mem : Memory} {req : RpcRequest} {params : Object}
    (h : validateMemoryUpsert mem req params = .ok ()) :
    ∃ corpusId, UpsertChecks mem req params corpusId
      ∧ ∀ intents, lookupKey "schemaMerges" params = some (.arr intents) →
        validateSchemaMergeIntents mem.state.snapshots corpusId intents = .ok () := by
  rw [validateMemoryUpsert] at h
  obtain ⟨_, hsize, h⟩ := bind_ok.mp h
  obtain ⟨_, hknown, h⟩ := bind_ok.mp h
  obtain ⟨corpusId, hcorpus, h⟩ := bind_ok.mp h
  dsimp only at h
  by_cases hexclusive : (lookupKey "schemaMerges" params).isSome ∧ (lookupKey "schemas" params).isSome
  · rw [if_pos hexclusive] at h
    cases h
  rw [if_neg hexclusive] at h
  obtain ⟨_, hsections, h⟩ := bind_ok.mp h
  have hlast : (do
      validateStoredSnapshotForUpsert mem.state.snapshots corpusId
      mergeIntentsCheck mem.state.snapshots corpusId (← optionalArray params "schemaMerges")
        : Result Unit) = .ok () →
      (∀ value, lookupKey "exportedAt" params = some value →
        ∃ s, value.asStr = some s ∧ s.utf8ByteSize ≤ maxIndexingUpdatedAtBytes) →
      UpsertChecks mem req params corpusId
        ∧ ∀ intents, lookupKey "schemaMerges" params = some (.arr intents) →
          validateSchemaMergeIntents mem.state.snapshots corpusId intents = .ok () := by
    intro h hexported
    obtain ⟨_, hstored, h⟩ := bind_ok.mp h
    refine ⟨⟨hsize, hknown, hcorpus, hexclusive, hsections, hexported, hstored⟩, ?_⟩
    intro intents hintents
    obtain ⟨r, hr, h⟩ := bind_ok.mp h
    simp only [optionalArray, hintents, Value.asArray] at hr
    cases hr
    exact h
  refine ⟨corpusId, ?_⟩
  split at h
  · next hnone =>
    refine hlast h ?_
    intro value hvalue
    cases hnone.symm.trans hvalue
  · next value hvalue =>
    split at h
    · next text htext =>
      split at h
      · cases h
      · next hle =>
        refine hlast h ?_
        intro value' hvalue'
        obtain rfl := Option.some.inj (hvalue.symm.trans hvalue')
        exact ⟨text, htext, not_lt.mp hle⟩
    · cases h

omit [Externals] in
/-- The snapshot that a request starts from, as the checks have read it. -/
theorem startingSnapshot {snapshots : Map Value} {corpusId : String} {schemas : List Value}
    (h : storedItems snapshots corpusId "schemas" = .ok schemas) :
    ∃ ms, (snapshots[corpusId]?).getD (emptySnapshot corpusId) = .obj ms
      ∧ ((lookupKey "schemas" ms).bind Value.asArray).getD [] = schemas := by
  obtain ⟨r, hr, rfl⟩ := map_ok.mp h
  have hsection := storedSnapshotSection_ok hr
  cases hsection with
  | none hs =>
    rw [hs]
    exact ⟨_, rfl, rfl⟩
  | @missing ms hs _ _ =>
    have hitems := (storedSnapshotSection_ok hr).items_of_get hs
    rw [hs]
    exact ⟨ms, rfl, hitems⟩
  | @items ms _ hs _ _ =>
    have hitems := (storedSnapshotSection_ok hr).items_of_get hs
    rw [hs]
    exact ⟨ms, rfl, hitems⟩

theorem memoryUpsert_total {mem : Memory} {req : RpcRequest} {params : Object}
    (h : validateMemoryUpsert mem req params = .ok ()) :
    ∃ mem', memoryUpsert mem (.obj params) = .ok mem' := by
  obtain ⟨corpusId, hchecks, hmerges⟩ := validateMemoryUpsert_ok h
  have hcorpus := (boundedRequiredString_ok hchecks.corpus).1
  obtain ⟨schemas, hschemas, -⟩ :=
    bind_ok.mp (checkAll_ok.mp hchecks.stored ("schemas", "schemaId") (by simp [snapshotSections]))
  obtain ⟨ms, hstart, hitems⟩ := startingSnapshot hschemas
  have hids : ∀ s ∈ snapshotSections, ∀ item ∈ paramItems (.obj params) s.1,
      ∃ id, (item.get s.2).bind Value.asStr = some id :=
    fun s hs => validateUpsertSection_ids (checkAll_ok.mp hchecks.sections s hs)
  obtain ⟨ms', hsections, hkeep⟩ := upsertSections_total ms hids
  have hmerged : ∀ intents, ((Value.obj params).get "schemaMerges").bind Value.asArray = some intents →
      ∃ ms'', applySchemaMergeIntents (.obj ms') intents = .ok (.obj ms'') := by
    intro intents hread
    obtain ⟨value, hl, ha⟩ := Option.bind_eq_some_iff.mp hread
    obtain rfl : value = .arr intents := by
      cases value with
      | arr vs =>
        cases ha
        rfl
      | _ => cases ha
    -- a request with intents has no section of schemas, so the stored ones are still there
    have hempty : paramItems (.obj params) "schemas" = [] := by
      rcases hs : lookupKey "schemas" params with _ | items
      · rw [paramItems, Value.get, hs]
        rfl
      · exact absurd ⟨Option.isSome_iff_exists.mpr ⟨_, hl⟩, Option.isSome_iff_exists.mpr ⟨_, hs⟩⟩
          hchecks.exclusive
    refine applySchemaMergeIntents_total (validateSchemaMergeIntents_applies hschemas
      (hmerges intents hl)) ?_
    rw [hkeep "schemas" hempty]
    exact hitems
  have hsnapshot : ∃ snapshot, upsertedSnapshot mem (.obj params) corpusId = .ok snapshot := by
    rw [upsertedSnapshot]
    dsimp only
    rw [hstart, hsections]
    rcases hread : ((Value.obj params).get "schemaMerges").bind Value.asArray with _ | intents
    · rcases (Value.obj params).get "exportedAt" with _ | exportedAt
      · exact ⟨_, rfl⟩
      · exact ⟨_, rfl⟩
    · obtain ⟨ms'', happlied⟩ := hmerged intents hread
      rcases (Value.obj params).get "exportedAt" with _ | exportedAt
      · exact ⟨_, bind_ok.mpr ⟨_, rfl, bind_ok.mpr ⟨_, happlied, rfl⟩⟩⟩
      · exact ⟨_, bind_ok.mpr ⟨_, rfl, bind_ok.mpr ⟨_, happlied, rfl⟩⟩⟩
  obtain ⟨snapshot, hsnapshot⟩ := hsnapshot
  have hread : ((Value.obj params).get "corpusId").bind Value.asStr = some corpusId := by
    rw [Value.get, hcorpus]
    rfl
  rw [memoryUpsert, hread]
  simp only [bind, Except.bind, hsnapshot]
  exact ⟨_, rfl⟩

omit [Externals] in
theorem requiredString_of_bounded {params : Object} {name value : String} {maximum : ℕ}
    (h : boundedRequiredString params name maximum = .ok value) :
    requiredString params name = .ok value := by
  obtain ⟨v, hv, h⟩ := bind_ok.mp h
  split at h
  · cases h
    exact hv
  · cases h

theorem activateFacts_total {mem : Memory} {req : RpcRequest} {params : Object}
    (h : validateActivateFacts mem req params = .ok ()) :
    ∃ result, activateFacts mem (.obj params) = .ok result := by
  rw [validateActivateFacts] at h
  obtain ⟨_, -, h⟩ := bind_ok.mp h
  obtain ⟨_, -, h⟩ := bind_ok.mp h
  obtain ⟨corpusId, hcorpus, h⟩ := bind_ok.mp h
  obtain ⟨schemaIds, hids, h⟩ := bind_ok.mp h
  obtain ⟨updatedAt, hupdated, h⟩ := bind_ok.mp h
  have hparams : paramsObject (.obj params) = .ok params := rfl
  simp only [activateFacts, hparams, bind, Except.bind, requiredString_of_bounded hcorpus, hids,
    requiredString_of_bounded hupdated, h]
  obtain ⟨facts, hfacts, hall⟩ := bind_ok.mp h
  obtain ⟨r, hr, hrfacts⟩ := map_ok.mp hfacts
  rcases hs : mem.state.snapshots[corpusId]? with _ | snapshot
  · exact ⟨_, rfl⟩
  · have hitems := (storedSnapshotSection_ok hr).items_of_get hs
    rw [hrfacts] at hitems
    rcases ha : (snapshot.get "facts").bind Value.asArray with _ | stored
    · simp only [ha]
      exact ⟨_, rfl⟩
    · rw [ha] at hitems
      obtain rfl : stored = facts := hitems
      have hactivated : ∀ fact ∈ stored, ∃ y, activateFact schemaIds updatedAt fact = .ok y := by
        intro fact hfact
        obtain ⟨_, hitem, -⟩ := bind_ok.mp (checkAll_ok.mp hall fact hfact)
        obtain ⟨ms, rfl⟩ := (validateStoredSectionItem_ok hitem).object
        rw [activateFact, expect_of_some (show (Value.obj ms).asObject = some ms from rfl)]
        simp only [bind, Except.bind]
        split
        · exact ⟨_, rfl⟩
        · exact ⟨_, rfl⟩
      obtain ⟨activated, hactivated⟩ := mapM_exists hactivated
      simp only [ha, hactivated]
      exact ⟨_, rfl⟩

/-- What is read of the items is read of every one of them. -/
theorem validateRecords_records {α : Type} {params : Object} {name label : String} {d : Reader α}
    {check : α → Result Unit} (h : validateRecords params name d label check = .ok ()) :
    ∀ item ∈ paramItems (.obj params) name, ∃ record, fromValue d item = some record := by
  obtain ⟨r, hr, h⟩ := bind_ok.mp h
  rw [paramItems_of_array hr]
  rcases r with _ | items
  · simp
  · intro item hitem
    have hitem := checkAll_ok.mp h item hitem
    split at hitem
    · next record hrecord => exact ⟨record, hrecord⟩
    · cases hitem

/-- Items that were read as records are read so again. -/
theorem mapM_records {α : Type} {params : Object} {name label : String} {d : Reader α}
    {check : α → Result Unit} {read : Value → Result α}
    (hread : ∀ item record, fromValue d item = some record → read item = .ok record)
    (h : validateRecords params name d label check = .ok ()) :
    ∃ records, (paramItems (.obj params) name).mapM read = .ok records := by
  refine mapM_exists ?_
  intro item hitem
  obtain ⟨record, hrecord⟩ := validateRecords_records h item hitem
  exact ⟨record, hread item record hrecord⟩

omit [Externals] in
/-- Every item that a fold comes to is passed. -/
theorem foldlM_mem {α β : Type} {f : β → α → Result β} : ∀ {xs : List α} {b c : β},
    xs.foldlM f b = .ok c → ∀ x ∈ xs, ∃ b' c', f b' x = .ok c'
  | [], _, _, _ => by simp
  | x :: xs, b, c, h => by
    rw [List.foldlM_cons] at h
    obtain ⟨b', hb, h⟩ := bind_ok.mp h
    intro y hy
    rcases List.mem_cons.mp hy with rfl | hy
    · exact ⟨b, b', hb⟩
    · exact foldlM_mem h y hy

/-- The fields of an accepted marker, and the schema it hydrates. -/
structure MarkerOk (snapshots : Map Value) (marker : Object) : Prop where
  nodeId : ∃ s, (lookupKey "nodeId" marker).bind Value.asStr = some s
  label : ∃ s, (lookupKey "label" marker).bind Value.asStr = some s
  schema : ∃ corpusId schemaId schema, (lookupKey "corpusId" marker).bind Value.asStr = some corpusId
    ∧ (lookupKey "schemaId" marker).bind Value.asStr = some schemaId
    ∧ schemaForHydration snapshots corpusId schemaId = .ok schema

theorem validateMarker_ok {snapshots : Map Value} {nodeKeys nodeKeys' : List (String × String)}
    {marker : Value} (h : validateMarker snapshots nodeKeys marker = .ok nodeKeys') :
    ∃ object, marker = .obj object ∧ MarkerOk snapshots object := by
  rw [validateMarker] at h
  cases marker with
  | obj ms =>
    dsimp only [Value.asObject] at h
    obtain ⟨object, ho, h⟩ := bind_ok.mp h
    cases ho
    obtain ⟨_, -, h⟩ := bind_ok.mp h
    obtain ⟨nodeId, hnode, h⟩ := bind_ok.mp h
    obtain ⟨corpusId, hcorpus, h⟩ := bind_ok.mp h
    obtain ⟨schemaId, hschemaId, h⟩ := bind_ok.mp h
    obtain ⟨label, hlabel, h⟩ := bind_ok.mp h
    split at h
    · cases h
    split at h
    · cases h
    obtain ⟨schema, hschema, -⟩ := bind_ok.mp h
    exact ⟨ms, rfl, ⟨nodeId, (boundedObjectString_ok hnode).1⟩,
      ⟨label, (boundedObjectString_ok hlabel).1⟩, corpusId, schemaId, schema,
      (boundedObjectString_ok hcorpus).1, (boundedObjectString_ok hschemaId).1, hschema⟩
  | _ => cases h

theorem hydratedSchemaNodes_total {snapshots : Map Value} {params : Object}
    (h : validateSchemaNodeHydrations snapshots params = .ok ()) :
    ∃ nodes, hydratedSchemaNodes snapshots (.obj params) = .ok nodes := by
  rw [hydratedSchemaNodes]
  split
  · exact ⟨[], rfl⟩
  next markers hread =>
  obtain ⟨value, hl, ha⟩ := Option.bind_eq_some_iff.mp hread
  have hsome : (lookupKey "schemaNodeRefs" params).isSome = true :=
    Option.isSome_iff_exists.mpr ⟨value, hl⟩
  have harray : optionalArray params "schemaNodeRefs" = .ok (some markers) := by
    have hl : lookupKey "schemaNodeRefs" params = some value := hl
    simp only [optionalArray, hl, ha]
  refine mapM_exists ?_
  intro marker hmarker
  have hok : ∃ object, marker = .obj object ∧ MarkerOk snapshots object := by
    rw [validateSchemaNodeHydrations, hsome, harray] at h
    simp only [Bool.not_true, Bool.and_false, Bool.and_true] at h
    split at h
    · next hfalse => cases hfalse
    split at h
    · cases h
    obtain ⟨_, -, h⟩ := bind_ok.mp h
    split at h
    · cases h
    obtain ⟨_, hm, h⟩ := bind_ok.mp h
    cases hm
    obtain ⟨_, hm, h⟩ := bind_ok.mp h
    cases hm
    split at h
    · cases h
    obtain ⟨nodes, -, h⟩ := bind_ok.mp h
    obtain ⟨nodeKeys, -, h⟩ := bind_ok.mp h
    obtain ⟨_, hfold, -⟩ := bind_ok.mp h
    obtain ⟨_, _, hstep⟩ := foldlM_mem hfold marker hmarker
    exact validateMarker_ok hstep
  obtain ⟨object, rfl, ⟨nodeId, hnode⟩, ⟨label, hlabel⟩, corpusId, schemaId, schema, hcorpus,
    hschemaId, hschema⟩ := hok
  have hfound : (schemaForHydration snapshots corpusId schemaId).toOption = some schema := by
    rw [hschema]
    rfl
  rw [expect_of_some (show (Value.obj object).asObject = some object from rfl)]
  simp only [bind, Except.bind, expect_of_some hcorpus, expect_of_some hschemaId,
    expect_of_some hnode, expect_of_some hfound, expect_of_some hlabel]
  exact ⟨_, rfl⟩

omit [Externals] in
theorem lexicalPassage_total {item : Value} (corpusId : String)
    (h : validateLexicalPassage item = .ok ()) : ∃ p, lexicalPassage corpusId item = .ok p := by
  rw [validateLexicalPassage] at h
  cases item with
  | obj ms =>
    dsimp only [Value.asObject] at h
    obtain ⟨object, ho, h⟩ := bind_ok.mp h
    cases ho
    split at h
    · cases h
    next passageId hpassage =>
    split at h
    · cases h
    split at h
    · cases h
    next documentId hdocument =>
    obtain ⟨metadata, hmetadata, hdocument⟩ := Option.bind_eq_some_iff.mp hdocument
    obtain ⟨value, hvalue, hobject⟩ := Option.bind_eq_some_iff.mp hmetadata
    have hread : (((Value.obj ms).get "metadata").bind fun m => m.get "documentId").bind
        Value.asStr = some documentId := by
      have hl : (Value.obj ms).get "metadata" = some value := hvalue
      rw [hl, Option.bind_some, get_of_asObject hobject]
      exact hdocument
    have hid : ((Value.obj ms).get "passageId").bind Value.asStr = some passageId := hpassage
    rw [lexicalPassage, hid, hread]
    exact ⟨_, rfl⟩
  | _ => cases h

omit [Externals] in
theorem lexicalIndexPassages_total (mem : Memory) {params : Object}
    (h : validateLexicalIndexPassages params = .ok ()) :
    ∃ mem', lexicalIndexPassages mem (.obj params) = .ok mem' := by
  obtain ⟨corpus, -, h⟩ := bind_ok.mp h
  dsimp only at h
  split at h
  · cases h
  obtain ⟨r, hr, h⟩ := bind_ok.mp h
  have hitems : ∀ item ∈ paramItems (.obj params) "passages",
      ∃ p, lexicalPassage (paramStr (.obj params) "corpusId") item = .ok p := by
    rw [paramItems_of_array hr]
    rcases r with _ | items
    · simp
    · intro item hitem
      exact lexicalPassage_total _ (checkAll_ok.mp h item hitem)
  obtain ⟨passages, hpassages⟩ := mapM_exists hitems
  rw [lexicalIndexPassages]
  dsimp only
  rw [hpassages]
  exact ⟨_, rfl⟩

omit [Externals] in
/-- The named object of a request, as the handlers read it. -/
theorem validateNamedObject_ok {params : Object} {name idKey : String}
    (h : validateNamedObject params name idKey = .ok ()) :
    ∃ id, ((((Value.obj params).get name).getD (.obj [])).get idKey).bind Value.asStr = some id := by
  rw [validateNamedObject, ← Value.get] at h
  rcases hl : (Value.obj params).get name with _ | value
  · rw [hl] at h
    cases h
  · rw [hl] at h
    cases value with
    | obj ms =>
      simp only [Value.asObject, bind, Except.bind] at h
      rcases hid : (lookupKey idKey ms).bind Value.asStr with _ | id
      · rw [hid] at h
        cases h
      · exact ⟨id, hid⟩
    | _ => cases h

/-- Every request that is accepted is applied. -/
theorem applyMutation_total {mem : Memory} {req : RpcRequest}
    (h : validateMutationParams mem req = .ok ()) : ∃ applied, applyMutation mem req = .ok applied := by
  obtain ⟨params, hparams, h⟩ := bind_ok.mp h
  have hobject : req.params = .obj params := by
    cases hp : req.params with
    | obj ms =>
      rw [hp] at hparams
      cases hparams
      rfl
    | _ =>
      rw [hp] at hparams
      cases hparams
  have hmap : ∀ {x : Result Memory} (f : Memory → Applied), (∃ mem', x = .ok mem') →
      ∃ applied, x.map f = .ok applied := by
    rintro x f ⟨mem', rfl⟩
    exact ⟨_, rfl⟩
  rw [applyMutation, hobject]
  split at h
  · next hm =>
    rw [hm]
    refine hmap _ ?_
    obtain ⟨_, hnodes, hmarkers⟩ := bind_ok.mp h
    refine bind_total ⟨params, rfl⟩ fun _ _ => ?_
    refine bind_total (hydratedSchemaNodes_total hmarkers) fun _ _ => ?_
    refine bind_total (mapM_records ?_ hnodes) fun _ _ => ⟨_, rfl⟩
    intro node record hrecord
    rw [hrecord]
  · next hm =>
    rw [hm]
    refine hmap _ ?_
    refine bind_total (mapM_records ?_ h) fun _ _ => ⟨_, rfl⟩
    intro edge record hrecord
    rw [hrecord]
  · next hm =>
    rw [hm]
    exact ⟨_, rfl⟩
  · next hm =>
    rw [hm]
    exact ⟨_, rfl⟩
  · next hm =>
    rw [hm]
    exact ⟨_, rfl⟩
  · next hm =>
    rw [hm]
    exact ⟨_, rfl⟩
  · next hm =>
    rw [hm]
    refine hmap _ ?_
    refine bind_total (mapM_records ?_ h) fun _ _ => ⟨_, rfl⟩
    intro vector record hrecord
    rw [hrecord]
  · next hm =>
    rw [hm]
    exact ⟨_, rfl⟩
  · next hm =>
    rw [hm]
    exact hmap _ (memoryUpsert_total h)
  · next hm =>
    rw [hm]
    obtain ⟨result, hresult⟩ := activateFacts_total h
    simp only [bind, Except.bind, hresult]
    exact ⟨_, rfl⟩
  · next hm =>
    rw [hm]
    rw [validateMemoryDeleteDocument] at h
    obtain ⟨_, -, h⟩ := bind_ok.mp h
    obtain ⟨_, -, h⟩ := bind_ok.mp h
    obtain ⟨corpusId, hcorpus, h⟩ := bind_ok.mp h
    obtain ⟨documentId, hdocument, h⟩ := bind_ok.mp h
    obtain ⟨updatedAt, hupdated, -⟩ := bind_ok.mp h
    have hread : paramsObject (.obj params) = .ok params := rfl
    simp only [hread, bind, Except.bind, requiredString_of_bounded hcorpus,
      requiredString_of_bounded hdocument, requiredString_of_bounded hupdated]
    exact ⟨_, rfl⟩
  · next hm =>
    rw [hm]
    refine hmap _ ?_
    obtain ⟨id, hid⟩ := validateNamedObject_ok h
    rw [memorySave]
    dsimp only
    rw [hid]
    exact ⟨_, rfl⟩
  · next hm =>
    rw [hm]
    refine hmap _ ?_
    obtain ⟨id, hid⟩ := validateNamedObject_ok h
    rw [memorySaveCheckpoint]
    dsimp only
    rw [hid]
    exact ⟨_, rfl⟩
  · next hm =>
    rw [hm]
    exact hmap _ (lexicalIndexPassages_total mem h)
  · next hm =>
    rw [hm]
    exact ⟨_, rfl⟩
  · cases h
  · cases h

/-! ### After the append -/

/-- Only the requests of mutations are accepted. -/
theorem mutation_of_validated {mem : Memory} {req : RpcRequest}
    (h : validateMutationParams mem req = .ok ()) : req.method ∉ boundedOperations
      ∧ ∃ spec, methodSpec req.method = some spec ∧ spec.classification = .mutation := by
  obtain ⟨params, -, h⟩ := bind_ok.mp h
  split at h <;> first
    | cases h
    | next hm =>
      rw [hm]
      exact ⟨by decide, _, rfl, rfl⟩

theorem walAppend_ok {host : Host} {dir dir' : Dir} {s s' : Server} {req : RpcRequest}
    (h : walAppend host dir s req = (dir', .ok s')) :
    ∃ record inode, s' = s.logged req record inode := by
  rw [walAppend] at h
  split at h
  · cases h
  · next record _ =>
    dsimp only at h
    split at h
    · cases h
    · cases h
      exact ⟨record, _, rfl⟩

/-- A mutation that is accepted in an open transaction is applied, once it is logged, as it would
have been before. -/
theorem validated_applies [Runtime] (answer : Memory → RpcRequest → Result Value) {s : Server}
    {req : RpcRequest} (hactive : s.transaction.isActive)
    (h : validateMutationParams s.toMemory req = .ok ()) :
    ∃ applied, applyMutation s.toMemory req = .ok applied
      ∧ ∀ host dir dir' s', walAppend host dir s req = (dir', .ok s') →
        handlePrepared answer host dir' s' req = ⟨dir', s'.mutated applied, .ok applied.result⟩ := by
  obtain ⟨applied, happlied⟩ := applyMutation_total h
  refine ⟨applied, happlied, ?_⟩
  intro host dir dir' s' hlogged
  obtain ⟨record, inode, rfl⟩ := walAppend_ok hlogged
  obtain ⟨hbounded, spec, hspec, hclass⟩ := mutation_of_validated h
  have hmemory : (s.logged req record inode).toMemory = s.toMemory := rfl
  have htransaction : (s.logged req record inode).transaction = s.transaction := rfl
  have hrun : handleMutation dir' (s.logged req record inode) req
      = ⟨dir', (s.logged req record inode).mutated applied, .ok applied.result⟩ := by
    rw [handleMutation, hmemory, bind_ok.mpr ⟨(), h, happlied⟩]
  rw [handlePrepared, if_neg hbounded, hspec, htransaction]
  dsimp only
  rw [hclass]
  cases ht : s.transaction with
  | active base nonce mutated => exact hrun
  | _ =>
    rw [ht] at hactive
    cases hactive

end Applicable

section Witness

attribute [local instance] Concrete.externals Concrete.runtime

/-- A memory upsert of one passage. -/
def passageRequest : RpcRequest :=
  ⟨1, "memory_upsert", .obj [("corpusId", .str "c"),
    ("passages", .arr [.obj [("passageId", .str "p")]])]⟩

theorem validated_applies_passage : ∃ s applied, Concrete.begun = .ok s
    ∧ applyMutation s.toMemory passageRequest = .ok applied := by
  have hok : (match Concrete.begun with
      | .ok s => s.transaction.isActive &&
        (match validateMutationParams s.toMemory passageRequest with
          | .ok () => true
          | .error _ => false)
      | .error _ => false) = true := by
    decide +kernel
  split at hok
  swap
  · cases hok
  next s hs =>
  obtain ⟨hactive, hok⟩ := Bool.and_eq_true_iff.mp hok
  split at hok
  swap
  · cases hok
  next hv =>
  obtain ⟨applied, happlied, -⟩ := validated_applies Concrete.answer hactive hv
  exact ⟨s, applied, hs, happlied⟩

end Witness

end AiraGraphdb.Native
