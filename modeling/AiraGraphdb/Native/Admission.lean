import AiraGraphdb.Native.Concrete
import AiraGraphdb.Native.Validated

/-! # Admission is total

What a validator may answer is that a request is accepted, or an error of the client. The rules for
sequences and lists carry this through the validators; a value that is taken to be there has to be
promised by a check before it. -/

namespace AiraGraphdb.Native

open Schemes Schemes.Json

section Decided

variable {α β : Type}

/-- Accepted, or refused with an error of the client. -/
def Decided (x : Result α) : Prop :=
  ∀ failure, x = .error failure → ∃ message, failure = .app (executionClientError message)

theorem decided_ok (a : α) : Decided (.ok a : Result α) := by
  intro failure h
  cases h

theorem decided_clientError (message : String) : Decided (clientError message : Result α) := by
  intro failure h
  cases h
  exact ⟨message, rfl⟩

theorem decided_bind {x : Result α} {f : α → Result β} :
    Decided (x >>= f) ↔ Decided x ∧ ∀ a, x = .ok a → Decided (f a) := by
  rcases x with failure | a
  · have hsame : Decided (.error failure >>= f) ↔ Decided (.error failure : Result α) := by
      refine ⟨fun h e he => ?_, fun h e he => ?_⟩ <;> cases he <;> exact h failure rfl
    refine ⟨fun h => ⟨hsame.mp h, fun a ha => by cases ha⟩, fun h => hsame.mpr h.1⟩
  · refine ⟨fun h => ⟨decided_ok a, fun b hb => ?_⟩, fun h => h.2 a rfl⟩
    cases hb
    exact h

theorem decided_refuse {message : String} {f : α → Result β} :
    Decided (clientError message >>= f) := by
  refine decided_bind.mpr ⟨decided_clientError message, ?_⟩
  intro a ha
  cases ha

/-- A check that refuses, and what comes after it. -/
theorem decided_guard {c : Prop} [Decidable c] {message : String} {f : α → Result β}
    {rest : Result β} (h : ¬ c → Decided rest) :
    Decided (if c then clientError message >>= f else rest) := by
  split
  · exact decided_refuse
  · next hc => exact h hc

theorem decided_map {x : Result α} {f : α → β} (h : Decided x) : Decided (x.map f) := by
  rcases x with failure | a
  · intro e he
    cases he
    exact h failure rfl
  · exact decided_ok (f a)

theorem decided_expect {x : Option α} {message : String} :
    Decided (expect x message) ↔ ∃ a, x = some a := by
  rcases x with _ | a
  · refine ⟨fun h => ?_, fun ⟨a, ha⟩ => by cases ha⟩
    obtain ⟨m, hm⟩ := h _ rfl
    cases hm
  · exact ⟨fun _ => ⟨a, rfl⟩, fun _ => decided_ok a⟩

theorem decided_checkAll {check : α → Result Unit} {xs : List α}
    (h : ∀ x ∈ xs, Decided (check x)) : Decided (checkAll check xs) := by
  induction xs with
  | nil => exact decided_ok ()
  | cons x xs ih =>
    rw [checkAll]
    refine decided_bind.mpr ⟨h x (by simp), ?_⟩
    intro _ _
    exact ih fun y hy => h y (by simp [hy])

theorem decided_readUnique [DecidableEq β] {read : α → Result β} {duplicate : String}
    (h : ∀ x, Decided (read x)) : ∀ (xs : List α) (seen : List β),
      Decided (readUnique read duplicate seen xs)
  | [], seen => decided_ok seen
  | x :: xs, seen => by
    rw [readUnique]
    refine decided_bind.mpr ⟨h x, ?_⟩
    intro y _
    exact decided_guard fun _ => decided_readUnique h xs (seen ++ [y])

theorem decided_mapM {f : α → Result β} (h : ∀ x, Decided (f x)) : ∀ xs : List α,
    Decided (xs.mapM f)
  | [] => decided_ok []
  | x :: xs => by
    rw [List.mapM_cons]
    refine decided_bind.mpr ⟨h x, ?_⟩
    intro y _
    refine decided_bind.mpr ⟨decided_mapM h xs, ?_⟩
    intro ys _
    exact decided_ok (y :: ys)

theorem decided_foldlM {f : β → α → Result β} (h : ∀ b x, Decided (f b x)) :
    ∀ (xs : List α) (b : β), Decided (xs.foldlM f b)
  | [], b => decided_ok b
  | x :: xs, b => by
    rw [List.foldlM_cons]
    refine decided_bind.mpr ⟨h b x, ?_⟩
    intro c _
    exact decided_foldlM h xs c

end Decided

/-! ### Fields -/

theorem decided_optionalString (params : Object) (name : String) :
    Decided (optionalString params name) := by
  rw [optionalString]
  split
  · exact decided_ok _
  · split
    · exact decided_ok _
    · exact decided_clientError _

theorem decided_requiredString (params : Object) (name : String) :
    Decided (requiredString params name) := by
  rw [requiredString]
  refine decided_bind.mpr ⟨decided_optionalString params name, ?_⟩
  intro value _
  split
  · exact decided_ok _
  · exact decided_clientError _

theorem decided_optionalArray (params : Object) (name : String) :
    Decided (optionalArray params name) := by
  rw [optionalArray]
  split
  · exact decided_ok _
  · split
    · exact decided_ok _
    · exact decided_clientError _

theorem decided_validateStringArray (params : Object) (name : String) :
    Decided (validateStringArray params name) := by
  rw [validateStringArray]
  refine decided_bind.mpr ⟨decided_optionalArray params name, ?_⟩
  intro items _
  split
  · exact decided_ok _
  · refine decided_checkAll ?_
    intro item _
    split
    · exact decided_ok _
    · exact decided_clientError _

theorem decided_boundedRequiredString (params : Object) (name : String) (maximum : ℕ) :
    Decided (boundedRequiredString params name maximum) := by
  rw [boundedRequiredString]
  refine decided_bind.mpr ⟨decided_requiredString params name, ?_⟩
  intro value _
  split
  · exact decided_ok _
  · exact decided_clientError _

theorem decided_boundedObjectString (object : Object) (field : String) (maximum : ℕ)
    (label : String) : Decided (boundedObjectString object field maximum label) := by
  rw [boundedObjectString]
  split
  · split
    · exact decided_ok _
    · exact decided_clientError _
  · exact decided_clientError _

theorem decided_safeU64Field (object : Object) (field label : String) :
    Decided (safeU64Field object field label) := by
  rw [safeU64Field]
  split
  · split
    · exact decided_ok _
    · exact decided_clientError _
  · exact decided_clientError _

theorem decided_requireExactObjectKeys (object : Object) (allowed : List String) (label : String) :
    Decided (requireExactObjectKeys object allowed label) := by
  rw [requireExactObjectKeys]
  split
  · exact decided_clientError _
  · exact decided_ok _

theorem decided_requireExactParams (params : Object) (allowed : List String) :
    Decided (requireExactParams params allowed) := by
  rw [requireExactParams]
  split
  · exact decided_clientError _
  · exact decided_ok _

theorem decided_rejectUnknownParams (params : Object) (allowed : List String) :
    Decided (rejectUnknownParams params allowed) := by
  rw [rejectUnknownParams]
  split
  · exact decided_clientError _
  · exact decided_ok _

theorem decided_boundedUniqueIds (params : Object) (name : String) (maximum : ℕ)
    (allowEmpty : Bool) : Decided (boundedUniqueIds params name maximum allowEmpty) := by
  rw [boundedUniqueIds]
  refine decided_bind.mpr ⟨decided_optionalArray params name, ?_⟩
  intro found _
  dsimp only
  split
  · refine decided_bind.mpr ⟨decided_ok _, ?_⟩
    intro items _
    refine decided_guard fun _ => decided_readUnique ?_ items []
    intro item
    split
    · split
      · exact decided_ok _
      · exact decided_clientError _
    · exact decided_clientError _
  · exact decided_refuse

theorem decided_validateIndexingRequestSize [Externals] (req : RpcRequest) :
    Decided (validateIndexingRequestSize req) := by
  rw [validateIndexingRequestSize]
  split
  · exact decided_clientError _
  · exact decided_ok _

/-- Exactly these keys, in an object that has each of its keys once: all of them are there. -/
theorem lookupKey_of_exact {object : Object} {allowed : List String} {label : String}
    (hsorted : Sorted object) (h : requireExactObjectKeys object allowed label = .ok ())
    {k : String} (hk : k ∈ allowed) : ∃ v, lookupKey k object = some v := by
  rw [requireExactObjectKeys] at h
  split at h
  · cases h
  · next hexact =>
    simp only [not_or, not_not, List.any_eq_true, not_exists, not_and, Bool.not_eq_true',
      Bool.not_eq_false, List.contains_iff_mem] at hexact
    obtain ⟨hlen, hin⟩ := hexact
    have hnodup : (object.map Prod.fst).Nodup := by
      rw [List.Nodup, List.pairwise_map]
      exact hsorted.imp fun hlt => ne_of_lt hlt
    have hsub : object.map Prod.fst ⊆ allowed := by
      intro k' hk'
      obtain ⟨m, hm, rfl⟩ := List.mem_map.mp hk'
      exact hin m hm
    have hperm : (object.map Prod.fst).Perm allowed :=
      (List.subperm_of_subset hnodup hsub).perm_of_length_le (by simp [hlen])
    have hmem := hperm.mem_iff.mpr hk
    exact Option.isSome_iff_exists.mp (lookupKey_isSome.mpr hmem)

/-! ### Stored sections -/

theorem decided_validateEmbeddedCorpus (item : Object) (corpusId label : String) :
    Decided (validateEmbeddedCorpus item corpusId label) := by
  rw [validateEmbeddedCorpus]
  split
  · exact decided_ok _
  · split
    · exact decided_ok _
    · exact decided_clientError _
  · exact decided_clientError _

theorem decided_storedSnapshotSection (snapshots : Map Value) (corpusId sect : String) :
    Decided (storedSnapshotSection snapshots corpusId sect) := by
  rw [storedSnapshotSection]
  split
  · exact decided_ok _
  · dsimp only
    split
    · refine decided_bind.mpr ⟨decided_ok _, ?_⟩
      intro object _
      split
      · refine decided_guard fun _ => ?_
        split
        · exact decided_ok _
        · exact decided_ok _
        · exact decided_clientError _
      · exact decided_refuse
    · exact decided_refuse

theorem decided_storedItems (snapshots : Map Value) (corpusId sect : String) :
    Decided (storedItems snapshots corpusId sect) :=
  decided_map (decided_storedSnapshotSection snapshots corpusId sect)

theorem decided_validateStoredSectionItem (item : Value) (corpusId sect idKey : String) :
    Decided (validateStoredSectionItem item corpusId sect idKey) := by
  rw [validateStoredSectionItem]
  dsimp only
  split
  · refine decided_bind.mpr ⟨decided_ok _, ?_⟩
    intro object _
    refine decided_bind.mpr ⟨decided_validateEmbeddedCorpus _ _ _, ?_⟩
    intro _ _
    split
    · split
      · exact decided_ok _
      · exact decided_clientError _
    · exact decided_clientError _
  · exact decided_refuse

theorem decided_validateStoredSnapshotForUpsert (snapshots : Map Value) (corpusId : String) :
    Decided (validateStoredSnapshotForUpsert snapshots corpusId) := by
  refine decided_checkAll ?_
  intro sect _
  refine decided_bind.mpr ⟨decided_storedItems snapshots corpusId sect.1, ?_⟩
  intro items _
  refine decided_checkAll ?_
  intro item _
  exact decided_validateStoredSectionItem item corpusId sect.1 sect.2

theorem decided_validateFactSchemaAndState (object : Object) (label : String) :
    Decided (validateFactSchemaAndState object label) := by
  refine decided_checkAll ?_
  intro field _
  split
  · split
    · exact decided_ok _
    · exact decided_clientError _
  · exact decided_clientError _

theorem decided_validateStoredFactItem (fact : Value) (corpusId : String) :
    Decided (validateStoredFactItem fact corpusId) := by
  rw [validateStoredFactItem]
  refine decided_bind.mpr ⟨decided_validateStoredSectionItem _ _ _ _, ?_⟩
  intro _ hitem
  refine decided_bind.mpr ⟨decided_expect.mpr ?_, ?_⟩
  · obtain ⟨ms, rfl⟩ := (validateStoredSectionItem_ok hitem).object
    exact ⟨ms, rfl⟩
  · intro object _
    exact decided_validateFactSchemaAndState object _

theorem decided_validateStoredFactsForActivation (snapshots : Map Value) (corpusId : String) :
    Decided (validateStoredFactsForActivation snapshots corpusId) := by
  refine decided_bind.mpr ⟨decided_storedItems snapshots corpusId "facts", ?_⟩
  intro facts _
  refine decided_checkAll ?_
  intro fact _
  exact decided_validateStoredFactItem fact corpusId

/-! ### Schemas -/

section Schemas

variable [Externals]

theorem decided_validateSchemaAlias (value : Value) (label : String)
    (context : SchemaValidationContext) : Decided (validateSchemaAlias value label context) := by
  have hrest : ∀ object : Object, Decided (do
      let text ← boundedObjectString object "label" maxIndexingDomainIdBytes label
      let language ← boundedObjectString object "language" maxIndexingDomainIdBytes label
      if language ∉ ["en", "ja", "mixed", "unknown"] then
        clientError (label ++ ".language is unsupported")
      let source ← boundedObjectString object "source" maxIndexingDomainIdBytes label
      if source ∉ ["llm", "nlp", "dictionary", "thesaurus", "manual", "import"] then
        clientError (label ++ ".source is unsupported")
      if ((lookupKey "confidence" object).bind (Value.asF64 Externals.ofInt)).isNone then
        clientError (label ++ ".confidence must be finite")
      if ((lookupKey "isCanonical" object).bind Value.asBool).isNone then
        clientError (label ++ ".isCanonical must be boolean")
      return (text, language, source) : Result (String × String × String)) := by
    intro object
    refine decided_bind.mpr ⟨decided_boundedObjectString _ _ _ _, fun text _ => ?_⟩
    refine decided_bind.mpr ⟨decided_boundedObjectString _ _ _ _, fun language _ => ?_⟩
    refine decided_guard fun _ => ?_
    refine decided_bind.mpr ⟨decided_boundedObjectString _ _ _ _, fun source _ => ?_⟩
    refine decided_guard fun _ => decided_guard fun _ => decided_guard fun _ => ?_
    exact decided_ok _
  rw [validateSchemaAlias]
  dsimp only
  split
  · refine decided_bind.mpr ⟨decided_ok _, ?_⟩
    intro object _
    split
    · refine decided_bind.mpr ⟨decided_requireExactObjectKeys _ _ _, ?_⟩
      intro _ _
      exact hrest object
    · exact hrest object
  · exact decided_refuse

omit [Externals] in
theorem decided_validateSchemaIds (schema : Object) (label field : String) :
    Decided (validateSchemaIds schema label field) := by
  rw [validateSchemaIds]
  dsimp only
  split
  · refine decided_bind.mpr ⟨decided_ok _, ?_⟩
    intro values _
    refine decided_checkAll ?_
    intro item _
    split
    · split
      · exact decided_ok _
      · exact decided_clientError _
    · exact decided_clientError _
  · exact decided_refuse

theorem decided_validateSchemaValue (value : Value) (corpusId label : String)
    (context : SchemaValidationContext) :
    Decided (validateSchemaValue value corpusId label context) := by
  rw [validateSchemaValue]
  dsimp only
  split
  · refine decided_bind.mpr ⟨decided_ok _, fun schema _ => ?_⟩
    refine decided_bind.mpr ⟨decided_boundedObjectString _ _ _ _, fun _ _ => ?_⟩
    refine decided_guard fun _ => ?_
    refine decided_bind.mpr ⟨decided_checkAll fun field _ => ?_, fun _ _ => ?_⟩
    · exact decided_bind.mpr ⟨decided_boundedObjectString _ _ _ _, fun _ _ => decided_ok _⟩
    refine decided_bind.mpr ⟨decided_checkAll fun field _ => ?_, fun _ _ => ?_⟩
    · exact decided_bind.mpr ⟨decided_boundedObjectString _ _ _ _, fun _ _ => decided_ok _⟩
    refine decided_bind.mpr ⟨decided_checkAll fun field _ => ?_, fun _ _ => ?_⟩
    · exact decided_bind.mpr ⟨decided_safeU64Field _ _ _, fun _ _ => decided_ok _⟩
    split
    · refine decided_guard fun _ => ?_
      -- The aliases and the ids come last.
      split
      · refine decided_bind.mpr ⟨decided_ok _, ?_⟩
        intro aliases _
        refine decided_bind.mpr ⟨decided_checkAll fun item _ => ?_, ?_⟩
        · refine decided_bind.mpr ⟨decided_validateSchemaAlias _ _ _, ?_⟩
          intro _ _
          exact decided_ok _
        · intro _ _
          refine decided_bind.mpr ⟨decided_checkAll fun field _ => ?_, ?_⟩
          · exact decided_validateSchemaIds schema label field
          · intro _ _
            exact decided_ok _
      · exact decided_refuse
    · exact decided_refuse
  · exact decided_refuse

/-! ### What an accepted schema holds -/

omit [Externals] in
theorem boundedObjectString_ok {object : Object} {field value label : String} {maximum : ℕ}
    (h : boundedObjectString object field maximum label = .ok value) :
    (lookupKey field object).bind Value.asStr = some value ∧ isBounded value maximum := by
  rw [boundedObjectString] at h
  split at h
  · next found hfound =>
    split at h
    · next hb =>
      cases h
      exact ⟨hfound, hb⟩
    · cases h
  · cases h

omit [Externals] in
theorem safeU64Field_ok {object : Object} {field label : String} {value : UInt64}
    (h : safeU64Field object field label = .ok value) :
    (lookupKey field object).bind Value.asU64 = some value
      ∧ value.toNat ≤ jsonSafeIntegerMax := by
  rw [safeU64Field] at h
  split at h
  · next found hfound =>
    split at h
    · next hb =>
      cases h
      exact ⟨hfound, hb⟩
    · cases h
  · cases h

/-- The fields of an accepted schema that handlers and later checks read. -/
structure SchemaShape (schema : Object) : Prop where
  text : ∀ field ∈ ["schemaId", "headType", "relation", "tailType", "canonicalKey"],
    ∃ s, (lookupKey field schema).bind Value.asStr = some s
  frequency : ∃ n, (lookupKey "frequency" schema).bind Value.asU64 = some n
    ∧ n.toNat ≤ jsonSafeIntegerMax
  aliases : ∃ vs, (lookupKey "aliases" schema).bind Value.asArray = some vs
  ids : ∀ field ∈ ["factIds", "sourceDocumentIds"],
    ∃ vs, (lookupKey field schema).bind Value.asArray = some vs

omit [Externals] in
theorem validateSchemaIds_ok {schema : Object} {label field : String}
    (h : validateSchemaIds schema label field = .ok ()) :
    ∃ vs, (lookupKey field schema).bind Value.asArray = some vs := by
  rw [validateSchemaIds] at h
  dsimp only at h
  split at h
  · next vs hvs => exact ⟨vs, hvs⟩
  · cases h

theorem validateSchemaValue_ok {value : Value} {corpusId label : String}
    {context : SchemaValidationContext} {schema : Object}
    (h : validateSchemaValue value corpusId label context = .ok schema) :
    value = .obj schema ∧ SchemaShape schema := by
  rw [validateSchemaValue] at h
  cases value with
  | obj ms =>
    dsimp only [Value.asObject] at h
    obtain ⟨object, ho, h⟩ := bind_ok.mp h
    cases ho
    obtain ⟨_, -, h⟩ := bind_ok.mp h
    split at h
    · cases h
    obtain ⟨_, htext, h⟩ := bind_ok.mp h
    obtain ⟨_, -, h⟩ := bind_ok.mp h
    obtain ⟨_, hnum, h⟩ := bind_ok.mp h
    split at h
    swap
    · cases h
    split at h
    · cases h
    split at h
    swap
    · cases h
    next aliases haliases =>
    obtain ⟨_, ha, h⟩ := bind_ok.mp h
    obtain ⟨_, -, h⟩ := bind_ok.mp h
    obtain ⟨_, hids, h⟩ := bind_ok.mp h
    cases h
    refine ⟨rfl, ?_, ?_, ⟨aliases, haliases⟩, ?_⟩
    · intro field hfield
      obtain ⟨s, hs, -⟩ := bind_ok.mp (checkAll_ok.mp htext field hfield)
      exact ⟨s, (boundedObjectString_ok hs).1⟩
    · obtain ⟨n, hn, -⟩ := bind_ok.mp (checkAll_ok.mp hnum "frequency" (by simp))
      exact ⟨n, safeU64Field_ok hn⟩
    · intro field hfield
      exact validateSchemaIds_ok (checkAll_ok.mp hids field hfield)
  | _ => cases h

/-! ### Merge intents -/

/-- The checks of a merge intent that come before its additions. -/
structure MergeFields (object : Object) : Prop where
  keys : requireExactObjectKeys object mergeIntentFields "schema merge" = .ok ()
  schemaId : ∃ s,
    boundedObjectString object "schemaId" maxIndexingDomainIdBytes "schema merge" = .ok s
  token : ∃ v s, lookupKey "expectedMergeToken" object = some v
    ∧ validateMergeToken v "schema merge" = .ok s
  contribution : ∃ s, boundedObjectString object "contributionDocumentId" maxIndexingDomainIdBytes
    "schema merge" = .ok s
  frequencyDelta : ∃ n, safeU64Field object "frequencyDelta" "schema merge" = .ok n
  stabilizationThreshold : ∃ n, safeU64Field object "stabilizationThreshold" "schema merge" = .ok n
  updatedAt : ∃ s, boundedObjectString object "updatedAt" maxIndexingUpdatedAtBytes
    "schema merge" = .ok s
  desiredState : ∃ s, (lookupKey "desiredState" object).bind Value.asStr = some s
    ∧ s ∈ ["pending", "stable"]

/-- The alias additions of an intent, accepted. -/
def AliasesPass (aliases : List Value) : Prop :=
  ∃ seen, readUnique (fun item => validateSchemaAlias item "schema alias addition" .admission)
    "schema alias additions must be unique" [] aliases = .ok seen

/-- The additions are lists, where it comes to them. -/
def AdditionsAreLists (object : Object) : Prop :=
  ∃ aliases, (lookupKey "aliasAdditions" object).bind Value.asArray = some aliases
    ∧ (AliasesPass aliases →
        ∃ factIds, (lookupKey "factIdAdditions" object).bind Value.asArray = some factIds)

omit [Externals] in
theorem decided_validateMergeToken (value : Value) (label : String) :
    Decided (validateMergeToken value label) := by
  rw [validateMergeToken]
  split
  · split
    · exact decided_ok _
    · exact decided_clientError _
  · exact decided_clientError _

/-- What a merge intent does from its additions on. -/
theorem decided_additions (object : Object) (shape : List Value → List Value → IntentShape) :
    Decided (do
      let aliases ← expect ((lookupKey "aliasAdditions" object).bind Value.asArray)
        "exact merge fields checked above"
      let _ ← readUnique (fun item => validateSchemaAlias item "schema alias addition" .admission)
        "schema alias additions must be unique" [] aliases
      let factIds ← expect ((lookupKey "factIdAdditions" object).bind Value.asArray)
        "exact merge fields checked above"
      let _ ← readUnique (fun item => match item.asStr with
          | some id =>
            if isBounded id maxIndexingDomainIdBytes then .ok id
            else clientError "schema fact ID additions must be bounded and unique"
          | none => clientError "schema fact ID additions must be bounded and unique")
        "schema fact ID additions must be bounded and unique" [] factIds
      return shape aliases factIds : Result IntentShape) ↔ AdditionsAreLists object := by
  constructor
  · intro h
    obtain ⟨halias, h⟩ := decided_bind.mp h
    obtain ⟨aliases, ha⟩ := decided_expect.mp halias
    refine ⟨aliases, ha, ?_⟩
    rintro ⟨seen, hseen⟩
    have h := h aliases (by rw [ha]; rfl)
    obtain ⟨hids, -⟩ := decided_bind.mp ((decided_bind.mp h).2 seen hseen)
    exact decided_expect.mp hids
  · rintro ⟨aliases, ha, hids⟩
    refine decided_bind.mpr ⟨decided_expect.mpr ⟨aliases, ha⟩, ?_⟩
    intro aliases' ha'
    rw [ha] at ha'
    cases ha'
    refine decided_bind.mpr ⟨decided_readUnique (fun item => decided_validateSchemaAlias _ _ _) _ _, ?_⟩
    intro seen hseen
    refine decided_bind.mpr ⟨decided_expect.mpr (hids ⟨seen, hseen⟩), ?_⟩
    intro factIds _
    refine decided_bind.mpr ⟨decided_readUnique (fun item => ?_) _ _, ?_⟩
    · split
      · split
        · exact decided_ok _
        · exact decided_clientError _
      · exact decided_clientError _
    · intro _ _
      exact decided_ok _

/-- A merge intent is decided unless it comes to additions that are no lists. -/
theorem decided_validateMergeIntent {object : Object} (hsorted : Sorted object) :
    Decided (validateMergeIntent object) ↔ (MergeFields object → AdditionsAreLists object) := by
  rw [validateMergeIntent]
  constructor
  · intro h hf
    obtain ⟨schemaId, hschema⟩ := hf.schemaId
    obtain ⟨token, text, htoken, htext⟩ := hf.token
    obtain ⟨contribution, hcontribution⟩ := hf.contribution
    obtain ⟨delta, hdelta⟩ := hf.frequencyDelta
    obtain ⟨threshold, hthreshold⟩ := hf.stabilizationThreshold
    obtain ⟨updatedAt, hupdated⟩ := hf.updatedAt
    obtain ⟨state, hstate, hmem⟩ := hf.desiredState
    have h := (decided_bind.mp h).2 () hf.keys
    have h := (decided_bind.mp h).2 schemaId hschema
    have h := (decided_bind.mp h).2 token (by rw [htoken]; rfl)
    have h := (decided_bind.mp h).2 text htext
    have h := (decided_bind.mp h).2 contribution hcontribution
    have h := (decided_bind.mp h).2 delta hdelta
    have h := (decided_bind.mp h).2 threshold hthreshold
    have h := (decided_bind.mp h).2 updatedAt hupdated
    simp only [hstate, if_neg (not_not.mpr hmem)] at h
    exact (decided_additions object
      fun aliases factIds => ⟨schemaId, aliases.length, factIds.length⟩).mp h
  · intro h
    refine decided_bind.mpr ⟨decided_requireExactObjectKeys _ _ _, fun _ hkeys => ?_⟩
    refine decided_bind.mpr ⟨decided_boundedObjectString _ _ _ _, fun schemaId hschema => ?_⟩
    refine decided_bind.mpr ⟨decided_expect.mpr ?_, fun token htoken => ?_⟩
    · exact lookupKey_of_exact hsorted hkeys (by simp [mergeIntentFields])
    refine decided_bind.mpr ⟨decided_validateMergeToken _ _, fun text htext => ?_⟩
    refine decided_bind.mpr ⟨decided_boundedObjectString _ _ _ _, fun contribution hcontribution => ?_⟩
    refine decided_bind.mpr ⟨decided_safeU64Field _ _ _, fun delta hdelta => ?_⟩
    refine decided_bind.mpr ⟨decided_safeU64Field _ _ _, fun threshold hthreshold => ?_⟩
    refine decided_bind.mpr ⟨decided_boundedObjectString _ _ _ _, fun updatedAt hupdated => ?_⟩
    have htoken' : lookupKey "expectedMergeToken" object = some token := by
      rcases hl : lookupKey "expectedMergeToken" object with _ | v
      · rw [hl] at htoken
        cases htoken
      · rw [hl] at htoken
        cases htoken
        rfl
    split
    · next state hstate =>
      refine decided_guard fun hmem => ?_
      refine (decided_additions object
        fun aliases factIds => ⟨schemaId, aliases.length, factIds.length⟩).mpr (h ?_)
      exact ⟨hkeys, ⟨schemaId, hschema⟩, ⟨token, text, htoken', htext⟩,
        ⟨contribution, hcontribution⟩, ⟨delta, hdelta⟩, ⟨threshold, hthreshold⟩,
        ⟨updatedAt, hupdated⟩, ⟨state, hstate, not_not.mp hmem⟩⟩
    · exact decided_refuse

theorem decided_validateCreateIntent (object : Object) (corpusId : String) :
    Decided (validateCreateIntent object corpusId) := by
  rw [validateCreateIntent]
  refine decided_bind.mpr ⟨decided_requireExactObjectKeys _ _ _, fun _ _ => ?_⟩
  refine decided_guard fun _ => ?_
  dsimp only
  split
  · refine decided_bind.mpr ⟨decided_ok _, fun value _ => ?_⟩
    refine decided_bind.mpr ⟨decided_validateSchemaValue _ _ _ _, fun schema hschema => ?_⟩
    refine decided_bind.mpr ⟨decided_expect.mpr ?_, fun _ _ => decided_ok _⟩
    exact (validateSchemaValue_ok hschema).2.text "schemaId" (by simp)
  · exact decided_refuse

/-- The additions of a merge intent are lists, where the checks come to them. -/
def Mergeable (intent : Value) : Prop :=
  ∀ object, intent = .obj object → (lookupKey "mode" object).bind Value.asStr = some "merge" →
    MergeFields object → AdditionsAreLists object

theorem decided_validateIntentShape {intent : Value} (hn : intent.Normal) (corpusId : String) :
    Decided (validateIntentShape corpusId intent) ↔ Mergeable intent := by
  rw [validateIntentShape]
  cases intent with
  | obj object =>
    dsimp only [Value.asObject]
    have hbind : ∀ {x : Object → Result IntentShape},
        Decided ((.ok object : Result Object) >>= x) ↔ Decided (x object) := Iff.rfl
    rw [hbind]
    rcases hmode : (lookupKey "mode" object).bind Value.asStr with _ | mode
    · refine ⟨fun _ object' heq hmode' => ?_, fun _ => decided_clientError _⟩
      cases heq
      rw [hmode] at hmode'
      cases hmode'
    · dsimp only
      have hother : mode ≠ "merge" → Mergeable (.obj object) := by
        intro hne object' heq hmode'
        cases heq
        rw [hmode] at hmode'
        exact absurd (Option.some.inj hmode') hne
      split
      · next hcreate =>
        subst hcreate
        exact ⟨fun _ => hother (by decide), fun _ => decided_validateCreateIntent _ _⟩
      · split
        · next hmerge =>
          subst hmerge
          rw [decided_validateMergeIntent hn.1]
          refine ⟨fun h object' heq _ => ?_, fun h => h object rfl hmode⟩
          cases heq
          exact h
        · next hmerge => exact ⟨fun _ => hother hmerge, fun _ => decided_clientError _⟩
  | _ =>
    refine ⟨fun _ object heq => ?_, fun _ => decided_refuse⟩
    cases heq

/-- The intents are decided in their order, each after those before it were accepted. -/
theorem decided_validateIntentShapes {corpusId : String} : ∀ {intents : List Value}
    {seen : List IntentShape}, (∀ intent ∈ intents, intent.Normal) →
      (Decided (validateIntentShapes corpusId seen intents) ↔
        ∀ pre intent post shapes, intents = pre ++ intent :: post →
          validateIntentShapes corpusId seen pre = .ok shapes → Mergeable intent)
  | [], seen, _ => by
    refine ⟨fun _ pre intent post _ heq => ?_, fun _ => decided_ok _⟩
    simp at heq
  | intent :: intents, seen, hn => by
    rw [validateIntentShapes, decided_bind,
      decided_validateIntentShape (hn intent (by simp)) corpusId]
    have hdup : ∀ shape, Decided (do
        if seen.any fun s => s.schemaId == shape.schemaId then
          clientError "schemaMerges must not contain duplicate schemaId values"
        validateIntentShapes corpusId (seen ++ [shape]) intents : Result (List IntentShape)) ↔
        ((seen.any fun s => s.schemaId == shape.schemaId) = false →
          Decided (validateIntentShapes corpusId (seen ++ [shape]) intents)) := by
      intro shape
      dsimp only
      split
      · next hany => exact ⟨fun _ h => by simp [hany] at h, fun _ => decided_refuse⟩
      · next hany => exact ⟨fun h _ => h, fun h => h (by simpa using hany)⟩
    constructor
    · rintro ⟨hfirst, hrest⟩ pre target post shapes heq hpre
      rcases pre with _ | ⟨head, pre⟩
      · rw [List.nil_append] at heq
        cases heq
        exact hfirst
      · rw [List.cons_append] at heq
        cases heq
        rw [validateIntentShapes] at hpre
        obtain ⟨shape, hshape, hpre⟩ := bind_ok.mp hpre
        dsimp only at hpre
        split at hpre
        · cases hpre
        · next hany =>
          have hdec := (hdup shape).mp (hrest shape hshape) (by simpa using hany)
          exact (decided_validateIntentShapes fun i hi => hn i (by simp [hi])).mp hdec
            pre target post shapes rfl hpre
    · intro h
      refine ⟨h [] intent intents seen rfl rfl, ?_⟩
      intro shape hshape
      refine (hdup shape).mpr fun hany => ?_
      refine (decided_validateIntentShapes fun i hi => hn i (by simp [hi])).mpr ?_
      intro pre target post shapes heq hpre
      refine h (intent :: pre) target post shapes (by rw [heq]; rfl) ?_
      rw [validateIntentShapes, hshape]
      simp only [bind, Except.bind, hany]
      exact hpre

/-! ### Accepted intents -/

omit [Externals] in
theorem index_asStr (v : Value) (k : String) : (v.index k).asStr = (v.get k).bind Value.asStr := by
  rw [Value.index]
  rcases v.get k with _ | w <;> rfl

omit [Externals] in
theorem index_asU64 (v : Value) (k : String) : (v.index k).asU64 = (v.get k).bind Value.asU64 := by
  rw [Value.index]
  rcases v.get k with _ | w <;> rfl

omit [Externals] in
theorem index_asArray (v : Value) (k : String) :
    (v.index k).asArray = (v.get k).bind Value.asArray := by
  rw [Value.index]
  rcases v.get k with _ | w <;> rfl

/-- What is read of an alias that a request adds. -/
structure AliasShape (item : Value) : Prop where
  object : ∃ ms, item = .obj ms
    ∧ ∀ field ∈ ["label", "language", "source"], ∃ v, lookupKey field ms = some v

/-- What later steps read in an accepted merge intent. -/
structure MergeIntent (object : Object) : Prop where
  schemaId : ∃ s, (lookupKey "schemaId" object).bind Value.asStr = some s
  token : ∃ s, (lookupKey "expectedMergeToken" object).bind Value.asStr = some s
  contribution : ∃ s, (lookupKey "contributionDocumentId" object).bind Value.asStr = some s
  frequencyDelta : ∃ n, (lookupKey "frequencyDelta" object).bind Value.asU64 = some n
  stabilizationThreshold :
    ∃ n, (lookupKey "stabilizationThreshold" object).bind Value.asU64 = some n
  updatedAt : ∃ s, (lookupKey "updatedAt" object).bind Value.asStr = some s
  desiredState : ∃ s, (lookupKey "desiredState" object).bind Value.asStr = some s
  aliasAdditions : ∃ vs, (lookupKey "aliasAdditions" object).bind Value.asArray = some vs
    ∧ ∀ item ∈ vs, AliasShape item
  factIdAdditions : ∃ vs, (lookupKey "factIdAdditions" object).bind Value.asArray = some vs

/-- An accepted intent creates a schema or merges into one. -/
inductive IntentOk (intent : Value) : Prop
  | create (hmode : intentMode intent = some "create") (object : Object)
      (hobject : intent = .obj object)
      (hid : ∃ s, ((intent.index "schema").index "schemaId").asStr = some s)
  | merge (hmode : intentMode intent = some "merge") (object : Object)
      (hobject : intent = .obj object) (h : MergeIntent object)

omit [Externals] in
theorem expect_some {α : Type} {x : Option α} {message : String} {a : α}
    (h : expect x message = .ok a) : x = some a := by
  rcases x with _ | b
  · cases h
  · cases h
    rfl

theorem validateCreateIntent_ok {object : Object} {corpusId : String} {shape : IntentShape}
    (h : validateCreateIntent object corpusId = .ok shape) :
    ((((Value.obj object).index "schema").index "schemaId").asStr = some shape.schemaId) := by
  rw [validateCreateIntent] at h
  obtain ⟨_, -, h⟩ := bind_ok.mp h
  rcases hvalue : lookupKey "schema" object with _ | value
  · simp only [hvalue] at h
    split at h <;> cases h
  · simp only [hvalue] at h
    split at h
    · cases h
    obtain ⟨schema, hs, h⟩ := bind_ok.mp h
    cases hs
    obtain ⟨schema, hschema, h⟩ := bind_ok.mp h
    obtain ⟨id, hid, h⟩ := bind_ok.mp h
    cases h
    obtain ⟨rfl, -⟩ := validateSchemaValue_ok hschema
    have hindex : (Value.obj object).index "schema" = .obj schema := by
      rw [Value.index, Value.get, hvalue]
      rfl
    rw [hindex, index_asStr]
    exact expect_some hid

omit [Externals] in
theorem readUnique_ok {α β : Type} [DecidableEq β] {read : α → Result β} {duplicate : String} :
    ∀ {xs : List α} {seen ys : List β}, readUnique read duplicate seen xs = .ok ys →
      ∀ x ∈ xs, ∃ y, read x = .ok y
  | [], _, _, _ => by simp
  | x :: xs, seen, ys, h => by
    rw [readUnique] at h
    obtain ⟨y, hy, h⟩ := bind_ok.mp h
    dsimp only at h
    split at h
    · cases h
    · intro z hz
      rcases List.mem_cons.mp hz with rfl | hz
      · exact ⟨y, hy⟩
      · exact readUnique_ok h z hz

omit [Externals] in
theorem lookupKey_of_bind {α : Type} {f : Value → Option α} {object : Object} {k : String} {a : α}
    (h : (lookupKey k object).bind f = some a) : ∃ v, lookupKey k object = some v := by
  obtain ⟨v, hv, -⟩ := Option.bind_eq_some_iff.mp h
  exact ⟨v, hv⟩

theorem validateSchemaAlias_ok {item : Value} {label : String} {names : String × String × String}
    (h : validateSchemaAlias item label .admission = .ok names) : AliasShape item := by
  rw [validateSchemaAlias] at h
  cases item with
  | obj ms =>
    dsimp only [Value.asObject] at h
    obtain ⟨object, ho, h⟩ := bind_ok.mp h
    cases ho
    rw [if_pos rfl] at h
    obtain ⟨_, -, h⟩ := bind_ok.mp h
    obtain ⟨text, htext, h⟩ := bind_ok.mp h
    obtain ⟨language, hlanguage, h⟩ := bind_ok.mp h
    split at h
    · cases h
    obtain ⟨source, hsource, h⟩ := bind_ok.mp h
    refine ⟨ms, rfl, ?_⟩
    intro field hfield
    simp only [List.mem_cons, List.not_mem_nil, or_false] at hfield
    rcases hfield with rfl | rfl | rfl
    · exact lookupKey_of_bind (boundedObjectString_ok htext).1
    · exact lookupKey_of_bind (boundedObjectString_ok hlanguage).1
    · exact lookupKey_of_bind (boundedObjectString_ok hsource).1
  | _ => cases h

theorem validateMergeIntent_ok {object : Object} {shape : IntentShape}
    (h : validateMergeIntent object = .ok shape) : MergeIntent object
      ∧ (lookupKey "schemaId" object).bind Value.asStr = some shape.schemaId := by
  rw [validateMergeIntent] at h
  obtain ⟨_, -, h⟩ := bind_ok.mp h
  obtain ⟨schemaId, hschema, h⟩ := bind_ok.mp h
  obtain ⟨token, htoken, h⟩ := bind_ok.mp h
  obtain ⟨text, htext, h⟩ := bind_ok.mp h
  obtain ⟨contribution, hcontribution, h⟩ := bind_ok.mp h
  obtain ⟨delta, hdelta, h⟩ := bind_ok.mp h
  obtain ⟨threshold, hthreshold, h⟩ := bind_ok.mp h
  obtain ⟨updatedAt, hupdated, h⟩ := bind_ok.mp h
  split at h
  swap
  · cases h
  next state hstate =>
  split at h
  · cases h
  obtain ⟨aliases, haliases, h⟩ := bind_ok.mp h
  obtain ⟨_, hread, h⟩ := bind_ok.mp h
  obtain ⟨factIds, hids, h⟩ := bind_ok.mp h
  obtain ⟨_, -, h⟩ := bind_ok.mp h
  cases h
  have hschema := (boundedObjectString_ok hschema).1
  refine ⟨⟨⟨schemaId, hschema⟩, ?_, ⟨_, (boundedObjectString_ok hcontribution).1⟩,
    ⟨_, (safeU64Field_ok hdelta).1⟩, ⟨_, (safeU64Field_ok hthreshold).1⟩,
    ⟨_, (boundedObjectString_ok hupdated).1⟩, ⟨state, hstate⟩,
    ⟨_, expect_some haliases, ?_⟩, ⟨_, expect_some hids⟩⟩, hschema⟩
  · rw [expect_some htoken]
    rw [validateMergeToken] at htext
    split at htext
    · next found hfound => exact ⟨found, hfound⟩
    · cases htext
  · intro item hitem
    obtain ⟨names, hnames⟩ := readUnique_ok hread item hitem
    exact validateSchemaAlias_ok hnames

theorem validateIntentShape_ok {intent : Value} {corpusId : String} {shape : IntentShape}
    (h : validateIntentShape corpusId intent = .ok shape) : IntentOk intent := by
  rw [validateIntentShape] at h
  cases intent with
  | obj object =>
    dsimp only [Value.asObject] at h
    obtain ⟨object', ho, h⟩ := bind_ok.mp h
    cases ho
    split at h
    · cases h
    · next mode hmode =>
      split at h
      · next hcreate =>
        subst hcreate
        exact .create hmode object rfl ⟨_, validateCreateIntent_ok h⟩
      · split at h
        · next hmerge =>
          subst hmerge
          exact .merge hmode object rfl (validateMergeIntent_ok h).1
        · cases h
  | _ => cases h

theorem validateIntentShapes_ok {corpusId : String} : ∀ {intents : List Value}
    {seen shapes : List IntentShape}, validateIntentShapes corpusId seen intents = .ok shapes →
      ∀ intent ∈ intents, IntentOk intent
  | [], _, _, _ => by simp
  | intent :: intents, seen, shapes, h => by
    rw [validateIntentShapes] at h
    obtain ⟨shape, hshape, h⟩ := bind_ok.mp h
    dsimp only at h
    split at h
    · cases h
    · intro i hi
      rcases List.mem_cons.mp hi with rfl | hi
      · exact validateIntentShape_ok hshape
      · exact validateIntentShapes_ok h i hi

omit [Externals] in
theorem decided_storedIntentSchemas (corpusId : String) (ids : List String) :
    ∀ (schemas : List Value) (found : List (String × Value)),
      Decided (storedIntentSchemas corpusId ids found schemas)
  | [], found => decided_ok found
  | schema :: schemas, found => by
    rw [storedIntentSchemas]
    refine decided_bind.mpr ⟨decided_validateStoredSectionItem _ _ _ _, fun _ hitem => ?_⟩
    refine decided_bind.mpr ⟨decided_expect.mpr ?_, fun schemaId _ => ?_⟩
    · obtain ⟨id, hid, -⟩ := (validateStoredSectionItem_ok hitem).id
      exact ⟨id, hid⟩
    · split
      · exact decided_guard fun _ => decided_storedIntentSchemas corpusId ids schemas _
      · exact decided_storedIntentSchemas corpusId ids schemas found

theorem decided_validateIntentTarget {intent : Value} (h : IntentOk intent) (corpusId : String)
    (stored : List (String × Value)) : Decided (validateIntentTarget corpusId stored intent) := by
  rw [validateIntentTarget]
  cases h with
  | create hmode object hobject hid =>
    rw [if_pos hmode]
    refine decided_bind.mpr ⟨decided_expect.mpr hid, fun _ _ => ?_⟩
    exact decided_guard fun _ => decided_ok _
  | merge hmode object hobject h =>
    have hne : intentMode intent ≠ some "create" := by
      rw [hmode]
      decide
    rw [if_neg hne]
    subst hobject
    refine decided_bind.mpr ⟨decided_expect.mpr ?_, fun schemaId _ => ?_⟩
    · rw [index_asStr]
      exact h.schemaId
    dsimp only
    split
    swap
    · exact decided_refuse
    refine decided_bind.mpr ⟨decided_ok _, fun schema _ => ?_⟩
    refine decided_bind.mpr ⟨decided_validateSchemaValue _ _ _ _, fun current hcurrent => ?_⟩
    obtain ⟨-, hshape⟩ := validateSchemaValue_ok hcurrent
    refine decided_bind.mpr ⟨decided_expect.mpr ?_, fun expected _ => ?_⟩
    · rw [index_asStr]
      exact h.token
    refine decided_guard fun _ => ?_
    refine decided_bind.mpr ⟨decided_expect.mpr ?_, fun contribution _ => ?_⟩
    · rw [index_asStr]
      exact h.contribution
    refine decided_bind.mpr ⟨decided_expect.mpr ?_, fun sources _ => ?_⟩
    · exact hshape.ids "sourceDocumentIds" (by simp)
    refine decided_bind.mpr ⟨decided_expect.mpr ?_, fun delta _ => ?_⟩
    · rw [index_asU64]
      exact h.frequencyDelta
    refine decided_guard fun _ => decided_guard fun _ => ?_
    refine decided_bind.mpr ⟨decided_expect.mpr ?_, fun frequency _ => ?_⟩
    · obtain ⟨n, hn, -⟩ := hshape.frequency
      exact ⟨n, hn⟩
    split
    · exact decided_clientError _
    · exact decided_ok _

/-- The intents of a request are decided when, one after another, their shapes are. -/
theorem decided_validateSchemaMergeIntents (snapshots : Map Value) (corpusId : String)
    {intents : List Value} :
    Decided (validateSchemaMergeIntents snapshots corpusId intents) ↔
      (intents ≠ [] → intents.length ≤ maxCanonicalizationSchemas →
        Decided (validateIntentShapes corpusId [] intents)) := by
  have hrest : ∀ shapes, validateIntentShapes corpusId [] intents = .ok shapes → Decided (do
      if maxSchemaAliasAdditions < (shapes.map (·.aliasAdditions)).sum then
        clientError ("schema alias additions must not exceed " ++
          toString maxSchemaAliasAdditions)
      if maxSchemaFactIdAdditions < (shapes.map (·.factIdAdditions)).sum then
        clientError ("schema fact ID additions must not exceed " ++
          toString maxSchemaFactIdAdditions)
      let schemas ← storedItems snapshots corpusId "schemas"
      let stored ← storedIntentSchemas corpusId (shapes.map (·.schemaId)) [] schemas
      checkAll (validateIntentTarget corpusId stored) intents : Result Unit) := by
    intro shapes hshapes
    refine decided_guard fun _ => decided_guard fun _ => ?_
    refine decided_bind.mpr ⟨decided_storedItems _ _ _, fun schemas _ => ?_⟩
    refine decided_bind.mpr ⟨decided_storedIntentSchemas _ _ _ _, fun stored _ => ?_⟩
    refine decided_checkAll fun intent hintent => ?_
    exact decided_validateIntentTarget (validateIntentShapes_ok hshapes intent hintent) _ _
  rw [validateSchemaMergeIntents]
  dsimp only
  split
  · next hlength =>
    refine ⟨fun _ hne hle => ?_, fun _ => decided_refuse⟩
    rcases hlength with hempty | hlt
    · exact absurd (List.isEmpty_iff.mp hempty) hne
    · omega
  · next hlength =>
    rw [decided_bind]
    refine ⟨fun h _ _ => h.1, fun h => ⟨h ?_ ?_, hrest⟩⟩
    · intro hempty
      exact hlength (.inl (List.isEmpty_iff.mpr hempty))
    · by_contra hlt
      exact hlength (.inr (not_le.mp hlt))

/-! ### Hydration -/

omit [Externals] in
theorem decided_findSchema (corpusId schemaId : String) :
    ∀ (schemas : List Value) (found : Option Value),
      Decided (findSchema corpusId schemaId found schemas)
  | [], found => decided_ok found
  | schema :: schemas, found => by
    rw [findSchema]
    refine decided_bind.mpr ⟨decided_validateStoredSectionItem _ _ _ _, fun _ _ => ?_⟩
    split
    · exact decided_findSchema corpusId schemaId schemas found
    · split
      · exact decided_clientError _
      · exact decided_findSchema corpusId schemaId schemas (some schema)

omit [Externals] in
theorem decided_schemaForHydration (snapshots : Map Value) (corpusId schemaId : String) :
    Decided (schemaForHydration snapshots corpusId schemaId) := by
  rw [schemaForHydration]
  refine decided_bind.mpr ⟨decided_storedItems _ _ _, fun schemas _ => ?_⟩
  refine decided_bind.mpr ⟨decided_findSchema _ _ _ _, fun found _ => ?_⟩
  split
  · exact decided_ok _
  · exact decided_clientError _

theorem decided_validateMarker (snapshots : Map Value) (nodeKeys : List (String × String))
    (marker : Value) : Decided (validateMarker snapshots nodeKeys marker) := by
  rw [validateMarker]
  dsimp only
  split
  swap
  · exact decided_refuse
  refine decided_bind.mpr ⟨decided_ok _, fun object _ => ?_⟩
  refine decided_bind.mpr ⟨decided_requireExactObjectKeys _ _ _, fun _ _ => ?_⟩
  refine decided_bind.mpr ⟨decided_boundedObjectString _ _ _ _, fun nodeId _ => ?_⟩
  refine decided_bind.mpr ⟨decided_boundedObjectString _ _ _ _, fun corpusId _ => ?_⟩
  refine decided_bind.mpr ⟨decided_boundedObjectString _ _ _ _, fun schemaId _ => ?_⟩
  refine decided_bind.mpr ⟨decided_boundedObjectString _ _ _ _, fun nodeLabel _ => ?_⟩
  refine decided_guard fun _ => decided_guard fun _ => ?_
  refine decided_bind.mpr ⟨decided_schemaForHydration _ _ _, fun value _ => ?_⟩
  refine decided_bind.mpr ⟨decided_validateSchemaValue _ _ _ _, fun schema hschema => ?_⟩
  have htext := (validateSchemaValue_ok hschema).2.text
  refine decided_bind.mpr ⟨decided_expect.mpr (htext "headType" (by simp)), fun head _ => ?_⟩
  refine decided_bind.mpr ⟨decided_expect.mpr (htext "relation" (by simp)), fun relation _ => ?_⟩
  refine decided_bind.mpr ⟨decided_expect.mpr (htext "tailType" (by simp)), fun tail _ => ?_⟩
  exact decided_guard fun _ => decided_ok _

omit [Externals] in
/-- A list that is there and is read is some list. -/
theorem optionalArray_of_isSome {params : Object} {name : String} {found : Option (List Value)}
    (h : optionalArray params name = .ok found) (hs : (lookupKey name params).isSome = true) :
    ∃ items, found = some items := by
  rw [optionalArray] at h
  split at h
  · next hnone =>
    rw [hnone] at hs
    cases hs
  · split at h
    · cases h
      exact ⟨_, rfl⟩
    · cases h

theorem decided_validateSchemaNodeHydrations (snapshots : Map Value) (params : Object) :
    Decided (validateSchemaNodeHydrations snapshots params) := by
  rw [validateSchemaNodeHydrations]
  dsimp only
  split
  · exact decided_ok _
  · split
    · exact decided_refuse
    · next hboth =>
      simp only [Bool.not_eq_true', Bool.not_eq_false, Bool.and_eq_true] at hboth
      refine decided_bind.mpr ⟨decided_rejectUnknownParams _ _, fun _ _ => ?_⟩
      refine decided_guard fun _ => ?_
      refine decided_bind.mpr ⟨decided_optionalArray _ _, fun found hfound => ?_⟩
      refine decided_bind.mpr
        ⟨decided_expect.mpr (optionalArray_of_isSome hfound hboth.2), fun markers _ => ?_⟩
      refine decided_guard fun _ => ?_
      refine decided_bind.mpr ⟨decided_optionalArray _ _, fun nodes _ => ?_⟩
      refine decided_bind.mpr ⟨decided_mapM (fun node => ?_) _, fun nodeKeys _ => ?_⟩
      · split
        · exact decided_ok _
        · exact decided_clientError _
      · refine decided_bind.mpr ⟨decided_foldlM (fun keys marker => ?_) _ _, fun _ _ => decided_ok _⟩
        exact decided_validateMarker snapshots keys marker

/-! ### Requests -/

theorem decided_validateRecords {α : Type} (params : Object) (name : String) (d : Reader α)
    (label : String) {check : α → Result Unit} (h : ∀ record, Decided (check record)) :
    Decided (validateRecords params name d label check) := by
  rw [validateRecords]
  refine decided_bind.mpr ⟨decided_optionalArray _ _, fun found _ => ?_⟩
  split
  · exact decided_ok _
  · refine decided_checkAll fun item _ => ?_
    split
    · exact h _
    · exact decided_clientError _

omit [Externals] in
theorem decided_validateVectorRecord (record : VectorRecord) :
    Decided (validateVectorRecord record) := by
  rw [validateVectorRecord]
  split
  · exact decided_clientError _
  · split
    · exact decided_clientError _
    · exact decided_ok _

omit [Externals] in
theorem decided_validateUpsertItem (sect idKey : String) (item : Value) :
    Decided (validateUpsertItem sect idKey item) := by
  rw [validateUpsertItem]
  dsimp only
  split
  swap
  · exact decided_refuse
  refine decided_bind.mpr ⟨decided_ok _, fun object _ => ?_⟩
  split
  swap
  · exact decided_refuse
  refine decided_bind.mpr ⟨decided_ok _, fun id _ => ?_⟩
  exact decided_guard fun _ => decided_ok _

omit [Externals] in
theorem decided_validateUpsertItemContent (corpusId sect : String) (item : Value) :
    Decided (validateUpsertItemContent corpusId sect item) := by
  rw [validateUpsertItemContent]
  refine decided_bind.mpr ⟨decided_validateEmbeddedCorpus _ _ _, fun _ _ => ?_⟩
  split
  · exact decided_validateFactSchemaAndState _ _
  · exact decided_ok _

omit [Externals] in
theorem decided_validateUpsertItems (corpusId sect idKey : String) :
    ∀ (items : List Value) (seen : List String),
      Decided (validateUpsertItems corpusId sect idKey seen items)
  | [], seen => decided_ok ()
  | item :: items, seen => by
    rw [validateUpsertItems]
    refine decided_bind.mpr ⟨decided_validateUpsertItem _ _ _, fun id _ => ?_⟩
    refine decided_guard fun _ => ?_
    refine decided_bind.mpr ⟨decided_validateUpsertItemContent _ _ _, fun _ _ => ?_⟩
    exact decided_validateUpsertItems corpusId sect idKey items (seen ++ [id])

omit [Externals] in
theorem decided_validateUpsertSection (params : Object) (corpusId sect idKey : String) :
    Decided (validateUpsertSection params corpusId sect idKey) := by
  rw [validateUpsertSection]
  refine decided_bind.mpr ⟨decided_optionalArray _ _, fun found _ => ?_⟩
  split
  · exact decided_ok _
  · exact decided_guard fun _ => decided_validateUpsertItems _ _ _ _ _

omit [Externals] in
theorem decided_validateNamedObject (params : Object) (name idKey : String) :
    Decided (validateNamedObject params name idKey) := by
  rw [validateNamedObject]
  dsimp only
  split
  swap
  · exact decided_refuse
  refine decided_bind.mpr ⟨decided_ok _, fun value _ => ?_⟩
  split
  swap
  · exact decided_refuse
  refine decided_bind.mpr ⟨decided_ok _, fun object _ => ?_⟩
  split
  · split
    · exact decided_clientError _
    · exact decided_ok _
  · exact decided_clientError _

omit [Externals] in
theorem decided_validateLexicalPassage (item : Value) :
    Decided (validateLexicalPassage item) := by
  rw [validateLexicalPassage]
  dsimp only
  split
  swap
  · exact decided_refuse
  refine decided_bind.mpr ⟨decided_ok _, fun object _ => ?_⟩
  split
  · exact decided_refuse
  refine decided_guard fun _ => ?_
  split
  · exact decided_refuse
  refine decided_guard fun _ => ?_
  split
  · exact decided_ok _
  · split
    · exact decided_clientError _
    · exact decided_ok _

omit [Externals] in
theorem decided_validateLexicalIndexPassages (params : Object) :
    Decided (validateLexicalIndexPassages params) := by
  rw [validateLexicalIndexPassages]
  refine decided_bind.mpr ⟨decided_optionalString _ _, fun corpusId _ => ?_⟩
  refine decided_guard fun _ => ?_
  refine decided_bind.mpr ⟨decided_optionalArray _ _, fun found _ => ?_⟩
  split
  · exact decided_ok _
  · exact decided_checkAll fun item _ => decided_validateLexicalPassage item

omit [Externals] in
theorem decided_validateCorpusDocument (params : Object) :
    Decided (validateCorpusDocument params) := by
  rw [validateCorpusDocument]
  refine decided_bind.mpr ⟨decided_optionalString _ _, fun _ _ => ?_⟩
  exact decided_bind.mpr ⟨decided_optionalString _ _, fun _ _ => decided_ok _⟩

theorem decided_validateActivateFacts (mem : Memory) (req : RpcRequest) (params : Object) :
    Decided (validateActivateFacts mem req params) := by
  rw [validateActivateFacts]
  refine decided_bind.mpr ⟨decided_validateIndexingRequestSize _, fun _ _ => ?_⟩
  refine decided_bind.mpr ⟨decided_requireExactParams _ _, fun _ _ => ?_⟩
  refine decided_bind.mpr ⟨decided_boundedRequiredString _ _ _, fun _ _ => ?_⟩
  refine decided_bind.mpr ⟨decided_boundedUniqueIds _ _ _ _, fun _ _ => ?_⟩
  refine decided_bind.mpr ⟨decided_boundedRequiredString _ _ _, fun _ _ => ?_⟩
  exact decided_validateStoredFactsForActivation _ _

theorem decided_validateMemoryDeleteDocument (mem : Memory) (req : RpcRequest) (params : Object) :
    Decided (validateMemoryDeleteDocument mem req params) := by
  rw [validateMemoryDeleteDocument]
  refine decided_bind.mpr ⟨decided_validateIndexingRequestSize _, fun _ _ => ?_⟩
  refine decided_bind.mpr ⟨decided_requireExactParams _ _, fun _ _ => ?_⟩
  refine decided_bind.mpr ⟨decided_boundedRequiredString _ _ _, fun _ _ => ?_⟩
  refine decided_bind.mpr ⟨decided_boundedRequiredString _ _ _, fun _ _ => ?_⟩
  refine decided_bind.mpr ⟨decided_boundedRequiredString _ _ _, fun _ _ => ?_⟩
  exact decided_validateStoredSnapshotForUpsert _ _

/-- The checks of a memory upsert that come before its merge intents. -/
structure UpsertChecks (mem : Memory) (req : RpcRequest) (params : Object) (corpusId : String) :
    Prop where
  size : validateIndexingRequestSize req = .ok ()
  known : rejectUnknownParams params
    ["corpusId", "passages", "facts", "schemas", "schemaMerges", "exportedAt"] = .ok ()
  corpus : boundedRequiredString params "corpusId" maxIndexingCorpusIdBytes = .ok corpusId
  exclusive : ¬ ((lookupKey "schemaMerges" params).isSome ∧ (lookupKey "schemas" params).isSome)
  sections : checkAll (fun s => validateUpsertSection params corpusId s.1 s.2) snapshotSections
    = .ok ()
  exportedAt : ∀ value, lookupKey "exportedAt" params = some value →
    ∃ s, value.asStr = some s ∧ s.utf8ByteSize ≤ maxIndexingUpdatedAtBytes
  stored : validateStoredSnapshotForUpsert mem.state.snapshots corpusId = .ok ()

/-- The additions of every merge intent that the checks come to are lists. -/
def AdditionsListed (mem : Memory) (req : RpcRequest) : Prop :=
  ∀ params corpusId intents, req.method = "memory_upsert" → req.params = .obj params →
    UpsertChecks mem req params corpusId → lookupKey "schemaMerges" params = some (.arr intents) →
    intents ≠ [] → intents.length ≤ maxCanonicalizationSchemas →
    ∀ pre object post shapes, intents = pre ++ .obj object :: post →
      validateIntentShapes corpusId [] pre = .ok shapes →
      (lookupKey "mode" object).bind Value.asStr = some "merge" → MergeFields object →
      AdditionsAreLists object

/-- What a memory upsert does from its merge intents on. -/
theorem decided_merges (mem : Memory) {params : Object} (hn : (Value.obj params).Normal)
    (corpusId : String) :
    Decided (do
      match ← optionalArray params "schemaMerges" with
      | none => return ()
      | some intents => validateSchemaMergeIntents mem.state.snapshots corpusId intents
        : Result Unit) ↔
    ∀ intents, lookupKey "schemaMerges" params = some (.arr intents) → intents ≠ [] →
      intents.length ≤ maxCanonicalizationSchemas →
      ∀ pre object post shapes, intents = pre ++ .obj object :: post →
        validateIntentShapes corpusId [] pre = .ok shapes →
        (lookupKey "mode" object).bind Value.asStr = some "merge" → MergeFields object →
        AdditionsAreLists object := by
  have hnormal : ∀ intents, lookupKey "schemaMerges" params = some (.arr intents) →
      ∀ intent ∈ intents, intent.Normal := by
    intro intents hl
    have hv := normalMembers_iff.mp hn.2 _ (mem_of_lookupKey hl)
    exact normalItems_iff.mp hv
  rw [decided_bind]
  rcases hl : lookupKey "schemaMerges" params with _ | value
  · have harray : optionalArray params "schemaMerges" = .ok none := by rw [optionalArray, hl]
    rw [harray]
    refine ⟨fun _ intents h => (by cases h), fun _ => ⟨decided_ok _, ?_⟩⟩
    intro found hfound
    cases hfound
    exact decided_ok _
  · rcases ha : value.asArray with _ | intents
    · have harray : optionalArray params "schemaMerges"
          = clientError ("schemaMerges" ++ " must be an array") := by
        simp only [optionalArray, hl, ha]
      rw [harray]
      refine ⟨fun _ intents h => ?_, fun _ => ⟨decided_clientError _, ?_⟩⟩
      · cases h
        cases ha
      · intro found hfound
        cases hfound
    · obtain rfl : value = .arr intents := by
        cases value with
        | arr vs =>
          cases ha
          rfl
        | _ => cases ha
      have harray : optionalArray params "schemaMerges" = .ok (some intents) := by
        simp only [optionalArray, hl, ha]
      rw [harray]
      have hshapes : Decided (validateIntentShapes corpusId [] intents) ↔
          ∀ pre intent post shapes, intents = pre ++ intent :: post →
            validateIntentShapes corpusId [] pre = .ok shapes → Mergeable intent :=
        decided_validateIntentShapes (hnormal intents hl)
      constructor
      · rintro ⟨-, h⟩ intents' heq hne hle pre object post shapes hsplit hpre hmode hfields
        cases heq
        have hd := (decided_validateSchemaMergeIntents _ corpusId).mp (h _ rfl) hne hle
        exact hshapes.mp hd pre _ post shapes hsplit hpre object rfl hmode hfields
      · intro h
        refine ⟨decided_ok _, ?_⟩
        intro found hfound
        cases hfound
        refine (decided_validateSchemaMergeIntents _ corpusId).mpr fun hne hle => hshapes.mpr ?_
        rintro pre intent post shapes hsplit hpre object rfl hmode hfields
        exact h intents rfl hne hle pre object post shapes hsplit hpre hmode hfields

theorem decided_validateMemoryUpsert (mem : Memory) {req : RpcRequest} {params : Object}
    (hn : (Value.obj params).Normal) :
    Decided (validateMemoryUpsert mem req params) ↔
      ∀ corpusId intents, UpsertChecks mem req params corpusId →
        lookupKey "schemaMerges" params = some (.arr intents) → intents ≠ [] →
        intents.length ≤ maxCanonicalizationSchemas →
        ∀ pre object post shapes, intents = pre ++ .obj object :: post →
          validateIntentShapes corpusId [] pre = .ok shapes →
          (lookupKey "mode" object).bind Value.asStr = some "merge" → MergeFields object →
          AdditionsAreLists object := by
  rw [validateMemoryUpsert]
  constructor
  · intro h corpusId intents hc
    have h := (decided_bind.mp h).2 () hc.size
    have h := (decided_bind.mp h).2 () hc.known
    have h := (decided_bind.mp h).2 corpusId hc.corpus
    dsimp only at h
    rw [if_neg hc.exclusive] at h
    have h := (decided_bind.mp h).2 () hc.sections
    have hlast := fun h' => (decided_merges mem hn corpusId).mp h' intents
    split at h
    · exact hlast ((decided_bind.mp h).2 () hc.stored)
    · next value hvalue =>
      obtain ⟨s, hs, hle⟩ := hc.exportedAt value hvalue
      simp only [hs, if_neg (Nat.not_lt.mpr hle)] at h
      exact hlast ((decided_bind.mp h).2 () hc.stored)
  · intro h
    refine decided_bind.mpr ⟨decided_validateIndexingRequestSize _, fun _ hsize => ?_⟩
    refine decided_bind.mpr ⟨decided_rejectUnknownParams _ _, fun _ hknown => ?_⟩
    refine decided_bind.mpr ⟨decided_boundedRequiredString _ _ _, fun corpusId hcorpus => ?_⟩
    refine decided_guard fun hexclusive => ?_
    refine decided_bind.mpr ⟨decided_checkAll fun s _ => decided_validateUpsertSection _ _ _ _,
      fun _ hsections => ?_⟩
    have hlast : (∀ value, lookupKey "exportedAt" params = some value →
        ∃ s, value.asStr = some s ∧ s.utf8ByteSize ≤ maxIndexingUpdatedAtBytes) → Decided (do
          validateStoredSnapshotForUpsert mem.state.snapshots corpusId
          match ← optionalArray params "schemaMerges" with
          | none => return ()
          | some intents => validateSchemaMergeIntents mem.state.snapshots corpusId intents
            : Result Unit) := by
      intro hexported
      refine decided_bind.mpr ⟨decided_validateStoredSnapshotForUpsert _ _, fun _ hstored => ?_⟩
      refine (decided_merges mem hn corpusId).mpr fun intents => h corpusId intents ?_
      exact ⟨hsize, hknown, hcorpus, hexclusive, hsections, hexported, hstored⟩
    dsimp only
    split
    · next hnone =>
      refine hlast ?_
      intro value hvalue
      rw [hnone] at hvalue
      cases hvalue
    · next value hvalue =>
      split
      · next s hs =>
        refine decided_guard fun hle => hlast ?_
        intro value' hvalue'
        rw [hvalue] at hvalue'
        cases hvalue'
        exact ⟨s, hs, Nat.not_lt.mp hle⟩
      · exact decided_refuse

/-- Every request is accepted or refused, exactly when the additions of its merge intents are lists
where the checks come to them. -/
theorem validateMutationParams_decided_iff (mem : Memory) {req : RpcRequest}
    (hn : req.params.Normal) :
    Decided (validateMutationParams mem req) ↔ AdditionsListed mem req := by
  rw [validateMutationParams]
  cases hparams : req.params with
  | obj params =>
    rw [hparams] at hn
    have hobject : mutationParamsObject (.obj params) = .ok params := rfl
    rw [hobject]
    have hbind : ∀ {f : Object → Result Unit},
        Decided ((.ok params : Result Object) >>= f) ↔ Decided (f params) := Iff.rfl
    rw [hbind]
    by_cases hupsert : req.method = "memory_upsert"
    · simp only [hupsert]
      rw [decided_validateMemoryUpsert mem hn, AdditionsListed]
      refine ⟨fun h params' corpusId intents _ heq => ?_, fun h corpusId intents => ?_⟩
      · rw [hparams] at heq
        cases heq
        exact h corpusId intents
      · exact h params corpusId intents hupsert hparams
    · refine ⟨fun _ params' corpusId intents hm => absurd hm hupsert, fun _ => ?_⟩
      split
      · refine decided_bind.mpr ⟨decided_validateRecords _ _ _ _ fun _ => decided_ok _, fun _ _ => ?_⟩
        exact decided_validateSchemaNodeHydrations _ _
      · exact decided_validateRecords _ _ _ _ fun _ => decided_ok _
      · exact decided_bind.mpr ⟨decided_optionalString _ _, fun _ _ => decided_validateStringArray _ _⟩
      · exact decided_bind.mpr ⟨decided_optionalString _ _, fun _ _ => decided_validateStringArray _ _⟩
      · exact decided_validateCorpusDocument _
      · exact decided_bind.mpr ⟨decided_optionalString _ _, fun _ _ => decided_ok _⟩
      · exact decided_validateRecords _ _ _ _ decided_validateVectorRecord
      · exact decided_validateCorpusDocument _
      · next hm => exact absurd hm hupsert
      · exact decided_validateActivateFacts _ _ _
      · exact decided_validateMemoryDeleteDocument _ _ _
      · exact decided_validateNamedObject _ _ _
      · exact decided_validateNamedObject _ _ _
      · exact decided_validateLexicalIndexPassages _
      · exact decided_validateCorpusDocument _
      · exact decided_clientError _
      · exact decided_clientError _
  | _ =>
    refine ⟨fun _ params' corpusId intents _ heq => ?_, fun _ => decided_refuse⟩
    rw [hparams] at heq
    cases heq

end Schemas

attribute [local instance] Concrete.externals

/-- A merge intent with these alias additions. -/
def mergeIntent (aliasAdditions : Value) : Object :=
  [("aliasAdditions", aliasAdditions), ("contributionDocumentId", .str "d"),
    ("desiredState", .str "stable"),
    ("expectedMergeToken", .str (hex (List.replicate 32 0))), ("factIdAdditions", .arr []),
    ("frequencyDelta", numU64 1), ("mode", .str "merge"), ("schemaId", .str "s"),
    ("stabilizationThreshold", numU64 1), ("updatedAt", .str "t")]

/-- A memory upsert of one merge intent. -/
def mergeRequest (aliasAdditions : Value) : RpcRequest :=
  ⟨1, "memory_upsert", .obj [("corpusId", .str "c"),
    ("schemaMerges", .arr [.obj (mergeIntent aliasAdditions)])]⟩

theorem mergeRequest_normal {aliasAdditions : Value} (h : aliasAdditions.Normal) :
    (mergeRequest aliasAdditions).params.Normal := by
  have hkeys : Sorted (mergeIntent aliasAdditions) := by
    simp only [Sorted, mergeIntent, List.pairwise_cons, List.mem_cons, List.not_mem_nil, or_false,
      forall_eq_or_imp, forall_eq, false_implies, implies_true, List.Pairwise.nil, and_true]
    decide
  have hmembers : NormalMembers (mergeIntent aliasAdditions) :=
    ⟨h, trivial, trivial, trivial, trivial, trivial, trivial, trivial, trivial, trivial, trivial⟩
  refine ⟨?_, trivial, ⟨⟨hkeys, hmembers⟩, trivial⟩, trivial⟩
  simp only [Sorted, List.pairwise_cons, List.mem_cons, List.not_mem_nil, or_false, forall_eq,
    false_implies, implies_true, List.Pairwise.nil, and_true]
  decide

/-- Alias additions that are null end the process. -/
theorem validateMutationParams_panics :
    (mergeRequest .null).params.Normal ∧ validateMutationParams ⟨.default, ∅⟩ (mergeRequest .null)
      = .error (.panic "exact merge fields checked above") := by
  refine ⟨mergeRequest_normal trivial, ?_⟩
  have h : (match validateMutationParams ⟨.default, ∅⟩ (mergeRequest .null) with
      | .error (.panic message) => message == "exact merge fields checked above"
      | _ => false) = true := by
    decide +kernel
  split at h
  · next message heq =>
    rw [heq, beq_iff_eq.mp h]
  · cases h

theorem validateMutationParams_decided_iff_empty :
    Decided (validateMutationParams ⟨.default, ∅⟩ (mergeRequest (.arr []))) := by
  have hn : (Value.arr []).Normal := trivial
  refine (validateMutationParams_decided_iff _ (mergeRequest_normal hn)).mpr ?_
  intro params corpusId intents _ hparams _ hl _ _ pre object post shapes hsplit _ _ _
  cases hparams
  cases hl
  rcases pre with _ | ⟨head, pre⟩
  · cases hsplit
    exact ⟨[], rfl, fun _ => ⟨[], rfl⟩⟩
  · rw [List.cons_append] at hsplit
    have htail := (List.cons.inj hsplit).2
    simp at htail

end AiraGraphdb.Native
