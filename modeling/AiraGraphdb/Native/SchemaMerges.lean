import AiraGraphdb.Native.Applicable
import AiraGraphdb.Schemes.Run

/-! # Merging into stored schemas

A client that merges into a schema shows the token of the value it has read. The intents of a
request are all checked against the schemas that are stored, and then applied one after another; no
two are about the same schema, and the one that each names is stored once. So the schema an intent
is applied to is the one it was checked against, and the one its client has read. -/

namespace AiraGraphdb.Native

open Schemes Schemes.Json

/-! ### Lists that only grow -/

section Gains

variable {α β : Type} {key : α → β} {old additions new : List α}

/-- A list with additions behind it: in their order, each once, and none that is there already. -/
structure Gains (key : α → β) (old additions new : List α) : Prop where
  appended : ∃ added, new = old ++ added ∧ added.Sublist additions ∧ (added.map key).Nodup
    ∧ ∀ a ∈ added, key a ∉ old.map key
  complete : ∀ a ∈ additions, key a ∈ new.map key

theorem gains_nil (key : α → β) (old : List α) : Gains key old [] old :=
  ⟨⟨[], by simp, .refl _, .nil, by simp⟩, by simp⟩

/-- One more that is there already. -/
theorem Gains.skip (h : Gains key old additions new) {a : α} (ha : key a ∈ new.map key) :
    Gains key old (additions ++ [a]) new := by
  obtain ⟨added, hnew, hsub, hnodup, hfresh⟩ := h.appended
  refine ⟨⟨added, hnew, hsub.trans (List.sublist_append_left _ _), hnodup, hfresh⟩, ?_⟩
  intro b hb
  rcases List.mem_append.mp hb with hb | hb
  · exact h.complete b hb
  · rwa [List.mem_singleton.mp hb]

/-- One more that is new. -/
theorem Gains.add (h : Gains key old additions new) {a : α} (ha : key a ∉ new.map key) :
    Gains key old (additions ++ [a]) (new ++ [a]) := by
  obtain ⟨added, rfl, hsub, hnodup, hfresh⟩ := h.appended
  rw [List.map_append, List.mem_append, not_or] at ha
  refine ⟨⟨added ++ [a], List.append_assoc _ _ _, hsub.append (.refl _), ?_, ?_⟩, ?_⟩
  · rw [List.map_append, List.nodup_append]
    refine ⟨hnodup, by simp, ?_⟩
    intro k hk k' hk' heq
    obtain rfl : k' = key a := by simpa using hk'
    exact ha.2 (heq ▸ hk)
  · intro b hb
    rcases List.mem_append.mp hb with hb | hb
    · exact hfresh b hb
    · rw [List.mem_singleton.mp hb]
      exact ha.1
  · intro b hb
    rw [List.map_append, List.mem_append]
    rcases List.mem_append.mp hb with hb | hb
    · exact .inl (h.complete b hb)
    · rw [List.mem_singleton.mp hb]
      exact .inr (by simp)

end Gains

/-! ### What a merge adds -/

theorem beq_str {v : Value} {s : String} : v.beq (.str s) = true ↔ v = .str s := by
  cases v <;> simp [Value.beq]

theorem str_beq {v : Value} {s : String} : (Value.str s).beq v = true ↔ v = .str s := by
  cases v with
  | str t =>
    simp only [Value.beq, beq_iff_eq, Value.str.injEq]
    exact eq_comm
  | _ => simp [Value.beq]

theorem asStr_eq_some {v : Value} {s : String} : v.asStr = some s ↔ v = .str s := by
  cases v <;> simp [Value.asStr]

/-- Texts are added as they are. -/
theorem addMissing_gains (items : List Value) {additions : List Value}
    (h : ∀ a ∈ additions, ∃ s, a = .str s) :
    Gains id items additions (addMissing items additions) := by
  induction additions using List.reverseRecOn with
  | nil => exact gains_nil id items
  | append_singleton additions a ih =>
    have ih := ih fun b hb => h b (List.mem_append_left _ hb)
    obtain ⟨s, rfl⟩ := h a (by simp)
    rw [addMissing, List.foldl_append, List.foldl_cons, List.foldl_nil, ← addMissing]
    have hany : (addMissing items additions).any ((Value.str s).beq ·) = true
        ↔ Value.str s ∈ addMissing items additions := by
      rw [List.any_eq_true]
      constructor
      · rintro ⟨v, hv, hsame⟩
        rwa [← str_beq.mp hsame]
      · intro hmem
        exact ⟨_, hmem, str_beq.mpr rfl⟩
    split
    · next hthere => exact ih.skip (by simpa using hany.mp hthere)
    · next hnew => exact ih.add (by simpa using fun hmem => hnew (hany.mpr hmem))

/-- The names by which aliases are told apart. -/
def aliasNames (item : Value) : Value × Value × Value :=
  (item.index "label", item.index "language", item.index "source")

/-- An alias whose names are texts. -/
def NamedAlias (item : Value) : Prop :=
  ∃ ms, item = .obj ms ∧ ∀ field ∈ ["label", "language", "source"],
    ∃ s, lookupKey field ms = some (.str s)

theorem indexKey_ok {object : Object} {k : String} {v : Value} :
    indexKey object k = .ok v ↔ lookupKey k object = some v := expect_ok

theorem index_of_lookup {ms : Object} {k : String} {v : Value} (h : lookupKey k ms = some v) :
    (Value.obj ms).index k = v := by
  rw [Value.index, Value.get, h]
  rfl

theorem sameAlias_iff {ms : Object} (h : NamedAlias (.obj ms)) (stored : Value) :
    ∃ b, sameAlias ms stored = .ok b ∧ (b = true ↔ aliasNames stored = aliasNames (.obj ms)) := by
  obtain ⟨_, hobj, hfields⟩ := h
  cases hobj
  obtain ⟨label, hl⟩ := hfields "label" (by simp)
  obtain ⟨language, hg⟩ := hfields "language" (by simp)
  obtain ⟨source, hs⟩ := hfields "source" (by simp)
  rw [aliasNames, aliasNames, index_of_lookup hl, index_of_lookup hg, index_of_lookup hs,
    sameAlias, indexKey_of_some hl, indexKey_of_some hg, indexKey_of_some hs]
  simp only [bind, Except.bind, pure, Except.pure, Prod.mk.injEq]
  by_cases hlabel : stored.index "label" = .str label
  · have hbeq := beq_str.mpr hlabel
    rw [hbeq, if_neg (by simp)]
    by_cases hlanguage : stored.index "language" = .str language
    · have hbeq := beq_str.mpr hlanguage
      rw [hbeq, if_neg (by simp)]
      refine ⟨_, rfl, ?_⟩
      rw [beq_str]
      simp [hlabel, hlanguage]
    · rw [if_pos (by rw [Bool.not_eq_true', ← Bool.not_eq_true, beq_str]; exact hlanguage)]
      exact ⟨false, rfl, by simp [hlanguage]⟩
  · rw [if_pos (by rw [Bool.not_eq_true', ← Bool.not_eq_true, beq_str]; exact hlabel)]
    exact ⟨false, rfl, by simp [hlabel]⟩

theorem anyM_iff {α : Type} {f : α → Result Bool} {p : α → Prop} :
    ∀ {xs : List α}, (∀ x ∈ xs, ∃ b, f x = .ok b ∧ (b = true ↔ p x)) →
      ∃ b, xs.anyM f = .ok b ∧ (b = true ↔ ∃ x ∈ xs, p x)
  | [], _ => ⟨false, rfl, by simp⟩
  | x :: xs, h => by
    obtain ⟨b, hb, hp⟩ := h x (by simp)
    obtain ⟨c, hc, hq⟩ := anyM_iff fun y hy => h y (List.mem_cons_of_mem x hy)
    rw [List.anyM, hb]
    cases b with
    | true => exact ⟨true, rfl, by simpa using .inl (hp.mp rfl)⟩
    | false =>
      have hnot : ¬ p x := fun hx => by simpa using hp.mpr hx
      exact ⟨c, hc, by simpa [hnot] using hq⟩

theorem addAlias_cases {aliases aliases' : List Value} {addition : Value}
    (h : NamedAlias addition) (hadd : addAlias aliases addition = .ok aliases') :
    (aliasNames addition ∈ aliases.map aliasNames ∧ aliases' = aliases)
      ∨ (aliasNames addition ∉ aliases.map aliasNames ∧ aliases' = aliases ++ [addition]) := by
  obtain ⟨ms, rfl, -⟩ := id h
  obtain ⟨b, hany, hiff⟩ := @anyM_iff _ _ _ aliases fun stored _ => sameAlias_iff h stored
  rw [addAlias, expect_of_some (show (Value.obj ms).asObject = some ms from rfl)] at hadd
  simp only [bind, Except.bind, hany] at hadd
  have hmem : b = true ↔ aliasNames (.obj ms) ∈ aliases.map aliasNames := by
    rw [hiff, List.mem_map]
  cases b with
  | true =>
    cases hadd
    exact .inl ⟨hmem.mp rfl, rfl⟩
  | false =>
    cases hadd
    exact .inr ⟨fun hin => by simpa using hmem.mpr hin, rfl⟩

/-- Aliases are told apart by their names. -/
theorem addAliases_gains {additions : List Value} (h : ∀ a ∈ additions, NamedAlias a) :
    ∀ {aliases aliases' : List Value}, additions.foldlM addAlias aliases = .ok aliases' →
      Gains aliasNames aliases additions aliases' := by
  induction additions using List.reverseRecOn with
  | nil =>
    intro aliases aliases' hadd
    cases hadd
    exact gains_nil aliasNames aliases
  | append_singleton additions a ih =>
    intro aliases aliases' hadd
    rw [List.foldlM_append] at hadd
    obtain ⟨before, hbefore, hadd⟩ := bind_ok.mp hadd
    have ih := ih (fun b hb => h b (List.mem_append_left _ hb)) hbefore
    rw [List.foldlM_cons] at hadd
    obtain ⟨after, hstep, hadd⟩ := bind_ok.mp hadd
    cases hadd
    rcases addAlias_cases (h a (by simp)) hstep with ⟨hthere, rfl⟩ | ⟨hnew, rfl⟩
    · exact ih.skip hthere
    · exact ih.add hnew

/-! ### Merging into one schema -/

/-- The texts and the names that an accepted intent adds. -/
structure Additions (object : Object) : Prop where
  aliases : ∀ vs, (lookupKey "aliasAdditions" object).bind Value.asArray = some vs →
    ∀ a ∈ vs, NamedAlias a
  factIds : ∀ vs, (lookupKey "factIdAdditions" object).bind Value.asArray = some vs →
    ∀ a ∈ vs, ∃ s, a = .str s
  contribution : ∀ v, lookupKey "contributionDocumentId" object = some v → ∃ s, v = .str s

/-- What a merge makes of a schema. -/
structure Merged (current intent merged : Object) : Prop where
  schemaId : lookupKey "schemaId" merged = lookupKey "schemaId" current
  frequency : ∃ old delta, (lookupKey "frequency" current).bind Value.asU64 = some old
    ∧ (lookupKey "frequencyDelta" intent).bind Value.asU64 = some delta
    ∧ old.toNat + delta.toNat < 2 ^ 64
    ∧ lookupKey "frequency" merged = some (numU64 (old + delta))
  sources : ∃ sources contribution sources',
    (lookupKey "sourceDocumentIds" current).bind Value.asArray = some sources
    ∧ lookupKey "contributionDocumentId" intent = some contribution
    ∧ lookupKey "sourceDocumentIds" merged = some (.arr sources')
    ∧ Gains id sources [contribution] sources'
  factIds : ∃ ids additions ids', (lookupKey "factIds" current).bind Value.asArray = some ids
    ∧ (lookupKey "factIdAdditions" intent).bind Value.asArray = some additions
    ∧ lookupKey "factIds" merged = some (.arr ids') ∧ Gains id ids additions ids'
  aliases : ∃ aliases additions aliases',
    (lookupKey "aliases" current).bind Value.asArray = some aliases
    ∧ (lookupKey "aliasAdditions" intent).bind Value.asArray = some additions
    ∧ lookupKey "aliases" merged = some (.arr aliases')
    ∧ Gains aliasNames aliases additions aliases'

theorem mergeSchema_merged {current intent : Object} {v : Value} (hadd : Additions intent)
    (h : mergeSchema (.obj current) intent = .ok v) :
    ∃ merged, v = .obj merged ∧ Merged current intent merged := by
  obtain ⟨object, hobject, h⟩ := bind_ok.mp h
  cases hobject
  obtain ⟨old, hold, h⟩ := bind_ok.mp h
  obtain ⟨delta, hdelta, h⟩ := bind_ok.mp h
  obtain ⟨frequency, hfrequency, h⟩ := bind_ok.mp h
  obtain ⟨state, -, h⟩ := bind_ok.mp h
  obtain ⟨threshold, -, h⟩ := bind_ok.mp h
  obtain ⟨updatedAt, -, h⟩ := bind_ok.mp h
  obtain ⟨aliases, haliases, h⟩ := bind_ok.mp h
  obtain ⟨additions, hadditions, h⟩ := bind_ok.mp h
  obtain ⟨aliases', haliases', h⟩ := bind_ok.mp h
  obtain ⟨ids, hids, h⟩ := bind_ok.mp h
  obtain ⟨newIds, hnewIds, h⟩ := bind_ok.mp h
  obtain ⟨sources, hsources, h⟩ := bind_ok.mp h
  obtain ⟨contribution, hcontribution, h⟩ := bind_ok.mp h
  cases h
  have hne : ∀ {k k' : String} {w : Value} {ms : Object}, k' ≠ k →
      lookupKey k' (insertKey k w ms) = lookupKey k' ms := fun hk => lookupKey_insertKey_ne hk _ _
  rw [expect_ok] at hold hdelta hfrequency haliases hadditions hids hnewIds hsources
  rw [indexKey_ok] at hcontribution
  rw [hne (by decide), hne (by decide), hne (by decide), hne (by decide)] at haliases
  rw [hne (by decide), hne (by decide), hne (by decide), hne (by decide), hne (by decide)] at hids
  rw [hne (by decide), hne (by decide), hne (by decide), hne (by decide), hne (by decide),
    hne (by decide)] at hsources
  split at hfrequency
  swap
  · cases hfrequency
  rename_i hlt
  cases hfrequency
  refine ⟨_, rfl, ?_, ⟨old, delta, hold, hdelta, hlt, ?_⟩,
    ⟨sources, contribution, _, hsources, hcontribution, lookupKey_insertKey_self _ _ _, ?_⟩,
    ⟨ids, newIds, _, hids, hnewIds, ?_, addMissing_gains ids (hadd.factIds _ hnewIds)⟩,
    ⟨aliases, additions, aliases', haliases, hadditions, ?_,
      addAliases_gains (hadd.aliases _ hadditions) haliases'⟩⟩
  · rw [hne (by decide), hne (by decide), hne (by decide), hne (by decide), hne (by decide),
      hne (by decide), hne (by decide)]
  · rw [hne (by decide), hne (by decide), hne (by decide), hne (by decide), hne (by decide),
      hne (by decide), lookupKey_insertKey_self]
  · refine addMissing_gains sources ?_
    intro a ha
    rw [List.mem_singleton.mp ha]
    exact hadd.contribution _ hcontribution
  · rw [hne (by decide), lookupKey_insertKey_self]
  · rw [hne (by decide), hne (by decide), lookupKey_insertKey_self]

/-! ### Merging into the schemas of a snapshot -/

/-- The schemas of an id. -/
def named (id : String) (schemas : List Value) : List Value :=
  schemas.filter fun schema => (schema.index "schemaId").asStr == some id

theorem named_cons_self {id : String} {schema : Value} (schemas : List Value)
    (h : (schema.index "schemaId").asStr = some id) :
    named id (schema :: schemas) = schema :: named id schemas :=
  List.filter_cons_of_pos (by simp [h])

theorem named_cons_ne {id : String} {schema : Value} (schemas : List Value)
    (h : (schema.index "schemaId").asStr ≠ some id) :
    named id (schema :: schemas) = named id schemas :=
  List.filter_cons_of_neg (by simpa using h)

/-- What an intent does to the schemas of the id that it is about. -/
inductive Effect (intent : Value) (before after : List Value) : Prop
  | create (object : Object) (hobject : intent = .obj object) (schema : Value)
      (hmode : (lookupKey "mode" object).bind Value.asStr = some "create")
      (hschema : lookupKey "schema" object = some schema) (h : after = before ++ [schema])
  | merge (object current merged : Object) (rest : List Value) (hobject : intent = .obj object)
      (hmode : (lookupKey "mode" object).bind Value.asStr = some "merge")
      (hbefore : before = .obj current :: rest) (hafter : after = .obj merged :: rest)
      (h : Merged current object merged)

/-- A merge replaces the first schema of its id, and leaves the others where they are. -/
theorem mergeFirst_named {id : String} {intent : Object} (hadd : Additions intent) :
    ∀ {schemas schemas' : List Value}, mergeFirst id intent schemas = .ok schemas' →
      (∃ current merged rest, named id schemas = .obj current :: rest
        ∧ named id schemas' = .obj merged :: rest ∧ Merged current intent merged)
      ∧ ∀ id' ≠ id, named id' schemas' = named id' schemas
  | [], _, h => by cases h
  | schema :: schemas, schemas', h => by
    rw [mergeFirst] at h
    by_cases hid : (schema.index "schemaId").asStr = some id
    · rw [if_pos hid] at h
      obtain ⟨v, hmerge, h⟩ := bind_ok.mp h
      cases h
      obtain ⟨current, rfl⟩ : ∃ current, schema = .obj current := by
        cases schema with
        | obj ms => exact ⟨ms, rfl⟩
        | _ => cases hid
      obtain ⟨merged, rfl, hmerged⟩ := mergeSchema_merged hadd hmerge
      have hindex : ((Value.obj merged).index "schemaId").asStr
          = ((Value.obj current).index "schemaId").asStr := by
        rw [Value.index, Value.index, Value.get, Value.get, hmerged.schemaId]
      refine ⟨⟨current, merged, named id schemas, named_cons_self _ hid,
        named_cons_self _ (hindex.trans hid), hmerged⟩, ?_⟩
      intro id' hne
      have hne' : ((Value.obj current).index "schemaId").asStr ≠ some id' := by
        rw [hid]
        intro heq
        exact hne (Option.some.inj heq).symm
      rw [named_cons_ne _ hne', named_cons_ne _ (hindex ▸ hne')]
    · rw [if_neg hid] at h
      obtain ⟨rest', hmerge, h⟩ := bind_ok.mp h
      cases h
      obtain ⟨⟨current, merged, rest, hbefore, hafter, hmerged⟩, hkeep⟩ :=
        mergeFirst_named hadd hmerge
      refine ⟨⟨current, merged, rest, ?_, ?_, hmerged⟩, ?_⟩
      · rw [named_cons_ne _ hid, hbefore]
      · rw [named_cons_ne _ hid, hafter]
      · intro id' hne
        by_cases hid' : (schema.index "schemaId").asStr = some id'
        · rw [named_cons_self _ hid', named_cons_self _ hid', hkeep id' hne]
        · rw [named_cons_ne _ hid', named_cons_ne _ hid', hkeep id' hne]

/-- An accepted intent about an id. -/
structure About (intent : Value) (id : String) : Prop where
  names : Names intent id
  additions : ∀ object, intent = .obj object →
    (lookupKey "mode" object).bind Value.asStr = some "merge" → Additions object

/-- The step: an intent that is applied touches only its own id. -/
theorem About.step {intent : Value} {id : String} (h : About intent id)
    {schemas schemas' : List Value} (happly : applyIntent schemas intent = .ok schemas') :
    Effect intent (named id schemas) (named id schemas')
      ∧ ∀ id' ≠ id, named id' schemas' = named id' schemas := by
  obtain ⟨object, hobject, hrun⟩ := bind_ok.mp happly
  obtain ⟨mode, hmode, hrun⟩ := bind_ok.mp hrun
  rw [expect_ok] at hobject
  rw [indexKey_ok] at hmode
  have hnames := h.names
  cases hnames with
  | create object' hobj hmode' schema hschema hid =>
    subst hobj
    cases hobject
    rw [hmode, Option.bind_some] at hmode'
    rw [if_pos hmode'] at hrun
    obtain ⟨schema', hschema', hrun⟩ := bind_ok.mp hrun
    cases hrun
    rw [indexKey_ok, hschema] at hschema'
    cases hschema'
    have hsingle : named id [schema] = [schema] := named_cons_self [] hid
    refine ⟨.create _ rfl schema ?_ hschema ?_, ?_⟩
    · rw [hmode, Option.bind_some, hmode']
    · rw [named, List.filter_append, ← named, ← named, hsingle]
    · intro id' hne
      have hother : named id' [schema] = [] := named_cons_ne [] (by
        rw [hid]
        intro heq
        exact hne (Option.some.inj heq).symm)
      rw [named, List.filter_append, ← named, ← named, hother, List.append_nil]
  | merge object' hobj hmode' hid hshape =>
    subst hobj
    cases hobject
    have hadd := h.additions _ rfl hmode'
    rw [hmode, Option.bind_some] at hmode'
    rw [hmode', if_neg (by decide)] at hrun
    obtain ⟨schemaId, hschemaId, hrun⟩ := bind_ok.mp hrun
    rw [expect_ok, hid] at hschemaId
    cases hschemaId
    obtain ⟨⟨current, merged, rest, hbefore, hafter, hmerged⟩, hkeep⟩ :=
      mergeFirst_named hadd hrun
    refine ⟨.merge _ current merged rest rfl ?_ hbefore hafter hmerged, hkeep⟩
    rw [hmode, Option.bind_some, hmode']

/-- The run: intents about different ids, each with the effect that it would have alone. -/
theorem applyIntents_effects : ∀ {intents : List Value} {ids : List String}
    {schemas schemas' : List Value}, List.Forall₂ About intents ids → ids.Nodup →
      intents.foldlM applyIntent schemas = .ok schemas' →
      (∀ intent id, (intent, id) ∈ intents.zip ids →
        Effect intent (named id schemas) (named id schemas'))
      ∧ ∀ id ∉ ids, named id schemas' = named id schemas
  | [], _, schemas, _, _, _, h => by
    cases h
    exact ⟨by simp, fun _ _ => rfl⟩
  | intent :: intents, id :: ids, schemas, schemas', .cons habout hrest, hnodup, h => by
    obtain ⟨hnew, hnodup⟩ := List.nodup_cons.mp hnodup
    rw [List.foldlM_cons] at h
    obtain ⟨middle, hstep, h⟩ := bind_ok.mp h
    obtain ⟨heffect, hkeep⟩ := habout.step hstep
    obtain ⟨heffects, hkeep'⟩ := applyIntents_effects hrest hnodup h
    refine ⟨?_, ?_⟩
    · intro i d hmem
      rw [List.zip_cons_cons] at hmem
      rcases List.mem_cons.mp hmem with heq | htail
      · cases heq
        rw [hkeep' _ hnew]
        exact heffect
      · have hd : d ≠ id := by
          rintro rfl
          exact hnew (List.of_mem_zip htail).2
        rw [← hkeep d hd]
        exact heffects i d htail
    · intro d hd
      rw [List.mem_cons, not_or] at hd
      rw [hkeep' d hd.2, hkeep d hd.1]

/-! ### What the checks promise -/

section Checks

variable [Externals]

theorem namedAlias_of_checked {item : Value} {label : String} {names : String × String × String}
    (h : validateSchemaAlias item label .admission = .ok names) : NamedAlias item := by
  rw [validateSchemaAlias] at h
  cases item with
  | obj ms =>
    dsimp only [Value.asObject] at h
    obtain ⟨object, ho, h⟩ := bind_ok.mp h
    cases ho
    rw [if_pos rfl] at h
    obtain ⟨_, -, h⟩ := bind_ok.mp h
    obtain ⟨text, htext, h⟩ := bind_ok.mp h
    obtain ⟨language, hlanguage, h⟩ := bind_ok.mp h
    split at h
    · cases h
    obtain ⟨source, hsource, h⟩ := bind_ok.mp h
    have hstr : ∀ {field text : String}, (lookupKey field ms).bind Value.asStr = some text →
        ∃ s, lookupKey field ms = some (.str s) := by
      intro field text hfield
      obtain ⟨v, hv, hs⟩ := Option.bind_eq_some_iff.mp hfield
      exact ⟨text, by rw [hv, asStr_eq_some.mp hs]⟩
    refine ⟨ms, rfl, ?_⟩
    intro field hfield
    simp only [List.mem_cons, List.not_mem_nil, or_false] at hfield
    rcases hfield with rfl | rfl | rfl
    · exact hstr (boundedObjectString_ok htext).1
    · exact hstr (boundedObjectString_ok hlanguage).1
    · exact hstr (boundedObjectString_ok hsource).1
  | _ => cases h

theorem additions_of_checked {object : Object} {shape : IntentShape}
    (h : validateMergeIntent object = .ok shape) : Additions object := by
  rw [validateMergeIntent] at h
  obtain ⟨_, -, h⟩ := bind_ok.mp h
  obtain ⟨_, -, h⟩ := bind_ok.mp h
  obtain ⟨_, -, h⟩ := bind_ok.mp h
  obtain ⟨_, -, h⟩ := bind_ok.mp h
  obtain ⟨contribution, hcontribution, h⟩ := bind_ok.mp h
  obtain ⟨_, -, h⟩ := bind_ok.mp h
  obtain ⟨_, -, h⟩ := bind_ok.mp h
  obtain ⟨_, -, h⟩ := bind_ok.mp h
  split at h
  swap
  · cases h
  split at h
  · cases h
  obtain ⟨aliases, haliases, h⟩ := bind_ok.mp h
  obtain ⟨_, hnames, h⟩ := bind_ok.mp h
  obtain ⟨factIds, hids, h⟩ := bind_ok.mp h
  obtain ⟨_, htexts, -⟩ := bind_ok.mp h
  rw [expect_ok] at haliases hids
  refine ⟨?_, ?_, ?_⟩
  · intro vs hvs a ha
    obtain rfl := Option.some.inj (haliases.symm.trans hvs)
    obtain ⟨names, hread⟩ := readUnique_ok hnames a ha
    exact namedAlias_of_checked hread
  · intro vs hvs a ha
    obtain rfl := Option.some.inj (hids.symm.trans hvs)
    obtain ⟨text, hread⟩ := readUnique_ok htexts a ha
    split at hread
    · next text' htext => exact ⟨text', asStr_eq_some.mp htext⟩
    · cases hread
  · intro v hv
    have hread := (boundedObjectString_ok hcontribution).1
    rw [hv, Option.bind_some, asStr_eq_some] at hread
    exact ⟨contribution, hread⟩

theorem about_of_checked {intent : Value} {corpusId : String} {shape : IntentShape}
    (h : validateIntentShape corpusId intent = .ok shape) : About intent shape.schemaId := by
  refine ⟨validateIntentShape_names h, ?_⟩
  rintro object rfl hmode
  obtain ⟨object', ho, h⟩ := bind_ok.mp h
  cases ho
  dsimp only at h
  rw [hmode] at h
  exact additions_of_checked h

/-- The intents of a request are about different schemas. -/
theorem validateIntentShapes_about {corpusId : String} : ∀ {intents : List Value}
    {seen shapes : List IntentShape}, validateIntentShapes corpusId seen intents = .ok shapes →
      ∃ new, shapes = seen ++ new ∧ List.Forall₂ About intents (new.map (·.schemaId))
  | [], seen, _, h => by
    cases h
    exact ⟨[], by simp, .nil⟩
  | intent :: intents, seen, shapes, h => by
    rw [validateIntentShapes] at h
    obtain ⟨shape, hshape, h⟩ := bind_ok.mp h
    dsimp only at h
    split at h
    · cases h
    obtain ⟨new, rfl, habout⟩ := validateIntentShapes_about h
    exact ⟨shape :: new, by simp, .cons (about_of_checked hshape) habout⟩

omit [Externals] in
/-- A schema that an intent names is stored once, or not at all. -/
theorem storedIntentSchemas_named {corpusId : String} {ids : List String} {id : String}
    (hid : id ∈ ids) : ∀ {schemas : List Value} {found stored : List (String × Value)},
      storedIntentSchemas corpusId ids found schemas = .ok stored →
        (lookupKey id stored).toList = (lookupKey id found).toList ++ named id schemas
  | [], found, stored, h => by
    cases h
    simp [named]
  | schema :: schemas, found, stored, h => by
    rw [storedIntentSchemas] at h
    obtain ⟨_, -, h⟩ := bind_ok.mp h
    obtain ⟨schemaId, hschema, h⟩ := bind_ok.mp h
    have hschema : (schema.index "schemaId").asStr = some schemaId := by
      rw [index_asStr]
      exact expect_some hschema
    have hskip : schemaId ≠ id → named id (schema :: schemas) = named id schemas := by
      intro hne
      refine named_cons_ne schemas ?_
      rw [hschema]
      intro heq
      exact hne (Option.some.inj heq)
    split at h
    · dsimp only at h
      split at h
      · cases h
      next hnone =>
      rw [storedIntentSchemas_named hid h, lookupKey_append, lookupKey, lookupKey]
      by_cases heq : id = schemaId
      · subst heq
        rw [Option.not_isSome_iff_eq_none.mp hnone, if_pos rfl, named_cons_self _ hschema]
        rfl
      · rw [if_neg heq, Option.or_none, hskip (Ne.symm heq)]
    · next hout =>
      have hne : schemaId ≠ id := by
        rintro rfl
        exact hout (List.contains_iff_mem.mpr hid)
      rw [storedIntentSchemas_named hid h, hskip hne]

/-- What the checks of a merge intent find in the schema that is stored. -/
structure Fresh (current object : Object) : Prop where
  token : (lookupKey "expectedMergeToken" object).bind Value.asStr
    = some (schemaMergeToken (.obj current))
  frequency : ∃ old delta contribution sources,
    (lookupKey "frequency" current).bind Value.asU64 = some old
    ∧ (lookupKey "frequencyDelta" object).bind Value.asU64 = some delta
    ∧ (lookupKey "contributionDocumentId" object).bind Value.asStr = some contribution
    ∧ (lookupKey "sourceDocumentIds" current).bind Value.asArray = some sources
    ∧ old.toNat + delta.toNat ≤ jsonSafeIntegerMax
    ∧ (delta = 0 ↔ .str contribution ∈ sources)

theorem fresh_of_checked {corpusId id : String} {object : Object}
    {stored : List (String × Value)}
    (hmode : (lookupKey "mode" object).bind Value.asStr = some "merge")
    (hid : (lookupKey "schemaId" object).bind Value.asStr = some id)
    (h : validateIntentTarget corpusId stored (.obj object) = .ok ()) :
    ∃ current, lookupKey id stored = some (.obj current) ∧ Fresh current object := by
  have hne : intentMode (.obj object) ≠ some "create" := by
    rw [intentMode, Value.get, hmode]
    decide
  rw [validateIntentTarget, if_neg hne] at h
  obtain ⟨schemaId, hschemaId, h⟩ := bind_ok.mp h
  rw [expect_ok, index_asStr, Value.get, hid] at hschemaId
  cases hschemaId
  dsimp only at h
  split at h
  swap
  · cases h
  next schema hschema =>
  obtain ⟨_, hs, h⟩ := bind_ok.mp h
  cases hs
  obtain ⟨current, hcurrent, h⟩ := bind_ok.mp h
  obtain ⟨rfl, -⟩ := validateSchemaValue_ok hcurrent
  obtain ⟨expected, hexpected, h⟩ := bind_ok.mp h
  split at h
  · cases h
  next htoken =>
  obtain ⟨contribution, hcontribution, h⟩ := bind_ok.mp h
  obtain ⟨sources, hsources, h⟩ := bind_ok.mp h
  obtain ⟨delta, hdelta, h⟩ := bind_ok.mp h
  split at h
  · cases h
  next hexisting =>
  split at h
  · cases h
  next hnew =>
  obtain ⟨frequency, hfrequency, h⟩ := bind_ok.mp h
  split at h
  · cases h
  next hle =>
  rw [expect_ok, index_asStr, Value.get] at hexpected hcontribution
  rw [expect_ok, index_asU64, Value.get] at hdelta
  rw [expect_ok] at hsources hfrequency
  refine ⟨current, hschema, ?_, frequency, delta, contribution, sources, hfrequency, hdelta,
    hcontribution, hsources, Nat.not_lt.mp hle, ?_⟩
  · rw [hexpected, not_not.mp htoken]
  · have hmem : (sources.any fun value => value.asStr == some contribution) = true
        ↔ .str contribution ∈ sources := by
      simp [List.any_eq_true, asStr_eq_some]
    rw [← hmem]
    constructor
    · intro hzero
      by_contra hnot
      exact hnew ⟨by simpa using hnot, hzero⟩
    · intro hpresent
      by_contra hnot
      exact hexisting ⟨hpresent, hnot⟩

/-! ### A whole request -/

omit [Externals] in
/-- The schemas that a corpus has stored. -/
def storedSchemas (mem : Memory) (corpusId : String) : List Value :=
  (((mem.state.snapshots[corpusId]?).bind (·.get "schemas")).bind Value.asArray).getD []

omit [Externals] in
theorem applySchemaMergeIntents_schemas {ms : Object} {intents : List Value} {v : Value}
    (h : applySchemaMergeIntents (.obj ms) intents = .ok v) :
    ∃ ms' schemas', v = .obj ms' ∧ lookupKey "schemas" ms' = some (.arr schemas')
      ∧ intents.foldlM applyIntent (((lookupKey "schemas" ms).bind Value.asArray).getD [])
        = .ok schemas' := by
  rw [applySchemaMergeIntents] at h
  rcases harray : (lookupKey "schemas" ms).bind Value.asArray with _ | vs
  · simp only [Value.get, harray, assignKey] at h
    obtain ⟨snapshot, hsnapshot, h⟩ := bind_ok.mp h
    cases hsnapshot
    obtain ⟨schemas, hschemas, h⟩ := bind_ok.mp h
    obtain ⟨schemas', hrun, h⟩ := bind_ok.mp h
    cases h
    rw [expect_ok, index_asArray, Value.get, lookupKey_insertKey_self] at hschemas
    cases hschemas
    exact ⟨_, schemas', rfl, lookupKey_insertKey_self _ _ _, hrun⟩
  · simp only [Value.get, harray] at h
    obtain ⟨snapshot, hsnapshot, h⟩ := bind_ok.mp h
    cases hsnapshot
    obtain ⟨schemas, hschemas, h⟩ := bind_ok.mp h
    obtain ⟨schemas', hrun, h⟩ := bind_ok.mp h
    cases h
    rw [expect_ok, index_asArray, Value.get, harray] at hschemas
    cases hschemas
    exact ⟨_, schemas', rfl, lookupKey_insertKey_self _ _ _, hrun⟩

/-- The snapshot that a request with intents leaves: they are applied to the schemas as stored. -/
theorem upsertedSnapshot_schemas {mem : Memory} {req : RpcRequest} {params : Object}
    {corpusId : String} {intents : List Value} {snapshot : Value}
    (hchecks : UpsertChecks mem req params corpusId)
    (hintents : lookupKey "schemaMerges" params = some (.arr intents))
    (h : upsertedSnapshot mem (.obj params) corpusId = .ok snapshot) :
    ∃ schemas', (snapshot.get "schemas").bind Value.asArray = some schemas'
      ∧ storedItems mem.state.snapshots corpusId "schemas" = .ok (storedSchemas mem corpusId)
      ∧ intents.foldlM applyIntent (storedSchemas mem corpusId) = .ok schemas' := by
  obtain ⟨schemas, hschemas, -⟩ :=
    bind_ok.mp (checkAll_ok.mp hchecks.stored ("schemas", "schemaId") (by simp [snapshotSections]))
  obtain ⟨ms, hstart, hitems⟩ := startingSnapshot hschemas
  have hstored : storedSchemas mem corpusId = schemas := by
    rw [← hitems, storedSchemas]
    rcases hsnapshot : mem.state.snapshots[corpusId]? with _ | stored
    · rw [hsnapshot] at hstart
      cases hstart
      rfl
    · rw [hsnapshot] at hstart
      cases hstart
      rfl
  obtain ⟨ms', hsections, hkeep⟩ := @upsertSections_total (.obj params) snapshotSections ms
    fun s hs => validateUpsertSection_ids (checkAll_ok.mp hchecks.sections s hs)
  have hempty : paramItems (.obj params) "schemas" = [] := by
    rcases hs : lookupKey "schemas" params with _ | items
    · rw [paramItems, Value.get, hs]
      rfl
    · exact absurd ⟨Option.isSome_iff_exists.mpr ⟨_, hintents⟩,
        Option.isSome_iff_exists.mpr ⟨_, hs⟩⟩ hchecks.exclusive
  have hread : ((Value.obj params).get "schemaMerges").bind Value.asArray = some intents := by
    rw [Value.get, hintents]
    rfl
  rw [upsertedSnapshot] at h
  dsimp only at h
  rw [hstart, hsections] at h
  simp only [bind, Except.bind, hread] at h
  rcases hmerge : applySchemaMergeIntents (.obj ms') intents with e | v
  · rw [hmerge] at h
    cases h
  rw [hmerge] at h
  dsimp only at h
  obtain ⟨ms'', schemas', rfl, hafter, hrun⟩ := applySchemaMergeIntents_schemas hmerge
  rw [hkeep "schemas" hempty, hitems] at hrun
  refine ⟨schemas', ?_, hstored ▸ hschemas, hstored ▸ hrun⟩
  rcases hexported : (Value.obj params).get "exportedAt" with _ | exportedAt
  · rw [hexported] at h
    cases h
    rw [Value.get, hafter]
    rfl
  · rw [hexported] at h
    cases h
    rw [Value.get, lookupKey_insertKey_ne (by decide), hafter]
    rfl

omit [Externals] in
theorem exists_mem_zip {α β : Type} {r : α → β → Prop} {xs : List α} {ys : List β}
    (h : List.Forall₂ r xs ys) {x : α} (hx : x ∈ xs) : ∃ y, (x, y) ∈ xs.zip ys := by
  induction h with
  | nil => cases hx
  | @cons a b xs ys _ _ ih =>
    rcases List.mem_cons.mp hx with rfl | hx
    · exact ⟨b, by simp⟩
    · obtain ⟨y, hy⟩ := ih hx
      exact ⟨y, List.mem_cons_of_mem _ hy⟩

/-- An accepted request applies each of its intents to the one schema that it was checked against. -/
theorem accepted_effects {mem mem' : Memory} {req : RpcRequest} {params : Object}
    {intents : List Value} (hvalid : validateMemoryUpsert mem req params = .ok ())
    (happly : memoryUpsert mem (.obj params) = .ok mem')
    (hintents : lookupKey "schemaMerges" params = some (.arr intents)) :
    ∃ corpusId, (lookupKey "corpusId" params).bind Value.asStr = some corpusId
      ∧ ∀ object, .obj object ∈ intents →
        (lookupKey "mode" object).bind Value.asStr = some "merge" →
        ∃ id current merged, (lookupKey "schemaId" object).bind Value.asStr = some id
          ∧ named id (storedSchemas mem corpusId) = [.obj current]
          ∧ named id (storedSchemas mem' corpusId) = [.obj merged]
          ∧ Fresh current object ∧ Merged current object merged := by
  obtain ⟨corpusId, hchecks, hmerges⟩ := validateMemoryUpsert_ok hvalid
  have hcorpus : (lookupKey "corpusId" params).bind Value.asStr = some corpusId := by
    rw [(boundedRequiredString_ok hchecks.corpus).1]
    rfl
  obtain ⟨corpusId', snapshot, hcorpus', hsnapshot, rfl⟩ := memoryUpsert_ok happly
  obtain rfl : corpusId = corpusId' := Option.some.inj (hcorpus.symm.trans hcorpus')
  obtain ⟨schemas', hafter, hstored, hrun⟩ := upsertedSnapshot_schemas hchecks hintents hsnapshot
  have hschemas' : storedSchemas (withSnapshot mem corpusId snapshot) corpusId = schemas' := by
    rw [storedSchemas, withSnapshot]
    dsimp only
    rw [Map.getElem?_insert_self, Option.bind_some, hafter]
    rfl
  have hvalid := hmerges intents hintents
  rw [validateSchemaMergeIntents] at hvalid
  dsimp only at hvalid
  split at hvalid
  · cases hvalid
  obtain ⟨shapes, hshapes, hvalid⟩ := bind_ok.mp hvalid
  split at hvalid
  · cases hvalid
  split at hvalid
  · cases hvalid
  obtain ⟨schemas, hs, hvalid⟩ := bind_ok.mp hvalid
  obtain rfl := Except.ok.inj (hstored.symm.trans hs)
  obtain ⟨stored, hfound, hvalid⟩ := bind_ok.mp hvalid
  obtain ⟨new, hnew, habout⟩ := validateIntentShapes_about hshapes
  obtain rfl : shapes = new := hnew
  obtain ⟨-, -, hnodup, -⟩ := validateIntentShapes_names hshapes (by simp)
  obtain ⟨heffects, -⟩ := applyIntents_effects habout hnodup hrun
  refine ⟨corpusId, hcorpus, ?_⟩
  intro object hmem hmode
  obtain ⟨id, hzip⟩ := exists_mem_zip habout hmem
  have hid : (lookupKey "schemaId" object).bind Value.asStr = some id := by
    cases ((List.forall₂_iff_zip.mp habout).2 hzip).names with
    | create object' hobj hmode' _ _ _ =>
      cases hobj
      rw [hmode] at hmode'
      simp at hmode'
    | merge object' hobj _ hid _ =>
      cases hobj
      exact hid
  obtain ⟨current, hlookup, hfresh⟩ := fresh_of_checked hmode hid
    (checkAll_ok.mp hvalid _ hmem)
  have hbefore : named id (storedSchemas mem corpusId) = [.obj current] := by
    have hnamed := storedIntentSchemas_named (List.of_mem_zip hzip).2 hfound
    rw [hlookup] at hnamed
    exact hnamed.symm
  have heffect := heffects _ id hzip
  rw [hbefore] at heffect
  cases heffect with
  | create object' hobj schema hmode' hschema h =>
    cases hobj
    rw [hmode] at hmode'
    simp at hmode'
  | merge object' current' merged rest hobj hmode' hcons hafter' hmerged =>
    cases hobj
    cases hcons
    refine ⟨id, current, merged, hid, hbefore, ?_, hfresh, hmerged⟩
    rw [hschemas', hafter']

/-! ### Runs of several clients -/

/-- A mutation that is refused changes nothing. -/
def mutate (mem : Memory) (req : RpcRequest) : Option (Memory × Bool) :=
  match (do validateMutationParams mem req; applyMutation mem req) with
  | .ok applied => some (applied.memory, true)
  | .error _ => some (mem, false)

/-- A schema that has been stored at some time of a run. -/
def Seen (m₀ : Memory) (h : List (RpcRequest × Bool)) (corpusId : String) (schema : Value) :
    Prop :=
  ∃ before b, before <+: h ∧ Trace mutate m₀ before b ∧ schema ∈ storedSchemas b corpusId

/-- The token tells the schemas of a run apart. -/
def TokensTell (m₀ : Memory) (h : List (RpcRequest × Bool)) : Prop :=
  ∀ corpusId v w, Seen m₀ h corpusId v → Seen m₀ h corpusId w →
    schemaMergeToken v = schemaMergeToken w → v = w

omit [Externals] in
/-- The frequency before and after a merge. -/
def Counted (current object merged : Object) : Prop :=
  ∃ old delta new contribution sources,
    (lookupKey "frequency" current).bind Value.asU64 = some old
    ∧ (lookupKey "frequencyDelta" object).bind Value.asU64 = some delta
    ∧ (lookupKey "frequency" merged).bind Value.asU64 = some new
    ∧ (lookupKey "contributionDocumentId" object).bind Value.asStr = some contribution
    ∧ (lookupKey "sourceDocumentIds" current).bind Value.asArray = some sources
    ∧ new.toNat = old.toNat + delta.toNat ∧ new.toNat ≤ jsonSafeIntegerMax
    ∧ (old < new ↔ .str contribution ∉ sources)

theorem Fresh.counted {current object merged : Object} (h : Fresh current object)
    (hmerged : Merged current object merged) : Counted current object merged := by
  obtain ⟨old, delta, contribution, sources, hold, hdelta, hcontribution, hsources, hle, hiff⟩ :=
    h.frequency
  obtain ⟨old', delta', hold', hdelta', hlt, hnew⟩ := hmerged.frequency
  obtain rfl := Option.some.inj (hold.symm.trans hold')
  obtain rfl := Option.some.inj (hdelta.symm.trans hdelta')
  have hsum : (old + delta).toNat = old.toNat + delta.toNat := by
    rw [UInt64.toNat_add]
    exact Nat.mod_eq_of_lt hlt
  refine ⟨old, delta, old + delta, contribution, sources, hold, hdelta, ?_, hcontribution,
    hsources, hsum, hsum ▸ hle, ?_⟩
  · rw [hnew]
    rfl
  · rw [← hiff, UInt64.lt_iff_toNat_lt, hsum, ← UInt64.toNat_inj]
    show _ ↔ ¬ delta.toNat = 0
    omega

/-- No update is lost: in every run an accepted merge is applied to the one schema that is stored
under its id, and that is the value its token was taken from, whenever that was. -/
theorem schema_merges_lose_no_update {m₀ m m' : Memory} {h : List (RpcRequest × Bool)}
    (run : Trace mutate m₀ h m) (htell : TokensTell m₀ h) {req : RpcRequest}
    (hmethod : req.method = "memory_upsert") (haccepted : mutate m req = some (m', true)) :
    ∃ corpusId, (req.params.get "corpusId").bind Value.asStr = some corpusId
      ∧ ∀ object, .obj object ∈ paramItems req.params "schemaMerges" →
        (lookupKey "mode" object).bind Value.asStr = some "merge" →
        ∃ id current merged, (lookupKey "schemaId" object).bind Value.asStr = some id
          ∧ named id (storedSchemas m corpusId) = [.obj current]
          ∧ named id (storedSchemas m' corpusId) = [.obj merged]
          ∧ (lookupKey "expectedMergeToken" object).bind Value.asStr
            = some (schemaMergeToken (.obj current))
          ∧ (∀ schema, Seen m₀ h corpusId schema →
            (lookupKey "expectedMergeToken" object).bind Value.asStr
              = some (schemaMergeToken schema) → schema = .obj current)
          ∧ Counted current object merged ∧ Merged current object merged := by
  obtain ⟨id, method, params⟩ := req
  obtain rfl : method = "memory_upsert" := hmethod
  rw [mutate] at haccepted
  split at haccepted
  swap
  · cases haccepted
  next applied hrun =>
  cases haccepted
  obtain ⟨_, hvalid, happly⟩ := bind_ok.mp hrun
  obtain ⟨object, hobject, hvalid⟩ := bind_ok.mp hvalid
  obtain rfl : params = .obj object := by
    cases params with
    | obj ms =>
      cases hobject
      rfl
    | _ => cases hobject
  obtain ⟨mem', hmemory, rfl⟩ := map_ok.mp happly
  dsimp only at hvalid hmemory
  rcases hmerges : ((Value.obj object).get "schemaMerges").bind Value.asArray with _ | intents
  · obtain ⟨corpusId, -, hcorpus, -⟩ := memoryUpsert_ok hmemory
    refine ⟨corpusId, hcorpus, ?_⟩
    intro intent hmem
    rw [paramItems, hmerges] at hmem
    cases hmem
  · have hintents : lookupKey "schemaMerges" object = some (.arr intents) := by
      obtain ⟨v, hv, harr⟩ := Option.bind_eq_some_iff.mp hmerges
      rw [Value.get] at hv
      cases v with
      | arr vs =>
        cases harr
        exact hv
      | _ => cases harr
    obtain ⟨corpusId, hcorpus, heffects⟩ := accepted_effects hvalid hmemory hintents
    refine ⟨corpusId, hcorpus, ?_⟩
    intro intent hmem hmode
    rw [paramItems, hmerges] at hmem
    obtain ⟨schemaId, current, merged, hid, hbefore, hafter, hfresh, hmerged⟩ :=
      heffects intent hmem hmode
    refine ⟨schemaId, current, merged, hid, hbefore, hafter, hfresh.token, ?_,
      hfresh.counted hmerged, hmerged⟩
    intro schema hseen htoken
    have hstored : .obj current ∈ storedSchemas m corpusId := by
      have hmem : Value.obj current ∈ named schemaId (storedSchemas m corpusId) := by
        rw [hbefore]
        exact List.mem_singleton_self _
      exact (List.mem_filter.mp hmem).1
    refine htell corpusId schema (.obj current) hseen ⟨h, m, List.prefix_refl h, run, hstored⟩ ?_
    exact Option.some.inj (htoken.symm.trans hfresh.token)

end Checks

section Witness

attribute [local instance] Concrete.externals Concrete.runtime

/-- A schema that one document has contributed to. -/
def storedSchema : Value :=
  .obj [("aliases", .arr []), ("canonicalKey", .str "k"), ("corpusId", .str "c"),
    ("createdAt", .str "t"), ("factIds", .arr [.str "f"]), ("frequency", numU64 1),
    ("headType", .str "h"), ("relation", .str "r"), ("schemaId", .str "s"),
    ("sourceDocumentIds", .arr [.str "d"]), ("stabilizationThreshold", numU64 2),
    ("state", .str "pending"), ("tailType", .str "t"), ("updatedAt", .str "t"),
    ("version", numU64 1)]

def schemaMemory : Memory :=
  ⟨{ State.default with snapshots := (∅ : Map Value).insert "c" (.obj [("corpusId", .str "c"),
    ("schemas", .arr [storedSchema])]) }, ∅⟩

/-- The contribution of a second document. -/
def secondContribution : Object :=
  [("aliasAdditions", .arr []), ("contributionDocumentId", .str "e"),
    ("desiredState", .str "stable"),
    ("expectedMergeToken", .str (schemaMergeToken storedSchema)),
    ("factIdAdditions", .arr [.str "f", .str "g"]), ("frequencyDelta", numU64 1),
    ("mode", .str "merge"), ("schemaId", .str "s"), ("stabilizationThreshold", numU64 2),
    ("updatedAt", .str "u")]

def contributionRequest : RpcRequest :=
  ⟨1, "memory_upsert", .obj [("corpusId", .str "c"),
    ("schemaMerges", .arr [.obj secondContribution])]⟩

theorem schema_merges_lose_no_update_second : ∃ m' current merged,
    mutate schemaMemory contributionRequest = some (m', true)
      ∧ named "s" (storedSchemas schemaMemory "c") = [.obj current]
      ∧ named "s" (storedSchemas m' "c") = [.obj merged]
      ∧ Counted current secondContribution merged := by
  have haccepted : ((mutate schemaMemory contributionRequest).map Prod.snd) = some true := by
    decide +kernel
  obtain ⟨⟨m', accepted⟩, hm, haccepted⟩ := Option.map_eq_some_iff.mp haccepted
  obtain rfl : accepted = true := haccepted
  have hstored : ∀ corpusId, storedSchemas schemaMemory corpusId = []
      ∨ storedSchemas schemaMemory corpusId = [storedSchema] := by
    intro corpusId
    by_cases hc : corpusId = "c"
    · subst hc
      exact .inr (by simp [storedSchemas, schemaMemory, Value.get, lookupKey, Value.asArray])
    · refine .inl ?_
      have hnone : schemaMemory.state.snapshots[corpusId]? = none := by
        rw [schemaMemory]
        dsimp only
        rw [Map.getElem?_insert_ne _ (Ne.symm hc)]
        simp
      rw [storedSchemas, hnone]
      rfl
  have hseen : ∀ corpusId v, Seen schemaMemory [] corpusId v → v = storedSchema := by
    rintro corpusId v ⟨before, b, hpart, run, hmem⟩
    rw [List.prefix_nil] at hpart
    generalize hbefore : before = done at run
    cases run with
    | nil =>
      rcases hstored corpusId with h | h <;> rw [h] at hmem
      · cases hmem
      · exact List.mem_singleton.mp hmem
    | snoc _ _ =>
      rw [hpart] at hbefore
      simp at hbefore
  have htell : TokensTell schemaMemory [] := by
    intro corpusId v w hv hw _
    rw [hseen corpusId v hv, hseen corpusId w hw]
  obtain ⟨corpusId, hcorpus, hmerges⟩ :=
    @schema_merges_lose_no_update _ _ _ m' [] .nil htell contributionRequest
      rfl hm
  obtain rfl : "c" = corpusId := Option.some.inj hcorpus
  obtain ⟨id, current, merged, hid, hbefore, hafter, -, -, hcounted, -⟩ :=
    hmerges secondContribution (by simp [contributionRequest, paramItems, Value.get, lookupKey,
      Value.asArray]) rfl
  obtain rfl : "s" = id := Option.some.inj hid
  exact ⟨m', current, merged, hm, hbefore, hafter, hcounted⟩

end Witness

end AiraGraphdb.Native
