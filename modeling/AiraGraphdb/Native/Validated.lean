import AiraGraphdb.Native.Mutations
import AiraGraphdb.Schemes.Except

/-! # What validation promises of the stored snapshot

A handler walks the snapshot that validation has walked before. These lemmas say what an accepted
snapshot looks like: an object under its own corpus id, its sections arrays of objects with string
ids. -/

namespace AiraGraphdb.Native

open Schemes Schemes.Json

/-- A section as validation finds it. -/
inductive SectionIs (snapshots : Map Value) (corpusId sect : String) : Option (List Value) → Prop
  | none (h : snapshots[corpusId]? = .none) : SectionIs snapshots corpusId sect .none
  | missing {ms : Object} (h : snapshots[corpusId]? = some (.obj ms))
      (hid : lookupKey "corpusId" ms = some (.str corpusId)) (hs : lookupKey sect ms = .none) :
      SectionIs snapshots corpusId sect .none
  | items {ms : Object} {vs : List Value} (h : snapshots[corpusId]? = some (.obj ms))
      (hid : lookupKey "corpusId" ms = some (.str corpusId))
      (hs : lookupKey sect ms = some (.arr vs)) : SectionIs snapshots corpusId sect (some vs)

theorem storedSnapshotSection_ok {snapshots : Map Value} {corpusId sect : String}
    {r : Option (List Value)} (h : storedSnapshotSection snapshots corpusId sect = .ok r) :
    SectionIs snapshots corpusId sect r := by
  rw [storedSnapshotSection] at h
  rcases hs : snapshots[corpusId]? with _ | snapshot
  · rw [hs] at h
    cases h
    exact .none hs
  · rw [hs] at h
    cases snapshot with
    | obj ms =>
      simp only [Value.asObject, bind, Except.bind, pure, Except.pure] at h
      rcases hid : lookupKey "corpusId" ms with _ | stored
      · rw [hid] at h
        cases h
      · rw [hid] at h
        cases stored with
        | str stored =>
          dsimp only at h
          split at h
          · cases h
          · next heq =>
            rw [not_not] at heq
            subst heq
            rcases hsect : lookupKey sect ms with _ | value
            · rw [hsect] at h
              cases h
              exact .missing hs hid hsect
            · rw [hsect] at h
              cases value with
              | arr vs =>
                cases h
                exact .items hs hid hsect
              | _ => cases h
        | _ => cases h
    | _ => cases h

/-- The items of a section, as the handlers read them. -/
theorem SectionIs.items_of_get {snapshots : Map Value} {corpusId sect : String}
    {r : Option (List Value)} (h : SectionIs snapshots corpusId sect r) {snapshot : Value}
    (hs : snapshots[corpusId]? = some snapshot) :
    ((snapshot.get sect).bind Value.asArray).getD [] = r.getD [] := by
  cases h with
  | none hn => cases hn.symm.trans hs
  | missing hm _ hsect =>
    obtain rfl := Option.some.inj (hm.symm.trans hs)
    simp [Value.get, hsect]
  | items hm _ hsect =>
    obtain rfl := Option.some.inj (hm.symm.trans hs)
    simp [Value.get, hsect, Value.asArray]

/-- An item of a section that validation accepts. -/
structure SectionItem (idKey : String) (item : Value) : Prop where
  object : ∃ ms, item = .obj ms
  id : ∃ id, (item.get idKey).bind Value.asStr = some id ∧ isBounded id maxIndexingDomainIdBytes

theorem validateStoredSectionItem_ok {item : Value} {corpusId sect idKey : String}
    (h : validateStoredSectionItem item corpusId sect idKey = .ok ()) : SectionItem idKey item := by
  rw [validateStoredSectionItem] at h
  cases item with
  | obj ms =>
    dsimp only [Value.asObject] at h
    obtain ⟨object, ho, h⟩ := bind_ok.mp h
    cases ho
    obtain ⟨_, -, h⟩ := bind_ok.mp h
    refine ⟨⟨ms, rfl⟩, ?_⟩
    split at h
    · next id hid =>
      split at h
      · next hb => exact ⟨id, hid, hb⟩
      · cases h
    · cases h
  | _ => cases h

/-- The items of every section of a validated snapshot. -/
theorem validateStoredSnapshot_items {snapshots : Map Value} {corpusId : String}
    (h : validateStoredSnapshotForUpsert snapshots corpusId = .ok ()) {snapshot : Value}
    (hs : snapshots[corpusId]? = some snapshot) {sect idKey : String}
    (hsect : (sect, idKey) ∈ snapshotSections) :
    ∀ item ∈ ((snapshot.get sect).bind Value.asArray).getD [], SectionItem idKey item := by
  obtain ⟨items, hitems, hall⟩ := bind_ok.mp (checkAll_ok.mp h (sect, idKey) hsect)
  obtain ⟨r, hr, rfl⟩ := map_ok.mp hitems
  rw [(storedSnapshotSection_ok hr).items_of_get hs]
  intro item hitem
  exact validateStoredSectionItem_ok (checkAll_ok.mp hall item hitem)

theorem boundedRequiredString_ok {params : Object} {name value : String} {maximum : ℕ}
    (h : boundedRequiredString params name maximum = .ok value) :
    lookupKey name params = some (.str value) ∧ isBounded value maximum := by
  obtain ⟨v, hv, h⟩ := bind_ok.mp h
  split at h
  · next hb =>
    cases h
    refine ⟨?_, hb⟩
    obtain ⟨o, ho, hv⟩ := bind_ok.mp hv
    rw [optionalString] at ho
    split at ho
    · cases ho
      cases hv
    · next w hw =>
      split at ho
      · next s hs =>
        cases ho
        cases hv
        cases w with
        | str s =>
          cases hs
          exact hw
        | _ => cases hs
      · cases ho
  · cases h

end AiraGraphdb.Native
