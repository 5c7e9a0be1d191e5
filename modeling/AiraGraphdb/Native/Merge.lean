import AiraGraphdb.Schemes.LastUpsert
import AiraGraphdb.Native.Handlers

/-! # Merging a section of a snapshot

The stored items are gone through once, from the last to the first, and every incoming item is taken
by the first stored one of its id that is met. That is the same as upserting the incoming items one
by one, each in place of the last stored item with its id or at the end. -/

namespace AiraGraphdb.Native

open Schemes Schemes.Json Schemes.LastUpsert

/-- The id of an item, when it has a usable one. -/
def itemId (idKey : String) (item : Value) : Option String := (item.get idKey).bind Value.asStr

variable {idKey : String}

/-! ### Where an id stands -/

theorem incomingIndex_none {ids : List String} {id : String} (h : id ∉ ids) :
    incomingIndex ids id = none := by
  rw [incomingIndex, Option.map_eq_none_iff, List.find?_eq_none]
  intro p hp heq
  have hmem := List.mem_zipIdx' (List.mem_reverse.mp hp)
  exact h (eq_of_beq heq ▸ hmem.2 ▸ List.getElem_mem hmem.1)

theorem incomingIndex_some {ids : List String} {id : String} {index : ℕ}
    (h : incomingIndex ids id = some index) : ids[index]? = some id := by
  rw [incomingIndex, Option.map_eq_some_iff] at h
  obtain ⟨p, hp, rfl⟩ := h
  obtain ⟨hlt, hget⟩ := List.mem_zipIdx' (List.mem_reverse.mp (List.mem_of_find?_eq_some hp))
  rw [List.getElem?_eq_some_iff]
  have hid : (p.1 == id) = true := List.find?_some (p := fun q : String × ℕ => q.1 == id) hp
  exact ⟨hlt, hget.symm.trans (eq_of_beq hid)⟩

theorem incomingIndex_mem {ids : List String} {id : String} (h : id ∈ ids) :
    ∃ index, incomingIndex ids id = some index := by
  obtain ⟨i, hi⟩ := List.mem_iff_getElem?.mp h
  have hmem : (id, i) ∈ ids.zipIdx.reverse := by
    rw [List.mem_reverse, List.mem_zipIdx_iff_getElem?]
    exact hi
  rcases hf : ids.zipIdx.reverse.find? (fun p => p.1 == id) with _ | p
  · rw [List.find?_eq_none] at hf
    exact absurd (beq_self_eq_true id) (hf _ hmem)
  · exact ⟨p.2, by rw [incomingIndex, hf]; rfl⟩

/-! ### One stored item -/

/-- The incoming items that no item of this part of the section has taken. -/
def left (idKey : String) (incoming passed : List Value) : List (Option Value) :=
  incoming.map fun y => if holds (itemId idKey) (itemId idKey y) passed then none else some y

theorem left_cons_of_not_mem {incoming xs : List Value} {x : Value}
    (h : itemId idKey x ∉ incoming.map (itemId idKey)) :
    left idKey incoming (x :: xs) = left idKey incoming xs := by
  refine List.map_congr_left fun y hy => ?_
  have hne : itemId idKey x ≠ itemId idKey y := by
    intro heq
    exact h (heq ▸ List.mem_map_of_mem hy)
  rw [holds_cons, decide_eq_false hne, Bool.false_or]

theorem left_set {incoming xs : List Value} {x y : Value} {index : ℕ}
    (h : Distinct (itemId idKey) incoming) (hy : incoming[index]? = some y)
    (hkey : itemId idKey x = itemId idKey y) :
    (left idKey incoming xs).set index none = left idKey incoming (x :: xs) := by
  refine List.ext_getElem? fun i => ?_
  rw [List.getElem?_set, left, List.length_map, List.getElem?_map, left, List.getElem?_map]
  by_cases hi : index = i
  · subst hi
    have hlt := (List.getElem?_eq_some_iff.mp hy).1
    rw [if_pos rfl, if_pos hlt, hy]
    simp [holds_cons, hkey]
  · rw [if_neg hi]
    rcases hz : incoming[i]? with _ | z
    · rfl
    · have hne : itemId idKey x ≠ itemId idKey z := by
        intro heq
        have hlt := (List.getElem?_eq_some_iff.mp hy).1
        refine hi ((List.getElem?_inj (by simpa using hlt) h.nodup).mp ?_)
        rw [List.getElem?_map, List.getElem?_map, hy, hz, Option.map_some, Option.map_some,
          ← hkey, heq]
      rw [Option.map_some, Option.map_some, holds_cons, decide_eq_false hne, Bool.false_or]

/-- The step: an item after which `xs` is passed. -/
theorem replaceItem_eq {ids : List String} {incoming xs : List Value} {x : Value}
    (hids : incoming.map (itemId idKey) = ids.map some) (h : Distinct (itemId idKey) incoming) :
    replaceItem ids idKey x (left idKey incoming xs)
      = (if holds (itemId idKey) (itemId idKey x) xs then x
          else (incoming.find? fun y => itemId idKey y = itemId idKey x).getD x,
        left idKey incoming (x :: xs)) := by
  rw [replaceItem, ← itemId]
  by_cases hmem : itemId idKey x ∈ incoming.map (itemId idKey)
  · rw [hids] at hmem
    obtain ⟨id, hid, hx⟩ := List.mem_map.mp hmem
    obtain ⟨index, hindex⟩ := incomingIndex_mem hid
    have hget := incomingIndex_some hindex
    have hlen : incoming.length = ids.length := by simpa using congrArg List.length hids
    obtain ⟨y, hy⟩ : ∃ y, incoming[index]? = some y := by
      have hlt := (List.getElem?_eq_some_iff.mp hget).1
      exact ⟨incoming[index], List.getElem?_eq_getElem (by omega)⟩
    have hkey : itemId idKey x = itemId idKey y := by
      have := congrArg (·[index]?) hids
      simp only [List.getElem?_map, hy, hget, Option.map_some] at this
      rw [← hx, Option.some_inj.mp this]
    have hfind := h.find_eq (List.mem_of_getElem? hy)
    rw [← hx, Option.bind_some, hindex, hx, hkey, hfind]
    simp only [left, List.getElem?_map, hy, Option.map_some]
    by_cases hh : holds (itemId idKey) (itemId idKey y) xs = true
    · rw [if_pos hh, if_pos hh]
      refine Prod.ext rfl ?_
      refine List.map_congr_left fun z _ => ?_
      rw [holds_cons]
      by_cases hz : itemId idKey x = itemId idKey z
      · rw [← hz, hkey, hh, Bool.or_true]
      · rw [decide_eq_false hz, Bool.false_or]
    · rw [if_neg hh, if_neg hh]
      exact Prod.ext rfl (left_set h hy hkey)
  · have hfind : incoming.find? (fun y => itemId idKey y = itemId idKey x) = none := by
      rw [List.find?_eq_none]
      intro y hy heq
      exact hmem (List.mem_map.mpr ⟨y, hy, of_decide_eq_true heq⟩)
    have hnone : (itemId idKey x).bind (incomingIndex ids) = none := by
      rcases hx : itemId idKey x with _ | id
      · rfl
      · refine incomingIndex_none fun hid => hmem ?_
        rw [hx, hids]
        exact List.mem_map_of_mem hid
    rw [hnone, hfind, left_cons_of_not_mem hmem]
    simp

/-! ### The section -/

/-- The stored items after the pass, and the incoming ones it has not taken. -/
def passItems (ids : List String) (idKey : String) (incoming existing : List Value) :
    List Value × List (Option Value) :=
  existing.foldr (fun item acc =>
    let replaced := replaceItem ids idKey item acc.2
    (replaced.1 :: acc.1, replaced.2)) ([], incoming.map some)

/-- The run: what is merged is replaced, and what is left is new. -/
theorem passItems_eq {ids : List String} {incoming : List Value}
    (hids : incoming.map (itemId idKey) = ids.map some) (h : Distinct (itemId idKey) incoming)
    (existing : List Value) :
    passItems ids idKey incoming existing
      = (replaced (itemId idKey) incoming existing, left idKey incoming existing) := by
  induction existing with
  | nil => simp [passItems, replaced, left, holds]
  | cons x xs ih =>
    have hstep : passItems ids idKey incoming (x :: xs)
        = (let replaced := replaceItem ids idKey x (passItems ids idKey incoming xs).2
          (replaced.1 :: (passItems ids idKey incoming xs).1, replaced.2)) := rfl
    rw [hstep, ih]
    dsimp only
    rw [replaceItem_eq hids h]
    rfl

theorem reduceOption_left (incoming existing : List Value) :
    (left idKey incoming existing).reduceOption = fresh (itemId idKey) existing incoming := by
  rw [left, fresh]
  induction incoming with
  | nil => rfl
  | cons y ys ih =>
    rw [List.map_cons, List.filter_cons]
    by_cases hy : holds (itemId idKey) (itemId idKey y) existing = true
    · rw [if_pos hy, List.reduceOption_cons_of_none, ih, hy]
      rfl
    · rw [if_neg hy, List.reduceOption_cons_of_some, ih]
      simp [hy]

theorem mergeSnapshotSection_eq {incoming : List Value} (h : Distinct (itemId idKey) incoming)
    (existing : List Value) :
    mergeSnapshotSection existing incoming idKey
      = .ok (merge (itemId idKey) existing incoming) := by
  obtain ⟨ids, hread, hids⟩ : ∃ ids, (incoming.mapM fun item =>
      expect (itemId idKey item) "validated memory upsert item has an ID") = .ok ids
      ∧ incoming.map (itemId idKey) = ids.map some := by
    have hkeyed := h.keyed
    clear h
    induction incoming with
    | nil => exact ⟨[], rfl, rfl⟩
    | cons y ys ih =>
      obtain ⟨ids, hread, hids⟩ := ih fun x hx => hkeyed x (by simp [hx])
      obtain ⟨id, hid⟩ := Option.ne_none_iff_exists'.mp (hkeyed y (by simp))
      refine ⟨id :: ids, ?_, by rw [List.map_cons, hid, hids]; rfl⟩
      rw [List.mapM_cons, hread, hid]
      rfl
  have hrun : mergeSnapshotSection existing incoming idKey = (Except.ok ids >>= fun ids =>
      .ok ((passItems ids idKey incoming existing).1
        ++ (passItems ids idKey incoming existing).2.reduceOption)) := by
    rw [← hread]
    rfl
  have hok : mergeSnapshotSection existing incoming idKey
      = .ok ((passItems ids idKey incoming existing).1
        ++ (passItems ids idKey incoming existing).2.reduceOption) := hrun
  rw [hok, passItems_eq hids h, reduceOption_left]
  rfl

/-- Merging a section is storing the incoming items one by one; the other items keep their places,
an incoming item is stored in one, and ids that are all different stay so. -/
theorem mergeSnapshotSection_upserts (existing incoming : List Value) (idKey : String)
    (h : Distinct (itemId idKey) incoming) :
    ∃ merged, mergeSnapshotSection existing incoming idKey = .ok merged
      ∧ merged = incoming.foldl (fun items item => upsert (itemId idKey) item items) existing
      ∧ (∀ (i : ℕ) item, existing[i]? = some item →
          itemId idKey item ∉ incoming.map (itemId idKey) → merged[i]? = some item)
      ∧ (∀ item ∈ incoming, TakesPlace (itemId idKey) existing merged item)
      ∧ merged.map (itemId idKey) = existing.map (itemId idKey)
          ++ (incoming.map (itemId idKey)).filter (· ∉ existing.map (itemId idKey))
      ∧ ((existing.filterMap (itemId idKey)).Nodup → (merged.filterMap (itemId idKey)).Nodup) := by
  refine ⟨_, mergeSnapshotSection_eq h existing, (foldl_upsert existing h).symm,
    fun i item hi hne => merge_get hi hne, fun item hitem => merge_place h hitem, ?_,
    nodup_merge h⟩
  rw [merge, List.map_append, map_key_replaced, fresh, List.filter_map]
  congr 2
  refine List.filter_congr fun y _ => ?_
  rw [Bool.eq_iff_iff]
  simp [← holds_iff]

def sampleFact (id : String) (n : UInt64) : Value := .obj [("factId", .str id), ("value", numU64 n)]

/-- Two stored facts of one id, one without and one of another. -/
theorem mergeSnapshotSection_upserts_duplicates :
    mergeSnapshotSection [sampleFact "a" 1, .null, sampleFact "a" 2, sampleFact "c" 3]
        [sampleFact "b" 8, sampleFact "a" 9] "factId"
      = .ok [sampleFact "a" 1, .null, sampleFact "a" 9, sampleFact "c" 3, sampleFact "b" 8] := by
  obtain ⟨merged, hok, heq, _⟩ := mergeSnapshotSection_upserts
    [sampleFact "a" 1, .null, sampleFact "a" 2, sampleFact "c" 3]
    [sampleFact "b" 8, sampleFact "a" 9] "factId" ⟨by decide +kernel, by decide +kernel⟩
  rw [hok, heq]
  rfl

end AiraGraphdb.Native
