import AiraGraphdb.Schemes.Json.Value
import AiraGraphdb.Schemes.Maps

/-! # Typed readers of JSON

A reader of a type takes the document and the number of levels that may still be nested, and gives
a value or fails. A record is read from an object by the names of its fields, or from an array by
their order; a repeated field is an error, an unknown one is skipped or refused. What is skipped
is never looked into, so it may nest without bound. -/

namespace Schemes.Json

open Std

abbrev Reader (α : Type) := ℕ → Raw → Option α

variable {α : Type} (t : FloatText)

namespace Reader

def value : Reader Value := ofRaw t

def string : Reader String
  | _, .str s => stringText s
  | _, _ => none

def u64 : Reader UInt64
  | _, .num l => match Number.ofLexeme t l with
    | some (.posInt n) => some n
    | _ => none
  | _, _ => none

def u32 : Reader UInt32 := fun limit r => do
  let n ← u64 t limit r
  if n.toNat < 2 ^ 32 then return n.toUInt32 else none

def u16 : Reader UInt16 := fun limit r => do
  let n ← u64 t limit r
  if n.toNat < 2 ^ 16 then return n.toUInt16 else none

/-- A number as a double; how an integer becomes one is the reader's. -/
def f64 (ofInt : ℤ → Finite64) : Reader Finite64
  | _, .num l => match Number.ofLexeme t l with
    | some (.posInt n) => some (ofInt n.toNat)
    | some (.negInt m) => some (ofInt (-(m + 1 : ℤ)))
    | some (.float x) => some x
    | none => none
  | _, _ => none

/-- Anything, not looked into. -/
def ignored : Reader Unit := fun _ _ => some ()

def option (d : Reader α) : Reader (Option α)
  | _, .null => some none
  | limit, r => (d limit r).map some

def list (d : Reader α) : Reader (List α)
  | limit + 1, .arr vs => vs.mapM (d limit)
  | _, _ => none

/-- The entries of an object, each key once or more. -/
def entries (d : Reader α) (limit : ℕ) (ms : List (Bytes × Raw)) : Option (List (String × α)) :=
  ms.mapM fun m => do return (← stringText m.1, ← d limit m.2)

def map (d : Reader α) : Reader (Map α)
  | limit + 1, .obj ms => (entries d limit ms).map (∅ : Map α).insertMany
  | _, _ => none

end Reader

/-! ### Records -/

/-- The fields of a record as they were found: by name, or by position. -/
structure Fields where
  keyed : Bool
  limit : ℕ
  found : List (String × Raw)

/-- The members that are fields, each once; others are skipped, or refused when `deny` is set. -/
def collectFields (names : List String) (deny : Bool) :
    List (String × Raw) → List (Bytes × Raw) → Option (List (String × Raw))
  | seen, [] => some seen
  | seen, (k, v) :: ms => do
    let key ← stringText k
    if key ∈ names then
      if (lookupKey key seen).isSome then none else collectFields names deny (seen ++ [(key, v)]) ms
    else if deny then none
    else collectFields names deny seen ms

def Fields.read (names : List String) (deny : Bool) : Reader Fields
  | limit + 1, .obj ms => (collectFields names deny [] ms).map fun found => ⟨true, limit, found⟩
  | limit + 1, .arr vs =>
    if vs.length ≤ names.length then some ⟨false, limit, names.zip vs⟩ else none
  | _, _ => none

namespace Fields

/-- A field that has to be there. -/
def required (fs : Fields) (name : String) (d : Reader α) : Option α :=
  (lookupKey name fs.found).bind (d fs.limit)

/-- A field that has a value of its own when it is missing. -/
def defaulted (fs : Fields) (name : String) (d : Reader α) (dflt : α) : Option α :=
  match lookupKey name fs.found with
  | some r => d fs.limit r
  | none => some dflt

/-- An optional field: in an object it may be missing, in an array it may not. -/
def optional (fs : Fields) (name : String) (d : Reader α) : Option (Option α) :=
  match lookupKey name fs.found with
  | some r => Reader.option d fs.limit r
  | none => if fs.keyed then some none else none

end Fields

/-! ### What was printed is read -/

theorem lookupKey_append {k : String} {ms ns : List (String × α)} :
    lookupKey k (ms ++ ns) = (lookupKey k ms).or (lookupKey k ns) := by
  induction ms with
  | nil => rfl
  | cons m ms ih =>
    obtain ⟨k', v⟩ := m
    by_cases hk : k = k'
    · simp [lookupKey, hk]
    · simp [lookupKey, hk, ih]

theorem lookupKey_isSome {k : String} {ms : List (String × α)} :
    (lookupKey k ms).isSome = true ↔ k ∈ ms.map Prod.fst := by
  induction ms with
  | nil => simp [lookupKey]
  | cons m ms ih =>
    obtain ⟨k', v⟩ := m
    by_cases hk : k = k'
    · simp [lookupKey, hk]
    · simp [lookupKey, hk, ih]

theorem lookupKey_map {β : Type} {k : String} (f : α → β) (ms : List (String × α)) :
    lookupKey k (ms.map fun m => (m.1, f m.2)) = (lookupKey k ms).map f := by
  induction ms with
  | nil => rfl
  | cons m ms ih =>
    obtain ⟨k', v⟩ := m
    by_cases hk : k = k'
    · simp [lookupKey, hk]
    · simp [lookupKey, hk, ih]

theorem rawMembers_eq (ms : List (String × Value)) :
    rawMembers t ms = ms.map fun m => (escape (utf8 m.1), m.2.raw t) := by
  induction ms with
  | nil => rfl
  | cons m ms ih => rw [rawMembers, ih, List.map_cons]

theorem rawItems_eq (vs : List Value) : rawItems t vs = vs.map (·.raw t) := by
  induction vs with
  | nil => rfl
  | cons v vs ih => rw [rawItems, ih, List.map_cons]

theorem collectFields_raw (names : List String) (deny : Bool) :
    ∀ (ms : List (String × Value)) (seen : List (String × Raw)), (∀ m ∈ ms, m.1 ∈ names) →
      (seen.map Prod.fst ++ ms.map Prod.fst).Nodup →
      collectFields names deny seen (rawMembers t ms) =
        some (seen ++ ms.map fun m => (m.1, m.2.raw t))
  | [], seen, _, _ => by simp [rawMembers, collectFields]
  | (k, v) :: ms, seen, hin, hnd => by
    have hk : lookupKey k seen = none := by
      rw [← Option.not_isSome_iff_eq_none, lookupKey_isSome]
      intro hm
      exact (List.nodup_append.mp hnd).2.2 k hm k (by simp) rfl
    have ih := collectFields_raw names deny ms (seen ++ [(k, v.raw t)])
      (fun m hm => hin m (by simp [hm])) (by simpa using hnd)
    simp [rawMembers, collectFields, hin (k, v) (by simp), hk, ih]

/-- A printed record has its fields found by name. -/
theorem Fields.read_raw {names : List String} (deny : Bool) {ms : List (String × Value)}
    (hin : ∀ m ∈ ms, m.1 ∈ names) (hnd : (ms.map Prod.fst).Nodup) (limit : ℕ) :
    Fields.read names deny (limit + 1) ((Value.obj ms).raw t) =
      some ⟨true, limit, ms.map fun m => (m.1, m.2.raw t)⟩ := by
  rw [Value.raw, Fields.read, collectFields_raw t names deny ms [] hin (by simpa using hnd)]
  rfl

namespace Reader

@[simp] theorem value_raw {v : Value} {limit : ℕ} (hn : v.Normal) (hd : v.depth ≤ limit) :
    value t limit (v.raw t) = some v := ofRaw_raw t v limit hn hd

theorem value_deep {v : Value} {limit : ℕ} (hd : limit < v.depth) :
    value t limit (v.raw t) = none := ofRaw_deep t _ _ (by rwa [raw_depth])

@[simp] theorem string_raw (s : String) (limit : ℕ) :
    string limit ((Value.str s).raw t) = some s := by simp [Value.raw, string]

@[simp] theorem u64_raw (n : UInt64) (limit : ℕ) :
    u64 t limit ((Value.num (.posInt n)).raw t) = some n := by
  simp [Value.raw, u64, Number.ofLexeme_lexeme]

@[simp] theorem u32_raw (n : UInt32) (limit : ℕ) :
    u32 t limit ((Value.num (.posInt n.toUInt64)).raw t) = some n := by
  have hn : n.toNat < 4294967296 := by simpa using n.toNat_lt
  simp [u32, hn]

@[simp] theorem u16_raw (n : UInt16) (limit : ℕ) :
    u16 t limit ((Value.num (.posInt n.toUInt64)).raw t) = some n := by
  have hn : n.toNat < 65536 := by simpa using n.toNat_lt
  simp [u16, hn]

@[simp] theorem f64_raw (ofInt : ℤ → Finite64) (x : Finite64) (limit : ℕ) :
    f64 t ofInt limit ((Value.num (.float x)).raw t) = some x := by
  simp [Value.raw, f64, Number.ofLexeme_lexeme]

theorem mapM_some {β γ : Type} {f : β → Option γ} {g : γ → β} : ∀ {xs : List γ},
    (∀ x ∈ xs, f (g x) = some x) → (xs.map g).mapM f = some xs
  | [], _ => rfl
  | x :: xs, h => by
    have hx := h x (by simp)
    have hxs : (xs.map g).mapM f = some xs := mapM_some fun y hy => h y (by simp [hy])
    simp [hx, hxs]

theorem mapM_none {β γ : Type} {f : β → Option γ} : ∀ {xs : List β} {x : β},
    x ∈ xs → f x = none → xs.mapM f = none
  | y :: xs, x, hx, h => by
    rcases List.mem_cons.mp hx with rfl | hx
    · simp [h]
    · rcases hy : f y with _ | z
      · simp [hy]
      · simp [hy, mapM_none hx h]

/-- A printed list is read back when its items are. -/
theorem list_raw {d : Reader α} {enc : α → Value} {limit : ℕ} {xs : List α}
    (h : ∀ x ∈ xs, d limit ((enc x).raw t) = some x) :
    list d (limit + 1) ((Value.arr (xs.map enc)).raw t) = some xs := by
  rw [Value.raw, rawItems_eq, list, List.map_map]
  exact mapM_some h

/-- A map as an object. -/
def encodeMap (enc : α → Value) (m : Map α) : Value :=
  .obj (m.toList.map fun p => (p.1, enc p.2))

/-- A printed map is read back when its values are. -/
theorem map_raw {d : Reader α} {enc : α → Value} {limit : ℕ} {m : Map α}
    (h : ∀ (k : String) (v : α), m[k]? = some v → d limit ((enc v).raw t) = some v) :
    map d (limit + 1) ((encodeMap enc m).raw t) = some m := by
  have he : entries d limit (rawMembers t (m.toList.map fun p => (p.1, enc p.2))) =
      some m.toList := by
    rw [rawMembers_eq, entries, List.map_map]
    apply mapM_some
    intro p hp
    have hp' := h p.1 p.2 (ExtTreeMap.mem_toList_iff_getElem?_eq_some.mp hp)
    simp [hp']
  rw [encodeMap, Value.raw, map, he, Option.map_some, Map.insertMany_toList]

/-- A map with a value that cannot be read is not read. -/
theorem map_raw_none {d : Reader α} {β : Type} {enc : β → Value} {limit : ℕ} {m : Map β}
    {k : String} {v : β} (hk : m[k]? = some v) (h : d limit ((enc v).raw t) = none) :
    map d (limit + 1) ((encodeMap enc m).raw t) = none := by
  have he : entries d limit (rawMembers t (m.toList.map fun p => (p.1, enc p.2))) = none := by
    rw [rawMembers_eq, entries, List.map_map]
    refine mapM_none (x := _) (List.mem_map_of_mem
      (ExtTreeMap.mem_toList_iff_getElem?_eq_some.mpr hk)) ?_
    simp [h]
  rw [encodeMap, Value.raw, map, he, Option.map_none]

end Reader

end Schemes.Json
