import AiraGraphdb.Schemes.Json.Value

/-! # Looking into JSON values

A member of an object, an item of an array, a member set. What is taken out of a value is normal
when the value is, and nests less deep; what is put in has to leave room for the object around
it. -/

namespace Schemes.Json

/-- A JSON object's members, in the order of their keys. -/
abbrev Object := List (String × Value)

namespace Value

def get (k : String) : Value → Option Value
  | .obj ms => lookupKey k ms
  | _ => none

/-- A member, or `null` where there is none. -/
def index (v : Value) (k : String) : Value := (v.get k).getD .null

def asStr : Value → Option String
  | .str s => some s
  | _ => none

def asU64 : Value → Option UInt64
  | .num (.posInt n) => some n
  | _ => none

/-- Any number as a double. -/
def asF64 (ofInt : ℤ → Finite64) : Value → Option Finite64
  | .num (.posInt n) => some (ofInt n.toNat)
  | .num (.negInt m) => some (ofInt (-(m + 1 : ℤ)))
  | .num (.float x) => some x
  | _ => none

def asBool : Value → Option Bool
  | .bool b => some b
  | _ => none

def asArray : Value → Option (List Value)
  | .arr vs => some vs
  | _ => none

def asObject : Value → Option Object
  | .obj ms => some ms
  | _ => none

/-- An object with a member set. -/
def set (v : Value) (k : String) (w : Value) : Value :=
  match v with
  | .obj ms => .obj (insertKey k w ms)
  | v => v

/-- A member changed in place, when it is there. -/
def modify (v : Value) (k : String) (f : Value → Value) : Value :=
  match v.get k with
  | some w => v.set k (f w)
  | none => v

/-- The items of an array changed. -/
def mapItems (v : Value) (f : List Value → List Value) : Value :=
  match v with
  | .arr vs => .arr (f vs)
  | v => v

end Value

theorem lookupKey_insertKey_self {α : Type} (k : String) (v : α) :
    ∀ ms : List (String × α), lookupKey k (insertKey k v ms) = some v
  | [] => by simp [insertKey, lookupKey]
  | (k', v') :: ms => by
    rw [insertKey]
    split_ifs with h1 h2
    · simp [lookupKey]
    · simp [lookupKey]
    · rw [lookupKey, if_neg h1, lookupKey_insertKey_self k v ms]

theorem lookupKey_insertKey_ne {α : Type} {k k' : String} (h : k' ≠ k) (v : α) :
    ∀ ms : List (String × α), lookupKey k' (insertKey k v ms) = lookupKey k' ms
  | [] => by simp [insertKey, lookupKey, h]
  | (l, w) :: ms => by
    rw [insertKey]
    split_ifs with h1 h2
    · subst h1
      simp [lookupKey, h]
    · simp [lookupKey, h]
    · rw [lookupKey, lookupKey, lookupKey_insertKey_ne h v ms]

/-- Setting a member to what it is changes nothing. -/
theorem insertKey_lookupKey {α : Type} {k : String} {v : α} :
    ∀ {ms : List (String × α)}, Sorted ms → lookupKey k ms = some v → insertKey k v ms = ms
  | (k', v') :: ms, hs, h => by
    obtain ⟨hhead, htail⟩ := List.pairwise_cons.mp hs
    rw [lookupKey] at h
    rw [insertKey]
    split_ifs at h ⊢ with h1 h2
    · cases h
      rw [h1]
    · exact absurd (hhead _ (mem_of_lookupKey h)) h2.not_gt
    · rw [insertKey_lookupKey htail h]

namespace Value

theorem get_set_self {v : Value} {ms : Object} (hv : v.asObject = some ms) (k : String)
    (w : Value) : (v.set k w).get k = some w := by
  cases v with
  | obj ms => exact lookupKey_insertKey_self k w ms
  | _ => cases hv

theorem get_set_ne {k k' : String} (h : k' ≠ k) (v w : Value) :
    (v.set k w).get k' = v.get k' := by
  cases v with
  | obj ms => exact lookupKey_insertKey_ne h w ms
  | _ => rfl

theorem asObject_of_get {v w : Value} {k : String} (h : v.get k = some w) :
    ∃ ms, v.asObject = some ms := by
  cases v with
  | obj ms => exact ⟨ms, rfl⟩
  | _ => cases h

theorem get_modify_self (v : Value) (k : String) (f : Value → Value) :
    (v.modify k f).get k = (v.get k).map f := by
  rw [modify]
  rcases h : v.get k with _ | w
  · exact h
  · obtain ⟨ms, hms⟩ := asObject_of_get h
    exact get_set_self hms k (f w)

theorem get_modify_ne {k k' : String} (h : k' ≠ k) (v : Value) (f : Value → Value) :
    (v.modify k f).get k' = v.get k' := by
  rw [modify]
  rcases hw : v.get k with _ | w
  · rfl
  · exact get_set_ne h v (f w)

/-- An object's keys rise. -/
def SortedKeys (v : Value) : Prop := ∀ ms, v = .obj ms → Sorted ms

theorem Normal.sortedKeys {v : Value} (h : v.Normal) : v.SortedKeys := by
  rintro ms rfl
  exact h.1

theorem SortedKeys.set {v : Value} (h : v.SortedKeys) (k : String) (w : Value) :
    (v.set k w).SortedKeys := by
  cases v with
  | obj ms =>
    rintro ms' he
    cases he
    exact sorted_insertKey (h ms rfl)
  | _ => exact h

theorem SortedKeys.modify {v : Value} (h : v.SortedKeys) (k : String) (f : Value → Value) :
    (v.modify k f).SortedKeys := by
  rw [Value.modify]
  rcases v.get k with _ | w
  · exact h
  · exact h.set k (f w)

/-- A member changed into itself leaves the value as it is. -/
theorem SortedKeys.modify_eq_self {v : Value} (h : v.SortedKeys) {k : String} {f : Value → Value}
    (hf : ∀ w, v.get k = some w → f w = w) : v.modify k f = v := by
  rw [Value.modify]
  rcases hw : v.get k with _ | w
  · rfl
  · show v.set k (f w) = v
    rw [hf w hw]
    cases v with
    | obj ms => exact congrArg Value.obj (insertKey_lookupKey (h ms rfl) hw)
    | _ => rfl

end Value

/-- Numbers are equal when they are the same integer or equal as doubles: the two zeros are. -/
def Number.beq : Number → Number → Bool
  | .posInt a, .posInt b => a == b
  | .negInt a, .negInt b => a == b
  | .float a, .float b => a == b || (a.1.bits.toNat % 2 ^ 63 == 0 && b.1.bits.toNat % 2 ^ 63 == 0)
  | _, _ => false

mutual

/-- Values are compared member by member. -/
def Value.beq : Value → Value → Bool
  | .null, .null => true
  | .bool a, .bool b => a == b
  | .num a, .num b => a.beq b
  | .str a, .str b => a == b
  | .arr as, .arr bs => beqItems as bs
  | .obj as, .obj bs => beqMembers as bs
  | _, _ => false

def beqItems : List Value → List Value → Bool
  | [], [] => true
  | a :: as, b :: bs => a.beq b && beqItems as bs
  | _, _ => false

def beqMembers : List (String × Value) → List (String × Value) → Bool
  | [], [] => true
  | (k, a) :: as, (l, b) :: bs => k == l && a.beq b && beqMembers as bs
  | _, _ => false

end

/-! ### Normal values of bounded depth -/

/-- A normal value that nests at most `d` arrays and objects. -/
structure Value.Within (d : ℕ) (v : Value) : Prop where
  normal : v.Normal
  depth_le : v.depth ≤ d

namespace Value.Within

theorem mono {d e : ℕ} {v : Value} (h : v.Within d) (hde : d ≤ e) : v.Within e :=
  ⟨h.normal, h.depth_le.trans hde⟩

theorem str (d : ℕ) (s : String) : (Value.str s).Within d := ⟨trivial, Nat.zero_le _⟩

theorem num (d : ℕ) (n : Number) : (Value.num n).Within d := ⟨trivial, Nat.zero_le _⟩

theorem null (d : ℕ) : Value.null.Within d := ⟨trivial, Nat.zero_le _⟩

theorem arr_iff {d : ℕ} {vs : List Value} :
    (Value.arr vs).Within (d + 1) ↔ ∀ v ∈ vs, v.Within d := by
  constructor
  · intro h v hv
    have hd := h.depth_le
    rw [Value.depth, Nat.add_comm, Nat.add_le_add_iff_right, maxDepth_le] at hd
    exact ⟨normalItems_iff.mp h.normal v hv, hd v hv⟩
  · intro h
    refine ⟨normalItems_iff.mpr fun v hv => (h v hv).normal, ?_⟩
    rw [Value.depth, Nat.add_comm, Nat.add_le_add_iff_right, maxDepth_le]
    exact fun v hv => (h v hv).depth_le

theorem obj_iff {d : ℕ} {ms : Object} :
    (Value.obj ms).Within (d + 1) ↔ Sorted ms ∧ ∀ m ∈ ms, m.2.Within d := by
  constructor
  · intro h
    have hd := h.depth_le
    rw [Value.depth, Nat.add_comm, Nat.add_le_add_iff_right, maxMemberDepth_le] at hd
    refine ⟨h.normal.1, fun m hm => ⟨normalMembers_iff.mp h.normal.2 m hm, hd m hm⟩⟩
  · rintro ⟨hs, h⟩
    refine ⟨⟨hs, normalMembers_iff.mpr fun m hm => (h m hm).normal⟩, ?_⟩
    rw [Value.depth, Nat.add_comm, Nat.add_le_add_iff_right, maxMemberDepth_le]
    exact fun m hm => (h m hm).depth_le

theorem arr_pos {d : ℕ} {vs : List Value} (h : (Value.arr vs).Within d) : 0 < d := by
  have := h.depth_le
  rw [Value.depth] at this
  omega

theorem obj_pos {d : ℕ} {ms : Object} (h : (Value.obj ms).Within d) : 0 < d := by
  have := h.depth_le
  rw [Value.depth] at this
  omega

/-- A member of an object, one level down. -/
theorem get {d : ℕ} {v w : Value} {k : String} (h : v.Within (d + 1)) (hw : v.get k = some w) :
    w.Within d := by
  cases v with
  | obj ms => exact (obj_iff.mp h).2 _ (mem_of_lookupKey hw)
  | _ => simp [Value.get] at hw

theorem get_pos {d : ℕ} {v w : Value} {k : String} (h : v.Within d) (hw : v.get k = some w) :
    0 < d := by
  cases v with
  | obj ms => exact h.obj_pos
  | _ => simp [Value.get] at hw

theorem index {d : ℕ} {v : Value} (h : v.Within (d + 1)) (k : String) : (v.index k).Within d := by
  rw [Value.index]
  rcases hw : v.get k with _ | w
  · exact null d
  · exact h.get hw

/-- An item of an array, one level down. -/
theorem item {d : ℕ} {v w : Value} {vs : List Value} (h : v.Within (d + 1))
    (hvs : v.asArray = some vs) (hw : w ∈ vs) : w.Within d := by
  cases v with
  | arr us =>
    cases hvs
    exact arr_iff.mp h w hw
  | _ => simp [Value.asArray] at hvs

theorem insertKey {d : ℕ} {ms : Object} {k : String} {w : Value} (h : (Value.obj ms).Within (d + 1))
    (hw : w.Within d) : (Value.obj (insertKey k w ms)).Within (d + 1) := by
  obtain ⟨hs, hms⟩ := obj_iff.mp h
  refine obj_iff.mpr ⟨sorted_insertKey hs, ?_⟩
  intro m hm
  rcases mem_insertKey hm with rfl | hm
  · exact hw
  · exact hms m hm

theorem set {d : ℕ} {v w : Value} {k : String} (h : v.Within (d + 1)) (hw : w.Within d) :
    (v.set k w).Within (d + 1) := by
  cases v with
  | obj ms => exact h.insertKey hw
  | _ => exact h

theorem modify {d : ℕ} {v : Value} {k : String} {f : Value → Value} (h : v.Within (d + 1))
    (hf : ∀ w, w.Within d → (f w).Within d) : (v.modify k f).Within (d + 1) := by
  rw [Value.modify]
  split
  · rename_i w hw
    exact h.set (hf w (h.get hw))
  · exact h

theorem mapItems {d : ℕ} {v : Value} {f : List Value → List Value} (h : v.Within (d + 1))
    (hf : ∀ vs, (∀ w ∈ vs, w.Within d) → ∀ w ∈ f vs, w.Within d) :
    (v.mapItems f).Within (d + 1) := by
  cases v with
  | arr vs => exact arr_iff.mpr (hf vs (arr_iff.mp h))
  | _ => exact h

end Value.Within

end Schemes.Json
