import AiraGraphdb.Native.Bounded.Refinement
import AiraGraphdb.Schemes.IeeeRange
import AiraGraphdb.Schemes.Yields

/-! # Assertions that are decided

The interpreter can end without a value: where a pointer finds nothing, an operand is of another kind,
or a product is no finite number. The producer's assertions are written so that this does not happen on
values that conform to the schemas. To say why, expressions get types, which are contracts again; a typed
expression ends in a value of its type, unless it normalizes or multiplies (`eval_yields`). -/

namespace AiraGraphdb.Native.Bounded

open Schemes Schemes.Json

/-! ### Types -/

/-- What is known of a value: a part of the request or the result, several parts, one value, or one
that may also be null. -/
inductive Ty where
  | borrowed (node : ContractNode)
  | several (node : ContractNode)
  | single (node : ContractNode)
  | maybe (node : ContractNode)

/-- The value is this one. -/
def EvalValue.Is (v : EvalValue) (w : Value) : Prop := v = .ref w ∨ v = .owned w

namespace Ty

def one? : Ty → Option ContractNode
  | borrowed node => some node
  | single node => some node
  | _ => none

def nullable? : Ty → Option ContractNode
  | borrowed node => some node
  | single node => some node
  | maybe node => some node
  | several _ => none

def Has : Ty → EvalValue → Prop
  | borrowed node, v => ∃ w, v = .ref w ∧ Conforms node w
  | several node, v => ∃ ws, v = .refs ws ∧ ∀ w ∈ ws, Conforms node w
  | single node, v => ∃ w, v.Is w ∧ Conforms node w
  | maybe node, v => ∃ w, v.Is w ∧ (w = .null ∨ Conforms node w)

end Ty

/-! #### Questions about the type of an operand -/

def isKind (kind node : ContractNode) : Bool :=
  (unwrapStructuralNode node).any fun inner => inner.beq kind

def itemOf (node : ContractNode) : Option ContractNode :=
  match unwrapStructuralNode node with
  | some (.array item) => some item
  | _ => none

/-- The contract of a field that every entry has. -/
def entryValue (valueField : String) (item : ContractNode) : Option ContractNode :=
  match unwrapStructuralNode item with
  | some (.object fields) => (lookupKey valueField fields).filter fun node => !node.isOptional
  | _ => none

def oneOf (t : Option Ty) : Option ContractNode := t.bind Ty.one?

def nullableOf (t : Option Ty) : Option ContractNode := t.bind Ty.nullable?

def hasKind (kind : ContractNode) (t : Option Ty) : Bool := (oneOf t).any (isKind kind)

def itemsOf (t : Option Ty) : Option ContractNode := (oneOf t).bind itemOf

def borrowedItems : Option Ty → Option ContractNode
  | some (.borrowed node) => itemOf node
  | _ => none

def isSeveral : Option Ty → Bool
  | some (.several _) => true
  | _ => false

/-! #### The type of an expression -/

structure Contracts where
  request : ContractNode
  result : Option ContractNode

def given (ok : Bool) (node : ContractNode) : Option Ty := if ok then some (.single node) else none

def literalTy : Value → Option Ty
  | .null => some (.maybe (.literal []))
  | .bool _ => some (.single .boolean)
  | .num n => given (numberF64 n).isFinite .number
  | .str _ => some (.single .string)
  | _ => none

def pointerTy (root : ContractNode) (path : List String) : Option Ty :=
  if root.starless && surely root path then
    (structuralContractAt root path).map (if "*" ∈ path then .several else .borrowed)
  else none

/-- Null gives way to a value that is not null. -/
def coalesceTy (first second : Option Ty) : Option Ty := do
  let node ← nullableOf first
  let node' ← oneOf second
  given (node.beq node' && (node'.beq .string || node'.beq .number || node'.beq .boolean)) node'

def typeOf (contracts : Contracts) (scope : Option (String × ContractNode)) : Expr → Option Ty
  | .literal value => literalTy value
  | .pointer .request path => pointerTy contracts.request path
  | .pointer .result path => contracts.result.bind fun result => pointerTy result path
  | .iterationPointer name path => scope.bind fun s => if s.1 = name then pointerTy s.2 path else none
  | .arrayLength value =>
    let t := typeOf contracts scope value
    given (isSeveral t || (itemsOf t).isSome) .number
  | .any first second =>
    given (hasKind .boolean (typeOf contracts scope first)
      && hasKind .boolean (typeOf contracts scope second)) .boolean
  | .coalesce first second => coalesceTy (typeOf contracts scope first) (typeOf contracts scope second)
  | .concat first second =>
    given (hasKind .string (typeOf contracts scope first)
      && hasKind .string (typeOf contracts scope second)) .string
  | .eq left right | .fieldEqRef left right =>
    given ((nullableOf (typeOf contracts scope left)).isSome
      && (nullableOf (typeOf contracts scope right)).isSome) .boolean
  | .lt left right | .lte left right =>
    given (hasKind .number (typeOf contracts scope left)
      && hasKind .number (typeOf contracts scope right)) .boolean
  | .multiply left right | .max left right =>
    given (hasKind .number (typeOf contracts scope left)
      && hasKind .number (typeOf contracts scope right)) .number
  | .not value => given (hasKind .boolean (typeOf contracts scope value)) .boolean
  | .normalizeRef _ value => given (hasKind .string (typeOf contracts scope value)) .string
  | .mapLookup map key _ valueField =>
    if (nullableOf (typeOf contracts scope key)).isSome then
      ((borrowedItems (typeOf contracts scope map)).bind (entryValue valueField)).map .maybe
    else none
  | .setContains set value =>
    given ((borrowedItems (typeOf contracts scope set)).isSome
      && (nullableOf (typeOf contracts scope value)).isSome) .boolean
  | .finiteRange _ _ value => given (typeOf contracts scope value).isSome .boolean
  | .safeIntegerRange _ maximum value =>
    given (hasKind .number (typeOf contracts scope maximum)
      && (typeOf contracts scope value).isSome) .boolean
  | .lengthLteRef actual limit =>
    given ((itemsOf (typeOf contracts scope actual)).isSome
      && hasKind .number (typeOf contracts scope limit)) .boolean
  | .uniqueBy collection name key =>
    given ((itemsOf (typeOf contracts scope collection)).any fun item =>
      (typeOf contracts (some (name, item)) key).isSome) .boolean
  | .orderedScoreDescIdAsc collection name score id =>
    given ((itemsOf (typeOf contracts scope collection)).any fun item =>
      hasKind .number (typeOf contracts (some (name, item)) score)
        && hasKind .string (typeOf contracts (some (name, item)) id)) .boolean
  | .forEach collection name predicate =>
    given ((itemsOf (typeOf contracts scope collection)).any fun item =>
      hasKind .boolean (typeOf contracts (some (name, item)) predicate)) .boolean
  | .rankIsIndexPlusOne collection name rank =>
    given ((itemsOf (typeOf contracts scope collection)).any fun item =>
      (oneOf (typeOf contracts (some (name, item)) rank)).isSome) .boolean

/-- Part of the expression normalizes, or is a product, which may be no finite number. -/
def fallible : Expr → Bool
  | .literal _ | .pointer _ _ | .iterationPointer _ _ => false
  | .normalizeRef _ _ | .multiply _ _ => true
  | .arrayLength value | .not value | .finiteRange _ _ value => fallible value
  | .any first second | .coalesce first second | .concat first second | .max first second =>
    fallible first || fallible second
  | .eq left right | .lt left right | .lte left right | .fieldEqRef left right =>
    fallible left || fallible right
  | .mapLookup map key _ _ => fallible map || fallible key
  | .setContains set value => fallible set || fallible value
  | .safeIntegerRange _ maximum value => fallible maximum || fallible value
  | .lengthLteRef actual limit => fallible actual || fallible limit
  | .uniqueBy collection _ key => fallible collection || fallible key
  | .orderedScoreDescIdAsc collection _ score id =>
    fallible collection || fallible score || fallible id
  | .forEach collection _ predicate => fallible collection || fallible predicate
  | .rankIsIndexPlusOne collection _ rank => fallible collection || fallible rank

/-! ### Values of a type -/

section Values

variable {v l r : EvalValue} {w w' : Value} {node : ContractNode}

theorem EvalValue.Is.one (h : v.Is w) : v.one = some w := by
  rcases h with rfl | rfl <;> rfl

theorem valuesEqual_of_is (hl : l.Is w) (hr : r.Is w') : valuesEqual l r = some (w.beq w') := by
  rcases hl with rfl | rfl <;> rcases hr with rfl | rfl <;> rfl

theorem Ty.Has.one {t : Ty} (h : t.Has v) (hone : t.one? = some node) :
    ∃ w, v.Is w ∧ Conforms node w := by
  cases t with
  | borrowed node =>
    cases hone
    obtain ⟨w, rfl, hw⟩ := h
    exact ⟨w, .inl rfl, hw⟩
  | single node =>
    cases hone
    exact h
  | _ => cases hone

theorem Ty.Has.nullable {t : Ty} (h : t.Has v) (hnullable : t.nullable? = some node) :
    ∃ w, v.Is w ∧ (w = .null ∨ Conforms node w) := by
  cases t with
  | borrowed node =>
    cases hnullable
    obtain ⟨w, rfl, hw⟩ := h
    exact ⟨w, .inl rfl, .inr hw⟩
  | single node =>
    cases hnullable
    obtain ⟨w, hv, hw⟩ := h
    exact ⟨w, hv, .inr hw⟩
  | maybe node =>
    cases hnullable
    exact h
  | several node => cases hnullable

theorem Conforms.of_isKind {kind : ContractNode} (h : Conforms node w)
    (hkind : isKind kind node = true) : Conforms kind w := by
  obtain ⟨inner, hinner, hbeq⟩ := (Option.any_eq_true _ _).mp hkind
  exact validateSchema_of_beq inner kind hbeq (h.unwrap hinner)

theorem Conforms.items {item : ContractNode} (h : Conforms node w) (hitem : itemOf node = some item) :
    ∃ ws, w = .arr ws ∧ ∀ u ∈ ws, Conforms item u := by
  unfold itemOf at hitem
  split at hitem
  · next hinner =>
    cases hitem
    exact validate_array.mp (h.unwrap hinner)
  · cases hitem

/-- What an entry has under the field that is looked up. -/
theorem Conforms.entry {valueField : String} {item value : ContractNode} (h : Conforms item w)
    (hvalue : entryValue valueField item = some value) :
    ∃ members u, w = .obj members ∧ lookupKey valueField members = some u ∧ Conforms value u := by
  unfold entryValue at hvalue
  split at hvalue
  · next fields hinner =>
    obtain ⟨hlookup, hoptional⟩ := Option.filter_eq_some_iff.mp hvalue
    obtain ⟨members, rfl, -, hfields⟩ := validate_object.mp (h.unwrap hinner)
    have hfield := hfields _ (lookupKey_mem hlookup)
    rcases hu : lookupKey valueField members with _ | u
    · have hopt := hfield.absent hu
      simp [hopt] at hoptional
    · exact ⟨members, u, rfl, hu, hfield.present u hu⟩
  · cases hvalue

theorem number_of_conforms (h : Conforms .number w) :
    ∃ x, asDouble w = some x ∧ x.isFinite = true := by
  rw [Conforms, validateSchema] at h
  exact (Option.any_eq_true _ _).mp h

/-- No text, number or boolean is null. -/
theorem not_conforms_null
    (h : (node.beq .string || node.beq .number || node.beq .boolean) = true) : ¬ Conforms node .null := by
  cases node <;> simp_all [ContractNode.beq, Conforms, validateSchema, asDouble, Value.asStr,
    Value.asBool]

theorem conforms_number {x : F64} (h : x.isFinite = true) :
    Conforms .number (.num (.float ⟨x, h⟩)) := by
  rw [Conforms, validateSchema, asDouble, Option.any_some]
  exact h

theorem conforms_numU64 (n : UInt64) : Conforms .number (numU64 n) := by
  rw [Conforms, validateSchema, numU64, asDouble, Option.any_some, numberF64]
  exact F64.isFinite_ofInt (by simpa using n.toNat_lt)

theorem has_bool (b : Bool) : (Ty.single .boolean).Has (.bool b) :=
  ⟨.bool b, .inr rfl, by rw [Conforms, validateSchema]; rfl⟩

theorem has_string (s : String) : (Ty.single .string).Has (.owned (.str s)) :=
  ⟨.str s, .inr rfl, by rw [Conforms, validateSchema]; rfl⟩

end Values

/-! #### The greater of two numbers -/

theorem maxF64_negInfinity {x : F64} (h : x.isFinite = true) : maxF64 F64.negInfinity x = x := by
  have hnan : F64.negInfinity.isNan = false := by decide
  have hplace : F64.negInfinity.place = -(2047 * 2 ^ 52) := by decide
  have hlt : F64.lt F64.negInfinity x = true := by
    rw [F64.lt, hnan, isNan_of_finite h, hplace, Bool.not_false, Bool.and_self, Bool.true_and,
      decide_eq_true_iff]
    simp only [F64.isFinite, bne_iff_ne, ne_eq, Nat.reducePow] at h
    simp only [F64.place, F64.magnitude, Nat.reducePow]
    split_ifs <;> omega
  rw [maxF64, hnan, isNan_of_finite h, hlt]
  rfl

theorem maxF64_isFinite {x y : F64} (hx : x.isFinite = true) (hy : y.isFinite = true) :
    (maxF64 x y).isFinite = true := by
  unfold maxF64
  split_ifs <;> assumption

/-! ### What typed expressions yield -/

theorem given_eq {ok : Bool} {node : ContractNode} {t : Ty} (h : given ok node = some t) :
    ok = true ∧ t = .single node := by
  unfold given at h
  split_ifs at h with hok
  cases h
  exact ⟨hok, rfl⟩

theorem pointerTy_has {root : ContractNode} {path : List String} {v : Value} {t : Ty}
    (h : pointerTy root path = some t) (hv : Conforms root v) :
    ∃ found, pointerValue v path = some found ∧ t.Has found := by
  rw [pointerTy, Option.ite_none_right_eq_some, Bool.and_eq_true] at h
  obtain ⟨⟨hstarless, hsurely⟩, h⟩ := h
  obtain ⟨node, hnode, rfl⟩ := Option.map_eq_some_iff.mp h
  have hsingle : ∀ w ∈ [v], Conforms root w := by simpa using hv
  obtain ⟨ws, hws, hlength⟩ := pointerValues_surely hstarless hsingle hnode hsurely
  have hall := pointerValues_conform hstarless hsingle hnode hws
  by_cases hstar : "*" ∈ path
  · refine ⟨.refs ws, by simp [pointerValue, hws, hstar], ?_⟩
    rw [if_pos hstar]
    exact ⟨ws, rfl, hall⟩
  · obtain ⟨w, rfl⟩ := List.length_eq_one_iff.mp (hlength hstar)
    refine ⟨.ref w, by simp [pointerValue, hws, hstar], ?_⟩
    rw [if_neg hstar]
    exact ⟨w, rfl, hall w List.mem_cons_self⟩

theorem literalTy_has {v : Value} {t : Ty} (h : literalTy v = some t) : t.Has (.owned v) := by
  cases v with
  | null =>
    cases h
    exact ⟨.null, .inr rfl, .inl rfl⟩
  | bool b =>
    cases h
    exact has_bool b
  | num n =>
    obtain ⟨hfinite, rfl⟩ := given_eq h
    exact ⟨.num n, .inr rfl, by simpa [Conforms, validateSchema, asDouble] using hfinite⟩
  | str s =>
    cases h
    exact has_string s
  | _ => cases h

section Yields

variable {m : Type → Type} [Monad m] [LawfulMonad m] {may : Prop}

theorem yields_checked {α : Type} {P : α → Prop} {o : Option α} {a : α} (h : o = some a) (hP : P a) :
    Yields may P (checked o : OptionT m α) :=
  Yields.ofOption (h ▸ hP)

/-- The computation yields a value of the type, where there is one. -/
def Typed (may : Prop) (t : Option Ty) (x : OptionT m EvalValue) : Prop :=
  ∀ type, t = some type → Yields may type.Has x

namespace Typed

variable {t : Option Ty} {x : OptionT m EvalValue} {node item : ContractNode}

theorem known (h : Typed may t x) (ht : t.isSome = true) : Yields may (fun _ => True) x := by
  obtain ⟨type, rfl⟩ := Option.isSome_iff_exists.mp ht
  exact (h type rfl).weaken id fun _ _ => trivial

theorem one (h : Typed may t x) (hone : oneOf t = some node) :
    Yields may (fun v => ∃ w, v.Is w ∧ Conforms node w) x := by
  obtain ⟨type, rfl, hnode⟩ := Option.bind_eq_some_iff.mp hone
  exact (h type rfl).weaken id fun v hv => hv.one hnode

theorem nullable (h : Typed may t x) (hnullable : nullableOf t = some node) :
    Yields may (fun v => ∃ w, v.Is w ∧ (w = .null ∨ Conforms node w)) x := by
  obtain ⟨type, rfl, hnode⟩ := Option.bind_eq_some_iff.mp hnullable
  exact (h type rfl).weaken id fun v hv => hv.nullable hnode

theorem is (h : Typed may t x) (hnullable : (nullableOf t).isSome = true) :
    Yields may (fun v => ∃ w, v.Is w) x := by
  obtain ⟨node, hnode⟩ := Option.isSome_iff_exists.mp hnullable
  exact (h.nullable hnode).weaken id fun v hv => hv.imp fun w hw => hw.1

theorem kind {kind : ContractNode} (h : Typed may t x) (hkind : hasKind kind t = true) :
    Yields may (fun v => ∃ w, v.Is w ∧ Conforms kind w) x := by
  obtain ⟨node, hnode, hinner⟩ := (Option.any_eq_true _ _).mp hkind
  exact (h.one hnode).weaken id fun v hv => hv.imp fun w hw => ⟨hw.1, hw.2.of_isKind hinner⟩

theorem number (h : Typed may t x) (hkind : hasKind .number t = true) :
    Yields may (fun v => ∃ a, v.asNumber = some a ∧ a.isFinite = true) x :=
  (h.kind hkind).weaken id fun v hv => by
    obtain ⟨w, hw, hnumber⟩ := hv
    obtain ⟨a, ha, hfinite⟩ := number_of_conforms hnumber
    refine ⟨a, ?_, hfinite⟩
    rw [EvalValue.asNumber, hw.one, Option.bind_some, ha]
    simp [hfinite]

theorem text (h : Typed may t x) (hkind : hasKind .string t = true) :
    Yields may (fun v => ∃ s, v.asString = some s) x :=
  (h.kind hkind).weaken id fun v hv => by
    obtain ⟨w, hw, hstring⟩ := hv
    rw [Conforms, validateSchema] at hstring
    rw [EvalValue.asString, hw.one]
    exact Option.isSome_iff_exists.mp hstring

theorem boolean (h : Typed may t x) (hkind : hasKind .boolean t = true) :
    Yields may (fun v => ∃ b, v.asBool = some b) x :=
  (h.kind hkind).weaken id fun v hv => by
    obtain ⟨w, hw, hboolean⟩ := hv
    rw [Conforms, validateSchema] at hboolean
    rw [EvalValue.asBool, hw.one]
    exact Option.isSome_iff_exists.mp hboolean

theorem items (h : Typed may t x) (hitems : itemsOf t = some item) :
    Yields may (fun v => ∃ ws, v.one.bind Value.asArray = some ws ∧ ∀ w ∈ ws, Conforms item w) x := by
  obtain ⟨node, hnode, hitem⟩ := Option.bind_eq_some_iff.mp hitems
  refine (h.one hnode).weaken id fun v hv => ?_
  obtain ⟨w, hw, hconforms⟩ := hv
  obtain ⟨ws, rfl, hall⟩ := hconforms.items hitem
  exact ⟨ws, by rw [hw.one]; rfl, hall⟩

theorem borrowed (h : Typed may t x) (hitems : borrowedItems t = some item) :
    Yields may (fun v => ∃ ws, v.borrowedArray = some ws ∧ ∀ w ∈ ws, Conforms item w) x := by
  unfold borrowedItems at hitems
  split at hitems
  · refine (h _ rfl).weaken id fun v hv => ?_
    obtain ⟨w, rfl, hw⟩ := hv
    obtain ⟨ws, rfl, hall⟩ := hw.items hitems
    exact ⟨ws, rfl, hall⟩
  · cases hitems

end Typed

/-! #### Loops and lookups -/

theorem uniqueLoop_yields {key : Value → OptionT m EvalValue} : ∀ {items : List Value}
    (keys : List EvalValue), (∀ item ∈ items, Yields may (fun _ => True) (key item)) →
      Yields may (fun _ => True) (uniqueLoop key keys items)
  | [], _, _ => Yields.pure trivial
  | item :: items, keys, h => by
    rw [List.forall_mem_cons] at h
    rw [uniqueLoop]
    refine h.1.bind fun k _ => ?_
    split
    · exact Yields.pure trivial
    · exact uniqueLoop_yields _ h.2

theorem orderedLoop_yields {score id : Value → OptionT m EvalValue} : ∀ {items : List Value}
    (previous : Option (F64 × String)),
    (∀ item ∈ items, Yields may (fun v => ∃ a, v.asNumber = some a ∧ a.isFinite = true) (score item)) →
    (∀ item ∈ items, Yields may (fun v => ∃ s, v.asString = some s) (id item)) →
      Yields may (fun _ => True) (orderedLoop score id previous items)
  | [], _, _, _ => Yields.pure trivial
  | item :: items, previous, hscore, hid => by
    rw [List.forall_mem_cons] at hscore hid
    rw [orderedLoop]
    refine hscore.1.bind fun v hv => ?_
    obtain ⟨a, ha, -⟩ := hv
    refine (yields_checked (P := fun _ => True) ha trivial).bind fun s _ => ?_
    refine hid.1.bind fun u hu => ?_
    obtain ⟨text, htext⟩ := hu
    refine (yields_checked (P := fun _ => True) htext trivial).bind fun i _ => ?_
    split
    · exact Yields.pure trivial
    · exact orderedLoop_yields _ hscore.2 hid.2

theorem forEachLoop_yields {predicate : Value → OptionT m EvalValue} : ∀ {items : List Value},
    (∀ item ∈ items, Yields may (fun v => ∃ b, v.asBool = some b) (predicate item)) →
      Yields may (fun _ => True) (forEachLoop predicate items)
  | [], _ => Yields.pure trivial
  | item :: items, h => by
    rw [List.forall_mem_cons] at h
    rw [forEachLoop]
    refine h.1.bind fun v hv => ?_
    obtain ⟨b, hb⟩ := hv
    refine (yields_checked (P := fun _ => True) hb trivial).bind fun holds _ => ?_
    split
    · exact forEachLoop_yields h.2
    · exact Yields.pure trivial

theorem rankLoop_yields {rank : Value → OptionT m EvalValue} : ∀ {items : List Value} (index : ℕ),
    (∀ item ∈ items, Yields may (fun v => ∃ w, v.Is w) (rank item)) →
      Yields may (fun _ => True) (rankLoop rank index items)
  | [], _, _ => Yields.pure trivial
  | item :: items, index, h => by
    rw [List.forall_mem_cons] at h
    rw [rankLoop]
    refine h.1.bind fun v hv => ?_
    obtain ⟨w, hw⟩ := hv
    refine (yields_checked (P := fun _ => True) hw.one trivial).bind fun value _ => ?_
    split
    · exact rankLoop_yields _ h.2
    · exact Yields.pure trivial

theorem lookupEntry_has {keyField valueField : String} {item value : ContractNode} {key : EvalValue}
    {k : Value} (hkey : key.Is k) (hvalue : entryValue valueField item = some value) :
    ∀ {entries : List Value}, (∀ w ∈ entries, Conforms item w) →
      ∃ v, lookupEntry keyField valueField key entries = some v ∧ (Ty.maybe value).Has v
  | [], _ => ⟨_, rfl, .null, .inr rfl, .inl rfl⟩
  | entry :: entries, h => by
    rw [List.forall_mem_cons] at h
    obtain ⟨members, u, rfl, hu, hconforms⟩ := h.1.entry hvalue
    have ih := @lookupEntry_has keyField _ _ _ _ _ hkey hvalue _ h.2
    simp only [lookupEntry, Value.asObject, Option.bind_eq_bind, Option.bind_some]
    rcases lookupKey keyField members with _ | candidate
    · exact ih
    · simp only [valuesEqual_of_is (.inl rfl) hkey, Option.bind_some, hu, Option.map_some]
      split
      · exact ⟨_, rfl, u, .inl rfl, .inr hconforms⟩
      · exact ih

theorem containsValue_decided {value : EvalValue} {w : Value} (h : value.Is w)
    (candidates : List Value) : ∃ b, containsValue value candidates = some b := by
  induction candidates with
  | nil => exact ⟨false, rfl⟩
  | cons candidate candidates ih =>
    simp only [containsValue, valuesEqual_of_is (.inl rfl) h, Option.bind_eq_bind, Option.bind_some]
    split
    · exact ⟨true, rfl⟩
    · exact ih

/-! #### The interpreter -/

/-- The request and the result conform to the contracts. -/
structure Contracts.Fit (contracts : Contracts) (context : EvalContext) : Prop where
  request : Conforms contracts.request context.request
  result : ∀ node, contracts.result = some node → ∃ v, context.result = some v ∧ Conforms node v

/-- The item of the loop that an expression is in. -/
def InScope (scope : Option (String × ContractNode)) (current : Option (String × Value)) : Prop :=
  ∀ name item, scope = some (name, item) → ∃ v, current = some (name, v) ∧ Conforms item v

theorem inScope_item {name : String} {item : ContractNode} {v : Value} (h : Conforms item v) :
    InScope (some (name, item)) (some (name, v)) := by
  intro name' item' heq
  cases heq
  exact ⟨v, rfl, h⟩

theorem yields_bool {x : OptionT m Bool} (h : Yields may (fun _ => True) x) :
    Yields may (Ty.single .boolean).Has (x >>= fun b => pure (.bool b)) :=
  h.bind fun b _ => Yields.pure (has_bool b)

section Binary

variable {t t' : Option Ty} {x x' : OptionT m EvalValue}

theorem equal_yields (h : Typed may t x) (h' : Typed may t' x')
    (hok : ((nullableOf t).isSome && (nullableOf t').isSome) = true) :
    Yields may (Ty.single .boolean).Has (do
      let l ← x
      let r ← x'
      return .bool (← checked (valuesEqual l r))) := by
  rw [Bool.and_eq_true] at hok
  refine (h.is hok.1).bind fun l hl => (h'.is hok.2).bind fun r hr => ?_
  obtain ⟨w, hw⟩ := hl
  obtain ⟨w', hw'⟩ := hr
  exact yields_bool (yields_checked (valuesEqual_of_is hw hw') trivial)

theorem numbers_yield {type : Ty} {f : F64 → F64 → OptionT m EvalValue} (h : Typed may t x)
    (h' : Typed may t' x') (hok : (hasKind .number t && hasKind .number t') = true)
    (hf : ∀ a b, a.isFinite = true → b.isFinite = true → Yields may type.Has (f a b)) :
    Yields may type.Has (do
      let l ← x
      let a ← checked l.asNumber
      let r ← x'
      let b ← checked r.asNumber
      f a b) := by
  rw [Bool.and_eq_true] at hok
  refine (h.number hok.1).bind fun l hl => ?_
  obtain ⟨a, ha, hfinite⟩ := hl
  refine (yields_checked (P := fun a => a.isFinite = true) ha hfinite).bind fun a hfinite => ?_
  refine (h'.number hok.2).bind fun r hr => ?_
  obtain ⟨b, hb, hfinite'⟩ := hr
  exact (yields_checked (P := fun b => b.isFinite = true) hb hfinite').bind fun b hfinite' =>
    hf a b hfinite hfinite'

end Binary

theorem scalarNumber_has {x : F64} (h : x.isFinite = true) :
    ∃ v, scalarNumber x = some v ∧ (Ty.single .number).Has v := by
  rw [scalarNumber, dif_pos h]
  exact ⟨_, rfl, _, .inr rfl, conforms_number h⟩

section Eval

variable {normalizer : String → String → OptionT m String} {context : EvalContext}
  {contracts : Contracts}

/-- A typed expression yields a value of its type, or nothing where that may be. -/
theorem eval_typed (hfit : contracts.Fit context) (e : Expr) {scope : Option (String × ContractNode)}
    {current : Option (String × Value)} (hscope : InScope scope current)
    (hmay : fallible e = true → may) :
    Typed may (typeOf contracts scope e) (eval normalizer context current e) := by
  induction e generalizing scope current with
  | literal value =>
    intro t ht
    rw [eval]
    exact Yields.pure (literalTy_has ht)
  | pointer root path =>
    intro t ht
    cases root with
    | request =>
      obtain ⟨v, hv, hhas⟩ := pointerTy_has ht hfit.request
      rw [eval]
      exact yields_checked hv hhas
    | result =>
      obtain ⟨node, hnode, ht⟩ := Option.bind_eq_some_iff.mp ht
      obtain ⟨w, hw, hconforms⟩ := hfit.result node hnode
      obtain ⟨v, hv, hhas⟩ := pointerTy_has ht hconforms
      rw [eval, hw, Option.bind_some]
      exact yields_checked hv hhas
  | iterationPointer name path =>
    intro t ht
    obtain ⟨s, hs, hfound⟩ := Option.bind_eq_some_iff.mp ht
    rw [Option.ite_none_right_eq_some] at hfound
    obtain ⟨hname, hfound⟩ := hfound
    obtain ⟨w, hw, hconforms⟩ := hscope s.1 s.2 hs
    obtain ⟨v, hv, hhas⟩ := pointerTy_has hfound hconforms
    rw [eval]
    exact yields_checked (by simpa [hw, currentPointer, hname] using hv) hhas
  | arrayLength value ih =>
    intro t ht
    have ih := ih hscope hmay
    obtain ⟨hok, rfl⟩ := given_eq ht
    have hlength (values : List Value) : (Ty.single .number).Has
        (.owned (numU64 (UInt64.ofNat values.length))) := ⟨_, .inr rfl, conforms_numU64 _⟩
    rw [eval]
    rcases Bool.or_eq_true _ _ |>.mp hok with hseveral | hitems
    · unfold isSeveral at hseveral
      split at hseveral
      · next hvalue =>
        refine (ih _ hvalue).bind fun v hv => ?_
        obtain ⟨ws, rfl, -⟩ := hv
        exact Yields.pure (hlength ws)
      · cases hseveral
    · obtain ⟨item, hitem⟩ := Option.isSome_iff_exists.mp hitems
      refine (ih.items hitem).bind fun v hv => ?_
      obtain ⟨ws, hws, -⟩ := hv
      split
      · exact Yields.pure (hlength _)
      · exact (yields_checked (P := fun _ => True) hws trivial).bind fun values _ =>
          Yields.pure (hlength values)
  | any first second ih ih' =>
    intro t ht
    simp only [fallible, Bool.or_eq_true] at hmay
    obtain ⟨hok, rfl⟩ := given_eq ht
    rw [Bool.and_eq_true] at hok
    rw [eval]
    refine ((ih hscope fun h => hmay (.inl h)).boolean hok.1).bind fun v hv => ?_
    obtain ⟨b, hb⟩ := hv
    refine (yields_checked (P := fun _ => True) hb trivial).bind fun b _ => ?_
    split
    · exact Yields.pure (has_bool true)
    · refine ((ih' hscope fun h => hmay (.inr h)).boolean hok.2).bind fun v hv => ?_
      obtain ⟨b, hb⟩ := hv
      exact yields_bool (yields_checked hb trivial)
  | coalesce first second ih ih' =>
    intro t ht
    simp only [fallible, Bool.or_eq_true] at hmay
    have ht : coalesceTy (typeOf contracts scope first) (typeOf contracts scope second) = some t := ht
    obtain ⟨node, hnode, ht⟩ := Option.bind_eq_some_iff.mp ht
    obtain ⟨node', hnode', ht⟩ := Option.bind_eq_some_iff.mp ht
    obtain ⟨hok, rfl⟩ := given_eq ht
    rw [Bool.and_eq_true] at hok
    rw [eval]
    refine ((ih hscope fun h => hmay (.inl h)).nullable hnode).bind fun v hv => ?_
    obtain ⟨w, hw, hconforms⟩ := hv
    refine (yields_checked (P := fun u => u = w) hw.one rfl).bind fun u hu => ?_
    subst hu
    split
    · refine ((ih' hscope fun h => hmay (.inr h)).one hnode').bind fun v' hv' => ?_
      obtain ⟨w', hw', hconforms'⟩ := hv'
      refine (yields_checked (P := fun u => u = w') hw'.one rfl).bind fun u hu => ?_
      subst hu
      split
      · exact absurd hconforms' (not_conforms_null hok.2)
      · exact Yields.pure ⟨_, hw', hconforms'⟩
    · next hnull =>
      exact Yields.pure ⟨_, hw, validateSchema_of_beq _ _ hok.1 (hconforms.resolve_left hnull)⟩
  | concat first second ih ih' =>
    intro t ht
    simp only [fallible, Bool.or_eq_true] at hmay
    obtain ⟨hok, rfl⟩ := given_eq ht
    rw [Bool.and_eq_true] at hok
    rw [eval]
    refine ((ih hscope fun h => hmay (.inl h)).text hok.1).bind fun v hv => ?_
    obtain ⟨s, hs⟩ := hv
    refine (yields_checked (P := fun _ => True) hs trivial).bind fun s _ => ?_
    refine ((ih' hscope fun h => hmay (.inr h)).text hok.2).bind fun v hv => ?_
    obtain ⟨u, hu⟩ := hv
    exact (yields_checked (P := fun _ => True) hu trivial).bind fun u _ => Yields.pure (has_string _)
  | eq left right ih ih' =>
    intro t ht
    simp only [fallible, Bool.or_eq_true] at hmay
    obtain ⟨hok, rfl⟩ := given_eq ht
    rw [eval]
    exact equal_yields (ih hscope fun h => hmay (.inl h)) (ih' hscope fun h => hmay (.inr h)) hok
  | lt left right ih ih' =>
    intro t ht
    simp only [fallible, Bool.or_eq_true] at hmay
    obtain ⟨hok, rfl⟩ := given_eq ht
    rw [eval]
    exact numbers_yield (ih hscope fun h => hmay (.inl h)) (ih' hscope fun h => hmay (.inr h)) hok
      fun a b _ _ => Yields.pure (has_bool _)
  | lte left right ih ih' =>
    intro t ht
    simp only [fallible, Bool.or_eq_true] at hmay
    obtain ⟨hok, rfl⟩ := given_eq ht
    rw [eval]
    exact numbers_yield (ih hscope fun h => hmay (.inl h)) (ih' hscope fun h => hmay (.inr h)) hok
      fun a b _ _ => Yields.pure (has_bool _)
  | multiply left right ih ih' =>
    intro t ht
    have hmay := hmay rfl
    obtain ⟨hok, rfl⟩ := given_eq ht
    rw [eval]
    refine numbers_yield (ih hscope fun _ => hmay) (ih' hscope fun _ => hmay) hok fun a b _ _ => ?_
    by_cases hfinite : (F64.mul a b).isFinite = true
    · obtain ⟨v, hv, hhas⟩ := scalarNumber_has hfinite
      exact yields_checked hv hhas
    · rw [scalarNumber, dif_neg hfinite]
      exact Yields.ofOption hmay
  | max first second ih ih' =>
    intro t ht
    simp only [fallible, Bool.or_eq_true] at hmay
    obtain ⟨hok, rfl⟩ := given_eq ht
    rw [eval]
    refine numbers_yield (ih hscope fun h => hmay (.inl h)) (ih' hscope fun h => hmay (.inr h)) hok
      fun a b ha hb => ?_
    rw [maxF64_negInfinity ha]
    obtain ⟨v, hv, hhas⟩ := scalarNumber_has (maxF64_isFinite ha hb)
    exact yields_checked hv hhas
  | not value ih =>
    intro t ht
    obtain ⟨hok, rfl⟩ := given_eq ht
    rw [eval]
    refine ((ih hscope hmay).boolean hok).bind fun v hv => ?_
    obtain ⟨b, hb⟩ := hv
    exact (yields_checked (P := fun _ => True) hb trivial).bind fun b _ => Yields.pure (has_bool _)
  | normalizeRef dependency value ih =>
    intro t ht
    have hmay := hmay rfl
    obtain ⟨hok, rfl⟩ := given_eq ht
    rw [eval]
    refine ((ih hscope fun _ => hmay).text hok).bind fun v hv => ?_
    obtain ⟨s, hs⟩ := hv
    refine (yields_checked (P := fun _ => True) hs trivial).bind fun s _ => ?_
    exact (Yields.unknown hmay _).bind fun text _ => Yields.pure (has_string text)
  | mapLookup map key keyField valueField ih ih' =>
    intro t ht
    simp only [fallible, Bool.or_eq_true] at hmay
    rw [typeOf, Option.ite_none_right_eq_some] at ht
    obtain ⟨hkey, ht⟩ := ht
    obtain ⟨value, hvalue, rfl⟩ := Option.map_eq_some_iff.mp ht
    obtain ⟨item, hitem, hvalue⟩ := Option.bind_eq_some_iff.mp hvalue
    rw [eval]
    refine ((ih' hscope fun h => hmay (.inr h)).is hkey).bind fun k hk => ?_
    obtain ⟨w, hw⟩ := hk
    refine ((ih hscope fun h => hmay (.inl h)).borrowed hitem).bind fun v hv => ?_
    obtain ⟨ws, hws, hall⟩ := hv
    refine (yields_checked (P := fun us => us = ws) hws rfl).bind fun us hus => ?_
    subst hus
    obtain ⟨found, hfound, hhas⟩ := @lookupEntry_has keyField _ _ _ _ _ hw hvalue _ hall
    exact yields_checked hfound hhas
  | setContains set value ih ih' =>
    intro t ht
    simp only [fallible, Bool.or_eq_true] at hmay
    obtain ⟨hok, rfl⟩ := given_eq ht
    rw [Bool.and_eq_true] at hok
    obtain ⟨item, hitem⟩ := Option.isSome_iff_exists.mp hok.1
    rw [eval]
    refine ((ih hscope fun h => hmay (.inl h)).borrowed hitem).bind fun v hv => ?_
    obtain ⟨ws, hws, -⟩ := hv
    refine (yields_checked (P := fun _ => True) hws trivial).bind fun us _ => ?_
    refine ((ih' hscope fun h => hmay (.inr h)).is hok.2).bind fun v hv => ?_
    obtain ⟨w, hw⟩ := hv
    obtain ⟨b, hb⟩ := containsValue_decided hw us
    exact yields_bool (yields_checked hb trivial)
  | fieldEqRef left right ih ih' =>
    intro t ht
    simp only [fallible, Bool.or_eq_true] at hmay
    obtain ⟨hok, rfl⟩ := given_eq ht
    rw [eval]
    exact equal_yields (ih hscope fun h => hmay (.inl h)) (ih' hscope fun h => hmay (.inr h)) hok
  | finiteRange minimum maximum value ih =>
    intro t ht
    obtain ⟨hok, rfl⟩ := given_eq ht
    rw [eval]
    exact ((ih hscope hmay).known hok).bind fun v _ => Yields.pure (has_bool _)
  | safeIntegerRange minimum maximum value ih ih' =>
    intro t ht
    simp only [fallible, Bool.or_eq_true] at hmay
    obtain ⟨hok, rfl⟩ := given_eq ht
    rw [Bool.and_eq_true] at hok
    rw [eval]
    refine ((ih hscope fun h => hmay (.inl h)).number hok.1).bind fun v hv => ?_
    obtain ⟨a, ha, -⟩ := hv
    refine (yields_checked (P := fun _ => True) ha trivial).bind fun limit _ => ?_
    exact ((ih' hscope fun h => hmay (.inr h)).known hok.2).bind fun v _ => Yields.pure (has_bool _)
  | lengthLteRef actual limit ih ih' =>
    intro t ht
    simp only [fallible, Bool.or_eq_true] at hmay
    obtain ⟨hok, rfl⟩ := given_eq ht
    rw [Bool.and_eq_true] at hok
    obtain ⟨item, hitem⟩ := Option.isSome_iff_exists.mp hok.1
    rw [eval]
    refine ((ih hscope fun h => hmay (.inl h)).items hitem).bind fun v hv => ?_
    obtain ⟨ws, hws, -⟩ := hv
    refine ((ih' hscope fun h => hmay (.inr h)).number hok.2).bind fun u hu => ?_
    obtain ⟨a, ha, -⟩ := hu
    refine (yields_checked (P := fun _ => True) hws trivial).bind fun values _ => ?_
    exact (yields_checked (P := fun _ => True) ha trivial).bind fun limit _ => Yields.pure (has_bool _)
  | uniqueBy collection name key ih ih' =>
    intro t ht
    simp only [fallible, Bool.or_eq_true] at hmay
    obtain ⟨hok, rfl⟩ := given_eq ht
    obtain ⟨item, hitem, hkey⟩ := (Option.any_eq_true _ _).mp hok
    rw [eval]
    refine ((ih hscope fun h => hmay (.inl h)).items hitem).bind fun v hv => ?_
    obtain ⟨ws, hws, hall⟩ := hv
    refine (yields_checked (P := fun us => us = ws) hws rfl).bind fun us hus => ?_
    subst hus
    exact yields_bool (uniqueLoop_yields [] fun w hw =>
      (ih' (inScope_item (hall w hw)) fun h => hmay (.inr h)).known hkey)
  | orderedScoreDescIdAsc collection name score id ih ih' ih'' =>
    intro t ht
    simp only [fallible, Bool.or_eq_true, or_assoc] at hmay
    obtain ⟨hok, rfl⟩ := given_eq ht
    obtain ⟨item, hitem, hentry⟩ := (Option.any_eq_true _ _).mp hok
    rw [Bool.and_eq_true] at hentry
    rw [eval]
    refine ((ih hscope fun h => hmay (.inl h)).items hitem).bind fun v hv => ?_
    obtain ⟨ws, hws, hall⟩ := hv
    refine (yields_checked (P := fun us => us = ws) hws rfl).bind fun us hus => ?_
    subst hus
    exact yields_bool (orderedLoop_yields none
      (fun w hw => (ih' (inScope_item (hall w hw)) fun h => hmay (.inr (.inl h))).number hentry.1)
      (fun w hw => (ih'' (inScope_item (hall w hw)) fun h => hmay (.inr (.inr h))).text hentry.2))
  | forEach collection name predicate ih ih' =>
    intro t ht
    simp only [fallible, Bool.or_eq_true] at hmay
    obtain ⟨hok, rfl⟩ := given_eq ht
    obtain ⟨item, hitem, hpredicate⟩ := (Option.any_eq_true _ _).mp hok
    rw [eval]
    refine ((ih hscope fun h => hmay (.inl h)).items hitem).bind fun v hv => ?_
    obtain ⟨ws, hws, hall⟩ := hv
    refine (yields_checked (P := fun us => us = ws) hws rfl).bind fun us hus => ?_
    subst hus
    exact yields_bool (forEachLoop_yields fun w hw =>
      (ih' (inScope_item (hall w hw)) fun h => hmay (.inr h)).boolean hpredicate)
  | rankIsIndexPlusOne collection name rank ih ih' =>
    intro t ht
    simp only [fallible, Bool.or_eq_true] at hmay
    obtain ⟨hok, rfl⟩ := given_eq ht
    obtain ⟨item, hitem, hrank⟩ := (Option.any_eq_true _ _).mp hok
    obtain ⟨node, hnode⟩ := Option.isSome_iff_exists.mp hrank
    rw [eval]
    refine ((ih hscope fun h => hmay (.inl h)).items hitem).bind fun v hv => ?_
    obtain ⟨ws, hws, hall⟩ := hv
    refine (yields_checked (P := fun us => us = ws) hws rfl).bind fun us hus => ?_
    subst hus
    exact yields_bool (rankLoop_yields 0 fun w hw =>
      ((ih' (inScope_item (hall w hw)) fun h => hmay (.inr h)).one hnode).weaken id
        fun v hv => hv.imp fun u hu => hu.1)

end Eval

end Yields

theorem inScope_none (current : Option (String × Value)) : InScope none current := by
  intro name item h
  cases h

end AiraGraphdb.Native.Bounded
