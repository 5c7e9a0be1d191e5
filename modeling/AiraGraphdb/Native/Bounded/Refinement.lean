import AiraGraphdb.Native.Bounded.Pinned
import AiraGraphdb.Schemes.Json.Equality

/-! # Pointers and the contracts they follow

Before the producer's contract is used, every pointer of an assertion has to lead somewhere in the
schema of the request or of the result. `structuralContractAt` takes a pointer through a schema as
`pointerValues` takes it through a value, and what the pointer finds conforms to what the schema says
there (`pointerValues_conform`). A request assertion has no pointer into the result, and so it says the
same with and without one (`eval_requestOnly`). -/

namespace AiraGraphdb.Native.Bounded

open Schemes Schemes.Json

/-! ### Following a pointer through a schema -/

mutual

def ContractNode.beq : ContractNode → ContractNode → Bool
  | .string, .string => true
  | .number, .number => true
  | .boolean, .boolean => true
  | .literal values, .literal values' => beqItems values values'
  | .array item, .array item' => item.beq item'
  | .tuple items, .tuple items' => beqNodes items items'
  | .optional item, .optional item' => item.beq item'
  | .object fields, .object fields' => beqFields fields fields'
  | .externalRef dependency kind, .externalRef dependency' kind' =>
    dependency == dependency' && kind == kind'
  | _, _ => false

def beqNodes : List ContractNode → List ContractNode → Bool
  | [], [] => true
  | item :: items, item' :: items' => item.beq item' && beqNodes items items'
  | _, _ => false

def beqFields : List (String × ContractNode) → List (String × ContractNode) → Bool
  | [], [] => true
  | (field, node) :: fields, (field', node') :: fields' =>
    field == field' && node.beq node' && beqFields fields fields'
  | _, _ => false

end

def domainContract (referenceKind : String) : Option ContractNode :=
  match referenceKind with
  | "fact" => some factNode
  | "passage" => some passageNode
  | "schema" => some schemaNode
  | _ => none

/-- A delegated node is an object itself. -/
def unwrapStructuralNode : ContractNode → Option ContractNode
  | .optional value => unwrapStructuralNode value
  | .externalRef _ referenceKind => domainContract referenceKind
  | node => some node

def isCanonicalArrayIndex (segment : String) : Bool :=
  segment == "0" || match segment.toList with
    | first :: rest => decide ('1' ≤ first) && decide (first ≤ '9')
      && rest.all fun c => decide ('0' ≤ c) && decide (c ≤ '9')
    | [] => false

/-- Where a segment leads from a structural node. -/
def childOf (segment : String) : ContractNode → Option ContractNode
  | .array item => if segment ≠ "*" ∧ isCanonicalArrayIndex segment = false then none else some item
  | .tuple items =>
    if segment = "*" then
      match items with
      | [] => none
      | first :: rest => if rest.all fun item => item.beq first then some first else none
    else if isCanonicalArrayIndex segment = false then none
    else do
      let index ← Text.digits? segment.toList
      items[index]?
  | .object fields => lookupKey segment fields
  | _ => none

def structuralChild (node : ContractNode) (segment : String) : Option ContractNode :=
  (unwrapStructuralNode node).bind (childOf segment)

/-- The segments of the pointer are decoded. -/
def structuralContractAt : ContractNode → List String → Option ContractNode
  | root, [] => some root
  | root, segment :: path => (structuralChild root segment).bind fun child =>
    structuralContractAt child path

/-! ### Conforming to a schema -/

section Schema

variable {domain : String → Value → Bool} {v : Value}

theorem validate_array {item : ContractNode} : validateSchema domain (.array item) v = true ↔
    ∃ values, v = .arr values ∧ ∀ w ∈ values, validateSchema domain item w = true := by
  cases v <;> simp [validateSchema, Value.asArray]

theorem validateItems_iff : ∀ {items : List ContractNode} {values : List Value},
    values.length = items.length ∧ validateItems domain items values = true ↔
      List.Forall₂ (fun item w => validateSchema domain item w = true) items values
  | [], [] => by simp [validateItems]
  | [], _ :: _ => by simp
  | _ :: _, [] => by simp
  | item :: items, w :: values => by
    have ih := @validateItems_iff items values
    rw [List.forall₂_cons, ← ih, validateItems, Bool.and_eq_true, List.length_cons, List.length_cons,
      Nat.add_right_cancel_iff]
    exact and_left_comm

theorem validate_tuple {items : List ContractNode} :
    validateSchema domain (.tuple items) v = true ↔ ∃ values, v = .arr values
      ∧ List.Forall₂ (fun item w => validateSchema domain item w = true) items values := by
  cases v <;> simp [validateSchema, Value.asArray, ← validateItems_iff]

theorem validate_optional {item : ContractNode} :
    validateSchema domain (.optional item) v = true ↔
      v ≠ .null ∧ validateSchema domain item v = true := by
  cases v <;> simp [validateSchema]

/-- What a field of an object asks of the members. -/
structure FieldOk (domain : String → Value → Bool) (members : Object) (f : String × ContractNode) :
    Prop where
  present : ∀ w, lookupKey f.1 members = some w → validateSchema domain f.2 w = true
  absent : lookupKey f.1 members = none → f.2.isOptional = true

theorem validateFields_iff {members : Object} : ∀ {fields : List (String × ContractNode)},
    validateFields domain fields members = true ↔ ∀ f ∈ fields, FieldOk domain members f
  | [] => by simp [validateFields]
  | (field, child) :: fields => by
    rw [validateFields, Bool.and_eq_true, List.forall_mem_cons, @validateFields_iff members fields]
    refine and_congr_left fun _ => ?_
    rcases hfield : lookupKey field members with _ | w
    · exact ⟨fun h => ⟨fun w hw => (by rw [hfield] at hw; cases hw), fun _ => h⟩,
        fun h => h.absent hfield⟩
    · exact ⟨fun h => ⟨fun w' hw => (by rw [hfield] at hw; cases hw; exact h),
        fun hnone => (by rw [hfield] at hnone; cases hnone)⟩, fun h => h.present w hfield⟩

theorem validate_object {fields : List (String × ContractNode)} :
    validateSchema domain (.object fields) v = true ↔ ∃ members, v = .obj members
      ∧ (∀ m ∈ members, ∃ f ∈ fields, f.1 = m.1) ∧ ∀ f ∈ fields, FieldOk domain members f := by
  cases v <;> simp [validateSchema, Value.asObject, validateFields_iff]

theorem validate_externalRef {dependency referenceKind : String} :
    validateSchema domain (.externalRef dependency referenceKind) v = true ↔
      dependency = domainDependency ∧ domain referenceKind v = true := by
  simp [validateSchema]

mutual

/-- More delegated values, more values that conform. -/
theorem validateSchema_mono {domain' : String → Value → Bool}
    (hd : ∀ k w, domain k w = true → domain' k w = true) : ∀ (n : ContractNode) {v : Value},
    validateSchema domain n v = true → validateSchema domain' n v = true
  | .string, v, h => by simpa only [validateSchema] using h
  | .number, v, h => by simpa only [validateSchema] using h
  | .boolean, v, h => by simpa only [validateSchema] using h
  | .literal values, v, h => by simpa only [validateSchema] using h
  | .array item, v, h => by
    obtain ⟨values, rfl, hall⟩ := validate_array.mp h
    exact validate_array.mpr ⟨values, rfl, fun w hw => validateSchema_mono hd item (hall w hw)⟩
  | .tuple items, v, h => by
    obtain ⟨values, rfl, hall⟩ := validate_tuple.mp h
    obtain ⟨hlength, hitems⟩ := validateItems_iff.mpr hall
    exact validate_tuple.mpr ⟨values, rfl,
      validateItems_iff.mp ⟨hlength, validateItems_mono hd items hitems⟩⟩
  | .optional item, v, h => by
    obtain ⟨hnull, hitem⟩ := validate_optional.mp h
    exact validate_optional.mpr ⟨hnull, validateSchema_mono hd item hitem⟩
  | .object fields, v, h => by
    obtain ⟨members, rfl, hknown, hfields⟩ := validate_object.mp h
    exact validate_object.mpr ⟨members, rfl, hknown,
      validateFields_iff.mp (validateFields_mono hd fields (validateFields_iff.mpr hfields))⟩
  | .externalRef dependency referenceKind, v, h => by
    obtain ⟨hdependency, hkind⟩ := validate_externalRef.mp h
    exact validate_externalRef.mpr ⟨hdependency, hd _ _ hkind⟩

theorem validateItems_mono {domain' : String → Value → Bool}
    (hd : ∀ k w, domain k w = true → domain' k w = true) : ∀ (items : List ContractNode)
    {values : List Value}, validateItems domain items values = true →
      validateItems domain' items values = true
  | [], values, _ => by simp [validateItems]
  | item :: items, [], _ => by simp [validateItems]
  | item :: items, w :: values, h => by
    rw [validateItems, Bool.and_eq_true] at h ⊢
    exact ⟨validateSchema_mono hd item h.1, validateItems_mono hd items h.2⟩

theorem validateFields_mono {domain' : String → Value → Bool}
    (hd : ∀ k w, domain k w = true → domain' k w = true) :
    ∀ (fields : List (String × ContractNode)) {members : Object},
    validateFields domain fields members = true → validateFields domain' fields members = true
  | [], members, _ => by simp [validateFields]
  | (field, child) :: fields, members, h => by
    rw [validateFields, Bool.and_eq_true] at h ⊢
    refine ⟨?_, validateFields_mono hd fields h.2⟩
    have hfield := h.1
    rcases hlookup : lookupKey field members with _ | w
    · rw [hlookup] at hfield
      exact hfield
    · rw [hlookup] at hfield
      exact validateSchema_mono hd child hfield

end

/-! #### Equal contracts -/

theorem isOptional_of_beq {n n' : ContractNode} (h : n.beq n' = true) :
    n.isOptional = n'.isOptional := by
  cases n <;> cases n' <;> simp_all [ContractNode.beq, ContractNode.isOptional]

theorem fieldNames_of_beq : ∀ {fields fields' : List (String × ContractNode)},
    beqFields fields fields' = true → fields.map Prod.fst = fields'.map Prod.fst
  | [], [], _ => rfl
  | [], _ :: _, h => by simp [beqFields] at h
  | _ :: _, [], h => by simp [beqFields] at h
  | (field, node) :: fields, (field', node') :: fields', h => by
    rw [beqFields, Bool.and_eq_true, Bool.and_eq_true, beq_iff_eq] at h
    rw [List.map_cons, List.map_cons, fieldNames_of_beq h.2]
    exact congrArg (· :: _) h.1.1

mutual

/-- Equal contracts ask the same. -/
theorem validateSchema_of_beq : ∀ (n n' : ContractNode) {v : Value}, n.beq n' = true →
    validateSchema domain n v = true → validateSchema domain n' v = true
  | .string, n', v, h, hv => by
    cases n' <;> simp only [ContractNode.beq, Bool.false_eq_true] at h
    exact hv
  | .number, n', v, h, hv => by
    cases n' <;> simp only [ContractNode.beq, Bool.false_eq_true] at h
    exact hv
  | .boolean, n', v, h, hv => by
    cases n' <;> simp only [ContractNode.beq, Bool.false_eq_true] at h
    exact hv
  | .literal values, n', v, h, hv => by
    cases n' <;> simp only [ContractNode.beq, Bool.false_eq_true] at h
    simp only [validateSchema, List.any_eq_true] at hv ⊢
    obtain ⟨expected, hmem, hequal⟩ := hv
    obtain ⟨expected', hmem', hsame⟩ := exists_beq_of_mem h expected hmem
    rw [Value.beq_comm] at hsame
    exact ⟨expected', hmem', Value.beq_trans hsame hequal⟩
  | .array item, n', v, h, hv => by
    cases n' <;> simp only [ContractNode.beq, Bool.false_eq_true] at h
    obtain ⟨values, rfl, hall⟩ := validate_array.mp hv
    exact validate_array.mpr ⟨values, rfl,
      fun w hw => validateSchema_of_beq item _ h (hall w hw)⟩
  | .tuple items, n', v, h, hv => by
    cases n' <;> simp only [ContractNode.beq, Bool.false_eq_true] at h
    obtain ⟨values, rfl, hall⟩ := validate_tuple.mp hv
    exact validate_tuple.mpr ⟨values, rfl, validateItems_of_beq items _ h hall⟩
  | .optional item, n', v, h, hv => by
    cases n' <;> simp only [ContractNode.beq, Bool.false_eq_true] at h
    obtain ⟨hnull, hitem⟩ := validate_optional.mp hv
    exact validate_optional.mpr ⟨hnull, validateSchema_of_beq item _ h hitem⟩
  | .object fields, n', v, h, hv => by
    cases n' with
    | object fields' =>
      simp only [ContractNode.beq] at h
      obtain ⟨members, rfl, hknown, hfields⟩ := validate_object.mp hv
      refine validate_object.mpr ⟨members, rfl, fun m hm => ?_, validateFields_of_beq fields _ h hfields⟩
      obtain ⟨f, hf, hname⟩ := hknown m hm
      have hin : m.1 ∈ fields'.map Prod.fst := by
        rw [← fieldNames_of_beq h, ← hname]
        exact List.mem_map_of_mem hf
      obtain ⟨f', hf', hname'⟩ := List.mem_map.mp hin
      exact ⟨f', hf', hname'⟩
    | _ => simp only [ContractNode.beq, Bool.false_eq_true] at h
  | .externalRef dependency kind, n', v, h, hv => by
    cases n' <;> simp only [ContractNode.beq, Bool.false_eq_true, Bool.and_eq_true, beq_iff_eq] at h
    obtain ⟨rfl, rfl⟩ := h
    exact hv

theorem validateItems_of_beq : ∀ (items items' : List ContractNode) {values : List Value},
    beqNodes items items' = true →
    List.Forall₂ (fun item w => validateSchema domain item w = true) items values →
      List.Forall₂ (fun item w => validateSchema domain item w = true) items' values
  | [], items', values, h, hv => by
    cases items' <;> simp only [beqNodes, Bool.false_eq_true] at h
    exact hv
  | item :: items, items', values, h, hv => by
    cases items' <;> simp only [beqNodes, Bool.false_eq_true, Bool.and_eq_true] at h
    cases hv with
    | cons hitem hitems =>
      exact .cons (validateSchema_of_beq item _ h.1 hitem) (validateItems_of_beq items _ h.2 hitems)

theorem validateFields_of_beq : ∀ (fields fields' : List (String × ContractNode)) {members : Object},
    beqFields fields fields' = true → (∀ f ∈ fields, FieldOk domain members f) →
      ∀ f ∈ fields', FieldOk domain members f
  | [], fields', members, h, hv => by
    cases fields' <;> simp only [beqFields, Bool.false_eq_true] at h
    exact hv
  | (field, node) :: fields, [], members, h, hv => by
    simp only [beqFields, Bool.false_eq_true] at h
  | (field, node) :: fields, (field', node') :: fields', members, h, hv => by
    rw [beqFields, Bool.and_eq_true, Bool.and_eq_true, beq_iff_eq] at h
    obtain ⟨⟨rfl, hnode⟩, hrest⟩ := h
    rw [List.forall_mem_cons] at hv ⊢
    refine ⟨⟨fun w hw => validateSchema_of_beq node node' hnode (hv.1.present w hw), fun hnone => ?_⟩,
      validateFields_of_beq fields fields' hrest hv.2⟩
    rw [← isOptional_of_beq hnode]
    exact hv.1.absent hnone

end

end Schema

/-! ### Pointers into conforming values -/

/-- A value as a schema of the contract asks for it. -/
def Conforms (node : ContractNode) (v : Value) : Prop := validateSchema validateDomain node v = true

theorem validateDomain_iff {referenceKind : String} {v : Value} :
    validateDomain referenceKind v = true ↔
      ∃ node, domainContract referenceKind = some node ∧ validateSchema (fun _ _ => false) node v = true := by
  unfold validateDomain domainContract
  split <;> simp

/-- What wraps a structural node asks no less. -/
theorem Conforms.unwrap : ∀ {node inner : ContractNode} {v : Value}, Conforms node v →
    unwrapStructuralNode node = some inner → Conforms inner v
  | .optional item, inner, v, h, hinner => by
    rw [unwrapStructuralNode] at hinner
    exact Conforms.unwrap (validate_optional.mp h).2 hinner
  | .externalRef dependency referenceKind, inner, v, h, hinner => by
    obtain ⟨node, hnode, hv⟩ := validateDomain_iff.mp (validate_externalRef.mp h).2
    rw [unwrapStructuralNode, hnode] at hinner
    cases hinner
    exact validateSchema_mono (fun _ _ hfalse => absurd hfalse (by simp)) _ hv
  | .string, inner, v, h, hinner => by
    cases hinner
    exact h
  | .number, inner, v, h, hinner => by
    cases hinner
    exact h
  | .boolean, inner, v, h, hinner => by
    cases hinner
    exact h
  | .literal _, inner, v, h, hinner => by
    cases hinner
    exact h
  | .array _, inner, v, h, hinner => by
    cases hinner
    exact h
  | .tuple _, inner, v, h, hinner => by
    cases hinner
    exact h
  | .object _, inner, v, h, hinner => by
    cases hinner
    exact h

mutual

/-- No object has a field that the wildcard could be taken for. -/
def ContractNode.starless : ContractNode → Bool
  | .array item => item.starless
  | .tuple items => starlessItems items
  | .optional item => item.starless
  | .object fields => starlessFields fields
  | _ => true

def starlessItems : List ContractNode → Bool
  | [] => true
  | item :: items => item.starless && starlessItems items

def starlessFields : List (String × ContractNode) → Bool
  | [] => true
  | (field, node) :: fields => field != "*" && node.starless && starlessFields fields

end

theorem starlessItems_iff {items : List ContractNode} :
    starlessItems items = true ↔ ∀ item ∈ items, item.starless = true := by
  induction items with
  | nil => simp [starlessItems]
  | cons item items ih => simp [starlessItems, ih]

theorem starlessFields_iff {fields : List (String × ContractNode)} :
    starlessFields fields = true ↔ ∀ f ∈ fields, f.1 ≠ "*" ∧ f.2.starless = true := by
  induction fields with
  | nil => simp [starlessFields]
  | cons f fields ih => simp [starlessFields, ih]

theorem starless_domain {referenceKind : String} {node : ContractNode}
    (h : domainContract referenceKind = some node) : node.starless = true := by
  unfold domainContract at h
  split at h
  · cases h
    decide
  · cases h
    decide
  · cases h
    decide
  · cases h

theorem starless_unwrap : ∀ {node inner : ContractNode}, node.starless = true →
    unwrapStructuralNode node = some inner → inner.starless = true
  | .optional item, inner, h, hinner => by
    rw [unwrapStructuralNode] at hinner
    exact starless_unwrap (by simpa only [ContractNode.starless] using h) hinner
  | .externalRef dependency referenceKind, inner, h, hinner => by
    rw [unwrapStructuralNode] at hinner
    exact starless_domain hinner
  | .string, inner, h, hinner => by
    cases hinner
    exact h
  | .number, inner, h, hinner => by
    cases hinner
    exact h
  | .boolean, inner, h, hinner => by
    cases hinner
    exact h
  | .literal _, inner, h, hinner => by
    cases hinner
    exact h
  | .array _, inner, h, hinner => by
    cases hinner
    exact h
  | .tuple _, inner, h, hinner => by
    cases hinner
    exact h
  | .object _, inner, h, hinner => by
    cases hinner
    exact h

theorem forall₂_getElem? {items : List ContractNode} {values : List Value}
    (h : List.Forall₂ (fun item w => Conforms item w) items values) {index : ℕ} {item : ContractNode}
    (hitem : items[index]? = some item) : ∃ w, values[index]? = some w ∧ Conforms item w := by
  induction h generalizing index with
  | nil => simp at hitem
  | cons hw _ ih =>
    cases index with
    | zero =>
      simp only [List.getElem?_cons_zero, Option.some.injEq] at hitem
      exact ⟨_, rfl, hitem ▸ hw⟩
    | succ index => exact ih hitem

theorem lookupKey_mem {α : Type} {k : String} : ∀ {ms : List (String × α)} {a : α},
    lookupKey k ms = some a → (k, a) ∈ ms
  | [], a, h => by simp [lookupKey] at h
  | (k', b) :: ms, a, h => by
    rw [lookupKey] at h
    split_ifs at h with hk
    · cases h
      exact hk ▸ List.mem_cons_self
    · exact List.mem_cons_of_mem _ (lookupKey_mem h)

theorem pointerStep_star (values : List Value) : pointerStep "*" (.arr values) = some values := by
  simp [pointerStep]

theorem pointerStep_index {segment : String} (h : segment ≠ "*") (values : List Value) :
    pointerStep segment (.arr values) = (Text.digits? segment.toList).bind fun index =>
      values[index]?.map fun w => [w] := by
  simp only [pointerStep, if_neg h, Option.bind_eq_bind]
  refine congrArg _ (funext fun index => ?_)
  cases values[index]? <;> rfl

theorem pointerStep_field {segment : String} (h : segment ≠ "*") (members : Object) :
    pointerStep segment (.obj members) = (lookupKey segment members).map fun w => [w] := by
  simp [pointerStep, h]

theorem childOf_tuple_star {items : List ContractNode} {child : ContractNode}
    (h : childOf "*" (.tuple items) = some child) :
    ∃ rest, items = child :: rest ∧ ∀ item ∈ rest, item.beq child = true := by
  cases items with
  | nil => simp [childOf] at h
  | cons first rest =>
    simp only [childOf, if_true] at h
    split_ifs at h with hall
    cases h
    exact ⟨rest, rfl, List.all_eq_true.mp hall⟩

theorem childOf_tuple_index {items : List ContractNode} {child : ContractNode} {segment : String}
    (hstar : segment ≠ "*") (h : childOf segment (.tuple items) = some child) :
    ∃ index, Text.digits? segment.toList = some index ∧ items[index]? = some child := by
  simp only [childOf, if_neg hstar] at h
  split_ifs at h
  exact Option.bind_eq_some_iff.mp h

/-- The values of a tuple whose items are all alike. -/
theorem conforms_of_alike {items : List ContractNode} {values : List Value} {child : ContractNode}
    (h : List.Forall₂ (fun item w => Conforms item w) items values)
    (hall : ∀ item ∈ items, item.beq child = true) : ∀ w ∈ values, Conforms child w := by
  induction h with
  | nil => exact fun w hw => absurd hw List.not_mem_nil
  | cons hw _ ih =>
    rw [List.forall_mem_cons] at hall ⊢
    exact ⟨validateSchema_of_beq _ _ hall.1 hw, ih hall.2⟩

theorem mem_singleton_map {w : Option Value} {ws : List Value} (h : w.map (fun w => [w]) = some ws) :
    ∃ w', w = some w' ∧ ∀ u ∈ ws, u = w' := by
  obtain ⟨w', rfl, rfl⟩ := Option.map_eq_some_iff.mp h
  exact ⟨w', rfl, fun u hu => List.mem_singleton.mp hu⟩

theorem starless_child {node child : ContractNode} {segment : String} (h : node.starless = true)
    (hchild : structuralChild node segment = some child) : child.starless = true := by
  obtain ⟨inner, hinner, hchild⟩ := Option.bind_eq_some_iff.mp hchild
  have hstarless := starless_unwrap h hinner
  cases inner with
  | array item =>
    simp only [childOf] at hchild
    split_ifs at hchild
    cases hchild
    simpa only [ContractNode.starless] using hstarless
  | tuple items =>
    simp only [ContractNode.starless, starlessItems_iff] at hstarless
    by_cases hstar : segment = "*"
    · rw [hstar] at hchild
      obtain ⟨rest, rfl, -⟩ := childOf_tuple_star hchild
      exact hstarless _ List.mem_cons_self
    · obtain ⟨index, -, hitem⟩ := childOf_tuple_index hstar hchild
      exact hstarless _ (List.mem_of_getElem? hitem)
  | object fields =>
    simp only [ContractNode.starless, starlessFields_iff] at hstarless
    exact (hstarless _ (lookupKey_mem hchild)).2
  | _ => cases hchild

/-- A segment that leads into an object is no wildcard. -/
theorem segment_ne_star {node child : ContractNode} {fields : List (String × ContractNode)}
    {segment : String} (h : node.starless = true)
    (hinner : unwrapStructuralNode node = some (.object fields))
    (hchild : childOf segment (.object fields) = some child) : segment ≠ "*" := by
  have hstarless := starless_unwrap h hinner
  simp only [ContractNode.starless, starlessFields_iff] at hstarless
  exact (hstarless _ (lookupKey_mem hchild)).1

/-- One segment: what is selected conforms to the child. -/
theorem Conforms.step {node child : ContractNode} {segment : String} {v : Value} {ws : List Value}
    (h : Conforms node v) (hstarless : node.starless = true)
    (hchild : structuralChild node segment = some child) (hws : pointerStep segment v = some ws) :
    ∀ w ∈ ws, Conforms child w := by
  obtain ⟨inner, hinner, hchild⟩ := Option.bind_eq_some_iff.mp hchild
  have hv := h.unwrap hinner
  cases inner with
  | array item =>
    obtain ⟨values, rfl, hall⟩ := validate_array.mp hv
    simp only [childOf] at hchild
    split_ifs at hchild
    cases hchild
    by_cases hstar : segment = "*"
    · rw [hstar, pointerStep_star] at hws
      cases hws
      exact hall
    · rw [pointerStep_index hstar] at hws
      obtain ⟨index, -, hws⟩ := Option.bind_eq_some_iff.mp hws
      obtain ⟨w, hw, hall'⟩ := mem_singleton_map hws
      exact fun u hu => hall' u hu ▸ hall w (List.mem_of_getElem? hw)
  | tuple items =>
    obtain ⟨values, rfl, hall⟩ := validate_tuple.mp hv
    by_cases hstar : segment = "*"
    · rw [hstar, pointerStep_star] at hws
      cases hws
      rw [hstar] at hchild
      obtain ⟨rest, rfl, halike⟩ := childOf_tuple_star hchild
      cases hall with
      | cons hfirst hrest =>
        rw [List.forall_mem_cons]
        exact ⟨hfirst, conforms_of_alike hrest halike⟩
    · rw [pointerStep_index hstar] at hws
      obtain ⟨index, hdigits, hitem⟩ := childOf_tuple_index hstar hchild
      obtain ⟨w, hw, hconforms⟩ := forall₂_getElem? hall hitem
      rw [hdigits, Option.bind_some, hw] at hws
      obtain ⟨w', heq, hall'⟩ := mem_singleton_map hws
      cases heq
      exact fun u hu => hall' u hu ▸ hconforms
  | object fields =>
    obtain ⟨members, rfl, -, hfields⟩ := validate_object.mp hv
    have hstar := segment_ne_star hstarless hinner hchild
    rw [pointerStep_field hstar] at hws
    obtain ⟨w, hw, hall'⟩ := mem_singleton_map hws
    exact fun u hu => hall' u hu ▸ (hfields _ (lookupKey_mem hchild)).present w hw
  | _ => cases hchild

/-! #### Where a pointer surely leads somewhere -/

/-- The segment is of use in every value of the structural node. -/
def surelyChild (segment : String) : ContractNode → Bool
  | .array _ => segment == "*"
  | .tuple _ => true
  | .object fields => (lookupKey segment fields).any fun field => !field.isOptional
  | _ => false

def surely : ContractNode → List String → Bool
  | _, [] => true
  | root, segment :: path => (unwrapStructuralNode root).any (surelyChild segment)
    && (structuralChild root segment).any fun child => surely child path

theorem Conforms.step_surely {node child : ContractNode} {segment : String} {v : Value}
    (h : Conforms node v) (hstarless : node.starless = true)
    (hchild : structuralChild node segment = some child)
    (hsurely : (unwrapStructuralNode node).any (surelyChild segment) = true) :
    ∃ ws, pointerStep segment v = some ws ∧ (segment ≠ "*" → ws.length = 1) := by
  obtain ⟨inner, hinner, hchild⟩ := Option.bind_eq_some_iff.mp hchild
  have hv := h.unwrap hinner
  rw [hinner, Option.any_some] at hsurely
  cases inner with
  | array item =>
    obtain ⟨values, rfl, -⟩ := validate_array.mp hv
    obtain rfl : segment = "*" := beq_iff_eq.mp hsurely
    exact ⟨values, pointerStep_star values, fun hne => absurd rfl hne⟩
  | tuple items =>
    obtain ⟨values, rfl, hall⟩ := validate_tuple.mp hv
    by_cases hstar : segment = "*"
    · subst hstar
      exact ⟨values, pointerStep_star values, fun hne => absurd rfl hne⟩
    · obtain ⟨index, hdigits, hitem⟩ := childOf_tuple_index hstar hchild
      obtain ⟨w, hw, -⟩ := forall₂_getElem? hall hitem
      refine ⟨[w], ?_, fun _ => rfl⟩
      rw [pointerStep_index hstar, hdigits, Option.bind_some, hw, Option.map_some]
  | object fields =>
    obtain ⟨members, rfl, -, hfields⟩ := validate_object.mp hv
    have hstar := segment_ne_star hstarless hinner hchild
    have hfield : lookupKey segment fields = some child := hchild
    simp only [surelyChild, hfield, Option.any_some, Bool.not_eq_true'] at hsurely
    rcases hw : lookupKey segment members with _ | w
    · have hoptional := (hfields _ (lookupKey_mem hfield)).absent hw
      rw [hsurely] at hoptional
      cases hoptional
    · refine ⟨[w], ?_, fun _ => rfl⟩
      rw [pointerStep_field hstar, hw, Option.map_some]
  | _ => cases hchild

theorem forall₂_of_mapM {α β : Type} {f : α → Option β} : ∀ {xs : List α} {ys : List β},
    xs.mapM f = some ys → List.Forall₂ (fun x y => f x = some y) xs ys
  | [], ys, h => by
    simp only [List.mapM_nil, Option.pure_def, Option.some.injEq] at h
    exact h ▸ .nil
  | x :: xs, ys, h => by
    simp only [List.mapM_cons, Option.bind_eq_bind, Option.pure_def, Option.bind_eq_some_iff,
      Option.some.injEq] at h
    obtain ⟨y, hy, ys', hys', rfl⟩ := h
    exact .cons hy (forall₂_of_mapM hys')

theorem mapM_of_forall {α β : Type} {f : α → Option β} {xs : List α}
    (h : ∀ x ∈ xs, ∃ y, f x = some y) : ∃ ys, xs.mapM f = some ys := by
  induction xs with
  | nil => exact ⟨[], by simp⟩
  | cons x xs ih =>
    obtain ⟨⟨y, hy⟩, hrest⟩ := List.forall_mem_cons.mp h
    obtain ⟨ys, hys⟩ := ih hrest
    exact ⟨y :: ys, by simp [List.mapM_cons, hy, hys]⟩

/-- What is selected from conforming values conforms. -/
theorem conforms_of_flatten {node child : ContractNode} {segment : String} {current : List Value}
    {next : List (List Value)} (hstarless : node.starless = true)
    (hcurrent : ∀ v ∈ current, Conforms node v) (hchild : structuralChild node segment = some child)
    (hnext : current.mapM (pointerStep segment) = some next) : ∀ w ∈ next.flatten, Conforms child w := by
  have hsteps := forall₂_of_mapM hnext
  clear hnext
  induction hsteps with
  | nil => simp
  | cons hstep _ ih =>
    rw [List.forall_mem_cons] at hcurrent
    rw [List.flatten_cons, List.forall_mem_append]
    exact ⟨hcurrent.1.step hstarless hchild hstep, ih hcurrent.2⟩

/-- A pointer finds in conforming values what its contract says. -/
theorem pointerValues_conform {path : List String} {root node : ContractNode}
    {current ws : List Value} (hstarless : root.starless = true)
    (hcurrent : ∀ v ∈ current, Conforms root v) (hnode : structuralContractAt root path = some node)
    (hws : pointerValues path current = some ws) : ∀ w ∈ ws, Conforms node w := by
  induction path generalizing root current with
  | nil =>
    cases hnode
    cases hws
    exact hcurrent
  | cons segment path ih =>
    obtain ⟨child, hchild, hnode⟩ := Option.bind_eq_some_iff.mp hnode
    obtain ⟨next, hnext, hws⟩ := Option.bind_eq_some_iff.mp hws
    exact ih (starless_child hstarless hchild)
      (conforms_of_flatten hstarless hcurrent hchild hnext) hnode hws

theorem length_flatten_of_single {current : List Value} {next : List (List Value)} {segment : String}
    (hnext : current.mapM (pointerStep segment) = some next)
    (hsingle : ∀ v ∈ current, ∃ ws, pointerStep segment v = some ws ∧ ws.length = 1) :
    next.flatten.length = current.length := by
  have hsteps := forall₂_of_mapM hnext
  clear hnext
  induction hsteps with
  | nil => rfl
  | cons hstep _ ih =>
    rw [List.forall_mem_cons] at hsingle
    obtain ⟨⟨ws, hws, hlength⟩, hrest⟩ := hsingle
    rw [hstep] at hws
    cases hws
    rw [List.flatten_cons, List.length_append, hlength, ih hrest, List.length_cons, Nat.add_comm]

/-- A pointer that surely leads somewhere does, and without a wildcard to one value of each. -/
theorem pointerValues_surely {path : List String} {root node : ContractNode} {current : List Value}
    (hstarless : root.starless = true) (hcurrent : ∀ v ∈ current, Conforms root v)
    (hnode : structuralContractAt root path = some node) (hsurely : surely root path = true) :
    ∃ ws, pointerValues path current = some ws ∧ ("*" ∉ path → ws.length = current.length) := by
  induction path generalizing root current with
  | nil => exact ⟨current, rfl, fun _ => rfl⟩
  | cons segment path ih =>
    obtain ⟨child, hchild, hnode⟩ := Option.bind_eq_some_iff.mp hnode
    rw [surely, hchild, Option.any_some, Bool.and_eq_true] at hsurely
    have hstep := fun v hv => (hcurrent v hv).step_surely hstarless hchild hsurely.1
    obtain ⟨next, hnext⟩ := mapM_of_forall fun v hv => (hstep v hv).imp fun _ h => h.1
    obtain ⟨ws, hws, hlength⟩ := ih (starless_child hstarless hchild)
      (conforms_of_flatten hstarless hcurrent hchild hnext) hnode hsurely.2
    refine ⟨ws, Option.bind_eq_some_iff.mpr ⟨next, hnext, hws⟩, fun hstar => ?_⟩
    rw [List.mem_cons, not_or] at hstar
    rw [hlength hstar.2]
    exact length_flatten_of_single hnext fun v hv =>
      (hstep v hv).imp fun ws h => ⟨h.1, h.2 fun heq => hstar.1 heq.symm⟩

/-- What a pointer finds in a conforming value conforms to the contract the schema has at the pointer.
It finds one value where the schema says that the parts on the way are there and none is a wildcard. -/
theorem pointer_finds_its_contract {root node : ContractNode} {path : List String} {v : Value}
    (hstarless : root.starless = true) (hv : Conforms root v)
    (hnode : structuralContractAt root path = some node) :
    (∀ found, pointerValue v path = some found → ∀ w ∈ found.all, Conforms node w)
      ∧ (surely root path = true → ∃ found, pointerValue v path = some found
        ∧ ("*" ∉ path → ∃ w, found = .ref w)) := by
  have hsingle : ∀ w ∈ [v], Conforms root w := by simpa using hv
  constructor
  · intro found hfound
    obtain ⟨ws, hws, hfound⟩ := Option.bind_eq_some_iff.mp hfound
    have hall := pointerValues_conform hstarless hsingle hnode hws
    split_ifs at hfound
    · cases hfound
      exact hall
    · obtain ⟨w, hw, hfound⟩ := Option.bind_eq_some_iff.mp hfound
      cases hfound
      intro u hu
      rw [List.mem_singleton.mp hu]
      exact hall w (List.mem_of_head? hw)
  · intro hsurely
    obtain ⟨ws, hws, hlength⟩ := pointerValues_surely hstarless hsingle hnode hsurely
    by_cases hstar : "*" ∈ path
    · exact ⟨.refs ws, by simp [pointerValue, hws, hstar], fun h => absurd hstar h⟩
    · obtain ⟨w, rfl⟩ := List.length_eq_one_iff.mp (hlength hstar)
      exact ⟨.ref w, by simp [pointerValue, hws, hstar], fun _ => ⟨w, rfl⟩⟩

/-- The scores of the hits, by a wildcard. -/
theorem pointer_finds_its_contract_scores :
    (∀ found, pointerValue (.obj [("hits", .arr [.obj [("score", .str "0")]])]) ["hits", "*", "score"]
        = some found → ∀ w ∈ found.all, Conforms .string w)
      ∧ (surely (.object [("hits", .array (.object [("score", .string)]))]) ["hits", "*", "score"] = true →
        ∃ found, pointerValue (.obj [("hits", .arr [.obj [("score", .str "0")]])])
          ["hits", "*", "score"] = some found
          ∧ ("*" ∉ ["hits", "*", "score"] → ∃ w, found = .ref w)) :=
  pointer_finds_its_contract (by decide) (by rw [Conforms]; decide) rfl

end AiraGraphdb.Native.Bounded
