import AiraGraphdb.Native.Bounded.Contract
import AiraGraphdb.Native.Concrete

/-! # Contract schemas as documents

`parse_contract_node` reads a schema and `contract_node_json` writes it; what is written is what was
read, so that the digest of a schema stands for the document it came from. -/

namespace AiraGraphdb.Native.Bounded

open Schemes Schemes.Json

/-! ### Reading -/

def schemaObject (value : Value) (label : String) : Except String Object :=
  ofOption value.asObject (label ++ " must be an object")

/-- The members are these, no more and no fewer. -/
def exactKeys (map : Object) (expected : List String) (label : String) : Except String Unit :=
  ensure ((∀ m ∈ map, m.1 ∈ expected) ∧ ∀ k ∈ expected, (lookupKey k map).isSome)
    (label ++ " has unknown or missing field")

def isScalar : Value → Bool
  | .arr _ | .obj _ => false
  | _ => true

/-- What is found in an object nests less. -/
theorem depth_lookupKey {map : Object} {k : String} {v : Value} (h : lookupKey k map = some v) :
    v.depth < (Value.obj map).depth := by
  have hle : v.depth ≤ maxMemberDepth map :=
    maxMemberDepth_le.mp (le_refl _) _ (mem_of_lookupKey h)
  rw [Value.depth]
  omega

theorem depth_items {map : Object} {k : String} {items : List Value}
    (h : (lookupKey k map).bind Value.asArray = some items) {item : Value} (hi : item ∈ items) :
    item.depth < (Value.obj map).depth := by
  obtain ⟨v, hv, harray⟩ := Option.bind_eq_some_iff.mp h
  obtain rfl : v = .arr items := by
    cases v <;> simp [Value.asArray] at harray
    rw [harray]
  have hle := maxDepth_le.mp (le_refl (maxDepth items)) _ hi
  refine lt_trans ?_ (depth_lookupKey hv)
  rw [Value.depth]
  omega

theorem depth_fields {map fields : Object} {k : String}
    (h : (lookupKey k map).bind Value.asObject = some fields) {f : String × Value}
    (hf : f ∈ fields) : f.2.depth < (Value.obj map).depth := by
  obtain ⟨v, hv, hobject⟩ := Option.bind_eq_some_iff.mp h
  obtain rfl : v = .obj fields := by
    cases v <;> simp [Value.asObject] at hobject
    rw [hobject]
  have hle := maxMemberDepth_le.mp (le_refl (maxMemberDepth fields)) _ hf
  refine lt_trans ?_ (depth_lookupKey hv)
  rw [Value.depth]
  omega

/-- `parse_contract_node`: what nests in a node is read under its own label. -/
def parseContractNode (value : Value) (label : String) : Except String ContractNode :=
  match value with
  | .obj map => do
    let kind ← ofOption ((lookupKey "kind" map).bind Value.asStr) (label ++ ".kind must be a string")
    if kind = "string" then do
      exactKeys map ["kind"] label
      return .string
    else if kind = "number" then do
      exactKeys map ["kind"] label
      return .number
    else if kind = "boolean" then do
      exactKeys map ["kind"] label
      return .boolean
    else if kind = "literal" then do
      exactKeys map ["kind", "values"] label
      let values ← ofOption ((lookupKey "values" map).bind Value.asArray)
        (label ++ ".values must be an array")
      ensure (values ≠ [] ∧ values.all isScalar = true) (label ++ ".values must be nonempty scalars")
      return .literal values
    else if kind = "array" then do
      exactKeys map ["kind", "items"] label
      match _h : lookupKey "items" map with
      | some item => return .array (← parseContractNode item (label ++ ".items"))
      | none => .error "checked items"
    else if kind = "tuple" then do
      exactKeys map ["kind", "items"] label
      match _h : (lookupKey "items" map).bind Value.asArray with
      | some items =>
        ensure (items ≠ []) (label ++ ".items must be nonempty")
        return .tuple (← items.attach.zipIdx.mapM fun p =>
          parseContractNode p.1.1 (label ++ ".items[" ++ toString p.2 ++ "]"))
      | none => .error (label ++ ".items must be an array")
    else if kind = "optional" then do
      exactKeys map ["kind", "value"] label
      match _h : lookupKey "value" map with
      | some value => return .optional (← parseContractNode value (label ++ ".value"))
      | none => .error "checked value"
    else if kind = "object" then do
      exactKeys map ["kind", "fields"] label
      match _h : (lookupKey "fields" map).bind Value.asObject with
      | some fields => return .object (← fields.attach.mapM fun f => do
          return (f.1.1, ← parseContractNode f.1.2 (label ++ "." ++ f.1.1)))
      | none => .error (label ++ ".fields must be an object")
    else if kind = "externalRef" then do
      exactKeys map ["dependency", "kind", "referenceKind"] label
      let dependency ← ofOption ((lookupKey "dependency" map).bind Value.asStr)
        (label ++ ".dependency must be a string")
      let referenceKind ← ofOption ((lookupKey "referenceKind" map).bind Value.asStr)
        (label ++ ".referenceKind must be a string")
      return .externalRef dependency referenceKind
    else .error ("unsupported contract schema kind " ++ kind)
  | _ => .error (label ++ " must be an object")
termination_by value.depth
decreasing_by
  · exact depth_lookupKey _h
  · exact depth_items _h p.1.2
  · exact depth_lookupKey _h
  · exact depth_fields _h f.2

/-! ### Writing -/

mutual

/-- `contract_node_json`. -/
def ContractNode.json : ContractNode → Value
  | .string => .obj [("kind", .str "string")]
  | .number => .obj [("kind", .str "number")]
  | .boolean => .obj [("kind", .str "boolean")]
  | .literal values => .obj [("kind", .str "literal"), ("values", .arr values)]
  | .array item => .obj [("items", item.json), ("kind", .str "array")]
  | .tuple items => .obj [("items", .arr (jsonItems items)), ("kind", .str "tuple")]
  | .optional item => .obj [("kind", .str "optional"), ("value", item.json)]
  | .object fields => .obj [("fields", .obj (jsonFields fields)), ("kind", .str "object")]
  | .externalRef dependency referenceKind => .obj [("dependency", .str dependency),
      ("kind", .str "externalRef"), ("referenceKind", .str referenceKind)]

def jsonItems : List ContractNode → List Value
  | [] => []
  | item :: items => item.json :: jsonItems items

/-- The fields in the order they are kept in, which is that of their names. -/
def jsonFields : List (String × ContractNode) → Object
  | [] => []
  | (name, node) :: fields => (name, node.json) :: jsonFields fields

end

/-! ### What is read is what is written -/

theorem jsonItems_eq (items : List ContractNode) : jsonItems items = items.map ContractNode.json := by
  induction items with
  | nil => rfl
  | cons item items ih => rw [jsonItems, ih, List.map_cons]

theorem jsonFields_eq (fields : List (String × ContractNode)) :
    jsonFields fields = fields.map fun f => (f.1, f.2.json) := by
  induction fields with
  | nil => rfl
  | cons f fields ih => rw [jsonFields, ih, List.map_cons]

theorem lookup_str {map : Object} {k s : String} (h : (lookupKey k map).bind Value.asStr = some s) :
    lookupKey k map = some (.str s) := by
  obtain ⟨v, hv, hstr⟩ := Option.bind_eq_some_iff.mp h
  cases v <;> simp [Value.asStr] at hstr
  rw [hv, hstr]

theorem lookup_arr {map : Object} {k : String} {items : List Value}
    (h : (lookupKey k map).bind Value.asArray = some items) : lookupKey k map = some (.arr items) := by
  obtain ⟨v, hv, harray⟩ := Option.bind_eq_some_iff.mp h
  cases v <;> simp [Value.asArray] at harray
  rw [hv, harray]

theorem lookup_obj {map fields : Object} {k : String}
    (h : (lookupKey k map).bind Value.asObject = some fields) :
    lookupKey k map = some (.obj fields) := by
  obtain ⟨v, hv, hobject⟩ := Option.bind_eq_some_iff.mp h
  cases v <;> simp [Value.asObject] at hobject
  rw [hv, hobject]

/-- An object with these keys is the one with their values. -/
theorem obj_eq {map : Object} (members : Object) {expected : List String} {label : String} {u : Unit}
    (hmap : Sorted map) (hkeys : exactKeys map expected label = .ok u)
    (hmembers : Sorted members) (hexpected : ∀ k ∈ expected, k ∈ members.map Prod.fst)
    (hfound : ∀ m ∈ members, lookupKey m.1 map = some m.2) : Value.obj members = .obj map := by
  rw [exactKeys, ensure_ok] at hkeys
  rw [members_eq hmap hmembers (fun m hm => hexpected _ (hkeys.1 m hm)) hfound]

theorem sorted_one (k : String) (v : Value) : Sorted [(k, v)] := List.pairwise_singleton _ _

theorem sorted_two {k k' : String} (h : k < k') (v v' : Value) : Sorted [(k, v), (k', v')] :=
  List.pairwise_pair.mpr h

theorem sorted_three {k k' k'' : String} (h : k < k') (h' : k' < k'') (v v' v'' : Value) :
    Sorted [(k, v), (k', v'), (k'', v'')] := by
  refine List.pairwise_cons.mpr ⟨?_, sorted_two h' _ _⟩
  intro m hm
  rcases List.mem_pair.mp hm with rfl | rfl
  · exact h
  · exact h.trans h'

section Members

variable {map : Object} {expected : List String} {label : String} {u : Unit} (hmap : Sorted map)
  (hkeys : exactKeys map expected label = .ok u)

include hmap hkeys

theorem obj_one {k : String} {v : Value} (hexpected : ∀ key ∈ expected, key ∈ [k])
    (h : lookupKey k map = some v) : Value.obj [(k, v)] = .obj map := by
  refine obj_eq _ hmap hkeys (sorted_one k v) hexpected ?_
  simpa using h

theorem obj_two {k k' : String} {v v' : Value} (hlt : k < k')
    (hexpected : ∀ key ∈ expected, key ∈ [k, k']) (h : lookupKey k map = some v)
    (h' : lookupKey k' map = some v') : Value.obj [(k, v), (k', v')] = .obj map := by
  refine obj_eq _ hmap hkeys (sorted_two hlt v v') hexpected ?_
  simpa using ⟨h, h'⟩

theorem obj_three {k k' k'' : String} {v v' v'' : Value} (hlt : k < k') (hlt' : k' < k'')
    (hexpected : ∀ key ∈ expected, key ∈ [k, k', k'']) (h : lookupKey k map = some v)
    (h' : lookupKey k' map = some v') (h'' : lookupKey k'' map = some v'') :
    Value.obj [(k, v), (k', v'), (k'', v'')] = .obj map := by
  refine obj_eq _ hmap hkeys (sorted_three hlt hlt' v v' v'') hexpected ?_
  simpa using ⟨h, h', h''⟩

end Members

/-- What each item was made into is the item again. -/
theorem map_eq_of_forall₂ {α β γ : Type} {R : α → β → Prop} {f : β → γ} {g : α → γ} {xs : List α}
    {ys : List β} (h : List.Forall₂ R xs ys) (hfg : ∀ x y, R x y → f y = g x) :
    ys.map f = xs.map g := by
  induction h with
  | nil => rfl
  | cons hxy _ ih => rw [List.map_cons, List.map_cons, hfg _ _ hxy, ih]

/-- What was read is written as it was. -/
theorem json_of_parse {value : Value} {label : String} {node : ContractNode} (hn : value.Normal)
    (h : parseContractNode value label = .ok node) : node.json = value := by
  induction hd : value.depth using Nat.strong_induction_on generalizing value label node with
  | _ d ih =>
    subst hd
    cases value with
    | obj map =>
      obtain ⟨hsorted, hnormal⟩ := hn
      rw [normalMembers_iff] at hnormal
      rw [parseContractNode] at h
      obtain ⟨kind, hkind, h⟩ := bind_ok.mp h
      replace hkind := lookup_str (ofOption_ok.mp hkind)
      by_cases h1 : kind = "string"
      · rw [if_pos h1] at h
        subst h1
        obtain ⟨_, hkeys, h⟩ := bind_ok.mp h
        cases h
        exact obj_one hsorted hkeys (by decide) hkind
      rw [if_neg h1] at h
      by_cases h2 : kind = "number"
      · rw [if_pos h2] at h
        subst h2
        obtain ⟨_, hkeys, h⟩ := bind_ok.mp h
        cases h
        exact obj_one hsorted hkeys (by decide) hkind
      rw [if_neg h2] at h
      by_cases h3 : kind = "boolean"
      · rw [if_pos h3] at h
        subst h3
        obtain ⟨_, hkeys, h⟩ := bind_ok.mp h
        cases h
        exact obj_one hsorted hkeys (by decide) hkind
      rw [if_neg h3] at h
      by_cases h4 : kind = "literal"
      · rw [if_pos h4] at h
        subst h4
        obtain ⟨_, hkeys, h⟩ := bind_ok.mp h
        obtain ⟨values, hvalues, h⟩ := bind_ok.mp h
        obtain ⟨_, -, h⟩ := bind_ok.mp h
        cases h
        have hvalues := lookup_arr (ofOption_ok.mp hvalues)
        exact obj_two hsorted hkeys (by decide) (by decide) hkind hvalues
      rw [if_neg h4] at h
      by_cases h5 : kind = "array"
      · rw [if_pos h5] at h
        subst h5
        obtain ⟨_, hkeys, h⟩ := bind_ok.mp h
        split at h
        · next item hitem =>
          obtain ⟨child, hchild, h⟩ := bind_ok.mp h
          cases h
          have hjson := ih _ (depth_lookupKey hitem) (hnormal _ (mem_of_lookupKey hitem)) hchild rfl
          rw [ContractNode.json, hjson]
          exact obj_two hsorted hkeys (by decide) (by decide) hitem hkind
        · cases h
      rw [if_neg h5] at h
      by_cases h6 : kind = "tuple"
      · rw [if_pos h6] at h
        subst h6
        obtain ⟨_, hkeys, h⟩ := bind_ok.mp h
        split at h
        · next items hitems =>
          obtain ⟨_, -, h⟩ := bind_ok.mp h
          obtain ⟨children, hchildren, h⟩ := bind_ok.mp h
          cases h
          have hfound := lookup_arr hitems
          have harray : NormalItems items := hnormal _ (mem_of_lookupKey hfound)
          have hjson : children.map ContractNode.json
              = items.attach.zipIdx.map fun p => p.1.1 :=
            map_eq_of_forall₂ (mapM_ok.mp hchildren) fun p child hchild =>
              ih _ (depth_items hitems p.1.2) (normalItems_iff.mp harray _ p.1.2) hchild rfl
          have hitems' : (items.attach.zipIdx.map fun p => p.1.1) = items := by
            calc (items.attach.zipIdx.map fun p => p.1.1)
                = (items.attach.zipIdx.map Prod.fst).map Subtype.val := by rw [List.map_map]; rfl
              _ = items := by rw [List.zipIdx_map_fst, List.attach_map_subtype_val]
          rw [hitems'] at hjson
          rw [ContractNode.json, jsonItems_eq, hjson]
          exact obj_two hsorted hkeys (by decide) (by decide) hfound hkind
        · cases h
      rw [if_neg h6] at h
      by_cases h7 : kind = "optional"
      · rw [if_pos h7] at h
        subst h7
        obtain ⟨_, hkeys, h⟩ := bind_ok.mp h
        split at h
        · next item hitem =>
          obtain ⟨child, hchild, h⟩ := bind_ok.mp h
          cases h
          have hjson := ih _ (depth_lookupKey hitem) (hnormal _ (mem_of_lookupKey hitem)) hchild rfl
          rw [ContractNode.json, hjson]
          exact obj_two hsorted hkeys (by decide) (by decide) hkind hitem
        · cases h
      rw [if_neg h7] at h
      by_cases h8 : kind = "object"
      · rw [if_pos h8] at h
        subst h8
        obtain ⟨_, hkeys, h⟩ := bind_ok.mp h
        split at h
        · next fields hfields =>
          obtain ⟨children, hchildren, h⟩ := bind_ok.mp h
          cases h
          have hfound := lookup_obj hfields
          obtain ⟨-, hmembers⟩ : Sorted fields ∧ NormalMembers fields :=
            hnormal _ (mem_of_lookupKey hfound)
          have hjson : (children.map fun f => (f.1, f.2.json)) = fields.attach.map Subtype.val := by
            refine map_eq_of_forall₂ (mapM_ok.mp hchildren) ?_
            intro f child hchild
            obtain ⟨node, hnode, hpair⟩ := bind_ok.mp hchild
            cases hpair
            exact Prod.ext rfl (ih _ (depth_fields hfields f.2)
              (normalMembers_iff.mp hmembers _ f.2) hnode rfl)
          rw [List.attach_map_subtype_val] at hjson
          rw [ContractNode.json, jsonFields_eq, hjson]
          exact obj_two hsorted hkeys (by decide) (by decide) hfound hkind
        · cases h
      rw [if_neg h8] at h
      by_cases h9 : kind = "externalRef"
      · rw [if_pos h9] at h
        subst h9
        obtain ⟨_, hkeys, h⟩ := bind_ok.mp h
        obtain ⟨dependency, hdependency, h⟩ := bind_ok.mp h
        obtain ⟨referenceKind, hreference, h⟩ := bind_ok.mp h
        cases h
        have hdependency := lookup_str (ofOption_ok.mp hdependency)
        have hreference := lookup_str (ofOption_ok.mp hreference)
        exact obj_three hsorted hkeys (by decide) (by decide) (by decide) hdependency hkind
          hreference
      rw [if_neg h9] at h
      cases h
    | _ =>
      rw [parseContractNode] at h
      · cases h
      · intro map hobj
        cases hobj

/-! ### Digests -/

section Digest

variable [Externals]

def schemaDigest (node : ContractNode) : String := (sha256 (node.json.print floats)).hex

end Digest

attribute [local instance] Concrete.externals

/-- An array of one literal, as a document. -/
def literalArray : Value :=
  .obj [("items", .obj [("kind", .str "literal"), ("values", .arr [.null])]), ("kind", .str "array")]

end AiraGraphdb.Native.Bounded
