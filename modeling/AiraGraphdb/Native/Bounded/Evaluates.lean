import AiraGraphdb.Native.Bounded.Related

/-! # What the assertions come to

Rules for the expressions of the contract: from the values of its parts, the value of the whole. With
them an assertion about a ranking is read as a statement about its scores, ids and objects. -/

namespace AiraGraphdb.Native.Bounded

open Schemes Schemes.Json

/-! ### Pointers -/

theorem pointerValue_nil (v : Value) : pointerValue v [] = some (.ref v) := rfl

theorem pointerValues_single {segment : String} {path : List String} {v w : Value}
    (h : pointerStep segment v = some [w]) :
    pointerValues (segment :: path) [v] = pointerValues path [w] := by
  rw [pointerValues, List.mapM_cons, h]
  rfl

theorem pointerValue_step {segment : String} {path : List String} {v w : Value}
    (hstar : segment ≠ "*") (h : pointerStep segment v = some [w]) :
    pointerValue v (segment :: path) = pointerValue w path := by
  rw [pointerValue, pointerValue, pointerValues_single h]
  simp [hstar.symm]

/-- A pointer goes into a member. -/
theorem pointerValue_field {segment : String} {path : List String} {v w : Value}
    (h : v.get segment = some w) (hstar : segment ≠ "*") :
    pointerValue v (segment :: path) = pointerValue w path := by
  refine pointerValue_step hstar ?_
  cases v with
  | obj members =>
    rw [pointerStep_field hstar, show lookupKey segment members = some w from h]
    rfl
  | _ => cases h

/-- A pointer goes into an item. -/
theorem pointerValue_item {segment : String} {path : List String} {values : List Value} {w : Value}
    {i : ℕ} (hi : Text.digits? segment.toList = some i) (h : values[i]? = some w)
    (hstar : segment ≠ "*") :
    pointerValue (.arr values) (segment :: path) = pointerValue w path := by
  refine pointerValue_step hstar ?_
  rw [pointerStep_index hstar, hi, Option.bind_some, h]
  rfl

section Rules

variable {m : Type → Type} [Monad m] (normalizer : String → String → OptionT m String)
  (context : EvalContext) (current : Option (String × Value))

/-- An expression comes to a value, whatever the monad. -/
def Evaluates (e : Expr) (v : EvalValue) : Prop := eval normalizer context current e = pure v

variable {normalizer context current} {e e' e'' : Expr} {v v' : EvalValue}

theorem evaluates_iff : Evaluates normalizer context current e v
    ↔ eval normalizer context current e = pure v := Iff.rfl

/-! ### Values -/

theorem evaluates_literal (w : Value) : Evaluates normalizer context current (.literal w) (.owned w) :=
  eval_literal normalizer context current w

theorem evaluates_request {path : List String} (h : pointerValue context.request path = some v) :
    Evaluates normalizer context current (.pointer .request path) v := by
  rw [evaluates_iff, eval, h]
  rfl

theorem evaluates_result {path : List String} {result : Value} (hresult : context.result = some result)
    (h : pointerValue result path = some v) :
    Evaluates normalizer context current (.pointer .result path) v := by
  rw [evaluates_iff, eval, hresult, Option.bind_some, h]
  rfl

theorem evaluates_item {scope : String} {item : Value} {path : List String}
    (h : pointerValue item path = some v) :
    Evaluates normalizer context (some (scope, item)) (.iterationPointer scope path) v := by
  rw [evaluates_iff, eval, currentPointer, Option.bind_eq_bind, Option.bind_some]
  dsimp only
  rw [if_pos rfl, h]
  rfl

variable [LawfulMonad m]

/-- Two numbers are read one after the other. -/
theorem eval_numbers {x y : F64} (h : Evaluates normalizer context current e v)
    (hx : v.asNumber = some x) (h' : Evaluates normalizer context current e' v')
    (hy : v'.asNumber = some y) (f : F64 → F64 → OptionT m EvalValue) :
    (do
      let l ← eval normalizer context current e
      let x ← checked l.asNumber
      let r ← eval normalizer context current e'
      let y ← checked r.asNumber
      f x y) = f x y := by
  rw [evaluates_iff] at h h'
  rw [h, pure_bind, hx, checked_some, pure_bind, h', pure_bind, hy, checked_some, pure_bind]

theorem eval_compared {b : Bool} (h : Evaluates normalizer context current e v)
    (h' : Evaluates normalizer context current e' v') (hb : valuesEqual v v' = some b) :
    (do
      let l ← eval normalizer context current e
      let r ← eval normalizer context current e'
      return .bool (← checked (valuesEqual l r))) = (pure (.bool b) : OptionT m EvalValue) := by
  rw [evaluates_iff] at h h'
  rw [h, pure_bind, h', pure_bind, hb, checked_some, pure_bind]

/-- The items of a collection are read. -/
theorem eval_items {values : List Value}
    (h : Evaluates normalizer context current e (.ref (.arr values)))
    (f : List Value → OptionT m EvalValue) :
    (do
      let collection ← eval normalizer context current e
      let items ← checked (collection.one.bind Value.asArray)
      f items) = f values := by
  rw [evaluates_iff] at h
  rw [h, pure_bind, EvalValue.one, Option.bind_some, Value.asArray, checked_some, pure_bind]

theorem evaluates_normalizeRef {dependency s normalized : String}
    (h : Evaluates normalizer context current e v) (hs : v.asString = some s)
    (hn : normalizer dependency s = pure normalized) :
    Evaluates normalizer context current (.normalizeRef dependency e) (.owned (.str normalized)) := by
  rw [evaluates_iff] at h
  rw [evaluates_iff, eval, h, pure_bind, hs, checked_some, pure_bind, hn, pure_bind]

theorem evaluates_arrayLength {values : List Value}
    (h : Evaluates normalizer context current e (.ref (.arr values))) :
    Evaluates normalizer context current (.arrayLength e)
      (.owned (numU64 (UInt64.ofNat values.length))) := by
  rw [evaluates_iff] at h
  rw [evaluates_iff, eval, h, pure_bind]
  dsimp only
  rw [EvalValue.one, Option.bind_some, Value.asArray, checked_some, pure_bind]

theorem evaluates_concat {s t : String} (h : Evaluates normalizer context current e v)
    (hs : v.asString = some s) (h' : Evaluates normalizer context current e' v')
    (ht : v'.asString = some t) :
    Evaluates normalizer context current (.concat e e') (.owned (.str (s ++ t))) := by
  rw [evaluates_iff] at h h'
  rw [evaluates_iff, eval, h, pure_bind, hs, checked_some, pure_bind, h', pure_bind, ht, checked_some,
    pure_bind]

theorem evaluates_max {x y : F64} (h : Evaluates normalizer context current e v)
    (hx : v.asNumber = some x) (h' : Evaluates normalizer context current e' v')
    (hy : v'.asNumber = some y) (hfinite : (maxF64 (maxF64 F64.negInfinity x) y).isFinite = true) :
    Evaluates normalizer context current (.max e e')
      (.owned (.num (.float ⟨maxF64 (maxF64 F64.negInfinity x) y, hfinite⟩))) := by
  rw [evaluates_iff, eval, eval_numbers h hx h' hy, scalarNumber, dif_pos hfinite, checked_some]

theorem evaluates_multiply {x y : F64} (h : Evaluates normalizer context current e v)
    (hx : v.asNumber = some x) (h' : Evaluates normalizer context current e' v')
    (hy : v'.asNumber = some y) (hfinite : (F64.mul x y).isFinite = true) :
    Evaluates normalizer context current (.multiply e e')
      (.owned (.num (.float ⟨F64.mul x y, hfinite⟩))) := by
  rw [evaluates_iff, eval, eval_numbers h hx h' hy, scalarNumber, dif_pos hfinite, checked_some]

/-- The first of two values that is not `null`. -/
theorem evaluates_coalesce_first {w : Value} (h : Evaluates normalizer context current e v)
    (hv : v.one = some w) (hnull : w ≠ .null) :
    Evaluates normalizer context current (.coalesce e e') v := by
  rw [evaluates_iff] at h
  rw [evaluates_iff, eval, h, pure_bind, hv, checked_some, pure_bind]
  cases w with
  | null => exact absurd rfl hnull
  | _ => rfl

theorem evaluates_coalesce_second {w : Value} (h : Evaluates normalizer context current e v)
    (hv : v.one = some .null) (h' : Evaluates normalizer context current e' v')
    (hv' : v'.one = some w) (hnull : w ≠ .null) :
    Evaluates normalizer context current (.coalesce e e') v' := by
  rw [evaluates_iff] at h h'
  rw [evaluates_iff, eval, h, pure_bind, hv, checked_some, pure_bind]
  dsimp only
  rw [h', pure_bind, hv', checked_some, pure_bind]
  cases w with
  | null => exact absurd rfl hnull
  | _ => rfl

theorem evaluates_mapLookup {entries : List Value} {keyField valueField : String}
    (h : Evaluates normalizer context current e (.ref (.arr entries)))
    (h' : Evaluates normalizer context current e' v')
    (hfound : lookupEntry keyField valueField v' entries = some v) :
    Evaluates normalizer context current (.mapLookup e e' keyField valueField) v := by
  rw [evaluates_iff] at h h'
  rw [evaluates_iff, eval, h', pure_bind, h, pure_bind, EvalValue.borrowedArray, Value.asArray,
    checked_some, pure_bind, hfound, checked_some]

/-! ### Truth values -/

theorem evaluates_not {b : Bool} (h : Evaluates normalizer context current e v)
    (hb : v.asBool = some b) : Evaluates normalizer context current (.not e) (.bool !b) := by
  rw [evaluates_iff] at h
  rw [evaluates_iff, eval, h, pure_bind, hb, checked_some, pure_bind]

theorem evaluates_any {b b' : Bool} (h : Evaluates normalizer context current e v)
    (hb : v.asBool = some b) (h' : Evaluates normalizer context current e' v')
    (hb' : v'.asBool = some b') :
    Evaluates normalizer context current (.any e e') (.bool (b || b')) := by
  rw [evaluates_iff] at h h'
  rw [evaluates_iff, eval, h, pure_bind, hb, checked_some, pure_bind]
  cases b with
  | true => rfl
  | false =>
    rw [if_neg Bool.false_ne_true, h', pure_bind, hb', checked_some, pure_bind]
    rfl

theorem evaluates_eq {b : Bool} (h : Evaluates normalizer context current e v)
    (h' : Evaluates normalizer context current e' v') (hb : valuesEqual v v' = some b) :
    Evaluates normalizer context current (.eq e e') (.bool b) := by
  rw [evaluates_iff, eval, eval_compared h h' hb]

theorem evaluates_fieldEqRef {b : Bool} (h : Evaluates normalizer context current e v)
    (h' : Evaluates normalizer context current e' v') (hb : valuesEqual v v' = some b) :
    Evaluates normalizer context current (.fieldEqRef e e') (.bool b) := by
  rw [evaluates_iff, eval, eval_compared h h' hb]

theorem evaluates_lt {x y : F64} (h : Evaluates normalizer context current e v)
    (hx : v.asNumber = some x) (h' : Evaluates normalizer context current e' v')
    (hy : v'.asNumber = some y) :
    Evaluates normalizer context current (.lt e e') (.bool (F64.lt x y)) := by
  rw [evaluates_iff, eval, eval_numbers h hx h' hy]

theorem evaluates_lte {x y : F64} (h : Evaluates normalizer context current e v)
    (hx : v.asNumber = some x) (h' : Evaluates normalizer context current e' v')
    (hy : v'.asNumber = some y) :
    Evaluates normalizer context current (.lte e e') (.bool (F64.le x y)) := by
  rw [evaluates_iff, eval, eval_numbers h hx h' hy]

theorem evaluates_setContains {values : List Value} {b : Bool}
    (h : Evaluates normalizer context current e (.ref (.arr values)))
    (h' : Evaluates normalizer context current e' v') (hb : containsValue v' values = some b) :
    Evaluates normalizer context current (.setContains e e') (.bool b) := by
  rw [evaluates_iff] at h h'
  rw [evaluates_iff, eval, h, pure_bind, EvalValue.borrowedArray, Value.asArray, checked_some,
    pure_bind, h', pure_bind, hb, checked_some, pure_bind]

theorem evaluates_finiteRange {minimum maximum : F64} (h : Evaluates normalizer context current e v) :
    Evaluates normalizer context current (.finiteRange minimum maximum e)
      (.bool (v.all.all fun value => (asDouble value).any fun x =>
        x.isFinite && F64.le minimum x && F64.le x maximum)) := by
  rw [evaluates_iff] at h
  rw [evaluates_iff, eval, h, pure_bind]

theorem evaluates_safeIntegerRange {minimum limit : F64}
    (h : Evaluates normalizer context current e v) (hlimit : v.asNumber = some limit)
    (h' : Evaluates normalizer context current e' v') :
    Evaluates normalizer context current (.safeIntegerRange minimum e e')
      (.bool (v'.all.all fun value => value.asU64.any fun n =>
        F64.le minimum (F64.ofInt n.toNat) && F64.le (F64.ofInt n.toNat) limit
          && F64.le (F64.ofInt n.toNat) (F64.ofInt maxSafeGeneration))) := by
  rw [evaluates_iff] at h h'
  rw [evaluates_iff, eval, h, pure_bind, hlimit, checked_some, pure_bind, h', pure_bind]

theorem evaluates_lengthLteRef {values : List Value} {limit : F64}
    (h : Evaluates normalizer context current e (.ref (.arr values)))
    (h' : Evaluates normalizer context current e' v') (hlimit : v'.asNumber = some limit) :
    Evaluates normalizer context current (.lengthLteRef e e')
      (.bool (F64.le (F64.ofInt values.length) limit)) := by
  rw [evaluates_iff] at h h'
  rw [evaluates_iff, eval, h, pure_bind, h', pure_bind, EvalValue.one, Option.bind_some, Value.asArray,
    checked_some, pure_bind, hlimit, checked_some, pure_bind]

/-! ### Collections -/

variable {α : Type} {entries : List α} {value : α → Value} {scope : String}

theorem evaluates_forEach {p : α → Bool}
    (h : Evaluates normalizer context current e (.ref (.arr (entries.map value))))
    (hp : ∀ a ∈ entries, ∃ v, Evaluates normalizer context (some (scope, value a)) e' v
      ∧ v.asBool = some (p a)) :
    Evaluates normalizer context current (.forEach e scope e') (.bool (entries.all p)) := by
  have hloop : forEachLoop (fun item => eval normalizer context (some (scope, item)) e')
      (entries.map value) = pure (entries.all p) := by
    clear h
    induction entries with
    | nil => rfl
    | cons a entries ih =>
      rw [List.forall_mem_cons] at hp
      obtain ⟨⟨v, hv, hb⟩, hrest⟩ := hp
      rw [List.map_cons, forEachLoop, hv, pure_bind, hb, checked_some, pure_bind, List.all_cons]
      cases p a with
      | true => exact ih hrest
      | false => rfl
  rw [evaluates_iff, eval, eval_items h, hloop, pure_bind]

/-- Keys are compared as texts. -/
theorem evaluates_uniqueBy {key : α → String}
    (h : Evaluates normalizer context current e (.ref (.arr (entries.map value))))
    (hkey : ∀ a ∈ entries, Evaluates normalizer context (some (scope, value a)) e'
      (.ref (.str (key a)))) :
    Evaluates normalizer context current (.uniqueBy e scope e')
      (.bool (decide (entries.map key).Nodup)) := by
  have hloop : ∀ seen : List String, seen.Nodup →
      uniqueLoop (fun item => eval normalizer context (some (scope, item)) e')
        (seen.map fun k => .ref (.str k)) (entries.map value)
        = pure (decide (seen ++ entries.map key).Nodup) := by
    clear h
    induction entries with
    | nil =>
      intro seen hseen
      rw [List.map_nil, uniqueLoop, List.map_nil, List.append_nil, decide_eq_true hseen]
    | cons a entries ih =>
      intro seen hseen
      rw [List.forall_mem_cons] at hkey
      have hrest := ih hkey.2
      rw [List.map_cons, uniqueLoop, hkey.1, pure_bind, List.map_cons]
      have hany : ((seen.map fun k => EvalValue.ref (.str k)).any fun s =>
          (valuesEqual s (.ref (.str (key a)))).getD false) = decide (key a ∈ seen) := by
        rw [List.any_map, Bool.eq_iff_iff, List.any_eq_true, decide_eq_true_iff]
        simp only [Function.comp, valuesEqual, Option.getD_some, Value.beq, beq_iff_eq]
        constructor
        · rintro ⟨k, hk, heq⟩
          exact heq ▸ hk
        · exact fun hk => ⟨key a, hk, rfl⟩
      rw [hany]
      by_cases hmem : key a ∈ seen
      · rw [decide_eq_true hmem, if_pos rfl, decide_eq_false]
        intro hnodup
        exact List.disjoint_of_nodup_append hnodup hmem List.mem_cons_self
      · have hsnoc : (seen ++ [key a]).Nodup := by
          rw [List.nodup_append_comm, List.singleton_append, List.nodup_cons]
          exact ⟨hmem, hseen⟩
        have := hrest (seen ++ [key a]) hsnoc
        rw [List.map_append, List.map_singleton, List.append_assoc, List.singleton_append] at this
        rw [decide_eq_false hmem, if_neg Bool.false_ne_true, this]
  have hstart := hloop [] List.nodup_nil
  rw [List.map_nil, List.nil_append] at hstart
  rw [evaluates_iff, eval, eval_items h, hstart, pure_bind]

theorem evaluates_ordered {score : α → F64} {id : α → String}
    (h : Evaluates normalizer context current e (.ref (.arr (entries.map value))))
    (hscore : ∀ a ∈ entries, ∃ v, Evaluates normalizer context (some (scope, value a)) e' v
      ∧ v.asNumber = some (score a))
    (hid : ∀ a ∈ entries, Evaluates normalizer context (some (scope, value a)) e''
      (.ref (.str (id a)))) :
    Evaluates normalizer context current (.orderedScoreDescIdAsc e scope e' e'')
      (.bool (orderedScoreDescIdAsc none (entries.map fun a => (score a, id a)))) := by
  have hloop : ∀ previous,
      orderedLoop (fun item => eval normalizer context (some (scope, item)) e')
        (fun item => eval normalizer context (some (scope, item)) e'') previous (entries.map value)
        = pure (orderedScoreDescIdAsc previous (entries.map fun a => (score a, id a))) := by
    clear h
    induction entries with
    | nil => exact fun _ => rfl
    | cons a entries ih =>
      intro previous
      rw [List.forall_mem_cons] at hscore hid
      obtain ⟨⟨v, hv, hs⟩, hscores⟩ := hscore
      have hrest := ih hscores hid.2 (some (score a, id a))
      rw [List.map_cons, orderedLoop, hv, pure_bind, hs, checked_some, pure_bind, hid.1, pure_bind,
        show (EvalValue.ref (.str (id a))).asString = some (id a) from rfl, checked_some, pure_bind,
        List.map_cons, orderedScoreDescIdAsc]
      split_ifs
      · rfl
      · exact hrest
  rw [evaluates_iff, eval, eval_items h, hloop, pure_bind]

/-- Entries with the ranks that their places give them. -/
theorem evaluates_rankIsIndexPlusOne {rank : α → ℕ}
    (h : Evaluates normalizer context current e (.ref (.arr (entries.map value))))
    (hrank : ∀ a ∈ entries, Evaluates normalizer context (some (scope, value a)) e'
      (.ref (numU64 (UInt64.ofNat (rank a)))))
    (hplace : entries.map rank = (List.range entries.length).map (· + 1))
    (hsmall : entries.length < 2 ^ 64) :
    Evaluates normalizer context current (.rankIsIndexPlusOne e scope e') (.bool true) := by
  have hloop : ∀ start, entries.map rank = (List.range' (start + 1) entries.length) →
      start + entries.length < 2 ^ 64 →
      rankLoop (fun item => eval normalizer context (some (scope, item)) e') start
        (entries.map value) = pure true := by
    clear h hplace hsmall
    induction entries with
    | nil => exact fun _ _ _ => rfl
    | cons a entries ih =>
      intro start hranks hsmall
      rw [List.forall_mem_cons] at hrank
      rw [List.length_cons] at hsmall
      rw [List.map_cons, List.length_cons, List.range'_succ, List.cons.injEq] at hranks
      rw [List.map_cons, rankLoop, hrank.1, pure_bind, EvalValue.one, checked_some, pure_bind, numU64,
        Value.asU64, Option.map_some, hranks.1, UInt64.toNat_ofNat_of_lt' (by
          show start + 1 < 2 ^ 64
          omega), if_pos rfl]
      exact ih hrank.2 (start + 1) hranks.2 (by omega)
  rw [evaluates_iff, eval, eval_items h,
    hloop 0 (by rw [hplace, List.range'_eq_map_range]; simp [Nat.add_comm]) (by omega), pure_bind]

/-! ### Checks -/

variable (normalizer context) in
/-- Assertions are checked without another error than that one does not hold. -/
def Decides (assertions : List Expr) (holds : Bool) : Prop :=
  evaluateAssertions normalizer context assertions = checked (guard (holds = true))

omit [LawfulMonad m] in
theorem decides_nil : Decides normalizer context [] true := rfl

theorem decides_cons {assertion : Expr} {assertions : List Expr} {b b' : Bool}
    (h : Evaluates normalizer context none assertion (.bool b))
    (h' : Decides normalizer context assertions b') :
    Decides normalizer context (assertion :: assertions) (b && b') := by
  rw [evaluates_iff] at h
  rw [Decides, evaluateAssertions, h, pure_bind,
    show (EvalValue.bool b).asBool = some b from rfl, checked_some, pure_bind]
  cases b with
  | true => exact h'
  | false => rfl

theorem evaluateAssertions_append (assertions assertions' : List Expr) :
    evaluateAssertions normalizer context (assertions ++ assertions')
      = evaluateAssertions normalizer context assertions >>= fun _ =>
        evaluateAssertions normalizer context assertions' := by
  induction assertions with
  | nil =>
    rw [evaluateAssertions, pure_bind, List.nil_append]
  | cons assertion assertions ih =>
    rw [List.cons_append, evaluateAssertions, evaluateAssertions, bind_assoc]
    refine bind_congr (m := OptionT m) fun v => ?_
    rw [bind_assoc]
    refine bind_congr (m := OptionT m) fun holds => ?_
    cases holds with
    | true => exact ih
    | false => exact (checked_none_bind _).symm

theorem decides_append {assertions assertions' : List Expr} {b b' : Bool}
    (h : Decides normalizer context assertions b) (h' : Decides normalizer context assertions' b') :
    Decides normalizer context (assertions ++ assertions') (b && b') := by
  rw [Decides] at h h'
  rw [Decides, evaluateAssertions_append, h, h']
  cases b with
  | true => exact checked_some_bind () _
  | false => exact checked_none_bind _

end Rules

end AiraGraphdb.Native.Bounded
