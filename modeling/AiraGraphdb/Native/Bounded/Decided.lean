import AiraGraphdb.Native.Bounded.Related

/-! # The checks of the pinned operations are decided

On a request and a result that conform, the assertions of the pinned operations are true or false: the
check never ends because an assertion has no value. An assertion that neither normalizes nor multiplies
makes no use of the normalizer, and one without a pointer into the result none of the result. -/

namespace AiraGraphdb.Native.Bounded

open Schemes Schemes.Json

/-! ### Expressions without effects -/

section Settled

variable {m : Type → Type} [Monad m] [LawfulMonad m]

omit [LawfulMonad m] in
theorem settled_checked {α : Type} (o : Option α) : Settled (checked o : OptionT m α) (checked o) :=
  Settled.ofOption o

/-- The value of an expression that cannot fail takes no normalizer. -/
theorem eval_settled (normalizer : String → String → OptionT m String) (context : EvalContext)
    (e : Expr) (current : Option (String × Value)) (h : fallible e = false) :
    Settled (eval normalizer context current e) (eval noNormalizer context current e) :=
  eval_related (Simulation.settled m) context e current fun hmay => by
    rw [h] at hmay
    cases hmay

theorem evaluateAssertions_settled (normalizer : String → String → OptionT m String)
    (context : EvalContext) {assertions : List Expr} (h : ∀ a ∈ assertions, fallible a = false) :
    Settled (evaluateAssertions normalizer context assertions)
      (evaluateAssertions noNormalizer context assertions) :=
  evaluateAssertions_related (Simulation.settled m) context fun a ha hmay => by
    rw [h a ha] at hmay
    cases hmay

end Settled

/-! ### Assertions about the request alone -/

/-- `contains_result_pointer`. -/
def containsResultPointer : Expr → Bool
  | .pointer .result _ => true
  | .pointer .request _ | .literal _ | .iterationPointer _ _ => false
  | .normalizeRef _ value => containsResultPointer value
  | .arrayLength value | .not value | .finiteRange _ _ value => containsResultPointer value
  | .any first second | .coalesce first second | .concat first second | .max first second =>
    containsResultPointer first || containsResultPointer second
  | .eq left right | .lt left right | .lte left right | .fieldEqRef left right
  | .multiply left right => containsResultPointer left || containsResultPointer right
  | .mapLookup map key _ _ => containsResultPointer map || containsResultPointer key
  | .setContains set value => containsResultPointer set || containsResultPointer value
  | .safeIntegerRange _ maximum value => containsResultPointer maximum || containsResultPointer value
  | .lengthLteRef actual limit => containsResultPointer actual || containsResultPointer limit
  | .uniqueBy collection _ key => containsResultPointer collection || containsResultPointer key
  | .orderedScoreDescIdAsc collection _ score id =>
    containsResultPointer collection || containsResultPointer score || containsResultPointer id
  | .forEach collection _ predicate =>
    containsResultPointer collection || containsResultPointer predicate
  | .rankIsIndexPlusOne collection _ rank =>
    containsResultPointer collection || containsResultPointer rank

/-- Without a pointer into the result, the value does not depend on it. -/
theorem eval_requestOnly {m : Type → Type} [Monad m] (normalizer : String → String → OptionT m String)
    (request : Value) (result result' : Option Value) (e : Expr) (current : Option (String × Value))
    (h : containsResultPointer e = false) :
    eval normalizer ⟨request, result⟩ current e = eval normalizer ⟨request, result'⟩ current e := by
  induction e generalizing current with
  | literal value => rfl
  | pointer root path =>
    cases root with
    | request => rfl
    | result => cases h
  | iterationPointer name path => rfl
  | normalizeRef dependency value ih => rw [eval, eval, ih current h]
  | arrayLength value ih | not value ih | finiteRange minimum maximum value ih =>
    rw [eval, eval, ih current h]
  | any first second ih ih' | coalesce first second ih ih' | concat first second ih ih'
  | max first second ih ih' | eq first second ih ih' | lt first second ih ih'
  | lte first second ih ih' | fieldEqRef first second ih ih' | multiply first second ih ih'
  | mapLookup first second keyField valueField ih ih' | setContains first second ih ih'
  | safeIntegerRange minimum first second ih ih' | lengthLteRef first second ih ih' =>
    rw [containsResultPointer, Bool.or_eq_false_iff] at h
    rw [eval, eval, ih current h.1, ih' current h.2]
  | uniqueBy collection name body ih ih' | forEach collection name body ih ih'
  | rankIsIndexPlusOne collection name body ih ih' =>
    rw [containsResultPointer, Bool.or_eq_false_iff] at h
    simp only [eval, ih current h.1, fun current => ih' current h.2]
  | orderedScoreDescIdAsc collection name score id ih ih' ih'' =>
    rw [containsResultPointer, Bool.or_eq_false_iff, Bool.or_eq_false_iff] at h
    simp only [eval, ih current h.1.1, fun current => ih' current h.1.2, fun current => ih'' current h.2]

/-! ### The pinned operations -/

/-- What an operation's assertions are typed under. -/
def Operation.requestContracts (operation : Operation) : Contracts := ⟨operation.request, none⟩

def Operation.exchangeContracts (operation : Operation) : Contracts :=
  ⟨operation.request, some operation.result⟩

/-- The assertions are typed, are about what they are for, and those about a request cannot fail. -/
def Operation.wellFormed (operation : Operation) : Bool :=
  (operation.requestAssertions.all fun a =>
    hasKind .boolean (typeOf operation.requestContracts none a) && !fallible a
      && !containsResultPointer a)
  && operation.exchangeAssertions.all fun a =>
    hasKind .boolean (typeOf operation.exchangeContracts none a) && containsResultPointer a

theorem wellFormed_candidateSearch : candidateSearchOperation.wellFormed = true := by decide +kernel

theorem wellFormed_factExpand : factExpandOperation.wellFormed = true := by decide +kernel

theorem wellFormed_ppr : pprOperation.wellFormed = true := by decide +kernel

theorem wellFormed_pinned {method : String} {operation : Operation}
    (h : pinnedContract method = some operation) : operation.wellFormed = true := by
  unfold pinnedContract at h
  split_ifs at h
  · cases h
    exact wellFormed_candidateSearch
  · cases h
    exact wellFormed_factExpand
  · cases h
    exact wellFormed_ppr

theorem requestAssertion_typed {operation : Operation} (h : operation.wellFormed = true) :
    ∀ a ∈ operation.requestAssertions,
      hasKind .boolean (typeOf operation.requestContracts none a) = true ∧ fallible a = false
        ∧ containsResultPointer a = false := by
  rw [Operation.wellFormed, Bool.and_eq_true, List.all_eq_true] at h
  intro a ha
  simpa [and_assoc] using h.1 a ha

theorem exchangeAssertion_typed {operation : Operation} (h : operation.wellFormed = true) :
    ∀ a ∈ operation.exchangeAssertions,
      hasKind .boolean (typeOf operation.exchangeContracts none a) = true := by
  rw [Operation.wellFormed, Bool.and_eq_true, List.all_eq_true, List.all_eq_true] at h
  intro a ha
  exact (Bool.and_eq_true _ _ |>.mp (h.2 a ha)).1

/-- Only the assertions about an expansion normalize or multiply. -/
theorem exchangeAssertion_sure {method : String} {operation : Operation}
    (h : pinnedContract method = some operation) (hmethod : method ≠ factExpand) :
    ∀ a ∈ operation.exchangeAssertions, fallible a = false := by
  unfold pinnedContract at h
  split_ifs at h
  · cases h
    decide +kernel
  · cases h
    decide +kernel

section Decided

variable {m : Type → Type} [Monad m] [LawfulMonad m]
  (normalizer : String → String → OptionT m String)

/-- A boolean that cannot fail is one, in any monad. -/
theorem decided_of_kind {context : EvalContext} {contracts : Contracts}
    (hfit : contracts.Fit context) {a : Expr} (hkind : hasKind .boolean (typeOf contracts none a) = true)
    (hfallible : fallible a = false) :
    ∃ v b, (eval normalizer context none a).run = pure (some v) ∧ v.asBool = some b := by
  have htyped : Typed False (typeOf contracts none a) (eval noNormalizer context none a) :=
    eval_typed hfit a (inScope_none none) (by simp [hfallible])
  obtain ⟨v, hv, b, hb⟩ := (htyped.boolean hkind).run.sure id
  have hsettled := eval_settled normalizer context a none hfallible
  rw [Settled, hv] at hsettled
  exact ⟨v, b, hsettled, hb⟩

theorem evaluateAssertions_iff {context : EvalContext} : ∀ {assertions : List Expr},
    (evaluateAssertions noNormalizer context assertions).run = some () ↔
      ∀ a ∈ assertions, ∃ v, (eval noNormalizer context none a).run = some v ∧ v.asBool = some true
  | [] => by
    rw [evaluateAssertions]
    exact ⟨fun _ a ha => absurd ha List.not_mem_nil, fun _ => rfl⟩
  | assertion :: assertions => by
    rw [List.forall_mem_cons, ← evaluateAssertions_iff, evaluateAssertions, run_bind_iff]
    constructor
    · rintro ⟨v, hv, h⟩
      obtain ⟨b, hb, h⟩ := run_bind_iff.mp h
      cases b with
      | false => cases h
      | true => exact ⟨⟨v, hv, hb⟩, h⟩
    · rintro ⟨⟨v, hv, hb⟩, h⟩
      exact ⟨v, hv, run_bind_iff.mpr ⟨true, hb, h⟩⟩

omit [Monad m] [LawfulMonad m] in
theorem guard_iff {b : Bool} {u : Unit} : (guard (b = true) : Option Unit) = some u ↔ b = true := by
  cases b <;> simp [guard]

theorem fit_request {operation : Operation} {request : Value} {result : Option Value}
    (h : Conforms operation.request request) :
    operation.requestContracts.Fit ⟨request, result⟩ :=
  ⟨h, fun _ hnone => by cases hnone⟩

theorem fit_exchange {operation : Operation} {request result : Value}
    (h : Conforms operation.request request) (h' : Conforms operation.result result) :
    operation.exchangeContracts.Fit ⟨request, some result⟩ :=
  ⟨h, fun node hnode => by
    cases hnode
    exact ⟨result, rfl, h'⟩⟩

theorem validateSemanticRequest_iff {method : String} {operation : Operation} {request : Value}
    (hop : pinnedContract method = some operation) : validateSemanticRequest method request = true ↔
      Conforms operation.request request ∧ (evaluateAssertions noNormalizer ⟨request, none⟩
        operation.requestAssertions).run = some () := by
  rw [validateSemanticRequest, Option.isSome_iff_exists]
  constructor
  · rintro ⟨_, h⟩
    rw [validateSemanticRequestWithNormalizer] at h
    obtain ⟨operation', hoperation, h⟩ := run_bind_iff.mp h
    obtain rfl : operation = operation' := Option.some.inj (hop.symm.trans hoperation)
    obtain ⟨_, hschema, h⟩ := run_bind_iff.mp h
    exact ⟨guard_iff.mp hschema, h⟩
  · rintro ⟨hschema, h⟩
    refine ⟨(), ?_⟩
    rw [validateSemanticRequestWithNormalizer]
    exact run_bind_iff.mpr ⟨operation, hop, run_bind_iff.mpr ⟨(), guard_iff.mpr hschema, h⟩⟩

/-- The check of a request asks no normalizer, whichever it is given. On a request that conforms every
assertion is true or false, also beside a result, and the request is admitted when all are true. -/
theorem request_check_decided {method : String} {operation : Operation}
    (hop : pinnedContract method = some operation) (request : Value) :
    (validateSemanticRequestWithNormalizer method request normalizer).run
        = pure (validateSemanticRequestWithNormalizer method request noNormalizer).run
      ∧ (Conforms operation.request request → ∀ result, ∀ a ∈ operation.requestAssertions,
        ∃ v b, (eval normalizer ⟨request, result⟩ none a).run = pure (some v) ∧ v.asBool = some b)
      ∧ (validateSemanticRequest method request = true ↔ Conforms operation.request request
        ∧ ∀ a ∈ operation.requestAssertions, ∃ v,
          (eval noNormalizer ⟨request, none⟩ none a).run = some v ∧ v.asBool = some true) := by
  have htyped := requestAssertion_typed (wellFormed_pinned hop)
  refine ⟨?_, ?_, ?_⟩
  · rw [validateSemanticRequestWithNormalizer, validateSemanticRequestWithNormalizer, hop,
      checked_some_bind, checked_some_bind]
    exact (settled_checked _).bind fun _ =>
      evaluateAssertions_settled normalizer _ fun a ha => (htyped a ha).2.1
  · intro hrequest result a ha
    obtain ⟨hkind, hfallible, honly⟩ := htyped a ha
    rw [eval_requestOnly normalizer request result none a none honly]
    exact decided_of_kind normalizer (fit_request hrequest) hkind hfallible
  · rw [validateSemanticRequest_iff hop, evaluateAssertions_iff]

/-- On a request and a result that conform every assertion about the exchange is true or false, unless
it normalizes or multiplies. Only the assertions about an expansion do: the check of another method
asks no normalizer. -/
theorem exchange_check_decided {method : String} {operation : Operation}
    (hop : pinnedContract method = some operation) {request result : Value}
    (hrequest : Conforms operation.request request) (hresult : Conforms operation.result result) :
    (∀ a ∈ operation.exchangeAssertions, Yields (fallible a = true) (fun v => ∃ b, v.asBool = some b)
        (eval normalizer ⟨request, some result⟩ none a))
      ∧ (method ≠ factExpand → (validateSemanticExchange method request result normalizer).run
          = pure (validateSemanticExchange method request result noNormalizer).run
        ∧ ∀ a ∈ operation.exchangeAssertions, ∃ v b,
          (eval normalizer ⟨request, some result⟩ none a).run = pure (some v) ∧ v.asBool = some b) := by
  have hwell := wellFormed_pinned hop
  have hfit := fit_exchange hrequest hresult
  refine ⟨fun a ha => ?_, fun hmethod => ⟨?_, fun a ha => ?_⟩⟩
  · exact (eval_typed hfit a (inScope_none none) id).boolean (exchangeAssertion_typed hwell a ha)
  · rw [validateSemanticExchange, validateSemanticExchange, hop, checked_some_bind, checked_some_bind]
    exact (settled_checked _).bind fun _ => (settled_checked _).bind fun _ =>
      (evaluateAssertions_settled normalizer _ fun a ha => (requestAssertion_typed hwell a ha).2.1).bind
        fun _ => evaluateAssertions_settled normalizer _ (exchangeAssertion_sure hop hmethod)
  · exact decided_of_kind normalizer hfit (exchangeAssertion_typed hwell a ha)
      (exchangeAssertion_sure hop hmethod a ha)

end Decided

/-- A PPR request without seeds, and its empty result. -/
def emptyPprRequest : Value := .obj
  [("corpusId", .str "c"), ("plan", .obj
    [("convergenceEpsilon", numU64 1), ("entityLimit", numU64 1), ("hubDegreeThreshold", numU64 0),
      ("maxIterations", numU64 1), ("passageLimit", numU64 1), ("seeds", .arr []),
      ("teleportProbability", numU64 0)])]

def emptyPprResult : Value := .obj
  [("converged", .bool true), ("iterations", numU64 0), ("l1Delta", numU64 0),
    ("rankedFacts", .arr []), ("rankedPassages", .arr [])]

theorem request_check_decided_ppr :
    (validateSemanticRequestWithNormalizer pprMaterialize emptyPprRequest noNormalizer).run
        = pure (validateSemanticRequestWithNormalizer pprMaterialize emptyPprRequest noNormalizer).run
      ∧ (Conforms pprOperation.request emptyPprRequest → ∀ result,
        ∀ a ∈ pprOperation.requestAssertions, ∃ v b,
          (eval noNormalizer ⟨emptyPprRequest, result⟩ none a).run = pure (some v) ∧ v.asBool = some b)
      ∧ (validateSemanticRequest pprMaterialize emptyPprRequest = true ↔
        Conforms pprOperation.request emptyPprRequest ∧ ∀ a ∈ pprOperation.requestAssertions, ∃ v,
          (eval noNormalizer ⟨emptyPprRequest, none⟩ none a).run = some v ∧ v.asBool = some true) :=
  request_check_decided noNormalizer rfl emptyPprRequest

theorem exchange_check_decided_ppr :
    (∀ a ∈ pprOperation.exchangeAssertions, Yields (fallible a = true) (fun v => ∃ b, v.asBool = some b)
        (eval noNormalizer ⟨emptyPprRequest, some emptyPprResult⟩ none a))
      ∧ (pprMaterialize ≠ factExpand →
        (validateSemanticExchange pprMaterialize emptyPprRequest emptyPprResult noNormalizer).run
          = pure (validateSemanticExchange pprMaterialize emptyPprRequest emptyPprResult
            noNormalizer).run
        ∧ ∀ a ∈ pprOperation.exchangeAssertions, ∃ v b,
          (eval noNormalizer ⟨emptyPprRequest, some emptyPprResult⟩ none a).run = pure (some v)
            ∧ v.asBool = some b) :=
  exchange_check_decided noNormalizer rfl (by rw [Conforms]; decide +kernel)
    (by rw [Conforms]; decide +kernel)

end AiraGraphdb.Native.Bounded
