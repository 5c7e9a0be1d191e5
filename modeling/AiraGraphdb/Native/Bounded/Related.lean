import AiraGraphdb.Native.Bounded.Typing
import AiraGraphdb.Native.Bounded.Pinned

/-! # The same check with another normalizer

A check reads its normalizer only where an expression normalizes. When two normalizers are related, the
values they give are, whatever relation it is that goes along with the steps of a computation. -/

namespace AiraGraphdb.Native.Bounded

open Schemes Schemes.Json

variable {m : Type → Type} [Monad m]

theorem checked_some {α : Type} (a : α) : (checked (some a) : OptionT m α) = pure a := rfl

theorem checked_some_bind [LawfulMonad m] {α β : Type} (a : α) (f : α → OptionT m β) :
    (checked (some a) >>= f : OptionT m β) = f a := pure_bind a f

theorem checked_none_bind [LawfulMonad m] {α β : Type} (f : α → OptionT m β) :
    (checked none >>= f : OptionT m β) = checked none := by
  refine OptionT.ext ?_
  rw [OptionT.run_bind, Option.elimM]
  exact pure_bind _ _

variable (S : Simulation m)

theorem related_checked {α : Type} (o : Option α) : S.Rel (checked o : OptionT m α) (checked o) :=
  S.ofOption o

theorem uniqueLoop_related {key : Value → OptionT m EvalValue} {key' : Value → OptionT Id EvalValue}
    (h : ∀ item, S.Rel (key item) (key' item)) : ∀ (items : List Value) (keys : List EvalValue),
    S.Rel (uniqueLoop key keys items) (uniqueLoop key' keys items)
  | [], _ => S.pure true
  | item :: items, keys => by
    rw [uniqueLoop, uniqueLoop]
    refine (h item).bind fun k => ?_
    split
    · exact S.pure false
    · exact uniqueLoop_related h items _

theorem orderedLoop_related {score id : Value → OptionT m EvalValue}
    {score' id' : Value → OptionT Id EvalValue} (hscore : ∀ item, S.Rel (score item) (score' item))
    (hid : ∀ item, S.Rel (id item) (id' item)) : ∀ (items : List Value)
    (previous : Option (F64 × String)),
    S.Rel (orderedLoop score id previous items) (orderedLoop score' id' previous items)
  | [], _ => S.pure true
  | item :: items, previous => by
    rw [orderedLoop, orderedLoop]
    refine (hscore item).bind fun s => (related_checked S _).bind fun s => ?_
    refine (hid item).bind fun i => (related_checked S _).bind fun i => ?_
    split
    · exact S.pure false
    · exact orderedLoop_related hscore hid items _

theorem forEachLoop_related {predicate : Value → OptionT m EvalValue}
    {predicate' : Value → OptionT Id EvalValue}
    (h : ∀ item, S.Rel (predicate item) (predicate' item)) (items : List Value) :
    S.Rel (forEachLoop predicate items) (forEachLoop predicate' items) := by
  induction items with
  | nil => exact S.pure true
  | cons item items ih =>
    rw [forEachLoop, forEachLoop]
    refine (h item).bind fun v => (related_checked S _).bind fun holds => ?_
    split
    · exact ih
    · exact S.pure false

theorem rankLoop_related {rank : Value → OptionT m EvalValue} {rank' : Value → OptionT Id EvalValue}
    (h : ∀ item, S.Rel (rank item) (rank' item)) : ∀ (items : List Value) (index : ℕ),
    S.Rel (rankLoop rank index items) (rankLoop rank' index items)
  | [], _ => S.pure true
  | item :: items, index => by
    rw [rankLoop, rankLoop]
    refine (h item).bind fun v => (related_checked S _).bind fun value => ?_
    split
    · exact rankLoop_related h items _
    · exact S.pure false

variable {normalizer : String → String → OptionT m String}
  {plain : String → String → OptionT Id String} (context : EvalContext)

/-- An expression is evaluated alike with normalizers that are alike; where it cannot fail, with any. -/
theorem eval_related (e : Expr) (current : Option (String × Value))
    (h : fallible e = true → ∀ dependency value,
      S.Rel (normalizer dependency value) (plain dependency value)) :
    S.Rel (eval normalizer context current e) (eval plain context current e) := by
  induction e generalizing current with
  | literal value => exact S.pure _
  | pointer root path => cases root <;> exact related_checked S _
  | iterationPointer name path => exact related_checked S _
  | arrayLength value ih =>
    rw [eval, eval]
    refine (ih current h).bind fun v => ?_
    split
    · exact S.pure _
    · exact (related_checked S _).bind fun values => S.pure _
  | any first second ih ih' =>
    simp only [fallible, Bool.or_eq_true, or_imp] at h
    rw [eval, eval]
    refine (ih current h.1).bind fun v => (related_checked S _).bind fun b => ?_
    split
    · exact S.pure _
    · exact (ih' current h.2).bind fun v => (related_checked S _).bind fun b => S.pure _
  | coalesce first second ih ih' =>
    simp only [fallible, Bool.or_eq_true, or_imp] at h
    rw [eval, eval]
    refine (ih current h.1).bind fun v => (related_checked S _).bind fun w => ?_
    split
    · refine (ih' current h.2).bind fun v => (related_checked S _).bind fun w => ?_
      split <;> exact S.pure _
    · exact S.pure _
  | concat first second ih ih' =>
    simp only [fallible, Bool.or_eq_true, or_imp] at h
    rw [eval, eval]
    exact (ih current h.1).bind fun v => (related_checked S _).bind fun s =>
      (ih' current h.2).bind fun v => (related_checked S _).bind fun t => S.pure _
  | eq left right ih ih' | fieldEqRef left right ih ih' =>
    simp only [fallible, Bool.or_eq_true, or_imp] at h
    rw [eval, eval]
    exact (ih current h.1).bind fun l => (ih' current h.2).bind fun r =>
      (related_checked S _).bind fun b => S.pure _
  | lt left right ih ih' | lte left right ih ih' =>
    simp only [fallible, Bool.or_eq_true, or_imp] at h
    rw [eval, eval]
    exact (ih current h.1).bind fun l => (related_checked S _).bind fun x =>
      (ih' current h.2).bind fun r => (related_checked S _).bind fun y => S.pure _
  | max left right ih ih' =>
    simp only [fallible, Bool.or_eq_true, or_imp] at h
    rw [eval, eval]
    exact (ih current h.1).bind fun l => (related_checked S _).bind fun x =>
      (ih' current h.2).bind fun r => (related_checked S _).bind fun y => related_checked S _
  | multiply left right ih ih' =>
    rw [eval, eval]
    exact (ih current fun _ => h rfl).bind fun l => (related_checked S _).bind fun x =>
      (ih' current fun _ => h rfl).bind fun r => (related_checked S _).bind fun y =>
        related_checked S _
  | not value ih =>
    rw [eval, eval]
    exact (ih current h).bind fun v => (related_checked S _).bind fun b => S.pure _
  | normalizeRef dependency value ih =>
    rw [eval, eval]
    exact (ih current fun _ => h rfl).bind fun v => (related_checked S _).bind fun s =>
      (h rfl dependency s).bind fun normalized => S.pure _
  | mapLookup map key keyField valueField ih ih' =>
    simp only [fallible, Bool.or_eq_true, or_imp] at h
    rw [eval, eval]
    exact (ih' current h.2).bind fun key => (ih current h.1).bind fun map =>
      (related_checked S _).bind fun entries => related_checked S _
  | setContains set value ih ih' =>
    simp only [fallible, Bool.or_eq_true, or_imp] at h
    rw [eval, eval]
    exact (ih current h.1).bind fun set => (related_checked S _).bind fun values =>
      (ih' current h.2).bind fun value => (related_checked S _).bind fun b => S.pure _
  | finiteRange minimum maximum value ih =>
    rw [eval, eval]
    exact (ih current h).bind fun v => S.pure _
  | safeIntegerRange minimum maximum value ih ih' =>
    simp only [fallible, Bool.or_eq_true, or_imp] at h
    rw [eval, eval]
    exact (ih current h.1).bind fun limit => (related_checked S _).bind fun limit =>
      (ih' current h.2).bind fun v => S.pure _
  | lengthLteRef actual limit ih ih' =>
    simp only [fallible, Bool.or_eq_true, or_imp] at h
    rw [eval, eval]
    exact (ih current h.1).bind fun actual => (ih' current h.2).bind fun limit =>
      (related_checked S _).bind fun values => (related_checked S _).bind fun limit => S.pure _
  | uniqueBy collection name key ih ih' =>
    simp only [fallible, Bool.or_eq_true, or_imp] at h
    rw [eval, eval]
    exact (ih current h.1).bind fun v => (related_checked S _).bind fun items =>
      (uniqueLoop_related S (fun item => ih' _ h.2) items []).bind fun b => S.pure _
  | orderedScoreDescIdAsc collection name score id ih ih' ih'' =>
    simp only [fallible, Bool.or_eq_true, or_imp] at h
    rw [eval, eval]
    exact (ih current h.1.1).bind fun v => (related_checked S _).bind fun items =>
      (orderedLoop_related S (fun item => ih' _ h.1.2) (fun item => ih'' _ h.2) items none).bind
        fun b => S.pure _
  | forEach collection name predicate ih ih' =>
    simp only [fallible, Bool.or_eq_true, or_imp] at h
    rw [eval, eval]
    exact (ih current h.1).bind fun v => (related_checked S _).bind fun items =>
      (forEachLoop_related S (fun item => ih' _ h.2) items).bind fun b => S.pure _
  | rankIsIndexPlusOne collection name rank ih ih' =>
    simp only [fallible, Bool.or_eq_true, or_imp] at h
    rw [eval, eval]
    exact (ih current h.1).bind fun v => (related_checked S _).bind fun items =>
      (rankLoop_related S (fun item => ih' _ h.2) items 0).bind fun b => S.pure _

theorem evaluateAssertions_related : ∀ {assertions : List Expr},
    (∀ a ∈ assertions, fallible a = true → ∀ dependency value,
      S.Rel (normalizer dependency value) (plain dependency value)) →
      S.Rel (evaluateAssertions normalizer context assertions)
        (evaluateAssertions plain context assertions)
  | [], _ => S.pure _
  | assertion :: assertions, h => by
    rw [List.forall_mem_cons] at h
    rw [evaluateAssertions, evaluateAssertions]
    refine (eval_related S context assertion none h.1).bind fun v =>
      (related_checked S _).bind fun holds => ?_
    split
    · exact evaluateAssertions_related h.2
    · exact related_checked S _

/-- The two checks of an exchange come out alike. -/
theorem validateSemanticExchange_related (method : String) (request result : Value)
    (h : ∀ dependency value, S.Rel (normalizer dependency value) (plain dependency value)) :
    S.Rel (validateSemanticExchange method request result normalizer)
      (validateSemanticExchange method request result plain) := by
  rw [validateSemanticExchange, validateSemanticExchange]
  exact (related_checked S _).bind fun operation => (related_checked S _).bind fun _ =>
    (related_checked S _).bind fun _ =>
      (evaluateAssertions_related S _ fun _ _ _ => h).bind fun _ =>
        evaluateAssertions_related S _ fun _ _ _ => h

end AiraGraphdb.Native.Bounded
