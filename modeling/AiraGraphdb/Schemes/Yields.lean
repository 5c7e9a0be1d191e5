import Mathlib

/-! # What a partial computation yields

A computation in a monad that may also end without a value. `Yields may P x` says of its outcomes that
a value has `P`, and that there is none only if that may be. Computations are put together by `bind`,
so that what a program yields is shown along the program. -/

namespace Schemes

section Outcome

variable {α β : Type} {may : Prop} {P : α → Prop} {Q : β → Prop}

/-- An outcome that is as it should be. -/
def Outcome (may : Prop) (P : α → Prop) : Option α → Prop
  | some a => P a
  | none => may

@[simp] theorem outcome_some {a : α} : Outcome may P (some a) ↔ P a := Iff.rfl

@[simp] theorem outcome_none : Outcome may P none ↔ may := Iff.rfl

theorem Outcome.weaken {may' : Prop} {P' : α → Prop} {o : Option α} (h : Outcome may P o)
    (hmay : may → may') (hP : ∀ a, P a → P' a) : Outcome may' P' o := by
  cases o with
  | none => exact hmay h
  | some a => exact hP a h

/-- Nothing else may be. -/
theorem Outcome.sure {o : Option α} (h : Outcome may P o) (hmay : ¬ may) : ∃ a, o = some a ∧ P a := by
  cases o with
  | none => exact absurd h hmay
  | some a => exact ⟨a, rfl, h⟩

end Outcome

section Yields

variable {m : Type → Type} [Monad m] {α β : Type} {may : Prop} {P P' : α → Prop} {Q : β → Prop}
  {x : OptionT m α} {f : α → OptionT m β}

/-- The outcomes are drawn from those that are as they should be. -/
def Yields (may : Prop) (P : α → Prop) (x : OptionT m α) : Prop :=
  ∃ y : m { o : Option α // Outcome may P o }, x.run = Subtype.val <$> y

/-- What follows an outcome. -/
def follow (next : ∀ a, P a → m { o : Option β // Outcome may Q o }) :
    { o : Option α // Outcome may P o } → m { o : Option β // Outcome may Q o }
  | ⟨some a, h⟩ => next a h
  | ⟨none, h⟩ => pure ⟨none, h⟩

variable [LawfulMonad m]

theorem Yields.ofOption {o : Option α} (h : Outcome may P o) :
    Yields may P (OptionT.mk (pure o) : OptionT m α) :=
  ⟨pure ⟨o, h⟩, by rw [map_pure]; rfl⟩

theorem Yields.pure {a : α} (h : P a) : Yields may P (Pure.pure a : OptionT m α) :=
  ⟨Pure.pure ⟨some a, h⟩, by rw [map_pure]; rfl⟩

theorem Yields.bind (hx : Yields may P x) (hf : ∀ a, P a → Yields may Q (f a)) :
    Yields may Q (x >>= f) := by
  obtain ⟨y, hy⟩ := hx
  choose next hnext using hf
  refine ⟨y >>= follow next, ?_⟩
  rw [OptionT.run_bind, Option.elimM, hy, map_bind, bind_map_left]
  refine congrArg _ (funext fun o => ?_)
  obtain ⟨o, ho⟩ := o
  cases o with
  | none => exact (map_pure Subtype.val (⟨none, ho⟩ : { o // Outcome may Q o })).symm
  | some a => exact hnext a ho

theorem Yields.weaken {may' : Prop} (h : Yields may P x) (hmay : may → may')
    (hP : ∀ a, P a → P' a) : Yields may' P' x := by
  obtain ⟨y, hy⟩ := h
  refine ⟨(fun o => ⟨o.1, o.2.weaken hmay hP⟩) <$> y, ?_⟩
  rw [hy, Functor.map_map]

/-- A computation about which nothing is known. -/
theorem Yields.unknown (hmay : may) (x : OptionT m α) : Yields may (fun _ => True) x := by
  refine ⟨(fun o => ⟨o, ?_⟩) <$> x.run, ?_⟩
  · cases o with
    | none => exact hmay
    | some a => trivial
  · rw [Functor.map_map, id_map']

omit [LawfulMonad m] in
theorem Yields.run {x : OptionT Id α} (h : Yields may P x) : Outcome may P x.run := by
  obtain ⟨y, hy⟩ := h
  rw [hy]
  exact y.2

end Yields

section Settled

variable {m : Type → Type} [Monad m] {α β : Type}

/-- The computation is the plain one: it makes no use of the monad. -/
def Settled (x : OptionT m α) (y : OptionT Id α) : Prop := x.run = Pure.pure y.run

theorem Settled.pure (a : α) : Settled (Pure.pure a : OptionT m α) (Pure.pure a) := by
  rw [Settled, OptionT.run_pure, OptionT.run_pure]
  rfl

theorem Settled.ofOption (o : Option α) :
    Settled (OptionT.mk (Pure.pure o) : OptionT m α) (OptionT.mk (Pure.pure o)) := rfl

theorem Settled.bind [LawfulMonad m] {x : OptionT m α} {y : OptionT Id α} {f : α → OptionT m β}
    {g : α → OptionT Id β} (h : Settled x y) (hf : ∀ a, Settled (f a) (g a)) :
    Settled (x >>= f) (y >>= g) := by
  rw [Settled, OptionT.run_bind, OptionT.run_bind, Option.elimM, Option.elimM, h, pure_bind]
  rcases y.run with _ | a
  · rfl
  · exact hf a

/-- A plain computation step by step. -/
theorem run_bind_iff {x : OptionT Id α} {f : α → OptionT Id β} {b : β} :
    (x >>= f).run = some b ↔ ∃ a, x.run = some a ∧ (f a).run = some b := by
  rw [OptionT.run_bind, Option.elimM]
  rcases hx : x.run with _ | a
  · constructor
    · intro h
      cases h
    · rintro ⟨a, h, -⟩
      cases h
  · constructor
    · intro h
      exact ⟨a, rfl, h⟩
    · rintro ⟨a', h, hf⟩
      cases h
      exact hf

/-- A way to compare computations with plain ones that goes along with how they are put together. -/
structure Simulation (m : Type → Type) [Monad m] where
  Rel : ∀ {α : Type}, OptionT m α → OptionT Id α → Prop
  ofOption : ∀ {α : Type} (o : Option α), Rel (OptionT.mk (Pure.pure o)) (OptionT.mk (Pure.pure o))
  bind : ∀ {α β : Type} {x : OptionT m α} {y : OptionT Id α} {f : α → OptionT m β}
    {g : α → OptionT Id β}, Rel x y → (∀ a, Rel (f a) (g a)) → Rel (x >>= f) (y >>= g)

theorem Simulation.pure (S : Simulation m) (a : α) :
    S.Rel (Pure.pure a : OptionT m α) (Pure.pure a) := S.ofOption (some a)

theorem Simulation.Rel.bind {S : Simulation m} {x : OptionT m α} {y : OptionT Id α}
    {f : α → OptionT m β} {g : α → OptionT Id β} (h : S.Rel x y) (hf : ∀ a, S.Rel (f a) (g a)) :
    S.Rel (x >>= f) (y >>= g) := S.bind h hf

/-- The computations that make no use of the monad. -/
def Simulation.settled (m : Type → Type) [Monad m] [LawfulMonad m] : Simulation m :=
  ⟨Settled, Settled.ofOption, Settled.bind⟩

end Settled

end Schemes
