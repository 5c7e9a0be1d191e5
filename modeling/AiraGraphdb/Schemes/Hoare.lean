import Mathlib

/-! # Computations on a state that can fail, and what they meet

`Meets P r Q E` says that `r`, started in a state that satisfies `P`, ends with a value and a state
that satisfy `Q`, or fails with an error that satisfies `E`. There is a rule for each way of
composing computations; the one for loops takes an invariant over the part of the list that is
done. -/

namespace Schemes

variable {σ ε α β : Type}

abbrev Proc (σ ε α : Type) := StateT σ (Except ε) α

namespace Proc

def fail (e : σ → ε) : Proc σ ε α := fun s => .error (e s)

def change (f : σ → σ) : Proc σ ε Unit := fun s => .ok ((), f s)

/-- The value of an option, or an error. -/
def ofOption (x : Option α) (e : σ → ε) : Proc σ ε α :=
  match x with
  | some a => pure a
  | none => fail e

/-- A computation that needs no state. -/
def ofExcept (x : Except ε α) : Proc σ ε α := fun s => x.map fun a => (a, s)

def ensure (p : Prop) [Decidable p] (e : σ → ε) : Proc σ ε Unit := if p then pure () else fail e

theorem bind_apply (r : Proc σ ε α) (f : α → Proc σ ε β) (s : σ) :
    (r >>= f) s = match r s with
      | .ok (a, s') => f a s'
      | .error e => .error e := by
  show StateT.bind r f s = _
  rw [StateT.bind]
  rcases r s with e | ⟨a, s'⟩ <;> rfl

@[simp] theorem pure_apply (a : α) (s : σ) : (pure a : Proc σ ε α) s = .ok (a, s) := rfl

@[simp] theorem fail_apply (e : σ → ε) (s : σ) : (fail e : Proc σ ε α) s = .error (e s) := rfl

@[simp] theorem fail_bind (e : σ → ε) (f : α → Proc σ ε β) : (fail e >>= f) = fail e := by
  funext s
  rw [bind_apply]
  rfl

end Proc

def Meets (P : σ → Prop) (r : Proc σ ε α) (Q : α → σ → Prop) (E : ε → Prop) : Prop :=
  ∀ s, P s → match r s with
    | .ok (a, s') => Q a s'
    | .error e => E e

namespace Meets

variable {P P' : σ → Prop} {Q Q' : α → σ → Prop} {R : β → σ → Prop} {E E' : ε → Prop}

theorem ok {r : Proc σ ε α} (h : Meets P r Q E) {s s' : σ} {a : α} (hs : P s)
    (hr : r s = .ok (a, s')) : Q a s' := by
  have := h s hs
  rwa [hr] at this

theorem error {r : Proc σ ε α} (h : Meets P r Q E) {s : σ} {e : ε} (hs : P s)
    (hr : r s = .error e) : E e := by
  have := h s hs
  rwa [hr] at this

theorem imp {r : Proc σ ε α} (h : Meets P r Q E) (hp : ∀ s, P' s → P s)
    (hq : ∀ a s, Q a s → Q' a s) (he : ∀ e, E e → E' e) : Meets P' r Q' E' := by
  intro s hs
  have := h s (hp s hs)
  rcases hr : r s with e | ⟨a, s'⟩ <;> rw [hr] at this
  · exact he e this
  · exact hq a s' this

theorem pre {r : Proc σ ε α} (h : Meets P r Q E) (hp : ∀ s, P' s → P s) : Meets P' r Q E :=
  h.imp hp (fun _ _ hq => hq) fun _ he => he

theorem post {r : Proc σ ε α} (h : Meets P r Q E) (hq : ∀ a s, Q a s → Q' a s) : Meets P r Q' E :=
  h.imp (fun _ hs => hs) hq fun _ he => he

theorem error_imp {r : Proc σ ε α} (h : Meets P r Q E) (he : ∀ e, E e → E' e) : Meets P r Q E' :=
  h.imp (fun _ hs => hs) (fun _ _ hq => hq) he

theorem pure {a : α} (h : ∀ s, P s → Q a s) : Meets P (pure a : Proc σ ε α) Q E := h

theorem fail {e : σ → ε} (h : ∀ s, P s → E (e s)) : Meets P (Proc.fail e : Proc σ ε α) Q E := h

theorem change {f : σ → σ} {Q : Unit → σ → Prop} (h : ∀ s, P s → Q () (f s)) :
    Meets P (Proc.change f : Proc σ ε Unit) Q E := h

theorem bind {r : Proc σ ε α} {f : α → Proc σ ε β} (h : Meets P r Q E)
    (hf : ∀ a, Meets (Q a) (f a) R E) : Meets P (r >>= f) R E := by
  intro s hs
  have := h s hs
  rw [Proc.bind_apply]
  rcases hr : r s with e | ⟨a, s'⟩ <;> rw [hr] at this
  · exact this
  · exact hf a s' this

theorem get : Meets P (MonadState.get : Proc σ ε σ) (fun a s => a = s ∧ P s) E :=
  fun _ hs => ⟨rfl, hs⟩

theorem ofOption {x : Option α} {e : σ → ε} (hq : ∀ a, x = some a → ∀ s, P s → Q a s)
    (he : x = none → ∀ s, P s → E (e s)) : Meets P (Proc.ofOption x e) Q E := by
  rcases hx : x with _ | a
  · exact he hx
  · exact hq a hx

theorem ofExcept {x : Except ε α} (hq : ∀ a, x = .ok a → ∀ s, P s → Q a s)
    (he : ∀ e, x = .error e → E e) : Meets P (Proc.ofExcept x : Proc σ ε α) Q E := by
  intro s hs
  rcases hx : x with e | a
  · exact he e hx
  · exact hq a hx s hs

theorem ensure {p : Prop} [Decidable p] {e : σ → ε} {Q : Unit → σ → Prop}
    (hq : p → ∀ s, P s → Q () s) (he : ¬ p → ∀ s, P s → E (e s)) :
    Meets P (Proc.ensure p e) Q E := by
  rw [Proc.ensure]
  split
  · rename_i hp
    exact hq hp
  · rename_i hp
    exact he hp

/-- A fact that needs no state is used before the computation starts. -/
theorem of_fact {p : Prop} {r : Proc σ ε α} (h : p → Meets P r Q E) :
    Meets (fun s => p ∧ P s) r Q E :=
  fun s hs => h hs.1 s hs.2

/-- A loop keeps what each of its steps keeps. -/
theorem foldlM {f : β → α → Proc σ ε β} {I : List α → β → σ → Prop} {xs : List α}
    (h : ∀ (done : List α) (x : α) (rest : List α), xs = done ++ x :: rest → ∀ b,
      Meets (I done b) (f b x) (I (done ++ [x])) E) (b : β) :
    Meets (I [] b) (xs.foldlM f b) (I xs) E := by
  have key : ∀ (rest done : List α), xs = done ++ rest → ∀ b,
      Meets (I done b) (rest.foldlM f b) (I xs) E := by
    intro rest
    induction rest with
    | nil =>
      intro done hx b
      obtain rfl : xs = done := by simpa using hx
      exact Meets.pure fun s hs => hs
    | cons x rest ih =>
      intro done hx b
      rw [List.foldlM_cons]
      exact (h done x rest hx b).bind fun b => ih (done ++ [x]) (by simp [hx]) b
  exact key xs [] rfl b

theorem forM {f : α → Proc σ ε PUnit} {I : List α → σ → Prop} {xs : List α}
    (h : ∀ (done : List α) (x : α) (rest : List α), xs = done ++ x :: rest →
      Meets (I done) (f x) (fun _ => I (done ++ [x])) E) :
    Meets (I []) (forM xs f) (fun _ => I xs) E := by
  have key : ∀ (rest done : List α), xs = done ++ rest →
      Meets (I done) (ForM.forM rest f) (fun _ => I xs) E := by
    intro rest
    induction rest with
    | nil =>
      intro done hx
      obtain rfl : xs = done := by simpa using hx
      exact Meets.pure fun s hs => hs
    | cons x rest ih =>
      intro done hx
      rw [List.forM_cons]
      exact (h done x rest hx).bind fun _ => ih (done ++ [x]) (by simp [hx])
  exact key xs [] rfl

/-- A pass over a list makes something of every item. -/
theorem mapM {f : α → Proc σ ε β} {I : List α → σ → Prop} {R : α → β → Prop} {xs : List α}
    (h : ∀ (done : List α) (x : α) (rest : List α), xs = done ++ x :: rest →
      Meets (I done) (f x) (fun y s => R x y ∧ I (done ++ [x]) s) E) :
    Meets (I []) (xs.mapM f) (fun ys s => List.Forall₂ R xs ys ∧ I xs s) E := by
  have key : ∀ (rest done : List α), xs = done ++ rest →
      Meets (I done) (rest.mapM f) (fun ys s => List.Forall₂ R rest ys ∧ I xs s) E := by
    intro rest
    induction rest with
    | nil =>
      intro done hx
      obtain rfl : xs = done := by simpa using hx
      exact Meets.pure fun s hs => ⟨.nil, hs⟩
    | cons x rest ih =>
      intro done hx
      rw [List.mapM_cons]
      refine (h done x rest hx).bind fun y => Meets.of_fact fun hy => ?_
      refine (ih (done ++ [x]) (by simp [hx])).bind fun ys => Meets.of_fact fun hys => ?_
      exact Meets.pure fun s hs => ⟨.cons hy hys, hs⟩
  exact key xs [] rfl

end Meets

end Schemes
