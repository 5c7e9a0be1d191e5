import Mathlib

/-! # Runs of a system and their histories

A system takes a state and an input to the next state and an output, or stops (`none`). A `Trace`
is a run with its history of inputs and outputs, oldest first; `Trace.invariant` is the induction
over it. Properties that speak about the past are stated on the history, with `Since` and
`Followed`, which only need their behaviour on one more event. -/

namespace Schemes

variable {σ ι ω α : Type*}

/-- An event at the end of a history is the last one or one of those before. -/
theorem snoc_eq_iff {h h₁ h₂ : List α} {e d : α} :
    h ++ [d] = h₁ ++ e :: h₂ ↔
      (h = h₁ ∧ d = e ∧ h₂ = []) ∨ ∃ h₂', h = h₁ ++ e :: h₂' ∧ h₂ = h₂' ++ [d] := by
  constructor
  · intro he
    rcases List.eq_nil_or_concat h₂ with rfl | ⟨h₂', f, rfl⟩
    · obtain ⟨rfl, hl⟩ := List.append_inj' he rfl
      exact .inl ⟨rfl, List.singleton_inj.mp hl, rfl⟩
    · rw [List.concat_eq_append, ← List.cons_append, ← List.append_assoc] at he
      obtain ⟨rfl, hl⟩ := List.append_inj' he rfl
      exact .inr ⟨h₂', rfl, by rw [List.concat_eq_append, hl]⟩
  · rintro (⟨rfl, rfl, rfl⟩ | ⟨h₂', rfl, rfl⟩) <;> simp

/-- `Trace step s₀ h s`: the run with history `h` leads from `s₀` to `s`. -/
inductive Trace (step : σ → ι → Option (σ × ω)) (s₀ : σ) : List (ι × ω) → σ → Prop
  | nil : Trace step s₀ [] s₀
  | snoc {h s i o s'} (t : Trace step s₀ h s) (hs : step s i = some (s', o)) :
      Trace step s₀ (h ++ [(i, o)]) s'

/-- What holds at the start and is kept by every step holds after every run. -/
theorem Trace.invariant {step : σ → ι → Option (σ × ω)} {s₀ : σ}
    {P : List (ι × ω) → σ → Prop} (h0 : P [] s₀)
    (hstep : ∀ h s i o s', P h s → step s i = some (s', o) → P (h ++ [(i, o)]) s')
    {h : List (ι × ω)} {s : σ} (t : Trace step s₀ h s) : P h s := by
  induction t with
  | nil => exact h0
  | snoc _ hs ih => exact hstep _ _ _ _ _ ih hs

/-- A run may go on. -/
theorem Trace.append {step : σ → ι → Option (σ × ω)} {s₀ s s' : σ} {h h' : List (ι × ω)}
    (t : Trace step s₀ h s) (t' : Trace step s h' s') : Trace step s₀ (h ++ h') s' := by
  induction t' with
  | nil =>
    rw [List.append_nil]
    exact t
  | snoc _ hs ih =>
    rw [← List.append_assoc]
    exact ih.snoc hs

/-- A run can be cut at any event: it led to a state from which the event was a step. -/
theorem Trace.split {step : σ → ι → Option (σ × ω)} {s₀ s : σ} {h : List (ι × ω)}
    (t : Trace step s₀ h s) : ∀ {h₁ h₂ i o}, h = h₁ ++ (i, o) :: h₂ →
      ∃ s₁ s₂, Trace step s₀ h₁ s₁ ∧ step s₁ i = some (s₂, o) := by
  induction t with
  | nil => intro h₁ h₂ i o he; simp at he
  | @snoc h s j p s' t hs ih =>
    intro h₁ h₂ i o he
    rcases snoc_eq_iff.mp he with ⟨rfl, hd, rfl⟩ | ⟨h₂', rfl, rfl⟩
    · obtain ⟨rfl, rfl⟩ := Prod.mk.inj hd
      exact ⟨s, s', t, hs⟩
    · exact ih rfl

/-- The inputs one after another, as long as the system does not stop. -/
def steps (step : σ → ι → Option (σ × ω)) (s : σ) : List ι → Option σ
  | [] => some s
  | i :: inputs => match step s i with
    | some (s', _) => steps step s' inputs
    | none => none

/-- What is executed is a run. -/
theorem Trace.of_steps {step : σ → ι → Option (σ × ω)} {s₀ t : σ} {inputs : List ι} :
    ∀ {s : σ} {h : List (ι × ω)}, Trace step s₀ h s → steps step s inputs = some t →
      ∃ h', h'.map Prod.fst = h.map Prod.fst ++ inputs ∧ Trace step s₀ h' t := by
  induction inputs with
  | nil =>
    intro s h run hsteps
    cases hsteps
    exact ⟨h, by simp, run⟩
  | cons i inputs ih =>
    intro s h run hsteps
    rw [steps] at hsteps
    split at hsteps
    · next s' o hstep =>
      obtain ⟨h', heq, run'⟩ := ih (run.snoc hstep) hsteps
      exact ⟨h', by rw [heq]; simp, run'⟩
    · cases hsteps

/-! ### Properties of a history -/

/-- There was an event `p`, and every event after it satisfies `q`. -/
def Since (p q : α → Prop) (h : List α) : Prop :=
  ∃ h₁ e h₂, h = h₁ ++ e :: h₂ ∧ p e ∧ ∀ d ∈ h₂, q d

/-- There was an event `p`, and some event after it satisfies `q`. -/
def Followed (p q : α → Prop) (h : List α) : Prop :=
  ∃ h₁ e h₂, h = h₁ ++ e :: h₂ ∧ p e ∧ ∃ d ∈ h₂, q d

@[simp] theorem since_nil (p q : α → Prop) : ¬ Since p q [] := by
  rintro ⟨h₁, e, h₂, he, -⟩
  simp at he

@[simp] theorem followed_nil (p q : α → Prop) : ¬ Followed p q [] := by
  rintro ⟨h₁, e, h₂, he, -⟩
  simp at he

theorem since_snoc {p q : α → Prop} {h : List α} {d : α} :
    Since p q (h ++ [d]) ↔ p d ∨ (Since p q h ∧ q d) := by
  constructor
  · rintro ⟨h₁, e, h₂, he, hp, hq⟩
    rcases snoc_eq_iff.mp he with ⟨rfl, rfl, rfl⟩ | ⟨h₂', rfl, rfl⟩
    · exact .inl hp
    · exact .inr ⟨⟨h₁, e, h₂', rfl, hp, fun d hd => hq d (by simp [hd])⟩, hq d (by simp)⟩
  · rintro (hp | ⟨⟨h₁, e, h₂, rfl, hp, hq⟩, hd⟩)
    · exact ⟨h, d, [], rfl, hp, by simp⟩
    · refine ⟨h₁, e, h₂ ++ [d], by simp, hp, fun c hc => ?_⟩
      rcases List.mem_append.mp hc with hc | hc
      · exact hq c hc
      · rwa [List.mem_singleton.mp hc]

theorem followed_snoc {p q : α → Prop} {h : List α} {d : α} :
    Followed p q (h ++ [d]) ↔ Followed p q h ∨ ((∃ e ∈ h, p e) ∧ q d) := by
  constructor
  · rintro ⟨h₁, e, h₂, he, hp, c, hc, hq⟩
    rcases snoc_eq_iff.mp he with ⟨rfl, rfl, rfl⟩ | ⟨h₂', rfl, rfl⟩
    · simp at hc
    · rcases List.mem_append.mp hc with hc | hc
      · exact .inl ⟨h₁, e, h₂', rfl, hp, c, hc, hq⟩
      · exact .inr ⟨⟨e, by simp, hp⟩, List.mem_singleton.mp hc ▸ hq⟩
  · rintro (⟨h₁, e, h₂, rfl, hp, c, hc, hq⟩ | ⟨⟨e, he, hp⟩, hq⟩)
    · exact ⟨h₁, e, h₂ ++ [d], by simp, hp, c, by simp [hc], hq⟩
    · obtain ⟨h₁, h₂, rfl⟩ := List.mem_iff_append.mp he
      exact ⟨h₁, e, h₂ ++ [d], by simp, hp, d, by simp, hq⟩

end Schemes
