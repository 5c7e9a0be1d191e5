import Mathlib

/-! # Results and the chains they are built in

A chain of fallible steps has succeeded when every step has. These lemmas take a chain apart: what
it was given by its parts, what a pass over a list has made of every item, and what a fold over a
list keeps. -/

namespace Schemes

variable {ε α β γ : Type}

theorem bind_ok {x : Except ε α} {f : α → Except ε β} {b : β} :
    (x >>= f) = .ok b ↔ ∃ a, x = .ok a ∧ f a = .ok b := by
  rcases x with e | a
  · simp [bind, Except.bind]
  · simp [bind, Except.bind]

theorem exists_ok {x : Except ε α} (h : x.isOk = true) : ∃ a, x = .ok a := by
  rcases x with e | a
  · cases h
  · exact ⟨a, rfl⟩

theorem bind_error {x : Except ε α} {f : α → Except ε β} {e : ε} :
    (x >>= f) = .error e ↔ x = .error e ∨ ∃ a, x = .ok a ∧ f a = .error e := by
  rcases x with e' | a
  · simp [bind, Except.bind]
  · simp [bind, Except.bind]

theorem map_ok {x : Except ε α} {f : α → β} {b : β} :
    x.map f = .ok b ↔ ∃ a, x = .ok a ∧ f a = b := by
  rcases x with e | a
  · simp [Except.map]
  · simp [Except.map]

/-- A check: what has to hold, and the error when it does not. -/
def ensure (p : Prop) [Decidable p] (e : ε) : Except ε Unit := if p then .ok () else .error e

@[simp] theorem ensure_ok {p : Prop} [Decidable p] {e : ε} {u : Unit} :
    ensure p e = .ok u ↔ p := by
  by_cases h : p <;> simp [ensure, h]

/-- What has to be there, and the error when it is not. -/
def ofOption (x : Option α) (e : ε) : Except ε α :=
  match x with
  | some a => .ok a
  | none => .error e

@[simp] theorem ofOption_ok {x : Option α} {e : ε} {a : α} :
    ofOption x e = .ok a ↔ x = some a := by
  rcases x with _ | b <;> simp [ofOption]

/-- A pass over a list has made something of every item. -/
theorem mapM_ok {f : α → Except ε β} : ∀ {xs : List α} {ys : List β},
    xs.mapM f = .ok ys ↔ List.Forall₂ (fun x y => f x = .ok y) xs ys
  | [], ys => by
    constructor
    · intro h
      cases h
      exact .nil
    · intro h
      cases h
      rfl
  | x :: xs, ys => by
    rw [List.mapM_cons, bind_ok]
    constructor
    · rintro ⟨y, hy, h⟩
      obtain ⟨zs, hzs, h⟩ := bind_ok.mp h
      cases h
      exact .cons hy (mapM_ok.mp hzs)
    · intro h
      obtain ⟨y, zs, hy, hzs, rfl⟩ := List.forall₂_cons_left_iff.mp h
      exact ⟨y, hy, bind_ok.mpr ⟨zs, mapM_ok.mpr hzs, rfl⟩⟩

/-- Where every item of a pass came from. -/
theorem exists_of_mapM_ok {f : α → Except ε β} {xs : List α} {ys : List β} {y : β}
    (h : xs.mapM f = .ok ys) (hy : y ∈ ys) : ∃ x ∈ xs, f x = .ok y := by
  have hf := mapM_ok.mp h
  induction hf with
  | nil => cases hy
  | cons hxy _ ih =>
    rcases List.mem_cons.mp hy with rfl | hy
    · exact ⟨_, by simp, hxy⟩
    · obtain ⟨x, hx, hxy⟩ := ih (mapM_ok.mpr (by assumption)) hy
      exact ⟨x, by simp [hx], hxy⟩

theorem bind_exists_ok {x : Except ε α} {f : α → Except ε β} (hx : ∃ a, x = .ok a)
    (hf : ∀ a, ∃ b, f a = .ok b) : ∃ b, x >>= f = .ok b := by
  obtain ⟨a, rfl⟩ := hx
  exact hf a

/-- A pass over a list goes through when every one of its steps does. -/
theorem mapM_of_ok {f : α → Except ε β} {xs : List α} (h : ∀ x ∈ xs, ∃ y, f x = .ok y) :
    ∃ ys, xs.mapM f = .ok ys := by
  induction xs with
  | nil => exact ⟨[], rfl⟩
  | cons x xs ih =>
    obtain ⟨y, hy⟩ := h x (by simp)
    obtain ⟨ys, hys⟩ := ih fun x hx => h x (List.mem_cons_of_mem _ hx)
    exact ⟨y :: ys, by rw [List.mapM_cons, hy, hys]; rfl⟩

/-- What every step of a fold keeps is kept by the fold. -/
theorem foldl_keeps {f : β → α → β} {P : β → Prop} {xs : List α} {b : β} (hb : P b)
    (hf : ∀ b, ∀ x ∈ xs, P b → P (f b x)) : P (xs.foldl f b) := by
  induction xs generalizing b with
  | nil => exact hb
  | cons x xs ih =>
    exact ih (hf b x (by simp) hb) fun b y hy => hf b y (by simp [hy])

/-- A fold over a list fails at an item where each step does. -/
theorem foldlM_fails {f : β → α → Except ε β} {xs : List α} {x : α} (hx : x ∈ xs)
    (h : ∀ b, ∃ e, f b x = .error e) (b : β) : ∃ e, xs.foldlM f b = .error e := by
  induction xs generalizing b with
  | nil => cases hx
  | cons y xs ih =>
    rw [List.foldlM_cons]
    rcases hy : f b y with e | c
    · exact ⟨e, rfl⟩
    · rcases List.mem_cons.mp hx with rfl | hx
      · obtain ⟨e, he⟩ := h b
        rw [hy] at he
        cases he
      · exact ih hx c

theorem foldlM_keeps {f : β → α → Except ε β} {P : β → Prop} {xs : List α} {b c : β}
    (hb : P b) (hf : ∀ b c, ∀ x ∈ xs, P b → f b x = .ok c → P c)
    (h : xs.foldlM f b = .ok c) : P c := by
  induction xs generalizing b with
  | nil =>
    cases h
    exact hb
  | cons x xs ih =>
    rw [List.foldlM_cons] at h
    obtain ⟨d, hd, h⟩ := bind_ok.mp h
    exact ih (hf b d x (by simp) hb hd) (fun b c y hy => hf b c y (by simp [hy])) h

/-- A fold fails as one of its steps does. -/
theorem foldlM_error {f : β → α → Except ε β} {P : ε → Prop} {xs : List α} {b : β} {e : ε}
    (hf : ∀ b a e, f b a = .error e → P e) (h : xs.foldlM f b = .error e) : P e := by
  induction xs generalizing b with
  | nil => cases h
  | cons x xs ih =>
    rw [List.foldlM_cons, bind_error] at h
    rcases h with h | ⟨c, -, h⟩
    · exact hf b x e h
    · exact ih h

/-- A fold step by step, with what is done so far. -/
theorem foldlM_induct {f : β → α → Except ε β} {I : List α → β → Prop} {xs : List α} {b c : β}
    (hb : I [] b) (hf : ∀ done x b c, x ∈ xs → I done b → f b x = .ok c → I (done ++ [x]) c)
    (h : xs.foldlM f b = .ok c) : I xs c := by
  have key : ∀ (rest done : List α) (b : β), (∀ x ∈ rest, x ∈ xs) → I done b →
      rest.foldlM f b = .ok c → I (done ++ rest) c := by
    intro rest
    induction rest with
    | nil =>
      intro done b _ hI h
      cases h
      rwa [List.append_nil]
    | cons x rest ih =>
      intro done b hsub hI h
      rw [List.foldlM_cons] at h
      obtain ⟨d, hd, h⟩ := bind_ok.mp h
      have := ih (done ++ [x]) d (fun y hy => hsub y (by simp [hy]))
        (hf done x b d (hsub x (by simp)) hI hd) h
      rwa [List.append_assoc] at this
  exact key xs [] b (fun _ hx => hx) hb h

/-- A fold goes through when every step does that comes after the ones before it. -/
theorem foldlM_of_ok {f : β → α → Except ε β} {I : List α → β → Prop} {xs : List α} {b : β}
    (hb : I [] b) (hf : ∀ done x rest b, xs = done ++ x :: rest → I done b →
      ∃ c, f b x = .ok c ∧ I (done ++ [x]) c) : ∃ c, xs.foldlM f b = .ok c ∧ I xs c := by
  have key : ∀ (rest done : List α) (b : β), xs = done ++ rest → I done b →
      ∃ c, rest.foldlM f b = .ok c ∧ I xs c := by
    intro rest
    induction rest with
    | nil =>
      intro done b hx hI
      exact ⟨b, rfl, by rwa [hx, List.append_nil]⟩
    | cons x rest ih =>
      intro done b hx hI
      obtain ⟨c, hc, hI⟩ := hf done x rest b hx hI
      rw [List.foldlM_cons, hc]
      exact ih (done ++ [x]) c (by simp [hx]) hI
  exact key xs [] b rfl hb

end Schemes
