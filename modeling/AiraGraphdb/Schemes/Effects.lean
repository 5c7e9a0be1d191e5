import Mathlib

/-! # Operations as ordered effects

An operation that touches files is the list of its effects in the order in which it does them. A
process that is killed, or an operation that gives up on an error, leaves the effects of a prefix
of the list: `after apply k es s`. -/

namespace Schemes

variable {σ ε : Type} (apply : σ → ε → σ)

/-- The state once the first `k` effects are done. -/
def after (k : ℕ) (es : List ε) (s : σ) : σ := (es.take k).foldl apply s

/-- The state once every effect is done. -/
def done (es : List ε) (s : σ) : σ := es.foldl apply s

@[simp] theorem after_zero (es : List ε) (s : σ) : after apply 0 es s = s := rfl

@[simp] theorem after_nil (k : ℕ) (s : σ) : after apply k [] s = s := by simp [after]

@[simp] theorem after_succ_cons (k : ℕ) (e : ε) (es : List ε) (s : σ) :
    after apply (k + 1) (e :: es) s = after apply k es (apply s e) := rfl

@[simp] theorem done_cons (e : ε) (es : List ε) (s : σ) :
    done apply (e :: es) s = done apply es (apply s e) := rfl

theorem after_eq_done_take (k : ℕ) (es : List ε) (s : σ) :
    after apply k es s = done apply (es.take k) s := rfl

theorem after_of_length_le {k : ℕ} {es : List ε} (h : es.length ≤ k) (s : σ) :
    after apply k es s = done apply es s := by
  rw [after, List.take_of_length_le h, done]

/-- A stop inside the first of two groups of effects. -/
theorem after_append_left {k : ℕ} {es : List ε} (h : k ≤ es.length) (fs : List ε) (s : σ) :
    after apply k (es ++ fs) s = after apply k es s := by
  rw [after, List.take_append_of_le_length h, after]

/-- A stop inside the second of two groups of effects. -/
theorem after_append_right (k : ℕ) (es fs : List ε) (s : σ) :
    after apply (es.length + k) (es ++ fs) s = after apply k fs (done apply es s) := by
  rw [after, List.take_length_add_append, List.foldl_append, after, done]

end Schemes
