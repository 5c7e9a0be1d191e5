import Mathlib

/-! # Calls that ask for buffers

A call asks the allocator for buffers and ends in one of three ways: it returns, it panics, or the
allocator has no room and the process is aborted. The allocator is a parameter: which lengths it
serves. -/

namespace Schemes

variable {α β : Type}

/-- How a call ends. -/
inductive Ending (α : Type) where
  | returned (a : α)
  | panicked
  | aborted
  deriving DecidableEq, Repr

/-- The lengths of the buffers that were asked for, in their order, and the ending. -/
structure Call (α : Type) where
  requests : List ℕ
  ending : Ending α
  deriving DecidableEq, Repr

namespace Call

/-- What comes after a call happens only if the call returns. -/
def bind (x : Call α) (f : α → Call β) : Call β :=
  match x.ending with
  | .returned a => ⟨x.requests ++ (f a).requests, (f a).ending⟩
  | .panicked => ⟨x.requests, .panicked⟩
  | .aborted => ⟨x.requests, .aborted⟩

instance : Monad Call where
  pure a := ⟨[], .returned a⟩
  bind := bind

def panic : Call α := ⟨[], .panicked⟩

theorem bind_def (x : Call α) (f : α → Call β) : x >>= f = x.bind f := rfl

@[simp] theorem pure_requests (a : α) : (pure a : Call α).requests = [] := rfl

@[simp] theorem pure_ending (a : α) : (pure a : Call α).ending = .returned a := rfl

@[simp] theorem pure_bind (a : α) (f : α → Call β) : (pure a >>= f) = f a := rfl

/-- The call returns. -/
def Returns (x : Call α) : Prop := ∃ a, x.ending = .returned a

@[simp] theorem returns_pure (a : α) : (pure a : Call α).Returns := ⟨a, rfl⟩

/-! ### Buffers -/

/-- The longest buffer there can be, `isize::MAX` on a machine of 64 bits. -/
def isizeMax : ℕ := 2 ^ 63 - 1

/-- A buffer of `n` zeroes, `vec![0_u8; n]`. Its content is left out: a caller that reads into the
buffer overwrites it, or drops it. -/
def zeroed (allocates : ℕ → Bool) (n : ℕ) : Call Unit :=
  ⟨[n], if isizeMax < n then .panicked else if allocates n then .returned () else .aborted⟩

/-- The buffer is one that can be had. -/
def Grants (allocates : ℕ → Bool) (n : ℕ) : Prop := n ≤ isizeMax ∧ allocates n = true

variable {allocates : ℕ → Bool} {n : ℕ}

/-- A buffer that is granted is noted, and the call goes on. -/
theorem zeroed_bind (h : Grants allocates n) (f : Unit → Call β) :
    (zeroed allocates n >>= f) = ⟨n :: (f ()).requests, (f ()).ending⟩ := by
  obtain ⟨hmax, hserved⟩ := h
  simp [bind_def, bind, zeroed, Nat.not_lt.mpr hmax, hserved]

/-- A buffer that is not granted ends the call. -/
theorem not_returns_zeroed_bind (h : ¬ Grants allocates n) (f : Unit → Call β) :
    ¬ (zeroed allocates n >>= f).Returns := by
  rw [bind_def, bind, zeroed]
  by_cases hmax : isizeMax < n
  · simp [hmax, Returns]
  · have hserved : allocates n = false := by simpa [Grants, Nat.not_lt.mp hmax] using h
    simp [hmax, hserved, Returns]

/-- A call that asks for a buffer first returns what the rest does, when the buffer is granted. -/
theorem zeroed_bind_returned {f : Unit → Call β} {b : β} :
    (zeroed allocates n >>= f).ending = .returned b ↔
      Grants allocates n ∧ (f ()).ending = .returned b := by
  by_cases h : Grants allocates n
  · simp [zeroed_bind h, h]
  · exact iff_of_false (fun hb => not_returns_zeroed_bind h f ⟨b, hb⟩) fun hb => h hb.1

theorem returns_zeroed_bind {f : Unit → Call β} :
    (zeroed allocates n >>= f).Returns ↔ Grants allocates n ∧ (f ()).Returns := by
  simp [Returns, zeroed_bind_returned]

/-! ### Slices -/

/-- `&raw[start..stop]`. -/
def slice (raw : List α) (start stop : ℕ) : Call (List α) :=
  if start ≤ stop ∧ stop ≤ raw.length then pure ((raw.drop start).take (stop - start)) else panic

/-- A slice whose length is taken to be `n`. -/
def expectLength (n : ℕ) (xs : List α) : Call (List α) := if xs.length = n then pure xs else panic

theorem slice_of_le {raw : List α} {start stop : ℕ} (h : start ≤ stop) (hstop : stop ≤ raw.length) :
    slice raw start stop = pure ((raw.drop start).take (stop - start)) := if_pos ⟨h, hstop⟩

end Call

end Schemes
