import AiraGraphdb.Schemes.Json.Access

/-! # Equality of values

Numbers are equal as they are written, except that the two zeros among the doubles are equal. So equal
values need not be the same, but equality is symmetric and transitive. -/

namespace Schemes.Json

theorem Number.beq_comm (a b : Number) : a.beq b = b.beq a := by
  cases a <;> cases b <;> simp only [Number.beq]
  · exact Bool.beq_comm
  · exact Bool.beq_comm
  · rw [Bool.and_comm]
    exact congrArg (· || _) Bool.beq_comm

theorem Number.beq_trans {a b c : Number} (h : a.beq b = true) (h' : b.beq c = true) :
    a.beq c = true := by
  cases a <;> cases b <;> simp only [Number.beq, Bool.false_eq_true] at h <;>
    cases c <;> simp only [Number.beq, Bool.false_eq_true] at h' ⊢
  · rw [beq_iff_eq] at h h' ⊢
    exact h.trans h'
  · rw [beq_iff_eq] at h h' ⊢
    exact h.trans h'
  · simp only [Bool.or_eq_true, Bool.and_eq_true, beq_iff_eq] at h h' ⊢
    rcases h with rfl | ⟨ha, hb⟩
    · exact h'
    · rcases h' with rfl | ⟨-, hc⟩
      · exact .inr ⟨ha, hb⟩
      · exact .inr ⟨ha, hc⟩

mutual

theorem Value.beq_comm : ∀ a b : Value, a.beq b = b.beq a
  | .null, b => by cases b <;> simp only [Value.beq]
  | .bool x, b => by
    cases b <;> simp only [Value.beq]
    exact Bool.beq_comm
  | .num m, b => by
    cases b <;> simp only [Value.beq]
    exact m.beq_comm _
  | .str s, b => by
    cases b <;> simp only [Value.beq]
    exact Bool.beq_comm
  | .arr as, b => by
    cases b <;> simp only [Value.beq]
    exact beqItems_comm as _
  | .obj as, b => by
    cases b <;> simp only [Value.beq]
    exact beqMembers_comm as _

theorem beqItems_comm : ∀ as bs : List Value, beqItems as bs = beqItems bs as
  | [], bs => by cases bs <;> simp only [beqItems]
  | a :: as, bs => by
    cases bs with
    | nil => simp only [beqItems]
    | cons b bs => rw [beqItems, beqItems, Value.beq_comm a b, beqItems_comm as bs]

theorem beqMembers_comm : ∀ as bs : List (String × Value), beqMembers as bs = beqMembers bs as
  | [], bs => by cases bs <;> simp only [beqMembers]
  | (k, a) :: as, bs => by
    cases bs with
    | nil => simp only [beqMembers]
    | cons m bs =>
      rw [beqMembers, beqMembers, Value.beq_comm a m.2, beqMembers_comm as bs, Bool.beq_comm]

end

mutual

theorem Value.beq_trans : ∀ {a b c : Value}, a.beq b = true → b.beq c = true → a.beq c = true
  | .null, b, c, h, h' => by
    cases b <;> simp only [Value.beq, Bool.false_eq_true] at h
    exact h'
  | .bool x, b, c, h, h' => by
    cases b <;> simp only [Value.beq, Bool.false_eq_true] at h
    rw [beq_iff_eq] at h
    exact h ▸ h'
  | .num m, b, c, h, h' => by
    cases b <;> simp only [Value.beq, Bool.false_eq_true] at h
    cases c <;> simp only [Value.beq, Bool.false_eq_true] at h' ⊢
    exact Number.beq_trans h h'
  | .str s, b, c, h, h' => by
    cases b <;> simp only [Value.beq, Bool.false_eq_true] at h
    rw [beq_iff_eq] at h
    exact h ▸ h'
  | .arr as, b, c, h, h' => by
    cases b <;> simp only [Value.beq, Bool.false_eq_true] at h
    cases c <;> simp only [Value.beq, Bool.false_eq_true] at h' ⊢
    exact beqItems_trans h h'
  | .obj as, b, c, h, h' => by
    cases b <;> simp only [Value.beq, Bool.false_eq_true] at h
    cases c <;> simp only [Value.beq, Bool.false_eq_true] at h' ⊢
    exact beqMembers_trans h h'

theorem beqItems_trans : ∀ {as bs cs : List Value}, beqItems as bs = true → beqItems bs cs = true →
    beqItems as cs = true
  | [], bs, cs, h, h' => by
    cases bs <;> simp only [beqItems, Bool.false_eq_true] at h
    exact h'
  | a :: as, bs, cs, h, h' => by
    cases bs <;> simp only [beqItems, Bool.false_eq_true, Bool.and_eq_true] at h
    cases cs <;> simp only [beqItems, Bool.false_eq_true, Bool.and_eq_true] at h' ⊢
    exact ⟨Value.beq_trans h.1 h'.1, beqItems_trans h.2 h'.2⟩

theorem beqMembers_trans : ∀ {as bs cs : List (String × Value)}, beqMembers as bs = true →
    beqMembers bs cs = true → beqMembers as cs = true
  | [], bs, cs, h, h' => by
    cases bs <;> simp only [beqMembers, Bool.false_eq_true] at h
    exact h'
  | (k, a) :: as, bs, cs, h, h' => by
    cases bs <;> simp only [beqMembers, Bool.false_eq_true, Bool.and_eq_true, beq_iff_eq] at h
    cases cs <;> simp only [beqMembers, Bool.false_eq_true, Bool.and_eq_true, beq_iff_eq] at h' ⊢
    exact ⟨⟨h.1.1.trans h'.1.1, Value.beq_trans h.1.2 h'.1.2⟩, beqMembers_trans h.2 h'.2⟩

end

/-- What is in one of two equal lists has an equal in the other. -/
theorem exists_beq_of_mem : ∀ {as bs : List Value}, beqItems as bs = true → ∀ a ∈ as,
    ∃ b ∈ bs, a.beq b = true
  | [], _, _, a, ha => absurd ha List.not_mem_nil
  | a :: as, [], h, _, _ => by simp only [beqItems, Bool.false_eq_true] at h
  | a :: as, b :: bs, h, c, hc => by
    rw [beqItems, Bool.and_eq_true] at h
    rcases List.mem_cons.mp hc with rfl | hc
    · exact ⟨b, by simp, h.1⟩
    · obtain ⟨d, hd, heq⟩ := exists_beq_of_mem h.2 c hc
      exact ⟨d, by simp [hd], heq⟩

end Schemes.Json
