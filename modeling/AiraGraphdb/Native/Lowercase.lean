import AiraGraphdb.Native.BoundedAnswers

/-! # Lower case under a checkpoint

`lowercase_bounded` asks a checkpoint before every character it looks at. Whether a capital sigma is
a final one it decides by the first characters around it that are not case-ignorable. The condition
of Unicode is a regular expression, and some characters are both cased and case-ignorable: it is met
by one of these too. The two differ exactly where such a character decides. -/

namespace AiraGraphdb.Native.Lowercase

open Schemes

/-! ### The program -/

inductive LowercaseError (ε : Type) where
  | checkpoint (e : ε)
  | resource

section Program

variable {σ ε : Type}

/-- A failure of the checkpoint is passed on. -/
def mapCheckpoint {α : Type} (r : Proc σ ε α) : Proc σ (LowercaseError ε) α :=
  fun s => (r s).mapError .checkpoint

/-- One more character of the output, if the bytes allow it. -/
def pushScalars (maximum : UInt64) (output : List Char) :
    List Char → Proc σ (LowercaseError ε) (List Char)
  | [] => pure output
  | c :: cs => do
    let next ← Proc.ofOption (checkedAdd (charBytes output) c.utf8Size) fun _ => .resource
    if maximum.toNat < next then Proc.fail fun _ => .resource
    else pushScalars maximum (output ++ [c]) cs

variable [Bounded.LowercaseTables] (checkpoint : Proc σ ε Unit)

/-- What the first character that is not ignored says, or `default` when there is none. -/
def firstUnignoredChecked (answer : Char → Bool) (default : Bool) : List Char → Proc σ ε Bool
  | [] => pure default
  | c :: cs => do
    checkpoint
    if Bounded.LowercaseTables.caseIgnorable c then firstUnignoredChecked answer default cs
    else return answer c

def isFinalSigmaChecked (before after : List Char) : Proc σ ε Bool := do
  let hasCasedBefore ←
    firstUnignoredChecked checkpoint Bounded.LowercaseTables.cased false before.reverse
  if !hasCasedBefore then return false
  else firstUnignoredChecked checkpoint (fun c => !Bounded.LowercaseTables.cased c) true after

/-- Only a capital sigma can be a final one. -/
def isFinalScalarChecked (before : List Char) (c : Char) (after : List Char) :
    Proc σ (LowercaseError ε) Bool :=
  if c.toNat = 0x03A3 then mapCheckpoint (isFinalSigmaChecked checkpoint before after)
  else pure false

def lowercaseScalars (maximum : UInt64) (before output : List Char) :
    List Char → Proc σ (LowercaseError ε) (List Char)
  | [] => pure output
  | c :: after => do
    mapCheckpoint checkpoint
    let isFinal ← isFinalScalarChecked checkpoint before c after
    let output ← pushScalars maximum output
      (if isFinal then [Char.ofNat 0x03C2] else (Bounded.LowercaseTables.mapping c).getD [c])
    lowercaseScalars maximum (before ++ [c]) output after

/-- `lowercase_bounded`, where every allocation succeeds. -/
def lowercaseBounded (value : String) (maximum : UInt64) : Proc σ (LowercaseError ε) String := do
  forM value.toList fun _ => mapCheckpoint checkpoint
  let output ← lowercaseScalars checkpoint maximum [] [] value.toList
  return String.ofList output

end Program

/-! ### Unicode -/

section Unicode

variable [Bounded.LowercaseTables]

/-- A cased character, and case-ignorable ones after it. -/
def PrecededByCased (before : List Char) : Prop :=
  ∃ pre c ignored, before = pre ++ c :: ignored ∧ Bounded.LowercaseTables.cased c = true
    ∧ ∀ x ∈ ignored, Bounded.LowercaseTables.caseIgnorable x = true

/-- Case-ignorable characters, and a cased one after them. -/
def FollowedByCased (after : List Char) : Prop :=
  ∃ ignored c post, after = ignored ++ c :: post
    ∧ (∀ x ∈ ignored, Bounded.LowercaseTables.caseIgnorable x = true)
    ∧ Bounded.LowercaseTables.cased c = true

def FinalSigma (before after : List Char) : Prop :=
  PrecededByCased before ∧ ¬ FollowedByCased after

/-- The condition of Unicode, looked for character by character. -/
def meetsCased : List Char → Bool
  | [] => false
  | c :: cs => Bounded.LowercaseTables.cased c
    || Bounded.LowercaseTables.caseIgnorable c && meetsCased cs

theorem meetsCased_iff (after : List Char) : meetsCased after = true ↔ FollowedByCased after := by
  induction after with
  | nil => simp [meetsCased, FollowedByCased]
  | cons c after ih =>
    rw [meetsCased, Bool.or_eq_true, Bool.and_eq_true, ih]
    constructor
    · rintro (hc | ⟨hc, ignored, d, post, rfl, hignored, hd⟩)
      · exact ⟨[], c, after, rfl, by simp, hc⟩
      · exact ⟨c :: ignored, d, post, rfl, by simpa using ⟨hc, hignored⟩, hd⟩
    · rintro ⟨ignored, d, post, heq, hignored, hd⟩
      rcases ignored with _ | ⟨x, ignored⟩
      · obtain ⟨rfl, -⟩ := List.cons.inj heq
        exact .inl hd
      · obtain ⟨rfl, rfl⟩ := List.cons.inj heq
        exact .inr ⟨hignored _ (by simp), ignored, d, post, rfl,
          fun y hy => hignored y (by simp [hy]), hd⟩

/-- Backwards what precedes is what follows. -/
theorem precededByCased_iff (before : List Char) :
    PrecededByCased before ↔ FollowedByCased before.reverse := by
  constructor
  · rintro ⟨pre, c, ignored, rfl, hc, hignored⟩
    exact ⟨ignored.reverse, c, pre.reverse, by simp, by simpa using hignored, hc⟩
  · rintro ⟨ignored, c, post, heq, hignored, hc⟩
    refine ⟨post.reverse, c, ignored.reverse, ?_, hc, by simpa using hignored⟩
    rw [← List.reverse_reverse before, heq]
    simp

theorem finalSigma_iff (before after : List Char) :
    FinalSigma before after ↔ (meetsCased before.reverse && !meetsCased after) = true := by
  rw [FinalSigma, precededByCased_iff, ← meetsCased_iff, ← meetsCased_iff]
  simp

instance (before after : List Char) : Decidable (FinalSigma before after) :=
  decidable_of_iff _ (finalSigma_iff before after).symm

/-- A character in the reference lower case. -/
def referenceMapped (before : List Char) (c : Char) (after : List Char) : List Char :=
  if c.toNat = 0x03A3 ∧ FinalSigma before after then [Char.ofNat 0x03C2]
  else (Bounded.LowercaseTables.mapping c).getD [c]

/-- What follows in the reference lower case. -/
def referenceFrom (before : List Char) : List Char → List Char
  | [] => []
  | c :: after => referenceMapped before c after ++ referenceFrom (before ++ [c]) after

def referenceLowercase (value : String) : String := String.ofList (referenceFrom [] value.toList)

end Unicode

/-! ### What the program computes -/

section Asking

variable {σ ε α β : Type}

/-- The checkpoint, asked so often in a row. -/
def askTimes (checkpoint : Proc σ ε Unit) : ℕ → Proc σ ε Unit
  | 0 => pure ()
  | n + 1 => do
    checkpoint
    askTimes checkpoint n

/-- The checkpoint is asked so often; what comes then is the value, or that there is no room. -/
def asking (checkpoint : Proc σ ε Unit) (calls : ℕ) (x : Option α) :
    Proc σ (LowercaseError ε) α := do
  mapCheckpoint (askTimes checkpoint calls)
  Proc.ofOption x fun _ => .resource

theorem mapCheckpoint_bind (r : Proc σ ε α) (f : α → Proc σ ε β) :
    mapCheckpoint (r >>= f) = mapCheckpoint r >>= fun a => mapCheckpoint (f a) := by
  funext s
  rw [mapCheckpoint, Proc.bind_apply, Proc.bind_apply, mapCheckpoint]
  rcases r s with e | ⟨a, s'⟩ <;> rfl

@[simp] theorem mapCheckpoint_pure (a : α) :
    mapCheckpoint (pure a : Proc σ ε α) = (pure a : Proc σ (LowercaseError ε) α) := rfl

variable {checkpoint : Proc σ ε Unit}

theorem askTimes_add (m n : ℕ) :
    askTimes checkpoint (m + n) = askTimes checkpoint m >>= fun _ => askTimes checkpoint n := by
  induction m with
  | zero => simp [askTimes]
  | succ m ih => simp [Nat.succ_add, askTimes, ih]

theorem asking_zero (x : Option α) :
    asking checkpoint 0 x = Proc.ofOption x fun _ => .resource := by
  simp [asking, askTimes]

theorem pure_eq_asking (a : α) :
    (pure a : Proc σ (LowercaseError ε) α) = asking checkpoint 0 (some a) := by
  rw [asking_zero]
  rfl

theorem mapCheckpoint_eq_asking : mapCheckpoint checkpoint = asking checkpoint 1 (some ()) := by
  simp [asking, askTimes, Proc.ofOption]

theorem asking_bind {m n : ℕ} {a : α} {f : α → Proc σ (LowercaseError ε) β} {y : Option β}
    (h : f a = asking checkpoint n y) :
    (asking checkpoint m (some a) >>= f) = asking checkpoint (m + n) y := by
  simp [asking, askTimes_add, mapCheckpoint_bind, Proc.ofOption, h]

theorem asking_none_bind {m : ℕ} {f : α → Proc σ (LowercaseError ε) β} :
    (asking checkpoint m none >>= f) = asking checkpoint m none := by
  simp [asking, Proc.ofOption]

theorem pushScalars_eq (checkpoint : Proc σ ε Unit) (maximum : UInt64)
    (output cs : List Char) :
    pushScalars maximum output cs
      = asking checkpoint 0 (pushBounded maximum.toNat output cs) := by
  induction cs generalizing output with
  | nil => exact pure_eq_asking _
  | cons c cs ih =>
    have hmaximum := maximum.toNat_lt
    rw [pushScalars, pushBounded, checkedAdd]
    split
    · rw [Proc.ofOption, pure_bind]
      split
      · rw [asking_zero]
        rfl
      · exact ih _
    · rw [if_pos (by rw [charBytes] at *; omega), asking_zero]
      exact Proc.fail_bind _ _

theorem forM_mapCheckpoint (checkpoint : Proc σ ε Unit) (cs : List Char) :
    (forM cs fun _ => mapCheckpoint checkpoint) = asking checkpoint cs.length (some ()) := by
  induction cs with
  | nil => exact pure_eq_asking _
  | cons c cs ih =>
    show ForM.forM (c :: cs) _ = _
    rw [List.forM_cons, mapCheckpoint_eq_asking, List.length_cons, Nat.add_comm]
    rw [mapCheckpoint_eq_asking] at ih
    exact asking_bind ih

theorem askTimes_ok (h : ∀ s, ∃ s', checkpoint s = .ok ((), s')) (n : ℕ) (s : σ) :
    ∃ s', askTimes checkpoint n s = .ok ((), s') := by
  induction n generalizing s with
  | zero => exact ⟨s, rfl⟩
  | succ n ih =>
    obtain ⟨t, ht⟩ := h s
    obtain ⟨s', hs'⟩ := ih t
    exact ⟨s', by rw [askTimes, Proc.bind_apply, ht]; exact hs'⟩

theorem map_asking (h : ∀ s, ∃ s', checkpoint s = .ok ((), s')) (n : ℕ) (x : Option α) (s : σ) :
    (asking checkpoint n x s).map Prod.fst
      = x.elim (.error .resource : Except (LowercaseError ε) α) .ok := by
  obtain ⟨s', hs'⟩ := askTimes_ok h n s
  rw [asking, Proc.bind_apply, mapCheckpoint, hs']
  rcases x with _ | a <;> rfl

end Asking

section Computes

variable [Bounded.LowercaseTables]

theorem firstUnignoredChecked_eq (answer : Char → Bool) (default : Bool) (cs : List Char) :
    ∃ calls, ∀ (σ ε : Type) (checkpoint : Proc σ ε Unit),
      mapCheckpoint (firstUnignoredChecked checkpoint answer default cs)
        = asking checkpoint calls (some (firstUnignored answer default cs)) := by
  induction cs with
  | nil => exact ⟨0, fun σ ε checkpoint => pure_eq_asking _⟩
  | cons c cs ih =>
    obtain ⟨calls, ih⟩ := ih
    by_cases hc : Bounded.LowercaseTables.caseIgnorable c
    · refine ⟨1 + calls, fun σ ε checkpoint => ?_⟩
      rw [firstUnignoredChecked, firstUnignored, if_pos hc, if_pos hc, mapCheckpoint_bind,
        mapCheckpoint_eq_asking]
      exact asking_bind (ih σ ε checkpoint)
    · refine ⟨1 + 0, fun σ ε checkpoint => ?_⟩
      rw [firstUnignoredChecked, firstUnignored, if_neg hc, if_neg hc, mapCheckpoint_bind,
        mapCheckpoint_eq_asking]
      exact asking_bind (pure_eq_asking _)

theorem isFinalSigmaChecked_eq (before after : List Char) :
    ∃ calls, ∀ (σ ε : Type) (checkpoint : Proc σ ε Unit),
      mapCheckpoint (isFinalSigmaChecked checkpoint before after)
        = asking checkpoint calls (some (isFinalSigma before after)) := by
  obtain ⟨m, hm⟩ := firstUnignoredChecked_eq Bounded.LowercaseTables.cased false before.reverse
  obtain ⟨n, hn⟩ :=
    firstUnignoredChecked_eq (fun c => !Bounded.LowercaseTables.cased c) true after
  rcases hcased : firstUnignored Bounded.LowercaseTables.cased false before.reverse with _ | _
  · refine ⟨m + 0, fun σ ε checkpoint => ?_⟩
    rw [isFinalSigmaChecked, mapCheckpoint_bind, hm, isFinalSigma, hcased]
    exact asking_bind (pure_eq_asking _)
  · refine ⟨m + n, fun σ ε checkpoint => ?_⟩
    rw [isFinalSigmaChecked, mapCheckpoint_bind, hm, isFinalSigma, hcased, Bool.true_and]
    exact asking_bind (hn σ ε checkpoint)

theorem isFinalScalarChecked_eq (before : List Char) (c : Char) (after : List Char) :
    ∃ calls, ∀ (σ ε : Type) (checkpoint : Proc σ ε Unit),
      isFinalScalarChecked checkpoint before c after = asking checkpoint calls
        (some (decide (c.toNat = 0x03A3 ∧ isFinalSigma before after = true))) := by
  by_cases hc : c.toNat = 0x03A3
  · obtain ⟨calls, hcalls⟩ := isFinalSigmaChecked_eq before after
    refine ⟨calls, fun σ ε checkpoint => ?_⟩
    rw [isFinalScalarChecked, if_pos hc, hcalls]
    simp [hc]
  · refine ⟨0, fun σ ε checkpoint => ?_⟩
    rw [isFinalScalarChecked, if_neg hc]
    simpa [hc] using pure_eq_asking false

theorem lowercaseScalars_eq (maximum : UInt64) (before output cs : List Char) :
    ∃ calls, ∀ (σ ε : Type) (checkpoint : Proc σ ε Unit),
      lowercaseScalars checkpoint maximum before output cs
        = asking checkpoint calls (lowercaseFrom maximum.toNat before output cs) := by
  induction cs generalizing before output with
  | nil => exact ⟨0, fun σ ε checkpoint => pure_eq_asking _⟩
  | cons c cs ih =>
    obtain ⟨m, hm⟩ := isFinalScalarChecked_eq before c cs
    have hmapped : (if decide (c.toNat = 0x03A3 ∧ isFinalSigma before cs = true) = true
        then [Char.ofNat 0x03C2] else (Bounded.LowercaseTables.mapping c).getD [c])
        = lowercaseMapped before c cs := by
      rw [lowercaseMapped]
      simp
    rcases hpush : pushBounded maximum.toNat output (lowercaseMapped before c cs) with _ | out
    · refine ⟨1 + (m + 0), fun σ ε checkpoint => ?_⟩
      rw [lowercaseScalars, mapCheckpoint_eq_asking, lowercaseFrom, hpush]
      refine asking_bind ?_
      rw [hm]
      refine asking_bind ?_
      rw [hmapped, pushScalars_eq checkpoint, hpush, asking_none_bind]
      rfl
    · obtain ⟨n, hn⟩ := ih (before ++ [c]) out
      refine ⟨1 + (m + (0 + n)), fun σ ε checkpoint => ?_⟩
      rw [lowercaseScalars, mapCheckpoint_eq_asking, lowercaseFrom, hpush]
      refine asking_bind ?_
      rw [hm]
      refine asking_bind ?_
      rw [hmapped, pushScalars_eq checkpoint, hpush]
      exact asking_bind (hn σ ε checkpoint)

/-- How often the checkpoint is asked, and what comes then, does not depend on it. -/
theorem lowercaseBounded_eq (value : String) (maximum : UInt64) :
    ∃ calls, ∀ (σ ε : Type) (checkpoint : Proc σ ε Unit),
      lowercaseBounded checkpoint value maximum
        = asking checkpoint calls (Native.lowercaseBounded value maximum.toNat) := by
  obtain ⟨n, hn⟩ := lowercaseScalars_eq maximum [] [] value.toList
  refine ⟨value.toList.length + (n + 0), fun σ ε checkpoint => ?_⟩
  rw [lowercaseBounded, forM_mapCheckpoint, Native.lowercaseBounded]
  refine asking_bind ?_
  rw [hn]
  rcases lowercaseFrom maximum.toNat [] [] value.toList with _ | out
  · exact asking_none_bind
  · refine asking_bind ?_
    rw [asking_zero]
    rfl

end Computes

/-! ### Bytes -/

section Bytes

theorem charBytes_append (xs ys : List Char) :
    charBytes (xs ++ ys) = charBytes xs + charBytes ys := by
  simp [charBytes]

theorem pushBounded_none {maximum : ℕ} {cs output : List Char} (houtput : charBytes output ≤ maximum)
    (h : maximum < charBytes output + charBytes cs) : pushBounded maximum output cs = none := by
  induction cs generalizing output with
  | nil => simp [charBytes] at h houtput; omega
  | cons c cs ih =>
    rw [pushBounded]
    split
    · rfl
    · rename_i hfits
      refine ih ?_ ?_
      · simp only [charBytes, List.map_append, List.sum_append, List.map_cons, List.sum_cons,
          List.map_nil, List.sum_nil] at hfits ⊢
        omega
      · simp only [charBytes, List.map_append, List.sum_append, List.map_cons, List.sum_cons,
          List.map_nil, List.sum_nil] at h ⊢
        omega

theorem utf8Len_eq (cs : List Char) : String.utf8Len cs = charBytes cs := by
  induction cs with
  | nil => rfl
  | cons c cs ih => simp [String.utf8Len, charBytes, ih, Nat.add_comm]

theorem eq_sigma {c : Char} (hc : c.toNat = 0x03A3) : c = Char.ofNat 0x03A3 := by
  rw [← hc, Char.ofNat_toNat]

end Bytes

/-! ### Where the scan and Unicode agree -/

section Agreement

variable [Bounded.LowercaseTables]

/-- A cased character is among the ignored ones at the beginning. -/
def hidden (l : List Char) : Bool :=
  (l.takeWhile Bounded.LowercaseTables.caseIgnorable).any Bounded.LowercaseTables.cased

/-- The first character that is not ignored is cased. -/
def shown (l : List Char) : Bool :=
  (l.dropWhile Bounded.LowercaseTables.caseIgnorable).head?.any Bounded.LowercaseTables.cased

theorem firstUnignored_cased (l : List Char) :
    firstUnignored Bounded.LowercaseTables.cased false l = shown l := by
  induction l with
  | nil => rfl
  | cons c l ih =>
    by_cases hc : Bounded.LowercaseTables.caseIgnorable c
    · simpa [firstUnignored, shown, hc] using ih
    · simp [firstUnignored, shown, hc]

theorem firstUnignored_not_cased (l : List Char) :
    firstUnignored (fun c => !Bounded.LowercaseTables.cased c) true l = !shown l := by
  induction l with
  | nil => rfl
  | cons c l ih =>
    by_cases hc : Bounded.LowercaseTables.caseIgnorable c
    · simpa [firstUnignored, shown, hc] using ih
    · simp [firstUnignored, shown, hc]

theorem meetsCased_eq (l : List Char) : meetsCased l = (hidden l || shown l) := by
  induction l with
  | nil => rfl
  | cons c l ih =>
    rw [meetsCased, ih]
    by_cases hc : Bounded.LowercaseTables.caseIgnorable c
    · simp [hidden, shown, hc, Bool.or_assoc]
    · simp [hidden, shown, hc]

/-- A sigma between these texts is judged wrongly: characters that are both cased and case-ignorable
decide, after it when it counts as final, before it when it does not. -/
def Misjudged (before after : List Char) : Prop :=
  shown after = false ∧ (shown before.reverse = true ∧ hidden after = true
    ∨ shown before.reverse = false ∧ hidden before.reverse = true ∧ hidden after = false)

instance (before after : List Char) : Decidable (Misjudged before after) :=
  inferInstanceAs (Decidable (_ ∧ _))

theorem isFinalSigma_iff (before after : List Char) :
    (isFinalSigma before after = true ↔ FinalSigma before after) ↔ ¬ Misjudged before after := by
  rw [finalSigma_iff, isFinalSigma, firstUnignored_cased, firstUnignored_not_cased, meetsCased_eq,
    meetsCased_eq, Misjudged]
  cases shown after <;> cases shown before.reverse <;> cases hidden after <;>
    cases hidden before.reverse <;> simp

/-- The capital sigma is mapped to the small one. -/
def SigmaMapped : Prop :=
  Bounded.LowercaseTables.mapping (Char.ofNat 0x03A3) = some [Char.ofNat 0x03C3]

/-- A final sigma has as many bytes as the small one that the table has for it. -/
theorem sigma_or_mapped (hsigma : SigmaMapped) {p : Prop} [Decidable p] {c : Char}
    (hp : p → c.toNat = 0x03A3) :
    (if p then [Char.ofNat 0x03C2] else (Bounded.LowercaseTables.mapping c).getD [c]).length
        = ((Bounded.LowercaseTables.mapping c).getD [c]).length
      ∧ charBytes (if p then [Char.ofNat 0x03C2] else (Bounded.LowercaseTables.mapping c).getD [c])
        = charBytes ((Bounded.LowercaseTables.mapping c).getD [c]) := by
  split
  · rename_i h
    rw [eq_sigma (hp h), hsigma]
    exact ⟨rfl, rfl⟩
  · exact ⟨rfl, rfl⟩

theorem lowercaseMapped_size (hsigma : SigmaMapped) (before : List Char) (c : Char)
    (after : List Char) :
    (lowercaseMapped before c after).length = ((Bounded.LowercaseTables.mapping c).getD [c]).length
      ∧ charBytes (lowercaseMapped before c after)
        = charBytes ((Bounded.LowercaseTables.mapping c).getD [c]) :=
  sigma_or_mapped hsigma And.left

theorem referenceMapped_size (hsigma : SigmaMapped) (before : List Char) (c : Char)
    (after : List Char) :
    (referenceMapped before c after).length = ((Bounded.LowercaseTables.mapping c).getD [c]).length
      ∧ charBytes (referenceMapped before c after)
        = charBytes ((Bounded.LowercaseTables.mapping c).getD [c]) :=
  sigma_or_mapped hsigma And.left

theorem mapped_eq_iff (hsigma : SigmaMapped) (before : List Char) (c : Char) (after : List Char) :
    lowercaseMapped before c after = referenceMapped before c after
      ↔ (c.toNat = 0x03A3 → ¬ Misjudged before after) := by
  rw [lowercaseMapped, referenceMapped, ← isFinalSigma_iff]
  by_cases hc : c.toNat = 0x03A3
  · obtain rfl := eq_sigma hc
    rw [hsigma]
    by_cases hleft : isFinalSigma before after = true <;>
      by_cases hright : FinalSigma before after <;> simp [hleft, hright, hc]
  · simp [hc]

/-- What follows in the output, where there is room for it. -/
def mappedFrom (before : List Char) : List Char → List Char
  | [] => []
  | c :: after => lowercaseMapped before c after ++ mappedFrom (before ++ [c]) after

theorem mappedFrom_eq_iff (hsigma : SigmaMapped) (before cs : List Char) :
    mappedFrom before cs = referenceFrom before cs ↔
      ∀ pre post, cs = pre ++ Char.ofNat 0x03A3 :: post → ¬ Misjudged (before ++ pre) post := by
  induction cs generalizing before with
  | nil => simp [mappedFrom, referenceFrom]
  | cons c cs ih =>
    have hlength : (lowercaseMapped before c cs).length = (referenceMapped before c cs).length :=
      (lowercaseMapped_size hsigma ..).1.trans (referenceMapped_size hsigma ..).1.symm
    have happend : mappedFrom before (c :: cs) = referenceFrom before (c :: cs) ↔
        lowercaseMapped before c cs = referenceMapped before c cs
          ∧ mappedFrom (before ++ [c]) cs = referenceFrom (before ++ [c]) cs :=
      ⟨fun h => List.append_inj h hlength, fun h => by rw [mappedFrom, referenceFrom, h.1, h.2]⟩
    rw [happend, mapped_eq_iff hsigma, ih]
    constructor
    · rintro ⟨hhead, htail⟩ pre post heq
      rcases pre with _ | ⟨d, pre⟩
      · obtain ⟨rfl, rfl⟩ := List.cons.inj heq
        simpa using hhead rfl
      · obtain ⟨rfl, rfl⟩ := List.cons.inj heq
        simpa using htail pre post rfl
    · intro h
      refine ⟨fun hc => ?_, fun pre post heq => ?_⟩
      · simpa using h [] cs (by rw [eq_sigma hc]; rfl)
      · simpa using h (c :: pre) post (by rw [heq]; rfl)

/-- The bytes of the mapped characters. -/
def mappedBytes (cs : List Char) : ℕ :=
  (cs.map fun c => charBytes ((Bounded.LowercaseTables.mapping c).getD [c])).sum

theorem charBytes_referenceFrom (hsigma : SigmaMapped) (before cs : List Char) :
    charBytes (referenceFrom before cs) = mappedBytes cs := by
  induction cs generalizing before with
  | nil => rfl
  | cons c cs ih =>
    rw [referenceFrom, charBytes_append, ih, (referenceMapped_size hsigma ..).2]
    simp [mappedBytes]

theorem lowercaseFrom_eq (hsigma : SigmaMapped) {maximum : ℕ} (before cs output : List Char)
    (houtput : charBytes output ≤ maximum) :
    lowercaseFrom maximum before output cs =
      if charBytes output + mappedBytes cs ≤ maximum then some (output ++ mappedFrom before cs)
      else none := by
  induction cs generalizing before output with
  | nil => simp [lowercaseFrom, mappedBytes, mappedFrom, houtput]
  | cons c cs ih =>
    have hsize := (lowercaseMapped_size hsigma before c cs).2
    have hbytes : mappedBytes (c :: cs)
        = charBytes (lowercaseMapped before c cs) + mappedBytes cs := by
      simp [mappedBytes, hsize]
    rw [lowercaseFrom, hbytes]
    by_cases hfits : charBytes output + charBytes (lowercaseMapped before c cs) ≤ maximum
    · rw [pushBounded_some hfits]
      show lowercaseFrom maximum (before ++ [c]) (output ++ lowercaseMapped before c cs) cs = _
      rw [ih _ _ (by rw [charBytes_append]; exact hfits), charBytes_append, Nat.add_assoc,
        mappedFrom, List.append_assoc]
    · rw [pushBounded_none houtput (by omega), if_neg (by omega)]
      rfl

end Agreement

/-! ### The lower case of Unicode -/

section Reference

variable [Bounded.LowercaseTables]

/-- The reference lower case, where the limit admits it. -/
def referenceBounded {ε : Type} (value : String) (maximum : UInt64) :
    Except (LowercaseError ε) String :=
  if (referenceLowercase value).utf8ByteSize ≤ maximum.toNat then .ok (referenceLowercase value)
  else .error .resource

/-- Under a checkpoint that does not fail the program answers with the reference lower case. -/
def MeetsReference (value : String) (maximum : UInt64) : Prop :=
  ∀ (σ ε : Type) (checkpoint : Proc σ ε Unit), (∀ s, ∃ s', checkpoint s = .ok ((), s')) →
    ∀ s, (lowercaseBounded checkpoint value maximum s).map Prod.fst
      = referenceBounded value maximum

theorem utf8ByteSize_referenceLowercase (hsigma : SigmaMapped) (value : String) :
    (referenceLowercase value).utf8ByteSize = mappedBytes value.toList := by
  rw [referenceLowercase, String.utf8ByteSize_ofList, utf8Len_eq, charBytes_referenceFrom hsigma]

theorem meetsReference_iff (value : String) (maximum : UInt64) :
    MeetsReference value maximum ↔
      (Native.lowercaseBounded value maximum.toNat).elim
        (.error .resource : Except (LowercaseError Unit) String) .ok
        = referenceBounded value maximum := by
  obtain ⟨calls, hcalls⟩ := lowercaseBounded_eq value maximum
  constructor
  · intro h
    have hunit := h Unit Unit (pure ()) (fun s => ⟨s, rfl⟩) ()
    have hpure : ∀ s : Unit, ∃ s', (pure () : Proc Unit Unit Unit) s = .ok ((), s') :=
      fun s => ⟨s, rfl⟩
    rwa [hcalls, map_asking hpure] at hunit
  · intro h σ ε checkpoint hcheckpoint s
    rw [hcalls, map_asking hcheckpoint]
    rw [referenceBounded] at h ⊢
    rcases hx : Native.lowercaseBounded value maximum.toNat with _ | text <;> rw [hx] at h
    · split at h
      · cases h
      · rename_i hfits
        rw [if_neg hfits]
        rfl
    · split at h
      · rename_i hfits
        rw [if_pos hfits]
        injection h with h
        rw [← h]
        rfl
      · cases h

/-- The program is a number of questions to the checkpoint and an answer that does not depend on it,
so a failure ends the run and changes no answer. The answer is the lower case of Unicode unless it
has room and some capital sigma is misjudged. -/
theorem lowercaseBounded_meets_iff (hsigma : SigmaMapped) (value : String) (maximum : UInt64) :
    (∃ (calls : ℕ) (answer : Option String), ∀ (σ ε : Type) (checkpoint : Proc σ ε Unit),
      lowercaseBounded checkpoint value maximum = asking checkpoint calls answer) ∧
    (MeetsReference value maximum ↔ (mappedBytes value.toList ≤ maximum.toNat →
      ∀ before after, value.toList = before ++ Char.ofNat 0x03A3 :: after →
        ¬ Misjudged before after)) := by
  obtain ⟨calls, hcalls⟩ := lowercaseBounded_eq value maximum
  refine ⟨⟨calls, _, hcalls⟩, ?_⟩
  have hpure : Native.lowercaseBounded value maximum.toNat
      = if mappedBytes value.toList ≤ maximum.toNat
        then some (String.ofList (mappedFrom [] value.toList)) else none := by
    rw [Native.lowercaseBounded, lowercaseFrom_eq hsigma [] _ [] (by simp [charBytes])]
    simp only [charBytes, List.map_nil, List.sum_nil, Nat.zero_add, List.nil_append]
    split <;> rfl
  rw [meetsReference_iff, hpure, referenceBounded, utf8ByteSize_referenceLowercase hsigma,
    referenceLowercase]
  by_cases hfits : mappedBytes value.toList ≤ maximum.toNat
  · have hagree := mappedFrom_eq_iff hsigma [] value.toList
    simp only [List.nil_append] at hagree
    rw [if_pos hfits, if_pos hfits, ← hagree]
    constructor
    · intro h _
      injection h with h
      exact String.ofList_injective h
    · intro h
      rw [h hfits]
      rfl
  · rw [if_neg hfits, if_neg hfits]
    exact ⟨fun _ h => absurd h hfits, fun _ => rfl⟩

end Reference

section Witness

/-- The rows of the generated tables for the letters A and a, the raised small h, which is both cased
and case-ignorable, and the sigmas. -/
abbrev raisedTables : Bounded.LowercaseTables where
  mapping c := if c = 'A' then some ['a']
    else if c = Char.ofNat 0x03A3 then some [Char.ofNat 0x03C3] else none
  caseIgnorable c := c = Char.ofNat 0x02B0
  cased c := c ∈ ['A', 'a', Char.ofNat 0x02B0, Char.ofNat 0x03A3, Char.ofNat 0x03C2,
    Char.ofNat 0x03C3]

attribute [local instance] raisedTables

def raisedSigma : String := String.ofList [Char.ofNat 0x02B0, Char.ofNat 0x03A3]

/-- After a raised h a sigma at the end is final, but not for the program. -/
theorem lowercaseBounded_raisedSigma : ¬ MeetsReference raisedSigma 16 := by
  have hanswer : Native.lowercaseBounded raisedSigma (UInt64.toNat 16)
      = some (String.ofList [Char.ofNat 0x02B0, Char.ofNat 0x03C3]) := by decide
  have hreference : referenceLowercase raisedSigma
      = String.ofList [Char.ofNat 0x02B0, Char.ofNat 0x03C2] := by decide
  rw [meetsReference_iff, hanswer, referenceBounded, hreference, if_pos (by decide)]
  intro h
  injection h with h
  exact absurd h (by decide)

/-- After an A the sigma at the end is final for both. -/
theorem lowercaseBounded_meets_iff_letterSigma :
    MeetsReference (String.ofList ['A', Char.ofNat 0x03A3]) 16 := by
  refine (lowercaseBounded_meets_iff rfl _ _).2.mpr fun _ before after heq => ?_
  rw [String.toList_ofList] at heq
  rcases before with _ | ⟨c, _ | ⟨d, before⟩⟩
  · cases heq
  · obtain ⟨rfl, h⟩ := List.cons.inj heq
    obtain ⟨-, rfl⟩ := List.cons.inj h
    decide
  · simp at heq

end Witness

end AiraGraphdb.Native.Lowercase
