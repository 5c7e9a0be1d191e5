import AiraGraphdb.Native.Wal

/-! # The guard on a printed record

Between strings the guard is its stack of frames. A printed value leaves the stack as it was, or is
refused because it nests too deep: `account_value`, by induction on the value. The envelope is
followed token by token around it: `account_record`. -/

namespace AiraGraphdb.Native.GuardedJsonReader

open Schemes Schemes.Json

/-- The guard between two tokens. -/
def between (fs : List JsonGuardFrame) : GuardedJsonReader := ⟨fs, false, false, .other, []⟩

/-- The guard inside a string, with what it remembers of it. -/
def inside (fs : List JsonGuardFrame) (role : BoundedStringRole) (raw : Bytes) :
    GuardedJsonReader := ⟨fs, true, false, role, raw⟩

def arrayFrame : JsonGuardFrame := ⟨false, false, false⟩

def objectFrame : JsonGuardFrame := ⟨true, true, false⟩

/-- An object whose key has been read. -/
def keyedFrame (pendingMethod : Bool) : JsonGuardFrame := ⟨true, false, pendingMethod⟩

/-- A string that starts here is neither a key nor the method of the envelope. -/
def Quiet (fs : List JsonGuardFrame) : Prop := stringRole fs = .other ∧ clearPending fs = fs

theorem account_append (g : GuardedJsonReader) (xs ys : Bytes) :
    g.account (xs ++ ys) = (g.account xs).bind fun g => g.account ys := by
  induction xs generalizing g with
  | nil => rfl
  | cons b xs ih =>
    rw [List.cons_append, account, account]
    rcases g.accountByte b with _ | g'
    · rfl
    · exact ih g'

/-! ### Tokens -/

/-- What is remembered of a string after some more of it. -/
def remember (role : BoundedStringRole) (raw s : Bytes) : Bytes :=
  if role = .other then raw else raw ++ s

theorem remember_append (role : BoundedStringRole) (raw s s' : Bytes) :
    remember role (remember role raw s) s' = remember role raw (s ++ s') := by
  by_cases h : role = .other
  · simp [remember, h]
  · simp [remember, h]

theorem length_remember_le (role : BoundedStringRole) (raw s s' : Bytes) :
    (remember role raw s).length ≤ (remember role raw (s ++ s')).length := by
  by_cases h : role = .other
  · simp [remember, h]
  · simp [remember, h]

theorem accountByte_plain {fs : List JsonGuardFrame} {role : BoundedStringRole} {raw : Bytes}
    {b : UInt8} (h1 : b ≠ 0x5C) (h2 : b ≠ 0x22)
    (hl : (remember role raw [b]).length ≤ maxEscapedEnvelopeBytes) :
    accountByte (inside fs role raw) b = some (inside fs role (remember role raw [b])) := by
  by_cases h : role = .other
  · simp only [remember, h, if_true] at hl
    simp [accountByte, inside, stringByte, h1, h2, remember, h, hl]
  · simp only [remember, h, if_false] at hl
    simp only [accountByte, inside, stringByte, if_true, Bool.false_eq_true, if_false, h1, h2, h,
      remember, Option.bind_eq_bind, Option.bind_some, if_neg (Nat.not_lt.mpr hl)]

/-- A backslash and the byte after it. -/
theorem account_escaped {fs : List JsonGuardFrame} {role : BoundedStringRole} {raw : Bytes}
    {c : UInt8} (hl : (remember role raw [0x5C, c]).length ≤ maxEscapedEnvelopeBytes) (bs : Bytes) :
    (inside fs role raw).account (0x5C :: c :: bs) =
      (inside fs role (remember role raw [0x5C, c])).account bs := by
  have hl' := (length_remember_le role raw [0x5C] [c]).trans hl
  rw [remember] at hl'
  rw [account, accountByte, inside, if_pos rfl, stringByte]
  simp only [Bool.false_eq_true, if_false, if_true, Option.bind_eq_bind, Option.bind_some,
    if_neg (Nat.not_lt.mpr hl')]
  rw [account, accountByte]
  by_cases h : role = .other
  · simp [h, remember, stringByte, inside]
  · simp [h, remember, stringByte, inside]

/-- One byte of a text, as it was escaped. -/
theorem account_escapeByte {fs : List JsonGuardFrame} {role : BoundedStringRole} {raw : Bytes}
    (b : UInt8) (hl : (remember role raw (escapeByte b)).length ≤ maxEscapedEnvelopeBytes) :
    (inside fs role raw).account (escapeByte b) =
      some (inside fs role (remember role raw (escapeByte b))) := by
  have two : ∀ c : UInt8, (remember role raw [0x5C, c]).length ≤ maxEscapedEnvelopeBytes →
      (inside fs role raw).account [0x5C, c] =
        some (inside fs role (remember role raw [0x5C, c])) := fun c hc => account_escaped hc []
  rw [escapeByte] at hl ⊢
  split_ifs at hl ⊢ with h1 h2 h3 h4 h5 h6 h7 h8
  iterate 7 exact two _ hl
  · have digit : ∀ n < 16, hexDigit n ≠ 0x5C ∧ hexDigit n ≠ 0x22 := by decide
    have hb : b.toNat < 256 := b.toNat_lt
    obtain ⟨d1, d2⟩ := digit (b.toNat / 16) (by omega)
    obtain ⟨d3, d4⟩ := digit (b.toNat % 16) (by omega)
    generalize hexDigit (b.toNat / 16) = x at *
    generalize hexDigit (b.toNat % 16) = y at *
    have p1 := length_remember_le role raw [0x5C, 0x75] [48, 48, x, y]
    have p2 := length_remember_le role raw [0x5C, 0x75, 48] [48, x, y]
    have p3 := length_remember_le role raw [0x5C, 0x75, 48, 48] [x, y]
    have p4 := length_remember_le role raw [0x5C, 0x75, 48, 48, x] [y]
    simp only [List.cons_append, List.nil_append] at p1 p2 p3 p4
    rw [account_escaped (p1.trans hl), account, accountByte_plain (by decide) (by decide)
      (by rw [remember_append]; exact p2.trans hl), Option.bind_some, remember_append, account,
      accountByte_plain (by decide) (by decide) (by rw [remember_append]; exact p3.trans hl),
      Option.bind_some, remember_append, account, accountByte_plain d1 d2
      (by rw [remember_append]; exact p4.trans hl), Option.bind_some, remember_append, account,
      accountByte_plain d3 d4 (by rw [remember_append]; exact hl), Option.bind_some,
      remember_append]
    rfl
  · rw [account, accountByte_plain h2 h1 hl]
    rfl

theorem account_escape {fs : List JsonGuardFrame} {role : BoundedStringRole} (bs : Bytes) :
    ∀ raw : Bytes, (remember role raw (escape bs)).length ≤ maxEscapedEnvelopeBytes →
      (inside fs role raw).account (escape bs) =
        some (inside fs role (remember role raw (escape bs))) := by
  induction bs with
  | nil =>
    intro raw _
    by_cases h : role = .other
    · simp [escape, remember, h, account]
    · simp [escape, remember, h, account]
  | cons b bs ih =>
    intro raw hl
    have he : escape (b :: bs) = escapeByte b ++ escape bs := rfl
    rw [he] at hl ⊢
    rw [account_append, account_escapeByte b ((length_remember_le _ _ _ _).trans hl),
      Option.bind_some, ih _ (by rwa [remember_append]), remember_append]

/-- A string that is no part of the envelope passes. -/
theorem account_string {fs : List JsonGuardFrame} (hq : Quiet fs) (s : String) (bs : Bytes) :
    (between fs).account (0x22 :: escape (utf8 s) ++ 0x22 :: bs) = (between fs).account bs := by
  have hopen : accountByte (between fs) 0x22 = some (inside fs .other []) := by
    simp [accountByte, between, plainByte, hq.1, hq.2, inside]
  rw [List.cons_append, account, hopen, Option.bind_some, account_append,
    account_escape (utf8 s) [] (by simp [remember]), Option.bind_some]
  rfl

theorem length_escape_le (bs : Bytes) : (escape bs).length ≤ 6 * bs.length := by
  induction bs with
  | nil => simp [escape]
  | cons b bs ih =>
    have hb : (escapeByte b).length ≤ 6 := by
      rw [escapeByte]
      split_ifs <;> simp
    have he : escape (b :: bs) = escapeByte b ++ escape bs := rfl
    rw [he, List.length_append, List.length_cons]
    omega

/-- A key or a method of at most 64 bytes is decoded to itself. -/
theorem finishBoundedString_ok (fs : List JsonGuardFrame) (role : BoundedStringRole) {s : String}
    (hs : s.utf8ByteSize ≤ maxEnvelopeStringBytes) :
    finishBoundedString (inside fs role (remember role [] (escape (utf8 s)))) =
      some (inside (if role = .envelopeKey then mapTop (fun f =>
        { f with expectKey := false, pendingMethod := s == "method" }) fs else fs) role
        (remember role [] (escape (utf8 s)))) := by
  have hparse : parse (0x22 :: escape (utf8 s) ++ [0x22]) = some (.str (escape (utf8 s))) :=
    parse_print (.str _) (lexString_escape (utf8 s))
  have hread : fromSlice Reader.string (0x22 :: escape (utf8 s) ++ [0x22]) = some s := by
    rw [fromSlice, hparse, Option.bind_some, Reader.string, stringText_escape]
  rcases role with _ | _ | _
  · rfl
  · simp only [finishBoundedString, inside, remember, reduceCtorEq, if_false, List.nil_append,
      hread, Option.bind_eq_bind, Option.bind_some, if_neg (Nat.not_lt.mpr hs), if_true]
    rfl
  · simp only [finishBoundedString, inside, remember, reduceCtorEq, if_false, List.nil_append,
      hread, Option.bind_eq_bind, Option.bind_some, if_neg (Nat.not_lt.mpr hs)]
    rfl

/-- A short string of the envelope. -/
theorem account_envelopeString {fs : List JsonGuardFrame} {s : String}
    (hs : s.utf8ByteSize ≤ maxEnvelopeStringBytes) (bs : Bytes) :
    (between fs).account (0x22 :: escape (utf8 s) ++ 0x22 :: bs) =
      (between (if stringRole fs = .envelopeKey then mapTop (fun f =>
        { f with expectKey := false, pendingMethod := s == "method" }) fs
        else clearPending fs)).account bs := by
  have hl : ∀ role, (remember role [] (escape (utf8 s))).length ≤ maxEscapedEnvelopeBytes := by
    intro role
    have hlen := length_escape_le (utf8 s)
    rw [length_utf8] at hlen
    simp only [maxEnvelopeStringBytes, maxEscapedEnvelopeBytes] at hs ⊢
    rw [remember]
    split
    · simp
    · rw [List.nil_append]
      omega
  have hopen : accountByte (between fs) 0x22 = some (inside
      (if stringRole fs = .envelopeKey then fs else clearPending fs) (stringRole fs) []) := by
    by_cases h : stringRole fs = .envelopeKey
    · simp [accountByte, between, plainByte, inside, h]
    · simp [accountByte, between, plainByte, inside, h]
  have hclose : ∀ (gs : List JsonGuardFrame) (role : BoundedStringRole),
      accountByte (inside gs role (remember role [] (escape (utf8 s)))) 0x22 =
        some (between (if role = .envelopeKey then mapTop (fun f =>
          { f with expectKey := false, pendingMethod := s == "method" }) gs else gs)) := by
    intro gs role
    have hf := finishBoundedString_ok gs role hs
    rw [accountByte, inside, if_pos rfl, stringByte]
    simp only [Bool.false_eq_true, if_false, if_true, Option.bind_eq_bind,
      show (0x22 : UInt8) ≠ 0x5C by decide]
    rw [inside] at hf
    rw [hf]
    simp [between, inside]
  rw [List.cons_append, account, hopen, Option.bind_some, account_append,
    account_escape _ _ (hl _), Option.bind_some, account, hclose, Option.bind_some]
  by_cases h : stringRole fs = .envelopeKey
  · simp only [h, if_true]
  · simp only [h, if_false]

theorem plain_isNumberByte {b : UInt8} (h : isNumberByte b = true) : b ≠ 0x22 ∧ b ≠ 0x7B ∧
    b ≠ 0x5B ∧ b ≠ 0x7D ∧ b ≠ 0x5D ∧ b ≠ 0x2C := by
  refine ⟨?_, ?_, ?_, ?_, ?_, ?_⟩
  all_goals rintro rfl; revert h; decide

/-- Any byte that has no meaning of its own only ends what was pending. -/
theorem accountByte_other {fs : List JsonGuardFrame} (hc : clearPending fs = fs) {b : UInt8}
    (h : b ≠ 0x22 ∧ b ≠ 0x7B ∧ b ≠ 0x5B ∧ b ≠ 0x7D ∧ b ≠ 0x5D ∧ b ≠ 0x2C) :
    accountByte (between fs) b = some (between fs) := by
  obtain ⟨h1, h2, h3, h4, h5, h6⟩ := h
  simp only [accountByte, between, Bool.false_eq_true, if_false, plainByte, h1, h2, h3, h4, h5, h6,
    or_self, hc]
  split <;> rfl

theorem account_others {fs : List JsonGuardFrame} (hc : clearPending fs = fs) {l : Bytes}
    (h : ∀ b ∈ l, b ≠ 0x22 ∧ b ≠ 0x7B ∧ b ≠ 0x5B ∧ b ≠ 0x7D ∧ b ≠ 0x5D ∧ b ≠ 0x2C) (bs : Bytes) :
    (between fs).account (l ++ bs) = (between fs).account bs := by
  induction l with
  | nil => rfl
  | cons b l ih =>
    rw [List.cons_append, account, accountByte_other hc (h b (by simp)), Option.bind_some,
      ih fun c hc => h c (by simp [hc])]

theorem account_number [Externals] {fs : List JsonGuardFrame} (hc : clearPending fs = fs)
    (n : Number) (bs : Bytes) :
    (between fs).account (n.lexeme floats ++ bs) = (between fs).account bs :=
  account_others hc (fun _ hb => plain_isNumberByte (n.lexeme_bytes floats hb)) bs

theorem account_colon (fs : List JsonGuardFrame) (bs : Bytes) :
    (between fs).account (0x3A :: bs) = (between fs).account bs := rfl

theorem account_comma (f : JsonGuardFrame) (fs : List JsonGuardFrame) (bs : Bytes) :
    (between (f :: fs)).account (0x2C :: bs) =
      (between ((if f.object then { f with expectKey := true, pendingMethod := false } else f)
        :: fs)).account bs := rfl

theorem account_open {fs : List JsonGuardFrame} (hc : clearPending fs = fs) {b : UInt8}
    (hb : b = 0x7B ∨ b = 0x5B) (bs : Bytes) :
    (between fs).account (b :: bs) = if maxNesting ≤ fs.length then none
      else (between (⟨b == 0x7B, b == 0x7B, false⟩ :: fs)).account bs := by
  have h1 : b ≠ 0x22 := by rintro rfl; revert hb; decide
  simp only [account, accountByte, between, Bool.false_eq_true, if_false, plainByte, h1, hb, if_true,
    hc]
  split <;> rfl

theorem account_close (f : JsonGuardFrame) (fs : List JsonGuardFrame) {b : UInt8}
    (hb : b = 0x7D ∨ b = 0x5D) (bs : Bytes) :
    (between (f :: fs)).account (b :: bs) = (between fs).account bs := by
  rcases hb with rfl | rfl <;> rfl

/-! ### Values -/

theorem quiet_arrayFrame (fs : List JsonGuardFrame) : Quiet (arrayFrame :: fs) := ⟨rfl, rfl⟩

theorem quiet_objectFrame {fs : List JsonGuardFrame} (h : 2 ≤ fs.length) :
    Quiet (objectFrame :: fs) := by
  refine ⟨?_, rfl⟩
  have hl : ¬ fs.length ≤ 1 := by omega
  simp [stringRole, hl, objectFrame]

theorem quiet_keyedFrame (fs : List JsonGuardFrame) : Quiet (keyedFrame false :: fs) := ⟨rfl, rfl⟩

/-- What the guard makes of a value of this depth. -/
def verdict (fs : List JsonGuardFrame) (depth : ℕ) (bs : Bytes) : Option GuardedJsonReader :=
  if fs.length + depth ≤ maxNesting then (between fs).account bs else none

theorem verdict_zero {fs : List JsonGuardFrame} (hl : fs.length ≤ maxNesting) (bs : Bytes) :
    verdict fs 0 bs = (between fs).account bs := if_pos hl

section Values

variable [Externals]

mutual

/-- A printed value leaves the frames as they were, unless it nests too deep. -/
theorem account_value : ∀ (v : Value) (fs : List JsonGuardFrame) (bs : Bytes), Quiet fs →
    2 ≤ fs.length → fs.length ≤ maxNesting →
    (between fs).account ((v.raw floats).print ++ bs) = verdict fs v.depth bs
  | .null, fs, bs, hq, _, hl => by
    refine Eq.trans ?_ (verdict_zero hl bs).symm
    exact account_others hq.2 (l := nullBytes) (by simp [nullBytes]) bs
  | .bool true, fs, bs, hq, _, hl => by
    refine Eq.trans ?_ (verdict_zero hl bs).symm
    exact account_others hq.2 (l := trueBytes) (by simp [trueBytes]) bs
  | .bool false, fs, bs, hq, _, hl => by
    refine Eq.trans ?_ (verdict_zero hl bs).symm
    exact account_others hq.2 (l := falseBytes) (by simp [falseBytes]) bs
  | .num n, fs, bs, hq, _, hl => by
    exact (account_number hq.2 n bs).trans (verdict_zero hl bs).symm
  | .str s, fs, bs, hq, _, hl => by
    have he : ((Value.str s).raw floats).print ++ bs =
        0x22 :: escape (utf8 s) ++ 0x22 :: bs := by simp [Value.raw, Raw.print]
    rw [he, account_string hq]
    exact (verdict_zero hl bs).symm
  | .arr [], fs, bs, hq, _, hl => by
    rw [verdict, Value.depth, maxDepth]
    have he : ((Value.arr []).raw floats).print ++ bs = 0x5B :: 0x5D :: bs := rfl
    rw [he, account_open hq.2 (.inr rfl), account_close _ _ (.inr rfl)]
    by_cases h : fs.length + (1 + 0) ≤ maxNesting
    · rw [if_pos h, if_neg (by omega)]
    · rw [if_neg h, if_pos (by omega)]
  | .arr (v :: vs), fs, bs, hq, h2, hl => by
    have he : ((Value.arr (v :: vs)).raw floats).print ++ bs =
        0x5B :: ((v.raw floats).print ++ (printItems (rawItems floats vs) ++ bs)) := by
      simp [Value.raw, rawItems, Raw.print]
    rw [he, account_open hq.2 (.inr rfl), verdict, Value.depth, maxDepth]
    by_cases hfull : maxNesting ≤ fs.length
    · rw [if_pos hfull, if_neg (by omega)]
    · have hlen : (arrayFrame :: fs).length ≤ maxNesting := by
        rw [List.length_cons]
        omega
      rw [if_neg hfull]
      refine (account_value v (arrayFrame :: fs) _ (quiet_arrayFrame fs)
        (by rw [List.length_cons]; omega) hlen).trans ?_
      rw [verdict, account_items vs fs bs h2 hlen, verdict, List.length_cons]
      split_ifs <;> first | rfl | omega
  | .obj [], fs, bs, hq, _, hl => by
    rw [verdict, Value.depth, maxMemberDepth]
    have he : ((Value.obj []).raw floats).print ++ bs = 0x7B :: 0x7D :: bs := rfl
    rw [he, account_open hq.2 (.inl rfl), account_close _ _ (.inl rfl)]
    by_cases h : fs.length + (1 + 0) ≤ maxNesting
    · rw [if_pos h, if_neg (by omega)]
    · rw [if_neg h, if_pos (by omega)]
  | .obj ((k, v) :: ms), fs, bs, hq, h2, hl => by
    have he : ((Value.obj ((k, v) :: ms)).raw floats).print ++ bs =
        0x7B :: (0x22 :: escape (utf8 k) ++ 0x22 :: 0x3A :: ((v.raw floats).print ++
          (printMembers (rawMembers floats ms) ++ bs))) := by
      simp [Value.raw, rawMembers, Raw.print]
    rw [he, account_open hq.2 (.inl rfl), verdict, Value.depth, maxMemberDepth]
    by_cases hfull : maxNesting ≤ fs.length
    · rw [if_pos hfull, if_neg (by omega)]
    · have hlen : (objectFrame :: fs).length ≤ maxNesting := by
        rw [List.length_cons]
        omega
      rw [if_neg hfull]
      refine (account_string (quiet_objectFrame h2) k _).trans ?_
      rw [account_colon, account_value v (objectFrame :: fs) _ (quiet_objectFrame h2)
        (by rw [List.length_cons]; omega) hlen, verdict, account_members ms fs bs h2 hlen, verdict,
        List.length_cons]
      split_ifs <;> first | rfl | omega

/-- The items of an array after the first, and its bracket. -/
theorem account_items : ∀ (vs : List Value) (fs : List JsonGuardFrame) (bs : Bytes),
    2 ≤ fs.length → (arrayFrame :: fs).length ≤ maxNesting →
    (between (arrayFrame :: fs)).account (printItems (rawItems floats vs) ++ bs) =
      verdict fs (1 + maxDepth vs) bs
  | [], fs, bs, _, hl => by
    rw [List.length_cons] at hl
    rw [verdict, maxDepth, if_pos (by omega)]
    exact account_close _ _ (.inr rfl) bs
  | v :: vs, fs, bs, h2, hl => by
    have he : printItems (rawItems floats (v :: vs)) ++ bs =
        0x2C :: ((v.raw floats).print ++ (printItems (rawItems floats vs) ++ bs)) := by
      simp [rawItems, printItems]
    rw [he, account_comma, if_neg (by decide), account_value v (arrayFrame :: fs) _
      (quiet_arrayFrame fs) (by rw [List.length_cons]; omega) hl, verdict,
      account_items vs fs bs h2 hl, verdict, verdict, maxDepth, List.length_cons]
    split_ifs <;> first | rfl | omega

theorem account_members : ∀ (ms : List (String × Value)) (fs : List JsonGuardFrame) (bs : Bytes),
    2 ≤ fs.length → (objectFrame :: fs).length ≤ maxNesting →
    (between (objectFrame :: fs)).account (printMembers (rawMembers floats ms) ++ bs) =
      verdict fs (1 + maxMemberDepth ms) bs
  | [], fs, bs, _, hl => by
    rw [List.length_cons] at hl
    rw [verdict, maxMemberDepth, if_pos (by omega)]
    exact account_close _ _ (.inl rfl) bs
  | (k, v) :: ms, fs, bs, h2, hl => by
    have he : printMembers (rawMembers floats ((k, v) :: ms)) ++ bs =
        0x2C :: (0x22 :: escape (utf8 k) ++ 0x22 :: 0x3A :: ((v.raw floats).print ++
          (printMembers (rawMembers floats ms) ++ bs))) := by
      simp [rawMembers, printMembers]
    have hcomma : (if objectFrame.object then
        { objectFrame with expectKey := true, pendingMethod := false } else objectFrame) =
        objectFrame := rfl
    rw [he, account_comma, hcomma, account_string (quiet_objectFrame h2) k, account_colon,
      account_value v (objectFrame :: fs) _ (quiet_objectFrame h2)
      (by rw [List.length_cons]; omega) hl, verdict, account_members ms fs bs h2 hl, verdict,
      verdict, maxMemberDepth, List.length_cons]
    split_ifs <;> first | rfl | omega

end

/-! ### Records -/

omit [Externals] in
/-- A key of the envelope or of the request in it. -/
theorem account_key {fs : List JsonGuardFrame} (hl : fs.length ≤ 1) {k : String}
    (hk : k.utf8ByteSize ≤ maxEnvelopeStringBytes) (bs : Bytes) :
    (between (objectFrame :: fs)).account (0x22 :: escape (utf8 k) ++ 0x22 :: 0x3A :: bs) =
      (between (keyedFrame (k == "method") :: fs)).account bs := by
  have hr : stringRole (objectFrame :: fs) = .envelopeKey := by simp [stringRole, objectFrame, hl]
  rw [account_envelopeString hk, if_pos hr, account_colon]
  rfl

omit [Externals] in
theorem account_method {fs : List JsonGuardFrame} (hl : fs.length ≤ 1) {m : String}
    (hm : m.utf8ByteSize ≤ maxEnvelopeStringBytes) (bs : Bytes) :
    (between (keyedFrame true :: fs)).account (0x22 :: escape (utf8 m) ++ 0x22 :: bs) =
      (between (keyedFrame false :: fs)).account bs := by
  have hr : stringRole (keyedFrame true :: fs) = .methodValue := by
    simp [stringRole, keyedFrame, hl]
  rw [account_envelopeString hm, if_neg (by rw [hr]; decide)]
  rfl

/-- A record of the log passes exactly when it nests at most 128 arrays and objects. -/
theorem account_record (baseGeneration : UInt64) {req : RpcRequest}
    (hm : req.method.utf8ByteSize ≤ maxEnvelopeStringBytes) :
    new.account ((WalRecordRef.value baseGeneration req).print floats) =
      if 2 + req.params.depth ≤ maxNesting then some (between []) else none := by
  have he : (WalRecordRef.value baseGeneration req).print floats =
      0x7B :: (0x22 :: escape (utf8 "version") ++ 0x22 :: 0x3A ::
        ((Number.posInt walVersion.toUInt64).lexeme floats ++ 0x2C ::
        (0x22 :: escape (utf8 "baseGeneration") ++ 0x22 :: 0x3A ::
        ((Number.posInt baseGeneration).lexeme floats ++ 0x2C ::
        (0x22 :: escape (utf8 "request") ++ 0x22 :: 0x3A ::
        0x7B :: (0x22 :: escape (utf8 "id") ++ 0x22 :: 0x3A ::
        ((Number.posInt req.id).lexeme floats ++ 0x2C ::
        (0x22 :: escape (utf8 "method") ++ 0x22 :: 0x3A ::
        (0x22 :: escape (utf8 req.method) ++ 0x22 :: 0x2C ::
        (0x22 :: escape (utf8 "params") ++ 0x22 :: 0x3A ::
        ((req.params.raw floats).print ++ [0x7D, 0x7D]))))))))))) := by
    simp [Value.print, WalRecordRef.value, RpcRequest.value, Value.raw, rawMembers, Raw.print,
      printMembers]
  have hcomma (fs : List JsonGuardFrame) (bs : Bytes) :
      (between (keyedFrame false :: fs)).account (0x2C :: bs) =
        (between (objectFrame :: fs)).account bs := rfl
  have hopen (fs : List JsonGuardFrame) (hc : clearPending fs = fs)
      (hl : fs.length < maxNesting) (bs : Bytes) :
      (between fs).account (0x7B :: bs) = (between (objectFrame :: fs)).account bs := by
    rw [account_open hc (.inl rfl), if_neg (by omega)]
    rfl
  have hnum (fs : List JsonGuardFrame) (n : Number) (bs : Bytes) :
      (between (keyedFrame false :: fs)).account (n.lexeme floats ++ bs) =
        (between (keyedFrame false :: fs)).account bs := account_number rfl n bs
  rw [he, show new = between [] from rfl, hopen [] rfl (by decide),
    account_key (by decide) (by decide), show ("version" == "method") = false by decide, hnum,
    hcomma, account_key (by decide) (by decide),
    show ("baseGeneration" == "method") = false by decide, hnum, hcomma,
    account_key (by decide) (by decide), show ("request" == "method") = false by decide,
    hopen [keyedFrame false] rfl (by decide), account_key (by decide) (by decide),
    show ("id" == "method") = false by decide, hnum, hcomma, account_key (by decide) (by decide),
    show ("method" == "method") = true by decide, account_method (by decide) hm, hcomma,
    account_key (by decide) (by decide), show ("params" == "method") = false by decide,
    account_value _ _ _ (quiet_keyedFrame _) (by decide) (by decide)]
  rfl

end Values

end AiraGraphdb.Native.GuardedJsonReader
