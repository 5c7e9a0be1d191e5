import AiraGraphdb.Schemes.Json.Number

/-! # The syntax of JSON documents

A `Raw` tree is a document as it stands in the text: strings escaped, numbers as lexemes, the
members of an object in their order and with their repetitions. `parse` is the grammar alone;
what a reader makes of a string or a number, and how deep it is willing to go, is decided on the
tree. `parse_print` is the round trip, over every tree whose tokens are well formed. -/

namespace Schemes.Json

inductive Raw where
  | null
  | bool (b : Bool)
  | num (lexeme : Bytes)
  | str (raw : Bytes)
  | arr (items : List Raw)
  | obj (members : List (Bytes × Raw))

def isSpace (b : UInt8) : Bool := b == 0x20 || b == 0x0A || b == 0x0D || b == 0x09

def skipSpace (bs : Bytes) : Bytes := bs.dropWhile isSpace

/-- The rest of `bs` after the literal. -/
def lexLiteral (literal bs : Bytes) : Option Bytes :=
  if literal.isPrefixOf bs then some (bs.drop literal.length) else none

def trueBytes : Bytes := [0x74, 0x72, 0x75, 0x65]
def falseBytes : Bytes := [0x66, 0x61, 0x6C, 0x73, 0x65]
def nullBytes : Bytes := [0x6E, 0x75, 0x6C, 0x6C]

/-! ### Parsing -/

mutual

/-- A value off the front, and what follows. The first argument bounds the steps; the length of
    the text is always enough. -/
def parseValue : ℕ → Bytes → Option (Raw × Bytes)
  | 0, _ => none
  | n + 1, bs =>
    match skipSpace bs with
    | [] => none
    | b :: r =>
      if b = 0x7B then
        match skipSpace r with
        | [] => none
        | c :: r' => if c = 0x7D then some (.obj [], r')
            else (parseMembers n (c :: r')).map fun p => (.obj p.1, p.2)
      else if b = 0x5B then
        match skipSpace r with
        | [] => none
        | c :: r' => if c = 0x5D then some (.arr [], r')
            else (parseItems n (c :: r')).map fun p => (.arr p.1, p.2)
      else if b = 0x22 then (lexString r).map fun p => (.str p.1, p.2)
      else if b = 0x74 then (lexLiteral trueBytes (b :: r)).map fun r => (.bool true, r)
      else if b = 0x66 then (lexLiteral falseBytes (b :: r)).map fun r => (.bool false, r)
      else if b = 0x6E then (lexLiteral nullBytes (b :: r)).map fun r => (.null, r)
      else (lexNumber (b :: r)).map fun p => (.num p.1, p.2)

/-- The items of a non-empty array, up to its closing bracket. -/
def parseItems : ℕ → Bytes → Option (List Raw × Bytes)
  | 0, _ => none
  | n + 1, bs => do
    let (v, r) ← parseValue n bs
    match skipSpace r with
    | [] => none
    | b :: r' =>
      if b = 0x5D then return ([v], r')
      else if b = 0x2C then
        let (vs, r'') ← parseItems n r'
        return (v :: vs, r'')
      else none

/-- The members of a non-empty object, up to its closing brace. -/
def parseMembers : ℕ → Bytes → Option (List (Bytes × Raw) × Bytes)
  | 0, _ => none
  | n + 1, bs =>
    match skipSpace bs with
    | [] => none
    | q :: r => do
      if q ≠ 0x22 then none else
      let (k, r) ← lexString r
      match skipSpace r with
      | [] => none
      | c :: r =>
        if c ≠ 0x3A then none else
        let (v, r) ← parseValue n r
        match skipSpace r with
        | [] => none
        | b :: r' =>
          if b = 0x7D then return ([(k, v)], r')
          else if b = 0x2C then
            let (ms, r'') ← parseMembers n r'
            return ((k, v) :: ms, r'')
          else none

end

/-- A whole text that is one value, with nothing but white space around it. -/
def parse (bs : Bytes) : Option Raw :=
  match parseValue (bs.length + 1) bs with
  | some (v, r) => if (skipSpace r).isEmpty then some v else none
  | none => none

/-! ### Printing -/

mutual

/-- The compact form. -/
def Raw.print : Raw → Bytes
  | .null => nullBytes
  | .bool true => trueBytes
  | .bool false => falseBytes
  | .num l => l
  | .str s => 0x22 :: s ++ [0x22]
  | .arr [] => [0x5B, 0x5D]
  | .arr (v :: vs) => 0x5B :: v.print ++ printItems vs
  | .obj [] => [0x7B, 0x7D]
  | .obj ((k, v) :: ms) => 0x7B :: 0x22 :: k ++ 0x22 :: 0x3A :: v.print ++ printMembers ms

/-- The items after the first, and the closing bracket. -/
def printItems : List Raw → Bytes
  | [] => [0x5D]
  | v :: vs => 0x2C :: v.print ++ printItems vs

/-- The members after the first, and the closing brace. -/
def printMembers : List (Bytes × Raw) → Bytes
  | [] => [0x7D]
  | (k, v) :: ms => 0x2C :: 0x22 :: k ++ 0x22 :: 0x3A :: v.print ++ printMembers ms

end

/-- The items of an array without its opening bracket. -/
def printItemList : List Raw → Bytes
  | [] => [0x5D]
  | v :: vs => v.print ++ printItems vs

/-- The members of an object without its opening brace. -/
def printMemberList : List (Bytes × Raw) → Bytes
  | [] => [0x7D]
  | (k, v) :: ms => 0x22 :: k ++ 0x22 :: 0x3A :: v.print ++ printMembers ms

/-! ### Size -/

mutual

/-- The steps the parser takes. -/
def Raw.size : Raw → ℕ
  | .arr vs => 1 + sizeItems vs
  | .obj ms => 1 + sizeMembers ms
  | _ => 1

def sizeItems : List Raw → ℕ
  | [] => 0
  | v :: vs => 1 + v.size + sizeItems vs

def sizeMembers : List (Bytes × Raw) → ℕ
  | [] => 0
  | (_, v) :: ms => 1 + v.size + sizeMembers ms

end

/-! ### Depth -/

mutual

/-- How many arrays and objects are nested in one another. -/
def Raw.depth : Raw → ℕ
  | .arr vs => 1 + depthItems vs
  | .obj ms => 1 + depthMembers ms
  | _ => 0

def depthItems : List Raw → ℕ
  | [] => 0
  | v :: vs => max v.depth (depthItems vs)

def depthMembers : List (Bytes × Raw) → ℕ
  | [] => 0
  | (_, v) :: ms => max v.depth (depthMembers ms)

end

/-! ### Well-formed trees -/

/-- The escaped form of some text's bytes; the lexer returns it whole. -/
def Lexes (raw : Bytes) : Prop := ∀ r, lexString (raw ++ 0x22 :: r) = some (raw, r)

/-- A lexeme that the lexer returns whole. -/
def LexesNumber (l : Bytes) : Prop := ∀ r, NumberEnds r → lexNumber (l ++ r) = some (l, r)

mutual

/-- Every string and every number of the tree is a token. -/
def Raw.Tokens : Raw → Prop
  | .num l => LexesNumber l
  | .str s => Lexes s
  | .arr vs => TokensItems vs
  | .obj ms => TokensMembers ms
  | _ => True

def TokensItems : List Raw → Prop
  | [] => True
  | v :: vs => v.Tokens ∧ TokensItems vs

def TokensMembers : List (Bytes × Raw) → Prop
  | [] => True
  | (k, v) :: ms => Lexes k ∧ v.Tokens ∧ TokensMembers ms

end

/-! ### What was printed is parsed -/

/-- The first byte of a printed value decides how it is parsed. -/
def startsValue (b : UInt8) : Bool :=
  b == 0x7B || b == 0x5B || b == 0x22 || b == 0x74 || b == 0x66 || b == 0x6E || b == 0x2D ||
    isDigit b

theorem LexesNumber.head {l : Bytes} (h : LexesNumber l) :
    ∃ b l', l = b :: l' ∧ (b = 0x2D ∨ isDigit b = true) := by
  have hl := h [] (by intro b hb; cases hb)
  exact (lexNumber_bytes hl).2.2

theorem print_head (v : Raw) (hv : v.Tokens) :
    ∃ b l, v.print = b :: l ∧ startsValue b = true := by
  rcases v with _ | (_ | _) | l | s | (_ | ⟨v, vs⟩) | (_ | ⟨⟨k, v⟩, ms⟩)
  · exact ⟨0x6E, _, rfl, by decide⟩
  · exact ⟨0x66, _, rfl, by decide⟩
  · exact ⟨0x74, _, rfl, by decide⟩
  · obtain ⟨b, l', rfl, hb⟩ := LexesNumber.head hv
    refine ⟨b, l', rfl, ?_⟩
    rcases hb with rfl | hb
    · decide
    · simp [startsValue, hb]
  · exact ⟨0x22, _, rfl, by decide⟩
  · exact ⟨0x5B, _, rfl, by decide⟩
  · exact ⟨0x5B, _, by rw [Raw.print]; rfl, by decide⟩
  · exact ⟨0x7B, _, rfl, by decide⟩
  · exact ⟨0x7B, _, by rw [Raw.print]; rfl, by decide⟩

theorem skipSpace_cons {b : UInt8} (h : isSpace b = false) (r : Bytes) :
    skipSpace (b :: r) = b :: r := by
  rw [skipSpace, List.dropWhile_cons_of_neg (by simp [h])]

theorem skipSpace_print (v : Raw) (hv : v.Tokens) (r : Bytes) :
    skipSpace (v.print ++ r) = v.print ++ r := by
  obtain ⟨b, l, he, hb⟩ := print_head v hv
  have hs : isSpace b = false := by
    have key : ∀ b : UInt8, startsValue b = true → isSpace b = false := by
      intro b hb
      by_contra hs
      simp only [isSpace, Bool.not_eq_false, Bool.or_eq_true, beq_iff_eq] at hs
      rcases hs with ((rfl | rfl) | rfl) | rfl <;> revert hb <;> decide
    exact key b hb
  rw [he, List.cons_append, skipSpace_cons hs]

theorem lexLiteral_append (literal r : Bytes) : lexLiteral literal (literal ++ r) = some r := by
  have h : literal.isPrefixOf (literal ++ r) = true := by
    rw [List.isPrefixOf_iff_prefix]
    exact List.prefix_append _ _
  rw [lexLiteral, if_pos h, List.drop_left]

theorem numberEnds_cons {b : UInt8} (h : isNumberByte b = false) (r : Bytes) :
    NumberEnds (b :: r) := by
  intro c hc
  cases hc
  exact h

theorem numberEnds_printItems (vs : List Raw) (r : Bytes) : NumberEnds (printItems vs ++ r) := by
  cases vs with
  | nil => exact numberEnds_cons (by decide) _
  | cons v vs => exact numberEnds_cons (by decide) _

theorem numberEnds_printMembers (ms : List (Bytes × Raw)) (r : Bytes) :
    NumberEnds (printMembers ms ++ r) := by
  cases ms with
  | nil => exact numberEnds_cons (by decide) _
  | cons m ms => exact numberEnds_cons (by decide) _

/-- A number is parsed by the last branch, whatever its first byte. -/
theorem parseValue_number {l : Bytes} (hl : LexesNumber l) (n : ℕ) {r : Bytes}
    (hr : NumberEnds r) : parseValue (n + 1) (l ++ r) = some (.num l, r) := by
  have hlex := hl r hr
  obtain ⟨b, l', rfl, hb⟩ := hl.head
  have hne : isSpace b = false ∧ b ≠ 0x7B ∧ b ≠ 0x5B ∧ b ≠ 0x22 ∧ b ≠ 0x74 ∧ b ≠ 0x66 ∧
      b ≠ 0x6E := by
    rcases hb with rfl | hb
    · decide
    · refine ⟨?_, ?_, ?_, ?_, ?_, ?_, ?_⟩
      · by_contra hs
        simp only [isSpace, Bool.not_eq_false, Bool.or_eq_true, beq_iff_eq] at hs
        rcases hs with ((rfl | rfl) | rfl) | rfl <;> revert hb <;> decide
      all_goals rintro rfl; revert hb; decide
  obtain ⟨h0, h1, h2, h3, h4, h5, h6⟩ := hne
  rw [List.cons_append] at hlex ⊢
  rw [parseValue, skipSpace_cons h0]
  simp only [h1, h2, h3, h4, h5, h6, if_false, hlex, Option.map_some]

theorem parseValue_quote (n : ℕ) (bs : Bytes) :
    parseValue (n + 1) (0x22 :: bs) = (lexString bs).map fun p => (.str p.1, p.2) := by
  rw [parseValue, skipSpace_cons (by decide)]
  simp

theorem parseValue_bracket (n : ℕ) {bs r : Bytes} {c : UInt8} (h : skipSpace bs = c :: r)
    (hc : c ≠ 0x5D) :
    parseValue (n + 1) (0x5B :: bs) = (parseItems n (c :: r)).map fun p => (.arr p.1, p.2) := by
  rw [parseValue, skipSpace_cons (by decide)]
  simp [h, hc]

theorem parseValue_brace (n : ℕ) {bs r : Bytes} {c : UInt8} (h : skipSpace bs = c :: r)
    (hc : c ≠ 0x7D) :
    parseValue (n + 1) (0x7B :: bs) = (parseMembers n (c :: r)).map fun p => (.obj p.1, p.2) := by
  rw [parseValue, skipSpace_cons (by decide)]
  simp [h, hc]

/-- One member off the front. -/
theorem parseMembers_cons {n : ℕ} {k bs r : Bytes} {v : Raw} (hk : Lexes k)
    (hv : parseValue n bs = some (v, r)) :
    parseMembers (n + 1) (0x22 :: k ++ 0x22 :: 0x3A :: bs) =
      match skipSpace r with
      | [] => none
      | b :: r' =>
        if b = 0x7D then some ([(k, v)], r')
        else if b = 0x2C then (parseMembers n r').map fun p => ((k, v) :: p.1, p.2)
        else none := by
  rw [parseMembers, List.cons_append, skipSpace_cons (by decide)]
  simp only [ne_eq, not_true_eq_false, if_false, hk (0x3A :: bs), Option.bind_eq_bind,
    Option.bind_some, skipSpace_cons (show isSpace 0x3A = false by decide), hv]
  rcases skipSpace r with _ | ⟨b, r'⟩
  · rfl
  · dsimp only
    split
    · rfl
    · split
      · rcases parseMembers n r' with _ | ⟨ms, r''⟩ <;> rfl
      · rfl

mutual

theorem parseValue_print : ∀ (v : Raw) (n : ℕ) (r : Bytes), v.size ≤ n → v.Tokens →
    NumberEnds r → parseValue n (v.print ++ r) = some (v, r)
  | .null, n + 1, r, _, _, _ => by
    rw [Raw.print, parseValue]
    exact congrArg (Option.map _) (lexLiteral_append nullBytes r)
  | .bool true, n + 1, r, _, _, _ => by
    rw [Raw.print, parseValue]
    exact congrArg (Option.map _) (lexLiteral_append trueBytes r)
  | .bool false, n + 1, r, _, _, _ => by
    rw [Raw.print, parseValue]
    exact congrArg (Option.map _) (lexLiteral_append falseBytes r)
  | .num l, n + 1, r, _, ht, hr => parseValue_number ht n hr
  | .str s, n + 1, r, _, ht, _ => by
    have hl : lexString (s ++ 0x22 :: r) = some (s, r) := ht r
    have he : (Raw.str s).print ++ r = 0x22 :: (s ++ 0x22 :: r) := by simp [Raw.print]
    rw [he, parseValue_quote, hl, Option.map_some]
  | .arr [], n + 1, r, _, _, _ => by
    rw [Raw.print, parseValue]
    rfl
  | .arr (v :: vs), n + 1, r, hn, ht, _ => by
    have hi := parseItems_print (v :: vs) n r (by simp [Raw.size] at hn; omega) ht (by simp)
    obtain ⟨b, l, he, hb⟩ := print_head v ht.1
    have hsk := skipSpace_print v ht.1 (printItems vs ++ r)
    have hb' : b ≠ 0x5D := by rintro rfl; exact absurd hb (by decide)
    simp only [printItemList, he, List.cons_append, List.append_assoc] at hi hsk
    simp only [Raw.print, he, List.cons_append, List.append_assoc]
    rw [parseValue_bracket n hsk hb', hi, Option.map_some]
  | .obj [], n + 1, r, _, _, _ => by
    rw [Raw.print, parseValue]
    rfl
  | .obj ((k, v) :: ms), n + 1, r, hn, ht, _ => by
    have hm := parseMembers_print ((k, v) :: ms) n r (by simp [Raw.size] at hn; omega) ht (by simp)
    simp only [printMemberList, List.cons_append, List.append_assoc] at hm
    simp only [Raw.print, List.cons_append, List.append_assoc]
    rw [parseValue_brace n (skipSpace_cons (by decide) _) (by decide), hm, Option.map_some]
  | .null, 0, _, h, _, _ => by simp [Raw.size] at h
  | .bool _, 0, _, h, _, _ => by simp [Raw.size] at h
  | .num _, 0, _, h, _, _ => by simp [Raw.size] at h
  | .str _, 0, _, h, _, _ => by simp [Raw.size] at h
  | .arr _, 0, _, h, _, _ => by simp [Raw.size] at h
  | .obj _, 0, _, h, _, _ => by simp [Raw.size] at h

theorem parseItems_print : ∀ (vs : List Raw) (n : ℕ) (r : Bytes), sizeItems vs ≤ n →
    TokensItems vs → vs ≠ [] → parseItems n (printItemList vs ++ r) = some (vs, r)
  | [], _, _, _, _, h => absurd rfl h
  | _ :: _, 0, _, h, _, _ => by simp [sizeItems] at h
  | v :: vs, n + 1, r, hn, ht, _ => by
    simp only [sizeItems] at hn
    have hv := parseValue_print v n (printItems vs ++ r) (by omega) ht.1
      (numberEnds_printItems vs r)
    rw [printItemList, List.append_assoc, parseItems, hv]
    rcases vs with _ | ⟨w, ws⟩
    · rfl
    · have hws := parseItems_print (w :: ws) n r (by omega) ht.2 (by simp)
      have hsk : skipSpace (printItems (w :: ws) ++ r) = 0x2C :: (printItemList (w :: ws) ++ r) := by
        rw [printItems, printItemList]
        exact skipSpace_cons (by decide) _
      simp [hsk, hws]

theorem parseMembers_print : ∀ (ms : List (Bytes × Raw)) (n : ℕ) (r : Bytes),
    sizeMembers ms ≤ n → TokensMembers ms → ms ≠ [] →
    parseMembers n (printMemberList ms ++ r) = some (ms, r)
  | [], _, _, _, _, h => absurd rfl h
  | _ :: _, 0, _, h, _, _ => by simp [sizeMembers] at h
  | (k, v) :: ms, n + 1, r, hn, ht, _ => by
    simp only [sizeMembers] at hn
    have hv := parseValue_print v n (printMembers ms ++ r) (by omega) ht.2.1
      (numberEnds_printMembers ms r)
    have he : printMemberList ((k, v) :: ms) ++ r =
        0x22 :: k ++ 0x22 :: 0x3A :: (v.print ++ (printMembers ms ++ r)) := by
      simp [printMemberList]
    rw [he, parseMembers_cons ht.1 hv]
    rcases ms with _ | ⟨⟨k', v'⟩, ms⟩
    · rfl
    · have hms := parseMembers_print ((k', v') :: ms) n r (by omega) ht.2.2 (by simp)
      have hsk : skipSpace (printMembers ((k', v') :: ms) ++ r) =
          0x2C :: (printMemberList ((k', v') :: ms) ++ r) := by
        rw [printMembers, printMemberList]
        exact skipSpace_cons (by decide) _
      simp [hsk, hms]

end

mutual

theorem size_le_length : ∀ v : Raw, v.Tokens → v.size ≤ v.print.length
  | .null, _ => by simp [Raw.size, Raw.print, nullBytes]
  | .bool true, _ => by simp [Raw.size, Raw.print, trueBytes]
  | .bool false, _ => by simp [Raw.size, Raw.print, falseBytes]
  | .num l, ht => by
    obtain ⟨b, l', rfl, -⟩ := LexesNumber.head ht
    simp [Raw.size, Raw.print]
  | .str s, _ => by simp [Raw.size, Raw.print]
  | .arr [], _ => by simp [Raw.size, Raw.print, sizeItems]
  | .arr (v :: vs), ht => by
    have hv := size_le_length v ht.1
    have hvs := sizeItems_le_length vs ht.2
    simp only [Raw.size, sizeItems, Raw.print, List.length_cons, List.length_append]
    omega
  | .obj [], _ => by simp [Raw.size, Raw.print, sizeMembers]
  | .obj ((k, v) :: ms), ht => by
    have hv := size_le_length v ht.2.1
    have hms := sizeMembers_le_length ms ht.2.2
    simp only [Raw.size, sizeMembers, Raw.print, List.length_cons, List.length_append]
    omega

theorem sizeItems_le_length : ∀ vs : List Raw, TokensItems vs →
    sizeItems vs + 1 ≤ (printItems vs).length
  | [], _ => by simp [sizeItems, printItems]
  | v :: vs, ht => by
    have hv := size_le_length v ht.1
    have hvs := sizeItems_le_length vs ht.2
    simp only [sizeItems, printItems, List.length_cons, List.length_append]
    omega

theorem sizeMembers_le_length : ∀ ms : List (Bytes × Raw), TokensMembers ms →
    sizeMembers ms + 1 ≤ (printMembers ms).length
  | [], _ => by simp [sizeMembers, printMembers]
  | (k, v) :: ms, ht => by
    have hv := size_le_length v ht.2.1
    have hms := sizeMembers_le_length ms ht.2.2
    simp only [sizeMembers, printMembers, List.length_cons, List.length_append]
    omega

end

/-- A printed document is parsed back to its tree. -/
theorem parse_print (v : Raw) (hv : v.Tokens) : parse v.print = some v := by
  have h := parseValue_print v (v.print.length + 1) [] (by have := size_le_length v hv; omega) hv
    (by intro b hb; cases hb)
  rw [List.append_nil] at h
  rw [parse, h]
  rfl

end Schemes.Json
