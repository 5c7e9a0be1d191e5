import Mathlib

/-! # Texts as lists of characters

The operations of a string type that hand-written scanners use. A position counts characters; a
search gives the first (`find`) or the last (`rfind`) occurrence. What counts as a blank is a
parameter. -/

namespace Schemes

abbrev Text := List Char

namespace Text

section Blank

variable (blank : Char → Bool)

def trimStart (s : Text) : Text := s.dropWhile blank

def trimEnd (s : Text) : Text := (s.reverse.dropWhile blank).reverse

def trim (s : Text) : Text := trimEnd blank (trimStart blank s)

/-- The maximal pieces without blanks. -/
def words (s : Text) : List Text := (s.splitOnP blank).filter fun w => !w.isEmpty

theorem length_trimStart_le (s : Text) : (trimStart blank s).length ≤ s.length :=
  (List.dropWhile_sublist _).length_le

theorem length_trim_le (s : Text) : (trim blank s).length ≤ s.length := by
  have h := (List.dropWhile_sublist blank (l := (trimStart blank s).reverse)).length_le
  rw [List.length_reverse] at h
  rw [trim, trimEnd, List.length_reverse]
  exact h.trans (length_trimStart_le blank s)

end Blank

/-! ### Prefixes and searches -/

def startsWith (s pat : Text) : Bool := pat.isPrefixOf s

def endsWith (s pat : Text) : Bool := pat.isSuffixOf s

def stripPrefix (s pat : Text) : Option Text :=
  if s.startsWith pat then some (s.drop pat.length) else none

def stripSuffix (s pat : Text) : Option Text :=
  if s.endsWith pat then some (s.take (s.length - pat.length)) else none

/-- The position of the first occurrence. -/
def find (pat : Text) : Text → Option ℕ
  | [] => if pat.isEmpty then some 0 else none
  | c :: cs => if startsWith (c :: cs) pat then some 0 else (find pat cs).map (· + 1)

/-- The position of the last occurrence. -/
def rfind (pat : Text) : Text → Option ℕ
  | [] => if pat.isEmpty then some 0 else none
  | c :: cs => match rfind pat cs with
    | some i => some (i + 1)
    | none => if startsWith (c :: cs) pat then some 0 else none

def contains (s pat : Text) : Bool := (find pat s).isSome

/-- What stands before and after the first occurrence. -/
def splitOnce (pat s : Text) : Option (Text × Text) :=
  (find pat s).map fun i => (s.take i, s.drop (i + pat.length))

/-- The text with the first occurrence replaced. -/
def replaceFirst (s pat new : Text) : Text :=
  match splitOnce pat s with
  | some (before, after) => before ++ new ++ after
  | none => s

/-- The text from `i` up to `j`; there is none when `j` comes before `i`. -/
def slice (s : Text) (i j : ℕ) : Option Text :=
  if i ≤ j then some ((s.take j).drop i) else none

/-- The text without the occurrences of `pat` at its start, at most `n` of them. -/
def dropStarts (pat : Text) : ℕ → Text → Text
  | 0, s => s
  | n + 1, s => match stripPrefix s pat with
    | some rest => dropStarts pat n rest
    | none => s

/-- The text without all occurrences of a non-empty `pat` at its start. -/
def trimStartMatches (s pat : Text) : Text := dropStarts pat s.length s

theorem startsWith_iff {s pat : Text} : s.startsWith pat = true ↔ pat <+: s :=
  List.isPrefixOf_iff_prefix

theorem stripPrefix_eq_some {s pat rest : Text} : stripPrefix s pat = some rest ↔ s = pat ++ rest := by
  rw [stripPrefix]
  split_ifs with h
  · obtain ⟨t, rfl⟩ := startsWith_iff.mp h
    simp [eq_comm]
  · simp only [false_iff]
    rintro rfl
    exact h (startsWith_iff.mpr (List.prefix_append _ _))

/-! ### Numbers -/

def digit? (c : Char) : Option ℕ := if c.isDigit then some (c.toNat - '0'.toNat) else none

/-- The value of a non-empty row of digits. -/
def digits? (s : Text) : Option ℕ :=
  if s.isEmpty then none
  else s.foldlM (fun n c => (digit? c).map (10 * n + ·)) 0

/-- A text without its sign, and whether that was a minus. -/
def sign (s : Text) : Bool × Text :=
  match s with
  | '-' :: r => (true, r)
  | '+' :: r => (false, r)
  | _ => (false, s)

/-- A signed integer of 64 bits. -/
def parseI64 (s : Text) : Option Int64 := do
  let (neg, r) := sign s
  let n ← digits? r
  if neg then if n ≤ 2 ^ 63 then some (Int64.ofInt (-n)) else none
  else if n < 2 ^ 63 then some (Int64.ofNat n) else none

/-- An unsigned integer of 64 bits: no minus sign. -/
def parseU64 (s : Text) : Option ℕ := do
  let r := match s with
    | '+' :: r => r
    | _ => s
  let n ← digits? r
  if n < 2 ^ 64 then some n else none

def eqIgnoreAsciiCase (s t : Text) : Bool := s.map Char.toLower == t.map Char.toLower

end Text

end Schemes
