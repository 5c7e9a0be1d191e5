import AiraGraphdb.Library.Query.Tokens
import AiraGraphdb.Schemes.Decimals

/-! # Literals and maps of properties

What the scanners read of a literal, of an assignment and of a map of properties. The map is cut at
every comma, also at one inside of a string: what is left of such a string is no literal. -/

namespace AiraGraphdb.Library.Query

open Schemes InMemoryGraphStore
open Text (Clear)

/-! ### Literals -/

/-- A literal of a query. -/
inductive Literal where
  | string (s : Text) (quoteless : '\'' ∉ s)
  | int64 (n : Text.Integer)
  | float64 (x : Text.Number) (fractional : x.Fractional)
  | bool (b : Bool)

namespace Literal

def text : Literal → Text
  | .string s _ => '\'' :: (s ++ ['\''])
  | .int64 n => n.text
  | .float64 x _ => x.text
  | .bool b => (if b then "true" else "false").toList

/-- What the literal stands for. -/
def value : Literal → Value
  | .string s _ => .string (String.ofList s)
  | .int64 n => .int64 (Int64.ofInt n.toInt)
  | .float64 x _ => .float64 ⟨x.toF64.bits⟩
  | .bool b => .bool b

/-- The characters of a string. -/
def chars : Literal → Text
  | .string s _ => s
  | _ => []

end Literal

/-- A character of a name, or of a literal that is no string. -/
def plainChar (c : Char) : Bool := flatChar c && !isWhitespace c && c != ','

theorem plainChar_of_nameChar {c : Char} (h : nameChar c = true) : plainChar c = true := by
  have hblank := h
  rw [nameChar, Bool.and_eq_true] at hblank
  have hcomma : c ≠ ',' := ne_of_nameChar h rfl
  simp [plainChar, flatChar_of_nameChar h, hcomma, hblank.1]

theorem plainChar_of_digit {c : Char} (h : c.isDigit = true) : plainChar c = true :=
  plainChar_of_nameChar (nameChar_of_digit h)

theorem plainChar_sign (σ : Text.Sign) : ∀ c ∈ σ.text, plainChar c = true := by
  cases σ with
  | none => nofun
  | plus => exact List.forall_mem_singleton.mpr rfl
  | minus => exact List.forall_mem_singleton.mpr rfl

theorem plainChar_of_number {c : Char} (h : Text.Number.numberChar c = true) : plainChar c = true := by
  simp only [Text.Number.numberChar, Bool.or_eq_true, beq_iff_eq] at h
  rcases h with ((((h | rfl) | rfl) | rfl) | rfl) | rfl
  · exact plainChar_of_digit h
  all_goals rfl

theorem blank_of_plain {c : Char} (h : plainChar c = true) : isWhitespace c = false := by
  simp only [plainChar, Bool.and_eq_true, Bool.not_eq_true'] at h
  exact h.1.2

theorem flat_of_plain {c : Char} (h : plainChar c = true) : flatChar c = true := by
  simp only [plainChar, Bool.and_eq_true] at h
  exact h.1.1

theorem ne_of_plain {c d : Char} (hc : plainChar c = true) (hd : plainChar d = false) : c ≠ d := by
  rintro rfl
  exact Bool.false_ne_true (hd.symm.trans hc)

namespace Literal

/-- The shape of a literal: a string between quotes, or plain characters. -/
inductive Shape : Literal → Prop
  | string (s : Text) (hs : '\'' ∉ s) : Shape (.string s hs)
  | plain (v : Literal) (hne : v.text ≠ []) (hplain : ∀ c ∈ v.text, plainChar c = true)
      (hchars : v.chars = []) : Shape v

theorem shape (v : Literal) : v.Shape := by
  cases v with
  | string s hs => exact .string s hs
  | int64 n =>
    refine .plain _ (by simp [text, Text.Integer.text, n.ne_nil]) (fun c hc => ?_) rfl
    rcases List.mem_append.mp hc with hc | hc
    · exact plainChar_sign _ c hc
    · exact plainChar_of_digit (n.isDigits c hc)
  | float64 x hx =>
    obtain ⟨d, hd, -⟩ := x.exists_digit
    exact .plain _ (List.ne_nil_of_mem (List.mem_append_right _ hd))
      (fun c hc => plainChar_of_number (x.numberChar_text c hc)) rfl
  | bool b => cases b <;> exact .plain _ (by decide) (List.all_eq_true.mp rfl) rfl

theorem text_ne_nil (v : Literal) : v.text ≠ [] := by
  cases v.shape with
  | string s hs => simp [text]
  | plain v hne hplain hchars => exact hne

/-- A character that no plain text has is one of a string. -/
theorem mem_chars {v : Literal} {c : Char} (hplain : plainChar c = false) (hquote : c ≠ '\'') :
    c ∈ v.text ↔ c ∈ v.chars := by
  cases v.shape with
  | string s hs => simp [text, chars, hquote]
  | plain v hne hv hchars =>
    rw [hchars]
    exact ⟨fun hc => absurd (hv c hc) (by simp [hplain]), nofun⟩

theorem quoteless (v : Literal) : '\'' ∉ v.chars := by
  cases v with
  | string s hs => exact hs
  | int64 n => exact List.not_mem_nil
  | float64 x hx => exact List.not_mem_nil
  | bool b => exact List.not_mem_nil

theorem blank_ends (v : Literal) : (∀ c ∈ v.text.head?, isWhitespace c = false) ∧
    ∀ c ∈ v.text.getLast?, isWhitespace c = false := by
  cases v.shape with
  | string s hs =>
    have hquote : isWhitespace '\'' = false := rfl
    constructor
    · simpa [text] using hquote
    · rw [text, ← List.cons_append, List.getLast?_concat]
      simp [hquote]
  | plain v hne hv hchars =>
    exact ⟨fun c hc => blank_of_plain (hv c (List.mem_of_head? hc)),
      fun c hc => blank_of_plain (hv c (List.mem_of_getLast? hc))⟩

theorem trim_text (v : Literal) : trim v.text = v.text :=
  Text.trim_eq_self v.blank_ends.1 v.blank_ends.2

end Literal

theorem startsWith_quote_of_plain {s : Text} (h : ∀ c ∈ s, plainChar c = true) :
    startsWith s "'" = false := by
  rcases s with _ | ⟨c, s⟩
  · rfl
  · have hne : c ≠ '\'' := ne_of_plain (h c (by simp)) rfl
    rw [startsWith, Text.startsWith, Bool.eq_false_iff, ne_eq, List.isPrefixOf_iff_prefix]
    exact fun hpre => hne (List.cons_prefix_cons.mp hpre).1.symm

/-- A text with a digit is no word for a truth value. -/
theorem parseValue_number {s : Text} (h : ∀ c ∈ s, plainChar c = true) {c : Char} (hc : c ∈ s)
    (hdigit : c.isDigit = true) :
    parseValue s = match Text.parseI64 s with
      | some n => .ok (.int64 n)
      | none => match F64.ofText s with
        | some x => .ok (.float64 ⟨x.bits⟩)
        | none => .error (syntaxError "unsupported literal value") := by
  rw [parseValue, startsWith_quote_of_plain h, Text.eqIgnoreAsciiCase_digit hc hdigit (by decide),
    Text.eqIgnoreAsciiCase_digit hc hdigit (by decide)]
  rfl

theorem parseValue_string {s : Text} :
    parseValue ('\'' :: (s ++ ['\''])) = .ok (.string (String.ofList s)) := by
  have hend : Text.endsWith ('\'' :: (s ++ ['\''])) ['\''] = true := by
    rw [Text.endsWith, List.isSuffixOf_iff_suffix, ← List.cons_append]
    exact List.suffix_append _ _
  have hstart : startsWith ('\'' :: (s ++ ['\''])) "'" = true := rfl
  rw [parseValue, hstart, hend, if_pos (by simp)]
  simp

/-- A literal is read as what it stands for. -/
theorem parseValue_text (v : Literal) : parseValue v.text = .ok v.value := by
  have hshape := v.shape
  cases v with
  | string s hs => exact parseValue_string
  | int64 n =>
    obtain ⟨c, hc⟩ := List.exists_mem_of_ne_nil _ n.ne_nil
    have hmem : c ∈ n.text := List.mem_append_right _ hc
    cases hshape with
    | plain _ hne hplain hchars =>
      have hread := parseValue_number hplain hmem (n.isDigits c hc)
      rw [Literal.text, n.parseI64_text] at hread
      exact hread
  | float64 x hx =>
    obtain ⟨c, hc, hdigit⟩ := x.exists_digit
    cases hshape with
    | plain _ hne hplain hchars =>
      have hread := parseValue_number hplain (List.mem_append_right _ hc) hdigit
      rw [Literal.text, x.parseI64_text hx, x.ofText_text] at hread
      exact hread
  | bool b => cases b <;> rfl

theorem noNumber_quote : Text.NoNumber '\'' :=
  ⟨rfl, ⟨by decide, by decide⟩, by decide, rfl, by decide⟩

/-- The beginning of a string without its end is no literal. -/
theorem parseValue_broken {s : Text} (h : '\'' ∉ s) : ∃ e, parseValue ('\'' :: s) = .error e := by
  have hcond : (startsWith ('\'' :: s) "'" && Text.endsWith ('\'' :: s) ['\'']
      && decide (2 ≤ ('\'' :: s).length)) = false := by
    rcases s with _ | ⟨c, s⟩
    · rfl
    · have hend : Text.endsWith ('\'' :: c :: s) ['\''] = false := by
        rw [Text.endsWith, Bool.eq_false_iff, ne_eq, List.isSuffixOf_iff_suffix]
        intro hsuffix
        rw [List.suffix_cons_iff] at hsuffix
        rcases hsuffix with heq | hsuffix
        · cases heq
        · exact h (hsuffix.subset (by simp))
      simp [hend]
  have hnot (t : String) (ht : (t.toList.map Char.toLower).contains '\'' = false) :
      Text.eqIgnoreAsciiCase ('\'' :: s) t.toList = false :=
    Text.eqIgnoreAsciiCase_eq_false (c := '\'') (by simp) ht
  refine ⟨syntaxError "unsupported literal value", ?_⟩
  rw [parseValue, hcond, hnot "true" (by decide), hnot "false" (by decide),
    noNumber_quote.parseI64, noNumber_quote.ofText]
  rfl

/-! ### Assignments -/

/-- A property as a map has it. -/
def assignmentText (p : Text × Literal) : Text := p.1 ++ '=' :: p.2.text

theorem parseAssignment_key {key right : Text} (hkey : Identifier key) :
    parseAssignment (key ++ '=' :: right) =
      (parseValue (trim right)).map fun value => (String.ofList key, value) := by
  have hmark {c : Char} (hc : nameChar c = false) : c ∉ key := fun hmem => by
    have := hkey.chars c hmem
    rw [hc] at this
    cases this
  have hclear : Clear ['='] key ('=' :: right) :=
    Text.clear_of_head (p := (· ≠ '=')) (by simp) (fun c hc => by
      rintro rfl
      exact hmark rfl hc) _
  have hsplit : splitOnce "=" (key ++ '=' :: right) = some (key, right) :=
    Text.splitOnce_append hclear
  have htrim : trim key = key := by
    have := @trim_words key [] (by simpa using hkey.word)
    simpa using this
  have hprefix : stripPrefix key "n." = none := by
    rw [stripPrefix, Text.stripPrefix, if_neg]
    rw [Text.startsWith_iff]
    exact fun hpre => hmark (c := '.') rfl (hpre.subset (by simp))
  rw [parseAssignment, hsplit]
  show (parseValue (trim right) >>= fun value =>
    .ok (String.ofList ((stripPrefix (trim key) "n.").getD (trim key)), value)) = _
  rw [htrim, hprefix]
  rcases parseValue (trim right) <;> rfl

theorem parseAssignment_text {p : Text × Literal} (hkey : Identifier p.1) :
    parseAssignment (assignmentText p) = .ok (String.ofList p.1, p.2.value) := by
  rw [assignmentText, parseAssignment_key hkey, p.2.trim_text, parseValue_text]
  rfl

theorem assignmentText_ends {p : Text × Literal} (hkey : Identifier p.1) :
    (∀ c ∈ (assignmentText p).head?, isWhitespace c = false) ∧
      ∀ c ∈ (assignmentText p).getLast?, isWhitespace c = false := by
  constructor
  · intro c hc
    rw [assignmentText, List.head?_append_of_ne_nil _ hkey.ne_nil] at hc
    exact hkey.word.chars c (List.mem_of_head? hc)
  · intro c hc
    rw [assignmentText, List.append_cons, List.getLast?_append_of_ne_nil _ p.2.text_ne_nil] at hc
    exact p.2.blank_ends.2 c hc

theorem trim_assignmentText {p : Text × Literal} (hkey : Identifier p.1) :
    trim (assignmentText p) = assignmentText p :=
  Text.trim_eq_self (assignmentText_ends hkey).1 (assignmentText_ends hkey).2

/-- An assignment whose string has lost its end. -/
theorem parseAssignment_broken {key s : Text} (hkey : Identifier key) (hs : '\'' ∉ s) :
    ∃ e, parseAssignment (trim (key ++ '=' :: '\'' :: s)) = .error e := by
  obtain ⟨k, ks, rfl⟩ := List.exists_cons_of_ne_nil hkey.ne_nil
  have htrim : trim (k :: ks ++ '=' :: '\'' :: s)
      = k :: ks ++ '=' :: '\'' :: Text.trimEnd isWhitespace s := by
    have hk : isWhitespace k = false := hkey.word.chars k (by simp)
    have h := @Text.trim_cons_append_cons isWhitespace (ks ++ ['=']) s '\'' k hk rfl
    simpa [trim] using h
  have hright : trim ('\'' :: Text.trimEnd isWhitespace s)
      = '\'' :: Text.trimEnd isWhitespace (Text.trimEnd isWhitespace s) :=
    Text.trim_cons_self rfl
  have hquote : '\'' ∉ Text.trimEnd isWhitespace (Text.trimEnd isWhitespace s) := fun hmem =>
    hs ((Text.trimEnd_prefix _).subset ((Text.trimEnd_prefix _).subset hmem))
  obtain ⟨e, he⟩ := parseValue_broken hquote
  rw [htrim, parseAssignment_key hkey, hright, he]
  exact ⟨e, rfl⟩

/-! ### Maps of properties -/

/-- The properties of a map, without its braces. -/
def propertiesText : List (Text × Literal) → Text
  | [] => []
  | p :: ps => assignmentText p ++ ps.flatMap fun p => ',' :: ' ' :: assignmentText p

/-- What the map stands for: every key with its value, where the keys differ. -/
def propertiesOf (ps : List (Text × Literal)) : Properties :=
  ps.foldl (fun props p => props.insert (String.ofList p.1) p.2.value) ∅

theorem getElem?_propertiesOf {ps : List (Text × Literal)} (hkeys : (ps.map Prod.fst).Nodup)
    (k : String) (v : Value) :
    (propertiesOf ps)[k]? = some v ↔ ∃ p ∈ ps, String.ofList p.1 = k ∧ p.2.value = v := by
  rw [propertiesOf]
  -- the last insertion under a key counts, and there is one only
  induction ps using List.reverseRecOn with
  | nil => simp
  | append_singleton ps p ih =>
    rw [List.map_append, List.nodup_append] at hkeys
    rw [List.foldl_append, List.foldl_cons, List.foldl_nil]
    have ih := ih hkeys.1
    by_cases hk : String.ofList p.1 = k
    · subst hk
      rw [Map.getElem?_insert_self]
      have hother : ∀ q ∈ ps, String.ofList q.1 ≠ String.ofList p.1 := fun q hq heq =>
        hkeys.2.2 q.1 (List.mem_map_of_mem hq) p.1 (by simp) (String.ofList_injective heq)
      constructor
      · intro h
        exact ⟨p, by simp, rfl, Option.some.inj h⟩
      · rintro ⟨q, hq, heq, rfl⟩
        rcases List.mem_append.mp hq with hq | hq
        · exact absurd heq (hother q hq)
        · rw [List.mem_singleton.mp hq]
    · rw [Map.getElem?_insert_ne _ hk, ih]
      constructor
      · rintro ⟨q, hq, h⟩
        exact ⟨q, List.mem_append_left _ hq, h⟩
      · rintro ⟨q, hq, heq, hv⟩
        rcases List.mem_append.mp hq with hq | hq
        · exact ⟨q, hq, heq, hv⟩
        · rw [List.mem_singleton.mp hq] at heq
          exact absurd heq hk

section Maps

variable {ps : List (Text × Literal)}

theorem mem_assignmentText {p : Text × Literal} (hkey : Identifier p.1) {c : Char}
    (hplain : plainChar c = false) (hquote : c ≠ '\'') (heq : c ≠ '=') :
    c ∈ assignmentText p ↔ c ∈ p.2.chars := by
  have hname : c ∉ p.1 := fun hmem => by
    have := plainChar_of_nameChar (hkey.chars c hmem)
    rw [hplain] at this
    cases this
  rw [assignmentText, List.mem_append, List.mem_cons, Literal.mem_chars hplain hquote]
  simp [hname, heq]

theorem propertiesText_ends (hkeys : ∀ p ∈ ps, Identifier p.1) (hne : ps ≠ []) :
    ∃ c ∈ propertiesText ps, isWhitespace c = false := by
  obtain ⟨p, ps, rfl⟩ := List.exists_cons_of_ne_nil hne
  obtain ⟨c, cs, hc⟩ := List.exists_cons_of_ne_nil (hkeys p (by simp)).ne_nil
  refine ⟨c, ?_, (hkeys p (by simp)).word.chars c (by simp [hc])⟩
  simp [propertiesText, assignmentText, hc]

theorem foldlM_assignments (hkeys : ∀ p ∈ ps, Identifier p.1) (props : Properties) :
    (ps.map fun p => ' ' :: assignmentText p).foldlM (fun props entry => do
        let (key, value) ← parseAssignment (trim entry)
        return props.insert key value) props =
      (.ok (ps.foldl (fun props p => props.insert (String.ofList p.1) p.2.value) props) :
        Except Failure Properties) := by
  induction ps generalizing props with
  | nil => rfl
  | cons p ps ih =>
    have hkey := hkeys p (by simp)
    have htrim : trim (' ' :: assignmentText p) = assignmentText p := by
      rw [trim, Text.trim_cons rfl]
      exact trim_assignmentText hkey
    rw [List.map_cons, List.foldlM_cons, htrim, parseAssignment_text hkey]
    exact ih (fun q hq => hkeys q (by simp [hq])) _

theorem between_eq_some {s inner : Text} {opening closing : Char} :
    between s opening closing = some inner ↔ s = opening :: (inner ++ [closing]) := by
  have hsuffix {t : Text} :
      Text.stripSuffix t [closing] = some inner ↔ t = inner ++ [closing] := by
    rw [Text.stripSuffix, Text.endsWith]
    split_ifs with h
    · obtain ⟨u, rfl⟩ := List.isSuffixOf_iff_suffix.mp h
      simp
    · simp only [false_iff]
      rintro rfl
      exact h (List.isSuffixOf_iff_suffix.mpr (List.suffix_append _ _))
  rw [between, Option.bind_eq_some_iff]
  simp only [hsuffix, Text.stripPrefix_eq_some, List.singleton_append]
  constructor
  · rintro ⟨t, rfl, rfl⟩
    rfl
  · rintro rfl
    exact ⟨_, rfl, rfl⟩

theorem isEmpty_trim {s : Text} (h : ∃ c ∈ s, isWhitespace c = false) :
    (trim s).isEmpty = false := by
  obtain ⟨c, hc, hblank⟩ := h
  rw [List.isEmpty_eq_false_iff]
  exact List.ne_nil_of_mem (Text.mem_trim hc hblank)

/-- A map without a comma in a string is read as what it stands for. -/
theorem parseProperties_text (hkeys : ∀ p ∈ ps, Identifier p.1)
    (hcomma : ∀ p ∈ ps, ',' ∉ p.2.chars) :
    parseProperties ('{' :: (propertiesText ps ++ ['}'])) = .ok (propertiesOf ps) := by
  rw [parseProperties, between_eq_some.mpr rfl]
  show (if (trim (propertiesText ps)).isEmpty then _ else _) = _
  rcases ps with _ | ⟨p, ps⟩
  · rfl
  · have hmark {q : Text × Literal} (hq : q ∈ p :: ps) : ',' ∉ assignmentText q := fun hmem =>
      hcomma q hq ((mem_assignmentText (hkeys q hq) rfl (by decide) (by decide)).mp hmem)
    have hsplit : (propertiesText (p :: ps)).splitOn ','
        = assignmentText p :: ps.map fun q => ' ' :: assignmentText q := by
      have h := @Text.splitOn_flatMap (assignmentText p) ','
        (ps.map fun q => ' ' :: assignmentText q) (hmark (by simp)) fun t ht => by
          obtain ⟨q, hq, rfl⟩ := List.mem_map.mp ht
          simpa using hmark (List.mem_cons_of_mem _ hq)
      rwa [List.flatMap_map] at h
    have hkey := hkeys p (by simp)
    rw [isEmpty_trim (propertiesText_ends hkeys (by simp)), if_neg Bool.false_ne_true, hsplit,
      List.foldlM_cons, trim_assignmentText hkey, parseAssignment_text hkey]
    exact foldlM_assignments (fun q hq => hkeys q (by simp [hq])) _

/-! ### Maps with a string that has lost its end -/

/-- One of the pieces between commas is an assignment whose string has lost its end. -/
def Broken (raw : Text) : Prop :=
  ∃ before lead key s after, raw = before ++ ((lead ++ (key ++ '=' :: '\'' :: s)) ++ after) ∧
    (lead = [] ∨ lead = [' ']) ∧ Identifier key ∧ '\'' ∉ s ∧ ',' ∉ s ∧
    (before = [] ∨ ∃ b, before = b ++ [',']) ∧ (after = [] ∨ ∃ a, after = ',' :: a)

theorem parseProperties_broken {raw : Text} (h : Broken raw) :
    ∃ e, parseProperties ('{' :: (raw ++ ['}'])) = .error e := by
  obtain ⟨before, lead, key, s, after, rfl, hlead, hkey, hquote, hcomma, hbefore, hafter⟩ := h
  have hname : ',' ∉ key := fun hmem => by
    have := hkey.chars ',' hmem
    cases this
  have hpiece : ',' ∉ lead ++ (key ++ '=' :: '\'' :: s) := by
    rcases hlead with rfl | rfl <;> simp [hname, hcomma]
  have htrim : trim (lead ++ (key ++ '=' :: '\'' :: s)) = trim (key ++ '=' :: '\'' :: s) := by
    rcases hlead with rfl | rfl
    · rfl
    · exact Text.trim_cons rfl
  rw [parseProperties, between_eq_some.mpr rfl]
  show ∃ e, (if (trim _).isEmpty then _ else _) = Except.error e
  rw [isEmpty_trim ⟨'=', by simp, rfl⟩, if_neg Bool.false_ne_true]
  refine foldlM_fails (Text.mem_splitOn hpiece hbefore hafter) (fun props => ?_) _
  obtain ⟨e, he⟩ := parseAssignment_broken hkey hquote
  rw [htrim, he]
  exact ⟨e, rfl⟩

theorem parseProperties_unclosed {s : Text} {c : Char} (hc : c ≠ '}') :
    ∃ e, parseProperties (s ++ [c]) = .error e := by
  refine ⟨syntaxError "invalid properties object", ?_⟩
  rw [parseProperties]
  rcases hbetween : between (s ++ [c]) '{' '}' with _ | raw
  · rfl
  · have hlast := congrArg List.getLast? (between_eq_some.mp hbetween)
    rw [← List.cons_append, List.getLast?_concat, List.getLast?_concat] at hlast
    exact absurd (Option.some.inj hlast) hc

/-- A map that ends inside of a string. -/
theorem parseProperties_truncated {before lead key s : Text} (hlead : lead = [] ∨ lead = [' '])
    (hkey : Identifier key) (hquote : '\'' ∉ s) (hcomma : ',' ∉ s)
    (hbefore : before = [] ∨ ∃ b, before = b ++ [',']) :
    ∃ e, parseProperties (trim ('{' :: (before ++ (lead ++ (key ++ '=' :: '\'' :: s)))))
      = .error e := by
  have htrim : trim ('{' :: (before ++ (lead ++ (key ++ '=' :: '\'' :: s))))
      = '{' :: (before ++ (lead ++ (key ++ '=' :: '\'' :: Text.trimEnd isWhitespace s))) := by
    have h := @Text.trim_cons_append_cons isWhitespace (before ++ (lead ++ (key ++ ['=']))) s '\''
      '{' rfl rfl
    simpa [trim] using h
  have hsub : Text.trimEnd isWhitespace s ⊆ s := (Text.trimEnd_prefix s).subset
  rw [htrim]
  rcases List.eq_nil_or_concat (Text.trimEnd isWhitespace s) with hnil | ⟨x, c, hconcat⟩
  · have h := @parseProperties_unclosed ('{' :: (before ++ (lead ++ (key ++ ['='])))) '\'' (by decide)
    rw [hnil]
    simpa using h
  · rw [List.concat_eq_append] at hconcat
    rw [hconcat] at hsub ⊢
    by_cases hc : c = '}'
    · subst hc
      have hbroken : Broken (before ++ ((lead ++ (key ++ '=' :: '\'' :: x)) ++ [])) :=
        ⟨before, lead, key, x, [], rfl, hlead, hkey, fun h => hquote (hsub (by simp [h])),
          fun h => hcomma (hsub (by simp [h])), hbefore, .inl rfl⟩
      simpa using parseProperties_broken hbroken
    · have h := @parseProperties_unclosed
        ('{' :: (before ++ (lead ++ (key ++ '=' :: '\'' :: x)))) c hc
      simpa using h

/-- Where an assignment stands in a map. -/
theorem mem_propertiesText {p : Text × Literal} (hp : p ∈ ps) : ∃ before lead after,
    propertiesText ps = before ++ ((lead ++ assignmentText p) ++ after) ∧
      (lead = [] ∨ lead = [' ']) ∧ (before = [] ∨ ∃ b, before = b ++ [',']) := by
  obtain ⟨q, ps, rfl⟩ := List.exists_cons_of_ne_nil (List.ne_nil_of_mem hp)
  rcases List.mem_cons.mp hp with rfl | hp
  · exact ⟨[], [], _, rfl, .inl rfl, .inl rfl⟩
  · obtain ⟨qs, rs, rfl⟩ := List.append_of_mem hp
    refine ⟨assignmentText q ++ (qs.flatMap fun p => ',' :: ' ' :: assignmentText p) ++ [','],
      [' '], rs.flatMap fun p => ',' :: ' ' :: assignmentText p, ?_, .inr rfl, .inr ⟨_, rfl⟩⟩
    simp [propertiesText]

/-- A comma inside of a string cuts it. -/
theorem broken_of_comma (hkeys : ∀ p ∈ ps, Identifier p.1) {p : Text × Literal} (hp : p ∈ ps)
    (hcomma : ',' ∈ p.2.chars) : Broken (propertiesText ps) := by
  obtain ⟨before, lead, after, htext, hlead, hbefore⟩ := mem_propertiesText hp
  obtain ⟨key, v⟩ := p
  cases v with
  | string s hs =>
    obtain ⟨x, y, rfl, hx⟩ := List.eq_append_cons_of_mem hcomma
    have hquote : '\'' ∉ x := fun hmem => hs (List.mem_append_left _ hmem)
    refine ⟨before, lead, key, x, ',' :: (y ++ '\'' :: after), ?_, hlead, hkeys _ hp, hquote, hx,
      hbefore, .inr ⟨_, rfl⟩⟩
    rw [htext]
    simp [assignmentText, Literal.text]
  | int64 n => cases hcomma
  | float64 x hx => cases hcomma
  | bool b => cases hcomma

/-- Where a character of the assignments after the first one is. -/
theorem cut_assignments {c : Char} (hcomma : c ≠ ',') (hspace : c ≠ ' ') {y z : Text}
    (h : (ps.flatMap fun p => ',' :: ' ' :: assignmentText p) = y ++ c :: z) :
    ∃ p ∈ ps, ∃ before u v, assignmentText p = u ++ c :: v ∧ y = before ++ ',' :: ' ' :: u := by
  induction ps generalizing y with
  | nil => simp at h
  | cons p ps ih =>
    have hmark : c ∉ [',', ' '] := by simp [hcomma, hspace]
    obtain ⟨y, rfl, hrest⟩ := Text.after_of_not_mem (s := [',', ' ']) hmark h
    have hlater {y' : Text} (h : (ps.flatMap fun p => ',' :: ' ' :: assignmentText p) = y' ++ c :: z)
        (hy : y = assignmentText p ++ y') : ∃ q ∈ p :: ps, ∃ before u v,
          assignmentText q = u ++ c :: v ∧ [',', ' '] ++ y = before ++ ',' :: ' ' :: u := by
      obtain ⟨q, hq, before, u, v, hu, rfl⟩ := ih h
      exact ⟨q, by simp [hq], [',', ' '] ++ assignmentText p ++ before, u, v, hu, by simp [hy]⟩
    rcases List.append_eq_append_iff.mp hrest with ⟨y', hy, hrest⟩ | ⟨t, ht, hrest⟩
    · exact hlater hrest hy
    · rcases t with _ | ⟨d, t⟩
      · exact @hlater [] hrest.symm (by simpa using ht.symm)
      · obtain ⟨rfl, -⟩ := List.cons.inj hrest
        exact ⟨p, by simp, [], y, t, ht, rfl⟩

/-- A character that only strings have is inside of one. -/
theorem cut_propertiesText (hkeys : ∀ p ∈ ps, Identifier p.1) {c : Char} (hplain : plainChar c = false)
    (hcomma : c ≠ ',') (hspace : c ≠ ' ') (hquote : c ≠ '\'') (heq : c ≠ '=') {y z : Text}
    (h : propertiesText ps = y ++ c :: z) :
    ∃ p ∈ ps, ∃ before lead s t, y = before ++ (lead ++ (p.1 ++ '=' :: '\'' :: s)) ∧
      p.2.chars = s ++ c :: t ∧ (lead = [] ∨ lead = [' ']) ∧
      (before = [] ∨ ∃ b, before = b ++ [',']) := by
  have hinside {p : Text × Literal} (hp : p ∈ ps) {u v : Text} (hu : assignmentText p = u ++ c :: v) :
      ∃ s t, u = p.1 ++ '=' :: '\'' :: s ∧ p.2.chars = s ++ c :: t := by
    have hkey := hkeys p hp
    have hmem : c ∈ p.2.chars :=
      (mem_assignmentText hkey hplain hquote heq).mp (hu ▸ by simp)
    have hname : c ∉ p.1 ++ ['='] := fun hc => by
      rcases List.mem_append.mp hc with hc | hc
      · have := plainChar_of_nameChar (hkey.chars c hc)
        rw [hplain] at this
        cases this
      · exact heq (List.mem_singleton.mp hc)
    rw [assignmentText, List.append_cons] at hu
    obtain ⟨w, rfl, hw⟩ := Text.after_of_not_mem hname hu
    obtain ⟨key, v⟩ := p
    cases v with
    | string s hs =>
      obtain ⟨x, rfl, hx⟩ := Text.after_of_not_mem (s := ['\'']) (by simpa using hquote) hw
      obtain ⟨t, ht, -⟩ := Text.before_of_not_mem (by simpa using hquote) hx
      exact ⟨x, t, by simp, ht⟩
    | int64 n => cases hmem
    | float64 x hx => cases hmem
    | bool b => cases hmem
  rcases ps with _ | ⟨p, ps⟩
  · simp [propertiesText] at h
  · have hlater {y' : Text} (h : (ps.flatMap fun p => ',' :: ' ' :: assignmentText p) = y' ++ c :: z)
        (hy : y = assignmentText p ++ y') : ∃ q ∈ p :: ps, ∃ before lead s t,
          y = before ++ (lead ++ (q.1 ++ '=' :: '\'' :: s)) ∧ q.2.chars = s ++ c :: t ∧
          (lead = [] ∨ lead = [' ']) ∧ (before = [] ∨ ∃ b, before = b ++ [',']) := by
      obtain ⟨q, hq, before, u, v, hu, rfl⟩ := cut_assignments hcomma hspace h
      obtain ⟨s, t, rfl, hs⟩ := hinside (List.mem_cons_of_mem _ hq) hu
      exact ⟨q, by simp [hq], assignmentText p ++ before ++ [','], [' '], s, t, by simp [hy], hs,
        .inr rfl, .inr ⟨_, rfl⟩⟩
    rcases List.append_eq_append_iff.mp h with ⟨y', hy, hrest⟩ | ⟨t, ht, hrest⟩
    · exact hlater hrest hy
    · rcases t with _ | ⟨d, t⟩
      · exact @hlater [] hrest.symm (by simpa using ht.symm)
      · obtain ⟨rfl, -⟩ := List.cons.inj hrest
        obtain ⟨s, t, rfl, hs⟩ := hinside (by simp) ht
        exact ⟨p, by simp, [], [], s, t, rfl, hs, .inl rfl, .inl rfl⟩

end Maps

end AiraGraphdb.Library.Query
