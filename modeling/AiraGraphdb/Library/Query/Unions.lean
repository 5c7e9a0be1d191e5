import AiraGraphdb.Library.Runs
import AiraGraphdb.Schemes.Occurrences

/-! # Unions

A query is cut at the keywords that stand outside of brackets and quotes, between blanks. The scan
for them takes what has none into the branch, and panics at the first other character outside of
brackets and quotes that takes several bytes. -/

namespace AiraGraphdb.Library.Query

open Schemes InMemoryGraphStore
open Library.Connections (CypherDialect)

/-! ### Capitals -/

theorem toUpper_eq (c : Char) :
    c.toUpper = if 97 ≤ c.toNat ∧ c.toNat ≤ 122 then Char.ofNat (c.toNat - 32) else c := by
  by_cases h : 97 ≤ c.toNat ∧ c.toNat ≤ 122
  · rw [if_pos h]
    obtain ⟨h1, h2⟩ := h
    obtain ⟨n, hn⟩ : ∃ n, c.toNat = n := ⟨_, rfl⟩
    have hc : c = Char.ofNat n := by rw [← hn, Char.ofNat_toNat]
    rw [hn] at h1 h2
    subst hc
    rw [hn]
    clear hn
    interval_cases n <;> rfl
  · rw [if_neg h, Char.toUpper, dif_neg]
    rintro ⟨h1, h2⟩
    exact h ⟨h1, h2⟩

theorem toUpper_blank {c : Char} (h : c.toUpper = ' ') : c = ' ' := by
  rw [toUpper_eq] at h
  split_ifs at h with hc
  · have hn := congrArg Char.toNat h
    rw [Char.toNat_ofNat, if_pos (.inl (by omega))] at hn
    have : ' '.toNat = 32 := rfl
    omega
  · exact h

/-- Blanks have no capitals. -/
theorem toUpper_of_blank {c : Char} (h : isWhitespace c = true) : c.toUpper = c := by
  rw [toUpper_eq, if_neg]
  rintro ⟨h1, h2⟩
  obtain ⟨n, hn⟩ : ∃ n, c.toNat = n := ⟨_, rfl⟩
  have hc : c = Char.ofNat n := by rw [← hn, Char.ofNat_toNat]
  rw [hn] at h1 h2
  subst hc
  clear hn
  interval_cases n <;> exact absurd h (by decide)

/-- Only letters become capitals. -/
theorem mem_upper {c : Char} {w : Text} (h : c ∈ upper w) (hc : ¬ (65 ≤ c.toNat ∧ c.toNat ≤ 90)) :
    c ∈ w := by
  obtain ⟨d, hd, rfl⟩ := List.mem_map.mp h
  rw [toUpper_eq] at hc ⊢
  split_ifs at hc ⊢ with hsmall
  · refine absurd ?_ hc
    rw [Char.toNat_ofNat, if_pos (.inl (by omega))]
    omega
  · exact hd

/-! ### Keywords -/

/-- The keyword ends where the text does, or before a blank. -/
def wordEnds (s : Text) : Bool := s.head?.all isWhitespace

theorem unionKeyword_eq (s : Text) : unionKeyword s =
    if startsWith (upper s) "UNION ALL" && wordEnds (s.drop 9) then some (.all, 9)
    else if startsWith (upper s) "UNION" && wordEnds (s.drop 5) then some (.distinct, 5)
    else none := rfl

theorem unionKeyword_eq_none {s : Text} : unionKeyword s = none ↔
    ¬ (startsWith (upper s) "UNION" = true ∧ wordEnds (s.drop 5) = true) := by
  rw [unionKeyword_eq]
  constructor
  · intro h
    split_ifs at h with h1 h2
    simpa using h2
  · intro h
    have hall : ¬ (startsWith (upper s) "UNION ALL" && wordEnds (s.drop 9)) = true := by
      intro ha
      rw [Bool.and_eq_true] at ha
      refine h ⟨Text.startsWith_iff.mpr ?_, ?_⟩
      · exact (by decide : "UNION".toList <+: "UNION ALL".toList).trans
          (Text.startsWith_iff.mp ha.1)
      · obtain ⟨t, ht⟩ := Text.startsWith_iff.mp ha.1
        have hdrop : upper (s.drop 5) = ' ' :: ("ALL".toList ++ t) := by
          rw [upper, List.map_drop]
          exact congrArg (List.drop 5) ht.symm
        obtain ⟨c, cs, hcs, hc, -⟩ := List.map_eq_cons_iff.mp hdrop
        rw [hcs, wordEnds, toUpper_blank hc]
        rfl
    rw [if_neg hall, if_neg (by simpa using h)]

/-- A keyword begins with its letter. -/
theorem unionKeyword_of_head {c : Char} (hc : c.toUpper ≠ 'U') (s : Text) :
    unionKeyword (c :: s) = none := by
  rw [unionKeyword_eq_none]
  rintro ⟨hp, -⟩
  exact hc (List.cons_prefix_cons.mp (Text.startsWith_iff.mp hp)).1.symm

/-- A keyword does not begin in a text and end in what follows after a blank. -/
theorem unionKeyword_append {s rest : Text} (hrest : wordEnds rest = true)
    (h : unionKeyword s = none) : unionKeyword (s ++ rest) = none := by
  rw [unionKeyword_eq_none] at h ⊢
  rintro ⟨hp, hend⟩
  rw [startsWith, Text.startsWith_iff, upper, List.map_append] at hp
  -- a keyword that ends in `s` is one there
  have hinside : ¬ "UNION".toList <+: upper s := by
    rintro ⟨t, ht⟩
    refine h ⟨Text.startsWith_iff.mpr ⟨t, ht⟩, ?_⟩
    have hlength : 5 ≤ s.length := by
      have := congrArg List.length ht
      simp [upper] at this
      omega
    rw [List.drop_append_of_le_length hlength] at hend
    rcases hs : s.drop 5 with _ | ⟨d, t⟩
    · rfl
    · rw [hs] at hend
      exact hend
  rcases List.prefix_or_prefix_of_prefix hp (List.prefix_append _ _) with hin | ⟨t, ht⟩
  · exact hinside hin
  · rcases t with _ | ⟨d, t⟩
    · exact hinside ⟨[], by simpa [upper] using ht.symm⟩
    · rw [← ht, List.prefix_append_right_inj] at hp
      rcases rest with _ | ⟨c, rest⟩
      · exact absurd (List.prefix_nil.mp hp) (by simp)
      · have hblank : isWhitespace c = true := by simpa [wordEnds] using hrest
        have hd : d = c.toUpper := (List.cons_prefix_cons.mp hp).1
        rw [toUpper_of_blank hblank] at hd
        have hletters : "UNION".toList.all (fun x => !isWhitespace x) = true := rfl
        have := List.all_eq_true.mp hletters d (by rw [← ht]; simp)
        rw [hd, hblank] at this
        cases this

/-- A word is a keyword only as a whole. -/
theorem unionKeyword_word {w : Text} (hw : ∀ x ∈ w, isWhitespace x = false)
    (hne : upper w ≠ "UNION".toList) : unionKeyword w = none := by
  rw [unionKeyword_eq_none]
  rintro ⟨hp, hend⟩
  obtain ⟨t, ht⟩ := Text.startsWith_iff.mp hp
  rcases t with _ | ⟨d, t⟩
  · exact hne (by simpa using ht.symm)
  · -- the word goes on after the keyword
    have hdrop : upper (w.drop 5) = d :: t := by
      rw [upper, List.map_drop]
      exact congrArg (List.drop 5) ht.symm
    obtain ⟨c, cs, hcs, -, -⟩ := List.map_eq_cons_iff.mp hdrop
    have hc := hw c (List.mem_of_mem_drop (by rw [hcs]; simp))
    rw [hcs, wordEnds] at hend
    simp [hc] at hend

theorem keywordAt_of_head {prev : Option Char} {c : Char} (hc : c.toUpper ≠ 'U') (s : Text) :
    keywordAt prev (c :: s) = none := by
  rw [keywordAt, unionKeyword_of_head hc, ite_self]

/-- No keyword begins inside of a word. -/
theorem keywordAt_of_prev {prev : Char} (hp : isWhitespace prev = false) (s : Text) :
    keywordAt (some prev) s = none := by
  rw [keywordAt, if_neg (by simp [hp])]

/-! ### Places -/

/-- Where a scan stands: the character before, the open brackets, and whether in a quote. -/
structure Place where
  prev : Option Char
  depth : ℕ
  quoted : Bool

namespace Place

def start : Place := ⟨none, 0, false⟩

def next (p : Place) (c : Char) : Place :=
  if c = '\'' then ⟨some c, p.depth, !p.quoted⟩
  else ⟨some c, if p.quoted then p.depth else nextDepth p.depth c, p.quoted⟩

def after (p : Place) (s : Text) : Place := s.foldl next p

/-- The character that comes is outside of brackets and quotes. -/
def Top (p : Place) (c : Char) : Prop := c ≠ '\'' ∧ p.quoted = false ∧ nextDepth p.depth c = 0

instance (p : Place) (c : Char) : Decidable (p.Top c) := inferInstanceAs (Decidable (_ ∧ _))

@[simp] theorem after_nil (p : Place) : p.after [] = p := rfl

@[simp] theorem after_cons (p : Place) (c : Char) (s : Text) :
    p.after (c :: s) = (p.next c).after s := rfl

theorem after_append (p : Place) (s t : Text) : p.after (s ++ t) = (p.after s).after t :=
  List.foldl_append

end Place

/-- No keyword at the top level of `s` before `rest`. -/
def NoKeyword (rest : Text) : Place → Text → Prop
  | _, [] => True
  | p, c :: cs =>
    (p.Top c → keywordAt p.prev (c :: (cs ++ rest)) = none) ∧ NoKeyword rest (p.next c) cs

/-- Every character at the top level takes one byte. -/
def AsciiTop : Place → Text → Prop
  | _, [] => True
  | p, c :: cs => (p.Top c → c.toNat < 128) ∧ AsciiTop (p.next c) cs

instance decidableNoKeyword (rest : Text) : ∀ p s, Decidable (NoKeyword rest p s)
  | _, [] => .isTrue trivial
  | p, c :: cs =>
    have := decidableNoKeyword rest (p.next c) cs
    inferInstanceAs (Decidable (_ ∧ _))

instance decidableAsciiTop : ∀ p s, Decidable (AsciiTop p s)
  | _, [] => .isTrue trivial
  | p, c :: cs =>
    have := decidableAsciiTop (p.next c) cs
    inferInstanceAs (Decidable (_ ∧ _))

theorem noKeyword_append {rest s t : Text} {p : Place} :
    NoKeyword rest p (s ++ t) ↔ NoKeyword (t ++ rest) p s ∧ NoKeyword rest (p.after s) t := by
  induction s generalizing p with
  | nil => simp [NoKeyword]
  | cons c cs ih => simp [NoKeyword, ih, and_assoc]

theorem asciiTop_append {s t : Text} {p : Place} :
    AsciiTop p (s ++ t) ↔ AsciiTop p s ∧ AsciiTop (p.after s) t := by
  induction s generalizing p with
  | nil => simp [AsciiTop]
  | cons c cs ih => simp [AsciiTop, ih, and_assoc]

/-- What comes after a blank or nothing does not matter to what is a keyword. -/
theorem NoKeyword.append {rest s : Text} {p : Place} (hrest : wordEnds rest = true)
    (h : NoKeyword [] p s) : NoKeyword rest p s := by
  induction s generalizing p with
  | nil => trivial
  | cons c cs ih =>
    refine ⟨fun htop => ?_, ih h.2⟩
    have hkey := h.1 htop
    rw [List.append_nil, keywordAt] at hkey
    rw [keywordAt]
    split_ifs with hprev
    · rw [if_pos hprev] at hkey
      exact unionKeyword_append hrest hkey
    · rfl

/-- A place where a branch begins. -/
structure Place.Begins (p : Place) : Prop where
  prev : p.prev.all isWhitespace = true
  depth : p.depth = 0
  quoted : p.quoted = false

/-- All places where a branch may begin are alike. -/
theorem Place.Begins.next {p : Place} (hp : p.Begins) (c : Char) :
    p.next c = Place.start.next c := by
  rw [Place.next, Place.next, hp.depth, hp.quoted]
  rfl

theorem Place.Begins.top {p : Place} (hp : p.Begins) {c : Char} :
    p.Top c ↔ Place.start.Top c := by
  rw [Place.Top, Place.Top, hp.depth, hp.quoted]
  rfl

theorem Place.Begins.noKeyword {p : Place} (hp : p.Begins) {rest s : Text}
    (h : NoKeyword rest .start s) : NoKeyword rest p s := by
  rcases s with _ | ⟨c, cs⟩
  · trivial
  · refine ⟨fun htop => ?_, hp.next c ▸ h.2⟩
    have hkey : unionKeyword (c :: (cs ++ rest)) = none := h.1 (hp.top.mp htop)
    rw [keywordAt, hkey, ite_self]

theorem Place.Begins.asciiTop {p : Place} (hp : p.Begins) {s : Text} :
    AsciiTop p s ↔ AsciiTop .start s := by
  rcases s with _ | ⟨c, cs⟩
  · exact .rfl
  · rw [AsciiTop, AsciiTop, hp.top, hp.next]

theorem Place.Begins.after_depth {p : Place} (hp : p.Begins) (s : Text) :
    (p.after s).depth = (Place.start.after s).depth
      ∧ (p.after s).quoted = (Place.start.after s).quoted := by
  rcases s with _ | ⟨c, cs⟩
  · exact ⟨hp.depth, hp.quoted⟩
  · rw [Place.after_cons, Place.after_cons, hp.next]
    exact ⟨rfl, rfl⟩

/-! ### The scan -/

namespace UnionScan

def place (st : UnionScan) : Place := ⟨st.prev, st.depth, st.inSingleQuote⟩

/-- The scan after a text without keywords. -/
def past (st : UnionScan) (s : Text) : UnionScan :=
  let p := st.place.after s
  { st with
    prev := p.prev
    depth := p.depth
    inSingleQuote := p.quoted
    branch := s.reverse ++ st.branch }

@[simp] theorem past_nil (st : UnionScan) : st.past [] = st := rfl

@[simp] theorem past_skip (st : UnionScan) (s : Text) : (st.past s).skip = st.skip := rfl

@[simp] theorem past_branches (st : UnionScan) (s : Text) : (st.past s).branches = st.branches := rfl

@[simp] theorem past_mode (st : UnionScan) (s : Text) : (st.past s).mode = st.mode := rfl

@[simp] theorem past_branch (st : UnionScan) (s : Text) :
    (st.past s).branch = s.reverse ++ st.branch := rfl

@[simp] theorem past_place (st : UnionScan) (s : Text) : (st.past s).place = st.place.after s := rfl

theorem past_cons (st : UnionScan) (c : Char) (s : Text) : st.past (c :: s) = (st.past [c]).past s := by
  simp only [past, place, Place.after_cons, Place.after_nil, List.reverse_cons, List.append_assoc,
    List.reverse_nil, List.nil_append]

end UnionScan

/-- What a scan makes of a character that begins no keyword. -/
theorem scanUnion_cons {st : UnionScan} (hskip : st.skip = 0) {c : Char} {cs : Text}
    (hkey : st.place.Top c → keywordAt st.prev (c :: cs) = none) :
    scanUnion st (c :: cs) =
      if st.place.Top c ∧ 128 ≤ c.toNat then .error .panic else scanUnion (st.past [c]) cs := by
  by_cases hbad : st.place.Top c ∧ 128 ≤ c.toNat
  · obtain ⟨hquote, hin, hdepth⟩ := hbad.1
    have hin : ¬ st.inSingleQuote = true := Bool.eq_false_iff.mp hin
    have hdepth : nextDepth st.depth c = 0 := hdepth
    rw [if_pos hbad, scanUnion, if_neg (by omega), if_neg hquote, if_neg hin]
    dsimp only
    rw [if_pos hdepth, hkey hbad.1]
    exact if_pos hbad.2
  rw [if_neg hbad]
  have hpast {p : Place} (hp : st.place.next c = p) : st.past [c] =
      { st with prev := p.prev, depth := p.depth, inSingleQuote := p.quoted,
                branch := c :: st.branch } := by
    rw [UnionScan.past, Place.after_cons, Place.after_nil, hp]
    rfl
  rw [scanUnion, if_neg (by omega)]
  by_cases hquote : c = '\''
  · rw [if_pos hquote, hpast (by rw [Place.next, if_pos hquote])]
    rfl
  rw [if_neg hquote]
  by_cases hin : st.inSingleQuote = true
  · rw [if_pos hin, hpast (by rw [Place.next, if_neg hquote])]
    rw [UnionScan.place, if_pos hin]
    rfl
  rw [if_neg hin]
  have hnext : st.place.next c = ⟨some c, nextDepth st.depth c, st.inSingleQuote⟩ := by
    rw [Place.next, if_neg hquote, UnionScan.place, if_neg hin]
  dsimp only
  by_cases hdepth : nextDepth st.depth c = 0
  · have htop : st.place.Top c := ⟨hquote, Bool.eq_false_iff.mpr hin, hdepth⟩
    rw [if_pos hdepth, hkey htop, hpast hnext]
    exact if_neg fun h => hbad ⟨htop, h⟩
  · rw [if_neg hdepth, hpast hnext]
    rfl

/-- A text without keywords goes into the branch. -/
theorem scanUnion_past {rest s : Text} {st : UnionScan} (hskip : st.skip = 0)
    (hkey : NoKeyword rest st.place s) (hascii : AsciiTop st.place s) :
    scanUnion st (s ++ rest) = scanUnion (st.past s) rest := by
  induction s generalizing st with
  | nil => rfl
  | cons c cs ih =>
    have ih : scanUnion (st.past [c]) (cs ++ rest) = scanUnion ((st.past [c]).past cs) rest :=
      ih hskip hkey.2 hascii.2
    rw [List.cons_append, scanUnion_cons hskip hkey.1, if_neg, ih, ← UnionScan.past_cons]
    exact fun h => absurd (hascii.1 h.1) (by omega)

theorem scanUnion_panics {rest s : Text} {st : UnionScan} (hskip : st.skip = 0)
    (hkey : NoKeyword rest st.place s) (hascii : ¬ AsciiTop st.place s) :
    scanUnion st (s ++ rest) = .error .panic := by
  induction s generalizing st with
  | nil => exact absurd trivial hascii
  | cons c cs ih =>
    rw [List.cons_append, scanUnion_cons hskip hkey.1]
    split_ifs with hpanic
    · rfl
    · have hcs : ¬ AsciiTop (st.past [c]).place cs := fun hrest => hascii ⟨fun htop => by
        by_contra hge
        exact hpanic ⟨htop, by omega⟩, hrest⟩
      exact ih hskip hkey.2 hcs

/-- The rest of a keyword and the blanks after it are passed. -/
theorem scanUnion_skip {s rest : Text} {st : UnionScan} (hskip : st.skip = s.length) :
    scanUnion st (s ++ rest)
      = scanUnion { st with prev := s.getLast?.or st.prev, skip := 0 } rest := by
  induction s generalizing st with
  | nil =>
    have : st = { st with prev := none.or st.prev, skip := 0 } := by
      cases st
      simpa using hskip
    exact congrArg (fun st => scanUnion st rest) this
  | cons c cs ih =>
    rw [List.cons_append, scanUnion, if_pos (by rw [hskip]; simp), ih (by rw [hskip]; simp)]
    congr 2
    rcases cs with _ | ⟨d, cs⟩
    · rfl
    · rw [List.getLast?_cons_cons, List.getLast?_eq_some_getLast (List.cons_ne_nil d cs)]
      rfl

/-- The keyword of a mode. -/
def UnionMode.keyword : UnionMode → Text
  | .distinct => "UNION".toList
  | .all => "UNION ALL".toList

theorem upper_keyword (mode : UnionMode) : upper mode.keyword = mode.keyword := by
  cases mode <;> rfl

/-- A text that goes on after a keyword: neither with a blank nor with the other keyword's end. -/
structure GoesOn (t : Text) : Prop where
  nonblank : ∀ c ∈ t.head?, isWhitespace c = false
  other : ∀ c ∈ t.head?, c.toUpper ≠ 'A'

theorem upper_append (s t : Text) : upper (s ++ t) = upper s ++ upper t := List.map_append

/-- A keyword in small or capital letters, up to a blank. -/
theorem unionKeyword_keyword {mode : UnionMode} {k t : Text} (hk : upper k = mode.keyword)
    (ht : GoesOn t) : unionKeyword (k ++ ' ' :: t) = some (mode, k.length) := by
  have hlength : k.length = mode.keyword.length := by
    rw [← hk, upper, List.length_map]
  have hupper : upper (k ++ ' ' :: t) = mode.keyword ++ ' ' :: upper t := by
    rw [upper_append, hk]
    rfl
  have hends : wordEnds ((k ++ ' ' :: t).drop mode.keyword.length) = true := by
    rw [← hlength, List.drop_left' rfl]
    rfl
  rw [unionKeyword_eq, hupper, hlength]
  cases mode with
  | all =>
    have hends : wordEnds ((k ++ ' ' :: t).drop 9) = true := hends
    rw [hends]
    rfl
  | distinct =>
    have hends : wordEnds ((k ++ ' ' :: t).drop 5) = true := hends
    have hall : startsWith (UnionMode.distinct.keyword ++ ' ' :: upper t) "UNION ALL" = false := by
      rcases t with _ | ⟨c, t⟩
      · rfl
      · have hc := ht.other c rfl
        rw [Bool.eq_false_iff]
        intro hp
        have hp := Text.startsWith_iff.mp hp
        have hp : 'A' :: "LL".toList <+: c.toUpper :: upper t :=
          (List.prefix_append_right_inj "UNION ".toList).mp hp
        exact hc (List.cons_prefix_cons.mp hp).1.symm
    rw [hall, hends]
    rfl

/-- A keyword at the end of the text. -/
theorem unionKeyword_end {k : Text} (hk : upper k = "UNION".toList) :
    unionKeyword k = some (.distinct, k.length) := by
  have hlength : k.length = 5 := by
    rw [← List.length_map (f := Char.toUpper)]
    exact congrArg List.length hk
  rw [unionKeyword_eq, hk, hlength, List.drop_eq_nil_of_le hlength.le]
  rfl

/-- The first letter of a keyword changes no place. -/
theorem keyword_cons {mode : UnionMode} {k : Text} (hk : upper k = mode.keyword) :
    ∃ c cs, k = c :: cs ∧ c ≠ '\'' ∧ ∀ depth, nextDepth depth c = depth := by
  obtain ⟨cs, hcs⟩ : ∃ cs, mode.keyword = 'U' :: cs := by cases mode <;> exact ⟨_, rfl⟩
  rw [hcs] at hk
  obtain ⟨c, cs', rfl, hc, -⟩ := List.map_eq_cons_iff.mp hk
  refine ⟨c, cs', rfl, ?_, fun depth => ?_⟩
  · rintro rfl
    exact absurd hc (by decide)
  · have hne (d : Char) (hd : d.toUpper ≠ 'U') : c ≠ d := fun h => hd (h ▸ hc)
    rw [nextDepth, if_neg, if_neg]
    · simp [hne ')' (by decide), hne ']' (by decide), hne '}' (by decide)]
    · simp [hne '(' (by decide), hne '[' (by decide), hne '{' (by decide)]

/-- At a keyword the branch before it ends. -/
theorem scanUnion_keyword {st : UnionScan} (hskip : st.skip = 0) (hp : st.place.Begins)
    {mode : UnionMode} {k t : Text} (hk : upper k = mode.keyword) (ht : GoesOn t) :
    scanUnion st (k ++ ' ' :: t) =
      if (trim st.branch.reverse).isEmpty || st.mode.any (· ≠ mode) then .ok none
      else scanUnion ⟨some ' ', 0, 0, false, [], st.branches ++ [trim st.branch.reverse], some mode⟩
        t := by
  obtain ⟨c, cs, rfl, hquote, hnext⟩ := keyword_cons hk
  have hkey : keywordAt st.prev (c :: (cs ++ ' ' :: t)) = some (mode, cs.length + 1) := by
    have hprev : st.prev.all isWhitespace = true := hp.prev
    rw [keywordAt, if_pos hprev, ← List.cons_append, unionKeyword_keyword hk ht]
    rfl
  have hdepth : nextDepth st.depth c = 0 := (hnext st.depth).trans hp.depth
  have hin : ¬ st.inSingleQuote = true := Bool.eq_false_iff.mp hp.quoted
  have hblanks : (((c :: (cs ++ ' ' :: t)).drop (cs.length + 1)).takeWhile isWhitespace) = [' '] := by
    have hspace : isWhitespace ' ' = true := rfl
    rw [List.drop_succ_cons, List.drop_left' rfl, List.takeWhile_cons, if_pos hspace]
    rcases t with _ | ⟨d, t⟩
    · rfl
    · rw [List.takeWhile_cons, if_neg (by simp [ht.nonblank d rfl])]
  rw [List.cons_append, scanUnion, if_neg (by omega), if_neg hquote, if_neg hin]
  dsimp only
  rw [if_pos hdepth, hkey]
  dsimp only
  split_ifs with hnone
  · rfl
  · have happend : cs ++ ' ' :: t = (cs ++ [' ']) ++ t := by simp
    have hlast : (cs ++ [' ']).getLast? = some ' ' := by simp
    rw [hblanks, happend, scanUnion_skip (by simp), hlast]
    dsimp only
    rw [hdepth, Bool.eq_false_iff.mpr hin]
    rfl

/-- A query does not end with a keyword. -/
theorem scanUnion_keyword_end {st : UnionScan} (hskip : st.skip = 0) (hp : st.place.Begins)
    {k : Text} (hk : upper k = "UNION".toList) : scanUnion st k = .ok none := by
  obtain ⟨c, cs, rfl, hquote, hnext⟩ := @keyword_cons .distinct k hk
  have hkey : keywordAt st.prev (c :: cs) = some (.distinct, cs.length + 1) := by
    have hprev : st.prev.all isWhitespace = true := hp.prev
    rw [keywordAt, if_pos hprev, unionKeyword_end hk]
    rfl
  have hdepth : nextDepth st.depth c = 0 := (hnext st.depth).trans hp.depth
  have hin : ¬ st.inSingleQuote = true := Bool.eq_false_iff.mp hp.quoted
  have hblanks : (((c :: cs).drop (cs.length + 1)).takeWhile isWhitespace) = [] := by
    rw [List.drop_eq_nil_of_le (by simp)]
    rfl
  rw [scanUnion, if_neg (by omega), if_neg hquote, if_neg hin]
  dsimp only
  rw [if_pos hdepth, hkey]
  dsimp only
  split_ifs with hnone
  · rfl
  · rw [hblanks, ← List.append_nil cs, scanUnion_skip (by simp), scanUnion, UnionScan.finish]
    have hempty : trim [] = [] := rfl
    simp [hempty]

/-! ### Branches -/

/-- The words that a reading clause begins with. -/
def readingClauses : List String := ["MATCH ", "OPTIONAL MATCH ", "RETURN ", "UNWIND ", "CALL "]

/-- A reading clause with its brackets and quotes closed and no union at its top level. -/
structure Branch (b : Text) : Prop where
  reads : ∃ clause ∈ readingClauses, clause.toList <+: b
  trimmed : trim b = b
  noKeyword : NoKeyword [] .start b
  closed : (Place.start.after b).depth = 0
  unquoted : (Place.start.after b).quoted = false

namespace Branch

variable {b : Text}

theorem ne_nil (hb : Branch b) : b ≠ [] := by
  rintro rfl
  obtain ⟨clause, hclause, hword⟩ := hb.reads
  rw [List.prefix_nil] at hword
  have hnone : readingClauses.all (fun clause => !clause.toList.isEmpty) = true := rfl
  have := List.all_eq_true.mp hnone clause hclause
  rw [hword] at this
  cases this

theorem goesOn (hb : Branch b) (rest : Text) : GoesOn (b ++ rest) := by
  obtain ⟨clause, hclause, t, rfl⟩ := hb.reads
  have hhead : ∃ c ∈ "MORUC".toList, (clause.toList ++ t ++ rest).head? = some c := by
    fin_cases hclause
    · exact ⟨'M', by simp, rfl⟩
    · exact ⟨'O', by simp, rfl⟩
    · exact ⟨'R', by simp, rfl⟩
    · exact ⟨'U', by simp, rfl⟩
    · exact ⟨'C', by simp, rfl⟩
  obtain ⟨c, hc, hhead⟩ := hhead
  have hall : "MORUC".toList.all (fun c => !isWhitespace c && c.toUpper != 'A') = true := rfl
  have hc := List.all_eq_true.mp hall c hc
  rw [Bool.and_eq_true, Bool.not_eq_true', bne_iff_ne] at hc
  have hsame {d : Char} (hd : d ∈ (clause.toList ++ t ++ rest).head?) : d = c :=
    Option.some.inj (hd.symm.trans hhead)
  exact ⟨fun d hd => hsame hd ▸ hc.1, fun d hd => hsame hd ▸ hc.2⟩

end Branch

/-- A scan where a branch begins. -/
structure UnionScan.Fresh (st : UnionScan) : Prop where
  skip : st.skip = 0
  place : st.place.Begins
  branch : st.branch = []

theorem UnionScan.start_fresh : UnionScan.start.Fresh := ⟨rfl, ⟨rfl, rfl, rfl⟩, rfl⟩

theorem UnionScan.keyword_fresh (branches : List Text) (mode : UnionMode) :
    UnionScan.Fresh ⟨some ' ', 0, 0, false, [], branches, some mode⟩ := ⟨rfl, ⟨rfl, rfl, rfl⟩, rfl⟩

/-- A branch up to the keyword after it. -/
theorem scanUnion_branch {st : UnionScan} (hst : st.Fresh) {b : Text} (hb : Branch b)
    (hascii : AsciiTop .start b) {mode : UnionMode} {k t : Text} (hk : upper k = mode.keyword)
    (ht : GoesOn t) :
    scanUnion st (b ++ ' ' :: (k ++ ' ' :: t)) =
      if st.mode.any (· ≠ mode) then .ok none
      else scanUnion ⟨some ' ', 0, 0, false, [], st.branches ++ [b], some mode⟩ t := by
  have hclosed := hst.place.after_depth b
  rw [hb.closed, hb.unquoted] at hclosed
  have hspace : st.place.after (b ++ [' ']) = ⟨some ' ', 0, false⟩ := by
    rw [Place.after_append, Place.after_cons, Place.after_nil, Place.next, if_neg (by decide),
      hclosed.1, hclosed.2]
    rfl
  have hkey : NoKeyword (k ++ ' ' :: t) st.place (b ++ [' ']) := by
    rw [noKeyword_append]
    exact ⟨hst.place.noKeyword (hb.noKeyword.append rfl), fun _ => keywordAt_of_head (by decide) _,
      trivial⟩
  have hspaced : AsciiTop st.place (b ++ [' ']) := by
    rw [asciiTop_append]
    exact ⟨hst.place.asciiTop.mpr hascii, fun _ => by decide, trivial⟩
  have htrim : trim (st.past (b ++ [' '])).branch.reverse = b := by
    rw [UnionScan.past_branch, hst.branch, List.append_nil, List.reverse_reverse, trim,
      Text.trim_concat rfl]
    exact hb.trimmed
  have hne : List.isEmpty b = false := by simpa using hb.ne_nil
  have hskip : (st.past (b ++ [' '])).skip = 0 := hst.skip
  have hbegins : (st.past (b ++ [' '])).place.Begins := by
    rw [UnionScan.past_place, hspace]
    exact ⟨rfl, rfl, rfl⟩
  rw [List.append_cons, scanUnion_past hst.skip hkey hspaced,
    scanUnion_keyword hskip hbegins hk ht, htrim, hne]
  rfl

/-! ### Queries of branches -/

/-- What follows the first branch: keywords and branches. -/
def joined (others : List (UnionMode × Text)) : Text :=
  others.flatMap fun p => ' ' :: (p.1.keyword ++ ' ' :: p.2)

theorem scanUnion_joined {mode : UnionMode} {others : List (UnionMode × Text)}
    (hmode : ∀ p ∈ others, p.1 = mode) {st : UnionScan} (hst : st.Fresh)
    (hseen : st.mode = none ∧ st.branches = [] ∨ st.mode = some mode ∧ st.branches ≠ [])
    (hmore : st.branches ≠ [] ∨ others ≠ []) {b : Text}
    (hb : ∀ x ∈ b :: others.map Prod.snd, Branch x ∧ AsciiTop .start x) :
    scanUnion st (b ++ joined others) = .ok (some (st.branches ++ b :: others.map Prod.snd, mode)) := by
  induction others generalizing st b with
  | nil =>
    obtain ⟨hbranch, hascii⟩ := hb b (by simp)
    have hmore : st.branches ≠ [] := by simpa using hmore
    have hmode : st.mode = some mode := by
      rcases hseen with h | h
      · exact absurd h.2 hmore
      · exact h.1
    have htrim : trim (st.past b).branch.reverse = b := by
      rw [UnionScan.past_branch, hst.branch, List.append_nil, List.reverse_reverse]
      exact hbranch.trimmed
    rw [joined, List.flatMap_nil, scanUnion_past hst.skip (hst.place.noKeyword hbranch.noKeyword)
      (hst.place.asciiTop.mpr hascii), scanUnion, UnionScan.finish, htrim]
    have hne : List.isEmpty b = false := by simpa using hbranch.ne_nil
    have hsome : st.branches.isEmpty = false := by simpa using hmore
    simp [hne, hsome, hmode]
  | cons p others ih =>
    obtain ⟨m, c⟩ := p
    obtain rfl : m = mode := hmode (m, c) (by simp)
    obtain ⟨hbranch, hascii⟩ := hb b (by simp)
    have hc : Branch c := (hb c (by simp)).1
    have hagree : st.mode.any (· ≠ m) = false := by
      rcases hseen with h | h <;> simp [h.1]
    rw [joined, List.flatMap_cons, ← joined, List.cons_append, List.append_assoc, List.cons_append,
      scanUnion_branch hst hbranch hascii (upper_keyword m) (hc.goesOn _), hagree]
    refine (ih (fun p hp => hmode p (by simp [hp])) (UnionScan.keyword_fresh _ m)
      (.inr ⟨rfl, by simp⟩) (.inl (by simp)) fun x hx => hb x (by simp at hx ⊢; tauto)).trans ?_
    simp

theorem scanUnion_joined_panics {mode : UnionMode} {others : List (UnionMode × Text)}
    (hmode : ∀ p ∈ others, p.1 = mode) {st : UnionScan} (hst : st.Fresh)
    (hseen : st.mode.all (· = mode)) {b : Text} (hb : ∀ x ∈ b :: others.map Prod.snd, Branch x)
    (hascii : ∃ x ∈ b :: others.map Prod.snd, ¬ AsciiTop .start x) :
    scanUnion st (b ++ joined others) = .error .panic := by
  induction others generalizing st b with
  | nil =>
    obtain ⟨x, hx, hascii⟩ := hascii
    obtain rfl := List.mem_singleton.mp hx
    exact scanUnion_panics hst.skip (hst.place.noKeyword (hb x hx).noKeyword)
      fun h => hascii (hst.place.asciiTop.mp h)
  | cons p others ih =>
    obtain ⟨m, c⟩ := p
    obtain rfl : m = mode := hmode (m, c) (by simp)
    have hbranch : Branch b := hb b (by simp)
    have hc : Branch c := hb c (by simp)
    rw [joined, List.flatMap_cons, ← joined, List.cons_append, List.append_assoc, List.cons_append]
    by_cases hfirst : AsciiTop .start b
    · have hagree : st.mode.any (· ≠ m) = false := by
        rcases hm : st.mode with _ | m'
        · rfl
        · rw [hm] at hseen
          simpa using hseen
      rw [scanUnion_branch hst hbranch hfirst (upper_keyword m) (hc.goesOn _), hagree]
      refine ih (fun p hp => hmode p (by simp [hp])) (UnionScan.keyword_fresh _ m) (by simp)
        (fun x hx => hb x (by simp at hx ⊢; tauto)) ?_
      obtain ⟨x, hx, hbad⟩ := hascii
      rcases List.mem_cons.mp hx with rfl | hx
      · exact absurd hfirst hbad
      · exact ⟨x, hx, hbad⟩
    · exact scanUnion_panics hst.skip (hst.place.noKeyword (hbranch.noKeyword.append rfl))
        fun h => hfirst (hst.place.asciiTop.mp h)

/-- A query that joins branches by keywords. -/
structure UnionQuery where
  first : Text
  others : List (UnionMode × Text)

namespace UnionQuery

variable (u : UnionQuery)

def branches : List Text := u.first :: u.others.map Prod.snd

def text : Text := u.first ++ joined u.others

/-- Two branches or more, none of them empty, joined by one keyword. -/
structure Uniform (mode : UnionMode) : Prop where
  several : u.others ≠ []
  modes : ∀ p ∈ u.others, p.1 = mode
  nonempty : ∀ b ∈ u.branches, b ≠ []

/-- Every character outside of brackets and quotes takes one byte. -/
def Ascii : Prop := ∀ b ∈ u.branches, AsciiTop .start b

variable {u}

theorem splitTopLevelUnion_text {mode : UnionMode} (hu : u.Uniform mode)
    (hb : ∀ b ∈ u.branches, Branch b) :
    (u.Ascii → splitTopLevelUnion u.text = .ok (some (u.branches, mode)))
      ∧ (¬ u.Ascii → splitTopLevelUnion u.text = .error .panic) := by
  constructor
  · intro hascii
    exact scanUnion_joined hu.modes UnionScan.start_fresh (.inl ⟨rfl, rfl⟩) (.inr hu.several)
      fun x hx => ⟨hb x hx, hascii x hx⟩
  · intro hascii
    refine scanUnion_joined_panics hu.modes UnionScan.start_fresh rfl hb ?_
    simpa only [Ascii, branches, not_forall, exists_prop] using hascii

theorem trim_text (hothers : u.others ≠ []) (hb : ∀ b ∈ u.branches, Branch b) :
    trim u.text = u.text := by
  have hfirst := hb u.first (by simp [branches])
  obtain ⟨init, ⟨m, b⟩, hlast⟩ := (List.eq_nil_or_concat u.others).resolve_left hothers
  have hbranch : Branch b := hb b (by simp [branches, hlast])
  have htext : u.text = (u.first ++ (joined init ++ ' ' :: (m.keyword ++ [' ']))) ++ b := by
    rw [text, hlast, List.concat_eq_append, joined, List.flatMap_append]
    simp [joined]
  refine Text.trim_eq_self (fun c hc => ?_) fun c hc => ?_
  · refine (Text.ends_of_trim hfirst.trimmed).1 c ?_
    rw [text, List.head?_append_of_ne_nil _ hfirst.ne_nil] at hc
    exact hc
  · refine (Text.ends_of_trim hbranch.trimmed).2 c ?_
    rw [htext, List.getLast?_append_of_ne_nil _ hbranch.ne_nil] at hc
    exact hc

end UnionQuery

/-! ### Rows -/

theorem retainFirst_eq {α : Type} (same : α → α → Bool) (xs : List α) :
    retainFirst same xs = xs.eraseDupsBy same := by
  have hloop (seen : List α) : xs.foldl
      (fun kept x => if kept.any (same x) then kept else kept ++ [x]) seen.reverse
        = List.eraseDupsBy.loop same xs seen := by
    induction xs generalizing seen with
    | nil => rw [List.eraseDupsBy.loop]; rfl
    | cons x xs ih =>
      rw [List.foldl_cons, List.eraseDupsBy.loop, List.any_reverse]
      rcases seen.any (same x) with _ | _
      · rw [if_neg (by decide), ← List.reverse_cons, ih]
      · rw [if_pos rfl, ih]
  exact hloop []

def sameNode (a b : GraphNode) : Bool := decide (a.id = b.id)

/-- All rows, or those that are not there before. -/
def UnionMode.keep {α : Type} (same : α → α → Bool) : UnionMode → List α → List α
  | .all, rows => rows
  | .distinct, rows => rows.eraseDupsBy same

/-- The rows of results of one kind, one after the other. -/
inductive Combined (mode : UnionMode) : List QueryResult → QueryResult → Prop
  | nodes {parts : List (List GraphNode)} (hne : parts ≠ []) :
      Combined mode (parts.map .nodes) (.nodes (mode.keep sameNode parts.flatten))
  | table {columns : List String} {parts : List (List (List Value))} (hne : parts ≠ []) :
      Combined mode (parts.map (.table columns)) (.table columns (mode.keep rowsEq parts.flatten))

theorem extend_nodes {results : List QueryResult} {rows : List GraphNode} {rows' : UnionRows} :
    results.foldlM UnionRows.extend (.nodes rows) = .ok rows' ↔
      ∃ parts : List (List GraphNode), results = parts.map .nodes
        ∧ rows' = .nodes (rows ++ parts.flatten) := by
  induction results generalizing rows with
  | nil =>
    constructor
    · intro h
      cases h
      exact ⟨[], rfl, by simp⟩
    · rintro ⟨parts, hparts, rfl⟩
      rw [List.map_eq_nil_iff.mp hparts.symm]
      simp [pure, Except.pure]
  | cons result results ih =>
    rw [List.foldlM_cons]
    constructor
    · intro h
      obtain ⟨more, hmore, h⟩ := bind_ok.mp h
      cases result with
      | ack => cases hmore
      | table => cases hmore
      | nodes part =>
        cases hmore
        obtain ⟨parts, rfl, rfl⟩ := ih.mp h
        exact ⟨part :: parts, rfl, by simp⟩
    · rintro ⟨_ | ⟨part, parts⟩, hparts, rfl⟩
      · cases hparts
      · obtain ⟨rfl, rfl⟩ := List.cons.inj hparts
        refine bind_ok.mpr ⟨_, rfl, ih.mpr ⟨parts, rfl, by simp⟩⟩

theorem extend_table {results : List QueryResult} {columns : List String} {rows : List (List Value)}
    {rows' : UnionRows} : results.foldlM UnionRows.extend (.table columns rows) = .ok rows' ↔
      ∃ parts : List (List (List Value)), results = parts.map (.table columns)
        ∧ rows' = .table columns (rows ++ parts.flatten) := by
  induction results generalizing rows with
  | nil =>
    constructor
    · intro h
      cases h
      exact ⟨[], rfl, by simp⟩
    · rintro ⟨parts, hparts, rfl⟩
      rw [List.map_eq_nil_iff.mp hparts.symm]
      simp [pure, Except.pure]
  | cons result results ih =>
    rw [List.foldlM_cons]
    constructor
    · intro h
      obtain ⟨more, hmore, hrest⟩ := bind_ok.mp h
      cases result with
      | ack => cases hmore
      | nodes => cases hmore
      | table columns' part =>
        rw [UnionRows.extend] at hmore
        split_ifs at hmore with hcolumns
        cases hmore
        rw [not_not] at hcolumns
        subst hcolumns
        obtain ⟨parts, rfl, rfl⟩ := ih.mp hrest
        exact ⟨part :: parts, rfl, by simp⟩
    · rintro ⟨_ | ⟨part, parts⟩, hparts, rfl⟩
      · cases hparts
      · obtain ⟨rfl, rfl⟩ := List.cons.inj hparts
        refine bind_ok.mpr ⟨.table columns (rows ++ part), ?_, ih.mpr ⟨parts, rfl, by simp⟩⟩
        rw [UnionRows.extend, if_neg (by simp)]

/-- What the branches of a union come to are their rows, when these are of one kind. -/
theorem combined_iff {mode : UnionMode} {results : List QueryResult} {r : QueryResult} :
    (∃ rows, results.foldlM UnionRows.extend .none = .ok rows ∧ rows.result mode = .ok r) ↔
      Combined mode results r := by
  have hnodes (rows : List GraphNode) :
      (UnionRows.nodes rows).result mode = .ok (.nodes (mode.keep sameNode rows)) := by
    cases mode
    · exact congrArg (fun rows => Except.ok (QueryResult.nodes rows)) (retainFirst_eq _ rows)
    · rfl
  have htable (columns : List String) (rows : List (List Value)) :
      (UnionRows.table columns rows).result mode = .ok (.table columns (mode.keep rowsEq rows)) := by
    cases mode
    · exact congrArg (fun rows => Except.ok (QueryResult.table columns rows)) (retainFirst_eq _ rows)
    · rfl
  constructor
  · rintro ⟨rows, hrows, hr⟩
    rcases results with _ | ⟨result, results⟩
    · cases hrows
      cases hr
    · rw [List.foldlM_cons] at hrows
      obtain ⟨more, hmore, hrows⟩ := bind_ok.mp hrows
      cases result with
      | ack => cases hmore
      | nodes part =>
        cases hmore
        obtain ⟨parts, rfl, rfl⟩ := extend_nodes.mp hrows
        rw [hnodes] at hr
        cases hr
        exact @Combined.nodes mode (part :: parts) (by simp)
      | table columns part =>
        cases hmore
        obtain ⟨parts, rfl, rfl⟩ := extend_table.mp hrows
        rw [htable] at hr
        cases hr
        exact @Combined.table mode columns (part :: parts) (by simp)
  · rintro (⟨hne⟩ | ⟨hne⟩)
    · rename_i parts
      obtain ⟨part, parts, rfl⟩ := List.exists_cons_of_ne_nil hne
      refine ⟨.nodes (part ++ parts.flatten), ?_, by rw [hnodes]; rfl⟩
      exact bind_ok.mpr ⟨.nodes part, rfl, extend_nodes.mpr ⟨parts, rfl, rfl⟩⟩
    · rename_i columns parts
      obtain ⟨part, parts, rfl⟩ := List.exists_cons_of_ne_nil hne
      refine ⟨.table columns (part ++ parts.flatten), ?_, by rw [htable]; rfl⟩
      exact bind_ok.mpr ⟨.table columns part, rfl, extend_table.mpr ⟨parts, rfl, rfl⟩⟩

/-- Branches that leave the graph as it is run one after the other on the same graph. -/
theorem executeUnionBranches_reading {run : InMemoryGraphStore → Text → Step} {mode : UnionMode}
    {g : InMemoryGraphStore} {branches : List Text} (hread : ∀ b ∈ branches, (run g b).1 = g)
    (rows : UnionRows) :
    (executeUnionBranches run mode branches rows g).1 = g ∧
      ∀ r, (executeUnionBranches run mode branches rows g).2 = .ok r ↔
        ∃ results, List.Forall₂ (fun b result => (run g b).2 = .ok result) branches results
          ∧ ∃ rows', results.foldlM UnionRows.extend rows = .ok rows' ∧ rows'.result mode = .ok r := by
  induction branches generalizing rows with
  | nil =>
    refine ⟨rfl, fun r => ⟨fun h => ⟨[], .nil, rows, rfl, h⟩, ?_⟩⟩
    rintro ⟨results, hresults, rows', hrows, hr⟩
    cases hresults
    cases hrows
    exact hr
  | cons b branches ih =>
    have hb := hread b (by simp)
    rw [executeUnionBranches]
    rcases hrun : run g b with ⟨g', e | result⟩
    · rw [hrun] at hb
      refine ⟨hb, fun r => ⟨fun h => ?_, ?_⟩⟩
      · cases h
      rintro ⟨results, hresults, -⟩
      cases hresults with
      | cons hresult _ =>
        rw [hrun] at hresult
        cases hresult
    · rw [hrun] at hb
      obtain rfl : g' = g := hb
      dsimp only
      rcases hextend : rows.extend result with e | more
      · refine ⟨rfl, fun r => ⟨fun h => ?_, ?_⟩⟩
        · cases h
        rintro ⟨results, hresults, rows', hrows, -⟩
        cases hresults with
        | cons hresult _ =>
          rw [hrun] at hresult
          cases hresult
          rw [List.foldlM_cons, hextend] at hrows
          cases hrows
      · obtain ⟨hsame, hok⟩ := ih (fun c hc => hread c (by simp [hc])) more
        refine ⟨hsame, fun r => ?_⟩
        rw [hok]
        constructor
        · rintro ⟨results, hresults, rows', hrows, hr⟩
          refine ⟨result :: results, .cons (by rw [hrun]) hresults, rows', ?_, hr⟩
          rw [List.foldlM_cons, hextend]
          exact hrows
        · rintro ⟨results, hresults, rows', hrows, hr⟩
          cases hresults with
          | cons hresult hrest =>
            rw [hrun] at hresult
            cases hresult
            rw [List.foldlM_cons, hextend] at hrows
            exact ⟨_, hrest, rows', hrows, hr⟩

/-! ### Running -/

section Running

variable (std : FloatStd) (order : HashOrder) (dialect : CypherDialect) (g : InMemoryGraphStore)

/-- The rows of all branches of a query, when each branch has some and they are of one kind. -/
def Answers (u : UnionQuery) (mode : UnionMode) (r : QueryResult) : Prop :=
  ∃ results, List.Forall₂ (fun b result =>
      (executeQueryWithDialect std order g b dialect).2 = .ok result) u.branches results
    ∧ Combined mode results r

/-- A union means its branches: it is cut at them, and answered by their rows or not at all. -/
structure Means (u : UnionQuery) (mode : UnionMode) : Prop where
  split : splitTopLevelUnion u.text = .ok (some (u.branches, mode))
  unchanged : (executeQueryWithDialect std order g u.text dialect).1 = g
  answer : ∀ r, (executeQueryWithDialect std order g u.text dialect).2 = .ok r ↔
    Answers std order dialect g u mode r

/-- What a union query is to do: one that is uniform means its branches, any other is refused. -/
def Unites (u : UnionQuery) : Prop :=
  (∀ mode, u.Uniform mode → Means std order dialect g u mode) ∧
    ((¬ ∃ mode, u.Uniform mode) →
      ∀ r, (executeQueryWithDialect std order g u.text dialect).2 ≠ .ok r)

/-- The dialect has nothing against the text as a whole. -/
def Admitted (u : UnionQuery) : Prop :=
  dialect = .neo4jCompat → rejectNeo4jCompatExtension u.text = none

theorem UnionQuery.Uniform.mode_eq {u : UnionQuery} {mode mode' : UnionMode}
    (h : u.Uniform mode) (h' : u.Uniform mode') : mode = mode' := by
  obtain ⟨p, hp⟩ := List.exists_mem_of_ne_nil _ h.several
  rw [← h.modes p hp, h'.modes p hp]

variable {std order dialect g}

theorem executeQuery_text (std : FloatStd) (order : HashOrder) (g : InMemoryGraphStore)
    {u : UnionQuery} {mode : UnionMode} (hu : u.Uniform mode)
    (hb : ∀ b ∈ u.branches, Branch b) (hadmitted : Admitted dialect u) (hascii : u.Ascii) :
    executeQueryWithDialect std order g u.text dialect
      = executeUnionQuery (fun g s => executeQueryWithDialect std order g s dialect) g u.branches
        mode := by
  rw [executeQueryWithDialect_eq, UnionQuery.trim_text hu.several hb, executeTrimmed]
  have hnone : (if dialect = .neo4jCompat then rejectNeo4jCompatExtension u.text else none) = none := by
    split_ifs with h
    · exact hadmitted h
    · rfl
  rw [hnone, (UnionQuery.splitTopLevelUnion_text hu hb).1 hascii]
  rfl

/-- A text that the dialect refuses is not run. -/
theorem executeQuery_refused (std : FloatStd) (order : HashOrder) (g : InMemoryGraphStore)
    {u : UnionQuery} (hothers : u.others ≠ [])
    (hb : ∀ b ∈ u.branches, Branch b) (h : ¬ Admitted dialect u) :
    ∃ e, executeQueryWithDialect std order g u.text dialect = (g, .error e) := by
  rw [Admitted, Classical.not_imp] at h
  obtain ⟨e, he⟩ := Option.ne_none_iff_exists'.mp h.2
  refine ⟨e, ?_⟩
  rw [executeQueryWithDialect_eq, UnionQuery.trim_text hothers hb, executeTrimmed, if_pos h.1, he]

theorem means_of_admitted {u : UnionQuery} {mode : UnionMode} (hu : u.Uniform mode)
    (hb : ∀ b ∈ u.branches, Branch b)
    (hread : ∀ b ∈ u.branches, (executeQueryWithDialect std order g b dialect).1 = g)
    (hascii : u.Ascii) (hadmitted : Admitted dialect u) : Means std order dialect g u mode := by
  have hrun := @executeUnionBranches_reading (fun g s => executeQueryWithDialect std order g s dialect) mode
    g u.branches hread .none
  have htext := executeQuery_text std order g hu hb hadmitted hascii
  refine ⟨(UnionQuery.splitTopLevelUnion_text hu hb).1 hascii, ?_, fun r => ?_⟩
  · rw [htext]
    exact hrun.1
  · rw [htext, executeUnionQuery, hrun.2]
    simp only [Answers, combined_iff]

end Running

section Witness

open Integrity

def everyNode : Text := "MATCH (n) RETURN n".toList

theorem everyNode_branch : Branch everyNode :=
  ⟨⟨"MATCH ", by decide, by decide⟩, by decide +kernel, by decide +kernel, by decide, by decide⟩

end Witness

end AiraGraphdb.Library.Query
