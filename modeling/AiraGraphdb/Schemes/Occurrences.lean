import AiraGraphdb.Schemes.Text

/-! # Searches in a text that is put together

Where a pattern occurs first in a text of several pieces: the pieces before that are clear of it. A
piece of characters of one kind, a word, is clear of every pattern that does not go on after the word
as the text does. -/

namespace Schemes.Text

/-! ### Clear pieces -/

/-- No occurrence of the pattern in `s ++ rest` begins in `s`. -/
def Clear (pat : Text) : Text → Text → Prop
  | [], _ => True
  | c :: cs, rest => ¬ pat <+: c :: (cs ++ rest) ∧ Clear pat cs rest

@[simp] theorem clear_nil (pat rest : Text) : Clear pat [] rest := trivial

@[simp] theorem clear_cons {pat cs rest : Text} {c : Char} :
    Clear pat (c :: cs) rest ↔ ¬ pat <+: c :: (cs ++ rest) ∧ Clear pat cs rest := .rfl

theorem clear_append {pat s t rest : Text} :
    Clear pat (s ++ t) rest ↔ Clear pat s (t ++ rest) ∧ Clear pat t rest := by
  induction s with
  | nil => simp
  | cons c cs ih => simp only [List.cons_append, clear_cons, List.append_assoc, ih, and_assoc]

/-- Where a pattern does not begin, no longer one does. -/
theorem clear_of_prefix {pat pat' s rest : Text} (hpre : pat <+: pat') (h : Clear pat s rest) :
    Clear pat' s rest := by
  induction s with
  | nil => trivial
  | cons c cs ih => exact ⟨fun hp => h.1 (hpre.trans hp), ih h.2⟩

theorem find_append {pat s rest : Text} (h : Clear pat s rest) :
    find pat (s ++ rest) = (find pat rest).map (· + s.length) := by
  induction s with
  | nil => simp
  | cons c cs ih =>
    have hc : ¬ startsWith (c :: (cs ++ rest)) pat = true := fun hp => h.1 (startsWith_iff.mp hp)
    rw [List.cons_append, find, if_neg hc, ih h.2, Option.map_map]
    rfl

theorem find_self (pat rest : Text) : find pat (pat ++ rest) = some 0 := by
  rcases hs : pat ++ rest with _ | ⟨c, cs⟩
  · obtain ⟨rfl, rfl⟩ := List.append_eq_nil_iff.mp hs
    rfl
  · rw [find, if_pos (startsWith_iff.mpr (hs ▸ List.prefix_append pat rest))]

theorem splitOnce_append {pat s rest : Text} (h : Clear pat s (pat ++ rest)) :
    splitOnce pat (s ++ (pat ++ rest)) = some (s, rest) := by
  rw [splitOnce, find_append h, find_self]
  refine congrArg some (Prod.ext ?_ ?_)
  · exact List.take_left' (by simp)
  · rw [← List.append_assoc]
    exact List.drop_left' (by simp)

theorem find_eq_none {pat s : Text} (hpat : pat ≠ []) (h : Clear pat s []) : find pat s = none := by
  have hfind := find_append h
  rw [List.append_nil] at hfind
  rw [hfind, find, if_neg (by simpa using hpat)]
  rfl

theorem splitOnce_eq_none {pat s : Text} (hpat : pat ≠ []) (h : Clear pat s []) :
    splitOnce pat s = none := by
  rw [splitOnce, find_eq_none hpat h]
  rfl

theorem contains_eq_false {pat s : Text} (hpat : pat ≠ []) (h : Clear pat s []) :
    contains s pat = false := by
  rw [contains, find_eq_none hpat h]
  rfl

theorem clear_of_find_eq_none {pat s : Text} (h : find pat s = none) : Clear pat s [] := by
  induction s with
  | nil => trivial
  | cons c cs ih =>
    rw [find] at h
    split_ifs at h with hc
    refine ⟨fun hp => hc (startsWith_iff.mpr (by simpa using hp)), ih ?_⟩
    simpa using h

theorem contains_eq_false_iff {pat s : Text} (hpat : pat ≠ []) :
    contains s pat = false ↔ Clear pat s [] := by
  refine ⟨fun h => clear_of_find_eq_none ?_, contains_eq_false hpat⟩
  rwa [contains, Option.isSome_eq_false_iff, Option.isNone_iff_eq_none] at h

theorem contains_of_splitOnce {pat s : Text} {p : Text × Text} (h : splitOnce pat s = some p) :
    contains s pat = true := by
  obtain ⟨i, hi, -⟩ := Option.map_eq_some_iff.mp h
  rw [contains, hi]
  rfl

theorem contains_self (s pat rest : Text) : contains (s ++ (pat ++ rest)) pat = true := by
  induction s with
  | nil => rw [List.nil_append, contains, find_self]; rfl
  | cons c cs ih =>
    rw [contains, List.cons_append, find]
    split_ifs
    · rfl
    · rw [Option.isSome_map]
      exact ih

/-! ### Pieces that are known -/

/-- Nothing that begins in the piece can become the pattern, whatever follows. -/
def apart (pat : Text) : Text → Bool
  | [] => true
  | c :: cs => !pat.isPrefixOf (c :: cs) && !(c :: cs).isPrefixOf pat && apart pat cs

theorem clear_of_apart {pat s : Text} (h : apart pat s = true) (rest : Text) : Clear pat s rest := by
  induction s with
  | nil => trivial
  | cons c cs ih =>
    rw [apart, Bool.and_eq_true, Bool.and_eq_true, Bool.not_eq_true', Bool.not_eq_true'] at h
    refine ⟨fun hp => ?_, ih h.2⟩
    rcases List.prefix_or_prefix_of_prefix hp (List.prefix_append (c :: cs) rest) with hin | hout
    · exact Bool.false_ne_true (h.1.1.symm.trans (List.isPrefixOf_iff_prefix.mpr hin))
    · exact Bool.false_ne_true (h.1.2.symm.trans (List.isPrefixOf_iff_prefix.mpr hout))

/-! ### Words -/

section Words

variable {p : Char → Prop} {u v w rest : Text} {c : Char}

/-- Two texts agree up to the first character that does not belong to a word. -/
theorem word_prefix_iff (hu : ∀ x ∈ u, p x) (hc : ¬ p c) (hw : ∀ x ∈ w, p x)
    (hrest : ∀ d ∈ rest.head?, ¬ p d) : u ++ c :: v <+: w ++ rest ↔ u = w ∧ c :: v <+: rest := by
  induction u generalizing w with
  | nil =>
    rcases w with _ | ⟨d, w⟩
    · simp
    · have hne : c ≠ d := fun h => hc (h ▸ hw d (by simp))
      simp [List.cons_prefix_cons, hne]
  | cons a u ih =>
    rcases w with _ | ⟨d, w⟩
    · rcases rest with _ | ⟨d, rest⟩
      · simp
      · have hne : a ≠ d := fun h => hrest d rfl (h ▸ hu a (by simp))
        simp [List.cons_prefix_cons, hne]
    · have ih := ih (fun x hx => hu x (by simp [hx])) (w := w) fun x hx => hw x (by simp [hx])
      simp only [List.cons_append, List.cons_prefix_cons, ih, List.cons.injEq, and_assoc]

/-- A pattern that begins with the word `u` begins in a word only where that ends in `u`. -/
theorem clear_word_iff (hu : ∀ x ∈ u, p x) (hc : ¬ p c) (hw : ∀ x ∈ w, p x)
    (hrest : ∀ d ∈ rest.head?, ¬ p d) :
    Clear (u ++ c :: v) w rest ↔ (u ≠ [] → u <:+ w → ¬ c :: v <+: rest) := by
  induction w with
  | nil =>
    constructor
    · rintro - hne hs
      exact absurd (List.suffix_nil.mp hs) hne
    · exact fun _ => trivial
  | cons d w ih =>
    rw [clear_cons, ← List.cons_append, word_prefix_iff hu hc hw hrest,
      ih fun x hx => hw x (by simp [hx]), List.suffix_cons_iff]
    constructor
    · rintro ⟨hhead, htail⟩ hne (hs | hs)
      · exact fun h => hhead ⟨hs, h⟩
      · exact htail hne hs
    · rintro h
      exact ⟨fun ⟨hs, hin⟩ => h (by simp [hs]) (.inl hs) hin, fun hne hs => h hne (.inr hs)⟩

/-- A pattern that goes on after a word otherwise than the text does. -/
theorem clear_word (hu : ∀ x ∈ u, p x) (hc : ¬ p c) (hw : ∀ x ∈ w, p x)
    (hrest : ∀ d ∈ rest.head?, ¬ p d) (hne : ¬ c :: v <+: rest) : Clear (u ++ c :: v) w rest :=
  (clear_word_iff hu hc hw hrest).mpr fun _ _ => hne

/-- A pattern that does not begin as a word. -/
theorem clear_of_head (hc : ¬ p c) (hw : ∀ x ∈ w, p x) (rest : Text) : Clear (c :: v) w rest := by
  induction w with
  | nil => trivial
  | cons d w ih =>
    have hne : c ≠ d := fun h => hc (h ▸ hw d (by simp))
    exact ⟨fun h => hne (List.cons_prefix_cons.mp h).1, ih fun x hx => hw x (by simp [hx])⟩

end Words

/-! ### Tokens -/

section Tokens

/-- A piece without spaces. -/
abbrev Token (w : Text) : Prop := ∀ c ∈ w, c ≠ ' '

/-- Tokens with a space before each. -/
def spaced (ts : List Text) : Text := ts.flatMap (' ' :: ·)

@[simp] theorem spaced_nil : spaced [] = [] := rfl

@[simp] theorem spaced_cons (t : Text) (ts : List Text) :
    spaced (t :: ts) = ' ' :: (t ++ spaced ts) := rfl

@[simp] theorem spaced_append (ts us : List Text) : spaced (ts ++ us) = spaced ts ++ spaced us :=
  List.flatMap_append

theorem not_mem_spaced {c : Char} (hc : c ≠ ' ') {ts : List Text} (h : ∀ w ∈ ts, c ∉ w) :
    c ∉ spaced ts := by
  induction ts with
  | nil => simp
  | cons w ts ih =>
    rw [spaced_cons, List.mem_cons, List.mem_append]
    rintro (hspace | hw | hrest)
    exacts [hc hspace, h w (by simp) hw, ih (fun w hw => h w (by simp [hw])) hrest]

/-- What follows a token: a space or the end. -/
def Ends (rest : Text) : Prop := ∀ d ∈ rest.head?, d = ' '

theorem ends_nil : Ends [] := nofun

theorem ends_spaced {ts : List Text} {rest : Text} (h : Ends rest) : Ends (spaced ts ++ rest) := by
  rcases ts with _ | ⟨t, ts⟩
  · exact h
  · intro d hd
    simpa using hd.symm

variable {u v w rest : Text} {ts : List Text}

theorem token_prefix_iff (hu : Token u) (hw : Token w) (hrest : Ends rest) :
    u ++ ' ' :: v <+: w ++ rest ↔ u = w ∧ ' ' :: v <+: rest :=
  word_prefix_iff hu (by simp) hw fun d hd => by simp [hrest d hd]

/-- A token between spaces is only where that token is, and not at the end. -/
theorem clear_spaced (hu : Token u) (hts : ∀ w ∈ ts, Token w) (hrest : Ends rest)
    (hne : u ∉ ts) : Clear (' ' :: (u ++ [' '])) (spaced ts) rest := by
  induction ts with
  | nil => trivial
  | cons w ts ih =>
    have hw : Token w := hts w (by simp)
    rw [spaced_cons, clear_cons, clear_append]
    refine ⟨fun h => ?_, clear_of_head (p := (· ≠ ' ')) (by simp) hw _,
      ih (fun w hw => hts w (by simp [hw])) fun h => hne (by simp [h])⟩
    rw [List.cons_prefix_cons, List.append_assoc, token_prefix_iff hu hw (ends_spaced hrest)] at h
    exact hne (by simp [h.2.1])

theorem clear_spaced_last (hu : Token u) (hts : ∀ w ∈ ts, Token w) (hw : Token w) (hne : u ∉ ts) :
    Clear (' ' :: (u ++ [' '])) (spaced (ts ++ [w])) [] := by
  have hend : Clear (' ' :: (u ++ [' '])) (' ' :: w) [] := by
    refine ⟨fun h => ?_, clear_of_head (p := (· ≠ ' ')) (by simp) hw _⟩
    have h := (token_prefix_iff hu hw ends_nil).mp (List.cons_prefix_cons.mp h).2
    exact absurd (List.prefix_nil.mp h.2) (by simp)
  rw [spaced_append, clear_append, spaced_cons, spaced_nil, List.append_nil w]
  exact ⟨clear_spaced hu hts (by simp [Ends]) hne, hend⟩

theorem clear_spaced_cons (hu : Token u) (hnil : u ≠ []) (hw : Token w) (hrest : Ends rest) :
    Clear (u ++ ' ' :: v) (spaced (w :: ts)) rest ↔
      (u <:+ w → ¬ ' ' :: v <+: spaced ts ++ rest) ∧ Clear (u ++ ' ' :: v) (spaced ts) rest := by
  have hspace : ¬ u ++ ' ' :: v <+: ' ' :: (w ++ spaced ts ++ rest) := by
    obtain ⟨c, u, rfl⟩ := List.exists_cons_of_ne_nil hnil
    exact fun h => hu c (by simp) (List.cons_prefix_cons.mp h).1
  rw [spaced_cons, clear_cons, clear_append, and_iff_right hspace,
    clear_word_iff hu (by simp) hw fun d hd => by simp [ends_spaced hrest d hd]]
  simp [hnil]

/-- A token and what follows it are only where a token ends like that. -/
theorem clear_spaced_of_suffix (hu : Token u) (hnil : u ≠ []) (hts : ∀ w ∈ ts, Token w)
    (hrest : Ends rest) (hne : ∀ w ∈ ts, ¬ u <:+ w) : Clear (u ++ ' ' :: v) (spaced ts) rest := by
  induction ts with
  | nil => trivial
  | cons w ts ih =>
    rw [clear_spaced_cons hu hnil (hts w (by simp)) hrest]
    exact ⟨fun hs => absurd hs (hne w (by simp)),
      ih (fun w hw => hts w (by simp [hw])) fun w hw => hne w (by simp [hw])⟩

/-- The first token of several in which the pattern can begin. -/
theorem clear_spaced_append_cons {ws : List Text} (hu : Token u) (hnil : u ≠ [])
    (hws : ∀ t ∈ ws, Token t ∧ ¬ u <:+ t) (hw : Token w) (hrest : Ends rest) :
    Clear (u ++ ' ' :: v) (spaced (ws ++ w :: ts)) rest ↔
      (u <:+ w → ¬ ' ' :: v <+: spaced ts ++ rest) ∧ Clear (u ++ ' ' :: v) (spaced ts) rest := by
  have hends : Ends (spaced (w :: ts) ++ rest) := by simp [Ends]
  rw [spaced_append, clear_append, clear_spaced_cons hu hnil hw hrest]
  exact and_iff_right (clear_spaced_of_suffix hu hnil (fun t ht => (hws t ht).1) hends
    fun t ht => (hws t ht).2)

/-- A token that the text goes on with begins nowhere before. -/
theorem clear_before (hu : Token u) (hw : Token w) {t : Text} :
    Clear (u ++ ' ' :: v) w (u ++ ' ' :: t) := by
  induction w with
  | nil => trivial
  | cons c cs ih =>
    refine ⟨fun h => ?_, ih fun x hx => hw x (by simp [hx])⟩
    have hcu : Token (c :: cs ++ u) := fun x hx =>
      (List.mem_append.mp hx).elim (fun hx => hw x hx) fun hx => hu x hx
    have hin : u ++ ' ' :: v <+: (c :: cs ++ u) ++ ' ' :: t := by simpa using h
    have hends : Ends (' ' :: t) := by simp [Ends]
    have := congrArg List.length ((token_prefix_iff hu hcu hends).mp hin).1
    simp only [List.length_append, List.length_cons] at this
    omega

end Tokens

/-! ### Characters that are not there -/

/-- A pattern is nowhere in a text without one of its characters. -/
theorem clear_of_not_mem {pat s rest : Text} {c : Char} (hc : c ∈ pat) (hs : c ∉ s ++ rest) :
    Clear pat s rest := by
  induction s with
  | nil => trivial
  | cons d s ih =>
    exact ⟨fun h => hs (h.subset hc), ih fun h => hs (by simp at h ⊢; tauto)⟩

theorem contains_eq_false_of_not_mem {pat s : Text} {c : Char} (hc : c ∈ pat) (hs : c ∉ s) :
    contains s pat = false :=
  contains_eq_false (List.ne_nil_of_mem hc) (clear_of_not_mem hc (by simpa using hs))

/-- Only one of the occurrences at the start is taken off, when no other follows. -/
theorem trimStartMatches_append {pat s : Text} (hpat : pat ≠ []) (hs : ¬ pat <+: s) :
    trimStartMatches (pat ++ s) pat = s := by
  have hstop (n : ℕ) : dropStarts pat n s = s := by
    cases n with
    | zero => rfl
    | succ n => rw [dropStarts, stripPrefix, if_neg (fun h => hs (startsWith_iff.mp h))]
  have hlength : (pat ++ s).length = (pat.length - 1 + s.length) + 1 := by
    have := List.length_pos_of_ne_nil hpat
    simp only [List.length_append]
    omega
  rw [trimStartMatches, hlength, dropStarts, stripPrefix_eq_some.mpr rfl]
  exact hstop _

/-! ### Marks -/

section Marks

variable {s t u y z : Text} {c : Char}

/-- A character that a beginning does not have is after it. -/
theorem after_of_not_mem (hs : c ∉ s) (h : s ++ t = y ++ c :: z) :
    ∃ y', y = s ++ y' ∧ t = y' ++ c :: z := by
  rcases List.append_eq_append_iff.mp h with ⟨y', hy, ht⟩ | ⟨t', hs', ht⟩
  · exact ⟨y', hy, ht⟩
  · rcases t' with _ | ⟨d, t'⟩
    · exact ⟨[], by simpa using hs'.symm, by simpa using ht.symm⟩
    · obtain ⟨rfl, -⟩ := List.cons.inj ht
      exact absurd (by simp [hs']) hs

/-- A character that an end does not have is before it. -/
theorem before_of_not_mem (ht : c ∉ t) (h : s ++ t = y ++ c :: z) :
    ∃ z', s = y ++ c :: z' ∧ z = z' ++ t := by
  rcases List.append_eq_append_iff.mp h with ⟨y', hy, ht'⟩ | ⟨t', hs', ht'⟩
  · exact absurd (by simp [ht']) ht
  · rcases t' with _ | ⟨d, t'⟩
    · obtain rfl : c :: z = t := ht'
      exact absurd (by simp) ht
    · obtain ⟨rfl, hz⟩ := List.cons.inj ht'
      exact ⟨t', hs', hz⟩

/-- Pieces with a mark between each two. -/
theorem splitOn_flatMap {ts : List Text} (hs : c ∉ s) (hts : ∀ t ∈ ts, c ∉ t) :
    (s ++ ts.flatMap (c :: ·)).splitOn c = s :: ts := by
  have hsingle (u : Text) (hu : c ∉ u) : u.splitOnP (· == c) = [u] :=
    List.splitOnP_eq_singleton fun d hd => by
      rw [beq_eq_false_iff_ne]
      rintro rfl
      exact hu hd
  rw [List.splitOn_eq_splitOnP]
  induction ts generalizing s with
  | nil => rw [List.flatMap_nil, List.append_nil, hsingle s hs]
  | cons t ts ih =>
    rw [List.flatMap_cons, List.cons_append, List.splitOnP_append_cons _ _ (by simp), hsingle s hs,
      ih (hts t (by simp)) fun u hu => hts u (by simp [hu])]
    rfl

/-- A text without the mark, alone or between marks, is one of the pieces. -/
theorem mem_splitOn (hs : c ∉ s) (hy : y = [] ∨ ∃ y', y = y' ++ [c]) (hz : z = [] ∨ ∃ z', z = c :: z') :
    s ∈ (y ++ (s ++ z)).splitOn c := by
  have hsingle : s.splitOnP (· == c) = [s] := List.splitOnP_eq_singleton fun d hd => by
    rw [beq_eq_false_iff_ne]
    rintro rfl
    exact hs hd
  have hmem : s ∈ (s ++ z).splitOnP (· == c) := by
    rcases hz with rfl | ⟨z', rfl⟩
    · simp [hsingle]
    · simp [List.splitOnP_append_cons, hsingle]
  rw [List.splitOn_eq_splitOnP]
  rcases hy with rfl | ⟨y', rfl⟩
  · exact hmem
  · rw [List.append_assoc, List.singleton_append, List.splitOnP_append_cons _ _ (by simp)]
    exact List.mem_append_right _ hmem

end Marks

/-! ### Blanks -/

section Blanks

variable {blank : Char → Bool} {s w rest : Text} {c : Char}

/-- A text that neither begins nor ends with a blank. -/
theorem trim_eq_self (hhead : ∀ c ∈ s.head?, blank c = false)
    (hlast : ∀ c ∈ s.getLast?, blank c = false) : trim blank s = s := by
  have hdrop (t : Text) (h : ∀ c ∈ t.head?, blank c = false) : t.dropWhile blank = t := by
    rcases t with _ | ⟨c, t⟩
    · rfl
    · rw [List.dropWhile_cons, if_neg (by simp [h c rfl])]
  rw [trim, trimStart, hdrop s hhead, trimEnd, hdrop s.reverse (by simpa using hlast),
    List.reverse_reverse]

theorem trim_cons (hc : blank c = true) : trim blank (c :: s) = trim blank s := by
  rw [trim, trim, trimStart, trimStart, List.dropWhile_cons, if_pos hc]

theorem trim_concat (hc : blank c = true) : trim blank (s ++ [c]) = trim blank s := by
  rw [trim, trim, trimStart, trimStart, List.dropWhile_append]
  split_ifs with h
  · rw [List.isEmpty_iff.mp h, List.dropWhile_cons, if_pos hc]
    rfl
  · rw [trimEnd, trimEnd, List.reverse_append, List.reverse_singleton, List.singleton_append,
      List.dropWhile_cons, if_pos hc]

/-- What is its own trim neither begins nor ends with a blank. -/
theorem ends_of_trim (h : trim blank s = s) :
    (∀ c ∈ s.head?, blank c = false) ∧ ∀ c ∈ s.getLast?, blank c = false := by
  have hdrop {t : Text} {c : Char} (hc : c ∈ t.head?) (hb : blank c = true) :
      (t.dropWhile blank).length < t.length := by
    rcases t with _ | ⟨d, t⟩
    · cases hc
    · obtain rfl := Option.some.inj hc
      rw [List.dropWhile_cons, if_pos hb, List.length_cons]
      exact Nat.lt_succ_of_le (List.dropWhile_sublist _).length_le
  have hend := (List.dropWhile_sublist blank (l := (trimStart blank s).reverse)).length_le
  have hlength : (trim blank s).length = s.length := by rw [h]
  rw [trim, trimEnd, List.length_reverse] at hlength
  rw [List.length_reverse] at hend
  refine ⟨fun c hc => ?_, fun c hc => ?_⟩
  · by_contra hb
    have := hdrop hc (by simpa using hb)
    rw [trimStart] at hend hlength
    omega
  · by_contra hb
    have hstart : trimStart blank s = s :=
      (List.dropWhile_sublist blank).eq_of_length_le (by rw [trimStart] at *; omega)
    rw [hstart] at hlength
    have := hdrop (t := s.reverse) (by simpa using hc) (by simpa using hb)
    rw [List.length_reverse] at this
    omega

theorem trimEnd_append_cons (hc : blank c = false) :
    trimEnd blank (s ++ c :: rest) = s ++ c :: trimEnd blank rest := by
  have hreverse : (s ++ c :: rest).reverse = rest.reverse ++ c :: s.reverse := by simp
  rw [trimEnd, trimEnd, hreverse, List.dropWhile_append]
  split_ifs with h
  · rw [List.isEmpty_iff.mp h, List.dropWhile_cons, if_neg (by simp [hc])]
    simp
  · simp

theorem trim_cons_append_cons {d : Char} (hd : blank d = false) (hc : blank c = false) :
    trim blank (d :: (s ++ c :: rest)) = d :: (s ++ c :: trimEnd blank rest) := by
  rw [trim, trimStart, List.dropWhile_cons, if_neg (by simp [hd]), ← List.cons_append,
    trimEnd_append_cons hc, List.cons_append]

theorem trim_cons_self {d : Char} (hd : blank d = false) :
    trim blank (d :: rest) = d :: trimEnd blank rest := by
  rw [trim, trimStart, List.dropWhile_cons, if_neg (by simp [hd])]
  exact @trimEnd_append_cons blank [] rest d hd

theorem trimEnd_prefix (s : Text) : trimEnd blank s <+: s := by
  have h := List.dropWhile_suffix blank (l := s.reverse)
  simpa [trimEnd] using List.reverse_prefix.mpr h

theorem mem_dropWhile (hc : c ∈ s) (hb : blank c = false) : c ∈ s.dropWhile blank := by
  rw [← List.takeWhile_append_dropWhile (p := blank) (l := s), List.mem_append] at hc
  refine hc.resolve_left fun h => ?_
  rw [List.mem_takeWhile_imp h] at hb
  cases hb

theorem mem_trim (hc : c ∈ s) (hb : blank c = false) : c ∈ trim blank s := by
  rw [trim, trimEnd, List.mem_reverse]
  exact mem_dropWhile (List.mem_reverse.mpr (mem_dropWhile hc hb)) hb

theorem words_nil : words blank [] = [] := rfl

theorem words_word (hw : ∀ x ∈ w, blank x = false) (hne : w ≠ []) : words blank w = [w] := by
  rw [words, List.splitOnP_eq_singleton hw]
  simp [hne]

theorem words_cons (hw : ∀ x ∈ w, blank x = false) (hne : w ≠ []) (hc : blank c = true) :
    words blank (w ++ c :: rest) = w :: words blank rest := by
  rw [words, words, List.splitOnP_append_cons _ _ hc, List.splitOnP_eq_singleton hw]
  simp [hne]

end Blanks

end Schemes.Text
