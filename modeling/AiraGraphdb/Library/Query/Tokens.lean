import AiraGraphdb.Library.Query.Unions

/-! # Queries of words

A query whose words stand one space apart: what the scan for unions does with it, and which numbers
its modifiers have. -/

namespace AiraGraphdb.Library.Query

open Schemes InMemoryGraphStore
open Library.Connections (CypherDialect)
open Text (spaced Clear Token)

/-! ### Words and names -/

/-- A piece of a query between blanks. -/
structure Word (w : Text) : Prop where
  ne_nil : w ≠ []
  chars : ∀ c ∈ w, isWhitespace c = false

theorem word_of_all {w : Text} (h : (!w.isEmpty && w.all fun c => !isWhitespace c) = true) :
    Word w := by
  rw [Bool.and_eq_true, List.all_eq_true] at h
  exact ⟨by simpa using h.1, fun c hc => by simpa using h.2 c hc⟩

theorem Word.token {w : Text} (h : Word w) : Token w := by
  rintro c hc rfl
  have := h.chars ' ' hc
  cases this

theorem Word.append {v w : Text} (hv : Word v) (hw : Word w) : Word (v ++ w) :=
  ⟨by simp [hv.ne_nil], fun c hc => (List.mem_append.mp hc).elim (hv.chars c) (hw.chars c)⟩

/-- A letter, a digit or an underscore, also of another alphabet. -/
def nameChar (c : Char) : Bool :=
  !isWhitespace c && (c.isAlphanum || c == '_' || decide (128 ≤ c.toNat))

structure Identifier (w : Text) : Prop where
  ne_nil : w ≠ []
  chars : ∀ c ∈ w, nameChar c = true

theorem Identifier.word {w : Text} (h : Identifier w) : Word w := by
  refine ⟨h.ne_nil, fun c hc => ?_⟩
  have := h.chars c hc
  rw [nameChar, Bool.and_eq_true, Bool.not_eq_true'] at this
  exact this.1

theorem identifier_of_all {w : Text} (h : (!w.isEmpty && w.all nameChar) = true) :
    Identifier w := by
  rw [Bool.and_eq_true, List.all_eq_true] at h
  exact ⟨by simpa using h.1, h.2⟩

theorem Word.upper_token {w : Text} (h : Word w) : Token (upper w) := by
  intro c hc hblank
  obtain ⟨d, hd, rfl⟩ := List.mem_map.mp hc
  exact h.token d hd (toUpper_blank hblank)

theorem upper_spaced (ts : List Text) : upper (spaced ts) = spaced (ts.map upper) := by
  induction ts with
  | nil => rfl
  | cons t ts ih =>
    rw [Text.spaced_cons, List.map_cons, Text.spaced_cons, ← ih]
    simp [upper]

theorem ne_of_nameChar {c d : Char} (hc : nameChar c = true) (hd : nameChar d = false) : c ≠ d := by
  rintro rfl
  exact Bool.false_ne_true (hd.symm.trans hc)

theorem nameChar_of_digit {c : Char} (h : c.isDigit = true) : nameChar c = true := by
  obtain ⟨h1, h2⟩ : 48 ≤ c.toNat ∧ c.toNat ≤ 57 := by
    rw [Char.isDigit, Bool.and_eq_true, decide_eq_true_iff, decide_eq_true_iff] at h
    exact ⟨h.1, h.2⟩
  obtain ⟨n, hn⟩ : ∃ n, c.toNat = n := ⟨_, rfl⟩
  have hc : c = Char.ofNat n := by rw [← hn, Char.ofNat_toNat]
  rw [hn] at h1 h2
  subst hc
  clear hn h
  interval_cases n <;> rfl

theorem toUpper_of_digit {c : Char} (h : c.isDigit = true) : c.toUpper = c := by
  rw [Char.isDigit, Bool.and_eq_true, decide_eq_true_iff, decide_eq_true_iff] at h
  have hle : c.toNat ≤ 57 := h.2
  rw [toUpper_eq, if_neg (by omega)]

/-- A character that is neither a quote nor a bracket. -/
def flatChar (c : Char) : Bool := !("'()[]\x7b\x7d".toList.contains c)

theorem flatChar_of_nameChar {c : Char} (h : nameChar c = true) : flatChar c = true := by
  by_contra hflat
  rw [flatChar, Bool.not_eq_true', Bool.not_eq_false, List.contains_iff_mem] at hflat
  have hnone : "'()[]\x7b\x7d".toList.all (fun d => !nameChar d) = true := rfl
  have := List.all_eq_true.mp hnone c hflat
  rw [h] at this
  cases this

theorem nextDepth_flat {c : Char} (h : flatChar c = true) (depth : ℕ) : nextDepth depth c = depth := by
  simp [flatChar] at h
  simp [nextDepth, h]

/-! ### Keywords in words -/

theorem Place.next_prev (p : Place) (c : Char) : (p.next c).prev = some c := by
  rw [Place.next]
  split_ifs <;> rfl

theorem noKeyword_inside {s rest : Text} (hs : ∀ c ∈ s, isWhitespace c = false) {p : Place}
    {d : Char} (hp : p.prev = some d) (hd : isWhitespace d = false) : NoKeyword rest p s := by
  induction s generalizing p d with
  | nil => trivial
  | cons c cs ih =>
    refine ⟨fun _ => ?_, ih (fun x hx => hs x (by simp [hx])) (p.next_prev c) (hs c (by simp))⟩
    rw [hp]
    exact keywordAt_of_prev hd _

theorem noKeyword_word {w rest : Text} (hw : Word w) (hne : upper w ≠ "UNION".toList)
    (hrest : wordEnds rest = true) (p : Place) : NoKeyword rest p w := by
  obtain ⟨c, cs, rfl⟩ := List.exists_cons_of_ne_nil hw.ne_nil
  refine ⟨fun _ => ?_, noKeyword_inside (fun x hx => hw.chars x (by simp [hx])) (p.next_prev c)
    (hw.chars c (by simp))⟩
  rw [keywordAt]
  split_ifs
  · exact unionKeyword_append hrest (unionKeyword_word hw.chars hne)
  · rfl

theorem wordEnds_spaced {ts : List Text} {rest : Text} (h : wordEnds rest = true) :
    wordEnds (spaced ts ++ rest) = true := by
  cases ts with
  | nil => exact h
  | cons => rfl

theorem noKeyword_spaced {ts : List Text} {rest : Text} (hts : ∀ w ∈ ts, Word w)
    (hne : ∀ w ∈ ts, upper w ≠ "UNION".toList) (hrest : wordEnds rest = true) (p : Place) :
    NoKeyword rest p (spaced ts) := by
  induction ts generalizing p with
  | nil => trivial
  | cons w ts ih =>
    rw [Text.spaced_cons, NoKeyword, noKeyword_append]
    exact ⟨fun _ => keywordAt_of_head (by decide) _,
      noKeyword_word (hts w (by simp)) (hne w (by simp)) (wordEnds_spaced hrest) _,
      ih (fun w hw => hts w (by simp [hw])) (fun w hw => hne w (by simp [hw])) _⟩

/-! ### Levels -/

/-- A text that the scan reads at the top level, and at whose end it is there again. -/
def Level (s : Text) : Prop :=
  ∀ p : Place, p.depth = 0 → p.quoted = false →
    AsciiTop p s ∧ (p.after s).depth = 0 ∧ (p.after s).quoted = false

theorem level_nil : Level [] := fun _ hd hq => ⟨trivial, hd, hq⟩

theorem Level.append {s t : Text} (hs : Level s) (ht : Level t) : Level (s ++ t) := by
  intro p hd hq
  obtain ⟨hs, hd, hq⟩ := hs p hd hq
  obtain ⟨ht, hd, hq⟩ := ht _ hd hq
  rw [asciiTop_append, Place.after_append]
  exact ⟨⟨hs, ht⟩, hd, hq⟩

theorem after_flat {s : Text} (hs : ∀ c ∈ s, flatChar c = true) {p : Place} (hq : p.quoted = false) :
    (p.after s).depth = p.depth ∧ (p.after s).quoted = false := by
  induction s generalizing p with
  | nil => exact ⟨rfl, hq⟩
  | cons c cs ih =>
    have hc := hs c (by simp)
    have hquote : c ≠ '\'' := by
      rintro rfl
      cases hc
    have hnext : p.next c = ⟨some c, p.depth, false⟩ := by
      rw [Place.next, if_neg hquote, hq, nextDepth_flat hc]
      rfl
    obtain ⟨hdepth, hquoted⟩ := @ih (fun x hx => hs x (by simp [hx])) (p.next c) (by rw [hnext])
    rw [Place.after_cons, hdepth, hnext]
    exact ⟨rfl, hnext ▸ hquoted⟩

/-- At the top level every character of a flat text counts, in brackets none does. -/
theorem asciiTop_flat {s : Text} (hs : ∀ c ∈ s, flatChar c = true) {p : Place}
    (hq : p.quoted = false) : AsciiTop p s ↔ (p.depth = 0 → ∀ c ∈ s, c.toNat < 128) := by
  induction s generalizing p with
  | nil => simp [AsciiTop]
  | cons c cs ih =>
    have hc := hs c (by simp)
    have hquote : c ≠ '\'' := by
      rintro rfl
      cases hc
    have hcs : ∀ x ∈ cs, flatChar x = true := fun x hx => hs x (by simp [hx])
    have hdepth : (p.next c).depth = p.depth := by
      rw [Place.next, if_neg hquote, hq, nextDepth_flat hc]
      rfl
    have hquoted : (p.next c).quoted = false := by rw [Place.next, if_neg hquote, hq]
    rw [AsciiTop, ih hcs hquoted, hdepth, Place.Top, nextDepth_flat hc]
    simp [hquote, hq]
    tauto

theorem level_flat {s : Text} (hs : ∀ c ∈ s, flatChar c = true) (hascii : ∀ c ∈ s, c.toNat < 128) :
    Level s := fun _ hd hq =>
  ⟨(asciiTop_flat hs hq).mpr fun _ => hascii, (after_flat hs hq).1.trans hd, (after_flat hs hq).2⟩

theorem level_of_all {w : Text}
    (h : w.all (fun c => flatChar c && decide (c.toNat < 128)) = true) : Level w := by
  rw [List.all_eq_true] at h
  refine level_flat (fun c hc => ?_) fun c hc => ?_
  · exact ((Bool.and_eq_true _ _).mp (h c hc)).1
  · exact of_decide_eq_true ((Bool.and_eq_true _ _).mp (h c hc)).2

theorem Identifier.flat {w : Text} (h : Identifier w) : ∀ c ∈ w, flatChar c = true :=
  fun c hc => flatChar_of_nameChar (h.chars c hc)

theorem Identifier.level {w : Text} (h : Identifier w) (hascii : ∀ c ∈ w, c.toNat < 128) : Level w :=
  level_flat h.flat hascii

/-- What stands in parentheses may be of any alphabet. -/
theorem level_parens {s : Text} (hs : ∀ c ∈ s, flatChar c = true) : Level ('(' :: (s ++ [')'])) := by
  intro p hd hq
  have hopen : p.next '(' = ⟨some '(', 1, false⟩ := by
    rw [Place.next, if_neg (by decide), hd, hq]
    rfl
  obtain ⟨hdepth, hquoted⟩ := @after_flat s hs ⟨some '(', 1, false⟩ rfl
  have hclose : ((⟨some '(', 1, false⟩ : Place).after s).next ')' = ⟨some ')', 0, false⟩ := by
    rw [Place.next, if_neg (by decide), hdepth, hquoted]
    rfl
  rw [AsciiTop, Place.after_cons, hopen, asciiTop_append, Place.after_append, Place.after_cons,
    Place.after_nil, hclose]
  refine ⟨⟨fun _ => by decide, ?_, fun _ => by decide, trivial⟩, rfl, rfl⟩
  exact (asciiTop_flat hs rfl).mpr fun h => absurd h Nat.one_ne_zero

theorem level_space : Level [' '] :=
  level_flat (by simp [flatChar]) (by simp)

theorem level_spaced {ts : List Text} (h : ∀ w ∈ ts, Level w) : Level (spaced ts) := by
  induction ts with
  | nil => exact level_nil
  | cons w ts ih =>
    exact level_space.append ((h w (by simp)).append (ih fun w hw => h w (by simp [hw])))

/-! ### The scan of words -/

theorem scanUnion_rest {st : UnionScan} (hskip : st.skip = 0) {s : Text}
    (hkey : NoKeyword [] st.place s) (hascii : AsciiTop st.place s) :
    scanUnion st s = .ok (st.past s).finish := by
  have h := @scanUnion_past [] s st hskip hkey hascii
  rwa [List.append_nil] at h

/-- A query without the keyword as a word is no union. -/
theorem splitTopLevelUnion_words {w : Text} {ts : List Text} (hts : ∀ t ∈ w :: ts, Word t)
    (hne : ∀ t ∈ w :: ts, upper t ≠ "UNION".toList) (hlevel : ∀ t ∈ w :: ts, Level t) :
    splitTopLevelUnion (w ++ spaced ts) = .ok none := by
  have hkey : NoKeyword [] .start (w ++ spaced ts) := by
    rw [noKeyword_append, List.append_nil]
    exact ⟨noKeyword_word (hts w (by simp)) (hne w (by simp))
        (by simpa using @wordEnds_spaced ts [] rfl) _,
      noKeyword_spaced (fun t ht => hts t (by simp [ht])) (fun t ht => hne t (by simp [ht])) rfl _⟩
  have hspaced : Level (spaced ts) := level_spaced fun t ht => hlevel t (by simp [ht])
  have hascii := ((hlevel w (by simp)).append hspaced .start rfl rfl).1
  exact scanUnion_rest rfl hkey hascii

/-! ### Blanks around words -/

theorem getLast_spaced {ts : List Text} (hts : ∀ w ∈ ts, Word w) {s : Text}
    (hs : ∀ c ∈ s.getLast?, isWhitespace c = false) :
    ∀ c ∈ (s ++ spaced ts).getLast?, isWhitespace c = false := by
  induction ts generalizing s with
  | nil => simpa using hs
  | cons w ts ih =>
    have hw := hts w (by simp)
    rw [Text.spaced_cons, List.append_cons, ← List.append_assoc]
    refine ih (fun w hw => hts w (by simp [hw])) fun c hc => ?_
    rw [List.getLast?_append_of_ne_nil _ hw.ne_nil] at hc
    exact hw.chars c (List.mem_of_getLast? hc)

theorem trim_words {w : Text} {ts : List Text} (hts : ∀ t ∈ w :: ts, Word t) :
    trim (w ++ spaced ts) = w ++ spaced ts := by
  have hw := hts w (by simp)
  refine Text.trim_eq_self (fun c hc => ?_) (getLast_spaced (fun t ht => hts t (by simp [ht]))
    fun c hc => hw.chars c (List.mem_of_getLast? hc))
  rw [List.head?_append_of_ne_nil _ hw.ne_nil] at hc
  exact hw.chars c (List.mem_of_head? hc)

theorem words_first {w : Text} {ts : List Text} (hw : Word w) :
    (words (w ++ spaced ts)).head? = some w := by
  cases ts with
  | nil => rw [Text.spaced_nil, List.append_nil, words, Text.words_word hw.chars hw.ne_nil]; rfl
  | cons => rw [Text.spaced_cons, words, Text.words_cons hw.chars hw.ne_nil rfl]; rfl

/-! ### Unions of words -/

section Scan

variable {st : UnionScan} {w : Text} {ts : List Text}

theorem Word.goesOn {u : Text} (hu : Word u) (hother : ∀ c ∈ u.head?, c.toUpper ≠ 'A') (rest : Text) :
    GoesOn (u ++ rest) := by
  obtain ⟨c, cs, rfl⟩ := List.exists_cons_of_ne_nil hu.ne_nil
  refine ⟨fun d hd => ?_, fun d hd => ?_⟩ <;> obtain rfl := Option.some.inj hd
  · exact hu.chars c (by simp)
  · exact hother c rfl

theorem noKeyword_words {rest : Text} (hts : ∀ t ∈ w :: ts, Word t)
    (hne : ∀ t ∈ w :: ts, upper t ≠ "UNION".toList) (hrest : wordEnds rest = true) (p : Place) :
    NoKeyword rest p (w ++ spaced ts) := by
  rw [noKeyword_append]
  exact ⟨noKeyword_word (hts w (by simp)) (hne w (by simp)) (wordEnds_spaced hrest) _,
    noKeyword_spaced (fun t ht => hts t (by simp [ht])) (fun t ht => hne t (by simp [ht])) hrest _⟩

theorem level_words (hlevel : ∀ t ∈ w :: ts, Level t) : Level (w ++ spaced ts) :=
  (hlevel w (by simp)).append (level_spaced fun t ht => hlevel t (by simp [ht]))

/-- A keyword among the words ends the branch of the words before it. -/
theorem scanUnion_words (hst : st.Fresh) (hmode : st.mode.all (· = .distinct))
    (hts : ∀ t ∈ w :: ts, Word t) (hne : ∀ t ∈ w :: ts, upper t ≠ "UNION".toList)
    (hlevel : ∀ t ∈ w :: ts, Level t) {k u : Text} {us : List Text} (hk : upper k = "UNION".toList)
    (hu : Word u) (hother : ∀ c ∈ u.head?, c.toUpper ≠ 'A') :
    scanUnion st (w ++ spaced (ts ++ k :: u :: us)) =
      scanUnion ⟨some ' ', 0, 0, false, [], st.branches ++ [w ++ spaced ts], some .distinct⟩
        (u ++ spaced us) := by
  have htext : w ++ spaced (ts ++ k :: u :: us)
      = (w ++ spaced ts ++ [' ']) ++ (k ++ ' ' :: (u ++ spaced us)) := by simp
  have hplace := level_words hlevel st.place hst.place.depth hst.place.quoted
  have hspace : st.place.after (w ++ spaced ts ++ [' ']) = ⟨some ' ', 0, false⟩ := by
    rw [Place.after_append, Place.after_cons, Place.after_nil, Place.next, if_neg (by decide),
      hplace.2.1, hplace.2.2]
    rfl
  have hkey : NoKeyword (k ++ ' ' :: (u ++ spaced us)) st.place (w ++ spaced ts ++ [' ']) := by
    rw [noKeyword_append]
    exact ⟨noKeyword_words hts hne rfl _, fun _ => keywordAt_of_head (by decide) _, trivial⟩
  have hascii := ((level_words hlevel).append level_space st.place hst.place.depth hst.place.quoted).1
  have htrim : trim (st.past (w ++ spaced ts ++ [' '])).branch.reverse = w ++ spaced ts := by
    rw [UnionScan.past_branch, hst.branch, List.append_nil, List.reverse_reverse, trim,
      Text.trim_concat rfl]
    exact trim_words hts
  have hnil : List.isEmpty (w ++ spaced ts) = false := by
    simp [(hts w (by simp)).ne_nil]
  have hskip : (st.past (w ++ spaced ts ++ [' '])).skip = 0 := hst.skip
  have hbegins : (st.past (w ++ spaced ts ++ [' '])).place.Begins := by
    rw [UnionScan.past_place, hspace]
    exact ⟨rfl, rfl, rfl⟩
  have hagree : (st.past (w ++ spaced ts ++ [' '])).mode.any (· ≠ UnionMode.distinct) = false := by
    rw [UnionScan.past_mode]
    rcases hm : st.mode with _ | mode
    · rfl
    · rw [hm] at hmode
      simpa using hmode
  rw [htext, scanUnion_past hst.skip hkey hascii,
    @scanUnion_keyword _ hskip hbegins .distinct k _ hk (hu.goesOn hother _), htrim, hnil, hagree]
  rfl

/-- The last words are a branch, where there is one before. -/
theorem scanUnion_words_end (hst : st.Fresh) (hts : ∀ t ∈ w :: ts, Word t)
    (hne : ∀ t ∈ w :: ts, upper t ≠ "UNION".toList) (hlevel : ∀ t ∈ w :: ts, Level t) :
    scanUnion st (w ++ spaced ts) = .ok (if st.branches = [] then none
      else st.mode.map fun mode => (st.branches ++ [w ++ spaced ts], mode)) := by
  have hascii := (level_words hlevel st.place hst.place.depth hst.place.quoted).1
  have htrim : trim (st.past (w ++ spaced ts)).branch.reverse = w ++ spaced ts := by
    rw [UnionScan.past_branch, hst.branch, List.append_nil, List.reverse_reverse]
    exact trim_words hts
  have hnil : List.isEmpty (w ++ spaced ts) = false := by
    simp [(hts w (by simp)).ne_nil]
  rw [scanUnion_rest hst.skip (noKeyword_words hts hne rfl _) hascii, UnionScan.finish, htrim, hnil]
  simp

theorem scanUnion_words_keyword (hst : st.Fresh) (hts : ∀ t ∈ w :: ts, Word t)
    (hne : ∀ t ∈ w :: ts, upper t ≠ "UNION".toList) (hlevel : ∀ t ∈ w :: ts, Level t) {k : Text}
    (hk : upper k = "UNION".toList) : scanUnion st (w ++ spaced (ts ++ [k])) = .ok none := by
  have htext : w ++ spaced (ts ++ [k]) = (w ++ spaced ts ++ [' ']) ++ k := by simp
  have hplace := level_words hlevel st.place hst.place.depth hst.place.quoted
  have hspace : st.place.after (w ++ spaced ts ++ [' ']) = ⟨some ' ', 0, false⟩ := by
    rw [Place.after_append, Place.after_cons, Place.after_nil, Place.next, if_neg (by decide),
      hplace.2.1, hplace.2.2]
    rfl
  have hkey : NoKeyword k st.place (w ++ spaced ts ++ [' ']) := by
    rw [noKeyword_append]
    exact ⟨noKeyword_words hts hne rfl _, fun _ => keywordAt_of_head (by decide) _, trivial⟩
  have hascii := ((level_words hlevel).append level_space st.place hst.place.depth hst.place.quoted).1
  have hskip : (st.past (w ++ spaced ts ++ [' '])).skip = 0 := hst.skip
  have hbegins : (st.past (w ++ spaced ts ++ [' '])).place.Begins := by
    rw [UnionScan.past_place, hspace]
    exact ⟨rfl, rfl, rfl⟩
  rw [htext, scanUnion_past hst.skip hkey hascii]
  exact scanUnion_keyword_end hskip hbegins hk

/-- The scan panics at a word of another alphabet. -/
theorem scanUnion_words_panics (hst : st.Fresh) (hts : ∀ t ∈ w :: ts, Word t)
    (hne : ∀ t ∈ w :: ts, upper t ≠ "UNION".toList) (hlevel : ∀ t ∈ w :: ts, Level t) {v : Text}
    {us : List Text} (hv : Word v) (hflat : ∀ c ∈ v, flatChar c = true)
    (hwide : ¬ ∀ c ∈ v, c.toNat < 128) (hnot : upper v ≠ "UNION".toList) :
    scanUnion st (w ++ spaced (ts ++ v :: us)) = .error .panic := by
  have htext : w ++ spaced (ts ++ v :: us) = (w ++ spaced ts ++ ' ' :: v) ++ spaced us := by simp
  have hplace := (level_words hlevel).append level_space st.place hst.place.depth hst.place.quoted
  have hkey : NoKeyword (spaced us) st.place (w ++ spaced ts ++ ' ' :: v) := by
    have hwords := @noKeyword_words w (ts ++ [v]) (spaced us) (by simp at hts ⊢; grind)
      (by simp at hne ⊢; grind) (by simpa using @wordEnds_spaced us [] rfl) st.place
    simpa using hwords
  rw [htext]
  refine scanUnion_panics hst.skip hkey fun hascii => hwide ?_
  rw [← List.singleton_append, ← List.append_assoc, asciiTop_append,
    asciiTop_flat hflat hplace.2.2] at hascii
  exact hascii.2 hplace.2.1

end Scan

/-! ### Modifiers -/

/-- A pattern is not at the end of a text with another last character. -/
theorem not_suffix {u w : Text} (hu : u ≠ []) (h : u.getLast? ≠ w.getLast?) : ¬ u <:+ w := by
  rintro ⟨t, rfl⟩
  exact h (List.getLast?_append_of_ne_nil t hu).symm

theorem upper_ne_union {w : Text} {c : Char} (h : w.getLast? = some c) (hc : c.toUpper ≠ 'N') :
    upper w ≠ "UNION".toList := by
  intro hw
  have hlast := congrArg List.getLast? hw
  rw [upper, List.getLast?_map, h] at hlast
  exact hc (Option.some.inj hlast)

theorem not_suffix_upper {u w : Text} {c : Char} (hw : w.getLast? = some c) (hu : u ≠ [])
    (hc : u.getLast? ≠ some c.toUpper) : ¬ u <:+ upper w := by
  refine not_suffix hu ?_
  rwa [upper, List.getLast?_map, hw]

/-- A number as a query has it. -/
structure Numeral where
  text : Text
  value : ℕ
  digits : ∀ c ∈ text, c.isDigit = true
  parses : Text.parseU64 text = some value

theorem Numeral.identifier (n : Numeral) : Identifier n.text := by
  refine ⟨?_, fun c hc => nameChar_of_digit (n.digits c hc)⟩
  intro h
  have := n.parses
  rw [h] at this
  cases this

theorem Numeral.getLast (n : Numeral) : ∃ c, n.text.getLast? = some c ∧ c.isDigit = true := by
  refine ⟨n.text.getLast n.identifier.ne_nil, List.getLast?_eq_some_getLast _, ?_⟩
  exact n.digits _ (List.getLast_mem _)

/-- What may follow a `RETURN`. -/
structure Modifiers where
  order : Bool
  skip : Option Numeral
  limit : Option Numeral

namespace Modifiers

variable (m : Modifiers) (v : Text)

def orderTokens : List Text :=
  if m.order then ["ORDER".toList, "BY".toList, v ++ ".id".toList] else []

def skipTokens : List Text := m.skip.elim [] fun n => ["SKIP".toList, n.text]

def limitTokens : List Text := m.limit.elim [] fun n => ["LIMIT".toList, n.text]

/-- The modifiers as the words of a query that orders by the variable `v`. -/
def tokens : List Text := m.orderTokens v ++ (m.skipTokens ++ m.limitTokens)

/-- There is a modifier. -/
def any : Bool := m.order || m.skip.isSome || m.limit.isSome

/-- What the modifiers mean. -/
def meaning : ReturnModifiers := ⟨m.order, m.skip.map (·.value), m.limit.map (·.value)⟩

end Modifiers

namespace Modifiers

variable {m : Modifiers} {v : Text} {P : Text → Prop}

theorem forall_orderTokens (horder : P "ORDER".toList) (hby : P "BY".toList)
    (hid : P (v ++ ".id".toList)) : ∀ w ∈ m.orderTokens v, P w := by
  intro w hw
  rw [orderTokens] at hw
  split_ifs at hw
  · simp only [List.mem_cons, List.not_mem_nil, or_false] at hw
    rcases hw with rfl | rfl | rfl
    exacts [horder, hby, hid]
  · cases hw

theorem forall_skipTokens (hskip : P "SKIP".toList) (hnum : ∀ n : Numeral, P n.text) :
    ∀ w ∈ m.skipTokens, P w := by
  intro w hw
  rw [skipTokens] at hw
  rcases h : m.skip with _ | n <;> rw [h] at hw
  · cases hw
  · simp only [Option.elim_some, List.mem_cons, List.not_mem_nil, or_false] at hw
    rcases hw with rfl | rfl
    exacts [hskip, hnum n]

theorem forall_limitTokens (hlimit : P "LIMIT".toList) (hnum : ∀ n : Numeral, P n.text) :
    ∀ w ∈ m.limitTokens, P w := by
  intro w hw
  rw [limitTokens] at hw
  rcases h : m.limit with _ | n <;> rw [h] at hw
  · cases hw
  · simp only [Option.elim_some, List.mem_cons, List.not_mem_nil, or_false] at hw
    rcases hw with rfl | rfl
    exacts [hlimit, hnum n]

theorem forall_tokens (horder : P "ORDER".toList) (hby : P "BY".toList) (hid : P (v ++ ".id".toList))
    (hskip : P "SKIP".toList) (hlimit : P "LIMIT".toList) (hnum : ∀ n : Numeral, P n.text) :
    ∀ w ∈ m.tokens v, P w := by
  intro w hw
  rw [tokens, List.mem_append, List.mem_append] at hw
  rcases hw with hw | hw | hw
  · exact forall_orderTokens horder hby hid w hw
  · exact forall_skipTokens hskip hnum w hw
  · exact forall_limitTokens hlimit hnum w hw

theorem word_of_mem (hv : Word v) : ∀ w ∈ m.tokens v, Word w :=
  forall_tokens (word_of_all rfl) (word_of_all rfl) (hv.append (word_of_all rfl)) (word_of_all rfl)
    (word_of_all rfl) fun n => n.identifier.word

theorem upper_ne_of_mem : ∀ w ∈ m.tokens v, upper w ≠ "UNION".toList := by
  refine forall_tokens (by decide) (by decide) (upper_ne_union (c := 'd') (by simp) (by decide))
    (by decide) (by decide) fun n => ?_
  obtain ⟨c, hlast, hdigit⟩ := n.getLast
  refine upper_ne_union hlast fun hupper => ?_
  rw [toUpper_of_digit hdigit] at hupper
  rw [hupper] at hdigit
  cases hdigit

theorem level_of_mem (hv : Identifier v) (hascii : ∀ c ∈ v, c.toNat < 128) :
    ∀ w ∈ m.tokens v, Level w := by
  refine forall_tokens (level_of_all rfl) (level_of_all rfl)
    ((hv.level hascii).append (level_of_all rfl)) (level_of_all rfl) (level_of_all rfl)
    fun n => n.identifier.level fun c hc => ?_
  have := n.digits c hc
  rw [Char.isDigit, Bool.and_eq_true, decide_eq_true_iff, decide_eq_true_iff] at this
  have hle : c.toNat ≤ 57 := this.2
  omega

end Modifiers

/-! ### Reading modifiers -/

section Reading

variable {s : Text} {ts us : List Text} {word missing invalid : String}

theorem parseModifier_none (u : Text) (hword : word.toList = u ++ [' ']) (hu : Word u)
    (hs : Clear word.toList s (spaced ts)) (hts : ∀ w ∈ ts, Word w ∧ ¬ u <:+ w) :
    parseModifier (s ++ spaced ts) word missing invalid = .ok none := by
  have hclear : Clear word.toList (spaced ts) [] := by
    rw [hword]
    exact Text.clear_spaced_of_suffix hu.token hu.ne_nil (fun w hw => (hts w hw).1.token)
      Text.ends_nil fun w hw => (hts w hw).2
  have hnone : splitOnce word (s ++ spaced ts) = none :=
    Text.splitOnce_eq_none (by simp [hword])
      (Text.clear_append.mpr ⟨by rwa [List.append_nil], hclear⟩)
  rw [parseModifier, hnone]

theorem parseModifier_some (u : Text) {n : Numeral} (hword : word.toList = u ++ [' ']) (hu : Word u)
    (hs : Clear word.toList s (spaced (ts ++ u :: n.text :: us)))
    (hts : ∀ w ∈ ts, Word w ∧ ¬ u <:+ w) :
    parseModifier (s ++ spaced (ts ++ u :: n.text :: us)) word missing invalid
      = .ok (some n.value) := by
  have htext : s ++ spaced (ts ++ u :: n.text :: us)
      = (s ++ spaced ts ++ [' ']) ++ (word.toList ++ (n.text ++ spaced us)) := by simp [hword]
  have hmiddle : Clear word.toList (spaced ts) (' ' :: (word.toList ++ (n.text ++ spaced us))) := by
    rw [hword]
    exact Text.clear_spaced_of_suffix hu.token hu.ne_nil (fun w hw => (hts w hw).1.token)
      (by simp [Text.Ends]) fun w hw => (hts w hw).2
  have hspace : Clear word.toList [' '] (word.toList ++ (n.text ++ spaced us)) := by
    obtain ⟨c, cs, rfl⟩ := List.exists_cons_of_ne_nil hu.ne_nil
    rw [hword]
    refine ⟨fun h => ?_, trivial⟩
    exact hu.token c (by simp) (List.cons_prefix_cons.mp h).1
  have hclear : Clear word.toList (s ++ spaced ts ++ [' ']) (word.toList ++ (n.text ++ spaced us)) := by
    rw [Text.clear_append, Text.clear_append]
    refine ⟨⟨?_, by simpa using hmiddle⟩, hspace⟩
    simpa [hword] using hs
  have hsplit : splitOnce word (s ++ spaced (ts ++ u :: n.text :: us))
      = some (s ++ spaced ts ++ [' '], n.text ++ spaced us) := by
    rw [splitOnce, htext]
    exact Text.splitOnce_append hclear
  rw [parseModifier, hsplit]
  dsimp only
  rw [words_first n.identifier.word, ofOption]
  show (do return some (← ofOption (Text.parseU64 n.text) (syntaxError invalid))) = _
  rw [n.parses]
  rfl

end Reading

section Modifiers

variable {s v : Text} {m : Modifiers}

theorem Numeral.not_suffix (n : Numeral) {u : Text} {c : Char} (hu : u.getLast? = some c)
    (hc : c.isDigit = false) : ¬ u <:+ n.text := by
  obtain ⟨d, hlast, hdigit⟩ := n.getLast
  refine Query.not_suffix (by rintro rfl; cases hu) ?_
  rw [hu, hlast]
  rintro h
  rw [Option.some.inj h, hdigit] at hc
  cases hc

theorem parseModifier_skip (hv : Word v) (hs : Clear "SKIP ".toList s (spaced (m.tokens v)))
    (missing invalid : String) :
    parseModifier (s ++ spaced (m.tokens v)) "SKIP " missing invalid
      = .ok (m.skip.map (·.value)) := by
  have horder : ∀ w ∈ m.orderTokens v, ¬ "SKIP".toList <:+ w :=
    Modifiers.forall_orderTokens (by decide) (by decide) (not_suffix (by simp) (by simp))
  have hlimit : ∀ w ∈ m.limitTokens, ¬ "SKIP".toList <:+ w :=
    Modifiers.forall_limitTokens (by decide) fun n => n.not_suffix rfl rfl
  rcases hk : m.skip with _ | n
  · refine parseModifier_none "SKIP".toList rfl (word_of_all rfl) hs fun w hw => ⟨Modifiers.word_of_mem hv w hw, ?_⟩
    rw [Modifiers.tokens, Modifiers.skipTokens, hk] at hw
    exact (List.mem_append.mp hw).elim (horder w) (hlimit w)
  · have htokens : m.tokens v = m.orderTokens v ++ "SKIP".toList :: n.text :: m.limitTokens := by
      rw [Modifiers.tokens, Modifiers.skipTokens, hk]
      rfl
    have hwords := @Modifiers.word_of_mem m v hv
    rw [htokens] at hs hwords ⊢
    exact parseModifier_some "SKIP".toList rfl (word_of_all rfl) hs fun w hw =>
      ⟨hwords w (List.mem_append_left _ hw), horder w hw⟩

theorem parseModifier_limit (hv : Word v) (hs : Clear "LIMIT ".toList s (spaced (m.tokens v)))
    (missing invalid : String) :
    parseModifier (s ++ spaced (m.tokens v)) "LIMIT " missing invalid
      = .ok (m.limit.map (·.value)) := by
  have horder : ∀ w ∈ m.orderTokens v, ¬ "LIMIT".toList <:+ w :=
    Modifiers.forall_orderTokens (by decide) (by decide) (not_suffix (by simp) (by simp))
  have hskip : ∀ w ∈ m.skipTokens, ¬ "LIMIT".toList <:+ w :=
    Modifiers.forall_skipTokens (by decide) fun n => n.not_suffix rfl rfl
  have hbefore : ∀ w ∈ m.orderTokens v ++ m.skipTokens, ¬ "LIMIT".toList <:+ w := by
    intro w hw
    rcases List.mem_append.mp hw with hw | hw
    · exact horder w hw
    · exact hskip w hw
  rcases hk : m.limit with _ | n
  · refine parseModifier_none "LIMIT".toList rfl (word_of_all rfl) hs fun w hw => ⟨Modifiers.word_of_mem hv w hw, ?_⟩
    rw [Modifiers.tokens, Modifiers.limitTokens, hk, Option.elim_none, List.append_nil] at hw
    exact hbefore w hw
  · have htokens : m.tokens v
        = (m.orderTokens v ++ m.skipTokens) ++ "LIMIT".toList :: n.text :: [] := by
      rw [Modifiers.tokens, Modifiers.limitTokens, hk, Option.elim_some, List.append_assoc]
    have hwords := @Modifiers.word_of_mem m v hv
    rw [htokens] at hs hwords ⊢
    exact parseModifier_some "LIMIT".toList rfl (word_of_all rfl) hs fun w hw =>
      ⟨hwords w (List.mem_append_left _ hw), hbefore w hw⟩

theorem find_order_none (horder : m.order = false) (hv : Word v) (hs : Clear "ORDER BY".toList s (spaced (m.tokens v))) :
    find "ORDER BY" (s ++ spaced (m.tokens v)) = none := by
  have htokens : m.tokens v = m.skipTokens ++ m.limitTokens := by
    rw [Modifiers.tokens, Modifiers.orderTokens, horder]
    rfl
  have hskip : ∀ w ∈ m.skipTokens, ¬ "ORDER".toList <:+ w :=
    Modifiers.forall_skipTokens (by decide) fun n => n.not_suffix rfl rfl
  have hlimit : ∀ w ∈ m.limitTokens, ¬ "ORDER".toList <:+ w :=
    Modifiers.forall_limitTokens (by decide) fun n => n.not_suffix rfl rfl
  have hclear : Clear ("ORDER".toList ++ ' ' :: "BY".toList) (spaced (m.tokens v)) [] := by
    refine Text.clear_spaced_of_suffix (word_of_all rfl : Word "ORDER".toList).token (by simp)
      (fun w hw => (Modifiers.word_of_mem hv w hw).token) Text.ends_nil fun w hw => ?_
    rw [htokens] at hw
    rcases List.mem_append.mp hw with hw | hw
    · exact hskip w hw
    · exact hlimit w hw
  exact Text.find_eq_none (by simp) (Text.clear_append.mpr ⟨by rwa [List.append_nil], hclear⟩)

/-- The variable that is ordered by is `n`, or the modifier is refused. -/
theorem startsWith_order (hv : Identifier v) (us : List Text) :
    startsWith ("ORDER".toList ++ spaced ("BY".toList :: (v ++ ".id".toList) :: us)) "ORDER BY n.id"
      = decide (v = ['n']) := by
  have hn : nameChar 'n' = true := rfl
  have hiff := @Text.word_prefix_iff (nameChar · = true) ['n'] "id".toList v
    (".id".toList ++ spaced us) '.' (by simp [hn]) (by decide) hv.chars
    (by simp; decide)
  have htext : "ORDER".toList ++ spaced ("BY".toList :: (v ++ ".id".toList) :: us)
      = "ORDER BY ".toList ++ (v ++ (".id".toList ++ spaced us)) := by simp
  rw [Bool.eq_iff_iff, decide_eq_true_iff, startsWith, Text.startsWith_iff, htext]
  constructor
  · intro h
    exact (hiff.mp ((List.prefix_append_right_inj "ORDER BY ".toList).mp h)).1.symm
  · rintro rfl
    exact ⟨spaced us, by simp⟩

theorem parseReturnModifiers_ok {q : Text} {modifiers : ReturnModifiers}
    (h : parseReturnModifiers q = .ok modifiers) :
    parseModifier q "SKIP " "SKIP requires number" "invalid SKIP number" = .ok modifiers.skip
      ∧ parseModifier q "LIMIT " "LIMIT requires number" "invalid LIMIT number"
        = .ok modifiers.limit := by
  have hrest {orderBy : Bool} (h : (do
      let skip ← parseModifier q "SKIP " "SKIP requires number" "invalid SKIP number"
      let limit ← parseModifier q "LIMIT " "LIMIT requires number" "invalid LIMIT number"
      return (⟨orderBy, skip, limit⟩ : ReturnModifiers)) = .ok modifiers) :
      parseModifier q "SKIP " "SKIP requires number" "invalid SKIP number" = .ok modifiers.skip
        ∧ parseModifier q "LIMIT " "LIMIT requires number" "invalid LIMIT number"
          = .ok modifiers.limit := by
    obtain ⟨skip, hskip, h⟩ := bind_ok.mp h
    obtain ⟨limit, hlimit, h⟩ := bind_ok.mp h
    cases h
    exact ⟨hskip, hlimit⟩
  rw [parseReturnModifiers] at h
  rcases hfind : find "ORDER BY" q with _ | idx <;> rw [hfind] at h
  · exact hrest h
  · dsimp only at h
    split_ifs at h
    · exact hrest h
    · cases h

theorem parseReturnModifiers_text (hv : Identifier v)
    (horder : Clear "ORDER BY".toList s (spaced (m.tokens v)))
    (hskip : Clear "SKIP ".toList s (spaced (m.tokens v)))
    (hlimit : Clear "LIMIT ".toList s (spaced (m.tokens v))) :
    parseReturnModifiers (s ++ spaced (m.tokens v)) =
      if m.order = true ∧ v ≠ ['n'] then
        .error (unsupported "only ORDER BY n.id is supported" "ORDER BY")
      else .ok m.meaning := by
  rw [parseReturnModifiers, parseModifier_skip hv.word hskip, parseModifier_limit hv.word hlimit]
  rcases ho : m.order with _ | _
  · rw [find_order_none ho hv.word horder, Modifiers.meaning, ho]
    simp
    rfl
  · have htokens : m.tokens v = "ORDER".toList :: "BY".toList :: (v ++ ".id".toList)
        :: (m.skipTokens ++ m.limitTokens) := by
      rw [Modifiers.tokens, Modifiers.orderTokens, ho]
      rfl
    have hwords := @Modifiers.word_of_mem m v hv.word
    rw [htokens] at horder hwords
    have htext : s ++ spaced (m.tokens v) = (s ++ [' ']) ++ ("ORDER BY".toList
        ++ ' ' :: ((v ++ ".id".toList) ++ spaced (m.skipTokens ++ m.limitTokens))) := by
      rw [htokens]
      simp
    have hfind : find "ORDER BY" (s ++ spaced (m.tokens v)) = some (s.length + 1) := by
      rw [find, htext, Text.find_append, Text.find_self]
      · simp
      · rw [Text.clear_append]
        refine ⟨by simpa using horder, fun h => ?_, trivial⟩
        exact absurd (List.cons_prefix_cons.mp h).1 (by decide)
    have hdrop : (s ++ spaced (m.tokens v)).drop (s.length + 1) = "ORDER".toList
        ++ spaced ("BY".toList :: (v ++ ".id".toList) :: (m.skipTokens ++ m.limitTokens)) := by
      rw [htext, List.drop_left' (by simp)]
      simp
    rw [hfind]
    dsimp only
    rw [hdrop, trim_words hwords, startsWith_order hv, Modifiers.meaning, ho]
    by_cases hn : v = ['n']
    · simp [hn]
      rfl
    · simp [hn]
      rfl

end Modifiers

end AiraGraphdb.Library.Query
