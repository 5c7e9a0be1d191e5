import AiraGraphdb.Library.Query.Renaming
import AiraGraphdb.Library.Runs

/-! # Names that `WITH` introduces

A query that gives its node a new name is rewritten as text, and what comes before the rewriting
reads the names too: the scan for unions takes `union` for its keyword and panics at a name in
another alphabet, the dialect refuses a name that ends in `foreach`. `accepts_renamed_iff` says
which queries get through all of it; the one that is meant is among them only as long as nothing
orders by the new name, and not alone. -/

namespace AiraGraphdb.Library.Query

open Schemes InMemoryGraphStore
open Library.Connections (CypherDialect)
open Text (spaced Clear Token)

variable {label : Option Text} {x y : Text} {m : Modifiers}

/-! ### The scan for unions -/

/-- A word whose characters take one byte each. -/
def AsciiWord (w : Text) : Prop := ∀ c ∈ w, c.toNat < 128

theorem asciiWord_of_all {w : Text} (h : (w.all fun c => decide (c.toNat < 128)) = true) :
    AsciiWord w := fun c hc => of_decide_eq_true (List.all_eq_true.mp h c hc)

theorem asciiWord_of_upper {w : Text} (h : upper w = "UNION".toList) : AsciiWord w := by
  intro c hc
  have hup : c.toUpper ∈ "UNION".toList := by
    rw [← h]
    exact List.mem_map_of_mem hc
  rw [toUpper_eq] at hup
  split_ifs at hup with hsmall
  · omega
  · exact asciiWord_of_all (w := "UNION".toList) rfl c hup

/-- A word that the scan passes over. -/
structure Passed (t : Text) : Prop where
  word : Word t
  noKeyword : upper t ≠ "UNION".toList
  level : Level t

theorem passed_fixed : ∀ t ∈ ["MATCH".toList, "WITH".toList, ['n'], "AS".toList, "RETURN".toList],
    Passed t := by
  intro t ht
  simp only [List.mem_cons, List.not_mem_nil, or_false] at ht
  rcases ht with rfl | rfl | rfl | rfl | rfl
  all_goals exact ⟨word_of_all rfl, by decide, level_of_all rfl⟩

theorem passed_pattern (hl : ∀ l ∈ label, Identifier l) : Passed (nodePattern label) :=
  ⟨nodePattern_word hl, upper_ne_union (nodePattern_last label) (by decide), nodePattern_level hl⟩

theorem Identifier.passed {w : Text} (hw : Identifier w) (hascii : AsciiWord w)
    (hne : upper w ≠ "UNION".toList) : Passed w := ⟨hw.word, hne, hw.level hascii⟩

theorem Modifiers.passed (hy : Identifier y) (hascii : AsciiWord y) : ∀ t ∈ m.tokens y, Passed t :=
  fun t ht => ⟨word_of_mem hy.word t ht, upper_ne_of_mem t ht, level_of_mem hy hascii t ht⟩

/-- The words of a query in front of a new name. -/
def matchWords (label : Option Text) : List Text :=
  [nodePattern label, "WITH".toList, ['n'], "AS".toList]

theorem passed_matchWords (hl : ∀ l ∈ label, Identifier l) :
    ∀ t ∈ "MATCH".toList :: matchWords label, Passed t := by
  intro t ht
  simp only [matchWords, List.mem_cons, List.not_mem_nil, or_false] at ht
  rcases ht with rfl | rfl | ht
  · exact passed_fixed _ (by simp)
  · exact passed_pattern hl
  · exact passed_fixed t (by simp; tauto)

theorem renamedQuery_words : renamedQuery label x y m = "MATCH".toList ++
    spaced (matchWords label ++ x :: "RETURN".toList :: y :: m.tokens y) := by
  simp [renamedQuery, matchWords]

section Name

variable {st : UnionScan} (hst : st.Fresh) {w : Text} {ts : List Text}
  (hts : ∀ t ∈ w :: ts, Passed t) (hy : Identifier y)

include hst hts hy

theorem scanUnion_name_panics (hwide : ¬ AsciiWord y) :
    scanUnion st (w ++ spaced (ts ++ y :: m.tokens y)) = .error .panic :=
  scanUnion_words_panics hst (fun t ht => (hts t ht).word) (fun t ht => (hts t ht).noKeyword)
    (fun t ht => (hts t ht).level) hy.word hy.flat hwide fun h => hwide (asciiWord_of_upper h)

theorem scanUnion_name (hascii : AsciiWord y) (hne : upper y ≠ "UNION".toList) :
    scanUnion st (w ++ spaced (ts ++ y :: m.tokens y)) = .ok (if st.branches = [] then none
      else st.mode.map fun mode =>
        (st.branches ++ [w ++ spaced (ts ++ y :: m.tokens y)], mode)) := by
  have hall : ∀ t ∈ w :: (ts ++ y :: m.tokens y), Passed t := by
    intro t ht
    rw [← List.cons_append, List.mem_append, List.mem_cons (a := t) (b := y)] at ht
    rcases ht with ht | rfl | ht
    exacts [hts t ht, hy.passed hascii hne, Modifiers.passed hy hascii t ht]
  exact scanUnion_words_end hst (fun t ht => (hall t ht).word) (fun t ht => (hall t ht).noKeyword)
    fun t ht => (hall t ht).level

/-- A name that is the keyword ends a branch if something follows it. -/
theorem scanUnion_name_keyword (hmode : st.mode.all (· = .distinct))
    (hunion : upper y = "UNION".toList) :
    (m.any = false → scanUnion st (w ++ spaced (ts ++ y :: m.tokens y)) = .ok none) ∧
    (m.any = true → ∃ last, scanUnion st (w ++ spaced (ts ++ y :: m.tokens y)) =
      .ok (some (st.branches ++ [w ++ spaced ts] ++ [last], .distinct))) := by
  have hw := fun t ht => (hts t ht).word
  have hne := fun t ht => (hts t ht).noKeyword
  have hlevel := fun t ht => (hts t ht).level
  refine ⟨fun hany => ?_, fun hany => ?_⟩
  · rw [Modifiers.tokens_eq_nil hany]
    exact scanUnion_words_keyword hst hw hne hlevel hunion
  · obtain ⟨t, us, htokens, ht⟩ := Modifiers.tokens_of_any hany y
    have hother : ∀ c ∈ t.head?, c.toUpper ≠ 'A' := by
      simp only [List.mem_cons, List.not_mem_nil, or_false] at ht
      rcases ht with rfl | rfl | rfl <;> simp
    have hall : ∀ u ∈ t :: us, Passed u := fun u hu =>
      Modifiers.passed hy (asciiWord_of_upper hunion) u (htokens ▸ hu)
    refine ⟨t ++ spaced us, ?_⟩
    rw [htokens, scanUnion_words hst hmode hw hne hlevel hunion (hall t (by simp)).word hother,
      scanUnion_words_end (UnionScan.keyword_fresh _ _) (fun u hu => (hall u hu).word)
        (fun u hu => (hall u hu).noKeyword) fun u hu => (hall u hu).level]
    simp

end Name

/-- No name is taken for the keyword of a union, or keeps the scan from its end. -/
structure Whole (x y : Text) (m : Modifiers) : Prop where
  ascii : AsciiWord x ∧ AsciiWord y
  introduced : upper x = "UNION".toList → upper y = "UNION".toList
  returned : upper y = "UNION".toList → m.any = false

/-- The words behind which a query is cut in front of what it returns. -/
def CutAt (x : Text) (ts : List Text) : Prop :=
  ts = [] ∨ ts = [x, "RETURN".toList] ∧ AsciiWord x ∧ upper x ≠ "UNION".toList

/-- How the scan comes to the name that is returned: with no keyword so far, or with the new name
as one. -/
theorem scanUnion_renamed (hl : ∀ l ∈ label, Identifier l) (hx : Identifier x)
    (hascii : AsciiWord x) (us : List Text) :
    ∃ (st : UnionScan) (w : Text) (ts : List Text), st.Fresh ∧
      (∀ t ∈ w :: ts, Passed t) ∧
      scanUnion .start ("MATCH".toList ++ spaced (matchWords label ++ x :: "RETURN".toList :: us)) =
        scanUnion st (w ++ spaced (ts ++ us)) ∧
      (upper x = "UNION".toList ∧ st.mode = some .distinct ∧
          st.branches = ["MATCH".toList ++ spaced (matchWords label)] ∨
        upper x ≠ "UNION".toList ∧ st.mode = none ∧ st.branches = [] ∧ w = "MATCH".toList ∧
          ts = matchWords label ++ [x, "RETURN".toList]) := by
  have hmatch := passed_matchWords hl
  have hreturn : Passed "RETURN".toList := passed_fixed _ (by simp)
  by_cases hunion : upper x = "UNION".toList
  · refine ⟨_, "RETURN".toList, [], UnionScan.keyword_fresh _ _, by simpa using hreturn,
      ?_, .inl ⟨hunion, rfl, rfl⟩⟩
    exact scanUnion_words UnionScan.start_fresh rfl (fun t ht => (hmatch t ht).word)
      (fun t ht => (hmatch t ht).noKeyword) (fun t ht => (hmatch t ht).level) hunion hreturn.word
      (by simp)
  · refine ⟨.start, _, _, UnionScan.start_fresh, ?_, by simp, .inr ⟨hunion, rfl, rfl, rfl, rfl⟩⟩
    intro t ht
    rw [← List.cons_append, List.mem_append] at ht
    rcases ht with ht | ht
    · exact hmatch t ht
    · simp only [List.mem_cons, List.not_mem_nil, or_false] at ht
      rcases ht with rfl | rfl
      exacts [hx.passed hascii hunion, hreturn]

/-- The scan for unions leaves the query as it is, panics, or cuts it before what is returned. -/
theorem splitTopLevelUnion_renamed (hl : ∀ l ∈ label, Identifier l) (hx : Identifier x)
    (hy : Identifier y) :
    (Whole x y m → splitTopLevelUnion (renamedQuery label x y m) = .ok none) ∧
    (¬ Whole x y m → splitTopLevelUnion (renamedQuery label x y m) = .error .panic ∨
      ∃ ts, CutAt x ts ∧ ∃ others mode, splitTopLevelUnion (renamedQuery label x y m) =
          .ok (some (("MATCH".toList ++ spaced (matchWords label ++ ts)) :: others, mode))) := by
  rw [renamedQuery_words, splitTopLevelUnion]
  by_cases hxascii : AsciiWord x
  · obtain ⟨st, w, ts, hst, hwords, hscan, hcase⟩ :=
      scanUnion_renamed hl hx hxascii (y :: m.tokens y)
    have hmode : st.mode.all (· = .distinct) := by
      rcases hcase with ⟨-, hmode, -⟩ | ⟨-, hmode, -⟩ <;> simp [hmode]
    rw [hscan]
    by_cases hyascii : AsciiWord y
    · by_cases hyunion : upper y = "UNION".toList
      · obtain ⟨hnone, hcut⟩ := @scanUnion_name_keyword y m st hst w ts hwords hy hmode hyunion
        rcases hany : m.any with _ | _
        · refine ⟨fun _ => hnone hany, fun hwhole => absurd ?_ hwhole⟩
          exact ⟨⟨hxascii, hyascii⟩, fun _ => hyunion, fun _ => hany⟩
        · refine ⟨fun hwhole => absurd (hwhole.returned hyunion) (by simp [hany]), fun _ => .inr ?_⟩
          obtain ⟨last, hlast⟩ := hcut hany
          rcases hcase with ⟨-, -, hbranches⟩ | ⟨hunion, -, hbranches, rfl, rfl⟩
          · refine ⟨[], .inl rfl, [w ++ spaced ts, last], .distinct, ?_⟩
            rw [hlast, hbranches, List.append_nil]
            rfl
          · refine ⟨_, .inr ⟨rfl, hxascii, hunion⟩, [last], .distinct, ?_⟩
            rw [hlast, hbranches]
            rfl
      · rw [scanUnion_name hst hwords hy hyascii hyunion]
        rcases hcase with ⟨hunion, hmode, hbranches⟩ | ⟨hunion, -, hbranches, -⟩
        · refine ⟨fun hwhole => absurd (hwhole.introduced hunion) hyunion,
            fun _ => .inr ⟨[], .inl rfl, [w ++ spaced (ts ++ y :: m.tokens y)], .distinct, ?_⟩⟩
          rw [hbranches, hmode, List.append_nil]
          rfl
        · refine ⟨fun _ => by rw [if_pos hbranches], fun hwhole => absurd ?_ hwhole⟩
          exact ⟨⟨hxascii, hyascii⟩, fun h => absurd h hunion, fun h => absurd h hyunion⟩
    · exact ⟨fun hwhole => absurd hwhole.ascii.2 hyascii,
        fun _ => .inl (scanUnion_name_panics hst hwords hy hyascii)⟩
  · have hmatch := passed_matchWords hl
    refine ⟨fun hwhole => absurd hwhole.ascii.1 hxascii, fun _ => .inl ?_⟩
    exact scanUnion_words_panics UnionScan.start_fresh (fun t ht => (hmatch t ht).word)
      (fun t ht => (hmatch t ht).noKeyword) (fun t ht => (hmatch t ht).level) hx.word hx.flat
      hxascii fun h => hxascii (asciiWord_of_upper h)

/-! ### The dialect -/

section Dialect

variable {u : Text} {ts : List Text}

/-- The only bracket is that of the pattern, so two words of the dialect are left to look for. -/
theorem rejectNeo4jCompatExtension_words (hl : ∀ l ∈ label, Identifier l)
    (hts : ∀ t ∈ ts, '(' ∉ t ∧ '[' ∉ t) :
    rejectNeo4jCompatExtension ("MATCH".toList ++ spaced (nodePattern label :: ts)) = none ↔
      Clear "FOREACH ".toList (upper ("MATCH".toList ++ spaced (nodePattern label :: ts))) [] ∧
      Clear "LOAD CSV".toList (upper ("MATCH".toList ++ spaced (nodePattern label :: ts))) [] := by
  have hlabel : '(' ∉ label.elim [] (':' :: ·) ++ [')'] ∧
      '[' ∉ label.elim [] (':' :: ·) ++ [')'] := by
    rcases label with _ | l
    · decide
    · have hround : '(' ∉ l := fun h => absurd ((hl l rfl).chars _ h) (by decide)
      have hsquare : '[' ∉ l := fun h => absurd ((hl l rfl).chars _ h) (by decide)
      simp [hround, hsquare]
  have hround := Text.not_mem_spaced (show '(' ≠ ' ' by decide) fun t ht => (hts t ht).1
  have hsquare := Text.not_mem_spaced (show '[' ≠ ' ' by decide) fun t ht => (hts t ht).2
  -- what stands behind the bracket of the pattern
  obtain ⟨tail, htail, hround, hsquare⟩ : ∃ tail,
      "MATCH".toList ++ spaced (nodePattern label :: ts) = "MATCH ".toList ++ '(' :: tail ∧
        '(' ∉ tail ∧ '[' ∉ tail := by
    refine ⟨'n' :: (label.elim [] (':' :: ·) ++ [')'] ++ spaced ts), by simp [nodePattern], ?_, ?_⟩
    · simp only [List.mem_cons, List.mem_append] at hlabel hround ⊢
      tauto
    · simp only [List.mem_cons, List.mem_append] at hlabel hsquare ⊢
      tauto
  have hhas (pat : String) (h : '[' ∈ pat.toList) :
      contains (upper ("MATCH ".toList ++ '(' :: tail)) pat = false := by
    refine Text.contains_eq_false_of_not_mem h fun hmem => ?_
    have := mem_upper hmem (by decide)
    simp [hsquare] at this
  have hpath : contains (upper ("MATCH ".toList ++ '(' :: tail)) "SHORTESTPATH(" = false := by
    refine Text.contains_eq_false (by decide) ?_
    have htext : upper ("MATCH ".toList ++ '(' :: tail) = "MATCH ".toList ++ '(' :: upper tail := by
      simp [upper]
    rw [htext, Text.clear_append, Text.clear_cons]
    refine ⟨Text.clear_of_apart (by decide) _, fun h => ?_, ?_⟩
    · exact absurd (List.cons_prefix_cons.mp h).1 (by decide)
    · refine Text.clear_of_not_mem (c := '(') (by decide) fun hmem => hround ?_
      exact mem_upper (by simpa using hmem) (by decide)
  rw [htail, ← Text.contains_eq_false_iff (by decide), ← Text.contains_eq_false_iff (by decide)]
  simp only [rejectNeo4jCompatExtension, unsupportedFeatures, Option.map_eq_none_iff,
    List.find?_eq_none, List.mem_cons, List.not_mem_nil, or_false, forall_eq_or_imp, forall_eq,
    featureMatchesQuery, hpath, hhas "-[*" (by decide), hhas "[*" (by decide),
    hhas "RETURN [" (by decide), hhas "WITH [" (by decide),
    hhas "= [" (by decide)]
  simp only [Bool.or_self, Bool.false_and, Bool.not_eq_true, true_and, Bool.false_eq_true,
    not_false_eq_true]
  exact and_comm

theorem Modifiers.not_suffix_of_mem (hu : u ∈ ["FOREACH".toList, "LOAD".toList]) :
    ∀ w ∈ m.tokens y, ¬ u <:+ upper w := by
  have hword : ∀ w ∈ ["ORDER".toList, "BY".toList, "SKIP".toList, "LIMIT".toList],
      ∀ u ∈ ["FOREACH".toList, "LOAD".toList], ¬ u <:+ upper w := by decide
  have hnil : u ≠ [] := by
    rintro rfl
    simp at hu
  refine forall_tokens (hword _ (by simp) u hu) (hword _ (by simp) u hu) ?_
    (hword _ (by simp) u hu) (hword _ (by simp) u hu) fun n => ?_
  · have hid : upper ".id".toList = ".ID".toList := rfl
    rw [upper_append, hid, ← List.reverse_prefix, List.reverse_append]
    simp only [List.mem_cons, List.not_mem_nil, or_false] at hu
    rcases hu with rfl | rfl <;> simp [List.cons_prefix_cons]
  · obtain ⟨c, hlast, hdigit⟩ := n.getLast
    refine not_suffix_upper hlast hnil ?_
    rw [toUpper_of_digit hdigit]
    rintro h
    simp only [List.mem_cons, List.not_mem_nil, or_false] at hu
    rcases hu with rfl | rfl <;> obtain rfl := Option.some.inj h <;> cases hdigit

theorem dialectWord (hu : u ∈ ["FOREACH".toList, "LOAD".toList]) :
    Word u ∧ u.getLast? ≠ some ')' ∧
      ∀ v rest, Clear (u ++ ' ' :: v) (upper "MATCH".toList) rest := by
  have hspec : Word u ∧ u.getLast? ≠ some ')' ∧
      Text.apart (u ++ [' ']) (upper "MATCH".toList) = true := by
    simp only [List.mem_cons, List.not_mem_nil, or_false] at hu
    rcases hu with rfl | rfl <;> exact ⟨word_of_all rfl, by decide, rfl⟩
  refine ⟨hspec.1, hspec.2.1, fun v rest => ?_⟩
  exact Text.clear_of_prefix ⟨v, by simp⟩ (Text.clear_of_apart hspec.2.2 rest)

theorem not_suffix_fixed : ∀ w ∈ ["WITH".toList, ['n'], "AS".toList, "RETURN".toList],
    ∀ u ∈ ["FOREACH".toList, "LOAD".toList], ¬ u <:+ upper w := by decide

/-- One of the two words can only begin in the names. -/
theorem clear_renamed (hl : ∀ l ∈ label, Identifier l) (hx : Identifier x) (hy : Identifier y)
    (v : Text) (hu : u ∈ ["FOREACH".toList, "LOAD".toList]) :
    Clear (u ++ ' ' :: v) (upper (renamedQuery label x y m)) [] ↔
      (u <:+ upper x →
          ¬ ' ' :: v <+: " RETURN ".toList ++ (upper y ++ spaced ((m.tokens y).map upper)))
        ∧ (u <:+ upper y → ¬ ' ' :: v <+: spaced ((m.tokens y).map upper)) := by
  obtain ⟨hword, hlast, hmatch⟩ := dialectWord hu
  have htext : upper (renamedQuery label x y m) = upper "MATCH".toList ++
      spaced ([upper (nodePattern label), upper "WITH".toList, upper ['n'], upper "AS".toList] ++
        upper x :: ([upper "RETURN".toList] ++ upper y :: (m.tokens y).map upper)) := by
    rw [renamedQuery, upper_append, upper_spaced]
    simp
  have hpattern : ¬ u <:+ upper (nodePattern label) :=
    not_suffix_upper (nodePattern_last label) hword.ne_nil hlast
  have hbefore : ∀ t ∈ [upper (nodePattern label), upper "WITH".toList, upper ['n'],
      upper "AS".toList], Token t ∧ ¬ u <:+ t := by
    intro t ht
    simp only [List.mem_cons, List.not_mem_nil, or_false] at ht
    rcases ht with rfl | rfl | rfl | rfl
    · exact ⟨(nodePattern_word hl).upper_token, hpattern⟩
    all_goals exact ⟨Word.upper_token (word_of_all rfl), not_suffix_fixed _ (by simp) u hu⟩
  have hreturn : ∀ t ∈ [upper "RETURN".toList], Token t ∧ ¬ u <:+ t := by
    intro t ht
    rw [List.mem_singleton.mp ht]
    exact ⟨Word.upper_token (word_of_all rfl), not_suffix_fixed _ (by simp) u hu⟩
  have htokens : Clear (u ++ ' ' :: v) (spaced ((m.tokens y).map upper)) [] := by
    refine Text.clear_spaced_of_suffix hword.token hword.ne_nil (fun t ht => ?_) Text.ends_nil
      fun t ht => ?_
    all_goals obtain ⟨w, hw, rfl⟩ := List.mem_map.mp ht
    · exact (Modifiers.word_of_mem hy.word w hw).upper_token
    · exact Modifiers.not_suffix_of_mem hu w hw
  have hends := Text.ends_nil
  rw [htext, Text.clear_append, and_iff_right (hmatch v _),
    Text.clear_spaced_append_cons hword.token hword.ne_nil hbefore hx.word.upper_token hends,
    Text.clear_spaced_append_cons hword.token hword.ne_nil hreturn hy.word.upper_token hends,
    and_iff_left htokens]
  simp [upper]

/-- The dialect refuses a name that ends like a keyword of its own, in front of another word. -/
theorem rejectNeo4jCompatExtension_renamed (hl : ∀ l ∈ label, Identifier l) (hx : Identifier x)
    (hy : Identifier y) : rejectNeo4jCompatExtension (renamedQuery label x y m) = none ↔
      ¬ "FOREACH".toList <:+ upper x ∧ (m.any = true → ¬ "FOREACH".toList <:+ upper y) := by
  have hbracket {w : Text} (hw : Identifier w) : '(' ∉ w ∧ '[' ∉ w := by
    refine ⟨fun h => ?_, fun h => ?_⟩ <;> exact absurd (hw.chars _ h) (by decide)
  have hwords : ∀ t ∈ ["WITH".toList, ['n'], "AS".toList, x, "RETURN".toList, y] ++ m.tokens y,
      '(' ∉ t ∧ '[' ∉ t := by
    intro t ht
    rw [List.mem_append] at ht
    rcases ht with ht | ht
    · simp only [List.mem_cons, List.not_mem_nil, or_false] at ht
      rcases ht with rfl | rfl | rfl | rfl | rfl | rfl
      exacts [by decide, by decide, by decide, hbracket hx, by decide, hbracket hy]
    · exact ⟨Modifiers.not_mem_of_mem hy rfl (by decide) t ht,
        Modifiers.not_mem_of_mem hy rfl (by decide) t ht⟩
  have htext : renamedQuery label x y m = "MATCH".toList ++ spaced (nodePattern label ::
      (["WITH".toList, ['n'], "AS".toList, x, "RETURN".toList, y] ++ m.tokens y)) := rfl
  have hforeach : Clear "FOREACH ".toList (upper (renamedQuery label x y m)) [] ↔
      ¬ "FOREACH".toList <:+ upper x ∧ (m.any = true → ¬ "FOREACH".toList <:+ upper y) := by
    refine (clear_renamed hl hx hy [] (show "FOREACH".toList ∈ _ by simp)).trans (and_congr ?_ ?_)
    · simp
    · rcases hany : m.any with _ | _
      · rw [Modifiers.tokens_eq_nil hany]
        simp
      · obtain ⟨t, us, htokens, -⟩ := Modifiers.tokens_of_any hany y
        rw [htokens]
        simp
  have hload : Clear "LOAD CSV".toList (upper (renamedQuery label x y m)) [] := by
    refine (clear_renamed hl hx hy "CSV".toList (show "LOAD".toList ∈ _ by simp)).mpr
      ⟨fun _ h => ?_, fun _ h => ?_⟩
    · simp [List.cons_prefix_cons] at h
    · rcases hany : m.any with _ | _
      · rw [Modifiers.tokens_eq_nil hany] at h
        simp at h
      · obtain ⟨t, us, htokens, ht⟩ := Modifiers.tokens_of_any hany y
        rw [htokens] at h
        simp only [List.mem_cons, List.not_mem_nil, or_false] at ht
        rcases ht with rfl | rfl | rfl <;> simp [List.cons_prefix_cons, upper] at h
  rw [htext, rejectNeo4jCompatExtension_words hl hwords, ← htext, hforeach]
  exact and_iff_left hload

theorem identifier_n : Identifier ['n'] := ⟨by simp, by simp; rfl⟩

/-- The dialect has nothing against a query that only returns its node. -/
theorem rejectNeo4jCompatExtension_plain (hl : ∀ l ∈ label, Identifier l) :
    rejectNeo4jCompatExtension (plainQuery label m) = none := by
  have hwords : ∀ t ∈ ["RETURN".toList, ['n']] ++ m.tokens ['n'], '(' ∉ t ∧ '[' ∉ t := by
    intro t ht
    rw [List.mem_append] at ht
    rcases ht with ht | ht
    · simp only [List.mem_cons, List.not_mem_nil, or_false] at ht
      rcases ht with rfl | rfl <;> decide
    · exact ⟨Modifiers.not_mem_of_mem identifier_n rfl (by decide) t ht,
        Modifiers.not_mem_of_mem identifier_n rfl (by decide) t ht⟩
  have hclear {u : Text} (v : Text) (hu : u ∈ ["FOREACH".toList, "LOAD".toList]) :
      Clear (u ++ ' ' :: v) (upper (plainQuery label m)) [] := by
    obtain ⟨hword, hlast, hmatch⟩ := dialectWord hu
    have htext : upper (plainQuery label m) = upper "MATCH".toList ++
        spaced ((nodePattern label :: "RETURN".toList :: ['n'] :: m.tokens ['n']).map upper) := by
      rw [plainQuery, returnQuery, upper_append, upper_spaced]
      simp
    have hts : ∀ t ∈ nodePattern label :: "RETURN".toList :: ['n'] :: m.tokens ['n'],
        Word t ∧ ¬ u <:+ upper t := by
      intro t ht
      simp only [List.mem_cons] at ht
      rcases ht with rfl | rfl | rfl | ht
      · exact ⟨nodePattern_word hl, not_suffix_upper (nodePattern_last label) hword.ne_nil hlast⟩
      · exact ⟨word_of_all rfl, not_suffix_fixed _ (by simp) u hu⟩
      · exact ⟨word_of_all rfl, not_suffix_fixed _ (by simp) u hu⟩
      · exact ⟨Modifiers.word_of_mem identifier_n.word t ht, Modifiers.not_suffix_of_mem hu t ht⟩
    rw [htext, Text.clear_append]
    refine ⟨hmatch v _, Text.clear_spaced_of_suffix hword.token hword.ne_nil (fun t ht => ?_)
      Text.ends_nil fun t ht => ?_⟩
    all_goals obtain ⟨w, hw, rfl⟩ := List.mem_map.mp ht
    exacts [(hts w hw).1.upper_token, (hts w hw).2]
  have htext : plainQuery label m = "MATCH".toList ++ spaced (nodePattern label ::
      (["RETURN".toList, ['n']] ++ m.tokens ['n'])) := rfl
  rw [htext, rejectNeo4jCompatExtension_words hl hwords, ← htext]
  exact ⟨hclear [] (show "FOREACH".toList ∈ _ by simp),
    hclear "CSV".toList (show "LOAD".toList ∈ _ by simp)⟩

end Dialect

/-! ### Running -/

section Running

variable {std : FloatStd} {order : HashOrder} {dialect : CypherDialect} {g : InMemoryGraphStore}

/-- The query has an answer. -/
def Accepts (std : FloatStd) (order : HashOrder) (dialect : CypherDialect) (g : InMemoryGraphStore)
    (q : Text) : Prop :=
  ∃ result, (executeQueryWithDialect std order g q dialect).2 = .ok result

theorem withoutTableWith_eq {q : Text} (hcomma : ',' ∉ q) : withoutTableWith q = q := by
  have hclear : Clear " WITH n,r,m RETURN n,r,m".toList q [] :=
    Text.clear_of_not_mem (c := ',') (by decide) (by simpa using hcomma)
  rw [withoutTableWith, Text.replaceFirst, Text.splitOnce_eq_none (by decide) hclear, ite_self]

/-- A match with a `WITH` is rewritten. -/
theorem withoutWith_some {q : Text} (hmatch : startsWith q "MATCH " = true) (hcomma : ',' ∉ q)
    (hwith : contains q " WITH " = true) : withoutWith q = normalizeWithQuery q := by
  rw [withoutWith, withoutTableWith_eq hcomma, hmatch, hwith]
  rfl

theorem withoutWith_none {q : Text} (hcomma : ',' ∉ q) (hwith : contains q " WITH " = false) :
    withoutWith q = .ok q := by
  rw [withoutWith, withoutTableWith_eq hcomma, hwith, Bool.and_false]
  rfl

/-- A match that is no union is run by its clause. -/
theorem executeQuery_match {q : Text} (htrim : trim q = q) (hmatch : startsWith q "MATCH " = true)
    (hdialect : dialect = .neo4jCompat → rejectNeo4jCompatExtension q = none)
    (hsplit : splitTopLevelUnion q = .ok none) :
    executeQueryWithDialect std order g q dialect = parsed g (withoutWith q)
      (executeClause std order (fun g s => executeQueryWithDialect std order g s dialect) g) := by
  obtain ⟨rest, rfl⟩ := Text.startsWith_iff.mp hmatch
  have hnone : (if dialect = .neo4jCompat then
      rejectNeo4jCompatExtension ("MATCH ".toList ++ rest) else none) = none := by
    split_ifs with h
    · exact hdialect h
    · rfl
  rw [executeQueryWithDialect_eq, htrim, executeTrimmed, hnone, hsplit]
  rfl

/-- A query that the dialect refuses, or that makes the scan for unions panic, has no answer. -/
theorem not_accepts_of_refused {q : Text} (htrim : trim q = q)
    (h : dialect = .neo4jCompat ∧ rejectNeo4jCompatExtension q ≠ none ∨
      splitTopLevelUnion q = .error .panic) : ¬ Accepts std order dialect g q := by
  rintro ⟨result, hresult⟩
  rw [executeQueryWithDialect_eq, htrim, executeTrimmed] at hresult
  rcases hrefused : (if dialect = .neo4jCompat then rejectNeo4jCompatExtension q else none)
    with _ | e <;> rw [hrefused] at hresult
  · rcases h with ⟨hd, hq⟩ | hpanic
    · rw [if_pos hd] at hrefused
      exact hq hrefused
    · rw [hpanic] at hresult
      cases hresult
  · cases hresult

/-- A union has no answer when its first branch has none. -/
theorem not_accepts_of_branch {q b : Text} {others : List Text} {mode : UnionMode}
    (htrim : trim q = q) (hsplit : splitTopLevelUnion q = .ok (some (b :: others, mode)))
    (hb : ¬ Accepts std order dialect g b) : ¬ Accepts std order dialect g q := by
  rintro ⟨result, hresult⟩
  rw [executeQueryWithDialect_eq, htrim, executeTrimmed, hsplit] at hresult
  rcases hrefused : (if dialect = .neo4jCompat then rejectNeo4jCompatExtension q else none)
    with _ | e <;> rw [hrefused] at hresult
  · dsimp only [parsed, executeUnionQuery] at hresult
    rw [executeUnionBranches] at hresult
    rcases hrun : executeQueryWithDialect std order g b dialect with ⟨g', e | r⟩
    · rw [hrun] at hresult
      cases hresult
    · exact hb ⟨r, by rw [hrun]⟩
  · cases hresult

/-! ### Queries that are cut -/

theorem splitOnce_return_none (hx : Identifier x) (hkey : x ≠ "RETURN".toList) :
    splitOnce " RETURN " (['n'] ++ spaced ["AS".toList, x, "RETURN".toList]) = none := by
  have has : Word "AS".toList := word_of_all rfl
  have hreturn : Word "RETURN".toList := word_of_all rfl
  have hclear : Clear " RETURN ".toList (spaced (["AS".toList, x] ++ ["RETURN".toList])) [] :=
    Text.clear_spaced_last hreturn.token (by simpa using ⟨has.token, hx.word.token⟩) hreturn.token
      (by simpa using fun h => hkey h.symm)
  exact Text.splitOnce_eq_none (by decide)
    (Text.clear_append.mpr ⟨Text.clear_of_apart (by decide) _, hclear⟩)

/-- Without what it returns a `WITH` is not taken away. -/
theorem normalizeWithQuery_cut (hl : ∀ l ∈ label, Identifier l) (hx : Identifier x)
    {ts : List Text} (hts : CutAt x ts) (q : Text) :
    normalizeWithQuery ("MATCH".toList ++ spaced (matchWords label ++ ts)) ≠ .ok q := by
  intro h
  obtain ⟨ctx, ret, alias_, rest, hreturn, hprojection, -⟩ :=
    (normalizeWithQuery_ok (splitOnce_with hl ("AS".toList :: ts))).mp h
  rcases hts with rfl | ⟨rfl, -⟩
  · cases hreturn
  · by_cases hkey : x = "RETURN".toList
    · -- the new name is taken for the keyword
      subst hkey
      cases hreturn
      cases hprojection
    · have htrim : trim (['n'] ++ spaced ["AS".toList, x, "RETURN".toList])
          = ['n'] ++ spaced ["AS".toList, x, "RETURN".toList] := by
        refine trim_words fun t ht => ?_
        simp only [List.mem_cons, List.not_mem_nil, or_false] at ht
        rcases ht with rfl | rfl | rfl | rfl
        exacts [word_of_all rfl, word_of_all rfl, hx.word, word_of_all rfl]
      rw [htrim, splitOnce_return_none hx hkey] at hreturn
      cases hreturn

/-- The words of a query with a `WITH`, after the first, have no comma. -/
theorem comma_not_mem (hl : ∀ l ∈ label, Identifier l) {ts : List Text} (hts : ∀ t ∈ ts, ',' ∉ t) :
    ',' ∉ "MATCH".toList ++ spaced (matchWords label ++ ts) := by
  rw [List.mem_append, not_or]
  refine ⟨by decide, Text.not_mem_spaced (by decide) fun t ht => ?_⟩
  rcases List.mem_append.mp ht with ht | ht
  · simp only [matchWords, List.mem_cons, List.not_mem_nil, or_false] at ht
    rcases ht with rfl | rfl | rfl | rfl
    exacts [nodePattern_not_mem hl rfl (by decide), by decide, by decide, by decide]
  · exact hts t ht

/-- A query that is cut in front of what it returns has no answer. -/
theorem not_accepts_cut (hl : ∀ l ∈ label, Identifier l) (hx : Identifier x) {ts : List Text}
    (hts : CutAt x ts) :
    ¬ Accepts std order dialect g ("MATCH".toList ++ spaced (matchWords label ++ ts)) := by
  have hrest : ∀ t ∈ ts, Passed t ∧ ',' ∉ t := by
    rcases hts with rfl | ⟨rfl, hascii, hunion⟩
    · simp
    · intro t ht
      simp only [List.mem_cons, List.not_mem_nil, or_false] at ht
      rcases ht with rfl | rfl
      exacts [⟨hx.passed hascii hunion, hx.not_mem rfl⟩, ⟨passed_fixed _ (by simp), by decide⟩]
  have hwords : ∀ t ∈ "MATCH".toList :: (matchWords label ++ ts), Passed t := by
    intro t ht
    rw [← List.cons_append, List.mem_append] at ht
    exact ht.elim (passed_matchWords hl t) fun ht => (hrest t ht).1
  have htrim := trim_words fun t ht => (hwords t ht).word
  have hsplit := splitTopLevelUnion_words (fun t ht => (hwords t ht).word)
    (fun t ht => (hwords t ht).noKeyword) fun t ht => (hwords t ht).level
  by_cases hdialect : dialect = .neo4jCompat →
      rejectNeo4jCompatExtension ("MATCH".toList ++ spaced (matchWords label ++ ts)) = none
  · rintro ⟨result, hresult⟩
    have hmatch : startsWith ("MATCH".toList ++ spaced (matchWords label ++ ts)) "MATCH " = true :=
      Text.startsWith_iff.mpr ⟨_, rfl⟩
    have hwith := Text.contains_of_splitOnce (splitOnce_with hl ("AS".toList :: ts))
    rw [executeQuery_match htrim hmatch hdialect hsplit,
      withoutWith_some hmatch (comma_not_mem hl fun t ht => (hrest t ht).2) hwith] at hresult
    rcases hnormal : normalizeWithQuery ("MATCH".toList ++ spaced (matchWords label ++ ts))
      with e | q
    · rw [hnormal] at hresult
      cases hresult
    · exact normalizeWithQuery_cut hl hx hts q hnormal
  · exact not_accepts_of_refused htrim (.inl (Classical.not_imp.mp hdialect))

/-! ### Queries that are accepted -/

/-- The names are read as names. -/
structure Legible (dialect : CypherDialect) (x y : Text) (m : Modifiers) : Prop where
  whole : Whole x y m
  noReturn : x ≠ "RETURN".toList
  admitted : dialect = .neo4jCompat →
    ¬ "FOREACH".toList <:+ upper x ∧ (m.any = true → ¬ "FOREACH".toList <:+ upper y)

/-- What is returned goes on with `r` after the new name, and the modifiers are read. -/
structure GoesOnWith (x y : Text) (m : Modifiers) (r : Text) : Prop where
  text : y = x ++ r
  order : m.order = true → y = ['n']
  modifiers : m.any = true → ¬ "SKIP".toList <:+ r ∧ ¬ "LIMIT".toList <:+ r

theorem Identifier.goesOn {r : Text} (hy : Identifier y) (htext : y = x ++ r) :
    Identifier ('n' :: r) := by
  refine ⟨by simp, fun c hc => ?_⟩
  rcases List.mem_cons.mp hc with rfl | hc
  · rfl
  · exact hy.chars c (by simp [htext, hc])

section Accepted

variable (hl : ∀ l ∈ label, Identifier l) (hx : Identifier x) (hy : Identifier y)

include hl hx hy

theorem trim_renamed : trim (renamedQuery label x y m) = renamedQuery label x y m := by
  rw [renamedQuery_words]
  refine trim_words fun t ht => ?_
  rw [← List.cons_append, List.mem_append] at ht
  rcases ht with ht | ht
  · exact (passed_matchWords hl t ht).word
  · simp only [List.mem_cons] at ht
    rcases ht with rfl | rfl | rfl | ht
    exacts [hx.word, word_of_all rfl, hy.word, Modifiers.word_of_mem hy.word t ht]

/-- A query that is neither refused nor a union is rewritten. -/
theorem executeQuery_renamed (hwhole : Whole x y m) (hadmitted : dialect = .neo4jCompat →
      rejectNeo4jCompatExtension (renamedQuery label x y m) = none) :
    executeQueryWithDialect std order g (renamedQuery label x y m) dialect =
      parsed g (normalizeWithQuery (renamedQuery label x y m))
        (executeClause std order (fun g s => executeQueryWithDialect std order g s dialect) g) := by
  have hmatch : startsWith (renamedQuery label x y m) "MATCH " = true :=
    Text.startsWith_iff.mpr ⟨_, rfl⟩
  have hcomma : ',' ∉ renamedQuery label x y m := by
    rw [renamedQuery_words]
    refine comma_not_mem hl fun t ht => ?_
    simp only [List.mem_cons] at ht
    rcases ht with rfl | rfl | rfl | ht
    exacts [hx.not_mem rfl, by decide, hy.not_mem rfl,
      Modifiers.not_mem_of_mem hy rfl (by decide) t ht]
  rw [executeQuery_match (trim_renamed hl hx hy) hmatch hadmitted
      ((splitTopLevelUnion_renamed hl hx hy).1 hwhole),
    withoutWith_some hmatch hcomma (Text.contains_of_splitOnce (splitOnce_with hl _))]

/-- The query is accepted when its names are legible and what it returns begins with the new one. -/
theorem accepts_renamed_iff : Accepts std order dialect g (renamedQuery label x y m) ↔
    Legible dialect x y m ∧ ∃ r, GoesOnWith x y m r := by
  have htrim := @trim_renamed label x y m hl hx hy
  have hnormal := @normalizeWithQuery_renamed label x y m hl hx.word hy.word
  have hdialect := @rejectNeo4jCompatExtension_renamed label x y m hl hx hy
  constructor
  · intro haccepts
    have hwhole : Whole x y m := by
      by_contra hwhole
      rcases (splitTopLevelUnion_renamed hl hx hy).2 hwhole
        with hpanic | ⟨ts, hts, others, mode, hsplit⟩
      · exact not_accepts_of_refused htrim (.inr hpanic) haccepts
      · exact not_accepts_of_branch htrim hsplit (not_accepts_cut hl hx hts) haccepts
    have hadmitted : dialect = .neo4jCompat →
        rejectNeo4jCompatExtension (renamedQuery label x y m) = none := by
      intro hd
      by_contra hrefused
      exact not_accepts_of_refused htrim (.inl ⟨hd, hrefused⟩) haccepts
    obtain ⟨result, hresult⟩ := haccepts
    rw [executeQuery_renamed hl hx hy hwhole hadmitted] at hresult
    rcases hq : normalizeWithQuery (renamedQuery label x y m) with e | q
    · rw [hq] at hresult
      cases hresult
    · rw [hq] at hresult
      obtain ⟨hreturn, r, hr, rfl⟩ := hnormal.mp hq
      have hident := hy.goesOn hr
      dsimp only [parsed] at hresult
      rw [executeClause_return std order _ g hl hident hy] at hresult
      obtain ⟨horder, hmodifiers⟩ := (parseReturnModifiers_return hl hident.word hy).mp
        ((executeMatch_return order g hl hident.word hy.word).mp ⟨result, hresult⟩)
      exact ⟨⟨hwhole, hreturn, fun hd => hdialect.mp (hadmitted hd)⟩, r, hr, horder, hmodifiers⟩
  · rintro ⟨hlegible, r, hr⟩
    have hident := hy.goesOn hr.text
    have hq := hnormal.mpr ⟨hlegible.noReturn, r, hr.text, rfl⟩
    have hread := (parseReturnModifiers_return hl hident.word hy).mpr ⟨hr.order, hr.modifiers⟩
    obtain ⟨result, hresult⟩ := (executeMatch_return order g hl hident.word hy.word).mpr hread
    refine ⟨result, ?_⟩
    have hadmitted := fun hd => hdialect.mpr (hlegible.admitted hd)
    rw [executeQuery_renamed hl hx hy hlegible.whole hadmitted, hq]
    dsimp only [parsed]
    rw [executeClause_return std order _ g hl hident hy]
    exact hresult

end Accepted

/-! ### The query without `WITH` -/

theorem executeQuery_plain (hl : ∀ l ∈ label, Identifier l) :
    executeQueryWithDialect std order g (plainQuery label m) dialect =
      (g, executeMatch order g (plainQuery label m)) := by
  have hwith : ∀ t ∈ m.tokens ['n'], t ≠ "WITH".toList :=
    Modifiers.forall_tokens (by decide) (by decide) (by decide) (by decide) (by decide)
      fun n h => by
        have := n.digits 'W' (by simp [h])
        cases this
  have hwords : ∀ t ∈ "MATCH".toList :: nodePattern label :: "RETURN".toList :: ['n'] ::
      m.tokens ['n'], Passed t ∧ t ≠ "WITH".toList := by
    intro t ht
    simp only [List.mem_cons] at ht
    rcases ht with rfl | rfl | rfl | rfl | ht
    · exact ⟨passed_fixed _ (by simp), by decide⟩
    · refine ⟨passed_pattern hl, fun h => ?_⟩
      have hlast := nodePattern_last label
      rw [h] at hlast
      cases hlast
    · exact ⟨passed_fixed _ (by simp), by decide⟩
    · exact ⟨passed_fixed _ (by simp), by decide⟩
    · exact ⟨Modifiers.passed identifier_n (asciiWord_of_all rfl) t ht, hwith t ht⟩
  have hsplit : splitTopLevelUnion (plainQuery label m) = .ok none :=
    splitTopLevelUnion_words (fun t ht => (hwords t ht).1.word)
      (fun t ht => (hwords t ht).1.noKeyword) fun t ht => (hwords t ht).1.level
  have hcomma : ',' ∉ plainQuery label m :=
    returnQuery_not_mem hl identifier_n identifier_n rfl (by decide)
  have hclear : Clear " WITH ".toList (plainQuery label m) [] := by
    refine Text.clear_append.mpr ⟨Text.clear_of_apart (by decide) _, ?_⟩
    refine Text.clear_spaced (word_of_all rfl : Word "WITH".toList).token
      (fun t ht => (hwords t ?_).1.word.token) Text.ends_nil fun h => ?_
    · simp at ht ⊢
      tauto
    · exact (hwords "WITH".toList (by simp at h ⊢; tauto)).2 rfl
  have htrim : trim (plainQuery label m) = plainQuery label m :=
    trim_return hl identifier_n.word identifier_n.word
  have hmatch : startsWith (plainQuery label m) "MATCH " = true := startsWith_return
  rw [executeQuery_match htrim hmatch (fun _ => rejectNeo4jCompatExtension_plain hl) hsplit,
    withoutWith_none hcomma (Text.contains_eq_false (by decide) hclear)]
  dsimp only [parsed]
  exact executeClause_return std order _ g hl identifier_n identifier_n

theorem Modifiers.tokens_congr {v w : Text} (h : m.order = true → v = w) :
    m.tokens v = m.tokens w := by
  rcases ho : m.order with _ | _
  · simp [tokens, orderTokens, ho]
  · rw [h ho]

/-- Only the new name is accepted, and with it the query is the match itself. -/
def Renames (std : FloatStd) (order : HashOrder) (dialect : CypherDialect) (g : InMemoryGraphStore)
    (label : Option Text) (x y : Text) (m : Modifiers) : Prop :=
  (Accepts std order dialect g (renamedQuery label x y m) ↔ y = x) ∧
    (y = x → executeQueryWithDialect std order g (renamedQuery label x y m) dialect =
      executeQueryWithDialect std order g (plainQuery label m) dialect)

/-- A query renames its node when the new name is legible and not ordered by; with another name it
is refused unless that goes on after the new one. -/
theorem renames_iff (std : FloatStd) (order : HashOrder) (dialect : CypherDialect)
    (g : InMemoryGraphStore) (hl : ∀ l ∈ label, Identifier l) (hx : Identifier x)
    (hy : Identifier y) : Renames std order dialect g label x y m ↔
      (y = x → Legible dialect x x m ∧ (m.order = true → x = ['n'])) ∧
        (y ≠ x → ¬ (Legible dialect x y m ∧ ∃ r, GoesOnWith x y m r)) := by
  rw [Renames, accepts_renamed_iff hl hx hy]
  by_cases hxy : y = x
  · subst hxy
    have hgoesOn : (∃ r, GoesOnWith y y m r) ↔ (m.order = true → y = ['n']) :=
      ⟨fun ⟨r, hr⟩ => hr.order, fun h => ⟨[], by simp, h, fun _ => by decide⟩⟩
    simp only [hgoesOn, iff_true, forall_const, ne_eq, not_true_eq_false, false_imp_iff,
      and_true, and_iff_left_iff_imp]
    rintro ⟨hlegible, horder⟩
    have hplain : returnQuery label ['n'] y m = plainQuery label m := by
      rw [plainQuery, returnQuery, returnQuery, Modifiers.tokens_congr horder]
    have hq := (@normalizeWithQuery_renamed label y y m hl hy.word hy.word (plainQuery label m)).mpr
      ⟨hlegible.noReturn, [], by simp, hplain.symm⟩
    rw [executeQuery_renamed hl hy hy hlegible.whole fun hd =>
      (rejectNeo4jCompatExtension_renamed hl hy hy).mpr (hlegible.admitted hd), hq,
      executeQuery_plain hl]
    dsimp only [parsed]
    exact executeClause_return std order _ g hl identifier_n identifier_n
  · simp [hxy]

end Running

section Witness

open Integrity

def five : Numeral := ⟨['5'], 5, List.forall_mem_singleton.mpr rfl, rfl⟩

/-- Five papers under a name of their own. -/
theorem renames_paper : Renames plainStd .ascending .openCypher9 .new (some "Paper".toList)
    ['p'] ['p'] ⟨false, none, some five⟩ := by
  refine (renames_iff _ _ _ _ ?_ (identifier_of_all rfl) (identifier_of_all rfl)).mpr
    ⟨fun _ => ⟨⟨⟨?_, ?_, ?_⟩, ?_, ?_⟩, ?_⟩, fun h => absurd rfl h⟩
  · rintro l ⟨⟩
    exact identifier_of_all rfl
  · exact ⟨asciiWord_of_all rfl, asciiWord_of_all rfl⟩
  · decide
  · decide
  · decide
  · exact nofun
  · exact nofun

/-- A query that orders by its new name is refused, one that returns a longer name is not. -/
theorem order_refused_longer_accepted :
    renamedQuery none ['x'] ['x'] ⟨true, none, none⟩
        = "MATCH (n) WITH n AS x RETURN x ORDER BY x.id".toList ∧
      renamedQuery none ['x'] "xy".toList ⟨false, none, none⟩
        = "MATCH (n) WITH n AS x RETURN xy".toList ∧
      ∀ std order dialect g,
        ¬ Accepts std order dialect g (renamedQuery none ['x'] ['x'] ⟨true, none, none⟩) ∧
        Accepts std order dialect g (renamedQuery none ['x'] "xy".toList ⟨false, none, none⟩) ∧
        ¬ Renames std order dialect g none ['x'] ['x'] ⟨true, none, none⟩ ∧
        ¬ Renames std order dialect g none ['x'] "xy".toList ⟨false, none, none⟩ := by
  refine ⟨by decide, by decide, fun std order dialect g => ?_⟩
  have hl : ∀ l ∈ (none : Option Text), Identifier l := nofun
  have hx : Identifier ['x'] := identifier_of_all rfl
  have hxy : Identifier "xy".toList := identifier_of_all rfl
  have hrefused : ¬ Accepts std order dialect g
      (renamedQuery none ['x'] ['x'] ⟨true, none, none⟩) := by
    rw [accepts_renamed_iff hl hx hx]
    rintro ⟨-, r, hr⟩
    cases hr.order rfl
  have haccepted : Accepts std order dialect g
      (renamedQuery none ['x'] "xy".toList ⟨false, none, none⟩) := by
    rw [accepts_renamed_iff hl hx hxy]
    refine ⟨⟨⟨⟨asciiWord_of_all rfl, asciiWord_of_all rfl⟩, ?_, ?_⟩, ?_, fun _ => ?_⟩,
      ['y'], rfl, nofun, nofun⟩
    · decide
    · decide
    · decide
    · decide
  refine ⟨hrefused, haccepted, fun h => hrefused (h.1.mpr rfl), fun h => ?_⟩
  cases h.1.mp haccepted

end Witness

end AiraGraphdb.Library.Query
