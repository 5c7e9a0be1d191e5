import AiraGraphdb.Library.Query.Tokens

/-! # Renaming through `WITH`

A `WITH n AS x` is taken away as text: what is returned begins with the new name, and there the node
has its old name again. Names that only begin with the new one, and names that mean something else to
a scanner before, are not told apart. -/

namespace AiraGraphdb.Library.Query

open Schemes InMemoryGraphStore
open Library.Connections (CypherDialect)
open Text (spaced Clear Token)

/-! ### The queries -/

def nodePattern (label : Option Text) : Text :=
  "(n".toList ++ (label.elim [] (':' :: ·) ++ [')'])

/-- `MATCH (n:L) WITH n AS x RETURN y` with modifiers of `y`. -/
def renamedQuery (label : Option Text) (x y : Text) (m : Modifiers) : Text :=
  "MATCH".toList ++ spaced ([nodePattern label, "WITH".toList, ['n'], "AS".toList, x,
    "RETURN".toList, y] ++ m.tokens y)

/-- `MATCH (n:L) RETURN r` with modifiers of `v`. -/
def returnQuery (label : Option Text) (r v : Text) (m : Modifiers) : Text :=
  "MATCH".toList ++ spaced ([nodePattern label, "RETURN".toList, r] ++ m.tokens v)

/-- `MATCH (n:L) RETURN n` with modifiers of `n`. -/
def plainQuery (label : Option Text) (m : Modifiers) : Text := returnQuery label ['n'] ['n'] m

section Pieces

variable {label : Option Text} (hl : ∀ l ∈ label, Identifier l)

include hl

theorem nodePattern_word : Word (nodePattern label) := by
  have hopen : Word "(n".toList := word_of_all rfl
  have hclose : Word [')'] := word_of_all rfl
  rcases label with _ | l
  · exact hopen.append hclose
  · have hlabel : Word (':' :: l) := (word_of_all rfl : Word [':']).append (hl l rfl).word
    exact hopen.append (hlabel.append hclose)

theorem nodePattern_level : Level (nodePattern label) := by
  have hform : nodePattern label = '(' :: (('n' :: label.elim [] (':' :: ·)) ++ [')']) := by
    simp [nodePattern]
  rw [hform]
  refine level_parens fun c hc => ?_
  rcases label with _ | l
  · simp only [Option.elim_none, List.mem_singleton] at hc
    rw [hc]
    rfl
  · simp only [Option.elim_some, List.mem_cons] at hc
    rcases hc with rfl | rfl | hc
    · rfl
    · rfl
    · exact flatChar_of_nameChar ((hl l rfl).chars c hc)

omit hl in
theorem nodePattern_last (label : Option Text) : (nodePattern label).getLast? = some ')' := by
  rw [nodePattern, ← List.append_assoc, List.getLast?_concat]

end Pieces

/-! ### The text without `WITH` -/

section Normalize

variable {label : Option Text} {x y : Text} {m : Modifiers}

/-- A name with which a text begins is a beginning of its first word. -/
theorem word_prefix {t rest : Text} (hx : Word x) (ht : Text.Ends t) (h : y ++ t = x ++ rest) :
    ∃ r, y = x ++ r ∧ rest = r ++ t := by
  rcases List.append_eq_append_iff.mp h with ⟨a, rfl, rfl⟩ | ⟨a, rfl, rfl⟩
  · rcases a with _ | ⟨c, a⟩
    · exact ⟨[], by simp, rfl⟩
    · exact absurd (ht c rfl) (hx.token c (by simp))
  · exact ⟨a, rfl, rfl⟩

theorem parseWithProjection_alias (hx : Word x) :
    parseWithProjection (['n'] ++ spaced ["AS".toList, x]) = .ok (['n'], x) := by
  have hclear : Clear " AS ".toList ['n'] (" AS ".toList ++ x) :=
    ⟨fun h => absurd (List.cons_prefix_cons.mp h).1 (by decide), trivial⟩
  have hsplit : splitOnce " AS " (['n'] ++ spaced ["AS".toList, x]) = some (['n'], x) := by
    have := Text.splitOnce_append hclear
    simpa [splitOnce] using this
  have hn : trim ['n'] = ['n'] := by decide
  have htrim : trim x = x := by
    have := @trim_words x [] (by simpa using hx)
    simpa using this
  rw [parseWithProjection, hsplit]
  simp [hn, htrim, hx.ne_nil]

/-- When a `WITH` is taken away, and what is left. -/
theorem normalizeWithQuery_ok {q q' left right : Text} (hwith : splitOnce " WITH " q = some (left, right)) :
    normalizeWithQuery q = .ok q' ↔
      ∃ ctx ret alias_ rest, splitOnce " RETURN " (trim right) = some (ctx, ret)
        ∧ parseWithProjection (trim ctx) = .ok (['n'], alias_) ∧ trim ret = alias_ ++ rest
        ∧ ¬ (trim ret = ['n'] ∧ alias_ ≠ ['n'])
        ∧ q' = trim left ++ " RETURN ".toList ++ ('n' :: rest) := by
  rw [normalizeWithQuery, hwith]
  constructor
  · intro h
    obtain ⟨p, hp, h⟩ := bind_ok.mp h
    obtain rfl := Option.some.inj (ofOption_ok.mp hp)
    obtain ⟨⟨ctx, ret⟩, hreturn, h⟩ := bind_ok.mp h
    obtain ⟨⟨source, alias_⟩, hprojection, h⟩ := bind_ok.mp h
    dsimp only at h
    split_ifs at h with hsource hscope
    obtain rfl := not_not.mp hsource
    rcases hrest : Text.stripPrefix (trim ret) alias_ with _ | rest
    · rw [hrest] at h
      cases h
    · rw [hrest] at h
      cases h
      exact ⟨ctx, ret, alias_, rest, ofOption_ok.mp hreturn, hprojection,
        Text.stripPrefix_eq_some.mp hrest, hscope, rfl⟩
  · rintro ⟨ctx, ret, alias_, rest, hreturn, hprojection, hrest, hscope, rfl⟩
    refine bind_ok.mpr ⟨(left, right), rfl, ?_⟩
    refine bind_ok.mpr ⟨(ctx, ret), ofOption_ok.mpr hreturn, ?_⟩
    refine bind_ok.mpr ⟨(['n'], alias_), hprojection, ?_⟩
    dsimp only
    rw [if_neg (by simp), if_neg hscope, Text.stripPrefix_eq_some.mpr hrest]
    rfl

/-- The cut at the `WITH`. -/
theorem splitOnce_with (hl : ∀ l ∈ label, Identifier l) (ts : List Text) :
    splitOnce " WITH " ("MATCH".toList ++ spaced (nodePattern label :: "WITH".toList :: ['n'] :: ts))
      = some ("MATCH".toList ++ spaced [nodePattern label], ['n'] ++ spaced ts) := by
  have hpattern := nodePattern_word hl
  have htext : "MATCH".toList ++ spaced (nodePattern label :: "WITH".toList :: ['n'] :: ts)
      = ("MATCH".toList ++ spaced [nodePattern label])
        ++ (" WITH ".toList ++ (['n'] ++ spaced ts)) := by simp
  have hne : "WITH".toList ∉ [nodePattern label] := by
    rw [List.mem_singleton]
    intro h
    have hlast := nodePattern_last label
    rw [← h] at hlast
    cases hlast
  rw [splitOnce, htext]
  refine Text.splitOnce_append (Text.clear_append.mpr ⟨Text.clear_of_apart (by decide) _, ?_⟩)
  exact Text.clear_spaced (word_of_all rfl : Word "WITH".toList).token
    (by simpa using hpattern.token) (by simp [Text.Ends]) hne

/-- The cut at the `RETURN`, or at a name before that is one. -/
theorem splitOnce_return (ts : List Text) (hts : ∀ w ∈ ts, Word w ∧ w ≠ "RETURN".toList) (rest : Text)
    {s : Text} (hs : s = ['n'] ++ spaced ("AS".toList :: ts) ++ (" RETURN ".toList ++ rest)) :
    splitOnce " RETURN " s = some (['n'] ++ spaced ("AS".toList :: ts), rest) := by
  rw [splitOnce, hs]
  refine Text.splitOnce_append (Text.clear_append.mpr ⟨Text.clear_of_apart (by decide) _, ?_⟩)
  have has : Word "AS".toList := word_of_all rfl
  refine Text.clear_spaced (word_of_all rfl : Word "RETURN".toList).token ?_ (by simp [Text.Ends]) ?_
  · intro w hw
    rcases List.mem_cons.mp hw with rfl | hw
    exacts [has.token, (hts w hw).1.token]
  · intro hw
    rcases List.mem_cons.mp hw with hw | hw
    · cases hw
    · exact (hts _ hw).2 rfl

theorem trim_match (hl : ∀ l ∈ label, Identifier l) :
    trim ("MATCH".toList ++ spaced [nodePattern label])
      = "MATCH".toList ++ spaced [nodePattern label] := by
  refine trim_words fun w hw => ?_
  simp only [List.mem_cons, List.not_mem_nil, or_false] at hw
  rcases hw with rfl | rfl
  exacts [word_of_all rfl, nodePattern_word hl]

/-- The text is rewritten when the name that is returned begins with the new name. -/
theorem normalizeWithQuery_renamed (hl : ∀ l ∈ label, Identifier l) (hx : Word x) (hy : Word y)
    {q : Text} : normalizeWithQuery (renamedQuery label x y m) = .ok q ↔
      x ≠ "RETURN".toList ∧ ∃ r, y = x ++ r ∧ q = returnQuery label ('n' :: r) y m := by
  have hm := @Modifiers.word_of_mem m y hy
  have hwords : ∀ w ∈ ["AS".toList, x, "RETURN".toList, y] ++ m.tokens y, Word w := by
    intro w hw
    simp only [List.mem_append, List.mem_cons, List.not_mem_nil, or_false] at hw
    rcases hw with (rfl | rfl | rfl | rfl) | hw
    exacts [word_of_all rfl, hx, word_of_all rfl, hy, hm w hw]
  have hright : trim (['n'] ++ spaced (["AS".toList, x, "RETURN".toList, y] ++ m.tokens y))
      = ['n'] ++ spaced (["AS".toList, x, "RETURN".toList, y] ++ m.tokens y) :=
    trim_words fun w hw => (List.mem_cons.mp hw).elim (by rintro rfl; exact word_of_all rfl) (hwords w)
  have hwith : splitOnce " WITH " (renamedQuery label x y m) = some
      ("MATCH".toList ++ spaced [nodePattern label],
        ['n'] ++ spaced (["AS".toList, x, "RETURN".toList, y] ++ m.tokens y)) :=
    splitOnce_with hl _
  rw [normalizeWithQuery_ok hwith, hright, trim_match hl]
  by_cases hreturn : x = "RETURN".toList
  · -- the new name is taken for the keyword
    subst hreturn
    rw [splitOnce_return [] (by simp) ("RETURN".toList ++ spaced (y :: m.tokens y)) (by simp)]
    simp only [ne_eq, not_true_eq_false, false_and, iff_false]
    rintro ⟨ctx, ret, alias_, rest, hsplit, hprojection, -⟩
    cases hsplit
    cases hprojection
  · have hret : trim (y ++ spaced (m.tokens y)) = y ++ spaced (m.tokens y) :=
      trim_words fun w hw => (List.mem_cons.mp hw).elim (by rintro rfl; exact hy) (hm w)
    have hctx : trim (['n'] ++ spaced ["AS".toList, x]) = ['n'] ++ spaced ["AS".toList, x] :=
      trim_words fun w hw => by
        simp only [List.mem_cons, List.not_mem_nil, or_false] at hw
        rcases hw with rfl | rfl | rfl
        exacts [word_of_all rfl, word_of_all rfl, hx]
    rw [splitOnce_return [x] (by simpa using ⟨hx, hreturn⟩) (y ++ spaced (m.tokens y)) (by simp)]
    constructor
    · rintro ⟨ctx, ret, alias_, rest, hsplit, hprojection, hrest, -, rfl⟩
      cases hsplit
      rw [hctx, parseWithProjection_alias hx] at hprojection
      cases hprojection
      rw [hret] at hrest
      obtain ⟨r, rfl, rfl⟩ := word_prefix hx (Text.ends_spaced Text.ends_nil) (by simpa using hrest)
      exact ⟨hreturn, r, rfl, by simp [returnQuery]⟩
    · rintro ⟨-, r, rfl, rfl⟩
      refine ⟨_, _, x, r ++ spaced (m.tokens (x ++ r)), rfl, ?_, ?_, ?_, by simp [returnQuery]⟩
      · rw [hctx, parseWithProjection_alias hx]
      · rw [hret, List.append_assoc]
      · rw [hret]
        rintro ⟨hn, hne⟩
        obtain ⟨c, cs, rfl⟩ := List.exists_cons_of_ne_nil hx.ne_nil
        simp only [List.cons_append, List.cons.injEq, List.append_eq_nil_iff] at hn
        simp [hn] at hne

end Normalize

/-! ### What a `RETURN` gives -/

section Match

variable {label : Option Text} {r v : Text} {m : Modifiers} {c : Char}

theorem not_mem_of_names {w : Text} (hw : w.all nameChar = true) (hc : nameChar c = false) : c ∉ w := by
  intro h
  rw [List.all_eq_true.mp hw c h] at hc
  cases hc

theorem Identifier.not_mem {w : Text} (h : Identifier w) (hc : nameChar c = false) : c ∉ w :=
  not_mem_of_names (List.all_eq_true.mpr h.chars) hc

theorem nodePattern_not_mem (hl : ∀ l ∈ label, Identifier l) (hc : nameChar c = false)
    (hmarks : c ∉ "(:)".toList) : c ∉ nodePattern label := by
  have hn : c ≠ 'n' := by
    rintro rfl
    cases hc
  rcases label with _ | l
  · simp_all [nodePattern]
  · have hlabel : c ∉ l := fun h => by
      rw [(hl l rfl).chars c h] at hc
      cases hc
    simp_all [nodePattern]

theorem Modifiers.not_mem_of_mem (hv : Identifier v) (hc : nameChar c = false) (hdot : c ≠ '.') :
    ∀ w ∈ m.tokens v, c ∉ w := by
  refine forall_tokens (not_mem_of_names rfl hc) (not_mem_of_names rfl hc) ?_ (not_mem_of_names rfl hc)
    (not_mem_of_names rfl hc) fun n => ?_
  · rw [List.mem_append, not_or]
    refine ⟨hv.not_mem hc, ?_⟩
    have hid : c ∉ "id".toList := not_mem_of_names rfl hc
    simp_all
  · exact n.identifier.not_mem hc

theorem returnQuery_not_mem (hl : ∀ l ∈ label, Identifier l) (hr : Identifier r) (hv : Identifier v)
    (hc : nameChar c = false) (hmarks : c ∉ " .(:)".toList) : c ∉ returnQuery label r v m := by
  have hspace : c ≠ ' ' := fun h => hmarks (by simp [h])
  have hdot : c ≠ '.' := fun h => hmarks (by simp [h])
  rw [returnQuery, List.mem_append, not_or]
  refine ⟨not_mem_of_names rfl hc, Text.not_mem_spaced hspace fun w hw => ?_⟩
  simp only [List.mem_append, List.mem_cons, List.not_mem_nil, or_false] at hw
  rcases hw with (rfl | rfl | rfl) | hw
  · exact nodePattern_not_mem hl hc fun h => hmarks (by simp at h ⊢; tauto)
  · exact not_mem_of_names rfl hc
  · exact hr.not_mem hc
  · exact Modifiers.not_mem_of_mem hv hc hdot w hw

theorem startsWith_return : startsWith (returnQuery label r v m) "MATCH " = true :=
  Text.startsWith_iff.mpr ⟨nodePattern label ++ spaced (["RETURN".toList, r] ++ m.tokens v),
    by simp [returnQuery]⟩

/-- A query that only returns is a match of nodes. -/
theorem executeClause_return (std : FloatStd) (order : HashOrder)
    (run : InMemoryGraphStore → Text → Step) (g : InMemoryGraphStore)
    (hl : ∀ l ∈ label, Identifier l) (hr : Identifier r) (hv : Identifier v) :
    executeClause std order run g (returnQuery label r v m)
      = (g, executeMatch order g (returnQuery label r v m)) := by
  have hbrace : contains (returnQuery label r v m) " WHERE EXISTS \x7b" = false :=
    Text.contains_eq_false_of_not_mem (c := '\x7b') (by simp)
      (returnQuery_not_mem hl hr hv rfl (by simp))
  have hdash : '-' ∉ returnQuery label r v m := returnQuery_not_mem hl hr hv rfl (by simp)
  have hrel : isRelationship (returnQuery label r v m) = false := by
    rw [isRelationship, contains, contains, Text.contains_eq_false_of_not_mem (c := '-') (by simp) hdash,
      Text.contains_eq_false_of_not_mem (c := '-') (by simp) hdash]
    rfl
  rw [executeClause, startsWith_return, hbrace, hrel]
  rfl

theorem trim_return (hl : ∀ l ∈ label, Identifier l) (hr : Word r) (hv : Word v) :
    trim (returnQuery label r v m) = returnQuery label r v m := by
  refine trim_words fun w hw => ?_
  simp only [List.mem_append, List.mem_cons, List.not_mem_nil, or_false] at hw
  rcases hw with rfl | (rfl | rfl | rfl) | hw
  exacts [word_of_all rfl, nodePattern_word hl, word_of_all rfl, hr, Modifiers.word_of_mem hv w hw]

theorem parseMatchFilters_return (hl : ∀ l ∈ label, Identifier l) (hr : Word r) (hv : Word v) :
    ∃ filters, parseMatchFilters (returnQuery label r v m) = .ok filters := by
  have hpattern := nodePattern_word hl
  have hwords : ∀ w ∈ "RETURN".toList :: r :: m.tokens v, Word w := by
    intro w hw
    simp only [List.mem_cons] at hw
    rcases hw with rfl | rfl | hw
    exacts [word_of_all rfl, hr, Modifiers.word_of_mem hv w hw]
  have hafter : trim (trimStartMatches (returnQuery label r v m) "MATCH ")
      = nodePattern label ++ spaced ("RETURN".toList :: r :: m.tokens v) := by
    have htext : returnQuery label r v m
        = "MATCH ".toList ++ (nodePattern label ++ spaced ("RETURN".toList :: r :: m.tokens v)) := by
      simp [returnQuery]
    rw [trimStartMatches, htext, Text.trimStartMatches_append (by simp)]
    · exact trim_words fun w hw => (List.mem_cons.mp hw).elim (fun h => h ▸ hpattern) (hwords w)
    · rintro ⟨t, ht⟩
      have hhead := congrArg List.head? ht
      simp [nodePattern] at hhead
  -- the pattern up to its bracket
  obtain ⟨body, hbody, hclosed⟩ : ∃ body, nodePattern label = body ++ [')'] ∧ ')' ∉ body := by
    refine ⟨"(n".toList ++ label.elim [] (':' :: ·), by simp [nodePattern], ?_⟩
    rcases label with _ | l
    · simp
    · have hlabel : ')' ∉ l := fun h => absurd ((hl l rfl).chars _ h) (by decide)
      simpa using hlabel
  have hfind : find ")" (nodePattern label ++ spaced ("RETURN".toList :: r :: m.tokens v))
      = some body.length := by
    have hclear : Clear [')'] body (')' :: spaced ("RETURN".toList :: r :: m.tokens v)) :=
      Text.clear_of_head (p := (· ≠ ')')) (by simp) (fun x hx h => hclosed (h ▸ hx)) _
    have hself : Text.find [')'] (')' :: spaced ("RETURN".toList :: r :: m.tokens v)) = some 0 :=
      Text.find_self [')'] _
    rw [find, hbody, List.append_assoc]
    refine (Text.find_append hclear).trans ?_
    refine (congrArg (Option.map (· + body.length)) hself).trans ?_
    simp
  have hlength : body.length + 1 = (nodePattern label).length := by rw [hbody]; simp
  have hremainder : trim (spaced ("RETURN".toList :: r :: m.tokens v))
      = "RETURN".toList ++ spaced (r :: m.tokens v) := by
    rw [Text.spaced_cons, trim, Text.trim_cons rfl]
    exact trim_words hwords
  have hstarts : startsWith ("RETURN".toList ++ spaced (r :: m.tokens v)) "RETURN " = true :=
    Text.startsWith_iff.mpr ⟨r ++ spaced (m.tokens v), by simp⟩
  have hreturned : (words ("RETURN".toList ++ spaced (r :: m.tokens v)))[1]?.isNone = false := by
    have hword : Word "RETURN".toList := word_of_all rfl
    have hfirst := @words_first r (m.tokens v) hr
    rw [words, Text.spaced_cons, Text.words_cons hword.chars hword.ne_nil rfl, List.getElem?_cons_succ,
      ← List.head?_eq_getElem?]
    rw [words] at hfirst
    rw [hfirst]
    rfl
  refine ⟨⟨(splitOnce ":" (nodePattern label)).map fun p => String.ofList (trim p.2.dropLast), none⟩, ?_⟩
  rw [parseMatchFilters, hafter, hfind, ofOption]
  refine bind_ok.mpr ⟨body.length, rfl, ?_⟩
  rw [hlength, List.take_left' rfl]
  dsimp only
  rw [List.drop_left' rfl, hremainder, hstarts, hreturned]
  rfl

/-- A match of nodes has an answer when its modifiers are read. -/
theorem executeMatch_return (order : HashOrder) (g : InMemoryGraphStore)
    (hl : ∀ l ∈ label, Identifier l) (hr : Word r) (hv : Word v) :
    (∃ result, executeMatch order g (returnQuery label r v m) = .ok result) ↔
      ∃ modifiers, parseReturnModifiers (returnQuery label r v m) = .ok modifiers := by
  obtain ⟨filters, hfilters⟩ := @parseMatchFilters_return label r v m hl hr hv
  have hcontains : contains (returnQuery label r v m) "RETURN " = true := by
    have htext : returnQuery label r v m = ("MATCH".toList ++ spaced [nodePattern label] ++ [' '])
        ++ ("RETURN ".toList ++ (r ++ spaced (m.tokens v))) := by
      simp [returnQuery]
    rw [contains, htext]
    exact Text.contains_self _ _ _
  rw [executeMatch]
  dsimp only
  rw [trim_return hl hr hv, startsWith_return, hcontains]
  constructor
  · rintro ⟨result, h⟩
    obtain ⟨filters, -, h⟩ := bind_ok.mp h
    obtain ⟨modifiers, hmodifiers, -⟩ := bind_ok.mp h
    exact ⟨modifiers, hmodifiers⟩
  · rintro ⟨modifiers, hmodifiers⟩
    exact ⟨_, bind_ok.mpr ⟨filters, hfilters, bind_ok.mpr ⟨modifiers, hmodifiers, rfl⟩⟩⟩

end Match

/-! ### The rest of a name -/

section Rest

variable {label : Option Text} {r v : Text} {m : Modifiers}

theorem Modifiers.tokens_of_any (h : m.any = true) (v : Text) :
    ∃ t ts, m.tokens v = t :: ts ∧ t ∈ ["ORDER".toList, "SKIP".toList, "LIMIT".toList] := by
  rcases m with ⟨_ | _, _ | s, _ | l⟩
  · cases h
  all_goals exact ⟨_, _, rfl, by simp⟩

theorem Modifiers.tokens_eq_nil (h : m.any = false) (v : Text) : m.tokens v = [] := by
  rcases m with ⟨_ | _, _ | s, _ | l⟩
  · rfl
  all_goals cases h

/-- A word that a modifier would have is not looked for in what comes before, but in the rest of the
name it is found. -/
theorem clear_returned {u t : Text} (hu : Word u)
    (hmatch : Text.apart (u ++ ' ' :: t) "MATCH".toList = true) (hreturn : ¬ u <:+ "RETURN".toList)
    (hlast : u.getLast? ≠ some ')') (hhead : u.head? ≠ some 'n') (hl : ∀ l ∈ label, Identifier l)
    (hr : Word ('n' :: r)) (h : u <:+ r → ¬ ' ' :: t <+: spaced (m.tokens v)) :
    Clear (u ++ ' ' :: t) ("MATCH".toList ++ spaced [nodePattern label, "RETURN".toList, 'n' :: r])
      (spaced (m.tokens v)) := by
  have hends : Text.Ends (spaced (m.tokens v)) := by
    simpa using @Text.ends_spaced (m.tokens v) [] Text.ends_nil
  have hpattern : ¬ u <:+ nodePattern label := not_suffix hu.ne_nil (by rwa [nodePattern_last])
  have hbefore : Clear (u ++ ' ' :: t) (spaced [nodePattern label, "RETURN".toList])
      (' ' :: ('n' :: r ++ spaced (m.tokens v))) := by
    have hword : Word "RETURN".toList := word_of_all rfl
    refine Text.clear_spaced_of_suffix hu.token hu.ne_nil ?_ (by simp [Text.Ends]) ?_
    · simp only [List.mem_cons, List.not_mem_nil, or_false, forall_eq_or_imp, forall_eq]
      exact ⟨(nodePattern_word hl).token, hword.token⟩
    · simp only [List.mem_cons, List.not_mem_nil, or_false, forall_eq_or_imp, forall_eq]
      exact ⟨hpattern, hreturn⟩
  have hspace : Clear (u ++ ' ' :: t) [' '] ('n' :: r ++ spaced (m.tokens v)) := by
    obtain ⟨c, cs, rfl⟩ := List.exists_cons_of_ne_nil hu.ne_nil
    refine ⟨fun hp => ?_, trivial⟩
    exact hu.token c (by simp) (List.cons_prefix_cons.mp hp).1
  have hname : Clear (u ++ ' ' :: t) ('n' :: r) (spaced (m.tokens v)) := by
    rw [Text.clear_word_iff (p := (· ≠ ' ')) hu.token (by simp) hr.token
      fun d hd => by simp [hends d hd]]
    intro hne hs
    rcases List.suffix_cons_iff.mp hs with rfl | hs
    · exact absurd rfl hhead
    · exact h hs
  have htext : "MATCH".toList ++ spaced [nodePattern label, "RETURN".toList, 'n' :: r]
      = "MATCH".toList ++ (spaced [nodePattern label, "RETURN".toList] ++ ([' '] ++ 'n' :: r)) := by
    simp
  rw [htext, Text.clear_append, Text.clear_append, Text.clear_append]
  exact ⟨Text.clear_of_apart hmatch _, by simpa using hbefore, by simpa using hspace, hname⟩

/-- Where the name ends in the word of a modifier, the next word is taken for its number. -/
theorem parseModifier_taken (u : Text) {word missing invalid : String}
    (hword : word.toList = u ++ [' ']) (hu : Word u)
    (hmatch : Text.apart (u ++ [' ']) "MATCH".toList = true) (hreturn : ¬ u <:+ "RETURN".toList)
    (hlast : u.getLast? ≠ some ')') (hl : ∀ l ∈ label, Identifier l)
    (hr : Word ('n' :: r)) (hs : u <:+ r) (hany : m.any = true) :
    parseModifier (returnQuery label ('n' :: r) v m) word missing invalid
      = .error (syntaxError invalid) := by
  obtain ⟨w, rfl⟩ := hs
  obtain ⟨t, ts, htokens, ht⟩ := Modifiers.tokens_of_any hany v
  have htword : Word t ∧ Text.parseU64 t = none := by
    simp only [List.mem_cons, List.not_mem_nil, or_false] at ht
    rcases ht with rfl | rfl | rfl
    all_goals exact ⟨word_of_all rfl, rfl⟩
  have htext : returnQuery label ('n' :: (w ++ u)) v m
      = ("MATCH".toList ++ (spaced [nodePattern label, "RETURN".toList] ++ ' ' :: 'n' :: w))
        ++ (word.toList ++ (t ++ spaced ts)) := by
    simp [returnQuery, htokens, hword]
  have hw : Token ('n' :: w) := fun c hc => hr.token c (by simp at hc ⊢; tauto)
  have hclear : Clear word.toList
      ("MATCH".toList ++ (spaced [nodePattern label, "RETURN".toList] ++ ' ' :: 'n' :: w))
      (word.toList ++ (t ++ spaced ts)) := by
    have hkey : Word "RETURN".toList := word_of_all rfl
    have hname : Clear (u ++ [' ']) ('n' :: w) (u ++ ' ' :: (t ++ spaced ts)) :=
      Text.clear_before hu.token hw
    have hspace : ¬ (u ++ [' ']) <+: ' ' :: ('n' :: w ++ (u ++ ' ' :: (t ++ spaced ts))) := by
      obtain ⟨c, cs, rfl⟩ := List.exists_cons_of_ne_nil hu.ne_nil
      intro hp
      exact hu.token c (by simp) (List.cons_prefix_cons.mp hp).1
    have hbefore : Clear (u ++ [' ']) (spaced [nodePattern label, "RETURN".toList])
        (' ' :: ('n' :: w ++ (u ++ ' ' :: (t ++ spaced ts)))) := by
      refine Text.clear_spaced_of_suffix hu.token hu.ne_nil ?_ (by simp [Text.Ends]) ?_
      · simp only [List.mem_cons, List.not_mem_nil, or_false, forall_eq_or_imp, forall_eq]
        exact ⟨(nodePattern_word hl).token, hkey.token⟩
      · simp only [List.mem_cons, List.not_mem_nil, or_false, forall_eq_or_imp, forall_eq]
        exact ⟨not_suffix hu.ne_nil (by rwa [nodePattern_last]), hreturn⟩
    rw [hword, Text.clear_append, Text.clear_append, Text.clear_cons]
    refine ⟨Text.clear_of_apart hmatch _, by simpa using hbefore, by simpa using hspace, ?_⟩
    simpa using hname
  have hsplit : splitOnce word (returnQuery label ('n' :: (w ++ u)) v m)
      = some ("MATCH".toList ++ (spaced [nodePattern label, "RETURN".toList] ++ ' ' :: 'n' :: w),
        t ++ spaced ts) := by
    rw [splitOnce, htext]
    exact Text.splitOnce_append hclear
  rw [parseModifier, hsplit]
  dsimp only
  rw [words_first htword.1, ofOption]
  show (do return some (← ofOption (Text.parseU64 t) (syntaxError invalid))) = _
  rw [htword.2]
  rfl

/-- The modifiers are read when they order by `n`, and when the rest of the name is none of their
words. -/
theorem parseReturnModifiers_return (hl : ∀ l ∈ label, Identifier l) (hr : Word ('n' :: r))
    (hv : Identifier v) :
    (∃ modifiers, parseReturnModifiers (returnQuery label ('n' :: r) v m) = .ok modifiers) ↔
      (m.order = true → v = ['n'])
        ∧ (m.any = true → ¬ "SKIP".toList <:+ r ∧ ¬ "LIMIT".toList <:+ r) := by
  have htext : returnQuery label ('n' :: r) v m
      = ("MATCH".toList ++ spaced [nodePattern label, "RETURN".toList, 'n' :: r])
        ++ spaced (m.tokens v) := by
    simp [returnQuery]
  have horder : Clear "ORDER BY".toList
      ("MATCH".toList ++ spaced [nodePattern label, "RETURN".toList, 'n' :: r])
      (spaced (m.tokens v)) := by
    refine @clear_returned label r v m "ORDER".toList "BY".toList (word_of_all rfl) rfl (by decide)
      (by decide) (by decide) hl hr fun _ hp => ?_
    rcases hany : m.any with _ | _
    · rw [Modifiers.tokens_eq_nil hany] at hp
      simp at hp
    · obtain ⟨t, ts, htokens, ht⟩ := Modifiers.tokens_of_any hany v
      rw [htokens] at hp
      simp only [List.mem_cons, List.not_mem_nil, or_false] at ht
      rcases ht with rfl | rfl | rfl <;> simp [List.cons_prefix_cons] at hp
  by_cases hskip : m.any = true ∧ "SKIP".toList <:+ r
  · constructor
    · rintro ⟨modifiers, h⟩
      have htaken := (parseReturnModifiers_ok h).1
      rw [parseModifier_taken "SKIP".toList rfl (word_of_all rfl) rfl (by decide) (by decide) hl hr
        hskip.2 hskip.1] at htaken
      cases htaken
    · rintro ⟨-, h⟩
      exact absurd hskip.2 (h hskip.1).1
  by_cases hlimit : m.any = true ∧ "LIMIT".toList <:+ r
  · constructor
    · rintro ⟨modifiers, h⟩
      have htaken := (parseReturnModifiers_ok h).2
      rw [parseModifier_taken "LIMIT".toList rfl (word_of_all rfl) rfl (by decide) (by decide) hl hr
        hlimit.2 hlimit.1] at htaken
      cases htaken
    · rintro ⟨-, h⟩
      exact absurd hlimit.2 (h hlimit.1).2
  have hclear {u : Text} (hnot : ¬ (m.any = true ∧ u <:+ r)) (hs : u <:+ r) :
      ¬ [' '] <+: spaced (m.tokens v) := by
    have hany : m.any = false := Bool.eq_false_iff.mpr fun h => hnot ⟨h, hs⟩
    rw [Modifiers.tokens_eq_nil hany]
    simp
  rw [htext, parseReturnModifiers_text hv horder
    (@clear_returned label r v m "SKIP".toList [] (word_of_all rfl) rfl (by decide) (by decide)
      (by decide) hl hr (hclear hskip))
    (@clear_returned label r v m "LIMIT".toList [] (word_of_all rfl) rfl (by decide) (by decide)
      (by decide) hl hr (hclear hlimit))]
  constructor
  · rintro ⟨modifiers, h⟩
    split_ifs at h with hbad
    exact ⟨fun ho => not_not.mp fun hne => hbad ⟨ho, hne⟩,
      fun hany => ⟨fun hs => hskip ⟨hany, hs⟩, fun hs => hlimit ⟨hany, hs⟩⟩⟩
  · rintro ⟨ho, -⟩
    exact ⟨m.meaning, if_neg fun hbad => hbad.2 (ho hbad.1)⟩

end Rest

end AiraGraphdb.Library.Query
