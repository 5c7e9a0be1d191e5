import AiraGraphdb.Library.Query.Literals

/-! # Storing nodes

A `CREATE` or a `MERGE` of one node with its properties. The scan of the pattern counts parentheses,
and the scan of its map cuts at commas, in strings as well; what is stored and found again is what
was written exactly when no string misleads them. -/

namespace AiraGraphdb.Library.Query

open Schemes InMemoryGraphStore
open Library.Connections (CypherDialect)
open Text (Clear)

/-! ### Parentheses -/

/-- How many parentheses are open after a text, unless one closes that was not opened. -/
def openAfter (depth : ℕ) : Text → Option ℕ
  | [] => some depth
  | c :: cs =>
    if c = '(' then openAfter (depth + 1) cs
    else if c = ')' then if depth = 0 then none else openAfter (depth - 1) cs
    else openAfter depth cs

theorem openAfter_append (depth : ℕ) (s t : Text) :
    openAfter depth (s ++ t) = (openAfter depth s).bind fun d => openAfter d t := by
  induction s generalizing depth with
  | nil => rfl
  | cons c cs ih =>
    rw [List.cons_append, openAfter, openAfter]
    split_ifs <;> simp [ih]

theorem openAfter_of_not_mem {s : Text} (hopen : '(' ∉ s) (hclose : ')' ∉ s) (depth : ℕ) :
    openAfter depth s = some depth := by
  induction s with
  | nil => rfl
  | cons c cs ih =>
    rw [List.mem_cons, not_or] at hopen hclose
    rw [openAfter, if_neg (Ne.symm hopen.1), if_neg (Ne.symm hclose.1), ih hopen.2 hclose.2]

/-- The first parenthesis that closes more than was opened. -/
theorem openAfter_eq_none {depth : ℕ} {s : Text} (h : openAfter depth s = none) :
    ∃ y z, s = y ++ ')' :: z ∧ openAfter depth y = some 0 := by
  induction s generalizing depth with
  | nil => cases h
  | cons c cs ih =>
    rw [openAfter] at h
    split_ifs at h with hopen hclose hzero
    · obtain ⟨y, z, rfl, hy⟩ := ih h
      exact ⟨c :: y, z, rfl, by rw [openAfter, if_pos hopen, hy]⟩
    · subst hclose hzero
      exact ⟨[], cs, rfl, rfl⟩
    · obtain ⟨y, z, rfl, hy⟩ := ih h
      exact ⟨c :: y, z, rfl, by rw [openAfter, if_neg hopen, if_pos hclose, if_neg hzero, hy]⟩
    · obtain ⟨y, z, rfl, hy⟩ := ih h
      exact ⟨c :: y, z, rfl, by rw [openAfter, if_neg hopen, if_neg hclose, hy]⟩

theorem patternEnd_append {depth k : ℕ} {s : Text} (h : openAfter depth s = some k) (rest : Text) :
    patternEnd (depth + 1) (s ++ rest) = (patternEnd (k + 1) rest).map (· + s.length) := by
  induction s generalizing depth with
  | nil =>
    cases h
    simp
  | cons c cs ih =>
    rw [openAfter] at h
    rw [List.cons_append, patternEnd]
    split_ifs at h with hopen hclose hzero
    · rw [if_pos hopen, ih h, Option.map_map]
      rfl
    · obtain ⟨d, rfl⟩ : ∃ d, depth = d + 1 := ⟨depth - 1, by omega⟩
      rw [Nat.add_sub_cancel] at h
      rw [if_neg hopen, if_pos hclose, if_neg (by simp), Nat.add_sub_cancel, ih h, Option.map_map]
      rfl
    · rw [if_neg hopen, if_neg hclose, ih h, Option.map_map]
      rfl

/-! ### Patterns of a node -/

/-- The counter does not overflow, and the id that comes next is free. -/
structure Room (g : InMemoryGraphStore) : Prop where
  counter : g.nextNodeSeq.toNat + 1 < 2 ^ 64
  free : nodeIdOf (g.nextNodeSeq.toNat + 1) ∉ g.nodes

/-- The pattern of a node that is written: a label and a map of properties with keys of their
    own. -/
structure NodePattern where
  label : Text
  properties : List (Text × Literal)
  label_identifier : Identifier label
  keys_identifier : ∀ p ∈ properties, Identifier p.1
  keys_nodup : (properties.map Prod.fst).Nodup

namespace NodePattern

variable (P : NodePattern)

/-- What stands before the properties. -/
def opening : Text := "n:".toList ++ (P.label ++ " \x7b".toList)

def body : Text := P.opening ++ (propertiesText P.properties ++ ['}'])

def query (clause : String) : Text := clause.toList ++ '(' :: (P.body ++ [')'])

def createQuery : Text := P.query "CREATE "

def mergeQuery : Text := P.query "MERGE "

/-- The strings among the properties, one after the other. -/
def strings : Text := P.properties.flatMap fun p => p.2.chars

/-- A node that is as the pattern says. -/
structure Describes (node : GraphNode) : Prop where
  labels : node.labels = [String.ofList P.label]
  properties : ∀ k v, node.properties[k]? = some v ↔
    ∃ p ∈ P.properties, String.ofList p.1 = k ∧ p.2.value = v

/-- There is a node with the label and with all the properties. -/
def Found (g : InMemoryGraphStore) : Prop :=
  ∃ (id : String) (node : GraphNode), g.nodes[id]? = some node ∧ String.ofList P.label ∈ node.labels ∧
    ∀ p ∈ P.properties, ∃ v, node.properties[String.ofList p.1]? = some v ∧ v.eq p.2.value = true

/-- The graph with one more node, which is as the pattern says. -/
def Added (g g' : InMemoryGraphStore) : Prop :=
  ∃ node, P.Describes node ∧ g.nodes[node.id]? = none ∧ g'.nodes = g.nodes.insert node.id node ∧
    g'.edges = g.edges ∧ g'.nextNodeSeq.toNat = g.nextNodeSeq.toNat + 1 ∧
    g'.nextEdgeSeq = g.nextEdgeSeq

/-- No string has a comma, and the parentheses in the strings are balanced. -/
structure Legible : Prop where
  commas : ',' ∉ P.strings
  parentheses : openAfter 0 P.strings = some 0

end NodePattern

/-! ### Reading a pattern -/

section Reading

variable {P : NodePattern}

theorem openAfter_literal (v : Literal) (depth : ℕ) :
    openAfter depth v.text = openAfter depth v.chars := by
  cases v.shape with
  | string s hs =>
    have hquote (d : ℕ) : openAfter d ['\''] = some d := rfl
    rw [Literal.text, ← List.singleton_append, openAfter_append, hquote, Option.bind_some,
      openAfter_append, Literal.chars]
    rcases openAfter depth s with _ | d <;> rfl
  | plain v hne hplain hchars =>
    have hnot {c : Char} (hc : plainChar c = false) : c ∉ v.text := fun hmem => by
      rw [hplain c hmem] at hc
      cases hc
    rw [hchars, openAfter_of_not_mem (hnot rfl) (hnot rfl)]
    rfl

theorem openAfter_assignment {p : Text × Literal} (hkey : Identifier p.1) (depth : ℕ) :
    openAfter depth (assignmentText p) = openAfter depth p.2.chars := by
  have hname {c : Char} (hc : plainChar c = false) (heq : c ≠ '=') : c ∉ p.1 ++ ['='] := fun hmem => by
    rcases List.mem_append.mp hmem with hmem | hmem
    · have := plainChar_of_nameChar (hkey.chars c hmem)
      rw [hc] at this
      cases this
    · exact heq (List.mem_singleton.mp hmem)
  have hkey : openAfter depth (p.1 ++ ['=']) = some depth :=
    openAfter_of_not_mem (hname rfl (by decide)) (hname rfl (by decide)) depth
  rw [assignmentText, List.append_cons, openAfter_append, hkey, Option.bind_some, openAfter_literal]

theorem openAfter_properties {ps : List (Text × Literal)} (hkeys : ∀ p ∈ ps, Identifier p.1)
    (depth : ℕ) :
    openAfter depth (propertiesText ps) = openAfter depth (ps.flatMap fun p => p.2.chars) := by
  have hrest (ps : List (Text × Literal)) (hkeys : ∀ p ∈ ps, Identifier p.1) (depth : ℕ) :
      openAfter depth (ps.flatMap fun p => ',' :: ' ' :: assignmentText p)
        = openAfter depth (ps.flatMap fun p => p.2.chars) := by
    induction ps generalizing depth with
    | nil => rfl
    | cons p ps ih =>
      have hlead (d : ℕ) : openAfter d (',' :: ' ' :: assignmentText p)
          = openAfter d (assignmentText p) := rfl
      rw [List.flatMap_cons, List.flatMap_cons, openAfter_append, openAfter_append, hlead,
        openAfter_assignment (hkeys p (by simp))]
      exact congrArg _ (funext fun d => ih (fun q hq => hkeys q (by simp [hq])) d)
  rcases ps with _ | ⟨p, ps⟩
  · rfl
  · rw [propertiesText, List.flatMap_cons, openAfter_append, openAfter_append,
      openAfter_assignment (hkeys p (by simp))]
    exact congrArg _ (funext fun d => hrest ps (fun q hq => hkeys q (by simp [hq])) d)

theorem payload_eq {clause : String} (hclause : clause.toList.head?.any (· ≠ '(')) {label : Text}
    (hlabel : Identifier label) (t : Text) :
    parseCreateOrMergePayload
        (clause.toList ++ '(' :: (("n:".toList ++ (label ++ " \x7b".toList)) ++ t ++ [')'])) clause =
      (parseProperties (trim ('{' :: t))).map fun props => (String.ofList label, props) := by
  have hmark {c : Char} (hc : nameChar c = false) : c ∉ label := fun hmem => by
    have := hlabel.chars c hmem
    rw [hc] at this
    cases this
  have hinner : trimStartMatches
      (clause.toList ++ '(' :: (("n:".toList ++ (label ++ " \x7b".toList)) ++ t ++ [')'])) clause
        = '(' :: (("n:".toList ++ (label ++ " \x7b".toList)) ++ t ++ [')']) := by
    rcases hlist : clause.toList with _ | ⟨c, cs⟩
    · rw [hlist] at hclause
      cases hclause
    · rw [hlist] at hclause
      rw [trimStartMatches, hlist]
      refine Text.trimStartMatches_append (by simp) fun hpre => ?_
      obtain rfl := (List.cons_prefix_cons.mp hpre).1
      cases hclause
  have htrim (u : Text) : trim ('(' :: (u ++ [')'])) = '(' :: (u ++ [')']) := by
    refine Text.trim_eq_self (fun c hc => ?_) fun c hc => ?_
    · obtain rfl := Option.some.inj hc
      rfl
    · rw [← List.cons_append, List.getLast?_concat] at hc
      obtain rfl := Option.some.inj hc
      rfl
  have hcolon : splitOnce ":" (("n:".toList ++ (label ++ " \x7b".toList)) ++ t)
      = some (['n'], label ++ (" \x7b".toList ++ t)) := by
    have h := @Text.splitOnce_append [':'] ['n'] (label ++ (" \x7b".toList ++ t))
      (Text.clear_of_apart (by decide) _)
    simpa [splitOnce] using h
  have hbrace : find "\x7b" (label ++ (" \x7b".toList ++ t)) = some (label.length + 1) := by
    have hclear : Clear ['{'] (label ++ [' ']) ('{' :: t) := by
      refine Text.clear_of_head (p := (· ≠ '{')) (by simp) (fun c hc => ?_) _
      rintro rfl
      rcases List.mem_append.mp hc with hc | hc
      · exact hmark rfl hc
      · cases List.mem_singleton.mp hc
    have h := Text.find_append hclear
    have hself : Text.find ['{'] ('{' :: t) = some 0 := Text.find_self ['{'] t
    rw [hself] at h
    simpa [find] using h
  have hgroup : label ++ (" \x7b".toList ++ t) = (label ++ [' ']) ++ '{' :: t := by simp
  have htake : (label ++ (" \x7b".toList ++ t)).take (label.length + 1) = label ++ [' '] := by
    rw [hgroup]
    exact List.take_left' (by simp)
  have hdrop : (label ++ (" \x7b".toList ++ t)).drop (label.length + 1) = '{' :: t := by
    rw [hgroup]
    exact List.drop_left' (by simp)
  have hlabel' : trim (label ++ [' ']) = label := by
    have h := @trim_words label [] (by simpa using hlabel.word)
    rw [trim, Text.trim_concat rfl]
    simpa [trim] using h
  rw [parseCreateOrMergePayload, hinner, htrim, between_eq_some.mpr rfl]
  simp only [ofOption, hcolon, hbrace, htake, hdrop, hlabel', bind, Except.bind]
  rcases parseProperties (trim ('{' :: t)) <;> rfl

theorem not_mem_strings {c : Char} : c ∉ P.strings ↔ ∀ p ∈ P.properties, c ∉ p.2.chars := by
  simp [NodePattern.strings]

/-- A pattern is read as what it says, where no string has a comma. -/
theorem payload_query {clause : String} (hclause : clause.toList.head?.any (· ≠ '('))
    (hcommas : ',' ∉ P.strings) : parseCreateOrMergePayload (P.query clause) clause =
      .ok (String.ofList P.label, propertiesOf P.properties) := by
  have htrim : trim ('{' :: (propertiesText P.properties ++ ['}']))
      = '{' :: (propertiesText P.properties ++ ['}']) := by
    rw [trim, Text.trim_cons_append_cons rfl rfl]
    rfl
  rw [NodePattern.query, NodePattern.body, NodePattern.opening, payload_eq hclause P.label_identifier,
    htrim, parseProperties_text P.keys_identifier (not_mem_strings.mp hcommas)]
  rfl

theorem payload_comma {clause : String} (hclause : clause.toList.head?.any (· ≠ '('))
    (hcommas : ',' ∈ P.strings) :
    ∃ e, parseCreateOrMergePayload (P.query clause) clause = .error e := by
  have htrim : trim ('{' :: (propertiesText P.properties ++ ['}']))
      = '{' :: (propertiesText P.properties ++ ['}']) := by
    rw [trim, Text.trim_cons_append_cons rfl rfl]
    rfl
  obtain ⟨p, hp, hcomma⟩ := List.mem_flatMap.mp hcommas
  obtain ⟨e, he⟩ := parseProperties_broken (broken_of_comma P.keys_identifier hp hcomma)
  rw [NodePattern.query, NodePattern.body, NodePattern.opening, payload_eq hclause P.label_identifier,
    htrim, he]
  exact ⟨e, rfl⟩

/-! ### The end of a pattern -/

theorem trim_query {clause : String} (hclause : clause.toList.head?.any (!isWhitespace ·)) :
    trim (P.query clause) = P.query clause := by
  refine Text.trim_eq_self (fun c hc => ?_) fun c hc => ?_
  · rw [NodePattern.query] at hc
    rcases hlist : clause.toList with _ | ⟨d, ds⟩ <;> rw [hlist] at hclause hc
    · cases hclause
    · obtain rfl := Option.some.inj hc
      simpa using hclause
  · rw [NodePattern.query, ← List.cons_append, ← List.append_assoc, List.getLast?_concat] at hc
    obtain rfl := Option.some.inj hc
    rfl

theorem not_mem_opening {c : Char} (hc : nameChar c = false) (hfixed : c ∉ "n: \x7b".toList) :
    c ∉ P.opening := by
  have hlabel : c ∉ P.label := fun hmem => by
    have := P.label_identifier.chars c hmem
    rw [hc] at this
    cases this
  simp at hfixed
  simp [NodePattern.opening, hlabel, hfixed]

theorem openAfter_body (depth : ℕ) : openAfter depth P.body = openAfter depth P.strings := by
  have hopening : openAfter depth P.opening = some depth :=
    openAfter_of_not_mem (not_mem_opening rfl (by decide)) (not_mem_opening rfl (by decide)) depth
  have hbrace (o : Option ℕ) : (o.bind fun d => openAfter d ['}']) = o := by
    rcases o with _ | d <;> rfl
  rw [NodePattern.body, openAfter_append, hopening, Option.bind_some, openAfter_append,
    openAfter_properties P.keys_identifier, hbrace, NodePattern.strings]

theorem splitPatternAndTail_query {n : ℕ} {clause : String}
    (hclause : clause.toList.head?.any (!isWhitespace ·))
    (h : patternEnd 0 ('(' :: (P.body ++ [')'])) = some n) :
    splitPatternAndTail (P.query clause) clause =
      .ok (clause.toList ++ ('(' :: (P.body ++ [')'])).take n, ('(' :: (P.body ++ [')'])).drop n) := by
  have hstrip : stripPrefix (P.query clause) clause = some ('(' :: (P.body ++ [')'])) :=
    Text.stripPrefix_eq_some.mpr rfl
  rw [splitPatternAndTail, trim_query hclause, hstrip]
  show (do
    let stop ← ofOption (patternEnd 0 ('(' :: (P.body ++ [')']))) (syntaxError "invalid node pattern")
    return ((P.query clause).take (clause.toList.length + stop),
      (P.query clause).drop (clause.toList.length + stop))) = _
  rw [h, NodePattern.query]
  show Except.ok _ = _
  rw [List.take_length_add_append, List.drop_length_add_append]

/-- The pattern ends where its text does when the strings are balanced. -/
theorem patternEnd_body (h : openAfter 0 P.strings = some 0) :
    patternEnd 0 ('(' :: (P.body ++ [')'])) = some ('(' :: (P.body ++ [')'])).length := by
  have hbody := patternEnd_append (openAfter_body 0 ▸ h : openAfter 0 P.body = some 0) [')']
  have hclose : patternEnd 1 [')'] = some 1 := rfl
  rw [patternEnd, if_pos rfl, hbody, hclose]
  simp
  omega

/-- Otherwise it does not end, or it ends inside of a string. -/
theorem split_unbalanced (h : openAfter 0 P.strings ≠ some 0) (hcommas : ',' ∉ P.strings) :
    (∃ e, splitPatternAndTail P.mergeQuery "MERGE " = .error e) ∨
      ∃ pattern tail e, splitPatternAndTail P.mergeQuery "MERGE " = .ok (pattern, tail) ∧
        parseCreateOrMergePayload pattern "MERGE " = .error e := by
  rcases hdepth : openAfter 0 P.body with _ | d
  · right
    obtain ⟨y, z, hbody, hy⟩ := openAfter_eq_none hdepth
    have hstop : patternEnd 0 ('(' :: (P.body ++ [')'])) = some (y.length + 2) := by
      rw [hbody, List.append_assoc, patternEnd, if_pos rfl, patternEnd_append hy, List.cons_append,
        patternEnd, if_neg (by decide), if_pos rfl, if_pos rfl]
      simp
      omega
    have htake : ('(' :: (P.body ++ [')'])).take (y.length + 2) = '(' :: (y ++ [')']) := by
      have hgroup : '(' :: (P.body ++ [')']) = ('(' :: (y ++ [')'])) ++ (z ++ [')']) := by
        simp [hbody]
      rw [hgroup]
      exact List.take_left' (by simp)
    have hsplit := @splitPatternAndTail_query P _ "MERGE " rfl hstop
    rw [htake] at hsplit
    obtain ⟨y', rfl, hrest⟩ := Text.after_of_not_mem (not_mem_opening rfl (by decide)) hbody
    obtain ⟨z', hproperties, -⟩ := Text.before_of_not_mem (t := ['}']) (by simp) hrest
    obtain ⟨p, hp, before, lead, s, t, rfl, hs, hlead, hbefore⟩ :=
      cut_propertiesText P.keys_identifier (c := ')') rfl (by decide) (by decide) (by decide)
        (by decide) hproperties
    have hcomma : ',' ∉ s := fun hmem => not_mem_strings.mp hcommas p hp (hs ▸ by simp [hmem])
    have hquote : '\'' ∉ s := fun hmem => p.2.quoteless (hs ▸ by simp [hmem])
    obtain ⟨e, he⟩ := parseProperties_truncated hlead (P.keys_identifier p hp) hquote hcomma hbefore
    refine ⟨_, _, e, hsplit, ?_⟩
    rw [NodePattern.opening, payload_eq rfl P.label_identifier, he]
    rfl
  · left
    obtain ⟨k, rfl⟩ : ∃ k, d = k + 1 := by
      refine ⟨d - 1, ?_⟩
      have : d ≠ 0 := by
        rintro rfl
        exact h (openAfter_body 0 ▸ hdepth)
      omega
    have hnone : patternEnd 0 ('(' :: (P.body ++ [')'])) = none := by
      rw [patternEnd, if_pos rfl, patternEnd_append hdepth]
      rfl
    have hstrip : stripPrefix P.mergeQuery "MERGE " = some ('(' :: (P.body ++ [')'])) :=
      Text.stripPrefix_eq_some.mpr rfl
    refine ⟨syntaxError "invalid node pattern", ?_⟩
    rw [splitPatternAndTail, NodePattern.mergeQuery, trim_query rfl, ← NodePattern.mergeQuery, hstrip]
    show (do
      let stop ← ofOption (patternEnd 0 ('(' :: (P.body ++ [')']))) (syntaxError "invalid node pattern")
      return (P.mergeQuery.take ("MERGE ".toList.length + stop),
        P.mergeQuery.drop ("MERGE ".toList.length + stop))) = _
    rw [hnone]
    rfl

end Reading

/-! ### The scan for unions -/

/-- A text that the scan for unions passes inside of brackets. -/
def Inner (s : Text) : Prop :=
  ∀ p : Place, p.depth ≠ 0 → p.quoted = false →
    (∀ rest, NoKeyword rest p s) ∧ AsciiTop p s ∧ (p.after s).depth = p.depth ∧
      (p.after s).quoted = false

theorem Inner.append {s t : Text} (hs : Inner s) (ht : Inner t) : Inner (s ++ t) := by
  intro p hdepth hquoted
  obtain ⟨hkey, hascii, hd, hq⟩ := hs p hdepth hquoted
  obtain ⟨hkey', hascii', hd', hq'⟩ := ht (p.after s) (hd ▸ hdepth) hq
  rw [Place.after_append]
  exact ⟨fun rest => noKeyword_append.mpr ⟨hkey _, hkey' rest⟩, asciiTop_append.mpr ⟨hascii, hascii'⟩,
    hd'.trans hd, hq'⟩

theorem inner_nil : Inner [] := fun _ _ hq => ⟨fun _ => trivial, trivial, rfl, hq⟩

theorem Inner.flatMap {α : Type} {f : α → Text} {xs : List α} (h : ∀ x ∈ xs, Inner (f x)) :
    Inner (xs.flatMap f) := by
  induction xs with
  | nil => exact inner_nil
  | cons x xs ih =>
    exact (h x (by simp)).append (ih fun y hy => h y (by simp [hy]))

theorem inner_flat {s : Text} (hs : ∀ c ∈ s, flatChar c = true) : Inner s := by
  induction s with
  | nil => exact inner_nil
  | cons c cs ih =>
    intro p hdepth hquoted
    have hc := hs c (by simp)
    have hquote : c ≠ '\'' := by
      rintro rfl
      cases hc
    have hnext : p.next c = ⟨some c, p.depth, false⟩ := by
      rw [Place.next, if_neg hquote, hquoted, nextDepth_flat hc]
      rfl
    have htop : ¬ p.Top c := fun h => hdepth (nextDepth_flat hc p.depth ▸ h.2.2)
    obtain ⟨hkey, hascii, hd, hq⟩ := ih (fun x hx => hs x (by simp [hx])) (p.next c)
      (by rw [hnext]; exact hdepth) (by rw [hnext])
    rw [Place.after_cons]
    exact ⟨fun rest => ⟨fun h => absurd h htop, hkey rest⟩, ⟨fun h => absurd h htop, hascii⟩,
      by rw [hd, hnext], hq⟩

/-- Nothing in quotes counts. -/
theorem quoted_passed {s : Text} (hs : '\'' ∉ s) {p : Place} (hquoted : p.quoted = true) :
    (∀ rest, NoKeyword rest p s) ∧ AsciiTop p s ∧ (p.after s).depth = p.depth ∧
      (p.after s).quoted = true := by
  induction s generalizing p with
  | nil => exact ⟨fun _ => trivial, trivial, rfl, hquoted⟩
  | cons c cs ih =>
    rw [List.mem_cons, not_or] at hs
    have hnext : p.next c = ⟨some c, p.depth, true⟩ := by
      rw [Place.next, if_neg (Ne.symm hs.1), hquoted]
      rfl
    have htop : ¬ p.Top c := fun h => by
      have := h.2.1
      rw [hquoted] at this
      cases this
    obtain ⟨hkey, hascii, hd, hq⟩ := @ih hs.2 (p.next c) (by rw [hnext])
    rw [Place.after_cons]
    exact ⟨fun rest => ⟨fun h => absurd h htop, hkey rest⟩, ⟨fun h => absurd h htop, hascii⟩,
      by rw [hd, hnext], hq⟩

theorem inner_quoted {s : Text} (hs : '\'' ∉ s) : Inner ('\'' :: (s ++ ['\''])) := by
  intro p hdepth hquoted
  have htop (p : Place) : ¬ p.Top '\'' := fun h => h.1 rfl
  have hopen : p.next '\'' = ⟨some '\'', p.depth, true⟩ := by
    rw [Place.next, if_pos rfl, hquoted]
    rfl
  obtain ⟨hkey, hascii, hd, hq⟩ := @quoted_passed s hs (p.next '\'') (by rw [hopen])
  have hclose : ((p.next '\'').after s).next '\'' = ⟨some '\'', p.depth, false⟩ := by
    rw [Place.next, if_pos rfl, hd, hq, hopen]
    rfl
  rw [Place.after_cons, Place.after_append, Place.after_cons, Place.after_nil, hclose]
  refine ⟨fun rest => ⟨fun h => absurd h (htop _), ?_⟩, ⟨fun h => absurd h (htop _), ?_⟩, rfl, rfl⟩
  · exact noKeyword_append.mpr ⟨hkey _, fun h => absurd h (htop _), trivial⟩
  · exact asciiTop_append.mpr ⟨hascii, fun h => absurd h (htop _), trivial⟩

theorem inner_braces {s : Text} (hs : Inner s) : Inner ('{' :: (s ++ ['}'])) := by
  intro p hdepth hquoted
  have hopen : p.next '{' = ⟨some '{', p.depth + 1, false⟩ := by
    rw [Place.next, if_neg (by decide), hquoted]
    rfl
  obtain ⟨hkey, hascii, hd, hq⟩ := hs (p.next '{') (by rw [hopen]; exact Nat.succ_ne_zero _)
    (by rw [hopen])
  have hafter : ((p.next '{').after s).depth = p.depth + 1 := by rw [hd, hopen]
  have hclose : ((p.next '{').after s).next '}' = ⟨some '}', p.depth, false⟩ := by
    rw [Place.next, if_neg (by decide), hafter, hq]
    rfl
  have htop : ¬ p.Top '{' := fun h => Nat.succ_ne_zero _ h.2.2
  have htop' : ¬ ((p.next '{').after s).Top '}' := fun h => by
    have hzero := h.2.2
    rw [hafter] at hzero
    exact hdepth hzero
  rw [Place.after_cons, Place.after_append, Place.after_cons, Place.after_nil, hclose]
  refine ⟨fun rest => ⟨fun h => absurd h htop, ?_⟩, ⟨fun h => absurd h htop, ?_⟩, rfl, rfl⟩
  · exact noKeyword_append.mpr ⟨hkey _, fun h => absurd h htop', trivial⟩
  · exact asciiTop_append.mpr ⟨hascii, fun h => absurd h htop', trivial⟩

theorem inner_literal (v : Literal) : Inner v.text := by
  cases v.shape with
  | string s hs => exact inner_quoted hs
  | plain v hne hplain hchars => exact inner_flat fun c hc => flat_of_plain (hplain c hc)

theorem inner_assignment {p : Text × Literal} (hkey : Identifier p.1) : Inner (assignmentText p) := by
  have hname : Inner (p.1 ++ ['=']) := inner_flat fun c hc => by
    rcases List.mem_append.mp hc with hc | hc
    · exact hkey.flat c hc
    · rw [List.mem_singleton.mp hc]
      rfl
  rw [assignmentText, List.append_cons]
  exact hname.append (inner_literal p.2)

theorem inner_properties {ps : List (Text × Literal)} (hkeys : ∀ p ∈ ps, Identifier p.1) :
    Inner (propertiesText ps) := by
  rcases ps with _ | ⟨p, ps⟩
  · exact inner_nil
  · refine (inner_assignment (hkeys p (by simp))).append (.flatMap fun q hq => ?_)
    have hlead : Inner [',', ' '] := inner_flat (List.all_eq_true.mp rfl)
    exact hlead.append (inner_assignment (hkeys q (by simp [hq])))

section Running

variable {P : NodePattern}

theorem inner_body : Inner P.body := by
  have hopening : Inner ("n:".toList ++ (P.label ++ [' '])) := inner_flat fun c hc => by
    rcases List.mem_append.mp hc with hc | hc
    · exact List.all_eq_true.mp (rfl : "n:".toList.all flatChar = true) c hc
    · rcases List.mem_append.mp hc with hc | hc
      · exact P.label_identifier.flat c hc
      · rw [List.mem_singleton.mp hc]
        rfl
  have h := hopening.append (inner_braces (inner_properties P.keys_identifier))
  simpa [NodePattern.body, NodePattern.opening] using h

/-- A pattern in parentheses after a clause is no union. -/
theorem splitTopLevelUnion_query {clause : String} (w : Text) (hclause : clause.toList = w ++ [' '])
    (hw : Word w) (hne : upper w ≠ "UNION".toList) (hlevel : Level w) :
    splitTopLevelUnion (P.query clause) = .ok none := by
  have htext : P.query clause = (w ++ [' ']) ++ '(' :: (P.body ++ [')']) := by
    rw [NodePattern.query, hclause]
  obtain ⟨hascii, hdepth, hquoted⟩ := (hlevel.append level_space) .start rfl rfl
  have hopen : (Place.start.after (w ++ [' '])).next '(' = ⟨some '(', 1, false⟩ := by
    rw [Place.next, if_neg (by decide), hdepth, hquoted]
    rfl
  obtain ⟨hkey', hascii', hdepth', hquoted'⟩ := @inner_body P ⟨some '(', 1, false⟩ (by decide) rfl
  have hprev : ((⟨some '(', 1, false⟩ : Place).after P.body).prev = some '}' := by
    have hbody : P.body = (P.opening ++ propertiesText P.properties) ++ ['}'] := by
      simp [NodePattern.body]
    rw [hbody, Place.after_append, Place.after_cons, Place.after_nil, Place.next_prev]
  have htop : ¬ (Place.start.after (w ++ [' '])).Top '(' := fun h => by
    have hzero := h.2.2
    rw [hdepth] at hzero
    cases hzero
  have hspace : NoKeyword ('(' :: (P.body ++ [')'])) .start (w ++ [' ']) := by
    rw [noKeyword_append]
    exact ⟨noKeyword_word hw hne rfl _, fun _ => keywordAt_of_head (by decide) _, trivial⟩
  rw [splitTopLevelUnion, htext]
  refine scanUnion_rest rfl ?_ ?_
  · refine noKeyword_append.mpr ⟨(List.append_nil ('(' :: (P.body ++ [')']))).symm ▸ hspace,
      fun h => absurd h htop, ?_⟩
    show NoKeyword [] ((Place.start.after (w ++ [' '])).next '(') (P.body ++ [')'])
    rw [hopen]
    exact noKeyword_append.mpr ⟨hkey' _, fun _ => by rw [hprev]; exact keywordAt_of_prev rfl _, trivial⟩
  · refine asciiTop_append.mpr ⟨hascii, fun h => absurd h htop, ?_⟩
    show AsciiTop ((Place.start.after (w ++ [' '])).next '(') (P.body ++ [')'])
    rw [hopen]
    exact asciiTop_append.mpr ⟨hascii', fun _ => by decide, trivial⟩

end Running

/-! ### What is found -/

section Found

variable {P : NodePattern} {g : InMemoryGraphStore}

theorem eq_value (v : Literal) : v.value.eq v.value = true := by
  cases v with
  | string s hs => exact beq_self_eq_true _
  | int64 n => exact beq_self_eq_true _
  | float64 x hx => exact F64.eq_self (F64.isNan_number x)
  | bool b => exact beq_self_eq_true _

theorem matchesNode_pattern {node : GraphNode} :
    matchesNode (some (String.ofList P.label)) (propertiesOf P.properties) node = true ↔
      String.ofList P.label ∈ node.labels ∧ ∀ p ∈ P.properties,
        ∃ v, node.properties[String.ofList p.1]? = some v ∧ v.eq p.2.value = true := by
  rw [matchesNode, Bool.and_eq_true, List.all_eq_true]
  refine and_congr (by simp) ⟨fun h p hp => ?_, fun h q hq => ?_⟩
  · have hmem := (getElem?_propertiesOf P.keys_nodup _ _).mpr ⟨p, hp, rfl, rfl⟩
    have heq := h (String.ofList p.1, p.2.value) (Map.mem_toList.mpr hmem)
    dsimp only at heq
    rcases hv : node.properties[String.ofList p.1]? with _ | v <;> rw [hv] at heq
    · cases heq
    · exact ⟨v, rfl, heq⟩
  · obtain ⟨k, w⟩ := q
    obtain ⟨p, hp, rfl, rfl⟩ :=
      (getElem?_propertiesOf P.keys_nodup k w).mp (Map.mem_toList.mp hq)
    obtain ⟨v, hv, heq⟩ := h p hp
    dsimp only
    rw [hv]
    exact heq

theorem found_iff (order : HashOrder) : P.Found g ↔ (findNodeByLabelAndProps order g
    (some (String.ofList P.label)) (propertiesOf P.properties)).isSome = true := by
  rw [findNodeByLabelAndProps, List.find?_isSome]
  constructor
  · rintro ⟨id, node, hnode, hmatch⟩
    refine ⟨node, (order.nodes_perm g.nodes).mem_iff.mpr ?_, matchesNode_pattern.mpr hmatch⟩
    exact List.mem_map.mpr ⟨(id, node), Map.mem_toList.mpr hnode, rfl⟩
  · rintro ⟨node, hnode, hmatch⟩
    obtain ⟨⟨id, node⟩, hmem, rfl⟩ := List.mem_map.mp ((order.nodes_perm g.nodes).mem_iff.mp hnode)
    exact ⟨id, node, Map.mem_toList.mp hmem, matchesNode_pattern.mp hmatch⟩

/-- What was added is found. -/
theorem NodePattern.Added.found {g' : InMemoryGraphStore} (h : P.Added g g') : P.Found g' := by
  obtain ⟨node, hnode, -, hnodes, -⟩ := h
  refine ⟨node.id, node, by rw [hnodes, Map.getElem?_insert_self], by simp [hnode.labels],
    fun p hp => ⟨p.2.value, (hnode.properties _ _).mpr ⟨p, hp, rfl, rfl⟩, eq_value p.2⟩⟩

end Found

/-! ### Running -/

section Writing

variable (std : FloatStd) (order : HashOrder) (dialect : CypherDialect) (g : InMemoryGraphStore)
  (P : NodePattern)

/-- A pattern is stored as it is written and found again: `CREATE` adds its node and nothing else,
    a `MERGE` after that changes nothing, a `MERGE` where the node is not found is a `CREATE`, and a
    second `MERGE` changes nothing. -/
structure Stores : Prop where
  created : ∃ g', P.Added g g' ∧
    executeQueryWithDialect std order g P.createQuery dialect = (g', .ok .ack) ∧
    executeQueryWithDialect std order g' P.mergeQuery dialect = (g', .ok .ack)
  absent : ¬ P.Found g → executeQueryWithDialect std order g P.mergeQuery dialect =
    executeQueryWithDialect std order g P.createQuery dialect
  idempotent : ∃ g', executeQueryWithDialect std order g P.mergeQuery dialect = (g', .ok .ack) ∧
    executeQueryWithDialect std order g' P.mergeQuery dialect = (g', .ok .ack)

/-- The dialect does not take a string of the pattern for an extension. -/
structure Passes : Prop where
  create : dialect = .neo4jCompat → rejectNeo4jCompatExtension P.createQuery = none
  merge : dialect = .neo4jCompat → rejectNeo4jCompatExtension P.mergeQuery = none

variable {std order dialect g P}

theorem executeQuery_refused_text {q : Text} (htrim : trim q = q)
    (h : ¬ (dialect = .neo4jCompat → rejectNeo4jCompatExtension q = none)) :
    ∃ e, executeQueryWithDialect std order g q dialect = (g, .error e) := by
  rw [Classical.not_imp] at h
  obtain ⟨e, he⟩ := Option.ne_none_iff_exists'.mp h.2
  exact ⟨e, by rw [executeQueryWithDialect_eq, htrim, executeTrimmed, if_pos h.1, he]⟩

theorem executeQuery_create
    (h : dialect = .neo4jCompat → rejectNeo4jCompatExtension P.createQuery = none) :
    executeQueryWithDialect std order g P.createQuery dialect = executeCreate g P.createQuery := by
  have hnone : (if dialect = .neo4jCompat then rejectNeo4jCompatExtension P.createQuery else none)
      = none := by
    split_ifs with hd
    · exact h hd
    · rfl
  have hsplit : splitTopLevelUnion P.createQuery = .ok none :=
    splitTopLevelUnion_query "CREATE".toList rfl (word_of_all rfl) (by decide) (level_of_all rfl)
  have htrim : trim P.createQuery = P.createQuery := trim_query rfl
  rw [executeQueryWithDialect_eq, htrim, executeTrimmed, hnone, hsplit]
  rfl

theorem executeQuery_merge
    (h : dialect = .neo4jCompat → rejectNeo4jCompatExtension P.mergeQuery = none) :
    executeQueryWithDialect std order g P.mergeQuery dialect = executeMerge order g P.mergeQuery := by
  have hnone : (if dialect = .neo4jCompat then rejectNeo4jCompatExtension P.mergeQuery else none)
      = none := by
    split_ifs with hd
    · exact h hd
    · rfl
  have hsplit : splitTopLevelUnion P.mergeQuery = .ok none :=
    splitTopLevelUnion_query "MERGE".toList rfl (word_of_all rfl) (by decide) (level_of_all rfl)
  have htrim : trim P.mergeQuery = P.mergeQuery := trim_query rfl
  rw [executeQueryWithDialect_eq, htrim, executeTrimmed, hnone, hsplit]
  rfl

theorem executeCreate_query : executeCreate g P.createQuery =
    parsed g (parseCreateOrMergePayload P.createQuery "CREATE ") fun (label, props) =>
      created g [label] props fun g' _ => (g', .ok .ack) := by
  have hend : Text.endsWith P.createQuery [')'] = true := by
    rw [Text.endsWith, List.isSuffixOf_iff_suffix]
    exact ⟨"CREATE ".toList ++ '(' :: P.body, by simp [NodePattern.createQuery, NodePattern.query]⟩
  have hstart : startsWith P.createQuery "CREATE (" = true := rfl
  rw [executeCreate, hstart, hend]
  rfl

theorem executeMerge_query : executeMerge order g P.mergeQuery =
    parsed g (splitPatternAndTail P.mergeQuery "MERGE ") fun (patternPart, tail) =>
      parsed g (parseCreateOrMergePayload patternPart "MERGE ") fun (label, props) =>
        match findNodeByLabelAndProps order g (some label) props with
        | some existing => mergeSet g tail "ON MATCH SET" existing.id "MERGE target missing"
        | none => created g [label] props fun g' node =>
          mergeSet g' tail "ON CREATE SET" node.id "MERGE create target missing" := by
  have hstart : startsWith P.mergeQuery "MERGE (" = true := rfl
  rw [executeMerge, hstart]
  rfl

/-- A legible pattern is merged whole, with nothing after it. -/
theorem executeMerge_legible (h : P.Legible) : executeMerge order g P.mergeQuery =
    match findNodeByLabelAndProps order g (some (String.ofList P.label))
      (propertiesOf P.properties) with
    | some _ => (g, .ok .ack)
    | none => created g [String.ofList P.label] (propertiesOf P.properties) fun g' _ =>
      (g', .ok .ack) := by
  have hsplit := @splitPatternAndTail_query P _ "MERGE " rfl (patternEnd_body h.parentheses)
  rw [List.take_length, List.drop_length] at hsplit
  have hpayload := @payload_query P "MERGE " rfl h.commas
  rw [executeMerge_query, NodePattern.mergeQuery, hsplit]
  dsimp only [parsed]
  rw [NodePattern.query] at hpayload
  rw [hpayload]
  rfl

theorem merge_found (hlegible : P.Legible) (hpasses : Passes dialect P) (h : P.Found g) :
    executeQueryWithDialect std order g P.mergeQuery dialect = (g, .ok .ack) := by
  obtain ⟨node, hnode⟩ := Option.isSome_iff_exists.mp ((found_iff order).mp h)
  rw [executeQuery_merge hpasses.merge, executeMerge_legible hlegible, hnode]

theorem merge_absent (hlegible : P.Legible) (hpasses : Passes dialect P) (h : ¬ P.Found g) :
    executeQueryWithDialect std order g P.mergeQuery dialect =
      created g [String.ofList P.label] (propertiesOf P.properties) fun g' _ => (g', .ok .ack) := by
  rw [found_iff order, Option.not_isSome_iff_eq_none] at h
  rw [executeQuery_merge hpasses.merge, executeMerge_legible hlegible, h]

theorem describes_properties (id : String) :
    P.Describes ⟨id, [String.ofList P.label], propertiesOf P.properties⟩ :=
  ⟨rfl, getElem?_propertiesOf P.keys_nodup⟩

/-- Where there is room the node is added, else the counter overflows or a node is replaced. -/
theorem created_iff {g' : InMemoryGraphStore} :
    P.Added g g' ∧ created g [String.ofList P.label] (propertiesOf P.properties)
        (fun g' _ => (g', .ok .ack)) = (g', .ok .ack) ↔
      Room g ∧ (g.createNode [String.ofList P.label] (propertiesOf P.properties)).map Prod.fst
        = some g' := by
  rw [created]
  rcases hcreate : g.createNode [String.ofList P.label] (propertiesOf P.properties)
    with _ | ⟨g₁, node⟩
  · simp
  · obtain ⟨hid, hseq, hedgeSeq, hnodes, hedges⟩ := createNode_eq hcreate
    obtain ⟨seq, hincrement, hpair⟩ := Option.bind_eq_some_iff.mp hcreate
    have hcounter : g.nextNodeSeq.toNat + 1 < 2 ^ 64 := by
      rw [← hseq]
      exact UInt64.toNat_lt _
    have hnode : P.Describes node := by
      cases hpair
      exact describes_properties _
    have hfree : g.nodes[node.id]? = none ↔ nodeIdOf (g.nextNodeSeq.toNat + 1) ∉ g.nodes := by
      rw [hid, Map.mem_iff, Option.eq_none_iff_forall_ne_some]
      simp
    simp only [Option.map_some, Option.some.injEq, Prod.mk.injEq, and_true]
    constructor
    · rintro ⟨⟨node', hdescribes, hnone, hadded, -⟩, rfl⟩
      refine ⟨⟨hcounter, hfree.mp ?_⟩, rfl⟩
      -- the key that was free before and is taken after is the one that was inserted
      have hmem : g₁.nodes[node'.id]? = some node' := by rw [hadded, Map.getElem?_insert_self]
      rw [hnodes] at hmem
      by_cases heq : node.id = node'.id
      · rw [heq, hnone]
      · rw [Map.getElem?_insert_ne _ heq, hnone] at hmem
        cases hmem
    · rintro ⟨hroom, rfl⟩
      exact ⟨⟨node, hnode, hfree.mpr hroom.free, hnodes, hedges, hseq, hedgeSeq⟩, rfl⟩

theorem exists_created (h : Room g) : ∃ g', P.Added g g' ∧
    created g [String.ofList P.label] (propertiesOf P.properties) (fun g' _ => (g', .ok .ack))
      = (g', .ok .ack) := by
  have hincrement : increment g.nextNodeSeq = some (g.nextNodeSeq + 1) := by
    rw [increment, if_pos h.counter]
  obtain ⟨p, hp⟩ : ∃ p, g.createNode [String.ofList P.label] (propertiesOf P.properties) = some p := by
    rw [createNode, hincrement]
    exact ⟨_, rfl⟩
  exact ⟨p.1, created_iff.mpr ⟨h, by rw [hp]; rfl⟩⟩

/-- A pattern is stored as it is written and found again exactly when no string in it has a comma,
the parentheses in its strings are balanced, the graph has room for a node and the dialect lets the
text pass. -/
theorem stores_iff (std : FloatStd) (order : HashOrder) (dialect : CypherDialect)
    (g : InMemoryGraphStore) (P : NodePattern) :
    Stores std order dialect g P ↔ P.Legible ∧ Room g ∧ Passes dialect P := by
  constructor
  · rintro ⟨⟨g', hadded, hcreate, hmerge⟩, -, -⟩
    have hpasses : Passes dialect P := by
      refine ⟨?_, ?_⟩
      · by_contra hrefused
        obtain ⟨e, he⟩ := @executeQuery_refused_text std order dialect g _ (trim_query rfl) hrefused
        rw [NodePattern.createQuery, he] at hcreate
        cases hcreate
      · by_contra hrefused
        obtain ⟨e, he⟩ := @executeQuery_refused_text std order dialect g' _ (trim_query rfl) hrefused
        rw [NodePattern.mergeQuery, he] at hmerge
        cases hmerge
    rw [executeQuery_create hpasses.create, executeCreate_query] at hcreate
    rw [executeQuery_merge hpasses.merge, executeMerge_query] at hmerge
    have hcommas : ',' ∉ P.strings := by
      intro hmem
      obtain ⟨e, he⟩ := @payload_comma P "CREATE " rfl hmem
      rw [NodePattern.createQuery, he] at hcreate
      cases hcreate
    have hparentheses : openAfter 0 P.strings = some 0 := by
      by_contra hunbalanced
      rcases split_unbalanced hunbalanced hcommas with ⟨e, he⟩ | ⟨pattern, tail, e, hsplit, he⟩
      · rw [he] at hmerge
        cases hmerge
      · rw [hsplit] at hmerge
        dsimp only [parsed] at hmerge
        rw [he] at hmerge
        cases hmerge
    rw [NodePattern.createQuery, payload_query rfl hcommas] at hcreate
    exact ⟨⟨hcommas, hparentheses⟩, (created_iff.mp ⟨hadded, hcreate⟩).1, hpasses⟩
  · rintro ⟨hlegible, hroom, hpasses⟩
    have hcreate : executeQueryWithDialect std order g P.createQuery dialect =
        created g [String.ofList P.label] (propertiesOf P.properties) fun g' _ => (g', .ok .ack) := by
      rw [executeQuery_create hpasses.create, executeCreate_query, NodePattern.createQuery,
        payload_query rfl hlegible.commas]
      rfl
    obtain ⟨g', hadded, hcreated⟩ := @exists_created g P hroom
    have hagain := @merge_found std order dialect g' P hlegible hpasses hadded.found
    refine ⟨⟨g', hadded, hcreate.trans hcreated, hagain⟩, fun hnot => ?_, ?_⟩
    · rw [merge_absent hlegible hpasses hnot, hcreate]
    · by_cases hfound : P.Found g
      · have hsame := @merge_found std order dialect g P hlegible hpasses hfound
        exact ⟨g, hsame, hsame⟩
      · exact ⟨g', (merge_absent hlegible hpasses hfound).trans hcreated, hagain⟩

end Writing

section Witness

open Integrity

/-- A pattern whose map has one string. -/
def oneString (key s : Text) (hkey : Identifier key) (hs : '\'' ∉ s) : NodePattern where
  label := "Paper".toList
  properties := [(key, .string s hs)]
  label_identifier := identifier_of_all rfl
  keys_identifier := List.forall_mem_singleton.mpr hkey
  keys_nodup := List.nodup_singleton _

/-- A string with brackets, blanks and equality signs. -/
theorem stores_paper : Stores plainStd .ascending .openCypher9 .new
    (oneString "title".toList "f(x) = [y: \x7bz\x7d]".toList (identifier_of_all rfl) (by decide)) := by
  refine (stores_iff _ _ _ _ _).mpr ⟨⟨by decide, by decide⟩, ⟨by decide, ?_⟩, ⟨nofun, nofun⟩⟩
  exact Std.ExtTreeMap.not_mem_empty

/-- A comma in a string is refused by both clauses, a parenthesis by the second only. -/
theorem comma_refused_parenthesis_lost :
    (oneString ['k'] "a,b".toList (identifier_of_all rfl) (by decide)).createQuery
        = "CREATE (n:Paper \x7bk='a,b'\x7d)".toList ∧
      (oneString ['k'] ":)".toList (identifier_of_all rfl) (by decide)).mergeQuery
        = "MERGE (n:Paper \x7bk=':)'\x7d)".toList ∧
      ∀ std order dialect g,
        ¬ Stores std order dialect g
            (oneString ['k'] "a,b".toList (identifier_of_all rfl) (by decide)) ∧
        ¬ Stores std order dialect g
            (oneString ['k'] ":)".toList (identifier_of_all rfl) (by decide)) := by
  refine ⟨by decide, by decide, fun std order dialect g => ⟨fun h => ?_, fun h => ?_⟩⟩
  · exact absurd ((stores_iff _ _ _ _ _).mp h).1.commas (by decide)
  · exact absurd ((stores_iff _ _ _ _ _).mp h).1.parentheses (by decide)

end Witness

end AiraGraphdb.Library.Query
