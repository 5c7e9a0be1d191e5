import AiraGraphdb.Library.Query.Engine

/-! # Queries inside of queries

Every query that a query contains is shorter, so the bound that `execute` is given never runs out:
the engine satisfies the source's own recursion (`executeQueryWithDialect_eq`), and a property of
runs is proved by induction on the length of the query (`executeQueryWithDialect_induct`). -/

namespace AiraGraphdb.Library.Query

open Schemes InMemoryGraphStore
open Library.Connections (CypherDialect)

/-! ### Lengths -/

theorem length_trim_le (s : Text) : (trim s).length ≤ s.length := Text.length_trim_le _ s

theorem find_le {pat : Text} : ∀ {s : Text} {i : ℕ}, Text.find pat s = some i →
    i + pat.length ≤ s.length
  | [], i, h => by
    rw [Text.find] at h
    split_ifs at h with hp
    · cases h
      rw [List.isEmpty_iff] at hp
      simp [hp]
  | c :: cs, i, h => by
    rw [Text.find] at h
    split_ifs at h with hp
    · cases h
      have := (Text.startsWith_iff.mp hp).length_le
      omega
    · obtain ⟨j, hj, rfl⟩ := Option.map_eq_some_iff.mp h
      have := find_le hj
      simp only [List.length_cons]
      omega

theorem splitOnce_length {pat s : Text} {p : Text × Text} (h : Text.splitOnce pat s = some p) :
    p.1.length + pat.length + p.2.length = s.length := by
  obtain ⟨i, hi, rfl⟩ := Option.map_eq_some_iff.mp h
  have := find_le hi
  simp only [List.length_take, List.length_drop]
  omega

theorem stripPrefix_length {s pat rest : Text} (h : Text.stripPrefix s pat = some rest) :
    pat.length + rest.length = s.length := by
  rw [Text.stripPrefix_eq_some.mp h, List.length_append]

theorem splitSubqueryBody_length {s : Text} : ∀ {depth : ℕ} {quoted : Bool} {p : Text × Text},
    splitSubqueryBody depth quoted s = some p → p.1.length < s.length := by
  induction s with
  | nil => intro depth quoted p h; simp [splitSubqueryBody] at h
  | cons c cs ih =>
    intro depth quoted p h
    have key {d : ℕ} {b : Bool}
        (h : ((splitSubqueryBody d b cs).map fun p => (c :: p.1, p.2)) = some p) :
        p.1.length < (c :: cs).length := by
      obtain ⟨q, hq, rfl⟩ := Option.map_eq_some_iff.mp h
      simpa using ih hq
    rw [splitSubqueryBody] at h
    split_ifs at h
    · exact key h
    · exact key h
    · exact key h
    · cases h
      simp
    · exact key h
    · exact key h

/-- Where a scan stands: the branches so far and what is left are parts of the query. -/
structure UnionScan.Within (n : ℕ) (st : UnionScan) (rest : Text) : Prop where
  branches : ∀ b ∈ st.branches, b.length < n
  le : st.branch.length + rest.length ≤ n
  lt : st.branches ≠ [] → st.branch.length + rest.length < n

theorem UnionScan.Within.finish {n : ℕ} {st : UnionScan} {p : List Text × UnionMode}
    (hw : st.Within n []) (h : st.finish = some p) : ∀ b ∈ p.1, b.length < n := by
  rw [UnionScan.finish] at h
  split_ifs at h with hemp
  obtain ⟨mode, -, rfl⟩ := Option.map_eq_some_iff.mp h
  intro b hb
  rcases List.mem_append.mp hb with hb | hb
  · exact hw.branches b hb
  · rw [List.mem_singleton.mp hb]
    have hne : st.branches ≠ [] := fun he => hemp (by simp [he])
    have := hw.lt hne
    have := length_trim_le st.branch.reverse
    simp only [List.length_reverse, List.length_nil] at *
    omega

theorem scanUnion_length {n : ℕ} {s : Text} : ∀ {st : UnionScan} {p : List Text × UnionMode},
    st.Within n s → scanUnion st s = .ok (some p) → ∀ b ∈ p.1, b.length < n := by
  induction s with
  | nil =>
    intro st p hw h
    exact hw.finish (by simpa [scanUnion] using h)
  | cons c cs ih =>
    intro st p hw h
    have hlen := hw.le
    simp only [List.length_cons] at hlen
    -- one character moves from the rest into the branch
    have hpush {st' : UnionScan} (hb : st'.branches = st.branches)
        (hc : st'.branch = c :: st.branch) : st'.Within n cs := by
      refine ⟨hb ▸ hw.branches, ?_, fun hne => ?_⟩
      · rw [hc, List.length_cons]
        omega
      · have := hw.lt (hb ▸ hne)
        rw [hc, List.length_cons]
        simp only [List.length_cons] at this
        omega
    rw [scanUnion] at h
    split at h
    · refine ih ?_ h
      refine ⟨hw.branches, ?_, fun hne => ?_⟩
      · dsimp only
        omega
      · have := hw.lt hne
        simp only [List.length_cons] at this
        dsimp only
        omega
    split at h
    · refine ih ?_ h
      exact hpush rfl rfl
    split at h
    · refine ih ?_ h
      exact hpush rfl rfl
    dsimp only at h
    split at h
    · split at h
      · split at h
        · cases h
        refine ih ?_ h
        refine ⟨?_, ?_, fun _ => ?_⟩
        · intro b hb
          rcases List.mem_append.mp hb with hb | hb
          · exact hw.branches b hb
          · rw [List.mem_singleton.mp hb]
            have := length_trim_le st.branch.reverse
            simp only [List.length_reverse] at this
            omega
        · simp only [List.length_nil]
          omega
        · simp only [List.length_nil]
          omega
      · split at h
        · cases h
        refine ih ?_ h
        exact hpush rfl rfl
    · refine ih ?_ h
      exact hpush rfl rfl

/-- The branches of a union are shorter than it. -/
theorem splitTopLevelUnion_length {q : Text} {p : List Text × UnionMode}
    (h : splitTopLevelUnion q = .ok (some p)) : ∀ b ∈ p.1, b.length < q.length :=
  scanUnion_length ⟨by simp [UnionScan.start], by simp [UnionScan.start],
    by simp [UnionScan.start]⟩ h

theorem parseCallSubquery_length {q : Text} {p : Text × Text} (h : parseCallSubquery q = .ok p) :
    p.1.length < q.length := by
  obtain ⟨call, hcall, h⟩ := bind_ok.mp h
  obtain ⟨⟨inner, tail⟩, hbody, h⟩ := bind_ok.mp h
  obtain ⟨projection, -, h⟩ := bind_ok.mp h
  cases h
  have h₁ := stripPrefix_length (ofOption_ok.mp hcall)
  have h₂ := splitSubqueryBody_length (ofOption_ok.mp hbody)
  have := length_trim_le inner
  simp only at h₁ h₂ ⊢
  omega

theorem parseExistsSubquery_length {q : Text} {parts : ExistsSubquery}
    (h : parseExistsSubquery q = .ok parts) : parts.innerQuery.length < q.length := by
  obtain ⟨⟨outer, after⟩, hsplit, h⟩ := bind_ok.mp h
  obtain ⟨⟨inner, tail⟩, hbody, h⟩ := bind_ok.mp h
  cases h
  have h₁ := splitOnce_length (ofOption_ok.mp hsplit)
  have h₂ := splitSubqueryBody_length (ofOption_ok.mp hbody)
  have := length_trim_le inner
  simp only at h₁ h₂ ⊢
  omega

theorem parseWithProjection_length {s : Text} {p : Text × Text}
    (h : parseWithProjection s = .ok p) : 1 ≤ p.2.length := by
  rw [parseWithProjection] at h
  split at h
  · split_ifs at h with hemp
    cases h
    simp only [Bool.or_eq_true, List.isEmpty_iff, not_or] at hemp
    exact List.length_pos_of_ne_nil hemp.2
  · split_ifs at h with hemp
    cases h
    exact List.length_pos_of_ne_nil (by simpa using hemp)

theorem normalizeWithQuery_length {q q' : Text} (h : normalizeWithQuery q = .ok q') :
    q'.length ≤ q.length := by
  obtain ⟨⟨left, right⟩, hsplit, h⟩ := bind_ok.mp h
  obtain ⟨⟨ctx, expr⟩, hret, h⟩ := bind_ok.mp h
  obtain ⟨⟨source, projected⟩, hproj, h⟩ := bind_ok.mp h
  simp only at h
  split_ifs at h
  split at h
  · rename_i rest hrest
    cases h
    have h₁ := splitOnce_length (ofOption_ok.mp hsplit)
    have h₂ := splitOnce_length (ofOption_ok.mp hret)
    have h₃ := stripPrefix_length hrest
    have h₄ := parseWithProjection_length hproj
    have := length_trim_le left
    have := length_trim_le right
    have := length_trim_le expr
    have hw : (" WITH ".toList).length = 6 := by decide
    have hr : (" RETURN ".toList).length = 8 := by decide
    simp only [List.length_append, List.length_cons] at h₁ h₂ h₃ h₄ ⊢
    omega
  · cases h

theorem replaceFirst_length {s pat new : Text} (h : new.length ≤ pat.length) :
    (Text.replaceFirst s pat new).length ≤ s.length := by
  rw [Text.replaceFirst]
  split
  · rename_i before after hs
    have := splitOnce_length hs
    simp only [List.length_append] at this ⊢
    omega
  · exact le_rfl

theorem withoutTableWith_length (q : Text) : (withoutTableWith q).length ≤ q.length := by
  rw [withoutTableWith]
  split
  · exact replaceFirst_length (by decide)
  · exact le_rfl

theorem withoutWith_length {q q' : Text} (h : withoutWith q = .ok q') : q'.length ≤ q.length := by
  have hq := withoutTableWith_length q
  unfold withoutWith at h
  dsimp only at h
  split at h
  · exact (normalizeWithQuery_length h).trans hq
  · cases h
    exact hq

/-! ### The recursion of the engine -/

section Recursion

variable (std : FloatStd) (order : HashOrder)

theorem executeUnionBranches_congr {run run' : InMemoryGraphStore → Text → Step}
    (mode : UnionMode) : ∀ {branches : List Text}, (∀ b ∈ branches, ∀ g, run g b = run' g b) →
    ∀ rows g, executeUnionBranches run mode branches rows g =
      executeUnionBranches run' mode branches rows g
  | [], _, _, _ => rfl
  | b :: bs, h, rows, g => by
    rw [executeUnionBranches, executeUnionBranches, h b (by simp) g]
    rcases run' g b with ⟨g', e | result⟩
    · rfl
    · rcases hr : rows.extend result with e | rows'
      · simp only [hr]
      · simp only [hr]
        exact executeUnionBranches_congr mode (fun b hb => h b (by simp [hb])) rows' g'

theorem executeCallSubquery_congr {run run' : InMemoryGraphStore → Text → Step} {q : Text}
    (h : ∀ s : Text, s.length < q.length → ∀ g, run g s = run' g s) (g : InMemoryGraphStore) :
    executeCallSubquery run g q = executeCallSubquery run' g q := by
  unfold executeCallSubquery
  rcases hp : parseCallSubquery q with e | ⟨inner, projection⟩
  · rfl
  · simp only [parsed, h inner (parseCallSubquery_length hp)]

theorem executeExistsSubqueryMatch_congr {run run' : InMemoryGraphStore → Text → Step} {q : Text}
    (h : ∀ s : Text, s.length < q.length → ∀ g, run g s = run' g s) (g : InMemoryGraphStore) :
    executeExistsSubqueryMatch run order g q = executeExistsSubqueryMatch run' order g q := by
  unfold executeExistsSubqueryMatch
  rcases hp : parseExistsSubquery q with e | parts
  · rfl
  · simp only [bind, Except.bind, h parts.innerQuery (parseExistsSubquery_length hp)]

theorem executeClause_congr {run run' : InMemoryGraphStore → Text → Step} {q : Text}
    (h : ∀ s : Text, s.length < q.length → ∀ g, run g s = run' g s) (g : InMemoryGraphStore) :
    executeClause std order run g q = executeClause std order run' g q := by
  unfold executeClause
  rw [executeExistsSubqueryMatch_congr order h g]

/-- A query runs others only where they are shorter. -/
theorem executeTrimmed_congr {run run' : InMemoryGraphStore → Text → Step} {q : Text}
    (h : ∀ s : Text, s.length < q.length → ∀ g, run g s = run' g s) (g : InMemoryGraphStore)
    (dialect : CypherDialect) :
    executeTrimmed std order run g q dialect = executeTrimmed std order run' g q dialect := by
  have hclause : parsed g (withoutWith q) (executeClause std order run g) =
      parsed g (withoutWith q) (executeClause std order run' g) := by
    rcases hw : withoutWith q with e | q'
    · rfl
    · exact executeClause_congr std order (fun s hs =>
        h s (hs.trans_le (withoutWith_length hw))) g
  unfold executeTrimmed
  rw [hclause, executeCallSubquery_congr h g]
  split
  · rfl
  rcases hu : splitTopLevelUnion q with e | _ | ⟨branches, mode⟩
  · rfl
  · rfl
  · exact executeUnionBranches_congr mode (fun b hb => h b (splitTopLevelUnion_length hu b hb)) _ g

theorem execute_stable (dialect : CypherDialect) : ∀ {n m : ℕ} {query : Text},
    query.length < n → query.length < m → ∀ g,
    execute std order dialect n g query = execute std order dialect m g query
  | n + 1, m + 1, query, hn, hm, g => by
    rw [execute, execute]
    have hlen := length_trim_le query
    exact executeTrimmed_congr std order (fun s hs g =>
      execute_stable dialect (by omega) (by omega) g) g dialect

/-- The engine runs itself on the queries inside of a query. -/
theorem executeQueryWithDialect_eq (g : InMemoryGraphStore) (query : Text)
    (dialect : CypherDialect) :
    executeQueryWithDialect std order g query dialect =
      executeTrimmed std order (fun g s => executeQueryWithDialect std order g s dialect) g
        (trim query) dialect := by
  have hlen := length_trim_le query
  rw [executeQueryWithDialect, execute]
  exact executeTrimmed_congr std order (fun s hs g =>
    execute_stable std order dialect (by omega) (by omega) g) g dialect

/-- A property of all runs, from one query whose inner queries are assumed to have it. -/
theorem executeQueryWithDialect_induct {P : InMemoryGraphStore → Text → Step → Prop}
    {dialect : CypherDialect}
    (h : ∀ query, (∀ s : Text, s.length < (trim query).length → ∀ g,
        P g s (executeQueryWithDialect std order g s dialect)) →
      ∀ g, P g query (executeTrimmed std order
        (fun g s => executeQueryWithDialect std order g s dialect) g (trim query) dialect)) :
    ∀ g query, P g query (executeQueryWithDialect std order g query dialect) := by
  intro g query
  induction hn : query.length using Nat.strong_induction_on generalizing g query with
  | _ n ih =>
    rw [executeQueryWithDialect_eq]
    refine h query (fun s hs g => ih s.length ?_ g s rfl) g
    have := length_trim_le query
    omega

end Recursion

end AiraGraphdb.Library.Query
