import AiraGraphdb.Library.Tx

/-! # Serializability of the sessions

The specification reads the history of the calls only: which ids were issued (`begins`), which
sessions committed and in which order (`commits`), what each session did (`opsOf`), and what the
graph is when the committed sessions run one after the other (`serial`). `Inv` ties it to the
manager's state and is kept by every call (`inv_step`), so it holds after every run. -/

namespace AiraGraphdb.Library.Serializable

open Schemes Std TransactionManager

abbrev Event := Call × Reply

/-! ### What a history says -/

def begins (h : List Event) : List String :=
  h.filterMap fun | (.begin, .began txId) => some txId | _ => none

def commits (h : List Event) : List String :=
  h.filterMap fun | (.commit txId _, .ok) => some txId | _ => none

/-- The operations of a session, oldest first. -/
def opsOf (txId : String) (h : List Event) : List (InMemoryGraphStore → InMemoryGraphStore) :=
  h.filterMap fun
    | (.graphMut id op, .ok) => if id = txId then some op else none
    | _ => none

def runOps (g : InMemoryGraphStore) (ops : List (InMemoryGraphStore → InMemoryGraphStore)) :
    InMemoryGraphStore := ops.foldl (fun g op => op g) g

/-- The graph after the committed sessions ran one after the other, in commit order. -/
def serial (g₀ : InMemoryGraphStore) (h : List Event) : InMemoryGraphStore :=
  (commits h).foldl (fun g txId => runOps g (opsOf txId h)) g₀

def Began (txId : String) (e : Event) : Prop := e = (.begin, .began txId)

def Ends (txId : String) : Event → Prop
  | (.commit id _, _) => id = txId
  | (.rollback id, _) => id = txId
  | _ => False

def Commits : Event → Prop
  | (.commit _ _, .ok) => True
  | _ => False

/-- A commit whose storage write failed. -/
def WriteFailed : Event → Prop
  | (.commit _ _, .error e) => e.code = .incompatibleFormat
  | _ => False

/-- The id was issued, and no commit or rollback of it came after. -/
def Known (txId : String) (h : List Event) : Prop := Since (Began txId) (¬ Ends txId ·) h

/-- Some commit succeeded since the session began. -/
def Overtaken (txId : String) (h : List Event) : Prop := Followed (Began txId) Commits h

/-! ### One more event -/

theorem began_of_mem {txId : String} {h : List Event} :
    (∃ e ∈ h, Began txId e) ↔ txId ∈ begins h := by
  simp only [begins, List.mem_filterMap, Began]
  constructor
  · rintro ⟨e, he, rfl⟩
    exact ⟨_, he, rfl⟩
  · rintro ⟨⟨c, r⟩, he, hm⟩
    cases c <;> cases r <;> simp at hm
    exact ⟨_, he, by rw [hm]⟩

theorem Known.mem_begins {txId : String} {h : List Event} (hk : Known txId h) :
    txId ∈ begins h := by
  obtain ⟨h₁, e, h₂, rfl, he, -⟩ := hk
  exact began_of_mem.mp ⟨e, by simp, he⟩

theorem Overtaken.mem_begins {txId : String} {h : List Event} (ho : Overtaken txId h) :
    txId ∈ begins h := by
  obtain ⟨h₁, e, h₂, rfl, he, -⟩ := ho
  exact began_of_mem.mp ⟨e, by simp, he⟩

theorem overtaken_snoc {txId : String} {h : List Event} {e : Event} :
    Overtaken txId (h ++ [e]) ↔ Overtaken txId h ∨ (txId ∈ begins h ∧ Commits e) := by
  rw [Overtaken, followed_snoc, began_of_mem]; rfl

/-- The order of commits and what they did decide the serial graph. -/
theorem serial_congr {g₀ : InMemoryGraphStore} {h h' : List Event}
    (hc : commits h' = commits h) (ho : ∀ id ∈ commits h, opsOf id h' = opsOf id h) :
    serial g₀ h' = serial g₀ h := by
  rw [serial, serial, hc]
  exact List.foldl_ext _ _ _ fun g id hid => by rw [ho id hid]

/-! ### The invariant -/

/-- What is known of an open session. -/
structure SessionOk (h : List Event) (t : TransactionManager) (txId : String) (s : TxSession) :
    Prop where
  le : s.baseVersion.toNat ≤ t.graphVersion.toNat
  current : s.baseVersion = t.graphVersion ↔ ¬ Overtaken txId h
  graph : s.baseVersion = t.graphVersion → s.graph = runOps t.baseGraph (opsOf txId h)

/-- A session stays as it is when what the history and the manager say of it does. -/
theorem SessionOk.congr {h h' : List Event} {t t' : TransactionManager} {txId : String}
    {s : TxSession} (hok : SessionOk h t txId s) (hv : t'.graphVersion = t.graphVersion)
    (hb : t'.baseGraph = t.baseGraph) (hov : Overtaken txId h' ↔ Overtaken txId h)
    (ho : opsOf txId h' = opsOf txId h) : SessionOk h' t' txId s where
  le := by
    rw [hv]
    exact hok.le
  current := by
    rw [hv, hov]
    exact hok.current
  graph := by
    rw [hv, hb, ho]
    exact hok.graph

structure Inv (g₀ : InMemoryGraphStore) (h : List Event) (t : TransactionManager) : Prop where
  base : t.baseGraph = serial g₀ h
  issued : begins h = (List.range t.txSeq.toNat).map fun n => txIdOf (n + 1)
  known : ∀ id, id ∈ t.sessions ↔ Known id h
  worked : ∀ id, opsOf id h ≠ [] → id ∈ begins h
  ended : ∀ id ∈ commits h, id ∈ begins h ∧ id ∉ t.sessions
  session : ∀ id s, t.sessions[id]? = some s → SessionOk h t id s

theorem inv_start (t : TransactionManager) (hs : t.sessions = ∅) (hq : t.txSeq = 0) :
    Inv t.baseGraph [] t where
  base := rfl
  issued := by simp [hq, begins]
  known id := by simp [hs, Known]
  worked id h := absurd rfl h
  ended id h := by simp [commits] at h
  session id s h := by simp [hs] at h

/-- The id that the next begin issues has not been issued before. -/
theorem Inv.fresh {g₀ : InMemoryGraphStore} {h : List Event} {t : TransactionManager}
    (hi : Inv g₀ h t) : txIdOf (t.txSeq.toNat + 1) ∉ begins h := by
  rw [hi.issued, List.mem_map]
  rintro ⟨n, hn, he⟩
  have := txIdOf_injective he
  rw [List.mem_range] at hn
  omega

/-- No id is issued twice. -/
theorem Inv.nodup {g₀ : InMemoryGraphStore} {h : List Event} {t : TransactionManager}
    (hi : Inv g₀ h t) : (begins h).Nodup := by
  rw [hi.issued]
  exact List.nodup_range.map fun n m he => Nat.succ_injective (txIdOf_injective he)

/-! ### One call -/

theorem begin_cases {t t' : TransactionManager} {r : Reply} (hs : t.begin = some (t', r)) :
    ∃ n : UInt64, n.toNat = t.txSeq.toNat + 1 ∧ r = .began (txIdOf (t.txSeq.toNat + 1)) ∧
      t' = { t with
        txSeq := n
        sessions := t.sessions.insert (txIdOf (t.txSeq.toNat + 1)) ⟨t.baseGraph, t.graphVersion⟩ } := by
  simp only [TransactionManager.begin, Option.bind_eq_bind, Option.bind_eq_some_iff] at hs
  obtain ⟨n, hn, hs⟩ := hs
  have hn' := increment_toNat hn
  obtain ⟨rfl, rfl⟩ := Prod.mk.inj (Option.some.inj hs)
  exact ⟨n, hn', by rw [hn'], by rw [hn']⟩

/-- Every way a commit can end: unknown id, conflict, failed write, success. -/
theorem commit_cases {t t' : TransactionManager} {id : String} {stop : Option ℕ} {r : Reply}
    (hs : t.commit id stop = some (t', r)) :
    (t.sessions[id]? = none ∧ t' = t ∧ r = .error (unknownTransaction id)) ∨
    ∃ s, t.sessions[id]? = some s ∧
      ((s.baseVersion ≠ t.graphVersion ∧ t' = { t with sessions := t.sessions.erase id } ∧
          r = .error (deterministicConflict id)) ∨
       (s.baseVersion = t.graphVersion ∧ ∃ k, stop = some k ∧
          t' = { t with
            sessions := t.sessions.erase id
            storage := after applyEffect k (persistAfterWal id s.graph) t.storage } ∧
          r = .error (stopError id s.graph k)) ∨
       (s.baseVersion = t.graphVersion ∧ stop = none ∧ ∃ v : UInt64,
          v.toNat = t.graphVersion.toNat + 1 ∧
          t' = { t with
            sessions := t.sessions.erase id
            storage := done applyEffect (persistAfterWal id s.graph) t.storage
            baseGraph := s.graph
            graphVersion := v } ∧ r = .ok)) := by
  rw [TransactionManager.commit] at hs
  rcases hg : t.sessions[id]? with _ | s
  · rw [hg] at hs
    obtain ⟨rfl, rfl⟩ := Prod.mk.inj (Option.some.inj hs)
    exact .inl ⟨rfl, rfl, rfl⟩
  · refine .inr ⟨s, rfl, ?_⟩
    simp only [hg] at hs
    by_cases hv : s.baseVersion = t.graphVersion
    · rw [if_neg (not_not.mpr hv)] at hs
      rcases stop with _ | k
      · simp only [persist, Option.bind_eq_bind, Option.bind_eq_some_iff] at hs
        obtain ⟨v, hv', hs⟩ := hs
        obtain ⟨rfl, rfl⟩ := Prod.mk.inj (Option.some.inj hs)
        exact .inr (.inr ⟨hv, rfl, v, increment_toNat hv', rfl, rfl⟩)
      · simp only [persist] at hs
        obtain ⟨rfl, rfl⟩ := Prod.mk.inj (Option.some.inj hs)
        exact .inr (.inl ⟨hv, k, rfl, rfl, rfl⟩)
    · rw [if_pos hv] at hs
      obtain ⟨rfl, rfl⟩ := Prod.mk.inj (Option.some.inj hs)
      exact .inl ⟨hv, rfl, rfl⟩

theorem graphMut_cases (t : TransactionManager) (id : String)
    (op : InMemoryGraphStore → InMemoryGraphStore) :
    (t.sessions[id]? = none ∧ t.graphMut id op = (t, .error (unknownTransaction id))) ∨
    ∃ s, t.sessions[id]? = some s ∧ t.graphMut id op =
      ({ t with sessions := t.sessions.insert id { s with graph := op s.graph } }, .ok) := by
  rcases hg : t.sessions[id]? with _ | s
  · exact .inl ⟨rfl, by rw [graphMut, hg]⟩
  · exact .inr ⟨s, rfl, by rw [graphMut, hg]⟩

theorem rollback_cases (t : TransactionManager) (id : String) :
    (t.sessions[id]? = none ∧ t.rollback id = (t, .error (unknownTransaction id))) ∨
    (id ∈ t.sessions ∧
      t.rollback id = ({ t with sessions := t.sessions.erase id }, .ok)) := by
  rcases hg : t.sessions[id]? with _ | s
  · exact .inl ⟨rfl, by rw [rollback, hg]⟩
  · exact .inr ⟨ExtTreeMap.mem_iff_isSome_getElem?.mpr (by rw [hg]; rfl), by rw [rollback, hg]⟩

/-! ### Every call keeps the invariant -/

variable {g₀ : InMemoryGraphStore} {h : List Event} {t t' : TransactionManager}

theorem begins_snoc (e : Event) : begins (h ++ [e]) = begins h ++ begins [e] :=
  List.filterMap_append

theorem commits_snoc (e : Event) : commits (h ++ [e]) = commits h ++ commits [e] :=
  List.filterMap_append

theorem opsOf_snoc (id : String) (e : Event) :
    opsOf id (h ++ [e]) = opsOf id h ++ opsOf id [e] :=
  List.filterMap_append

theorem erase_of_getElem?_eq_none {m : ExtTreeMap String TxSession} {id : String}
    (hn : m[id]? = none) : m.erase id = m := by
  apply ExtTreeMap.ext_getElem?
  intro k
  rw [ExtTreeMap.getElem?_erase]
  split
  · rename_i hk
    rw [← LawfulEqOrd.eq_of_compare hk, hn]
  · rfl

/-- A new session starts from the base graph. -/
theorem inv_begin (hi : Inv g₀ h t) {r : Reply} (hs : t.begin = some (t', r)) :
    Inv g₀ (h ++ [((.begin, r) : Event)]) t' := by
  obtain ⟨n, hn, rfl, rfl⟩ := begin_cases hs
  have hfresh := hi.fresh
  set x := txIdOf (t.txSeq.toNat + 1) with hx
  have hb : begins (h ++ [((.begin, .began x) : Event)]) = begins h ++ [x] := begins_snoc _
  have hc : commits (h ++ [((.begin, .began x) : Event)]) = commits h :=
    (commits_snoc _).trans (List.append_nil _)
  have ho (id : String) : opsOf id (h ++ [((.begin, .began x) : Event)]) = opsOf id h :=
    (opsOf_snoc id _).trans (List.append_nil _)
  have hov (id : String) :
      Overtaken id (h ++ [((.begin, .began x) : Event)]) ↔ Overtaken id h := by
    simp [overtaken_snoc, Commits]
  refine ⟨?_, ?_, fun id => ?_, fun id hne => ?_, fun id hid => ?_, fun id s hg => ?_⟩
  · rw [serial_congr hc fun id _ => ho id]
    exact hi.base
  · rw [hb, hi.issued, hn, List.range_succ, List.map_append]
    rfl
  · rw [ExtTreeMap.mem_insert, hi.known, Known, Known, since_snoc]
    simp only [Began, Prod.mk.injEq, Reply.began.injEq, true_and, Ends, not_false_eq_true,
      and_true, LawfulEqOrd.compare_eq_iff_eq]
  · rw [ho] at hne
    rw [hb]
    exact List.mem_append_left _ (hi.worked id hne)
  · rw [hc] at hid
    obtain ⟨hm, hout⟩ := hi.ended id hid
    refine ⟨by rw [hb]; exact List.mem_append_left _ hm, fun hin => ?_⟩
    rcases ExtTreeMap.mem_insert.mp hin with hk | hk
    · exact hfresh (LawfulEqOrd.eq_of_compare hk ▸ hm)
    · exact hout hk
  · simp only [ExtTreeMap.getElem?_insert, LawfulEqOrd.compare_eq_iff_eq] at hg
    split at hg
    · rename_i hxid
      cases hg
      subst hxid
      have hno : ¬ Overtaken x h := fun hov => hfresh hov.mem_begins
      have hnil : opsOf x h = [] := by
        by_contra hne
        exact hfresh (hi.worked x hne)
      exact ⟨le_rfl, by simp [hov, hno], fun _ => by rw [ho, hnil]; rfl⟩
    · exact (hi.session id s hg).congr rfl rfl (hov id) (ho id)

/-- An operation is added to its own session. -/
theorem inv_graphMut (hi : Inv g₀ h t) (id : String)
    (op : InMemoryGraphStore → InMemoryGraphStore) :
    Inv g₀ (h ++ [((.graphMut id op, (t.graphMut id op).2) : Event)]) (t.graphMut id op).1 := by
  have hb (r : Reply) : begins (h ++ [((.graphMut id op, r) : Event)]) = begins h :=
    (begins_snoc _).trans (List.append_nil _)
  have hc (r : Reply) : commits (h ++ [((.graphMut id op, r) : Event)]) = commits h :=
    (commits_snoc _).trans (List.append_nil _)
  have hk (x : String) (r : Reply) :
      Known x (h ++ [((.graphMut id op, r) : Event)]) ↔ Known x h := by
    simp [Known, since_snoc, Began, Ends]
  have hov (x : String) (r : Reply) :
      Overtaken x (h ++ [((.graphMut id op, r) : Event)]) ↔ Overtaken x h := by
    simp [overtaken_snoc, Commits]
  rcases graphMut_cases t id op with ⟨hg, he⟩ | ⟨s, hg, he⟩ <;> rw [he]
  · have ho (x : String) :
        opsOf x (h ++ [((.graphMut id op, .error (unknownTransaction id)) : Event)]) = opsOf x h :=
      (opsOf_snoc x _).trans (List.append_nil _)
    refine ⟨?_, by rw [hb]; exact hi.issued, fun x => by rw [hk]; exact hi.known x,
      fun x hne => ?_, fun x hx => ?_, fun x s hx => ?_⟩
    · rw [serial_congr (hc _) fun x _ => ho x]
      exact hi.base
    · rw [hb]
      exact hi.worked x (by rwa [ho] at hne)
    · rw [hb]
      exact hi.ended x (by rwa [hc] at hx)
    · exact (hi.session x s hx).congr rfl rfl (hov x _) (ho x)
  · have hid : id ∈ t.sessions :=
      ExtTreeMap.mem_iff_isSome_getElem?.mpr (by rw [hg]; rfl)
    have ho_self : opsOf id (h ++ [((.graphMut id op, .ok) : Event)]) = opsOf id h ++ [op] := by
      rw [opsOf_snoc]
      simp [opsOf]
    have ho {x : String} (hne : id ≠ x) :
        opsOf x (h ++ [((.graphMut id op, .ok) : Event)]) = opsOf x h := by
      rw [opsOf_snoc]
      simp [opsOf, hne]
    refine ⟨?_, by rw [hb]; exact hi.issued, fun x => ?_, fun x hne => ?_, fun x hx => ?_,
      fun x s' hx => ?_⟩
    · rw [serial_congr (hc _) fun x hx => ho ?_]
      · exact hi.base
      · rintro rfl
        exact (hi.ended id hx).2 hid
    · rw [hk, ← hi.known, ExtTreeMap.mem_insert, LawfulEqOrd.compare_eq_iff_eq, or_iff_right_iff_imp]
      rintro rfl
      exact hid
    · rw [hb]
      by_cases hx : id = x
      · exact hx ▸ ((hi.known id).mp hid).mem_begins
      · exact hi.worked x (by rwa [ho hx] at hne)
    · rw [hc] at hx
      obtain ⟨hm, hout⟩ := hi.ended x hx
      refine ⟨by rw [hb]; exact hm, fun hin => ?_⟩
      rcases ExtTreeMap.mem_insert.mp hin with hk | hk
      · exact hout (LawfulEqOrd.eq_of_compare hk ▸ hid)
      · exact hout hk
    · simp only [ExtTreeMap.getElem?_insert, LawfulEqOrd.compare_eq_iff_eq] at hx
      split at hx
      · rename_i hxid
        cases hx
        subst hxid
        have hok := hi.session id s hg
        refine ⟨hok.le, by rw [hov]; exact hok.current, fun hv => ?_⟩
        rw [ho_self, runOps, List.foldl_append]
        exact congrArg op (hok.graph hv)
      · rename_i hne
        exact (hi.session x s' hx).congr rfl rfl (hov x _) (ho hne)

/-- An event that ends a session without committing it is no begin, no commit and no operation. -/
theorem Ends.shape {id : String} {e : Event} (hends : Ends id e) (hc : ¬ Commits e) :
    begins [e] = [] ∧ commits [e] = [] ∧ (∀ x, opsOf x [e] = []) ∧ ∀ x, ¬ Began x e := by
  obtain ⟨c, r⟩ := e
  cases c with
  | «begin» => exact hends.elim
  | graphMut id' op => exact hends.elim
  | rollback id' => exact ⟨rfl, rfl, fun _ => rfl, fun x => by simp [Began]⟩
  | commit id' stop =>
    cases r with
    | ok => exact absurd trivial hc
    | began txId => exact ⟨rfl, rfl, fun _ => rfl, fun x => by simp [Began]⟩
    | error e => exact ⟨rfl, rfl, fun _ => rfl, fun x => by simp [Began]⟩

/-- A call that ends a session without committing it takes the session away, and nothing else. -/
theorem inv_drop (hi : Inv g₀ h t) (id : String) (e : Event) (he : ∀ x, Ends x e ↔ id = x)
    (hc : ¬ Commits e) (storage : Files) :
    Inv g₀ (h ++ [e]) { t with storage, sessions := t.sessions.erase id } := by
  obtain ⟨hb1, hc1, ho1, hbeg⟩ := Ends.shape ((he id).mpr rfl) hc
  have hb : begins (h ++ [e]) = begins h := by rw [begins_snoc, hb1, List.append_nil]
  have hcm : commits (h ++ [e]) = commits h := by rw [commits_snoc, hc1, List.append_nil]
  have ho (x : String) : opsOf x (h ++ [e]) = opsOf x h := by
    rw [opsOf_snoc, ho1, List.append_nil]
  have hov (x : String) : Overtaken x (h ++ [e]) ↔ Overtaken x h := by
    simp [overtaken_snoc, hc]
  refine ⟨?_, by rw [hb]; exact hi.issued, fun x => ?_, fun x hne => ?_, fun x hx => ?_,
    fun x s hx => ?_⟩
  · rw [serial_congr hcm fun x _ => ho x]
    exact hi.base
  · rw [ExtTreeMap.mem_erase, hi.known, Known, Known, since_snoc, he x]
    simp [hbeg, and_comm]
  · rw [hb]
    exact hi.worked x (by rwa [ho] at hne)
  · rw [hcm] at hx
    obtain ⟨hm, hout⟩ := hi.ended x hx
    exact ⟨by rwa [hb], fun hin => hout (ExtTreeMap.mem_of_mem_erase hin)⟩
  · rw [ExtTreeMap.getElem?_erase] at hx
    split at hx
    · cases hx
    · exact (hi.session x s hx).congr rfl rfl (hov x) (ho x)

/-- A successful commit appends the session's work to the serial run. -/
theorem inv_commit_ok (hi : Inv g₀ h t) {id : String} {stop : Option ℕ} {s : TxSession}
    (hg : t.sessions[id]? = some s) (hv : s.baseVersion = t.graphVersion) {v : UInt64}
    (hvn : v.toNat = t.graphVersion.toNat + 1) {storage : Files} :
    Inv g₀ (h ++ [((.commit id stop, .ok) : Event)]) { t with
      storage, sessions := t.sessions.erase id, baseGraph := s.graph, graphVersion := v } := by
  have hid : id ∈ t.sessions :=
    ExtTreeMap.mem_iff_isSome_getElem?.mpr (by rw [hg]; rfl)
  have hb : begins (h ++ [((.commit id stop, .ok) : Event)]) = begins h :=
    (begins_snoc _).trans (List.append_nil _)
  have hc : commits (h ++ [((.commit id stop, .ok) : Event)]) = commits h ++ [id] := commits_snoc _
  have ho (x : String) : opsOf x (h ++ [((.commit id stop, .ok) : Event)]) = opsOf x h :=
    (opsOf_snoc x _).trans (List.append_nil _)
  refine ⟨?_, by rw [hb]; exact hi.issued, fun x => ?_, fun x hne => ?_, fun x hx => ?_,
    fun x s' hx => ?_⟩
  · have hserial : serial g₀ (h ++ [((.commit id stop, .ok) : Event)]) =
        runOps (serial g₀ h) (opsOf id h) := by
      simp only [serial, hc, ho, List.foldl_append, List.foldl_cons, List.foldl_nil]
    rw [hserial, ← hi.base]
    exact (hi.session id s hg).graph hv
  · rw [ExtTreeMap.mem_erase, hi.known, Known, Known, since_snoc]
    simp [Began, Ends, and_comm]
  · rw [hb]
    exact hi.worked x (by rwa [ho] at hne)
  · rw [hc, List.mem_append, List.mem_singleton] at hx
    rcases hx with hx | rfl
    · obtain ⟨hm, hout⟩ := hi.ended x hx
      exact ⟨by rwa [hb], fun hin => hout (ExtTreeMap.mem_of_mem_erase hin)⟩
    · exact ⟨by rw [hb]; exact ((hi.known x).mp hid).mem_begins, by simp [ExtTreeMap.mem_erase]⟩
  · rw [ExtTreeMap.getElem?_erase] at hx
    split at hx
    · cases hx
    · have hok := hi.session x s' hx
      have hin : x ∈ t.sessions :=
        ExtTreeMap.mem_iff_isSome_getElem?.mpr (by rw [hx]; rfl)
      -- the version moved past every open session
      have hne : s'.baseVersion ≠ v := fun he => by
        have := hok.le
        rw [he] at this
        omega
      have hover : Overtaken x (h ++ [((.commit id stop, .ok) : Event)]) :=
        overtaken_snoc.mpr (.inr ⟨((hi.known x).mp hin).mem_begins, trivial⟩)
      exact ⟨by have := hok.le; simp only; omega, by simp [hne, hover],
        fun he => absurd he hne⟩

theorem inv_step {c : Call} {r : Reply} (hi : Inv g₀ h t) (hs : step t c = some (t', r)) :
    Inv g₀ (h ++ [(c, r)]) t' := by
  cases c with
  | «begin» => exact inv_begin hi hs
  | graphMut id op =>
    obtain ⟨rfl, rfl⟩ := Prod.mk.inj (Option.some.inj hs)
    exact inv_graphMut hi id op
  | commit id stop =>
    rcases commit_cases hs with ⟨hg, rfl, rfl⟩ | ⟨s, hg, hcase⟩
    · have := inv_drop hi id (.commit id stop, .error (unknownTransaction id))
        (fun _ => Iff.rfl) (fun hc => hc) t'.storage
      rwa [erase_of_getElem?_eq_none hg] at this
    · rcases hcase with ⟨_, rfl, rfl⟩ | ⟨_, k, rfl, rfl, rfl⟩ | ⟨hv, rfl, v, hvn, rfl, rfl⟩
      · exact inv_drop hi id (.commit id stop, .error _) (fun _ => Iff.rfl) (fun hc => hc) _
      · exact inv_drop hi id (.commit id (some k), .error _) (fun _ => Iff.rfl) (fun hc => hc) _
      · exact inv_commit_ok hi hg hv hvn
  | rollback id =>
    rcases rollback_cases t id with ⟨hg, he⟩ | ⟨_, he⟩
    · rw [step, he] at hs
      obtain ⟨rfl, rfl⟩ := Prod.mk.inj (Option.some.inj hs)
      have := inv_drop hi id (.rollback id, .error (unknownTransaction id))
        (fun _ => Iff.rfl) (fun hc => hc) t.storage
      rwa [erase_of_getElem?_eq_none hg] at this
    · rw [step, he] at hs
      obtain ⟨rfl, rfl⟩ := Prod.mk.inj (Option.some.inj hs)
      exact inv_drop hi id (.rollback id, .ok) (fun _ => Iff.rfl) (fun hc => hc) t.storage

theorem inv_run {t₀ : TransactionManager} (hs : t₀.sessions = ∅) (hq : t₀.txSeq = 0)
    (run : Trace step t₀ h t) : Inv t₀.baseGraph h t :=
  run.invariant (inv_start t₀ hs hq) fun _ _ _ _ _ hi hs => inv_step hi hs

/-! ### Serializability -/

variable (json : LegacyJson)

/-- Without a failed write, the snapshot file holds the base graph. -/
def Loads (h : List Event) (t : TransactionManager) : Prop :=
  InMemoryGraphStore.codec.Fits t.baseGraph → (∀ e ∈ h, ¬ WriteFailed e) →
    loadGraph json t.storage = .ok (t.baseGraph, t.storage)

theorem loads_start {storage : Files} {t₀ : TransactionManager} (hn : new json storage = .ok t₀) :
    Loads json [] t₀ ∧ t₀.sessions = ∅ ∧ t₀.txSeq = 0 := by
  rcases hl : loadOrInit json storage with e | ⟨g, f⟩
  · simp [new, hl, bind, Except.bind] at hn
  · simp only [new, hl, bind, Except.bind, pure, Except.pure, Except.ok.injEq] at hn
    subst hn
    exact ⟨fun _ _ => loadOrInit_stable json hl, rfl, rfl⟩

theorem loads_step {c : Call} {r : Reply} (hl : Loads json h t) (hs : step t c = some (t', r)) :
    Loads json (h ++ [(c, r)]) t' := by
  intro hfit hw
  have hw' : ∀ e ∈ h, ¬ WriteFailed e := fun e he => hw e (by simp [he])
  cases c with
  | «begin» =>
    obtain ⟨n, -, rfl, rfl⟩ := begin_cases hs
    exact hl hfit hw'
  | graphMut id op =>
    rcases graphMut_cases t id op with ⟨_, he⟩ | ⟨s, _, he⟩ <;> rw [step, he] at hs <;>
      obtain ⟨rfl, rfl⟩ := Prod.mk.inj (Option.some.inj hs) <;> exact hl hfit hw'
  | commit id stop =>
    rcases commit_cases hs with ⟨_, rfl, rfl⟩ | ⟨s, _, hcase⟩
    · exact hl hfit hw'
    · rcases hcase with ⟨_, rfl, rfl⟩ | ⟨_, k, rfl, rfl, rfl⟩ | ⟨_, rfl, v, _, rfl, rfl⟩
      · exact hl hfit hw'
      · exact absurd rfl (hw (.commit id (some k), .error (stopError id s.graph k)) (by simp))
      · exact loadGraph_encoded json hfit (by simp)
  | rollback id =>
    rcases rollback_cases t id with ⟨_, he⟩ | ⟨_, he⟩ <;> rw [step, he] at hs <;>
      obtain ⟨rfl, rfl⟩ := Prod.mk.inj (Option.some.inj hs) <;> exact hl hfit hw'

/-- Nothing but the session `id` is touched, and `id` is gone. -/
def OnlyDrops (id : String) (t t' : TransactionManager) : Prop :=
  t'.baseGraph = t.baseGraph ∧ t'.graphVersion = t.graphVersion ∧
    (∀ x, x ≠ id → t'.sessions[x]? = t.sessions[x]?) ∧ id ∉ t'.sessions

theorem onlyDrops_erase (id : String) (storage : Files) :
    OnlyDrops id t { t with storage, sessions := t.sessions.erase id } := by
  refine ⟨rfl, rfl, fun x hx => ?_, by simp [ExtTreeMap.mem_erase]⟩
  rw [ExtTreeMap.getElem?_erase, if_neg]
  exact fun hk => hx (LawfulEqOrd.eq_of_compare hk).symm

theorem onlyDrops_self {id : String} (hg : t.sessions[id]? = none) : OnlyDrops id t t :=
  ⟨rfl, rfl, fun _ _ => rfl, fun hin => by
    have := ExtTreeMap.mem_iff_isSome_getElem?.mp hin
    simp [hg] at this⟩

/-- A commit answers with a conflict exactly when the id is unknown or was overtaken. -/
theorem conflict_iff (hi : Inv g₀ h t) {id : String} {stop : Option ℕ} {r : Reply}
    (hs : step t (.commit id stop) = some (t', r)) :
    (∃ e, r = .error e ∧ e.code = .retryableConflict) ↔ ¬ Known id h ∨ Overtaken id h := by
  rcases commit_cases hs with ⟨hg, rfl, rfl⟩ | ⟨s, hg, hcase⟩
  · have hk : ¬ Known id h := fun hk => by
      have := ExtTreeMap.mem_iff_isSome_getElem?.mp ((hi.known id).mpr hk)
      simp [hg] at this
    exact ⟨fun _ => .inl hk, fun _ => ⟨_, rfl, rfl⟩⟩
  · have hk : Known id h :=
      (hi.known id).mp (ExtTreeMap.mem_iff_isSome_getElem?.mpr (by rw [hg]; rfl))
    have hcur := (hi.session id s hg).current
    rcases hcase with ⟨hv, rfl, rfl⟩ | ⟨hv, k, rfl, rfl, rfl⟩ | ⟨hv, rfl, v, _, rfl, rfl⟩
    · have ho : Overtaken id h := by
        by_contra hno
        exact hv (hcur.mpr hno)
      exact ⟨fun _ => .inr ho, fun _ => ⟨_, rfl, rfl⟩⟩
    · have hno := hcur.mp hv
      simp [hk, hno, stopError, incompatible]
    · have hno := hcur.mp hv
      simp [hk, hno]

theorem commit_error {id : String} {stop : Option ℕ} {e : GraphDbError}
    (hs : step t (.commit id stop) = some (t', .error e)) : OnlyDrops id t t' := by
  rcases commit_cases hs with ⟨hg, rfl, -⟩ | ⟨s, hg, hcase⟩
  · exact onlyDrops_self hg
  · rcases hcase with ⟨_, rfl, -⟩ | ⟨_, k, rfl, rfl, -⟩ | ⟨_, rfl, v, _, rfl, hr⟩
    · exact onlyDrops_erase id _
    · exact onlyDrops_erase id _
    · cases hr

theorem rollback_drops {id : String} {r : Reply} (hs : step t (.rollback id) = some (t', r)) :
    OnlyDrops id t t' := by
  rcases rollback_cases t id with ⟨hg, he⟩ | ⟨_, he⟩ <;> rw [step, he] at hs <;>
    obtain ⟨rfl, -⟩ := Prod.mk.inj (Option.some.inj hs)
  · exact onlyDrops_self hg
  · exact onlyDrops_erase id _

/-- Between the begin and the successful commit of a session no other session commits, so it
    started from the graph its predecessor left. -/
theorem starts_from_predecessor {t₀ : TransactionManager} (hs : t₀.sessions = ∅)
    (hq : t₀.txSeq = 0) (run : Trace step t₀ h t) {h₁ h₂ h₃ : List Event} {id : String}
    {stop : Option ℕ}
    (he : h = h₁ ++ (.begin, .began id) :: (h₂ ++ (.commit id stop, .ok) :: h₃)) :
    commits h₂ = [] ∧ ∃ t₁ t₂, Trace step t₀ h₁ t₁ ∧ step t₁ .begin = some (t₂, .began id) ∧
      ∃ s, t₂.sessions[id]? = some s ∧ s.graph = serial t₀.baseGraph h₁ := by
  refine ⟨?_, ?_⟩
  · obtain ⟨t₃, t₄, run₃, hc⟩ := run.split
      (show h = (h₁ ++ (.begin, .began id) :: h₂) ++ (.commit id stop, .ok) :: h₃ by simp [he])
    have hno := (conflict_iff (inv_run hs hq run₃) hc).not.mp (by rintro ⟨e, hr, -⟩; cases hr)
    rw [not_or] at hno
    by_contra hne
    obtain ⟨x, hx⟩ := List.exists_mem_of_ne_nil _ hne
    obtain ⟨⟨c, r⟩, hmem, hm⟩ := List.mem_filterMap.mp hx
    refine hno.2 ⟨h₁, _, h₂, rfl, rfl, (c, r), hmem, ?_⟩
    cases c <;> cases r <;> simp at hm
    trivial
  · obtain ⟨t₁, t₂, run₁, hb⟩ := run.split he
    refine ⟨t₁, t₂, run₁, hb, ?_⟩
    obtain ⟨n, -, hr, rfl⟩ := begin_cases hb
    have hid : id = txIdOf (t₁.txSeq.toNat + 1) := Reply.began.inj hr
    exact ⟨⟨t₁.baseGraph, t₁.graphVersion⟩, by simp [hid], (inv_run hs hq run₁).base⟩

/-- After every run, from the calls of any number of sessions in any order, the base graph is the
    serial result of the committed sessions, conflicts are answered exactly where they exist, what
    fails leaves no trace, ids are new, and the snapshot file holds the base graph as long as no
    write failed. -/
theorem serializable {storage : Files} {t₀ : TransactionManager}
    (hn : new json storage = .ok t₀) (run : Trace step t₀ h t) :
    t.baseGraph = serial t₀.baseGraph h ∧
    (∀ h₁ h₂ h₃ id stop,
      h = h₁ ++ (.begin, .began id) :: (h₂ ++ (.commit id stop, .ok) :: h₃) →
      commits h₂ = [] ∧ ∃ t₁ t₂, Trace step t₀ h₁ t₁ ∧ step t₁ .begin = some (t₂, .began id) ∧
        ∃ s, t₂.sessions[id]? = some s ∧ s.graph = serial t₀.baseGraph h₁) ∧
    (∀ id stop t' r, step t (.commit id stop) = some (t', r) →
      ((∃ e, r = .error e ∧ e.code = .retryableConflict) ↔
        ¬ Known id h ∨ Overtaken id h)) ∧
    (∀ id stop t' e, step t (.commit id stop) = some (t', .error e) → OnlyDrops id t t') ∧
    (∀ id t' r, step t (.rollback id) = some (t', r) → OnlyDrops id t t') ∧
    (∀ id, id ∈ t.sessions ↔ Known id h) ∧
    (begins h).Nodup ∧
    (InMemoryGraphStore.codec.Fits t.baseGraph → (∀ e ∈ h, ¬ WriteFailed e) →
      loadGraph json t.storage = .ok (t.baseGraph, t.storage)) := by
  obtain ⟨hload, hs, hq⟩ := loads_start json hn
  have hi := inv_run hs hq run
  refine ⟨hi.base, fun _ _ _ _ _ he => starts_from_predecessor hs hq run he,
    fun _ _ _ _ hc => conflict_iff hi hc, fun _ _ _ _ hc => commit_error hc,
    fun _ _ _ hc => rollback_drops hc, hi.known, hi.nodup, ?_⟩
  exact run.invariant hload fun _ _ _ _ _ hl hs => loads_step json hl hs

/-- Two sessions on an empty store, of which the first has committed. -/
def twoSessions : List Event :=
  [(.begin, .began "tx-1"), (.begin, .began "tx-2"), (.commit "tx-1" none, .ok)]

theorem serializable_two_sessions : ∃ t, Trace step .empty twoSessions t ∧
    ∀ t' r, step t (.commit "tx-2" none) = some (t', r) →
      ((∃ e, r = .error e ∧ e.code = .retryableConflict) ↔
        ¬ Known "tx-2" twoSessions ∨ Overtaken "tx-2" twoSessions) := by
  have run : Trace step .empty twoSessions _ :=
    .snoc (.snoc (.snoc .nil rfl) rfl) rfl
  exact ⟨_, run, fun t' r =>
    (serializable LegacyJson.rejecting (new_empty _) run).2.2.1 "tx-2" none t' r⟩

end AiraGraphdb.Library.Serializable
