import AiraGraphdb.Native.Concrete

/-! # Deleting by document

Three handlers delete what belongs to a document of a corpus, each from the maps it is responsible
for. They read an absent document as the empty one, on the request and on a stored vector alike: a
vector that names no document goes when no document is given. -/

namespace AiraGraphdb.Native.DocumentDeletes

open Schemes Schemes.Json

/-- The handlers. -/
inductive Handler
  | deleteByDocument
  | vectorDeleteByDocument
  | lexicalDeleteByDocument
  deriving DecidableEq

namespace Handler

def method : Handler → String
  | deleteByDocument => "delete_by_document"
  | vectorDeleteByDocument => "vector_delete_by_document"
  | lexicalDeleteByDocument => "lexical_delete_by_document"

def run : Handler → Memory → Value → Memory
  | deleteByDocument => Native.deleteByDocument
  | vectorDeleteByDocument => Native.vectorDeleteByDocument
  | lexicalDeleteByDocument => Native.lexicalDeleteByDocument

/-- Nodes, and edges with them, are left to one handler. -/
def handlesNodes (h : Handler) : Prop := h = deleteByDocument

def handlesVectors (h : Handler) : Prop := h ≠ lexicalDeleteByDocument

def handlesPassages (h : Handler) : Prop := h ≠ vectorDeleteByDocument

end Handler

/-! ### What a delete removes -/

/-- The memory without the nodes, vectors and passages of a kind, the edges of the nodes and the
values of the vectors, and nothing else. -/
structure Removes (node : GraphNode → Prop) (vector : VectorRecord → Prop) (passage : Passage → Prop)
    (before after : Memory) : Prop where
  nodes : ∀ (k : String) n, after.state.nodes[k]? = some n ↔ before.state.nodes[k]? = some n ∧ ¬ node n
  edges : ∀ (k : String) e, after.state.edges[k]? = some e ↔ before.state.edges[k]? = some e
    ∧ ¬ ∃ (k' : String) (n : GraphNode), before.state.nodes[k']? = some n ∧ node n ∧ e.corpusId = n.corpusId
      ∧ (e.sourceNodeId = n.nodeId ∨ e.targetNodeId = n.nodeId)
  vectors : ∀ (k : String) v, after.state.vectors[k]? = some v ↔ before.state.vectors[k]? = some v ∧ ¬ vector v
  valuesRemoved : ∀ (k : String) v, before.state.vectors[k]? = some v → vector v →
    after.vectorValues[k]? = none
  valuesKept : ∀ k : String, (∀ v, before.state.vectors[k]? = some v → ¬ vector v) →
    after.vectorValues[k]? = before.vectorValues[k]?
  passages : ∀ (k : String) p, after.state.passages[k]? = some p ↔
    before.state.passages[k]? = some p ∧ ¬ passage p
  rest : after.state = { before.state with
    nodes := after.state.nodes
    edges := after.state.edges
    vectors := after.state.vectors
    passages := after.state.passages }

variable {node node' : GraphNode → Prop} {vector vector' : VectorRecord → Prop}
  {passage passage' : Passage → Prop} {before after : Memory}

/-- Kinds that agree on what is stored are removed alike. -/
theorem Removes.congr (h : Removes node vector passage before after)
    (hn : ∀ (k : String) n, before.state.nodes[k]? = some n → (node n ↔ node' n))
    (hv : ∀ (k : String) v, before.state.vectors[k]? = some v → (vector v ↔ vector' v))
    (hp : ∀ (k : String) p, before.state.passages[k]? = some p → (passage p ↔ passage' p)) :
    Removes node' vector' passage' before after where
  nodes k n := (h.nodes k n).trans (and_congr_right fun hk => not_congr (hn k n hk))
  edges k e := by
    refine (h.edges k e).trans (and_congr_right fun _ => not_congr ?_)
    refine exists_congr fun k' => exists_congr fun n => and_congr_right fun hk => ?_
    rw [hn k' n hk]
  vectors k v := (h.vectors k v).trans (and_congr_right fun hk => not_congr (hv k v hk))
  valuesRemoved k v hk hkind := h.valuesRemoved k v hk ((hv k v hk).mpr hkind)
  valuesKept k hk := h.valuesKept k fun v hv' hkind => hk v hv' ((hv k v hv').mp hkind)
  passages k p := (h.passages k p).trans (and_congr_right fun hk => not_congr (hp k p hk))
  rest := h.rest

/-- What is removed tells the kinds of what was stored. -/
theorem Removes.agree (h : Removes node vector passage before after)
    (h' : Removes node' vector' passage' before after) :
    (∀ (k : String) n, before.state.nodes[k]? = some n → (node n ↔ node' n))
      ∧ (∀ (k : String) v, before.state.vectors[k]? = some v → (vector v ↔ vector' v))
      ∧ ∀ (k : String) p, before.state.passages[k]? = some p → (passage p ↔ passage' p) := by
  refine ⟨?_, ?_, ?_⟩
  · intro k n hk
    have := (h.nodes k n).symm.trans (h'.nodes k n)
    rw [and_iff_right hk, and_iff_right hk] at this
    exact not_iff_not.mp this
  · intro k v hk
    have := (h.vectors k v).symm.trans (h'.vectors k v)
    rw [and_iff_right hk, and_iff_right hk] at this
    exact not_iff_not.mp this
  · intro k p hk
    have := (h.passages k p).symm.trans (h'.passages k p)
    rw [and_iff_right hk, and_iff_right hk] at this
    exact not_iff_not.mp this

theorem removeVectors_values {mem : Memory} {remove : VectorRecord → Bool} (k : String) :
    (∀ v, mem.state.vectors[k]? = some v → remove v = true →
        (removeVectors mem remove).vectorValues[k]? = none)
      ∧ ((∀ v, mem.state.vectors[k]? = some v → ¬ remove v = true) →
        (removeVectors mem remove).vectorValues[k]? = mem.vectorValues[k]?) := by
  have hkeys : k ∈ (mem.state.vectors.filter fun _ v => remove v).keys ↔
      ∃ v, mem.state.vectors[k]? = some v ∧ remove v = true := by
    rw [Std.ExtTreeMap.mem_keys, Map.mem_iff]
    exact exists_congr fun v => Map.filter_eq_some
  rw [removeVectors, Map.getElem?_foldl_erase]
  refine ⟨fun v hv hkind => if_pos (hkeys.mpr ⟨v, hv, hkind⟩), fun hnone => if_neg fun hk => ?_⟩
  obtain ⟨v, hv, hkind⟩ := hkeys.mp hk
  exact hnone v hv hkind

/-! ### What the handlers remove -/

section Handlers

variable (h : Handler) (params : Value)

def removesNode (n : GraphNode) : Prop :=
  h.handlesNodes ∧ n.corpusId = paramStr params "corpusId"
    ∧ paramStr params "documentId" ∈ docIdsFromRef n.ref

def removesVector (v : VectorRecord) : Prop :=
  h.handlesVectors ∧ v.corpusId = paramStr params "corpusId"
    ∧ vectorDocument v = paramStr params "documentId"

def removesPassage (p : Passage) : Prop :=
  h.handlesPassages ∧ p.corpusId = paramStr params "corpusId"
    ∧ p.documentId = paramStr params "documentId"

theorem removesNode_iff (n : GraphNode) : removesNode .deleteByDocument params n ↔
    (n.corpusId == paramStr params "corpusId"
      && (docIdsFromRef n.ref).any (· == paramStr params "documentId")) = true := by
  simp [removesNode, Handler.handlesNodes]

/-- The ids of the nodes that go. -/
def removedIds (mem : Memory) : List String :=
  ((mem.state.nodes.filter fun _ n => n.corpusId == paramStr params "corpusId"
    && (docIdsFromRef n.ref).any (· == paramStr params "documentId")).toList).map (·.2.nodeId)

theorem mem_removedIds (mem : Memory) {id : String} : id ∈ removedIds params mem ↔
    ∃ (k : String) (n : GraphNode), mem.state.nodes[k]? = some n
      ∧ removesNode .deleteByDocument params n ∧ n.nodeId = id := by
  rw [removedIds, List.mem_map]
  constructor
  · rintro ⟨⟨k, n⟩, hmem, rfl⟩
    rw [Map.mem_toList, Map.filter_eq_some] at hmem
    exact ⟨k, n, hmem.1, (removesNode_iff params n).mpr hmem.2, rfl⟩
  · rintro ⟨k, n, hk, hn, rfl⟩
    refine ⟨(k, n), ?_, rfl⟩
    rw [Map.mem_toList, Map.filter_eq_some]
    exact ⟨hk, (removesNode_iff params n).mp hn⟩

theorem removeVectors_removes (mem : Memory) {remove : VectorRecord → Bool}
    (hremove : ∀ v, remove v = true ↔ vector v) :
    Removes (fun _ => False) vector (fun _ => False) mem (removeVectors mem remove) where
  nodes k n := by simp [removeVectors]
  edges k e := by simp [removeVectors]
  vectors k v := by simp [removeVectors, ← hremove]
  valuesRemoved k v hk hkind := (removeVectors_values k).1 v hk ((hremove v).mpr hkind)
  valuesKept k hk := (removeVectors_values k).2 fun v hv hkind => hk v hv ((hremove v).mp hkind)
  passages k p := by simp [removeVectors]
  rest := rfl

theorem run_removes (mem : Memory) :
    Removes (removesNode h params) (removesVector h params) (removesPassage h params) mem
      (h.run mem params) := by
  have hvector : ∀ v : VectorRecord, (v.corpusId == paramStr params "corpusId"
      && vectorDocument v == paramStr params "documentId") = true
      ↔ v.corpusId = paramStr params "corpusId" ∧ vectorDocument v = paramStr params "documentId" := by
    intro v
    rw [Bool.and_eq_true, beq_iff_eq, beq_iff_eq]
  cases h with
  | deleteByDocument =>
    have hvectors := removeVectors_removes mem hvector
    refine ⟨?_, ?_, ?_, ?_, ?_, ?_, rfl⟩
    · intro k n
      rw [removesNode_iff]
      refine Map.filter_eq_some.trans ?_
      rw [Bool.not_eq_true, Bool.not_eq_true']
    · intro k e
      refine Map.filter_eq_some.trans (and_congr_right fun _ => ?_)
      rw [Bool.not_eq_true', Bool.eq_false_iff]
      refine not_congr ?_
      rw [Bool.and_eq_true, Bool.or_eq_true, List.contains_iff_mem, List.contains_iff_mem,
        beq_iff_eq]
      constructor
      · rintro ⟨hc, hend⟩
        obtain ⟨id, hid, hends⟩ : ∃ id, id ∈ removedIds params mem
            ∧ (e.sourceNodeId = id ∨ e.targetNodeId = id) := by
          rcases hend with hend | hend
          · exact ⟨_, hend, .inl rfl⟩
          · exact ⟨_, hend, .inr rfl⟩
        obtain ⟨k', n, hk', hn, rfl⟩ := (mem_removedIds params mem).mp hid
        exact ⟨k', n, hk', hn, hc.trans hn.2.1.symm, hends⟩
      · rintro ⟨k', n, hk', hn, hc, hends⟩
        have hmem := (mem_removedIds params mem).mpr ⟨k', n, hk', hn, rfl⟩
        refine ⟨hc.trans hn.2.1, ?_⟩
        rcases hends with hend | hend
        · exact .inl (hend ▸ hmem)
        · exact .inr (hend ▸ hmem)
    · intro k v
      refine (hvectors.vectors k v).trans ?_
      simp [removesVector, Handler.handlesVectors]
    · intro k v hk hkind
      exact hvectors.valuesRemoved k v hk hkind.2
    · intro k hk
      exact hvectors.valuesKept k fun v hv hkind => hk v hv ⟨by simp [Handler.handlesVectors], hkind⟩
    · intro k p
      have hpassages : (Native.deleteByDocument mem params).state.passages
          = mem.state.passages.filter fun _ p => !(p.corpusId == paramStr params "corpusId"
            && p.documentId == paramStr params "documentId") := rfl
      rw [Handler.run, hpassages, Map.filter_eq_some]
      simp [removesPassage, Handler.handlesPassages, imp_iff_not_or]
  | vectorDeleteByDocument =>
    have hremoves := removeVectors_removes mem hvector
    refine hremoves.congr ?_ ?_ ?_
    · intro k n _
      simp [removesNode, Handler.handlesNodes]
    · intro k v _
      simp [removesVector, Handler.handlesVectors]
    · intro k p _
      simp [removesPassage, Handler.handlesPassages]
  | lexicalDeleteByDocument =>
    refine ⟨?_, ?_, ?_, ?_, ?_, ?_, rfl⟩
    · simp [Handler.run, lexicalDeleteByDocument, removesNode, Handler.handlesNodes]
    · simp [Handler.run, lexicalDeleteByDocument, removesNode, Handler.handlesNodes]
    · simp [Handler.run, lexicalDeleteByDocument, removesVector, Handler.handlesVectors]
    · simp [removesVector, Handler.handlesVectors]
    · exact fun _ _ => rfl
    · intro k p
      rw [Handler.run, lexicalDeleteByDocument, Map.filter_eq_some]
      simp [removesPassage, Handler.handlesPassages, imp_iff_not_or]

end Handlers

/-! ### What belongs to the document -/

/-- The document of a request, when it gives one. -/
def givenDocument (params : Value) : Option String := (params.get "documentId").bind Value.asStr

/-- The document that a vector names. -/
def documentOf (v : VectorRecord) : Option String := (v.metadata.get "documentId").bind Value.asStr

section Exact

variable (h : Handler) (params : Value)

def namesNode (n : GraphNode) : Prop :=
  h.handlesNodes ∧ n.corpusId = paramStr params "corpusId"
    ∧ ∃ d ∈ docIdsFromRef n.ref, givenDocument params = some d

def namesVector (v : VectorRecord) : Prop :=
  h.handlesVectors ∧ v.corpusId = paramStr params "corpusId"
    ∧ ∃ d, documentOf v = some d ∧ givenDocument params = some d

def namesPassage (p : Passage) : Prop :=
  h.handlesPassages ∧ p.corpusId = paramStr params "corpusId"
    ∧ givenDocument params = some p.documentId

/-- What names the given document is removed, and nothing else. -/
def Exact (before after : Memory) : Prop :=
  Removes (namesNode h params) (namesVector h params) (namesPassage h params) before after

/-- No default decides: a document is given that is not empty, or it is empty and every vector of
the corpus names one; where none is given, nothing of the corpus goes by the empty one. -/
def NoDefaultDecides (mem : Memory) : Prop :=
  match givenDocument params with
  | some d => d ≠ "" ∨ (h.handlesVectors → ∀ (k : String) v, mem.state.vectors[k]? = some v →
      v.corpusId = paramStr params "corpusId" → documentOf v ≠ none)
  | none =>
    (h.handlesNodes → ∀ (k : String) n, mem.state.nodes[k]? = some n →
      n.corpusId = paramStr params "corpusId" → "" ∉ docIdsFromRef n.ref)
    ∧ (h.handlesVectors → ∀ (k : String) v, mem.state.vectors[k]? = some v →
      v.corpusId = paramStr params "corpusId" → documentOf v ≠ none ∧ documentOf v ≠ some "")
    ∧ (h.handlesPassages → ∀ (k : String) p, mem.state.passages[k]? = some p →
      p.corpusId = paramStr params "corpusId" → p.documentId ≠ "")

theorem exact_iff_agree (mem : Memory) : Exact h params mem (h.run mem params) ↔
    (∀ (k : String) n, mem.state.nodes[k]? = some n →
        (removesNode h params n ↔ namesNode h params n))
      ∧ (∀ (k : String) v, mem.state.vectors[k]? = some v →
        (removesVector h params v ↔ namesVector h params v))
      ∧ ∀ (k : String) p, mem.state.passages[k]? = some p →
        (removesPassage h params p ↔ namesPassage h params p) :=
  ⟨fun hexact => (run_removes h params mem).agree hexact,
    fun ⟨hn, hv, hp⟩ => (run_removes h params mem).congr hn hv hp⟩

/-- A document that is not empty is matched by nothing but its name. -/
theorem removes_iff_names {d : String} (hgiven : givenDocument params = some d) :
    (∀ n, removesNode h params n ↔ namesNode h params n)
      ∧ (∀ v, (documentOf v = none → d ≠ "") → (removesVector h params v ↔ namesVector h params v))
      ∧ ∀ p, removesPassage h params p ↔ namesPassage h params p := by
  have hparam : paramStr params "documentId" = d := by
    rw [← Option.getD_some (a := d) (b := ""), ← hgiven]
    rfl
  refine ⟨?_, ?_, ?_⟩
  · intro n
    simp [removesNode, namesNode, hparam, hgiven]
  · intro v hd
    have hvector : vectorDocument v = (documentOf v).getD "" := rfl
    rw [removesVector, namesVector, hparam, hgiven, hvector]
    refine and_congr_right fun _ => and_congr_right fun _ => ?_
    rcases hdoc : documentOf v with _ | d'
    · simp [(hd hdoc).symm]
    · simp [eq_comm]
  · intro p
    simp [removesPassage, namesPassage, hparam, hgiven, eq_comm]

theorem not_names (hgiven : givenDocument params = none) :
    (∀ n, ¬ namesNode h params n) ∧ (∀ v, ¬ namesVector h params v)
      ∧ ∀ p, ¬ namesPassage h params p := by
  simp [namesNode, namesVector, namesPassage, hgiven]

theorem exact_iff (mem : Memory) :
    Exact h params mem (h.run mem params) ↔ NoDefaultDecides h params mem := by
  rw [exact_iff_agree, NoDefaultDecides]
  rcases hgiven : givenDocument params with _ | d
  · obtain ⟨hnode, hvector, hpassage⟩ := not_names h params hgiven
    have hparam : paramStr params "documentId" = "" := by
      rw [paramStr, ← givenDocument, hgiven]
      rfl
    have hempty : ∀ v, vectorDocument v = "" ↔ ¬ (documentOf v ≠ none ∧ documentOf v ≠ some "") := by
      intro v
      rw [show vectorDocument v = (documentOf v).getD "" from rfl]
      rcases documentOf v with _ | d
      · simp
      · simp
    simp only [hnode, hvector, hpassage, iff_false, removesNode, removesVector, removesPassage,
      hparam, hempty]
    refine and_congr ?_ (and_congr ?_ ?_)
    · exact ⟨fun hn hh k n hk hc hmem => hn k n hk ⟨hh, hc, hmem⟩,
        fun hn k n hk ⟨hh, hc, hmem⟩ => hn hh k n hk hc hmem⟩
    · exact ⟨fun hv hh k v hk hc => not_not.mp fun hdoc => hv k v hk ⟨hh, hc, hdoc⟩,
        fun hv k v hk ⟨hh, hc, hdoc⟩ => hdoc (hv hh k v hk hc)⟩
    · exact ⟨fun hp hh k p hk hc hdoc => hp k p hk ⟨hh, hc, hdoc⟩,
        fun hp k p hk ⟨hh, hc, hdoc⟩ => hp hh k p hk hc hdoc⟩
  · obtain ⟨hnode, hvector, hpassage⟩ := removes_iff_names h params hgiven
    dsimp only
    constructor
    · rintro ⟨-, hv, -⟩
      refine or_iff_not_imp_left.mpr fun hd hh k v hk hc hdoc => ?_
      obtain rfl : d = "" := not_not.mp hd
      have hremoved : removesVector h params v := by
        refine ⟨hh, hc, ?_⟩
        rw [paramStr, ← givenDocument, hgiven, vectorDocument, ← documentOf, hdoc]
        rfl
      obtain ⟨-, -, d, hd, -⟩ := (hv k v hk).mp hremoved
      rw [hdoc] at hd
      cases hd
    · intro hsafe
      refine ⟨fun k n _ => hnode n, fun k v hk => ?_, fun k p _ => hpassage p⟩
      by_cases hin : h.handlesVectors ∧ v.corpusId = paramStr params "corpusId"
      · refine hvector v fun hdoc => ?_
        rcases hsafe with hd | hall
        · exact hd
        · exact absurd hdoc (hall hin.1 k v hk hin.2)
      · exact ⟨fun hr => absurd ⟨hr.1, hr.2.1⟩ hin, fun hn => absurd ⟨hn.1, hn.2.1⟩ hin⟩

end Exact

/-! ### Requests -/

section Deletes

variable [Externals]

/-- A delete by document removes exactly what names its document when and only when no default
decides. -/
theorem deletes_exactly_iff (h : Handler) (id : UInt64) (params : Value) (mem : Memory) :
    ∃ applied, applyMutation mem ⟨id, h.method, params⟩ = .ok applied
      ∧ (Exact h params mem applied.memory ↔ NoDefaultDecides h params mem) := by
  have hrun : ∃ applied, applyMutation mem ⟨id, h.method, params⟩ = .ok applied
      ∧ applied.memory = h.run mem params := by
    cases h with
    | deleteByDocument => exact ⟨_, rfl, rfl⟩
    | vectorDeleteByDocument => exact ⟨_, rfl, rfl⟩
    | lexicalDeleteByDocument => exact ⟨_, rfl, rfl⟩
  obtain ⟨applied, happly, hmemory⟩ := hrun
  exact ⟨applied, happly, hmemory ▸ exact_iff h params mem⟩

/-- A vector of the corpus without a document. -/
def unnamedVector : VectorRecord := ⟨"v", "c", "", [], none, .obj []⟩

def unnamedMemory : Memory :=
  ⟨{ State.default with vectors := (∅ : Map VectorRecord).insert "c:v" unnamedVector }, ∅⟩

def emptyDocument : Value := .obj [("corpusId", .str "c"), ("documentId", .str "")]

theorem emptyDocument_admitted :
    validateMutationParams unnamedMemory ⟨1, "vector_delete_by_document", emptyDocument⟩ = .ok ()
      ∧ ∃ applied,
        applyMutation unnamedMemory ⟨1, "vector_delete_by_document", emptyDocument⟩ = .ok applied
          ∧ applied.memory = Handler.vectorDeleteByDocument.run unnamedMemory emptyDocument :=
  ⟨rfl, _, rfl, rfl⟩

end Deletes

attribute [local instance] Concrete.externals

/-- It is removed with the documents of the empty name. -/
theorem unnamed_vector_removed : ∃ applied,
    validateMutationParams unnamedMemory ⟨1, "vector_delete_by_document", emptyDocument⟩ = .ok ()
      ∧ applyMutation unnamedMemory ⟨1, "vector_delete_by_document", emptyDocument⟩ = .ok applied
      ∧ documentOf unnamedVector = none
      ∧ unnamedMemory.state.vectors["c:v"]? = some unnamedVector
      ∧ applied.memory.state.vectors["c:v"]? = none
      ∧ ¬ Exact .vectorDeleteByDocument emptyDocument unnamedMemory applied.memory := by
  have hstored : unnamedMemory.state.vectors["c:v"]? = some unnamedVector :=
    Map.getElem?_insert_self _ _ _
  have hremoves := run_removes .vectorDeleteByDocument emptyDocument unnamedMemory
  obtain ⟨hvalid, applied, happlied, hmemory⟩ := emptyDocument_admitted
  refine ⟨applied, hvalid, happlied, rfl, hstored, ?_, ?_⟩
  · rw [hmemory, Option.eq_none_iff_forall_ne_some]
    intro v hv
    obtain ⟨hk, hkept⟩ := (hremoves.vectors "c:v" v).mp hv
    obtain rfl : unnamedVector = v := Option.some_inj.mp (hstored.symm.trans hk)
    exact hkept ⟨by simp [Handler.handlesVectors], rfl, rfl⟩
  · rw [hmemory]
    intro hexact
    obtain ⟨-, -, d, hd, -⟩ := ((hremoves.agree hexact).2.1 "c:v" unnamedVector hstored).mp
      ⟨by simp [Handler.handlesVectors], rfl, rfl⟩
    cases hd

end AiraGraphdb.Native.DocumentDeletes
