import AiraGraphdb.Native.Concrete
import AiraGraphdb.Schemes.Except

/-! # The pages of a projection

The transitions of a corpus are also read page by page. A page begins where the one before it has
stopped, in an order of the edges that is computed once and kept with the key lists; it takes as
many entries as the answer has bytes left for. -/

namespace AiraGraphdb.Native

open Schemes Schemes.Json

section Projection

variable [Externals] [Runtime]

def maxIndexingResponseBytes : ℕ := 8388608

/-! ### Answers and their size -/

/-- The text of an answer. -/
def responseText (id : UInt64) (result : Value) : Bytes :=
  (Value.obj [("id", numU64 id), ("ok", .bool true), ("result", result)]).print floats

def boundedSerializedBytes (text : Bytes) (limit : ℕ) (message : String) : Result ℕ :=
  if limit < text.length then clientError message else .ok text.length

def pageValue (generation offset : UInt64) (nextOffset : Value) (total : UInt64)
    (entries : List Value) : Value :=
  .obj [("entries", .arr entries), ("generation", numU64 generation), ("nextOffset", nextOffset),
    ("offset", numU64 offset), ("totalEntries", numU64 total)]

/-- The bytes left for the entries, by an envelope with the widest next offset. -/
def projectionPageArrayLimit (requestId generation offset total : UInt64) : Result ℕ := do
  let emptyBytes ← boundedSerializedBytes
    (responseText requestId (pageValue generation offset (numU64 (UInt64.ofNat (2 ^ 64 - 1))) total []))
    maxIndexingResponseBytes "projection page envelope exceeds its byte limit"
  if emptyBytes < 2 then clientError "projection page envelope accounting failed"
  if maxIndexingResponseBytes < emptyBytes - 2 then
    clientError "projection page envelope exceeds its byte limit"
  return maxIndexingResponseBytes - (emptyBytes - 2)

/-- The bytes of an array with one more item. -/
def addBoundedIndexingResponseItem (accumulated : ℕ) (item : Value) (hasPreviousItem : Bool)
    (arrayLimit : ℕ) : Result ℕ := do
  let accumulated := accumulated + if hasPreviousItem then 1 else 0
  if 2 ^ 64 ≤ accumulated then clientError "bounded indexing response byte count overflow"
  if arrayLimit < accumulated then clientError "bounded indexing response exceeds its byte limit"
  let measured := (item.print floats).length
  if arrayLimit - accumulated < measured then
    clientError "bounded indexing response exceeds its byte limit"
  if 2 ^ 64 ≤ accumulated + measured then
    clientError "bounded indexing response byte count overflow"
  return accumulated + measured

/-! ### The order of the edges -/

/-- A server and the page orders it keeps with its key lists. -/
structure PagedServer where
  server : Server
  projectionOrderByCorpus : Map (List ℕ)

/-- What an edge is sorted by: its ends, its key, and the position of the key. -/
structure Decorated where
  source : String
  target : String
  key : String
  index : ℕ

def Decorated.rank (d : Decorated) : String ×ₗ String ×ₗ String ×ₗ ℕ :=
  toLex (d.source, toLex (d.target, toLex (d.key, d.index)))

/-- The edges under the keys, with the positions of these from `index` on. -/
def decorate (edges : Map GraphEdge) : ℕ → List String → Result (List Decorated)
  | _, [] => .ok []
  | index, key :: keys => match edges[key]? with
    | none => decorate edges (index + 1) keys
    | some edge => do
      if 2 ^ 32 ≤ index then
        clientError "projection has more edges than a page cursor addresses"
      return ⟨edge.sourceNodeId, edge.targetNodeId, key, index⟩ :: (← decorate edges (index + 1) keys)

def sortDecorated (ds : List Decorated) : List Decorated :=
  ds.mergeSort fun a b => decide (a.rank ≤ b.rank)

/-- The positions of the keys in the order of their edges. -/
def pageOrder (edges : Map GraphEdge) (keys : List String) : Result (List ℕ) :=
  (decorate edges 0 keys).map fun ds => (sortDecorated ds).map (·.index)

/-- The key lists are built when they are out of date, and the orders forgotten with the old ones. -/
def PagedServer.cached (p : PagedServer) : PagedServer where
  server := { p.server with caches := some (ensureCache p.server) }
  projectionOrderByCorpus := if p.server.caches.isNone then ∅ else p.projectionOrderByCorpus

/-- The keys of a corpus, by the key lists. -/
def edgeKeys (s : Server) (corpusId : String) : Option (List String) :=
  (ensureCache s).edgeKeysByCorpus[corpusId]?

def ensureProjectionOrder (p : PagedServer) (corpusId : String) : Result PagedServer :=
  if (p.cached.projectionOrderByCorpus[corpusId]?).isSome then .ok p.cached
  else match edgeKeys p.cached.server corpusId with
    | none => .ok p.cached
    | some keys => do
      let order ← pageOrder p.server.state.edges keys
      return { p.cached with
        projectionOrderByCorpus := p.cached.projectionOrderByCorpus.insert corpusId order }

/-! ### A page -/

/-- Entries are added while they fit; the first has to. -/
def fillPage (edges : Map GraphEdge) (keys : List String) (arrayLimit : ℕ) :
    ℕ → List Value → List ℕ → Result (List Value)
  | _, entries, [] => .ok entries
  | responseBytes, entries, index :: order => do
    let key ← expect keys[index]? "index out of bounds"
    let edge ← expect edges[key]? "page order only indexes present edges"
    match addBoundedIndexingResponseItem responseBytes (transitionValue edge) (!entries.isEmpty)
        arrayLimit with
    | .ok next => fillPage edges keys arrayLimit next (entries ++ [transitionValue edge]) order
    | .error _ =>
      if entries.isEmpty then clientError "projection entry exceeds the page byte limit"
      else return entries

def projectionPage (p : PagedServer) (requestId : UInt64) (corpusId : String)
    (generation offset : UInt64) : Result (PagedServer × Value) := do
  let p ← ensureProjectionOrder p corpusId
  let order := (p.projectionOrderByCorpus[corpusId]?).getD []
  let keys := (edgeKeys p.server corpusId).getD []
  if order.length < offset.toNat ∨ (offset.toNat = order.length ∧ 0 < order.length) then
    clientError "offset is outside the projection"
  let total := UInt64.ofNat order.length
  let arrayLimit ← projectionPageArrayLimit requestId generation offset total
  let entries ← fillPage p.server.state.edges keys arrayLimit 2 [] (order.drop offset.toNat)
  let index := offset.toNat + entries.length
  let nextOffset := if index < order.length then numU64 (UInt64.ofNat index) else .null
  return (p, pageValue generation offset nextOffset total entries)

def projectionGetTransitionsPage (p : PagedServer) (req : RpcRequest) :
    Result (PagedServer × Value) := do
  let params ← paramsObject req.params
  requireExactParams params ["corpusId", "generation", "offset"]
  let corpusId ← boundedRequiredString params "corpusId" maxIndexingCorpusIdBytes
  let offset ← match (lookupKey "offset" params).bind Value.asU64 with
    | some offset => .ok offset
    | none => clientError "offset must be a nonnegative integer"
  let pinned ← match lookupKey "generation" params with
    | some .null => .ok none
    | some value => match value.asU64 with
      | some generation => .ok (some generation)
      | none => clientError "generation must be null or a nonnegative integer"
    | none => .error (.panic "exact params include generation")
  if pinned.isNone ∧ offset ≠ 0 then clientError "generation may be null only at offset 0"
  if p.server.transaction ≠ .idle then
    clientError "projection pages require an idle committed generation"
  let committed := p.server.state.generation
  if pinned.any (· ≠ committed) then
    clientError ("projection page generation " ++ toString (pinned.getD 0).toNat ++
      " does not match committed generation " ++ toString committed.toNat)
  projectionPage p req.id corpusId committed offset

/-! ### The key lists -/

omit [Externals] [Runtime] in
theorem foldl_bucket {α : Type} (m : Map α) (f : α → String) (b : String) :
    ∀ (ks : List String) (groups : Map (List String)),
      ((ks.foldl (fun groups k => match m[k]? with
        | some v => [f v].foldl (fun groups b => groups.insert b ((groups[b]?).getD [] ++ [k])) groups
        | none => groups) groups)[b]?).getD []
      = (groups[b]?).getD [] ++ ks.filter fun k => (m[k]?).any fun v => f v == b
  | [], groups => by simp
  | k :: ks, groups => by
    rw [List.foldl_cons, foldl_bucket m f b ks, List.filter_cons]
    rcases hk : m[k]? with _ | v
    · rfl
    · simp only [List.foldl_cons, List.foldl_nil, Option.any_some]
      by_cases hv : f v = b
      · subst hv
        rw [Map.getElem?_insert_self]
        simp
      · rw [Map.getElem?_insert_ne _ hv, if_neg (by simpa using hv)]

omit [Externals] in
/-- The keys of a corpus: those of its edges, in the order of the table. -/
theorem edgeKeys_built (state : State) (corpusId : String) :
    ((buildCaches state).edgeKeysByCorpus[corpusId]?).getD []
      = (Runtime.keyOrder state.edges).filter fun k =>
        (state.edges[k]?).any fun e => e.corpusId == corpusId := by
  have h := foldl_bucket state.edges (·.corpusId) corpusId (Runtime.keyOrder state.edges) ∅
  rw [show ((∅ : Map (List String))[corpusId]?).getD [] = [] by simp, List.nil_append] at h
  exact h

/-- The edges of a corpus, with their keys. -/
def corpusEdges (state : State) (corpusId : String) : List (String × GraphEdge) :=
  state.edges.toList.filter fun r => r.2.corpusId == corpusId

/-- An edge under each of the keys. -/
def rowsOf (edges : Map GraphEdge) (keys : List String) : List (String × GraphEdge) :=
  keys.filterMap fun k => (edges[k]?).map (k, ·)

omit [Externals] [Runtime] in
theorem rowsOf_keys {edges : Map GraphEdge} {corpusId : String} :
    ∀ {rows : List (String × GraphEdge)}, (∀ r ∈ rows, edges[r.1]? = some r.2) →
      rowsOf edges ((rows.map (·.1)).filter fun k => (edges[k]?).any fun e => e.corpusId == corpusId)
        = rows.filter fun r => r.2.corpusId == corpusId
  | [], _ => rfl
  | r :: rows, h => by
    have hr := h r (by simp)
    have hrest : rowsOf edges ((rows.map (·.1)).filter fun k =>
        (edges[k]?).any fun e => e.corpusId == corpusId)
          = rows.filter fun r => r.2.corpusId == corpusId :=
      rowsOf_keys fun r' hr' => h r' (List.mem_cons_of_mem r hr')
    rw [List.map_cons, List.filter_cons, List.filter_cons, hr, Option.any_some]
    by_cases hc : (r.2.corpusId == corpusId) = true
    · rw [if_pos hc, if_pos hc, rowsOf, List.filterMap_cons, hr]
      exact congrArg (r :: ·) hrest
    · rw [if_neg hc, if_neg hc]
      exact hrest

omit [Externals] [Runtime] in
theorem length_rowsOf {edges : Map GraphEdge} : ∀ {keys : List String},
    (∀ k ∈ keys, ∃ e, edges[k]? = some e) → (rowsOf edges keys).length = keys.length
  | [], _ => rfl
  | k :: keys, h => by
    obtain ⟨e, he⟩ := h k (by simp)
    have hrest := length_rowsOf fun k' hk' => h k' (List.mem_cons_of_mem k hk')
    have hcons : rowsOf edges (k :: keys) = (k, e) :: rowsOf edges keys := by
      rw [rowsOf, List.filterMap_cons, he]
      rfl
    rw [hcons, List.length_cons, List.length_cons, hrest]

omit [Externals] in
theorem rowsOf_built (state : State) (corpusId : String) :
    (rowsOf state.edges (((buildCaches state).edgeKeysByCorpus[corpusId]?).getD [])).Perm
      (corpusEdges state corpusId) := by
  rw [edgeKeys_built, corpusEdges, ← rowsOf_keys fun r hr => Map.mem_toList.mp hr]
  refine List.Perm.filterMap _ (List.Perm.filter _ ?_)
  rw [Std.ExtTreeMap.map_fst_toList_eq_keys]
  exact Runtime.keyOrder_perm state.edges

omit [Externals] in
theorem nodup_edgeKeys_built (state : State) (corpusId : String) :
    (((buildCaches state).edgeKeysByCorpus[corpusId]?).getD []).Nodup := by
  rw [edgeKeys_built]
  refine List.Nodup.filter _ ((Runtime.keyOrder_perm state.edges).nodup_iff.mpr ?_)
  exact Std.ExtTreeMap.nodup_keys

omit [Externals] in
theorem present_edgeKeys_built (state : State) (corpusId : String) :
    ∀ k ∈ ((buildCaches state).edgeKeysByCorpus[corpusId]?).getD [],
      ∃ e, state.edges[k]? = some e := by
  intro k hk
  rw [edgeKeys_built, List.mem_filter, Option.any_eq_true] at hk
  obtain ⟨-, e, he, -⟩ := hk
  exact ⟨e, he⟩

/-! ### The order -/

/-- What the rows of the pages are in the order of: the ends of the edge, then its key. -/
def rowRank (r : String × GraphEdge) : String ×ₗ String ×ₗ String :=
  toLex (r.2.sourceNodeId, toLex (r.2.targetNodeId, r.1))

/-- A decorated key stands for the edge under it and its position among the keys. -/
structure Decorates (edges : Map GraphEdge) (keys : List String) (d : Decorated) : Prop where
  edge : ∃ e, edges[d.key]? = some e ∧ e.sourceNodeId = d.source ∧ e.targetNodeId = d.target
  position : keys[d.index]? = some d.key

omit [Externals] [Runtime] in
theorem decorate_ok {edges : Map GraphEdge} (pre : List String) : ∀ {keys : List String},
    (∀ k ∈ keys, ∃ e, edges[k]? = some e) → pre.length + keys.length ≤ 2 ^ 32 →
      ∃ ds, decorate edges pre.length keys = .ok ds ∧ ds.map (·.key) = keys
        ∧ ∀ d ∈ ds, Decorates edges (pre ++ keys) d
  | [], _, _ => ⟨[], rfl, rfl, by simp⟩
  | k :: keys, hkeys, hlength => by
    obtain ⟨e, he⟩ := hkeys k (by simp)
    rw [List.length_cons] at hlength
    obtain ⟨ds, hds, hmap, hall⟩ := decorate_ok (pre ++ [k])
      (fun k' hk' => hkeys k' (List.mem_cons_of_mem k hk')) (by rw [List.length_append, List.length_singleton]; omega)
    rw [List.length_append, List.length_singleton] at hds
    have hsmall : ¬ 2 ^ 32 ≤ pre.length := by omega
    refine ⟨⟨e.sourceNodeId, e.targetNodeId, k, pre.length⟩ :: ds, ?_, ?_, ?_⟩
    · simp only [decorate, he, if_neg hsmall, hds]
      rfl
    · rw [List.map_cons, hmap]
    · intro d hd
      rcases List.mem_cons.mp hd with rfl | hd
      · exact ⟨⟨e, he, rfl, rfl⟩, by simp⟩
      · rw [← List.append_cons] at hall
        exact hall d hd

omit [Externals] [Runtime] in
theorem sortDecorated_perm (ds : List Decorated) : (sortDecorated ds).Perm ds :=
  List.mergeSort_perm _ _

omit [Externals] [Runtime] in
theorem pairwise_sortDecorated (ds : List Decorated) :
    (sortDecorated ds).Pairwise fun a b => a.rank ≤ b.rank := by
  have h : (sortDecorated ds).Pairwise fun a b => decide (a.rank ≤ b.rank) = true :=
    List.pairwise_mergeSort (fun a b c => by simpa using le_trans)
      (fun a b => by simpa using le_total _ _) ds
  simpa using h

omit [Externals] [Runtime] in
/-- Different keys in order are strictly in order before their positions are looked at. -/
theorem rowRank_lt {edges : Map GraphEdge} {keys : List String} {a b : Decorated} {e e' : GraphEdge}
    (ha : Decorates edges keys a) (hb : Decorates edges keys b) (hne : a.key ≠ b.key)
    (hle : a.rank ≤ b.rank) (he : edges[a.key]? = some e) (he' : edges[b.key]? = some e') :
    rowRank (a.key, e) < rowRank (b.key, e') := by
  obtain ⟨e1, he1, hs1, ht1⟩ := ha.edge
  obtain ⟨e2, he2, hs2, ht2⟩ := hb.edge
  obtain rfl := Option.some.inj (he.symm.trans he1)
  obtain rfl := Option.some.inj (he'.symm.trans he2)
  simp only [Decorated.rank, Prod.Lex.toLex_le_toLex] at hle
  simp only [rowRank, Prod.Lex.toLex_lt_toLex, hs1, ht1, hs2, ht2]
  rcases hle with hlt | ⟨heq, hlt | ⟨heq', hlt | ⟨heq'', -⟩⟩⟩
  · exact .inl hlt
  · exact .inr ⟨heq, .inl hlt⟩
  · exact .inr ⟨heq, .inr ⟨heq', hlt⟩⟩
  · exact absurd heq'' hne

/-- The rows of an order: every position names the key of its row. -/
def Rows (edges : Map GraphEdge) (keys : List String) : List ℕ → List (String × GraphEdge) → Prop :=
  List.Forall₂ fun index row => keys[index]? = some row.1 ∧ edges[row.1]? = some row.2

omit [Externals] [Runtime] in
/-- The order of the pages: a permutation of the edges, strictly in order. -/
theorem pageOrder_ok {edges : Map GraphEdge} {keys : List String}
    (hkeys : ∀ k ∈ keys, ∃ e, edges[k]? = some e) (hnodup : keys.Nodup)
    (hlength : keys.length ≤ 2 ^ 32) :
    ∃ order rows, pageOrder edges keys = .ok order ∧ Rows edges keys order rows
      ∧ rows.Perm (rowsOf edges keys) ∧ rows.Pairwise fun a b => rowRank a < rowRank b := by
  obtain ⟨ds, hds, hmap, hall⟩ := decorate_ok [] hkeys (by simpa using hlength)
  have hperm := sortDecorated_perm ds
  have hall' : ∀ d ∈ sortDecorated ds, Decorates edges keys d := fun d hd =>
    hall d (hperm.mem_iff.mp hd)
  refine ⟨(sortDecorated ds).map (·.index), rowsOf edges ((sortDecorated ds).map (·.key)), ?_, ?_,
    ?_, ?_⟩
  · rw [pageOrder, show decorate edges 0 keys = .ok ds from hds]
    rfl
  · revert hall'
    generalize sortDecorated ds = sorted
    intro hall'
    induction sorted with
    | nil => exact .nil
    | cons d sorted ih =>
      obtain ⟨e, he, -, -⟩ := (hall' d (by simp)).edge
      have hrows : rowsOf edges ((d :: sorted).map (·.key))
          = (d.key, e) :: rowsOf edges (sorted.map (·.key)) := by
        rw [rowsOf, List.map_cons, List.filterMap_cons, he]
        rfl
      rw [hrows, List.map_cons]
      exact .cons ⟨(hall' d (by simp)).position, he⟩ (ih fun d' hd' => hall' d' (by simp [hd']))
  · rw [← hmap]
    exact (hperm.map _).filterMap _
  · have hnodup' : ((sortDecorated ds).map (·.key)).Nodup := by
      rw [(hperm.map _).nodup_iff, hmap]
      exact hnodup
    have hsorted := pairwise_sortDecorated ds
    revert hall' hnodup' hsorted
    generalize sortDecorated ds = sorted
    intro hall' hnodup' hsorted
    rw [rowsOf, List.filterMap_map, List.pairwise_filterMap]
    rw [List.nodup_iff_pairwise_ne, List.pairwise_map] at hnodup'
    refine (hsorted.and hnodup').imp_of_mem ?_
    intro a b ha hb hab r hr r' hr'
    obtain ⟨e, he, rfl⟩ := Option.map_eq_some_iff.mp hr
    obtain ⟨e', he', rfl⟩ := Option.map_eq_some_iff.mp hr'
    exact rowRank_lt (hall' a ha) (hall' b hb) hab.2 hab.1 he he'

/-! ### The size of an answer -/

omit [Externals] [Runtime] in
theorem length_decimal_le : ∀ (k : ℕ) {n : ℕ}, n < 10 ^ (k + 1) → (decimal n).length ≤ k + 1
  | 0, n, h => by
    rw [decimal_of_lt (by simpa using h)]
    simp
  | k + 1, n, h => by
    by_cases hn : n < 10
    · rw [decimal_of_lt hn]
      simp
    · have hdiv : n / 10 < 10 ^ (k + 1) := by
        rw [Nat.div_lt_iff_lt_mul (by omega), ← pow_succ]
        exact h
      rw [decimal_of_ge (not_lt.mp hn), List.length_append, List.length_singleton]
      have := length_decimal_le k hdiv
      omega

omit [Runtime] in
theorem print_numU64 (n : UInt64) : (numU64 n).print floats = decimal n.toNat := rfl

omit [Runtime] in
theorem length_numU64_le (n : UInt64) : ((numU64 n).print floats).length ≤ 20 := by
  rw [print_numU64]
  refine length_decimal_le 19 (lt_of_lt_of_le n.toNat_lt (by decide))

omit [Runtime] in
theorem length_widest : ((numU64 (UInt64.ofNat (2 ^ 64 - 1))).print floats).length = 20 := by
  rw [print_numU64]
  decide +kernel

omit [Externals] [Runtime] in
theorem length_printItems_snoc (v : Raw) : ∀ vs : List Raw,
    (printItems (vs ++ [v])).length = (printItems vs).length + 1 + v.print.length
  | [] => by
    simp only [List.nil_append, printItems, List.length_cons, List.length_append, List.length_nil]
    omega
  | w :: vs => by
    have ih := length_printItems_snoc v vs
    rw [List.cons_append, printItems, printItems]
    simp only [List.length_cons, List.length_append, ih]
    omega

omit [Externals] [Runtime] in
theorem rawItems_append (t : FloatText) (vs ws : List Value) :
    rawItems t (vs ++ ws) = rawItems t vs ++ rawItems t ws := by
  induction vs with
  | nil => rfl
  | cons v vs ih => rw [List.cons_append, rawItems, rawItems, ih, List.cons_append]

omit [Runtime] in
/-- An array with one more item, and a comma when it is not the first. -/
theorem length_arr_snoc (entries : List Value) (entry : Value) :
    ((Value.arr (entries ++ [entry])).print floats).length
      = ((Value.arr entries).print floats).length + (if entries.isEmpty then 0 else 1)
        + (entry.print floats).length := by
  rw [Value.print, Value.print, Value.print, Value.raw, Value.raw, rawItems_append]
  rcases entries with _ | ⟨v, vs⟩
  · simp only [rawItems, List.nil_append, Raw.print, printItems, List.length_cons, List.length_append,
      List.length_nil, List.isEmpty_nil, if_true]
    omega
  · simp only [rawItems, List.cons_append, Raw.print, List.isEmpty_cons, Bool.false_eq_true, if_false,
      List.length_cons, List.length_append, length_printItems_snoc]
    omega

omit [Runtime] in
/-- Only the next offset and the entries make one answer longer than another. -/
theorem length_responseText (requestId generation offset total : UInt64) (nextOffset : Value)
    (entries : List Value) :
    (responseText requestId (pageValue generation offset nextOffset total entries)).length
      = 93 + (decimal requestId.toNat).length + (decimal generation.toNat).length
        + (decimal offset.toNat).length + (decimal total.toNat).length
        + (nextOffset.print floats).length + ((Value.arr entries).print floats).length := by
  have h1 : (escape (utf8 "id")).length = 2 := by decide
  have h2 : (escape (utf8 "ok")).length = 2 := by decide
  have h3 : (escape (utf8 "result")).length = 6 := by decide
  have h4 : (escape (utf8 "entries")).length = 7 := by decide
  have h5 : (escape (utf8 "generation")).length = 10 := by decide
  have h6 : (escape (utf8 "nextOffset")).length = 10 := by decide
  have h7 : (escape (utf8 "offset")).length = 6 := by decide
  have h8 : (escape (utf8 "totalEntries")).length = 12 := by decide
  simp only [responseText, pageValue, Value.print, Value.raw, rawMembers, Raw.print, printMembers,
    List.length_cons, List.length_append, h1, h2, h3, h4, h5, h6, h7, h8, trueBytes, numU64,
    Number.lexeme, List.length_nil]
  omega

omit [Runtime] in
theorem arrayLimit_ok (requestId generation offset total : UInt64) :
    ∃ limit, projectionPageArrayLimit requestId generation offset total = .ok limit
      ∧ 113 + (decimal requestId.toNat).length + (decimal generation.toNat).length
        + (decimal offset.toNat).length + (decimal total.toNat).length + limit
          = maxIndexingResponseBytes := by
  have hlength := length_responseText requestId generation offset total
    (numU64 (UInt64.ofNat (2 ^ 64 - 1))) []
  have hempty : ((Value.arr []).print floats).length = 2 := rfl
  have hid := length_numU64_le requestId
  have hgeneration := length_numU64_le generation
  have hoffset := length_numU64_le offset
  have htotal := length_numU64_le total
  rw [print_numU64] at hid hgeneration hoffset htotal
  rw [length_widest, hempty] at hlength
  rw [projectionPageArrayLimit, boundedSerializedBytes, hlength]
  have hmax : maxIndexingResponseBytes = 8388608 := rfl
  rw [if_neg (by omega)]
  simp only [bind, Except.bind, pure, Except.pure]
  rw [if_neg (by omega), if_neg (by omega)]
  refine ⟨_, rfl, ?_⟩
  omega

omit [Runtime] in
/-- An answer whose entries keep to the limit keeps to its own. -/
theorem responseText_le {requestId generation offset total : UInt64} {limit : ℕ}
    (hlimit : projectionPageArrayLimit requestId generation offset total = .ok limit)
    {nextOffset : Value} (hnext : (nextOffset.print floats).length ≤ 20) {entries : List Value}
    (hentries : ((Value.arr entries).print floats).length ≤ limit) :
    (responseText requestId (pageValue generation offset nextOffset total entries)).length
      ≤ maxIndexingResponseBytes := by
  obtain ⟨limit', hlimit', hsum⟩ := arrayLimit_ok requestId generation offset total
  obtain rfl := Except.ok.inj (hlimit.symm.trans hlimit')
  rw [length_responseText]
  omega

omit [Runtime] in
/-- An item is added when the array with it keeps to the limit. -/
theorem addBounded_fits {entries : List Value} {entry : Value} {limit : ℕ}
    (hlimit : limit ≤ maxIndexingResponseBytes)
    (h : ((Value.arr (entries ++ [entry])).print floats).length ≤ limit) :
    addBoundedIndexingResponseItem ((Value.arr entries).print floats).length entry
        (!entries.isEmpty) limit
      = .ok ((Value.arr (entries ++ [entry])).print floats).length := by
  have hmax : maxIndexingResponseBytes = 8388608 := rfl
  have hlength := length_arr_snoc entries entry
  have hcomma : (if entries.isEmpty then 0 else 1) = if (!entries.isEmpty) = true then 1 else 0 := by
    cases entries.isEmpty <;> rfl
  rw [hcomma] at hlength
  simp only [addBoundedIndexingResponseItem, bind, Except.bind, pure, Except.pure]
  rw [if_neg (by omega), if_neg (by omega), if_neg (by omega), if_neg (by omega), hlength]

omit [Runtime] in
/-- It is not when the array would not. -/
theorem addBounded_full {entries : List Value} {entry : Value} {limit : ℕ}
    (hlimit : limit ≤ maxIndexingResponseBytes)
    (hle : ((Value.arr entries).print floats).length ≤ limit)
    (h : ¬ ((Value.arr (entries ++ [entry])).print floats).length ≤ limit) :
    ∃ e, addBoundedIndexingResponseItem ((Value.arr entries).print floats).length entry
        (!entries.isEmpty) limit = .error e := by
  have hmax : maxIndexingResponseBytes = 8388608 := rfl
  have hlength := length_arr_snoc entries entry
  have hcomma : (if entries.isEmpty then 0 else 1) = if (!entries.isEmpty) = true then 1 else 0 := by
    cases entries.isEmpty <;> rfl
  rw [hcomma] at hlength
  have hone : (if (!entries.isEmpty) = true then 1 else 0) ≤ 1 := by
    split
    · exact le_rfl
    · exact zero_le_one
  simp only [addBoundedIndexingResponseItem, bind, Except.bind, pure, Except.pure]
  rw [if_neg (by omega)]
  by_cases hcomma' : limit < ((Value.arr entries).print floats).length
      + if (!entries.isEmpty) = true then 1 else 0
  · rw [if_pos hcomma']
    exact ⟨_, rfl⟩
  · rw [if_neg hcomma', if_pos (by omega)]
    exact ⟨_, rfl⟩

/-! ### A page -/

omit [Runtime] in
/-- A page takes as many of the rows as fit, and one at least when the first fits. -/
theorem fillPage_ok {edges : Map GraphEdge} {keys : List String} {limit : ℕ}
    (hlimit : limit ≤ maxIndexingResponseBytes) :
    ∀ {order : List ℕ} {rows : List (String × GraphEdge)} {entries : List Value},
      Rows edges keys order rows → ((Value.arr entries).print floats).length ≤ limit →
      (entries = [] → ∀ row ∈ rows.head?,
        ((Value.arr [transitionValue row.2]).print floats).length ≤ limit) →
      ∃ n ≤ rows.length, fillPage edges keys limit ((Value.arr entries).print floats).length entries order
          = .ok (entries ++ (rows.take n).map fun row => transitionValue row.2)
        ∧ ((Value.arr (entries ++ (rows.take n).map fun row => transitionValue row.2)).print
            floats).length ≤ limit
        ∧ (entries = [] → rows ≠ [] → n ≠ 0)
  | [], [], entries, _, hle, _ => ⟨0, le_rfl, by simp [fillPage], by simpa using hle, by simp⟩
  | index :: order, row :: rows, entries, .cons ⟨hkey, hedge⟩ hrows, hle, hfirst => by
    have hstep : fillPage edges keys limit ((Value.arr entries).print floats).length entries
        (index :: order) = match addBoundedIndexingResponseItem
          ((Value.arr entries).print floats).length (transitionValue row.2) (!entries.isEmpty) limit with
        | .ok next => fillPage edges keys limit next (entries ++ [transitionValue row.2]) order
        | .error _ => if entries.isEmpty then
            clientError "projection entry exceeds the page byte limit" else return entries := by
      simp only [fillPage, hkey, expect, bind, Except.bind, hedge]
    rw [hstep]
    by_cases hfits : ((Value.arr (entries ++ [transitionValue row.2])).print floats).length ≤ limit
    · obtain ⟨n, hn, hfill, hbytes, -⟩ := fillPage_ok hlimit hrows hfits
        (by simp)
      refine ⟨n + 1, by simpa using hn, ?_, ?_, by simp⟩
      · rw [addBounded_fits hlimit hfits]
        dsimp only
        rw [hfill, List.append_assoc]
        rfl
      · rw [List.take_succ_cons, List.map_cons, List.append_cons]
        exact hbytes
    · rcases entries with _ | ⟨e, entries⟩
      · exact absurd (hfirst rfl row (by simp)) hfits
      · refine ⟨0, by simp, ?_, by simpa using hle, by simp⟩
        obtain ⟨error, herror⟩ := addBounded_full hlimit hle hfits
        rw [herror, List.take_zero, List.map_nil, List.append_nil]
        rfl

/-- The key lists and the orders that a server holds are those of its edges. -/
structure PagedServer.Current (p : PagedServer) : Prop where
  keys : ∀ caches, p.server.caches = some caches →
    caches.edgeKeysByCorpus = (buildCaches p.server.state).edgeKeysByCorpus
  orders : p.server.caches ≠ none → ∀ (corpusId : String) (order : List ℕ),
    p.projectionOrderByCorpus[corpusId]? = some order →
    pageOrder p.server.state.edges
      (((buildCaches p.server.state).edgeKeysByCorpus[corpusId]?).getD []) = .ok order

omit [Externals] in
theorem current_of_none {p : PagedServer} (h : p.server.caches = none) : p.Current := by
  refine ⟨?_, fun hne => absurd h hne⟩
  intro caches hc
  cases h.symm.trans hc

omit [Externals] in
theorem PagedServer.Current.edgeKeys {p : PagedServer} (h : p.Current) (corpusId : String) :
    edgeKeys p.server corpusId = (buildCaches p.server.state).edgeKeysByCorpus[corpusId]? := by
  rw [AiraGraphdb.Native.edgeKeys, ensureCache]
  rcases hc : p.server.caches with _ | caches
  · rfl
  · rw [Option.getD_some, h.keys caches hc]

omit [Externals] in
/-- The step: what is built is up to date. -/
theorem PagedServer.Current.cached {p : PagedServer} (h : p.Current) : p.cached.Current := by
  refine ⟨?_, ?_⟩
  · intro caches hc
    cases hc
    rw [ensureCache]
    rcases hc : p.server.caches with _ | caches
    · rfl
    · exact h.keys caches hc
  · intro _ corpusId order horder
    rcases hc : p.server.caches with _ | caches
    · simp [PagedServer.cached, hc] at horder
    · have hne : p.server.caches ≠ none := by simp [hc]
      simp only [PagedServer.cached, hc, Option.isNone_some, Bool.false_eq_true, if_false] at horder
      exact h.orders hne corpusId order horder

/-- A server that has the order of a corpus at hand. -/
structure Ordered (p p' : PagedServer) (corpusId : String) (order : List ℕ) : Prop where
  current : p'.Current
  state : p'.server.state = p.server.state
  transaction : p'.server.transaction = p.server.transaction
  order : (p'.projectionOrderByCorpus[corpusId]?).getD [] = order

omit [Externals] in
theorem ensureProjectionOrder_ok {p : PagedServer} {corpusId : String} {order : List ℕ}
    (h : p.Current) (horder : pageOrder p.server.state.edges
      (((buildCaches p.server.state).edgeKeysByCorpus[corpusId]?).getD []) = .ok order) :
    ∃ p', ensureProjectionOrder p corpusId = .ok p' ∧ Ordered p p' corpusId order := by
  have hcached := h.cached
  rw [ensureProjectionOrder]
  rcases hfound : p.cached.projectionOrderByCorpus[corpusId]? with _ | found
  · rw [hcached.edgeKeys, if_neg (by simp)]
    have hstate : p.cached.server.state = p.server.state := rfl
    rw [hstate]
    rcases hkeys : (buildCaches p.server.state).edgeKeysByCorpus[corpusId]? with _ | keys
    · rw [hkeys] at horder
      cases horder
      refine ⟨_, rfl, hcached, rfl, rfl, ?_⟩
      rw [hfound]
      simp [sortDecorated]
    · rw [hkeys, Option.getD_some] at horder
      dsimp only
      rw [horder]
      refine ⟨_, rfl, ⟨hcached.keys, ?_⟩, rfl, rfl, ?_⟩
      · intro hne corpusId' order' horder'
        by_cases heq : corpusId = corpusId'
        · subst heq
          rw [Map.getElem?_insert_self] at horder'
          cases horder'
          rw [hstate, hkeys]
          exact horder
        · rw [Map.getElem?_insert_ne _ heq] at horder'
          exact hcached.orders hne corpusId' order' horder'
      · rw [Map.getElem?_insert_self]
        rfl
  · rw [if_pos (by simp)]
    refine ⟨_, rfl, hcached, rfl, rfl, ?_⟩
    have hsame := hcached.orders (by simp [PagedServer.cached]) corpusId found hfound
    have heq := Except.ok.inj (horder.symm.trans hsame)
    rw [hfound, heq]
    rfl

/-- A transition and its place in the size of a page: alone it keeps to every page's limit. -/
def EntryFits (requestId generation offset total : UInt64) (edge : GraphEdge) : Prop :=
  ∃ limit, projectionPageArrayLimit requestId generation offset total = .ok limit
    ∧ ((Value.arr [transitionValue edge]).print floats).length ≤ limit

/-- A page of the rows from an offset on. -/
structure PageOf (rows : List (String × GraphEdge)) (requestId : UInt64) (offset n : ℕ)
    (page : Value) : Prop where
  le : n ≤ (rows.drop offset).length
  nonempty : rows ≠ [] → n ≠ 0
  entries : (page.get "entries").bind Value.asArray
    = some (((rows.drop offset).take n).map fun row => transitionValue row.2)
  next : page.get "nextOffset"
    = some (if offset + n < rows.length then numU64 (UInt64.ofNat (offset + n)) else .null)
  size : (responseText requestId page).length ≤ maxIndexingResponseBytes

/-- A page that begins inside the projection, or at the start of an empty one, is answered. -/
theorem projectionPage_ok {p : PagedServer} {corpusId : String} {order : List ℕ}
    {rows : List (String × GraphEdge)} (h : p.Current)
    (horder : pageOrder p.server.state.edges
      (((buildCaches p.server.state).edgeKeysByCorpus[corpusId]?).getD []) = .ok order)
    (hrows : Rows p.server.state.edges
      (((buildCaches p.server.state).edgeKeysByCorpus[corpusId]?).getD []) order rows)
    (hlength : rows.length ≤ 2 ^ 32) (requestId generation : UInt64) {offset : ℕ}
    (hoffset : offset < rows.length ∨ offset = 0 ∧ rows = [])
    (hfits : ∀ row ∈ rows, EntryFits requestId generation (UInt64.ofNat offset)
      (UInt64.ofNat rows.length) row.2) :
    ∃ p' n page, projectionPage p requestId corpusId generation (UInt64.ofNat offset) = .ok (p', page)
      ∧ Ordered p p' corpusId order ∧ PageOf rows requestId offset n page := by
  obtain ⟨p', hensure, hordered⟩ := ensureProjectionOrder_ok h horder
  have hlen : order.length = rows.length := hrows.length_eq
  have hnat : (UInt64.ofNat offset).toNat = offset := by
    rw [UInt64.toNat_ofNat', Nat.mod_eq_of_lt (by omega)]
  obtain ⟨limit, hlimit, hsum⟩ :=
    arrayLimit_ok requestId generation (UInt64.ofNat offset) (UInt64.ofNat rows.length)
  have hdrop : Rows p.server.state.edges
      (((buildCaches p.server.state).edgeKeysByCorpus[corpusId]?).getD []) (order.drop offset)
      (rows.drop offset) := List.forall₂_drop offset hrows
  have hempty : ((Value.arr []).print floats).length ≤ limit := by
    have htwo : ((Value.arr []).print floats).length = 2 := rfl
    have hid := length_numU64_le requestId
    have hgeneration := length_numU64_le generation
    have ho := length_numU64_le (UInt64.ofNat offset)
    have ht := length_numU64_le (UInt64.ofNat rows.length)
    rw [print_numU64] at hid hgeneration ho ht
    have hmax : maxIndexingResponseBytes = 8388608 := rfl
    omega
  obtain ⟨n, hn, hfill, hbytes, hpos⟩ := fillPage_ok (by omega) hdrop hempty
    (by
      intro _ row hrow
      obtain ⟨limit', hlimit', hle⟩ := hfits row (List.mem_of_mem_drop (List.mem_of_mem_head? hrow))
      obtain rfl := Except.ok.inj (hlimit.symm.trans hlimit')
      exact hle)
  rw [List.nil_append] at hfill hbytes
  have hcount : (((rows.drop offset).take n).map fun row => transitionValue row.2).length = n := by
    rw [List.length_map, List.length_take]
    omega
  refine ⟨p', n, pageValue generation (UInt64.ofNat offset)
    (if offset + n < rows.length then numU64 (UInt64.ofNat (offset + n)) else .null)
    (UInt64.ofNat rows.length) (((rows.drop offset).take n).map fun row => transitionValue row.2),
    ?_, hordered, hn, ?_, rfl, rfl, ?_⟩
  · rw [projectionPage, hensure]
    simp only [bind, Except.bind, hordered.order, hordered.current.edgeKeys, hordered.state, hnat,
      hlen]
    have hinside : ¬ (rows.length < offset ∨ offset = rows.length ∧ 0 < rows.length) := by
      rcases hoffset with ho | ⟨rfl, rfl⟩
      · omega
      · simp
    rw [if_neg hinside]
    simp only [hlimit]
    have hfill' : fillPage p.server.state.edges
        (((buildCaches p.server.state).edgeKeysByCorpus[corpusId]?).getD []) limit 2 []
        (order.drop offset) = _ := hfill
    rw [hfill']
    simp only [hcount]
    rfl
  · intro hne
    refine hpos rfl ?_
    rcases hoffset with ho | ⟨-, hempty⟩
    · rw [Ne, List.drop_eq_nil_iff]
      omega
    · exact absurd hempty hne
  · refine responseText_le hlimit ?_ hbytes
    split
    · exact length_numU64_le _
    · have hnull : ((Value.null).print floats).length = 4 := rfl
      omega

/-! ### Following the pages -/

/-- The request of a page, pinned to a generation or not. -/
def pageRequest (requestId : UInt64) (corpusId : String) (pin : Option UInt64) (offset : UInt64) :
    RpcRequest :=
  ⟨requestId, "projection_get_transitions_page", .obj [("corpusId", .str corpusId),
    ("generation", match pin with
      | none => .null
      | some generation => numU64 generation), ("offset", numU64 offset)]⟩

omit [Externals] in
/-- The request of a page gets to the page. -/
theorem projectionGetTransitionsPage_eq [Externals] {p : PagedServer} {requestId : UInt64}
    {corpusId : String} {pin : Option UInt64} {offset : UInt64}
    (hcorpus : isBounded corpusId maxIndexingCorpusIdBytes) (hidle : p.server.transaction = .idle)
    (hpin : pin = some p.server.state.generation ∨ pin = none ∧ offset = 0) :
    projectionGetTransitionsPage p (pageRequest requestId corpusId pin offset)
      = projectionPage p requestId corpusId p.server.state.generation offset := by
  rcases hpin with rfl | ⟨rfl, rfl⟩
  · simp [projectionGetTransitionsPage, pageRequest, paramsObject, Value.asObject,
      requireExactParams, boundedRequiredString, requiredString, optionalString, lookupKey,
      Value.asStr, Value.asU64, numU64, hcorpus, hidle, bind, Except.bind, pure, Except.pure]
  · simp [projectionGetTransitionsPage, pageRequest, paramsObject, Value.asObject,
      requireExactParams, boundedRequiredString, requiredString, optionalString, lookupKey,
      Value.asStr, Value.asU64, numU64, hcorpus, hidle, bind, Except.bind, pure, Except.pure]

/-- The pages from an offset on, each with the id of its request, until one has no next offset. -/
def followPages (ids : ℕ → UInt64) (pins : ℕ → Option UInt64) (corpusId : String) :
    ℕ → PagedServer → ℕ → UInt64 → Option (List (UInt64 × Value))
  | 0, _, _, _ => none
  | fuel + 1, p, n, offset =>
    match projectionGetTransitionsPage p (pageRequest (ids n) corpusId (pins n) offset) with
    | .error _ => none
    | .ok (p, page) => match page.get "nextOffset" with
      | some .null => some [(ids n, page)]
      | some next => match next.asU64 with
        | some offset =>
          (followPages ids pins corpusId fuel p (n + 1) offset).map ((ids n, page) :: ·)
        | none => none
      | none => none

def pageEntries (page : Value) : List Value := ((page.get "entries").bind Value.asArray).getD []

/-- What a page has to be: not empty unless there is nothing, and within the limit. -/
structure PageOk (rows : List (String × GraphEdge)) (page : UInt64 × Value) : Prop where
  nonempty : rows ≠ [] → pageEntries page.2 ≠ []
  size : (responseText page.1 page.2).length ≤ maxIndexingResponseBytes

/-- What the pages of a corpus are read from. -/
structure Source (state : State) (corpusId : String) (order : List ℕ)
    (rows : List (String × GraphEdge)) : Prop where
  ordered : pageOrder state.edges
    (((buildCaches state).edgeKeysByCorpus[corpusId]?).getD []) = .ok order
  placed : Rows state.edges (((buildCaches state).edgeKeysByCorpus[corpusId]?).getD []) order rows
  length : rows.length ≤ 2 ^ 32
  corpus : isBounded corpusId maxIndexingCorpusIdBytes

/-- Where a client stands that follows the pages. -/
structure At (state : State) (rows : List (String × GraphEdge)) (p : PagedServer) (n offset : ℕ) :
    Prop where
  current : p.Current
  state : p.server.state = state
  idle : p.server.transaction = .idle
  inside : offset < rows.length ∨ offset = 0 ∧ rows = []
  first : n = 0 → offset = 0

section Follow

variable {state : State} {corpusId : String} {order : List ℕ} {rows : List (String × GraphEdge)}
  {ids : ℕ → UInt64} {pins : ℕ → Option UInt64}

/-- The step: a page is answered, and leaves the client at the next one. -/
theorem followPages_step (hsource : Source state corpusId order rows)
    (hpins : ∀ n, pins n = some state.generation ∨ pins n = none ∧ n = 0)
    (hfits : ∀ row ∈ rows, ∀ n offset, EntryFits (ids n) state.generation offset
      (UInt64.ofNat rows.length) row.2)
    {p : PagedServer} {n offset : ℕ} (h : At state rows p n offset) :
    ∃ p' count page, PageOf rows (ids n) offset count page
      ∧ (offset + count < rows.length → At state rows p' (n + 1) (offset + count))
      ∧ ∀ fuel, followPages ids pins corpusId (fuel + 1) p n (UInt64.ofNat offset)
        = if offset + count < rows.length then
            (followPages ids pins corpusId fuel p' (n + 1) (UInt64.ofNat (offset + count))).map
              ((ids n, page) :: ·)
          else some [(ids n, page)] := by
  have hpin : pins n = some p.server.state.generation ∨ pins n = none ∧ UInt64.ofNat offset = 0 := by
    rw [h.state]
    rcases hpins n with hp | ⟨hp, hn⟩
    · exact .inl hp
    · refine .inr ⟨hp, ?_⟩
      rw [h.first hn]
      rfl
  obtain ⟨hcurrent, rfl, hidle, hinside, hfirst⟩ := h
  obtain ⟨p', count, page, hpage, hordered, hok⟩ := projectionPage_ok hcurrent hsource.ordered
    hsource.placed hsource.length (ids n) p.server.state.generation hinside
    fun row hrow => hfits row hrow n _
  refine ⟨p', count, page, hok, ?_, ?_⟩
  · intro hmore
    exact ⟨hordered.current, hordered.state, hordered.transaction.trans hidle, .inl hmore, by omega⟩
  · intro fuel
    rw [followPages, projectionGetTransitionsPage_eq hsource.corpus hidle hpin, hpage]
    dsimp only
    rw [hok.next]
    by_cases hmore : offset + count < rows.length
    · rw [if_pos hmore, if_pos hmore]
      rfl
    · rw [if_neg hmore, if_neg hmore]

omit [Runtime] in
theorem PageOf.entries_eq {requestId : UInt64} {offset n : ℕ} {page : Value}
    (h : PageOf rows requestId offset n page) :
    pageEntries page = ((rows.drop offset).take n).map fun row => transitionValue row.2 := by
  rw [pageEntries, h.entries]
  rfl

omit [Runtime] in
theorem PageOf.ok {requestId : UInt64} {offset n : ℕ} {page : Value}
    (h : PageOf rows requestId offset n page) : PageOk rows (requestId, page) := by
  refine ⟨?_, h.size⟩
  intro hne hempty
  have hzero := congrArg List.length (h.entries_eq.symm.trans hempty)
  rw [List.length_map, List.length_take, List.length_nil] at hzero
  have := h.le
  have := h.nonempty hne
  omega

/-- The run: the pages from an offset on are the rows from there on. -/
theorem followPages_ok (hsource : Source state corpusId order rows)
    (hpins : ∀ n, pins n = some state.generation ∨ pins n = none ∧ n = 0)
    (hfits : ∀ row ∈ rows, ∀ n offset, EntryFits (ids n) state.generation offset
      (UInt64.ofNat rows.length) row.2) :
    ∀ (k : ℕ) {p : PagedServer} {n offset : ℕ}, rows.length - offset ≤ k →
      At state rows p n offset →
      ∃ pages, followPages ids pins corpusId (k + 1) p n (UInt64.ofNat offset) = some pages
        ∧ (pages.flatMap fun page => pageEntries page.2)
          = (rows.drop offset).map (fun row => transitionValue row.2)
        ∧ ∀ page ∈ pages, PageOk rows page := by
  intro k
  induction k with
  | zero =>
    intro p n offset hk h
    obtain ⟨p', count, page, hok, -, hstep⟩ := followPages_step hsource hpins hfits h
    have hlast : ¬ offset + count < rows.length := by omega
    refine ⟨[(ids n, page)], by rw [hstep, if_neg hlast], ?_, ?_⟩
    · rw [List.flatMap_singleton, hok.entries_eq, List.take_of_length_le]
      rw [List.length_drop]
      omega
    · intro page' hpage'
      rw [List.mem_singleton.mp hpage']
      exact hok.ok
  | succ k ih =>
    intro p n offset hk h
    obtain ⟨p', count, page, hok, hnext, hstep⟩ := followPages_step hsource hpins hfits h
    by_cases hmore : offset + count < rows.length
    · have hcount : count ≠ 0 := by
        refine hok.nonempty ?_
        rintro rfl
        simp at hmore
      obtain ⟨pages, hfollow, hflat, hall⟩ := ih (by omega) (hnext hmore)
      refine ⟨(ids n, page) :: pages, by rw [hstep, if_pos hmore, hfollow]; rfl, ?_, ?_⟩
      · rw [List.flatMap_cons, hflat, hok.entries_eq, ← List.map_append, ← List.drop_drop,
          List.take_append_drop]
      · intro page' hpage'
        rcases List.mem_cons.mp hpage' with rfl | hpage'
        · exact hok.ok
        · exact hall page' hpage'
    · refine ⟨[(ids n, page)], by rw [hstep, if_neg hmore], ?_, ?_⟩
      · rw [List.flatMap_singleton, hok.entries_eq, List.take_of_length_le]
        rw [List.length_drop]
        omega
      · intro page' hpage'
        rw [List.mem_singleton.mp hpage']
        exact hok.ok

end Follow

/-- The pages of a corpus: they end, none is empty unless the corpus is, and together they are its
transitions, each once and strictly in order. -/
structure ExactPages (p : PagedServer) (corpusId : String) (pages : List (UInt64 × Value)) : Prop where
  entries : ∃ rows : List (String × GraphEdge), rows.Perm (corpusEdges p.server.state corpusId)
    ∧ rows.Pairwise (fun a b => rowRank a < rowRank b)
    ∧ (pages.flatMap fun page => pageEntries page.2) = rows.map fun row => transitionValue row.2
  transitions : ∃ items, projectionGetTransitions p.server (.obj [("corpusId", .str corpusId)])
      = .arr items ∧ (pages.flatMap fun page => pageEntries page.2).Perm items
  pages : ∀ page ∈ pages, PageOk (corpusEdges p.server.state corpusId) page

omit [Externals] in
/-- The transitions of one answer are those of the rows. -/
theorem transitions_perm {p : PagedServer} (h : p.Current) {corpusId : String}
    {rows : List (String × GraphEdge)}
    (hrows : rows.Perm (rowsOf p.server.state.edges
      (((buildCaches p.server.state).edgeKeysByCorpus[corpusId]?).getD []))) :
    ∃ items, projectionGetTransitions p.server (.obj [("corpusId", .str corpusId)]) = .arr items
      ∧ (rows.map fun row => transitionValue row.2).Perm items := by
  refine ⟨_, rfl, ?_⟩
  have hkeys : (ensureCache p.server).edgeKeysByCorpus[corpusId]?
      = (buildCaches p.server.state).edgeKeysByCorpus[corpusId]? := h.edgeKeys corpusId
  have hparam : paramStr (.obj [("corpusId", .str corpusId)]) "corpusId" = corpusId := rfl
  have hbucket : bucket (ensureCache p.server).edgeKeysByCorpus p.server.state.edges corpusId
      = (rowsOf p.server.state.edges
        (((buildCaches p.server.state).edgeKeysByCorpus[corpusId]?).getD [])).map (·.2) := by
    rw [bucket, hkeys, rowsOf, List.map_filterMap]
    refine List.filterMap_congr ?_
    intro k _
    rcases p.server.state.edges[k]? with _ | e <;> rfl
  rw [transitionEdges, hparam, hbucket, sortBy]
  have hsort := List.mergeSort_perm ((rowsOf p.server.state.edges
    (((buildCaches p.server.state).edgeKeysByCorpus[corpusId]?).getD [])).map (·.2))
    (fun a b => decide (a.sourceNodeId ≤ b.sourceNodeId))
  refine List.Perm.trans ?_ (hsort.symm.map transitionValue)
  rw [List.map_map]
  exact hrows.map _

/-- Following the pages of a corpus from the start, with any request ids, gives its transitions
exactly. -/
theorem pages_exact {p : PagedServer} {corpusId : String} {ids : ℕ → UInt64}
    {pins : ℕ → Option UInt64} (h : p.Current) (hidle : p.server.transaction = .idle)
    (hcorpus : isBounded corpusId maxIndexingCorpusIdBytes)
    (hpins : ∀ n, pins n = some p.server.state.generation ∨ pins n = none ∧ n = 0)
    (hcount : (corpusEdges p.server.state corpusId).length ≤ 2 ^ 32)
    (hfits : ∀ row ∈ corpusEdges p.server.state corpusId, ∀ n offset,
      EntryFits (ids n) p.server.state.generation offset
        (UInt64.ofNat (corpusEdges p.server.state corpusId).length) row.2) :
    ∃ fuel pages, followPages ids pins corpusId fuel p 0 0 = some pages
      ∧ ExactPages p corpusId pages := by
  have hbuilt := rowsOf_built p.server.state corpusId
  have hlength : (((buildCaches p.server.state).edgeKeysByCorpus[corpusId]?).getD []).length
      ≤ 2 ^ 32 := by
    rw [← length_rowsOf (present_edgeKeys_built p.server.state corpusId), hbuilt.length_eq]
    exact hcount
  obtain ⟨order, rows, horder, hrows, hperm, hsorted⟩ := pageOrder_ok
    (present_edgeKeys_built p.server.state corpusId) (nodup_edgeKeys_built p.server.state corpusId)
    hlength
  have hperm' := hperm.trans hbuilt
  have hsource : Source p.server.state corpusId order rows := by
    refine ⟨horder, hrows, ?_, hcorpus⟩
    rw [hperm'.length_eq]
    exact hcount
  have hfits' : ∀ row ∈ rows, ∀ n offset, EntryFits (ids n) p.server.state.generation offset
      (UInt64.ofNat rows.length) row.2 := by
    intro row hrow n offset
    rw [hperm'.length_eq]
    exact hfits row (hperm'.mem_iff.mp hrow) n offset
  have hstart : At p.server.state rows p 0 0 := by
    refine ⟨h, rfl, hidle, ?_, fun _ => rfl⟩
    rcases rows with _ | ⟨row, rows⟩
    · exact .inr ⟨rfl, rfl⟩
    · exact .inl (by simp)
  obtain ⟨pages, hfollow, hflat, hall⟩ := followPages_ok hsource hpins hfits' rows.length (by omega)
    hstart
  rw [List.drop_zero] at hflat
  refine ⟨rows.length + 1, pages, hfollow, ⟨rows, hperm', hsorted, hflat⟩, ?_, ?_⟩
  · obtain ⟨items, hitems, hp⟩ := transitions_perm h hperm
    exact ⟨items, hitems, by rw [hflat]; exact hp⟩
  · intro page hpage
    obtain ⟨hnonempty, hsize⟩ := hall page hpage
    refine ⟨?_, hsize⟩
    intro hne
    refine hnonempty ?_
    rintro rfl
    exact hne (List.nil_perm.mp hperm')

/-! ### Refusals -/

omit [Externals] [Runtime] in
/-- More keys than a page cursor addresses are refused. -/
theorem decorate_refuses {edges : Map GraphEdge} : ∀ {keys : List String} {index : ℕ},
    (∀ k ∈ keys, ∃ e, edges[k]? = some e) → keys ≠ [] → 2 ^ 32 < index + keys.length →
      ∃ e, decorate edges index keys = .error e
  | k :: keys, index, hkeys, _, hlength => by
    obtain ⟨e, he⟩ := hkeys k (by simp)
    rw [List.length_cons] at hlength
    rw [decorate, he]
    by_cases hindex : 2 ^ 32 ≤ index
    · exact ⟨_, by simp only [if_pos hindex]; rfl⟩
    · have hne : keys ≠ [] := by
        rintro rfl
        rw [List.length_nil] at hlength
        omega
      obtain ⟨error, herror⟩ := decorate_refuses (fun k' hk' => hkeys k' (List.mem_cons_of_mem k hk'))
        hne (by omega : 2 ^ 32 < index + 1 + keys.length)
      exact ⟨error, by simp only [if_neg hindex, herror]; rfl⟩

theorem projectionPage_refuses {p : PagedServer} {corpusId : String} (hnone : p.server.caches = none)
    (hcount : 2 ^ 32 < (corpusEdges p.server.state corpusId).length)
    (requestId generation offset : UInt64) :
    ∃ e, projectionPage p requestId corpusId generation offset = .error e := by
  have hpresent := present_edgeKeys_built p.server.state corpusId
  rw [← (rowsOf_built p.server.state corpusId).length_eq, length_rowsOf hpresent] at hcount
  have hne : ((buildCaches p.server.state).edgeKeysByCorpus[corpusId]?).getD [] ≠ [] := by
    intro hempty
    rw [hempty] at hcount
    simp at hcount
  rw [← Nat.zero_add (List.length _)] at hcount
  obtain ⟨e, he⟩ := decorate_refuses hpresent hne hcount
  have hkeys : edgeKeys p.cached.server corpusId
      = some (((buildCaches p.server.state).edgeKeysByCorpus[corpusId]?).getD []) := by
    rw [(current_of_none hnone).cached.edgeKeys]
    have hstate : p.cached.server.state = p.server.state := rfl
    rw [hstate]
    rcases hk : (buildCaches p.server.state).edgeKeysByCorpus[corpusId]? with _ | keys
    · rw [hk] at hne
      exact absurd rfl hne
    · rfl
  have hforgotten : p.cached.projectionOrderByCorpus[corpusId]? = none := by
    simp [PagedServer.cached, hnone]
  have hensure : ensureProjectionOrder p corpusId = .error e := by
    rw [ensureProjectionOrder, hforgotten, hkeys, if_neg (by simp)]
    dsimp only
    rw [pageOrder, he]
    rfl
  rw [projectionPage, hensure]
  exact ⟨e, rfl⟩

/-- A client that is refused its first page has none. -/
theorem followPages_refused {p : PagedServer} {corpusId : String} {ids : ℕ → UInt64}
    {pins : ℕ → Option UInt64} (h : ∃ e,
      projectionGetTransitionsPage p (pageRequest (ids 0) corpusId (pins 0) 0) = .error e) :
    ∀ fuel, followPages ids pins corpusId fuel p 0 0 = none
  | 0 => rfl
  | fuel + 1 => by
    obtain ⟨e, he⟩ := h
    rw [followPages, he]

/-- A committed idle state whose transitions all fit, but which has no pages. -/
structure NoPages (p : PagedServer) (corpusId : String) (pins : ℕ → Option UInt64) : Prop where
  current : p.Current
  idle : p.server.transaction = .idle
  fits : ∀ row ∈ corpusEdges p.server.state corpusId, ∀ offset,
    EntryFits 1 p.server.state.generation offset
      (UInt64.ofNat (corpusEdges p.server.state corpusId).length) row.2
  pages : ∀ fuel, followPages (fun _ => 1) pins corpusId fuel p 0 0 = none

end Projection

section Witness

attribute [local instance] Concrete.externals Concrete.runtime

/-- An edge of a corpus. -/
def loopEdge (corpusId : String) : GraphEdge :=
  ⟨"e", corpusId, "n", "n", "r", ⟨.zero, F64.isFinite_zero⟩, none⟩

def loopKey (n : ℕ) : String := String.ofList (List.replicate n 'e')

/-- The same edge under so many keys. -/
def loopEdges (corpusId : String) : ℕ → Map GraphEdge
  | 0 => ∅
  | n + 1 => (loopEdges corpusId n).insert (loopKey n) (loopEdge corpusId)

theorem loopKey_inj {m n : ℕ} (h : loopKey m = loopKey n) : m = n := by
  have hlists := String.ofList_injective h
  simpa using congrArg List.length hlists

theorem loopEdges_spec (corpusId : String) : ∀ n, (loopEdges corpusId n).size = n
    ∧ ∀ k e, (loopEdges corpusId n)[k]? = some e → e = loopEdge corpusId ∧ ∃ m < n, k = loopKey m
  | 0 => by simp [loopEdges]
  | n + 1 => by
    obtain ⟨hsize, hall⟩ := loopEdges_spec corpusId n
    have hnew : loopKey n ∉ loopEdges corpusId n := by
      intro hmem
      obtain ⟨e, he⟩ := Map.mem_iff.mp hmem
      obtain ⟨-, m, hm, heq⟩ := hall _ _ he
      have := loopKey_inj heq
      omega
    refine ⟨?_, ?_⟩
    · rw [loopEdges, Std.ExtTreeMap.size_insert,
        if_neg fun hc => hnew (Std.ExtTreeMap.contains_iff_mem.mp hc), hsize]
    · intro k e he
      by_cases hk : loopKey n = k
      · subst hk
        rw [loopEdges, Map.getElem?_insert_self] at he
        exact ⟨(Option.some.inj he).symm, n, by omega, rfl⟩
      · rw [loopEdges, Map.getElem?_insert_ne _ hk] at he
        obtain ⟨heq, m, hm, hkey⟩ := hall k e he
        exact ⟨heq, m, by omega, hkey⟩

/-- A server in a committed state with these edges. -/
def loopServer (corpusId : String) (n : ℕ) : PagedServer :=
  ⟨⟨⟨{ State.default with edges := loopEdges corpusId n }, ∅⟩, "a", [], .idle, 0, 0, [], none, none, [],
    none, false⟩, ∅⟩

theorem corpusEdges_loop (corpusId : String) (n : ℕ) :
    (corpusEdges (loopServer corpusId n).server.state corpusId).length = n
      ∧ ∀ row ∈ corpusEdges (loopServer corpusId n).server.state corpusId,
        row.2 = loopEdge corpusId := by
  obtain ⟨hsize, hall⟩ := loopEdges_spec corpusId n
  have hrow : ∀ row ∈ (loopEdges corpusId n).toList, row.2 = loopEdge corpusId := fun row hrow =>
    (hall row.1 row.2 (Map.mem_toList.mp hrow)).1
  have hfilter : corpusEdges (loopServer corpusId n).server.state corpusId
      = (loopEdges corpusId n).toList := by
    refine List.filter_eq_self.mpr ?_
    intro row hmem
    rw [hrow row hmem]
    exact beq_self_eq_true corpusId
  rw [hfilter]
  exact ⟨by rw [Std.ExtTreeMap.length_toList, hsize], hrow⟩

theorem loopEdge_fits {corpusId : String} (requestId generation offset total : UInt64) :
    EntryFits requestId generation offset total (loopEdge corpusId) := by
  obtain ⟨limit, hlimit, hsum⟩ := arrayLimit_ok requestId generation offset total
  have hentry : ((Value.arr [transitionValue (loopEdge corpusId)]).print floats).length ≤ 100 := by
    have hvalue : transitionValue (loopEdge corpusId) = transitionValue (loopEdge "") := rfl
    rw [hvalue]
    decide +kernel
  have hmax : maxIndexingResponseBytes = 8388608 := rfl
  have hid := length_numU64_le requestId
  have hgeneration := length_numU64_le generation
  have ho := length_numU64_le offset
  have ht := length_numU64_le total
  rw [print_numU64] at hid hgeneration ho ht
  exact ⟨limit, hlimit, by omega⟩

theorem noPages_of_refused {corpusId : String} {n : ℕ} {pins : ℕ → Option UInt64} (h : ∃ e,
      projectionGetTransitionsPage (loopServer corpusId n) (pageRequest 1 corpusId (pins 0) 0)
        = .error e) : NoPages (loopServer corpusId n) corpusId pins := by
  refine ⟨current_of_none rfl, rfl, ?_, followPages_refused h⟩
  intro row hrow offset
  rw [(corpusEdges_loop corpusId n).2 row hrow]
  exact loopEdge_fits _ _ _ _

/-- Without an id of the corpus, with another generation, and with more edges than a cursor
addresses, there are no pages. -/
theorem pages_refused : NoPages (loopServer "" 1) "" (fun _ => none)
    ∧ NoPages (loopServer "c" 1) "c" (fun _ => some 5)
    ∧ NoPages (loopServer "c" (2 ^ 32 + 1)) "c" (fun _ => none) := by
  refine ⟨noPages_of_refused ⟨_, rfl⟩, noPages_of_refused ⟨_, rfl⟩, noPages_of_refused ?_⟩
  rw [projectionGetTransitionsPage_eq (by decide) rfl (.inr ⟨rfl, rfl⟩)]
  refine projectionPage_refuses rfl ?_ _ _ _
  rw [(corpusEdges_loop "c" (2 ^ 32 + 1)).1]
  omega

theorem pages_exact_loop : ∃ fuel pages,
    followPages (fun _ => 1) (fun _ => some 0) "c" fuel (loopServer "c" 1) 0 0 = some pages
      ∧ ExactPages (loopServer "c" 1) "c" pages := by
  obtain ⟨hlength, hrow⟩ := corpusEdges_loop "c" 1
  refine pages_exact (current_of_none rfl) rfl (by decide) ?_ (by rw [hlength]; omega) ?_
  · intro n
    exact .inl rfl
  · intro row hmem n offset
    rw [hrow row hmem]
    exact loopEdge_fits _ _ _ _

end Witness

end AiraGraphdb.Native
