import AiraGraphdb.Native.Bounded.Request
import AiraGraphdb.Native.Mutations

/-! # The catalog of a committed state

Before the first bounded operation the state is walked once: every stored item gets an index entry,
every corpus its number of edges and of distinct endpoints. The hash maps are walked in an order of
their own, the `Walk`. -/

namespace AiraGraphdb.Native.Bounded

open Schemes Schemes.Json

abbrev Checked (α : Type) := Except ExecutionFailure α

/-- A failure before any work. -/
def blank {α : Type} (cls : FailureClass) : Checked α := .error ⟨cls, .zero⟩

def orBlankError {α : Type} (x : Option α) (cls : FailureClass) : Checked α :=
  match x with
  | some a => .ok a
  | none => blank cls

/-- The order in which the hash maps of a state hand out their entries. -/
structure Walk (state : State) where
  snapshots : List (String × Value)
  edges : List (String × GraphEdge)
  vectors : List (String × VectorRecord)
  snapshots_perm : snapshots.Perm state.snapshots.toList
  edges_perm : edges.Perm state.edges.toList
  vectors_perm : vectors.Perm state.vectors.toList

/-- The entries of a state in the order of their keys. -/
def keyWalk (state : State) : Walk state :=
  ⟨state.snapshots.toList, state.edges.toList, state.vectors.toList, .rfl, .rfl, .rfl⟩

/-! ### Stored values -/

def isStoredDomainId (value : String) : Bool :=
  !value.isEmpty && decide (value.utf8ByteSize ≤ maxIndexingDomainIdBytes)

def boundedStoredDomainId (value : String) (work : WorkCounts) : Checked String :=
  if isStoredDomainId value then .ok value else .error ⟨.integrity, work⟩

def storedStr (value : Value) (name : String) (work : WorkCounts) : Checked String :=
  match getStr value name with
  | some s => .ok s
  | none => .error ⟨.integrity, work⟩

def storedSnapshotSectionOrEmpty (snapshot : Value) (sectionName : String) : Checked (List Value) :=
  match snapshot.get sectionName with
  | none => .ok []
  | some (.arr items) => .ok items
  | some _ => blank .integrity

/-- The sections of a snapshot, with the field that identifies an item. -/
def snapshotSections : List (String × String) :=
  [("passages", "passageId"), ("facts", "factId"), ("schemas", "schemaId")]

section

variable [Externals]

/-- The digest of three texts, each after its length. -/
def boundedIndexKey (corpusId sectionName itemId : String) : String :=
  (sha256 ([corpusId, sectionName, itemId].flatMap fun component =>
    leBytes 8 component.utf8ByteSize ++ utf8 component)).hex

/-! ### Building -/

structure Catalog where
  snapshotIndices : Map ℕ
  edgeCountsByCorpus : Map ℕ
  endpointCountsByCorpus : Map ℕ

def countItems (snapshots : List (String × Value)) : Checked ℕ :=
  snapshots.foldlM (fun total entry =>
    snapshotSections.foldlM (fun subtotal sectionName => do
      let items ← storedSnapshotSectionOrEmpty entry.2 sectionName.1
      orBlankError (checkedAdd subtotal items.length) .resource) total) 0

def indexItem (corpusId sectionName idField : String) (indices : Map ℕ) (entry : Value × ℕ) :
    Checked (Map ℕ) := do
  let itemId ← orBlankError (getStr entry.1 idField) .integrity
  let itemId ← boundedStoredDomainId itemId .zero
  if getStr entry.1 "corpusId" ≠ some corpusId then blank .integrity
  else
    let indexKey := boundedIndexKey corpusId sectionName itemId
    if indexKey ∈ indices then blank .integrity
    else return indices.insert indexKey entry.2

def indexSnapshot (indices : Map ℕ) (entry : String × Value) : Checked (Map ℕ) :=
  if getStr entry.2 "corpusId" ≠ some entry.1 then blank .integrity
  else
    snapshotSections.foldlM (fun indices sectionName => do
      let items ← storedSnapshotSectionOrEmpty entry.2 sectionName.1
      items.zipIdx.foldlM (indexItem entry.1 sectionName.1 sectionName.2) indices) indices

structure EdgeScan where
  endpointIds : Map Unit
  endpointCounts : Map ℕ
  edgeCounts : Map ℕ

/-- One more in a count by corpus. -/
def countMore (counts : Map ℕ) (corpusId : String) : Checked (Map ℕ × ℕ) := do
  let count ← orBlankError (checkedAdd (counts[corpusId]?.getD 0) 1) .resource
  return (counts.insert corpusId count, count)

def scanEndpoint (state : State) (corpusId : String) (scan : EdgeScan) (nodeId : String) :
    Checked EdgeScan := do
  let nodeId ← boundedStoredDomainId nodeId .zero
  let node ← orBlankError state.nodes[nodeKey corpusId nodeId]? .integrity
  if node.corpusId ≠ corpusId ∨ node.nodeId ≠ nodeId then blank .integrity
  else
    let indexKey := boundedIndexKey corpusId "nodes" nodeId
    if indexKey ∈ scan.endpointIds then return scan
    else
      let (counts, count) ← countMore scan.endpointCounts corpusId
      if maxGraphNodes < count then blank .resource
      else return { scan with
        endpointIds := scan.endpointIds.insert indexKey ()
        endpointCounts := counts }

def scanEdge (state : State) (scan : EdgeScan) (entry : String × GraphEdge) : Checked EdgeScan := do
  let scan ← [entry.2.sourceNodeId, entry.2.targetNodeId].foldlM
    (scanEndpoint state entry.2.corpusId) scan
  let (counts, _) ← countMore scan.edgeCounts entry.2.corpusId
  return { scan with edgeCounts := counts }

def ensureBoundedCatalog (state : State) (walk : Walk state) : Checked Catalog := do
  let _ ← countItems walk.snapshots
  let indices ← walk.snapshots.foldlM indexSnapshot ∅
  if maxGraphEdges < walk.edges.length then blank .resource
  else
    let _ ← orBlankError (checkedMul walk.edges.length 2) .resource
    let scan ← walk.edges.foldlM (scanEdge state) ⟨∅, ∅, ∅⟩
    return ⟨indices, scan.edgeCounts, scan.endpointCounts⟩

/-! ### Using -/

def boundedSnapshotItems (state : State) (corpusId sectionName : String) : Checked (List Value) := do
  let snapshot ← orBlankError state.snapshots[corpusId]? .integrity
  storedSnapshotSectionOrEmpty snapshot sectionName

def sectionIdField (sectionName : String) : Checked String :=
  if sectionName = "passages" then .ok "passageId"
  else if sectionName = "facts" then .ok "factId"
  else if sectionName = "schemas" then .ok "schemaId"
  else blank .integrity

def boundedSnapshotItem (state : State) (catalog : Catalog) (corpusId sectionName itemId : String) :
    Checked Value := do
  let index ← orBlankError catalog.snapshotIndices[boundedIndexKey corpusId sectionName itemId]?
    .integrity
  let items ← boundedSnapshotItems state corpusId sectionName
  let item ← orBlankError items[index]? .integrity
  let idField ← sectionIdField sectionName
  if getStr item "corpusId" ≠ some corpusId ∨ getStr item idField ≠ some itemId then blank .integrity
  else return item

end

end AiraGraphdb.Native.Bounded
