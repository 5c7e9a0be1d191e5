import AiraGraphdb.Schemes.Json.Decode
import AiraGraphdb.Schemes.Float
import AiraGraphdb.Schemes.Hex

/-! # The records of the native store and their canonical JSON

A record is read from JSON by its field names and written with its fields in their declared order.
The canonical document of a generation is a `PersistedStateView`: the maps in the order of their
keys, every vector with the reference that the generation publishes and without its values. -/

namespace AiraGraphdb.Native

open Schemes Schemes.Json

/-- What the program takes from elsewhere: the text of doubles, the double of an integer, and
SHA-256. -/
class Externals where
  floats : FloatText
  ofInt : ℤ → Finite64
  sha256 : Bytes → Digest

variable [Externals]

abbrev floats : FloatText := Externals.floats

def sha256 (bs : Bytes) : Digest := Externals.sha256 bs

/-- A number field that is an unsigned integer. -/
abbrev numU64 (n : UInt64) : Value := .num (.posInt n)

/-! ### Records -/

structure GraphNode where
  nodeId : String
  corpusId : String
  layer : String
  ref : Value
  label : String

structure GraphEdge where
  edgeId : String
  corpusId : String
  sourceNodeId : String
  targetNodeId : String
  relation : String
  weight : Finite64
  bridgeKind : Option String

/-- Where a segment holds a vector; `gen` is absent for the format 1 base. -/
structure VectorBlobRef where
  offset : UInt64
  len : UInt32
  gen : Option UInt64
  deriving DecidableEq

structure VectorBlobDescriptor where
  basename : String
  size : UInt64
  sha256 : String
  format : UInt16
  deriving DecidableEq

structure StoredCommitEvidence where
  schema : String
  transactionNonce : String
  baseGeneration : UInt64
  generation : UInt64
  walSha256 : String
  walBytes : UInt64
  walRecordCount : UInt64
  deriving DecidableEq

structure VectorRecord where
  id : String
  corpusId : String
  «namespace» : String
  values : List F64
  blobRef : Option VectorBlobRef
  metadata : Value

structure Passage where
  passageId : String
  corpusId : String
  documentId : String
  text : String

structure State where
  nodes : Map GraphNode
  edges : Map GraphEdge
  vectors : Map VectorRecord
  passages : Map Passage
  snapshots : Map Value
  checkpoints : Map Value
  generation : UInt64
  vectorBlob : Option VectorBlobDescriptor
  commitEvidence : Option StoredCommitEvidence

/-- The state of a store that has no file yet. -/
def State.default : State := ⟨∅, ∅, ∅, ∅, ∅, ∅, 0, none, none⟩

/-! ### Reading -/

def GraphNode.fields : List String := ["nodeId", "corpusId", "layer", "ref", "label"]

def GraphNode.read : Reader GraphNode := fun limit r => do
  let fs ← Fields.read GraphNode.fields false limit r
  return {
    nodeId := ← fs.required "nodeId" Reader.string
    corpusId := ← fs.required "corpusId" Reader.string
    layer := ← fs.required "layer" Reader.string
    ref := ← fs.required "ref" (Reader.value floats)
    label := ← fs.required "label" Reader.string }

def GraphEdge.fields : List String :=
  ["edgeId", "corpusId", "sourceNodeId", "targetNodeId", "relation", "weight", "bridgeKind"]

def GraphEdge.read : Reader GraphEdge := fun limit r => do
  let fs ← Fields.read GraphEdge.fields false limit r
  return {
    edgeId := ← fs.required "edgeId" Reader.string
    corpusId := ← fs.required "corpusId" Reader.string
    sourceNodeId := ← fs.required "sourceNodeId" Reader.string
    targetNodeId := ← fs.required "targetNodeId" Reader.string
    relation := ← fs.required "relation" Reader.string
    weight := ← fs.required "weight" (Reader.f64 floats Externals.ofInt)
    bridgeKind := ← fs.optional "bridgeKind" Reader.string }

def VectorBlobRef.fields : List String := ["offset", "len", "gen"]

def VectorBlobRef.read : Reader VectorBlobRef := fun limit r => do
  let fs ← Fields.read VectorBlobRef.fields false limit r
  return {
    offset := ← fs.required "offset" (Reader.u64 floats)
    len := ← fs.required "len" (Reader.u32 floats)
    gen := ← fs.defaulted "gen" (Reader.option (Reader.u64 floats)) none }

def VectorBlobDescriptor.fields : List String := ["basename", "size", "sha256", "format"]

def VectorBlobDescriptor.read : Reader VectorBlobDescriptor := fun limit r => do
  let fs ← Fields.read VectorBlobDescriptor.fields false limit r
  return {
    basename := ← fs.required "basename" Reader.string
    size := ← fs.required "size" (Reader.u64 floats)
    sha256 := ← fs.required "sha256" Reader.string
    format := ← fs.required "format" (Reader.u16 floats) }

def StoredCommitEvidence.fields : List String :=
  ["schema", "transactionNonce", "baseGeneration", "generation", "walSha256", "walBytes",
    "walRecordCount"]

def StoredCommitEvidence.read : Reader StoredCommitEvidence := fun limit r => do
  let fs ← Fields.read StoredCommitEvidence.fields true limit r
  return {
    schema := ← fs.required "schema" Reader.string
    transactionNonce := ← fs.required "transactionNonce" Reader.string
    baseGeneration := ← fs.required "baseGeneration" (Reader.u64 floats)
    generation := ← fs.required "generation" (Reader.u64 floats)
    walSha256 := ← fs.required "walSha256" Reader.string
    walBytes := ← fs.required "walBytes" (Reader.u64 floats)
    walRecordCount := ← fs.required "walRecordCount" (Reader.u64 floats) }

def VectorRecord.fields : List String :=
  ["id", "corpusId", "namespace", "values", "blobRef", "metadata"]

/-- The numbers of a vector. -/
def readValues : Reader (List F64) := fun limit r =>
  (Reader.list (Reader.f64 floats Externals.ofInt) limit r).map (·.map Subtype.val)

def VectorRecord.read : Reader VectorRecord := fun limit r => do
  let fs ← Fields.read VectorRecord.fields false limit r
  return {
    id := ← fs.required "id" Reader.string
    corpusId := ← fs.required "corpusId" Reader.string
    «namespace» := ← fs.required "namespace" Reader.string
    values := ← fs.defaulted "values" readValues []
    blobRef := ← fs.defaulted "blobRef" (Reader.option VectorBlobRef.read) none
    metadata := ← fs.required "metadata" (Reader.value floats) }

def Passage.fields : List String := ["passageId", "corpusId", "documentId", "text"]

def Passage.read : Reader Passage := fun limit r => do
  let fs ← Fields.read Passage.fields false limit r
  return {
    passageId := ← fs.required "passageId" Reader.string
    corpusId := ← fs.required "corpusId" Reader.string
    documentId := ← fs.required "documentId" Reader.string
    text := ← fs.required "text" Reader.string }

def State.fields : List String :=
  ["nodes", "edges", "vectors", "passages", "snapshots", "checkpoints", "generation",
    "vectorBlob", "commitEvidence"]

def State.read : Reader State := fun limit r => do
  let fs ← Fields.read State.fields false limit r
  return {
    nodes := ← fs.required "nodes" (Reader.map GraphNode.read)
    edges := ← fs.required "edges" (Reader.map GraphEdge.read)
    vectors := ← fs.required "vectors" (Reader.map VectorRecord.read)
    passages := ← fs.required "passages" (Reader.map Passage.read)
    snapshots := ← fs.required "snapshots" (Reader.map (Reader.value floats))
    checkpoints := ← fs.required "checkpoints" (Reader.map (Reader.value floats))
    generation := ← fs.defaulted "generation" (Reader.u64 floats) 0
    vectorBlob := ← fs.defaulted "vectorBlob" (Reader.option VectorBlobDescriptor.read) none
    commitEvidence :=
      ← fs.defaulted "commitEvidence" (Reader.option StoredCommitEvidence.read) none }

/-- How many arrays and objects the reader of a document lets nest. -/
def nestingLimit : ℕ := 127

/-- A typed value from the bytes of a document. -/
def fromSlice {α : Type} (d : Reader α) (bs : Bytes) : Option α :=
  (parse bs).bind (d nestingLimit)

/-- A typed value from a JSON value: it is read as its text would be, but to any depth. -/
def fromValue {α : Type} (d : Reader α) (v : Value) : Option α := d v.depth (v.raw floats)

/-! ### Writing -/

def GraphNode.value (n : GraphNode) : Value :=
  .obj [("nodeId", .str n.nodeId), ("corpusId", .str n.corpusId), ("layer", .str n.layer),
    ("ref", n.ref), ("label", .str n.label)]

def optionString : Option String → Value
  | none => .null
  | some s => .str s

def GraphEdge.value (e : GraphEdge) : Value :=
  .obj [("edgeId", .str e.edgeId), ("corpusId", .str e.corpusId),
    ("sourceNodeId", .str e.sourceNodeId), ("targetNodeId", .str e.targetNodeId),
    ("relation", .str e.relation), ("weight", .num (.float e.weight)),
    ("bridgeKind", optionString e.bridgeKind)]

def VectorBlobRef.value (r : VectorBlobRef) : Value :=
  .obj ([("offset", numU64 r.offset), ("len", numU64 r.len.toUInt64)] ++
    r.gen.toList.map fun g => ("gen", numU64 g))

def VectorBlobDescriptor.value (d : VectorBlobDescriptor) : Value :=
  .obj [("basename", .str d.basename), ("size", numU64 d.size), ("sha256", .str d.sha256),
    ("format", numU64 d.format.toUInt64)]

def StoredCommitEvidence.value (e : StoredCommitEvidence) : Value :=
  .obj [("schema", .str e.schema), ("transactionNonce", .str e.transactionNonce),
    ("baseGeneration", numU64 e.baseGeneration), ("generation", numU64 e.generation),
    ("walSha256", .str e.walSha256), ("walBytes", numU64 e.walBytes),
    ("walRecordCount", numU64 e.walRecordCount)]

def Passage.value (p : Passage) : Value :=
  .obj [("passageId", .str p.passageId), ("corpusId", .str p.corpusId),
    ("documentId", .str p.documentId), ("text", .str p.text)]

/-- A vector of the canonical document: its reference in place of its values. -/
def PersistedVectorView.value (v : VectorRecord) (blobRef : VectorBlobRef) : Value :=
  .obj [("id", .str v.id), ("corpusId", .str v.corpusId), ("namespace", .str v.namespace),
    ("blobRef", blobRef.value), ("metadata", v.metadata)]

/-- The vectors in the order of their keys; one without a prepared reference cannot be written. -/
def PersistedVectorMapView.members (vectors : Map VectorRecord) (refs : Map VectorBlobRef) :
    Option (List (String × Value)) :=
  vectors.toList.mapM fun p =>
    (refs[p.1]?).map fun blobRef => (p.1, PersistedVectorView.value p.2 blobRef)

structure PersistedStateView where
  state : State
  generation : UInt64
  vectorBlob : VectorBlobDescriptor
  vectorRefs : Map VectorBlobRef
  commitEvidence : StoredCommitEvidence

/-- The canonical document of a generation. -/
def PersistedStateView.value (view : PersistedStateView) : Option Value := do
  let vectors ← PersistedVectorMapView.members view.state.vectors view.vectorRefs
  return .obj [("nodes", Reader.encodeMap GraphNode.value view.state.nodes),
    ("edges", Reader.encodeMap GraphEdge.value view.state.edges),
    ("vectors", .obj vectors),
    ("passages", Reader.encodeMap Passage.value view.state.passages),
    ("snapshots", Reader.encodeMap id view.state.snapshots),
    ("checkpoints", Reader.encodeMap id view.state.checkpoints),
    ("generation", numU64 view.generation),
    ("vectorBlob", view.vectorBlob.value),
    ("commitEvidence", view.commitEvidence.value)]

end AiraGraphdb.Native
