import AiraGraphdb.Schemes.Bincode

/-! # The in-memory graph

The graph that a library session works on, and its form in the snapshot and in the log. A float is
carried by its bits: nothing here computes with it. -/

namespace AiraGraphdb.Library

open Schemes Bincode Std

/-- An IEEE-754 double, as its bits. -/
structure F64 where
  bits : UInt64
  deriving DecidableEq, Repr

inductive Value where
  | string (s : String)
  | int64 (n : Int64)
  | float64 (x : F64)
  | bool (b : Bool)
  | bytes (bs : Bytes)
  deriving DecidableEq

abbrev Properties := ExtTreeMap String Value

structure GraphNode where
  id : String
  labels : List String
  properties : Properties

structure GraphEdge where
  id : String
  src : String
  dst : String
  edgeType : String
  properties : Properties

structure InMemoryGraphStore where
  nodes : ExtTreeMap String GraphNode
  edges : ExtTreeMap String GraphEdge
  nextNodeSeq : UInt64
  nextEdgeSeq : UInt64

def InMemoryGraphStore.new : InMemoryGraphStore := ⟨∅, ∅, 0, 0⟩

/-! ### Stored form -/

/-- The position of a variant in the source's enumeration. -/
def Value.variantIndex : Value → ℕ
  | .string _ => 0
  | .int64 _ => 1
  | .float64 _ => 2
  | .bool _ => 3
  | .bytes _ => 4

def Value.variantCodec : ℕ → Codec Value
  | 0 => Codec.carried Bincode.string (fun | .string s => s | _ => "") (some ∘ .string)
  | 1 => Codec.carried i64 (fun | .int64 n => n | _ => 0) (some ∘ .int64)
  | 2 => Codec.carried u64 (fun | .float64 x => x.bits | _ => 0) (some ∘ .float64 ∘ F64.mk)
  | 3 => Codec.carried Bincode.bool (fun | .bool b => b | _ => false) (some ∘ .bool)
  | 4 => Codec.carried (vec byte) (fun | .bytes bs => bs | _ => []) (some ∘ .bytes)
  | _ => Codec.none

def Value.codec : Codec Value := enum Value.variantIndex Value.variantCodec

theorem Value.codec_lawful : Value.codec.Lawful := by
  refine enum_lawful fun n => ?_
  rcases n with _ | _ | _ | _ | _ | n
  · exact Codec.carried_lawful string_lawful
  · exact Codec.carried_lawful i64_lawful
  · exact Codec.carried_lawful u64_lawful
  · exact Codec.carried_lawful bool_lawful
  · exact Codec.carried_lawful (vec_lawful byte_lawful)
  · exact Codec.none_lawful

def GraphNode.codec : Codec GraphNode :=
  Codec.carried (pair string (pair (vec string) (map Value.codec)))
    (fun n => (n.id, n.labels, n.properties)) (fun p => some ⟨p.1, p.2.1, p.2.2⟩)

theorem GraphNode.codec_lawful : GraphNode.codec.Lawful :=
  Codec.carried_lawful (pair_lawful string_lawful
    (pair_lawful (vec_lawful string_lawful) (map_lawful Value.codec_lawful)))

def GraphEdge.codec : Codec GraphEdge :=
  Codec.carried (pair string (pair string (pair string (pair string (map Value.codec)))))
    (fun e => (e.id, e.src, e.dst, e.edgeType, e.properties))
    (fun p => some ⟨p.1, p.2.1, p.2.2.1, p.2.2.2.1, p.2.2.2.2⟩)

theorem GraphEdge.codec_lawful : GraphEdge.codec.Lawful :=
  Codec.carried_lawful (pair_lawful string_lawful (pair_lawful string_lawful
    (pair_lawful string_lawful (pair_lawful string_lawful (map_lawful Value.codec_lawful)))))

def InMemoryGraphStore.codec : Codec InMemoryGraphStore :=
  Codec.carried (pair (map GraphNode.codec) (pair (map GraphEdge.codec) (pair u64 u64)))
    (fun g => (g.nodes, g.edges, g.nextNodeSeq, g.nextEdgeSeq))
    (fun p => some ⟨p.1, p.2.1, p.2.2.1, p.2.2.2⟩)

theorem InMemoryGraphStore.codec_lawful : InMemoryGraphStore.codec.Lawful :=
  Codec.carried_lawful (pair_lawful (map_lawful GraphNode.codec_lawful)
    (pair_lawful (map_lawful GraphEdge.codec_lawful) (pair_lawful u64_lawful u64_lawful)))

theorem Value.codec_readsFit : Value.codec.ReadsFit := by
  refine enum_readsFit (fun n => ?_) ?_
  · rcases n with _ | _ | _ | _ | _ | n
    · exact Codec.carried_readsFit string_readsFit (by rintro s _ hs ⟨⟩; exact ⟨rfl, hs⟩)
    · exact Codec.carried_readsFit i64_readsFit (by rintro n _ hn ⟨⟩; exact ⟨rfl, hn⟩)
    · exact Codec.carried_readsFit u64_readsFit (by rintro n _ hn ⟨⟩; exact ⟨rfl, hn⟩)
    · exact Codec.carried_readsFit bool_readsFit (by rintro b _ hb ⟨⟩; exact ⟨rfl, hb⟩)
    · exact Codec.carried_readsFit (vec_readsFit byte_readsFit)
        (by rintro bs _ hbs ⟨⟩; exact ⟨rfl, hbs⟩)
    · exact Codec.none_readsFit
  · intro n v h
    rcases n with _ | _ | _ | _ | _ | n
    case succ.succ.succ.succ.succ => exact h.elim
    all_goals cases v <;> first | rfl | simp [Value.variantCodec, Codec.carried] at h

theorem GraphNode.codec_readsFit : GraphNode.codec.ReadsFit := by
  refine Codec.carried_readsFit (pair_readsFit string_readsFit
    (pair_readsFit (vec_readsFit string_readsFit) (map_readsFit Value.codec_readsFit))) ?_
  rintro ⟨id, labels, properties⟩ _ h ⟨⟩
  exact ⟨rfl, h⟩

theorem GraphEdge.codec_readsFit : GraphEdge.codec.ReadsFit := by
  refine Codec.carried_readsFit (pair_readsFit string_readsFit (pair_readsFit string_readsFit
    (pair_readsFit string_readsFit (pair_readsFit string_readsFit
      (map_readsFit Value.codec_readsFit))))) ?_
  rintro ⟨id, src, dst, edgeType, properties⟩ _ h ⟨⟩
  exact ⟨rfl, h⟩

theorem InMemoryGraphStore.codec_readsFit : InMemoryGraphStore.codec.ReadsFit := by
  refine Codec.carried_readsFit (pair_readsFit (map_readsFit GraphNode.codec_readsFit)
    (pair_readsFit (map_readsFit GraphEdge.codec_readsFit)
      (pair_readsFit u64_readsFit u64_readsFit))) ?_
  rintro ⟨nodes, edges, nextNodeSeq, nextEdgeSeq⟩ _ h ⟨⟩
  exact ⟨rfl, h⟩

/-- A graph without nodes and edges can always be written, whatever its counters. -/
theorem InMemoryGraphStore.codec_fits_empty (n e : UInt64) :
    InMemoryGraphStore.codec.Fits ⟨∅, ∅, n, e⟩ := by
  refine ⟨rfl, map_fits.mpr ?_, map_fits.mpr ?_, u64_fits n, u64_fits e⟩ <;> simp

end AiraGraphdb.Library
