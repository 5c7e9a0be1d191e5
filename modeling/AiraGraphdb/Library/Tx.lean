import AiraGraphdb.Library.Storage
import AiraGraphdb.Schemes.Run

/-! # The transaction manager

A session works on its own copy of the graph; a commit replaces the base graph when no other
commit did so since the session began. `step` is one call on the manager. A storage write either
runs to its end or stops with an error after some of its effects, as the call's argument says.
Where a counter would overflow, the process stops and there is no next state. The audit log is
left out: it is written on the side, its failures are ignored and no call reads it. -/

namespace AiraGraphdb.Library

open Schemes Std

structure TxSession where
  graph : InMemoryGraphStore
  baseVersion : UInt64

structure TransactionManager where
  storage : Files
  baseGraph : InMemoryGraphStore
  sessions : ExtTreeMap String TxSession
  txSeq : UInt64
  graphVersion : UInt64

inductive Reply where
  | began (txId : String)
  | ok
  | error (e : GraphDbError)
  deriving DecidableEq

/-- A call by some session. An operation on a session's graph is any function on graphs; a commit
    comes with the number of storage effects after which its write fails, if it does. -/
inductive Call where
  | begin
  | graphMut (txId : String) (op : InMemoryGraphStore → InMemoryGraphStore)
  | commit (txId : String) (stop : Option ℕ)
  | rollback (txId : String)

/-- `n + 1`, unless it overflows. -/
def increment (n : UInt64) : Option UInt64 :=
  if n.toNat + 1 < 2 ^ 64 then some (n + 1) else none

theorem increment_toNat {n m : UInt64} (h : increment n = some m) : m.toNat = n.toNat + 1 := by
  simp only [increment, Option.ite_none_right_eq_some, Option.some.injEq] at h
  obtain ⟨hlt, rfl⟩ := h
  rw [UInt64.toNat_add, UInt64.toNat_one, Nat.mod_eq_of_lt (by simpa using hlt)]

/-- The id of the `n`-th transaction. -/
def txIdOf (n : ℕ) : String := "tx-" ++ n.repr

theorem txIdOf_injective {n m : ℕ} (h : txIdOf n = txIdOf m) : n = m := by
  have := congrArg String.toList h
  simp only [txIdOf, String.toList_append] at this
  exact Nat.repr_injective (String.ext (List.append_cancel_left this))

namespace TransactionManager

variable (json : LegacyJson)

def new (storage : Files) : Except GraphDbError TransactionManager := do
  let (baseGraph, storage) ← loadOrInit json storage
  return ⟨storage, baseGraph, ∅, 0, 0⟩

def begin (t : TransactionManager) : Option (TransactionManager × Reply) := do
  let txSeq ← increment t.txSeq
  let txId := txIdOf txSeq.toNat
  let session := ⟨t.baseGraph, t.graphVersion⟩
  return ({ t with txSeq, sessions := t.sessions.insert txId session }, .began txId)

def unknownTransaction (txId : String) : GraphDbError :=
  ⟨.retryableConflict, "unknown transaction: " ++ txId⟩

def deterministicConflict (txId : String) : GraphDbError :=
  ⟨.retryableConflict, "deterministic conflict for tx_id=" ++ txId⟩

def graphMut (t : TransactionManager) (txId : String)
    (op : InMemoryGraphStore → InMemoryGraphStore) : TransactionManager × Reply :=
  match t.sessions[txId]? with
  | some s =>
    ({ t with sessions := t.sessions.insert txId { s with graph := op s.graph } }, .ok)
  | none => (t, .error (unknownTransaction txId))

/-- The error of a storage write that stopped after `k` effects. -/
def stopError (txId : String) (graph : InMemoryGraphStore) (k : ℕ) : GraphDbError :=
  incompatible (if k = 0 then "open wal failed" else if k < 7 then "write wal header failed"
    else if k < 1 + (walBytes txId (snapshotOf graph)).length then "append wal failed"
    else "write snapshot failed")

/-- The storage write of a commit: all its effects, or the first ones and an error. -/
def persist (storage : Files) (txId : String) (graph : InMemoryGraphStore) (stop : Option ℕ) :
    Files × Except GraphDbError Unit :=
  match stop with
  | none => (done applyEffect (persistAfterWal txId graph) storage, .ok ())
  | some k => (after applyEffect k (persistAfterWal txId graph) storage,
      .error (stopError txId graph k))

def commit (t : TransactionManager) (txId : String) (stop : Option ℕ) :
    Option (TransactionManager × Reply) :=
  match t.sessions[txId]? with
  | none => some (t, .error (unknownTransaction txId))
  | some session =>
    let t := { t with sessions := t.sessions.erase txId }
    if session.baseVersion ≠ t.graphVersion then
      some (t, .error (deterministicConflict txId))
    else match persist t.storage txId session.graph stop with
      | (storage, .error e) => some ({ t with storage }, .error e)
      | (storage, .ok ()) => do
        let graphVersion ← increment t.graphVersion
        return ({ t with storage, baseGraph := session.graph, graphVersion }, .ok)

def rollback (t : TransactionManager) (txId : String) : TransactionManager × Reply :=
  match t.sessions[txId]? with
  | none => (t, .error (unknownTransaction txId))
  | some _ => ({ t with sessions := t.sessions.erase txId }, .ok)

def currentGraph (t : TransactionManager) : InMemoryGraphStore := t.baseGraph

def recover (t : TransactionManager) : Option (Except GraphDbError TransactionManager) :=
  match Library.recover json t.storage with
  | .error e => some (.error e)
  | .ok (baseGraph, storage) => do
    let graphVersion ← increment t.graphVersion
    return .ok { t with baseGraph, storage, sessions := ∅, graphVersion }

def step (t : TransactionManager) : Call → Option (TransactionManager × Reply)
  | .begin => t.begin
  | .graphMut txId op => some (t.graphMut txId op)
  | .commit txId stop => t.commit txId stop
  | .rollback txId => some (t.rollback txId)

/-- The manager of an empty directory. -/
def empty : TransactionManager :=
  ⟨⟨some (encodeSnapshot (snapshotOf .new)), none⟩, .new, ∅, 0, 0⟩

theorem new_empty : new json ⟨none, none⟩ = .ok empty := by
  have hl : loadOrInit json ⟨none, none⟩ = .ok (.new, empty.storage) := by
    rw [loadOrInit, done_persistSnapshot]
    exact loadGraph_encoded json (InMemoryGraphStore.codec_fits_empty 0 0) rfl
  simp only [new, hl, bind, Except.bind, pure, Except.pure]
  rfl

end TransactionManager

end AiraGraphdb.Library
