import AiraGraphdb.Native.Bounded.Deadlines
import AiraGraphdb.Native.Bounded.Ppr
import AiraGraphdb.Schemes.SelfLength

/-! # The replies of bounded operations

A reply is one line of JSON that says, among its counters, how many bytes it has. It goes through a
writer that stops at a limit, and is written again until its own length is right: what is replied is
the shortest line that says its own length (`replies_tell_their_length`). -/

namespace AiraGraphdb.Native.Bounded

open Schemes Schemes.Json

/-! ### The bounded writer -/

structure LimitedWriter where
  bytes : Bytes
  limit : ℕ
  within : bytes.length ≤ limit

namespace LimitedWriter

def new (limit : ℕ) : LimitedWriter := ⟨[], limit, Nat.zero_le _⟩

def write (w : LimitedWriter) (bytes : Bytes) : Option LimitedWriter :=
  if h : w.bytes.length + bytes.length ≤ w.limit then
    some ⟨w.bytes ++ bytes, w.limit, by rwa [List.length_append]⟩
  else none

/-- Writes in a row come to their bytes together, or one of them is too much. -/
theorem write_all : ∀ (pieces : List Bytes) (w : LimitedWriter),
    (pieces.foldlM write w).map bytes
      = if w.bytes.length + pieces.flatten.length ≤ w.limit then some (w.bytes ++ pieces.flatten)
        else none
  | [], w => by
    rw [List.flatten_nil, List.append_nil, List.length_nil, Nat.add_zero, if_pos w.within]
    rfl
  | piece :: pieces, w => by
    rw [List.foldlM_cons, write, List.flatten_cons, List.length_append]
    split_ifs with hpiece hall hall
    · exact (write_all pieces _).trans (by
        rw [List.length_append, Nat.add_assoc, if_pos hall, List.append_assoc])
    · exact (write_all pieces _).trans (by rw [List.length_append, Nat.add_assoc, if_neg hall])
    · omega
    · rfl

end LimitedWriter

section Replies

variable [Externals]

/-- How the text of a value comes to the writer, piece by piece. -/
structure Serializer where
  pieces : Value → List Bytes
  flatten : ∀ value, (pieces value).flatten = value.print floats

variable (json : Serializer)

def serializeLimited (value : Value) (limit : ℕ) : Option Bytes :=
  ((json.pieces value).foldlM LimitedWriter.write (LimitedWriter.new limit)).map LimitedWriter.bytes

theorem serializeLimited_eq (value : Value) (limit : ℕ) :
    serializeLimited json value limit
      = if (value.print floats).length ≤ limit then some (value.print floats) else none := by
  rw [serializeLimited, LimitedWriter.write_all, json.flatten]
  simp [LimitedWriter.new]

def encodeFrame (value : Value) : Option Bytes :=
  (serializeLimited json value (maxResponseFrameBytes - 1)).map (· ++ [lineFeed])

/-! ### Envelopes -/

structure WorkCounters where
  work : WorkCounts
  workUnits : ℕ
  responseBytes : ℕ

def WorkCounters.fromWork (work : WorkCounts) (responseBytes : ℕ) : Option WorkCounters := do
  let workUnits ← work.check
  if maxResponseFrameBytes < responseBytes then none
  return ⟨work, workUnits, responseBytes⟩

def numNat (n : ℕ) : Value := numU64 (UInt64.ofNat n)

/-- The counters, the length of the response last. -/
def WorkCounters.members (c : WorkCounters) : List (String × Value) :=
  [("vectorComparisons", numNat c.work.vectorComparisons),
    ("factsInspected", numNat c.work.factsInspected),
    ("iterations", numNat c.work.iterations),
    ("nodesInitialized", numNat c.work.nodesInitialized),
    ("edgesVisited", numNat c.work.edgesVisited),
    ("graphScanUnits", numNat c.work.graphScanUnits),
    ("objectsConsideredForEncoding", numNat c.work.objectsConsideredForEncoding),
    ("workUnits", numNat c.workUnits)]

def WorkCounters.value (c : WorkCounters) : Value :=
  .obj (c.members ++ [("responseBytes", numNat c.responseBytes)])

/-- The members of an envelope before its counters. -/
def successMembers (id generation : UInt64) (result : Value) : List (String × Value) :=
  [("id", numU64 id), ("ok", .bool true), ("generation", numU64 generation), ("result", result)]

def errorMembers (id generation : UInt64) (cls : FailureClass) : List (String × Value) :=
  [("id", numU64 id), ("ok", .bool false), ("generation", numU64 generation),
    ("error", .obj [("code", .str "REQUEST_EXECUTION_FAILED"), ("failureClass", .str cls.text),
      ("reason", .str cls.reason)])]

/-- An envelope with its counters. -/
def envelope (members : List (String × Value)) (counters : WorkCounters) : Value :=
  .obj (members ++ [("counters", counters.value)])

/-- At most eight attempts at an envelope that says its own length. -/
def encodeEnvelope (generation : UInt64) (members : List (String × Value)) (work : WorkCounts) :
    Option Bytes :=
  if maxSafeGeneration < generation.toNat then none
  else settle (fun advertised => do
    let counters ← WorkCounters.fromWork work advertised
    encodeFrame json (envelope members counters)) 8 0

def encodeSuccess (id generation : UInt64) (result : Value) (work : WorkCounts) : Option Bytes :=
  encodeEnvelope json generation (successMembers id generation result) work

def encodeError (id generation : UInt64) (work : WorkCounts) (cls : FailureClass) : Option Bytes :=
  encodeEnvelope json generation (errorMembers id generation cls) work

/-! ### Handling a frame -/

/-- `encode_success_before_deadline`: the clock is read before and after. -/
def encodeSuccessBeforeDeadline (id generation : UInt64) (value : Value) : Run Bytes := do
  beforeMaterialization
  let meter ← get
  let frame ← orFail (encodeSuccess json id generation value meter.work) .resource
  beforeMaterialization
  return frame

/-- What is sent when even the error cannot be encoded. -/
def bareError : Bytes := utf8 "\x7b\"id\":0,\"ok\":false\x7d\n"

def failureReply (id generation : UInt64) (failure : ExecutionFailure) : Bytes :=
  (encodeError json id generation failure.work failure.cls).getD bareError

/-- The frame of a success, or the failure that is to be reported; the meter is the one that the
operation ended with. -/
def encodeOutcome (id generation : UInt64) :
    FrameOutcome (Value × Meter) → Except ExecutionFailure Bytes
  | .rejected failure => .error failure
  | .admitted _ _ (.error failure) => .error failure
  | .admitted _ _ (.ok (value, meter)) =>
    (encodeSuccessBeforeDeadline json id generation value meter).map Prod.fst

def replyOf (id generation : UInt64) : Except ExecutionFailure Bytes → Bytes
  | .ok frame => frame
  | .error failure => failureReply json id generation failure

/-- An operation that also tells the meter it ends with. -/
def metered (operate : BoundedRequest → Run Value) (request : BoundedRequest) : Run (Value × Meter) := do
  let value ← operate request
  let meter ← get
  return (value, meter)

/-- The id a frame is answered under. -/
def frameId (frame : Bytes) : UInt64 := ((parseRequestFrame frame).map BoundedRequest.id).getD 0

/-- `handle_bounded_frame`: the session after a frame, and what is to be replied. -/
def handled (latest : ℕ) (generation : UInt64) (operate : BoundedRequest → Run Value) (s : Session)
    (frame : Bytes) (now : ℕ) (clock : ℕ → ℕ) : Session × Except ExecutionFailure Bytes :=
  (handleBoundedFrame latest generation.toNat (metered operate) s frame now clock).map id
    (encodeOutcome json (frameId frame) generation)

def replyToFrame (latest : ℕ) (generation : UInt64) (operate : BoundedRequest → Run Value)
    (s : Session) (frame : Bytes) (now : ℕ) (clock : ℕ → ℕ) : Session × Bytes :=
  (handled json latest generation operate s frame now clock).map id
    (replyOf json (frameId frame) generation)

/-! ### Envelopes that say their own length -/

/-- The frame of an envelope with these counters, if the work is within its caps. -/
def frameOf (members : List (String × Value)) (work : WorkCounts) (responseBytes : ℕ) : Option Bytes :=
  work.check.map fun workUnits =>
    (envelope members ⟨work, workUnits, responseBytes⟩).print floats ++ [lineFeed]

/-- A frame that says of itself how long it is. -/
def Tells (members : List (String × Value)) (work : WorkCounts) (frame : Bytes) : Prop :=
  frameOf members work frame.length = some frame

/-- A frame is as long as the number in it, and what does not depend on that number. -/
theorem length_frame (members : List (String × Value)) (work : WorkCounts) (workUnits : ℕ) :
    ∃ base, ∀ n < 2 ^ 64,
      ((envelope members ⟨work, workUnits, n⟩).print floats ++ [lineFeed]).length
        = base + (decimal n).length := by
  obtain ⟨outer, houter⟩ := print_last floats "counters" members
  obtain ⟨inner, hinner⟩ := print_last floats "responseBytes"
    (WorkCounters.members ⟨work, workUnits, 0⟩)
  refine ⟨outer.length + inner.length + 3, fun n hn => ?_⟩
  have hcounters : (WorkCounters.value ⟨work, workUnits, n⟩).print floats
      = inner ++ decimal n ++ [0x7D] := by
    refine (hinner (numNat n)).trans ?_
    rw [show (numNat n).print floats = decimal (UInt64.ofNat n).toNat from rfl,
      UInt64.toNat_ofNat_of_lt' hn]
  rw [envelope, houter, hcounters]
  simp only [List.length_append, List.length_singleton]
  omega

variable {json} {generation : UInt64} {members : List (String × Value)} {work : WorkCounts}

/-- The encoder comes to the shortest envelope that says its own length, unless that is too long. -/
theorem encodeEnvelope_eq (hgeneration : generation.toNat ≤ maxSafeGeneration) {workUnits : ℕ}
    (hwork : work.check = some workUnits) {base : ℕ}
    (hbase : ∀ n < 2 ^ 64, ((envelope members ⟨work, workUnits, n⟩).print floats
      ++ [lineFeed]).length = base + (decimal n).length) :
    encodeEnvelope json generation members work
      = if ownLength (fun n => (decimal n).length) base ≤ maxResponseFrameBytes then
          frameOf members work (ownLength (fun n => (decimal n).length) base)
        else none := by
  have hsmall : maxResponseFrameBytes < 2 ^ 64 := by decide
  rw [encodeEnvelope, if_neg (Nat.not_lt.mpr hgeneration), frameOf, hwork, Option.map_some]
  refine settle_eq decimal_numeral (fun n hn => hbase n (by omega)) (fun n hn => ?_) 4
  rw [WorkCounters.fromWork, hwork]
  simp only [Option.bind_eq_bind, Option.bind_some, if_neg (Nat.not_lt.mpr hn)]
  show encodeFrame json _ = _
  rw [encodeFrame, serializeLimited_eq, List.length_append, List.length_singleton]
  have hmax : maxResponseFrameBytes = 2097152 := rfl
  split_ifs with hfits hwhole hwhole
  · rfl
  · omega
  · omega
  · rfl

/-- The number of bytes a reply says is its own, and no shorter envelope would say the truth; what is
not encoded has no such envelope within the limit. -/
theorem encodeEnvelope_iff (frame : Bytes) :
    encodeEnvelope json generation members work = some frame ↔
      generation.toNat ≤ maxSafeGeneration ∧ frame.length ≤ maxResponseFrameBytes
        ∧ Tells members work frame
        ∧ ∀ other, Tells members work other → frame.length ≤ other.length := by
  by_cases hgeneration : generation.toNat ≤ maxSafeGeneration
  swap
  · rw [encodeEnvelope, if_pos (Nat.lt_of_not_le hgeneration)]
    exact ⟨fun h => absurd h (by simp), fun h => absurd h.1 hgeneration⟩
  rcases hwork : work.check with _ | workUnits
  · have hnone : ∀ bytes, ¬ Tells members work bytes := fun bytes h => by
      rw [Tells, frameOf, hwork] at h
      cases h
    refine ⟨fun h => ?_, fun h => absurd h.2.2.1 (hnone frame)⟩
    rw [encodeEnvelope, if_neg (Nat.not_lt.mpr hgeneration), settle, WorkCounters.fromWork, hwork] at h
    cases h
  obtain ⟨base, hbase⟩ := length_frame members work workUnits
  have hleast := ownLength_least decimal_numeral base
  have hsmall : maxResponseFrameBytes < 2 ^ 64 := by decide
  -- what says its own length has a length that is right
  have htells : ∀ {bytes : Bytes}, Tells members work bytes → bytes.length < 2 ^ 64 →
      ownLength (fun n => (decimal n).length) base ≤ bytes.length := by
    intro bytes h hlt
    rw [Tells, frameOf, hwork, Option.map_some, Option.some.injEq] at h
    refine hleast.2 ?_
    show base + (decimal bytes.length).length = bytes.length
    rw [← hbase _ hlt, h]
  rw [encodeEnvelope_eq hgeneration hwork hbase]
  split_ifs with hfits
  · have hown : ∀ {bytes}, frameOf members work (ownLength (fun n => (decimal n).length) base)
        = some bytes → bytes.length = ownLength (fun n => (decimal n).length) base := by
      intro bytes h
      rw [frameOf, hwork, Option.map_some, Option.some.injEq] at h
      rw [← h, hbase _ (by omega)]
      exact hleast.1
    constructor
    · intro h
      have hlength := hown h
      refine ⟨hgeneration, hlength ▸ hfits, by rw [Tells, hlength]; exact h, fun other hother => ?_⟩
      rw [hlength]
      rcases Nat.lt_or_ge other.length (2 ^ 64) with hlt | hge
      · exact htells hother hlt
      · omega
    · rintro ⟨-, hle, hframe, hshortest⟩
      have hge := htells hframe (by omega)
      have hexists : frameOf members work (ownLength (fun n => (decimal n).length) base)
          = some ((envelope members ⟨work, workUnits, ownLength (fun n => (decimal n).length) base⟩).print
            floats ++ [lineFeed]) := by
        rw [frameOf, hwork, Option.map_some]
      have hlength := hown hexists
      have hother := hshortest _ (by rw [Tells, hlength]; exact hexists)
      have heq : frame.length = ownLength (fun n => (decimal n).length) base := by omega
      rw [← heq]
      exact hframe
  · refine ⟨fun h => absurd h (by simp), fun h => absurd (htells h.2.2.1 (by omega)) ?_⟩
    have := h.2.1
    omega

/-! ### Errors are always encoded -/

theorem length_printMembers (ms : List (String × Value)) :
    (printMembers (rawMembers floats ms)).length
      = 1 + (ms.map fun m => 4 + (escape (utf8 m.1)).length + (m.2.print floats).length).sum := by
  induction ms with
  | nil => rfl
  | cons m ms ih =>
    rw [rawMembers, printMembers, List.map_cons, List.sum_cons]
    simp only [List.length_cons, List.length_append, ih, Value.print]
    omega

/-- Short keys and short values make a short object. -/
theorem length_print_obj_le (K V : ℕ) {ms : List (String × Value)}
    (h : ∀ m ∈ ms, (escape (utf8 m.1)).length ≤ K ∧ (m.2.print floats).length ≤ V) :
    ((Value.obj ms).print floats).length ≤ 2 + ms.length * (4 + K + V) := by
  have hsum : ∀ ms : List (String × Value),
      (∀ m ∈ ms, (escape (utf8 m.1)).length ≤ K ∧ (m.2.print floats).length ≤ V) →
        (ms.map fun m => 4 + (escape (utf8 m.1)).length + (m.2.print floats).length).sum
          ≤ ms.length * (4 + K + V) := by
    intro ms h
    refine (List.sum_le_card_nsmul _ (4 + K + V) fun x hx => ?_).trans (by simp)
    obtain ⟨m, hm, rfl⟩ := List.mem_map.mp hx
    have := h m hm
    omega
  cases ms with
  | nil => simp [Value.print, Value.raw, rawMembers, Raw.print]
  | cons m ms =>
    have hm := h m (by simp)
    have hrest := hsum ms fun n hn => h n (by simp [hn])
    have hmembers := length_printMembers ms
    simp only [Value.print, Value.raw, rawMembers, Raw.print, List.length_cons, List.length_append]
      at hmembers hm hrest ⊢
    rw [Nat.add_one_mul]
    omega

theorem length_numNat_le (n : ℕ) : ((numNat n).print floats).length ≤ 20 :=
  (length_decimal_le_iff 19).mpr (lt_of_lt_of_le (UInt64.toNat_lt _) (by decide))

theorem length_counters_le (c : WorkCounters) : (c.value.print floats).length ≤ 470 := by
  refine (length_print_obj_le 28 20 fun m hm => ?_).trans (by simp [WorkCounters.members])
  have hkeys : ∀ k ∈ ["vectorComparisons", "factsInspected", "iterations", "nodesInitialized",
      "edgesVisited", "graphScanUnits", "objectsConsideredForEncoding", "workUnits",
      "responseBytes"], (escape (utf8 k)).length ≤ 28 := by decide
  simp only [WorkCounters.members, List.cons_append, List.nil_append, List.mem_cons,
    List.not_mem_nil, or_false] at hm
  rcases hm with rfl | rfl | rfl | rfl | rfl | rfl | rfl | rfl | rfl <;>
    exact ⟨hkeys _ (by simp), length_numNat_le _⟩

theorem length_error_le (id generation : UInt64) (cls : FailureClass) (c : WorkCounters) :
    ((envelope (errorMembers id generation cls) c).print floats).length ≤ 2512 := by
  have hkeys : ∀ k ∈ ["id", "ok", "generation", "error", "counters", "code", "failureClass",
      "reason"], (escape (utf8 k)).length ≤ 28 := by decide
  have hnumber : ∀ n : UInt64, ((numU64 n).print floats).length ≤ 20 := fun n =>
    (length_decimal_le_iff 19).mpr (lt_of_lt_of_le n.toNat_lt (by decide))
  have hok : ((Value.bool false).print floats).length = 5 := rfl
  have herror : ((Value.obj [("code", .str "REQUEST_EXECUTION_FAILED"),
      ("failureClass", .str cls.text), ("reason", .str cls.reason)]).print floats).length ≤ 248 := by
    refine (length_print_obj_le 28 50 fun m hm => ?_).trans (by simp)
    simp only [List.mem_cons, List.not_mem_nil, or_false] at hm
    have htext : ∀ text ∈ ["REQUEST_EXECUTION_FAILED", cls.text, cls.reason],
        (escape (utf8 text)).length + 2 ≤ 50 := by
      cases cls <;> decide
    have hstring : ∀ text : String,
        ((Value.str text).print floats).length = (escape (utf8 text)).length + 2 := fun text => by
      simp [Value.print, Value.raw, Raw.print]
    rcases hm with rfl | rfl | rfl <;>
      exact ⟨hkeys _ (by simp), (hstring _).trans_le (htext _ (by simp))⟩
  refine (length_print_obj_le 28 470 fun m hm => ?_).trans (by simp [errorMembers])
  simp only [errorMembers, List.cons_append, List.nil_append, List.mem_cons, List.not_mem_nil,
    or_false] at hm
  have hid := hnumber id
  have hgeneration := hnumber generation
  rcases hm with rfl | rfl | rfl | rfl | rfl
  · exact ⟨hkeys _ (by simp), hid.trans (by decide)⟩
  · exact ⟨hkeys _ (by simp), hok.trans_le (by decide)⟩
  · exact ⟨hkeys _ (by simp), hgeneration.trans (by decide)⟩
  · exact ⟨hkeys _ (by simp), herror.trans (by decide)⟩
  · exact ⟨hkeys _ (by simp), length_counters_le c⟩

/-- An error is encoded when its work is within the caps, whatever it says. -/
theorem encodeError_isSome {id : UInt64} {cls : FailureClass}
    (hgeneration : generation.toNat ≤ maxSafeGeneration) (hwork : work ≤ WorkCounts.caps) :
    (encodeError json id generation work cls).isSome = true := by
  obtain ⟨workUnits, hcheck⟩ := Option.isSome_iff_exists.mp (WorkCounts.check_isSome.mpr hwork)
  obtain ⟨base, hbase⟩ := length_frame (errorMembers id generation cls) work workUnits
  have hzero := hbase 0 (by decide)
  rw [List.length_append, List.length_singleton] at hzero
  have hshort := length_error_le id generation cls ⟨work, workUnits, 0⟩
  have hfirst : (decimal (base + 1)).length ≤ 4 := (length_decimal_le_iff 3).mpr (by omega)
  have hsecond : (decimal (base + (decimal (base + 1)).length)).length ≤ 4 :=
    (length_decimal_le_iff 3).mpr (by omega)
  have hmax : maxResponseFrameBytes = 2097152 := rfl
  rw [encodeError, encodeEnvelope_eq hgeneration hcheck hbase, if_pos (by
    rw [ownLength]
    omega), frameOf, hcheck]
  rfl

/-! ### The reply to a frame -/

/-- One line, and no more of it than the reader of replies takes. -/
structure IsLine (limit : ℕ) (bytes : Bytes) : Prop where
  line : ∃ text, bytes = text ++ [lineFeed] ∧ lineFeed ∉ text
  within : bytes.length ≤ limit

theorem isLine_of_encoded {frame : Bytes}
    (h : encodeEnvelope json generation members work = some frame) :
    IsLine maxResponseFrameBytes frame := by
  obtain ⟨-, hlength, htells, -⟩ := (encodeEnvelope_iff frame).mp h
  obtain ⟨workUnits, -, htext⟩ := Option.map_eq_some_iff.mp htells
  refine ⟨⟨_, htext.symm, fun hmem => ?_⟩, hlength⟩
  exact absurd (ge_of_mem_print floats _ lineFeed hmem) (by decide)

omit [Externals] in
theorem isLine_bareError : IsLine maxResponseFrameBytes bareError := by
  refine ⟨⟨utf8 "\x7b\"id\":0,\"ok\":false\x7d", ?_, ?_⟩, ?_⟩ <;> decide

/-- What a reply can be: a result, a failure, or the bare error. The first two say their own length. -/
inductive Replied (id generation : UInt64) (reply : Bytes) : Prop
  | success (result : Value) (work : WorkCounts)
      (h : Tells (successMembers id generation result) work reply)
  | failure (cls : FailureClass) (work : WorkCounts)
      (h : Tells (errorMembers id generation cls) work reply)
  | bare (h : reply = bareError)

/-- A success was encoded from the value of the operation and the work it did. -/
theorem encodeSuccessBeforeDeadline_ok {id : UInt64} {value : Value} {m m' : Meter} {frame : Bytes}
    (h : encodeSuccessBeforeDeadline json id generation value m = .ok (frame, m')) :
    encodeSuccess json id generation value m.work = some frame := by
  rw [encodeSuccessBeforeDeadline, Proc.bind_apply] at h
  rcases hfirst : beforeMaterialization m with e | ⟨⟨⟩, m₁⟩
  · rw [hfirst] at h
    cases h
  have hwork : m₁.work = m.work := by
    rw [beforeMaterialization, checkpoint] at hfirst
    split at hfirst
    · cases hfirst
      rfl
    · cases hfirst
  rw [hfirst] at h
  dsimp only at h
  rw [Proc.bind_apply, show (get : Run Meter) m₁ = .ok (m₁, m₁) from rfl] at h
  dsimp only at h
  rw [hwork] at h
  rcases hframe : encodeSuccess json id generation value m.work with _ | encoded
  · rw [hframe, orFail, Proc.ofOption, Proc.fail_bind] at h
    cases h
  · rw [hframe, orFail, Proc.ofOption, pure_bind, Proc.bind_apply] at h
    rcases hsecond : beforeMaterialization m₁ with e | ⟨⟨⟩, m₂⟩
    · rw [hsecond] at h
      cases h
    · rw [hsecond] at h
      cases h
      rfl

theorem encodeOutcome_ok {id : UInt64} {outcome : FrameOutcome (Value × Meter)} {frame : Bytes}
    (h : encodeOutcome json id generation outcome = .ok frame) :
    ∃ value work, encodeSuccess json id generation value work = some frame := by
  rcases outcome with failure | ⟨request, granted, failure | ⟨value, meter⟩⟩
  · cases h
  · cases h
  · rw [encodeOutcome] at h
    rcases hrun : encodeSuccessBeforeDeadline json id generation value meter with e | ⟨encoded, m'⟩
    · rw [hrun] at h
      cases h
    · rw [hrun] at h
      cases h
      exact ⟨value, meter.work, encodeSuccessBeforeDeadline_ok hrun⟩

/-- The bare error says nothing about its length. -/
theorem not_tells_bareError : ¬ Tells members work bareError := by
  intro h
  obtain ⟨workUnits, -, htext⟩ := Option.map_eq_some_iff.mp h
  obtain ⟨outer, houter⟩ := print_last floats "counters" members
  obtain ⟨inner, hinner⟩ := print_last floats "responseBytes"
    (WorkCounters.members ⟨work, workUnits, bareError.length⟩)
  -- an envelope ends with two braces, the bare error with one
  have hend := congrArg (fun bytes : Bytes => bytes.reverse.take 3) htext
  rw [envelope, houter, show (WorkCounters.value ⟨work, workUnits, bareError.length⟩).print floats
    = _ from hinner _] at hend
  simp only [List.reverse_append, List.reverse_cons, List.reverse_nil, List.nil_append,
    List.cons_append, List.take_succ_cons, List.take_zero] at hend
  revert hend
  decide

/-- A line within the limit that says its own length; the bare error stands only for a failure whose
work is over the caps. -/
structure WellReplied (id generation : UInt64) (outcome : Except ExecutionFailure Bytes)
    (reply : Bytes) : Prop where
  line : IsLine maxResponseFrameBytes reply
  replied : Replied id generation reply
  bare_iff : generation.toNat ≤ maxSafeGeneration → (reply = bareError ↔
    ∃ failure, outcome = .error failure ∧ ¬ failure.work ≤ WorkCounts.caps)

theorem replyOf_spec {id : UInt64} {outcome : Except ExecutionFailure Bytes}
    (h : ∀ frame, outcome = .ok frame →
      ∃ value work, encodeSuccess json id generation value work = some frame) :
    WellReplied id generation outcome (replyOf json id generation outcome) := by
  rcases outcome with failure | frame
  · rw [replyOf, failureReply]
    rcases herror : encodeError json id generation failure.work failure.cls with _ | encoded
    · refine ⟨isLine_bareError, .bare rfl, fun hgeneration => ⟨fun _ => ?_, fun _ => rfl⟩⟩
      refine ⟨failure, rfl, fun hwork => ?_⟩
      have hsome := @encodeError_isSome _ json generation _ id failure.cls hgeneration hwork
      rw [herror] at hsome
      cases hsome
    · obtain ⟨-, -, htells, -⟩ := (encodeEnvelope_iff encoded).mp herror
      refine ⟨isLine_of_encoded herror, .failure _ _ htells, fun hgeneration => ⟨?_, ?_⟩⟩
      · intro hbare
        have hbare : encoded = bareError := hbare
        exact absurd (hbare ▸ htells) not_tells_bareError
      · rintro ⟨failure', heq, hwork⟩
        injection heq with heq
        obtain ⟨workUnits, hcheck, -⟩ := Option.map_eq_some_iff.mp htells
        exact absurd (WorkCounts.check_isSome.mp (by rw [hcheck]; rfl)) (heq ▸ hwork)
  · obtain ⟨value, work, hencoded⟩ := h frame rfl
    obtain ⟨-, -, htells, -⟩ := (encodeEnvelope_iff frame).mp hencoded
    refine ⟨isLine_of_encoded hencoded, .success value work htells, fun _ => ⟨?_, ?_⟩⟩
    · intro hbare
      have hbare : frame = bareError := hbare
      exact absurd (hbare ▸ htells) not_tells_bareError
    · rintro ⟨failure, heq, -⟩
      cases heq

/-- Every frame gets a reply of this kind. -/
theorem replyToFrame_spec (latest : ℕ) (operate : BoundedRequest → Run Value) (s : Session)
    (frame : Bytes) (now : ℕ) (clock : ℕ → ℕ) :
    WellReplied (frameId frame) generation
      (handled json latest generation operate s frame now clock).2
      (replyToFrame json latest generation operate s frame now clock).2 :=
  replyOf_spec fun _ h => encodeOutcome_ok h

variable (json) in
/-- A reply is encoded exactly when there is a line within the limit that says its own length, and it
is the shortest of them. An error always has one, as long as its work is within the caps. -/
theorem replies_tell_their_length (id generation : UInt64) (result : Value) (cls : FailureClass)
    (work : WorkCounts) (frame : Bytes) :
    (encodeSuccess json id generation result work = some frame ↔
      generation.toNat ≤ maxSafeGeneration ∧ frame.length ≤ maxResponseFrameBytes
        ∧ Tells (successMembers id generation result) work frame
        ∧ ∀ other, Tells (successMembers id generation result) work other →
          frame.length ≤ other.length)
    ∧ (encodeError json id generation work cls = some frame ↔
      generation.toNat ≤ maxSafeGeneration ∧ frame.length ≤ maxResponseFrameBytes
        ∧ Tells (errorMembers id generation cls) work frame
        ∧ ∀ other, Tells (errorMembers id generation cls) work other → frame.length ≤ other.length)
    ∧ ((encodeError json id generation work cls).isSome = true ↔
      generation.toNat ≤ maxSafeGeneration ∧ work ≤ WorkCounts.caps) := by
  refine ⟨encodeEnvelope_iff frame, encodeEnvelope_iff frame, fun h => ?_, fun h =>
    encodeError_isSome h.1 h.2⟩
  obtain ⟨encoded, hencoded⟩ := Option.isSome_iff_exists.mp h
  obtain ⟨hgeneration, -, htells, -⟩ := (encodeEnvelope_iff encoded).mp hencoded
  obtain ⟨workUnits, hcheck, -⟩ := Option.map_eq_some_iff.mp htells
  exact ⟨hgeneration, WorkCounts.check_isSome.mp (by rw [hcheck]; rfl)⟩

end Replies

end AiraGraphdb.Native.Bounded
