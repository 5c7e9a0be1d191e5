import AiraGraphdb.Native.Bounded.Request
import AiraGraphdb.Native.Concrete

/-! # Deadlines of operations and of sessions

An operation asks its deadline before it allocates, before it materializes and after every 1024 units
of work. A descriptor session has a deadline of its own, which every admitted frame can only bring
nearer: the candidate is previewed first and stored once the frame is admitted. -/

namespace AiraGraphdb.Native.Bounded

open Schemes Schemes.Json

/-! ### The deadline of an operation -/

/-- A checkpoint together with the state it leaves behind, also where it fails. -/
def MonotonicDeadline.checkpointed (d : MonotonicDeadline) (nowMs completedUnits : ℕ) :
    MonotonicDeadline × Except DeadlineError Unit :=
  if nowMs < d.lastNowMs then (d, .error .clockRegression)
  else if completedUnits < d.completedUnits then
    ({ d with lastNowMs := nowMs }, .error .workRegression)
  else if deadlineCheckIntervalUnits < completedUnits - d.completedUnits then
    ({ d with lastNowMs := nowMs }, .error .checkpointGap)
  else if d.deadlineMs ≤ nowMs then
    ({ d with lastNowMs := nowMs, completedUnits := completedUnits }, .error .deadlineExceeded)
  else ({ d with lastNowMs := nowMs, completedUnits := completedUnits }, .ok ())

theorem MonotonicDeadline.checkpoint_eq_checkpointed (d : MonotonicDeadline)
    (nowMs completedUnits : ℕ) :
    d.checkpoint nowMs completedUnits = (d.checkpointed nowMs completedUnits).2.map fun _ =>
      (d.checkpointed nowMs completedUnits).1 := by
  rw [checkpoint, checkpointed]
  split_ifs <;> rfl

structure ExecutionDeadline where
  deadline : MonotonicDeadline
  completedUnits : ℕ
  lastCheckpointUnits : ℕ

inductive DeadlineCall where
  | advance
  | beforeAllocation
  | beforeMaterialization
  deriving DecidableEq

/-- The units of work that a call completes. -/
def DeadlineCall.units : DeadlineCall → ℕ
  | advance => 1
  | beforeAllocation => 0
  | beforeMaterialization => 0

/-- What comes of a call: it succeeds without a look at the clock, it cannot count any further, or it
looks at the clock. -/
inductive CallAnswer where
  | unchecked
  | overflow
  | checked (result : Except DeadlineError Unit)

namespace CallAnswer

def Failed : CallAnswer → Prop
  | unchecked => False
  | overflow => True
  | checked result => ∃ e, result = .error e

def Checks : CallAnswer → Prop
  | checked _ => True
  | _ => False

end CallAnswer

namespace ExecutionDeadline

def new (remainingMs : ℕ) : Except DeadlineError ExecutionDeadline :=
  (MonotonicDeadline.new 0 remainingMs).map fun deadline => ⟨deadline, 0, 0⟩

def checkpoint (d : ExecutionDeadline) (nowMs : ℕ) : ExecutionDeadline × CallAnswer :=
  match d.deadline.checkpointed nowMs d.completedUnits with
  | (deadline, .ok ()) =>
    ({ d with deadline := deadline, lastCheckpointUnits := d.completedUnits }, .checked (.ok ()))
  | (deadline, .error e) => ({ d with deadline := deadline }, .checked (.error e))

def advance (d : ExecutionDeadline) (units nowMs : ℕ) : ExecutionDeadline × CallAnswer :=
  match checkedAdd d.completedUnits units with
  | none => (d, .overflow)
  | some n =>
    if deadlineCheckIntervalUnits ≤ n - d.lastCheckpointUnits then
      checkpoint { d with completedUnits := n } nowMs
    else ({ d with completedUnits := n }, .unchecked)

def call (d : ExecutionDeadline) (c : DeadlineCall) (nowMs : ℕ) : ExecutionDeadline × CallAnswer :=
  match c with
  | .advance => d.advance 1 nowMs
  | .beforeAllocation => d.checkpoint nowMs
  | .beforeMaterialization => d.checkpoint nowMs

/-- No deadline overflows when it is made. -/
theorem new_eq (remainingMs : ℕ) :
    new remainingMs = .ok ⟨⟨min remainingMs maxOperationDeadlineMs, 0, 0⟩, 0, 0⟩ := by
  have hmax : maxOperationDeadlineMs < 2 ^ 64 := by decide
  rw [new, MonotonicDeadline.new, checkedAdd, if_pos (by omega), Nat.zero_add]
  rfl

/-- The state after some calls, each with what the clock shows at it. -/
def after (remainingMs : ℕ) (calls : List (DeadlineCall × ℕ)) : ExecutionDeadline :=
  calls.foldl (fun d c => (d.call c.1 c.2).1) ⟨⟨min remainingMs maxOperationDeadlineMs, 0, 0⟩, 0, 0⟩

/-- What comes of one more call. -/
def answerAfter (remainingMs : ℕ) (calls : List (DeadlineCall × ℕ)) (c : DeadlineCall × ℕ) :
    CallAnswer := ((after remainingMs calls).call c.1 c.2).2

theorem after_concat (remainingMs : ℕ) (calls : List (DeadlineCall × ℕ)) (c : DeadlineCall × ℕ) :
    after remainingMs (calls ++ [c]) = ((after remainingMs calls).call c.1 c.2).1 := by
  rw [after, List.foldl_append]
  rfl

/-- What holds between calls, the last of them not after `t`: the units known to the inner deadline
are those of the last look at the clock, whether it failed or not. -/
structure Kept (deadlineMs t : ℕ) (d : ExecutionDeadline) : Prop where
  deadline_eq : d.deadline.deadlineMs = deadlineMs
  onward : d.deadline.lastNowMs ≤ t
  checked_le : d.lastCheckpointUnits ≤ d.deadline.completedUnits
  completed_le : d.deadline.completedUnits ≤ d.completedUnits
  gap : d.completedUnits < d.deadline.completedUnits + deadlineCheckIntervalUnits
  fits : d.completedUnits < 2 ^ 64

/-- The answer of a call that looks at the clock. -/
def verdict (deadlineMs nowMs : ℕ) : Except DeadlineError Unit :=
  if deadlineMs ≤ nowMs then .error .deadlineExceeded else .ok ()

section Steps

variable {deadlineMs t nowMs : ℕ} {d : ExecutionDeadline}

theorem checkpoint_kept (hd : d.deadline.deadlineMs = deadlineMs)
    (hnow : d.deadline.lastNowMs ≤ nowMs) (hlast : d.lastCheckpointUnits ≤ d.deadline.completedUnits)
    (hle : d.deadline.completedUnits ≤ d.completedUnits)
    (hgap : d.completedUnits ≤ d.deadline.completedUnits + deadlineCheckIntervalUnits)
    (hfits : d.completedUnits < 2 ^ 64) :
    Kept deadlineMs nowMs (d.checkpoint nowMs).1
      ∧ (d.checkpoint nowMs).2 = .checked (verdict deadlineMs nowMs)
      ∧ (d.checkpoint nowMs).1.completedUnits = d.completedUnits := by
  have hpos : 0 < deadlineCheckIntervalUnits := by decide
  rw [checkpoint, MonotonicDeadline.checkpointed, if_neg (by omega), if_neg (by omega),
    if_neg (by omega), hd, verdict]
  split_ifs with hlate
  · exact ⟨⟨rfl, le_rfl, hlast.trans hle, le_rfl, by simpa using hpos, hfits⟩, rfl, rfl⟩
  · exact ⟨⟨rfl, le_rfl, le_rfl, le_rfl, by simpa using hpos, hfits⟩, rfl, rfl⟩

/-- What one call does to a deadline in order: it looks at the clock, or it is a unit of work that
is counted, or one that cannot be. -/
theorem call_cases (h : Kept deadlineMs t d) (ht : t ≤ nowMs) (c : DeadlineCall) :
    ((d.call c nowMs).2 = .checked (verdict deadlineMs nowMs)
        ∧ d.completedUnits + c.units < 2 ^ 64
        ∧ (d.call c nowMs).1.completedUnits = d.completedUnits + c.units
        ∧ Kept deadlineMs nowMs (d.call c nowMs).1) ∨
    (c = .advance ∧ d.completedUnits + 1 < 2 ^ 64 ∧ (d.call c nowMs).2 = .unchecked
        ∧ (d.call c nowMs).1 = { d with completedUnits := d.completedUnits + 1 }
        ∧ Kept deadlineMs nowMs (d.call c nowMs).1) ∨
    (c = .advance ∧ d.completedUnits + 1 = 2 ^ 64 ∧ d.call c nowMs = (d, .overflow)) := by
  have hnow := h.onward.trans ht
  have hgap := h.gap
  have hle := h.completed_le
  have hlast := h.checked_le
  have hfits := h.fits
  have hcheck : (d.checkpoint nowMs).2 = .checked (verdict deadlineMs nowMs)
      ∧ d.completedUnits + 0 < 2 ^ 64
      ∧ (d.checkpoint nowMs).1.completedUnits = d.completedUnits + 0
      ∧ Kept deadlineMs nowMs (d.checkpoint nowMs).1 := by
    obtain ⟨hkept, hanswer, hunits⟩ :=
      checkpoint_kept h.deadline_eq hnow hlast hle hgap.le hfits
    exact ⟨hanswer, hfits, hunits, hkept⟩
  cases c with
  | beforeAllocation => exact .inl hcheck
  | beforeMaterialization => exact .inl hcheck
  | advance =>
    rw [call, advance, checkedAdd]
    by_cases hroom : d.completedUnits + 1 < 2 ^ 64
    · rw [if_pos hroom]
      dsimp only
      split_ifs with hinterval
      · -- the unit that fills the interval is counted before the look at the clock
        obtain ⟨hkept, hanswer, hunits⟩ := checkpoint_kept
          (d := { d with completedUnits := d.completedUnits + 1 }) h.deadline_eq hnow hlast
          (hle.trans (Nat.le_succ _)) (Nat.succ_le_of_lt hgap) hroom
        exact .inl ⟨hanswer, hroom, hunits, hkept⟩
      · refine .inr (.inl ⟨rfl, hroom, rfl, rfl, h.deadline_eq, hnow, hlast,
          hle.trans (Nat.le_succ _), ?_, hroom⟩)
        show d.completedUnits + 1 < d.deadline.completedUnits + deadlineCheckIntervalUnits
        omega
    · rw [if_neg hroom]
      exact .inr (.inr ⟨rfl, by omega, rfl⟩)

theorem Kept.mono (h : Kept deadlineMs t d) (ht : t ≤ nowMs) : Kept deadlineMs nowMs d :=
  { h with onward := h.onward.trans ht }

theorem call_kept (h : Kept deadlineMs t d) (ht : t ≤ nowMs) (c : DeadlineCall) :
    Kept deadlineMs nowMs (d.call c nowMs).1 := by
  rcases call_cases h ht c with ⟨-, -, -, hkept⟩ | ⟨-, -, -, -, hkept⟩ | ⟨-, -, heq⟩
  · exact hkept
  · exact hkept
  · rw [heq]
    exact h.mono ht

end Steps

/-- The clock does not go back. -/
abbrev Onward (calls : List (DeadlineCall × ℕ)) : Prop := calls.Pairwise (·.2 ≤ ·.2)

theorem after_kept (remainingMs : ℕ) {calls : List (DeadlineCall × ℕ)} (h : Onward calls) {t : ℕ}
    (ht : ∀ c ∈ calls, c.2 ≤ t) :
    Kept (min remainingMs maxOperationDeadlineMs) t (after remainingMs calls) := by
  induction calls using List.reverseRecOn generalizing t with
  | nil => exact ⟨rfl, Nat.zero_le _, le_rfl, le_rfl, Nat.succ_pos 1023, Nat.two_pow_pos 64⟩
  | append_singleton calls c ih =>
    obtain ⟨hcalls, -, hlast⟩ := List.pairwise_append.mp h
    rw [after_concat]
    refine (call_kept (ih hcalls fun b hb => hlast b hb c (by simp)) le_rfl c.1).mono ?_
    exact ht c (by simp)

/-- The units of all calls. -/
def unitsOf (calls : List (DeadlineCall × ℕ)) : ℕ := (calls.map fun c => c.1.units).sum

theorem unitsOf_concat (calls : List (DeadlineCall × ℕ)) (c : DeadlineCall × ℕ) :
    unitsOf (calls ++ [c]) = unitsOf calls + c.1.units := by
  simp [unitsOf]

/-- Every unit is counted, until the counter is full. -/
theorem completedUnits_after (remainingMs : ℕ) {calls : List (DeadlineCall × ℕ)}
    (h : Onward calls) :
    (after remainingMs calls).completedUnits = min (unitsOf calls) (2 ^ 64 - 1) := by
  induction calls using List.reverseRecOn with
  | nil => exact (Nat.zero_min _).symm
  | append_singleton calls c ih =>
    obtain ⟨hcalls, -, hlast⟩ := List.pairwise_append.mp h
    have hkept := after_kept remainingMs hcalls fun b hb => hlast b hb c (by simp)
    have hih := ih hcalls
    rw [after_concat, unitsOf_concat]
    rcases call_cases hkept le_rfl c.1 with
      ⟨-, hroom, hunits, -⟩ | ⟨hc, hroom, -, hnext, -⟩ | ⟨hc, hfull, hnext⟩
    · rw [hunits]
      omega
    · rw [hnext, hc, DeadlineCall.units]
      show (after remainingMs calls).completedUnits + 1 = _
      omega
    · rw [hnext, hc, DeadlineCall.units]
      show (after remainingMs calls).completedUnits = _
      omega

/-- While nothing looks at the clock, the inner deadline stays as it is. -/
theorem after_unchecked (remainingMs : ℕ) {done mid : List (DeadlineCall × ℕ)}
    (h : Onward (done ++ mid))
    (hmid : ∀ pre c post, mid = pre ++ c :: post →
      ¬ (answerAfter remainingMs (done ++ pre) c).Checks) :
    (after remainingMs (done ++ mid)).deadline = (after remainingMs done).deadline := by
  induction mid using List.reverseRecOn with
  | nil => rw [List.append_nil]
  | append_singleton mid c ih =>
    rw [← List.append_assoc] at h ⊢
    obtain ⟨hcalls, -, hlast⟩ := List.pairwise_append.mp h
    have hkept := after_kept remainingMs hcalls fun b hb => hlast b hb c (by simp)
    have hc := hmid mid c [] rfl
    rw [← ih hcalls fun pre b post heq => hmid pre b (post ++ [c]) (by rw [heq]; simp),
      after_concat]
    rcases call_cases hkept le_rfl c.1 with
      ⟨hanswer, -, -, -⟩ | ⟨-, -, -, heq, -⟩ | ⟨-, -, heq⟩
    · rw [answerAfter, hanswer] at hc
      exact absurd trivial hc
    · rw [heq]
    · rw [heq]

/-- What a deadline promises of a sequence of calls: it fails at the clock for no other reason than
lateness, and at a clock check exactly when it is late; no more than 1024 units of work are completed
from one look at the clock to the next. Only a counter that is full fails without a look. -/
structure Enforced (remainingMs : ℕ) (calls : List (DeadlineCall × ℕ)) : Prop where
  late_only : ∀ done c rest, calls = done ++ c :: rest → ∀ e,
    answerAfter remainingMs done c = .checked (.error e) → e = .deadlineExceeded
  failed_iff : ∀ done c rest, calls = done ++ c :: rest →
    ((answerAfter remainingMs done c).Failed ↔
      (answerAfter remainingMs done c).Checks ∧ min remainingMs maxOperationDeadlineMs ≤ c.2
        ∨ c.1 = .advance ∧ 2 ^ 64 ≤ unitsOf done + 1)
  interval : ∀ done mid c rest, calls = done ++ mid ++ c :: rest →
    (∀ pre b post, mid = pre ++ b :: post → ¬ (answerAfter remainingMs (done ++ pre) b).Checks) →
      (after remainingMs (done ++ mid ++ [c])).completedUnits
        ≤ (after remainingMs done).completedUnits + deadlineCheckIntervalUnits

theorem verdict_failed {deadlineMs nowMs : ℕ} :
    (CallAnswer.checked (verdict deadlineMs nowMs)).Failed ↔ deadlineMs ≤ nowMs := by
  rw [CallAnswer.Failed, verdict]
  split_ifs with h <;> simp [h]

theorem enforced (remainingMs : ℕ) {calls : List (DeadlineCall × ℕ)} (h : Onward calls) :
    Enforced remainingMs calls := by
  -- the state before a call is in order, and the clock not past what the call will see
  have hkept : ∀ done c rest, calls = done ++ c :: rest →
      Kept (min remainingMs maxOperationDeadlineMs) c.2 (after remainingMs done) := by
    rintro done c rest rfl
    obtain ⟨hdone, -, hlast⟩ := List.pairwise_append.mp h
    exact after_kept remainingMs hdone fun b hb => hlast b hb c (by simp)
  refine ⟨?_, ?_, ?_⟩
  · intro done c rest heq e he
    rcases call_cases (hkept done c rest heq) le_rfl c.1 with
      ⟨hanswer, -, -, -⟩ | ⟨-, -, hanswer, -, -⟩ | ⟨-, -, hanswer⟩
    · rw [answerAfter, hanswer, verdict] at he
      split_ifs at he <;> simp at he
      exact he.symm
    · rw [answerAfter, hanswer] at he
      cases he
    · rw [answerAfter, hanswer] at he
      cases he
  · intro done c rest heq
    have hk := hkept done c rest heq
    have hdone : (after remainingMs done).completedUnits = min (unitsOf done) (2 ^ 64 - 1) := by
      rw [heq] at h
      exact completedUnits_after remainingMs (List.pairwise_append.mp h).1
    rcases call_cases hk le_rfl c.1 with
      ⟨hanswer, hroom, -, -⟩ | ⟨hc, hroom, hanswer, -, -⟩ | ⟨hc, hfull, hanswer⟩
    · rw [answerAfter, hanswer, verdict_failed]
      constructor
      · intro hlate
        exact .inl ⟨trivial, hlate⟩
      · rintro (⟨-, hlate⟩ | ⟨hc, hfull⟩)
        · exact hlate
        · rw [hc, DeadlineCall.units] at hroom
          omega
    · rw [answerAfter, hanswer]
      constructor
      · exact False.elim
      · rintro (⟨hchecks, -⟩ | ⟨-, hfull⟩)
        · exact hchecks
        · omega
    · rw [answerAfter, hanswer]
      exact ⟨fun _ => .inr ⟨hc, by omega⟩, fun _ => trivial⟩
  · intro done mid c rest heq hmid
    have hstart : Kept (min remainingMs maxOperationDeadlineMs) c.2 (after remainingMs done) := by
      refine after_kept remainingMs ?_ ?_
      · rw [heq, List.append_assoc] at h
        exact (List.pairwise_append.mp h).1
      · intro b hb
        rw [heq] at h
        exact (List.pairwise_append.mp h).2.2 b (by simp [hb]) c (by simp)
    have hend := hkept (done ++ mid) c rest heq
    have hsame : (after remainingMs (done ++ mid)).deadline = (after remainingMs done).deadline := by
      refine after_unchecked remainingMs ?_ hmid
      rw [heq] at h
      exact (List.pairwise_append.mp h).1
    have hunits : (after remainingMs (done ++ mid ++ [c])).completedUnits
        ≤ (after remainingMs (done ++ mid)).completedUnits + 1 := by
      rw [after_concat]
      have hone : c.1.units ≤ 1 := by cases c.1 <;> decide
      rcases call_cases hend le_rfl c.1 with
        ⟨-, -, hunits, -⟩ | ⟨-, -, -, hnext, -⟩ | ⟨-, -, hnext⟩
      · rw [hunits]
        omega
      · rw [hnext]
      · rw [hnext]
        exact Nat.le_succ _
    have hgap := hend.gap
    have hle := hstart.completed_le
    rw [hsame] at hgap
    omega

/-- A unit too many for the counter fails, however much time is left. -/
theorem answerAfter_overflow (remainingMs : ℕ) {calls : List (DeadlineCall × ℕ)} {nowMs : ℕ}
    (h : Onward (calls ++ [(.advance, nowMs)])) (hfull : 2 ^ 64 ≤ unitsOf calls + 1) :
    answerAfter remainingMs calls (.advance, nowMs) = .overflow := by
  obtain ⟨hcalls, -, hlast⟩ := List.pairwise_append.mp h
  have hkept : Kept (min remainingMs maxOperationDeadlineMs) nowMs (after remainingMs calls) :=
    after_kept remainingMs hcalls fun b hb => hlast b hb (.advance, nowMs) (by simp)
  have hunits := completedUnits_after remainingMs hcalls
  rcases call_cases hkept le_rfl .advance with ⟨-, hroom, -⟩ | ⟨-, hroom, -⟩ | ⟨-, -, hanswer⟩
  · rw [DeadlineCall.units] at hroom
    omega
  · omega
  · rw [answerAfter, hanswer]

theorem unitsOf_replicate (n nowMs : ℕ) : unitsOf (List.replicate n (.advance, nowMs)) = n := by
  simp [unitsOf, DeadlineCall.units]

end ExecutionDeadline

/-! The meter of an operation makes these calls, each at the next reading of its clock. -/

namespace Meter

def execution (m : Meter) : ExecutionDeadline := ⟨m.deadline, m.completedUnits, m.lastCheckpointUnits⟩

/-- What becomes of an operation after a call. -/
def follow (m : Meter) : ExecutionDeadline × CallAnswer → Except ExecutionFailure (Unit × Meter)
  | (d, .unchecked) => .ok ((), { m with
      deadline := d.deadline
      completedUnits := d.completedUnits
      lastCheckpointUnits := d.lastCheckpointUnits })
  | (_, .overflow) => .error ⟨.client, m.work⟩
  | (d, .checked (.ok ())) => .ok ((), { m with
      deadline := d.deadline
      completedUnits := d.completedUnits
      lastCheckpointUnits := d.lastCheckpointUnits
      clock := fun i => m.clock (i + 1) })
  | (_, .checked (.error _)) => .error ⟨.deadline, m.work⟩

theorem checkpoint_eq (m : Meter) : checkpoint m = m.follow (m.execution.checkpoint (m.clock 0)) := by
  have h := m.deadline.checkpoint_eq_checkpointed (m.clock 0) m.completedUnits
  rw [checkpoint, h, ExecutionDeadline.checkpoint]
  show _ = m.follow (match m.deadline.checkpointed (m.clock 0) m.completedUnits with
    | (deadline, Except.ok ()) =>
      (⟨deadline, m.completedUnits, m.completedUnits⟩, CallAnswer.checked (.ok ()))
    | (deadline, Except.error e) =>
      (⟨deadline, m.completedUnits, m.lastCheckpointUnits⟩, CallAnswer.checked (.error e)))
  rcases m.deadline.checkpointed (m.clock 0) m.completedUnits with ⟨deadline, e | _⟩ <;> rfl

theorem advance_eq (m : Meter) (units : ℕ) :
    advance units m = m.follow (m.execution.advance units (m.clock 0)) := by
  rw [advance, ExecutionDeadline.advance]
  show _ = m.follow (match checkedAdd m.completedUnits units with
    | none => (m.execution, CallAnswer.overflow)
    | some n =>
      if deadlineCheckIntervalUnits ≤ n - m.lastCheckpointUnits then
        ExecutionDeadline.checkpoint ⟨m.deadline, n, m.lastCheckpointUnits⟩ (m.clock 0)
      else (⟨m.deadline, n, m.lastCheckpointUnits⟩, CallAnswer.unchecked))
  rcases checkedAdd m.completedUnits units with _ | n
  · rfl
  · dsimp only
    by_cases hinterval : deadlineCheckIntervalUnits ≤ n - m.lastCheckpointUnits
    · rw [if_pos hinterval, if_pos hinterval]
      exact checkpoint_eq { m with completedUnits := n }
    · rw [if_neg hinterval, if_neg hinterval]
      rfl

end Meter

/-! ### The deadline of a session -/

/-- What a server remembers of its descriptor session; an instant is a number of nanoseconds. -/
structure Session where
  descriptorReadOnly : Bool
  deadline : Option ℕ
  ownerRemainingMs : Option ℕ

structure SessionDeadlineCandidate where
  ownerRemainingMs : ℕ
  absoluteDeadline : ℕ
  nativeRemainingMs : ℕ

def nanosPerMilli : ℕ := 1000000

/-- Instants after `latest` cannot be represented. -/
def previewBoundedSessionDeadline (latest : ℕ) (s : Session) (ownerRemainingMs now : ℕ) :
    Except ExecutionFailure SessionDeadlineCandidate :=
  if s.ownerRemainingMs.any (· < ownerRemainingMs) then .error ⟨.client, .zero⟩
  else
    let proposed := now + min ownerRemainingMs maxOperationDeadlineMs * nanosPerMilli
    if latest < proposed then .error ⟨.client, .zero⟩
    else
      let deadline := match s.deadline with
        | some existing => min existing proposed
        | none => proposed
      let nativeRemainingMs := (deadline - now) / nanosPerMilli
      if 2 ^ 64 ≤ nativeRemainingMs then .error ⟨.client, .zero⟩
      else .ok ⟨ownerRemainingMs, deadline, nativeRemainingMs⟩

def commitBoundedSessionDeadline (s : Session) (candidate : SessionDeadlineCandidate) : Session :=
  { s with
    deadline := some candidate.absoluteDeadline
    ownerRemainingMs := some candidate.ownerRemainingMs }

/-- What comes of a frame: it is turned away before its admission, or admitted with so much time, and
then answered or not. -/
inductive FrameOutcome (α : Type) where
  | rejected (failure : ExecutionFailure)
  | admitted (request : BoundedRequest) (grantedMs : ℕ) (result : Except ExecutionFailure α)

section Frames

variable {α : Type} (latest generation : ℕ)
  -- the operation of an admitted request
  (operate : BoundedRequest → Run α)

/-- What is asked of a request before the session takes its deadline over. -/
def admission (request : BoundedRequest) : Run RequestAdmission := do
  beforeAllocation
  let admitted ← orBlank (admitRequest request generation .idle) .client
  beforeMaterialization
  return admitted

/-- `execute_bounded`; the clock of the operation starts at zero. -/
def executeBounded (s : Session) (request : BoundedRequest) (now : ℕ) (clock : ℕ → ℕ) :
    Session × FrameOutcome α :=
  if s.descriptorReadOnly = false then (s, .rejected ⟨.client, .zero⟩)
  else match previewBoundedSessionDeadline latest s request.remainingBudgetMs.toNat now with
    | .error failure => (s, .rejected failure)
    | .ok candidate =>
      match MonotonicDeadline.new 0 candidate.nativeRemainingMs with
      | .error _ => (s, .rejected ⟨.deadline, .zero⟩)
      | .ok deadline =>
        match admission generation request ⟨.zero, deadline, 0, 0, clock⟩ with
        | .error failure => (s, .rejected failure)
        | .ok (_, meter) => (commitBoundedSessionDeadline s candidate,
            .admitted request candidate.nativeRemainingMs ((operate request meter).map Prod.fst))

variable [Externals]

/-- A frame that is no request is turned away before the session is looked at. -/
def handleBoundedFrame (s : Session) (frame : Bytes) (now : ℕ) (clock : ℕ → ℕ) :
    Session × FrameOutcome α :=
  match parseRequestFrame frame with
  | none => (s, .rejected ⟨.client, .zero⟩)
  | some request => executeBounded latest generation operate s request now clock

/-- A frame with what the clocks show while it is handled. -/
structure FrameEvent where
  frame : Bytes
  now : ℕ
  clock : ℕ → ℕ

/-- The session after some frames. -/
def sessionAfter (events : List FrameEvent) : Session :=
  events.foldl (fun s e => (handleBoundedFrame latest generation operate s e.frame e.now e.clock).1)
    ⟨true, none, none⟩

/-- What comes of one more frame. -/
def outcomeAfter (events : List FrameEvent) (e : FrameEvent) : FrameOutcome α :=
  (handleBoundedFrame latest generation operate (sessionAfter latest generation operate events)
    e.frame e.now e.clock).2

end Frames

section Session

variable {α : Type} {latest generation : ℕ} {operate : BoundedRequest → Run α}

/-- A candidate brings the deadline nearer, if anything, and grants no more than is asked for. -/
theorem preview_ok {s : Session} {owner now : ℕ} {candidate : SessionDeadlineCandidate}
    (h : previewBoundedSessionDeadline latest s owner now = .ok candidate) :
    candidate.ownerRemainingMs = owner ∧ (∀ o, s.ownerRemainingMs = some o → owner ≤ o)
      ∧ (∀ d, s.deadline = some d → candidate.absoluteDeadline ≤ d)
      ∧ candidate.nativeRemainingMs ≤ min owner maxOperationDeadlineMs := by
  rw [previewBoundedSessionDeadline] at h
  dsimp only at h
  split_ifs at h with howner _ _
  injection h with h
  obtain rfl := h
  refine ⟨rfl, ?_, ?_, ?_⟩
  · intro o ho
    rw [ho] at howner
    simpa using howner
  · intro d hd
    simp only [hd]
    exact Nat.min_le_left _ _
  · refine Nat.div_le_of_le_mul ?_
    rcases s.deadline with _ | d
    · simp only [Nat.add_sub_cancel_left]
      exact (Nat.mul_comm _ _).le
    · refine (Nat.sub_le_sub_right (Nat.min_le_right _ _) now).trans ?_
      rw [Nat.add_sub_cancel_left, Nat.mul_comm]

variable [Externals]

/-- A frame leaves the session as it is, or it is admitted and the session takes over what its
request gives. -/
theorem handleBoundedFrame_cases (s : Session) (e : FrameEvent) :
    ((handleBoundedFrame latest generation operate s e.frame e.now e.clock).1 = s
      ∧ ∃ failure, (handleBoundedFrame latest generation operate s e.frame e.now e.clock).2
        = .rejected failure) ∨
    ∃ request candidate result, parseRequestFrame e.frame = some request
      ∧ previewBoundedSessionDeadline latest s request.remainingBudgetMs.toNat e.now = .ok candidate
      ∧ handleBoundedFrame latest generation operate s e.frame e.now e.clock
        = (commitBoundedSessionDeadline s candidate,
          .admitted request candidate.nativeRemainingMs result) := by
  rw [handleBoundedFrame]
  rcases hparse : parseRequestFrame e.frame with _ | request
  · exact .inl ⟨rfl, _, rfl⟩
  · dsimp only
    rw [executeBounded]
    split_ifs
    · exact .inl ⟨rfl, _, rfl⟩
    · rcases hpreview : previewBoundedSessionDeadline latest s request.remainingBudgetMs.toNat e.now
        with failure | candidate
      · exact .inl ⟨rfl, _, rfl⟩
      · dsimp only
        rcases MonotonicDeadline.new 0 candidate.nativeRemainingMs with _ | deadline
        · exact .inl ⟨rfl, _, rfl⟩
        · dsimp only
          rcases admission generation request ⟨.zero, deadline, 0, 0, e.clock⟩ with
            failure | ⟨admitted, meter⟩
          · exact .inl ⟨rfl, _, rfl⟩
          · exact .inr ⟨request, candidate, _, rfl, hpreview, rfl⟩

theorem sessionAfter_concat (events : List FrameEvent) (e : FrameEvent) :
    sessionAfter latest generation operate (events ++ [e])
      = (handleBoundedFrame latest generation operate
          (sessionAfter latest generation operate events) e.frame e.now e.clock).1 := by
  rw [sessionAfter, List.foldl_append]
  rfl

/-- What no frame raises, no run of frames raises. -/
theorem sessionAfter_le {f : Session → Option ℕ}
    (hstep : ∀ (s : Session) (e : FrameEvent) (x : ℕ), f s = some x →
      ∃ y ≤ x, f (handleBoundedFrame latest generation operate s e.frame e.now e.clock).1 = some y)
    (before after : List FrameEvent) {x : ℕ}
    (hx : f (sessionAfter latest generation operate before) = some x) :
    ∃ y ≤ x, f (sessionAfter latest generation operate (before ++ after)) = some y := by
  induction after using List.reverseRecOn with
  | nil => exact ⟨x, le_rfl, by rw [List.append_nil]; exact hx⟩
  | append_singleton after e ih =>
    obtain ⟨y, hy, hbefore⟩ := ih
    obtain ⟨z, hz, hafter⟩ := hstep _ e y hbefore
    exact ⟨z, hz.trans hy, by rw [← List.append_assoc, sessionAfter_concat]; exact hafter⟩

theorem handleBoundedFrame_deadline (s : Session) (e : FrameEvent) (d : ℕ)
    (hd : s.deadline = some d) :
    ∃ d' ≤ d, (handleBoundedFrame latest generation operate s e.frame e.now e.clock).1.deadline
      = some d' := by
  rcases handleBoundedFrame_cases s e with ⟨hs, -⟩ | ⟨request, candidate, result, -, hpreview, heq⟩
  · exact ⟨d, le_rfl, by rw [hs, hd]⟩
  · rw [heq]
    exact ⟨_, (preview_ok hpreview).2.2.1 d hd, rfl⟩

theorem handleBoundedFrame_owner (s : Session) (e : FrameEvent) (o : ℕ)
    (ho : s.ownerRemainingMs = some o) :
    ∃ o' ≤ o,
      (handleBoundedFrame latest generation operate s e.frame e.now e.clock).1.ownerRemainingMs
        = some o' := by
  rcases handleBoundedFrame_cases s e with ⟨hs, -⟩ | ⟨request, candidate, result, -, hpreview, heq⟩
  · exact ⟨o, le_rfl, by rw [hs, ho]⟩
  · obtain ⟨howner, hle, -⟩ := preview_ok hpreview
    rw [heq]
    exact ⟨_, howner ▸ hle o ho, rfl⟩

variable (latest generation operate) in
/-- What a session promises of the frames it is sent. -/
structure SessionKept (events : List FrameEvent) : Prop where
  onward : ∀ before after, events = before ++ after → ∀ d,
    (sessionAfter latest generation operate before).deadline = some d →
      ∃ d' ≤ d, (sessionAfter latest generation operate events).deadline = some d'
  granted : ∀ before e after, events = before ++ e :: after → ∀ request grantedMs result,
    outcomeAfter latest generation operate before e = .admitted request grantedMs result →
      parseRequestFrame e.frame = some request
        ∧ grantedMs ≤ request.remainingBudgetMs.toNat ∧ grantedMs ≤ maxOperationDeadlineMs
  larger_rejected : ∀ before e mid e' after, events = before ++ e :: mid ++ e' :: after →
    ∀ request grantedMs result,
      outcomeAfter latest generation operate before e = .admitted request grantedMs result →
    ∀ larger, parseRequestFrame e'.frame = some larger →
      request.remainingBudgetMs < larger.remainingBudgetMs →
      ∃ failure, outcomeAfter latest generation operate (before ++ e :: mid) e' = .rejected failure
  rejected_unchanged : ∀ before e after, events = before ++ e :: after → ∀ failure,
    outcomeAfter latest generation operate before e = .rejected failure →
      sessionAfter latest generation operate (before ++ [e])
        = sessionAfter latest generation operate before

theorem sessionKept (events : List FrameEvent) :
    SessionKept latest generation operate events := by
  refine ⟨?_, ?_, ?_, ?_⟩
  · rintro before after rfl d hd
    exact sessionAfter_le handleBoundedFrame_deadline before after hd
  · rintro before e after rfl request grantedMs result ho
    rw [outcomeAfter] at ho
    rcases handleBoundedFrame_cases (sessionAfter latest generation operate before) e with
      ⟨-, failure, heq⟩ | ⟨request', candidate, result', hparse, hpreview, heq⟩
    · rw [heq] at ho
      cases ho
    · rw [heq] at ho
      injection ho with hrequest hgranted hresult
      subst hrequest hgranted
      have hle := (preview_ok hpreview).2.2.2
      exact ⟨hparse, hle.trans (Nat.min_le_left _ _), hle.trans (Nat.min_le_right _ _)⟩
  · rintro before e mid e' after rfl request grantedMs result ho larger hlarger hlt
    rw [outcomeAfter] at ho
    -- the budget of the first frame is the one the session keeps, and no later frame raises it
    have hbudget : (sessionAfter latest generation operate (before ++ [e])).ownerRemainingMs
        = some request.remainingBudgetMs.toNat := by
      rw [sessionAfter_concat]
      rcases handleBoundedFrame_cases (sessionAfter latest generation operate before) e with
        ⟨-, failure, heq⟩ | ⟨request', candidate, result', -, hpreview, heq⟩
      · rw [heq] at ho
        cases ho
      · rw [heq] at ho ⊢
        injection ho with hrequest
        subst hrequest
        exact congrArg some (preview_ok hpreview).1
    obtain ⟨o, hle, howner⟩ := sessionAfter_le handleBoundedFrame_owner _ mid hbudget
    rw [List.append_assoc, List.singleton_append] at howner
    rw [outcomeAfter]
    rcases handleBoundedFrame_cases (sessionAfter latest generation operate (before ++ e :: mid)) e'
      with ⟨-, hrejected⟩ | ⟨request', candidate, result', hparse, hpreview, heq⟩
    · exact hrejected
    · rw [hlarger] at hparse
      injection hparse with hparse
      subst hparse
      have hbound := (preview_ok hpreview).2.1 o howner
      have hlt' := UInt64.lt_iff_toNat_lt.mp hlt
      omega
  · rintro before e after rfl failure ho
    rw [outcomeAfter] at ho
    rw [sessionAfter_concat]
    rcases handleBoundedFrame_cases (sessionAfter latest generation operate before) e with
      ⟨hs, -⟩ | ⟨request, candidate, result, -, -, heq⟩
    · exact hs
    · rw [heq] at ho
      cases ho

end Session

/-- Deadlines are enforced over every sequence of calls, and no frame extends that of its session. -/
theorem deadlines_kept [Externals] {α : Type} (latest generation : ℕ)
    (operate : BoundedRequest → Run α) (events : List FrameEvent) (remainingMs : ℕ)
    {calls : List (DeadlineCall × ℕ)} (h : ExecutionDeadline.Onward calls) :
    ExecutionDeadline.Enforced remainingMs calls ∧ SessionKept latest generation operate events :=
  ⟨ExecutionDeadline.enforced remainingMs h, sessionKept events⟩

section Witness

attribute [local instance] Concrete.externals

open ExecutionDeadline

theorem deadlines_kept_late :
    Enforced 1 [(.beforeAllocation, 0), (.advance, 0), (.beforeMaterialization, 1)]
      ∧ SessionKept 0 0 (fun _ => (pure () : Run Unit)) [⟨[], 0, id⟩] :=
  deadlines_kept 0 0 _ _ 1 (by decide)

/-- After as many units as the counter holds, one more fails without a look at the clock. -/
theorem answerAfter_full :
    Onward (List.replicate (2 ^ 64 - 1) (.advance, 0) ++ [(.advance, 0)])
      ∧ (answerAfter 1 (List.replicate (2 ^ 64 - 1) (.advance, 0)) (.advance, 0)).Failed
      ∧ ¬ (answerAfter 1 (List.replicate (2 ^ 64 - 1) (.advance, 0)) (.advance, 0)).Checks := by
  have h : ∀ n, Onward (List.replicate n (.advance, 0) ++ [(.advance, 0)]) := by
    intro n
    rw [← List.replicate_succ']
    exact List.pairwise_replicate.mpr (.inr le_rfl)
  rw [answerAfter_overflow 1 (h _) (by rw [unitsOf_replicate]; norm_num)]
  exact ⟨h _, trivial, id⟩

end Witness

end AiraGraphdb.Native.Bounded
