import AiraGraphdb.Native.Progress
import AiraGraphdb.Schemes.Hoare

/-! # Work and time of a bounded operation

A bounded operation counts its work and reads the clock: before each allocation, before each
materialization, and after every 1024 units of work. A `Meter` holds the counters and what the
clock will show at each reading to come; a `Run` fails with the work done so far. -/

namespace AiraGraphdb.Native.Bounded

open Schemes

/-! ### Caps -/

def maxSafeGeneration : ℕ := 9007199254740991

def maxVectorDimensions : ℕ := 4096
def maxVectorComparisons : ℕ := 1500000
def maxSearchSlots : ℕ := 8
def maxFactsInspected : ℕ := 1500000
def maxGraphNodes : ℕ := 1500000
def maxGraphEdges : ℕ := 4000000
def maxIterations : ℕ := 128

/-- Fixed passes over nodes and edges with the two sorts, then the passes of each iteration. -/
def maxGraphScanUnits : ℕ :=
  57 * maxGraphNodes + 50 * maxGraphEdges + maxIterations * (4 * maxGraphNodes + maxGraphEdges) + 1

def maxSearchResultLimit : ℕ := 100
def maxExpansionResults : ℕ := 64
def maxSeeds : ℕ := 512
def maxReturnedPassages : ℕ := 100
def maxReturnedFacts : ℕ := 100
def maxCombinedObjects : ℕ := 128

def maxInputFrameBytes : ℕ := 256 * 1024
def maxObjectBytes : ℕ := 256 * 1024
def maxResponseFrameBytes : ℕ := 2 * 1024 * 1024
def maxTransientBytes : ℕ := 512 * 1024 * 1024
def maxOperationDeadlineMs : ℕ := 60000
def deadlineCheckIntervalUnits : ℕ := 1024

/-! ### Work -/

structure WorkCounts where
  vectorComparisons : ℕ
  factsInspected : ℕ
  iterations : ℕ
  nodesInitialized : ℕ
  edgesVisited : ℕ
  graphScanUnits : ℕ
  objectsConsideredForEncoding : ℕ
  deriving DecidableEq

/-- The counters by name. -/
inductive Counter where
  | vectorComparisons
  | factsInspected
  | iterations
  | nodesInitialized
  | edgesVisited
  | graphScanUnits
  | objectsConsideredForEncoding
  deriving DecidableEq

namespace WorkCounts

def zero : WorkCounts := ⟨0, 0, 0, 0, 0, 0, 0⟩

@[simp] def get (w : WorkCounts) : Counter → ℕ
  | .vectorComparisons => w.vectorComparisons
  | .factsInspected => w.factsInspected
  | .iterations => w.iterations
  | .nodesInitialized => w.nodesInitialized
  | .edgesVisited => w.edgesVisited
  | .graphScanUnits => w.graphScanUnits
  | .objectsConsideredForEncoding => w.objectsConsideredForEncoding

def set (w : WorkCounts) (c : Counter) (n : ℕ) : WorkCounts :=
  match c with
  | .vectorComparisons => { w with vectorComparisons := n }
  | .factsInspected => { w with factsInspected := n }
  | .iterations => { w with iterations := n }
  | .nodesInitialized => { w with nodesInitialized := n }
  | .edgesVisited => { w with edgesVisited := n }
  | .graphScanUnits => { w with graphScanUnits := n }
  | .objectsConsideredForEncoding => { w with objectsConsideredForEncoding := n }

/-- Every counter at its cap. -/
def caps : WorkCounts :=
  ⟨maxVectorComparisons, maxFactsInspected, maxIterations, maxGraphNodes, maxGraphEdges,
    maxGraphScanUnits, maxCombinedObjects⟩

instance : LE WorkCounts := ⟨fun w v => ∀ c, w.get c ≤ v.get c⟩

def checkedWorkUnits (w : WorkCounts) : Option ℕ := do
  let n ← checkedAdd w.vectorComparisons w.factsInspected
  let n ← checkedAdd n w.graphScanUnits
  checkedAdd n w.objectsConsideredForEncoding

def check (w : WorkCounts) : Option ℕ :=
  if w.vectorComparisons > maxVectorComparisons
      ∨ w.factsInspected > maxFactsInspected
      ∨ w.iterations > maxIterations
      ∨ w.nodesInitialized > maxGraphNodes
      ∨ w.edgesVisited > maxGraphEdges
      ∨ w.graphScanUnits > maxGraphScanUnits
      ∨ w.objectsConsideredForEncoding > maxCombinedObjects then none
  else w.checkedWorkUnits

theorem get_set_self (w : WorkCounts) (c : Counter) (n : ℕ) : (w.set c n).get c = n := by
  cases c <;> rfl

theorem get_set_ne (w : WorkCounts) {c d : Counter} (h : d ≠ c) (n : ℕ) :
    (w.set c n).get d = w.get d := by
  cases c <;> cases d <;> first | rfl | exact absurd rfl h

theorem le_iff {w v : WorkCounts} :
    w ≤ v ↔ w.vectorComparisons ≤ v.vectorComparisons ∧ w.factsInspected ≤ v.factsInspected
      ∧ w.iterations ≤ v.iterations ∧ w.nodesInitialized ≤ v.nodesInitialized
      ∧ w.edgesVisited ≤ v.edgesVisited ∧ w.graphScanUnits ≤ v.graphScanUnits
      ∧ w.objectsConsideredForEncoding ≤ v.objectsConsideredForEncoding := by
  constructor
  · intro h
    exact ⟨h .vectorComparisons, h .factsInspected, h .iterations, h .nodesInitialized,
      h .edgesVisited, h .graphScanUnits, h .objectsConsideredForEncoding⟩
  · rintro ⟨h1, h2, h3, h4, h5, h6, h7⟩ c
    cases c <;> assumption

theorem le_refl (w : WorkCounts) : w ≤ w := fun _ => Nat.le_refl _

theorem zero_le (w : WorkCounts) : zero ≤ w := by
  intro c
  cases c <;> exact Nat.zero_le _

theorem le_trans {u v w : WorkCounts} (h : u ≤ v) (h' : v ≤ w) : u ≤ w :=
  fun c => (h c).trans (h' c)

/-- Counters within their caps add up without overflow. -/
theorem check_of_le {w : WorkCounts} (h : w ≤ caps) :
    w.check = some (w.vectorComparisons + w.factsInspected + w.graphScanUnits
      + w.objectsConsideredForEncoding) := by
  obtain ⟨h1, h2, h3, h4, h5, h6, h7⟩ := le_iff.mp h
  simp only [caps] at h1 h2 h3 h4 h5 h6 h7
  have hc : maxVectorComparisons + maxFactsInspected + maxGraphScanUnits + maxCombinedObjects
      < 2 ^ 64 := by decide
  rw [check, if_neg (by omega), checkedWorkUnits, checkedAdd, if_pos (by omega)]
  simp only [Option.bind_eq_bind, Option.bind_some]
  rw [checkedAdd, if_pos (by omega)]
  simp only [Option.bind_some]
  rw [checkedAdd, if_pos (by omega)]

theorem check_isSome {w : WorkCounts} : w.check.isSome ↔ w ≤ caps := by
  constructor
  · intro h
    rw [check] at h
    split at h
    · simp at h
    · rename_i hc
      rw [le_iff]
      simp only [caps]
      omega
  · intro h
    rw [check_of_le h]
    rfl

end WorkCounts

/-! ### Failures -/

inductive FailureClass where
  | client
  | integrity
  | deadline
  | resource
  deriving DecidableEq

namespace FailureClass

def text : FailureClass → String
  | client => "CLIENT_INPUT"
  | integrity => "INTEGRITY"
  | deadline => "DEADLINE"
  | resource => "RESOURCE_LIMIT"

def reason : FailureClass → String
  | client => "bounded request validation failed"
  | integrity => "bounded read integrity validation failed"
  | deadline => "bounded operation deadline exceeded"
  | resource => "bounded operation resource limit exceeded"

end FailureClass

structure ExecutionFailure where
  cls : FailureClass
  work : WorkCounts
  deriving DecidableEq

/-! ### The deadline -/

inductive DeadlineError where
  | clockRegression
  | deadlineExceeded
  | checkpointGap
  | workRegression
  | arithmeticOverflow
  deriving DecidableEq

structure MonotonicDeadline where
  deadlineMs : ℕ
  lastNowMs : ℕ
  completedUnits : ℕ

namespace MonotonicDeadline

def new (nowMs ownerRemainingMs : ℕ) : Except DeadlineError MonotonicDeadline :=
  match checkedAdd nowMs (min ownerRemainingMs maxOperationDeadlineMs) with
  | some deadlineMs => .ok ⟨deadlineMs, nowMs, 0⟩
  | none => .error .arithmeticOverflow

def checkpoint (d : MonotonicDeadline) (nowMs completedUnits : ℕ) :
    Except DeadlineError MonotonicDeadline :=
  if nowMs < d.lastNowMs then .error .clockRegression
  else if completedUnits < d.completedUnits then .error .workRegression
  else if deadlineCheckIntervalUnits < completedUnits - d.completedUnits then .error .checkpointGap
  else if d.deadlineMs ≤ nowMs then .error .deadlineExceeded
  else .ok { d with lastNowMs := nowMs, completedUnits := completedUnits }

end MonotonicDeadline

/-! ### Runs -/

structure Meter where
  work : WorkCounts
  deadline : MonotonicDeadline
  completedUnits : ℕ
  lastCheckpointUnits : ℕ
  /-- The milliseconds that the clock will show at the readings to come. -/
  clock : ℕ → ℕ

abbrev Run (α : Type) := Proc Meter ExecutionFailure α

def failWith {α : Type} (cls : FailureClass) : Run α := Proc.fail fun m => ⟨cls, m.work⟩

/-- A failure that does not report the work done. -/
def failBlank {α : Type} (cls : FailureClass) : Run α := Proc.fail fun _ => ⟨cls, .zero⟩

def orFail {α : Type} (x : Option α) (cls : FailureClass) : Run α :=
  Proc.ofOption x fun m => ⟨cls, m.work⟩

def orBlank {α : Type} (x : Option α) (cls : FailureClass) : Run α :=
  Proc.ofOption x fun _ => ⟨cls, .zero⟩

def require (p : Prop) [Decidable p] (cls : FailureClass) : Run Unit :=
  Proc.ensure p fun m => ⟨cls, m.work⟩

def checkpoint : Run Unit := fun m =>
  match m.deadline.checkpoint (m.clock 0) m.completedUnits with
  | .ok d => .ok ((), { m with
      deadline := d, lastCheckpointUnits := m.completedUnits, clock := fun i => m.clock (i + 1) })
  | .error _ => .error ⟨.deadline, m.work⟩

def beforeAllocation : Run Unit := checkpoint

def beforeMaterialization : Run Unit := checkpoint

def advance (units : ℕ) : Run Unit := fun m =>
  match checkedAdd m.completedUnits units with
  | none => .error ⟨.client, m.work⟩
  | some n =>
    if deadlineCheckIntervalUnits ≤ n - m.lastCheckpointUnits then
      checkpoint { m with completedUnits := n }
    else .ok ((), { m with completedUnits := n })

/-- One more in a counter. -/
def count (c : Counter) (overflow : FailureClass) : Run Unit := fun m =>
  match checkedAdd (m.work.get c) 1 with
  | some n => .ok ((), { m with work := m.work.set c n })
  | none => .error ⟨overflow, m.work⟩

def setIterations (n : ℕ) : Run Unit :=
  Proc.change fun m => { m with work := m.work.set .iterations n }

def accountGraphScanUnit : Run Unit := do
  count .graphScanUnits .resource
  advance 1

def buildCountedGraphVec {α : Type} (len : ℕ) (build : ℕ → α) : Run (List α) := do
  beforeAllocation
  beforeAllocation
  (List.range len).foldlM (fun values index => do
    accountGraphScanUnit
    return values ++ [build index]) []

/-! ### Loops that charge by length

A loop that charges one unit an element and otherwise only computes is as good as the units first
and the value after. -/

/-- So many units, one at a time. -/
def scanUnits : ℕ → Run Unit
  | 0 => pure ()
  | n + 1 => do
    accountGraphScanUnit
    scanUnits n

theorem scanUnits_add (a b : ℕ) :
    scanUnits (a + b) = (do
      scanUnits a
      scanUnits b) := by
  induction a with
  | zero => rw [Nat.zero_add, scanUnits, pure_bind]
  | succ a ih => rw [Nat.succ_add, scanUnits, scanUnits, ih, bind_assoc]

theorem foldlM_charged {α β : Type} (f : β → α → β) (b : β) (xs : List α) :
    xs.foldlM (fun b x => do
      accountGraphScanUnit
      return f b x) b = (do
      scanUnits xs.length
      return xs.foldl f b) := by
  induction xs generalizing b with
  | nil => rw [List.foldlM_nil, List.length_nil, scanUnits, pure_bind, List.foldl_nil]
  | cons x xs ih => simp only [List.foldlM_cons, bind_assoc, pure_bind, ih, List.length_cons,
      scanUnits, List.foldl_cons]

theorem foldl_concat {α β : Type} (f : α → β) (xs : List α) (ys : List β) :
    xs.foldl (fun ys x => ys ++ [f x]) ys = ys ++ xs.map f := by
  induction xs generalizing ys with
  | nil => simp
  | cons x xs ih => simp [ih]

theorem buildCountedGraphVec_eq {α : Type} (len : ℕ) (build : ℕ → α) :
    buildCountedGraphVec len build = do
      beforeAllocation
      beforeAllocation
      scanUnits len
      return (List.range len).map build := by
  rw [buildCountedGraphVec, foldlM_charged, List.length_range]
  simp only [foldl_concat, List.nil_append]

/-- Every value changed, one unit each. -/
theorem foldlM_concat_charged {α β : Type} (f : α → β) (xs : List α) :
    xs.foldlM (fun done x => do
      accountGraphScanUnit
      return done ++ [f x]) [] = (do
      scanUnits xs.length
      return xs.map f) := by
  rw [foldlM_charged]
  simp only [foldl_concat, List.nil_append]

/-! ### Reading

What is read of a request is there or fails without work; several readings in a row are one. -/

theorem orBlank_bind {α β : Type} (x : Option α) (f : α → Option β) (cls : FailureClass) :
    (do
      let a ← orBlank x cls
      orBlank (f a) cls) = orBlank (x.bind f) cls := by
  rcases x with _ | a
  · exact Proc.fail_bind _ _
  · exact pure_bind _ _

theorem orBlank_map {α β : Type} (x : Option α) (f : α → β) (cls : FailureClass) :
    (do
      let a ← orBlank x cls
      return f a) = orBlank (x.map f) cls := by
  rcases x with _ | a
  · exact Proc.fail_bind _ _
  · exact pure_bind _ _

theorem mapM_orBlank {α β : Type} (f : α → Option β) (cls : FailureClass) (xs : List α) :
    (xs.mapM fun x => orBlank (f x) cls) = orBlank (xs.mapM f) cls := by
  induction xs with
  | nil => rfl
  | cons x xs ih =>
    rw [List.mapM_cons, List.mapM_cons, ih]
    simp only [orBlank_map, orBlank_bind]
    congr 1
    cases f x
    · rfl
    · cases xs.mapM f <;> rfl

/-! ### What a run has done -/

namespace WorkCounts

def add (w : WorkCounts) (c : Counter) (n : ℕ) : WorkCounts := w.set c (w.get c + n)

/-- The work that counts as completed units. -/
def units (w : WorkCounts) : ℕ := w.vectorComparisons + w.factsInspected + w.graphScanUnits

theorem le_add (w : WorkCounts) (c : Counter) (n : ℕ) : w ≤ w.add c n := by
  intro d
  by_cases h : d = c
  · rw [h, add, get_set_self]
    exact Nat.le_add_right _ n
  · rw [add, get_set_ne w h]

@[simp] theorem add_zero (w : WorkCounts) (c : Counter) : w.add c 0 = w := by
  cases c <;> rfl

@[simp] theorem add_add (w : WorkCounts) (c : Counter) (m n : ℕ) :
    (w.add c m).add c n = w.add c (m + n) := by
  cases c <;> simp only [add, set, get, Nat.add_assoc]

theorem add_mono (w : WorkCounts) (c : Counter) {m n : ℕ} (h : m ≤ n) : w.add c m ≤ w.add c n := by
  obtain ⟨k, rfl⟩ := Nat.exists_eq_add_of_le h
  rw [← add_add]
  exact le_add _ c k

/-- Less work of one kind is within the same bound. -/
theorem add_le_of_le {w B : WorkCounts} {c : Counter} {m n : ℕ} (h : w.add c n ≤ B) (hmn : m ≤ n) :
    w.add c m ≤ B := le_trans (add_mono w c hmn) h

theorem units_lt {w : WorkCounts} (h : w ≤ caps) : w.units < 2 ^ 63 := by
  obtain ⟨h1, h2, -, -, -, h6, -⟩ := le_iff.mp h
  have hc : caps.vectorComparisons + caps.factsInspected + caps.graphScanUnits < 2 ^ 63 := by
    decide
  rw [units]
  omega

theorem get_lt {w : WorkCounts} (h : w ≤ caps) (c : Counter) : w.get c < 2 ^ 63 := by
  have hc : caps.get c < 2 ^ 63 := by cases c <;> decide
  exact (h c).trans_lt hc

end WorkCounts

/-- The counters whose units are completed as they are counted. -/
def Counter.Metered (c : Counter) : Prop :=
  c = .vectorComparisons ∨ c = .factsInspected ∨ c = .graphScanUnits

theorem Counter.Metered.units_add {c : Counter} (h : c.Metered) (w : WorkCounts) (n : ℕ) :
    (w.add c n).units = w.units + n := by
  rcases h with rfl | rfl | rfl <;> simp only [WorkCounts.add, WorkCounts.set, WorkCounts.get,
    WorkCounts.units] <;> omega

theorem units_add_of_not {c : Counter} (h : ¬ c.Metered) (w : WorkCounts) (n : ℕ) :
    (w.add c n).units = w.units := by
  cases c <;> first | rfl | exact absurd (by simp [Counter.Metered]) h

/-- A clock that never goes back and never comes to the deadline. -/
structure Meter.Steady (m : Meter) : Prop where
  onward : m.deadline.lastNowMs ≤ m.clock 0
  mono : Monotone m.clock
  early : ∀ i, m.clock i < m.deadline.deadlineMs

/-- A meter after work `w`; `calm` says that its clock is known to be steady. -/
structure At (calm : Prop) (w : WorkCounts) (m : Meter) : Prop where
  work : m.work = w
  completed : m.completedUnits = w.units
  checkpointed : m.deadline.completedUnits = m.lastCheckpointUnits
  gap : m.completedUnits < m.lastCheckpointUnits + deadlineCheckIntervalUnits
  last_le : m.lastCheckpointUnits ≤ m.completedUnits
  steady : calm → m.Steady

/-- A meter whose clock stands still. -/
def stillMeter : Meter := ⟨.zero, ⟨maxOperationDeadlineMs, 0, 0⟩, 0, 0, fun _ => 0⟩

theorem stillMeter_at (calm : Prop) : At calm .zero stillMeter :=
  ⟨rfl, rfl, rfl, by decide, le_rfl, fun _ => ⟨le_rfl, fun _ _ _ => le_rfl,
    fun _ => (by decide : 0 < maxOperationDeadlineMs)⟩⟩

/-- Failures that a run within work `B` may end in: of the deadline, when the clock is not calm.
    Either all are tolerated or the counters stay within their caps. -/
structure Tolerates (calm : Prop) (B : WorkCounts) (E : ExecutionFailure → Prop) : Prop where
  caps : (∀ e, E e) ∨ B ≤ WorkCounts.caps
  late : ¬ calm → ∀ w ≤ B, E ⟨.deadline, w⟩

/-- Failures of every class are tolerated, unless all is well. -/
def Excuses (good : Prop) (B : WorkCounts) (E : ExecutionFailure → Prop) : Prop :=
  ¬ good → ∀ cls, ∀ w ≤ B, E ⟨cls, w⟩

section Spec

variable {calm good : Prop} {w B : WorkCounts} {E : ExecutionFailure → Prop} {c : Counter}

theorem checkpoint_run (hE : Tolerates calm B E) (hw : w ≤ B) {m : Meter} (hm : m.work = w)
    (hc : m.completedUnits = w.units) (hk : m.deadline.completedUnits = m.lastCheckpointUnits)
    (hl : m.lastCheckpointUnits ≤ m.completedUnits)
    (hg : m.completedUnits ≤ m.lastCheckpointUnits + deadlineCheckIntervalUnits)
    (hs : calm → m.Steady) : Meets (· = m) checkpoint (fun _ => At calm w) E := by
  rintro m rfl
  have hcalm (h : calm) : ∃ d, m.deadline.checkpoint (m.clock 0) m.completedUnits = .ok d := by
    rw [MonotonicDeadline.checkpoint, if_neg (hs h).onward.not_gt, hk, if_neg hl.not_gt,
      if_neg (by omega), if_neg ((hs h).early 0).not_ge]
    exact ⟨_, rfl⟩
  rw [checkpoint]
  rcases hd : m.deadline.checkpoint (m.clock 0) m.completedUnits with e | d
  · refine hm ▸ hE.late ?_ m.work (hm ▸ hw)
    intro h
    obtain ⟨d, h⟩ := hcalm h
    rw [hd] at h
    cases h
  · rw [MonotonicDeadline.checkpoint] at hd
    split_ifs at hd
    cases hd
    refine ⟨hm, hc, rfl, by simp [deadlineCheckIntervalUnits], le_rfl, ?_⟩
    intro h
    exact ⟨(hs h).mono (Nat.zero_le 1), fun i j hij => (hs h).mono (Nat.succ_le_succ hij),
      fun i => (hs h).early (i + 1)⟩

theorem checkpoint_meets (hE : Tolerates calm B E) (hw : w ≤ B) :
    Meets (At calm w) checkpoint (fun _ => At calm w) E :=
  fun m hm => checkpoint_run hE hw hm.work hm.completed hm.checkpointed hm.last_le hm.gap.le
    hm.steady m rfl

theorem fits_or_tolerated (hE : Tolerates calm B E) (hw : w.add c 1 ≤ B) :
    w.get c + 1 < 2 ^ 63 ∧ (w.add c 1).units < 2 ^ 63 ∨ ∀ e, E e := by
  rcases hE.caps with hall | hcaps
  · exact .inr hall
  · have hle := WorkCounts.le_trans hw hcaps
    have h := WorkCounts.get_lt hle c
    rw [WorkCounts.add, WorkCounts.get_set_self] at h
    exact .inl ⟨h, WorkCounts.units_lt hle⟩

/-- A counter whose units are not completed ones. -/
theorem count_meets (hE : Tolerates calm B E) (hc : ¬ c.Metered) (hw : w.add c 1 ≤ B)
    {o : FailureClass} : Meets (At calm w) (count c o) (fun _ => At calm (w.add c 1)) E := by
  intro m hm
  rw [count, checkedAdd]
  by_cases hfit : m.work.get c + 1 < 2 ^ 64
  · rw [if_pos hfit]
    refine ⟨by rw [← hm.work]; rfl, ?_, hm.checkpointed, hm.gap, hm.last_le, ?_⟩
    · rw [units_add_of_not hc]
      exact hm.completed
    · intro h
      exact ⟨(hm.steady h).onward, (hm.steady h).mono, (hm.steady h).early⟩
  · rw [if_neg hfit]
    rcases fits_or_tolerated hE hw with ⟨h, -⟩ | hall
    · rw [hm.work] at hfit
      omega
    · exact hall _

/-- A unit of work, counted and completed. -/
theorem unit_meets (hE : Tolerates calm B E) (hc : c.Metered) (hw : w.add c 1 ≤ B)
    {o : FailureClass} :
    Meets (At calm w) (do count c o; advance 1) (fun _ => At calm (w.add c 1)) E := by
  intro m hm
  have hgap := hm.gap
  have hlast := hm.last_le
  have hdone : m.completedUnits + 1 = (w.add c 1).units := by rw [hc.units_add, hm.completed]
  have hfits := fits_or_tolerated hE hw
  rw [← hdone, ← hm.work] at hfits
  rw [Proc.bind_apply, count, checkedAdd]
  by_cases hfit : m.work.get c + 1 < 2 ^ 64
  · rw [if_pos hfit]
    simp only [advance]
    rw [checkedAdd]
    have hwork : m.work.set c (m.work.get c + 1) = w.add c 1 := by rw [hm.work, WorkCounts.add]
    by_cases hunits : m.completedUnits + 1 < 2 ^ 64
    · rw [if_pos hunits]
      dsimp only
      split_ifs with hi
      · refine checkpoint_run hE hw ?_ ?_ ?_ ?_ ?_ ?_ _ rfl
        · exact hwork
        · exact hdone
        · exact hm.checkpointed
        · exact hlast.trans (Nat.le_succ _)
        · show m.completedUnits + 1 ≤ m.lastCheckpointUnits + _
          omega
        · intro h
          exact ⟨(hm.steady h).onward, (hm.steady h).mono, (hm.steady h).early⟩
      · refine ⟨hwork, hdone, hm.checkpointed, ?_, hlast.trans (Nat.le_succ _), ?_⟩
        · show m.completedUnits + 1 < m.lastCheckpointUnits + _
          simp only [deadlineCheckIntervalUnits] at hi ⊢
          omega
        · intro h
          exact ⟨(hm.steady h).onward, (hm.steady h).mono, (hm.steady h).early⟩
    · rw [if_neg hunits]
      rcases hfits with ⟨-, h⟩ | hall
      · omega
      · exact hall _
  · rw [if_neg hfit]
    rcases hfits with ⟨h, -⟩ | hall
    · omega
    · exact hall _

theorem accountGraphScanUnit_meets (hE : Tolerates calm B E) (hw : w.add .graphScanUnits 1 ≤ B) :
    Meets (At calm w) accountGraphScanUnit (fun _ => At calm (w.add .graphScanUnits 1)) E :=
  unit_meets hE (.inr (.inr rfl)) hw

theorem scanUnits_meets (hE : Tolerates calm B E) {n : ℕ} (hw : w.add .graphScanUnits n ≤ B) :
    Meets (At calm w) (scanUnits n) (fun _ => At calm (w.add .graphScanUnits n)) E := by
  induction n generalizing w with
  | zero => exact Meets.pure fun m hm => hm
  | succ n ih =>
    rw [Nat.add_comm, ← WorkCounts.add_add] at hw
    rw [scanUnits, Nat.add_comm, ← WorkCounts.add_add]
    refine (accountGraphScanUnit_meets hE ?_).bind fun _ => ih hw
    exact WorkCounts.le_trans (WorkCounts.le_add _ _ n) hw

theorem buildCountedGraphVec_meets {α : Type} (hE : Tolerates calm B E) {n : ℕ} (build : ℕ → α)
    (hw : w.add .graphScanUnits n ≤ B) :
    Meets (At calm w) (buildCountedGraphVec n build)
      (fun values m => values = (List.range n).map build ∧ At calm (w.add .graphScanUnits n) m)
      E := by
  have h0 : w ≤ B := WorkCounts.le_trans (WorkCounts.le_add _ _ n) hw
  rw [buildCountedGraphVec_eq]
  refine (checkpoint_meets hE h0).bind fun _ => (checkpoint_meets hE h0).bind fun _ => ?_
  exact (scanUnits_meets hE hw).bind fun _ => Meets.pure fun m hm => ⟨rfl, hm⟩

/-- A loop whose steps charge what they cost and compute a value of the part that is done. -/
theorem foldlM_cost_meets {α β : Type} {f : β → α → Run β} (value : List α → β) (cost : α → ℕ)
    (xs : List α) (hw : w.add .graphScanUnits (xs.map cost).sum ≤ B)
    (h : ∀ (done : List α) (x : α) (rest : List α), xs = done ++ x :: rest → ∀ v,
      v.add .graphScanUnits (cost x) ≤ B → Meets (At calm v) (f (value done) x)
        (fun b m => b = value (done ++ [x]) ∧ At calm (v.add .graphScanUnits (cost x)) m) E) :
    Meets (At calm w) (xs.foldlM f (value []))
      (fun b m => b = value xs ∧ At calm (w.add .graphScanUnits (xs.map cost).sum) m) E := by
  refine (Meets.foldlM (I := fun done b m => b = value done
    ∧ At calm (w.add .graphScanUnits (done.map cost).sum) m) ?_ _).pre
    fun m hm => ⟨rfl, by simpa using hm⟩
  rintro done x rest hx b
  refine Meets.of_fact ?_
  rintro rfl
  have hstep := h done x rest hx (w.add .graphScanUnits (done.map cost).sum) (by
    rw [WorkCounts.add_add]
    refine WorkCounts.add_le_of_le hw ?_
    rw [hx, List.map_append, List.map_cons, List.sum_append, List.sum_cons]
    omega)
  rw [List.map_append, List.sum_append, List.map_singleton, List.sum_singleton]
  rwa [WorkCounts.add_add] at hstep

theorem foldlM_unit_meets {α β : Type} {f : β → α → Run β} (value : List α → β) (xs : List α)
    (hw : w.add .graphScanUnits xs.length ≤ B)
    (h : ∀ (done : List α) (x : α) (rest : List α), xs = done ++ x :: rest → ∀ v,
      v.add .graphScanUnits 1 ≤ B → Meets (At calm v) (f (value done) x)
        (fun b m => b = value (done ++ [x]) ∧ At calm (v.add .graphScanUnits 1) m) E) :
    Meets (At calm w) (xs.foldlM f (value []))
      (fun b m => b = value xs ∧ At calm (w.add .graphScanUnits xs.length) m) E := by
  have hsum : (xs.map fun _ => 1).sum = xs.length := by simp
  rw [← hsum] at hw ⊢
  exact foldlM_cost_meets value (fun _ => 1) xs hw h

theorem setIterations_meets (n : ℕ) :
    Meets (At calm w) (setIterations n) (fun _ => At calm (w.set .iterations n)) E := by
  refine Meets.change fun m hm => ⟨by rw [hm.work], hm.completed, hm.checkpointed, hm.gap, hm.last_le,
    fun h => ?_⟩
  exact ⟨(hm.steady h).onward, (hm.steady h).mono, (hm.steady h).early⟩

theorem excuses_true : Excuses True B E := fun h => absurd trivial h

theorem require_meets {p : Prop} [Decidable p] (hF : Excuses good B E) (hw : w ≤ B) (hp : good → p)
    {cls : FailureClass} :
    Meets (At calm w) (require p cls) (fun _ m => p ∧ At calm w m) E := by
  refine Meets.ensure (fun h m hm => ⟨h, hm⟩) fun h m hm => ?_
  rw [hm.work]
  exact hF (fun hgood => h (hp hgood)) _ _ hw

theorem orFail_meets {α : Type} {x : Option α} (hF : Excuses good B E) (hw : w ≤ B)
    (hx : good → x.isSome) {cls : FailureClass} :
    Meets (At calm w) (orFail x cls) (fun a m => x = some a ∧ At calm w m) E := by
  refine Meets.ofOption (fun a h m hm => ⟨h, hm⟩) fun h m hm => ?_
  rw [hm.work]
  exact hF (fun hgood => by simp [h] at hx; exact hx hgood) _ _ hw

theorem orBlank_meets {α : Type} {x : Option α} (hF : Excuses good B E) (hx : good → x.isSome)
    {cls : FailureClass} :
    Meets (At calm w) (orBlank x cls) (fun a m => x = some a ∧ At calm w m) E := by
  refine Meets.ofOption (fun a h m hm => ⟨h, hm⟩) fun h m hm => ?_
  exact hF (fun hgood => by simp [h] at hx; exact hx hgood) _ _ (WorkCounts.zero_le B)

end Spec

end AiraGraphdb.Native.Bounded
