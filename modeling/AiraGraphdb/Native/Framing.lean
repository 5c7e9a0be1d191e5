import AiraGraphdb.Native.Journal
import AiraGraphdb.Native.BoundedReads
import AiraGraphdb.Schemes.Feeds

/-! # The normal server over its input

The loop of the server reads its requests from a stream of bytes, a line at a time, and writes one
line for each. What `storeStep` says of a line, `normalStep` does with a line that was read; however
the bytes arrive, the server runs over their lines (`normal_run`). -/

namespace AiraGraphdb.Native

open Schemes Schemes.Json

/-! ### Reading a frame -/

def carriageReturn : UInt8 := 0x0D

/-- A line without the carriage return that may stand before its end. -/
def withoutCarriageReturn (frame : Bytes) : Bytes :=
  if frame.getLast? = some carriageReturn then frame.dropLast else frame

/-- A last request needs no line feed. -/
def normalReader (maximumBytes : ℕ) : LineReader String Bytes where
  sep := lineFeed
  keep := false
  limit := maximumBytes
  tooLong := "normal protocol input frame exceeds " ++ toString maximumBytes ++ " bytes"
  failed := "stdin read failed"
  line := withoutCarriageReturn
  last := fun frame => .ok (if frame = [] then none else some frame)
  last_nil := rfl

def readBoundedNormalFrame (maximumBytes : ℕ) : Feed → Except String (Option (Bytes × Feed)) :=
  (normalReader maximumBytes).read

/-- A line as it is written, with or without a carriage return, is the frame that is read. -/
theorem withoutCarriageReturn_crlf (frame : Bytes) :
    withoutCarriageReturn (frame ++ [carriageReturn]) = frame := by
  rw [withoutCarriageReturn, List.getLast?_concat, if_pos rfl, List.dropLast_concat]

/-! ### Writing a response -/

section Normal

variable [Externals]

def AppError.value (e : AppError) : Value :=
  .obj [("code", .str e.code), ("message", .str e.message), ("failureClass", .str (match e.failureClass with
    | .clientInput => "CLIENT_INPUT"
    | .ioFailure => "IO_FAILURE"))]

/-- A response, unless the process has panicked. -/
def RpcResponse.value (r : RpcResponse) : Option Value :=
  match r.result with
  | .ok result => some (.obj [("id", numU64 r.id), ("ok", .bool true), ("result", result)])
  | .error (.app e) => some (.obj [("id", numU64 r.id), ("ok", .bool false), ("error", e.value)])
  | .error (.panic _) => none

/-- A response as a line. -/
def RpcResponse.line (r : RpcResponse) : Option Bytes :=
  r.value.map fun value => value.print floats ++ [lineFeed]

def serializeNormalResponse (r : RpcResponse) (boundedIndexingResponse : Bool) :
    Except String Bytes :=
  match r.value with
  | none => .error "the request handler panicked"
  | some value =>
    if boundedIndexingResponse ∧ maxIndexingResponseBytes < (value.print floats).length then
      .error "bounded indexing response validation failed"
    else .ok (value.print floats)

theorem serializeNormalResponse_ok {r : RpcResponse} {bounded : Bool} {payload : Bytes}
    (h : serializeNormalResponse r bounded = .ok payload) :
    r.line = some (payload ++ [lineFeed]) ∧ lineFeed ∉ payload := by
  rw [serializeNormalResponse] at h
  rw [RpcResponse.line]
  split at h
  · cases h
  · next value hvalue =>
    split at h
    · cases h
    · cases h
      refine ⟨by rw [hvalue]; rfl, fun hmem => ?_⟩
      exact absurd (ge_of_mem_print floats value lineFeed hmem) (by decide)

/-! ### The loop -/

variable [Runtime] (answer : Memory → RpcRequest → Result Value) (hosts : ℕ → Host)

/-- The server with what it has written; the host it finds in a turn is that of the turn's number. -/
structure NormalLoop where
  server : Server
  dir : Dir
  turn : ℕ
  output : List Bytes

/-- The method that a frame asks for is one whose responses are bounded. -/
def asksBounded (frame : Bytes) : Bool :=
  (fromSlice IncomingRpcRequest.read frame).any fun incoming =>
    isIndexingMemoryMethod incoming.method

/-- One turn of the loop: a frame is handled and its response is written. -/
def normalStep (l : NormalLoop) (frame : Bytes) : NormalLoop × Option String :=
  match storeStep answer (l.server, l.dir) (hosts l.turn, frame) with
  | none => (l, some "normal protocol input frame is not valid UTF-8")
  | some (c, response) =>
    let l := { l with server := c.1, dir := c.2, turn := l.turn + 1 }
    match response with
    | none => (l, none)
    | some response => match serializeNormalResponse response (asksBounded frame) with
      | .error e => (l, some e)
      | .ok payload =>
        ({ l with output := l.output ++ [payload ++ [lineFeed]] },
          if c.1.fatal then some "native durability boundary entered fail-closed state" else none)

/-- The loop over its input; `fuel` bounds the turns. -/
def runNormalLoop (fuel : ℕ) (f : Feed) (l : NormalLoop) : NormalLoop × Finish String :=
  serve (readBoundedNormalFrame maxNormalRequestFrameBytes) (normalStep answer hosts) fuel f l

/-- The frames of an input, and how reading them ends. -/
def normalFrames (f : Feed) : List Bytes × Finish String :=
  (normalReader maxNormalRequestFrameBytes).itemsOf f

/-- The responses of a run, as they are written. -/
def responseLines (h : List ((Host × Bytes) × Option RpcResponse)) : List Bytes :=
  h.filterMap fun e => e.2.bind RpcResponse.line

/-- What holds after some frames: they are the frames of a run of the store from its start, in their
order and with the hosts of their turns. -/
structure RunsOver (c₀ : Server × Dir) (frames : List Bytes) (l : NormalLoop)
    (h : List ((Host × Bytes) × Option RpcResponse)) : Prop where
  turns : l.turn = frames.length
  run : Trace (storeStep answer) c₀ h (l.server, l.dir)
  inputs : h.map Prod.fst = frames.zipIdx.map fun e => (hosts e.2, e.1)

/-- Every line of the output ends where a line feed stands, and nowhere before. -/
def Lined (output : List Bytes) : Prop :=
  ∀ line ∈ output, ∃ text, line = text ++ [lineFeed] ∧ lineFeed ∉ text

/-- What a turn that takes a step of the store leaves: its response is written, or the loop ends
because it cannot be. -/
structure TurnOver (l l' : NormalLoop) (frame : Bytes) (response : Option RpcResponse)
    (e : Option String) : Prop where
  stored : storeStep answer (l.server, l.dir) (hosts l.turn, frame)
    = some ((l'.server, l'.dir), response)
  turn : l'.turn = l.turn + 1
  written : l'.output = l.output ++ (response.bind RpcResponse.line).toList ∨
    l'.output = l.output ∧ e ≠ none
  lined : Lined l.output → Lined l'.output
  live : e = none → l'.server.fatal = false

/-- What every turn that does not fail keeps. -/
structure InLoop (c₀ : Server × Dir) (frames : List Bytes) (l : NormalLoop) : Prop where
  run : ∃ h, RunsOver answer hosts c₀ frames l h ∧ l.output = responseLines h
  lined : Lined l.output
  live : l.server.fatal = false

/-- What the loop has done when it comes to its end: a run of the store over the first of its frames,
over all of them when the input just ended. It has written the responses of that run, each as a line
of its own; only the last can be missing, when it could not be written. -/
structure LoopServed (c₀ : Server × Dir) (f : Feed) (out : NormalLoop × Finish String) : Prop where
  stops : out.2 ≠ .running
  lined : Lined out.1.output
  run : ∃ frames rest h, (normalFrames f).1 = frames ++ rest
    ∧ RunsOver answer hosts c₀ frames out.1 h
    ∧ (responseLines h = out.1.output ∨ ∃ before e, h = before ++ [e]
      ∧ responseLines before = out.1.output ∧ out.2 ≠ .ended)
    ∧ (out.2 = .ended → rest = [])
  ended : out.2 = .ended → (normalFrames f).2 = .ended ∧ out.1.server.fatal = false

variable {answer hosts}

omit [Runtime] in
theorem responseLines_snoc (h : List ((Host × Bytes) × Option RpcResponse))
    (e : (Host × Bytes) × Option RpcResponse) :
    responseLines (h ++ [e]) = responseLines h ++ (e.2.bind RpcResponse.line).toList := by
  rw [responseLines, responseLines, List.filterMap_append]
  rcases he : e.2.bind RpcResponse.line with _ | line <;> simp [he]

omit [Externals] [Runtime] in
theorem Lined.snoc {output : List Bytes} (h : Lined output) {text : Bytes}
    (ht : lineFeed ∉ text) : Lined (output ++ [text ++ [lineFeed]]) := by
  intro line hline
  rcases List.mem_append.mp hline with hline | hline
  · exact h line hline
  · exact ⟨text, List.mem_singleton.mp hline, ht⟩

variable (answer hosts) in
/-- A turn of the loop leaves everything as it is and fails, or it is a step of the store. -/
theorem normalStep_cases (l : NormalLoop) (frame : Bytes) :
    ((normalStep answer hosts l frame).1 = l ∧ (normalStep answer hosts l frame).2 ≠ none) ∨
    ∃ response, TurnOver answer hosts l (normalStep answer hosts l frame).1 frame response
      (normalStep answer hosts l frame).2 := by
  rcases hstore : storeStep answer (l.server, l.dir) (hosts l.turn, frame) with _ | ⟨c, response⟩
  · refine .inl ?_
    rw [normalStep, hstore]
    exact ⟨rfl, Option.some_ne_none _⟩
  refine .inr ⟨response, ?_⟩
  rw [normalStep, hstore]
  obtain ⟨hlive, hcases⟩ := storeStep_cases hstore
  rcases response with _ | response
  · -- a line without a request leaves the server as it is
    obtain ⟨rfl, -⟩ : c = (l.server, l.dir) ∧ True := by
      rcases hcases with ⟨rfl, -⟩ | ⟨_, _, _, _, _, hresponse⟩
      · exact ⟨rfl, trivial⟩
      · cases hresponse
    exact ⟨hstore, rfl, .inl (by simp), id, fun _ => hlive⟩
  · rcases hpayload : serializeNormalResponse response (asksBounded frame) with e | payload
    · dsimp only
      rw [hpayload]
      exact ⟨hstore, rfl, .inr ⟨rfl, Option.some_ne_none _⟩, id, fun h => absurd h (by simp)⟩
    · dsimp only
      rw [hpayload]
      obtain ⟨hline, htext⟩ := serializeNormalResponse_ok hpayload
      refine ⟨hstore, rfl, .inl ?_, fun h => h.snoc htext, fun h => ?_⟩
      · rw [Option.bind_some, hline]
        rfl
      · by_contra hfatal
        rw [Bool.not_eq_false] at hfatal
        dsimp only at h hfatal
        rw [if_pos hfatal] at h
        cases h

/-- A turn that takes a step makes the run longer by its frame. -/
theorem RunsOver.snoc {c₀ : Server × Dir} {frames : List Bytes} {l l' : NormalLoop} {frame : Bytes}
    {h : List ((Host × Bytes) × Option RpcResponse)} {response : Option RpcResponse}
    {e : Option String} (hl : RunsOver answer hosts c₀ frames l h)
    (hstep : TurnOver answer hosts l l' frame response e) :
    RunsOver answer hosts c₀ (frames ++ [frame]) l'
      (h ++ [((hosts l.turn, frame), response)]) := by
  refine ⟨?_, hl.run.snoc hstep.stored, ?_⟩
  · rw [hstep.turn, hl.turns, List.length_append, List.length_singleton]
  · rw [List.map_append, hl.inputs, List.zipIdx_append, List.map_append, hl.turns]
    simp

theorem InLoop.step {c₀ : Server × Dir} {frames : List Bytes} {l l' : NormalLoop} {frame : Bytes}
    (hl : InLoop answer hosts c₀ frames l)
    (hstep : normalStep answer hosts l frame = (l', none)) :
    InLoop answer hosts c₀ (frames ++ [frame]) l' := by
  obtain ⟨h, hrun, houtput⟩ := hl.run
  rcases normalStep_cases answer hosts l frame with ⟨-, hfail⟩ | ⟨response, hover⟩
  · rw [hstep] at hfail
    exact absurd rfl hfail
  · rw [hstep] at hover
    refine ⟨⟨_, hrun.snoc hover, ?_⟩, hover.lined hl.lined, hover.live rfl⟩
    rcases hover.written with hwritten | ⟨-, hnone⟩
    · rw [hwritten, houtput, responseLines_snoc]
    · exact absurd rfl hnone

/-! ### Frames as they are written -/

/-- How a client writes a request: as a line, with or without a carriage return. -/
def requestLine (e : Bytes × Bool) : Bytes :=
  e.1 ++ if e.2 then [carriageReturn, lineFeed] else [lineFeed]

/-- A request that a line can hold. -/
structure IsRequest (e : Bytes × Bool) : Prop where
  oneLine : lineFeed ∉ e.1
  noReturn : e.1.getLast? ≠ some carriageReturn
  short : e.1.length + e.2.toNat ≤ maxNormalRequestFrameBytes

omit [Externals] [Runtime] in
theorem requestLine_eq (e : Bytes × Bool) :
    requestLine e = (e.1 ++ if e.2 then [carriageReturn] else []) ++ [lineFeed] := by
  rw [requestLine]
  cases e.2 <;> simp

omit [Externals] [Runtime] in
/-- What clients write as lines, the server reads as its frames. -/
theorem normalFrames_written {requests : List (Bytes × Bool)} (h : ∀ e ∈ requests, IsRequest e)
    {f : Feed} (hbytes : f.bytes = requests.flatMap requestLine) (hbroken : f.broken = false) :
    normalFrames f = (requests.map Prod.fst, .ended) := by
  have hlines : linesOf lineFeed f.bytes
      = (requests.map fun e => e.1 ++ if e.2 then [carriageReturn] else [], []) := by
    have hwritten := @linesOf_written lineFeed
      (requests.map fun e => e.1 ++ if e.2 then [carriageReturn] else []) ?_ [] (by simp)
    · rw [List.append_nil, List.flatMap_map] at hwritten
      rw [hbytes, ← hwritten]
      exact congrArg _ (congrFun (congrArg _ (funext requestLine_eq)) requests)
    · intro line hline
      obtain ⟨e, he, rfl⟩ := List.mem_map.mp hline
      have hone := (h e he).oneLine
      have hother : lineFeed ≠ carriageReturn := by decide
      cases e.2 <;> simp [hone, hother]
  rw [normalFrames, LineReader.itemsOf, show (normalReader _).sep = lineFeed from rfl, hlines,
    hbroken]
  clear hlines hbytes
  induction requests with
  | nil => rfl
  | cons e requests ih =>
    have he := h e (by simp)
    have hitems := ih fun d hd => h d (by simp [hd])
    dsimp only at hitems ⊢
    rw [List.map_cons, LineReader.items, hitems, if_neg ?_]
    · refine Prod.ext (List.cons_eq_cons.mpr ⟨?_, rfl⟩) rfl
      change withoutCarriageReturn (_ ++ []) = e.1
      rw [List.append_nil]
      rcases hreturn : e.2 with _ | _
      · simp only [Bool.false_eq_true, if_false, List.append_nil]
        exact if_neg he.noReturn
      · exact withoutCarriageReturn_crlf e.1
    · have hshort := he.short
      change ¬ maxNormalRequestFrameBytes < _ + 0
      rcases hreturn : e.2 with _ | _ <;> simp [hreturn] at hshort ⊢ <;> omega

/-! ### The whole loop -/

omit [Externals] [Runtime] in
theorem itemsOf_not_running {ε α : Type} (r : LineReader ε α) (f : Feed) :
    (r.itemsOf f).2 ≠ .running := by
  rw [LineReader.itemsOf]
  induction (linesOf r.sep f.bytes).1 with
  | nil =>
    rw [LineReader.items, LineReader.lastItems]
    split_ifs
    · simp
    · simp
    · split <;> simp
  | cons line lines ih =>
    rw [LineReader.items]
    split_ifs
    · simp
    · exact ih

theorem loopServed (c₀ : Server × Dir) (hlive : c₀.1.fatal = false) (f : Feed) {fuel : ℕ}
    (hfuel : f.bytes.length + 1 < fuel) :
    LoopServed answer hosts c₀ f (runNormalLoop answer hosts fuel f ⟨c₀.1, c₀.2, 0, []⟩) := by
  have hserve : runNormalLoop answer hosts fuel f ⟨c₀.1, c₀.2, 0, []⟩
      = serveAll (normalStep answer hosts) (normalFrames f).2 (normalFrames f).1
        ⟨c₀.1, c₀.2, 0, []⟩ :=
    LineReader.serve_eq _ _ f _ hfuel
  have hstart : InLoop answer hosts c₀ [] ⟨c₀.1, c₀.2, 0, []⟩ :=
    ⟨⟨[], ⟨rfl, .nil, rfl⟩, rfl⟩, fun line h => absurd h List.not_mem_nil, hlive⟩
  rw [hserve]
  rcases serveAll_cases (fun done t a t' h hstep => InLoop.step h hstep) (normalFrames f).2
    (normalFrames f).1 [] hstart with ⟨hall, hend⟩ | ⟨before, frame, after, l, e, hframes, hin,
      hlast, hend⟩
  · obtain ⟨h, hrun, houtput⟩ := hall.run
    refine ⟨?_, hall.lined, ⟨_, [], h, (List.append_nil _).symm, hrun, .inl houtput.symm,
      fun _ => rfl⟩, fun hended => ⟨hend ▸ hended, hall.live⟩⟩
    rw [hend]
    exact itemsOf_not_running _ f
  · -- the loop ends with a turn that fails
    obtain ⟨h, hrun, houtput⟩ := hin.run
    have hfailed : (serveAll (normalStep answer hosts) (normalFrames f).2 (normalFrames f).1
        ⟨c₀.1, c₀.2, 0, []⟩).2 ≠ .ended := by
      rw [hend]
      simp
    have hover : (serveAll (normalStep answer hosts) (normalFrames f).2 (normalFrames f).1
        ⟨c₀.1, c₀.2, 0, []⟩).2 ≠ .running := by
      rw [hend]
      simp
    have hcases := normalStep_cases answer hosts l frame
    rw [hlast] at hcases
    dsimp only at hcases
    rcases hcases with ⟨hsame, -⟩ | ⟨response, hturn⟩
    · refine ⟨hover, hsame ▸ hin.lined, ⟨before, frame :: after, h, hframes, hsame ▸ hrun,
        .inl (hsame ▸ houtput.symm), fun hended => absurd hended hfailed⟩,
        fun hended => absurd hended hfailed⟩
    · refine ⟨hover, hturn.lined hin.lined, ⟨before ++ [frame], after, _, ?_, hrun.snoc hturn, ?_,
        fun hended => absurd hended hfailed⟩, fun hended => absurd hended hfailed⟩
      · rw [hframes, List.append_assoc, List.singleton_append]
      · rcases hturn.written with hwritten | ⟨hsame, -⟩
        · exact .inl (by rw [responseLines_snoc, hwritten, houtput])
        · exact .inr ⟨h, _, rfl, by rw [hsame, houtput], hfailed⟩

end Normal

attribute [local instance] Concrete.externals Concrete.runtime

/-- A first request that arrives in two pieces. -/
def splitBegin : Feed :=
  .push (Concrete.beginLine.take 5) (.push (Concrete.beginLine.drop 5 ++ [lineFeed]) .ended)

theorem bytes_splitBegin : splitBegin.bytes = Concrete.beginLine ++ [lineFeed] := by
  rw [splitBegin, Feed.bytes_push, Feed.bytes_push, Feed.bytes, List.append_nil, ← List.append_assoc,
    List.take_append_drop]

end AiraGraphdb.Native
