import AiraGraphdb.Native.Framing
import AiraGraphdb.Native.Bounded.Replies

/-! # A descriptor session over its input

A descriptor process reads frames of at most 2 MiB, at most 4096 of them and 64 MiB in all, and
writes no more than that. The `conversation` says what the frames are answered and what becomes of
the deadline of the session; the loop comes to the end of its input exactly when the frames and the
answers to them are within the limits (`descriptor_session`). -/

namespace AiraGraphdb.Native

open Schemes Schemes.Json Bounded

def maxDescriptorProtocolFrameBytes : ℕ := 2 * 1024 * 1024

def maxDescriptorProtocolBytes : ℕ := 64 * 1024 * 1024

def maxDescriptorProtocolFrames : ℕ := 4096

/-! ### Reading and accounting -/

/-- The line feed stays in the frame; bytes behind the last one are an error. -/
def descriptorReader : LineReader String Bytes where
  sep := lineFeed
  keep := true
  limit := maxDescriptorProtocolFrameBytes
  tooLong := "descriptor protocol input frame exceeds 2MiB"
  failed := "stdin read failed"
  line := id
  last := fun frame => if frame = [] then .ok none
    else .error "descriptor protocol ended with a partial frame"
  last_nil := rfl

def readBoundedDescriptorFrame : Feed → Except String (Option (Bytes × Feed)) := descriptorReader.read

/-- `account_descriptor_output` asks the same of a payload and the line feed behind it. -/
def accountDescriptorCompleteFrame (current frameLen : ℕ) : Except String ℕ :=
  if maxDescriptorProtocolFrameBytes < frameLen then
    .error "descriptor protocol output frame exceeds 2MiB"
  else if maxDescriptorProtocolBytes < current + frameLen then
    .error "descriptor protocol cumulative output exceeds 64MiB"
  else .ok (current + frameLen)

theorem accountDescriptorCompleteFrame_ok {current frameLen total : ℕ} :
    accountDescriptorCompleteFrame current frameLen = .ok total ↔
      frameLen ≤ maxDescriptorProtocolFrameBytes ∧ current + frameLen ≤ maxDescriptorProtocolBytes
        ∧ total = current + frameLen := by
  rw [accountDescriptorCompleteFrame]
  split_ifs with hframe htotal
  · exact ⟨fun h => absurd h (by simp), fun h => absurd hframe (Nat.not_lt.mpr h.1)⟩
  · exact ⟨fun h => absurd h (by simp), fun h => absurd htotal (Nat.not_lt.mpr h.2.1)⟩
  · exact ⟨fun h => ⟨Nat.not_lt.mp hframe, Nat.not_lt.mp htotal, (Except.ok.inj h).symm⟩,
      fun h => congrArg _ h.2.2.symm⟩

section Descriptor

variable [Externals]

/-! ### Answers -/

/-- The methods of a descriptor process, besides those of bounded retrieval. -/
def descriptorMethodNames : List String := ["ping", "protocol_info"]

/-- `handle_prepared` in a descriptor process; `protocolInfo` is what it says of itself. -/
def descriptorHandle (protocolInfo : Result Value) (req : RpcRequest) : Result Value :=
  if req.method ∈ boundedOperations then
    .error (.app ⟨"REQUEST_EXECUTION_FAILED",
      "bounded retrieval checkpoint is unavailable; algorithm dispatch is not implemented",
      .clientInput⟩)
  else match methodSpec req.method with
    | none => .error (.app (unsupportedMethodError req.method))
    | some spec =>
      if spec.name ∉ descriptorMethodNames then
        .error (.app ⟨"DESCRIPTOR_READ_ONLY_METHOD",
          "method is unavailable in descriptor read-only mode", .clientInput⟩)
      else if req.method = "ping" then .ok (.obj [("pong", .bool true)])
      else protocolInfo

/-- What a frame is answered: nothing, a line, a line that is the last one, or nothing any more. -/
inductive Answer where
  | silent
  | reply (payload : Bytes)
  | closing (payload : Bytes)
  | broken (e : String)

namespace Answer

def payload : Answer → Option Bytes
  | silent => none
  | reply payload => some payload
  | closing payload => some payload
  | broken _ => none

/-- The session goes on after it. -/
def GoesOn : Answer → Prop
  | silent => True
  | reply _ => True
  | closing _ => False
  | broken _ => False

/-- A response as an answer. -/
def respond (r : RpcResponse) : Answer :=
  match r.line with
  | none => .broken "serialize response failed"
  | some payload => .reply payload

end Answer

/-- What the clocks show while a frame is handled. -/
structure Clocks where
  now : ℕ
  clock : ℕ → ℕ

/-- A session with what was read and written in it. -/
structure DescriptorLoop where
  session : Session
  inputBytes : ℕ
  outputBytes : ℕ
  frames : ℕ
  output : List Bytes

def DescriptorLoop.write (l : DescriptorLoop) (frame : Bytes) : DescriptorLoop × Option String :=
  match accountDescriptorCompleteFrame l.outputBytes frame.length with
  | .error e => (l, some e)
  | .ok total => ({ l with outputBytes := total, output := l.output ++ [frame] }, none)

/-- A closing line may fail to be written as well. -/
def DescriptorLoop.deliver (l : DescriptorLoop) : Answer → DescriptorLoop × Option String
  | .silent => (l, none)
  | .reply payload => l.write payload
  | .closing payload => ((l.write payload).1,
      some ((l.write payload).2.getD "descriptor read-only boundary entered fail-closed state"))
  | .broken e => (l, some e)

/-- What a descriptor process is given: its committed generation, the operations on it, what it says
of itself, and what its clocks show while a frame of this number is handled. -/
structure DescriptorProcess where
  generation : UInt64
  operate : BoundedRequest → Run Value
  protocolInfo : Result Value
  json : Serializer
  latest : ℕ
  clocks : ℕ → Clocks

namespace DescriptorProcess

variable (p : DescriptorProcess)

def answer (t : Clocks) (s : Session) (frame : Bytes) : Session × Answer :=
  match ofUtf8 frame with
  | none => (s, .broken "descriptor protocol frame is not UTF-8")
  | some line =>
    if line.toList.all isWhiteSpace then (s, .silent)
    else match fromSlice IncomingRpcRequest.read frame with
      | none => (s, .respond ⟨0, .error (.app invalidRequestError)⟩)
      | some incoming =>
        if incoming.method ∈ boundedOperations then
          (replyToFrame p.json p.latest p.generation p.operate s frame t.now t.clock).map id .reply
        else if incoming.progressProtocolVersion.isSome then
          match (RpcResponse.mk incoming.id (clientError
            "progress is unavailable in descriptor read-only mode")).line with
          | none => (s, .broken "serialize response failed")
          | some payload => (s, .closing payload)
        else (s, .respond ⟨incoming.id, descriptorHandle p.protocolInfo incoming.intoRpc⟩)

/-- What some frames are answered in turn, and the session after them. -/
def conversation (frames : List Bytes) : Session × List Answer :=
  frames.foldl (fun c frame =>
    let r := p.answer (p.clocks c.2.length) c.1 frame
    (r.1, c.2 ++ [r.2])) (⟨true, none, none⟩, [])

/-- The lines that are written for some frames. -/
def payloadsOf (frames : List Bytes) : List Bytes :=
  (p.conversation frames).2.filterMap Answer.payload

/-! ### The loop -/

def step (l : DescriptorLoop) (frame : Bytes) : DescriptorLoop × Option String :=
  if maxDescriptorProtocolBytes < l.inputBytes + frame.length then
    (l, some "descriptor protocol cumulative input exceeds 64MiB")
  else if maxDescriptorProtocolFrames < l.frames + 1 then
    ({ l with inputBytes := l.inputBytes + frame.length },
      some "descriptor protocol frame count exceeds 4096")
  else
    let r := p.answer (p.clocks l.frames) l.session frame
    { l with
      session := r.1
      inputBytes := l.inputBytes + frame.length
      frames := l.frames + 1 : DescriptorLoop }.deliver r.2

/-- The loop over its input; `fuel` bounds the turns. -/
def runDescriptorRead (fuel : ℕ) (f : Feed) : DescriptorLoop × Finish String :=
  serve readBoundedDescriptorFrame p.step fuel f ⟨⟨true, none, none⟩, 0, 0, 0, []⟩

def descriptorFrames (f : Feed) : List Bytes × Finish String := descriptorReader.itemsOf f

/-- Frames that a session gets through. -/
structure Accepted (frames : List Bytes) : Prop where
  input : (frames.map List.length).sum ≤ maxDescriptorProtocolBytes
  count : frames.length ≤ maxDescriptorProtocolFrames
  goesOn : ∀ a ∈ (p.conversation frames).2, a.GoesOn
  short : ∀ payload ∈ p.payloadsOf frames, payload.length ≤ maxDescriptorProtocolFrameBytes
  output : ((p.payloadsOf frames).map List.length).sum ≤ maxDescriptorProtocolBytes

/-- The loop after the frames of a session. -/
def loopAfter (frames : List Bytes) : DescriptorLoop where
  session := (p.conversation frames).1
  inputBytes := (frames.map List.length).sum
  outputBytes := ((p.payloadsOf frames).map List.length).sum
  frames := frames.length
  output := p.payloadsOf frames

/-- What is written is within the limits. -/
structure Written (output : List Bytes) : Prop where
  lines : ∀ payload ∈ output, IsLine maxDescriptorProtocolFrameBytes payload
  bytes : (output.map List.length).sum ≤ maxDescriptorProtocolBytes
  count : output.length ≤ maxDescriptorProtocolFrames

/-- What the loop has done when it comes to its end. -/
structure SessionServed (f : Feed) (out : DescriptorLoop × Finish String) : Prop where
  stops : out.2 ≠ .running
  ended_iff : out.2 = .ended ↔
    (descriptorFrames f).2 = .ended ∧ p.Accepted (descriptorFrames f).1
  ended : out.2 = .ended → out.1 = p.loopAfter (descriptorFrames f).1
  output_begins : out.1.output <+: p.payloadsOf (descriptorFrames f).1
  written : Written out.1.output

variable {p}

/-! ### Conversations -/

variable (p) in
/-- What a frame is answered after others. -/
def answerAfter (frames : List Bytes) (frame : Bytes) : Session × Answer :=
  p.answer (p.clocks frames.length) (p.conversation frames).1 frame

/-- Every frame has its answer. -/
theorem length_conversation (frames : List Bytes) :
    (p.conversation frames).2.length = frames.length := by
  induction frames using List.reverseRecOn with
  | nil => rfl
  | append_singleton frames frame ih =>
    rw [conversation, List.foldl_append, List.length_append, ← ih]
    exact List.length_append

theorem conversation_snoc (frames : List Bytes) (frame : Bytes) :
    p.conversation (frames ++ [frame])
      = ((p.answerAfter frames frame).1,
        (p.conversation frames).2 ++ [(p.answerAfter frames frame).2]) := by
  rw [answerAfter, ← @length_conversation _ p frames, conversation, List.foldl_append]
  rfl

theorem payloadsOf_snoc (frames : List Bytes) (frame : Bytes) :
    p.payloadsOf (frames ++ [frame])
      = p.payloadsOf frames ++ (p.answerAfter frames frame).2.payload.toList := by
  rw [payloadsOf, conversation_snoc, List.filterMap_append, payloadsOf]
  rcases h : (p.answerAfter frames frame).2.payload with _ | payload <;> simp [h]

/-- More frames are answered after those before. -/
theorem conversation_begins (frames more : List Bytes) :
    (p.conversation frames).2 <+: (p.conversation (frames ++ more)).2 := by
  induction more using List.reverseRecOn with
  | nil => rw [List.append_nil]
  | append_singleton more frame ih =>
    rw [← List.append_assoc, conversation_snoc]
    exact ih.trans (List.prefix_append _ _)

theorem payloadsOf_begins (frames more : List Bytes) :
    p.payloadsOf frames <+: p.payloadsOf (frames ++ more) :=
  (conversation_begins frames more).filterMap _

/-- What a session gets through, it gets through from its start. -/
theorem Accepted.of_append {frames more : List Bytes} (h : p.Accepted (frames ++ more)) :
    p.Accepted frames := by
  have hpayloads := @payloadsOf_begins _ p frames more
  refine ⟨?_, ?_, fun a ha => h.goesOn a ((conversation_begins frames more).subset ha),
    fun payload hp => h.short payload (hpayloads.subset hp), ?_⟩
  · have hinput := h.input
    rw [List.map_append, List.sum_append] at hinput
    omega
  · have hcount := h.count
    rw [List.length_append] at hcount
    omega
  · obtain ⟨rest, hrest⟩ := hpayloads
    have houtput := h.output
    rw [← hrest, List.map_append, List.sum_append] at houtput
    omega

theorem length_payloadsOf_le (frames : List Bytes) :
    (p.payloadsOf frames).length ≤ frames.length := by
  rw [← @length_conversation _ p frames]
  exact List.length_filterMap_le _ _

/-! ### Answers are lines -/

theorem isLine_of_response {r : RpcResponse} {payload : Bytes} (h : r.line = some payload) :
    ∃ text, payload = text ++ [lineFeed] ∧ lineFeed ∉ text := by
  obtain ⟨value, -, rfl⟩ := Option.map_eq_some_iff.mp h
  exact ⟨_, rfl, fun hmem => absurd (ge_of_mem_print floats value lineFeed hmem) (by decide)⟩

theorem payload_respond {r : RpcResponse} {payload : Bytes}
    (h : (Answer.respond r).payload = some payload) : r.line = some payload := by
  rw [Answer.respond] at h
  rcases hline : r.line with _ | line <;> rw [hline] at h <;> cases h
  rfl

/-- Whatever is written is one line. -/
theorem answer_line {t : Clocks} {s : Session} {frame payload : Bytes}
    (h : (p.answer t s frame).2.payload = some payload) :
    ∃ text, payload = text ++ [lineFeed] ∧ lineFeed ∉ text := by
  rw [answer] at h
  split at h
  · cases h
  · split at h
    · cases h
    · split at h
      · dsimp only at h
        exact isLine_of_response (payload_respond h)
      · next incoming hparse =>
        split_ifs at h with hbounded hprogress
        · cases h
          exact (replyToFrame_spec p.latest p.operate s frame t.now t.clock).line.line
        · split at h
          · cases h
          · next line hline =>
            cases h
            exact isLine_of_response hline
        · exact isLine_of_response (payload_respond h)

theorem payloadsOf_lines (frames : List Bytes) :
    ∀ payload ∈ p.payloadsOf frames, ∃ text, payload = text ++ [lineFeed] ∧ lineFeed ∉ text := by
  induction frames using List.reverseRecOn with
  | nil => exact fun payload h => absurd h List.not_mem_nil
  | append_singleton frames frame ih =>
    intro payload h
    rw [payloadsOf_snoc] at h
    rcases List.mem_append.mp h with h | h
    · exact ih payload h
    · exact answer_line (Option.mem_toList.mp h)

/-- What is written of accepted frames, and of one frame more. -/
theorem Accepted.written {frames : List Bytes} (h : p.Accepted frames) :
    Written (p.payloadsOf frames) :=
  ⟨fun payload hp => ⟨payloadsOf_lines frames payload hp, h.short payload hp⟩, h.output,
    (length_payloadsOf_le frames).trans h.count⟩

/-! ### One turn -/

omit [Externals] in
theorem write_cases (l : DescriptorLoop) (frame : Bytes) :
    (frame.length ≤ maxDescriptorProtocolFrameBytes
      ∧ l.outputBytes + frame.length ≤ maxDescriptorProtocolBytes
      ∧ l.write frame = ({ l with
          outputBytes := l.outputBytes + frame.length
          output := l.output ++ [frame] }, none)) ∨
    (¬ (frame.length ≤ maxDescriptorProtocolFrameBytes
      ∧ l.outputBytes + frame.length ≤ maxDescriptorProtocolBytes)
      ∧ ∃ e, l.write frame = (l, some e)) := by
  rw [DescriptorLoop.write]
  rcases haccount : accountDescriptorCompleteFrame l.outputBytes frame.length with e | total
  · refine .inr ⟨fun h => ?_, e, rfl⟩
    rw [accountDescriptorCompleteFrame_ok.mpr ⟨h.1, h.2, rfl⟩] at haccount
    cases haccount
  · obtain ⟨hframe, htotal, rfl⟩ := accountDescriptorCompleteFrame_ok.mp haccount
    exact .inl ⟨hframe, htotal, rfl⟩

/-- What one more frame has to keep. -/
theorem accepted_snoc {frames : List Bytes} (h : p.Accepted frames) (frame : Bytes) :
    p.Accepted (frames ++ [frame]) ↔
      (p.loopAfter frames).inputBytes + frame.length ≤ maxDescriptorProtocolBytes
        ∧ frames.length + 1 ≤ maxDescriptorProtocolFrames
        ∧ (p.answerAfter frames frame).2.GoesOn
        ∧ ∀ payload, (p.answerAfter frames frame).2.payload = some payload →
          payload.length ≤ maxDescriptorProtocolFrameBytes
            ∧ (p.loopAfter frames).outputBytes + payload.length ≤ maxDescriptorProtocolBytes := by
  constructor
  · intro hall
    refine ⟨by simpa [loopAfter] using hall.input, by simpa using hall.count, ?_, ?_⟩
    · exact hall.goesOn _ (by rw [conversation_snoc]; simp)
    · intro payload hpayload
      have hshort := hall.short
      have houtput := hall.output
      rw [payloadsOf_snoc, hpayload] at hshort houtput
      exact ⟨hshort payload (by simp), by simpa [loopAfter] using houtput⟩
  · rintro ⟨hinput, hcount, hgoes, hpayload⟩
    refine ⟨by simpa [loopAfter] using hinput, by simpa using hcount, ?_, ?_, ?_⟩
    · intro a ha
      rw [conversation_snoc] at ha
      rcases List.mem_append.mp ha with ha | ha
      · exact h.goesOn a ha
      · rwa [List.mem_singleton.mp ha]
    · intro payload hp
      rw [payloadsOf_snoc] at hp
      rcases List.mem_append.mp hp with hp | hp
      · exact h.short payload hp
      · exact (hpayload payload (Option.mem_toList.mp hp)).1
    · rw [payloadsOf_snoc]
      rcases hanswer : (p.answerAfter frames frame).2.payload with _ | payload
      · simpa using h.output
      · simpa [loopAfter] using (hpayload payload hanswer).2

theorem loopAfter_snoc (frames : List Bytes) (frame : Bytes) :
    p.loopAfter (frames ++ [frame]) = ⟨(p.answerAfter frames frame).1,
      (p.loopAfter frames).inputBytes + frame.length,
      (p.loopAfter frames).outputBytes
        + ((p.answerAfter frames frame).2.payload.toList.map List.length).sum,
      frames.length + 1,
      p.payloadsOf frames ++ (p.answerAfter frames frame).2.payload.toList⟩ := by
  rw [loopAfter, payloadsOf_snoc, conversation_snoc]
  simp [loopAfter]

omit [Externals] in
/-- An answer that is within the limits is delivered; otherwise the session ends, and a closing line
may still be written. -/
theorem deliver_cases (l : DescriptorLoop) (a : Answer) :
    (a.GoesOn ∧ (∀ payload, a.payload = some payload →
        payload.length ≤ maxDescriptorProtocolFrameBytes
          ∧ l.outputBytes + payload.length ≤ maxDescriptorProtocolBytes)
      ∧ l.deliver a = ({ l with
          outputBytes := l.outputBytes + (a.payload.toList.map List.length).sum
          output := l.output ++ a.payload.toList }, none)) ∨
    (¬ (a.GoesOn ∧ ∀ payload, a.payload = some payload →
        payload.length ≤ maxDescriptorProtocolFrameBytes
          ∧ l.outputBytes + payload.length ≤ maxDescriptorProtocolBytes)
      ∧ (l.deliver a).2 ≠ none ∧ ((l.deliver a).1.output = l.output ∨
        ∃ payload, a.payload = some payload ∧ payload.length ≤ maxDescriptorProtocolFrameBytes
          ∧ l.outputBytes + payload.length ≤ maxDescriptorProtocolBytes
          ∧ (l.deliver a).1.output = l.output ++ [payload])) := by
  cases a with
  | silent =>
    refine .inl ⟨trivial, ?_, ?_⟩ <;> simp [DescriptorLoop.deliver, Answer.payload]
  | reply payload =>
    rcases write_cases l payload with ⟨hframe, htotal, hwrite⟩ | ⟨hnot, e, hwrite⟩
    · refine .inl ⟨trivial, fun other hother => ?_, ?_⟩
      · cases hother
        exact ⟨hframe, htotal⟩
      · simpa [DescriptorLoop.deliver, Answer.payload] using hwrite
    · refine .inr ⟨fun h => hnot (h.2 payload rfl), ?_, .inl ?_⟩
      · rw [DescriptorLoop.deliver, hwrite]
        exact Option.some_ne_none _
      · rw [DescriptorLoop.deliver, hwrite]
  | closing payload =>
    refine .inr ⟨fun h => h.1, Option.some_ne_none _, ?_⟩
    rcases write_cases l payload with ⟨hframe, htotal, hwrite⟩ | ⟨hnot, e, hwrite⟩
    · refine .inr ⟨payload, rfl, hframe, htotal, ?_⟩
      rw [DescriptorLoop.deliver, hwrite]
    · refine .inl ?_
      rw [DescriptorLoop.deliver, hwrite]
  | broken e => exact .inr ⟨fun h => h.1, Option.some_ne_none _, .inl rfl⟩

/-- What a turn does: it goes on when the frame and its answer are within the limits, or it ends the
session, and then at most one more line is written. -/
theorem step_cases {frames : List Bytes} (h : p.Accepted frames) (frame : Bytes) :
    (p.Accepted (frames ++ [frame])
      ∧ p.step (p.loopAfter frames) frame = (p.loopAfter (frames ++ [frame]), none)) ∨
    (¬ p.Accepted (frames ++ [frame]) ∧ (p.step (p.loopAfter frames) frame).2 ≠ none
      ∧ (p.step (p.loopAfter frames) frame).1.output <+: p.payloadsOf (frames ++ [frame])
      ∧ Written (p.step (p.loopAfter frames) frame).1.output) := by
  have hbegins := @payloadsOf_begins _ p frames [frame]
  rw [accepted_snoc h, step]
  by_cases hinput : maxDescriptorProtocolBytes < (p.loopAfter frames).inputBytes + frame.length
  · rw [if_pos hinput]
    exact .inr ⟨fun hall => absurd hinput (Nat.not_lt.mpr hall.1), Option.some_ne_none _, hbegins,
      h.written⟩
  rw [if_neg hinput]
  by_cases hcount : maxDescriptorProtocolFrames < (p.loopAfter frames).frames + 1
  · rw [if_pos hcount]
    exact .inr ⟨fun hall => absurd hcount (Nat.not_lt.mpr hall.2.1), Option.some_ne_none _, hbegins,
      h.written⟩
  rw [if_neg hcount, loopAfter_snoc]
  set l : DescriptorLoop := ⟨(p.answerAfter frames frame).1,
    (p.loopAfter frames).inputBytes + frame.length, (p.loopAfter frames).outputBytes,
    frames.length + 1, p.payloadsOf frames⟩ with hl
  change _ ∧ l.deliver (p.answerAfter frames frame).2 = _ ∨ _ ∧
    (l.deliver (p.answerAfter frames frame).2).2 ≠ none
      ∧ (l.deliver (p.answerAfter frames frame).2).1.output <+: _
      ∧ Written (l.deliver (p.answerAfter frames frame).2).1.output
  rcases deliver_cases l (p.answerAfter frames frame).2 with
    ⟨hgoes, hfits, hdeliver⟩ | ⟨hnot, hfail, houtput⟩
  · exact .inl ⟨⟨Nat.not_lt.mp hinput, Nat.not_lt.mp hcount, hgoes, hfits⟩, hdeliver⟩
  · refine .inr ⟨fun hall => hnot hall.2.2, hfail, ?_⟩
    rcases houtput with hsame | ⟨payload, hpayload, hshort, htotal, hmore⟩
    · rw [hsame]
      exact ⟨hbegins, h.written⟩
    · rw [hmore, payloadsOf_snoc, hpayload]
      refine ⟨List.prefix_rfl, fun other hother => ?_, ?_, ?_⟩
      · rcases List.mem_append.mp hother with hother | hother
        · exact h.written.lines other hother
        · rw [List.mem_singleton.mp hother]
          exact ⟨answer_line hpayload, hshort⟩
      · rw [List.map_append, List.sum_append]
        simpa [hl, loopAfter] using htotal
      · have hlength := @length_payloadsOf_le _ p frames
        have hroom : frames.length + 1 ≤ maxDescriptorProtocolFrames := Nat.not_lt.mp hcount
        rw [List.length_append, List.length_singleton]
        exact (Nat.add_le_add_right hlength 1).trans hroom

/-! ### The whole session -/

theorem sessionServed (f : Feed) {fuel : ℕ} (hfuel : f.bytes.length + 1 < fuel) :
    p.SessionServed f (p.runDescriptorRead fuel f) := by
  have hserve : p.runDescriptorRead fuel f
      = serveAll p.step (descriptorFrames f).2 (descriptorFrames f).1 (p.loopAfter []) :=
    LineReader.serve_eq _ _ f _ hfuel
  have hstart : p.Accepted [] := by
    refine ⟨Nat.zero_le _, Nat.zero_le _, ?_, ?_, Nat.zero_le _⟩
    · exact fun a h => absurd h List.not_mem_nil
    · exact fun payload h => absurd h List.not_mem_nil
  -- the turns that do not fail are those whose frames are accepted
  have hstep : ∀ done l frame l', (p.Accepted done ∧ l = p.loopAfter done) →
      p.step l frame = (l', none) →
      p.Accepted (done ++ [frame]) ∧ l' = p.loopAfter (done ++ [frame]) := by
    rintro done _ frame l' ⟨hdone, rfl⟩ hnext
    rcases step_cases hdone frame with ⟨haccepted, heq⟩ | ⟨-, hfail, -, -⟩
    · rw [heq] at hnext
      exact ⟨haccepted, (Prod.mk.inj hnext).1.symm⟩
    · rw [hnext] at hfail
      exact absurd rfl hfail
  rw [hserve]
  rcases serveAll_cases hstep (descriptorFrames f).2 (descriptorFrames f).1 []
    ⟨hstart, rfl⟩ with ⟨⟨haccepted, hloop⟩, hend⟩ |
      ⟨before, frame, after, l, e, hframes, ⟨haccepted, rfl⟩, hlast, hend⟩
  · rw [List.nil_append] at haccepted hloop
    refine ⟨?_, ?_, fun _ => hloop, ?_, ?_⟩
    · rw [hend]
      exact itemsOf_not_running _ f
    · rw [hend]
      exact ⟨fun h => ⟨h, haccepted⟩, fun h => h.1⟩
    · rw [hloop]
      exact List.prefix_rfl
    · rw [hloop]
      exact haccepted.written
  · rw [List.nil_append] at haccepted hlast
    rcases step_cases haccepted frame with ⟨-, heq⟩ | ⟨hnot, -, hbegins, hwritten⟩
    · rw [heq] at hlast
      cases (Prod.mk.inj hlast).2
    · rw [hlast] at hbegins hwritten
      have hmore : before ++ [frame] ++ after = (descriptorFrames f).1 := by
        rw [hframes, List.append_assoc, List.singleton_append]
      refine ⟨?_, ?_, ?_, ?_, hwritten⟩
      · rw [hend]
        simp
      · rw [hend]
        refine ⟨fun h => absurd h (by simp), fun h => absurd ?_ hnot⟩
        exact Accepted.of_append (hmore ▸ h.2)
      · rw [hend]
        simp
      · have hall := hbegins.trans (payloadsOf_begins _ after)
        rw [hmore] at hall
        exact hall

/-! ### Bounded operations in a session -/

def asksBoundedOperation (frame : Bytes) : Bool :=
  (ofUtf8 frame).any (fun line => !line.toList.all isWhiteSpace)
    && (fromSlice IncomingRpcRequest.read frame).any fun incoming =>
      incoming.method ∈ boundedOperations

variable (p) in
/-- The frames that ask for bounded operations, with what the clocks show at them. -/
def events (frames : List Bytes) : List FrameEvent :=
  (frames.zipIdx.filter fun e => asksBoundedOperation e.1).map fun e =>
    ⟨e.1, (p.clocks e.2).now, (p.clocks e.2).clock⟩

theorem events_snoc (frames : List Bytes) (frame : Bytes) :
    p.events (frames ++ [frame]) = p.events frames ++
      if asksBoundedOperation frame then
        [⟨frame, (p.clocks frames.length).now, (p.clocks frames.length).clock⟩] else [] := by
  rw [events, List.zipIdx_append, List.filter_append, List.map_append, events]
  by_cases h : asksBoundedOperation frame = true <;> simp [h]

/-- A frame that asks for a bounded operation gets its reply; another one leaves the session alone. -/
theorem answer_bounded (t : Clocks) (s : Session) (frame : Bytes) :
    p.answer t s frame = if asksBoundedOperation frame then
        (replyToFrame p.json p.latest p.generation p.operate s frame t.now t.clock).map id .reply
      else (s, (p.answer t s frame).2) := by
  rw [answer, asksBoundedOperation]
  rcases ofUtf8 frame with _ | line
  · rfl
  dsimp only
  rw [Option.any_some]
  by_cases hblank : line.toList.all isWhiteSpace = true
  · simp [hblank]
  rw [if_neg hblank, Bool.eq_false_iff.mpr hblank]
  rcases fromSlice IncomingRpcRequest.read frame with _ | incoming
  · rfl
  dsimp only
  rw [Option.any_some]
  by_cases hbounded : incoming.method ∈ boundedOperations
  · simp [hbounded]
  · simp only [hbounded, if_false, decide_false, Bool.and_false, Bool.false_eq_true]
    split_ifs
    · split <;> rfl
    · rfl

/-- The session of a conversation is that of its bounded operations. -/
theorem session_conversation (frames : List Bytes) :
    (p.conversation frames).1
      = sessionAfter p.latest p.generation.toNat (metered p.operate) (p.events frames) := by
  induction frames using List.reverseRecOn with
  | nil => rfl
  | append_singleton frames frame ih =>
    rw [conversation_snoc, answerAfter, answer_bounded, events_snoc]
    by_cases h : asksBoundedOperation frame = true
    · rw [if_pos h, if_pos h, sessionAfter_concat, ← ih]
      rfl
    · rw [if_neg h, if_neg h, List.append_nil]
      exact ih

/-- In a conversation the deadline of the session never moves away, whatever frames come between, and
every frame that asks for a bounded operation is replied by one line that says its own length. -/
theorem conversation_replies (frames : List Bytes) :
    SessionKept p.latest p.generation.toNat (metered p.operate) (p.events frames)
      ∧ (p.conversation frames).1
        = sessionAfter p.latest p.generation.toNat (metered p.operate) (p.events frames)
      ∧ ∀ before frame after, frames = before ++ frame :: after →
        asksBoundedOperation frame = true → ∃ reply,
          (p.conversation frames).2[before.length]? = some (.reply reply)
            ∧ WellReplied (frameId frame) p.generation
              (handled p.json p.latest p.generation p.operate (p.conversation before).1 frame
                (p.clocks before.length).now (p.clocks before.length).clock).2 reply := by
  refine ⟨sessionKept _, session_conversation frames, ?_⟩
  rintro before frame after rfl hasks
  have hsnoc := @conversation_snoc _ p before frame
  rw [answerAfter, answer_bounded, if_pos hasks] at hsnoc
  refine ⟨_, ?_, replyToFrame_spec p.latest p.operate (p.conversation before).1 frame
    (p.clocks before.length).now (p.clocks before.length).clock⟩
  have hbegins := @conversation_begins _ p (before ++ [frame]) after
  rw [List.append_assoc, List.singleton_append] at hbegins
  have hlength := @length_conversation _ p before
  rw [hsnoc] at hbegins
  obtain ⟨rest, hrest⟩ := hbegins
  rw [← hrest, List.append_assoc, ← hlength, List.getElem?_append_right le_rfl, Nat.sub_self]
  rfl

end DescriptorProcess

end Descriptor

attribute [local instance] Concrete.externals

/-- A process without operations. -/
def idleProcess : DescriptorProcess where
  generation := 0
  operate := fun _ => pure .null
  protocolInfo := .ok .null
  json := ⟨fun value => [value.print floats], fun value => by simp⟩
  latest := 0
  clocks := fun _ => ⟨0, fun _ => 0⟩

/-- A ping that arrives in two pieces. -/
def splitPing : Feed :=
  .push (utf8 "\x7b\"id\":7,") (.push (utf8 "\"method\":\"ping\"\x7d\n") .ended)

end AiraGraphdb.Native
