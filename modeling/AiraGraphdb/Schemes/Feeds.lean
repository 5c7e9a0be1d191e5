import AiraGraphdb.Schemes.Bytes

/-! # Input that arrives in pieces

A `Feed` is what a buffered reader has still to see of its input: the pieces that the source hands
over, none of them empty, and how the input ends. `readLine` collects the bytes up to a separator; a
`LineReader` says what becomes of a line. A server that reads a line, handles it and reads the next is
`serve`; it handles the lines of the bytes (`LineReader.serve_eq`), however they were cut into
pieces. -/

namespace Schemes

/-! ### Cutting at a separator -/

/-- The bytes before the first separator, and those behind it when there is one. -/
def cutAt (sep : UInt8) : Bytes → Bytes × Option Bytes
  | [] => ([], none)
  | b :: bs => if b = sep then ([], some bs) else (b :: (cutAt sep bs).1, (cutAt sep bs).2)

/-- The lines that end with a separator, and what follows the last one. -/
def linesOf (sep : UInt8) : Bytes → List Bytes × Bytes
  | [] => ([], [])
  | b :: bs =>
    if b = sep then ([] :: (linesOf sep bs).1, (linesOf sep bs).2)
    else match linesOf sep bs with
      | ([], last) => ([], b :: last)
      | (line :: lines, last) => ((b :: line) :: lines, last)

section Cut

variable {sep : UInt8}

theorem cutAt_of_not_mem {p : Bytes} (h : sep ∉ p) (q : Bytes) :
    cutAt sep (p ++ q) = (p ++ (cutAt sep q).1, (cutAt sep q).2) := by
  induction p with
  | nil => rfl
  | cons b p ih =>
    obtain ⟨hb, hp⟩ := not_or.mp (List.mem_cons.not.mp h)
    rw [List.cons_append, cutAt, if_neg (Ne.symm hb), ih hp]
    rfl

theorem cutAt_separator (q : Bytes) : cutAt sep (sep :: q) = ([], some q) := by
  rw [cutAt, if_pos rfl]

theorem cutAt_line {p : Bytes} (h : sep ∉ p) (q : Bytes) :
    cutAt sep (p ++ sep :: q) = (p, some q) := by
  rw [cutAt_of_not_mem h, cutAt_separator, List.append_nil]

/-- Bytes without a separator are not cut. -/
theorem cutAt_whole {p : Bytes} (h : sep ∉ p) : cutAt sep p = (p, none) := by
  have hp := cutAt_of_not_mem h []
  rwa [List.append_nil, show cutAt sep [] = ([], none) from rfl, List.append_nil] at hp

/-- Bytes either have no separator, or start with a line. -/
theorem line_or_not_mem (sep : UInt8) (bs : Bytes) :
    sep ∉ bs ∨ ∃ line rest, bs = line ++ sep :: rest ∧ sep ∉ line := by
  by_cases h : sep ∈ bs
  · obtain ⟨line, rest, rfl, hline⟩ := List.eq_append_cons_of_mem h
    exact .inr ⟨line, rest, rfl, hline⟩
  · exact .inl h

theorem linesOf_line {p : Bytes} (h : sep ∉ p) (q : Bytes) :
    linesOf sep (p ++ sep :: q) = (p :: (linesOf sep q).1, (linesOf sep q).2) := by
  induction p with
  | nil => rw [List.nil_append, linesOf, if_pos rfl]
  | cons b p ih =>
    obtain ⟨hb, hp⟩ := not_or.mp (List.mem_cons.not.mp h)
    rw [List.cons_append, linesOf, if_neg (Ne.symm hb), ih hp]

theorem linesOf_whole {p : Bytes} (h : sep ∉ p) : linesOf sep p = ([], p) := by
  induction p with
  | nil => rfl
  | cons b p ih =>
    obtain ⟨hb, hp⟩ := not_or.mp (List.mem_cons.not.mp h)
    rw [linesOf, if_neg (Ne.symm hb), ih hp]

/-- Lines that were written one after another are found again. -/
theorem linesOf_written {lines : List Bytes} (h : ∀ line ∈ lines, sep ∉ line) {last : Bytes}
    (hlast : sep ∉ last) :
    linesOf sep (lines.flatMap (· ++ [sep]) ++ last) = (lines, last) := by
  induction lines with
  | nil => exact linesOf_whole hlast
  | cons line lines ih =>
    have hcons : (line :: lines).flatMap (· ++ [sep]) ++ last
        = line ++ sep :: (lines.flatMap (· ++ [sep]) ++ last) := by simp
    rw [hcons, linesOf_line (h line (by simp)), ih fun l hl => h l (by simp [hl])]

end Cut

/-! ### Feeds -/

inductive Feed where
  /-- The input is over. -/
  | ended
  /-- The source cannot be read any more. -/
  | failed
  /-- The next piece, which is not empty. -/
  | piece (b : UInt8) (bs : Bytes) (rest : Feed)

namespace Feed

/-- All bytes to come. -/
def bytes : Feed → Bytes
  | ended => []
  | failed => []
  | piece b bs rest => b :: bs ++ rest.bytes

/-- The source fails when its bytes are used up. -/
def broken : Feed → Bool
  | ended => false
  | failed => true
  | piece _ _ rest => rest.broken

/-- What was not taken of a piece stays in front. -/
def push : Bytes → Feed → Feed
  | [], f => f
  | b :: bs, f => piece b bs f

@[simp] theorem bytes_push (bs : Bytes) (f : Feed) : (push bs f).bytes = bs ++ f.bytes := by
  cases bs <;> rfl

@[simp] theorem broken_push (bs : Bytes) (f : Feed) : (push bs f).broken = f.broken := by
  cases bs <;> rfl

/-- The feed behind the first separator. -/
def behind (sep : UInt8) : Feed → Feed
  | ended => ended
  | failed => failed
  | piece b bs rest => match (cutAt sep (b :: bs)).2 with
    | some left => push left rest
    | none => behind sep rest

/-- The first line of the bytes goes on behind the front piece, or ends in it. -/
theorem split_piece {sep : UInt8} {line rest : Bytes} (hline : sep ∉ line) {b : UInt8} {bs : Bytes}
    {f : Feed} (hf : (piece b bs f).bytes = line ++ sep :: rest) :
    (sep ∉ b :: bs ∧ ∃ tail, line = b :: bs ++ tail ∧ sep ∉ tail ∧ f.bytes = tail ++ sep :: rest) ∨
    ∃ left, b :: bs = line ++ sep :: left ∧ left ++ f.bytes = rest := by
  rw [bytes] at hf
  rcases line_or_not_mem sep (b :: bs) with hnot | ⟨front, left, hcut, hfront⟩
  · have hwhole := cutAt_of_not_mem hnot f.bytes
    rw [hf, cutAt_line hline] at hwhole
    obtain ⟨rfl, -⟩ := Prod.mk.inj hwhole
    rw [List.append_assoc] at hf
    exact .inl ⟨hnot, _, rfl, fun h => hline (List.mem_append_right _ h), List.append_cancel_left hf⟩
  · rw [hcut, List.append_assoc, List.cons_append] at hf
    have hwhole := congrArg (cutAt sep) hf
    rw [cutAt_line hfront, cutAt_line hline] at hwhole
    obtain ⟨rfl, hleft⟩ := Prod.mk.inj hwhole
    exact .inr ⟨left, hcut, Option.some.inj hleft⟩

theorem behind_line {sep : UInt8} {line rest : Bytes} (hline : sep ∉ line) :
    ∀ {f : Feed}, f.bytes = line ++ sep :: rest →
      (f.behind sep).bytes = rest ∧ (f.behind sep).broken = f.broken := by
  intro f hf
  induction f generalizing line with
  | ended => simp [bytes] at hf
  | failed => simp [bytes] at hf
  | piece b bs f ih =>
    rcases split_piece hline hf with ⟨hnot, tail, rfl, htail, hrest⟩ | ⟨left, hcut, hleft⟩
    · rw [behind, cutAt_whole hnot]
      exact ih htail hrest
    · rw [behind, hcut, cutAt_line hline]
      exact ⟨(bytes_push _ _).trans hleft, broken_push _ _⟩

/-! ### Reading lines -/

/-- What a reader of lines comes back with: a line and the feed behind it, the bytes that were left
when the input ended, or an error. -/
inductive LineRead where
  | tooLong
  | failed
  | last (bytes : Bytes)
  | line (bytes : Bytes) (rest : Feed)

/-- The bytes up to a separator, at most `limit` of them; `keep` says whether the separator is one of
them. What was collected before is `acc`. -/
def readLine (sep : UInt8) (keep : Bool) (limit : ℕ) (acc : Bytes) : Feed → LineRead
  | ended => .last acc
  | failed => .failed
  | piece b bs rest => match (b :: bs).findIdx? (· == sep) with
    | some position =>
      let take := position + keep.toNat
      if limit < acc.length + take then .tooLong
      else .line (acc ++ (b :: bs).take take) (push ((b :: bs).drop (position + 1)) rest)
    | none =>
      if limit < acc.length + (b :: bs).length then .tooLong
      else readLine sep keep limit (acc ++ b :: bs) rest

variable {sep : UInt8} {keep : Bool} {limit : ℕ}

/-- The separator itself, when it is kept. -/
def kept (sep : UInt8) (keep : Bool) : Bytes := if keep then [sep] else []

theorem length_kept (sep : UInt8) (keep : Bool) : (kept sep keep).length = keep.toNat := by
  cases keep <;> rfl

theorem findIdx_line {line : Bytes} (h : sep ∉ line) (rest : Bytes) :
    (line ++ sep :: rest).findIdx? (· == sep) = some line.length := by
  induction line with
  | nil => rw [List.nil_append, List.findIdx?_cons, beq_self_eq_true, if_pos rfl]; rfl
  | cons b line ih =>
    obtain ⟨hb, hline⟩ := not_or.mp (List.mem_cons.not.mp h)
    rw [List.cons_append, List.findIdx?_cons, ih hline]
    simp [Ne.symm hb]

theorem findIdx_not_mem {piece : Bytes} (h : sep ∉ piece) :
    piece.findIdx? (· == sep) = none :=
  List.findIdx?_eq_none_iff.mpr fun c hc => by simpa using fun he : c = sep => h (he ▸ hc)

theorem take_line (line rest : Bytes) :
    (line ++ sep :: rest).take (line.length + keep.toNat) = line ++ kept sep keep := by
  rw [List.take_length_add_append]
  cases keep <;> rfl

theorem drop_line (line rest : Bytes) :
    (line ++ sep :: rest).drop (line.length + 1) = rest := by
  rw [List.drop_length_add_append]
  rfl

/-- A piece without a separator is collected, if there is room. -/
theorem readLine_piece {b : UInt8} {bs acc : Bytes} (h : sep ∉ b :: bs) (f : Feed) :
    readLine sep keep limit acc (piece b bs f) =
      if limit < acc.length + (b :: bs).length then .tooLong
      else readLine sep keep limit (acc ++ b :: bs) f := by
  rw [readLine, findIdx_not_mem h]

/-- A line that is in the bytes is read, unless it is too long. -/
theorem readLine_line {line rest : Bytes} (hline : sep ∉ line) :
    ∀ {f : Feed} {acc : Bytes}, f.bytes = line ++ sep :: rest →
      readLine sep keep limit acc f =
        if limit < acc.length + (line.length + keep.toNat) then .tooLong
        else .line (acc ++ (line ++ kept sep keep)) (f.behind sep) := by
  intro f acc hf
  induction f generalizing line acc with
  | ended => simp [bytes] at hf
  | failed => simp [bytes] at hf
  | piece b bs f ih =>
    rcases split_piece hline hf with ⟨hnot, tail, rfl, htail, hrest⟩ | ⟨left, hcut, -⟩
    · rw [readLine_piece hnot, ih htail hrest, behind, cutAt_whole hnot]
      dsimp only
      -- a piece that is too long on its own makes the line too long
      by_cases hpiece : limit < acc.length + (b :: bs).length
      · rw [if_pos hpiece, if_pos (by rw [List.length_append]; omega)]
      · rw [if_neg hpiece, List.length_append, List.length_append, List.append_assoc,
          List.append_assoc, Nat.add_assoc, Nat.add_assoc]
    · rw [readLine, behind, hcut, findIdx_line hline, cutAt_line hline]
      dsimp only
      rw [take_line, drop_line]

/-- What has no separator is what is left at the end. -/
theorem readLine_last : ∀ {f : Feed} {acc : Bytes}, sep ∉ f.bytes → acc.length ≤ limit →
      readLine sep keep limit acc f =
        if limit < acc.length + f.bytes.length then .tooLong
        else if f.broken then .failed else .last (acc ++ f.bytes) := by
  intro f acc hf hacc
  induction f generalizing acc with
  | ended =>
    rw [readLine, bytes, List.append_nil, List.length_nil, if_neg (by omega)]
    rfl
  | failed =>
    rw [readLine, bytes, List.length_nil, if_neg (by omega)]
    rfl
  | piece b bs f ih =>
    have hfront : sep ∉ b :: bs := fun h => hf (List.mem_append_left _ h)
    have hrest : sep ∉ f.bytes := fun h => hf (List.mem_append_right _ h)
    rw [readLine_piece hfront, bytes, broken]
    by_cases hpiece : limit < acc.length + (b :: bs).length
    · rw [if_pos hpiece, if_pos (by rw [List.length_append]; omega)]
    · rw [if_neg hpiece, ih hrest (by rw [List.length_append]; omega), List.length_append,
        List.length_append, List.append_assoc, Nat.add_assoc]

end Feed

/-! ### Serving one item after another -/

/-- How a server comes to its end: its input is over, something has failed, or it still runs. -/
inductive Finish (ε : Type) where
  | running
  | ended
  | failed (e : ε)
  deriving DecidableEq

section Serve

variable {σ τ α ε : Type} {read : σ → Except ε (Option (α × σ))} {step : τ → α → τ × Option ε}

/-- Items are read and handled in turn, at most `fuel` times; handling one can fail as well. -/
def serve (read : σ → Except ε (Option (α × σ))) (step : τ → α → τ × Option ε) :
    ℕ → σ → τ → τ × Finish ε
  | 0, _, t => (t, .running)
  | fuel + 1, s, t => match read s with
    | .error e => (t, .failed e)
    | .ok none => (t, .ended)
    | .ok (some (a, s')) => match step t a with
      | (t', some e) => (t', .failed e)
      | (t', none) => serve read step fuel s' t'

/-- Items that are known, handled in turn, and then this ending. -/
def serveAll (step : τ → α → τ × Option ε) (ending : Finish ε) : List α → τ → τ × Finish ε
  | [], t => (t, ending)
  | a :: as, t => match step t a with
    | (t', some e) => (t', .failed e)
    | (t', none) => serveAll step ending as t'

/-- What a reader reads until its input is over or it fails. -/
inductive Reads (read : σ → Except ε (Option (α × σ))) : σ → List α → Finish ε → Prop
  | ended {s : σ} (h : read s = .ok none) : Reads read s [] .ended
  | failed {s : σ} {e : ε} (h : read s = .error e) : Reads read s [] (.failed e)
  | item {s s' : σ} {a : α} {as : List α} {ending : Finish ε} (h : read s = .ok (some (a, s')))
      (rest : Reads read s' as ending) : Reads read s (a :: as) ending

theorem serve_eq {s : σ} {as : List α} {ending : Finish ε} (h : Reads read s as ending) {fuel : ℕ}
    (hfuel : as.length < fuel) (t : τ) : serve read step fuel s t = serveAll step ending as t := by
  induction h generalizing fuel t with
  | ended h =>
    obtain ⟨fuel, rfl⟩ := Nat.exists_eq_add_of_lt hfuel
    rw [List.length_nil, Nat.zero_add, serve, h, serveAll]
  | failed h =>
    obtain ⟨fuel, rfl⟩ := Nat.exists_eq_add_of_lt hfuel
    rw [List.length_nil, Nat.zero_add, serve, h, serveAll]
  | item h _ ih =>
    obtain ⟨fuel, rfl⟩ : ∃ n, fuel = n + 1 := ⟨fuel - 1, by omega⟩
    rw [serve, h, serveAll]
    dsimp only
    split
    · rfl
    · exact ih (by simpa using hfuel) _

/-- A server handles some of the items and comes to its end, or to an item that makes it fail. What
one handled item keeps, with the items handled so far, holds of them. -/
theorem serveAll_cases {P : List α → τ → Prop}
    (hstep : ∀ done t a t', P done t → step t a = (t', none) → P (done ++ [a]) t')
    (ending : Finish ε) : ∀ (as done : List α) {t : τ}, P done t →
      (P (done ++ as) (serveAll step ending as t).1 ∧ (serveAll step ending as t).2 = ending) ∨
      ∃ before a after t' e, as = before ++ a :: after ∧ P (done ++ before) t'
        ∧ step t' a = ((serveAll step ending as t).1, some e)
        ∧ (serveAll step ending as t).2 = .failed e
  | [], done, t, h => .inl ⟨by rw [List.append_nil]; exact h, rfl⟩
  | a :: as, done, t, h => by
    rcases ha : step t a with ⟨t', _ | e⟩
    · have hserve : serveAll step ending (a :: as) t = serveAll step ending as t' := by
        rw [serveAll, ha]
      rw [hserve]
      rcases serveAll_cases hstep ending as (done ++ [a]) (hstep done t a t' h ha) with
        ⟨hall, hend⟩ | ⟨before, b, after, u, e, rfl, hbefore, hlast, hend⟩
      · exact .inl ⟨by rwa [List.append_assoc] at hall, hend⟩
      · exact .inr ⟨a :: before, b, after, u, e, rfl, by rwa [List.append_assoc] at hbefore, hlast,
          hend⟩
    · have hserve : serveAll step ending (a :: as) t = (t', .failed e) := by
        rw [serveAll, ha]
      rw [hserve]
      exact .inr ⟨[], a, as, t, e, rfl, by rwa [List.append_nil], ha, rfl⟩

end Serve

/-- What becomes of a line, of the bytes that are left at the end, and of an error. -/
structure LineReader (ε α : Type) where
  sep : UInt8
  keep : Bool
  limit : ℕ
  tooLong : ε
  failed : ε
  line : Bytes → α
  last : Bytes → Except ε (Option α)
  /-- When nothing is left, there is nothing more to come. -/
  last_nil : last [] = .ok none

namespace LineReader

variable {ε α τ : Type} (r : LineReader ε α)

def read (f : Feed) : Except ε (Option (α × Feed)) :=
  match f.readLine r.sep r.keep r.limit [] with
  | .tooLong => .error r.tooLong
  | .failed => .error r.failed
  | .last bytes => (r.last bytes).map fun a => a.map fun a => (a, .ended)
  | .line bytes rest => .ok (some (r.line bytes, rest))

/-- What is made of the bytes behind the last line. -/
def lastItems (broken : Bool) (last : Bytes) : List α × Finish ε :=
  if r.limit < last.length then ([], .failed r.tooLong)
  else if broken then ([], .failed r.failed)
  else match r.last last with
    | .error e => ([], .failed e)
    | .ok a => (a.toList, .ended)

/-- What is read of lines, and how the reading ends. -/
def items (broken : Bool) (last : Bytes) : List Bytes → List α × Finish ε
  | [] => r.lastItems broken last
  | line :: lines =>
    if r.limit < line.length + r.keep.toNat then ([], .failed r.tooLong)
    else (r.line (line ++ Feed.kept r.sep r.keep) :: (items broken last lines).1,
      (items broken last lines).2)

/-- What is read of an input. -/
def itemsOf (f : Feed) : List α × Finish ε :=
  r.items f.broken (linesOf r.sep f.bytes).2 (linesOf r.sep f.bytes).1

theorem reads_last {f : Feed} (h : r.sep ∉ f.bytes) :
    Reads r.read f (r.lastItems f.broken f.bytes).1 (r.lastItems f.broken f.bytes).2 := by
  have hread := @Feed.readLine_last r.sep r.keep r.limit f [] h (Nat.zero_le _)
  rw [List.nil_append, List.length_nil, Nat.zero_add] at hread
  rw [lastItems]
  split_ifs with hlong hbroken
  · exact .failed (by rw [read, hread, if_pos hlong])
  · exact .failed (by rw [read, hread, if_neg hlong, if_pos hbroken])
  · rw [if_neg hlong, if_neg hbroken] at hread
    rcases hlast : r.last f.bytes with e | _ | a
    · exact .failed (by rw [read, hread]; dsimp only; rw [hlast]; rfl)
    · exact .ended (by rw [read, hread]; dsimp only; rw [hlast]; rfl)
    · have hover : r.read .ended = .ok none := by
        rw [read, Feed.readLine]
        dsimp only
        rw [r.last_nil]
        rfl
      exact .item (by rw [read, hread]; dsimp only; rw [hlast]; rfl) (.ended hover)

theorem reads : ∀ (n : ℕ) {f : Feed}, f.bytes.length < n →
    Reads r.read f (r.itemsOf f).1 (r.itemsOf f).2
  | 0, _, h => absurd h (Nat.not_lt_zero _)
  | n + 1, f, h => by
    rw [itemsOf]
    rcases line_or_not_mem r.sep f.bytes with hnot | ⟨line, rest, hbytes, hline⟩
    · rw [linesOf_whole hnot]
      exact r.reads_last hnot
    · have hread := @Feed.readLine_line r.sep r.keep r.limit line rest hline f [] hbytes
      rw [List.nil_append, List.length_nil, Nat.zero_add] at hread
      obtain ⟨hrest, hbroken⟩ := Feed.behind_line hline hbytes
      rw [hbytes, linesOf_line hline, items]
      split_ifs with hlong
      · exact .failed (by rw [read, hread, if_pos hlong])
      · have hnext := @reads n (f.behind r.sep) (by
          rw [hrest]
          rw [hbytes, List.length_append, List.length_cons] at h
          omega)
        rw [itemsOf, hrest, hbroken] at hnext
        exact .item (by rw [read, hread, if_neg hlong]) hnext

theorem length_items_le (broken : Bool) (last : Bytes) : ∀ lines : List Bytes,
    (r.items broken last lines).1.length ≤ lines.length + 1
  | [] => by
    rw [items, lastItems]
    split_ifs
    · simp
    · simp
    · rcases r.last last with e | _ | a <;> simp
  | line :: lines => by
    rw [items]
    split_ifs
    · simp
    · simpa using length_items_le broken last lines

theorem length_linesOf_le (sep : UInt8) : ∀ bs : Bytes, (linesOf sep bs).1.length ≤ bs.length
  | [] => by simp [linesOf]
  | b :: bs => by
    have ih := length_linesOf_le sep bs
    rw [linesOf]
    split_ifs
    · simpa using ih
    · rcases hlines : linesOf sep bs with ⟨_ | ⟨line, lines⟩, last⟩
      · simp
      · rw [hlines] at ih
        simp only [List.length_cons] at ih ⊢
        omega

/-- A server of lines handles the lines of its input, in whatever pieces it arrives. -/
theorem serve_eq (step : τ → α → τ × Option ε) (f : Feed) (t : τ) {fuel : ℕ}
    (hfuel : f.bytes.length + 1 < fuel) :
    serve r.read step fuel f t = serveAll step (r.itemsOf f).2 (r.itemsOf f).1 t := by
  refine Schemes.serve_eq (r.reads _ (Nat.lt_succ_self _)) ?_ t
  have hitems := r.length_items_le f.broken (linesOf r.sep f.bytes).2 (linesOf r.sep f.bytes).1
  have hlines := length_linesOf_le r.sep f.bytes
  rw [itemsOf]
  omega

end LineReader

end Schemes
