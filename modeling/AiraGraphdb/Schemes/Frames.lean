import AiraGraphdb.Schemes.Codec

/-! # Logs of framed payloads

A frame is a payload behind its length, a number of `w` little-endian bytes, and a log is a row of
frames. Whatever bytes a log is read from, at their front stands a whole frame, or a length whose
payload is cut short, or a part of a length: `frames_induction` goes through a log that way. The
lengths that a reader gets to on its way are `ReachesLength`. -/

namespace Schemes

variable {w : ℕ}

/-- A payload behind its length. -/
def frame (w : ℕ) (payload : Bytes) : Bytes := leBytes w payload.length ++ payload

/-- The frames of these payloads, one after the other. -/
def frames (w : ℕ) (payloads : List Bytes) : Bytes := payloads.flatMap (frame w)

@[simp] theorem length_frame (w : ℕ) (payload : Bytes) :
    (frame w payload).length = w + payload.length := by
  simp [frame]

@[simp] theorem frames_nil (w : ℕ) : frames w [] = [] := rfl

@[simp] theorem frames_cons (w : ℕ) (payload : Bytes) (payloads : List Bytes) :
    frames w (payload :: payloads) = frame w payload ++ frames w payloads := rfl

theorem frame_append (w : ℕ) (payload rest : Bytes) :
    frame w payload ++ rest = leBytes w payload.length ++ (payload ++ rest) := by
  rw [frame, List.append_assoc]

/-! ### The front of a log -/

/-- Bytes that are enough for a length start with one. -/
theorem exists_length {raw : Bytes} (h : w ≤ raw.length) :
    ∃ n rest, n < 256 ^ w ∧ raw = leBytes w n ++ rest := by
  have htake : (raw.take w).length = w := by simp [h]
  refine ⟨ofLe (raw.take w), raw.drop w, ?_, ?_⟩
  · have hlt := ofLe_lt (raw.take w)
    rwa [htake] at hlt
  · have hle := leBytes_ofLe (raw.take w)
    rw [htake] at hle
    rw [hle, List.take_append_drop]

/-- Two lengths at the same place are the same. -/
theorem length_cancel {m n : ℕ} {r s : Bytes} (hm : m < 256 ^ w) (hn : n < 256 ^ w)
    (h : leBytes w m ++ r = leBytes w n ++ s) : m = n ∧ r = s := by
  obtain ⟨hle, hrest⟩ := List.append_inj h (by simp)
  refine ⟨?_, hrest⟩
  rw [← ofLe_leBytes hm, hle, ofLe_leBytes hn]

/-- A log is empty of frames, or cut in its first payload, or has a first frame. -/
theorem frames_induction {P : Bytes → Prop} (hw : 0 < w)
    (short : ∀ tail, tail.length < w → P tail)
    (cut : ∀ n rest, n < 256 ^ w → rest.length < n → P (leBytes w n ++ rest))
    (frame : ∀ payload rest, payload.length < 256 ^ w → P rest → P (frame w payload ++ rest))
    (raw : Bytes) : P raw := by
  induction hl : raw.length using Nat.strong_induction_on generalizing raw with
  | _ l ih =>
    subst hl
    rcases Nat.lt_or_ge raw.length w with hshort | hlong
    · exact short raw hshort
    · obtain ⟨n, rest, hn, rfl⟩ := exists_length hlong
      rcases Nat.lt_or_ge rest.length n with hcut | hwhole
      · exact cut n rest hn hcut
      · -- the payload is the first `n` bytes behind the length
        have hlen : (rest.take n).length = n := by simp [hwhole]
        have hstep := frame (rest.take n) (rest.drop n) (by rwa [hlen])
          (ih _ (by simp; omega) _ rfl)
        rwa [frame_append, hlen, List.take_append_drop] at hstep

/-- What an append of a frame that stopped early leaves: a part of the length, or the whole length
and a part of the payload. -/
theorem properPrefix_frame {payload p : Bytes} (hp : ProperPrefix p (frame w payload)) :
    p.length < w ∨ ∃ rest, rest.length < payload.length ∧ p = leBytes w payload.length ++ rest := by
  obtain ⟨hpre, hne⟩ := hp
  rcases Nat.lt_or_ge p.length w with hshort | hlong
  · exact .inl hshort
  · right
    have hlt : p.length < (frame w payload).length := by
      refine lt_of_le_of_ne hpre.length_le fun he => hne (hpre.eq_of_length he)
    rw [length_frame] at hlt
    refine ⟨payload.take (p.length - w), ?_, ?_⟩
    · rw [List.length_take]
      omega
    · calc p = (frame w payload).take p.length := List.prefix_iff_eq_take.mp hpre
        _ = leBytes w payload.length ++ payload.take (p.length - w) := by
          rw [frame, List.take_append, length_leBytes, List.take_of_length_le (by simpa)]

/-! ### The lengths that are reached -/

/-- A length that a reader gets to: it stands behind whole frames that the reader accepts. -/
def ReachesLength (w : ℕ) (Accepts : Bytes → Prop) (raw : Bytes) (n : ℕ) : Prop :=
  ∃ payloads rest, raw = frames w payloads ++ (leBytes w n ++ rest) ∧ n < 256 ^ w ∧
    ∀ payload ∈ payloads, payload.length < 256 ^ w ∧ Accepts payload

variable {Accepts : Bytes → Prop} {n : ℕ}

theorem not_reachesLength_short {raw : Bytes} (h : raw.length < w) :
    ¬ ReachesLength w Accepts raw n := by
  rintro ⟨payloads, rest, rfl, -, -⟩
  simp at h
  omega

/-- The first length is reached, and what the rest reaches when the payload is accepted. -/
theorem reachesLength_frame {payload rest : Bytes} (hlen : payload.length < 256 ^ w) :
    ReachesLength w Accepts (frame w payload ++ rest) n ↔
      n = payload.length ∨ Accepts payload ∧ ReachesLength w Accepts rest n := by
  constructor
  · rintro ⟨_ | ⟨first, payloads⟩, tail, h, hn, hall⟩
    · rw [frames_nil, List.nil_append, frame_append] at h
      exact .inl (length_cancel hlen hn h).1.symm
    · obtain ⟨hfirst, haccepts⟩ := hall first (by simp)
      rw [frames_cons, List.append_assoc, frame_append, frame_append] at h
      obtain ⟨hlength, h⟩ := length_cancel hlen hfirst h
      obtain ⟨rfl, rfl⟩ := List.append_inj h hlength
      exact .inr ⟨haccepts, payloads, tail, rfl, hn, fun p hp => hall p (by simp [hp])⟩
  · rintro (rfl | ⟨haccepts, payloads, tail, rfl, hn, hall⟩)
    · refine ⟨[], payload ++ rest, ?_, hlen, by simp⟩
      rw [frames_nil, List.nil_append, frame_append]
    · refine ⟨payload :: payloads, tail, by simp, hn, fun p hp => ?_⟩
      rcases List.mem_cons.mp hp with rfl | hp
      · exact ⟨hlen, haccepts⟩
      · exact hall p hp

/-- Behind a payload that is cut short nothing is reached. -/
theorem reachesLength_cut {m : ℕ} {rest : Bytes} (hm : m < 256 ^ w) (hcut : rest.length < m) :
    ReachesLength w Accepts (leBytes w m ++ rest) n ↔ n = m := by
  constructor
  · rintro ⟨_ | ⟨first, payloads⟩, tail, h, hn, hall⟩
    · exact (length_cancel hm hn h).1.symm
    · rw [frames_cons, List.append_assoc, frame_append] at h
      obtain ⟨rfl, rfl⟩ := length_cancel hm (hall first (by simp)).1 h
      simp at hcut
  · rintro rfl
    exact ⟨[], rest, rfl, hm, by simp⟩

end Schemes
