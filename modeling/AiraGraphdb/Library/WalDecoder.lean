import AiraGraphdb.Library.Storage
import AiraGraphdb.Schemes.Buffers

/-! # The decoder of the binary log, with its buffers

`decode_binary_wal` takes a length from the file and asks for a buffer of it before it looks at how
much of the file is left. Here it is with every buffer it asks for and every way it can end.
`Library.decodeBinaryWal` is what it returns when it does (`decodeBinaryWal_returned`); when it
does is said by the lengths that it gets to (`returns_iff`).

Buffers are the `vec!`s of the decoder; what bincode and the texts of errors take is not counted.
A `usize` has 64 bits, as a length in the file has. -/

namespace AiraGraphdb.Library.WalDecoder

open Schemes Call

/-! ### The decoder -/

inductive IoErrorKind where
  | unexpectedEof
  | other

/-- `Cursor::read_exact`: a buffer is filled, or the bytes end before it is full. -/
def readExact (n : ℕ) (cursor : Bytes) : Except IoErrorKind (Bytes × Bytes) :=
  if n ≤ cursor.length then .ok (cursor.take n, cursor.drop n) else .error .unexpectedEof

theorem readExact_append {b r : Bytes} {n : ℕ} (h : b.length = n) :
    readExact n (b ++ r) = .ok (b, r) := by
  subst h
  simp [readExact]

theorem readExact_short {n : ℕ} {cursor : Bytes} (h : cursor.length < n) :
    readExact n cursor = .error .unexpectedEof := if_neg (by omega)

theorem length_readExact {n : ℕ} {cursor b r : Bytes} (h : readExact n cursor = .ok (b, r)) :
    cursor.length = n + r.length := by
  unfold readExact at h
  split at h
  · cases h
    simp
    omega
  · cases h

variable (allocates : ℕ → Bool)

/-- The loop over the entries. A log may end in a part of a length, not in a part of a payload. -/
def decodeEntries (latest : Option PersistedSnapshot) (cursor : Bytes) :
    Call (Except GraphDbError (Option PersistedSnapshot)) :=
  match _hlen : readExact 8 cursor with
  | .error .unexpectedEof => pure (.ok latest)
  | .error .other => pure (.error (incompatible "invalid wal entry length"))
  | .ok (lenBytes, rest) => do
    let len := ofLe lenBytes
    zeroed allocates len
    match _hpayload : readExact len rest with
    | .error _ => pure (.error (incompatible "truncated wal entry payload"))
    | .ok (payload, rest') => match WalCommitRecord.codec.get payload with
      | none => pure (.error (incompatible "invalid wal entry"))
      | some (record, _) => decodeEntries (some record.snapshot) rest'
termination_by cursor.length
decreasing_by
  have := length_readExact _hlen
  have := length_readExact _hpayload
  omega

/-- The header is checked for its length and its version; the magic was seen by the caller. -/
def decodeBinaryWal (raw : Bytes) : Call (Except GraphDbError (Option PersistedSnapshot)) :=
  if raw.length < walMagic.length + 2 then
    pure (.error (incompatible "wal file is truncated"))
  else do
    let versionStart := walMagic.length
    let versionEnd := versionStart + 2
    let field ← slice raw versionStart versionEnd
    let field ← expectLength 2 field
    let version := ofLe field
    if version ≠ storageFormatVersion then
      pure (.error (incompatible ("wal format version mismatch: expected 1, got " ++ version.repr)))
    else do
      let entries ← slice raw versionEnd raw.length
      decodeEntries allocates none entries

variable {allocates}

/-! ### One turn of the loop -/

theorem decodeEntries_short {tail : Bytes} (h : tail.length < 8)
    (latest : Option PersistedSnapshot) :
    decodeEntries allocates latest tail = pure (.ok latest) := by
  have hread := readExact_short h
  rw [decodeEntries]
  split
  · rfl
  · next hother => cases hread.symm.trans hother
  · next hwhole => cases hread.symm.trans hwhole

/-- A turn that finds a length. -/
theorem decodeEntries_length {n : ℕ} {rest : Bytes} (hn : n < 256 ^ 8)
    (latest : Option PersistedSnapshot) :
    decodeEntries allocates latest (leBytes 8 n ++ rest) =
      (zeroed allocates n >>= fun _ => match readExact n rest with
        | .error _ => pure (.error (incompatible "truncated wal entry payload"))
        | .ok (payload, rest') => match WalCommitRecord.codec.get payload with
          | none => pure (.error (incompatible "invalid wal entry"))
          | some (record, _) => decodeEntries allocates (some record.snapshot) rest') := by
  have hread := readExact_append (r := rest) (length_leBytes 8 n)
  rw [decodeEntries]
  split
  · next hend => cases hread.symm.trans hend
  · next hother => cases hread.symm.trans hother
  · next hwhole =>
    cases hread.symm.trans hwhole
    rw [ofLe_leBytes hn]
    dsimp only
    generalize readExact n rest = read
    rcases read with e | ⟨payload, rest'⟩ <;> rfl

/-- A payload that is cut short is refused, once its buffer is there. -/
theorem decodeEntries_cut {n : ℕ} {rest : Bytes} (hn : n < 256 ^ 8) (hcut : rest.length < n)
    (latest : Option PersistedSnapshot) :
    decodeEntries allocates latest (leBytes 8 n ++ rest) =
      (zeroed allocates n >>= fun _ =>
        pure (.error (incompatible "truncated wal entry payload"))) := by
  simp only [decodeEntries_length hn, readExact_short hcut]

theorem decodeEntries_frame {payload rest : Bytes} (hlen : payload.length < 256 ^ 8)
    (latest : Option PersistedSnapshot) :
    decodeEntries allocates latest (frame 8 payload ++ rest) =
      (zeroed allocates payload.length >>= fun _ => match WalCommitRecord.codec.get payload with
        | none => pure (.error (incompatible "invalid wal entry"))
        | some (record, _) => decodeEntries allocates (some record.snapshot) rest) := by
  rw [frame_append, decodeEntries_length hlen]
  simp only [readExact_append rfl]

/-! ### All turns -/

/-- What bincode reads as a record. -/
def Complete (payload : Bytes) : Prop := (WalCommitRecord.codec.get payload).isSome = true

/-- The loop comes back when every buffer it gets to is granted. -/
theorem decodeEntries_returns (cursor : Bytes) : ∀ latest : Option PersistedSnapshot,
    (decodeEntries allocates latest cursor).Returns ↔
      ∀ n, ReachesLength 8 Complete cursor n → Grants allocates n := by
  induction cursor using frames_induction (show 0 < 8 by decide) with
  | short tail h =>
    intro latest
    simp [decodeEntries_short h, not_reachesLength_short h]
  | cut n rest hn hcut =>
    intro latest
    simp [decodeEntries_cut hn hcut, returns_zeroed_bind, reachesLength_cut hn hcut]
  | frame payload rest hlen ih =>
    intro latest
    rw [decodeEntries_frame hlen, returns_zeroed_bind]
    simp only [reachesLength_frame hlen, forall_eq_or_imp]
    rcases hget : WalCommitRecord.codec.get payload with _ | ⟨record, r⟩
    · simp [Complete, hget]
    · simp [Complete, hget, ih]

/-- It asks for the buffers of the lengths it gets to, and no others. -/
theorem mem_decodeEntries_requests {n : ℕ} (cursor : Bytes) : ∀ latest : Option PersistedSnapshot,
    (decodeEntries allocates latest cursor).Returns →
      (n ∈ (decodeEntries allocates latest cursor).requests ↔
        ReachesLength 8 Complete cursor n) := by
  induction cursor using frames_induction (show 0 < 8 by decide) with
  | short tail h =>
    intro latest _
    simp [decodeEntries_short h, not_reachesLength_short h]
  | cut m rest hm hcut =>
    intro latest hret
    rw [decodeEntries_cut hm hcut] at hret ⊢
    simp [zeroed_bind (returns_zeroed_bind.mp hret).1, reachesLength_cut hm hcut]
  | frame payload rest hlen ih =>
    intro latest hret
    rw [decodeEntries_frame hlen] at hret ⊢
    obtain ⟨hgrants, hrest⟩ := returns_zeroed_bind.mp hret
    rw [zeroed_bind hgrants, reachesLength_frame hlen, List.mem_cons]
    rcases hget : WalCommitRecord.codec.get payload with _ | ⟨record, r⟩
    · simp [Complete, hget]
    · simp only [hget] at hrest
      simp [Complete, hget, ih _ hrest]

/-- What the loop returns is what `Library.decodeEntries` says. -/
theorem decodeEntries_returned (cursor : Bytes) : ∀ latest : Option PersistedSnapshot,
    (decodeEntries allocates latest cursor).Returns →
      (decodeEntries allocates latest cursor).ending =
        .returned (Library.decodeEntries latest cursor) := by
  induction cursor using frames_induction (show 0 < 8 by decide) with
  | short tail h =>
    intro latest _
    rw [decodeEntries_short h, Library.decodeEntries_short h, pure_ending]
  | cut n rest hn hcut =>
    intro latest hret
    rw [decodeEntries_cut hn hcut] at hret ⊢
    rw [Library.decodeEntries_cut hn hcut, zeroed_bind_returned]
    exact ⟨(returns_zeroed_bind.mp hret).1, rfl⟩
  | frame payload rest hlen ih =>
    intro latest hret
    rw [decodeEntries_frame hlen] at hret ⊢
    obtain ⟨hgrants, hrest⟩ := returns_zeroed_bind.mp hret
    rw [Library.decodeEntries_frame hlen, zeroed_bind_returned]
    refine ⟨hgrants, ?_⟩
    rcases hget : WalCommitRecord.codec.get payload with _ | ⟨record, r⟩
    · rfl
    · simp only [hget] at hrest
      exact ih _ hrest

/-! ### The whole log -/

/-- The slices of the header are in bounds: the decoder is the loop behind three checks. -/
theorem decodeBinaryWal_eq (raw : Bytes) :
    decodeBinaryWal allocates raw =
      if raw.length < 6 then pure (.error (incompatible "wal file is truncated"))
      else if ofLe ((raw.drop 4).take 2) ≠ storageFormatVersion then
        pure (.error (incompatible ("wal format version mismatch: expected 1, got " ++
          (ofLe ((raw.drop 4).take 2)).repr)))
      else decodeEntries allocates none (raw.drop 6) := by
  have hmagic : walMagic.length = 4 := rfl
  rw [decodeBinaryWal, hmagic]
  split
  · rfl
  · have hfield : ((raw.drop 4).take 2).length = 2 := by
      simp
      omega
    have hbody : (raw.drop 6).take (raw.length - 6) = raw.drop 6 := by simp
    simp only [slice_of_le (show 4 ≤ 4 + 2 by decide) (show 4 + 2 ≤ raw.length by omega),
      slice_of_le (show 4 + 2 ≤ raw.length by omega) (le_refl _), Nat.reduceAdd, Nat.reduceSub,
      pure_bind, expectLength, hfield, if_pos, hbody]

/-- A length that the decoder gets to: it stands behind the header of a log of the current version
and behind whole records. -/
def Reaches (raw : Bytes) (n : ℕ) : Prop :=
  ∃ magic body, raw = magic ++ (leBytes 2 storageFormatVersion ++ body) ∧
    magic.length = walMagic.length ∧ ReachesLength 8 Complete body n

theorem reaches_iff {raw : Bytes} {n : ℕ} :
    Reaches raw n ↔ 6 ≤ raw.length ∧ ofLe ((raw.drop 4).take 2) = storageFormatVersion ∧
      ReachesLength 8 Complete (raw.drop 6) n := by
  constructor
  · rintro ⟨magic, body, rfl, hmagic, hbody⟩
    have hdrop : (magic ++ (leBytes 2 storageFormatVersion ++ body)).drop 4 =
        leBytes 2 storageFormatVersion ++ body := List.drop_left' hmagic
    refine ⟨?_, ?_, ?_⟩
    · simp [hmagic, walMagic]
      omega
    · rw [hdrop, List.take_left' (length_leBytes 2 _)]
      rfl
    · have hbehind : (leBytes 2 storageFormatVersion ++ body).drop 2 = body :=
        List.drop_left' (length_leBytes 2 _)
      rwa [show 6 = 4 + 2 from rfl, ← List.drop_drop, hdrop, hbehind]
  · rintro ⟨hlen, hversion, hbody⟩
    refine ⟨raw.take 4, raw.drop 6, ?_, ?_, hbody⟩
    · have hfield : ((raw.drop 4).take 2).length = 2 := by
        simp
        omega
      have hle := leBytes_ofLe ((raw.drop 4).take 2)
      rw [hversion, hfield] at hle
      rw [hle, show 6 = 4 + 2 from rfl, ← List.drop_drop, List.take_append_drop,
        List.take_append_drop]
    · simp [walMagic]
      omega

/-- The decoder comes back when and only when every buffer it gets to is granted. -/
theorem returns_iff (raw : Bytes) :
    (decodeBinaryWal allocates raw).Returns ↔ ∀ n, Reaches raw n → Grants allocates n := by
  simp only [reaches_iff, decodeBinaryWal_eq]
  by_cases hlen : raw.length < 6
  · simp [hlen, Nat.not_le.mpr hlen]
  · by_cases hversion : ofLe ((raw.drop 4).take 2) = storageFormatVersion
    · simp [hlen, Nat.not_lt.mp hlen, hversion, decodeEntries_returns]
    · simp [hlen, hversion]

/-- It asks for the buffers of the lengths it gets to, and no others. -/
theorem mem_requests {raw : Bytes} (h : (decodeBinaryWal allocates raw).Returns) {n : ℕ} :
    n ∈ (decodeBinaryWal allocates raw).requests ↔ Reaches raw n := by
  rw [reaches_iff]
  rw [decodeBinaryWal_eq] at h ⊢
  by_cases hlen : raw.length < 6
  · simp [hlen, Nat.not_le.mpr hlen]
  · by_cases hversion : ofLe ((raw.drop 4).take 2) = storageFormatVersion
    · simp only [hlen, hversion, if_false, ne_eq, not_true_eq_false] at h ⊢
      simp [Nat.not_lt.mp hlen, mem_decodeEntries_requests _ _ h]
    · simp [hlen, hversion]

/-- What the decoder returns, when it does, is what `Library.decodeBinaryWal` says. -/
theorem decodeBinaryWal_returned {raw : Bytes} (h : (decodeBinaryWal allocates raw).Returns) :
    (decodeBinaryWal allocates raw).ending = .returned (Library.decodeBinaryWal raw) := by
  have hmagic : walMagic.length = 4 := rfl
  rw [decodeBinaryWal_eq] at h ⊢
  rw [Library.decodeBinaryWal, hmagic]
  by_cases hlen : raw.length < 6
  · simp [hlen]
  · by_cases hversion : ofLe ((raw.drop 4).take 2) = storageFormatVersion
    · simp only [hlen, hversion, if_false, ne_eq, not_true_eq_false] at h ⊢
      exact decodeEntries_returned _ _ h
    · simp [hlen, hversion]

/-! ### Records -/

/-- A commit record as it is written: bytes in memory that bincode reads back as the record. -/
structure EncodedRecord where
  record : WalCommitRecord
  payload : Bytes
  decodes : WalCommitRecord.codec.get payload = some (record, [])
  inMemory : payload.length ≤ isizeMax

namespace EncodedRecord

/-- The entry of the record in a log. -/
def bytes (r : EncodedRecord) : Bytes := frame 8 r.payload

/-- What `append_wal` writes of a record. -/
def encode (record : WalCommitRecord) (hfits : WalCommitRecord.codec.Fits record)
    (hlen : (WalCommitRecord.codec.put record).length ≤ isizeMax) : EncodedRecord :=
  ⟨record, WalCommitRecord.codec.put record, WalCommitRecord.codec_lawful.get_put hfits, hlen⟩

theorem length_lt (r : EncodedRecord) : r.payload.length < 256 ^ 8 :=
  lt_of_le_of_lt r.inMemory (by decide)

theorem grants_iff (r : EncodedRecord) :
    Grants allocates r.payload.length ↔ allocates r.payload.length = true :=
  and_iff_right r.inMemory

end EncodedRecord

/-- A log of these records, and what the append of another one left of it. -/
def logOf (records : List EncodedRecord) (tail : Bytes) : Bytes :=
  walMagic ++ (leBytes 2 storageFormatVersion ++ (records.flatMap EncodedRecord.bytes ++ tail))

/-- The log of a commit is a log of one record. -/
theorem walBytes_eq (record : WalCommitRecord) (hfits : WalCommitRecord.codec.Fits record)
    (hlen : (WalCommitRecord.codec.put record).length ≤ isizeMax) :
    walBytes record.txId record.snapshot = logOf [.encode record hfits hlen] [] := by
  simp [walBytes, logOf, EncodedRecord.bytes, EncodedRecord.encode, frame]

/-- Records are decoded one after the other, each in its own buffer; the last one is kept. -/
theorem decodeEntries_records {tail : Bytes}
    {result : Except GraphDbError (Option PersistedSnapshot)} (records : List EncodedRecord) :
    ∀ latest : Option PersistedSnapshot,
      (decodeEntries allocates latest (records.flatMap EncodedRecord.bytes ++ tail)).ending =
          .returned result ↔
        (∀ r ∈ records, allocates r.payload.length = true) ∧
          (decodeEntries allocates ((records.map (some ·.record.snapshot)).getLastD latest)
            tail).ending = .returned result := by
  induction records with
  | nil => simp
  | cons r records ih =>
    intro latest
    rw [List.flatMap_cons, List.append_assoc, EncodedRecord.bytes, decodeEntries_frame r.length_lt,
      zeroed_bind_returned, r.decodes, r.grants_iff]
    dsimp only
    rw [ih, List.map_cons, List.getLastD_cons, List.forall_mem_cons, and_assoc]

theorem decodeBinaryWal_logOf (records : List EncodedRecord) (tail : Bytes) :
    decodeBinaryWal allocates (logOf records tail) =
      decodeEntries allocates none (records.flatMap EncodedRecord.bytes ++ tail) := by
  have hversion : ofLe [1, 0] = storageFormatVersion := rfl
  have hbytes : logOf records tail = 65 :: 71 :: 87 :: 76 :: 1 :: 0 ::
      (records.flatMap EncodedRecord.bytes ++ tail) := rfl
  rw [decodeBinaryWal_eq, hbytes]
  simp [hversion]

/-! ### Total, and faithful to the records -/

variable (allocates) in
/-- The decoder returns, and asks for no buffer that is longer than its input. -/
def Total (raw : Bytes) : Prop :=
  (decodeBinaryWal allocates raw).Returns ∧
    ∀ n ∈ (decodeBinaryWal allocates raw).requests, n ≤ raw.length

variable (allocates) in
/-- The decoder finds the last of the records, whatever is behind it. -/
def Keeps (records : List EncodedRecord) (tail : Bytes) : Prop :=
  (decodeBinaryWal allocates (logOf records tail)).ending =
    .returned (.ok (records.getLast?.map (·.record.snapshot)))

/-- The decoder is total as long as it gets to no length above that of its input. -/
theorem total_iff (raw : Bytes) :
    Total allocates raw ↔ ∀ n, Reaches raw n → n ≤ raw.length ∧ Grants allocates n := by
  constructor
  · rintro ⟨hret, hbound⟩ n hn
    exact ⟨hbound n ((mem_requests hret).mpr hn), (returns_iff raw).mp hret n hn⟩
  · intro h
    have hret := (returns_iff raw).mpr fun n hn => (h n hn).2
    exact ⟨hret, fun n hn => (h n ((mem_requests hret).mp hn)).1⟩

/-- A cut in the length ends the log; a cut in the payload fails it. -/
theorem keeps_iff (records : List EncodedRecord) {next : EncodedRecord} {tail : Bytes}
    (htail : ProperPrefix tail next.bytes) :
    Keeps allocates records tail ↔
      tail.length < 8 ∧ ∀ r ∈ records, allocates r.payload.length = true := by
  have hlast : (records.map (some ·.record.snapshot)).getLastD none =
      records.getLast?.map (·.record.snapshot) := by
    rw [List.getLastD_eq_getLast?, List.getLast?_map]
    cases records.getLast? <;> rfl
  rw [Keeps, decodeBinaryWal_logOf, decodeEntries_records, hlast]
  rcases properPrefix_frame htail with hshort | ⟨rest, hcut, rfl⟩
  · simp [decodeEntries_short hshort, hshort]
  · simp [decodeEntries_cut next.length_lt hcut, zeroed_bind_returned]

/-- A cut in the payload fails the log when the buffers are there, also that of the payload. -/
theorem refuses_iff (records : List EncodedRecord) {next : EncodedRecord} {tail : Bytes}
    (htail : ProperPrefix tail next.bytes) (hlong : 8 ≤ tail.length) :
    (decodeBinaryWal allocates (logOf records tail)).ending =
        .returned (.error (incompatible "truncated wal entry payload")) ↔
      (∀ r ∈ records, allocates r.payload.length = true) ∧
        allocates next.payload.length = true := by
  rw [decodeBinaryWal_logOf, decodeEntries_records]
  rcases properPrefix_frame htail with hshort | ⟨rest, hcut, rfl⟩
  · omega
  · rw [decodeEntries_cut next.length_lt hcut, zeroed_bind_returned, next.grants_iff]
    simp

/-- When the decoder of the log is total, and when it keeps the records before a torn tail. -/
theorem decoder_total_and_keeps_iff (allocates : ℕ → Bool) :
    (∀ raw, Total allocates raw ↔ ∀ n, Reaches raw n → n ≤ raw.length ∧ Grants allocates n) ∧
      ∀ (records : List EncodedRecord) (next : EncodedRecord) (tail : Bytes),
        ProperPrefix tail next.bytes →
          (Keeps allocates records tail ↔
            tail.length < 8 ∧ ∀ r ∈ records, allocates r.payload.length = true) :=
  ⟨total_iff, fun records _ _ htail => keeps_iff records htail⟩

/-- The commit of an empty graph. -/
def emptyCommit : EncodedRecord :=
  .encode ⟨"t", snapshotOf .new⟩
    ⟨rfl, Bincode.string_fits.mpr (by decide),
      snapshotOf_fits (InMemoryGraphStore.codec_fits_empty 0 0)⟩
    (by decide +kernel)

theorem emptyCommit_cut {k : ℕ} (h : k ≤ 9) :
    ProperPrefix (emptyCommit.bytes.take k) emptyCommit.bytes ∧
      (emptyCommit.bytes.take k).length = k := by
  have hlen : emptyCommit.bytes.length = 8 + emptyCommit.payload.length := length_frame 8 _
  have htwo : 2 ≤ emptyCommit.payload.length := by decide +kernel
  refine ⟨properPrefix_take (by omega), ?_⟩
  rw [List.length_take]
  omega

/-- The commit is found before three bytes of the length of the next one. -/
theorem decoder_keeps_short_tail :
    ProperPrefix (emptyCommit.bytes.take 3) emptyCommit.bytes ∧
      Keeps (fun _ => true) [emptyCommit] (emptyCommit.bytes.take 3) ∧
      Total (fun _ => true) [] := by
  obtain ⟨htail, hlen⟩ := emptyCommit_cut (show 3 ≤ 9 by decide)
  refine ⟨htail, ?_, ?_⟩
  · refine ((decoder_total_and_keeps_iff _).2 _ _ _ htail).mpr ⟨?_, fun _ _ => rfl⟩
    omega
  · refine ((decoder_total_and_keeps_iff _).1 _).mpr fun n hn => ?_
    exact absurd (reaches_iff.mp hn).1 (by decide)

/-- A length of `2 ^ 63` in a file of 14 bytes makes the decoder panic, and a commit whose next one
was cut behind the first byte of its payload is not found again. -/
theorem decoder_panics_and_loses :
    (∀ allocates, decodeBinaryWal allocates (logOf [] (leBytes 8 (2 ^ 63))) =
        ⟨[2 ^ 63], .panicked⟩ ∧ ¬ Total allocates (logOf [] (leBytes 8 (2 ^ 63)))) ∧
      (decodeBinaryWal (fun _ => true) (logOf [emptyCommit] (emptyCommit.bytes.take 9))).ending =
          .returned (.error (incompatible "truncated wal entry payload")) ∧
      ∀ allocates, ¬ Keeps allocates [emptyCommit] (emptyCommit.bytes.take 9) := by
  have hpanic : ∀ allocates, decodeBinaryWal allocates (logOf [] (leBytes 8 (2 ^ 63))) =
      ⟨[2 ^ 63], .panicked⟩ := by
    intro allocates
    have hcut := @decodeEntries_cut allocates (2 ^ 63) [] (by decide) (by decide) none
    rw [List.append_nil] at hcut
    rw [decodeBinaryWal_logOf, List.flatMap_nil, List.nil_append, hcut]
    rfl
  obtain ⟨htail, hlen⟩ := emptyCommit_cut (le_refl 9)
  refine ⟨fun allocates => ⟨hpanic allocates, ?_⟩, ?_, ?_⟩
  · rintro ⟨⟨result, hresult⟩, -⟩
    rw [hpanic] at hresult
    cases hresult
  · exact (refuses_iff _ htail (by omega)).mpr ⟨fun _ _ => rfl, rfl⟩
  · intro allocates hkeeps
    have hshort := ((keeps_iff _ htail).mp hkeeps).1
    omega

end AiraGraphdb.Library.WalDecoder
