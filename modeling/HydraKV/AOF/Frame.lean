import HydraKV.Go.Basic
import Mathlib.Data.List.Infix

/-! The append-only log's record format. `writeFrame` appends a record's three
length-prefixed fields and its eight-byte ttl; the snapshot encoder of
`createCompressedAOF` appends the same bytes for a `set` record. `readFrame`
reads one record back through `io.ReadFull`, and `readFrames` is the read loop
of `ReplayAOF`. A log is read from a byte string, so the only errors are the
two end-of-input errors of `io.ReadFull`. -/

namespace HydraKV.AOF

open Go

/-- `Data`: one log record. -/
structure Data where
  action : Bytes
  key : Bytes
  value : Bytes
  ttl : Int64
  deriving DecidableEq, Repr

/-- `AOFEntry`: one live entry of a snapshot. -/
structure AOFEntry where
  key : Bytes
  value : Bytes
  ttl : Int64
  deriving DecidableEq, Repr

/-- The three actions a record carries. -/
def actionSet : Bytes := ofString "set"
def actionDel : Bytes := ofString "del"
def actionIncr : Bytes := ofString "incr"

theorem actionDel_ne_actionSet : actionDel ≠ actionSet := by decide
theorem actionIncr_ne_actionSet : actionIncr ≠ actionSet := by decide
theorem actionIncr_ne_actionDel : actionIncr ≠ actionDel := by decide

/-- Each length field holds the length as a `uint32`. -/
def Data.Fits (d : Data) : Prop :=
  d.action.length < 2 ^ 32 ∧ d.key.length < 2 ^ 32 ∧ d.value.length < 2 ^ 32

instance (d : Data) : Decidable d.Fits := inferInstanceAs (Decidable (_ ∧ _ ∧ _))

/-! ### Writing -/

/-- One length-prefixed field: its `uint32` length, big-endian, then its bytes. -/
def fieldBytes (s : Bytes) : Bytes := beBytes 4 s.length ++ s

/-- `AOF.writeFrame`: the bytes one record adds to the log. -/
def writeFrame (d : Data) : Bytes :=
  fieldBytes d.action ++ fieldBytes d.key ++ fieldBytes d.value ++ beBytes 8 d.ttl.toNat

/-- The per-entry encoder of `createCompressedAOF`: action `set`, key, value,
ttl. -/
def compressedFrame (e : AOFEntry) : Bytes :=
  fieldBytes actionSet ++ fieldBytes e.key ++ fieldBytes e.value ++ beBytes 8 e.ttl.toNat

/-- The record a snapshot entry is replayed as. -/
def AOFEntry.toData (e : AOFEntry) : Data := ⟨actionSet, e.key, e.value, e.ttl⟩

/-! ### Reading -/

/-- The errors `io.ReadFull` reports at the end of its input. -/
inductive ReadError
  | eof
  | unexpectedEOF
  deriving DecidableEq, Repr

/-- `io.ReadFull(r, buf)` for a buffer of `n` bytes: the bytes and the rest of
the input, `io.EOF` when nothing is left, `io.ErrUnexpectedEOF` when only part
of the buffer can be filled. -/
def readFull (n : Nat) (r : Bytes) : Except ReadError (Bytes × Bytes) :=
  if n ≤ r.length then .ok (r.take n, r.drop n)
  else if r = [] then .error .eof else .error .unexpectedEOF

/-- One field of `readFrame`: the four size bytes, then `size` bytes when
`size > 0`. -/
def readField (r : Bytes) : Except ReadError (Bytes × Bytes) := do
  let (sizeBuf, r) ← readFull 4 r
  let size := beValue sizeBuf
  if size > 0 then readFull size r else pure ([], r)

/-- `AOF.readFrame`: action, key, value, then the ttl read by `binary.Read`. -/
def readFrame (r : Bytes) : Except ReadError (Data × Bytes) := do
  let (action, r) ← readField r
  let (key, r) ← readField r
  let (value, r) ← readField r
  let (ttlBuf, r) ← readFull 8 r
  pure (⟨action, key, value, BitVec.ofNat 64 (beValue ttlBuf)⟩, r)

theorem bind_eq_ok {α β : Type} {x : Except ReadError α} {f : α → Except ReadError β} {b : β} :
    x >>= f = .ok b ↔ ∃ a, x = .ok a ∧ f a = .ok b := by
  cases x <;> simp [bind, Except.bind]

theorem readFull_ok {n : Nat} {r a r' : Bytes} (h : readFull n r = .ok (a, r')) :
    a.length = n ∧ a ++ r' = r := by
  unfold readFull at h
  split at h
  · cases h; exact ⟨List.length_take_of_le ‹_›, List.take_append_drop n r⟩
  · split at h <;> cases h

theorem readFull_append (a rest : Bytes) : readFull a.length (a ++ rest) = .ok (a, rest) := by
  simp [readFull]

theorem readField_ok {r a r' : Bytes} (h : readField r = .ok (a, r')) :
    a.length < 2 ^ 32 ∧ fieldBytes a ++ r' = r := by
  obtain ⟨⟨sb, r1⟩, h4, hf⟩ := bind_eq_ok.mp h
  obtain ⟨hl, rfl⟩ := readFull_ok h4
  have hsb : beBytes 4 (beValue sb) = sb := hl ▸ beBytes_beValue sb
  have hlt : beValue sb < 2 ^ 32 := by simpa [hl] using beValue_lt sb
  dsimp only at hf
  split at hf
  · obtain ⟨ha, rfl⟩ := readFull_ok hf
    exact ⟨ha ▸ hlt, by rw [fieldBytes, ha, hsb, List.append_assoc]⟩
  · cases hf
    exact ⟨by decide, by rw [fieldBytes, ← hsb]; simp_all⟩

theorem readField_fieldBytes {s : Bytes} (hs : s.length < 2 ^ 32) (rest : Bytes) :
    readField (fieldBytes s ++ rest) = .ok (s, rest) := by
  have h4 := readFull_append (beBytes 4 s.length) (s ++ rest)
  rw [length_beBytes] at h4
  have hv : beValue (beBytes 4 s.length) = s.length := by rw [beValue_beBytes]; omega
  simp only [readField, fieldBytes, List.append_assoc, h4, bind, Except.bind, hv]
  split
  · exact readFull_append s rest
  · simp_all [List.length_eq_zero]; rfl

/-- A successful read consumed exactly the bytes of the frame it returns. -/
theorem readFrame_ok {r r' : Bytes} {d : Data} (h : readFrame r = .ok (d, r')) :
    d.Fits ∧ writeFrame d ++ r' = r := by
  obtain ⟨⟨a, r1⟩, ha, h1⟩ := bind_eq_ok.mp h
  obtain ⟨⟨k, r2⟩, hk, h2⟩ := bind_eq_ok.mp h1
  obtain ⟨⟨v, r3⟩, hv, h3⟩ := bind_eq_ok.mp h2
  obtain ⟨⟨t, r4⟩, ht, h4⟩ := bind_eq_ok.mp h3
  cases h4
  obtain ⟨haf, rfl⟩ := readField_ok ha
  obtain ⟨hkf, rfl⟩ := readField_ok hk
  obtain ⟨hvf, rfl⟩ := readField_ok hv
  obtain ⟨htl, rfl⟩ := readFull_ok ht
  have htt : beBytes 8 (BitVec.ofNat 64 (beValue t)).toNat = t := by
    have := beValue_lt t
    rw [htl] at this
    rw [BitVec.toNat_ofNat, Nat.mod_eq_of_lt (by omega), ← htl, beBytes_beValue]
  exact ⟨⟨haf, hkf, hvf⟩, by simp only [writeFrame, htt, List.append_assoc]⟩

theorem readFrame_writeFrame {d : Data} (hd : d.Fits) (rest : Bytes) :
    readFrame (writeFrame d ++ rest) = .ok (d, rest) := by
  obtain ⟨ha, hk, hv⟩ := hd
  have ht := readFull_append (beBytes 8 d.ttl.toNat) rest
  rw [length_beBytes] at ht
  have httl : BitVec.ofNat 64 (beValue (beBytes 8 d.ttl.toNat)) = d.ttl := by
    rw [beValue_beBytes, Nat.mod_eq_of_lt (show d.ttl.toNat < 256 ^ 8 from d.ttl.isLt)]; simp
  simp only [readFrame, writeFrame, List.append_assoc, readField_fieldBytes ha,
    readField_fieldBytes hk, readField_fieldBytes hv, ht, bind, Except.bind, pure, Except.pure, httl]

/-- A frame is at least twenty bytes long, so the read loop makes progress. -/
theorem readFrame_length_lt {r r' : Bytes} {d : Data} (h : readFrame r = .ok (d, r')) :
    r'.length < r.length := by
  rw [← (readFrame_ok h).2]
  simp [writeFrame, fieldBytes]
  omega

/-- The read loop of `ReplayAOF`: `readFrame` until it fails. The frames read,
in order, and the error that ended the loop. -/
def readFrames (r : Bytes) : List Data × ReadError :=
  match h : readFrame r with
  | .error e => ([], e)
  | .ok (d, r') =>
    have : r'.length < r.length := readFrame_length_lt h
    ((d :: (readFrames r').1), (readFrames r').2)
termination_by r.length

theorem readFrames_of_error {r : Bytes} {e : ReadError} (h : readFrame r = .error e) :
    readFrames r = ([], e) := by
  rw [readFrames]; split <;> simp_all

theorem readFrames_of_ok {r r' : Bytes} {d : Data} (h : readFrame r = .ok (d, r')) :
    readFrames r = (d :: (readFrames r').1, (readFrames r').2) := by
  rw [readFrames]; split <;> simp_all

/-! ### The log read back -/

/-- What one write appends to the log: a frame that `Loop` writes with
`writeFrame`, or a snapshot entry that `createCompressedAOF` encodes. -/
inductive Record
  | frame (d : Data)
  | entry (e : AOFEntry)

/-- The record a write is read back as. -/
def Record.data : Record → Data
  | .frame d => d
  | .entry e => e.toData

/-- The bytes a write appends. -/
def Record.bytes : Record → Bytes
  | .frame d => writeFrame d
  | .entry e => compressedFrame e

theorem Record.bytes_eq (r : Record) : r.bytes = writeFrame r.data := by cases r <;> rfl

/-- The first frame in a byte string is the only one that can be read from it:
the encoding is self-delimiting. -/
theorem writeFrame_isPrefix_of_readFrame {d d' : Data} {p r' y rest : Bytes} (hd : d.Fits)
    (hr : readFrame p = .ok (d', r')) (hy : p ++ y = writeFrame d ++ rest) :
    writeFrame d <+: p := by
  obtain ⟨hfit, rfl⟩ := readFrame_ok hr
  have h := readFrame_writeFrame hfit (r' ++ y)
  rw [← List.append_assoc, hy, readFrame_writeFrame hd] at h
  cases h
  exact List.prefix_append _ _

/-- Reading any prefix of frames written back to back returns exactly the
frames that lie wholly in it, in order. -/
theorem readFrames_isPrefix (ds : List Data) (hd : ∀ d ∈ ds, d.Fits) {p : Bytes}
    (hp : p <+: (ds.map writeFrame).flatten) :
    ∃ k, (readFrames p).1 = ds.take k ∧ ((ds.take k).map writeFrame).flatten <+: p ∧
      (k < ds.length → ¬ ((ds.take (k + 1)).map writeFrame).flatten <+: p) := by
  induction ds generalizing p with
  | nil =>
    obtain rfl : p = [] := List.prefix_nil.mp hp
    exact ⟨0, by rw [readFrames_of_error (r := []) (e := .eof) rfl]; rfl, List.nil_prefix, by simp⟩
  | cons d ds ih =>
    have hfd := hd d (List.mem_cons_self d ds)
    by_cases hw : writeFrame d <+: p
    · obtain ⟨p', rfl⟩ := hw
      have hp' : p' <+: (ds.map writeFrame).flatten := by simpa using hp
      obtain ⟨k, h1, h2, h3⟩ := ih (fun x hx => hd x (List.mem_cons_of_mem d hx)) hp'
      refine ⟨k + 1, ?_, ?_, fun hk => ?_⟩
      · rw [readFrames_of_ok (readFrame_writeFrame hfd p'), h1]; rfl
      · simpa using h2
      · simpa using h3 (by simpa using hk)
    · refine ⟨0, ?_, List.nil_prefix, fun _ => by simpa using hw⟩
      cases hr : readFrame p with
      | error e => rw [readFrames_of_error hr]; rfl
      | ok x =>
        obtain ⟨y, hy⟩ := hp
        exact absurd (writeFrame_isPrefix_of_readFrame hfd hr (by simpa using hy)) hw

theorem map_bytes_eq (rs : List Record) :
    rs.map Record.bytes = (rs.map Record.data).map writeFrame := by
  simp [Record.bytes_eq]

/-- The replay loop over any byte prefix of a log of frames and snapshot
entries whose fields fit their `uint32` lengths returns exactly the records
that lie wholly in the prefix, in order and field for field, and stops with
`io.EOF` or `io.ErrUnexpectedEOF`. -/
theorem readFrames_log_prefix (rs : List Record) (hfit : ∀ r ∈ rs, r.data.Fits) {p : Bytes}
    (hp : p <+: (rs.map Record.bytes).flatten) :
    ∃ k, (readFrames p).1 = (rs.take k).map Record.data ∧
      ((rs.take k).map Record.bytes).flatten <+: p ∧
      (k < rs.length → ¬ ((rs.take (k + 1)).map Record.bytes).flatten <+: p) ∧
      ((readFrames p).2 = .eof ∨ (readFrames p).2 = .unexpectedEOF) := by
  rw [map_bytes_eq] at hp
  obtain ⟨k, h1, h2, h3⟩ := readFrames_isPrefix (rs.map Record.data) (by simpa using hfit) hp
  refine ⟨k, by rw [h1, List.map_take], ?_, fun hk => ?_, ?_⟩
  · rwa [map_bytes_eq, List.map_take]
  · rw [map_bytes_eq, List.map_take]; exact h3 (by simpa using hk)
  · cases (readFrames p).2 <;> simp

theorem readFrames_log_prefix_witness :
    let rs := [Record.frame ⟨actionIncr, [107], [55], 0⟩, Record.entry ⟨[107], [56], 3⟩]
    (∀ r ∈ rs, r.data.Fits) ∧ ∃ k, (readFrames (rs.map Record.bytes).flatten).1 =
      (rs.take k).map Record.data ∧ ((rs.take k).map Record.bytes).flatten <+:
        (rs.map Record.bytes).flatten ∧
      (k < rs.length → ¬ ((rs.take (k + 1)).map Record.bytes).flatten <+:
        (rs.map Record.bytes).flatten) ∧
      ((readFrames (rs.map Record.bytes).flatten).2 = .eof ∨
        (readFrames (rs.map Record.bytes).flatten).2 = .unexpectedEOF) :=
  ⟨by decide, readFrames_log_prefix _ (by decide) (List.prefix_refl _)⟩

end HydraKV.AOF
