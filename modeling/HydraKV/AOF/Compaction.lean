import HydraKV.Routes.Reload

/-! The log writer's file across a compaction. `Loop` writes each record into
the buffered writer `a.file` and flushes it on its ticker into the `*os.File`
it wraps, `a.iofile`. `createCompressedAOF` writes the snapshot into a
temporary file; then it flushes and closes the live file, renames the
temporary file over the log, and reopens the log with a new buffered writer.
A failure before the close leaves the writer as it was. A failed rename
returns with the live file closed, and a failed reopen with `a.iofile` nil and
`a.file` still over the closed file: the next flush fails, the buffered writer
keeps that error, and every later record is dropped. The temporary file's name
is taken before the first `.` of the whole path, so under the default folder
`./data` every database compacts through `.tmp.bin`. A buffered write that
fills the 64 KiB buffer flushes early; the file holds the same bytes after the
next flush, so writes here only buffer. -/

namespace HydraKV.AOF

open Go Routes

/-! ### File names -/

/-- `NewAOF`'s `FileName`: `DB_FOLDER + "/" + file + ".bin"`. -/
def aofFileName (folder name : Bytes) : Bytes := folder ++ ofString "/" ++ binFile name

/-- The temporary file of `createCompressedAOF`:
`strings.Split(FileName, ".")[0] + ".tmp.bin"`. -/
def tmpName (fileName : Bytes) : Bytes := beforeDot fileName ++ ofString ".tmp.bin"

theorem beforeDot_append_of_mem {l : Bytes} (h : 46 ∈ l) (l' : Bytes) : beforeDot (l ++ l') = beforeDot l := by
  induction l with
  | nil => cases h
  | cons b l ih =>
    by_cases hb : b = 46
    · subst hb; rfl
    · simp only [beforeDot, List.cons_append, List.takeWhile_cons, bne_iff_ne, ne_eq, hb, not_false_eq_true,
        decide_True, if_true] at ih ⊢
      rw [ih (List.mem_of_ne_of_mem (Ne.symm hb) h)]

/-- A folder with a `.` in it gives every database the same temporary file. -/
theorem tmpName_aofFileName_of_dot {folder : Bytes} (h : 46 ∈ folder) (name : Bytes) :
    tmpName (aofFileName folder name) = beforeDot folder ++ ofString ".tmp.bin" := by
  rw [tmpName, aofFileName, List.append_assoc, beforeDot_append_of_mem h]

/-- Under any folder with a `.` in it, the default `./data` among them, two
databases compact through the same temporary file. -/
theorem tmpName_shared (folder n₁ n₂ : Bytes) (h : 46 ∈ folder) :
    tmpName (aofFileName folder n₁) = tmpName (aofFileName folder n₂) := by
  rw [tmpName_aofFileName_of_dot h, tmpName_aofFileName_of_dot h]

/-- The default folder `./data`: every database's temporary file is
`.tmp.bin`, outside the folder. -/
theorem tmpName_shared_witness :
    (46 : UInt8) ∈ ofString "./data" ∧
      tmpName (aofFileName (ofString "./data") (ofString "a")) =
        tmpName (aofFileName (ofString "./data") (ofString "b")) :=
  ⟨by decide, tmpName_shared _ _ _ (by decide)⟩

/-! ### The writer -/

/-- The log writer and the files: `FileName`; the file `a.file` writes into,
by path, and whether it is open; whether `a.iofile` is nil (otherwise it is
that same file); the bytes `a.file` buffers, and whether it has failed (a
`bufio.Writer` keeps its first error). -/
structure AofState where
  fileName : Bytes
  out : Bytes × Bool
  nilIofile : Bool
  buf : Bytes
  failed : Bool
  files : Folder

/-- The operation of `createCompressedAOF` that fails, if any. -/
inductive CompactFault
  | none
  | createTmp
  | writeTmp
  | flushTmp
  | syncTmp
  | rename
  | reopen
  deriving DecidableEq, Repr

/-- What `Loop` does besides compacting: write one record, or flush on a
tick of its ticker. -/
inductive LoopEvent
  | frame (d : Data)
  | tick

/-- The bytes a `Loop` event adds to the log. -/
def LoopEvent.bytes : LoopEvent → Bytes
  | .frame d => writeFrame d
  | .tick => []

namespace AofState

/-- The writer appends to the live log: `a.iofile` is the log, open, and
`a.file` writes into it and has not failed. -/
structure Live (s : AofState) : Prop where
  out : s.out = (s.fileName, true)
  iofile : s.nilIofile = false
  ok : s.failed = false

/-- `a.file.Flush()`: nothing after a failure or with an empty buffer; the
buffer appended to the file when it is open; a failure otherwise. -/
def flush (s : AofState) : AofState :=
  if s.failed || s.buf.isEmpty then s
  else if s.out.2 then
    { s with files := s.files.insert s.out.1 ((s.files.lookup s.out.1).getD [] ++ s.buf), buf := [] }
  else { s with failed := true }

/-- `writeFrame(d)` into `a.file`: buffered, unless the writer has failed. -/
def writeFrame (d : Data) (s : AofState) : AofState :=
  if s.failed then s else { s with buf := s.buf ++ AOF.writeFrame d }

/-- One event of `Loop`. -/
def step (s : AofState) : LoopEvent → AofState
  | .frame d => s.writeFrame d
  | .tick => s.flush

/-- A run of `Loop`'s events. -/
def run (s : AofState) (es : List LoopEvent) : AofState := es.foldl step s

/-- `createCompressedAOF(entries)` when `fault` fails. The temporary file is
truncated when created; a failed write or flush leaves the 16 MiB buffer
unwritten, a failed sync leaves the snapshot in the file. Otherwise the live
buffer is flushed and the live file closed, then the temporary file is
renamed over the log and the log reopened with a new buffered writer. -/
def createCompressedAOF (fault : CompactFault) (entries : List AOFEntry) (s : AofState) : AofState :=
  let tmp := tmpName s.fileName
  let snapshot := (entries.map compressedFrame).flatten
  match fault with
  | .createTmp => s
  | .writeTmp | .flushTmp => { s with files := s.files.insert tmp [] }
  | .syncTmp => { s with files := s.files.insert tmp snapshot }
  | _ =>
    let s := { s with files := s.files.insert tmp snapshot }
    let s := { s.flush with out := (s.out.1, false) }
    if fault = .rename then s
    else
      let s := { s with files := (s.files.erase tmp).insert s.fileName snapshot }
      if fault = .reopen then { s with nilIofile := true }
      else { s with out := (s.fileName, true), nilIofile := false, buf := [], failed := false }

variable {s : AofState}

/-! ### A closed file takes no bytes -/

@[simp] theorem flush_out : s.flush.out = s.out := by
  unfold flush; split_ifs <;> rfl

@[simp] theorem step_out (e : LoopEvent) : (s.step e).out = s.out := by
  cases e with
  | frame d => unfold step writeFrame; split_ifs <;> rfl
  | tick => exact flush_out

theorem flush_files_of_closed (h : s.out.2 = false) : s.flush.files = s.files := by
  unfold flush; split_ifs <;> first | rfl | simp_all

/-- Once the file `a.file` writes into is closed, no event of `Loop` changes
any file. -/
theorem run_files_of_closed (h : s.out.2 = false) (es : List LoopEvent) : (s.run es).files = s.files := by
  induction es generalizing s with
  | nil => rfl
  | cons e es ih =>
    have he : (s.step e).files = s.files := by
      cases e with
      | frame d => unfold step writeFrame; split_ifs <;> rfl
      | tick => exact flush_files_of_closed h
    exact (ih (by rw [step_out]; exact h)).trans he

/-! ### A live writer appends every record -/

/-- The log's bytes once `a.file` is flushed. -/
def pending (s : AofState) : Bytes := (s.files.lookup s.fileName).getD [] ++ s.buf

theorem Live.step (h : s.Live) (e : LoopEvent) :
    (s.step e).Live ∧ (s.step e).pending = s.pending ++ e.bytes := by
  obtain ⟨fileName, out, nilIofile, buf, failed, files⟩ := s
  obtain ⟨hout, hio, hok⟩ := h
  dsimp only at hout hio hok
  subst hout hio hok
  cases e with
  | frame d => exact ⟨⟨rfl, rfl, rfl⟩, (List.append_assoc _ _ _).symm⟩
  | tick =>
    by_cases hb : buf.isEmpty = true
    · simp only [AofState.step, flush, hb, Bool.or_true, if_true]
      exact ⟨⟨rfl, rfl, rfl⟩, by simp [LoopEvent.bytes]⟩
    · simp only [AofState.step, flush, hb, Bool.false_or, Bool.false_eq_true, if_false, if_true]
      exact ⟨⟨rfl, rfl, rfl⟩, by simp [pending, AList.lookup_insert, LoopEvent.bytes]⟩

/-- A live writer stays live through every run of `Loop`'s events, and the
log, once flushed, holds every record it wrote, in order. -/
theorem Live.run (h : s.Live) (es : List LoopEvent) :
    (s.run es).Live ∧ (s.run es).pending = s.pending ++ (es.map LoopEvent.bytes).flatten := by
  induction es generalizing s with
  | nil => exact ⟨h, (List.append_nil _).symm⟩
  | cons e es ih =>
    obtain ⟨h₁, hp₁⟩ := h.step e
    obtain ⟨h₂, hp₂⟩ := ih h₁
    exact ⟨h₂, by rw [run, List.foldl_cons, ← run, hp₂, hp₁, List.map_cons, List.flatten_cons,
      List.append_assoc]⟩

end AofState

/-- A compaction whose rename or reopen fails leaves the writer no longer
appending to the log, and every record `Loop` writes afterwards is lost: no
run of its events changes any file. -/
theorem compaction_fault_drops_frames (s : AofState) (entries : List AOFEntry) {f : CompactFault}
    (hf : f = .rename ∨ f = .reopen) (es : List LoopEvent) :
    let s' := s.createCompressedAOF f entries
    s'.out.2 = false ∧ (s'.run es).files = s'.files := by
  have hc : (s.createCompressedAOF f entries).out.2 = false := by
    rcases hf with rfl | rfl <;> rfl
  exact ⟨hc, AofState.run_files_of_closed hc es⟩

/-- A live writer on `./data/A.bin` whose compaction fails at the rename: a
`Set` record written and flushed afterwards changes no file. -/
theorem compaction_fault_drops_frames_witness :
    let log := aofFileName (ofString "./data") (ofString "A")
    let s' := (AofState.mk log (log, true) false [] false ∅).createCompressedAOF .rename []
    s'.out.2 = false ∧ (s'.run [.frame ⟨actionSet, ofString "k", ofString "v", 0⟩, .tick]).files = s'.files :=
  compaction_fault_drops_frames _ [] (.inl rfl) _

end HydraKV.AOF
