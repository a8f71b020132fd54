import RobotFactory.Data

/-!
# The commit log

`CommitLog` of the server: two batching writers over one append-mode file and
their readers. Two buffers stand between an entry and the disk, the batch vector
and the buffer of the C library. A crash keeps the bytes on the disk and any
prefix of the buffered ones, since the library may write its buffer early. The
checksum function of zlib is a parameter. Timing statistics are left out.
-/
namespace RobotFactory
open RecordStream

/-- The part of zlib that the commit log calls. -/
class Zlib where
  crc32 : List UInt8 → UInt32

/-- A file opened with mode "a+". Writes go to the end through `buffer`, reads
continue with `unread`, which starts with the whole file. -/
structure OutFile where
  disk : List UInt8
  buffer : List UInt8
  unread : List UInt8
  deriving DecidableEq, Repr

namespace OutFile

def fopen (contents : List UInt8) : OutFile := ⟨contents, [], contents⟩

/-- An append moves the read position to the end of the file. -/
def fwrite (f : OutFile) (bytes : List UInt8) : OutFile :=
  { f with buffer := f.buffer ++ bytes, unread := [] }

def fflush (f : OutFile) : OutFile := { f with disk := f.disk ++ f.buffer, buffer := [] }

/-- The bytes found in the file after a crash that let `keep` of the buffered
bytes reach the disk. -/
def crashImage (f : OutFile) (keep : ℕ) : List UInt8 := f.disk ++ f.buffer.take keep

/-- Everything given to the file, on the disk or not. -/
def contents (f : OutFile) : List UInt8 := f.disk ++ f.buffer

@[simp] theorem contents_fopen (bytes : List UInt8) : (fopen bytes).contents = bytes := by
  simp [fopen, contents]

@[simp] theorem contents_fwrite (f : OutFile) (bytes : List UInt8) :
    (f.fwrite bytes).contents = f.contents ++ bytes := by
  simp [fwrite, contents]

@[simp] theorem contents_fflush (f : OutFile) : f.fflush.contents = f.contents := by
  simp [fflush, contents]

@[simp] theorem disk_fflush (f : OutFile) : f.fflush.disk = f.contents := rfl

@[simp] theorem disk_fwrite (f : OutFile) (bytes : List UInt8) :
    (f.fwrite bytes).disk = f.disk := rfl

theorem disk_fflush_fwrite {f : OutFile} (h : f.buffer = []) (bytes : List UInt8) :
    (f.fwrite bytes).fflush.disk = f.disk ++ bytes := by
  rw [disk_fflush, contents_fwrite, contents, h, List.append_nil]

theorem disk_prefix_contents (f : OutFile) : f.disk <+: f.contents := List.prefix_append _ _

end OutFile

/-- The log object. `uninit k` is what the uninitialised `index` member of the
`k`-th record constructed from now on holds. -/
structure CommitLog where
  outfile : OutFile
  fFlush : Int32
  batchSize : ℕ
  commitLogBatch : List MapOp
  commitLogWCrcBatch : List WalSmrEntry
  uninit : ℕ → Int32

/-- `int size_of_batch = sizeof(T) * batch.size()`: the product is truncated to a
signed 32-bit integer. -/
def sizeOfBatch (recordSize count : ℕ) : ℤ := Int.bmod (recordSize * count : ℕ) (2 ^ 32)

/-- Common body of `writelog` and `writelogwithcrc`: push the record, and write
out the batch once it is full. With `flush` off this is also the state between
the `fwrite` and the `fflush` of a call. -/
def writeRecord {α : Type*} (codec : Codec UInt8 α) (batchSize : ℕ) (flush : Bool)
    (batch : List α) (outfile : OutFile) (record : α) : Except Fault (List α × OutFile) :=
  let batch := batch ++ [record]
  if batchSize ≤ batch.length then
    let size := sizeOfBatch codec.size batch.length
    if size < 0 then .error .badArrayLength
    else
      let out := outfile.fwrite ((codec.encodeAll batch).take size.toNat)
      .ok ([], if flush then out.fflush else out)
  else .ok (batch, outfile)

theorem sizeOfBatch_of_lt {recordSize count : ℕ} (h : recordSize * count < 2 ^ 31) :
    sizeOfBatch recordSize count = recordSize * count := by
  unfold sizeOfBatch
  rw [Int.bmod_eq_of_le] <;> omega

theorem sizeOfBatch_lt_of_le {recordSize count : ℕ} (h : 2 ^ 31 ≤ recordSize * count) :
    sizeOfBatch recordSize count < (recordSize * count : ℕ) := by
  have hlt := @Int.bmod_lt (recordSize * count : ℕ) (2 ^ 32) (by decide)
  unfold sizeOfBatch
  omega

theorem writeRecord_of_lt {α : Type*} {codec : Codec UInt8 α} {batchSize : ℕ} {flush : Bool}
    {batch : List α} {outfile : OutFile} {record : α} (h : batch.length + 1 < batchSize) :
    writeRecord codec batchSize flush batch outfile record = .ok (batch ++ [record], outfile) := by
  simp only [writeRecord, List.length_append, List.length_singleton]
  rw [if_neg (by omega)]

/-- A full batch is written as it is, as long as its size in bytes fits an `int`. -/
theorem writeRecord_of_full {α : Type*} {codec : Codec UInt8 α} {batchSize : ℕ} {flush : Bool}
    {batch : List α} {outfile : OutFile} {record : α} (h : batch.length + 1 = batchSize)
    (hfit : codec.size * batchSize < 2 ^ 31) :
    writeRecord codec batchSize flush batch outfile record =
      .ok ([], if flush then (outfile.fwrite (codec.encodeAll (batch ++ [record]))).fflush
        else outfile.fwrite (codec.encodeAll (batch ++ [record]))) := by
  have hlen : (batch ++ [record]).length = batchSize := by simp [h]
  have hsize := sizeOfBatch_of_lt hfit
  have htake : (codec.encodeAll (batch ++ [record])).take (codec.size * batchSize) =
      codec.encodeAll (batch ++ [record]) :=
    List.take_of_length_le (by rw [Codec.length_encodeAll, hlen])
  simp only [writeRecord, hlen, hsize, le_refl, if_true]
  rw [if_neg (by omega), show ((codec.size : ℤ) * batchSize).toNat = codec.size * batchSize by
    rw [← Int.natCast_mul, Int.toNat_natCast], htake]

/-- Common loop of `Recover` and `Recoverwithcrc`: read records until one is
short or rejected, and insert each at the running index, an `int`. -/
def recoverLoop {α : Type*} (codec : Codec UInt8 α) (accept : α → Bool) (entry : α → MapOp)
    (smrLog : List MapOp) (i : ℤ) (bytes : List UInt8) :
    Except Fault (List MapOp × List UInt8) :=
  match _h : codec.next bytes with
  | none => .ok (smrLog, [])
  | some (record, rest) =>
    if accept record then
      match vectorInsert smrLog i (entry record) with
      | .error fault => .error fault
      | .ok smrLog =>
        if i + 1 < 2 ^ 31 then recoverLoop codec accept entry smrLog (i + 1) rest
        else .error .intOverflow
    else .ok (smrLog, rest)
termination_by bytes.length
decreasing_by have := Codec.length_of_next _h; have := codec.size_pos; omega

theorem recoverLoop_of_none {α : Type*} {codec : Codec UInt8 α} (accept : α → Bool)
    (entry : α → MapOp) (smrLog : List MapOp) (i : ℤ) {bytes : List UInt8}
    (h : codec.next bytes = none) :
    recoverLoop codec accept entry smrLog i bytes = .ok (smrLog, []) := by
  rw [recoverLoop]
  split
  · rfl
  · simp_all

theorem recoverLoop_of_some {α : Type*} {codec : Codec UInt8 α} {accept : α → Bool}
    {entry : α → MapOp} {smrLog : List MapOp} {bytes rest : List UInt8} {record : α}
    (h : codec.next bytes = some (record, rest)) :
    recoverLoop codec accept entry smrLog smrLog.length bytes =
      if accept record then
        if (smrLog.length : ℤ) + 1 < 2 ^ 31 then
          recoverLoop codec accept entry (smrLog ++ [entry record]) (smrLog.length + 1) rest
        else .error .intOverflow
      else .ok (smrLog, rest) := by
  have hend : vectorInsert smrLog smrLog.length (entry record) =
      .ok (smrLog ++ [entry record]) := by
    rw [vectorInsert_of_le _ (by omega) le_rfl, Int.toNat_natCast, List.insertIdx_length_self]
  rw [recoverLoop]
  split
  · simp_all
  · rename_i record' rest' hnext
    rw [h] at hnext
    obtain ⟨rfl, rfl⟩ := Prod.mk.inj (Option.some.inj hnext)
    simp only [hend]

/-- The loop of the readers returns the records that `readWhile` finds, unless
there are too many for the running index. -/
theorem recoverLoop_map_fst {α : Type*} (codec : Codec UInt8 α) (accept : α → Bool)
    (entry : α → MapOp) (bytes : List UInt8) (smrLog : List MapOp) (hlen : smrLog.length < 2 ^ 31) :
    (recoverLoop codec accept entry smrLog smrLog.length bytes).map Prod.fst =
      if smrLog.length + (codec.readWhile accept bytes).length < 2 ^ 31 then
        .ok (smrLog ++ (codec.readWhile accept bytes).map entry)
      else .error .intOverflow := by
  induction bytes using Codec.readWhile.induct codec accept generalizing smrLog with
  | case1 bytes hnext =>
    rw [recoverLoop_of_none _ _ _ _ hnext, Codec.readWhile_of_none hnext,
      if_pos (by simpa using hlen)]
    simp [Except.map]
  | case2 bytes record rest hnext haccept ih =>
    rw [recoverLoop_of_some hnext, Codec.readWhile_of_some hnext, if_pos haccept, if_pos haccept]
    by_cases hroom : smrLog.length + 1 < 2 ^ 31
    · have hmore := ih (smrLog ++ [entry record]) (by simpa using hroom)
      rw [if_pos (by omega)]
      simp only [List.length_append, List.length_singleton, Nat.cast_add, Nat.cast_one,
        List.append_assoc, List.singleton_append] at hmore
      simp only [hmore, List.length_cons, List.map_cons, Nat.add_assoc, Nat.add_comm 1]
    · rw [if_neg (by omega), if_neg (by simp; omega)]
      rfl
  | case3 bytes record rest hnext haccept =>
    rw [recoverLoop_of_some hnext, Codec.readWhile_of_some hnext, if_neg haccept, if_neg haccept,
      if_pos (by simpa using hlen)]
    simp [Except.map]

theorem recoverLoop_eq_ok_iff {α : Type*} {codec : Codec UInt8 α} {accept : α → Bool}
    {entry : α → MapOp} {bytes : List UInt8} {log : List MapOp} :
    (∃ unread, recoverLoop codec accept entry [] 0 bytes = .ok (log, unread)) ↔
      log = (codec.readWhile accept bytes).map entry ∧ log.length < 2 ^ 31 := by
  have hfst := recoverLoop_map_fst codec accept entry bytes [] (by simp)
  simp only [List.length_nil, Nat.cast_zero, Nat.zero_add, List.nil_append] at hfst
  cases hloop : recoverLoop codec accept entry [] 0 bytes with
  | error fault =>
    rw [hloop] at hfst
    split_ifs at hfst with hroom
    · cases hfst
    · simp only [reduceCtorEq, exists_false, false_iff, not_and]
      rintro rfl
      rwa [List.length_map]
  | ok result =>
    rw [hloop] at hfst
    obtain ⟨found, unread⟩ := result
    split_ifs at hfst with hroom
    · obtain rfl : found = _ := Except.ok.inj hfst
      constructor
      · rintro ⟨_, hlog⟩
        obtain ⟨rfl, -⟩ := Prod.mk.inj (Except.ok.inj hlog)
        exact ⟨rfl, by rwa [List.length_map]⟩
      · rintro ⟨rfl, -⟩
        exact ⟨unread, rfl⟩
    · cases hfst

namespace CommitLog

/-- `CommitLog()`: nothing is pending; the other members are set by `Init`. -/
def new (uninit : ℕ → Int32) : CommitLog :=
  ⟨OutFile.fopen [], 0, 1, [], [], uninit⟩

/-- `Init`: open the file and set the batch size, at least one. -/
def init (c : CommitLog) (file : List UInt8) (isFFlush : Int32) (batch : UInt32) : CommitLog :=
  { c with
    outfile := OutFile.fopen file
    fFlush := isFFlush
    batchSize := if 1 < batch.toNat then batch.toNat else 1 }

def flushes (c : CommitLog) : Bool := c.fFlush ≠ 0 ∨ 1 < c.batchSize

def sync (c : CommitLog) : CommitLog := { c with outfile := c.outfile.fflush }

def writelog (c : CommitLog) (logEntry : MapOp) : Except Fault CommitLog := do
  let (batch, out) ←
    writeRecord mapOpCodec c.batchSize c.flushes c.commitLogBatch c.outfile logEntry
  return { c with commitLogBatch := batch, outfile := out }

/-- `ConstructLog`; it leaves the member `index` as it finds it. -/
def constructLog [Zlib] (index : Int32) (logEntry : MapOp) : WalSmrEntry :=
  ⟨index, UInt32.ofNat mapOpCodec.size, logEntry, Zlib.crc32 (mapOpCodec.encode logEntry)⟩

/-- `writelogwithcrc`, flushing a full batch if `flush` is set. -/
def writeCrcRecord [Zlib] (c : CommitLog) (flush : Bool) (logEntry : MapOp) :
    Except Fault CommitLog := do
  let (batch, out) ← writeRecord walSmrEntryCodec c.batchSize flush c.commitLogWCrcBatch c.outfile
    (constructLog (c.uninit 0) logEntry)
  return { c with commitLogWCrcBatch := batch, outfile := out, uninit := fun k => c.uninit (k + 1) }

def writelogwithcrc [Zlib] (c : CommitLog) (logEntry : MapOp) : Except Fault CommitLog :=
  c.writeCrcRecord c.flushes logEntry

/-- The log inside `writelogwithcrc`, after the `fwrite` of a full batch and
before its `fflush`. -/
def insideWritelogwithcrc [Zlib] (c : CommitLog) (logEntry : MapOp) : Except Fault CommitLog :=
  c.writeCrcRecord false logEntry

/-- The pending batch is not full, and a full one fits an `int`. -/
structure Ready (c : CommitLog) : Prop where
  pending_lt : c.commitLogWCrcBatch.length < c.batchSize
  fits : walSmrEntryCodec.size * c.batchSize < 2 ^ 31

theorem Ready.sync {c : CommitLog} (h : c.Ready) : c.sync.Ready := ⟨h.pending_lt, h.fits⟩

theorem Ready.write [Zlib] {c : CommitLog} (h : c.Ready) (flush : Bool) (logEntry : MapOp) :
    ∃ c', c.writeCrcRecord flush logEntry = .ok c' ∧ c'.Ready := by
  have hlt := h.pending_lt
  by_cases hfull : c.commitLogWCrcBatch.length + 1 = c.batchSize
  · rw [writeCrcRecord, writeRecord_of_full hfull h.fits]
    exact ⟨_, rfl, by simp only [List.length_nil]; omega, h.fits⟩
  · rw [writeCrcRecord, writeRecord_of_lt (by omega)]
    exact ⟨_, rfl, by simp only [List.length_append, List.length_singleton]; omega, h.fits⟩

def recover (c : CommitLog) (smrLog : List MapOp) : Except Fault (List MapOp × CommitLog) := do
  let (smrLog, unread) ←
    recoverLoop mapOpCodec (fun _ => true) id smrLog 0 c.outfile.unread
  return (smrLog, { c with outfile := { c.outfile with unread := unread } })

def checksumMatches [Zlib] (e : WalSmrEntry) : Bool :=
  e.cksum = Zlib.crc32 (mapOpCodec.encode e.data)

theorem checksumMatches_constructLog [Zlib] (index : Int32) (e : MapOp) :
    checksumMatches (constructLog index e) = true := by
  simp [checksumMatches, constructLog]

def recoverwithcrc [Zlib] (c : CommitLog) (smrLog : List MapOp) :
    Except Fault (List MapOp × CommitLog) := do
  let (smrLog, unread) ←
    recoverLoop walSmrEntryCodec checksumMatches WalSmrEntry.data smrLog 0 c.outfile.unread
  return (smrLog, { c with outfile := { c.outfile with unread := unread } })

/-- The entries of a log file: those of the records in front of the first one that
is short or does not match its checksum. -/
def entriesOf [Zlib] (file : List UInt8) : List MapOp :=
  (walSmrEntryCodec.readWhile checksumMatches file).map WalSmrEntry.data

theorem entriesOf_encodeAll [Zlib] {records : List WalSmrEntry}
    (h : ∀ r ∈ records, checksumMatches r = true) :
    entriesOf (walSmrEntryCodec.encodeAll records) = records.map WalSmrEntry.data := by
  rw [entriesOf, Codec.readWhile_encodeAll _ _ _ h]

theorem entriesOf_nil [Zlib] : entriesOf [] = [] :=
  entriesOf_encodeAll (show ∀ r ∈ ([] : List WalSmrEntry), checksumMatches r = true by simp)

/-- The file that holds one record for each entry. -/
def fileOf [Zlib] (entries : List MapOp) : List UInt8 :=
  walSmrEntryCodec.encodeAll (entries.map (constructLog 0))

@[simp] theorem entriesOf_fileOf [Zlib] (entries : List MapOp) :
    entriesOf (fileOf entries) = entries := by
  have hsum : ∀ r ∈ entries.map (constructLog 0), checksumMatches r = true := by
    intro r hr
    obtain ⟨e, -, rfl⟩ := List.mem_map.mp hr
    exact checksumMatches_constructLog 0 e
  rw [fileOf, entriesOf_encodeAll hsum, List.map_map,
    show WalSmrEntry.data ∘ constructLog 0 = id from rfl, List.map_id]

/-- Records behind a file that is read to its end are read as well. -/
theorem entriesOf_append [Zlib] {file : List UInt8} {records : List WalSmrEntry}
    (hfile : walSmrEntryCodec.size * (entriesOf file).length = file.length)
    (hrecords : ∀ r ∈ records, checksumMatches r = true) :
    entriesOf (file ++ walSmrEntryCodec.encodeAll records) =
      entriesOf file ++ records.map WalSmrEntry.data := by
  rw [entriesOf, List.length_map] at hfile
  rw [entriesOf, Codec.readWhile_append _ _ hfile, Codec.readWhile_encodeAll _ _ _ hrecords,
    List.map_append]
  rfl

end CommitLog

end RobotFactory
