import RobotFactory.LogRoundTrip
import RobotFactory.TransitionSystem

/-!
# One log file over many crashes

Each session opens the file, recovers what it holds, writes and ends in a crash.
Nothing removes the torn record that a crash may leave, and the file is opened to
append: a batch that is written behind a torn record cannot be read. As long as
batches are only written behind whole records, each session adds a prefix of its
entries to what is recovered, with all batches that have reached the file.
-/
namespace RobotFactory
open RecordStream Batching TransitionSystem

/-- A session: the arguments of `Init`, the entries whose `writelogwithcrc` has
returned, the entry of a call that the crash interrupts behind its `fwrite`, and
how many of the buffered bytes reach the disk. -/
structure Session where
  isFFlush : Int32
  batch : UInt32
  uninit : ℕ → Int32
  entries : List MapOp
  interrupted : Option MapOp
  keep : ℕ

namespace Session

def passed (ses : Session) : List MapOp := ses.entries ++ ses.interrupted.toList

def batchSize (ses : Session) : ℕ := max 1 ses.batch.toNat

def opened [Zlib] (ses : Session) (file : List UInt8) : Except Fault CommitLog := do
  let (_, log) ← ((CommitLog.new ses.uninit).init file ses.isFFlush ses.batch).recoverwithcrc []
  return log

def atCrash [Zlib] (ses : Session) (file : List UInt8) : Except Fault CommitLog := do
  let log ← ses.opened file
  let log ← ses.entries.foldlM CommitLog.writelogwithcrc log
  match ses.interrupted with
  | none => .ok log
  | some logEntry => log.insideWritelogwithcrc logEntry

end Session

def sessionStep [Zlib] (file : List UInt8) (ses : Session) : Option (List UInt8) :=
  match ses.atCrash file with
  | .error _ => none
  | .ok log => some (log.outfile.crashImage ses.keep)

/-- No byte of a batch reaches the disk: none is filled, or none that is filled is
flushed before the crash, which loses the buffer. -/
def Session.WritesNothing (ses : Session) : Prop :=
  ses.passed.length < ses.batchSize ∨
    ses.keep = 0 ∧ (ses.entries.length < ses.batchSize ∨ ¬(ses.isFFlush ≠ 0 ∨ 1 < ses.batchSize))

/-- The session fills no batch or its batches fit an `int`; it writes none or starts
behind whole records; and the records can be counted. -/
structure Appending (file : List UInt8) (ses : Session) : Prop where
  fits : ses.passed.length < ses.batchSize ∨ 24 * ses.batchSize < 2 ^ 31
  behind : ses.WritesNothing ∨ 24 ∣ file.length
  few : file.length / 24 + ses.passed.length < 2 ^ 31

/-- Matching records, and fewer bytes than a record has behind them. -/
structure WholeRecords [Zlib] (file : List UInt8) (records : List WalSmrEntry) (torn : List UInt8) :
    Prop where
  file_eq : file = walSmrEntryCodec.encodeAll records ++ torn
  torn_lt : torn.length < 24
  matching : ∀ r ∈ records, CommitLog.checksumMatches r = true

namespace WholeRecords

theorem length_eq [Zlib] {file torn : List UInt8} {records : List WalSmrEntry}
    (h : WholeRecords file records torn) : file.length = 24 * records.length + torn.length := by
  rw [h.file_eq, List.length_append, Codec.length_encodeAll, walSmrEntryCodec_size]

theorem recovers [Zlib] {file torn : List UInt8} {records : List WalSmrEntry}
    (h : WholeRecords file records torn) (hfew : records.length < 2 ^ 31) :
    Recovers file (records.map WalSmrEntry.data) := by
  rw [recovers_iff, h.file_eq, Codec.readWhile_encodeAll_torn _ _ _ h.matching h.torn_lt,
    List.length_map]
  exact ⟨rfl, hfew⟩

theorem torn_eq_nil [Zlib] {file torn : List UInt8} {records : List WalSmrEntry}
    (h : WholeRecords file records torn) (hdvd : 24 ∣ file.length) : torn = [] := by
  have hlen := h.length_eq
  have hlt := h.torn_lt
  exact List.length_eq_zero_iff.mp (by omega)

theorem append [Zlib] {file : List UInt8} {records more : List WalSmrEntry}
    (h : WholeRecords file records []) (hmore : ∀ r ∈ more, CommitLog.checksumMatches r = true)
    (m : ℕ) : ∃ torn, WholeRecords (file ++ (walSmrEntryCodec.encodeAll more).take m)
      (records ++ more.take (m / 24)) torn := by
  obtain ⟨torn, htorn, heq⟩ := Codec.take_encodeAll_torn walSmrEntryCodec more m
  refine ⟨torn, ?_, htorn, fun r hr => ?_⟩
  · rw [heq, h.file_eq, List.append_nil, Codec.encodeAll_append, List.append_assoc,
      walSmrEntryCodec_size]
  · rcases List.mem_append.mp hr with hr | hr
    · exact h.matching r hr
    · exact hmore r (List.mem_of_mem_take hr)

end WholeRecords

theorem buffer_of_writeRecord {α : Type*} {codec : Codec UInt8 α} {b : ℕ} {batch batch' : List α}
    {out out' : OutFile} {record : α} (hout : out.buffer = [])
    (h : writeRecord codec b true batch out record = .ok (batch', out')) : out'.buffer = [] := by
  unfold writeRecord at h
  simp only [if_true] at h
  split_ifs at h <;> cases h
  · rfl
  · exact hout

theorem disk_of_writeRecord {α : Type*} {codec : Codec UInt8 α} {b : ℕ} {batch batch' : List α}
    {out out' : OutFile} {record : α}
    (h : writeRecord codec b false batch out record = .ok (batch', out')) :
    out'.disk = out.disk := by
  unfold writeRecord at h
  simp only [Bool.false_eq_true, if_false] at h
  split_ifs at h <;> cases h <;> rfl

theorem disk_of_insideWritelogwithcrc [Zlib] {log log' : CommitLog} {e : MapOp}
    (h : log.insideWritelogwithcrc e = .ok log') : log'.outfile.disk = log.outfile.disk := by
  obtain ⟨⟨batch, out⟩, hrecord, hlog⟩ := bind_eq_ok.mp h
  cases hlog
  exact disk_of_writeRecord hrecord

structure InSession [Zlib] (ses : Session) (file : List UInt8) (entries : List MapOp)
    (log : CommitLog) : Prop where
  logs : log.LogsWithCrc ses.batchSize file entries
  flushes_eq : log.flushes = decide (ses.isFFlush ≠ 0 ∨ 1 < ses.batchSize)
  buffer_eq : log.flushes = true → log.outfile.buffer = []
  disk_eq : log.flushes = false → log.outfile.disk = file

namespace InSession

theorem opened [Zlib] {ses : Session} {file : List UInt8} {log : CommitLog}
    (h : ses.opened file = .ok log) : InSession ses file [] log := by
  obtain ⟨⟨found, c⟩, hrecover, hlog⟩ := bind_eq_ok.mp h
  obtain ⟨⟨found, unread⟩, -, hc⟩ := bind_eq_ok.mp hrecover
  cases hc
  cases hlog
  have hinit := CommitLog.LogsWithCrc.init ses.uninit file ses.isFFlush ses.batch
  refine ⟨hinit.congr (by rfl) List.prefix_rfl, ?_, fun _ => rfl, fun _ => rfl⟩
  simp only [CommitLog.flushes, CommitLog.init_batchSize, Session.batchSize]
  rfl

theorem write [Zlib] {ses : Session} {file : List UInt8} {entries : List MapOp}
    {log log' : CommitLog} {e : MapOp} (h : InSession ses file entries log)
    (hw : log.writelogwithcrc e = .ok log') :
    InSession ses file (entries ++ [e]) log' := by
  have hlogs := h.logs.write hw
  obtain ⟨⟨batch, out⟩, hrecord, hlog⟩ := bind_eq_ok.mp hw
  cases hlog
  refine ⟨hlogs, h.flushes_eq, fun hflush => ?_, fun hflush => ?_⟩
  · have hflush : log.flushes = true := hflush
    rw [hflush] at hrecord
    exact buffer_of_writeRecord (h.buffer_eq hflush) hrecord
  · have hflush : log.flushes = false := hflush
    rw [hflush] at hrecord
    exact (disk_of_writeRecord hrecord).trans (h.disk_eq hflush)

end InSession

theorem Session.opened_total [Zlib] (ses : Session) {file : List UInt8} {log : List MapOp}
    (h : Recovers file log) : ∃ c, ses.opened file = .ok c := by
  obtain ⟨c, hc⟩ := h (CommitLog.new ses.uninit) ses.isFFlush ses.batch
  exact ⟨c, by rw [Session.opened, hc]; rfl⟩

/-- A session that meets the condition does not fault. The log object at its end
has been passed all entries, and on the disk is what was there after the last
complete call. -/
theorem atCrash_total [Zlib] {ses : Session} {file : List UInt8} {old : List MapOp}
    (hold : Recovers file old)
    (hcond : ses.passed.length < ses.batchSize ∨ 24 * ses.batchSize < 2 ^ 31) :
    ∃ before log, InSession ses file ses.entries before ∧ ses.atCrash file = .ok log ∧
      log.LogsWithCrc ses.batchSize file ses.passed ∧
      log.outfile.disk = before.outfile.disk := by
  have hpassed : ses.passed.length = ses.entries.length + ses.interrupted.toList.length := by
    simp [Session.passed]
  obtain ⟨c, hc⟩ := ses.opened_total hold
  have hopened := InSession.opened hc
  obtain ⟨before, hbefore⟩ := foldlM_total CommitLog.writelogwithcrc (InSession ses file)
    (fun _ _ _ _ hinv hw => hinv.write hw) ses.entries hopened
    fun es e log hinv hlt => hinv.logs.total log.flushes e <| hcond.imp_left fun hlt' => by
      rw [List.length_nil, Nat.zero_add] at hlt
      omega
  have hsession := foldlM_invariant (InSession ses file)
    (fun _ _ _ _ hinv hw => hinv.write hw) hopened hbefore
  rw [List.nil_append] at hsession
  simp only [Session.atCrash, hc, ok_bind, hbefore]
  cases hinter : ses.interrupted with
  | none =>
    have hall : ses.passed = ses.entries := by simp [Session.passed, hinter]
    exact ⟨before, before, hsession, rfl, hall ▸ hsession.logs, rfl⟩
  | some e =>
    have hall : ses.passed = ses.entries ++ [e] := by simp [Session.passed, hinter]
    rw [hall, List.length_append, List.length_singleton] at hcond
    obtain ⟨log, hlog⟩ := hsession.logs.total false e hcond
    exact ⟨before, log, hsession, hlog, hall ▸ hsession.logs.write hlog,
      disk_of_insideWritelogwithcrc hlog⟩

/-- A session that writes nothing leaves the file as it was. -/
theorem crashImage_of_writesNothing [Zlib] {ses : Session} {file : List UInt8}
    {before log : CommitLog} (hbefore : InSession ses file ses.entries before)
    (hlogs : log.LogsWithCrc ses.batchSize file ses.passed)
    (hdisk : log.outfile.disk = before.outfile.disk) (h : ses.WritesNothing) :
    log.outfile.crashImage ses.keep = file := by
  rcases h with hlt | ⟨hkeep, hlt | hflush⟩
  · obtain ⟨passed, flushed, -, hlogged, hdata, -⟩ := hlogs
    rw [← hdata, List.length_map] at hlt
    obtain ⟨m, himage, -⟩ := hlogged.crashImage (.inl hlt) ses.keep
    rw [himage, hlogged.batched.flushed_eq, Nat.div_eq_of_lt hlt, Nat.zero_mul, List.take_zero]
    simp
  · obtain ⟨passed, flushed, -, hlogged, hdata, -⟩ := hbefore.logs
    rw [← hdata, List.length_map] at hlt
    have hcontents := hlogged.contents_of (.inl hlt)
    rw [hlogged.batched.flushed_eq, Nat.div_eq_of_lt hlt, Nat.zero_mul, List.take_zero,
      Codec.encodeAll_nil, List.append_nil] at hcontents
    have hle := (OutFile.disk_prefix_contents before.outfile).length_le
    rw [hcontents] at hle
    rw [OutFile.crashImage, hkeep, List.take_zero, List.append_nil, hdisk]
    exact (hlogged.base_prefix.eq_of_length_le hle).symm
  · rw [OutFile.crashImage, hkeep, List.take_zero, List.append_nil, hdisk]
    exact hbefore.disk_eq (hbefore.flushes_eq.trans (decide_eq_false hflush))

/-- What a session adds to the records in the file. -/
structure Added (ses : Session) (file file' : List UInt8) (added : List WalSmrEntry) : Prop where
  data_prefix : added.map WalSmrEntry.data <+: ses.passed
  in_file : ∀ j, 24 * (j * ses.batchSize) ≤ file'.length - file.length →
    j * ses.batchSize ≤ added.length
  returned : ses.isFFlush ≠ 0 ∨ 1 < ses.batchSize →
    ses.entries.length / ses.batchSize * ses.batchSize ≤ added.length

/-- What a crash leaves of the records `flushed`, of which `m` bytes are in the file. -/
theorem added_take {ses : Session} (file : List UInt8) {flushed : List WalSmrEntry} {m : ℕ}
    (hdata : flushed.map WalSmrEntry.data <+: ses.passed)
    (hreturned : ses.isFFlush ≠ 0 ∨ 1 < ses.batchSize →
      ses.entries.length / ses.batchSize * ses.batchSize ≤ flushed.length ∧
      24 * (ses.entries.length / ses.batchSize * ses.batchSize) ≤ m) :
    Added ses file (file ++ (walSmrEntryCodec.encodeAll flushed).take m)
      (flushed.take (m / 24)) := by
  refine ⟨?_, fun j hj => ?_, fun hflush => ?_⟩
  · rw [List.map_take]
    exact (List.take_prefix _ _).trans hdata
  · rw [List.length_append, List.length_take, Codec.length_encodeAll, walSmrEntryCodec_size] at hj
    rw [List.length_take]
    omega
  · obtain ⟨hlen, hm⟩ := hreturned hflush
    rw [List.length_take]
    omega

theorem added_nothing {ses : Session} (file : List UInt8) (h : ses.WritesNothing) :
    Added ses file file [] where
  data_prefix := List.nil_prefix
  in_file j hj := by
    rw [Nat.sub_self] at hj
    rw [List.length_nil]
    omega
  returned hflush := by
    have hpassed : ses.entries.length ≤ ses.passed.length := by simp [Session.passed]
    have hlt : ses.entries.length < ses.batchSize := by
      rcases h with hlt | ⟨-, hlt | hnone⟩
      · omega
      · exact hlt
      · exact absurd hflush hnone
    rw [Nat.div_eq_of_lt hlt, Nat.zero_mul]
    exact Nat.zero_le _

/-- A session that writes nothing or starts behind whole records keeps the records of
the file and adds some of its own. -/
theorem session_adds [Zlib] {ses : Session} {file torn : List UInt8} {records : List WalSmrEntry}
    (h : WholeRecords file records torn) (hok : Appending file ses) :
    ∃ file' added torn', sessionStep file ses = some file' ∧
      WholeRecords file' (records ++ added) torn' ∧ Added ses file file' added := by
  have hlen := h.length_eq
  obtain ⟨hcond, hbehind, hcount⟩ := hok
  obtain ⟨before, log, hbefore, hlog, hlogs, hdisk⟩ :=
    atCrash_total (h.recovers (by omega)) hcond
  rcases hbehind with hnone | hdvd
  · refine ⟨file, [], torn, ?_, by rwa [List.append_nil], added_nothing file hnone⟩
    simp only [sessionStep, hlog, crashImage_of_writesNothing hbefore hlogs hdisk hnone]
  obtain ⟨passed, flushed, -, hlogged, hdata, hsum⟩ := hlogs
  have hpassed : passed.length = ses.passed.length := by rw [← hdata, List.length_map]
  obtain ⟨m, himage, hm⟩ := hlogged.crashImage (hpassed ▸ hcond) ses.keep
  have hflushed : flushed <+: passed := hlogged.batched.split ▸ List.prefix_append _ _
  have hsum' : ∀ r ∈ flushed, CommitLog.checksumMatches r = true :=
    fun r hr => hsum r (hflushed.subset hr)
  have hreturned : ses.isFFlush ≠ 0 ∨ 1 < ses.batchSize →
      ses.entries.length / ses.batchSize * ses.batchSize ≤ flushed.length ∧
      24 * (ses.entries.length / ses.batchSize * ses.batchSize) ≤ m := by
    intro hflush
    have hall := hbefore.buffer_eq (hbefore.flushes_eq.trans (decide_eq_true hflush))
    obtain ⟨passed₀, flushed₀, -, hlogged₀, hdata₀, -⟩ := hbefore.logs
    have hpassed₀ : passed₀.length = ses.entries.length := by rw [← hdata₀, List.length_map]
    have hentries : ses.entries.length ≤ ses.passed.length := by simp [Session.passed]
    have hcontents := hlogged₀.contents_of (hcond.imp_left fun hlt => by omega)
    rw [OutFile.contents, hall, List.append_nil] at hcontents
    have hle := hm
    rw [hdisk, hcontents, List.length_append, Codec.length_encodeAll,
      hlogged₀.batched.length_flushed, hpassed₀, walSmrEntryCodec_size] at hle
    refine ⟨?_, by omega⟩
    rw [hlogged.batched.length_flushed, hpassed]
    exact Nat.mul_le_mul_right _ (Nat.div_le_div_right hentries)
  have hadded := added_take file (hdata ▸ hflushed.map WalSmrEntry.data) hreturned
  have hstep : sessionStep file ses =
      some (file ++ (walSmrEntryCodec.encodeAll flushed).take m) := by
    simp only [sessionStep, hlog, himage]
  rw [h.torn_eq_nil hdvd] at h
  obtain ⟨torn', hwhole⟩ := h.append hsum' m
  exact ⟨_, _, torn', hstep, hwhole, hadded⟩

theorem wholeRecords_run [Zlib] {file : List UInt8} (hrun : Run sessionStep Appending [] file) :
    ∃ records torn, WholeRecords file records torn := by
  refine hrun.invariant (fun file => ∃ records torn, WholeRecords file records torn) ?_
    ⟨[], [], rfl, by decide, by simp⟩
  rintro file ses file' ⟨records, torn, h⟩ hok hstep
  obtain ⟨image, added, torn', hstep', hwhole, -⟩ := session_adds h hok
  rw [hstep, Option.some.injEq] at hstep'
  exact ⟨records ++ added, torn', hstep' ▸ hwhole⟩

/-- The log stays recoverable through crashes as long as no batch is written behind
a torn record: the next session recovers what this one has, followed by a prefix of
the entries of this one with every batch that is completely in the file. -/
theorem sessions_recover [Zlib] {file : List UInt8} {ses : Session}
    (hrun : Run sessionStep Appending [] file) (hok : Appending file ses) :
    ∃ file' old added, sessionStep file ses = some file' ∧ Recovers file old ∧
      Recovers file' (old ++ added) ∧ added <+: ses.passed ∧
      (∀ j, 24 * (j * ses.batchSize) ≤ file'.length - file.length →
        j * ses.batchSize ≤ added.length) ∧
      (ses.isFFlush ≠ 0 ∨ 1 < ses.batchSize →
        ses.entries.length / ses.batchSize * ses.batchSize ≤ added.length) := by
  obtain ⟨records, torn, hwhole⟩ := wholeRecords_run hrun
  obtain ⟨file', added, torn', hstep, hwhole', hadded⟩ := session_adds hwhole hok
  have hlen := hwhole.length_eq
  have hcount := hok.few
  have hle := hadded.data_prefix.length_le
  have hrecovers := hwhole'.recovers (by
    rw [List.length_append]
    rw [List.length_map] at hle
    omega)
  rw [List.map_append] at hrecovers
  refine ⟨file', _, _, hstep, hwhole.recovers (by omega), hrecovers, hadded.data_prefix, ?_, ?_⟩
  · simpa using hadded.in_file
  · simpa using hadded.returned

theorem Session.opened_of_short [Zlib] (ses : Session) {file : List UInt8} (h : file.length < 24) :
    ses.opened file = .ok { (CommitLog.new ses.uninit).init file ses.isFFlush ses.batch with
      outfile := ⟨file, [], []⟩ } := by
  have hnext : walSmrEntryCodec.next file = none := (Codec.next_eq_none_iff _ _).mpr h
  have hloop := recoverLoop_of_none CommitLog.checksumMatches WalSmrEntry.data [] 0 hnext
  simp only [Session.opened, CommitLog.recoverwithcrc, CommitLog.init, OutFile.fopen, hloop,
    ok_bind]
  rfl

def pairSession : Session := ⟨0, 2, fun _ => 0, [⟨1, 7, 1⟩, ⟨1, 7, 2⟩], none, 0⟩

/-- A session that stops inside the batch of its two entries, behind 30 bytes. -/
def tornSession : Session := ⟨0, 2, fun _ => 0, [⟨1, 7, 3⟩], some ⟨1, 7, 4⟩, 30⟩

theorem sessions_recover_pair : ∃ (file file' : List UInt8) (old added : List MapOp),
    sessionStep [] pairSession = some file ∧ sessionStep file tornSession = some file' ∧
    Recovers file old ∧ Recovers file' (old ++ added) ∧ added <+: [⟨1, 7, 3⟩, ⟨1, 7, 4⟩] := by
  have hempty : ([] : List UInt8).length < 24 := by decide
  have hfirst : ∃ file, sessionStep [] pairSession = some file ∧ file.length = 48 := by
    simp only [sessionStep, Session.atCrash, pairSession.opened_of_short hempty, ok_bind]
    exact ⟨_, rfl, rfl⟩
  obtain ⟨file, hstep, hlen⟩ := hfirst
  have hok : Appending [] pairSession := ⟨.inr (by decide), .inr (by decide), by decide⟩
  have hok' : Appending file tornSession :=
    ⟨.inr (by decide), .inr (hlen ▸ by decide), hlen ▸ by decide⟩
  obtain ⟨file', old, added, hstep', hold, hrecovers, hfront, -⟩ :=
    sessions_recover (Run.start.next hok hstep) hok'
  exact ⟨file, file', old, added, hstep, hstep', hold, hrecovers, hfront⟩

/-- A crash inside the first batch leaves ten bytes. The batch that the next
session writes completely cannot be read behind them. -/
theorem batch_behind_torn_record : ∃ file file' : List UInt8,
    sessionStep [] ⟨1, 1, fun _ => 0, [], some ⟨1, 7, 1⟩, 10⟩ = some file ∧
    sessionStep file ⟨1, 1, fun _ => 0, [⟨1, 7, 2⟩], none, 0⟩ = some file' ∧
    file.length = 10 ∧ file'.length = file.length + 24 ∧ Recovers file [] ∧ Recovers file' [] ∧
    ¬∃ old added, Recovers file old ∧ Recovers file' (old ++ added) ∧ ⟨1, 7, 2⟩ ∈ added := by
  have hempty : ([] : List UInt8).length < 24 := by decide
  have htorn : ([0, 0, 0, 0, 12, 0, 0, 0, 1, 0] : List UInt8).length < 24 := by decide
  have hfirst : sessionStep [] ⟨1, 1, fun _ => 0, [], some ⟨1, 7, 1⟩, 10⟩ =
      some [0, 0, 0, 0, 12, 0, 0, 0, 1, 0] := by
    simp only [sessionStep, Session.atCrash, Session.opened_of_short _ hempty, ok_bind]
    rfl
  have hsecond : ∃ file', sessionStep [0, 0, 0, 0, 12, 0, 0, 0, 1, 0]
      ⟨1, 1, fun _ => 0, [⟨1, 7, 2⟩], none, 0⟩ = some file' ∧ file'.length = 34 ∧
      walSmrEntryCodec.readWhile CommitLog.checksumMatches file' = [] := by
    simp only [sessionStep, Session.atCrash, Session.opened_of_short _ htorn, ok_bind]
    refine ⟨_, rfl, rfl, ?_⟩
    rw [Codec.readWhile_of_some rfl, if_neg (by decide +kernel)]
  obtain ⟨file', hstep, hlen, hread⟩ := hsecond
  have hnothing : Recovers file' [] := by
    rw [recovers_iff, hread]
    decide
  refine ⟨_, file', hfirst, hstep, rfl, hlen, recovers_iff.mpr ⟨?_, by decide⟩, hnothing, ?_⟩
  · rw [Codec.readWhile_of_length_lt (by decide)]
    rfl
  · rintro ⟨old, added, -, hrecovers, hmem⟩
    have hnil := List.append_eq_nil_iff.mp (hrecovers.unique hnothing)
    rw [hnil.2] at hmem
    cases hmem

end RobotFactory
