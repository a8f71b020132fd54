import RobotFactory.LogRoundTrip
import RobotFactory.TransitionSystem

/-!
# What `sync` makes durable

A log on an empty file under any sequence of `writelogwithcrc` and `sync`, and a
crash at any moment. `sync` flushes the buffer of the C library and not the batch
vector, so it makes all entries durable exactly when the batch is empty.
-/
namespace RobotFactory
open RecordStream Batching TransitionSystem

/-- A log object and the entries passed to it. -/
structure Logging where
  log : CommitLog
  entries : List MapOp

inductive LogCall where
  | writelogwithcrc (logEntry : MapOp)
  | sync

def logStep [Zlib] (s : Logging) : LogCall → Option Logging
  | .writelogwithcrc logEntry =>
    match s.log.writelogwithcrc logEntry with
    | .error _ => none
    | .ok log => some ⟨log, s.entries ++ [logEntry]⟩
  | .sync => some ⟨s.log.sync, s.entries⟩

/-- The log has fewer than 2^31 entries, which the running index of the readers can count. -/
def Countable (s : Logging) : LogCall → Prop
  | .writelogwithcrc _ => s.entries.length + 1 < 2 ^ 31
  | .sync => True

def Logging.onEmptyFile (uninit : ℕ → Int32) (isFFlush : Int32) (batch : UInt32) : Logging :=
  ⟨(CommitLog.new uninit).init [] isFFlush batch, []⟩

/-- The file after a crash: between two calls, or inside `writelogwithcrc` after
its `fwrite`; any part of the buffered bytes may be on the disk. -/
inductive CrashImage [Zlib] (s : Logging) : List UInt8 → Prop where
  | between (keep : ℕ) : CrashImage s (s.log.outfile.crashImage keep)
  | inside (logEntry : MapOp) (log : CommitLog) (keep : ℕ)
      (hcount : Countable s (.writelogwithcrc logEntry))
      (hlog : s.log.insideWritelogwithcrc logEntry = .ok log) :
      CrashImage s (log.outfile.crashImage keep)

theorem logStep_cases [Zlib] {s s' : Logging} {call : LogCall} (h : logStep s call = some s') :
    (∃ e, call = .writelogwithcrc e ∧ s.log.writelogwithcrc e = .ok s'.log ∧
      s'.entries = s.entries ++ [e]) ∨
    (call = .sync ∧ s' = ⟨s.log.sync, s.entries⟩) := by
  cases call with
  | writelogwithcrc e =>
    unfold logStep at h
    simp only at h
    split at h
    · cases h
    · rename_i log hlog
      cases h
      exact .inl ⟨e, rfl, hlog, rfl⟩
  | sync =>
    cases h
    exact .inr ⟨rfl, rfl⟩

theorem logStep_logs [Zlib] {b : ℕ} {s s' : Logging} {call : LogCall}
    (h : s.log.LogsWithCrc b [] s.entries) (hstep : logStep s call = some s') :
    s'.log.LogsWithCrc b [] s'.entries ∧ s.log.outfile.disk <+: s'.log.outfile.disk := by
  obtain ⟨e, -, hlog, hentries⟩ | ⟨-, rfl⟩ := logStep_cases hstep
  · rw [hentries]
    exact ⟨h.write hlog, h.disk_prefix hlog⟩
  · exact ⟨h.sync, OutFile.disk_prefix_contents _⟩

theorem Countable.few [Zlib] {s s' : Logging} {call : LogCall} (hok : Countable s call)
    (hstep : logStep s call = some s') (h : s.entries.length < 2 ^ 31) :
    s'.entries.length < 2 ^ 31 := by
  obtain ⟨e, rfl, -, hentries⟩ | ⟨-, rfl⟩ := logStep_cases hstep
  · rw [hentries, List.length_append]
    exact hok
  · exact h

/-- The invariant of a run on an empty file with entries that the readers can count. -/
structure Logging.Logs [Zlib] (b : ℕ) (s : Logging) : Prop where
  logs : s.log.LogsWithCrc b [] s.entries
  few : s.entries.length < 2 ^ 31

namespace Logging.Logs

theorem step [Zlib] {b : ℕ} {s s' : Logging} {call : LogCall} (h : s.Logs b)
    (hok : Countable s call) (hstep : logStep s call = some s') :
    s'.Logs b ∧ s.log.outfile.disk <+: s'.log.outfile.disk := by
  obtain ⟨hlogs, hdisk⟩ := logStep_logs h.logs hstep
  exact ⟨⟨hlogs, hok.few hstep h.few⟩, hdisk⟩

theorem run [Zlib] {b : ℕ} {s s' : Logging} (h : s.Logs b) (hrun : Run logStep Countable s s') :
    s'.Logs b ∧ s.log.outfile.disk <+: s'.log.outfile.disk :=
  ⟨hrun.invariant (Logging.Logs b) (fun _ _ _ hinv hok hstep => (hinv.step hok hstep).1) h,
    hrun.related (Logging.Logs b) (fun s s' => s.log.outfile.disk <+: s'.log.outfile.disk)
      (fun _ => List.prefix_rfl) (fun _ _ _ => List.IsPrefix.trans)
      (fun _ _ _ hinv hok hstep => hinv.step hok hstep) h⟩

/-- A crash image begins with the bytes on the disk and is not longer than the
entries passed so far. -/
theorem crashImage [Zlib] {b : ℕ} {s : Logging} {image : List UInt8} (h : s.Logs b)
    (hcrash : CrashImage s image) :
    s.log.outfile.disk <+: image ∧ image.length < 24 * 2 ^ 31 := by
  have hsmall {c : CommitLog} {es : List MapOp} (hc : c.LogsWithCrc b [] es)
      (hfew : es.length < 2 ^ 31) (keep : ℕ) :
      (c.outfile.crashImage keep).length < 24 * 2 ^ 31 := by
    obtain ⟨records, flushed, -, hlogged, hdata, -⟩ := hc
    have hlen : flushed.length + c.commitLogWCrcBatch.length = es.length := by
      rw [← hdata, List.length_map, ← hlogged.batched.split, List.length_append]
    have himage := c.outfile.length_crashImage_le keep
    have hle := hlogged.length_le
    simp only [List.length_nil, Nat.zero_add, walSmrEntryCodec_size] at hle
    omega
  cases hcrash with
  | between keep => exact ⟨OutFile.disk_prefix_crashImage _ _, hsmall h.logs h.few keep⟩
  | inside e log keep hcount hlog =>
    exact ⟨(h.logs.disk_prefix hlog).trans (OutFile.disk_prefix_crashImage _ _),
      hsmall (h.logs.write hlog) (by simpa [Countable] using hcount) keep⟩

end Logging.Logs

/-- Every crash after the `sync` that follows `s` leaves a file from which all
entries passed before it are recovered, in order, as long as the entries passed
later are not too many for the readers. -/
def Durable [Zlib] (s : Logging) : Prop :=
  ∀ s' image, Run logStep Countable ⟨s.log.sync, s.entries⟩ s' → CrashImage s' image →
    ∃ log, Recovers image log ∧ s.entries <+: log

theorem recovers_of_length_lt [Zlib] {file : List UInt8} (h : file.length < 24 * 2 ^ 31) :
    ∃ log, Recovers file log := by
  refine ⟨_, recovers_iff.mpr ⟨rfl, ?_⟩⟩
  have hle := Codec.size_mul_length_readWhile_le walSmrEntryCodec CommitLog.checksumMatches file
  rw [walSmrEntryCodec_size] at hle
  rw [List.length_map]
  omega

/-- What the file holds as whole matching records is recovered, whatever follows. -/
theorem recovers_prefix [Zlib] {flushed : List WalSmrEntry} {file : List UInt8} {log : List MapOp}
    (hsum : ∀ r ∈ flushed, CommitLog.checksumMatches r = true)
    (hfile : walSmrEntryCodec.encodeAll flushed <+: file) (h : Recovers file log) :
    flushed.map WalSmrEntry.data <+: log := by
  obtain ⟨rest, rfl⟩ := hfile
  obtain ⟨rfl, -⟩ := recovers_iff.mp h
  rw [Codec.readWhile_encodeAll_append _ _ _ hsum, List.map_append]
  exact List.prefix_append _ _

theorem durable_of_dvd [Zlib] {b : ℕ} {s : Logging} (h : s.Logs b) (hdvd : b ∣ s.entries.length)
    (hfit : s.entries = [] ∨ 24 * b < 2 ^ 31) : Durable s := by
  intro s' image hrun hcrash
  have hsync : Logging.Logs b ⟨s.log.sync, s.entries⟩ := ⟨h.logs.sync, h.few⟩
  obtain ⟨hlogs, hdisk⟩ := hsync.run hrun
  obtain ⟨himage, hlen⟩ := hlogs.crashImage hcrash
  obtain ⟨log, hlog⟩ := recovers_of_length_lt hlen
  refine ⟨log, hlog, ?_⟩
  rcases hfit with hnone | hfit
  · rw [hnone]
    exact List.nil_prefix
  · obtain ⟨records, flushed, -, hlogged, hdata, hsum⟩ := h.logs
    have hpending : s.log.commitLogWCrcBatch = [] := by
      rw [hlogged.batched.pending_eq_nil_iff, ← List.length_map (f := WalSmrEntry.data), hdata]
      exact hdvd
    have hall : flushed = records := by
      have hsplit := hlogged.batched.split
      rwa [hpending, List.append_nil] at hsplit
    have hcontents := hlogged.contents_eq hfit
    rw [List.nil_append, hall] at hcontents
    rw [← hdata]
    refine recovers_prefix hsum ?_ hlog
    rw [← hcontents]
    exact hdisk.trans himage

theorem few_of_durable [Zlib] {s : Logging} (hdurable : Durable s) : s.entries.length < 2 ^ 31 := by
  obtain ⟨log, hlog, hlonger⟩ := hdurable _ _ .start (.between 0)
  exact lt_of_le_of_lt hlonger.length_le (recovers_iff.mp hlog).2

theorem dvd_of_durable [Zlib] {b : ℕ} {s : Logging} (h : s.log.LogsWithCrc b [] s.entries)
    (hdurable : Durable s) :
    b ∣ s.entries.length ∧ (s.entries = [] ∨ 24 * b < 2 ^ 31) := by
  obtain ⟨log, hlog, hlonger⟩ := hdurable _ _ .start (.between 0)
  have hle := hlog.length_le
  have hlen := hlonger.length_le
  rw [OutFile.crashImage, List.take_zero, List.append_nil] at hle
  have hdisk : s.log.sync.outfile.disk = s.log.outfile.contents := rfl
  obtain ⟨records, flushed, -, hlogged, hdata, -⟩ := h
  have hbound := hlogged.length_le
  have hsplit : flushed.length + s.log.commitLogWCrcBatch.length = s.entries.length := by
    rw [← hdata, List.length_map, ← hlogged.batched.split, List.length_append]
  simp only [List.length_nil, Nat.zero_add, walSmrEntryCodec_size] at hbound
  rw [hdisk] at hle
  have hpending : s.log.commitLogWCrcBatch = [] := List.length_eq_zero_iff.mp (by omega)
  have hdvd := hlogged.batched.pending_eq_nil_iff.mp hpending
  rw [← List.length_map (f := WalSmrEntry.data), hdata] at hdvd
  refine ⟨hdvd, ?_⟩
  by_contra hbig
  rw [not_or, not_lt] at hbig
  have hsome : flushed ≠ [] := by
    intro hnone
    rw [hnone, hpending] at hsplit
    exact hbig.1 (List.length_eq_zero_iff.mp hsplit.symm)
  have hlt := hlogged.length_lt hbig.2 hsome
  simp only [List.length_nil, Nat.zero_add, walSmrEntryCodec_size] at hlt
  omega

theorem logs_onEmptyFile [Zlib] {uninit : ℕ → Int32} {isFFlush : Int32} {batch : UInt32}
    {s : Logging} (hrun : Run logStep (fun _ _ => True) (.onEmptyFile uninit isFFlush batch) s) :
    s.log.LogsWithCrc (max 1 batch.toNat) [] s.entries :=
  hrun.invariant (fun s => s.log.LogsWithCrc (max 1 batch.toNat) [] s.entries)
    (fun _ _ _ hinv _ hstep => (logStep_logs hinv hstep).1) (.init uninit [] isFFlush batch)

/-- `sync` makes the logged entries durable exactly if their number is a multiple
of the batch size, a batch with all its bytes has been written if there are any,
and the readers can count them. -/
theorem sync_durable_iff [Zlib] {uninit : ℕ → Int32} {isFFlush : Int32} {batch : UInt32}
    {s : Logging} (hrun : Run logStep (fun _ _ => True) (.onEmptyFile uninit isFFlush batch) s) :
    Durable s ↔ s.entries.length < 2 ^ 31 ∧ max 1 batch.toNat ∣ s.entries.length ∧
      (s.entries = [] ∨ 24 * max 1 batch.toNat < 2 ^ 31) := by
  have hlogs := logs_onEmptyFile hrun
  constructor
  · intro hdurable
    exact ⟨few_of_durable hdurable, dvd_of_durable hlogs hdurable⟩
  · rintro ⟨hfew, hdvd, hfit⟩
    exact durable_of_dvd ⟨hlogs, hfew⟩ hdvd hfit

/-- Two entries fill a batch of size 2. -/
theorem sync_durable_iff_pair : ∃ s : Logging, s.entries = [⟨1, 7, 1⟩, ⟨1, 7, 2⟩] ∧ Durable s := by
  have hrun : ∃ s, Run logStep (fun _ _ => True) (.onEmptyFile (fun _ => 0) 0 2) s ∧
      s.entries = [⟨1, 7, 1⟩, ⟨1, 7, 2⟩] :=
    ⟨_, (Run.start.next (a := .writelogwithcrc ⟨1, 7, 1⟩) trivial rfl).next
      (a := .writelogwithcrc ⟨1, 7, 2⟩) trivial rfl, rfl⟩
  obtain ⟨s, hrun, hentries⟩ := hrun
  refine ⟨s, hentries, (sync_durable_iff hrun).mpr ?_⟩
  rw [hentries]
  decide

/-- One entry waits in a batch of size 10, and is lost although `sync` has returned. -/
theorem sync_not_durable : ∃ s : Logging,
    Run logStep (fun _ _ => True) (.onEmptyFile (fun _ => 0) 0 10) s ∧
    s.entries = [⟨1, 7, 1⟩] ∧ CrashImage ⟨s.log.sync, s.entries⟩ [] ∧ Recovers [] [] ∧
    ¬Durable s := by
  have hrun : ∃ s, Run logStep (fun _ _ => True) (.onEmptyFile (fun _ => 0) 0 10) s ∧
      s.entries = [⟨1, 7, 1⟩] ∧ CrashImage ⟨s.log.sync, s.entries⟩ [] :=
    ⟨_, Run.start.next (a := .writelogwithcrc ⟨1, 7, 1⟩) trivial rfl, rfl, .between 0⟩
  obtain ⟨s, hrun, hentries, hcrash⟩ := hrun
  refine ⟨s, hrun, hentries, hcrash, recovers_iff.mpr ⟨?_, by decide⟩, fun hdurable => ?_⟩
  · rw [Codec.readWhile_of_length_lt (by decide)]
    rfl
  · have hdvd := (dvd_of_durable (logs_onEmptyFile hrun) hdurable).1
    rw [hentries] at hdvd
    revert hdvd
    decide

end RobotFactory
