import RobotFactory.Batching
import RobotFactory.CommitLog

/-!
# What the writers put into the log file

The file holds what it held when it was opened, followed by the records of the
complete batches. That fails only when the size of a batch in bytes does not fit
an `int`: then the file receives fewer bytes than the batch has. One invariant
describes both writers; it follows the two cases of `writeRecord`.
-/
namespace RobotFactory
open RecordStream Batching

namespace OutFile

theorem crashImage_eq_take (f : OutFile) (keep : ℕ) :
    f.crashImage keep = f.contents.take (f.disk.length + keep) := by
  rw [crashImage, contents, List.take_length_add_append]

theorem disk_prefix_crashImage (f : OutFile) (keep : ℕ) : f.disk <+: f.crashImage keep :=
  List.prefix_append _ _

theorem length_crashImage_le (f : OutFile) (keep : ℕ) :
    (f.crashImage keep).length ≤ f.contents.length := by
  rw [crashImage_eq_take]
  exact List.length_take_le' _ _

end OutFile

/-- The invariant of `writeRecord` on a file that was opened with the bytes `base`:
of the records passed to it, `flushed` are in the file. -/
structure Logged {α : Type*} (codec : Codec UInt8 α) (b : ℕ) (base : List UInt8)
    (records flushed pending : List α) (out : OutFile) : Prop where
  batched : Batched b records flushed pending
  base_prefix : base <+: out.disk
  length_le : out.contents.length ≤ base.length + codec.size * flushed.length
  contents_eq : codec.size * b < 2 ^ 31 → out.contents = base ++ codec.encodeAll flushed
  length_lt : 2 ^ 31 ≤ codec.size * b → flushed ≠ [] →
    out.contents.length < base.length + codec.size * flushed.length

/-- A call of `writeRecord` keeps the record, or writes out the full batch. -/
theorem writeRecord_cases {α : Type*} {codec : Codec UInt8 α} {b : ℕ} {flush : Bool}
    {batch batch' : List α} {out out' : OutFile} {record : α} (hlt : batch.length < b)
    (h : writeRecord codec b flush batch out record = .ok (batch', out')) :
    (batch.length + 1 < b ∧ batch' = batch ++ [record] ∧ out' = out) ∨
    (batch.length + 1 = b ∧ batch' = [] ∧ 0 ≤ sizeOfBatch codec.size b ∧
      out'.contents = out.contents ++
        (codec.encodeAll (batch ++ [record])).take (sizeOfBatch codec.size b).toNat ∧
      out.disk <+: out'.disk) := by
  by_cases hfull : batch.length + 1 = b
  · have hlen : (batch ++ [record]).length = b := by simp [hfull]
    simp only [writeRecord, hlen, le_refl, if_true] at h
    split_ifs at h with hsize hflush
    · cases h
      refine .inr ⟨hfull, rfl, by omega, by simp, ?_⟩
      rw [OutFile.disk_fflush, OutFile.contents_fwrite]
      exact (OutFile.disk_prefix_contents out).trans (List.prefix_append _ _)
    · cases h
      exact .inr ⟨hfull, rfl, by omega, by simp, List.prefix_rfl⟩
  · rw [writeRecord_of_lt (by omega)] at h
    cases h
    exact .inl ⟨by omega, rfl, rfl⟩

theorem OutFile.disk_prefix_of_writeRecord {α : Type*} {codec : Codec UInt8 α} {b : ℕ}
    {flush : Bool} {batch batch' : List α} {out out' : OutFile} {record : α}
    (hlt : batch.length < b)
    (h : writeRecord codec b flush batch out record = .ok (batch', out')) :
    out.disk <+: out'.disk := by
  rcases writeRecord_cases hlt h with ⟨-, -, rfl⟩ | ⟨-, -, -, -, hdisk⟩
  · exact List.prefix_rfl
  · exact hdisk

/-- A record that does not fill the batch is taken, and so is every record as
long as the size of a batch fits an `int`. -/
theorem writeRecord_total {α : Type*} (codec : Codec UInt8 α) {b : ℕ} (flush : Bool)
    {batch : List α} (out : OutFile) (record : α) (hlt : batch.length < b)
    (h : batch.length + 1 < b ∨ codec.size * b < 2 ^ 31) :
    ∃ result, writeRecord codec b flush batch out record = .ok result := by
  by_cases hfull : batch.length + 1 = b
  · exact ⟨_, writeRecord_of_full hfull (h.resolve_left (by omega))⟩
  · exact ⟨_, writeRecord_of_lt (by omega)⟩

namespace Logged

theorem opened {α : Type*} (codec : Codec UInt8 α) {b : ℕ} (hb : 0 < b) (base : List UInt8) :
    Logged codec b base [] [] [] (OutFile.fopen base) :=
  ⟨.empty hb, List.prefix_rfl, by simp, by simp, fun _ hne => absurd rfl hne⟩

theorem congr {α : Type*} {codec : Codec UInt8 α} {b : ℕ} {base : List UInt8}
    {records flushed pending : List α} {out out' : OutFile}
    (h : Logged codec b base records flushed pending out) (hcontents : out'.contents = out.contents)
    (hdisk : out.disk <+: out'.disk) : Logged codec b base records flushed pending out' :=
  ⟨h.batched, h.base_prefix.trans hdisk, hcontents ▸ h.length_le, hcontents ▸ h.contents_eq,
    hcontents ▸ h.length_lt⟩

theorem write {α : Type*} {codec : Codec UInt8 α} {b : ℕ} {base : List UInt8}
    {records flushed pending batch : List α} {out out' : OutFile} {flush : Bool} {record : α}
    (h : Logged codec b base records flushed pending out)
    (hw : writeRecord codec b flush pending out record = .ok (batch, out')) :
    ∃ flushed', Logged codec b base (records ++ [record]) flushed' batch out' := by
  rcases writeRecord_cases h.batched.pending_lt hw with
    ⟨hlt, rfl, rfl⟩ | ⟨hfull, rfl, -, hcontents, hdisk⟩
  · exact ⟨flushed, h.batched.keep record hlt, h.base_prefix, h.length_le, h.contents_eq,
      h.length_lt⟩
  · have hlen : (codec.encodeAll (pending ++ [record])).length = codec.size * b := by
      rw [Codec.length_encodeAll, List.length_append, List.length_singleton, hfull]
    have hle := h.length_le
    refine ⟨flushed ++ (pending ++ [record]), h.batched.flush record hfull.ge,
      h.base_prefix.trans hdisk, ?_, fun hfit => ?_, fun hbig _ => ?_⟩
    · rw [hcontents, List.length_append, List.length_append, List.length_append,
        List.length_singleton, hfull, Nat.mul_add]
      have := List.length_take_le' (sizeOfBatch codec.size b).toNat
        (codec.encodeAll (pending ++ [record]))
      omega
    · have hsize : (sizeOfBatch codec.size b).toNat = codec.size * b := by
        rw [sizeOfBatch_of_lt hfit, ← Int.natCast_mul, Int.toNat_natCast]
      rw [hcontents, h.contents_eq hfit, hsize, ← hlen, List.take_length, List.append_assoc,
        ← Codec.encodeAll_append]
    · have hsize := sizeOfBatch_lt_of_le hbig
      have hpos : 0 < codec.size * b := by omega
      rw [hcontents, List.length_append, List.length_append, List.length_append,
        List.length_singleton, hfull, Nat.mul_add, List.length_take]
      omega

/-- Without a batch of too many bytes the file holds the records in `flushed`. -/
theorem contents_of {α : Type*} {codec : Codec UInt8 α} {b : ℕ} {base : List UInt8}
    {records flushed pending : List α} {out : OutFile}
    (h : Logged codec b base records flushed pending out)
    (hcond : records.length < b ∨ codec.size * b < 2 ^ 31) :
    out.contents = base ++ codec.encodeAll flushed := by
  rcases hcond with hlt | hfit
  · have hnone : flushed = [] := by
      rw [h.batched.flushed_eq, Nat.div_eq_of_lt hlt, Nat.zero_mul, List.take_zero]
    have hle := h.length_le
    rw [hnone, List.length_nil, Nat.mul_zero, Nat.add_zero] at hle
    rw [hnone, Codec.encodeAll_nil, List.append_nil]
    exact ((h.base_prefix.trans (OutFile.disk_prefix_contents out)).eq_of_length_le hle).symm
  · exact h.contents_eq hfit

/-- A batch of too many bytes leaves the file too short. -/
theorem length_lt_of {α : Type*} {codec : Codec UInt8 α} {b : ℕ} {base : List UInt8}
    {records flushed pending : List α} {out : OutFile}
    (h : Logged codec b base records flushed pending out) (hbig : 2 ^ 31 ≤ codec.size * b)
    (hle : b ≤ records.length) :
    out.contents.length < base.length + codec.size * (records.length / b * b) := by
  have hb := h.batched.pending_lt
  have hpos : 0 < records.length / b := Nat.div_pos hle (by omega)
  have hlen := h.batched.length_flushed
  have hsome : flushed ≠ [] := by
    intro hnone
    rw [hnone, List.length_nil] at hlen
    have := Nat.mul_pos hpos (show 0 < b by omega)
    omega
  rw [← hlen]
  exact h.length_lt hbig hsome

/-- A crash leaves a front part of these records behind what the file held before. -/
theorem crashImage {α : Type*} {codec : Codec UInt8 α} {b : ℕ} {base : List UInt8}
    {records flushed pending : List α} {out : OutFile}
    (h : Logged codec b base records flushed pending out)
    (hcond : records.length < b ∨ codec.size * b < 2 ^ 31) (keep : ℕ) :
    ∃ m, out.crashImage keep = base ++ (codec.encodeAll flushed).take m ∧
      out.disk.length ≤ base.length + m := by
  have hbase := h.base_prefix.length_le
  refine ⟨out.disk.length + keep - base.length, ?_, by omega⟩
  rw [OutFile.crashImage_eq_take, h.contents_of hcond,
    show out.disk.length + keep = base.length + (out.disk.length + keep - base.length) by omega,
    List.take_length_add_append, Nat.add_sub_cancel_left]

end Logged

theorem foldlM_invariant {σ ε : Type} {step : σ → ε → Except Fault σ} (inv : List ε → σ → Prop)
    (hstep : ∀ xs x s s', inv xs s → step s x = .ok s' → inv (xs ++ [x]) s') {xs ys : List ε}
    {s s' : σ} (h : inv xs s) (hok : ys.foldlM step s = .ok s') : inv (xs ++ ys) s' := by
  induction ys generalizing xs s with
  | nil =>
    cases hok
    rwa [List.append_nil]
  | cons y ys ih =>
    rw [List.foldlM_cons] at hok
    obtain ⟨t, ht, hrest⟩ := bind_eq_ok.mp hok
    have hmore := ih (hstep xs y s t h ht) hrest
    rwa [List.append_assoc] at hmore

theorem foldlM_total {σ ε : Type} (step : σ → ε → Except Fault σ) (inv : List ε → σ → Prop)
    (hstep : ∀ xs x s s', inv xs s → step s x = .ok s' → inv (xs ++ [x]) s') {xs : List ε}
    (ys : List ε) {s : σ} (h : inv xs s)
    (htotal : ∀ zs x t, inv zs t → zs.length < xs.length + ys.length → ∃ t', step t x = .ok t') :
    ∃ s', ys.foldlM step s = .ok s' := by
  induction ys generalizing xs s with
  | nil => exact ⟨s, rfl⟩
  | cons y ys ih =>
    obtain ⟨t, ht⟩ := htotal xs y s h (by simp)
    obtain ⟨s', hs'⟩ := ih (hstep xs y s t h ht) fun zs x u hu hlt =>
      htotal zs x u hu (by simp at hlt ⊢; omega)
    exact ⟨s', by rw [List.foldlM_cons, ht, ok_bind, hs']⟩

namespace CommitLog

theorem init_batchSize (c : CommitLog) (file : List UInt8) (isFFlush : Int32) (batch : UInt32) :
    (c.init file isFFlush batch).batchSize = max 1 batch.toNat := by
  simp only [init]
  split_ifs <;> omega

/-- The log has been passed `entries` in CRC mode since it was opened on `base`. -/
def LogsWithCrc [Zlib] (c : CommitLog) (b : ℕ) (base : List UInt8) (entries : List MapOp) : Prop :=
  ∃ records flushed, c.batchSize = b ∧
    Logged walSmrEntryCodec b base records flushed c.commitLogWCrcBatch c.outfile ∧
    records.map WalSmrEntry.data = entries ∧ ∀ r ∈ records, checksumMatches r = true

def LogsPlain (c : CommitLog) (b : ℕ) (base : List UInt8) (entries : List MapOp) : Prop :=
  ∃ flushed, c.batchSize = b ∧
    Logged mapOpCodec b base entries flushed c.commitLogBatch c.outfile

theorem LogsWithCrc.init [Zlib] (uninit : ℕ → Int32) (file : List UInt8) (isFFlush : Int32)
    (batch : UInt32) :
    ((new uninit).init file isFFlush batch).LogsWithCrc (max 1 batch.toNat) file [] :=
  ⟨[], [], init_batchSize .., .opened _ (by omega) file, rfl, by simp⟩

theorem LogsPlain.init (uninit : ℕ → Int32) (file : List UInt8) (isFFlush : Int32)
    (batch : UInt32) :
    ((new uninit).init file isFFlush batch).LogsPlain (max 1 batch.toNat) file [] :=
  ⟨[], init_batchSize .., .opened _ (by omega) file⟩

theorem LogsWithCrc.write [Zlib] {c c' : CommitLog} {b : ℕ} {base : List UInt8}
    {entries : List MapOp} {flush : Bool} {e : MapOp} (h : c.LogsWithCrc b base entries)
    (hw : c.writeCrcRecord flush e = .ok c') : c'.LogsWithCrc b base (entries ++ [e]) := by
  obtain ⟨records, flushed, hb, hlogged, hdata, hsum⟩ := h
  obtain ⟨⟨batch, out⟩, hrecord, hc⟩ := bind_eq_ok.mp hw
  cases hc
  rw [hb] at hrecord
  obtain ⟨flushed', hlogged'⟩ := hlogged.write hrecord
  refine ⟨_, flushed', hb, hlogged', by simp [hdata, constructLog], ?_⟩
  intro r hr
  rcases List.mem_append.mp hr with hr | hr
  · exact hsum r hr
  · rw [List.mem_singleton.mp hr]
    exact checksumMatches_constructLog ..

theorem LogsWithCrc.disk_prefix [Zlib] {c c' : CommitLog} {b : ℕ} {base : List UInt8}
    {entries : List MapOp} {flush : Bool} {e : MapOp} (h : c.LogsWithCrc b base entries)
    (hw : c.writeCrcRecord flush e = .ok c') : c.outfile.disk <+: c'.outfile.disk := by
  obtain ⟨records, flushed, hb, hlogged, -⟩ := h
  obtain ⟨⟨batch, out⟩, hrecord, hc⟩ := bind_eq_ok.mp hw
  cases hc
  rw [hb] at hrecord
  exact OutFile.disk_prefix_of_writeRecord hlogged.batched.pending_lt hrecord

theorem LogsPlain.write {c c' : CommitLog} {b : ℕ} {base : List UInt8} {entries : List MapOp}
    {e : MapOp} (h : c.LogsPlain b base entries) (hw : c.writelog e = .ok c') :
    c'.LogsPlain b base (entries ++ [e]) := by
  obtain ⟨flushed, hb, hlogged⟩ := h
  obtain ⟨⟨batch, out⟩, hrecord, hc⟩ := bind_eq_ok.mp hw
  cases hc
  rw [hb] at hrecord
  obtain ⟨flushed', hlogged'⟩ := hlogged.write hrecord
  exact ⟨flushed', hb, hlogged'⟩

theorem LogsWithCrc.total [Zlib] {c : CommitLog} {b : ℕ} {base : List UInt8} {entries : List MapOp}
    (h : c.LogsWithCrc b base entries) (flush : Bool) (e : MapOp)
    (hcond : entries.length + 1 < b ∨ 24 * b < 2 ^ 31) :
    ∃ c', c.writeCrcRecord flush e = .ok c' := by
  obtain ⟨records, flushed, hb, hlogged, hdata, -⟩ := h
  have hlen : flushed.length + c.commitLogWCrcBatch.length = entries.length := by
    rw [← hdata, List.length_map, ← hlogged.batched.split, List.length_append]
  obtain ⟨⟨batch, out⟩, hrecord⟩ := writeRecord_total walSmrEntryCodec flush c.outfile
    (constructLog (c.uninit 0) e) hlogged.batched.pending_lt (hcond.imp_left fun hlt => by omega)
  rw [writeCrcRecord, hb, hrecord]
  exact ⟨_, rfl⟩

theorem LogsPlain.total {c : CommitLog} {b : ℕ} {base : List UInt8} {entries : List MapOp}
    (h : c.LogsPlain b base entries) (e : MapOp)
    (hcond : entries.length + 1 < b ∨ 12 * b < 2 ^ 31) : ∃ c', c.writelog e = .ok c' := by
  obtain ⟨flushed, hb, hlogged⟩ := h
  have hlen : flushed.length + c.commitLogBatch.length = entries.length := by
    rw [← hlogged.batched.split, List.length_append]
  obtain ⟨⟨batch, out⟩, hrecord⟩ := writeRecord_total mapOpCodec c.flushes c.outfile
    e hlogged.batched.pending_lt (hcond.imp_left fun hlt => by omega)
  rw [writelog, hb, hrecord]
  exact ⟨_, rfl⟩

theorem LogsWithCrc.congr [Zlib] {c : CommitLog} {b : ℕ} {base : List UInt8} {entries : List MapOp}
    (h : c.LogsWithCrc b base entries) {out : OutFile}
    (hcontents : out.contents = c.outfile.contents) (hdisk : c.outfile.disk <+: out.disk) :
    LogsWithCrc { c with outfile := out } b base entries := by
  obtain ⟨records, flushed, hb, hlogged, hrest⟩ := h
  exact ⟨records, flushed, hb, hlogged.congr hcontents hdisk, hrest⟩

theorem LogsWithCrc.sync [Zlib] {c : CommitLog} {b : ℕ} {base : List UInt8} {entries : List MapOp}
    (h : c.LogsWithCrc b base entries) : c.sync.LogsWithCrc b base entries :=
  h.congr (OutFile.contents_fflush _) (OutFile.disk_prefix_contents _)

end CommitLog

end RobotFactory
