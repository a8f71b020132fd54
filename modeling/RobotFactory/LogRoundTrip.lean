import RobotFactory.LogWriting
import RobotFactory.Crc32

/-!
# From the entries to the log file and back

The readers return the entries of the whole records in front of the first one
that is short or damaged. What has been written, in either mode, is recovered up
to the last complete batch, exactly if no batch has too many bytes and the file
has no more records than the running index can count.
-/
namespace RobotFactory
open RecordStream Batching

/-- `Recoverwithcrc` into an empty vector returns `log` on the file, opened anew. -/
def Recovers [Zlib] (file : List UInt8) (log : List MapOp) : Prop :=
  ∀ (c : CommitLog) (isFFlush : Int32) (batch : UInt32),
    ∃ c', (c.init file isFFlush batch).recoverwithcrc [] = .ok (log, c')

/-- `Recover` into an empty vector returns `log` on the file, opened anew. -/
def RecoversPlain (file : List UInt8) (log : List MapOp) : Prop :=
  ∀ (c : CommitLog) (isFFlush : Int32) (batch : UInt32),
    ∃ c', (c.init file isFFlush batch).recover [] = .ok (log, c')

theorem recovers_iff [Zlib] {file : List UInt8} {log : List MapOp} : Recovers file log ↔
    log = (walSmrEntryCodec.readWhile CommitLog.checksumMatches file).map WalSmrEntry.data ∧
      log.length < 2 ^ 31 := by
  rw [← recoverLoop_eq_ok_iff]
  constructor
  · intro h
    obtain ⟨c', hok⟩ := h (.new fun _ => 0) 0 0
    obtain ⟨⟨found, unread⟩, hloop, hpair⟩ := bind_eq_ok.mp hok
    cases hpair
    exact ⟨unread, hloop⟩
  · rintro ⟨unread, hloop⟩ c isFFlush batch
    exact ⟨_, bind_eq_ok.mpr ⟨(log, unread), hloop, rfl⟩⟩

theorem recoversPlain_iff {file : List UInt8} {log : List MapOp} : RecoversPlain file log ↔
    log = mapOpCodec.readWhile (fun _ => true) file ∧ log.length < 2 ^ 31 := by
  have hloop := @recoverLoop_eq_ok_iff _ mapOpCodec (fun _ => true) id file log
  rw [List.map_id] at hloop
  rw [← hloop]
  constructor
  · intro h
    obtain ⟨c', hok⟩ := h (.new fun _ => 0) 0 0
    obtain ⟨⟨found, unread⟩, hloop, hpair⟩ := bind_eq_ok.mp hok
    cases hpair
    exact ⟨unread, hloop⟩
  · rintro ⟨unread, hloop⟩ c isFFlush batch
    exact ⟨_, bind_eq_ok.mpr ⟨(log, unread), hloop, rfl⟩⟩

theorem Recovers.unique [Zlib] {file : List UInt8} {log log' : List MapOp} (h : Recovers file log)
    (h' : Recovers file log') : log = log' :=
  (recovers_iff.mp h).1.trans (recovers_iff.mp h').1.symm

theorem Recovers.length_le [Zlib] {file : List UInt8} {log : List MapOp} (h : Recovers file log) :
    24 * log.length ≤ file.length := by
  obtain ⟨rfl, -⟩ := recovers_iff.mp h
  rw [List.length_map]
  exact Codec.size_mul_length_readWhile_le walSmrEntryCodec _ file

def writtenWithCrc [Zlib] (uninit : ℕ → Int32) (isFFlush : Int32) (batch : UInt32)
    (entries : List MapOp) : Except Fault (List UInt8) := do
  let c ← entries.foldlM CommitLog.writelogwithcrc ((CommitLog.new uninit).init [] isFFlush batch)
  return c.sync.outfile.disk

def writtenPlain (uninit : ℕ → Int32) (isFFlush : Int32) (batch : UInt32) (entries : List MapOp) :
    Except Fault (List UInt8) := do
  let c ← entries.foldlM CommitLog.writelog ((CommitLog.new uninit).init [] isFFlush batch)
  return c.sync.outfile.disk

/-- The number of entries in complete batches of effective size `max 1 batch`. -/
def completeLength (batch : UInt32) (entries : List MapOp) : ℕ :=
  entries.length / max 1 batch.toNat * max 1 batch.toNat

theorem completeLength_le (batch : UInt32) (entries : List MapOp) :
    completeLength batch entries ≤ entries.length := Nat.div_mul_le_self _ _

/-- The entries in complete batches come back in both modes, and those in front
of a cut or of a damaged record. -/
structure RoundTrip [Zlib] (batch : UInt32) (entries : List MapOp) : Prop where
  crc : ∀ uninit isFFlush, ∃ file, writtenWithCrc uninit isFFlush batch entries = .ok file ∧
    Recovers file (entries.take (completeLength batch entries)) ∧
    ∀ m j bad, m ≤ file.length → j < completeLength batch entries →
      CommitLog.checksumMatches bad = false →
      Recovers ((overwrite file (walSmrEntryCodec.size * j) (walSmrEntryCodec.encode bad)).take m)
        (entries.take (min j (m / walSmrEntryCodec.size)))
  plain : ∀ uninit isFFlush, ∃ file, writtenPlain uninit isFFlush batch entries = .ok file ∧
    RecoversPlain file (entries.take (completeLength batch entries)) ∧
    ∀ m ≤ file.length, RecoversPlain (file.take m) (entries.take (m / mapOpCodec.size))

theorem writtenWithCrc_logged [Zlib] {uninit : ℕ → Int32} {isFFlush : Int32} {batch : UInt32}
    {entries : List MapOp} {file : List UInt8}
    (h : writtenWithCrc uninit isFFlush batch entries = .ok file) : ∃ records flushed pending out,
      Logged walSmrEntryCodec (max 1 batch.toNat) [] records flushed pending out ∧
      out.contents = file ∧ records.map WalSmrEntry.data = entries ∧
      ∀ r ∈ records, CommitLog.checksumMatches r = true := by
  obtain ⟨c, hc, hfile⟩ := bind_eq_ok.mp h
  obtain ⟨records, flushed, -, hlogged, hrest⟩ := foldlM_invariant
    (fun es c => c.LogsWithCrc (max 1 batch.toNat) [] es)
    (fun _ _ _ _ hinv hw => hinv.write hw) (.init uninit [] isFFlush batch) hc
  cases hfile
  exact ⟨records, flushed, _, _, hlogged, rfl, hrest⟩

theorem writtenPlain_logged {uninit : ℕ → Int32} {isFFlush : Int32} {batch : UInt32}
    {entries : List MapOp} {file : List UInt8}
    (h : writtenPlain uninit isFFlush batch entries = .ok file) : ∃ flushed pending out,
      Logged mapOpCodec (max 1 batch.toNat) [] entries flushed pending out ∧
        out.contents = file := by
  obtain ⟨c, hc, hfile⟩ := bind_eq_ok.mp h
  obtain ⟨flushed, -, hlogged⟩ := foldlM_invariant
    (fun es c => c.LogsPlain (max 1 batch.toNat) [] es)
    (fun _ _ _ _ hinv hw => hinv.write hw) (.init uninit [] isFFlush batch) hc
  cases hfile
  exact ⟨flushed, _, _, hlogged, rfl⟩

theorem writtenWithCrc_total [Zlib] (uninit : ℕ → Int32) (isFFlush : Int32) {batch : UInt32}
    {entries : List MapOp}
    (hcond : entries.length < max 1 batch.toNat ∨ 24 * max 1 batch.toNat < 2 ^ 31) :
    ∃ file, writtenWithCrc uninit isFFlush batch entries = .ok file := by
  obtain ⟨c, hc⟩ := foldlM_total CommitLog.writelogwithcrc
    (fun es c => c.LogsWithCrc (max 1 batch.toNat) [] es)
    (fun _ _ _ _ hinv hw => hinv.write hw) entries (.init uninit [] isFFlush batch)
    fun es e c hinv hlt => hinv.total c.flushes e (hcond.imp_left fun _ => by simp at hlt; omega)
  exact ⟨_, by rw [writtenWithCrc, hc]; rfl⟩

theorem writtenPlain_total (uninit : ℕ → Int32) (isFFlush : Int32) {batch : UInt32}
    {entries : List MapOp}
    (hcond : entries.length < max 1 batch.toNat ∨ 12 * max 1 batch.toNat < 2 ^ 31) :
    ∃ file, writtenPlain uninit isFFlush batch entries = .ok file := by
  obtain ⟨c, hc⟩ := foldlM_total CommitLog.writelog
    (fun es c => c.LogsPlain (max 1 batch.toNat) [] es)
    (fun _ _ _ _ hinv hw => hinv.write hw) entries (.init uninit [] isFFlush batch)
    fun es e c hinv hlt => hinv.total e (hcond.imp_left fun _ => by simp at hlt; omega)
  exact ⟨_, by rw [writtenPlain, hc]; rfl⟩

/-- The whole records of a file in CRC mode come back, up to a cut or a damaged record. -/
theorem recovers_damaged [Zlib] {flushed : List WalSmrEntry} {m j : ℕ} {bad : WalSmrEntry}
    (hsum : ∀ r ∈ flushed, CommitLog.checksumMatches r = true) (hfew : flushed.length < 2 ^ 31)
    (hj : j < flushed.length) (hbad : CommitLog.checksumMatches bad = false) :
    Recovers ((overwrite (walSmrEntryCodec.encodeAll flushed) (walSmrEntryCodec.size * j)
        (walSmrEntryCodec.encode bad)).take m)
      ((flushed.map WalSmrEntry.data).take (min j (m / walSmrEntryCodec.size))) := by
  have hlen : (flushed.take j).length = j := by
    rw [List.length_take]
    omega
  rw [recovers_iff, Codec.overwrite_encodeAll _ hj,
    Codec.readWhile_take_reject _ _ _ _ _ (fun r hr => hsum r (List.mem_of_mem_take hr)) hbad, hlen,
    List.take_take, min_eq_left (min_le_left _ _), List.map_take]
  refine ⟨rfl, ?_⟩
  rw [List.length_take, List.length_map]
  omega

theorem roundTrip_crc [Zlib] {batch : UInt32} {entries : List MapOp}
    (hcond : entries.length < max 1 batch.toNat ∨ 24 * max 1 batch.toNat < 2 ^ 31)
    (hfew : completeLength batch entries < 2 ^ 31) {uninit : ℕ → Int32} {isFFlush : Int32}
    {file : List UInt8} (hfile : writtenWithCrc uninit isFFlush batch entries = .ok file) :
    Recovers file (entries.take (completeLength batch entries)) ∧
    ∀ m j bad, j < completeLength batch entries → CommitLog.checksumMatches bad = false →
      Recovers ((overwrite file (walSmrEntryCodec.size * j) (walSmrEntryCodec.encode bad)).take m)
        (entries.take (min j (m / walSmrEntryCodec.size))) := by
  obtain ⟨records, flushed, pending, out, hlogged, rfl, rfl, hsum⟩ := writtenWithCrc_logged hfile
  have hlen : flushed.length = completeLength batch (records.map WalSmrEntry.data) := by
    rw [hlogged.batched.length_flushed, completeLength, List.length_map]
  have hdata : flushed.map WalSmrEntry.data =
      (records.map WalSmrEntry.data).take
        (completeLength batch (records.map WalSmrEntry.data)) := by
    rw [← hlen, ← hlogged.batched.split, List.map_append, ← List.length_map (f := WalSmrEntry.data),
      List.take_left]
  have hsum' : ∀ r ∈ flushed, CommitLog.checksumMatches r = true := by
    intro r hr
    exact hsum r (hlogged.batched.split ▸ List.mem_append_left _ hr)
  have hcontents := hlogged.contents_of (by simpa using hcond)
  rw [List.nil_append] at hcontents
  rw [hcontents]
  refine ⟨?_, fun m j bad hj hbad => ?_⟩
  · rw [recovers_iff, Codec.readWhile_encodeAll _ _ _ hsum', hdata]
    refine ⟨rfl, ?_⟩
    rw [← hdata, List.length_map]
    omega
  · have hdamaged := recovers_damaged (m := m) hsum' (by omega) (hlen ▸ hj) hbad
    rwa [hdata, List.take_take, min_eq_left (by omega)] at hdamaged

theorem roundTrip_plain {batch : UInt32} {entries : List MapOp}
    (hcond : entries.length < max 1 batch.toNat ∨ 12 * max 1 batch.toNat < 2 ^ 31)
    (hfew : completeLength batch entries < 2 ^ 31) {uninit : ℕ → Int32} {isFFlush : Int32}
    {file : List UInt8} (hfile : writtenPlain uninit isFFlush batch entries = .ok file) :
    RecoversPlain file (entries.take (completeLength batch entries)) ∧
    ∀ m ≤ file.length, RecoversPlain (file.take m) (entries.take (m / mapOpCodec.size)) := by
  obtain ⟨flushed, pending, out, hlogged, rfl⟩ := writtenPlain_logged hfile
  have hlen : flushed.length = completeLength batch entries := hlogged.batched.length_flushed
  have htake : flushed = entries.take (completeLength batch entries) := hlogged.batched.flushed_eq
  have hcontents := hlogged.contents_of hcond
  rw [List.nil_append] at hcontents
  have hcut (m : ℕ) (hm : m ≤ out.contents.length) :
      RecoversPlain (out.contents.take m) (entries.take (m / mapOpCodec.size)) := by
    have hle : m / mapOpCodec.size ≤ completeLength batch entries := by
      rw [hcontents, Codec.length_encodeAll, hlen] at hm
      exact Nat.div_le_of_le_mul hm
    rw [recoversPlain_iff, hcontents, Codec.readWhile_take _ _ _ (fun _ _ => rfl), htake,
      List.take_take, min_eq_left hle]
    refine ⟨rfl, ?_⟩
    rw [List.length_take]
    omega
  refine ⟨?_, hcut⟩
  have hall := hcut out.contents.length le_rfl
  have hcount : out.contents.length / mapOpCodec.size = completeLength batch entries := by
    rw [hcontents, Codec.length_encodeAll, hlen, Nat.mul_div_cancel_left _ mapOpCodec.size_pos]
  rwa [List.take_length, hcount] at hall

/-- What comes back in CRC mode shows that nothing has overflowed. -/
theorem fits_of_recovers [Zlib] {batch : UInt32} {entries : List MapOp} {uninit : ℕ → Int32}
    {isFFlush : Int32} {file : List UInt8}
    (hfile : writtenWithCrc uninit isFFlush batch entries = .ok file)
    (h : Recovers file (entries.take (completeLength batch entries))) :
    (entries.length < max 1 batch.toNat ∨ 24 * max 1 batch.toNat < 2 ^ 31) ∧
      completeLength batch entries < 2 ^ 31 := by
  have hlen : (entries.take (completeLength batch entries)).length =
      completeLength batch entries := by
    rw [List.length_take, min_eq_left (completeLength_le ..)]
  have hfew := (recovers_iff.mp h).2
  have hle := h.length_le
  rw [hlen] at hfew hle
  refine ⟨?_, hfew⟩
  by_contra hbig
  rw [not_or, not_lt, not_lt] at hbig
  obtain ⟨records, flushed, pending, out, hlogged, rfl, rfl, -⟩ := writtenWithCrc_logged hfile
  have hlt := hlogged.length_lt_of hbig.2 (by simpa using hbig.1)
  simp only [List.length_nil, Nat.zero_add, walSmrEntryCodec_size] at hlt
  simp only [completeLength, List.length_map] at hle
  omega

/-- The log round trip holds exactly if no complete batch has 2^31 bytes or more
and fewer than 2^31 entries are in complete batches. -/
theorem roundTrip_iff [Zlib] (batch : UInt32) (entries : List MapOp) : RoundTrip batch entries ↔
    (entries.length < max 1 batch.toNat ∨ 24 * max 1 batch.toNat < 2 ^ 31) ∧
      completeLength batch entries < 2 ^ 31 := by
  constructor
  · intro h
    obtain ⟨file, hfile, hrecovers, -⟩ := h.crc (fun _ => 0) 0
    exact fits_of_recovers hfile hrecovers
  · rintro ⟨hcond, hfew⟩
    have hplain : entries.length < max 1 batch.toNat ∨ 12 * max 1 batch.toNat < 2 ^ 31 :=
      hcond.imp_right fun hfit => by omega
    refine ⟨fun uninit isFFlush => ?_, fun uninit isFFlush => ?_⟩
    · obtain ⟨file, hfile⟩ := writtenWithCrc_total uninit isFFlush hcond
      obtain ⟨hall, hdamaged⟩ := roundTrip_crc hcond hfew hfile
      exact ⟨file, hfile, hall, fun m j bad _ => hdamaged m j bad⟩
    · obtain ⟨file, hfile⟩ := writtenPlain_total uninit isFFlush hplain
      exact ⟨file, hfile, roundTrip_plain hplain hfew hfile⟩

/-- One batch of 89478486 entries has more than 2^31 bytes. -/
theorem not_roundTrip_of_large_batch :
    ¬RoundTrip 89478486 (List.replicate 89478486 ⟨1, 7, 1⟩) := by
  intro h
  obtain ⟨file, hfile, hrecovers, -⟩ := h.crc (fun _ => 0) 0
  have hfits := (fits_of_recovers hfile hrecovers).1
  rw [List.length_replicate, show (89478486 : UInt32).toNat = 89478486 from rfl] at hfits
  omega

end RobotFactory
