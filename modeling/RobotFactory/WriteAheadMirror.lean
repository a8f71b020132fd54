import RobotFactory.LogIndices

/-!
# The write-ahead log mirrors the log in memory

The commit log is only appended to, while `smr_log` is also inserted into. Both
stay the same sequence as long as every insertion goes to the end of `smr_log`, a
recovery that has received entries receives all of them, and a full batch is
written to a file without unreadable bytes at its end. A restart establishes the
mirror on any file, whatever it replays.
-/
namespace RobotFactory
open TransitionSystem RecordStream

namespace CommitLog

def entries [Zlib] (c : CommitLog) : List MapOp :=
  entriesOf c.outfile.disk ++ c.commitLogWCrcBatch.map WalSmrEntry.data

/-- A commit log that flushes each full batch, with intact pending records. -/
structure Intact [Zlib] (c : CommitLog) : Prop where
  ready : c.Ready
  flushes_eq : c.flushes = true
  buffer_eq : c.outfile.buffer = []
  matches_pending : ∀ r ∈ c.commitLogWCrcBatch, checksumMatches r = true

/-- The next `n` writes do not fill the batch, or nothing stands in the file behind
its readable records. -/
def Room [Zlib] (c : CommitLog) (n : ℕ) : Prop :=
  c.commitLogWCrcBatch.length + n < c.batchSize ∨
    walSmrEntryCodec.size * (entriesOf c.outfile.disk).length = c.outfile.disk.length

theorem Intact.sync [Zlib] {c : CommitLog} (h : c.Intact) :
    c.sync.Intact ∧ c.sync.entries = c.entries := by
  have hdisk : c.sync.outfile.disk = c.outfile.disk := by
    simp [CommitLog.sync, OutFile.contents, h.buffer_eq]
  refine ⟨⟨h.ready.sync, h.flushes_eq, rfl, h.matches_pending⟩, ?_⟩
  rw [entries, hdisk]
  rfl

theorem Intact.write [Zlib] {c c' : CommitLog} {op : MapOp} {n : ℕ} (h : c.Intact)
    (hroom : c.Room (n + 1)) (hw : writeAhead c op = .ok c') :
    c'.Intact ∧ c'.Room n ∧ c'.entries = c.entries ++ [op] := by
  have hlt := h.ready.pending_lt
  obtain ⟨⟨batch, out⟩, hwrite, hc⟩ := bind_eq_ok.mp hw
  cases hc
  generalize hrecord : constructLog (c.uninit 0) op = record at hwrite
  have hdata : record.data = op := by rw [← hrecord, constructLog]
  have hmatches : ∀ r ∈ c.commitLogWCrcBatch ++ [record], checksumMatches r = true := by
    intro r hr
    rcases List.mem_append.mp hr with hr | hr
    · exact h.matches_pending r hr
    · rw [List.mem_singleton.mp hr, ← hrecord]
      exact checksumMatches_constructLog _ _
  rw [h.flushes_eq] at hwrite
  by_cases hfull : c.commitLogWCrcBatch.length + 1 = c.batchSize
  · rw [writeRecord_of_full hfull h.ready.fits, if_pos rfl] at hwrite
    cases hwrite
    have hend := hroom.resolve_left (by omega)
    have hdisk := OutFile.disk_fflush_fwrite h.buffer_eq
      (walSmrEntryCodec.encodeAll (c.commitLogWCrcBatch ++ [record]))
    have hentries := entriesOf_append hend hmatches
    refine ⟨⟨⟨?_, h.ready.fits⟩, h.flushes_eq, rfl, ?_⟩, .inr ?_, ?_⟩
    · simp only [List.length_nil]
      omega
    · simp
    · simp only [hdisk]
      rw [hentries, List.length_append, List.length_append, Codec.length_encodeAll, List.length_map,
        Nat.mul_add, hend]
    · simp only [entries, hdisk]
      rw [hentries]
      simp [hdata]
  · rw [writeRecord_of_lt (by omega)] at hwrite
    cases hwrite
    refine ⟨⟨⟨?_, h.ready.fits⟩, h.flushes_eq, h.buffer_eq, hmatches⟩, ?_, ?_⟩
    · simp only [List.length_append, List.length_singleton]
      omega
    · refine hroom.imp_left fun hroom => ?_
      simp only [List.length_append, List.length_singleton]
      omega
    · simp [entries, hdata]

end CommitLog

/-- The commit log of a server holds its log, entry by entry. -/
structure Server.Mirrors [Zlib] (s : Server) : Prop where
  intact : s.clog.Intact
  entries_eq : s.clog.entries = s.smrLog

/-- A request whose entries go to the end of both logs; or a recovery that gets
nothing, or ends the thread, since it commits an entry that the log does not have. -/
structure KeepsMirror [Zlib] (ifa : IfaStub) (req : ReplReq) (s : Server) : Prop where
  recovery : s.needsRecovery req = true → ifa.arrived req s = 0 ∨
    (s.smrLog.length : ℤ) + ifa.arrived req s ≤ req.committedIndex ∨
    ((ifa.arrived req s : ℤ) = req.lastIndex - s.lastIndex ∧
      s.lastIndex + 1 = s.smrLog.length ∧ s.clog.Room (ifa.arrived req s))
  order : s.needsRecovery req = false → req.mapopRecord.arg1 ≠ -1 →
    req.lastIndex = s.smrLog.length ∧ s.clog.Room 1

theorem commitRecovered_entries [Zlib] {remote : ℤ} (n : ℕ) (i : ℤ) {s s' : Server}
    (h : Server.commitRecovered remote n i s = .ok s') (hs : s.clog.Intact)
    (hroom : s.clog.Room n) :
    s'.clog.Intact ∧ s'.clog.entries = s.clog.entries ++ (s.smrLog.drop i.toNat).take n := by
  induction n generalizing i s with
  | zero =>
    cases h
    exact ⟨hs, by simp⟩
  | succ n ih =>
    obtain ⟨op, hat, hrest⟩ := bind_eq_ok.mp h
    obtain ⟨h0, hop⟩ := vectorAt_eq_ok_iff.mp hat
    obtain ⟨clog, hclog, hrest⟩ := bind_eq_ok.mp hrest
    obtain ⟨hintact, hroom', hentries⟩ := hs.write hroom hclog
    obtain ⟨hlt, rfl⟩ := List.getElem?_eq_some_iff.mp hop
    have hnext : (s.smrLog.drop i.toNat).take (n + 1) =
        s.smrLog[i.toNat] :: (s.smrLog.drop (i + 1).toNat).take n := by
      rw [List.drop_eq_getElem_cons hlt, List.take_succ_cons,
        show (i + 1).toNat = i.toNat + 1 by omega]
    rw [hnext]
    split_ifs at hrest
    all_goals
      obtain ⟨hdone, hmore⟩ := ih (i + 1) hrest hintact hroom'
      refine ⟨hdone, hmore.trans ?_⟩
      simp only [hentries, List.append_assoc, List.singleton_append]

theorem initiateRecovery_mirrors [Zlib] {ifa : IfaStub} {req : ReplReq} {s s' : Server}
    (hs : s.Mirrors) (hgap : s.needsRecovery req = true)
    (hkeeps : ifa.arrived req s = 0 ∨ ((ifa.arrived req s : ℤ) = req.lastIndex - s.lastIndex ∧
      s.lastIndex + 1 = s.smrLog.length ∧ s.clog.Room (ifa.arrived req s)))
    (h : s.initiateRecovery ifa req.lastIndex req.committedIndex = .ok s') : s'.Mirrors := by
  have hgap' : 1 < req.lastIndex - s.lastIndex := by simpa [Server.needsRecovery] using hgap
  cases initiateRecovery_cases h with
  | refused => exact ⟨hs.intact, hs.entries_eq⟩
  | broken log hack hget =>
    obtain ⟨es, hes, rfl⟩ := getRecoveryLog_inserts _ _ _ hget
    obtain ⟨-, hall⟩ := getRecoveryLog_arrived _ _ _ hget
    rw [IfaStub.arrived, if_pos hack] at hkeeps
    have hnone : es.length = 0 := by
      rcases hkeeps with hnone | ⟨hcount, -⟩
      · exact hes.trans hnone
      · exact absurd (hall.mpr (by omega)) Bool.false_ne_true
    refine ⟨hs.intact, ?_⟩
    rw [List.eq_nil_of_length_eq_zero hnone, List.append_nil, List.take_append_drop]
    exact hs.entries_eq
  | whole log _ hack hget hcommit =>
    obtain ⟨es, hes, rfl⟩ := getRecoveryLog_inserts _ _ _ hget
    obtain ⟨-, hall⟩ := getRecoveryLog_arrived _ _ _ hget
    rw [IfaStub.arrived, if_pos hack] at hkeeps
    have harrived := hall.mp rfl
    have hlen : es.length = (req.lastIndex - s.lastIndex).toNat := hes.trans harrived
    obtain ⟨-, hend, hroom⟩ := hkeeps.resolve_left (by omega)
    rw [harrived] at hroom
    obtain ⟨hintact, hentries⟩ := commitRecovered_entries _ _ hcommit hs.intact hroom
    refine ⟨hintact, ?_⟩
    rw [hentries, (commitRecovered_smrLog _ _ hcommit).1, hs.entries_eq]
    simp only [hend, Int.toNat_natCast, List.take_length, List.drop_length, List.append_nil,
      List.drop_left, ← hlen]

theorem ifaInsert_mirrors [Zlib] {req : ReplReq} {s s' : Server} (hs : s.Mirrors)
    (hend : req.lastIndex = s.smrLog.length) (hroom : s.clog.Room 1)
    (h : s.ifaInsert req = .ok s') : s'.Mirrors := by
  obtain ⟨clog, hclog, -, rfl⟩ := ifaInsert_cases h
  obtain ⟨hintact, -, hentries⟩ := hs.intact.write (n := 0) hroom hclog
  obtain ⟨hsynced, hsame⟩ := hintact.sync
  refine ⟨hsynced, ?_⟩
  simp only [walEnabled, if_true, hsame, hentries, hs.entries_eq, hend, Int.toNat_natCast,
    List.insertIdx_length_self]

theorem ifaThreadRead_mirrors [Zlib] {ifa : IfaStub} {req : ReplReq} {s s' : Server}
    (hs : s.Mirrors) (hifa : ifa.getReplicationRequest = some req)
    (hkeeps : KeepsMirror ifa req s) (h : s.ifaThreadRead ifa = .ok s') : s'.Mirrors := by
  rw [Server.ifaThreadRead_of_some hifa] at h
  obtain ⟨r, hreceive, hstore⟩ := bind_eq_ok.mp h
  suffices hr : r.Mirrors by
    refine ⟨?_, ?_⟩
    · rw [ifaStore_clog hstore]
      exact hr.intact
    · rw [ifaStore_clog hstore, (ifaStore_eq_ok hstore).1]
      exact hr.entries_eq
  have hlen := (ifaReceive_length hreceive).1
  unfold Server.ifaReceive at hreceive
  split_ifs at hreceive with hgap harg
  · refine initiateRecovery_mirrors hs hgap ?_ hreceive
    rcases hkeeps.recovery hgap with hnone | hends | hall
    · exact .inl hnone
    · -- the entry at the request's committed index would be missing
      exfalso
      have hgrown := hlen hgap
      unfold Server.ifaStore at hstore
      rw [if_pos (by omega)] at hstore
      have hlt := (lt_length_of_commitAt hstore).2
      simp only at hlt
      omega
    · exact .inr hall
  · obtain ⟨hend, hroom⟩ := hkeeps.order (by simpa using hgap) harg
    exact ifaInsert_mirrors hs hend hroom hreceive
  · cases hreceive
    exact hs

theorem adminAppend_mirrors [Zlib] {shipOrder : RobotInf} {s s' : Server} (hs : s.Mirrors)
    (hend : shipOrder.customerId ≠ -1 → s.lastIndex + 1 = s.smrLog.length ∧ s.clog.Room 1)
    (h : s.adminAppend shipOrder = .ok s') : s'.Mirrors := by
  cases adminAppend_cases h with
  | order clog horder hcount hclog =>
    obtain ⟨hend, hroom⟩ := hend horder
    obtain ⟨hintact, -, hentries⟩ := hs.intact.write (n := 0) hroom hclog
    refine ⟨hintact, ?_⟩
    simp only [hentries, hs.entries_eq, hend, Int.toNat_natCast, List.insertIdx_length_self]
  | marker => exact ⟨hs.intact, hs.entries_eq⟩

theorem start_mirrors [Zlib] {facId : ℤ} {factories : List FactoryRec} {file : List UInt8}
    {uninit : ℕ → Int32} {replies : List PeerReply} {s : Server}
    (h : Server.start facId factories file uninit replies = .ok s) : s.Mirrors := by
  obtain ⟨unread, last, record, -, rfl, -⟩ := initiateRecoveryFromLog_eq_ok h rfl rfl rfl rfl
  have hready := (opened_sound facId factories file uninit).ready
  exact ⟨⟨⟨hready.1, hready.2⟩, rfl, rfl, by simp [Server.opened, CommitLog.init, CommitLog.new]⟩,
    List.append_nil _⟩

/-- Every insertion goes to the end of both logs. -/
def Mirroring [Zlib] (c : Cluster) : Move → Prop
  | ⟨p, .begin shipOrder _⟩ => (c p).server.HasRoom shipOrder ∧ (shipOrder.customerId ≠ -1 →
      (c p).server.lastIndex + 1 = (c p).server.smrLog.length ∧ (c p).server.clog.Room 1)
  | ⟨p, a⟩ => NextHandled p c (fun ifa req s => req.Fits s ∧ KeepsMirror ifa req s) a

theorem Mirroring.handled [Zlib] {p : ℤ} {c : Cluster} {a : Action} (h : Mirroring c ⟨p, a⟩) :
    NextHandled p c (fun ifa req s => req.Fits s ∧ KeepsMirror ifa req s) a := by
  cases a with
  | replicate | ifaTurn => exact h
  | _ => trivial

theorem mirrors_step [Zlib] {c c' : Cluster} {m : Move} (h : ∀ s, (c s).server.Mirrors)
    (hok : Mirroring c m) (hstep : moveStep c m = some c') (s : ℤ) : (c' s).server.Mirrors := by
  obtain ⟨p, a⟩ := m
  refine servers_step h ?_ ?_ ?_ ?_ ?_ ?_ hstep s
  · intro s s' hs hsame
    refine ⟨hsame.clog_eq ▸ hs.intact, ?_⟩
    rw [hsame.clog_eq, hsame.smrLog_eq]
    exact hs.entries_eq
  · exact fun s hs => ⟨hs.intact.sync.1, hs.intact.sync.2.trans hs.entries_eq⟩
  · rintro shipOrder connect r s' rfl hrecheck happend
    obtain ⟨hclog, hlog, hlast⟩ := adminRecheck_keeps hrecheck
    refine adminAppend_mirrors ⟨hclog ▸ (h p).intact, ?_⟩ (fun horder => ?_) happend
    · rw [hclog, hlog]
      exact (h p).entries_eq
    · rw [hclog, hlog, hlast]
      exact hok.2 horder
  · exact hok.handled.imp fun ifa req t hreq hkeeps b' hread =>
      ifaThreadRead_mirrors (h t) hreq hkeeps.2 hread
  · intro s shipOrder hs
    unfold Server.adminCommit
    split_ifs
    · exact ⟨hs.intact, hs.entries_eq⟩
    · exact hs
  · rintro t file uninit replies id factories s' rfl hstart
    exact start_mirrors hstart

/-- In every state of a run whose steps insert at the end of both logs, the
entries in the commit log file, followed by those of the pending batch, are the
log of the server. -/
theorem writeAhead_mirrors_log [Zlib] {c₀ c : Cluster} (hfresh : Fresh c₀)
    (hrun : Run moveStep Mirroring c₀ c) (s : ℤ) :
    CommitLog.entriesOf (c s).server.clog.outfile.disk ++
      (c s).server.clog.commitLogWCrcBatch.map WalSmrEntry.data = (c s).server.smrLog := by
  have hinv := hrun.invariant (fun d => ∀ t, (d t).server.Mirrors)
    (fun _ _ _ hd hok hstep => mirrors_step hd hok hstep) fun t => by
      obtain ⟨factories, uninit, replies, hstart⟩ := hfresh.started t
      exact start_mirrors hstart
  exact (hinv s).entries_eq

theorem Mirroring.of_order [Zlib] {p : ℤ} {c : Cluster} {shipOrder : RobotInf} {req : ReplReq}
    {i : ℕ} {f : FactoryRec} (hadmin : (c p).admin = .replicating shipOrder req i)
    (hf : (c p).server.factoriesRecord[i]? = some f) (hfits : req.Fits (c f.factoryId).server)
    (hgap : (c f.factoryId).server.needsRecovery req = false)
    (hend : req.lastIndex = (c f.factoryId).server.smrLog.length)
    (hroom : (c f.factoryId).server.clog.Room 1) : Mirroring c ⟨p, .replicate Link.clean⟩ :=
  show NextHandled p c (fun ifa req s => req.Fits s ∧ KeepsMirror ifa req s) _ from
    .of_clean hadmin hf ⟨hfits, fun hneeds => absurd hneeds (by simp [hgap]),
      fun _ _ => ⟨hend, hroom⟩⟩

theorem Mirroring.of_recovery [Zlib] {p : ℤ} {c : Cluster} {shipOrder : RobotInf} {req : ReplReq}
    {i : ℕ} {f : FactoryRec} (hadmin : (c p).admin = .replicating shipOrder req i)
    (hf : (c p).server.factoriesRecord[i]? = some f) (hfits : req.Fits (c f.factoryId).server)
    (hgap : (c f.factoryId).server.needsRecovery req = true)
    (harrived : ((Link.clean.ifaStub req (c p).server.smrLog
      (c f.factoryId).server).arrived req (c f.factoryId).server : ℤ) =
        req.lastIndex - (c f.factoryId).server.lastIndex)
    (hend : (c f.factoryId).server.lastIndex + 1 = (c f.factoryId).server.smrLog.length)
    (hroom : (c f.factoryId).server.clog.Room ((Link.clean.ifaStub req (c p).server.smrLog
      (c f.factoryId).server).arrived req (c f.factoryId).server)) :
    Mirroring c ⟨p, .replicate Link.clean⟩ :=
  show NextHandled p c (fun ifa req s => req.Fits s ∧ KeepsMirror ifa req s) _ from
    .of_clean hadmin hf ⟨hfits, fun _ => .inr (.inr ⟨harrived, hend, hroom⟩),
      fun hno => by simp [hgap] at hno⟩

/-- Server 1 misses an order, recovers it with the next one and gets a third. -/
theorem writeAhead_mirrors_log_duo : ∃ c : Cluster,
    (c 1).server.smrLog = [⟨1, 7, 1⟩, ⟨1, 7, 2⟩, ⟨1, 7, 3⟩] ∧
    CommitLog.entriesOf (c 1).server.clog.outfile.disk ++
      (c 1).server.clog.commitLogWCrcBatch.map WalSmrEntry.data =
        [⟨1, 7, 1⟩, ⟨1, 7, 2⟩, ⟨1, 7, 3⟩] := by
  have hrun : ∃ c, Run moveStep Mirroring duo c ∧
      (c 1).server.smrLog = [⟨1, 7, 1⟩, ⟨1, 7, 2⟩, ⟨1, 7, 3⟩] := by
    refine ⟨_, ((((((((Run.start.next (a := ⟨0, .begin (orderOf7 1) fun _ => 5⟩)
      ⟨fun _ => by decide, fun _ => ⟨rfl, .inl (by decide)⟩⟩ rfl).next
      (a := ⟨0, .replicate Link.broken⟩) ?_ rfl).next
      (a := ⟨0, .finish⟩) trivial rfl).next (a := ⟨0, .clientClose 0⟩) trivial rfl).next
      (a := ⟨0, .begin (orderOf7 2) fun _ => 5⟩)
      ⟨fun _ => by decide, fun _ => ⟨rfl, .inl (by decide)⟩⟩ rfl).next
      (a := ⟨0, .replicate Link.clean⟩)
      (.of_recovery rfl rfl (by decide) rfl rfl rfl (.inl (by decide))) rfl).next
      (a := ⟨0, .finish⟩) trivial rfl).next (a := ⟨0, .begin (orderOf7 3) fun _ => 5⟩)
      ⟨fun _ => by decide, fun _ => ⟨rfl, .inl (by decide)⟩⟩ rfl).next
      (a := ⟨0, .replicate Link.clean⟩)
      (.of_order rfl rfl (by decide) rfl rfl (.inl (by decide))) rfl, rfl⟩
    rintro _ _ _ _ _ _ _ _ _ _ hsend
    cases hsend
  obtain ⟨c, hrun, hlog⟩ := hrun
  exact ⟨c, hlog, (writeAhead_mirrors_log duo_fresh hrun 1).trans hlog⟩

/-- The link on which the second entry of a recovery does not arrive. -/
def Link.torn : Link :=
  { Link.clean with recvEntry := fun k => if k = 0 then .message else .failure }

/-- A recovery that breaks off leaves an entry in the log that the file does not have. -/
theorem writeAhead_misses_entry : ∃ c : Cluster, Fresh duo ∧
    Run moveStep (fun _ _ => True) duo c ∧ (c 1).alive = true ∧
    (c 1).server.smrLog = [⟨1, 7, 1⟩] ∧
    CommitLog.entriesOf (c 1).server.clog.outfile.disk ++
      (c 1).server.clog.commitLogWCrcBatch.map WalSmrEntry.data = [] := by
  have hrun : ∃ c, Run moveStep (fun _ _ => True) duo c ∧ (c 1).alive = true ∧
      (c 1).server.smrLog = [⟨1, 7, 1⟩] ∧ (c 1).server.clog.outfile.disk = [] ∧
      (c 1).server.clog.commitLogWCrcBatch = [] :=
    ⟨_, (((((Run.start.next (a := ⟨0, .begin (orderOf7 1) fun _ => 5⟩) trivial rfl).next
      (a := ⟨0, .replicate Link.broken⟩) trivial rfl).next (a := ⟨0, .finish⟩) trivial rfl).next
      (a := ⟨0, .clientClose 0⟩) trivial rfl).next
      (a := ⟨0, .begin (orderOf7 2) fun _ => 5⟩) trivial rfl).next
      (a := ⟨0, .replicate Link.torn⟩) trivial rfl, rfl, rfl, rfl, rfl⟩
  obtain ⟨c, hrun, halive, hlog, hdisk, hbatch⟩ := hrun
  refine ⟨c, duo_fresh, hrun, halive, hlog, ?_⟩
  rw [hdisk, hbatch, List.map_nil, List.append_nil]
  exact CommitLog.entriesOf_nil

end RobotFactory
