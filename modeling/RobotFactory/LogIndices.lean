import RobotFactory.CommittedReplay

/-!
# The log ends at the last index

`last_index` is set apart from the log in five places. The two stay together as
long as a replay at startup reaches the end of the entries found, an order comes
at the index behind the last one, a marker at the last one, and a recovery that
is entered receives all its entries. Then every insertion behind the last index
is an append, and a recovery sends nothing behind it.
-/
namespace RobotFactory
open TransitionSystem ReplayLog

/-- What one turn of `ifa_thread_body` keeps, if the request it handles does. -/
theorem server_turn [Zlib] {P : Server → Prop} {ifa : IfaStub} {sendAck : Bool} {b b' : Server}
    (hsame : ∀ s s' : Server, P s → s.SameState s' → P s') (hb : P b)
    (hread : ∀ received, ifa.getReplicationRequest = some received →
      ∀ r, b.ifaThreadRead ifa = .ok r → P r)
    (h : b.ifaThreadTurn sendAck ifa = .ok b') : P b' := by
  obtain ⟨r, hr, hack⟩ := bind_eq_ok.mp h
  suffices hP : P r by
    cases hack
    split_ifs
    · exact hP
    · exact hsame _ _ hP ⟨rfl, rfl, rfl, rfl, rfl⟩
  cases hreq : ifa.getReplicationRequest with
  | none =>
    rw [Server.ifaThreadRead_of_none hreq] at hr
    cases hr
    exact hsame _ _ hb ⟨rfl, rfl, rfl, rfl, rfl⟩
  | some received => exact hread received hreq r hr

/-- What the functions of a server keep holds of all servers after a step. -/
theorem servers_step [Zlib] {P : Server → Prop} {p : ℤ} {c c' : Cluster} {a : Action}
    (h : ∀ s, P (c s).server)
    (hsame : ∀ s s' : Server, P s → s.SameState s' → P s')
    (hclose : ∀ s : Server, P s → P { s with clog := s.clog.sync })
    (hbegin : ∀ shipOrder connect r s', a = .begin shipOrder connect →
      (c p).server.adminRecheck connect = .ok r → r.adminAppend shipOrder = .ok s' → P s')
    (hread : NextHandled p c (fun ifa _ b => ∀ b', b.ifaThreadRead ifa = .ok b' → P b') a)
    (hfinish : ∀ (s : Server) (shipOrder : RobotInf), P s → P (s.adminCommit shipOrder))
    (hstart : ∀ t file uninit replies id factories s', a = .restart t file uninit replies →
      Server.start id factories file uninit replies = .ok s' → P s')
    (hstep : step p c a = some c') (s : ℤ) : P (c' s).server := by
  have hupdate {d : Cluster} (hd : ∀ t, P (d t).server) (t : ℤ) {n : Node} (hn : P n.server) :
      ∀ u, P (Function.update d t n u).server :=
    Cluster.update_all (fun _ m => P m.server) hd hn
  have hpeer (shipOrder : RobotInf) (req : ReplReq) (i : ℕ) (f : FactoryRec) (kept stale : Bool) :
      P ((c p).afterPeer shipOrder req i f kept stale).server :=
    hsame _ _ (h p) ⟨rfl, rfl, rfl, rfl, rfl⟩
  have hturn {n : Node} (hn : P n.server) (backup : Except Fault Server)
      (hbackup : ∀ b, backup = .ok b → P b) : P (n.afterExchange backup).server := by
    unfold Node.afterExchange
    cases hb : backup with
    | error fault => exact hn
    | ok b => exact hbackup b hb
  cases step_cases hstep with
  | begin shipOrder connect =>
    refine hupdate h p ?_ s
    unfold Node.beginIteration
    cases hs : (c p).server.adminRecheck connect >>= Server.adminAppend shipOrder with
    | error fault => exact h p
    | ok s' =>
      obtain ⟨r, hrecheck, happend⟩ := bind_eq_ok.mp hs
      exact hbegin shipOrder connect r s' rfl hrecheck happend
  | skipped link shipOrder req i f => exact hupdate h p (hpeer ..) s
  | exchanged link shipOrder req i f _ hadmin hf hsocket halive _ _ result hresult =>
    refine hupdate (hupdate h f.factoryId (hturn (h f.factoryId) _ fun b hb => ?_)) p (hpeer ..) s
    rw [← hresult] at hb
    rcases exchange_backup link ((c p).stale f.factoryId) req (c p).server.smrLog
      (c f.factoryId).server with hkept | ⟨hstale, hsend, hhandled⟩
    · rw [hkept, Except.ok.injEq] at hb
      exact hb ▸ h f.factoryId
    · rw [hhandled] at hb
      exact server_turn hsame (h f.factoryId) (fun received hreq b' hb' => hread shipOrder req i f
        received hadmin hf hsocket halive hstale hsend hreq b' hb') hb
  | ifaTurn t ifa sendAck =>
    exact hupdate h t (hturn (h t) _ fun b hb => server_turn hsame (h t) hread hb) s
  | unanswered link shipOrder req i f => exact hupdate h p (hpeer ..) s
  | finish shipOrder req i => exact hupdate h p (hfinish _ shipOrder (h p)) s
  | clientClose t =>
    have hclosed : P (c t).clientClosed.server :=
      hsame { (c t).server with clog := (c t).server.clog.sync } _ (hclose _ (h t))
        ⟨rfl, rfl, rfl, rfl, rfl⟩
    exact hupdate h t hclosed s
  | replicationClose t =>
    have hclosed : P (c t).replicationClosed.server := hsame _ _ (h t) ⟨rfl, rfl, rfl, rfl, rfl⟩
    exact hupdate h t hclosed s
  | crash t => exact hupdate h t (n := { c t with alive := false }) (h t) s
  | restart t file uninit replies n _ hn =>
    obtain ⟨s', hs', rfl⟩ := Node.start_of_restarted hn
    exact hupdate h t (hstart t file uninit replies _ _ s' rfl hs') s

/-- The representation invariant of the replicated log. -/
structure Server.Aligned (s : Server) : Prop where
  length_eq : (s.smrLog.length : ℤ) = s.lastIndex + 1
  committed_ge : -1 ≤ s.committedIndex
  committed_le : s.committedIndex ≤ s.lastIndex

/-- The number of entries that a recovery adds to the log. -/
def IfaStub.arrived (ifa : IfaStub) (req : ReplReq) (s : Server) : ℕ :=
  if ifa.recoveryAck then
    arrivedEntries ifa.recvEntry (req.lastIndex - s.lastIndex).toNat 0
  else 0

/-- A request that adds as many entries as it moves the last index, or that ends
the thread, since it commits an entry that the log does not have. -/
structure KeepsIndex (ifa : IfaStub) (req : ReplReq) (s : Server) : Prop where
  recovery : s.needsRecovery req = true →
    (ifa.arrived req s : ℤ) = req.lastIndex - s.lastIndex ∨
      (s.smrLog.length : ℤ) + ifa.arrived req s ≤ req.committedIndex
  order : s.needsRecovery req = false → req.mapopRecord.arg1 ≠ -1 →
    req.lastIndex = s.lastIndex + 1
  marker : s.needsRecovery req = false → req.mapopRecord.arg1 = -1 →
    req.lastIndex = s.lastIndex ∨ (s.smrLog.length : ℤ) ≤ req.committedIndex

/-- A replay reaches the end of the `size` entries found: there are none, or the
first peer that answers reports at least the last of them, or 0, or none answers. -/
def ReplaysAll (size : ℕ) (replies : List PeerReply) : Prop :=
  size = 0 ∨ firstCommitedIndex replies = 0 ∨ (size : ℤ) - 1 ≤ firstCommitedIndex replies

/-- The last index moves with the end of the log. -/
def Aligning [Zlib] (c : Cluster) : Move → Prop
  | ⟨p, .begin shipOrder _⟩ => (c p).server.HasRoom shipOrder
  | ⟨_, .restart _ file _ replies⟩ => ReplaysAll (CommitLog.entriesOf file).length replies
  | ⟨p, a⟩ => NextHandled p c (fun ifa req s => req.Fits s ∧ KeepsIndex ifa req s) a

theorem Aligning.handled [Zlib] {p : ℤ} {c : Cluster} {a : Action} (h : Aligning c ⟨p, a⟩) :
    NextHandled p c (fun ifa req s => req.Fits s ∧ KeepsIndex ifa req s) a := by
  cases a with
  | replicate | ifaTurn => exact h
  | _ => trivial

theorem ifaReceive_length [Zlib] {ifa : IfaStub} {req : ReplReq} {s s' : Server}
    (h : s.ifaReceive ifa req = .ok s') :
    (s.needsRecovery req = true → s'.smrLog.length = s.smrLog.length + ifa.arrived req s) ∧
    (s.needsRecovery req = false → req.mapopRecord.arg1 ≠ -1 →
      s'.smrLog.length = s.smrLog.length + 1) ∧
    (s.needsRecovery req = false → req.mapopRecord.arg1 = -1 →
      s'.smrLog.length = s.smrLog.length) := by
  unfold Server.ifaReceive at h
  split_ifs at h with hgap harg
  · refine ⟨fun _ => ?_, fun hno => by simp [hgap] at hno, fun hno => by simp [hgap] at hno⟩
    cases initiateRecovery_cases h with
    | refused hack => simp [IfaStub.arrived, hack]
    | broken log hack hget =>
      rw [IfaStub.arrived, if_pos hack]
      exact (getRecoveryLog_arrived _ _ _ hget).1
    | whole log _ hack hget hcommit =>
      rw [(commitRecovered_smrLog _ _ hcommit).1, IfaStub.arrived, if_pos hack]
      exact (getRecoveryLog_arrived _ _ _ hget).1
  · refine ⟨fun hyes => absurd hyes hgap, fun _ _ => ?_, fun _ heq => absurd heq harg⟩
    obtain ⟨clog, -, hrange, rfl⟩ := ifaInsert_cases h
    have hle : req.lastIndex.toNat ≤ s.smrLog.length := by omega
    exact List.length_insertIdx_of_le_length hle _
  · cases h
    exact ⟨fun hyes => absurd hyes hgap, fun _ hne => absurd hne harg, fun _ _ => rfl⟩

theorem ifaReceive_committed_le [Zlib] {ifa : IfaStub} {req : ReplReq} {s s' : Server}
    (hge : -1 ≤ s.lastIndex) (h : s.ifaReceive ifa req = .ok s') :
    s'.committedIndex = s.committedIndex ∨
      0 ≤ s'.committedIndex ∧ s'.committedIndex ≤ req.committedIndex := by
  by_cases hgap : s.needsRecovery req = true
  · unfold Server.ifaReceive at h
    rw [if_pos hgap] at h
    cases initiateRecovery_cases h with
    | refused | broken => exact .inl rfl
    | whole log _ _ _ hcommit =>
      have h0 : 0 ≤ s.lastIndex + 1 := by omega
      have hcommitted := commitRecovered_committed _ _ hcommit h0
      exact hcommitted
  · exact .inl (ifaReceive_committed (by simpa using hgap) h)

theorem ifaThreadRead_aligned [Zlib] {ifa : IfaStub} {req : ReplReq} {s s' : Server}
    (hs : s.Aligned) (hifa : ifa.getReplicationRequest = some req) (hkeeps : KeepsIndex ifa req s)
    (h : s.ifaThreadRead ifa = .ok s') : s'.Aligned := by
  rw [Server.ifaThreadRead_of_some hifa] at h
  obtain ⟨r, hreceive, hstore⟩ := bind_eq_ok.mp h
  obtain ⟨hrec, horder, hmarker⟩ := ifaReceive_length hreceive
  have hge := hs.committed_ge
  have hle := hs.committed_le
  have hlen := hs.length_eq
  have hcommitted := ifaReceive_committed_le (by omega) hreceive
  obtain ⟨hlog, hlast, hsome, hnone⟩ := ifaStore_eq_ok hstore
  have hrange : req.committedIndex = -1 ∨
      0 ≤ req.committedIndex ∧ req.committedIndex < r.smrLog.length := by
    by_cases hneg : req.committedIndex = -1
    · exact .inl hneg
    · unfold Server.ifaStore at hstore
      rw [if_pos hneg] at hstore
      have hlt := lt_length_of_commitAt hstore
      exact .inr hlt
  have hend : (r.smrLog.length : ℤ) = req.lastIndex + 1 := by
    by_cases hgap : s.needsRecovery req = true
    · have := hrec hgap
      have := hkeeps.recovery hgap
      omega
    · have hgap' : s.needsRecovery req = false := by simpa using hgap
      by_cases harg : req.mapopRecord.arg1 = -1
      · have := hmarker hgap' harg
        have := hkeeps.marker hgap' harg
        omega
      · have := horder hgap' harg
        have := hkeeps.order hgap' harg
        omega
  have hgrown : s.smrLog.length ≤ r.smrLog.length := by
    by_cases hgap : s.needsRecovery req = true
    · rw [hrec hgap]
      exact Nat.le_add_right _ _
    · have hgap' : s.needsRecovery req = false := by simpa using hgap
      by_cases harg : req.mapopRecord.arg1 = -1
      · rw [hmarker hgap' harg]
      · rw [horder hgap' harg]
        exact Nat.le_succ _
  refine ⟨by rw [hlog, hlast, hend], ?_, ?_⟩ <;>
    rcases hrange with hneg | hrange
  · have := hnone hneg
    omega
  · have := hsome (by omega)
    omega
  · have := hnone hneg
    omega
  · have := hsome (by omega)
    omega

theorem adminRecheck_aligned {connect : ℤ → ℤ} {s s' : Server} (hs : s.Aligned)
    (h : s.adminRecheck connect = .ok s') : s'.Aligned := by
  cases adminRecheck_cases h with
  | skipped => exact hs
  | current => exact ⟨hs.length_eq, hs.committed_ge, hs.committed_le⟩
  | committed op _ h0 =>
    have hge : -1 ≤ s.lastIndex := by omega
    exact ⟨hs.length_eq, hge, le_rfl⟩

theorem adminAppend_aligned [Zlib] {shipOrder : RobotInf} {s s' : Server} (hs : s.Aligned)
    (h : s.adminAppend shipOrder = .ok s') : s'.Aligned := by
  have hge := hs.committed_ge
  have hle := hs.committed_le
  have hlen := hs.length_eq
  cases adminAppend_cases h with
  | order clog _ _ hrange =>
    refine ⟨?_, hge, by simp only [Server.committedIndex, Server.lastIndex] at *; omega⟩
    simp only [Server.lastIndex] at *
    rw [List.length_insertIdx_of_le_length (by omega)]
    omega
  | marker => exact ⟨hlen, hge, hle⟩

theorem adminCommit_aligned {s : Server} (hs : s.Aligned) (shipOrder : RobotInf) :
    (s.adminCommit shipOrder).Aligned := by
  have hge := hs.committed_ge
  have hle := hs.committed_le
  unfold Server.adminCommit
  split_ifs
  · exact ⟨hs.length_eq, by simp only [Server.committedIndex, Server.lastIndex] at *; omega, le_rfl⟩
  · exact hs

theorem start_aligned [Zlib] {facId : ℤ} {factories : List FactoryRec} {file : List UInt8}
    {uninit : ℕ → Int32} {replies : List PeerReply} {s : Server}
    (hall : ReplaysAll (CommitLog.entriesOf file).length replies)
    (h : Server.start facId factories file uninit replies = .ok s) : s.Aligned := by
  obtain ⟨unread, last, record, hlast, rfl, hrep, -⟩ :=
    initiateRecoveryFromLog_eq_ok h rfl rfl rfl rfl
  have hle := hrep.le_length
  change last = Server.replayedTo (firstCommitedIndex replies)
    (CommitLog.entriesOf file).length at hlast
  change (last + 1).toNat ≤ (CommitLog.entriesOf file).length at hle
  have hend : last = ((CommitLog.entriesOf file).length : ℤ) - 1 := by
    rw [replayedTo_eq] at hlast
    rcases hall with hall | hall | hall <;> split_ifs at hlast <;> omega
  refine ⟨?_, ?_, le_rfl⟩
  · change ((CommitLog.entriesOf file).length : ℤ) = last + 1
    omega
  · change -1 ≤ last
    omega

/-- One step keeps every log aligned with its indices. -/
theorem aligned_step [Zlib] {c c' : Cluster} {m : Move} (h : ∀ s, (c s).server.Aligned)
    (hok : Aligning c m) (hstep : moveStep c m = some c') (s : ℤ) : (c' s).server.Aligned := by
  obtain ⟨p, a⟩ := m
  refine servers_step h ?_ ?_ ?_ ?_ ?_ ?_ hstep s
  · intro s s' hs hsame
    refine ⟨?_, ?_, ?_⟩
    · rw [hsame.smrLog_eq, hsame.lastIndex_eq]
      exact hs.length_eq
    · rw [hsame.committedIndex_eq]
      exact hs.committed_ge
    · rw [hsame.committedIndex_eq, hsame.lastIndex_eq]
      exact hs.committed_le
  · exact fun s hs => ⟨hs.length_eq, hs.committed_ge, hs.committed_le⟩
  · intro shipOrder connect r s' _ hrecheck happend
    exact adminAppend_aligned (adminRecheck_aligned (h p) hrecheck) happend
  · exact hok.handled.imp fun ifa req t hreq hkeeps b' hread =>
      ifaThreadRead_aligned (h t) hreq hkeeps.2 hread
  · exact fun s shipOrder hs => adminCommit_aligned hs shipOrder
  · rintro t file uninit replies id factories s' rfl hstart
    exact start_aligned hok hstart

theorem Server.Aligned.insert_eq_append {s : Server} (h : s.Aligned) (op : MapOp) :
    vectorInsert s.smrLog (s.lastIndex + 1) op = .ok (s.smrLog ++ [op]) := by
  have hlen := h.length_eq
  rw [← hlen, vectorInsert_of_le op (by omega) le_rfl, Int.toNat_natCast,
    List.insertIdx_length_self]

/-- A recovery from an aligned log sends nothing behind the last index. -/
theorem Server.Aligned.sent_le {s : Server} (h : s.Aligned) (sendEntry : ℕ → Bool)
    {index : ℤ} {k : ℕ} (hk : k < (sendRecoveryLog (some index) sendEntry s.smrLog).1.length) :
    index + 1 + k ≤ s.lastIndex := by
  have hlen := h.length_eq
  by_cases hneg : index + 1 < 0
  · simp [sendRecoveryLog, hneg] at hk
  · rw [Link.sendRecoveryLog_some (by omega)] at hk
    have hle := Link.length_sendEntries_le sendEntry 0 (s.smrLog.drop (index + 1).toNat)
    rw [List.length_drop] at hle
    omega

/-- In every state of a run whose steps move the last index with the end of the
log, the log of every server ends at the last index, so that the next entry is
appended and a recovery sends nothing behind it. -/
theorem log_ends_at_lastIndex [Zlib] {c₀ c : Cluster} (hfresh : Fresh c₀)
    (hrun : Run moveStep Aligning c₀ c) (s : ℤ) :
    ((c s).server.smrLog.length : ℤ) = (c s).server.lastIndex + 1 ∧
    -1 ≤ (c s).server.committedIndex ∧ (c s).server.committedIndex ≤ (c s).server.lastIndex ∧
    (∀ op, vectorInsert (c s).server.smrLog ((c s).server.lastIndex + 1) op =
      .ok ((c s).server.smrLog ++ [op])) ∧
    ∀ (index : ℤ) (sendEntry : ℕ → Bool) (k : ℕ),
      k < (sendRecoveryLog (some index) sendEntry (c s).server.smrLog).1.length →
      index + 1 + k ≤ (c s).server.lastIndex := by
  have hinv := hrun.invariant (fun d => ∀ t, (d t).server.Aligned)
    (fun _ _ _ hd hok hstep => aligned_step hd hok hstep) fun t => by
      have hblank := hfresh.blank t
      refine ⟨?_, hblank.committed_eq.ge, ?_⟩
      · rw [hblank.log_eq, hblank.last_eq]
        rfl
      · rw [hblank.committed_eq, hblank.last_eq]
  have hs := hinv s
  exact ⟨hs.length_eq, hs.committed_ge, hs.committed_le, hs.insert_eq_append,
    fun _ sendEntry _ hk => hs.sent_le sendEntry hk⟩

/-- A recovery that receives all entries. -/
theorem Aligning.of_recovery [Zlib] {p : ℤ} {c : Cluster} {shipOrder : RobotInf} {req : ReplReq}
    {i : ℕ} {f : FactoryRec} (hadmin : (c p).admin = .replicating shipOrder req i)
    (hf : (c p).server.factoriesRecord[i]? = some f) (hfits : req.Fits (c f.factoryId).server)
    (hgap : (c f.factoryId).server.needsRecovery req = true)
    (harrived : ((Link.clean.ifaStub req (c p).server.smrLog
      (c f.factoryId).server).arrived req (c f.factoryId).server : ℤ) =
        req.lastIndex - (c f.factoryId).server.lastIndex) :
    Aligning c ⟨p, .replicate Link.clean⟩ :=
  show NextHandled p c (fun ifa req s => req.Fits s ∧ KeepsIndex ifa req s) _ from
    .of_clean hadmin hf ⟨hfits, fun _ => .inl harrived, fun hno => by simp [hgap] at hno,
      fun hno => by simp [hgap] at hno⟩

/-- Server 1 misses the first order and recovers it with the second. -/
theorem log_ends_at_lastIndex_duo : ∃ c : Cluster,
    (c 1).server.smrLog = [⟨1, 7, 1⟩, ⟨1, 7, 2⟩] ∧ (c 1).server.lastIndex = 1 ∧
    vectorInsert (c 1).server.smrLog 2 ⟨1, 8, 1⟩ = .ok [⟨1, 7, 1⟩, ⟨1, 7, 2⟩, ⟨1, 8, 1⟩] := by
  have hrun : ∃ c, Run moveStep Aligning duo c ∧
      (c 1).server.smrLog = [⟨1, 7, 1⟩, ⟨1, 7, 2⟩] ∧ (c 1).server.lastIndex = 1 := by
    refine ⟨_, (((((((Run.start.next (a := ⟨0, .begin (orderOf7 1) fun _ => 5⟩) (fun _ => by decide)
      rfl).next (a := ⟨0, .replicate Link.broken⟩) ?_ rfl).next
      (a := ⟨0, .finish⟩) trivial rfl).next (a := ⟨0, .clientClose 0⟩) trivial rfl).next
      (a := ⟨0, .begin (orderOf7 2) fun _ => 5⟩) (fun _ => by decide) rfl).next
      (a := ⟨0, .replicate Link.clean⟩)
      (.of_recovery rfl rfl (by decide) rfl rfl) rfl).next (a := ⟨0, .finish⟩) trivial rfl),
      rfl, rfl⟩
    rintro _ _ _ _ _ _ _ _ _ _ hsend
    cases hsend
  obtain ⟨c, hrun, hlog, hlast⟩ := hrun
  obtain ⟨-, -, -, hinsert, -⟩ := log_ends_at_lastIndex duo_fresh hrun 1
  refine ⟨c, hlog, hlast, ?_⟩
  have happend := hinsert ⟨1, 8, 1⟩
  rw [hlog, hlast] at happend
  rw [hlog]
  exact happend

/-- Server 0 starts on a file with one record, and its peer has committed nothing. -/
theorem log_beyond_lastIndex : ∃ c : Cluster, Fresh duo ∧
    Run moveStep (fun _ _ => True) duo c ∧ (c 0).alive = true ∧
    (c 0).server.smrLog = [⟨1, 7, 1⟩] ∧ (c 0).server.lastIndex = -1 ∧
    ((c 0).server.smrLog.length : ℤ) ≠ (c 0).server.lastIndex + 1 := by
  let file := CommitLog.fileOf [⟨1, 7, 1⟩]
  have hfile : CommitLog.entriesOf file = [⟨1, 7, 1⟩] := CommitLog.entriesOf_fileOf _
  obtain ⟨s, hstart, hs, -⟩ := start_replays 0 [⟨1, -1⟩] (fun _ => 0)
    (show (CommitLog.entriesOf file).length < 2 ^ 31 by rw [hfile]; decide)
    (show Server.replayedTo (firstCommitedIndex [.committed (-1)]) _ < _ by rw [hfile]; decide)
  rw [hfile] at hs
  have hrestart := step_restart (p := 0) (c := Function.update duo 0 { duo 0 with alive := false })
    (s := 0) rfl hstart
  refine ⟨_, duo_fresh, (Run.start.next (a := ⟨0, .crash 0⟩) trivial rfl).next
    (a := ⟨0, .restart 0 file (fun _ => 0) [.committed (-1)]⟩) trivial hrestart, ?_⟩
  rw [Function.update_self]
  refine ⟨rfl, hs.log_eq, hs.last_eq, ?_⟩
  rw [hs.log_eq, hs.last_eq]
  decide

end RobotFactory
