import RobotFactory.Rejoin
import RobotFactory.WriteAheadMirror

/-!
# A backup recovers from its own commit log

A backup that crashes loses the pending batch and keeps a part of its commit log file.
As long as no torn record is left in the file and each restart replays everything that
it finds, the commit log goes on to be the log of the backup, so that the entries it
replays at the next restart are again those of the primary.
-/
namespace RobotFactory
open TransitionSystem RecordStream

namespace CommitLog

/-- Nothing stands in the file behind its readable records. -/
def Unbroken [Zlib] (c : CommitLog) : Prop :=
  walSmrEntryCodec.size * (entriesOf c.outfile.disk).length = c.outfile.disk.length

theorem Unbroken.sync [Zlib] {c : CommitLog} (hc : c.Intact) (h : c.Unbroken) :
    c.sync.Unbroken := by
  have hdisk : c.sync.outfile.disk = c.outfile.disk := by
    simp [CommitLog.sync, OutFile.contents, hc.buffer_eq]
  rw [Unbroken, hdisk]
  exact h

theorem Unbroken.write [Zlib] {c c' : CommitLog} {op : MapOp} (hc : c.Intact) (h : c.Unbroken)
    (hw : writeAhead c op = .ok c') : c'.Unbroken := by
  obtain ⟨-, hroom, -⟩ := hc.write (n := c'.batchSize) (.inr h) hw
  exact hroom.resolve_left (by omega)

theorem writeAhead_batchSize [Zlib] {c c' : CommitLog} {op : MapOp} (h : writeAhead c op = .ok c') :
    c'.batchSize = c.batchSize := by
  obtain ⟨⟨batch, out⟩, -, hc⟩ := bind_eq_ok.mp h
  cases hc
  rfl

/-- A commit log as `start` makes it, with nothing behind the readable records. -/
structure Orderly [Zlib] (c : CommitLog) : Prop where
  intact : c.Intact
  unbroken : c.Unbroken
  batchSize_eq : c.batchSize = batchSizeDefault.toNat

theorem Orderly.write [Zlib] {c c' : CommitLog} {op : MapOp} (h : c.Orderly)
    (hw : writeAhead c op = .ok c') : c'.Orderly :=
  ⟨(h.intact.write (n := 0) (.inr h.unbroken) hw).1, h.unbroken.write h.intact hw,
    (writeAhead_batchSize hw).trans h.batchSize_eq⟩

theorem Orderly.sync [Zlib] {c : CommitLog} (h : c.Orderly) : c.sync.Orderly :=
  ⟨h.intact.sync.1, h.unbroken.sync h.intact, h.batchSize_eq⟩

/-- A file that is cut anywhere holds some of the first entries. -/
theorem entriesOf_prefix [Zlib] {file file' : List UInt8} (h : file <+: file') :
    entriesOf file <+: entriesOf file' :=
  (Codec.readWhile_prefix _ _ h).map _

end CommitLog

theorem ifaThreadRead_clog [Zlib] {P : CommitLog → Prop} {ifa : IfaStub} {s s' : Server}
    (hwrite : ∀ c op c', P c → writeAhead c op = .ok c' → P c') (hsync : ∀ c, P c → P c.sync)
    (hs : P s.clog) (h : s.ifaThreadRead ifa = .ok s') : P s'.clog := by
  have hcommit (remote : ℤ) (n : ℕ) (i : ℤ) {r r' : Server} (hr : P r.clog)
      (hok : Server.commitRecovered remote n i r = .ok r') : P r'.clog := by
    induction n generalizing i r with
    | zero =>
      cases hok
      exact hr
    | succ n ih =>
      obtain ⟨op, -, hrest⟩ := bind_eq_ok.mp hok
      obtain ⟨clog, hclog, hrest⟩ := bind_eq_ok.mp hrest
      have hnext := hwrite _ _ _ hr hclog
      split_ifs at hrest <;> exact ih (i + 1) hnext hrest
  cases hreq : ifa.getReplicationRequest with
  | none =>
    rw [Server.ifaThreadRead_of_none hreq] at h
    cases h
    exact hs
  | some req =>
    rw [Server.ifaThreadRead_of_some hreq] at h
    obtain ⟨r, hreceive, hstore⟩ := bind_eq_ok.mp h
    rw [ifaStore_clog hstore]
    unfold Server.ifaReceive at hreceive
    split_ifs at hreceive
    · cases initiateRecovery_cases hreceive with
      | refused | broken => exact hs
      | whole log _ _ _ hdone =>
        have hstart : P (Server.clog { s with smrLog := log }) := hs
        exact hcommit _ _ _ hstart hdone
    · obtain ⟨clog, hclog, -, rfl⟩ := ifaInsert_cases hreceive
      exact hsync _ (hwrite _ _ _ hs hclog)
    · cases hreceive
      exact hs

theorem arrivedEntries_all {recvEntry : ℕ → Option MapOp} (n k : ℕ)
    (h : ∀ j < n, (recvEntry (k + j)).isSome) : arrivedEntries recvEntry n k = n := by
  induction n generalizing k with
  | zero => rfl
  | succ n ih =>
    have hrest : ∀ j < n, (recvEntry (k + 1 + j)).isSome := fun j hj => by
      simpa [Nat.add_assoc, Nat.add_comm 1 j] using h (j + 1) (by omega)
    have hhead : (recvEntry k).isSome := h 0 (by omega)
    rw [arrivedEntries, if_pos hhead, ih (k + 1) hrest]

/-- A backup whose log ends at its last index inserts at the end of both logs. -/
theorem keepsMirror_of_joined [Zlib] {link : Link} {s b : Server} {shipOrder : RobotInf}
    {req : ReplReq} (hserving : s.Serving shipOrder req)
    (hlast : s.lastIndex = (s.smrLog.length : ℤ) - 1)
    (hb : b.Joined (s.smrLog.take (req.committedIndex + 1).toNat) []) (hjoins : Joins link req b)
    (hclog : b.clog.Unbroken) : KeepsMirror (link.ifaStub req s.smrLog b) req b := by
  have hlen := hserving.length_take_committed hlast
  have hlt := hb.last_lt
  have hge := hb.last_ge
  have hreq := hserving.last_eq
  have hend : b.lastIndex + 1 = b.smrLog.length := by
    have hlength := hb.length_take
    rw [hb.log_eq, List.append_nil, hlength]
    omega
  refine ⟨fun hneeds => .inr (.inr ⟨?_, hend, .inr hclog⟩), fun hgap harg => ⟨?_, .inr hclog⟩⟩
  · obtain ⟨hdone, hcalls⟩ := hjoins.recovery hneeds
    have hgap : 1 < req.lastIndex - b.lastIndex := by
      simpa [Server.needsRecovery] using hneeds
    have hack : (link.ifaStub req s.smrLog b).recoveryAck = true := hcalls.sendRecoveryAck
    have hcount : arrivedEntries (link.ifaStub req s.smrLog b).recvEntry
        (req.lastIndex - b.lastIndex).toNat 0 = (req.lastIndex - b.lastIndex).toNat := by
      refine arrivedEntries_all _ _ fun j hj => ?_
      rw [hcalls.recvEntry_eq hb.sound.committed_ge,
        List.getElem?_eq_getElem (by rw [List.length_drop]; omega)]
      rfl
    rw [IfaStub.arrived, if_pos hack, hcount]
    omega
  · have hsucc := hserving.honest.order harg
    simp only [Server.needsRecovery, decide_eq_false_iff_not] at hgap
    omega

/-- A replay that reaches the end leaves no entry behind its index. -/
theorem ReplaysAll.drop_eq_nil {entries : List MapOp} {replies : List PeerReply}
    (h : ReplaysAll entries.length replies) : entries.drop
      (Server.replayedTo (firstCommitedIndex replies) entries.length + 1).toNat = [] := by
  rw [List.drop_eq_nil_iff, replayedTo_eq]
  rcases h with h | h | h <;> split_ifs <;> omega

/-- The steps from which `b` recovers: they are as in `Rejoining`, except that `b`
restarts on whole records from the front of its own file, all of which it replays. -/
def Reloading [Zlib] (p b : ℤ) (c : Cluster) : Action → Prop
  | .restart s file _ replies => s ≠ p ∧ (s = b →
      file <+: (c b).server.clog.outfile.disk ∧
      walSmrEntryCodec.size * (CommitLog.entriesOf file).length = file.length ∧
      ReplaysAll (CommitLog.entriesOf file).length replies)
  | a => Rejoining p b c a

/-- The backup `b` of `p` has a part of the log of `p`, in memory and on disk. -/
structure Recoverable [Zlib] (p b : ℤ) (c : Cluster) : Prop where
  rejoined : Rejoined p b [] c
  peer : b ∈ (c p).server.peerIds
  mirrors : (c b).server.Mirrors
  orderly : (c b).server.clog.Orderly

theorem recoverable_of_fresh [Zlib] {p b : ℤ} {c : Cluster} (h : Fresh c)
    (hpeer : b ∈ (c p).server.peerIds) : Recoverable p b c := by
  obtain ⟨factories, uninit, replies, hstart⟩ := h.started b
  have hmirrors := start_mirrors hstart
  refine ⟨rejoined_of_fresh p b h, hpeer, hmirrors, hmirrors.intact, ?_, ?_⟩ <;>
    rw [start_empty, Except.ok.injEq] at hstart <;> rw [← hstart]
  swap
  · rfl
  change walSmrEntryCodec.size * (CommitLog.entriesOf []).length = 0
  rw [CommitLog.entriesOf_nil, List.length_nil, Nat.mul_zero]

namespace Recoverable

theorem ne [Zlib] {p b : ℤ} {c : Cluster} (h : Recoverable p b c) : b ≠ p := by
  rintro rfl
  exact h.rejoined.roster.others b h.peer

/-- What `b` finds in its file it has been sent. -/
theorem rejoining [Zlib] {p b : ℤ} {c : Cluster} {a : Action} (h : Recoverable p b c)
    (hok : Reloading p b c a) : Rejoining p b c a := by
  cases a with
  | restart s file uninit replies =>
    refine ⟨hok.1, fun hs k f hf hid => ?_⟩
    obtain ⟨hfile, -, -⟩ := hok.2 hs
    have hjoined := h.rejoined.joined k f hf hid
    have hdisk : CommitLog.entriesOf (c b).server.clog.outfile.disk <+: (c b).server.smrLog :=
      ⟨_, h.mirrors.entries_eq⟩
    have hlog : (c b).server.smrLog <+: (c p).replicatedLog k := by
      rw [hjoined.log_eq, List.append_nil]
      exact List.take_prefix _ _
    exact (List.take_prefix _ _).trans
      ((CommitLog.entriesOf_prefix hfile).trans (hdisk.trans hlog))
  | _ => exact hok

theorem same [Zlib] {p b : ℤ} {c c' : Cluster} (h : Recoverable p b c)
    (hrejoined : Rejoined p b [] c') (hpeer : b ∈ (c' p).server.peerIds)
    (hlog : (c' b).server.smrLog = (c b).server.smrLog)
    (hclog : (c' b).server.clog = (c b).server.clog ∨
      (c' b).server.clog = (c b).server.clog.sync) : Recoverable p b c' := by
  obtain ⟨hsynced, hentries⟩ := h.mirrors.intact.sync
  rcases hclog with hclog | hclog
  · exact ⟨hrejoined, hpeer, ⟨hclog ▸ h.mirrors.intact, by
      rw [hclog, hlog]; exact h.mirrors.entries_eq⟩, hclog ▸ h.orderly⟩
  · exact ⟨hrejoined, hpeer, ⟨hclog ▸ hsynced, by
      rw [hclog, hlog, hentries]; exact h.mirrors.entries_eq⟩, hclog ▸ h.orderly.sync⟩

theorem exchanged [Zlib] {link : Link} (hlink : link.Whole) {s b b' : Server}
    {shipOrder : RobotInf} {req : ReplReq} (hserving : s.Serving shipOrder req)
    (hlast : s.lastIndex = (s.smrLog.length : ℤ) - 1)
    (hb : b.Joined (s.smrLog.take (req.committedIndex + 1).toNat) [])
    (hjoins : link.sendRequest = true → link.recvRequest = .message → Joins link req b)
    (hmirrors : b.Mirrors) (hclog : b.clog.Orderly)
    (h : (exchange link false req s.smrLog b).backup = .ok b') :
    b'.Mirrors ∧ b'.clog.Orderly := by
  by_cases hlost : link.sendRequest = false ∨ link.recvRequest = .failure
  · obtain ⟨id, hmissed⟩ := exchange_missed req s.smrLog b hlost
    rw [hmissed, Except.ok.injEq] at h
    subst h
    exact ⟨⟨hmirrors.intact, hmirrors.entries_eq⟩, hclog⟩
  · obtain ⟨hsend, hrecv⟩ := Link.message_of_not_lost hlink.recvRequest hlost
    rw [exchange_received req s.smrLog b hsend] at h
    obtain ⟨r, hread, hack⟩ := bind_eq_ok.mp h
    have hr := ifaThreadRead_mirrors hmirrors
      (Link.getReplicationRequest_of_message hrecv req s.smrLog b)
      (keepsMirror_of_joined hserving hlast hb (hjoins hsend hrecv) hclog.unbroken) hread
    have hrclog : r.clog.Orderly := ifaThreadRead_clog (fun _ _ _ hc hw => hc.write hw)
      (fun _ hc => hc.sync) hclog hread
    cases hack
    split_ifs
    · exact ⟨hr, hrclog⟩
    · exact ⟨⟨hr.intact, hr.entries_eq⟩, hrclog⟩

theorem step [Zlib] {p b : ℤ} {c c' : Cluster} {a : Action} (h : Recoverable p b c)
    (hok : Reloading p b c a) (hstep : RobotFactory.step p c a = some c') :
    Recoverable p b c' := by
  have hne := h.ne
  have hrejoining := h.rejoining hok
  have hpeer : b ∈ (c' p).server.peerIds := step_peerIds hstep p ▸ h.peer
  by_cases hrestart : ∃ file uninit replies, a = .restart b file uninit replies
  · obtain ⟨file, uninit, replies, rfl⟩ := hrestart
    obtain ⟨-, hwhole, hall⟩ := hok.2 rfl
    have hrejoined := h.rejoined.restart hrejoining hstep
    rw [hall.drop_eq_nil] at hrejoined
    cases step_cases hstep with
    | restart _ _ _ _ n _ hn =>
      obtain ⟨s, hs, rfl⟩ := Node.start_of_restarted hn
      refine ⟨hrejoined, hpeer, ?_, ?_⟩ <;> rw [Function.update_self]
      · exact start_mirrors hs
      · have hintact := (start_mirrors hs).intact
        obtain ⟨unread, last, record, -, rfl, -⟩ := initiateRecoveryFromLog_eq_ok hs rfl rfl rfl rfl
        exact ⟨hintact, hwhole, rfl⟩
  · have hrejoined := h.rejoined.step hrejoining
      (fun file uninit replies heq => hrestart ⟨file, uninit, replies, heq⟩) hstep
    have hother {s : ℤ} {n : Node} (hs : s ≠ b) : Function.update c s n b = c b :=
      Function.update_of_ne (Ne.symm hs) ..
    have hquiet {s : ℤ} {n : Node} (hlog : n.server.smrLog = (c s).server.smrLog)
        (hclog : n.server.clog = (c s).server.clog ∨ n.server.clog = (c s).server.clog.sync)
        (hc' : c' = Function.update c s n) : Recoverable p b c' := by
      refine h.same hrejoined hpeer ?_ ?_ <;> rw [hc'] <;> by_cases hs : s = b
      · rw [← hs, Function.update_self, hlog]
      · rw [hother hs]
      · rw [← hs, Function.update_self]
        exact hclog
      · rw [hother hs]
        exact .inl rfl
    have hprimary {n : Node} (hc' : c' = Function.update c p n) : Recoverable p b c' := by
      refine h.same hrejoined hpeer ?_ ?_ <;> rw [hc', hother (Ne.symm hne)]
      exact .inl rfl
    cases step_cases hstep with
    | begin => exact hprimary rfl
    | skipped => exact hprimary rfl
    | unanswered => exact hprimary rfl
    | finish => exact hprimary rfl
    | clientClose s => exact hquiet (s := s) (n := (c s).clientClosed) rfl (.inr rfl) rfl
    | replicationClose s =>
      exact hquiet (s := s) (n := (c s).replicationClosed) rfl (.inl rfl) rfl
    | crash s => exact hquiet (s := s) (n := { c s with alive := false }) rfl (.inl rfl) rfl
    | ifaTurn s =>
      refine h.same hrejoined hpeer ?_ ?_ <;> rw [hother hok.2]
      exact .inl rfl
    | restart s file uninit replies n =>
      have hs : s ≠ b := by
        rintro rfl
        exact hrestart ⟨file, uninit, replies, rfl⟩
      refine h.same hrejoined hpeer ?_ ?_ <;> rw [hother hs]
      exact .inl rfl
    | exchanged link shipOrder req i f _ hadmin hf hsocket halive _ hfp result hresult =>
      by_cases hid : f.factoryId = b
      · subst hid
        refine ⟨hrejoined, hpeer, ?_, ?_⟩ <;>
          rw [Function.update_of_ne hne, Function.update_self] <;> unfold Node.afterExchange <;>
          cases hbackup : result.backup with
          | error fault => first | exact h.mirrors | exact h.orderly
          | ok b' =>
            obtain ⟨hlink, hjoins⟩ := hrejoining _ _ _ f hadmin hf rfl hsocket halive
            rw [h.rejoined.stale] at hresult
            rw [← hresult] at hbackup
            have hdone := exchanged hlink (h.rejoined.leads.sound.serving _ _ _ hadmin)
              h.rejoined.leads.last_eq (h.rejoined.next_joined hadmin hf rfl) hjoins h.mirrors
              h.orderly hbackup
            first | exact hdone.1 | exact hdone.2
      · refine h.same hrejoined hpeer ?_ ?_ <;>
          rw [Function.update_of_ne hne, hother hid]
        exact .inl rfl

theorem run [Zlib] {p b : ℤ} {c₀ c : Cluster} (hfresh : Fresh c₀)
    (hpeer : b ∈ (c₀ p).server.peerIds) (hrun : Run (RobotFactory.step p) (Reloading p b) c₀ c) :
    Recoverable p b c :=
  hrun.invariant (Recoverable p b) (fun _ _ _ hd hok hstep => hd.step hok hstep)
    (recoverable_of_fresh hfresh hpeer)

/-- At most nine entries are pending. -/
theorem pending_lt [Zlib] {p b : ℤ} {c : Cluster} (h : Recoverable p b c) :
    (c b).server.smrLog.length <
      (CommitLog.entriesOf (c b).server.clog.outfile.disk).length + 10 := by
  have hpending := (h.rejoined.backup h.peer).sound.ready.pending_lt
  have hentries := congrArg List.length h.mirrors.entries_eq
  rw [h.orderly.batchSize_eq, show batchSizeDefault.toNat = 10 from rfl] at hpending
  rw [CommitLog.entries, List.length_append, List.length_map] at hentries
  omega

end Recoverable

namespace Lockstep

end Lockstep

end RobotFactory
