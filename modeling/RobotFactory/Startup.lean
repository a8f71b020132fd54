import RobotFactory.Exchange
import RobotFactory.Inversion
import RobotFactory.Primary

/-!
# Startup from the commit log

`start` gives a sound server whatever the commit log file holds and whatever the
peers report, unless the replay faults: the loop applies the entries it counts.
On an empty file nothing is replayed and the server starts with an empty log.
-/
namespace RobotFactory
open ReplayLog

/-- The replay loop applies the entries from `i` on, one behind the other. -/
theorem replayRecovered_eq_ok (n : ℕ) (i : ℤ) {s s' : Server}
    (h : Server.replayRecovered n i s = .ok s') (h0 : 0 ≤ i)
    (hrep : Committed CustomerRecord.apply ∅ s.smrLog i.toNat s.customerRecord)
    (hl : s.lastIndex = i - 1) (hc : s.committedIndex = i - 1) :
    ∃ record, s' = { s with
        customerRecord := record
        smrReplCommit := { s.smrReplCommit with
          lastIndex := i + n - 1, committedIndex := i + n - 1 } } ∧
      Committed CustomerRecord.apply ∅ s.smrLog (i + n).toNat record := by
  induction n generalizing i s with
  | zero =>
    cases h
    refine ⟨s'.customerRecord, ?_, by simpa using hrep⟩
    have hsame : s'.smrReplCommit = { s'.smrReplCommit with
        lastIndex := s'.lastIndex, committedIndex := s'.committedIndex } := rfl
    rw [Nat.cast_zero, add_zero, ← hl, hl, ← hc]
    rw [hl, ← hc] at hsame
    exact congrArg (fun r => { s' with smrReplCommit := r }) hsame
  | succ n ih =>
    obtain ⟨r, hr, hrest⟩ := bind_eq_ok.mp h
    obtain ⟨op, -, hop, rfl⟩ := commitAt_cases hr
    have hmore := hrep.advance hop
    rw [show i.toNat + 1 = (i + 1).toNat by omega] at hmore
    obtain ⟨record, hs', hrecord⟩ := ih (i + 1) hrest (by omega) hmore
      (by simp only [Server.lastIndex]; omega) (by simp only [Server.committedIndex]; omega)
    refine ⟨record, ?_, by rwa [show i + 1 + (n : ℤ) = i + (n + 1 : ℕ) by omega] at hrecord⟩
    rw [hs', show i + 1 + (n : ℤ) - 1 = i + (n + 1 : ℕ) - 1 by omega]

/-- The index up to which the entries found in the commit log are replayed. -/
def Server.replayedTo (lastCommitedIndex size : ℤ) : ℤ :=
  max (-1) (Server.replayBound lastCommitedIndex size)

/-- The two conditionals in front of the replay loop send it to the end of the log;
otherwise it follows the committed index that was reported. -/
theorem replayedTo_eq (lastCommitedIndex : ℤ) (n : ℕ) : Server.replayedTo lastCommitedIndex n =
    if lastCommitedIndex = 0 ∨ n < lastCommitedIndex then (n : ℤ) - 1
    else max (-1) lastCommitedIndex := by
  unfold Server.replayedTo Server.replayBound
  dsimp only
  split_ifs <;> omega

theorem replayFromLog_eq_ok {s s' : Server} {lastCommitedIndex : ℤ}
    (h : s.replayFromLog lastCommitedIndex = .ok s') (hl : s.lastIndex = -1)
    (hc : s.committedIndex = -1) (hrecord : s.customerRecord = ∅) :
    ∃ record, s' = { s with
        customerRecord := record
        smrReplCommit := { s.smrReplCommit with
          lastIndex := Server.replayedTo lastCommitedIndex s.smrLog.length
          committedIndex := Server.replayedTo lastCommitedIndex s.smrLog.length } } ∧
      Committed CustomerRecord.apply ∅ s.smrLog
        (Server.replayedTo lastCommitedIndex s.smrLog.length + 1).toNat record := by
  have hempty : Committed CustomerRecord.apply ∅ s.smrLog (0 : ℤ).toNat s.customerRecord := by
    rw [hrecord]
    exact .empty _ _ _
  unfold Server.replayFromLog at h
  split_ifs at h with hnone
  · obtain ⟨record, hs', hrep⟩ := replayRecovered_eq_ok 0 0 h le_rfl hempty hl hc
    have hto : Server.replayedTo lastCommitedIndex s.smrLog.length = 0 + (0 : ℕ) - 1 := by
      simp [Server.replayedTo, Server.replayBound, hnone.1, hnone.2]
    rw [hto]
    exact ⟨record, hs', by simpa using hrep⟩
  · obtain ⟨record, hs', hrep⟩ := replayRecovered_eq_ok _ 0 h le_rfl hempty hl hc
    have hto : Server.replayedTo lastCommitedIndex s.smrLog.length =
        0 + ((Server.replayBound lastCommitedIndex s.smrLog.length + 1).toNat : ℤ) - 1 := by
      unfold Server.replayedTo
      omega
    rw [hto]
    exact ⟨record, hs', by rwa [sub_add_cancel]⟩

theorem recoverLog_eq_ok [Zlib] {s : Server} {smrLog : List MapOp} {clog : CommitLog}
    (h : s.recoverLog = .ok (smrLog, clog)) (hnone : s.smrLog = []) :
    smrLog = CommitLog.entriesOf s.clog.outfile.unread ∧ smrLog.length < 2 ^ 31 ∧
      ∃ unread, clog = { s.clog with outfile := { s.clog.outfile with unread := unread } } := by
  obtain ⟨⟨log, unread⟩, hloop, hpair⟩ := bind_eq_ok.mp h
  cases hpair
  rw [hnone] at hloop
  obtain ⟨hlog, hlt⟩ := recoverLoop_eq_ok_iff.mp ⟨unread, hloop⟩
  exact ⟨hlog, hlt, unread, rfl⟩

/-- What `initiate_recovery_from_log` makes of a server that has no log yet. -/
theorem initiateRecoveryFromLog_eq_ok [Zlib] {replies : List PeerReply} {s s' : Server}
    (h : s.initiateRecoveryFromLog replies = .ok s') (hnone : s.smrLog = [])
    (hl : s.lastIndex = -1) (hc : s.committedIndex = -1) (hrecord : s.customerRecord = ∅) :
    ∃ unread last record,
      last = Server.replayedTo (firstCommitedIndex replies)
        (CommitLog.entriesOf s.clog.outfile.unread).length ∧
      s' = { s with
        smrLog := CommitLog.entriesOf s.clog.outfile.unread
        clog := { s.clog with outfile := { s.clog.outfile with unread := unread } }
        customerRecord := record
        smrReplCommit := { s.smrReplCommit with lastIndex := last, committedIndex := last } } ∧
      Committed CustomerRecord.apply ∅ s'.smrLog (last + 1).toNat record ∧
      s'.smrLog.length < 2 ^ 31 := by
  obtain ⟨⟨smrLog, clog⟩, hrecover, hreplay⟩ := bind_eq_ok.mp h
  obtain ⟨rfl, hlt, unread, rfl⟩ := recoverLog_eq_ok hrecover hnone
  obtain ⟨record, rfl, hrep⟩ := replayFromLog_eq_ok hreplay hl hc hrecord
  exact ⟨unread, _, record, rfl, rfl, hrep, hlt⟩

theorem replayRecovered_total (n : ℕ) (i : ℤ) (s : Server) (h0 : 0 ≤ i)
    (hlen : i + n ≤ s.smrLog.length) : ∃ s', Server.replayRecovered n i s = .ok s' := by
  induction n generalizing i s with
  | zero => exact ⟨s, rfl⟩
  | succ n ih =>
    have hidx : i.toNat < s.smrLog.length := by omega
    obtain ⟨s', hs'⟩ := ih (i + 1)
      { s with
        customerRecord := s.customerRecord.apply s.smrLog[i.toNat]
        smrReplCommit := { s.smrReplCommit with lastIndex := i, committedIndex := i } }
      (by omega) (by simp only; omega)
    refine ⟨s', ?_⟩
    rw [Server.replayRecovered, Server.commitAt, vectorAt_of_lt h0 hidx]
    exact hs'

theorem replayFromLog_total {s : Server} {lastCommitedIndex : ℤ}
    (hto : Server.replayedTo lastCommitedIndex s.smrLog.length < s.smrLog.length) :
    ∃ s', s.replayFromLog lastCommitedIndex = .ok s' := by
  unfold Server.replayFromLog
  split_ifs
  · exact ⟨s, rfl⟩
  · refine replayRecovered_total _ 0 s le_rfl ?_
    unfold Server.replayedTo at hto
    omega

theorem recoverLog_total [Zlib] {s : Server} (hnone : s.smrLog = [])
    (hfew : (CommitLog.entriesOf s.clog.outfile.unread).length < 2 ^ 31) :
    ∃ clog, s.recoverLog = .ok (CommitLog.entriesOf s.clog.outfile.unread, clog) := by
  obtain ⟨unread, hloop⟩ := recoverLoop_eq_ok_iff.mpr
    ⟨show CommitLog.entriesOf s.clog.outfile.unread = _ from rfl, hfew⟩
  refine ⟨{ s.clog with outfile := { s.clog.outfile with unread := unread } }, ?_⟩
  simp only [Server.recoverLog, walEnabled, crcEnabled, if_true, CommitLog.recoverwithcrc, hnone,
    hloop, ok_bind]
  rfl

/-- The startup succeeds if the entries found can be counted and the replay stays
inside them. -/
theorem initiateRecoveryFromLog_total [Zlib] {replies : List PeerReply} {s : Server}
    (hnone : s.smrLog = [])
    (hfew : (CommitLog.entriesOf s.clog.outfile.unread).length < 2 ^ 31)
    (hto : Server.replayedTo (firstCommitedIndex replies)
        (CommitLog.entriesOf s.clog.outfile.unread).length <
      (CommitLog.entriesOf s.clog.outfile.unread).length) :
    ∃ s', s.initiateRecoveryFromLog replies = .ok s' := by
  obtain ⟨clog, hrecover⟩ := recoverLog_total hnone hfew
  rw [Server.initiateRecoveryFromLog, hrecover, ok_bind]
  exact replayFromLog_total hto

theorem opened_sound (facId : ℤ) (factories : List FactoryRec) (file : List UInt8)
    (uninit : ℕ → Int32) : (Server.opened facId factories file uninit).Sound where
  replayed := .empty _ _ _
  committed_ge := le_rfl
  committed_le := le_rfl
  last_le := by simp [Server.opened, Server.lastIndex, Server.committedIndex]
  last_lt := by simp [Server.opened, Server.lastIndex]
  ready := ⟨Nat.succ_pos 9, show 24 * 10 < 2 ^ 31 by decide⟩

/-- A server that has started is sound, with everything committed that it replays,
and its first iteration makes the rechecks. -/
theorem start_became [Zlib] {facId : ℤ} {factories : List FactoryRec} {file : List UInt8}
    {uninit : ℕ → Int32} {replies : List PeerReply} {s : Server}
    (h : Server.start facId factories file uninit replies = .ok s) :
    ∃ log j, s.Became log j j ∧ (Server.opened facId factories file uninit).SameRole s := by
  obtain ⟨unread, last, record, hlast, rfl, hrep, -⟩ :=
    initiateRecoveryFromLog_eq_ok h rfl rfl rfl rfl
  have hge : -1 ≤ last := hlast ▸ le_max_left _ _
  have hle := hrep.le_length
  have hready := (opened_sound facId factories file uninit).ready
  refine ⟨_, last, ⟨⟨hrep, hge, le_rfl, ?_, ?_, hready.1, hready.2⟩, rfl, rfl, rfl⟩, rfl, rfl, rfl⟩
  · simp only [Server.lastIndex, Server.committedIndex]
    omega
  · simp only [Server.lastIndex] at hle ⊢
    omega

/-- The indices of a server that has started are those of entries that were counted. -/
theorem start_lastIndex_lt [Zlib] {facId : ℤ} {factories : List FactoryRec} {file : List UInt8}
    {uninit : ℕ → Int32} {replies : List PeerReply} {s : Server}
    (h : Server.start facId factories file uninit replies = .ok s) : s.lastIndex < intMax := by
  obtain ⟨unread, last, record, -, rfl, hrep, hlen⟩ :=
    initiateRecoveryFromLog_eq_ok h rfl rfl rfl rfl
  have hle := hrep.le_length
  simp only [Server.lastIndex, intMax] at hle hlen ⊢
  omega

/-- A server that starts on a file has the entries found in it, of which those up to the
replay bound are committed. -/
theorem start_replays [Zlib] (facId : ℤ) (factories : List FactoryRec) {file : List UInt8}
    (uninit : ℕ → Int32) {replies : List PeerReply}
    (hfew : (CommitLog.entriesOf file).length < 2 ^ 31)
    (hto : Server.replayedTo (firstCommitedIndex replies) (CommitLog.entriesOf file).length <
      (CommitLog.entriesOf file).length) :
    ∃ s, Server.start facId factories file uninit replies = .ok s ∧ s.Became
      (CommitLog.entriesOf file)
      (Server.replayedTo (firstCommitedIndex replies) (CommitLog.entriesOf file).length)
      (Server.replayedTo (firstCommitedIndex replies) (CommitLog.entriesOf file).length) ∧
      s.recheckAllow = true := by
  obtain ⟨s, hstart⟩ : ∃ s, Server.start facId factories file uninit replies = .ok s :=
    initiateRecoveryFromLog_total rfl hfew hto
  obtain ⟨log, j, hbecame, hrole⟩ := start_became hstart
  obtain ⟨unread, last, record, hlast, rfl, -⟩ :=
    initiateRecoveryFromLog_eq_ok hstart rfl rfl rfl rfl
  exact ⟨_, hstart, ⟨hbecame.sound, rfl, hlast, hlast⟩, hrole.recheckAllow⟩

/-- On an empty file the peers' reports do not matter. -/
theorem start_empty [Zlib] (facId : ℤ) (factories : List FactoryRec) (uninit : ℕ → Int32)
    (replies : List PeerReply) : Server.start facId factories [] uninit replies =
      .ok (Server.opened facId factories [] uninit) := by
  have hrecover : (Server.opened facId factories [] uninit).recoverLog =
      .ok ([], (Server.opened facId factories [] uninit).clog) := by
    have hloop := recoverLoop_of_none CommitLog.checksumMatches WalSmrEntry.data [] 0
      (show walSmrEntryCodec.next [] = none from rfl)
    simp only [Server.recoverLog, walEnabled, crcEnabled, if_true, CommitLog.recoverwithcrc]
    exact congrArg (· >>= _) hloop
  have hbound (lastCommitedIndex : ℤ) :
      (Server.replayBound lastCommitedIndex 0 + 1).toNat = 0 ∨ lastCommitedIndex = 0 := by
    simp only [Server.replayBound]
    split_ifs <;> omega
  simp only [Server.start, walEnabled, if_true, Server.initiateRecoveryFromLog, hrecover, ok_bind,
    Server.replayFromLog]
  split_ifs with hcond
  · rfl
  · have hnone := (hbound (firstCommitedIndex replies)).resolve_right (by simpa using hcond)
    simp only [List.length_nil, Nat.cast_zero, hnone]
    rfl

theorem Node.restarted_of_start [Zlib] {n : Node} {file : List UInt8} {uninit : ℕ → Int32}
    {replies : List PeerReply} {s : Server}
    (h : Server.start n.server.myFactoryId
      (n.server.factoriesRecord.map fun f => { f with socket := -1 }) file uninit replies = .ok s) :
    n.restarted file uninit replies =
      some { n with server := s, admin := .waiting, alive := true, stale := fun _ => false } := by
  unfold Node.restarted
  simp only [h]

theorem step_restart [Zlib] {p s : ℤ} {c : Cluster} {file : List UInt8} {uninit : ℕ → Int32}
    {replies : List PeerReply} {server : Server} (hdead : (c s).alive = false)
    (h : Server.start (c s).server.myFactoryId
      ((c s).server.factoriesRecord.map fun f => { f with socket := -1 }) file uninit replies =
        .ok server) : step p c (.restart s file uninit replies) =
      some (Function.update c s { c s with
        server := server, admin := .waiting, alive := true, stale := fun _ => false }) := by
  simp only [step, hdead, Bool.false_eq_true, if_false, Node.restarted_of_start h,
    Option.map_some]

theorem Node.start_of_restarted [Zlib] {n n' : Node} {file : List UInt8} {uninit : ℕ → Int32}
    {replies : List PeerReply} (h : n.restarted file uninit replies = some n') :
    ∃ s, Server.start n.server.myFactoryId
        (n.server.factoriesRecord.map fun f => { f with socket := -1 }) file uninit replies =
          .ok s ∧
      n' = { n with server := s, admin := .waiting, alive := true, stale := fun _ => false } := by
  unfold Node.restarted at h
  simp only at h
  split at h
  · cases h
  · rename_i s hs
    exact ⟨s, hs, (Option.some.inj h).symm⟩

theorem restarted_peerIds [Zlib] {n n' : Node} {file : List UInt8} {uninit : ℕ → Int32}
    {replies : List PeerReply} (h : n.restarted file uninit replies = some n') :
    n'.server.peerIds = n.server.peerIds := by
  obtain ⟨s, hs, rfl⟩ := Node.start_of_restarted h
  obtain ⟨log, j, -, hrole⟩ := start_became hs
  rw [hrole.peerIds_eq]
  simp [Server.peerIds, Server.opened, Function.comp_def]

theorem afterExchange_peerIds {n : Node} {backup : Except Fault Server}
    (h : ∀ b, backup = .ok b → n.server.SameRole b) :
    (n.afterExchange backup).server.peerIds = n.server.peerIds := by
  cases backup with
  | error fault => rfl
  | ok b => exact (h b rfl).peerIds_eq

/-- No step changes who the peers of a server are. -/
theorem step_peerIds [Zlib] {p : ℤ} {c c' : Cluster} {a : Action} (h : step p c a = some c')
    (s : ℤ) : (c' s).server.peerIds = (c s).server.peerIds := by
  have hupdate (t : ℤ) (n : Node) (hn : n.server.peerIds = (c t).server.peerIds) :
      (Function.update c t n s).server.peerIds = (c s).server.peerIds :=
    Cluster.update_all (fun u m => m.server.peerIds = (c u).server.peerIds) (fun _ => rfl) hn s
  cases step_cases h with
  | begin shipOrder connect => exact hupdate _ _ (beginIteration_peerIds ..)
  | skipped _ _ _ _ f _ _ hf => exact hupdate _ _ (afterPeer_peerIds hf ..)
  | exchanged _ _ _ _ f _ _ hf _ _ _ hne result hresult =>
    by_cases hsp : s = p
    · subst hsp
      rw [Function.update_self]
      exact afterPeer_peerIds hf ..
    · rw [Function.update_of_ne hsp]
      refine hupdate _ _ (afterExchange_peerIds fun b hb => ?_)
      rw [← hresult] at hb
      exact exchange_sameRole hb
  | unanswered _ _ _ _ f _ _ hf => exact hupdate _ _ (afterPeer_peerIds hf ..)
  | finish shipOrder =>
    refine hupdate _ _ ?_
    simp only [Node.finishIteration, Server.adminCommit]
    split_ifs <;> rfl
  | ifaTurn => exact hupdate _ _ (afterExchange_peerIds fun _ hb => ifaThreadTurn_sameRole hb)
  | clientClose => exact hupdate _ _ rfl
  | replicationClose => exact hupdate _ _ rfl
  | crash => exact hupdate _ _ rfl
  | restart s' _ _ _ n _ hn => exact hupdate _ _ (restarted_peerIds hn)

/-- The peers of each server are different servers, other than itself. -/
structure Roster (c : Cluster) : Prop where
  distinct : ∀ s, (c s).server.peerIds.Nodup
  others : ∀ s, s ∉ (c s).server.peerIds

namespace Roster

theorem step [Zlib] {p : ℤ} {c c' : Cluster} {a : Action} (h : Roster c)
    (hstep : RobotFactory.step p c a = some c') : Roster c' := by
  refine ⟨fun s => ?_, fun s => ?_⟩ <;> rw [step_peerIds hstep s]
  · exact h.distinct s
  · exact h.others s

theorem ne {c : Cluster} (h : Roster c) {s : ℤ} {k : ℕ} {f : FactoryRec}
    (hf : (c s).server.factoriesRecord[k]? = some f) : f.factoryId ≠ s := by
  intro hid
  have hmem := List.mem_map_of_mem (f := FactoryRec.factoryId) (List.mem_of_getElem? hf)
  rw [hid] at hmem
  exact h.others s hmem

/-- Different positions of the factory list hold different peers. -/
theorem position_unique {c : Cluster} (h : Roster c) {s : ℤ} {j k : ℕ} {f g : FactoryRec}
    (hj : (c s).server.factoriesRecord[j]? = some f)
    (hk : (c s).server.factoriesRecord[k]? = some g) (hid : f.factoryId = g.factoryId) : j = k := by
  obtain ⟨hjlt, rfl⟩ := List.getElem?_eq_some_iff.mp hj
  obtain ⟨hklt, rfl⟩ := List.getElem?_eq_some_iff.mp hk
  have hlen : (c s).server.peerIds.length = (c s).server.factoriesRecord.length := by
    simp [Server.peerIds]
  exact (@List.Nodup.getElem_inj_iff _ _ (h.distinct s) j (hlen ▸ hjlt) k (hlen ▸ hklt)).mp
    (by simpa [Server.peerIds] using hid)

end Roster

/-- All servers have just started on empty log files, each with a list of the
other servers and no connection. -/
structure Fresh [Zlib] (c : Cluster) : Prop where
  started : ∀ s, ∃ factories uninit replies,
    Server.start s factories [] uninit replies = .ok (c s).server
  alive : ∀ s, (c s).alive = true
  waiting : ∀ s, (c s).admin = .waiting
  stale : ∀ s id, (c s).stale id = false
  released : ∀ s, (c s).released = []
  roster : Roster c
  disconnected : ∀ s, ∀ f ∈ (c s).server.factoriesRecord, f.socket = -1

/-- The servers `factories` started on empty files. -/
def booted (factories : ℤ → List FactoryRec) (uninit : ℤ → ℕ → Int32) : Cluster := fun s =>
  { server := Server.opened s (factories s) [] (uninit s)
    admin := .waiting
    alive := true
    stale := fun _ => false
    released := [] }

theorem booted_fresh [Zlib] {factories : ℤ → List FactoryRec} (uninit : ℤ → ℕ → Int32)
    (hdistinct : ∀ s, ((factories s).map FactoryRec.factoryId).Nodup)
    (hothers : ∀ s, ∀ f ∈ factories s, f.factoryId ≠ s ∧ f.socket = -1) :
    Fresh (booted factories uninit) where
  started s := ⟨factories s, uninit s, [], start_empty ..⟩
  alive _ := rfl
  waiting _ := rfl
  stale _ _ := rfl
  released _ := rfl
  roster := by
    refine ⟨hdistinct, fun s hs => ?_⟩
    obtain ⟨f, hf, hid⟩ := List.mem_map.mp hs
    exact (hothers s f hf).1 hid
  disconnected s f hf := (hothers s f hf).2

def peersOf (ids : List ℤ) (s : ℤ) : List FactoryRec :=
  (ids.filter (· ≠ s)).map fun id => ⟨id, -1⟩

theorem booted_peersOf_fresh [Zlib] {ids : List ℤ} (uninit : ℤ → ℕ → Int32) (h : ids.Nodup) :
    Fresh (booted (peersOf ids) uninit) := by
  refine booted_fresh uninit (fun s => ?_) (fun s f hf => ?_)
  · simpa [peersOf, Function.comp_def] using h.filter _
  · obtain ⟨id, hid, rfl⟩ := List.mem_map.mp hf
    exact ⟨by simpa using (List.mem_filter.mp hid).2, rfl⟩

def trio : Cluster := booted (peersOf [0, 1, 2]) fun _ _ => 0

theorem trio_fresh [Zlib] : Fresh trio := booted_peersOf_fresh _ (by decide)

def duo : Cluster := booted (peersOf [0, 1]) fun _ _ => 0

theorem duo_fresh [Zlib] : Fresh duo := booted_peersOf_fresh _ (by decide)

def orderOf7 (orderNumber : Int32) : RobotInf := ⟨7, orderNumber, 1, 100, -1⟩

/-- The marker that a closing client causes. -/
def commitMarker : RobotInf := ⟨-1, -1, 0, 0, 0⟩

/-- A fresh server is sound, has an empty log and will make the rechecks. -/
structure Server.Blank (s : Server) : Prop where
  sound : s.Sound
  log_eq : s.smrLog = []
  last_eq : s.lastIndex = -1
  committed_eq : s.committedIndex = -1
  recheckAllow_eq : s.recheckAllow = true

theorem Fresh.blank [Zlib] {c : Cluster} (h : Fresh c) (s : ℤ) : (c s).server.Blank := by
  obtain ⟨factories, uninit, replies, hstart⟩ := h.started s
  rw [start_empty, Except.ok.injEq] at hstart
  rw [← hstart]
  exact ⟨opened_sound .., rfl, rfl, rfl, rfl⟩

end RobotFactory
