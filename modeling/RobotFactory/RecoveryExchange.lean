import RobotFactory.Crc32
import RobotFactory.Startup

/-!
# The exchange of a recovery

A backup that is more than one entry behind asks for the entries behind its last
one, but tells the primary its committed index, and the primary sends everything
behind that. And whatever call of a recovery fails, `ifa_thread_read` goes on to
store the indices of the request.
-/
namespace RobotFactory

/-- The entries that the primary sends to the backup over a reliable connection. -/
def recoveryEntries (smrLog : List MapOp) (s : Server) : List MapOp :=
  (sendRecoveryLog (some s.committedIndex) (fun _ => true) smrLog).1

/-- The calls of the backup on that connection: the `k`-th entry read is the
`k`-th one sent. -/
def recoveryStub (smrLog : List MapOp) (req : ReplReq) (s : Server) : IfaStub where
  getReplicationRequest := some req
  recoveryAck := true
  recvEntry k := (recoveryEntries smrLog s)[k]?

/-- The recovery succeeds, reads as many entries as have been sent and leaves the
backup with the log of the primary. -/
def RecoversExactly [Zlib] (smrLog : List MapOp) (req : ReplReq) (s : Server) : Prop :=
  ∃ s', s.initiateRecovery (recoveryStub smrLog req s) req.lastIndex req.committedIndex = .ok s' ∧
    (recoveryEntries smrLog s).length = arrivedEntries (recoveryStub smrLog req s).recvEntry
      (req.lastIndex - s.lastIndex).toNat 0 ∧
    s'.smrLog = smrLog

theorem arrivedEntries_le (recvEntry : ℕ → Option MapOp) (n k : ℕ) :
    arrivedEntries recvEntry n k ≤ n := by
  induction n generalizing k with
  | zero => exact le_rfl
  | succ n ih =>
    unfold arrivedEntries
    split_ifs
    · exact Nat.succ_le_succ (ih (k + 1))
    · exact Nat.zero_le _

theorem commitRecovered_total [Zlib] (remote : ℤ) (n : ℕ) (i : ℤ) {s : Server}
    (hready : s.clog.Ready) (h0 : 0 ≤ i) (hlen : i + n ≤ s.smrLog.length) :
    ∃ s', Server.commitRecovered remote n i s = .ok s' := by
  induction n generalizing i s with
  | zero => exact ⟨s, rfl⟩
  | succ n ih =>
    have hidx : i.toNat < s.smrLog.length := by omega
    obtain ⟨clog, hclog, hready'⟩ := writeAhead_ready hready s.smrLog[i.toNat]
    simp only [Server.commitRecovered, vectorAt_of_lt h0 hidx, ok_bind, hclog]
    split_ifs with hle
    · exact ih (i + 1) hready' (by omega) (by simp only; omega)
    · exact ih (i + 1) hready' (by omega) (by simp only; omega)

theorem recoveryEntries_eq {smrLog : List MapOp} {s : Server} (h : -1 ≤ s.committedIndex) :
    recoveryEntries smrLog s = smrLog.drop (s.committedIndex + 1).toNat := by
  rw [recoveryEntries, Link.sendRecoveryLog_some h, Link.sendEntries_all fun _ => rfl]

/-- A backup whose log is the front part of the primary's, and more than one entry
behind it, recovers exactly if and only if it has committed its whole log. -/
theorem recovers_exactly_iff [Zlib] {smrLog : List MapOp} {req : ReplReq} {s : Server}
    (hready : s.clog.Ready) (hfront : s.smrLog <+: smrLog)
    (hlast : s.lastIndex = (s.smrLog.length : ℤ) - 1)
    (hreq : req.lastIndex = (smrLog.length : ℤ) - 1) (hge : -1 ≤ s.committedIndex)
    (hle : s.committedIndex ≤ s.lastIndex) (hgap : 1 < req.lastIndex - s.lastIndex) :
    RecoversExactly smrLog req s ↔ s.committedIndex = s.lastIndex := by
  have hentries : recoveryEntries smrLog s = smrLog.drop (s.committedIndex + 1).toNat :=
    recoveryEntries_eq hge
  constructor
  · rintro ⟨s', -, hcount, -⟩
    have hread := arrivedEntries_le (recoveryStub smrLog req s).recvEntry
      (req.lastIndex - s.lastIndex).toNat 0
    rw [← hcount, hentries, List.length_drop] at hread
    omega
  · intro hdone
    obtain ⟨es, rfl⟩ := hfront
    rw [List.length_append] at hreq
    have hend : (s.lastIndex + 1).toNat = s.smrLog.length := by omega
    have hes : recoveryEntries (s.smrLog ++ es) s = es := by
      rw [hentries, hdone, hend, List.drop_left]
    have hcount : (req.lastIndex - s.lastIndex).toNat = es.length := by omega
    have hget : getRecoveryLog (recoveryStub (s.smrLog ++ es) req s).recvEntry es.length 0
        (s.lastIndex + 1) s.smrLog = .ok (s.smrLog ++ es, true) := by
      rw [getRecoveryLog_complete es 0 (s.lastIndex + 1) s.smrLog (by omega) (by omega)
        (by simp [recoveryStub, hes]), hend, List.take_length, List.drop_length, List.append_nil]
    obtain ⟨s', hs'⟩ := commitRecovered_total req.committedIndex es.length (s.lastIndex + 1)
      (s := { s with smrLog := s.smrLog ++ es }) hready (by omega)
      (by rw [List.length_append]; omega)
    refine ⟨s', ?_, ?_, (commitRecovered_smrLog _ _ hs').1⟩
    · have hack : (recoveryStub (s.smrLog ++ es) req s).recoveryAck = true := rfl
      simp only [Server.initiateRecovery, hack, if_true, hcount, hget, ok_bind]
      exact hs'
    · rw [hcount, ((getRecoveryLog_arrived _ _ _ hget).2.mp rfl), hes]

def threeOrders : List MapOp := [⟨1, 7, 1⟩, ⟨1, 7, 2⟩, ⟨1, 7, 3⟩]

def backupOfThree (committedIndex : ℤ) : Server :=
  { Server.opened 1 [] [] (fun _ => 0) with
    smrLog := [⟨1, 7, 1⟩]
    smrReplCommit := ⟨0, committedIndex, 0, 1⟩ }

/-- The first order is committed on the backup. -/
theorem recovers_exactly_three :
    RecoversExactly threeOrders ⟨0, 1, 2, ⟨1, 7, 3⟩⟩ (backupOfThree 0) := by
  have hready : (backupOfThree 0).clog.Ready := (opened_sound 1 [] [] fun _ => 0).ready
  have hfront : (backupOfThree 0).smrLog <+: threeOrders := ⟨threeOrders.drop 1, rfl⟩
  exact (recovers_exactly_iff hready hfront rfl rfl (by decide) le_rfl (by decide)).mpr rfl

/-- The first order is not committed on the backup yet: it is sent once more, and
taken for the second one. -/
theorem recovers_shifted : ∃ s', (backupOfThree (-1)).initiateRecovery
      (recoveryStub threeOrders ⟨0, 1, 2, ⟨1, 7, 3⟩⟩ (backupOfThree (-1))) 2 1 = .ok s' ∧
    s'.smrLog = [⟨1, 7, 1⟩, ⟨1, 7, 1⟩, ⟨1, 7, 2⟩] ∧
    (recoveryEntries threeOrders (backupOfThree (-1))).length = 3 ∧
    ¬RecoversExactly threeOrders ⟨0, 1, 2, ⟨1, 7, 3⟩⟩ (backupOfThree (-1)) := by
  refine ⟨_, rfl, rfl, rfl, ?_⟩
  rintro ⟨s', -, hcount, -⟩
  revert hcount
  decide

/-- A call of `ifa_thread_read` fails: the request does not arrive, or a recovery is
needed and its acknowledgement is not sent or one of its entries does not arrive. -/
inductive Server.CallFails (s : Server) (ifa : IfaStub) : Prop where
  | request (hnone : ifa.getReplicationRequest = none)
  | ack (req : ReplReq) (hreq : ifa.getReplicationRequest = some req)
      (hgap : s.needsRecovery req = true) (hack : ifa.recoveryAck = false)
  | entry (req : ReplReq) (hreq : ifa.getReplicationRequest = some req)
      (hgap : s.needsRecovery req = true) (hack : ifa.recoveryAck = true) (j : ℕ)
      (hj : j < (req.lastIndex - s.lastIndex).toNat) (hentry : ifa.recvEntry j = none)

theorem Server.CallFails.gap {s : Server} {ifa : IfaStub} {req : ReplReq} (h : s.CallFails ifa)
    (hreq : ifa.getReplicationRequest = some req) : 1 < req.lastIndex - s.lastIndex := by
  cases h with
  | request hnone => simp [hreq] at hnone
  | ack req' hreq' hgap =>
    obtain rfl := Option.some.inj (hreq.symm.trans hreq')
    simpa [needsRecovery] using hgap
  | entry req' hreq' hgap =>
    obtain rfl := Option.some.inj (hreq.symm.trans hreq')
    simpa [needsRecovery] using hgap

/-- If a call fails, the backup is left as it was, without a primary, if and only if
it is the request that does not arrive. -/
theorem failed_read_unchanged_iff [Zlib] {ifa : IfaStub} {s : Server} (hfails : s.CallFails ifa) :
    s.ifaThreadRead ifa = .ok { s with smrReplCommit.primaryId := -1 } ↔
      ifa.getReplicationRequest = none := by
  constructor
  · intro hread
    cases hreq : ifa.getReplicationRequest with
    | none => rfl
    | some req =>
      rw [Server.ifaThreadRead_of_some hreq] at hread
      obtain ⟨r, -, hstore⟩ := bind_eq_ok.mp hread
      have hlast : s.lastIndex = req.lastIndex := (ifaStore_eq_ok hstore).2.1
      have hgap := hfails.gap hreq
      omega
  · exact Server.ifaThreadRead_of_none

def unacknowledged (req : Option ReplReq) : IfaStub := ⟨req, false, fun _ => none⟩

/-- The request does not arrive. -/
theorem failed_read_unchanged_three :
    (backupOfThree 0).ifaThreadRead (unacknowledged none) =
      .ok { backupOfThree 0 with smrReplCommit.primaryId := -1 } :=
  (failed_read_unchanged_iff (.request rfl)).mpr rfl

/-- The acknowledgement that starts a recovery is not sent, and the entry at the
committed index of the request is looked up all the same. -/
theorem failed_read_throws : (backupOfThree 0).CallFails
      (unacknowledged (some ⟨0, 1, 2, ⟨1, 7, 3⟩⟩)) ∧
    (backupOfThree 0).ifaThreadRead (unacknowledged (some ⟨0, 1, 2, ⟨1, 7, 3⟩⟩)) =
      .error .outOfRange :=
  ⟨.ack _ rfl rfl rfl, rfl⟩

end RobotFactory
