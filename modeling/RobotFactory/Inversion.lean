import RobotFactory.Handling

/-!
# What a function has done that returned

Inversion of the functions of the server, for results that hold of any request
and any outcome of the calls: from the value that a function returned to the log
and the indices of the server afterwards.
-/
namespace RobotFactory

/-- `s'` differs from `s` in its sockets, its role and its primary only. -/
structure Server.SameState (s s' : Server) : Prop where
  smrLog_eq : s'.smrLog = s.smrLog
  customerRecord_eq : s'.customerRecord = s.customerRecord
  lastIndex_eq : s'.lastIndex = s.lastIndex
  committedIndex_eq : s'.committedIndex = s.committedIndex
  clog_eq : s'.clog = s.clog

theorem commitAt_cases {s s' : Server} {i : ℤ} (h : s.commitAt i = .ok s') :
    ∃ op, 0 ≤ i ∧ s.smrLog[i.toNat]? = some op ∧ s' = { s with
      customerRecord := s.customerRecord.apply op, smrReplCommit.committedIndex := i } := by
  obtain ⟨op, hat, hs⟩ := bind_eq_ok.mp h
  obtain ⟨h0, hop⟩ := vectorAt_eq_ok_iff.mp hat
  cases hs
  exact ⟨op, h0, hop, rfl⟩

theorem commitAt_eq_ok {s s' : Server} {i : ℤ} (h : s.commitAt i = .ok s') :
    s'.smrLog = s.smrLog ∧ s'.lastIndex = s.lastIndex ∧ s'.committedIndex = i := by
  obtain ⟨op, -, -, rfl⟩ := commitAt_cases h
  exact ⟨rfl, rfl, rfl⟩

theorem lt_length_of_commitAt {s s' : Server} {i : ℤ} (h : s.commitAt i = .ok s') :
    0 ≤ i ∧ i < s.smrLog.length := by
  obtain ⟨op, h0, hop, -⟩ := commitAt_cases h
  obtain ⟨hlt, -⟩ := List.getElem?_eq_some_iff.mp hop
  exact ⟨h0, by omega⟩

theorem getRecoveryLog_succ {recvEntry : ℕ → Option MapOp} {n k : ℕ} {i : ℤ} {smrLog : List MapOp}
    {result : List MapOp × Bool}
    (h : getRecoveryLog recvEntry (n + 1) k i smrLog = .ok result) :
    (recvEntry k = none ∧ result = (smrLog, false)) ∨
      ∃ op, recvEntry k = some op ∧ 0 ≤ i ∧ i.toNat ≤ smrLog.length ∧
        getRecoveryLog recvEntry n (k + 1) (i + 1) (smrLog.insertIdx i.toNat op) = .ok result := by
  unfold getRecoveryLog at h
  cases hrecv : recvEntry k with
  | none =>
    simp only [hrecv] at h
    exact .inl ⟨rfl, (Except.ok.inj h).symm⟩
  | some op =>
    simp only [hrecv] at h
    obtain ⟨log, hlog, hrest⟩ := bind_eq_ok.mp h
    obtain ⟨⟨h0, hle⟩, rfl⟩ := vectorInsert_eq_ok_iff.mp hlog
    exact .inr ⟨op, rfl, h0, by omega, hrest⟩

theorem take_getRecoveryLog {recvEntry : ℕ → Option MapOp} (n k : ℕ) (i : ℤ) (h0 : 0 ≤ i)
    {smrLog : List MapOp} {result : List MapOp × Bool}
    (h : getRecoveryLog recvEntry n k i smrLog = .ok result) :
    result.1.take i.toNat = smrLog.take i.toNat := by
  induction n generalizing k i smrLog with
  | zero =>
    cases h
    rfl
  | succ n ih =>
    obtain ⟨-, rfl⟩ | ⟨op, -, -, -, hrest⟩ := getRecoveryLog_succ h
    · rfl
    · have hmore := ih (k + 1) (i + 1) (by omega) hrest
      have hle : i.toNat ≤ (i + 1).toNat := by omega
      calc result.1.take i.toNat
          = (result.1.take (i + 1).toNat).take i.toNat := by rw [List.take_take, min_eq_left hle]
        _ = ((smrLog.insertIdx i.toNat op).take (i + 1).toNat).take i.toNat := by rw [hmore]
        _ = (smrLog.insertIdx i.toNat op).take i.toNat := by
          rw [List.take_take, min_eq_left hle]
        _ = smrLog.take i.toNat := ReplayLog.take_insertIdx_of_le smrLog op le_rfl

/-- The number of entries, out of `n`, that the loop of `GetRecoveryLog` reads
before a call fails. -/
def arrivedEntries (recvEntry : ℕ → Option MapOp) : ℕ → ℕ → ℕ
  | 0, _ => 0
  | n + 1, k => if (recvEntry k).isSome then arrivedEntries recvEntry n (k + 1) + 1 else 0

theorem getRecoveryLog_arrived {recvEntry : ℕ → Option MapOp} (n k : ℕ) (i : ℤ)
    {smrLog : List MapOp} {result : List MapOp × Bool}
    (h : getRecoveryLog recvEntry n k i smrLog = .ok result) :
    result.1.length = smrLog.length + arrivedEntries recvEntry n k ∧
      (result.2 = true ↔ arrivedEntries recvEntry n k = n) := by
  induction n generalizing k i smrLog with
  | zero =>
    cases h
    exact ⟨rfl, by simp [arrivedEntries]⟩
  | succ n ih =>
    obtain ⟨hrecv, rfl⟩ | ⟨op, hrecv, -, hle, hrest⟩ := getRecoveryLog_succ h
    · exact ⟨by simp [arrivedEntries, hrecv], by simp [arrivedEntries, hrecv]⟩
    · obtain ⟨hlen, hall⟩ := ih (k + 1) (i + 1) hrest
      rw [List.length_insertIdx_of_le_length hle] at hlen
      simp only [arrivedEntries, hrecv, Option.isSome_some, if_true]
      exact ⟨by omega, hall.trans (by omega)⟩

/-- The entries read go in one behind the other, from `i` on. -/
theorem getRecoveryLog_inserts {recvEntry : ℕ → Option MapOp} (n k : ℕ) (i : ℤ)
    {smrLog : List MapOp} {result : List MapOp × Bool}
    (h : getRecoveryLog recvEntry n k i smrLog = .ok result) :
    ∃ es : List MapOp, es.length = arrivedEntries recvEntry n k ∧
      result.1 = smrLog.take i.toNat ++ es ++ smrLog.drop i.toNat := by
  induction n generalizing k i smrLog with
  | zero =>
    cases h
    exact ⟨[], rfl, by simp⟩
  | succ n ih =>
    obtain ⟨hrecv, rfl⟩ | ⟨op, hrecv, h0, hle, hrest⟩ := getRecoveryLog_succ h
    · exact ⟨[], by simp [arrivedEntries, hrecv], by simp⟩
    · obtain ⟨es, hes, hresult⟩ := ih (k + 1) (i + 1) hrest
      have hlen : (smrLog.take i.toNat ++ [op]).length = (i + 1).toNat := by
        rw [List.length_append, List.length_take, List.length_singleton]
        omega
      have hsplit : smrLog.insertIdx i.toNat op =
          (smrLog.take i.toNat ++ [op]) ++ smrLog.drop i.toNat := by
        rw [ReplayLog.insertIdx_eq_take_append_drop _ _ hle, List.append_assoc,
          List.singleton_append]
      refine ⟨op :: es, by simp [arrivedEntries, hrecv, hes], ?_⟩
      rw [hresult, hsplit, ← hlen, List.take_left, List.drop_left]
      simp

theorem commitRecovered_smrLog [Zlib] {remote : ℤ} (n : ℕ) (i : ℤ) {s s' : Server}
    (h : Server.commitRecovered remote n i s = .ok s') :
    s'.smrLog = s.smrLog ∧ s'.lastIndex = s.lastIndex := by
  induction n generalizing i s with
  | zero =>
    cases h
    exact ⟨rfl, rfl⟩
  | succ n ih =>
    obtain ⟨op, -, hrest⟩ := bind_eq_ok.mp h
    obtain ⟨clog, -, hrest⟩ := bind_eq_ok.mp hrest
    have hmore := ih (i + 1) hrest
    split_ifs at hmore <;> exact hmore

/-- The loop commits no index behind the primary's committed one. -/
theorem commitRecovered_committed [Zlib] {remote : ℤ} (n : ℕ) (i : ℤ) {s s' : Server}
    (h : Server.commitRecovered remote n i s = .ok s') (h0 : 0 ≤ i) :
    s'.committedIndex = s.committedIndex ∨ 0 ≤ s'.committedIndex ∧ s'.committedIndex ≤ remote := by
  induction n generalizing i s with
  | zero =>
    cases h
    exact .inl rfl
  | succ n ih =>
    obtain ⟨op, -, hrest⟩ := bind_eq_ok.mp h
    obtain ⟨clog, -, hrest⟩ := bind_eq_ok.mp hrest
    have hmore := ih (i + 1) hrest (by omega)
    split_ifs at hmore with hle
    · simp only [Server.committedIndex] at hmore ⊢
      omega
    · exact hmore

inductive Server.Recovered [Zlib] (ifa : IfaStub) (req : ReplReq) (s : Server) : Server → Prop where
  | refused (hack : ifa.recoveryAck = false) :
      Recovered ifa req s { s with smrReplCommit.primaryId := -1 }
  | broken (log : List MapOp) (hack : ifa.recoveryAck = true)
      (hget : getRecoveryLog ifa.recvEntry (req.lastIndex - s.lastIndex).toNat 0 (s.lastIndex + 1)
        s.smrLog = .ok (log, false)) :
      Recovered ifa req s { s with smrLog := log, smrReplCommit.primaryId := -1 }
  | whole (log : List MapOp) (s' : Server) (hack : ifa.recoveryAck = true)
      (hget : getRecoveryLog ifa.recvEntry (req.lastIndex - s.lastIndex).toNat 0 (s.lastIndex + 1)
        s.smrLog = .ok (log, true))
      (hcommit : commitRecovered req.committedIndex (req.lastIndex - s.lastIndex).toNat
        (s.lastIndex + 1) { s with smrLog := log } = .ok s') : Recovered ifa req s s'

theorem initiateRecovery_cases [Zlib] {ifa : IfaStub} {req : ReplReq} {s s' : Server}
    (h : s.initiateRecovery ifa req.lastIndex req.committedIndex = .ok s') :
    s.Recovered ifa req s' := by
  unfold Server.initiateRecovery at h
  split_ifs at h with hack
  · obtain ⟨⟨log, all⟩, hget, hafter⟩ := bind_eq_ok.mp h
    cases all with
    | true => exact .whole log s' hack hget hafter
    | false =>
      cases hafter
      exact .broken log hack hget
  · cases h
    exact .refused (by simpa using hack)

theorem ifaInsert_cases [Zlib] {req : ReplReq} {s s' : Server} (h : s.ifaInsert req = .ok s') :
    ∃ clog, writeAhead s.clog req.mapopRecord = .ok clog ∧
      (0 ≤ req.lastIndex ∧ req.lastIndex ≤ s.smrLog.length) ∧ s' = { s with
        clog := if walEnabled then clog.sync else clog
        smrLog := s.smrLog.insertIdx req.lastIndex.toNat req.mapopRecord } := by
  obtain ⟨clog, hclog, hrest⟩ := bind_eq_ok.mp h
  obtain ⟨log, hlog, hs⟩ := bind_eq_ok.mp hrest
  obtain ⟨hrange, rfl⟩ := vectorInsert_eq_ok_iff.mp hlog
  cases hs
  exact ⟨clog, hclog, hrange, rfl⟩

/-- Everything that a backup receives goes behind its last index, or at the
request's. -/
theorem ifaReceive_take [Zlib] {ifa : IfaStub} {req : ReplReq} {s s' : Server} {n : ℕ}
    (hn : (n : ℤ) ≤ s.lastIndex + 1) (hreq : req.mapopRecord.arg1 ≠ -1 → (n : ℤ) ≤ req.lastIndex)
    (h : s.ifaReceive ifa req = .ok s') : s'.smrLog.take n = s.smrLog.take n := by
  unfold Server.ifaReceive at h
  split_ifs at h with hgap harg
  · have hbehind {log : List MapOp} {all : Bool}
        (hget : getRecoveryLog ifa.recvEntry (req.lastIndex - s.lastIndex).toNat 0 (s.lastIndex + 1)
          s.smrLog = .ok (log, all)) : log.take n = s.smrLog.take n := by
      have htake := take_getRecoveryLog _ _ _ (by omega) hget
      have hle : n ≤ (s.lastIndex + 1).toNat := by omega
      calc log.take n
          = (log.take (s.lastIndex + 1).toNat).take n := by
            rw [List.take_take, min_eq_left hle]
        _ = (s.smrLog.take (s.lastIndex + 1).toNat).take n := by rw [htake]
        _ = s.smrLog.take n := by rw [List.take_take, min_eq_left hle]
    cases initiateRecovery_cases h with
    | refused => rfl
    | broken log _ hget => exact hbehind hget
    | whole log _ _ hget hcommit =>
      rw [(commitRecovered_smrLog _ _ hcommit).1]
      exact hbehind hget
  · obtain ⟨clog, -, -, rfl⟩ := ifaInsert_cases h
    have := hreq harg
    exact ReplayLog.take_insertIdx_of_le _ _ (by omega)
  · cases h
    rfl

theorem ifaStore_eq_ok {req : ReplReq} {s s' : Server} (h : s.ifaStore req = .ok s') :
    s'.smrLog = s.smrLog ∧ s'.lastIndex = req.lastIndex ∧
      (req.committedIndex ≠ -1 → s'.committedIndex = req.committedIndex) ∧
      (req.committedIndex = -1 → s'.committedIndex = s.committedIndex) := by
  unfold Server.ifaStore at h
  split_ifs at h with hne
  · obtain ⟨hlog, hlast, hcommitted⟩ := commitAt_eq_ok h
    exact ⟨hlog, hlast, fun _ => hcommitted, fun heq => absurd heq hne⟩
  · cases h
    exact ⟨rfl, rfl, fun h => absurd h hne, fun _ => rfl⟩

theorem ifaStore_clog {req : ReplReq} {s s' : Server} (h : s.ifaStore req = .ok s') :
    s'.clog = s.clog := by
  unfold Server.ifaStore at h
  split_ifs at h
  · obtain ⟨op, -, -, rfl⟩ := commitAt_cases h
    rfl
  · cases h
    rfl

theorem ifaReceive_committed [Zlib] {ifa : IfaStub} {req : ReplReq} {s s' : Server}
    (hgap : s.needsRecovery req = false) (h : s.ifaReceive ifa req = .ok s') :
    s'.committedIndex = s.committedIndex := by
  unfold Server.ifaReceive at h
  rw [if_neg (by simp [hgap])] at h
  split_ifs at h
  · obtain ⟨clog, -, -, rfl⟩ := ifaInsert_cases h
    rfl
  · cases h
    rfl

inductive Server.Rechecked (connect : ℤ → ℤ) (s : Server) : Server → Prop where
  | skipped (hallow : s.recheckAllow = false) : Rechecked connect s s
  | current (hallow : s.recheckAllow = true)
      (hbehind : ¬(0 ≤ s.lastIndex ∧ s.committedIndex < s.lastIndex)) :
      Rechecked connect s { s.recheckreplsock connect with recheckAllow := false }
  | committed (op : MapOp) (hallow : s.recheckAllow = true) (h0 : 0 ≤ s.lastIndex)
      (hbehind : s.committedIndex < s.lastIndex) (hop : s.smrLog[s.lastIndex.toNat]? = some op) :
      Rechecked connect s { s.recheckreplsock connect with
        recheckAllow := false
        customerRecord := s.customerRecord.apply op
        smrReplCommit.committedIndex := s.lastIndex }

theorem adminRecheck_cases {connect : ℤ → ℤ} {s s' : Server}
    (h : s.adminRecheck connect = .ok s') : s.Rechecked connect s' := by
  unfold Server.adminRecheck at h
  split_ifs at h with hallow
  · obtain ⟨r, hr, hpure⟩ := bind_eq_ok.mp h
    cases hpure
    unfold Server.recheckcommit at hr
    split_ifs at hr with hbehind
    · obtain ⟨op, h0, hop, rfl⟩ := commitAt_cases hr
      exact .committed op hallow h0 hbehind.2 hop
    · cases hr
      exact .current hallow hbehind
  · cases h
    exact .skipped (by simpa using hallow)

/-- The rechecks move no entry. -/
theorem adminRecheck_keeps {connect : ℤ → ℤ} {s s' : Server}
    (h : s.adminRecheck connect = .ok s') : s'.clog = s.clog ∧ s'.smrLog = s.smrLog ∧
      s'.lastIndex = s.lastIndex := by
  cases adminRecheck_cases h with
  | skipped | current | committed => exact ⟨rfl, rfl, rfl⟩

/-- The rechecks commit up to the last index. -/
theorem adminRecheck_eq_ok {connect : ℤ → ℤ} {s s' : Server} (hge : -1 ≤ s.committedIndex)
    (hcl : s.committedIndex ≤ s.lastIndex)
    (hcond : s.recheckAllow = true ∨ s.committedIndex = s.lastIndex)
    (h : s.adminRecheck connect = .ok s') :
    s'.smrLog = s.smrLog ∧ s'.lastIndex = s.lastIndex ∧ s'.committedIndex = s.lastIndex := by
  cases adminRecheck_cases h with
  | skipped hallow => exact ⟨rfl, rfl, hcond.resolve_left (by simp [hallow])⟩
  | current _ hbehind => exact ⟨rfl, rfl, show s.committedIndex = s.lastIndex by omega⟩
  | committed => exact ⟨rfl, rfl, rfl⟩

def Server.recheckedFactories (s : Server) (connect : ℤ → ℤ) : List FactoryRec :=
  if s.recheckAllow then (s.recheckreplsock connect).factoriesRecord else s.factoriesRecord

theorem adminRecheck_factories {connect : ℤ → ℤ} {s s' : Server}
    (h : s.adminRecheck connect = .ok s') : s'.factoriesRecord = s.recheckedFactories connect := by
  unfold Server.recheckedFactories
  cases adminRecheck_cases h with
  | skipped hallow => simp [hallow]
  | current hallow | committed _ hallow => simp [hallow]

inductive Server.Appended [Zlib] (shipOrder : RobotInf) (s : Server) : Server → Prop where
  | order (clog : CommitLog) (horder : shipOrder.customerId ≠ -1)
      (hlast : s.lastIndex < intMax) (hclog : writeAhead s.clog (logEntryOf shipOrder) = .ok clog)
      (hrange : 0 ≤ s.lastIndex + 1 ∧ s.lastIndex + 1 ≤ s.smrLog.length) :
      Appended shipOrder s { s with
        clog := clog
        smrLog := s.smrLog.insertIdx (s.lastIndex + 1).toNat (logEntryOf shipOrder)
        smrReplCommit.primaryId := s.myFactoryId
        smrReplCommit.lastIndex := s.lastIndex + 1 }
  | marker (hmarker : shipOrder.customerId = -1) :
      Appended shipOrder s { s with smrReplCommit.primaryId := s.myFactoryId }

theorem adminAppend_cases [Zlib] {shipOrder : RobotInf} {s s' : Server}
    (h : s.adminAppend shipOrder = .ok s') : s.Appended shipOrder s' := by
  unfold Server.adminAppend at h
  split_ifs at h with horder
  · obtain ⟨last, hlast, hrest⟩ := bind_eq_ok.mp h
    obtain ⟨clog, hclog, hrest⟩ := bind_eq_ok.mp hrest
    obtain ⟨log, hlog, hpure⟩ := bind_eq_ok.mp hrest
    obtain ⟨hlt, rfl⟩ := intSucc_eq_ok_iff.mp hlast
    obtain ⟨hrange, rfl⟩ := vectorInsert_eq_ok_iff.mp hlog
    cases hpure
    exact .order clog horder hlt hclog hrange
  · cases h
    exact .marker (not_not.mp horder)

/-- The next order goes behind the last index. -/
theorem adminAppend_eq_ok [Zlib] {shipOrder : RobotInf} {s s' : Server}
    (h : s.adminAppend shipOrder = .ok s') :
    s'.smrLog.take (s.lastIndex + 1).toNat = s.smrLog.take (s.lastIndex + 1).toNat ∧
      s'.lastIndex = (if shipOrder.customerId ≠ -1 then s.lastIndex + 1 else s.lastIndex) ∧
      s'.committedIndex = s.committedIndex := by
  cases adminAppend_cases h with
  | order clog horder =>
    rw [if_pos horder]
    exact ⟨ReplayLog.take_insertIdx_of_le _ _ le_rfl, rfl, rfl⟩
  | marker hmarker =>
    rw [if_neg (not_not.mpr hmarker)]
    exact ⟨rfl, rfl, rfl⟩

theorem adminAppend_factories [Zlib] {shipOrder : RobotInf} {s s' : Server}
    (h : s.adminAppend shipOrder = .ok s') : s'.factoriesRecord = s.factoriesRecord := by
  cases adminAppend_cases h with
  | order | marker => rfl

end RobotFactory
