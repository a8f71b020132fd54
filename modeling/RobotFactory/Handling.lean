import RobotFactory.Replication

/-!
# What one request does to a sound server

A server is sound when its customer record is the replay of the committed part
of its log, at most one entry of the log up to `last_index` is not committed,
and the log has an entry at every index up to `last_index`. Each lemma below
says exactly what a function of the server does from a sound state, for the
requests that a sound primary sends. Log, indices and soundness of the result
are collected in `Server.Became`.
-/
namespace RobotFactory
open ReplayLog

/-- The representation invariant of a server. -/
structure Server.Sound (s : Server) : Prop where
  replayed : Committed CustomerRecord.apply ∅ s.smrLog (s.committedIndex + 1).toNat s.customerRecord
  committed_ge : -1 ≤ s.committedIndex
  committed_le : s.committedIndex ≤ s.lastIndex
  last_le : s.lastIndex ≤ s.committedIndex + 1
  last_lt : s.lastIndex < s.smrLog.length
  ready : s.clog.Ready

theorem Server.Sound.congr {s s' : Server} (h : s.Sound) (hlog : s'.smrLog = s.smrLog)
    (hrecord : s'.customerRecord = s.customerRecord) (hlast : s'.lastIndex = s.lastIndex)
    (hcommitted : s'.committedIndex = s.committedIndex) (hready : s.clog.Ready → s'.clog.Ready) :
    s'.Sound := by
  refine ⟨?_, ?_, ?_, ?_, ?_, hready h.ready⟩
  · rw [hlog, hcommitted, hrecord]
    exact h.replayed
  · rw [hcommitted]
    exact h.committed_ge
  · rw [hcommitted, hlast]
    exact h.committed_le
  · rw [hcommitted, hlast]
    exact h.last_le
  · rw [hlast, hlog]
    exact h.last_lt

theorem Server.Sound.with_primaryId {s : Server} (h : s.Sound) (id : ℤ) :
    Server.Sound { s with smrReplCommit.primaryId := id } :=
  h.congr rfl rfl rfl rfl fun hready => hready

structure Server.SameRole (s s' : Server) : Prop where
  factoriesRecord : s'.factoriesRecord = s.factoriesRecord
  recheckAllow : s'.recheckAllow = s.recheckAllow
  myFactoryId : s'.myFactoryId = s.myFactoryId

theorem Server.SameRole.refl (s : Server) : s.SameRole s := ⟨rfl, rfl, rfl⟩

/-- `s'` is sound, with the given log and indices. -/
structure Server.Became (s' : Server) (log : List MapOp) (last committed : ℤ) : Prop where
  sound : s'.Sound
  log_eq : s'.smrLog = log
  last_eq : s'.lastIndex = last
  committed_eq : s'.committedIndex = committed

theorem Server.SameRole.trans {s t u : Server} (h : s.SameRole t) (h' : t.SameRole u) :
    s.SameRole u :=
  ⟨h'.factoriesRecord.trans h.factoriesRecord, h'.recheckAllow.trans h.recheckAllow,
    h'.myFactoryId.trans h.myFactoryId⟩

section Frame

theorem commitAt_sameRole {s s' : Server} {i : ℤ} (h : s.commitAt i = .ok s') : s.SameRole s' := by
  obtain ⟨op, -, hs⟩ := bind_eq_ok.mp h
  cases hs
  exact ⟨rfl, rfl, rfl⟩

theorem commitRecovered_sameRole [Zlib] {remote : ℤ} (n : ℕ) (i : ℤ) {s s' : Server}
    (h : Server.commitRecovered remote n i s = .ok s') : s.SameRole s' := by
  induction n generalizing i s with
  | zero =>
    cases h
    exact .refl _
  | succ n ih =>
    obtain ⟨op, -, hrest⟩ := bind_eq_ok.mp h
    obtain ⟨clog, -, hrest⟩ := bind_eq_ok.mp hrest
    have hrole := ih (i + 1) hrest
    split_ifs at hrole <;> exact ⟨hrole.1, hrole.2, hrole.3⟩

theorem initiateRecovery_sameRole [Zlib] {ifa : IfaStub} {last committed : ℤ} {s s' : Server}
    (h : s.initiateRecovery ifa last committed = .ok s') : s.SameRole s' := by
  unfold Server.initiateRecovery at h
  split_ifs at h
  · obtain ⟨result, -, hrest⟩ := bind_eq_ok.mp h
    unfold Server.afterGetRecoveryLog at hrest
    split_ifs at hrest
    · have hrole := commitRecovered_sameRole _ _ hrest
      exact ⟨hrole.1, hrole.2, hrole.3⟩
    · cases hrest
      exact ⟨rfl, rfl, rfl⟩
  · cases h
    exact ⟨rfl, rfl, rfl⟩

theorem ifaReceive_sameRole [Zlib] {ifa : IfaStub} {req : ReplReq} {s s' : Server}
    (h : s.ifaReceive ifa req = .ok s') : s.SameRole s' := by
  unfold Server.ifaReceive at h
  split_ifs at h
  · exact initiateRecovery_sameRole h
  · obtain ⟨clog, -, hrest⟩ := bind_eq_ok.mp h
    obtain ⟨log, -, hs⟩ := bind_eq_ok.mp hrest
    cases hs
    exact ⟨rfl, rfl, rfl⟩
  · cases h
    exact .refl _

theorem ifaStore_sameRole {req : ReplReq} {s s' : Server} (h : s.ifaStore req = .ok s') :
    s.SameRole s' := by
  unfold Server.ifaStore at h
  split_ifs at h
  · have hrole := commitAt_sameRole h
    exact ⟨hrole.1, hrole.2, hrole.3⟩
  · cases h
    exact ⟨rfl, rfl, rfl⟩

theorem ifaThreadRead_sameRole [Zlib] {ifa : IfaStub} {s s' : Server}
    (h : s.ifaThreadRead ifa = .ok s') : s.SameRole s' := by
  cases hreq : ifa.getReplicationRequest with
  | none =>
    rw [Server.ifaThreadRead_of_none hreq] at h
    cases h
    exact ⟨rfl, rfl, rfl⟩
  | some req =>
    rw [Server.ifaThreadRead_of_some hreq] at h
    obtain ⟨r, hreceive, hstore⟩ := bind_eq_ok.mp h
    exact (ifaReceive_sameRole hreceive).trans (ifaStore_sameRole hstore)

theorem ifaThreadTurn_sameRole [Zlib] {sendAck : Bool} {ifa : IfaStub} {s s' : Server}
    (h : s.ifaThreadTurn sendAck ifa = .ok s') : s.SameRole s' := by
  obtain ⟨r, hread, hs⟩ := bind_eq_ok.mp h
  have hrole := ifaThreadRead_sameRole hread
  cases hs
  split_ifs <;> exact ⟨hrole.1, hrole.2, hrole.3⟩

end Frame

/-- A request of a server that has committed all but at most the last of its entries;
that of an order always is its last. -/
structure ReplReq.Near (req : ReplReq) : Prop where
  ge : -1 ≤ req.committedIndex
  le : req.committedIndex ≤ req.lastIndex
  last_le : req.lastIndex ≤ req.committedIndex + 1
  order : req.mapopRecord.arg1 ≠ -1 → req.lastIndex = req.committedIndex + 1

instance (req : ReplReq) : Decidable req.Near :=
  decidable_of_iff (-1 ≤ req.committedIndex ∧ req.committedIndex ≤ req.lastIndex ∧
      req.lastIndex ≤ req.committedIndex + 1 ∧
      (req.mapopRecord.arg1 ≠ -1 → req.lastIndex = req.committedIndex + 1))
    ⟨fun h => ⟨h.1, h.2.1, h.2.2.1, h.2.2.2⟩, fun h => ⟨h.ge, h.le, h.last_le, h.order⟩⟩

/-- A request as `admin_thread` makes it when everything was committed before: an order
is the entry behind the committed ones, a marker announces that there is no other. -/
structure ReplReq.Honest (req : ReplReq) : Prop where
  ge : -1 ≤ req.committedIndex
  order : req.mapopRecord.arg1 ≠ -1 → req.lastIndex = req.committedIndex + 1
  marker : req.mapopRecord.arg1 = -1 → req.lastIndex = req.committedIndex

theorem ReplReq.Honest.near {req : ReplReq} (h : req.Honest) :
    req.committedIndex ≤ req.lastIndex ∧ req.lastIndex ≤ req.committedIndex + 1 := by
  by_cases harg : req.mapopRecord.arg1 = -1
  · have := h.marker harg
    omega
  · have := h.order harg
    omega

theorem ReplReq.Honest.toNear {req : ReplReq} (h : req.Honest) : req.Near :=
  ⟨h.ge, h.near.1, h.near.2, h.order⟩

/-- The log after a request of a primary that holds `smrLog`. -/
def Server.handledLog (s : Server) (req : ReplReq) (smrLog : List MapOp) : List MapOp :=
  if s.needsRecovery req then
    s.smrLog.take (s.lastIndex + 1).toNat ++ smrLog.drop (s.lastIndex + 1).toNat ++
      s.smrLog.drop (s.lastIndex + 1).toNat
  else if req.mapopRecord.arg1 ≠ -1 then
    s.smrLog.insertIdx req.lastIndex.toNat req.mapopRecord
  else s.smrLog

/-- The states from which a request of a primary that holds `smrLog` is handled
without loss: the primary has committed as much, a recovery finds all entries
committed and reads all entries sent, and a marker finds the entry it commits. -/
structure Server.Prepared (s : Server) (req : ReplReq) (smrLog : List MapOp) : Prop where
  committed_le : s.committedIndex ≤ req.committedIndex
  recovery : s.needsRecovery req = true →
    s.committedIndex = s.lastIndex ∧ (smrLog.length : ℤ) = req.lastIndex + 1
  marker : s.needsRecovery req = false → req.mapopRecord.arg1 = -1 →
    req.committedIndex ≤ s.committedIndex + 1 ∧ req.lastIndex < s.smrLog.length

/-- A recovery then reads all entries that it is sent. -/
theorem Server.Prepared.drained {s : Server} {req : ReplReq} {smrLog : List MapOp}
    (h : s.Prepared req smrLog) (hneeds : s.needsRecovery req = true) :
    (smrLog.length : ℤ) - (s.committedIndex + 1) ≤ req.lastIndex - s.lastIndex := by
  obtain ⟨hdone, hlen⟩ := h.recovery hneeds
  omega

theorem replayed_record {s : Server} (h : s.Sound) :
    s.customerRecord = replayRecord (s.smrLog.take (s.committedIndex + 1).toNat) :=
  h.replayed.state_eq

theorem writeAhead_ready [Zlib] {clog : CommitLog} (h : clog.Ready) (op : MapOp) :
    ∃ clog', writeAhead clog op = .ok clog' ∧ clog'.Ready :=
  h.write clog.flushes op

/-- Applying the entry behind the committed ones, or the last of them once more. -/
theorem commitAt_replayed {s : Server} {i : ℤ}
    (h : Committed CustomerRecord.apply ∅ s.smrLog (s.committedIndex + 1).toNat s.customerRecord)
    (hge : -1 ≤ s.committedIndex) (h0 : 0 ≤ i) (hlt : i < s.smrLog.length)
    (hi : i = s.committedIndex ∨ i = s.committedIndex + 1) :
    ∃ record, s.commitAt i =
        .ok { s with customerRecord := record, smrReplCommit.committedIndex := i } ∧
      Committed CustomerRecord.apply ∅ s.smrLog (i + 1).toNat record := by
  have hidx : i.toNat < s.smrLog.length := by omega
  have hop : s.smrLog[i.toNat]? = some s.smrLog[i.toNat] := List.getElem?_eq_getElem hidx
  refine ⟨s.customerRecord.apply s.smrLog[i.toNat],
    by rw [Server.commitAt, vectorAt_of_lt h0 hidx]; rfl, ?_⟩
  have hsucc : (i + 1).toNat = i.toNat + 1 := by omega
  rw [hsucc]
  rcases hi with hi | hi
  · rw [← hi, hsucc] at h
    exact h.again CustomerRecord.apply_idempotent hop
  · rw [show (s.committedIndex + 1).toNat = i.toNat by omega] at h
    exact h.advance hop

/-- The tail of `ifa_thread_read`: the request's indices are stored and the entry
at its committed index is applied. -/
theorem ifaStore_became {s : Server} (req : ReplReq)
    (hrep : Committed CustomerRecord.apply ∅ s.smrLog (s.committedIndex + 1).toNat s.customerRecord)
    (hready : s.clog.Ready) (hge : -1 ≤ s.committedIndex) (hlt : req.lastIndex < s.smrLog.length)
    (hcl : req.committedIndex ≤ req.lastIndex) (hlc : req.lastIndex ≤ req.committedIndex + 1)
    (hc : req.committedIndex = s.committedIndex ∨ req.committedIndex = s.committedIndex + 1) :
    ∃ s', s.ifaStore req = .ok s' ∧ s'.Became s.smrLog req.lastIndex req.committedIndex ∧
      s.SameRole s' := by
  unfold Server.ifaStore
  by_cases hneg : req.committedIndex = -1
  · have hsame : s.committedIndex = req.committedIndex := by omega
    refine ⟨_, if_neg (not_not.mpr hneg), ⟨⟨hrep, hge, ?_, ?_, hlt, hready⟩, rfl, rfl, hsame⟩,
      rfl, rfl, rfl⟩
    · exact hsame.symm ▸ hcl
    · exact hsame.symm ▸ hlc
  · obtain ⟨record, hok, hrep'⟩ := commitAt_replayed
      (s := { s with
        smrReplCommit.primaryId := req.factoryId, smrReplCommit.lastIndex := req.lastIndex })
      hrep hge (i := req.committedIndex) (by omega) (by simp only; omega) hc
    rw [if_pos hneg, hok]
    exact ⟨_, rfl, ⟨⟨hrep', by simp only [Server.committedIndex]; omega, hcl, hlc, hlt, hready⟩,
      rfl, rfl, rfl⟩, rfl, rfl, rfl⟩

theorem ifaThreadRead_order [Zlib] {ifa : IfaStub} {req : ReplReq} {s : Server} (h : s.Sound)
    (hifa : ifa.getReplicationRequest = some req) (hgap : s.needsRecovery req = false)
    (harg : req.mapopRecord.arg1 ≠ -1) (hreq : req.Near)
    (hge : s.committedIndex ≤ req.committedIndex) :
    ∃ s', s.ifaThreadRead ifa = .ok s' ∧
      s'.Became (s.smrLog.insertIdx req.lastIndex.toNat req.mapopRecord) req.lastIndex
        req.committedIndex ∧ s.SameRole s' := by
  have hlast := hreq.order harg
  have hnear : req.lastIndex ≤ s.lastIndex + 1 := by simp [Server.needsRecovery] at hgap; omega
  have hll := h.last_le
  have hlt := h.last_lt
  have hcge := h.committed_ge
  obtain ⟨clog, hclog, hready⟩ := writeAhead_ready h.ready req.mapopRecord
  have hins := vectorInsert_of_le (v := s.smrLog) req.mapopRecord
    (show 0 ≤ req.lastIndex by omega) (show req.lastIndex ≤ s.smrLog.length by omega)
  have hlen : ((s.smrLog.insertIdx req.lastIndex.toNat req.mapopRecord).length : ℤ) =
      s.smrLog.length + 1 := by
    rw [List.length_insertIdx_of_le_length (by omega)]; push_cast; rfl
  have hreceive : s.ifaReceive ifa req = .ok { s with
      clog := clog.sync, smrLog := s.smrLog.insertIdx req.lastIndex.toNat req.mapopRecord } := by
    simp [Server.ifaReceive, Server.ifaInsert, hgap, harg, hclog, hins, walEnabled, pure,
      Except.pure]
  obtain ⟨s', hok, hbecame, hrole⟩ := ifaStore_became req
    (s := { s with
      clog := clog.sync, smrLog := s.smrLog.insertIdx req.lastIndex.toNat req.mapopRecord })
    (h.replayed.insert req.mapopRecord (by simp only [Server.committedIndex] at *; omega))
    hready.sync hcge (by simp only; omega) (by omega) (by omega)
    (by simp only [Server.committedIndex, Server.lastIndex] at *; omega)
  refine ⟨s', ?_, hbecame, hrole.factoriesRecord, hrole.recheckAllow, hrole.myFactoryId⟩
  rw [Server.ifaThreadRead_of_some hifa, hreceive]
  exact hok

theorem ifaThreadRead_marker [Zlib] {ifa : IfaStub} {req : ReplReq} {s : Server} (h : s.Sound)
    (hifa : ifa.getReplicationRequest = some req) (hgap : s.needsRecovery req = false)
    (harg : req.mapopRecord.arg1 = -1) (hreq : req.Near)
    (hge : s.committedIndex ≤ req.committedIndex)
    (hle : req.committedIndex ≤ s.committedIndex + 1) (hlt : req.lastIndex < s.smrLog.length) :
    ∃ s', s.ifaThreadRead ifa = .ok s' ∧
      s'.Became s.smrLog req.lastIndex req.committedIndex ∧ s.SameRole s' := by
  obtain ⟨s', hok, hbecame, hrole⟩ := ifaStore_became req
    h.replayed h.ready h.committed_ge hlt hreq.le hreq.last_le (by omega)
  have hreceive : s.ifaReceive ifa req = .ok s := by simp [Server.ifaReceive, hgap, harg]
  refine ⟨s', ?_, hbecame, hrole⟩
  rw [Server.ifaThreadRead_of_some hifa, hreceive]
  exact hok

/-- A marker whose index the log does not cover ends the thread: `at` throws. -/
theorem ifaThreadRead_marker_ahead [Zlib] {ifa : IfaStub} {req : ReplReq} {s : Server}
    (hifa : ifa.getReplicationRequest = some req) (hgap : s.needsRecovery req = false)
    (harg : req.mapopRecord.arg1 = -1) (hlen : (s.smrLog.length : ℤ) ≤ req.committedIndex) :
    s.ifaThreadRead ifa = .error .outOfRange := by
  have hat : vectorAt s.smrLog req.committedIndex = .error .outOfRange := by
    unfold vectorAt
    rw [if_neg (by omega), List.getElem?_eq_none (by omega)]
  have hreceive : s.ifaReceive ifa req = .ok s := by simp [Server.ifaReceive, hgap, harg]
  rw [Server.ifaThreadRead_of_some hifa, hreceive, ok_bind, Server.ifaStore, if_pos (by omega)]
  simp only [Server.commitAt, hat]
  rfl

/-- Reading `n` entries inserts them one behind the other. -/
theorem getRecoveryLog_complete {recvEntry : ℕ → Option MapOp} (es : List MapOp) (j : ℕ) (i : ℤ)
    (smrLog : List MapOp) (h0 : 0 ≤ i) (hle : i ≤ smrLog.length)
    (hrecv : ∀ k < es.length, recvEntry (j + k) = es[k]?) :
    getRecoveryLog recvEntry es.length j i smrLog =
      .ok (smrLog.take i.toNat ++ es ++ smrLog.drop i.toNat, true) := by
  induction es generalizing j i smrLog with
  | nil => simp [getRecoveryLog]
  | cons e es ih =>
    have hhead : recvEntry j = some e := by simpa using hrecv 0 (by simp)
    have hi : i.toNat ≤ smrLog.length := by omega
    have hsplit := insertIdx_eq_take_append_drop smrLog e hi
    have hlen : (smrLog.take i.toNat ++ [e]).length = (i + 1).toNat := by
      simp [hi]; omega
    have hrest : ∀ k < es.length, recvEntry (j + 1 + k) = es[k]? := by
      intro k hk
      simpa [Nat.add_comm, Nat.add_left_comm] using hrecv (k + 1) (by simpa using hk)
    have hmore := ih (j + 1) (i + 1) (smrLog.take i.toNat ++ e :: smrLog.drop i.toNat) (by omega)
      (by simp; omega) hrest
    rw [show smrLog.take i.toNat ++ e :: smrLog.drop i.toNat =
        (smrLog.take i.toNat ++ [e]) ++ smrLog.drop i.toNat by simp, ← hlen,
      List.take_left, List.drop_left] at hmore
    rw [List.length_cons, getRecoveryLog, hhead]
    simp only [vectorInsert_of_le e h0 hle, hsplit, ok_bind]
    rw [show smrLog.take i.toNat ++ e :: smrLog.drop i.toNat =
      (smrLog.take i.toNat ++ [e]) ++ smrLog.drop i.toNat by simp, hmore]
    simp

/-- The loop of `initiate_recovery` commits the recovered entries up to the
primary's committed index. -/
theorem commitRecovered_replayed [Zlib] (remote : ℤ) (n : ℕ) (i : ℤ) (s : Server)
    (hrep : Committed CustomerRecord.apply ∅ s.smrLog (s.committedIndex + 1).toNat s.customerRecord)
    (hready : s.clog.Ready) (h0 : 0 ≤ i) (hr : -1 ≤ remote)
    (hc : s.committedIndex = min (i - 1) remote) (hlen : i + n ≤ s.smrLog.length) :
    ∃ s', Server.commitRecovered remote n i s = .ok s' ∧
      Committed CustomerRecord.apply ∅ s'.smrLog (s'.committedIndex + 1).toNat s'.customerRecord ∧
      s'.clog.Ready ∧ s'.committedIndex = min (i + n - 1) remote ∧ s'.smrLog = s.smrLog ∧
      s'.lastIndex = s.lastIndex ∧ s.SameRole s' := by
  induction n generalizing i s with
  | zero => exact ⟨s, rfl, hrep, hready, by simp [hc], rfl, rfl, .refl s⟩
  | succ n ih =>
    have hidx : i.toNat < s.smrLog.length := by omega
    have hop : s.smrLog[i.toNat]? = some s.smrLog[i.toNat] := List.getElem?_eq_getElem hidx
    obtain ⟨clog, hclog, hready'⟩ := writeAhead_ready hready s.smrLog[i.toNat]
    simp only [Server.commitRecovered, vectorAt_of_lt h0 hidx, ok_bind, hclog]
    by_cases hle : i ≤ remote
    · rw [show (s.committedIndex + 1).toNat = i.toNat by omega] at hrep
      have hrep' := hrep.advance hop
      rw [show i.toNat + 1 = (i + 1).toNat by omega] at hrep'
      obtain ⟨s', hok, hrest⟩ := ih (i + 1)
        { s with
          clog := clog
          customerRecord := s.customerRecord.apply s.smrLog[i.toNat]
          smrReplCommit.committedIndex := i }
        hrep' hready' (by omega) (by simp only [Server.committedIndex]; omega)
        (by simp only; omega)
      obtain ⟨hrep'', hr', hc', hlog, hlast, hrole⟩ := hrest
      exact ⟨s', by simpa [hle] using hok, hrep'', hr', by rw [hc']; congr 1; push_cast; ring,
        hlog, hlast, hrole.1, hrole.2, hrole.3⟩
    · obtain ⟨s', hok, hrest⟩ := ih (i + 1) { s with clog := clog }
        hrep hready' (by omega) (by simp only [Server.committedIndex] at *; omega)
        (by simp only; omega)
      obtain ⟨hrep', hr', hc', hlog, hlast, hrole⟩ := hrest
      exact ⟨s', by simpa [hle] using hok, hrep', hr', by rw [hc']; congr 1; push_cast; ring,
        hlog, hlast, hrole.1, hrole.2, hrole.3⟩

/-- A recovery in which all calls succeed. It inserts the entries behind the last
one; nothing is skipped when all entries before them are committed. -/
theorem ifaThreadRead_recovery [Zlib] {ifa : IfaStub} {req : ReplReq} {s : Server} (h : s.Sound)
    (hifa : ifa.getReplicationRequest = some req) (hgap : s.needsRecovery req = true)
    (hreq : req.Near) (hdone : s.committedIndex = s.lastIndex) (hack : ifa.recoveryAck = true)
    (es : List MapOp) (hcount : (es.length : ℤ) = req.lastIndex - s.lastIndex)
    (hrecv : ∀ k < es.length, ifa.recvEntry k = es[k]?) :
    ∃ s', s.ifaThreadRead ifa = .ok s' ∧
      s'.Became (s.smrLog.take (s.lastIndex + 1).toNat ++ es ++
        s.smrLog.drop (s.lastIndex + 1).toNat) req.lastIndex req.committedIndex ∧
      s.SameRole s' := by
  have hlt := h.last_lt
  have hcge := h.committed_ge
  have hgap' : 1 < req.lastIndex - s.lastIndex := by simpa [Server.needsRecovery] using hgap
  have hle := hreq.le
  have hlast := hreq.last_le
  set log := s.smrLog.take (s.lastIndex + 1).toNat ++ es ++ s.smrLog.drop (s.lastIndex + 1).toNat
    with hlog
  have hlen : (log.length : ℤ) = s.smrLog.length + es.length := by
    simp [hlog]; omega
  have htake : log.take (s.committedIndex + 1).toNat =
      s.smrLog.take (s.committedIndex + 1).toNat := by
    rw [hlog, hdone, List.append_assoc, List.take_append_of_le_length (by simp; omega),
      List.take_take, min_self]
  have hget : getRecoveryLog ifa.recvEntry es.length 0 (s.lastIndex + 1) s.smrLog =
      .ok (log, true) :=
    getRecoveryLog_complete es 0 (s.lastIndex + 1) s.smrLog (by omega) (by omega)
      (by simpa using hrecv)
  obtain ⟨r, hok, hrep, hready, hc, hrlog, -, hrole⟩ :=
    commitRecovered_replayed req.committedIndex es.length (s.lastIndex + 1)
      { s with smrLog := log } (h.replayed.congr htake (by simp only; omega)) h.ready (by omega)
      (by omega) (by simp only [Server.committedIndex, Server.lastIndex] at *; omega)
      (by simp only; omega)
  have hrlog : r.smrLog = log := hrlog
  have hreceive : s.ifaReceive ifa req = .ok r := by
    simp only [Server.ifaReceive, hgap, if_true, Server.initiateRecovery, hack,
      show (req.lastIndex - s.lastIndex).toNat = es.length by omega, hget, ok_bind,
      Server.afterGetRecoveryLog]
    exact hok
  obtain ⟨s', hstore, hbecame, hrole'⟩ := ifaStore_became req hrep hready
    (by omega) (by rw [hrlog]; omega) hle hlast (by omega)
  have hrole : s.SameRole r := ⟨hrole.1, hrole.2, hrole.3⟩
  refine ⟨s', ?_, hrlog ▸ hbecame, hrole.trans hrole'⟩
  rw [Server.ifaThreadRead_of_some hifa, hreceive]
  exact hstore

theorem ifaThreadRead_became [Zlib] {ifa : IfaStub} {req : ReplReq} {s : Server}
    {smrLog : List MapOp} (h : s.Sound) (hifa : ifa.getReplicationRequest = some req)
    (hreq : req.Honest) (hp : s.Prepared req smrLog)
    (hcalls : s.needsRecovery req = true → ifa.recoveryAck = true ∧
      ∀ k, ifa.recvEntry k = (smrLog.drop (s.lastIndex + 1).toNat)[k]?) :
    ∃ s', s.ifaThreadRead ifa = .ok s' ∧
      s'.Became (s.handledLog req smrLog) req.lastIndex req.committedIndex ∧ s.SameRole s' := by
  unfold Server.handledLog
  by_cases hgap : s.needsRecovery req = true
  · obtain ⟨hdone, hlen⟩ := hp.recovery hgap
    obtain ⟨hack, hrecv⟩ := hcalls hgap
    have hge := h.committed_ge
    have hgap' : 1 < req.lastIndex - s.lastIndex := by simpa [Server.needsRecovery] using hgap
    rw [if_pos hgap]
    exact ifaThreadRead_recovery h hifa hgap hreq.toNear hdone hack _ (by simp; omega)
      (fun k _ => hrecv k)
  · have hgap' : s.needsRecovery req = false := by simpa using hgap
    rw [if_neg hgap]
    by_cases harg : req.mapopRecord.arg1 = -1
    · obtain ⟨hle, hlt⟩ := hp.marker hgap' harg
      rw [if_neg (not_not.mpr harg)]
      exact ifaThreadRead_marker h hifa hgap' harg hreq.toNear hp.committed_le hle hlt
    · rw [if_pos harg]
      exact ifaThreadRead_order h hifa hgap' harg hreq.toNear hp.committed_le

end RobotFactory
