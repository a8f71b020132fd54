import RobotFactory.Handling

/-!
# What one exchange does

The outcome of an exchange between a primary and a live backup, by what happens
to its calls. Most results assume that every `recv` returns its whole message, since
the stub takes fewer bytes, or the end of the stream, for success and continues with
what its buffer held.
-/
namespace RobotFactory

def Recv.Whole {α : Type} (outcome : Recv α) : Prop := ∀ junk rest, outcome ≠ .short junk rest

theorem Recv.Whole.read_eq_some {α : Type} {outcome : Recv α} {sent : Option α} {x : α}
    (h : outcome.Whole) (hread : outcome.read sent = some x) :
    outcome = .message ∧ sent = some x := by
  cases outcome with
  | message => exact ⟨rfl, hread⟩
  | short junk rest => exact absurd rfl (h junk rest)
  | failure => cases hread

theorem Recv.Whole.rest_eq {α : Type} {outcome : Recv α} (h : outcome.Whole) :
    outcome.rest = false := by
  cases outcome with
  | message | failure => rfl
  | short junk rest => exact absurd rfl (h junk rest)

namespace Link

/-- Every call of the exchange that reads gets its whole message or fails. -/
structure Whole (link : Link) : Prop where
  recvRequest : link.recvRequest.Whole
  recvAck : link.recvAck.Whole
  recvIndex : link.recvIndex.Whole
  recvEntry : ∀ k, (link.recvEntry k).Whole
  recvReack : link.recvReack.Whole

/-- All calls between the first acknowledgement and the second succeed. -/
structure RecoveryCalls (link : Link) : Prop where
  sendRecoveryAck : link.sendRecoveryAck = true
  recvAck : link.recvAck = .message
  recvIndex : link.recvIndex = .message
  sendEntry : ∀ k, link.sendEntry k = true
  recvEntry : ∀ k, link.recvEntry k = .message

structure Clean (link : Link) : Prop extends RecoveryCalls link where
  sendRequest : link.sendRequest = true
  recvRequest : link.recvRequest = .message
  sendAck : link.sendAck = true
  recvReack : link.recvReack = .message

theorem Clean.whole {link : Link} (h : link.Clean) : link.Whole := by
  refine ⟨?_, ?_, ?_, fun k => ?_, ?_⟩ <;>
    simp [Recv.Whole, h.recvRequest, h.recvAck, h.recvIndex, h.recvEntry, h.recvReack]

def clean : Link where
  sendRequest := true
  recvRequest := .message
  sendRecoveryAck := true
  recvAck := .message
  recvIndex := .message
  sendEntry _ := true
  recvEntry _ := .message
  sendAck := true
  recvReack := .message
  strayAck := none
  strayIndex := none
  strayReack := none

theorem clean_clean : clean.Clean :=
  ⟨⟨rfl, rfl, rfl, fun _ => rfl, fun _ => rfl⟩, rfl, rfl, rfl, rfl⟩

def broken : Link := { clean with sendRequest := false }

theorem broken_whole : broken.Whole := by
  refine ⟨?_, ?_, ?_, fun k => ?_, ?_⟩ <;> intro junk rest h <;> cases h

theorem sendEntries_all {sendEntry : ℕ → Bool} (hall : ∀ k, sendEntry k = true) (j : ℕ)
    (ops : List MapOp) : sendEntries sendEntry j ops = (ops, true) := by
  induction ops generalizing j with
  | nil => rfl
  | cons op ops ih => simp [sendEntries, hall, ih]

theorem length_sendEntries_le (sendEntry : ℕ → Bool) (j : ℕ) (ops : List MapOp) :
    (sendEntries sendEntry j ops).1.length ≤ ops.length := by
  induction ops generalizing j with
  | nil => simp [sendEntries]
  | cons op ops ih =>
    simp only [sendEntries]
    split_ifs
    · simpa using ih (j + 1)
    · simp

theorem sendRecoveryLog_some {sendEntry : ℕ → Bool} {smrLog : List MapOp} {committedIndex : ℤ}
    (h : -1 ≤ committedIndex) : sendRecoveryLog (some committedIndex) sendEntry smrLog =
      sendEntries sendEntry 0 (smrLog.drop (committedIndex + 1).toNat) := by
  simp only [sendRecoveryLog]
  rw [if_neg (by omega)]

/-- The backup reads the primary's entries behind its own committed index. -/
theorem RecoveryCalls.recvEntry_eq {link : Link} (h : link.RecoveryCalls) {req : ReplReq}
    {smrLog : List MapOp} {backup : Server} (hge : -1 ≤ backup.committedIndex)
    (k : ℕ) : (link.ifaStub req smrLog backup).recvEntry k =
      (smrLog.drop (backup.committedIndex + 1).toNat)[k]? := by
  simp [ifaStub, entriesSent, Recv.read, h.recvAck, h.recvIndex, h.recvEntry,
    sendRecoveryLog_some hge, sendEntries_all h.sendEntry]

/-- Nothing is sent in answer to the acknowledgement 1. -/
theorem Whole.entriesSent_eq_nil {link : Link} (h : link.Whole) {smrLog : List MapOp}
    {ack index : Option ℤ} (hack : ack ≠ some 2) : link.entriesSent smrLog ack index = [] := by
  unfold entriesSent
  rw [if_neg]
  intro hread
  exact hack (h.recvAck.read_eq_some hread).2

theorem Whole.length_entriesSent_le {link : Link} (h : link.Whole) (smrLog : List MapOp)
    (ack : Option ℤ) {committedIndex : ℤ} (hge : -1 ≤ committedIndex) :
    (link.entriesSent smrLog ack (some committedIndex)).length ≤
      smrLog.length - (committedIndex + 1).toNat := by
  unfold entriesSent
  split_ifs
  · cases hread : link.recvIndex.read (some committedIndex) with
    | none => simp [sendRecoveryLog]
    | some index =>
      obtain ⟨-, hindex⟩ := h.recvIndex.read_eq_some hread
      cases hindex
      rw [sendRecoveryLog_some hge]
      exact (length_sendEntries_le _ _ _).trans (by simp)
  · simp

/-- On a whole link only entries that are sent and not asked for are left unread. -/
theorem Whole.leftUnread_eq {link : Link} (h : link.Whole) (smrLog : List MapOp)
    (ack index : Option ℤ) (count : ℕ) : link.leftUnread smrLog ack index count =
      decide (count < (link.entriesSent smrLog ack index).length) := by
  simp [leftUnread, h.recvRequest.rest_eq, h.recvAck.rest_eq, h.recvIndex.rest_eq,
    h.recvReack.rest_eq, fun k => (h.recvEntry k).rest_eq]

end Link

theorem Link.getReplicationRequest_of_message {link : Link} (h : link.recvRequest = .message)
    (req : ReplReq) (smrLog : List MapOp) (s : Server) :
    (link.ifaStub req smrLog s).getReplicationRequest = some req := by
  simp [Link.ifaStub, h, Recv.read]

theorem NextHandled.of_clean {p : ℤ} {c : Cluster} {P : IfaStub → ReplReq → Server → Prop}
    {shipOrder : RobotInf} {req : ReplReq} {i : ℕ} {f : FactoryRec}
    (hadmin : (c p).admin = .replicating shipOrder req i)
    (hf : (c p).server.factoriesRecord[i]? = some f)
    (h : P (Link.clean.ifaStub req (c p).server.smrLog (c f.factoryId).server) req
      (c f.factoryId).server) : NextHandled p c P (.replicate Link.clean) := by
  intro o r j g received hadmin' hg _ _ _ _ hreceived
  rw [hadmin] at hadmin'
  cases hadmin'
  rw [hf] at hg
  cases hg
  rw [Link.getReplicationRequest_of_message rfl, Option.some.injEq] at hreceived
  exact hreceived ▸ h

theorem Link.message_of_not_lost {link : Link} (hwhole : link.recvRequest.Whole)
    (h : ¬(link.sendRequest = false ∨ link.recvRequest = .failure)) :
    link.sendRequest = true ∧ link.recvRequest = .message := by
  obtain ⟨hsend, hfail⟩ := not_or.mp h
  refine ⟨by simpa using hsend, ?_⟩
  cases hrecv : link.recvRequest with
  | message => rfl
  | short junk rest => exact absurd hrecv (hwhole junk rest)
  | failure => exact absurd hrecv hfail

theorem finalAck_eq_some {link : Link} {after : Except Fault Server} {x : ℤ}
    (h : finalAck link after = some x) :
    x = 1 ∧ after.toBool = true ∧ link.sendAck = true := by
  unfold finalAck at h
  split_ifs at h with hcond
  cases h
  exact ⟨rfl, by simpa using hcond⟩

theorem exchange_received [Zlib] {link : Link} (req : ReplReq) (smrLog : List MapOp)
    (s : Server) (hsend : link.sendRequest = true) :
    (exchange link false req smrLog s).backup =
      s.ifaThreadTurn link.sendAck (link.ifaStub req smrLog s) := by
  unfold exchange
  rw [if_pos hsend]
  cases link.recoveryCount req smrLog s <;> rfl

/-- A backup whose connection holds unread bytes takes its turns without the exchange. -/
theorem exchange_stale [Zlib] (link : Link) (req : ReplReq) (smrLog : List MapOp) (s : Server) :
    (exchange link true req smrLog s).backup = .ok s := by
  cases hsend : link.sendRequest <;> simp [exchange, hsend]

/-- What an exchange makes of a backup is a turn of its thread, or nothing. -/
theorem exchange_backup [Zlib] (link : Link) (stale : Bool) (req : ReplReq) (smrLog : List MapOp)
    (s : Server) : (exchange link stale req smrLog s).backup = .ok s ∨
      stale = false ∧ link.sendRequest = true ∧ (exchange link stale req smrLog s).backup =
        s.ifaThreadTurn link.sendAck (link.ifaStub req smrLog s) := by
  cases stale with
  | true => exact .inl (exchange_stale link req smrLog s)
  | false =>
    cases hsend : link.sendRequest with
    | false => exact .inl (by simp [exchange, hsend])
    | true => exact .inr ⟨rfl, rfl, exchange_received req smrLog s hsend⟩

theorem exchange_sameRole [Zlib] {link : Link} {stale : Bool} {req : ReplReq} {smrLog : List MapOp}
    {s s' : Server} (h : (exchange link stale req smrLog s).backup = .ok s') : s.SameRole s' := by
  rcases exchange_backup link stale req smrLog s with hsame | ⟨-, -, hturn⟩
  · rw [hsame, Except.ok.injEq] at h
    exact h ▸ .refl s
  · exact ifaThreadTurn_sameRole (hturn ▸ h)

theorem exchange_missed [Zlib] {link : Link} (req : ReplReq) (smrLog : List MapOp)
    (s : Server) (h : link.sendRequest = false ∨ link.recvRequest = .failure) :
    ∃ id, (exchange link false req smrLog s).backup =
      .ok { s with smrReplCommit.primaryId := id } := by
  cases hsend : link.sendRequest with
  | false => exact ⟨s.smrReplCommit.primaryId, by simp [exchange, hsend]⟩
  | true =>
    have hfail : link.recvRequest = .failure := by simpa [hsend] using h
    refine ⟨-1, ?_⟩
    rw [exchange_received req smrLog s hsend, Server.ifaThreadTurn,
      Server.ifaThreadRead_of_none (by simp [Link.ifaStub, hfail, Recv.read])]
    simp [pure, Except.pure]

/-- No bytes are left unread if a recovery asks for no more entries than it reads. -/
theorem exchange_not_stale [Zlib] {link : Link} (hlink : link.Whole) (req : ReplReq)
    (smrLog : List MapOp) {s : Server} (hge : -1 ≤ s.committedIndex)
    (hrec : link.recvRequest = .message → s.needsRecovery req = true →
      (smrLog.length : ℤ) - (s.committedIndex + 1) ≤ req.lastIndex - s.lastIndex) :
    (exchange link false req smrLog s).stale = false := by
  unfold exchange
  split_ifs with hsend hfalse
  · cases hfalse
  · cases hcount : link.recoveryCount req smrLog s with
    | none =>
      have hack : finalAck link (s.ifaThreadTurn link.sendAck (link.ifaStub req smrLog s)) ≠
          some 2 := by
        intro hack
        have := (finalAck_eq_some hack).1
        omega
      simp [hlink.leftUnread_eq, hlink.entriesSent_eq_nil hack]
    | some count =>
      have hlen := hlink.length_entriesSent_le smrLog (some 2) hge
      unfold Link.recoveryCount at hcount
      cases hread : (link.ifaStub req smrLog s).getReplicationRequest with
      | none => simp [hread] at hcount
      | some received =>
        obtain ⟨hmessage, hreceived⟩ := hlink.recvRequest.read_eq_some hread
        obtain rfl : req = received := by simpa using hreceived
        simp only [hread, Option.ite_none_right_eq_some, Bool.and_eq_true, Option.some.injEq]
          at hcount
        obtain ⟨⟨hneeds, -⟩, rfl⟩ := hcount
        have hread := hrec hmessage hneeds
        simp only [hlink.leftUnread_eq, decide_eq_false_iff_not]
        omega
  · rfl

/-- The primary keeps the socket of a live backup only if that has survived and
sent the last acknowledgement. -/
theorem exchange_kept [Zlib] {link : Link} (hlink : link.Whole) {req : ReplReq}
    {smrLog : List MapOp} {s : Server} (h : (exchange link false req smrLog s).kept = true) :
    link.sendRequest = true ∧ link.recvAck = .message ∧ link.sendAck = true ∧
      (exchange link false req smrLog s).backup.toBool = true := by
  cases hsend : link.sendRequest with
  | false => simp [exchange, hsend] at h
  | true =>
    rw [exchange_received req smrLog s hsend]
    suffices hack : link.recvAck = .message ∧
        finalAck link (s.ifaThreadTurn link.sendAck (link.ifaStub req smrLog s)) = some 1 by
      obtain ⟨-, hbool, hsendAck⟩ := finalAck_eq_some hack.2
      exact ⟨rfl, hack.1, hsendAck, hbool⟩
    unfold exchange at h
    rw [if_pos hsend, if_neg Bool.false_ne_true] at h
    cases hcount : link.recoveryCount req smrLog s with
    | none =>
      simp only [hcount, Link.acknowledged] at h
      cases hread : link.recvAck.read
          (finalAck link (s.ifaThreadTurn link.sendAck (link.ifaStub req smrLog s))) with
      | none => simp [hread] at h
      | some ack =>
        obtain ⟨hmessage, hack⟩ := hlink.recvAck.read_eq_some hread
        exact ⟨hmessage, by rw [hack, (finalAck_eq_some hack).1]⟩
    | some count =>
      simp only [hcount, Link.acknowledged] at h
      cases hread : link.recvAck.read (some 2) with
      | none => simp [hread] at h
      | some ack =>
        obtain ⟨hmessage, hack⟩ := hlink.recvAck.read_eq_some hread
        cases hack
        simp only [hread, if_true, Bool.and_eq_true, decide_eq_true_eq] at h
        exact ⟨hmessage, (hlink.recvReack.read_eq_some h.2).2⟩

/-- What `recv` leaves in memory when a peer that is gone sends nothing is taken for no
successful acknowledgement. -/
structure Link.NoAck (link : Link) : Prop where
  recvAck : ∀ junk rest, link.recvAck = .short junk rest → junk ≠ 1
  recvReack : ∀ rest, link.recvAck = .short 2 rest →
    ∀ junk rest, link.recvReack = .short junk rest → junk ≠ 1

theorem exchangeWithDead_eq_false {link : Link} (hlink : link.NoAck) (smrLog : List MapOp) :
    exchangeWithDead link smrLog = false := by
  unfold exchangeWithDead Link.acknowledged
  cases hack : link.recvAck with
  | message | failure => simp [Recv.read]
  | short junk rest =>
    have hne := hlink.recvAck junk rest hack
    by_cases htwo : junk = 2
    · subst htwo
      cases hreack : link.recvReack with
      | message | failure => simp [Recv.read]
      | short junk' rest' => simp [Recv.read, hlink.recvReack rest hack junk' rest' hreack]
    · simp [Recv.read, htwo, hne]

theorem Link.Whole.noAck {link : Link} (h : link.Whole) : link.NoAck :=
  ⟨fun junk rest hack => absurd hack (h.recvAck junk rest),
    fun rest hack => absurd hack (h.recvAck 2 rest)⟩

/-- A sound, prepared backup that has the request becomes what the request says. -/
theorem exchange_became [Zlib] {link : Link} {req : ReplReq} {smrLog : List MapOp} {s : Server}
    (hs : s.Sound) (hreq : req.Honest) (hp : s.Prepared req smrLog)
    (hsend : link.sendRequest = true) (hrecv : link.recvRequest = .message)
    (hcalls : s.needsRecovery req = true → link.RecoveryCalls) :
    ∃ s', (exchange link false req smrLog s).backup = .ok s' ∧
      s'.Became (s.handledLog req smrLog) req.lastIndex req.committedIndex ∧ s.SameRole s' := by
  obtain ⟨s', hok, hbecame, hrole⟩ := ifaThreadRead_became hs
    (Link.getReplicationRequest_of_message hrecv req smrLog s) hreq hp
    (by
      intro hneeds
      have hdone := (hp.recovery hneeds).1
      refine ⟨(hcalls hneeds).sendRecoveryAck, fun k => ?_⟩
      rw [(hcalls hneeds).recvEntry_eq hs.committed_ge, hdone])
  rw [exchange_received req smrLog s hsend, Server.ifaThreadTurn, hok]
  simp only [ok_bind, pure, Except.pure]
  split_ifs
  · exact ⟨s', rfl, hbecame, hrole⟩
  · exact ⟨_, rfl, ⟨hbecame.sound.with_primaryId (-1), hbecame.log_eq, hbecame.last_eq,
      hbecame.committed_eq⟩, hrole.1, hrole.2, hrole.3⟩

theorem exchange_clean_kept [Zlib] {link : Link} (hlink : link.Clean) (req : ReplReq)
    (smrLog : List MapOp) {s : Server} (hge : -1 ≤ s.committedIndex)
    (h : (exchange link false req smrLog s).backup.toBool = true) :
    (exchange link false req smrLog s).kept = true := by
  rw [exchange_received req smrLog s hlink.sendRequest] at h
  unfold exchange
  rw [if_pos hlink.sendRequest, if_neg Bool.false_ne_true]
  have hack : finalAck link (s.ifaThreadTurn link.sendAck (link.ifaStub req smrLog s)) =
      some 1 := by
    rw [finalAck, h, hlink.sendAck]
    rfl
  cases link.recoveryCount req smrLog s with
  | none => simp [Link.acknowledged, Recv.read, hlink.recvAck, hack]
  | some count =>
    simp [Link.acknowledged, Recv.read, hlink.recvAck, hlink.recvIndex, hlink.recvReack,
      hack, Link.sendRecoveryLog_some hge, Link.sendEntries_all hlink.sendEntry]

end RobotFactory
