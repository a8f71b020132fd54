import RobotFactory.Inversion

/-!
# Iterations of the admin thread

What an iteration of `admin_thread` does to a sound server, part by part. During
the replication loop the server differs from its request in nothing: the request
carries its indices, and the entry of an order stands in the log at the last one.
-/
namespace RobotFactory
open ReplayLog

/-- Inside an iteration: the request describes the server, and its entry is logged. -/
structure Server.Serving (s : Server) (shipOrder : RobotInf) (req : ReplReq) : Prop where
  req_eq : req = s.sendReq shipOrder
  honest : req.Honest
  entry : shipOrder.customerId ≠ -1 → s.smrLog[req.lastIndex.toNat]? = some req.mapopRecord

theorem Server.Serving.last_eq {s : Server} {shipOrder : RobotInf} {req : ReplReq}
    (h : s.Serving shipOrder req) : req.lastIndex = s.lastIndex := by
  rw [h.req_eq]
  rfl

theorem Server.Serving.committed_eq {s : Server} {shipOrder : RobotInf} {req : ReplReq}
    (h : s.Serving shipOrder req) : req.committedIndex = s.committedIndex := by
  rw [h.req_eq]
  rfl

theorem Server.Serving.mapop_eq {s : Server} {shipOrder : RobotInf} {req : ReplReq}
    (h : s.Serving shipOrder req) : req.mapopRecord = Server.logEntryOf shipOrder := by
  rw [h.req_eq]
  rfl

theorem Server.Serving.order_iff {s : Server} {shipOrder : RobotInf} {req : ReplReq}
    (h : s.Serving shipOrder req) : req.mapopRecord.arg1 = -1 ↔ shipOrder.customerId = -1 := by
  rw [h.mapop_eq]
  rfl

theorem Server.Serving.log_of_order {s : Server} {shipOrder : RobotInf} {req : ReplReq}
    (h : s.Serving shipOrder req) (hlast : s.lastIndex = (s.smrLog.length : ℤ) - 1)
    (harg : req.mapopRecord.arg1 ≠ -1) :
    s.smrLog.take (req.committedIndex + 1).toNat ++ [req.mapopRecord] = s.smrLog := by
  have hge := h.honest.ge
  have hreq := h.last_eq
  have hsucc := h.honest.order harg
  have hentry := h.entry (mt h.order_iff.mpr harg)
  rw [show req.lastIndex.toNat = (req.committedIndex + 1).toNat by omega] at hentry
  calc s.smrLog.take (req.committedIndex + 1).toNat ++ [req.mapopRecord]
      = s.smrLog.take ((req.committedIndex + 1).toNat + 1) := by
        rw [List.take_add_one, hentry]
        rfl
    _ = s.smrLog := List.take_of_length_le (by omega)

theorem Server.Serving.log_of_marker {s : Server} {shipOrder : RobotInf} {req : ReplReq}
    (h : s.Serving shipOrder req) (hlast : s.lastIndex = (s.smrLog.length : ℤ) - 1)
    (harg : req.mapopRecord.arg1 = -1) :
    s.smrLog.take (req.committedIndex + 1).toNat = s.smrLog := by
  have hreq := h.last_eq
  have hmark := h.honest.marker harg
  exact List.take_of_length_le (by omega)

theorem Server.Serving.length_take_committed {s : Server} {shipOrder : RobotInf} {req : ReplReq}
    (h : s.Serving shipOrder req) (hlast : s.lastIndex = (s.smrLog.length : ℤ) - 1) :
    ((s.smrLog.take (req.committedIndex + 1).toNat).length : ℤ) = req.committedIndex + 1 := by
  have hnear := h.honest.near
  have hge := h.honest.ge
  have hreq := h.last_eq
  rw [List.length_take]
  omega

theorem recheckcommit_became {s : Server} (h : s.Sound) :
    ∃ s', s.recheckcommit = .ok s' ∧ s'.Became s.smrLog s.lastIndex s.lastIndex ∧
      s.SameRole s' := by
  have hge := h.committed_ge
  have hle := h.committed_le
  have hll := h.last_le
  have hlt := h.last_lt
  unfold Server.recheckcommit
  split_ifs with hcond
  · obtain ⟨record, hok, hrep⟩ := commitAt_replayed h.replayed hge hcond.1 hlt (by omega)
    refine ⟨_, hok, ⟨⟨hrep, ?_, le_rfl, ?_, hlt, h.ready⟩, rfl, rfl, rfl⟩, rfl, rfl, rfl⟩ <;>
      simp only [Server.committedIndex, Server.lastIndex] at * <;> omega
  · exact ⟨s, rfl, ⟨h, rfl, rfl, by omega⟩, .refl s⟩

def Server.peerIds (s : Server) : List ℤ := s.factoriesRecord.map FactoryRec.factoryId

theorem Server.SameRole.peerIds_eq {s s' : Server} (h : s.SameRole s') :
    s'.peerIds = s.peerIds := by
  rw [Server.peerIds, h.factoriesRecord]
  rfl

theorem peerIds_recheckreplsock (connect : ℤ → ℤ) (s : Server) :
    (s.recheckreplsock connect).peerIds = s.peerIds := by
  simp only [Server.peerIds, Server.recheckreplsock, List.map_map]
  refine List.map_congr_left fun f _ => ?_
  simp only [Function.comp]
  split_ifs <;> rfl

theorem adminRecheck_peerIds {connect : ℤ → ℤ} {s s' : Server}
    (h : s.adminRecheck connect = .ok s') : s'.peerIds = s.peerIds := by
  rw [Server.peerIds, adminRecheck_factories h, Server.recheckedFactories]
  split_ifs
  · exact peerIds_recheckreplsock connect s
  · rfl

theorem adminAppend_peerIds [Zlib] {shipOrder : RobotInf} {s s' : Server}
    (h : s.adminAppend shipOrder = .ok s') : s'.peerIds = s.peerIds := by
  rw [Server.peerIds, adminAppend_factories h]
  rfl

theorem beginIteration_peerIds [Zlib] (n : Node) (shipOrder : RobotInf) (connect : ℤ → ℤ) :
    (n.beginIteration shipOrder connect).server.peerIds = n.server.peerIds := by
  unfold Node.beginIteration
  cases hs : n.server.adminRecheck connect >>= Server.adminAppend shipOrder with
  | error fault => rfl
  | ok s =>
    obtain ⟨r, hrecheck, happend⟩ := bind_eq_ok.mp hs
    exact (adminAppend_peerIds happend).trans (adminRecheck_peerIds hrecheck)

theorem afterPeer_peerIds {n : Node} {shipOrder : RobotInf} {req : ReplReq} {i : ℕ}
    {f : FactoryRec} (hf : n.server.factoriesRecord[i]? = some f) (kept stale : Bool) :
    (n.afterPeer shipOrder req i f kept stale).server.peerIds = n.server.peerIds := by
  cases kept with
  | true => rfl
  | false =>
    obtain ⟨hi, rfl⟩ := List.getElem?_eq_some_iff.mp hf
    simp only [Server.peerIds, Node.afterPeer, Bool.false_eq_true, if_false, List.map_set]
    have hlt : i < (n.server.factoriesRecord.map FactoryRec.factoryId).length := by simpa using hi
    have hself := List.set_getElem_self hlt
    rwa [List.getElem_map] at hself

theorem afterPeer_stale {n : Node} {shipOrder : RobotInf} {req : ReplReq} {i : ℕ} {f : FactoryRec}
    {kept : Bool} {id : ℤ} (h : n.stale id = false) :
    (n.afterPeer shipOrder req i f kept false).stale id = false := by
  simp only [Node.afterPeer, Bool.and_false, Function.update_apply, h, ite_self]

theorem afterPeer_getElem?_ne {n : Node} {shipOrder : RobotInf} {req : ReplReq} {i k : ℕ}
    {f : FactoryRec} {kept stale : Bool} (hk : k ≠ i) :
    (n.afterPeer shipOrder req i f kept stale).server.factoriesRecord[k]? =
      n.server.factoriesRecord[k]? := by
  cases kept with
  | true => rfl
  | false => exact List.getElem?_set_ne (Ne.symm hk)

theorem afterPeer_getElem?_self {n : Node} {shipOrder : RobotInf} {req : ReplReq} {i : ℕ}
    {f : FactoryRec} {kept stale : Bool} (hf : n.server.factoriesRecord[i]? = some f) :
    (n.afterPeer shipOrder req i f kept stale).server.factoriesRecord[i]? =
      some (if kept then f else { f with socket := -1 }) := by
  cases kept with
  | true => exact hf
  | false => exact List.getElem?_set_self (List.getElem?_eq_some_iff.mp hf).1

theorem afterPeer_getElem? {n : Node} {shipOrder : RobotInf} {req : ReplReq} {i k : ℕ}
    {f g : FactoryRec} {kept stale : Bool} (hf : n.server.factoriesRecord[i]? = some f)
    (hg : (n.afterPeer shipOrder req i f kept stale).server.factoriesRecord[k]? = some g) :
    ∃ g', n.server.factoriesRecord[k]? = some g' ∧ g'.factoryId = g.factoryId ∧
      (0 ≤ g.socket → g' = g ∧ (k = i → kept = true)) := by
  by_cases hk : k = i
  · subst hk
    rw [afterPeer_getElem?_self hf] at hg
    obtain rfl := Option.some.inj hg
    cases kept with
    | true => exact ⟨f, hf, rfl, fun _ => ⟨rfl, fun _ => rfl⟩⟩
    | false => exact ⟨f, hf, rfl, fun hsocket => absurd hsocket (by simp)⟩
  · rw [afterPeer_getElem?_ne hk] at hg
    exact ⟨g, hg, rfl, fun _ => ⟨rfl, fun heq => absurd heq hk⟩⟩

/-- After the rechecks everything is committed, if it was before or if they run. -/
theorem adminRecheck_became {s : Server} (connect : ℤ → ℤ) (h : s.Sound)
    (hcond : s.recheckAllow = true ∨ s.committedIndex = s.lastIndex) :
    ∃ s', s.adminRecheck connect = .ok s' ∧ s'.Became s.smrLog s.lastIndex s.lastIndex ∧
      s'.factoriesRecord = s.recheckedFactories connect ∧ s'.recheckAllow = false ∧
      s'.myFactoryId = s.myFactoryId := by
  unfold Server.adminRecheck Server.recheckedFactories
  cases hallow : s.recheckAllow with
  | true =>
    obtain ⟨s', hok, hbecame, hrole⟩ := recheckcommit_became h
    rw [if_pos rfl, hok]
    refine ⟨_, rfl, ⟨hbecame.sound.congr rfl rfl rfl rfl id, hbecame.log_eq, hbecame.last_eq,
      hbecame.committed_eq⟩, ?_, rfl, hrole.myFactoryId⟩
    simp only [Server.recheckreplsock, hrole.factoriesRecord, if_true]
  | false =>
    rw [if_neg (by simp)]
    exact ⟨s, rfl, ⟨h, rfl, rfl, by simpa [hallow] using hcond⟩, rfl, hallow, rfl⟩

def Server.appendedLog (s : Server) (shipOrder : RobotInf) : List MapOp :=
  if shipOrder.customerId ≠ -1 then
    s.smrLog.insertIdx (s.lastIndex + 1).toNat (Server.logEntryOf shipOrder)
  else s.smrLog

/-- An order goes to the end of a log that ends at the last index. -/
theorem Server.appendedLog_eq {s : Server} (hlast : s.lastIndex = (s.smrLog.length : ℤ) - 1)
    (shipOrder : RobotInf) : s.appendedLog shipOrder = s.smrLog ++
      if shipOrder.customerId ≠ -1 then [Server.logEntryOf shipOrder] else [] := by
  have hend : (s.lastIndex + 1).toNat = s.smrLog.length := by omega
  unfold Server.appendedLog
  split_ifs
  · rw [hend, List.insertIdx_length_self]
  · rw [List.append_nil]

structure Server.Began (s : Server) (shipOrder : RobotInf) (connect : ℤ → ℤ) (s' : Server) :
    Prop where
  sound : s'.Sound
  serving : s'.Serving shipOrder (s'.sendReq shipOrder)
  log_eq : s'.smrLog = s.appendedLog shipOrder
  last_eq : s'.lastIndex = if shipOrder.customerId ≠ -1 then s.lastIndex + 1 else s.lastIndex
  committed_eq : s'.committedIndex = s.lastIndex
  factories_eq : s'.factoriesRecord = s.recheckedFactories connect
  recheckAllow_eq : s'.recheckAllow = false
  myFactoryId_eq : s'.myFactoryId = s.myFactoryId

theorem Server.Began.last_is_end {s s' : Server} {shipOrder : RobotInf} {connect : ℤ → ℤ}
    (h : s.Began shipOrder connect s') (hge : -1 ≤ s.lastIndex)
    (hlast : s.lastIndex = (s.smrLog.length : ℤ) - 1) :
    s'.lastIndex = (s'.smrLog.length : ℤ) - 1 := by
  rw [h.log_eq, h.last_eq, Server.appendedLog]
  split_ifs
  · rw [List.length_insertIdx_of_le_length (by omega)]
    push_cast
    omega
  · exact hlast

theorem Server.Began.take_committed {s s' : Server} {shipOrder : RobotInf} {connect : ℤ → ℤ}
    (h : s.Began shipOrder connect s') (hlast : s.lastIndex = (s.smrLog.length : ℤ) - 1) :
    s'.smrLog.take (s'.committedIndex + 1).toNat = s.smrLog := by
  rw [h.log_eq, h.committed_eq, Server.appendedLog]
  split_ifs
  · rw [take_insertIdx_of_le _ _ le_rfl, List.take_of_length_le (by omega)]
  · exact List.take_of_length_le (by omega)

/-- `last_index` can be incremented for the order. -/
def Server.CanCount (s : Server) (shipOrder : RobotInf) : Prop :=
  shipOrder.customerId ≠ -1 → s.lastIndex < intMax

/-- The log has room for the order below 2^31 entries, so that no difference of two
indices and no loop over them overflows either. -/
def Server.HasRoom (s : Server) (shipOrder : RobotInf) : Prop :=
  shipOrder.customerId ≠ -1 → s.lastIndex + 1 < intMax

theorem Server.HasRoom.canCount {s : Server} {shipOrder : RobotInf} (h : s.HasRoom shipOrder) :
    s.CanCount shipOrder := by
  intro horder
  have := h horder
  omega

/-- The log of `p` has room for the order of the step. -/
def RoomLeft (p : ℤ) (c : Cluster) : Action → Prop
  | .begin shipOrder _ => (c p).server.HasRoom shipOrder
  | _ => True

/-- An iteration starts without a fault if everything is committed or the
rechecks run, and `last_index` can count its order. -/
theorem beginIteration_began [Zlib] {n : Node} (shipOrder : RobotInf) (connect : ℤ → ℤ)
    (h : n.server.Sound)
    (hcond : n.server.recheckAllow = true ∨ n.server.committedIndex = n.server.lastIndex)
    (hcount : n.server.CanCount shipOrder) :
    ∃ s', n.beginIteration shipOrder connect =
        { n with server := s', admin := .replicating shipOrder (s'.sendReq shipOrder) 0 } ∧
      n.server.Began shipOrder connect s' := by
  obtain ⟨r, hrecheck, hr, hfactories, hallow, hid⟩ := adminRecheck_became connect h hcond
  have hrl : r.lastIndex = n.server.lastIndex := hr.last_eq
  have hrc : r.committedIndex = n.server.lastIndex := hr.committed_eq
  have hlt := h.last_lt
  have hge := hr.sound.committed_ge
  unfold Node.beginIteration
  rw [hrecheck, ok_bind, Server.adminAppend]
  by_cases horder : shipOrder.customerId = -1
  · rw [if_neg (not_not.mpr horder)]
    refine ⟨_, rfl, ⟨hr.sound.replayed, hge, hr.sound.committed_le, hr.sound.last_le,
      hr.sound.last_lt, hr.sound.ready⟩, ⟨rfl, ⟨hge, ?_, ?_⟩, fun hne => absurd horder hne⟩, ?_, ?_,
      hrc, hfactories, hallow, hid⟩
    · exact fun hne => absurd horder hne
    · intro _
      exact hrl.trans hrc.symm
    · simpa [Server.appendedLog, horder] using hr.log_eq
    · simpa [horder] using hrl
  · obtain ⟨clog, hclog, hready⟩ := writeAhead_ready hr.sound.ready (Server.logEntryOf shipOrder)
    have hlog : r.smrLog = n.server.smrLog := hr.log_eq
    have hle : (r.lastIndex + 1).toNat ≤ r.smrLog.length := by rw [hlog]; omega
    have hins := vectorInsert_of_le (v := r.smrLog) (i := r.lastIndex + 1)
      (Server.logEntryOf shipOrder) (by omega) (by omega)
    have hlen : ((r.smrLog.insertIdx (r.lastIndex + 1).toNat
        (Server.logEntryOf shipOrder)).length : ℤ) = r.smrLog.length + 1 := by
      rw [List.length_insertIdx_of_le_length hle]; push_cast; rfl
    rw [if_pos horder, intSucc_of_lt (hrl ▸ hcount horder), ok_bind, hclog, ok_bind, hins]
    refine ⟨_, rfl, ⟨?_, hge, ?_, ?_, ?_, hready⟩, ⟨rfl, ⟨hge, ?_, ?_⟩, ?_⟩, ?_, ?_, hrc,
      hfactories, hallow, hid⟩
    · exact hr.sound.replayed.insert _ (by omega)
    · simp only [Server.committedIndex, Server.lastIndex] at *; omega
    · simp only [Server.committedIndex, Server.lastIndex] at *; omega
    · simp only [Server.committedIndex, Server.lastIndex] at *; omega
    · intro _
      simp only [Server.sendReq, Server.committedIndex, Server.lastIndex] at *
      omega
    · exact fun heq => absurd heq horder
    · intro _
      exact List.getElem?_insertIdx_self.trans (if_pos hle)
    · rw [Server.appendedLog, if_pos horder, ← hlog, ← hrl]
    · rw [if_pos horder, ← hrl]

/-- Where `last_index` cannot count the order, the process ends. -/
theorem beginIteration_overflow [Zlib] {n : Node} (shipOrder : RobotInf) (connect : ℤ → ℤ)
    (h : n.server.Sound)
    (hcond : n.server.recheckAllow = true ∨ n.server.committedIndex = n.server.lastIndex)
    (hcount : ¬n.server.CanCount shipOrder) :
    n.beginIteration shipOrder connect = { n with alive := false } := by
  obtain ⟨horder, hlast⟩ := Classical.not_imp.mp hcount
  obtain ⟨r, hrecheck, hr, -⟩ := adminRecheck_became connect h hcond
  have hsucc : intSucc r.lastIndex = .error .intOverflow := if_neg (hr.last_eq ▸ hlast)
  unfold Node.beginIteration
  rw [hrecheck, ok_bind, Server.adminAppend, if_pos horder, hsucc]
  rfl

/-- The end of an iteration: everything is committed. -/
theorem adminCommit_became {s : Server} {shipOrder : RobotInf} {req : ReplReq} (h : s.Sound)
    (hserving : s.Serving shipOrder req) :
    (s.adminCommit shipOrder).Became s.smrLog s.lastIndex s.lastIndex ∧
      s.SameRole (s.adminCommit shipOrder) := by
  have hlast := hserving.last_eq
  have hcommitted := hserving.committed_eq
  have hge := h.committed_ge
  unfold Server.adminCommit
  by_cases horder : shipOrder.customerId = -1
  · rw [if_neg (not_not.mpr horder)]
    have := hserving.honest.marker (hserving.order_iff.mpr horder)
    exact ⟨⟨h, rfl, rfl, by omega⟩, .refl s⟩
  · have hsucc := hserving.honest.order (mt hserving.order_iff.mp horder)
    have hentry := hserving.entry horder
    rw [hserving.mapop_eq, show req.lastIndex.toNat = (s.committedIndex + 1).toNat by omega]
      at hentry
    have hrep := h.replayed.advance hentry
    rw [show (s.committedIndex + 1).toNat + 1 = (s.lastIndex + 1).toNat by omega] at hrep
    rw [if_pos horder]
    refine ⟨⟨⟨hrep, ?_, le_rfl, ?_, h.last_lt, h.ready⟩, rfl, rfl, rfl⟩, rfl, rfl, rfl⟩ <;>
      simp only [Server.committedIndex, Server.lastIndex] at * <;> omega

/-- A server process whose replication code finds what it relies on. -/
structure Node.Sound (n : Node) : Prop where
  server : n.server.Sound
  serving : ∀ shipOrder req i, n.admin = .replicating shipOrder req i →
    n.server.Serving shipOrder req

/-- `n'` differs from `n` in nothing that replication depends on. -/
structure Node.SameLog (n n' : Node) : Prop where
  admin_eq : n'.admin = n.admin
  stale_eq : n'.stale = n.stale
  smrLog_eq : n'.server.smrLog = n.server.smrLog
  customerRecord_eq : n'.server.customerRecord = n.server.customerRecord
  lastIndex_eq : n'.server.lastIndex = n.server.lastIndex
  committedIndex_eq : n'.server.committedIndex = n.server.committedIndex
  factoriesRecord_eq : n'.server.factoriesRecord = n.server.factoriesRecord
  myFactoryId_eq : n'.server.myFactoryId = n.server.myFactoryId
  ready : n.server.clog.Ready → n'.server.clog.Ready

namespace Node.SameLog

theorem refl (n : Node) : n.SameLog n := ⟨rfl, rfl, rfl, rfl, rfl, rfl, rfl, rfl, id⟩

theorem clientClosed (n : Node) : n.SameLog n.clientClosed :=
  ⟨rfl, rfl, rfl, rfl, rfl, rfl, rfl, rfl, CommitLog.Ready.sync⟩

theorem replicationClosed (n : Node) : n.SameLog n.replicationClosed :=
  ⟨rfl, rfl, rfl, rfl, rfl, rfl, rfl, rfl, id⟩

theorem crashed (n : Node) : n.SameLog { n with alive := false } :=
  ⟨rfl, rfl, rfl, rfl, rfl, rfl, rfl, rfl, id⟩

theorem update {c : Cluster} {s : ℤ} {n : Node} (h : (c s).SameLog n) (t : ℤ) :
    (c t).SameLog (Function.update c s n t) :=
  Cluster.update_all (fun u => (c u).SameLog) (fun u => .refl (c u)) h t

end Node.SameLog

theorem Server.Sound.sameLog {n n' : Node} (h : n.server.Sound) (hsame : n.SameLog n') :
    n'.server.Sound :=
  h.congr hsame.smrLog_eq hsame.customerRecord_eq hsame.lastIndex_eq hsame.committedIndex_eq
    hsame.ready

namespace Node.Sound

theorem began [Zlib] {n : Node} {shipOrder : RobotInf} {connect : ℤ → ℤ} {s' : Server}
    (h : n.server.Began shipOrder connect s') :
    Node.Sound { n with
      server := s', admin := .replicating shipOrder (s'.sendReq shipOrder) 0 } := by
  refine ⟨h.sound, ?_⟩
  intro o req i heq
  cases heq
  exact h.serving

theorem waiting {n : Node} (h : n.server.Sound) (hadmin : n.admin = .waiting) : n.Sound := by
  refine ⟨h, ?_⟩
  intro o req i heq
  rw [hadmin] at heq
  cases heq

theorem afterPeer {n : Node} (h : n.Sound) {shipOrder : RobotInf} {req : ReplReq} {i : ℕ}
    (hadmin : n.admin = .replicating shipOrder req i) (f : FactoryRec) (kept stale : Bool) :
    (n.afterPeer shipOrder req i f kept stale).Sound := by
  have hserving := h.serving _ _ _ hadmin
  refine ⟨h.server.congr rfl rfl rfl rfl id, ?_⟩
  intro o req' j heq
  cases heq
  exact ⟨hserving.1, hserving.2, hserving.3⟩

theorem finished {n : Node} (h : n.Sound) {shipOrder : RobotInf} {req : ReplReq} {i : ℕ}
    (hadmin : n.admin = .replicating shipOrder req i) :
    (n.finishIteration shipOrder req).Sound :=
  .waiting (adminCommit_became h.server (h.serving _ _ _ hadmin)).1.sound rfl

theorem sameLog {n n' : Node} (h : n.Sound) (hsame : n.SameLog n') : n'.Sound := by
  refine ⟨h.server.sameLog hsame, fun o req i hadmin => ?_⟩
  have hserving := h.serving o req i (hsame.admin_eq ▸ hadmin)
  refine ⟨?_, hserving.honest, fun horder => ?_⟩
  · rw [hserving.req_eq]
    simp only [Server.sendReq, hsame.committedIndex_eq, hsame.lastIndex_eq, hsame.myFactoryId_eq]
  · rw [hsame.smrLog_eq]
    exact hserving.entry horder

end Node.Sound

/-- A released order stands in the committed part of the log at its index. -/
def Server.HasReleased (s : Server) (r : Release) : Prop :=
  r.robot.customerId ≠ -1 → 0 ≤ r.index ∧
    (s.smrLog.take (s.committedIndex + 1).toNat)[r.index.toNat]? =
      some (Server.logEntryOf r.robot)

theorem getElem?_of_take {α : Type*} {l : List α} {n j : ℕ} {x : α}
    (h : (l.take n)[j]? = some x) : l[j]? = some x := by
  rw [List.getElem?_take] at h
  split_ifs at h
  exact h

/-- A primary whose log ends at its last index, with everything committed between
its iterations. -/
structure Node.Leads (n : Node) : Prop where
  sound : n.Sound
  last_eq : n.server.lastIndex = (n.server.smrLog.length : ℤ) - 1
  committed : n.admin = .waiting → n.server.committedIndex = n.server.lastIndex
  released : ∀ r ∈ n.released, n.server.HasReleased r

namespace Node.Leads

theorem begin [Zlib] {n : Node} (h : n.Leads) (shipOrder : RobotInf) (connect : ℤ → ℤ)
    (hadmin : n.admin = .waiting) (hcount : n.server.CanCount shipOrder) :
    ∃ s', n.beginIteration shipOrder connect =
        { n with server := s', admin := .replicating shipOrder (s'.sendReq shipOrder) 0 } ∧
      n.server.Began shipOrder connect s' ∧ (n.beginIteration shipOrder connect).Leads := by
  have hdone := h.committed hadmin
  have hlast := h.last_eq
  have hge := h.sound.server.committed_ge
  obtain ⟨s', hnode, hbegan⟩ :=
    beginIteration_began shipOrder connect h.sound.server (.inr hdone) hcount
  refine ⟨s', hnode, hbegan, ?_⟩
  rw [hnode]
  refine ⟨.began hbegan, hbegan.last_is_end (by omega) hlast, ?_, ?_⟩
  · intro hwait
    cases hwait
  · intro r hr horder
    obtain ⟨h0, hentry⟩ := h.released r hr horder
    rw [hdone, List.take_of_length_le (by omega)] at hentry
    exact ⟨h0, by rw [hbegan.take_committed hlast]; exact hentry⟩

theorem overflow [Zlib] {n : Node} (h : n.Leads) (shipOrder : RobotInf) (connect : ℤ → ℤ)
    (hadmin : n.admin = .waiting) (hcount : ¬n.server.CanCount shipOrder) :
    n.beginIteration shipOrder connect = { n with alive := false } :=
  beginIteration_overflow shipOrder connect h.sound.server (.inr (h.committed hadmin)) hcount

theorem canCount [Zlib] {n : Node} (h : n.Leads) {shipOrder : RobotInf} {connect : ℤ → ℤ}
    (hadmin : n.admin = .waiting) (halive : (n.beginIteration shipOrder connect).alive = true) :
    n.server.CanCount shipOrder := by
  by_contra hcount
  rw [h.overflow shipOrder connect hadmin hcount] at halive
  cases halive

theorem begun [Zlib] {n : Node} (h : n.Leads) {shipOrder : RobotInf} {connect : ℤ → ℤ}
    (hadmin : n.admin = .waiting) (halive : (n.beginIteration shipOrder connect).alive = true) :
    ∃ s', n.beginIteration shipOrder connect =
        { n with server := s', admin := .replicating shipOrder (s'.sendReq shipOrder) 0 } ∧
      n.server.Began shipOrder connect s' ∧ (n.beginIteration shipOrder connect).Leads :=
  h.begin shipOrder connect hadmin (h.canCount hadmin halive)

theorem sameLog {n n' : Node} (h : n.Leads) (hsame : n.SameLog n')
    (hreleased : n'.released = n.released) : n'.Leads := by
  refine ⟨h.sound.sameLog hsame, ?_, ?_, ?_⟩
  · rw [hsame.lastIndex_eq, hsame.smrLog_eq]
    exact h.last_eq
  · intro hwait
    rw [hsame.committedIndex_eq, hsame.lastIndex_eq]
    exact h.committed (hsame.admin_eq ▸ hwait)
  · intro r hr horder
    rw [hsame.smrLog_eq, hsame.committedIndex_eq]
    exact h.released r (hreleased ▸ hr) horder

theorem afterPeer {n : Node} (h : n.Leads) {shipOrder : RobotInf} {req : ReplReq} {i : ℕ}
    (hadmin : n.admin = .replicating shipOrder req i) (f : FactoryRec) (kept stale : Bool) :
    (n.afterPeer shipOrder req i f kept stale).Leads := by
  refine ⟨h.sound.afterPeer hadmin f kept stale, h.last_eq, ?_, h.released⟩
  intro hwait
  cases hwait

/-- The commit at the end of an iteration covers the whole log. -/
theorem committed_all {n : Node} (h : n.Leads) {shipOrder : RobotInf} {req : ReplReq} {i : ℕ}
    (hadmin : n.admin = .replicating shipOrder req i) :
    (n.server.adminCommit shipOrder).smrLog.take
        ((n.server.adminCommit shipOrder).committedIndex + 1).toNat = n.server.smrLog := by
  obtain ⟨hbecame, -⟩ := adminCommit_became h.sound.server (h.sound.serving _ _ _ hadmin)
  have hlast := h.last_eq
  rw [hbecame.log_eq, hbecame.committed_eq]
  exact List.take_of_length_le (by omega)

theorem finish {n : Node} (h : n.Leads) {shipOrder : RobotInf} {req : ReplReq} {i : ℕ}
    (hadmin : n.admin = .replicating shipOrder req i) :
    (n.finishIteration shipOrder req).Leads := by
  have hserving := h.sound.serving _ _ _ hadmin
  obtain ⟨hbecame, -⟩ := adminCommit_became h.sound.server hserving
  refine ⟨h.sound.finished hadmin, ?_, ?_, ?_⟩ <;> simp only [Node.finishIteration]
  · rw [hbecame.last_eq, hbecame.log_eq, h.last_eq]
  · intro _
    rw [hbecame.committed_eq, hbecame.last_eq]
  · intro r hr horder
    rw [h.committed_all hadmin]
    rcases List.mem_append.mp hr with hold | hnew
    · obtain ⟨h0, hentry⟩ := h.released r hold horder
      exact ⟨h0, getElem?_of_take hentry⟩
    · obtain rfl := List.mem_singleton.mp hnew
      have hne : shipOrder.customerId ≠ -1 := by
        intro heq
        simp [heq] at horder
      have hge := hserving.honest.ge
      have hsucc := hserving.honest.order (mt hserving.order_iff.mp hne)
      refine ⟨by simp only; omega, ?_⟩
      rw [hserving.entry hne, hserving.mapop_eq, if_pos hne]
      rfl

theorem clientClosed {n : Node} (h : n.Leads) : n.clientClosed.Leads :=
  h.sameLog (.clientClosed n) rfl

theorem replicationClosed {n : Node} (h : n.Leads) : n.replicationClosed.Leads :=
  h.sameLog (.replicationClosed n) rfl

end Node.Leads

end RobotFactory
