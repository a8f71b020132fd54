import RobotFactory.Startup
import RobotFactory.Crc32
import RobotFactory.TransitionSystem

/-!
# The customer record under any change of roles

Servers act as primary in any order and at the same time, serve each other as
backups, recover, stop and start again. The customer record of each of them is
the replay of its committed log, as long as the entries between the old and the
new committed index are the ones that the step applies: an iteration starts with
everything committed or makes the rechecks, and a backup has committed no more
than the request says and everything it has when a recovery starts behind it.
-/
namespace RobotFactory
open TransitionSystem ReplayLog

structure Move where
  primary : ℤ
  action : Action

def moveStep [Zlib] (c : Cluster) (m : Move) : Option Cluster := step m.primary c m.action

/-- The difference of the two last indices and the index behind the request's do not
overflow. -/
def ReplReq.Fits (req : ReplReq) (s : Server) : Prop :=
  |req.lastIndex - s.lastIndex| ≤ intMax ∧ req.lastIndex < intMax

instance (req : ReplReq) (s : Server) : Decidable (req.Fits s) :=
  inferInstanceAs (Decidable (_ ∧ _))

/-- The requests by which a backup applies each entry that it commits. -/
structure Server.Replayable (ifa : IfaStub) (req : ReplReq) (b : Server) : Prop where
  near : req.Near
  fits : req.Fits b
  committed_le : b.committedIndex ≤ req.committedIndex
  recovery : b.needsRecovery req = true → b.committedIndex = b.lastIndex ∧
    ifa.recoveryAck = true ∧ ∀ k < (req.lastIndex - b.lastIndex).toNat, (ifa.recvEntry k).isSome
  marker : req.mapopRecord.arg1 = -1 → req.lastIndex = b.lastIndex + 1 →
    (b.committedIndex = b.lastIndex ∧ req.lastIndex < b.smrLog.length) ∨
      (b.smrLog.length : ℤ) ≤ req.committedIndex

/-- Each step that moves a committed index starts at the last applied entry. -/
def Replaying (c : Cluster) : Move → Prop
  | ⟨p, .begin shipOrder _⟩ => (c p).server.HasRoom shipOrder ∧
      (shipOrder.customerId ≠ -1 → (c p).server.recheckAllow = true ∨
        (c p).server.committedIndex = (c p).server.lastIndex)
  | ⟨p, a⟩ => NextHandled p c Server.Replayable a

/-- A sound server whose indices can be incremented. -/
structure Server.Counting (s : Server) : Prop where
  sound : s.Sound
  last_lt : s.lastIndex < intMax

theorem Server.Counting.with_primaryId {s : Server} (h : s.Counting) (id : ℤ) :
    Server.Counting { s with smrReplCommit.primaryId := id } :=
  ⟨h.sound.with_primaryId id, h.last_lt⟩

/-- A backup that handles such a request is sound afterwards. -/
theorem ifaThreadRead_counting [Zlib] {ifa : IfaStub} {req : ReplReq} {b b' : Server}
    (hb : b.Sound) (hifa : ifa.getReplicationRequest = some req) (hp : b.Replayable ifa req)
    (h : b.ifaThreadRead ifa = .ok b') : b'.Counting := by
  have hcommitted := hp.committed_le
  have hle := hp.near.le
  suffices hbecame : ∃ log committed r,
      b.ifaThreadRead ifa = .ok r ∧ r.Became log req.lastIndex committed by
    obtain ⟨log, committed, r, hr, hbecame⟩ := hbecame
    rw [hr, Except.ok.injEq] at h
    exact h ▸ ⟨hbecame.sound, hbecame.last_eq ▸ hp.fits.2⟩
  by_cases hgap : b.needsRecovery req = true
  · obtain ⟨hdone, hack, hentries⟩ := hp.recovery hgap
    have hgap' : 1 < req.lastIndex - b.lastIndex := by simpa [Server.needsRecovery] using hgap
    obtain ⟨r, hr, hbecame, -⟩ := ifaThreadRead_recovery hb hifa hgap hp.near hdone hack
      (List.ofFn fun k : Fin (req.lastIndex - b.lastIndex).toNat =>
        (ifa.recvEntry k).get (hentries k k.isLt))
      (by rw [List.length_ofFn]; omega)
      (fun k hk => by rw [List.length_ofFn] at hk; simp [hk])
    exact ⟨_, _, r, hr, hbecame⟩
  · have hgap' : b.needsRecovery req = false := by simpa using hgap
    by_cases harg : req.mapopRecord.arg1 = -1
    · have hnear : req.lastIndex ≤ b.lastIndex + 1 := by
        simp [Server.needsRecovery] at hgap'
        omega
      have hll := hb.last_le
      have hlt := hb.last_lt
      by_cases hahead : (b.smrLog.length : ℤ) ≤ req.committedIndex
      · rw [ifaThreadRead_marker_ahead hifa hgap' harg hahead] at h
        cases h
      · have hnext : req.lastIndex = b.lastIndex + 1 →
            b.committedIndex = b.lastIndex ∧ req.lastIndex < b.smrLog.length :=
          fun heq => (hp.marker harg heq).resolve_right hahead
        obtain ⟨r, hr, hbecame, -⟩ := ifaThreadRead_marker hb hifa hgap' harg hp.near hcommitted
          (by omega) (by omega)
        exact ⟨_, _, r, hr, hbecame⟩
    · obtain ⟨r, hr, hbecame, -⟩ := ifaThreadRead_order hb hifa hgap' harg hp.near hcommitted
      exact ⟨_, _, r, hr, hbecame⟩

theorem ifaThreadTurn_counting [Zlib] {ifa : IfaStub} {sendAck : Bool} {b b' : Server}
    (hb : b.Counting)
    (hp : ∀ req, ifa.getReplicationRequest = some req → b.Replayable ifa req)
    (h : b.ifaThreadTurn sendAck ifa = .ok b') : b'.Counting := by
  obtain ⟨r, hread, hack⟩ := bind_eq_ok.mp h
  suffices hr : r.Counting by
    cases hack
    split_ifs
    · exact hr
    · exact hr.with_primaryId (-1)
  cases hreq : ifa.getReplicationRequest with
  | none =>
    rw [Server.ifaThreadRead_of_none hreq, Except.ok.injEq] at hread
    exact hread ▸ hb.with_primaryId (-1)
  | some req => exact ifaThreadRead_counting hb.sound hreq (hp req hreq) hread

/-- Inside an iteration, also one of a marker that has started with an entry to commit. -/
structure Server.Attends (s : Server) (shipOrder : RobotInf) (req : ReplReq) : Prop where
  req_eq : req = s.sendReq shipOrder
  near : req.Near
  entry : shipOrder.customerId ≠ -1 → s.smrLog[req.lastIndex.toNat]? = some req.mapopRecord

theorem Server.Serving.attends {s : Server} {shipOrder : RobotInf} {req : ReplReq}
    (h : s.Serving shipOrder req) : s.Attends shipOrder req :=
  ⟨h.req_eq, h.honest.toNear, h.entry⟩

/-- The invariant of a process: its customer record is that of its committed log, and
the entry of an order in progress is the next. -/
structure Node.Replays (n : Node) : Prop where
  counting : n.server.Counting
  attends : ∀ shipOrder req i, n.admin = .replicating shipOrder req i →
    n.server.Attends shipOrder req

namespace Node.Replays

theorem server {n : Node} (h : n.Replays) : n.server.Sound := h.counting.sound

theorem waiting {n : Node} (h : n.server.Counting) (hadmin : n.admin = .waiting) : n.Replays := by
  refine ⟨h, fun o req i heq => ?_⟩
  rw [hadmin] at heq
  cases heq

theorem sameLog {n n' : Node} (h : n.Replays) (hsame : n.SameLog n') : n'.Replays := by
  refine ⟨⟨h.server.sameLog hsame, hsame.lastIndex_eq ▸ h.counting.last_lt⟩,
    fun o req i hadmin => ?_⟩
  have hattends := h.attends o req i (hsame.admin_eq ▸ hadmin)
  refine ⟨?_, hattends.near, fun horder => ?_⟩
  · rw [hattends.req_eq]
    simp only [Server.sendReq, hsame.committedIndex_eq, hsame.lastIndex_eq, hsame.myFactoryId_eq]
  · rw [hsame.smrLog_eq]
    exact hattends.entry horder

theorem begin [Zlib] {n : Node} (h : n.Replays) {shipOrder : RobotInf} (connect : ℤ → ℤ)
    (hroom : n.server.HasRoom shipOrder)
    (hcond : shipOrder.customerId ≠ -1 → n.server.recheckAllow = true ∨
      n.server.committedIndex = n.server.lastIndex) :
    (n.beginIteration shipOrder connect).Replays := by
  by_cases hdone : n.server.recheckAllow = true ∨ n.server.committedIndex = n.server.lastIndex
  · obtain ⟨s', hnode, hbegan⟩ :=
      beginIteration_began shipOrder connect h.server hdone hroom.canCount
    have hlast := hbegan.last_eq
    have hlt := h.counting.last_lt
    have hlt' : s'.lastIndex < intMax := by
      split_ifs at hlast with horder
      · have := hroom horder
        omega
      · omega
    rw [hnode]
    refine ⟨⟨hbegan.sound, hlt'⟩, fun o req i heq => ?_⟩
    cases heq
    exact hbegan.serving.attends
  · have hmarker : shipOrder.customerId = -1 := by
      by_contra horder
      exact hdone (hcond horder)
    obtain ⟨hallow, -⟩ := not_or.mp hdone
    have hnode : n.beginIteration shipOrder connect = { n with
        server := { n.server with smrReplCommit.primaryId := n.server.myFactoryId }
        admin := .replicating shipOrder (n.server.sendReq shipOrder) 0 } := by
      simp only [Node.beginIteration, Server.adminRecheck, hallow, Bool.false_eq_true, if_false,
        ok_bind, Server.adminAppend, hmarker, ne_eq, not_true_eq_false]
      rfl
    rw [hnode]
    refine ⟨h.counting.with_primaryId _, fun o req i heq => ?_⟩
    cases heq
    exact ⟨rfl, ⟨h.server.committed_ge, h.server.committed_le, h.server.last_le,
      fun hne => absurd hmarker hne⟩, fun hne => absurd hmarker hne⟩

theorem afterPeer {n : Node} (h : n.Replays) {shipOrder : RobotInf} {req : ReplReq} {i : ℕ}
    (hadmin : n.admin = .replicating shipOrder req i) (f : FactoryRec) (kept stale : Bool) :
    (n.afterPeer shipOrder req i f kept stale).Replays := by
  have hattends := h.attends _ _ _ hadmin
  refine ⟨⟨h.server.congr rfl rfl rfl rfl id, h.counting.last_lt⟩, fun o req' j heq => ?_⟩
  cases heq
  exact ⟨hattends.1, hattends.2, hattends.3⟩

/-- A backup after an exchange; where it has faulted it is left as it was. -/
theorem afterExchange {n : Node} (h : n.Replays) (hfree : n.admin = .waiting)
    {backup : Except Fault Server} (hbackup : ∀ b, backup = .ok b → b.Counting) :
    (n.afterExchange backup).Replays := by
  unfold Node.afterExchange
  cases hb : backup with
  | error fault => exact h.sameLog (.crashed n)
  | ok b => exact .waiting (hbackup b hb) hfree

theorem finished {n : Node} (h : n.Replays) {shipOrder : RobotInf} {req : ReplReq} {i : ℕ}
    (hadmin : n.admin = .replicating shipOrder req i) :
    (n.finishIteration shipOrder req).Replays := by
  have hattends := h.attends _ _ _ hadmin
  refine .waiting ?_ rfl
  by_cases horder : shipOrder.customerId = -1
  · simp only [Node.finishIteration, Server.adminCommit, horder, ne_eq, not_true_eq_false, if_false]
    exact h.counting
  · have hserving : n.server.Serving shipOrder req := by
      have hmapop : req.mapopRecord = Server.logEntryOf shipOrder := by rw [hattends.req_eq]; rfl
      refine ⟨hattends.req_eq, ⟨hattends.near.ge, hattends.near.order, fun harg => ?_⟩,
        hattends.entry⟩
      rw [hmapop] at harg
      exact absurd harg horder
    obtain ⟨hbecame, -⟩ := adminCommit_became h.server hserving
    exact ⟨hbecame.sound, hbecame.last_eq ▸ h.counting.last_lt⟩

theorem restarted [Zlib] {n n' : Node} {file : List UInt8} {uninit : ℕ → Int32}
    {replies : List PeerReply} (h : n.restarted file uninit replies = some n') : n'.Replays := by
  obtain ⟨s, hs, rfl⟩ := Node.start_of_restarted h
  obtain ⟨log, j, hbecame, -⟩ := start_became hs
  exact .waiting ⟨hbecame.sound, start_lastIndex_lt hs⟩ rfl

end Node.Replays

theorem replays_step [Zlib] {c c' : Cluster} {m : Move} (h : ∀ s, (c s).Replays)
    (hok : Replaying c m) (hstep : moveStep c m = some c') (s : ℤ) : (c' s).Replays := by
  have hupdate {d : Cluster} (hd : ∀ t, (d t).Replays) (t : ℤ) {n : Node} (hn : n.Replays) :
      ∀ u, (Function.update d t n u).Replays :=
    Cluster.update_all (fun _ => Node.Replays) hd hn
  obtain ⟨p, a⟩ := m
  cases step_cases hstep with
  | begin shipOrder connect => exact hupdate h p ((h p).begin connect hok.1 hok.2) s
  | skipped link shipOrder req i f _ hadmin =>
    exact hupdate h p ((h p).afterPeer hadmin f true _) s
  | exchanged link shipOrder req i f _ hadmin hf hsocket hpeer hfree _ result hresult =>
    have hbackup : ∀ b, result.backup = .ok b → b.Counting := by
      intro b hb
      rw [← hresult] at hb
      rcases exchange_backup link ((c p).stale f.factoryId) req (c p).server.smrLog
        (c f.factoryId).server with hsame | ⟨hstale, hsend, hturn⟩
      · rw [hsame, Except.ok.injEq] at hb
        exact hb ▸ (h f.factoryId).counting
      · rw [hturn] at hb
        exact ifaThreadTurn_counting (h f.factoryId).counting
          (fun received => hok _ _ _ f received hadmin hf hsocket hpeer hstale hsend) hb
    exact hupdate (hupdate h f.factoryId ((h f.factoryId).afterExchange hfree hbackup)) p
      ((h p).afterPeer hadmin f result.kept result.stale) s
  | unanswered link shipOrder req i f _ hadmin =>
    exact hupdate h p ((h p).afterPeer hadmin f _ _) s
  | finish shipOrder req i _ hadmin => exact hupdate h p ((h p).finished hadmin) s
  | ifaTurn t ifa sendAck _ hfree =>
    exact hupdate h t ((h t).afterExchange hfree fun b hb =>
      ifaThreadTurn_counting (h t).counting hok hb) s
  | clientClose t => exact hupdate h t ((h t).sameLog (.clientClosed _)) s
  | replicationClose t => exact hupdate h t ((h t).sameLog (.replicationClosed _)) s
  | crash t => exact hupdate h t ((h t).sameLog (.crashed _)) s
  | restart t _ _ _ n _ hn => exact hupdate h t (.restarted hn) s

theorem replays_run [Zlib] {c₀ c : Cluster} (hfresh : Fresh c₀)
    (hrun : Run moveStep Replaying c₀ c) : ∀ s, (c s).Replays :=
  hrun.invariant (fun d => ∀ s, (d s).Replays)
    (fun _ _ _ hd hok hstep => replays_step hd hok hstep) fun s =>
      .waiting ⟨(hfresh.blank s).sound, (hfresh.blank s).last_eq ▸ by decide⟩ (hfresh.waiting s)

/-- The customer record of every server is the replay of its committed entries,
in every state of a run in which each step that moves a committed index starts
at the last applied entry. -/
theorem customerRecord_replayed [Zlib] {c₀ c : Cluster} (hfresh : Fresh c₀)
    (hrun : Run moveStep Replaying c₀ c) (s : ℤ) :
    -1 ≤ (c s).server.committedIndex ∧
    (c s).server.committedIndex < (c s).server.smrLog.length ∧
    (c s).server.customerRecord =
      replayRecord ((c s).server.smrLog.take ((c s).server.committedIndex + 1).toNat) := by
  have hs := (replays_run hfresh hrun s).server
  have hle := hs.committed_le
  have hlt := hs.last_lt
  exact ⟨hs.committed_ge, by omega, replayed_record hs⟩

/-- An order for a backup that has committed no more and misses nothing. -/
theorem Server.Replayable.of_order {ifa : IfaStub} {b : Server} {req : ReplReq} (hreq : req.Near)
    (hfits : req.Fits b) (hle : b.committedIndex ≤ req.committedIndex)
    (hgap : b.needsRecovery req = false) (harg : req.mapopRecord.arg1 ≠ -1) :
    b.Replayable ifa req :=
  ⟨hreq, hfits, hle, fun hneeds => absurd hneeds (by simp [hgap]), fun heq => absurd heq harg⟩

def orderOf8 (orderNumber : Int32) : RobotInf := ⟨8, orderNumber, 1, 101, -1⟩

/-- Server 0 is primary, backup of server 1, and primary again after a client
has closed its connection. -/
theorem customerRecord_replayed_duo : ∃ c : Cluster, (c 0).server.committedIndex = 2 ∧
    (c 0).server.customerRecord = replayRecord [⟨1, 7, 1⟩, ⟨1, 8, 1⟩, ⟨1, 7, 2⟩] := by
  have hrun : ∃ c, Run moveStep Replaying duo c ∧ (c 0).server.committedIndex = 2 ∧
      (c 0).server.smrLog = [⟨1, 7, 1⟩, ⟨1, 8, 1⟩, ⟨1, 7, 2⟩] :=
    ⟨_, (((((((((Run.start.next (a := ⟨0, .begin (orderOf7 1) fun _ => 5⟩)
      ⟨fun _ => (by decide), fun _ => .inl rfl⟩ rfl).next (a := ⟨0, .replicate Link.clean⟩)
      (.of_clean rfl rfl (.of_order (by decide) (by decide) (by decide) rfl (by decide))) rfl).next
      (a := ⟨0, .finish⟩) trivial rfl).next (a := ⟨1, .begin (orderOf8 1) fun _ => 5⟩)
      ⟨fun _ => (by decide), fun _ => .inl rfl⟩ rfl).next (a := ⟨1, .replicate Link.clean⟩)
      (.of_clean rfl rfl (.of_order (by decide) (by decide) (by decide) rfl (by decide))) rfl).next
      (a := ⟨1, .finish⟩) trivial rfl).next (a := ⟨0, .clientClose 0⟩) trivial rfl).next
      (a := ⟨0, .begin (orderOf7 2) fun _ => 5⟩) ⟨fun _ => (by decide), fun _ => .inl rfl⟩
      rfl).next (a := ⟨0, .replicate Link.clean⟩)
      (.of_clean rfl rfl (.of_order (by decide) (by decide) (by decide) rfl (by decide))) rfl).next
      (a := ⟨0, .finish⟩) trivial rfl, rfl, rfl⟩
  obtain ⟨c, hrun, hcommitted, hlog⟩ := hrun
  obtain ⟨-, -, hrecord⟩ := customerRecord_replayed duo_fresh hrun 0
  rw [hlog, hcommitted] at hrecord
  exact ⟨c, hcommitted, hrecord⟩

/-- All calls succeed, and no server stops. -/
def Untroubled : Move → Prop
  | ⟨_, .replicate link⟩ => link.Clean
  | ⟨_, .ifaTurn ..⟩ => False
  | ⟨_, .crash _⟩ => False
  | ⟨_, .restart ..⟩ => False
  | _ => True

/-- Server 0 is primary, backup of server 1, and primary again without the
rechecks: its next order takes the committed index past the entry of server 1. -/
theorem customerRecord_skipped : ∃ c : Cluster, Fresh duo ∧
    Run moveStep (fun _ => Untroubled) duo c ∧ (c 0).server.committedIndex = 2 ∧
    (c 0).server.smrLog = [⟨1, 7, 1⟩, ⟨1, 8, 1⟩, ⟨1, 7, 2⟩] ∧
    (c 0).server.customerRecord.lookup 8 = none ∧
    (c 0).server.customerRecord ≠ replayRecord (c 0).server.smrLog := by
  have hrun : ∃ c, Run moveStep (fun _ => Untroubled) duo c ∧ (c 0).server.committedIndex = 2 ∧
      (c 0).server.smrLog = [⟨1, 7, 1⟩, ⟨1, 8, 1⟩, ⟨1, 7, 2⟩] ∧
      (c 0).server.customerRecord.lookup 8 = none :=
    ⟨_, ((((((((Run.start.next (a := ⟨0, .begin (orderOf7 1) fun _ => 5⟩) trivial rfl).next
      (a := ⟨0, .replicate Link.clean⟩) Link.clean_clean rfl).next
      (a := ⟨0, .finish⟩) trivial rfl).next
      (a := ⟨1, .begin (orderOf8 1) fun _ => 5⟩) trivial rfl).next
      (a := ⟨1, .replicate Link.clean⟩) Link.clean_clean rfl).next
      (a := ⟨1, .finish⟩) trivial rfl).next
      (a := ⟨0, .begin (orderOf7 2) fun _ => 5⟩) trivial rfl).next
      (a := ⟨0, .replicate Link.clean⟩) Link.clean_clean rfl).next
      (a := ⟨0, .finish⟩) trivial rfl, rfl, rfl, rfl⟩
  obtain ⟨c, hrun, hcommitted, hlog, hmissing⟩ := hrun
  refine ⟨c, duo_fresh, hrun, hcommitted, hlog, hmissing, fun hreplayed => ?_⟩
  have hlookup : (replayRecord [⟨1, 7, 1⟩, ⟨1, 8, 1⟩, ⟨1, 7, 2⟩]).lookup 8 = some 1 := by decide
  rw [hreplayed, hlog, hlookup] at hmissing
  cases hmissing

end RobotFactory
