import RobotFactory.TransitionSystem
import RobotFactory.Crc32
import RobotFactory.Exchange
import RobotFactory.Startup

/-!
# Failure-free replication

One primary and its backups, all started on empty files, with no failed call.
The invariant `Lockstep` is written nowhere in the source: a backup holds the
log of the primary with or without the entry in progress, by its position in the
replication loop, and it has committed all of this log but at most its last entry.
It outlives the primary.
-/
namespace RobotFactory
open TransitionSystem

/-- A sound server with the given log and nothing behind its last index. -/
structure Server.Holds (s : Server) (log : List MapOp) : Prop where
  sound : s.Sound
  log_eq : s.smrLog = log
  last_eq : s.lastIndex = (log.length : ℤ) - 1

/-- The log that the `k`-th peer of a primary has been sent. -/
def Node.replicatedLog (n : Node) (k : ℕ) : List MapOp :=
  match n.admin with
  | .waiting => n.server.smrLog
  | .replicating _ req i =>
    if k < i then n.server.smrLog else n.server.smrLog.take (req.committedIndex + 1).toNat

structure Node.Follows (n : Node) (k : ℕ) (b : Node) : Prop where
  alive : b.alive = true
  waiting : b.admin = .waiting
  recheckAllow : b.server.recheckAllow = true
  holds : b.server.Holds (n.replicatedLog k)
  served : ∀ shipOrder req i, n.admin = .replicating shipOrder req i → k < i →
    b.server.committedIndex = req.committedIndex

/-- The invariant of failure-free replication by `p`. -/
structure Lockstep (p : ℤ) (c : Cluster) : Prop where
  sound : (c p).Sound
  last_eq : (c p).server.lastIndex = ((c p).server.smrLog.length : ℤ) - 1
  committed : (c p).admin = .waiting → (c p).server.committedIndex = (c p).server.lastIndex
  roster : Roster c
  connected : (∀ f ∈ (c p).server.factoriesRecord, 0 ≤ f.socket) ∨
    ((c p).server.recheckAllow = true ∧ (c p).admin = .waiting)
  stale : ∀ id, (c p).stale id = false
  peers : ∀ (k : ℕ) (f : FactoryRec), (c p).server.factoriesRecord[k]? = some f →
    (c p).Follows k (c f.factoryId)
  released : ∀ r ∈ (c p).released, (c p).server.HasReleased r

/-- A step without failures: connections are made, calls succeed, no process is stopped. -/
def FailureFree (p : ℤ) (c : Cluster) : Action → Prop
  | .begin _ connect => ∀ f ∈ (c p).server.factoriesRecord, 0 < connect f.factoryId
  | .replicate link => link.Clean
  | .finish => True
  | .clientClose _ => True
  | .replicationClose _ => True
  | _ => False

theorem lockstep_of_fresh [Zlib] (p : ℤ) {c : Cluster} (h : Fresh c) : Lockstep p c where
  sound := .waiting (h.blank p).sound (h.waiting p)
  last_eq := by rw [(h.blank p).last_eq, (h.blank p).log_eq]; rfl
  committed _ := (h.blank p).committed_eq.trans (h.blank p).last_eq.symm
  roster := h.roster
  connected := .inr ⟨(h.blank p).recheckAllow_eq, h.waiting p⟩
  stale := h.stale p
  peers k f _ := by
    have hlog : (c p).replicatedLog k = [] := by
      simp only [Node.replicatedLog, h.waiting p, (h.blank p).log_eq]
    refine ⟨h.alive _, h.waiting _, (h.blank _).recheckAllow_eq, ?_, ?_⟩
    · rw [hlog]
      exact ⟨(h.blank _).sound, (h.blank _).log_eq, (h.blank _).last_eq⟩
    · intro o req i hadmin
      rw [h.waiting p] at hadmin
      cases hadmin
  released r hr := by
    rw [h.released p] at hr
    cases hr

theorem recheckedFactories_getElem? {s : Server} {connect : ℤ → ℤ} {k : ℕ} {f : FactoryRec}
    (h : (s.recheckedFactories connect)[k]? = some f) :
    ∃ g, s.factoriesRecord[k]? = some g ∧ g.factoryId = f.factoryId ∧
      (0 ≤ g.socket → f.socket = g.socket) ∧
      (s.recheckAllow = true → 0 < connect g.factoryId → 0 ≤ f.socket) := by
  unfold Server.recheckedFactories at h
  split_ifs at h with hallow
  · simp only [Server.recheckreplsock, List.getElem?_map, Option.map_eq_some_iff] at h
    obtain ⟨g, hg, rfl⟩ := h
    refine ⟨g, hg, ?_⟩
    split_ifs <;> simp <;> omega
  · exact ⟨f, h, rfl, fun _ => rfl, fun htrue => absurd htrue hallow⟩

theorem needsRecovery_behind {s b : Server} {shipOrder : RobotInf} {req : ReplReq}
    (hserving : s.Serving shipOrder req) (hlast : s.lastIndex = (s.smrLog.length : ℤ) - 1)
    (hb : b.Holds (s.smrLog.take (req.committedIndex + 1).toNat)) :
    b.lastIndex = req.committedIndex ∧ b.needsRecovery req = false := by
  have hnear := hserving.honest.near
  have hlen := hserving.length_take_committed hlast
  have hbl := hb.last_eq
  have hlastb : b.lastIndex = req.committedIndex := by omega
  refine ⟨hlastb, ?_⟩
  simp only [Server.needsRecovery, decide_eq_false_iff_not]
  omega

/-- Every path of `ifa_thread_read` completes a shorter log, save for a marker
that is one ahead. -/
theorem handledLog_eq_of_prefixed {s b : Server} {shipOrder : RobotInf} {req : ReplReq}
    (hserving : s.Serving shipOrder req) (hlast : s.lastIndex = (s.smrLog.length : ℤ) - 1)
    (hpre : b.smrLog <+: s.smrLog.take (req.committedIndex + 1).toNat)
    (hend : b.lastIndex = (b.smrLog.length : ℤ) - 1)
    (hmarker : req.mapopRecord.arg1 = -1 → req.lastIndex ≠ b.lastIndex + 1) :
    b.handledLog req s.smrLog = s.smrLog := by
  have hlen := hserving.length_take_committed hlast
  have hle := hpre.length_le
  have hreq := hserving.last_eq
  have hnear := hserving.honest.near
  unfold Server.handledLog
  split_ifs with hgap harg
  · obtain ⟨rest, hrest⟩ := hpre.trans (List.take_prefix _ _)
    have hdrop : s.smrLog.drop b.smrLog.length = rest := by rw [← hrest, List.drop_left]
    rw [show (b.lastIndex + 1).toNat = b.smrLog.length by omega, List.take_length,
      List.drop_length, List.append_nil, hdrop, hrest]
  · have hsucc := hserving.honest.order harg
    simp only [Server.needsRecovery, decide_eq_true_eq] at hgap
    have hlog := hpre.eq_of_length (by omega)
    have hindex : req.lastIndex.toNat = b.smrLog.length := by omega
    rw [hindex, ReplayLog.insertIdx_eq_take_append_drop _ _ le_rfl, List.take_length,
      List.drop_length, hlog, hserving.log_of_order hlast harg]
  · have hmark := hserving.honest.marker (not_not.mp harg)
    have hne := hmarker (not_not.mp harg)
    simp only [Server.needsRecovery, decide_eq_true_eq] at hgap
    rw [hpre.eq_of_length (by omega), hserving.log_of_marker hlast (not_not.mp harg)]

/-- An exchange without failures brings such a backup up to date. -/
theorem exchange_inStep [Zlib] {link : Link} (hlink : link.Clean) {s b : Server}
    {shipOrder : RobotInf} {req : ReplReq} (hserving : s.Serving shipOrder req)
    (hlast : s.lastIndex = (s.smrLog.length : ℤ) - 1)
    (hb : b.Holds (s.smrLog.take (req.committedIndex + 1).toNat)) :
    ∃ b', exchange link false req s.smrLog b = ⟨.ok b', true, false⟩ ∧ b'.Holds s.smrLog ∧
      b'.committedIndex = req.committedIndex ∧ b.SameRole b' := by
  obtain ⟨hlastb, hgap⟩ := needsRecovery_behind hserving hlast hb
  have hll := hb.sound.last_le
  have hcl := hb.sound.committed_le
  have hlt := hb.sound.last_lt
  have hprepared : b.Prepared req s.smrLog := by
    refine ⟨by omega, fun hneeds => by simp [hgap] at hneeds, fun _ harg => ⟨by omega, ?_⟩⟩
    have := hserving.honest.marker harg
    omega
  obtain ⟨b', hok, hbecame, hrole⟩ := exchange_became hb.sound hserving.honest hprepared
    hlink.sendRequest hlink.recvRequest (fun _ => hlink.toRecoveryCalls)
  have hkept := exchange_clean_kept hlink req s.smrLog
    hb.sound.committed_ge (by rw [hok]; rfl)
  have hstale := exchange_not_stale hlink.whole req s.smrLog
    hb.sound.committed_ge (fun _ => hprepared.drained)
  refine ⟨b', Exchange.ext hok hkept hstale, ⟨hbecame.sound, ?_, ?_⟩, hbecame.committed_eq, hrole⟩
  · rw [hbecame.log_eq]
    refine handledLog_eq_of_prefixed hserving hlast (hb.log_eq ▸ List.prefix_rfl) ?_ fun harg => ?_
    · rw [hb.last_eq, hb.log_eq]
    · have := hserving.honest.marker harg
      omega
  · rw [hbecame.last_eq, hserving.last_eq, hlast]

namespace Lockstep

theorem leads {p : ℤ} {c : Cluster} (h : Lockstep p c) : (c p).Leads :=
  ⟨h.sound, h.last_eq, h.committed, h.released⟩

theorem sockets {p : ℤ} {c : Cluster} (h : Lockstep p c) {shipOrder : RobotInf} {req : ReplReq}
    {i : ℕ} (hadmin : (c p).admin = .replicating shipOrder req i) :
    ∀ f ∈ (c p).server.factoriesRecord, 0 ≤ f.socket := by
  refine h.connected.resolve_right fun ⟨_, hwait⟩ => ?_
  rw [hadmin] at hwait
  cases hwait

theorem of_leads {p : ℤ} {d : Cluster} {n : Node} (hleads : n.Leads)
    (hsockets : ∀ f ∈ n.server.factoriesRecord, 0 ≤ f.socket) (hstale : ∀ id, n.stale id = false)
    (hroster : Roster (Function.update d p n))
    (hpeers : ∀ (k : ℕ) (f : FactoryRec), n.server.factoriesRecord[k]? = some f →
      n.Follows k (d f.factoryId)) : Lockstep p (Function.update d p n) := by
  refine ⟨?_, ?_, ?_, hroster, .inl ?_, ?_, ?_, ?_⟩ <;> simp only [Function.update_self]
  · exact hleads.sound
  · exact hleads.last_eq
  · exact hleads.committed
  · exact hsockets
  · exact hstale
  · intro k f hf
    have hne : f.factoryId ≠ p := hroster.ne (s := p) (by rwa [Function.update_self])
    rw [Function.update_of_ne hne]
    exact hpeers k f hf
  · exact hleads.released

theorem sameLog_primary {p : ℤ} {c : Cluster} {n : Node} (h : Lockstep p c)
    (hsame : (c p).SameLog n)
    (hreleased : n.released = (c p).released)
    (hallow : (c p).server.recheckAllow = true → n.server.recheckAllow = true)
    (hroster : Roster (Function.update c p n)) : Lockstep p (Function.update c p n) := by
  have hleads := h.leads.sameLog hsame hreleased
  refine ⟨?_, ?_, ?_, hroster, ?_, ?_, ?_, ?_⟩ <;> simp only [Function.update_self]
  · exact hleads.sound
  · exact hleads.last_eq
  · exact hleads.committed
  · rw [hsame.factoriesRecord_eq, hsame.admin_eq]
    exact h.connected.imp_right fun hwait => ⟨hallow hwait.1, hwait.2⟩
  · rw [hsame.stale_eq]
    exact h.stale
  · intro k f hf
    rw [hsame.factoriesRecord_eq] at hf
    have hfollows := h.peers k f hf
    have hlog : n.replicatedLog k = (c p).replicatedLog k := by
      simp only [Node.replicatedLog, hsame.admin_eq, hsame.smrLog_eq]
    rw [Function.update_of_ne (h.roster.ne hf)]
    exact ⟨hfollows.alive, hfollows.waiting, hfollows.recheckAllow, hlog ▸ hfollows.holds,
      fun o req i hadmin => hfollows.served o req i (hsame.admin_eq ▸ hadmin)⟩
  · exact hleads.released

theorem sameLog_backup {p s : ℤ} {c : Cluster} {n : Node} (h : Lockstep p c) (hs : s ≠ p)
    (hsame : (c s).SameLog n) (halive : (c s).alive = true → n.alive = true)
    (hallow : (c s).server.recheckAllow = true → n.server.recheckAllow = true)
    (hroster : Roster (Function.update c s n)) : Lockstep p (Function.update c s n) := by
  have hp : Function.update c s n p = c p := Function.update_of_ne (Ne.symm hs) ..
  refine ⟨?_, ?_, ?_, hroster, ?_, ?_, ?_, ?_⟩ <;> simp only [hp]
  · exact h.sound
  · exact h.last_eq
  · exact h.committed
  · exact h.connected
  · exact h.stale
  · intro k f hf
    have hfollows := h.peers k f hf
    by_cases hid : f.factoryId = s
    · subst hid
      rw [Function.update_self]
      refine ⟨halive hfollows.alive, hsame.admin_eq.trans hfollows.waiting,
        hallow hfollows.recheckAllow, ⟨hfollows.holds.sound.sameLog hsame, ?_, ?_⟩, ?_⟩
      · rw [hsame.smrLog_eq]
        exact hfollows.holds.log_eq
      · rw [hsame.lastIndex_eq]
        exact hfollows.holds.last_eq
      · rw [hsame.committedIndex_eq]
        exact hfollows.served
    · rw [Function.update_of_ne hid]
      exact hfollows
  · exact h.released

theorem sameLog {p s : ℤ} {c : Cluster} {n : Node} (h : Lockstep p c) (hsame : (c s).SameLog n)
    (halive : (c s).alive = true → n.alive = true) (hreleased : n.released = (c s).released)
    (hallow : (c s).server.recheckAllow = true → n.server.recheckAllow = true)
    (hroster : Roster (Function.update c s n)) : Lockstep p (Function.update c s n) := by
  by_cases hs : s = p
  · subst hs
    exact h.sameLog_primary hsame hreleased hallow hroster
  · exact h.sameLog_backup hs hsame halive hallow hroster

theorem begin [Zlib] {p : ℤ} {c : Cluster} (h : Lockstep p c) (shipOrder : RobotInf)
    {connect : ℤ → ℤ} (hconnect : ∀ f ∈ (c p).server.factoriesRecord, 0 < connect f.factoryId)
    (hadmin : (c p).admin = .waiting) (hcount : (c p).server.CanCount shipOrder)
    (hroster : Roster (Function.update c p ((c p).beginIteration shipOrder connect))) :
    Lockstep p (Function.update c p ((c p).beginIteration shipOrder connect)) := by
  obtain ⟨s', hnode, hbegan, hleads⟩ := h.leads.begin shipOrder connect hadmin hcount
  have htake := hbegan.take_committed h.last_eq
  rw [hnode] at hroster hleads ⊢
  refine of_leads hleads (fun f hf => ?_) h.stale hroster fun k f hf => ?_
  · rw [hbegan.factories_eq] at hf
    obtain ⟨k, hk⟩ := List.getElem?_of_mem hf
    obtain ⟨g, hg, hid, hsame, hnew⟩ := recheckedFactories_getElem? hk
    have hmem := List.mem_of_getElem? hg
    rcases h.connected with hsocket | ⟨hallow, -⟩
    · exact (hsame (hsocket g hmem)).symm ▸ hsocket g hmem
    · exact hnew hallow (hconnect g hmem)
  · rw [hbegan.factories_eq] at hf
    obtain ⟨g, hg, hid, -⟩ := recheckedFactories_getElem? hf
    have hfollows := h.peers k g hg
    rw [← hid]
    refine ⟨hfollows.alive, hfollows.waiting, hfollows.recheckAllow, ?_, ?_⟩
    · have hholds := hfollows.holds
      simp only [Node.replicatedLog, hadmin] at hholds
      simpa [Node.replicatedLog, Server.sendReq, htake] using hholds
    · intro o req i heq hlt
      cases heq
      exact absurd hlt (Nat.not_lt_zero k)

theorem exchanged [Zlib] {p : ℤ} {c : Cluster} (h : Lockstep p c) {link : Link} (hlink : link.Clean)
    {shipOrder : RobotInf} {req : ReplReq} {i : ℕ} {f : FactoryRec}
    (hadmin : (c p).admin = .replicating shipOrder req i)
    (hf : (c p).server.factoriesRecord[i]? = some f) {result : Exchange}
    (hresult : exchange link ((c p).stale f.factoryId) req (c p).server.smrLog
      (c f.factoryId).server = result)
    (hroster : Roster (Function.update
      (Function.update c f.factoryId ((c f.factoryId).afterExchange result.backup))
      p ((c p).afterPeer shipOrder req i f result.kept result.stale))) :
    Lockstep p (Function.update
      (Function.update c f.factoryId ((c f.factoryId).afterExchange result.backup))
      p ((c p).afterPeer shipOrder req i f result.kept result.stale)) := by
  have hserving := h.sound.serving _ _ _ hadmin
  have hfollows := h.peers i f hf
  have hholds := hfollows.holds
  simp only [Node.replicatedLog, hadmin, lt_irrefl, if_false] at hholds
  obtain ⟨b', hexchange, hb', hcommitted, hrole⟩ :=
    exchange_inStep hlink hserving h.last_eq hholds
  rw [h.stale, hexchange] at hresult
  subst hresult
  refine of_leads (h.leads.afterPeer hadmin f true false) (h.sockets hadmin)
    (fun id => afterPeer_stale (h.stale id)) hroster fun k g hg => ?_
  by_cases hk : k = i
  · subst hk
    obtain rfl : f = g := Option.some.inj (hf.symm.trans hg)
    rw [Function.update_self]
    refine ⟨hfollows.alive, hfollows.waiting, hrole.recheckAllow.trans hfollows.recheckAllow,
      ?_, ?_⟩
    · simpa [Node.replicatedLog, Node.afterPeer, Node.afterExchange] using hb'
    · intro o req' j heq _
      cases heq
      exact hcommitted
  · have hid : g.factoryId ≠ f.factoryId := fun hid => hk (h.roster.position_unique hg hf hid)
    rw [Function.update_of_ne hid]
    have hother := h.peers k g hg
    have hiff : k < i + 1 ↔ k < i := by omega
    refine ⟨hother.alive, hother.waiting, hother.recheckAllow, ?_, ?_⟩
    · simpa [Node.replicatedLog, Node.afterPeer, hadmin, hiff] using hother.holds
    · intro o req' j heq hlt
      cases heq
      exact hother.served _ _ _ hadmin (by omega)

theorem finish {p : ℤ} {c : Cluster} (h : Lockstep p c) {shipOrder : RobotInf} {req : ReplReq}
    {i : ℕ} (hadmin : (c p).admin = .replicating shipOrder req i)
    (hlen : (c p).server.factoriesRecord.length ≤ i)
    (hroster : Roster (Function.update c p ((c p).finishIteration shipOrder req))) :
    Lockstep p (Function.update c p ((c p).finishIteration shipOrder req)) := by
  obtain ⟨hbecame, hrole⟩ := adminCommit_became h.sound.server (h.sound.serving _ _ _ hadmin)
  have hfactories := hrole.factoriesRecord
  refine of_leads (h.leads.finish hadmin) ?_ h.stale hroster fun k f hf => ?_
  · simp only [Node.finishIteration, hfactories]
    exact h.sockets hadmin
  · simp only [Node.finishIteration, hfactories] at hf
    have hk : k < i := (List.getElem?_eq_some_iff.mp hf).1.trans_le hlen
    have hfollows := h.peers k f hf
    refine ⟨hfollows.alive, hfollows.waiting, hfollows.recheckAllow, ?_, ?_⟩
    · have hholds := hfollows.holds
      simp only [Node.replicatedLog, hadmin, hk, if_true] at hholds
      simpa [Node.finishIteration, Node.replicatedLog, hbecame.log_eq] using hholds
    · intro o req' j heq
      cases heq

theorem crash {p : ℤ} {c : Cluster} (h : Lockstep p c)
    (hroster : Roster (Function.update c p { c p with alive := false })) :
    Lockstep p (Function.update c p { c p with alive := false }) :=
  h.sameLog_primary (.crashed _) rfl id hroster

theorem step [Zlib] {p : ℤ} {c c' : Cluster} {a : Action} (h : Lockstep p c)
    (hok : FailureFree p c a) (hstep : RobotFactory.step p c a = some c') : Lockstep p c' := by
  have hroster := h.roster.step hstep
  cases step_cases hstep with
  | begin shipOrder connect _ hadmin =>
    by_cases hcount : (c p).server.CanCount shipOrder
    · exact h.begin shipOrder hok hadmin hcount hroster
    · rw [h.leads.overflow shipOrder connect hadmin hcount] at hroster ⊢
      exact h.crash hroster
  | skipped link shipOrder req i f _ hadmin hf hsocket =>
    have hconnected := h.sockets hadmin f (List.mem_of_getElem? hf)
    omega
  | exchanged link shipOrder req i f _ hadmin hf _ _ _ _ result hresult =>
    exact h.exchanged hok hadmin hf hresult hroster
  | unanswered link shipOrder req i f _ _ hf _ hdead =>
    rw [(h.peers i f hf).alive] at hdead
    cases hdead
  | finish shipOrder req i _ hadmin hlen => exact h.finish hadmin hlen hroster
  | clientClose s _ => exact h.sameLog (.clientClosed _) id rfl (fun _ => rfl) hroster
  | replicationClose s _ => exact h.sameLog (.replicationClosed _) id rfl id hroster
  | ifaTurn | crash | restart => exact hok.elim

end Lockstep

/-- Every state of a failure-free run is in step. -/
theorem lockstep_run [Zlib] {p : ℤ} {c₀ c : Cluster} (h : Fresh c₀)
    (hrun : Run (step p) (FailureFree p) c₀ c) : Lockstep p c :=
  hrun.invariant (Lockstep p) (fun _ _ _ hinv hok hstep => hinv.step hok hstep)
    (lockstep_of_fresh p h)

/-- What holds between the primary and a backup after an iteration. -/
structure Server.InStep (primary : Server) (shipOrder : RobotInf) (b : Server) : Prop where
  log_eq : b.smrLog = primary.smrLog
  last_eq : b.lastIndex = primary.lastIndex
  last_is_end : b.lastIndex = (b.smrLog.length : ℤ) - 1
  committed_near : b.committedIndex = b.lastIndex ∨ b.committedIndex = b.lastIndex - 1
  committed_le : b.committedIndex ≤ primary.committedIndex
  replayed : b.customerRecord = replayRecord (b.smrLog.take (b.committedIndex + 1).toNat)
  marker : shipOrder.customerId = -1 →
    b.committedIndex = primary.committedIndex ∧ b.customerRecord = primary.customerRecord

namespace Lockstep

theorem inStep {p : ℤ} {c : Cluster} (h : Lockstep p c) {shipOrder : RobotInf} {req : ReplReq}
    {i : ℕ} (hadmin : (c p).admin = .replicating shipOrder req i) {k : ℕ} {f : FactoryRec}
    (hf : (c p).server.factoriesRecord[k]? = some f) (hk : k < i) :
    ((c p).server.adminCommit shipOrder).InStep shipOrder (c f.factoryId).server := by
  have hserving := h.sound.serving _ _ _ hadmin
  have hnear := hserving.honest.near
  have hlast := h.last_eq
  have hreq := hserving.last_eq
  obtain ⟨hbecame, -⟩ := adminCommit_became h.sound.server hserving
  have hfollows := h.peers k f hf
  have hcommitted := hfollows.served _ _ _ hadmin hk
  have hholds := hfollows.holds
  simp only [Node.replicatedLog, hadmin, hk, if_true] at hholds
  have hlog := hholds.log_eq
  have hlastb := hholds.last_eq
  refine ⟨?_, ?_, ?_, ?_, ?_, replayed_record hholds.sound, ?_⟩
  · rw [hlog, hbecame.log_eq]
  · rw [hlastb, hbecame.last_eq, hlast]
  · rw [hlastb, hlog]
  · omega
  · rw [hbecame.committed_eq]
    omega
  · intro hmarker
    have hmark := hserving.honest.marker (hserving.order_iff.mpr hmarker)
    have heq : (c f.factoryId).server.committedIndex =
        ((c p).server.adminCommit shipOrder).committedIndex := by
      rw [hbecame.committed_eq]
      omega
    refine ⟨heq, ?_⟩
    rw [replayed_record hholds.sound, replayed_record hbecame.sound, heq, hlog, hbecame.log_eq]

/-- Every backup holds the committed entries of the primary. -/
theorem committed_prefix {p : ℤ} {c : Cluster} (h : Lockstep p c) (k : ℕ) {j : ℕ} {op : MapOp}
    (hentry : ((c p).server.smrLog.take ((c p).server.committedIndex + 1).toNat)[j]? = some op) :
    ((c p).replicatedLog k)[j]? = some op := by
  unfold Node.replicatedLog
  cases hadmin : (c p).admin with
  | waiting => exact getElem?_of_take hentry
  | replicating o req i =>
    simp only
    split_ifs
    · exact getElem?_of_take hentry
    · rw [(h.sound.serving _ _ _ hadmin).committed_eq]
      exact hentry

theorem no_recovery {p : ℤ} {c : Cluster} (h : Lockstep p c) {shipOrder : RobotInf} {req : ReplReq}
    {i : ℕ} (hadmin : (c p).admin = .replicating shipOrder req i) {f : FactoryRec}
    (hf : (c p).server.factoriesRecord[i]? = some f) :
    (c f.factoryId).server.needsRecovery req = false := by
  have hholds := (h.peers i f hf).holds
  simp only [Node.replicatedLog, hadmin, lt_irrefl, if_false] at hholds
  exact (needsRecovery_behind (h.sound.serving _ _ _ hadmin) h.last_eq hholds).2

end Lockstep

/-- A step without failures whose order `last_index` can count. -/
def FailureFreeCounted (p : ℤ) (c : Cluster) (a : Action) : Prop :=
  FailureFree p c a ∧ ∀ shipOrder connect, a = .begin shipOrder connect →
    (c p).server.CanCount shipOrder

theorem clean_counted (p : ℤ) (c : Cluster) : FailureFreeCounted p c (.replicate Link.clean) :=
  ⟨Link.clean_clean, fun _ _ heq => by cases heq⟩

/-- A failure-free step ends the primary's process only where `last_index` overflows. -/
theorem Lockstep.step_alive [Zlib] {p : ℤ} {c c' : Cluster} {a : Action} (h : Lockstep p c)
    (halive : (c p).alive = true) (hok : FailureFreeCounted p c a)
    (hstep : RobotFactory.step p c a = some c') : (c' p).alive = true := by
  have hupdate {s : ℤ} {n : Node} (hn : n.alive = (c s).alive) :
      (Function.update c s n p).alive = true :=
    halive ▸ Cluster.update_all (fun u m => m.alive = (c u).alive) (fun _ => rfl) hn p
  cases step_cases hstep with
  | begin shipOrder connect _ hadmin =>
    obtain ⟨s', hnode, -⟩ := h.leads.begin shipOrder connect hadmin (hok.2 _ _ rfl)
    rw [hnode]
    exact hupdate rfl
  | skipped | unanswered | finish => exact hupdate rfl
  | exchanged =>
    rw [Function.update_self]
    exact halive
  | clientClose | replicationClose => exact hupdate rfl
  | ifaTurn | crash | restart => exact hok.1.elim

theorem alive_run [Zlib] {p : ℤ} {c₀ c : Cluster} (h : Fresh c₀)
    (hrun : Run (step p) (FailureFreeCounted p) c₀ c) : Lockstep p c ∧ (c p).alive = true :=
  hrun.invariant (fun d => Lockstep p d ∧ (d p).alive = true)
    (fun _ _ _ hinv hok hstep => ⟨hinv.1.step hok.1 hstep, hinv.1.step_alive hinv.2 hok hstep⟩)
    ⟨lockstep_of_fresh p h, h.alive p⟩

/-- Normal-case replication is a lockstep simulation. In a failure-free run in which
`last_index` does not overflow no process faults, no request finds a gap, and after each
iteration every backup is in step with the primary. -/
theorem replication_inStep [Zlib] {p : ℤ} {c₀ c : Cluster} (hfresh : Fresh c₀)
    (hrun : Run (step p) (FailureFreeCounted p) c₀ c) :
    (c p).alive = true ∧
    (∀ f ∈ (c p).server.factoriesRecord, (c f.factoryId).alive = true) ∧
    (∀ shipOrder req i f, (c p).admin = .replicating shipOrder req i →
      (c p).server.factoriesRecord[i]? = some f →
      (c f.factoryId).server.needsRecovery req = false) ∧
    (∀ shipOrder req i c', (c p).admin = .replicating shipOrder req i →
      step p c .finish = some c' → ∀ f ∈ (c' p).server.factoriesRecord,
      (c' p).server.InStep shipOrder (c' f.factoryId).server) := by
  obtain ⟨hinv, halive⟩ := alive_run hfresh hrun
  refine ⟨halive, ?_, fun _ _ _ _ hadmin hf => hinv.no_recovery hadmin hf, ?_⟩
  · intro f hf
    obtain ⟨k, hk⟩ := List.getElem?_of_mem hf
    exact (hinv.peers k f hk).alive
  · intro shipOrder req i c' hadmin hstep f hf
    cases step_cases hstep with
    | finish o r j _ hadmin' hlen =>
      rw [hadmin'] at hadmin
      cases hadmin
      obtain ⟨hbecame, hrole⟩ := adminCommit_became hinv.sound.server
        (hinv.sound.serving _ _ _ hadmin')
      simp only [Function.update_self, Node.finishIteration, hrole.factoriesRecord] at hf
      obtain ⟨k, hk⟩ := List.getElem?_of_mem hf
      rw [Function.update_self, Function.update_of_ne (hinv.roster.ne hk)]
      exact hinv.inStep hadmin' hk ((List.getElem?_eq_some_iff.mp hk).1.trans_le hlen)

/-- The servers after server 0 has replicated an order to both others. -/
theorem trio_replicated : ∃ c, Run (step 0) (FailureFreeCounted 0) trio c ∧
    (c 0).server.factoriesRecord = [⟨1, 5⟩, ⟨2, 5⟩] ∧
    (c 0).admin = .replicating (orderOf7 1) ⟨0, -1, 0, 1, 7, 1⟩ 2 ∧
    (step 0 c .finish).isSome := by
  have hcount : FailureFreeCounted 0 trio (.begin (orderOf7 1) fun _ => 5) := by
    refine ⟨fun _ _ => (by decide : (0 : ℤ) < 5), fun o connect h => ?_⟩
    cases h
    exact fun _ => (by decide : (-1 : ℤ) < intMax)
  exact ⟨_, ((Run.start.next hcount rfl).next (clean_counted 0 _) rfl).next
    (clean_counted 0 _) rfl, rfl, rfl, rfl⟩

theorem replication_inStep_trio : ∃ c c' : Cluster, step 0 c .finish = some c' ∧
    (c' 0).server.InStep (orderOf7 1) (c' 1).server ∧
    (c' 0).server.InStep (orderOf7 1) (c' 2).server := by
  obtain ⟨c, hrun, hfactories, hadmin, hsome⟩ := trio_replicated
  obtain ⟨c', hstep⟩ := Option.isSome_iff_exists.mp hsome
  have hinStep := (replication_inStep trio_fresh hrun).2.2.2 _ _ _ c' hadmin hstep
  have hfactories' : (c' 0).server.factoriesRecord = [⟨1, 5⟩, ⟨2, 5⟩] := by
    cases step_cases hstep with
    | finish o r j _ hadmin' _ =>
      rw [hadmin] at hadmin'
      cases hadmin'
      simpa [Node.finishIteration, Server.adminCommit, orderOf7] using hfactories
  rw [hfactories'] at hinStep
  exact ⟨c, c', hstep, hinStep ⟨1, 5⟩ (by simp), hinStep ⟨2, 5⟩ (by simp)⟩

namespace Lockstep

theorem replicate_enabled [Zlib] {p : ℤ} {c : Cluster} {shipOrder : RobotInf} {req : ReplReq}
    {i : ℕ} (h : Lockstep p c) (halive : (c p).alive = true)
    (hadmin : (c p).admin = .replicating shipOrder req i)
    (hi : i < (c p).server.factoriesRecord.length) :
    ∃ c', RobotFactory.step p c (.replicate Link.clean) = some c' := by
  have hf := List.getElem?_eq_getElem hi
  have hfollows := h.peers i _ hf
  have hsocket := h.sockets hadmin _ (List.getElem_mem hi)
  exact ⟨_, (Stepped.exchanged Link.clean shipOrder req i _ halive hadmin hf hsocket hfollows.alive
    hfollows.waiting (h.roster.ne hf) _ rfl).step⟩

theorem loop_completes [Zlib] {p : ℤ} {shipOrder : RobotInf} {req : ReplReq} (n : ℕ) :
    ∀ {c : Cluster} {i : ℕ}, Lockstep p c → (c p).alive = true →
      (c p).admin = .replicating shipOrder req i →
      (c p).server.factoriesRecord.length = i + n →
      ∃ c' j, Run (RobotFactory.step p) (fun _ a => a = .replicate Link.clean) c c' ∧
        (c' p).alive = true ∧ (c' p).admin = .replicating shipOrder req j ∧
        (c' p).server.factoriesRecord.length ≤ j := by
  induction n with
  | zero =>
    intro c i _ halive hadmin hlen
    exact ⟨c, i, .start, halive, hadmin, hlen.le⟩
  | succ n ih =>
    intro c i h halive hadmin hlen
    obtain ⟨c₁, hstep⟩ := h.replicate_enabled halive hadmin (by omega)
    have hids := congrArg List.length (step_peerIds hstep p)
    simp only [Server.peerIds, List.length_map] at hids
    have halive₁ := h.step_alive halive (clean_counted p c) hstep
    have hadmin₁ : (c₁ p).admin = .replicating shipOrder req (i + 1) := by
      cases step_cases hstep with
      | skipped _ _ _ _ _ _ hadmin' | exchanged _ _ _ _ _ _ hadmin'
      | unanswered _ _ _ _ _ _ hadmin' =>
        rw [hadmin] at hadmin'
        cases hadmin'
        rw [Function.update_self]
        rfl
    obtain ⟨c', j, hrun, hrest⟩ := ih (h.step (a := .replicate Link.clean) Link.clean_clean hstep)
      halive₁ hadmin₁ (by omega)
    have hfirst : Run (RobotFactory.step p) (fun _ a => a = .replicate Link.clean) c c₁ :=
      Run.start.next rfl hstep
    exact ⟨c', j, hfirst.trans hrun, hrest⟩

end Lockstep

/-- A step without failures; where an iteration begins, `last_index` is below `n`. -/
def FailureFreeBelow (p n : ℤ) (c : Cluster) (a : Action) : Prop :=
  FailureFree p c a ∧ ∀ shipOrder connect, a = .begin shipOrder connect →
    (c p).server.lastIndex < n

namespace Lockstep

theorem order_handled [Zlib] {p : ℤ} {c : Cluster} (h : Lockstep p c) (shipOrder : RobotInf)
    (halive : (c p).alive = true) (hadmin : (c p).admin = .waiting)
    (horder : shipOrder.customerId ≠ -1) (hlast : (c p).server.lastIndex < intMax) :
    ∃ c', Run (RobotFactory.step p) (FailureFreeBelow p ((c p).server.lastIndex + 1)) c c' ∧
      (c' p).alive = true ∧ (c' p).admin = .waiting ∧
      (c' p).server.lastIndex = (c p).server.lastIndex + 1 := by
  obtain ⟨s', hnode, hbegan, -⟩ := h.leads.begin shipOrder (fun _ => 5) hadmin fun _ => hlast
  have hbegin := (Stepped.begin (p := p) shipOrder (fun _ => 5) halive hadmin).step
  have hok : FailureFree p c (.begin shipOrder fun _ => 5) := fun _ _ => (by decide : (0 : ℤ) < 5)
  have h₁ := h.step hok hbegin
  rw [hnode] at hbegin h₁
  obtain ⟨c₂, j, hrun, halive₂, hadmin₂, hlen⟩ :=
    @loop_completes _ p shipOrder (s'.sendReq shipOrder) s'.factoriesRecord.length _ 0 h₁
      (by simpa using halive) (by simp) (by simp)
  have h₂ := hrun.invariant (Lockstep p) (fun d a _ hinv hok hstep => by
    subst hok
    exact hinv.step (a := .replicate Link.clean) Link.clean_clean hstep) h₁
  have hfinish := (Stepped.finish shipOrder (s'.sendReq shipOrder) j halive₂ hadmin₂ hlen).step
  have hrun' : Run (RobotFactory.step p) (FailureFreeBelow p ((c p).server.lastIndex + 1)) c c₂ :=
    (Run.start.next ⟨hok, fun _ _ _ => Int.lt_succ _⟩ hbegin).trans
      (hrun.mono fun _ _ heq => heq ▸ ⟨Link.clean_clean, fun _ _ h => by cases h⟩)
  refine ⟨_, hrun'.next (a := .finish) ⟨trivial, fun _ _ h => by cases h⟩ hfinish, ?_⟩
  rw [Function.update_self]
  refine ⟨halive₂, rfl, ?_⟩
  have hserving := h₂.sound.serving _ _ _ hadmin₂
  have hreq : s'.lastIndex = (c₂ p).server.lastIndex := hserving.last_eq
  have hbegan_last := hbegan.last_eq
  rw [if_pos horder] at hbegan_last
  simp only [Node.finishIteration, Server.adminCommit, if_pos horder]
  exact hreq.symm.trans hbegan_last

theorem run [Zlib] {p : ℤ} {c c' : Cluster} {n : ℤ} (h : Lockstep p c)
    (hrun : Run (RobotFactory.step p) (FailureFreeBelow p n) c c') : Lockstep p c' :=
  hrun.invariant (Lockstep p) (fun _ _ _ hinv hok hstep => hinv.step hok.1 hstep) h

/-- Any number of orders that `last_index` can count is handled without a failure. -/
theorem orders_handled [Zlib] {p : ℤ} {c : Cluster} (h : Lockstep p c)
    (halive : (c p).alive = true) (hadmin : (c p).admin = .waiting) (n : ℕ)
    (hn : (c p).server.lastIndex + n ≤ intMax) :
    ∃ c', Run (RobotFactory.step p) (FailureFreeBelow p ((c p).server.lastIndex + n)) c c' ∧
      (c' p).alive = true ∧ (c' p).admin = .waiting ∧
      (c' p).server.lastIndex = (c p).server.lastIndex + n := by
  induction n with
  | zero => exact ⟨c, .start, halive, hadmin, by simp⟩
  | succ n ih =>
    push_cast at hn
    obtain ⟨d, hrun, halive', hadmin', hlast⟩ := ih (by omega)
    obtain ⟨c', hrun', halive'', hadmin'', hlast'⟩ := (h.run hrun).order_handled (orderOf7 1)
      halive' hadmin' (by decide) (by omega)
    refine ⟨c', (hrun.mono ?_).trans (hrun'.mono ?_), halive'', hadmin'', by push_cast; omega⟩ <;>
      exact fun _ _ hok => ⟨hok.1, fun o k heq => by have := hok.2 o k heq; push_cast; omega⟩

end Lockstep

/-- Order number 2^31 + 1 overflows `last_index`. -/
theorem orders_overflow : ∃ c c' : Cluster, Run (step 0) (FailureFree 0) duo c ∧
    (c 0).alive = true ∧ (c 0).server.lastIndex = 2 ^ 31 - 1 ∧
    step 0 c (.begin (orderOf7 1) fun _ => 5) = some c' ∧
    FailureFree 0 c (.begin (orderOf7 1) fun _ => 5) ∧
    (c 0).server.adminAppend (orderOf7 1) = .error .intOverflow ∧ (c' 0).alive = false := by
  have hfirst := lockstep_of_fresh 0 duo_fresh
  obtain ⟨c, hrun, halive, hadmin, hlast⟩ :=
    hfirst.orders_handled rfl rfl (2 ^ 31) (show (-1 : ℤ) + (2 ^ 31 : ℕ) ≤ intMax by decide)
  replace hlast : (c 0).server.lastIndex = 2 ^ 31 - 1 := hlast
  have hmax : ¬(c 0).server.lastIndex < intMax := by rw [hlast]; decide
  have hinv := hfirst.run hrun
  refine ⟨c, Function.update c 0 ((c 0).beginIteration (orderOf7 1) fun _ => 5),
    hrun.mono fun _ _ hok => hok.1, halive, hlast, by simp only [step, halive, hadmin],
    fun _ _ => (by decide : (0 : ℤ) < 5), ?_, ?_⟩
  · have hsucc : intSucc (c 0).server.lastIndex = .error .intOverflow := if_neg hmax
    rw [Server.adminAppend, if_pos (by decide), hsucc]
    rfl
  · have hdead := hinv.leads.overflow (orderOf7 1) (fun _ => 5) hadmin
      fun hcount => hmax (hcount (by decide))
    rw [Function.update_self, hdead]

/-- A step without failures, or the death of the primary. -/
def FailureFreeOrCrash (p : ℤ) (c : Cluster) (a : Action) : Prop :=
  FailureFree p c a ∨ a = .crash p

theorem lockstep_run_crash [Zlib] {p : ℤ} {c₀ c : Cluster} (h : Fresh c₀)
    (hrun : Run (step p) (FailureFreeOrCrash p) c₀ c) : Lockstep p c := by
  refine hrun.invariant (Lockstep p) (fun d a d' hinv hok hstep => ?_) (lockstep_of_fresh p h)
  rcases hok with hok | rfl
  · exact hinv.step hok hstep
  · have hroster := hinv.roster.step hstep
    cases step_cases hstep with
    | crash => exact hinv.crash hroster

/-- Failover loses no released order. At every moment, also after the primary has died
at any point, a backup that takes over holds every released order at its index, and the
recheck of its first iteration leaves it with everything committed and the whole log
replayed. -/
theorem failover_keeps_released [Zlib] {p : ℤ} {c₀ c : Cluster} {f : FactoryRec}
    (hfresh : Fresh c₀) (hrun : Run (step p) (FailureFreeOrCrash p) c₀ c)
    (hf : f ∈ (c p).server.factoriesRecord) :
    (c f.factoryId).alive = true ∧ (c f.factoryId).server.recheckAllow = true ∧
    (∀ r ∈ (c p).released, r.robot.customerId ≠ -1 → 0 ≤ r.index ∧
      (c f.factoryId).server.smrLog[r.index.toNat]? = some (Server.logEntryOf r.robot)) ∧
    ∃ s, (c f.factoryId).server.recheckcommit = .ok s ∧
      s.smrLog = (c f.factoryId).server.smrLog ∧ s.committedIndex = s.lastIndex ∧
      s.customerRecord = replayRecord s.smrLog := by
  have hinv := lockstep_run_crash hfresh hrun
  obtain ⟨k, hk⟩ := List.getElem?_of_mem hf
  have hfollows := hinv.peers k f hk
  refine ⟨hfollows.alive, hfollows.recheckAllow, ?_, ?_⟩
  · intro r hr horder
    obtain ⟨h0, hentry⟩ := hinv.released r hr horder
    refine ⟨h0, ?_⟩
    rw [hfollows.holds.log_eq]
    exact hinv.committed_prefix k hentry
  · obtain ⟨s, hok, hbecame, -⟩ := recheckcommit_became hfollows.holds.sound
    refine ⟨s, hok, hbecame.log_eq, hbecame.committed_eq.trans hbecame.last_eq.symm, ?_⟩
    rw [replayed_record hbecame.sound, hbecame.committed_eq, hfollows.holds.last_eq,
      hbecame.log_eq, hfollows.holds.log_eq, List.take_of_length_le (by omega)]

/-- Server 0 dies between the sends of its second order. -/
theorem failover_keeps_released_trio : ∃ c : Cluster,
    (c 0).released = [⟨⟨7, 1, 1, 100, 100⟩, 0⟩] ∧ (c 0).alive = false ∧
    (c 2).server.smrLog = [⟨1, 7, 1⟩] ∧ (c 2).server.recheckAllow = true ∧
    ∃ s, (c 2).server.recheckcommit = .ok s ∧ s.committedIndex = s.lastIndex ∧
      s.customerRecord = replayRecord [⟨1, 7, 1⟩] := by
  have hbegin (c : Cluster) (n : Int32) :
      FailureFreeOrCrash 0 c (.begin (orderOf7 n) fun _ => 5) :=
    .inl fun _ _ => (by decide : (0 : ℤ) < 5)
  have hreplicate (c : Cluster) : FailureFreeOrCrash 0 c (.replicate Link.clean) :=
    .inl Link.clean_clean
  have hfinish (c : Cluster) : FailureFreeOrCrash 0 c .finish := .inl trivial
  have hrun : ∃ c, Run (step 0) (FailureFreeOrCrash 0) trio c ∧ (c 0).alive = false ∧
      (c 0).server.factoriesRecord = [⟨1, 5⟩, ⟨2, 5⟩] ∧
      (c 0).released = [⟨⟨7, 1, 1, 100, 100⟩, 0⟩] ∧ (c 2).server.smrLog = [⟨1, 7, 1⟩] :=
    ⟨_, ((((((Run.start.next (hbegin _ 1) rfl).next (hreplicate _) rfl).next
      (hreplicate _) rfl).next (hfinish _) rfl).next (hbegin _ 2) rfl).next
      (hreplicate _) rfl).next (a := .crash 0) (.inr rfl) rfl, rfl, rfl, rfl, rfl⟩
  obtain ⟨c, hrun, hdead, hfactories, hreleased, hlog⟩ := hrun
  obtain ⟨-, hallow, -, s, hok, hslog, hdone, hrecord⟩ :=
    failover_keeps_released (f := ⟨2, 5⟩) trio_fresh hrun (by simp [hfactories])
  exact ⟨c, hreleased, hdead, hlog, hallow, s, hok, hdone, by rw [hrecord, hslog, hlog]⟩

end RobotFactory
