import RobotFactory.Failover

/-!
# What an acknowledgement proves

One primary and its backups under lost connections and reconnections. A backup's
log stays a prefix of the primary's as long as every `recv` gets its whole message,
a recovery is only entered with everything committed and runs to its end, and no
request is handled after its exchange. Then the socket that is left after the
replication of an order proves that the backup has the primary's log, and all
positions at which the backup accesses its log are in range unless a marker comes
exactly one ahead.
-/
namespace RobotFactory
open TransitionSystem

/-- The log of `b` is a prefix of `log`, and it has committed no more than `committed`. -/
structure Server.Lags (b : Server) (log : List MapOp) (committed : ℤ) : Prop where
  sound : b.Sound
  log_prefix : b.smrLog <+: log
  last_eq : b.lastIndex = (b.smrLog.length : ℤ) - 1
  committed_le : b.committedIndex ≤ committed

theorem Server.Lags.mono {b : Server} {log log' : List MapOp} {committed committed' : ℤ}
    (h : b.Lags log committed) (hlog : log <+: log') (hle : committed ≤ committed') :
    b.Lags log' committed' :=
  ⟨h.sound, h.log_prefix.trans hlog, h.last_eq, h.committed_le.trans hle⟩

/-- A recovery is entered with everything committed, and all its calls succeed. -/
def RecoveryWorks (link : Link) (req : ReplReq) (b : Server) : Prop :=
  b.needsRecovery req = true → b.committedIndex = b.lastIndex ∧ link.RecoveryCalls

/-- In an exchange with a live backup every `recv` gets its whole message, and a backup
that gets the request and finds a gap recovers. No request is handled late, and the
log has room. -/
def Recovering (p : ℤ) (c : Cluster) : Action → Prop
  | .begin shipOrder _ => (c p).server.HasRoom shipOrder
  | .replicate link => NextExchange p c fun req b => link.Whole ∧
      (link.sendRequest = true → link.recvRequest = .message → RecoveryWorks link req b)
  | .ifaTurn .. => False
  | .restart .. => False
  | _ => True

/-- A backup that did not get the request does not get its acknowledgement through. -/
def HonestAck (link : Link) : Prop :=
  link.recvRequest = .failure → ¬(link.sendAck = true ∧ link.recvAck = .message)

section Exchanges

/-- What an exchange makes of a lagging backup. -/
inductive Caught (link : Link) (req : ReplReq) (smrLog : List MapOp) (b : Server) :
    Except Fault Server → Prop where
  | missed (id : ℤ) (hlost : link.sendRequest = false ∨ link.recvRequest = .failure) :
      Caught link req smrLog b (.ok { b with smrReplCommit.primaryId := id })
  | caughtUp (b' : Server) (hbecame : b'.Became smrLog req.lastIndex req.committedIndex) :
      Caught link req smrLog b (.ok b')
  | faulted (hmarker : req.mapopRecord.arg1 = -1) (hahead : req.lastIndex = b.lastIndex + 1) :
      Caught link req smrLog b (.error .outOfRange)

theorem prepared_of_lags {s b : Server} {link : Link} {shipOrder : RobotInf} {req : ReplReq}
    (hserving : s.Serving shipOrder req) (hlast : s.lastIndex = (s.smrLog.length : ℤ) - 1)
    (hb : b.Lags (s.smrLog.take (req.committedIndex + 1).toNat) s.committedIndex)
    (hrec : RecoveryWorks link req b)
    (hmarker : req.mapopRecord.arg1 = -1 → req.lastIndex ≠ b.lastIndex + 1) :
    b.Prepared req s.smrLog := by
  have hlen := hserving.length_take_committed hlast
  have hle := hb.log_prefix.length_le
  have hend := hb.last_eq
  have hcommitted := hb.committed_le
  have hreq := hserving.last_eq
  have hreqc := hserving.committed_eq
  have hll := hb.sound.last_le
  refine ⟨by omega, fun hneeds => ⟨(hrec hneeds).1, by omega⟩, fun hgap harg => ?_⟩
  have hmark := hserving.honest.marker harg
  have hne := hmarker harg
  simp only [Server.needsRecovery, decide_eq_false_iff_not] at hgap
  exact ⟨by omega, by omega⟩

theorem exchange_caught [Zlib] {link : Link} (hlink : link.Whole) {s b : Server}
    {shipOrder : RobotInf} {req : ReplReq} (hserving : s.Serving shipOrder req)
    (hlast : s.lastIndex = (s.smrLog.length : ℤ) - 1)
    (hb : b.Lags (s.smrLog.take (req.committedIndex + 1).toNat) s.committedIndex)
    (hrec : link.sendRequest = true → link.recvRequest = .message → RecoveryWorks link req b) :
    Caught link req s.smrLog b (exchange link false req s.smrLog b).backup := by
  by_cases hlost : link.sendRequest = false ∨ link.recvRequest = .failure
  · obtain ⟨id, hmissed⟩ := exchange_missed req s.smrLog b hlost
    rw [hmissed]
    exact .missed id hlost
  · obtain ⟨hsend, hrecv⟩ := Link.message_of_not_lost hlink.recvRequest hlost
    have hworks := hrec hsend hrecv
    by_cases hahead : req.mapopRecord.arg1 = -1 ∧ req.lastIndex = b.lastIndex + 1
    · have hgap : b.needsRecovery req = false := by
        simp only [Server.needsRecovery, decide_eq_false_iff_not]
        omega
      have hend := hb.last_eq
      have hfault := ifaThreadRead_marker_ahead
        (Link.getReplicationRequest_of_message hrecv req s.smrLog b) hgap hahead.1
        (by have := hserving.honest.marker hahead.1; omega)
      rw [exchange_received req s.smrLog b hsend, Server.ifaThreadTurn, hfault]
      exact .faulted hahead.1 hahead.2
    · have hmarker : req.mapopRecord.arg1 = -1 → req.lastIndex ≠ b.lastIndex + 1 :=
        fun harg hlast => hahead ⟨harg, hlast⟩
      obtain ⟨b', hok, hbecame, -⟩ := exchange_became hb.sound hserving.honest
        (prepared_of_lags hserving hlast hb hworks hmarker) hsend hrecv
        (fun hneeds => (hworks hneeds).2)
      rw [handledLog_eq_of_prefixed hserving hlast hb.log_prefix hb.last_eq hmarker] at hbecame
      rw [hok]
      exact .caughtUp b' hbecame

theorem exchange_lags_not_stale [Zlib] {link : Link} (hlink : link.Whole) {s b : Server}
    {shipOrder : RobotInf} {req : ReplReq} (hserving : s.Serving shipOrder req)
    (hlast : s.lastIndex = (s.smrLog.length : ℤ) - 1)
    (hb : b.Lags (s.smrLog.take (req.committedIndex + 1).toNat) s.committedIndex)
    (hrec : link.sendRequest = true → link.recvRequest = .message → RecoveryWorks link req b) :
    (exchange link false req s.smrLog b).stale = false := by
  cases hsend : link.sendRequest with
  | false => simp [exchange, hsend]
  | true =>
    have hreq := hserving.last_eq
    exact exchange_not_stale hlink req s.smrLog hb.sound.committed_ge
      fun hrecv hneeds => by have := (hrec hsend hrecv hneeds).1; omega

theorem Caught.lags {link : Link} {s b : Server} {shipOrder : RobotInf} {req : ReplReq}
    {after : Except Fault Server} (h : Caught link req s.smrLog b after)
    (hserving : s.Serving shipOrder req) (hlast : s.lastIndex = (s.smrLog.length : ℤ) - 1)
    (hb : b.Lags (s.smrLog.take (req.committedIndex + 1).toNat) s.committedIndex) {n : Node}
    (hn : n.server = b) : (n.afterExchange after).server.Lags s.smrLog s.committedIndex := by
  have hmore := hb.mono (List.take_prefix _ _) le_rfl
  cases h with
  | missed id => exact ⟨hmore.sound.with_primaryId id, hmore.2, hmore.3, hmore.4⟩
  | caughtUp b' hbecame =>
    have hreq := hserving.last_eq
    have hreqc := hserving.committed_eq
    refine ⟨hbecame.sound, ?_, ?_, ?_⟩ <;> simp only [Node.afterExchange]
    · rw [hbecame.log_eq]
    · rw [hbecame.last_eq, hbecame.log_eq]
      omega
    · rw [hbecame.committed_eq]
      omega
  | faulted =>
    simp only [Node.afterExchange, hn]
    exact hmore

end Exchanges

/-- The invariant of a primary whose backups lag behind it. -/
structure Lagging (p : ℤ) (c : Cluster) : Prop where
  roster : Roster c
  sound : (c p).Sound
  last_eq : (c p).server.lastIndex = ((c p).server.smrLog.length : ℤ) - 1
  committed : (c p).admin = .waiting → (c p).server.committedIndex = (c p).server.lastIndex
  stale : ∀ id, (c p).stale id = false
  peers : ∀ (k : ℕ) (f : FactoryRec), (c p).server.factoriesRecord[k]? = some f →
    (c f.factoryId).server.Lags ((c p).replicatedLog k) (c p).server.committedIndex

theorem lagging_of_fresh [Zlib] (p : ℤ) {c : Cluster} (h : Fresh c) : Lagging p c where
  roster := h.roster
  sound := .waiting (h.blank p).sound (h.waiting p)
  last_eq := by rw [(h.blank p).last_eq, (h.blank p).log_eq]; rfl
  committed _ := (h.blank p).committed_eq.trans (h.blank p).last_eq.symm
  stale := h.stale p
  peers k f _ := by
    have hblank := h.blank f.factoryId
    refine ⟨hblank.sound, ?_, ?_, ?_⟩
    · rw [hblank.log_eq]
      exact List.nil_prefix
    · rw [hblank.log_eq, hblank.last_eq]
      rfl
    · rw [hblank.committed_eq, (h.blank p).committed_eq]

theorem Server.Lags.sameLog {n n' : Node} {log : List MapOp} {committed : ℤ}
    (h : n.server.Lags log committed) (hsame : n.SameLog n') : n'.server.Lags log committed := by
  refine ⟨h.sound.sameLog hsame, ?_, ?_, ?_⟩
  · rw [hsame.smrLog_eq]
    exact h.log_prefix
  · rw [hsame.lastIndex_eq, hsame.smrLog_eq]
    exact h.last_eq
  · rw [hsame.committedIndex_eq]
    exact h.committed_le

namespace Lagging

theorem begin [Zlib] {p : ℤ} {c : Cluster} (h : Lagging p c) (shipOrder : RobotInf)
    (connect : ℤ → ℤ) (hadmin : (c p).admin = .waiting) (hroom : (c p).server.HasRoom shipOrder)
    (hroster : Roster (Function.update c p ((c p).beginIteration shipOrder connect))) :
    Lagging p (Function.update c p ((c p).beginIteration shipOrder connect)) := by
  have hdone := h.committed hadmin
  have hge := h.sound.server.committed_ge
  obtain ⟨s', hnode, hbegan⟩ :=
    beginIteration_began shipOrder connect h.sound.server (.inr hdone) hroom.canCount
  have htake := hbegan.take_committed h.last_eq
  rw [hnode] at hroster ⊢
  refine ⟨hroster, ?_, ?_, ?_, ?_, ?_⟩ <;> simp only [Function.update_self]
  · exact .began hbegan
  · exact hbegan.last_is_end (by omega) h.last_eq
  · intro hwait
    cases hwait
  · exact h.stale
  · intro k f hf
    rw [hbegan.factories_eq] at hf
    obtain ⟨g, hg, hid, -⟩ := recheckedFactories_getElem? hf
    have hlags := h.peers k g hg
    rw [Function.update_of_ne (hid ▸ h.roster.ne hg), ← hid, hbegan.committed_eq, ← hdone]
    simp only [Node.replicatedLog, hadmin] at hlags
    simpa [Node.replicatedLog, Server.sendReq, htake] using hlags

theorem turn {p : ℤ} {c : Cluster} (h : Lagging p c) {shipOrder : RobotInf} {req : ReplReq} {i : ℕ}
    {f : FactoryRec} (hadmin : (c p).admin = .replicating shipOrder req i)
    (hf : (c p).server.factoriesRecord[i]? = some f) {backup : Node}
    (hbackup : backup.server.Lags (c p).server.smrLog (c p).server.committedIndex) (kept : Bool)
    (hroster : Roster (Function.update (Function.update c f.factoryId backup) p
      ((c p).afterPeer shipOrder req i f kept false))) :
    Lagging p (Function.update (Function.update c f.factoryId backup) p
      ((c p).afterPeer shipOrder req i f kept false)) := by
  refine ⟨hroster, ?_, ?_, ?_, ?_, ?_⟩ <;> simp only [Function.update_self]
  · exact h.sound.afterPeer hadmin f kept false
  · exact h.last_eq
  · intro hwait
    cases hwait
  · exact fun id => afterPeer_stale (h.stale id)
  · intro k g hg
    obtain ⟨g', hg', hid, -⟩ := afterPeer_getElem? hf hg
    rw [← hid, Function.update_of_ne (h.roster.ne hg')]
    by_cases hki : k = i
    · subst hki
      obtain rfl : f = g' := Option.some.inj (hf.symm.trans hg')
      rw [Function.update_self]
      simpa [Node.replicatedLog, Node.afterPeer] using hbackup
    · have hne : g'.factoryId ≠ f.factoryId :=
        fun heq => hki (h.roster.position_unique hg' hf heq)
      have hiff : k < i + 1 ↔ k < i := by omega
      have hlags := h.peers k g' hg'
      rw [Function.update_of_ne hne]
      simp only [Node.replicatedLog, hadmin] at hlags
      simpa [Node.replicatedLog, Node.afterPeer, hiff] using hlags

theorem next_lags {p : ℤ} {c : Cluster} (h : Lagging p c) {shipOrder : RobotInf} {req : ReplReq}
    {i : ℕ} {f : FactoryRec} (hadmin : (c p).admin = .replicating shipOrder req i)
    (hf : (c p).server.factoriesRecord[i]? = some f) :
    (c f.factoryId).server.Lags ((c p).server.smrLog.take (req.committedIndex + 1).toNat)
      (c p).server.committedIndex := by
  have hlags := h.peers i f hf
  simpa [Node.replicatedLog, hadmin] using hlags

theorem passed {p : ℤ} {c : Cluster} (h : Lagging p c) {shipOrder : RobotInf} {req : ReplReq}
    {i : ℕ} {f : FactoryRec} (hadmin : (c p).admin = .replicating shipOrder req i)
    (hf : (c p).server.factoriesRecord[i]? = some f) (kept : Bool)
    (hroster : Roster (Function.update c p ((c p).afterPeer shipOrder req i f kept false))) :
    Lagging p (Function.update c p ((c p).afterPeer shipOrder req i f kept false)) := by
  have hsame : Function.update c f.factoryId (c f.factoryId) = c := Function.update_eq_self ..
  have hlags := (h.next_lags hadmin hf).mono (List.take_prefix _ _) le_rfl
  have hturn := h.turn hadmin hf hlags kept
  rw [hsame] at hturn
  exact hturn hroster

theorem finish {p : ℤ} {c : Cluster} (h : Lagging p c) {shipOrder : RobotInf} {req : ReplReq}
    {i : ℕ} (hadmin : (c p).admin = .replicating shipOrder req i)
    (hlen : (c p).server.factoriesRecord.length ≤ i)
    (hroster : Roster (Function.update c p ((c p).finishIteration shipOrder req))) :
    Lagging p (Function.update c p ((c p).finishIteration shipOrder req)) := by
  obtain ⟨hbecame, hrole⟩ := adminCommit_became h.sound.server (h.sound.serving _ _ _ hadmin)
  have hcl := h.sound.server.committed_le
  refine ⟨hroster, ?_, ?_, ?_, ?_, ?_⟩ <;>
    simp only [Function.update_self, Node.finishIteration]
  · exact h.sound.finished hadmin
  · rw [hbecame.last_eq, hbecame.log_eq, h.last_eq]
  · intro _
    rw [hbecame.committed_eq, hbecame.last_eq]
  · exact h.stale
  · intro k f hf
    rw [hrole.factoriesRecord] at hf
    have hk : k < i := (List.getElem?_eq_some_iff.mp hf).1.trans_le hlen
    have hlags := h.peers k f hf
    rw [Function.update_of_ne (h.roster.ne hf), hbecame.committed_eq]
    simp only [Node.replicatedLog, hadmin, hk, if_true] at hlags
    simpa [Node.replicatedLog, hbecame.log_eq] using hlags.mono List.prefix_rfl hcl

theorem quiet {p s : ℤ} {c : Cluster} (h : Lagging p c) {n : Node} (hsame : (c s).SameLog n)
    (hroster : Roster (Function.update c s n)) : Lagging p (Function.update c s n) := by
  have hall := hsame.update
  have hp := hall p
  refine ⟨hroster, h.sound.sameLog hp, ?_, ?_, ?_, ?_⟩
  · rw [hp.lastIndex_eq, hp.smrLog_eq]
    exact h.last_eq
  · rw [hp.admin_eq, hp.committedIndex_eq, hp.lastIndex_eq]
    exact h.committed
  · rw [hp.stale_eq]
    exact h.stale
  · intro k f hf
    rw [hp.factoriesRecord_eq] at hf
    have hlags := (h.peers k f hf).sameLog (hall f.factoryId)
    rw [hp.committedIndex_eq]
    simpa only [Node.replicatedLog, hp.admin_eq, hp.smrLog_eq] using hlags

theorem step [Zlib] {p : ℤ} {c c' : Cluster} {a : Action} (h : Lagging p c)
    (hok : Recovering p c a) (hstep : RobotFactory.step p c a = some c') : Lagging p c' := by
  have hroster := h.roster.step hstep
  cases step_cases hstep with
  | begin shipOrder connect _ hadmin => exact h.begin shipOrder connect hadmin hok hroster
  | skipped link shipOrder req i f _ hadmin hf hsocket =>
    rw [h.stale] at hroster ⊢
    exact h.passed hadmin hf true hroster
  | exchanged link shipOrder req i f _ hadmin hf hsocket hpeer _ _ result hresult =>
    obtain ⟨hlink, hworks⟩ := hok _ _ _ f hadmin hf hsocket hpeer
    have hserving := h.sound.serving _ _ _ hadmin
    have hlags := h.next_lags hadmin hf
    rw [h.stale] at hresult
    have hstale := exchange_lags_not_stale hlink hserving h.last_eq hlags hworks
    have hcaught := exchange_caught hlink hserving h.last_eq hlags hworks
    rw [hresult] at hstale hcaught
    rw [hstale] at hroster ⊢
    exact h.turn hadmin hf (hcaught.lags hserving h.last_eq hlags rfl) _ hroster
  | unanswered link shipOrder req i f _ hadmin hf hsocket hdead =>
    rw [h.stale] at hroster ⊢
    exact h.passed hadmin hf _ hroster
  | finish shipOrder req i _ hadmin hlen => exact h.finish hadmin hlen hroster
  | clientClose s => exact h.quiet (.clientClosed _) hroster
  | replicationClose s => exact h.quiet (.replicationClosed _) hroster
  | crash s => exact h.quiet (.crashed _) hroster
  | ifaTurn | restart => exact hok.elim

end Lagging

theorem lagging_run [Zlib] {p : ℤ} {c₀ c : Cluster} (hfresh : Fresh c₀)
    (hrun : Run (step p) (Recovering p) c₀ c) : Lagging p c :=
  hrun.invariant (Lagging p) (fun _ _ _ hinv hok hstep => hinv.step hok hstep)
    (lagging_of_fresh p hfresh)

/-- An acknowledgement comes from a live backup that has the request. -/
def Acknowledging (p : ℤ) (c : Cluster) (a : Action) : Prop :=
  Recovering p c a ∧ ∀ link shipOrder req i f, a = .replicate link →
    (c p).admin = .replicating shipOrder req i → (c p).server.factoriesRecord[i]? = some f →
    0 ≤ f.socket → if (c f.factoryId).alive then HonestAck link else link.NoAck

/-- The peers that the loop has passed and whose socket is left have the log. -/
def Served (p : ℤ) (c : Cluster) : Prop :=
  ∀ shipOrder req i (k : ℕ) (f : FactoryRec), (c p).admin = .replicating shipOrder req i → k < i →
    (c p).server.factoriesRecord[k]? = some f → 0 ≤ f.socket →
    (c f.factoryId).server.smrLog = (c p).server.smrLog

namespace Served

theorem turn {p : ℤ} {c : Cluster} (hroster : Roster c) (h : Served p c) {shipOrder : RobotInf}
    {req : ReplReq} {i : ℕ} {f : FactoryRec} (hadmin : (c p).admin = .replicating shipOrder req i)
    (hf : (c p).server.factoriesRecord[i]? = some f) (backup : Node) (kept stale : Bool)
    (hbackup : kept = true → 0 ≤ f.socket → backup.server.smrLog = (c p).server.smrLog) :
    Served p (Function.update (Function.update c f.factoryId backup) p
      ((c p).afterPeer shipOrder req i f kept stale)) := by
  intro o r j k g hadmin' hlt hg hsocket
  simp only [Function.update_self] at hadmin' hg ⊢
  cases hadmin'
  obtain ⟨g', hg', hid, hsame⟩ := afterPeer_getElem? hf hg
  obtain ⟨rfl, hkept⟩ := hsame hsocket
  rw [Function.update_of_ne (hroster.ne hg')]
  by_cases hki : k = i
  · subst hki
    obtain rfl : f = g' := Option.some.inj (hf.symm.trans hg')
    rw [Function.update_self]
    exact hbackup (hkept rfl) hsocket
  · rw [Function.update_of_ne fun heq => hki (hroster.position_unique hg' hf heq)]
    exact h _ _ _ k g' hadmin (by omega) hg' hsocket

theorem quiet {p s : ℤ} {c : Cluster} (h : Served p c) {n : Node} (hsame : (c s).SameLog n) :
    Served p (Function.update c s n) := by
  have hall := hsame.update
  intro o r j k f hadmin hlt hf hsocket
  rw [(hall p).admin_eq] at hadmin
  rw [(hall p).factoriesRecord_eq] at hf
  rw [(hall p).smrLog_eq, (hall f.factoryId).smrLog_eq]
  exact h o r j k f hadmin hlt hf hsocket

theorem step [Zlib] {p : ℤ} {c c' : Cluster} {a : Action} (hinv : Lagging p c) (h : Served p c)
    (hok : Acknowledging p c a) (hstep : RobotFactory.step p c a = some c') : Served p c' := by
  have hself (f : FactoryRec) : Function.update c f.factoryId (c f.factoryId) = c :=
    Function.update_eq_self ..
  cases step_cases hstep with
  | begin shipOrder connect _ hadmin =>
    intro o r j k f hadmin' hlt
    rw [Function.update_self] at hadmin'
    unfold Node.beginIteration at hadmin'
    split at hadmin'
    · rw [hadmin] at hadmin'
      cases hadmin'
    · cases hadmin'
      exact absurd hlt (Nat.not_lt_zero k)
  | skipped link shipOrder req i f _ hadmin hf hsocket =>
    have hturn := turn hinv.roster h hadmin hf (c f.factoryId) true
      ((c p).stale f.factoryId) (fun _ h0 => absurd h0 (by omega))
    rwa [hself] at hturn
  | exchanged link shipOrder req i f _ hadmin hf hsocket hpeer _ _ result hresult =>
    refine turn hinv.roster h hadmin hf _ _ _ fun hkept _ => ?_
    obtain ⟨hlink, hworks⟩ := hok.1 _ _ _ f hadmin hf hsocket hpeer
    have hhonest := hok.2 link _ _ _ f rfl hadmin hf hsocket
    rw [hpeer, if_pos rfl] at hhonest
    have hserving := hinv.sound.serving _ _ _ hadmin
    have hcaught := exchange_caught hlink hserving hinv.last_eq (hinv.next_lags hadmin hf) hworks
    rw [hinv.stale] at hresult
    rw [← hresult] at hkept ⊢
    obtain ⟨hsend, hrecv, hack, hbool⟩ := exchange_kept hlink hkept
    revert hcaught hbool
    generalize (exchange link false req (c p).server.smrLog (c f.factoryId).server).backup = after
    intro hcaught hbool
    cases hcaught with
    | missed id hlost =>
      have hfail : link.recvRequest = .failure := by simpa [hsend] using hlost
      exact absurd ⟨hack, hrecv⟩ (hhonest hfail)
    | caughtUp b' hbecame => exact hbecame.log_eq
    | faulted => cases hbool
  | unanswered link shipOrder req i f _ hadmin hf hsocket hdead =>
    have hnoAck := hok.2 link _ _ _ f rfl hadmin hf hsocket
    rw [hdead, if_neg Bool.false_ne_true] at hnoAck
    have hturn := turn hinv.roster h hadmin hf (c f.factoryId)
      (exchangeWithDead link (c p).server.smrLog) ((c p).stale f.factoryId)
      (fun hkept => by rw [exchangeWithDead_eq_false hnoAck] at hkept; cases hkept)
    rwa [hself] at hturn
  | finish =>
    intro o r j k f hadmin'
    rw [Function.update_self] at hadmin'
    cases hadmin'
  | clientClose s => exact h.quiet (.clientClosed _)
  | replicationClose s => exact h.quiet (.replicationClosed _)
  | crash s => exact h.quiet (.crashed _)
  | ifaTurn | restart => exact hok.1.elim

end Served

/-- A success acknowledgement proves replication: a backup whose socket is left
after the replication loop of an order has the entry of the order and all
entries before it. -/
theorem acknowledged_replicated [Zlib] {p : ℤ} {c₀ c : Cluster} {shipOrder : RobotInf}
    {req : ReplReq} {i : ℕ} {f : FactoryRec} (hfresh : Fresh c₀)
    (hrun : Run (step p) (Acknowledging p) c₀ c)
    (hadmin : (c p).admin = .replicating shipOrder req i)
    (hend : (c p).server.factoriesRecord.length ≤ i) (horder : shipOrder.customerId ≠ -1)
    (hf : f ∈ (c p).server.factoriesRecord) (hsocket : 0 ≤ f.socket) :
    0 ≤ req.lastIndex ∧
    (c f.factoryId).server.smrLog[req.lastIndex.toNat]? = some (Server.logEntryOf shipOrder) ∧
    ∀ j : ℕ, (j : ℤ) ≤ req.lastIndex →
      (c f.factoryId).server.smrLog[j]? = (c p).server.smrLog[j]? := by
  obtain ⟨hinv, hserved⟩ : Lagging p c ∧ Served p c := by
    refine hrun.invariant (fun d => Lagging p d ∧ Served p d) ?_ ⟨lagging_of_fresh p hfresh, ?_⟩
    · exact fun d a d' hd hok hstep => ⟨hd.1.step hok.1 hstep, .step hd.1 hd.2 hok hstep⟩
    · intro o r j k g hadmin'
      rw [hfresh.waiting p] at hadmin'
      cases hadmin'
  obtain ⟨k, hk⟩ := List.getElem?_of_mem hf
  have hk' := (List.getElem?_eq_some_iff.mp hk).1.trans_le hend
  have hlog := hserved _ _ _ k f hadmin hk' hk hsocket
  have hserving := hinv.sound.serving _ _ _ hadmin
  have hsucc := hserving.honest.order (mt hserving.order_iff.mp horder)
  have hge := hserving.honest.ge
  rw [hlog]
  refine ⟨by omega, ?_, fun _ _ => rfl⟩
  rw [hserving.entry horder, hserving.mapop_eq]

theorem RecoveryWorks.of_no_gap {link : Link} {req : ReplReq} {b : Server}
    (h : b.needsRecovery req = false) : RecoveryWorks link req b :=
  fun hneeds => absurd hneeds (by simp [h])

theorem Acknowledging.of_clean {p : ℤ} {c : Cluster} {shipOrder : RobotInf} {req : ReplReq} {i : ℕ}
    {f : FactoryRec} (hadmin : (c p).admin = .replicating shipOrder req i)
    (hf : (c p).server.factoriesRecord[i]? = some f)
    (h : 0 ≤ f.socket → RecoveryWorks Link.clean req (c f.factoryId).server) :
    Acknowledging p c (.replicate Link.clean) := by
  refine ⟨NextExchange.of_peer (P := fun req b => Link.clean.Whole ∧
    (Link.clean.sendRequest = true → Link.clean.recvRequest = .message →
      RecoveryWorks Link.clean req b)) hadmin hf
    fun hsocket => ⟨Link.clean_clean.whole, fun _ _ => h hsocket⟩, ?_⟩
  intro link o r j g hlink _ _ _
  cases hlink
  split_ifs
  · exact fun hfail => by cases hfail
  · exact Link.clean_clean.whole.noAck

theorem Acknowledging.of_broken {p : ℤ} {c : Cluster} :
    Acknowledging p c (.replicate Link.broken) := by
  refine ⟨fun _ _ _ _ _ _ _ _ => ⟨Link.broken_whole, fun hsend => (by cases hsend)⟩, ?_⟩
  intro link o r j g hlink _ _ _
  cases hlink
  split_ifs
  · exact fun hfail => by cases hfail
  · exact Link.broken_whole.noAck

theorem Acknowledging.of_begin {p : ℤ} {c : Cluster} {shipOrder : RobotInf} {connect : ℤ → ℤ}
    (hroom : (c p).server.lastIndex + 1 < intMax) : Acknowledging p c (.begin shipOrder connect) :=
  ⟨fun _ => hroom, fun _ _ _ _ _ h => by cases h⟩

theorem Acknowledging.of_finish {p : ℤ} {c : Cluster} : Acknowledging p c .finish :=
  ⟨trivial, fun _ _ _ _ _ h => by cases h⟩

theorem Acknowledging.of_clientClose {p s : ℤ} {c : Cluster} :
    Acknowledging p c (.clientClose s) :=
  ⟨trivial, fun _ _ _ _ _ h => by cases h⟩

/-- Server 1 misses an order after everything was committed. The next order
reaches it over a new connection. -/
theorem duo_reconnected : ∃ c, Run (step 0) (Acknowledging 0) duo c ∧ (c 1).alive = true ∧
    (c 0).server.factoriesRecord = [⟨1, 5⟩] ∧
    (c 0).admin = .replicating (orderOf7 3) ⟨0, 1, 2, 1, 7, 3⟩ 0 ∧
    (c 1).server.committedIndex = (c 1).server.lastIndex ∧
    (c 1).server.needsRecovery ⟨0, 1, 2, 1, 7, 3⟩ = true ∧
    (∃ c', step 0 c (.replicate Link.clean) = some c' ∧
      (c' 0).server.factoriesRecord = [⟨1, 5⟩] ∧
      (c' 0).admin = .replicating (orderOf7 3) ⟨0, 1, 2, 1, 7, 3⟩ 1) :=
  ⟨_, ((((((((((Run.start.next (a := .begin (orderOf7 1) fun _ => 5) (.of_begin (by decide))
    rfl).next (a := .replicate Link.clean) (.of_clean rfl rfl fun _ => .of_no_gap rfl) rfl).next
    (a := .finish) .of_finish rfl).next (a := .begin commitMarker fun _ => 5)
    (.of_begin (by decide)) rfl).next (a := .replicate Link.clean)
    (.of_clean rfl rfl fun _ => .of_no_gap rfl) rfl).next (a := .finish) .of_finish rfl).next
    (a := .begin (orderOf7 2) fun _ => 5) (.of_begin (by decide)) rfl).next
    (a := .replicate Link.broken) .of_broken rfl).next (a := .finish) .of_finish rfl).next
    (a := .clientClose 0) .of_clientClose rfl).next (a := .begin (orderOf7 3) fun _ => 5)
    (.of_begin (by decide)) rfl, rfl, rfl, rfl, rfl, rfl, _, rfl, rfl, rfl⟩

theorem acknowledged_replicated_duo : ∃ c : Cluster,
    (c 0).server.factoriesRecord = [⟨1, 5⟩] ∧
    (c 1).server.smrLog[2]? = some ⟨1, 7, 3⟩ ∧
    ∀ j : ℕ, (j : ℤ) ≤ 2 → (c 1).server.smrLog[j]? = (c 0).server.smrLog[j]? := by
  obtain ⟨c, hrun, -, hfactories, hadmin, hdone, -, c', hstep, hfactories', hadmin'⟩ :=
    duo_reconnected
  have hok : Acknowledging 0 c (.replicate Link.clean) :=
    .of_clean hadmin (by rw [hfactories]; rfl) fun _ _ => ⟨hdone, Link.clean_clean.toRecoveryCalls⟩
  obtain ⟨-, hentry, hagree⟩ := acknowledged_replicated (f := ⟨1, 5⟩) duo_fresh
    (hrun.next hok hstep) hadmin' (by rw [hfactories']; rfl) (by decide)
    (by rw [hfactories']; exact .head _) (by decide)
  exact ⟨c', hfactories', hentry, hagree⟩

/-- Connections are lost and made again, no process stops, every `recv` gets its whole
message, and no request is handled late. -/
def Lossy : Action → Prop
  | .replicate link => link.Whole
  | .ifaTurn .. => False
  | .crash _ => False
  | .restart .. => False
  | _ => True

/-- Server 1 has not committed the first order when it misses the second. The
recovery at the third order reads the wrong entries and is acknowledged. -/
theorem acknowledged_not_replicated : ∃ c : Cluster, Fresh duo ∧
    Run (step 0) (fun _ => Lossy) duo c ∧
    (c 0).admin = .replicating (orderOf7 3) ⟨0, 1, 2, 1, 7, 3⟩ 1 ∧
    (c 0).server.factoriesRecord = [⟨1, 5⟩] ∧
    (c 0).server.smrLog = [⟨1, 7, 1⟩, ⟨1, 7, 2⟩, ⟨1, 7, 3⟩] ∧
    (c 1).server.smrLog = [⟨1, 7, 1⟩, ⟨1, 7, 1⟩, ⟨1, 7, 2⟩] :=
  ⟨_, duo_fresh, ((((((((Run.start.next (a := .begin (orderOf7 1) fun _ => 5) trivial rfl).next
    (a := .replicate Link.clean) Link.clean_clean.whole rfl).next (a := .finish) trivial rfl).next
    (a := .begin (orderOf7 2) fun _ => 5) trivial rfl).next
    (a := .replicate Link.broken) Link.broken_whole rfl).next (a := .finish) trivial rfl).next
    (a := .clientClose 0) trivial rfl).next (a := .begin (orderOf7 3) fun _ => 5) trivial rfl).next
    (a := .replicate Link.clean) Link.clean_clean.whole rfl, rfl, rfl, rfl, rfl⟩

/-- The accesses of `ifa_thread_read` to the log: the thread ends normally, the
insert position is at most the size, and the committed index is below it. -/
structure InRange [Zlib] (ifa : IfaStub) (req : ReplReq) (b : Server) : Prop where
  insert_le : b.needsRecovery req = false → req.mapopRecord.arg1 ≠ -1 →
    0 ≤ req.lastIndex ∧ req.lastIndex ≤ b.smrLog.length
  at_lt : ∃ b', b.ifaThreadRead ifa = .ok b' ∧
    (req.committedIndex ≠ -1 → 0 ≤ req.committedIndex ∧ req.committedIndex < b'.smrLog.length)

/-- A backup accesses its log in range exactly if a marker is not one ahead. -/
theorem backup_inRange [Zlib] {p : ℤ} {c₀ c : Cluster} {link : Link} {shipOrder : RobotInf}
    {req : ReplReq} {i : ℕ} {f : FactoryRec} (hfresh : Fresh c₀)
    (hrun : Run (step p) (Recovering p) c₀ c)
    (hadmin : (c p).admin = .replicating shipOrder req i)
    (hf : (c p).server.factoriesRecord[i]? = some f) (hsocket : 0 ≤ f.socket)
    (halive : (c f.factoryId).alive = true) (hok : Recovering p c (.replicate link))
    (hsend : link.sendRequest = true) (hrecv : link.recvRequest = .message) :
    InRange (link.ifaStub req (c p).server.smrLog (c f.factoryId).server)
        req (c f.factoryId).server ↔
      (req.mapopRecord.arg1 = -1 → req.lastIndex ≠ (c f.factoryId).server.lastIndex + 1) := by
  have hinv := lagging_run hfresh hrun
  have hserving := hinv.sound.serving _ _ _ hadmin
  have hlags := hinv.next_lags hadmin hf
  have hworks := (hok _ _ _ f hadmin hf hsocket halive).2 hsend hrecv
  have hreq := hserving.last_eq
  have hlast := hinv.last_eq
  have hend := hlags.last_eq
  have hge := hserving.honest.ge
  have hifa := Link.getReplicationRequest_of_message hrecv req (c p).server.smrLog
    (c f.factoryId).server
  constructor
  · intro hrange harg hahead
    have hgap : (c f.factoryId).server.needsRecovery req = false := by
      simp only [Server.needsRecovery, decide_eq_false_iff_not]
      omega
    obtain ⟨b', hread, -⟩ := hrange.at_lt
    have hmark := hserving.honest.marker harg
    rw [ifaThreadRead_marker_ahead hifa hgap harg (by omega)] at hread
    cases hread
  · intro hmarker
    have hprepared := prepared_of_lags hserving hlast hlags hworks hmarker
    obtain ⟨b', hread, hbecame, -⟩ := ifaThreadRead_became hlags.sound hifa hserving.honest
      hprepared (by
        intro hneeds
        obtain ⟨hdone, hcalls⟩ := hworks hneeds
        exact ⟨hcalls.sendRecoveryAck, fun k => by
          rw [hcalls.recvEntry_eq hlags.sound.committed_ge, hdone]⟩)
    rw [handledLog_eq_of_prefixed hserving hlast hlags.log_prefix hend hmarker] at hbecame
    have hnear := hserving.honest.near
    refine ⟨fun hgap harg => ?_, b', hread, fun hne => ?_⟩
    · have hsucc := hserving.honest.order harg
      simp only [Server.needsRecovery, decide_eq_false_iff_not] at hgap
      omega
    · rw [hbecame.log_eq]
      omega

theorem backup_inRange_duo : ∃ c : Cluster, (c 1).server.needsRecovery ⟨0, 1, 2, 1, 7, 3⟩ = true ∧
    InRange (Link.clean.ifaStub ⟨0, 1, 2, 1, 7, 3⟩ (c 0).server.smrLog
      (c 1).server) ⟨0, 1, 2, 1, 7, 3⟩ (c 1).server := by
  obtain ⟨c, hrun, halive, hfactories, hadmin, hdone, hgap, -⟩ := duo_reconnected
  have hok : Recovering 0 c (.replicate Link.clean) :=
    (Acknowledging.of_clean hadmin (by rw [hfactories]; rfl)
      fun _ _ => ⟨hdone, Link.clean_clean.toRecoveryCalls⟩).1
  exact ⟨c, hgap, (backup_inRange (f := ⟨1, 5⟩) duo_fresh (hrun.mono fun _ _ => And.left) hadmin
    (by rw [hfactories]; rfl) (by decide) halive hok rfl rfl).mpr
      fun harg => absurd harg (by decide)⟩

/-- Server 1 misses the second order, and the marker of a client is the first
request on its new connection. -/
theorem backup_out_of_range : ∃ c : Cluster, Fresh duo ∧ Run (step 0) (fun _ => Lossy) duo c ∧
    (c 0).admin = .replicating commitMarker ⟨0, 1, 1, 1, -1, -1⟩ 0 ∧
    (c 0).server.factoriesRecord = [⟨1, 5⟩] ∧ (c 1).server.smrLog = [⟨1, 7, 1⟩] ∧
    (c 1).server.ifaThreadRead (Link.clean.ifaStub ⟨0, 1, 1, 1, -1, -1⟩
      (c 0).server.smrLog (c 1).server) = .error .outOfRange :=
  ⟨_, duo_fresh, ((((((((((Run.start.next (a := .begin (orderOf7 1) fun _ => 5) trivial rfl).next
    (a := .replicate Link.clean) Link.clean_clean.whole rfl).next (a := .finish) trivial rfl).next
    (a := .begin (orderOf7 2) fun _ => 5) trivial rfl).next
    (a := .replicate Link.broken) Link.broken_whole rfl).next (a := .finish) trivial rfl).next
    (a := .begin commitMarker fun _ => 5) trivial rfl).next
    (a := .replicate Link.clean) Link.clean_clean.whole rfl).next (a := .finish) trivial rfl).next
    (a := .clientClose 0) trivial rfl).next
    (a := .begin commitMarker fun _ => 5) trivial rfl, rfl, rfl, rfl, rfl⟩

end RobotFactory
