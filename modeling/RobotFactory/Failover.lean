import RobotFactory.Lockstep

/-!
# Agreement after a failover

A backup takes over after the primary has died in the middle of an iteration.
The survivors' logs differ by the entry in progress. A backup without it trails
the new primary; one that has it, when the new primary does not, keeps it behind
its last index for good. Two slips of the source break the agreement: a recovery
by a backup with an uncommitted entry reads the wrong entries, and a marker one
ahead of a backup raises its last index without an entry.
-/
namespace RobotFactory
open TransitionSystem

/-- The log of `b` is a prefix of `log`, or it continues `log` and the last index
of `b` is not before the end of `log`. -/
structure Server.Trails (b : Server) (log : List MapOp) : Prop where
  sound : b.Sound
  committed_lt : b.committedIndex < log.length
  log_near : (b.smrLog <+: log ∧ b.lastIndex = (b.smrLog.length : ℤ) - 1) ∨
    (log <+: b.smrLog ∧ (log.length : ℤ) - 1 ≤ b.lastIndex)

/-- The log of `b` up to its last index is `log`. -/
structure Server.Matches (b : Server) (log : List MapOp) : Prop where
  sound : b.Sound
  committed_lt : b.committedIndex < log.length
  log_prefix : log <+: b.smrLog
  last_eq : b.lastIndex = (log.length : ℤ) - 1

theorem Server.Matches.trails {b : Server} {log : List MapOp} (h : b.Matches log) :
    b.Trails log :=
  ⟨h.sound, h.committed_lt, .inr ⟨h.log_prefix, h.last_eq.ge⟩⟩

theorem Server.Trails.sameLog {n n' : Node} {log : List MapOp} (h : n.server.Trails log)
    (hsame : n.SameLog n') : n'.server.Trails log := by
  refine ⟨h.sound.sameLog hsame, ?_, ?_⟩
  · rw [hsame.committedIndex_eq]
    exact h.committed_lt
  · rw [hsame.smrLog_eq, hsame.lastIndex_eq]
    exact h.log_near

theorem Server.Matches.sameLog {n n' : Node} {log : List MapOp} (h : n.server.Matches log)
    (hsame : n.SameLog n') : n'.server.Matches log := by
  refine ⟨h.sound.sameLog hsame, ?_, ?_, ?_⟩
  · rw [hsame.committedIndex_eq]
    exact h.committed_lt
  · rw [hsame.smrLog_eq]
    exact h.log_prefix
  · rw [hsame.lastIndex_eq]
    exact h.last_eq

/-- Where the two slips do not show: a recovery starts from a state in which
everything is committed, and a marker is not exactly one ahead. -/
structure Server.Reached (b : Server) (req : ReplReq) : Prop where
  recovery : b.needsRecovery req = true → b.committedIndex = b.lastIndex
  marker : req.mapopRecord.arg1 = -1 → req.lastIndex ≠ b.lastIndex + 1

theorem prepared_of_trails {s b : Server} {shipOrder : RobotInf} {req : ReplReq}
    (hserving : s.Serving shipOrder req) (hlast : s.lastIndex = (s.smrLog.length : ℤ) - 1)
    (hb : b.Trails (s.smrLog.take (req.committedIndex + 1).toNat)) (hreached : b.Reached req) :
    b.Prepared req s.smrLog := by
  have hlen := hserving.length_take_committed hlast
  have hcommitted := hb.committed_lt
  have hreq := hserving.last_eq
  have hll := hb.sound.last_le
  have hlt := hb.sound.last_lt
  refine ⟨by omega, fun hneeds => ⟨hreached.recovery hneeds, by omega⟩, fun hgap harg => ?_⟩
  have hmark := hserving.honest.marker harg
  have hne := hreached.marker harg
  have hnear : req.lastIndex ≤ b.lastIndex + 1 := by
    simp only [Server.needsRecovery, decide_eq_false_iff_not] at hgap
    omega
  exact ⟨by omega, by omega⟩

/-- Every path of `ifa_thread_read` ends with the log of the primary. -/
theorem prefix_handledLog {s b : Server} {shipOrder : RobotInf} {req : ReplReq}
    (hserving : s.Serving shipOrder req) (hlast : s.lastIndex = (s.smrLog.length : ℤ) - 1)
    (hb : b.Trails (s.smrLog.take (req.committedIndex + 1).toNat)) (hreached : b.Reached req) :
    s.smrLog <+: b.handledLog req s.smrLog := by
  have hlen := hserving.length_take_committed hlast
  have hnear := hserving.honest.near
  rcases hb.log_near with ⟨hpre, hend⟩ | ⟨⟨rest, hrest⟩, hcover⟩
  · rw [handledLog_eq_of_prefixed hserving hlast hpre hend hreached.marker]
  · unfold Server.handledLog
    split_ifs with hgap harg
    · have hgap' : 1 < req.lastIndex - b.lastIndex := by simpa [Server.needsRecovery] using hgap
      omega
    · have hsucc := hserving.honest.order harg
      have hindex : req.lastIndex.toNat =
          (s.smrLog.take (req.committedIndex + 1).toNat).length := by omega
      rw [← hrest, hindex, ReplayLog.insertIdx_eq_take_append_drop _ _ (by simp), List.take_left,
        List.drop_left, List.append_cons, hserving.log_of_order hlast harg]
      exact List.prefix_append _ _
    · rw [hserving.log_of_marker hlast (not_not.mp harg)] at hrest
      exact ⟨rest, hrest⟩

theorem exchange_trailing [Zlib] {link : Link} (hlink : link.Clean) {s b : Server}
    {shipOrder : RobotInf} {req : ReplReq} (hserving : s.Serving shipOrder req)
    (hlast : s.lastIndex = (s.smrLog.length : ℤ) - 1)
    (hb : b.Trails (s.smrLog.take (req.committedIndex + 1).toNat)) (hreached : b.Reached req) :
    ∃ b', exchange link false req s.smrLog b = ⟨.ok b', true, false⟩ ∧ b'.Matches s.smrLog := by
  have hprepared := prepared_of_trails hserving hlast hb hreached
  obtain ⟨b', hok, hbecame, -⟩ := exchange_became hb.sound hserving.honest hprepared
    hlink.sendRequest hlink.recvRequest (fun _ => hlink.toRecoveryCalls)
  have hkept := exchange_clean_kept hlink req s.smrLog
    hb.sound.committed_ge (by rw [hok]; rfl)
  have hstale := exchange_not_stale hlink.whole req s.smrLog hb.sound.committed_ge
    fun _ => hprepared.drained
  have hnear := hserving.honest.near
  have hreq := hserving.last_eq
  have hcommitted : b'.committedIndex = req.committedIndex := hbecame.committed_eq
  have hend : b'.lastIndex = req.lastIndex := hbecame.last_eq
  refine ⟨b', Exchange.ext hok hkept hstale, hbecame.sound, by omega, ?_, by omega⟩
  rw [hbecame.log_eq]
  exact prefix_handledLog hserving hlast hb hreached

/-- The servers outside the replication by `p`: no connection of theirs holds
unread entries, and those that `p` does not know are as they were started. -/
structure Bystanders (p : ℤ) (c : Cluster) : Prop where
  stale : ∀ s, s ≠ p → ∀ id, (c s).stale id = false
  alive : ∀ s, s ≠ p → s ∉ (c p).server.peerIds → (c s).alive = true
  waiting : ∀ s, s ≠ p → s ∉ (c p).server.peerIds → (c s).admin = .waiting
  blank : ∀ s, s ≠ p → s ∉ (c p).server.peerIds → (c s).server.Blank

theorem bystanders_of_fresh [Zlib] (p : ℤ) {c : Cluster} (h : Fresh c) : Bystanders p c :=
  ⟨fun s _ => h.stale s, fun s _ _ => h.alive s, fun s _ _ => h.waiting s, fun s _ _ => h.blank s⟩

namespace Bystanders

theorem of_same {p : ℤ} {c c' : Cluster} (h : Bystanders p c)
    (hids : (c' p).server.peerIds = (c p).server.peerIds)
    (hstale : ∀ s, s ≠ p → (c' s).stale = (c s).stale)
    (hsame : ∀ s, s ≠ p → s ∉ (c p).server.peerIds → (c' s).alive = (c s).alive ∧
      (c' s).admin = (c s).admin ∧ ((c s).server.Blank → (c' s).server.Blank)) :
    Bystanders p c' := by
  refine ⟨fun s hs => ?_, fun s hs hnot => ?_, fun s hs hnot => ?_, fun s hs hnot => ?_⟩
  · rw [hstale s hs]
    exact h.stale s hs
  all_goals rw [hids] at hnot
  · rw [(hsame s hs hnot).1]
    exact h.alive s hs hnot
  · rw [(hsame s hs hnot).2.1]
    exact h.waiting s hs hnot
  · exact (hsame s hs hnot).2.2 (h.blank s hs hnot)

theorem step [Zlib] {p : ℤ} {c c' : Cluster} {a : Action} (h : Bystanders p c)
    (hok : FailureFree p c a) (hstep : RobotFactory.step p c a = some c') : Bystanders p c' := by
  have hprimary (n : Node) (hs : (Function.update c p n p).server.peerIds =
      (c p).server.peerIds) : Bystanders p (Function.update c p n) := by
    refine h.of_same hs (fun s hne => ?_) (fun s hne _ => ?_) <;> rw [Function.update_of_ne hne]
    exact ⟨rfl, rfl, id⟩
  have hquiet {t : ℤ} {n : Node} (hsame : (c t).SameLog n) (halive : n.alive = (c t).alive)
      (hallow : (c t).server.recheckAllow = true → n.server.recheckAllow = true)
      (hids : (Function.update c t n p).server.peerIds = (c p).server.peerIds) :
      Bystanders p (Function.update c t n) := by
    refine h.of_same hids (fun s _ => (hsame.update s).stale_eq) (fun s _ _ => ?_)
    by_cases hst : s = t
    · subst hst
      rw [Function.update_self]
      refine ⟨halive, hsame.admin_eq, fun hblank => ⟨hblank.sound.sameLog hsame, ?_, ?_, ?_, ?_⟩⟩
      · exact hsame.smrLog_eq.trans hblank.log_eq
      · exact hsame.lastIndex_eq.trans hblank.last_eq
      · exact hsame.committedIndex_eq.trans hblank.committed_eq
      · exact hallow hblank.recheckAllow_eq
    · rw [Function.update_of_ne hst]
      exact ⟨rfl, rfl, id⟩
  have hids := step_peerIds hstep p
  cases step_cases hstep with
  | begin => exact hprimary _ hids
  | skipped => exact hprimary _ hids
  | unanswered => exact hprimary _ hids
  | finish => exact hprimary _ hids
  | exchanged _ _ _ _ f _ _ hf _ _ _ hne result _ =>
    refine h.of_same hids (fun s hs => ?_) (fun s hs hnot => ?_) <;> rw [Function.update_of_ne hs]
    · by_cases hid : s = f.factoryId
      · subst hid
        rw [Function.update_self]
        unfold Node.afterExchange
        cases result.backup <;> rfl
      · rw [Function.update_of_ne hid]
    · have hid : s ≠ f.factoryId := by
        rintro rfl
        exact hnot (List.mem_map_of_mem (List.mem_of_getElem? hf))
      rw [Function.update_of_ne hid]
      exact ⟨rfl, rfl, id⟩
  | clientClose t => exact hquiet (.clientClosed _) rfl (fun _ => rfl) hids
  | replicationClose t => exact hquiet (.replicationClosed _) rfl id hids
  | ifaTurn | crash | restart => exact hok.elim

end Bystanders

/-- All servers but `p` live, and none of them but `n` runs an iteration. -/
structure Survivors (p n : ℤ) (c : Cluster) : Prop where
  fallen : (c p).alive = false
  living : ∀ s, s ≠ p → (c s).alive = true
  idle : ∀ s, s ≠ p → s ≠ n → (c s).admin = .waiting

theorem Survivors.update {p n m : ℤ} {c : Cluster} {node : Node} (h : Survivors p n c) (hm : m ≠ p)
    (halive : node.alive = true) (hidle : m ≠ n → node.admin = .waiting) :
    Survivors p n (Function.update c m node) := by
  refine ⟨?_, fun s hs => ?_, fun s hs hsn => ?_⟩
  · rw [Function.update_of_ne hm.symm]
    exact h.fallen
  · by_cases hsm : s = m
    · rw [hsm, Function.update_self]
      exact halive
    · rw [Function.update_of_ne hsm]
      exact h.living s hs
  · by_cases hsm : s = m
    · rw [hsm, Function.update_self]
      exact hidle (hsm ▸ hsn)
    · rw [Function.update_of_ne hsm]
      exact h.idle s hs hsn

/-- The invariant after `p` has died and `n` has taken over. -/
structure Succession (p n : ℤ) (c : Cluster) : Prop where
  ne : n ≠ p
  survivors : Survivors p n c
  roster : Roster c
  sound : (c n).Sound
  last_eq : (c n).server.lastIndex = ((c n).server.smrLog.length : ℤ) - 1
  committed : (c n).admin = .waiting →
    (c n).server.recheckAllow = true ∨ (c n).server.committedIndex = (c n).server.lastIndex
  stale : ∀ id, (c n).stale id = false
  connected : (∀ f ∈ (c n).server.factoriesRecord, f.factoryId ≠ p → 0 ≤ f.socket) ∨
    ((c n).server.recheckAllow = true ∧ (c n).admin = .waiting)
  peers : ∀ (k : ℕ) (f : FactoryRec), (c n).server.factoriesRecord[k]? = some f →
    f.factoryId ≠ p → (c f.factoryId).server.Trails ((c n).replicatedLog k)
  served : ∀ shipOrder req i (k : ℕ) (f : FactoryRec),
    (c n).admin = .replicating shipOrder req i → k < i →
    (c n).server.factoriesRecord[k]? = some f → 0 ≤ f.socket →
    f.factoryId ≠ p ∧ (c f.factoryId).server.Matches (c n).server.smrLog

/-- `n` reaches every live server and no call fails. -/
def Reconnected (n : ℤ) (c : Cluster) : Action → Prop
  | .begin _ connect => ∀ f ∈ (c n).server.factoriesRecord, (c f.factoryId).alive = true →
      0 < connect f.factoryId
  | .replicate link => link.Clean
  | .crash _ => False
  | .restart .. => False
  | _ => True

/-- The slips do not show in the exchange that `n` is about to make, and no request of
the old primary is handled late. -/
def Unslipped (n : ℤ) (c : Cluster) : Action → Prop
  | .replicate _ => NextExchange n c fun req b => b.Reached req
  | .ifaTurn .. => False
  | _ => True

/-- What two peers of a primary that dies in its iteration know of each other. -/
theorem trails_of_follows {n : Node} (hsound : n.Sound)
    (hlast : n.server.lastIndex = (n.server.smrLog.length : ℤ) - 1) {j k : ℕ} {a b : Node}
    (ha : n.Follows j a) (hb : n.Follows k b) : b.server.Trails a.server.smrLog := by
  have hholds := hb.holds
  have hcl := hb.holds.sound.committed_le
  rw [ha.holds.log_eq]
  by_cases hpre : n.replicatedLog k <+: n.replicatedLog j
  · have hle := hpre.length_le
    have hend := hholds.last_eq
    rw [← hholds.log_eq] at hpre hend
    refine ⟨hholds.sound, ?_, .inl ⟨hpre, hend⟩⟩
    rw [hholds.log_eq] at hend
    omega
  · cases hadmin : n.admin with
    | waiting =>
      simp only [Node.replicatedLog, hadmin] at hpre
      exact absurd List.prefix_rfl hpre
    | replicating o req i =>
      have hserving := hsound.serving _ _ _ hadmin
      have hlen := hserving.length_take_committed hlast
      by_cases hk : k < i
      · have hserved := hb.served _ _ _ hadmin hk
        by_cases hj : j < i
        · simp only [Node.replicatedLog, hadmin, hk, hj, if_true] at hpre
          exact absurd List.prefix_rfl hpre
        · have hfull := hholds.last_eq
          have hlog := hholds.log_eq
          simp only [Node.replicatedLog, hadmin, hk, if_true] at hfull hlog
          have hnear := hserving.honest.near
          have hreq := hserving.last_eq
          simp only [Node.replicatedLog, hadmin, hj, if_false]
          refine ⟨hholds.sound, by omega, .inr ⟨?_, by omega⟩⟩
          rw [hlog]
          exact List.take_prefix _ _
      · by_cases hj : j < i
        · simp only [Node.replicatedLog, hadmin, hk, hj, if_true, if_false] at hpre
          exact absurd (List.take_prefix _ _) hpre
        · simp only [Node.replicatedLog, hadmin, hk, hj, if_false] at hpre
          exact absurd List.prefix_rfl hpre

theorem succession_of_crash [Zlib] {p : ℤ} {c c' : Cluster} (h : Lockstep p c)
    (hby : Bystanders p c) (hcrash : step p c (.crash p) = some c') {f₀ : FactoryRec}
    (hf₀ : f₀ ∈ (c p).server.factoriesRecord) : Succession p f₀.factoryId c' := by
  obtain ⟨j, hj⟩ := List.getElem?_of_mem hf₀
  have hne := h.roster.ne hj
  have hfirst := h.peers j f₀ hj
  have hroster := h.roster.step hcrash
  have hdead : (c' p).alive = false := by
    cases step_cases hcrash with
    | crash => rw [Function.update_self]
  have hsame : ∀ s, s ≠ p → c' s = c s := by
    intro s hs
    cases step_cases hcrash with
    | crash => exact Function.update_of_ne hs ..
  have hknown : ∀ s, s ∈ (c p).server.peerIds → ∃ k, (c p).Follows k (c s) := by
    intro s hs
    obtain ⟨f, hf, rfl⟩ := List.mem_map.mp hs
    obtain ⟨k, hk⟩ := List.getElem?_of_mem hf
    exact ⟨k, h.peers k f hk⟩
  have hn := hsame _ hne
  refine ⟨hne, ⟨hdead, ?_, ?_⟩, hroster, ?_, ?_, ?_, ?_, ?_, ?_, ?_⟩ <;> try rw [hn]
  · intro s hs
    rw [hsame s hs]
    by_cases hmem : s ∈ (c p).server.peerIds
    · obtain ⟨k, hk⟩ := hknown s hmem
      exact hk.alive
    · exact hby.alive s hs hmem
  · intro s hs _
    rw [hsame s hs]
    by_cases hmem : s ∈ (c p).server.peerIds
    · obtain ⟨k, hk⟩ := hknown s hmem
      exact hk.waiting
    · exact hby.waiting s hs hmem
  · exact .waiting hfirst.holds.sound hfirst.waiting
  · rw [hfirst.holds.last_eq, hfirst.holds.log_eq]
  · exact fun _ => .inl hfirst.recheckAllow
  · exact hby.stale _ hne
  · exact .inr ⟨hfirst.recheckAllow, hfirst.waiting⟩
  · intro k f _ hfp
    rw [hsame _ hfp]
    simp only [Node.replicatedLog, hfirst.waiting]
    by_cases hmem : f.factoryId ∈ (c p).server.peerIds
    · obtain ⟨i, hi⟩ := hknown _ hmem
      exact trails_of_follows h.sound h.last_eq hfirst hi
    · have hblank := hby.blank _ hfp hmem
      refine ⟨hblank.sound, ?_, .inl ⟨?_, ?_⟩⟩
      · rw [hblank.committed_eq]
        omega
      · rw [hblank.log_eq]
        exact List.nil_prefix
      · rw [hblank.log_eq, hblank.last_eq]
        rfl
  · intro o req i k f hadmin
    rw [hfirst.waiting] at hadmin
    cases hadmin

namespace Succession

theorem sockets {p n : ℤ} {c : Cluster} (h : Succession p n c) {shipOrder : RobotInf}
    {req : ReplReq} {i : ℕ} (hadmin : (c n).admin = .replicating shipOrder req i) :
    ∀ f ∈ (c n).server.factoriesRecord, f.factoryId ≠ p → 0 ≤ f.socket := by
  refine h.connected.resolve_right fun ⟨_, hwait⟩ => ?_
  rw [hadmin] at hwait
  cases hwait

theorem begin [Zlib] {p n : ℤ} {c : Cluster} (h : Succession p n c) (shipOrder : RobotInf)
    {connect : ℤ → ℤ} (hconnect : ∀ f ∈ (c n).server.factoriesRecord,
      (c f.factoryId).alive = true → 0 < connect f.factoryId) (hadmin : (c n).admin = .waiting)
    (hroom : (c n).server.HasRoom shipOrder)
    (hroster : Roster (Function.update c n ((c n).beginIteration shipOrder connect))) :
    Succession p n (Function.update c n ((c n).beginIteration shipOrder connect)) := by
  obtain ⟨s', hnode, hbegan⟩ :=
    beginIteration_began shipOrder connect h.sound.server (h.committed hadmin) hroom.canCount
  have hge := h.sound.server.committed_ge
  have hcl := h.sound.server.committed_le
  have halive := h.survivors.living n h.ne
  have htake := hbegan.take_committed h.last_eq
  have hfactories := hbegan.factories_eq
  rw [hnode] at hroster ⊢
  refine ⟨h.ne, h.survivors.update h.ne halive fun hne => absurd rfl hne, hroster, ?_, ?_, ?_, ?_,
    .inl ?_, ?_, ?_⟩ <;> simp only [Function.update_self]
  · exact .began hbegan
  · exact hbegan.last_is_end (by omega) h.last_eq
  · intro hwait
    cases hwait
  · exact h.stale
  · intro f hf hfp
    rw [hfactories] at hf
    obtain ⟨k, hk⟩ := List.getElem?_of_mem hf
    obtain ⟨g, hg, hid, hsame, hnew⟩ := recheckedFactories_getElem? hk
    have hmem := List.mem_of_getElem? hg
    rcases h.connected with hsocket | ⟨hallow, -⟩
    · have hg0 := hsocket g hmem (hid ▸ hfp)
      exact (hsame hg0).symm ▸ hg0
    · exact hnew hallow (hconnect g hmem (h.survivors.living _ (hid ▸ hfp)))
  · intro k f hf hfp
    rw [hfactories] at hf
    obtain ⟨g, hg, hid, -⟩ := recheckedFactories_getElem? hf
    have htrails := h.peers k g hg (hid ▸ hfp)
    have hfn : f.factoryId ≠ n := hid ▸ h.roster.ne hg
    rw [Function.update_of_ne hfn, ← hid]
    simp only [Node.replicatedLog, hadmin] at htrails
    simpa [Node.replicatedLog, Server.sendReq, htake] using htrails
  · intro o req i k f heq hlt
    cases heq
    exact absurd hlt (Nat.not_lt_zero k)

theorem passed {p n : ℤ} {c : Cluster} (h : Succession p n c) {shipOrder : RobotInf}
    {req : ReplReq} {i : ℕ} {f : FactoryRec} (hadmin : (c n).admin = .replicating shipOrder req i)
    (hf : (c n).server.factoriesRecord[i]? = some f) (hfp : f.factoryId = p) (kept : Bool)
    (hkept : kept = true → f.socket < 0)
    (hroster : Roster (Function.update c n ((c n).afterPeer shipOrder req i f kept false))) :
    Succession p n (Function.update c n ((c n).afterPeer shipOrder req i f kept false)) := by
  have halive := h.survivors.living n h.ne
  have hsame : ∀ (k : ℕ) (g : FactoryRec), k ≠ i →
      ((c n).afterPeer shipOrder req i f kept false).server.factoriesRecord[k]? = some g →
      (c n).server.factoriesRecord[k]? = some g := by
    intro k g hk hg
    rwa [afterPeer_getElem?_ne hk] at hg
  have hpeer : ∀ (g : FactoryRec),
      ((c n).afterPeer shipOrder req i f kept false).server.factoriesRecord[i]? = some g →
      g.factoryId = p ∧ g.socket < 0 := by
    intro g hg
    rw [afterPeer_getElem?_self hf] at hg
    obtain rfl := Option.some.inj hg
    cases kept with
    | true => exact ⟨hfp, hkept rfl⟩
    | false => exact ⟨hfp, Int.negSucc_lt_zero 0⟩
  refine ⟨h.ne, h.survivors.update h.ne halive fun hne => absurd rfl hne, hroster, ?_, ?_, ?_, ?_,
    .inl ?_, ?_, ?_⟩ <;> simp only [Function.update_self]
  · exact h.sound.afterPeer hadmin f kept false
  · exact h.last_eq
  · intro hwait
    cases hwait
  · exact fun id => afterPeer_stale (h.stale id)
  · intro g hg hgp
    obtain ⟨k, hk⟩ := List.getElem?_of_mem hg
    by_cases hki : k = i
    · subst hki
      exact absurd (hpeer g hk).1 hgp
    · exact h.sockets hadmin g (List.mem_of_getElem? (hsame k g hki hk)) hgp
  · intro k g hg hgp
    have hki : k ≠ i := fun hki => hgp (hpeer g (hki ▸ hg)).1
    have hold := hsame k g hki hg
    have htrails := h.peers k g hold hgp
    have hiff : k < i + 1 ↔ k < i := by omega
    rw [Function.update_of_ne (h.roster.ne hold)]
    simp only [Node.replicatedLog, hadmin] at htrails
    simpa [Node.replicatedLog, Node.afterPeer, hiff] using htrails
  · intro o req' j k g heq hlt hg hsocket
    cases heq
    have hki : k ≠ i := by
      intro hki
      have := (hpeer g (hki ▸ hg)).2
      omega
    have hold := hsame k g hki hg
    rw [Function.update_of_ne (h.roster.ne hold)]
    exact h.served _ _ _ k g hadmin (by omega) hold hsocket

theorem exchanged [Zlib] {p n : ℤ} {c : Cluster} (h : Succession p n c) {link : Link}
    (hlink : link.Clean) {shipOrder : RobotInf} {req : ReplReq} {i : ℕ} {f : FactoryRec}
    (hadmin : (c n).admin = .replicating shipOrder req i)
    (hf : (c n).server.factoriesRecord[i]? = some f) (hpeer : (c f.factoryId).alive = true)
    (hreached : (c f.factoryId).server.Reached req) {result : Exchange}
    (hresult : exchange link ((c n).stale f.factoryId) req (c n).server.smrLog
      (c f.factoryId).server = result)
    (hroster : Roster (Function.update
      (Function.update c f.factoryId ((c f.factoryId).afterExchange result.backup))
      n ((c n).afterPeer shipOrder req i f result.kept result.stale))) :
    Succession p n (Function.update
      (Function.update c f.factoryId ((c f.factoryId).afterExchange result.backup))
      n ((c n).afterPeer shipOrder req i f result.kept result.stale)) := by
  have hserving := h.sound.serving _ _ _ hadmin
  have hfp : f.factoryId ≠ p := by
    intro hfp
    rw [hfp, h.survivors.fallen] at hpeer
    cases hpeer
  have halive := h.survivors.living n h.ne
  have hfn := h.roster.ne hf
  have htrails := h.peers i f hf hfp
  simp only [Node.replicatedLog, hadmin, lt_irrefl, if_false] at htrails
  obtain ⟨b', hexchange, hmatches⟩ := exchange_trailing hlink hserving h.last_eq htrails hreached
  rw [h.stale, hexchange] at hresult
  subst hresult
  have hb : Survivors p n (Function.update c f.factoryId
      ((c f.factoryId).afterExchange (.ok b'))) :=
    h.survivors.update hfp hpeer fun hne => h.survivors.idle _ hfp hne
  refine ⟨h.ne, hb.update h.ne halive fun hne => absurd rfl hne, hroster, ?_, ?_, ?_, ?_, .inl ?_,
    ?_, ?_⟩ <;> simp only [Function.update_self]
  · exact h.sound.afterPeer hadmin f true false
  · exact h.last_eq
  · intro hwait
    cases hwait
  · exact fun id => afterPeer_stale (h.stale id)
  · exact h.sockets hadmin
  · intro k g hg hgp
    have hgn := h.roster.ne hg
    rw [Function.update_of_ne hgn]
    by_cases hki : k = i
    · subst hki
      obtain rfl : f = g := Option.some.inj (hf.symm.trans hg)
      rw [Function.update_self]
      simpa [Node.replicatedLog, Node.afterPeer, Node.afterExchange] using hmatches.trails
    · have hid : g.factoryId ≠ f.factoryId := fun hid => hki (h.roster.position_unique hg hf hid)
      have hold := h.peers k g hg hgp
      have hiff : k < i + 1 ↔ k < i := by omega
      rw [Function.update_of_ne hid]
      simp only [Node.replicatedLog, hadmin] at hold
      simpa [Node.replicatedLog, Node.afterPeer, hiff] using hold
  · intro o req' j k g heq hlt hg hsocket
    cases heq
    have hgn := h.roster.ne hg
    rw [Function.update_of_ne hgn]
    by_cases hki : k = i
    · subst hki
      obtain rfl : f = g := Option.some.inj (hf.symm.trans hg)
      rw [Function.update_self]
      exact ⟨hfp, hmatches⟩
    · have hid : g.factoryId ≠ f.factoryId := fun hid => hki (h.roster.position_unique hg hf hid)
      rw [Function.update_of_ne hid]
      exact h.served _ _ _ k g hadmin (by omega) hg hsocket

theorem finish {p n : ℤ} {c : Cluster} (h : Succession p n c) {shipOrder : RobotInf} {req : ReplReq}
    {i : ℕ} (hadmin : (c n).admin = .replicating shipOrder req i)
    (hlen : (c n).server.factoriesRecord.length ≤ i)
    (hroster : Roster (Function.update c n ((c n).finishIteration shipOrder req))) :
    Succession p n (Function.update c n ((c n).finishIteration shipOrder req)) := by
  obtain ⟨hbecame, hrole⟩ := adminCommit_became h.sound.server (h.sound.serving _ _ _ hadmin)
  have halive := h.survivors.living n h.ne
  have hfactories := hrole.factoriesRecord
  refine ⟨h.ne, h.survivors.update h.ne halive fun hne => absurd rfl hne, hroster, ?_, ?_, ?_, ?_,
    .inl ?_, ?_, ?_⟩ <;> simp only [Function.update_self]
  · exact h.sound.finished hadmin
  · simp only [Node.finishIteration]
    rw [hbecame.last_eq, hbecame.log_eq, h.last_eq]
  · intro _
    refine .inr ?_
    simp only [Node.finishIteration]
    rw [hbecame.committed_eq, hbecame.last_eq]
  · exact h.stale
  · simp only [Node.finishIteration, hfactories]
    exact h.sockets hadmin
  · intro k f hf hfp
    simp only [Node.finishIteration, hfactories] at hf
    have hk : k < i := (List.getElem?_eq_some_iff.mp hf).1.trans_le hlen
    have htrails := h.peers k f hf hfp
    rw [Function.update_of_ne (h.roster.ne hf)]
    simp only [Node.replicatedLog, hadmin, hk, if_true] at htrails
    simpa [Node.replicatedLog, Node.finishIteration, hbecame.log_eq] using htrails
  · intro o req' j k f heq
    cases heq

theorem sameLog {p n s : ℤ} {c : Cluster} {node : Node} (h : Succession p n c)
    (hs : (c s).alive = true) (hsame : (c s).SameLog node) (halive : node.alive = true)
    (hallow : (c s).server.recheckAllow = true → node.server.recheckAllow = true)
    (hroster : Roster (Function.update c s node)) :
    Succession p n (Function.update c s node) := by
  have hsp : s ≠ p := by
    intro hsp
    rw [hsp, h.survivors.fallen] at hs
    cases hs
  have htrails : ∀ t log, (c t).server.Trails log →
      (Function.update c s node t).server.Trails log := fun t log ht =>
    ht.sameLog (hsame.update t)
  have hmatches : ∀ t log, (c t).server.Matches log →
      (Function.update c s node t).server.Matches log := fun t log ht =>
    ht.sameLog (hsame.update t)
  have hsurvivors : Survivors p n (Function.update c s node) :=
    h.survivors.update hsp halive fun hne => hsame.admin_eq.trans (h.survivors.idle s hsp hne)
  by_cases hsn : s = n
  · subst hsn
    have hlog (k : ℕ) : node.replicatedLog k = (c s).replicatedLog k := by
      simp only [Node.replicatedLog, hsame.admin_eq, hsame.smrLog_eq]
    refine ⟨h.ne, hsurvivors, hroster, ?_, ?_, ?_, ?_, ?_, ?_, ?_⟩ <;>
      simp only [Function.update_self]
    · exact h.sound.sameLog hsame
    · rw [hsame.lastIndex_eq, hsame.smrLog_eq]
      exact h.last_eq
    · rw [hsame.admin_eq, hsame.committedIndex_eq, hsame.lastIndex_eq]
      exact fun hwait => (h.committed hwait).imp_left hallow
    · rw [hsame.stale_eq]
      exact h.stale
    · rw [hsame.factoriesRecord_eq, hsame.admin_eq]
      exact h.connected.imp_right fun hwait => ⟨hallow hwait.1, hwait.2⟩
    · intro k f hf hfp
      rw [hsame.factoriesRecord_eq] at hf
      rw [hlog]
      exact htrails _ _ (h.peers k f hf hfp)
    · intro o req i k f hadmin hlt hf hsocket
      rw [hsame.factoriesRecord_eq] at hf
      rw [hsame.smrLog_eq]
      exact (h.served o req i k f (hsame.admin_eq ▸ hadmin) hlt hf hsocket).imp_right
        (hmatches _ _)
  · have hn : Function.update c s node n = c n := Function.update_of_ne (Ne.symm hsn) ..
    refine ⟨h.ne, hsurvivors, hroster, ?_, ?_, ?_, ?_, ?_, ?_, ?_⟩ <;> simp only [hn]
    · exact h.sound
    · exact h.last_eq
    · exact h.committed
    · exact h.stale
    · exact h.connected
    · exact fun k f hf hfp => htrails _ _ (h.peers k f hf hfp)
    · intro o req i k f hadmin hlt hf hsocket
      exact (h.served o req i k f hadmin hlt hf hsocket).imp_right (hmatches _ _)

/-- One step of the new primary keeps the survivors together. -/
theorem step [Zlib] {p n : ℤ} {c c' : Cluster} {a : Action} (h : Succession p n c)
    (hok : Reconnected n c a) (hslip : Unslipped n c a) (hroom : RoomLeft n c a)
    (hstep : RobotFactory.step n c a = some c') : Succession p n c' := by
  have hroster := h.roster.step hstep
  have hgone : ∀ {f : FactoryRec}, (c f.factoryId).alive = false → f.factoryId = p := by
    intro f hdead
    by_contra hfp
    rw [h.survivors.living _ hfp] at hdead
    cases hdead
  cases step_cases hstep with
  | begin shipOrder connect _ hadmin => exact h.begin shipOrder hok hadmin hroom hroster
  | skipped link shipOrder req i f _ hadmin hf hsocket =>
    have hfp : f.factoryId = p := by
      by_contra hfp
      have hconnected := h.sockets hadmin f (List.mem_of_getElem? hf) hfp
      omega
    rw [h.stale] at hroster ⊢
    exact h.passed hadmin hf hfp true (fun _ => hsocket) hroster
  | exchanged link shipOrder req i f _ hadmin hf hsocket hpeer _ _ result hresult =>
    exact h.exchanged hok hadmin hf hpeer (hslip _ _ _ f hadmin hf hsocket hpeer) hresult hroster
  | unanswered link shipOrder req i f _ hadmin hf hsocket hdead =>
    have hlink : link.Clean := hok
    have hkept := exchangeWithDead_eq_false hlink.whole.noAck (c n).server.smrLog
    rw [h.stale, hkept] at hroster ⊢
    exact h.passed hadmin hf (hgone hdead) false (fun heq => by cases heq) hroster
  | finish shipOrder req i _ hadmin hlen => exact h.finish hadmin hlen hroster
  | ifaTurn => exact hslip.elim
  | clientClose s hs => exact h.sameLog hs (.clientClosed _) hs (fun _ => rfl) hroster
  | replicationClose s hs => exact h.sameLog hs (.replicationClosed _) hs id hroster
  | crash | restart => exact hok.elim

end Succession

/-- A step of the new primary in a run without further failures, in which the slips do
not show, no late request is handled, and the log has room. -/
def Succeeded (n : ℤ) (c : Cluster) (a : Action) : Prop :=
  Reconnected n c a ∧ Unslipped n c a ∧ RoomLeft n c a

theorem succession_run [Zlib] {p : ℤ} {c₀ c c' d : Cluster} {f₀ : FactoryRec} (hfresh : Fresh c₀)
    (hrun : Run (step p) (FailureFree p) c₀ c) (hcrash : step p c (.crash p) = some c')
    (hf₀ : f₀ ∈ (c p).server.factoriesRecord)
    (hrun' : Run (step f₀.factoryId) (Succeeded f₀.factoryId) c' d) :
    Succession p f₀.factoryId d := by
  have hby : Bystanders p c := hrun.invariant (Bystanders p)
    (fun _ _ _ hinv hok hstep => hinv.step hok hstep) (bystanders_of_fresh p hfresh)
  exact hrun'.invariant (Succession p f₀.factoryId)
    (fun _ _ _ hinv hok hstep => hinv.step hok.1 hok.2.1 hok.2.2 hstep)
    (succession_of_crash (lockstep_run hfresh hrun) hby hcrash hf₀)

/-- The log of a backup agrees with the primary's up to the last index, and its
record is the replay of as much of the primary's log as it has committed. -/
structure Server.Agrees (primary b : Server) : Prop where
  last_eq : b.lastIndex = primary.lastIndex
  log_eq : b.smrLog.take (primary.lastIndex + 1).toNat =
    primary.smrLog.take (primary.lastIndex + 1).toNat
  replayed : b.customerRecord = replayRecord (primary.smrLog.take (b.committedIndex + 1).toNat)

theorem Server.Matches.agrees {primary b : Server} (h : b.Matches primary.smrLog)
    (hlast : primary.lastIndex = (primary.smrLog.length : ℤ) - 1) : primary.Agrees b := by
  obtain ⟨rest, hrest⟩ := h.log_prefix
  have hlt := h.committed_lt
  have hend : (primary.lastIndex + 1).toNat = primary.smrLog.length := by omega
  refine ⟨h.last_eq.trans hlast.symm, ?_, ?_⟩
  · rw [← hrest, hend, List.take_left, List.take_length]
  · rw [replayed_record h.sound, ← hrest, List.take_append_of_le_length (by omega)]

/-- Agreement after a failover. After each iteration of the new primary every
live backup is connected, and every connected backup is alive and agrees. -/
theorem failover_agreement [Zlib] {p : ℤ} {c₀ c c' d d' : Cluster} {f₀ : FactoryRec}
    (hfresh : Fresh c₀) (hrun : Run (step p) (fun e a => FailureFree p e a ∧ RoomLeft p e a) c₀ c)
    (hcrash : step p c (.crash p) = some c') (hf₀ : f₀ ∈ (c p).server.factoriesRecord)
    (hrun' : Run (step f₀.factoryId) (Succeeded f₀.factoryId) c' d)
    (hfinish : step f₀.factoryId d .finish = some d') :
    ∀ f ∈ (d' f₀.factoryId).server.factoriesRecord,
      (f.factoryId ≠ p → 0 ≤ f.socket) ∧
      (0 ≤ f.socket → (d' f.factoryId).alive = true ∧
        (d' f₀.factoryId).server.Agrees (d' f.factoryId).server) := by
  have hinv := succession_run hfresh (hrun.mono fun _ _ => And.left) hcrash hf₀ hrun'
  have hinv' := hinv.step (a := .finish) trivial trivial trivial hfinish
  intro f hf
  obtain ⟨k, hk⟩ := List.getElem?_of_mem hf
  cases step_cases hfinish with
  | finish shipOrder req i _ hadmin hlen =>
    refine ⟨fun hfp => ?_, fun hsocket => ?_⟩
    · rcases hinv'.connected with hall | ⟨hallow, hwait⟩
      · exact hall f hf hfp
      · rcases hinv.connected with hall | ⟨-, hwait⟩
        · have hrole := (adminCommit_became hinv.sound.server
            (hinv.sound.serving _ _ _ hadmin)).2.factoriesRecord
          simp only [Function.update_self, Node.finishIteration, hrole] at hf
          exact hall f hf hfp
        · rw [hadmin] at hwait
          cases hwait
    · obtain ⟨hbecame, hrole⟩ := adminCommit_became hinv.sound.server
        (hinv.sound.serving _ _ _ hadmin)
      have hk' := hk
      simp only [Function.update_self, Node.finishIteration, hrole.factoriesRecord] at hk'
      have hki : k < i := (List.getElem?_eq_some_iff.mp hk').1.trans_le hlen
      obtain ⟨hfp, hmatches⟩ := hinv.served _ _ _ k f hadmin hki hk' hsocket
      refine ⟨hinv'.survivors.living _ hfp, ?_⟩
      rw [Function.update_self, Function.update_of_ne (hinv.roster.ne hk')]
      refine Server.Matches.agrees ?_ ?_ <;> simp only [Node.finishIteration]
      · rw [hbecame.log_eq]
        exact hmatches
      · rw [hbecame.last_eq, hbecame.log_eq, hinv.last_eq]

theorem Server.Reached.of_order {b : Server} {req : ReplReq} (hgap : b.needsRecovery req = false)
    (harg : req.mapopRecord.arg1 ≠ -1) : b.Reached req :=
  ⟨fun hneeds => absurd hneeds (by simp [hgap]), fun hmark => absurd hmark harg⟩

theorem Reconnected.of_pair {n : ℤ} {c : Cluster} {shipOrder : RobotInf} {connect : ℤ → ℤ}
    {f g : FactoryRec} (hfactories : (c n).server.factoriesRecord = [f, g])
    (hf : (c f.factoryId).alive = true → 0 < connect f.factoryId)
    (hg : (c g.factoryId).alive = true → 0 < connect g.factoryId) :
    Reconnected n c (.begin shipOrder connect) := by
  intro x hx
  rw [hfactories, List.mem_pair] at hx
  rcases hx with rfl | rfl
  · exact hf
  · exact hg

theorem Unslipped.of_peer {n : ℤ} {c : Cluster} {link : Link} {shipOrder : RobotInf} {req : ReplReq}
    {i : ℕ} {f : FactoryRec} (hadmin : (c n).admin = .replicating shipOrder req i)
    (hf : (c n).server.factoriesRecord[i]? = some f)
    (h : 0 ≤ f.socket → (c f.factoryId).server.Reached req) : Unslipped n c (.replicate link) :=
  NextExchange.of_peer (P := fun req b => b.Reached req) hadmin hf h

def withoutZero (id : ℤ) : ℤ := if id = 0 then -1 else 5

/-- Server 0 dies after it has sent its first order to server 1 only, and server 2
takes over. -/
theorem failover_agreement_trio : ∃ d' : Cluster,
    (d' 2).server.smrLog = [⟨1, 7, 2⟩] ∧ (d' 1).server.smrLog = [⟨1, 7, 2⟩, ⟨1, 7, 1⟩] ∧
    (d' 2).server.Agrees (d' 1).server := by
  have hrun : ∃ c c' d d', Run (step 0) (fun e a => FailureFree 0 e a ∧ RoomLeft 0 e a) trio c ∧
      step 0 c (.crash 0) = some c' ∧ Run (step 2) (Succeeded 2) c' d ∧
      step 2 d .finish = some d' ∧ (c 0).server.factoriesRecord = [⟨1, 5⟩, ⟨2, 5⟩] ∧
      (d' 2).server.factoriesRecord = [⟨0, -1⟩, ⟨1, 5⟩] ∧
      (d' 2).server.smrLog = [⟨1, 7, 2⟩] ∧ (d' 1).server.smrLog = [⟨1, 7, 2⟩, ⟨1, 7, 1⟩] :=
    ⟨_, _, _, _, (Run.start.next (a := .begin (orderOf7 1) fun _ => 5)
      ⟨fun _ _ => (by decide : (0 : ℤ) < 5), fun _ => by decide⟩ rfl).next
      (a := .replicate Link.clean) ⟨Link.clean_clean, trivial⟩ rfl, rfl,
      ((Run.start.next (a := .begin (orderOf7 2) withoutZero)
        ⟨.of_pair rfl (fun halive => by cases halive) (fun _ => by decide), trivial,
          fun _ => by decide⟩ rfl).next
        (a := .replicate Link.clean) ⟨Link.clean_clean,
          .of_peer rfl rfl fun hsocket => absurd hsocket (by decide), trivial⟩ rfl).next
        (a := .replicate Link.clean)
        ⟨Link.clean_clean, .of_peer rfl rfl fun _ => .of_order rfl (by decide), trivial⟩ rfl,
      rfl, rfl, rfl, rfl, rfl⟩
  obtain ⟨c, c', d, d', hrun, hcrash, hrun', hfinish, hfactories, hfactories', hlog, hlog'⟩ := hrun
  have hagrees := failover_agreement trio_fresh hrun hcrash
    (show ⟨2, 5⟩ ∈ (c 0).server.factoriesRecord by simp [hfactories]) hrun' hfinish ⟨1, 5⟩
    (by simp [hfactories'])
  exact ⟨d', hlog, hlog', (hagrees.2 (by decide)).2⟩

/-- Server 0 dies after it has sent its second order to server 1 only. The next
order of server 1 makes server 2 recover with an uncommitted entry: the entries
it is sent start at index 0, and it stores them from index 1 on. -/
theorem failover_disagreement : ∃ c c' d d' : Cluster, Fresh trio ∧
    Run (step 0) (FailureFree 0) trio c ∧ step 0 c (.crash 0) = some c' ∧
    (c 0).server.factoriesRecord = [⟨1, 5⟩, ⟨2, 5⟩] ∧
    Run (step 1) (Reconnected 1) c' d ∧ step 1 d .finish = some d' ∧
    (d' 1).server.factoriesRecord = [⟨0, -1⟩, ⟨2, 5⟩] ∧ (d' 2).alive = true ∧
    (d' 1).server.lastIndex = 2 ∧
    (d' 1).server.smrLog = [⟨1, 7, 1⟩, ⟨1, 7, 2⟩, ⟨1, 7, 3⟩] ∧
    (d' 2).server.smrLog = [⟨1, 7, 1⟩, ⟨1, 7, 1⟩, ⟨1, 7, 2⟩] :=
  ⟨_, _, _, _, trio_fresh, (((((Run.start.next (a := .begin (orderOf7 1) fun _ => 5)
      (fun _ _ => (by decide : (0 : ℤ) < 5)) rfl).next
      (a := .replicate Link.clean) Link.clean_clean rfl).next
      (a := .replicate Link.clean) Link.clean_clean rfl).next (a := .finish) trivial rfl).next
      (a := .begin (orderOf7 2) fun _ => 5) (fun _ _ => (by decide : (0 : ℤ) < 5)) rfl).next
      (a := .replicate Link.clean) Link.clean_clean rfl, rfl, rfl,
    ((Run.start.next (a := .begin (orderOf7 3) withoutZero)
      (Reconnected.of_pair rfl (fun halive => by cases halive) (fun _ => by decide)) rfl).next
      (a := .replicate Link.clean) Link.clean_clean rfl).next
      (a := .replicate Link.clean) Link.clean_clean rfl, rfl, rfl, rfl, rfl, rfl, rfl⟩

end RobotFactory
