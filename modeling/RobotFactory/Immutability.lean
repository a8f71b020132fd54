import RobotFactory.Acknowledgement
import RobotFactory.Inversion
import RobotFactory.ServerMessages

/-!
# Committed entries under changes of the primary

One live server at a time acts as primary, and after its crash another one takes
over. Nothing in the source compares the logs at that moment: a server that has
less in its log than another one has committed inserts its orders in front of
committed entries. And a recovery can leave entries unread, which the backup's thread
then takes for a request. Where a server takes over only if its last index reaches
every committed index, and every request that is handled is one that a primary makes
and not older than what the backup has committed, committed entries stay where they are.
-/
namespace RobotFactory
open TransitionSystem

structure Routed where
  primary : ℤ
  cluster : Cluster

/-- A step of the system, or another server becoming primary. -/
inductive RoutedAction where
  | act (a : Action)
  | takeover (s : ℤ)

/-- `get_master_node` turns to another live server once the primary is dead. -/
def routedStep [Zlib] (r : Routed) : RoutedAction → Option Routed
  | .act a => (step r.primary r.cluster a).map fun c => ⟨r.primary, c⟩
  | .takeover s =>
    if (r.cluster r.primary).alive = false ∧ (r.cluster s).alive = true then
      some { r with primary := s }
    else none

/-- `s'` has all that `s` had committed, at the same indices. -/
structure Server.Keeps (s s' : Server) : Prop where
  committed_le : s.committedIndex ≤ s'.committedIndex
  entry_eq : ∀ i : ℕ, (i : ℤ) ≤ s.committedIndex → ∀ e, s.smrLog[i]? = some e →
    s'.smrLog[i]? = some e

namespace Server.Keeps

theorem refl (s : Server) : s.Keeps s := ⟨le_rfl, fun _ _ _ => id⟩

theorem trans {s t u : Server} (h : s.Keeps t) (h' : t.Keeps u) : s.Keeps u :=
  ⟨h.committed_le.trans h'.committed_le, fun i hi e he =>
    h'.entry_eq i (hi.trans h.committed_le) e (h.entry_eq i hi e he)⟩

theorem of_take {s s' : Server} {n : ℕ} (hle : s.committedIndex ≤ s'.committedIndex)
    (hn : s.committedIndex < n) (htake : s'.smrLog.take n = s.smrLog.take n) : s.Keeps s' := by
  refine ⟨hle, fun i hi e he => ?_⟩
  have hlt : i < n := by omega
  rw [← List.getElem?_take_of_lt hlt, htake, List.getElem?_take_of_lt hlt]
  exact he

theorem of_sameLog {n n' : Node} (h : n.SameLog n') : n.server.Keeps n'.server :=
  ⟨h.committedIndex_eq.ge, fun i _ e he => by rw [h.smrLog_eq]; exact he⟩

end Server.Keeps

/-- A request from a primary that has committed as much keeps what is committed. -/
theorem ifaThreadRead_keeps [Zlib] {ifa : IfaStub} {req : ReplReq} {s s' : Server}
    (hifa : ifa.getReplicationRequest = some req) (hreq : req.Honest) (hge : -1 ≤ s.committedIndex)
    (hcl : s.committedIndex ≤ s.lastIndex) (hle : s.committedIndex ≤ req.committedIndex)
    (h : s.ifaThreadRead ifa = .ok s') :
    s.Keeps s' ∧ s'.lastIndex = req.lastIndex ∧ s'.committedIndex = req.committedIndex := by
  rw [Server.ifaThreadRead_of_some hifa] at h
  obtain ⟨r, hreceive, hstore⟩ := bind_eq_ok.mp h
  obtain ⟨hlog, hlast, hsome, hnone⟩ := ifaStore_eq_ok hstore
  have hnear := hreq.near
  have htake := ifaReceive_take (n := (s.committedIndex + 1).toNat) (by omega)
    (fun harg => by have := hreq.order harg; omega) hreceive
  have hcommitted : s'.committedIndex = req.committedIndex := by
    by_cases hneg : req.committedIndex = -1
    · have hgap : s.needsRecovery req = false := by
        simp only [Server.needsRecovery, decide_eq_false_iff_not]
        omega
      have := ifaReceive_committed hgap hreceive
      have := hnone hneg
      omega
    · exact hsome hneg
  refine ⟨.of_take (by omega) (n := (s.committedIndex + 1).toNat) (by omega) ?_, hlast, hcommitted⟩
  rw [hlog, htake]

structure Node.Indexed (n : Node) : Prop where
  ge : -1 ≤ n.server.committedIndex
  le : n.server.committedIndex ≤ n.server.lastIndex

/-- A server that has not been primary. -/
structure Node.Standby (n : Node) : Prop where
  waiting : n.alive = true → n.admin = .waiting
  recheckAllow : n.alive = true → n.server.recheckAllow = true

/-- The primary commits all it has before it sends a request. -/
structure Node.Leading (n : Node) : Prop where
  waiting : n.alive = true → n.admin = .waiting →
    n.server.recheckAllow = true ∨ n.server.committedIndex = n.server.lastIndex
  replicating : n.alive = true → ∀ shipOrder req i, n.admin = .replicating shipOrder req i →
    req = n.server.sendReq shipOrder ∧ req.Honest

theorem Node.Standby.of_dead {n : Node} (h : n.alive = false) : n.Standby := by
  refine ⟨fun halive => ?_, fun halive => ?_⟩ <;> simp [h] at halive

theorem Node.Leading.of_dead {n : Node} (h : n.alive = false) : n.Leading := by
  refine ⟨fun halive => ?_, fun halive => ?_⟩ <;> simp [h] at halive

/-- The committed index that no other server exceeds. -/
def Node.ceiling (n : Node) : ℤ :=
  match n.admin with
  | .waiting => n.server.lastIndex
  | .replicating _ req _ => req.committedIndex

/-- The invariant of a primary `p` among the other servers. -/
structure Ordered (p : ℤ) (c : Cluster) : Prop where
  indexed : ∀ s, (c s).Indexed
  standby : ∀ s, s ≠ p → (c s).Standby
  leading : (c p).Leading
  bounded : (c p).alive = true → ∀ s, s ≠ p → (c s).alive = true →
    (c s).server.committedIndex ≤ (c p).ceiling

/-- A request as a primary makes it, that commits no less than `s` has committed and no
more than the primary `p`. -/
structure Timely (p : ℤ) (c : Cluster) (req : ReplReq) (s : ℤ) : Prop where
  honest : req.Honest
  committed_le : (c s).server.committedIndex ≤ req.committedIndex
  le_ceiling : (c p).alive = true → req.committedIndex ≤ (c p).ceiling

/-- Every request is received whole, one that is handled outside the exchanges is a timely
one, and the log has room; restarts are left out. A server takes over only if its log
reaches what every live server has committed. -/
def Succeeding (r : Routed) : RoutedAction → Prop
  | .act (.begin shipOrder _) => (r.cluster r.primary).server.HasRoom shipOrder
  | .act (.replicate link) => NextExchange r.primary r.cluster fun _ _ => link.recvRequest.Whole
  | .act (.ifaTurn s ifa _) => s ≠ r.primary ∧ ∀ req, ifa.getReplicationRequest = some req →
      Timely r.primary r.cluster req s
  | .act (.restart ..) => False
  | .act _ => True
  | .takeover s => ∀ t, (r.cluster t).alive = true →
      (r.cluster t).server.committedIndex ≤ (r.cluster s).server.lastIndex

theorem ordered_of_fresh [Zlib] (p : ℤ) {c : Cluster} (h : Fresh c) : Ordered p c where
  indexed s := ⟨(h.blank s).committed_eq.ge, by rw [(h.blank s).committed_eq, (h.blank s).last_eq]⟩
  standby s _ := ⟨fun _ => h.waiting s, fun _ => (h.blank s).recheckAllow_eq⟩
  leading := by
    refine ⟨fun _ _ => .inl (h.blank p).recheckAllow_eq, ?_⟩
    intro _ o req i hadmin
    rw [h.waiting p] at hadmin
    cases hadmin
  bounded _ s _ _ := by
    simp only [Node.ceiling, h.waiting p]
    rw [(h.blank s).committed_eq, (h.blank p).last_eq]

namespace Ordered

theorem update_primary {p : ℤ} {c : Cluster} (h : Ordered p c) {n : Node} (hindexed : n.Indexed)
    (hleading : n.Leading)
    (hceiling : n.alive = true → (c p).alive = true ∧ (c p).ceiling ≤ n.ceiling) :
    Ordered p (Function.update c p n) := by
  refine ⟨Cluster.update_all (fun _ => Node.Indexed) h.indexed hindexed, fun s hs => ?_, ?_,
    fun halive s hs hlive => ?_⟩
  · rw [Function.update_of_ne hs]
    exact h.standby s hs
  · rw [Function.update_self]
    exact hleading
  · rw [Function.update_self] at halive ⊢
    rw [Function.update_of_ne hs] at hlive ⊢
    exact (h.bounded (hceiling halive).1 s hs hlive).trans (hceiling halive).2

theorem update_backup {p s : ℤ} {c : Cluster} (h : Ordered p c) (hsp : s ≠ p) {n : Node}
    (hindexed : n.Indexed) (hstandby : n.Standby)
    (hbound : n.alive = true → (c p).alive = true → n.server.committedIndex ≤ (c p).ceiling) :
    Ordered p (Function.update c s n) := by
  refine ⟨Cluster.update_all (fun _ => Node.Indexed) h.indexed hindexed,
    Cluster.update_all (fun t m => t ≠ p → m.Standby) h.standby fun _ => hstandby, ?_,
    fun halive t ht hlive => ?_⟩
  · rw [Function.update_of_ne hsp.symm]
    exact h.leading
  · rw [Function.update_of_ne hsp.symm] at halive ⊢
    by_cases hts : t = s
    · rw [hts, Function.update_self] at hlive ⊢
      exact hbound hlive halive
    · rw [Function.update_of_ne hts] at hlive ⊢
      exact h.bounded halive t ht hlive

theorem begin [Zlib] {p : ℤ} {c : Cluster} (h : Ordered p c) (shipOrder : RobotInf)
    (connect : ℤ → ℤ) (halive : (c p).alive = true) (hadmin : (c p).admin = .waiting) :
    Ordered p (Function.update c p ((c p).beginIteration shipOrder connect)) ∧
      (c p).server.Keeps ((c p).beginIteration shipOrder connect).server := by
  have hindexed := h.indexed p
  have hge := hindexed.ge
  have hle := hindexed.le
  unfold Node.beginIteration
  cases hs : (c p).server.adminRecheck connect >>= Server.adminAppend shipOrder with
  | error fault =>
    exact ⟨h.update_primary ⟨hge, hle⟩ (.of_dead rfl) (fun hdead => by cases hdead), .refl _⟩
  | ok s' =>
    obtain ⟨r, hrecheck, happend⟩ := bind_eq_ok.mp hs
    obtain ⟨hlog, hlast, hcommitted⟩ :=
      adminRecheck_eq_ok hge hle (h.leading.waiting halive hadmin) hrecheck
    obtain ⟨htake, hlast', hcommitted'⟩ := adminAppend_eq_ok happend
    have hnew : s'.committedIndex = (c p).server.lastIndex := hcommitted'.trans hcommitted
    have hkeeps : (c p).server.Keeps s' := by
      refine .of_take (n := (r.lastIndex + 1).toNat) (by omega) (by omega) ?_
      rw [htake, hlog]
    have hindexed' : -1 ≤ s'.committedIndex ∧ s'.committedIndex ≤ s'.lastIndex := by
      rw [hlast']
      split_ifs <;> omega
    refine ⟨h.update_primary ⟨hindexed'.1, hindexed'.2⟩ ?_ fun _ => ⟨halive, ?_⟩, hkeeps⟩
    · refine ⟨fun _ hwait => (by cases hwait), ?_⟩
      intro _ o req i heq
      cases heq
      refine ⟨rfl, hindexed'.1, fun horder => ?_, fun hmark => ?_⟩
      · have hne : shipOrder.customerId ≠ -1 := horder
        rw [if_pos hne] at hlast'
        simp only [Server.sendReq]
        omega
      · have heq : shipOrder.customerId = -1 := hmark
        rw [if_neg (not_not.mpr heq)] at hlast'
        simp only [Server.sendReq]
        omega
    · simp only [Node.ceiling, hadmin, Server.sendReq]
      exact hnew.ge

theorem afterPeer {p : ℤ} {c : Cluster} (h : Ordered p c) {shipOrder : RobotInf} {req : ReplReq}
    {i : ℕ} (f : FactoryRec) (halive : (c p).alive = true)
    (hadmin : (c p).admin = .replicating shipOrder req i) (kept stale : Bool) :
    Ordered p (Function.update c p ((c p).afterPeer shipOrder req i f kept stale)) := by
  have hindexed := h.indexed p
  refine h.update_primary ⟨hindexed.1, hindexed.2⟩ ⟨fun _ hwait => ?_, ?_⟩
    fun _ => ⟨halive, ?_⟩
  · cases hwait
  · intro _ o r j heq
    cases heq
    exact h.leading.replicating halive _ _ _ hadmin
  · simp only [Node.ceiling, Node.afterPeer, hadmin, le_refl]

theorem afterTurn [Zlib] {p : ℤ} {c : Cluster} (h : Ordered p c) {s : ℤ} (hsp : s ≠ p)
    (hlive : (c s).alive = true) {ifa : IfaStub} {sendAck : Bool}
    (hreq : ∀ req, ifa.getReplicationRequest = some req → Timely p c req s) :
    Ordered p (Function.update c s
        ((c s).afterExchange ((c s).server.ifaThreadTurn sendAck ifa))) ∧
      (c s).server.Keeps
        ((c s).afterExchange ((c s).server.ifaThreadTurn sendAck ifa)).server := by
  have hindexed := h.indexed s
  have hstandby := h.standby s hsp
  cases hbackup : (c s).server.ifaThreadTurn sendAck ifa with
  | error fault =>
    exact ⟨h.update_backup hsp ⟨hindexed.1, hindexed.2⟩ (.of_dead rfl)
      (fun hdead => by cases hdead), .refl _⟩
  | ok s' =>
    have hrole := ifaThreadTurn_sameRole hbackup
    obtain ⟨r, hread, hturn⟩ := bind_eq_ok.mp hbackup
    suffices hr : (c s).server.Keeps r ∧ -1 ≤ r.committedIndex ∧
        r.committedIndex ≤ r.lastIndex ∧
        ((c p).alive = true → r.committedIndex ≤ (c p).ceiling) by
      have hsame : s'.smrLog = r.smrLog ∧ s'.committedIndex = r.committedIndex ∧
          s'.lastIndex = r.lastIndex := by
        cases hturn
        split_ifs <;> exact ⟨rfl, rfl, rfl⟩
      obtain ⟨hlog, hcommitted, hlast⟩ := hsame
      refine ⟨h.update_backup hsp ⟨?_, ?_⟩ ⟨hstandby.1, ?_⟩ ?_, ?_, ?_⟩ <;>
        simp only [Node.afterExchange]
      · exact hcommitted ▸ hr.2.1
      · rw [hcommitted, hlast]
        exact hr.2.2.1
      · exact fun _ => hrole.recheckAllow.trans (hstandby.recheckAllow hlive)
      · exact fun _ hp => hcommitted ▸ hr.2.2.2 hp
      · exact hcommitted ▸ hr.1.committed_le
      · exact hlog ▸ hr.1.entry_eq
    cases hget : ifa.getReplicationRequest with
    | none =>
      rw [Server.ifaThreadRead_of_none hget] at hread
      cases hread
      exact ⟨⟨le_rfl, fun _ _ _ => id⟩, hindexed.ge, hindexed.le,
        fun hp => h.bounded hp s hsp hlive⟩
    | some req =>
      have htimely := hreq req hget
      obtain ⟨hkeeps, hlast, hcommitted⟩ := ifaThreadRead_keeps hget htimely.honest hindexed.1
        hindexed.2 htimely.committed_le hread
      have hge := htimely.honest.ge
      have hnear := htimely.honest.near
      exact ⟨hkeeps, by omega, by omega, fun hp => hcommitted ▸ htimely.le_ceiling hp⟩

theorem finish {p : ℤ} {c : Cluster} (h : Ordered p c) {shipOrder : RobotInf} {req : ReplReq}
    {i : ℕ} (halive : (c p).alive = true) (hadmin : (c p).admin = .replicating shipOrder req i) :
    Ordered p (Function.update c p ((c p).finishIteration shipOrder req)) ∧
      (c p).server.Keeps ((c p).finishIteration shipOrder req).server := by
  have hindexed := h.indexed p
  have hge := hindexed.ge
  have hle := hindexed.le
  obtain ⟨hreq, hhonest⟩ := h.leading.replicating halive _ _ _ hadmin
  have hcommitted : req.committedIndex = (c p).server.committedIndex := by rw [hreq]; rfl
  have hlast : req.lastIndex = (c p).server.lastIndex := by rw [hreq]; rfl
  have hdone : ((c p).server.adminCommit shipOrder).lastIndex = (c p).server.lastIndex ∧
      ((c p).server.adminCommit shipOrder).committedIndex = (c p).server.lastIndex ∧
      ((c p).server.adminCommit shipOrder).smrLog = (c p).server.smrLog := by
    unfold Server.adminCommit
    by_cases horder : shipOrder.customerId = -1
    · have hmark := hhonest.marker (by rw [hreq]; exact horder)
      rw [if_neg (not_not.mpr horder)]
      exact ⟨rfl, by omega, rfl⟩
    · rw [if_pos horder]
      exact ⟨rfl, rfl, rfl⟩
  obtain ⟨hl, hc, hlog⟩ := hdone
  refine ⟨h.update_primary ⟨?_, ?_⟩ ⟨fun _ _ => .inr ?_, ?_⟩
    fun _ => ⟨halive, ?_⟩, ?_, ?_⟩ <;> simp only [Node.finishIteration]
  · omega
  · omega
  · omega
  · intro _ o r j heq
    cases heq
  · simp only [Node.ceiling, hadmin]
    omega
  · omega
  · intro j _ e he
    rw [hlog]
    exact he

theorem quiet {p s : ℤ} {c : Cluster} (h : Ordered p c) {n : Node} (hsame : (c s).SameLog n)
    (halive : n.alive = true → (c s).alive = true)
    (hallow : (c s).server.recheckAllow = true → n.server.recheckAllow = true) :
    Ordered p (Function.update c s n) := by
  have hindexed : n.Indexed := by
    refine ⟨?_, ?_⟩ <;> rw [hsame.committedIndex_eq]
    · exact (h.indexed s).ge
    · rw [hsame.lastIndex_eq]
      exact (h.indexed s).le
  by_cases hsp : s = p
  · subst hsp
    refine h.update_primary hindexed ⟨fun hn hwait => ?_, fun hn o req i hadmin => ?_⟩
      fun hn => ⟨halive hn, ?_⟩
    · rw [hsame.admin_eq] at hwait
      rw [hsame.committedIndex_eq, hsame.lastIndex_eq]
      exact (h.leading.waiting (halive hn) hwait).imp_left hallow
    · rw [hsame.admin_eq] at hadmin
      obtain ⟨hreq, hhonest⟩ := h.leading.replicating (halive hn) _ _ _ hadmin
      refine ⟨hreq.trans ?_, hhonest⟩
      simp only [Server.sendReq, hsame.committedIndex_eq, hsame.lastIndex_eq, hsame.myFactoryId_eq]
    · simp only [Node.ceiling, hsame.admin_eq, hsame.lastIndex_eq, le_refl]
  · have hstandby := h.standby s hsp
    refine h.update_backup hsp hindexed ⟨fun hn => ?_, fun hn => ?_⟩ fun hn hp => ?_
    · rw [hsame.admin_eq]
      exact hstandby.waiting (halive hn)
    · exact hallow (hstandby.recheckAllow (halive hn))
    · rw [hsame.committedIndex_eq]
      exact h.bounded hp s hsp (halive hn)

theorem step [Zlib] {p : ℤ} {c c' : Cluster} {a : Action} (h : Ordered p c)
    (hok : Succeeding ⟨p, c⟩ (.act a)) (hstep : RobotFactory.step p c a = some c') :
    Ordered p c' ∧ ∀ s, (c s).server.Keeps (c' s).server := by
  have hkeeps {d : Cluster} {t : ℤ} {n : Node} (ht : (d t).server.Keeps n.server) (s : ℤ) :
      (d s).server.Keeps (Function.update d t n s).server :=
    Cluster.update_all (fun u m => (d u).server.Keeps m.server) (fun _ => .refl _) ht s
  cases step_cases hstep with
  | begin shipOrder connect halive hadmin =>
    obtain ⟨hordered, hp⟩ := h.begin shipOrder connect halive hadmin
    exact ⟨hordered, hkeeps hp⟩
  | skipped link shipOrder req i f halive hadmin =>
    exact ⟨h.afterPeer f halive hadmin true _, hkeeps ⟨le_rfl, fun _ _ _ => id⟩⟩
  | exchanged link shipOrder req i f halive hadmin hf hsocket hpeer _ hne result hresult =>
    have hwhole : link.recvRequest.Whole := hok _ _ _ f hadmin hf hsocket hpeer
    obtain ⟨-, hhonest⟩ := h.leading.replicating halive _ _ _ hadmin
    have hbound := h.bounded halive f.factoryId hne hpeer
    simp only [Node.ceiling, hadmin] at hbound
    have htimely : Timely p c req f.factoryId :=
      ⟨hhonest, hbound, fun _ => by simp only [Node.ceiling, hadmin, le_refl]⟩
    obtain ⟨hordered, hbackup⟩ : Ordered p (Function.update c f.factoryId
        ((c f.factoryId).afterExchange result.backup)) ∧ (c f.factoryId).server.Keeps
        ((c f.factoryId).afterExchange result.backup).server := by
      rw [← hresult]
      rcases exchange_backup link ((c p).stale f.factoryId) req (c p).server.smrLog
        (c f.factoryId).server with hsame | ⟨-, -, hturn⟩
      · rw [hsame]
        exact ⟨by simpa [Node.afterExchange] using h, .refl _⟩
      · rw [hturn]
        refine h.afterTurn hne hpeer fun received hreceived => ?_
        obtain ⟨-, hreq⟩ := hwhole.read_eq_some hreceived
        exact Option.some.inj hreq ▸ htimely
    have hsame : Function.update c f.factoryId ((c f.factoryId).afterExchange result.backup) p =
        c p := Function.update_of_ne hne.symm ..
    have hturn := hordered.afterPeer f ((congrArg Node.alive hsame).trans halive)
      ((congrArg Node.admin hsame).trans hadmin) result.kept result.stale
    rw [hsame] at hturn
    refine ⟨hturn, fun s => (hkeeps hbackup s).trans (hkeeps ?_ s)⟩
    rw [hsame]
    exact ⟨le_rfl, fun _ _ _ => id⟩
  | unanswered link shipOrder req i f halive hadmin =>
    exact ⟨h.afterPeer f halive hadmin _ _, hkeeps ⟨le_rfl, fun _ _ _ => id⟩⟩
  | finish shipOrder req i halive hadmin =>
    obtain ⟨hordered, hp⟩ := h.finish halive hadmin
    exact ⟨hordered, hkeeps hp⟩
  | ifaTurn s ifa sendAck halive =>
    obtain ⟨hordered, hs⟩ := h.afterTurn hok.1 halive hok.2
    exact ⟨hordered, hkeeps hs⟩
  | clientClose s halive =>
    exact ⟨h.quiet (.clientClosed _) (fun _ => halive) fun _ => rfl,
      hkeeps (.of_sameLog (.clientClosed _))⟩
  | replicationClose s halive =>
    exact ⟨h.quiet (.replicationClosed _) (fun _ => halive) id,
      hkeeps (.of_sameLog (.replicationClosed _))⟩
  | crash s halive =>
    exact ⟨h.quiet (.crashed _) (fun _ => halive) id, hkeeps (.of_sameLog (.crashed _))⟩
  | restart => exact hok.elim

theorem takeover {p q : ℤ} {c : Cluster} (h : Ordered p c) (hdead : (c p).alive = false)
    (hlive : (c q).alive = true) (hreach : ∀ t, (c t).alive = true →
      (c t).server.committedIndex ≤ (c q).server.lastIndex) : Ordered q c := by
  have hqp : q ≠ p := by
    intro hqp
    rw [hqp, hdead] at hlive
    cases hlive
  have hstandby := h.standby q hqp
  refine ⟨h.indexed, fun s _ => ?_, ⟨?_, ?_⟩, fun _ s _ hs => ?_⟩
  · by_cases hsp : s = p
    · exact .of_dead (hsp ▸ hdead)
    · exact h.standby s hsp
  · exact fun hq _ => .inl (hstandby.recheckAllow hq)
  · intro hq o req i hadmin
    rw [hstandby.waiting hq] at hadmin
    cases hadmin
  · simp only [Node.ceiling, hstandby.waiting hlive]
    exact hreach s hs

end Ordered

theorem ordered_step [Zlib] {r r' : Routed} {a : RoutedAction} (h : Ordered r.primary r.cluster)
    (hok : Succeeding r a) (hstep : routedStep r a = some r') :
    Ordered r'.primary r'.cluster ∧
      ∀ s, (r.cluster s).server.Keeps (r'.cluster s).server := by
  cases a with
  | act a =>
    obtain ⟨c', hc', rfl⟩ := Option.map_eq_some_iff.mp hstep
    exact h.step hok hc'
  | takeover q =>
    simp only [routedStep, Option.ite_none_right_eq_some, Option.some.injEq] at hstep
    obtain ⟨⟨hdead, hlive⟩, rfl⟩ := hstep
    exact ⟨h.takeover hdead hlive hok, fun s => .refl _⟩

theorem ordered_run [Zlib] {p : ℤ} {c : Cluster} {r : Routed} (hfresh : Fresh c)
    (hrun : Run routedStep Succeeding ⟨p, c⟩ r) : Ordered r.primary r.cluster :=
  hrun.invariant (fun r => Ordered r.primary r.cluster)
    (fun _ _ _ hinv hok hstep => (ordered_step hinv hok hstep).1) (ordered_of_fresh p hfresh)

/-- Committed entries are immutable where only a server that reaches every
committed index takes over: in every later state they are at their indices, and
no committed index has decreased. -/
theorem committed_immutable [Zlib] {p : ℤ} {c : Cluster} {r r' : Routed} (hfresh : Fresh c)
    (hrun : Run routedStep Succeeding ⟨p, c⟩ r) (hlater : Run routedStep Succeeding r r') (s : ℤ) :
    (r.cluster s).server.committedIndex ≤ (r'.cluster s).server.committedIndex ∧
    ∀ i : ℕ, (i : ℤ) ≤ (r.cluster s).server.committedIndex → ∀ e,
      (r.cluster s).server.smrLog[i]? = some e → (r'.cluster s).server.smrLog[i]? = some e := by
  have hinv := ordered_run hfresh hrun
  have hkeeps := hlater.related (fun r => Ordered r.primary r.cluster)
    (fun r r' => ∀ s, (r.cluster s).server.Keeps (r'.cluster s).server)
    (fun r s => .refl _) (fun _ _ _ h h' s => (h s).trans (h' s))
    (fun _ _ _ hinv hok hstep => ordered_step hinv hok hstep) hinv s
  exact ⟨hkeeps.committed_le, hkeeps.entry_eq⟩

theorem Succeeding.of_begin {r : Routed} {shipOrder : RobotInf} {connect : ℤ → ℤ}
    (h : (r.cluster r.primary).server.lastIndex + 1 < intMax) :
    Succeeding r (.act (.begin shipOrder connect)) := fun _ => h

theorem Succeeding.of_clean {r : Routed} : Succeeding r (.act (.replicate Link.clean)) :=
  fun _ _ _ _ _ _ _ _ => Link.clean_clean.whole.recvRequest

/-- Between iterations no server has committed more than the primary has stored. -/
theorem Succeeding.of_crash {p q : ℤ} {c : Cluster} (h : Ordered p c) (halive : (c p).alive = true)
    (hadmin : (c p).admin = .waiting) (hlast : (c p).server.lastIndex ≤ (c q).server.lastIndex)
    (hqp : q ≠ p) :
    Succeeding ⟨p, Function.update c p { c p with alive := false }⟩ (.takeover q) := by
  intro t ht
  have htp : t ≠ p := by
    rintro rfl
    simp at ht
  have hbound := h.bounded halive t htp (by simpa [Function.update_of_ne htp] using ht)
  simp only [Node.ceiling, hadmin] at hbound
  simp only [Function.update_of_ne htp, Function.update_of_ne hqp]
  exact hbound.trans hlast

/-- Server 1 takes over after server 0 has died with one committed order. -/
theorem committed_immutable_trio : ∃ r r' : Routed,
    (r.cluster 2).server.committedIndex = 0 ∧ (r'.cluster 2).server.committedIndex = 0 ∧
    (r'.cluster 2).server.lastIndex = 1 ∧ (r'.cluster 2).server.smrLog[0]? = some ⟨1, 7, 1⟩ := by
  have hrun : ∃ r r', Run routedStep Succeeding ⟨0, trio⟩ r ∧ Run routedStep Succeeding r r' ∧
      (r.cluster 2).server.committedIndex = 0 ∧ (r.cluster 2).server.smrLog = [⟨1, 7, 1⟩] ∧
      (r'.cluster 2).server.committedIndex = 0 ∧ (r'.cluster 2).server.lastIndex = 1 := by
    have hfirst : Run routedStep Succeeding ⟨0, trio⟩ _ :=
      (((((((Run.start.next (a := .act (.begin (orderOf7 1) fun _ => 5)) (.of_begin (by decide))
      rfl).next (a := .act (.replicate Link.clean)) .of_clean rfl).next
      (a := .act (.replicate Link.clean)) .of_clean rfl).next
      (a := .act .finish) trivial rfl).next
      (a := .act (.begin commitMarker fun _ => 5)) (.of_begin (by decide)) rfl).next
      (a := .act (.replicate Link.clean)) .of_clean rfl).next
      (a := .act (.replicate Link.clean)) .of_clean rfl).next
      (a := .act .finish) trivial rfl
    have hordered := ordered_run trio_fresh hfirst
    exact ⟨_, _, hfirst, ((((Run.start.next (a := .act (.crash 0)) trivial rfl).next
      (a := .takeover 1) (Succeeding.of_crash hordered rfl rfl (by decide) (by decide)) rfl).next
      (a := .act (.begin (orderOf7 2) withoutZero)) (.of_begin (by decide)) rfl).next
      (a := .act (.replicate Link.clean)) .of_clean rfl).next
      (a := .act (.replicate Link.clean)) .of_clean rfl, rfl, rfl, rfl, rfl⟩
  obtain ⟨r, r', hrun, hlater, hcommitted, hlog, hcommitted', hlast⟩ := hrun
  refine ⟨r, r', hcommitted, hcommitted', hlast, ?_⟩
  exact (committed_immutable trio_fresh hrun hlater 2).2 0 (by rw [hcommitted]; decide) _
    (by rw [hlog]; rfl)

/-- Every `recv` gets its whole message, no request is handled late, and dead servers stay
dead. -/
def Surviving : RoutedAction → Prop
  | .act (.replicate link) => link.Whole
  | .act (.ifaTurn ..) => False
  | .act (.restart ..) => False
  | _ => True

def orderOf0 (orderNumber : Int32) : RobotInf := ⟨0, orderNumber, 1, 100, -1⟩

/-- What the thread of server 1 finds on its connection: the entry that its recovery has
left unread, and the request of the primary behind it. -/
def leftoverBytes : List UInt8 :=
  mapOpCodec.encode ⟨1, 0, 3⟩ ++ replRequestCodec.encode ⟨0, 2, 3, ⟨1, 0, 4⟩⟩

/-- The request that it reads from them. -/
def leftoverStub : IfaStub where
  getReplicationRequest := some (replRequestCodec.decode (leftoverBytes.take 24)).toReplReq
  recoveryAck := true
  recvEntry _ := none

/-- Server 1 misses the second order. The recovery at the third one sends it three
entries, of which it reads two. When the request of the fourth order arrives, its thread
reads the third entry and the first half of that request for a request, and takes its
committed index back from 1 to 0. Server 0 is primary all the time, and no call fails but
the send of the second order. -/
theorem committed_decreased : ∃ r r' r'' : Routed, Fresh trio ∧
    Run routedStep (fun _ => Surviving) ⟨0, trio⟩ r ∧
    (r.cluster 0).admin = .replicating (orderOf0 3) ⟨0, 1, 2, 1, 0, 3⟩ 0 ∧
    Link.clean.entriesSent (r.cluster 0).server.smrLog (some 2)
      (some (r.cluster 1).server.committedIndex) = [⟨1, 0, 1⟩, ⟨1, 0, 2⟩, ⟨1, 0, 3⟩] ∧
    Link.clean.recoveryCount ⟨0, 1, 2, 1, 0, 3⟩ (r.cluster 0).server.smrLog
      (r.cluster 1).server = some 2 ∧
    Run routedStep (fun _ => Surviving) r r' ∧
    (r'.cluster 0).admin = .replicating (orderOf0 4) ⟨0, 2, 3, 1, 0, 4⟩ 0 ∧
    routedStep r' (.act (.ifaTurn 1 leftoverStub true)) = some r'' ∧
    (r'.cluster 1).server.committedIndex = 1 ∧ (r''.cluster 1).server.committedIndex = 0 := by
  have hleft : (replRequestCodec.decode (leftoverBytes.take 24)).toReplReq =
      ⟨1, 0, 3, 0, 2, 3⟩ := by decide +kernel
  rw [leftoverStub, hleft]
  refine ⟨_, _, _, trio_fresh, (((((((((Run.start.next
    (a := .act (.begin (orderOf0 1) fun _ => 5)) trivial rfl).next
    (a := .act (.replicate Link.clean)) Link.clean_clean.whole rfl).next
    (a := .act (.replicate Link.clean)) Link.clean_clean.whole rfl).next
    (a := .act .finish) trivial rfl).next
    (a := .act (.begin (orderOf0 2) fun _ => 5)) trivial rfl).next
    (a := .act (.replicate Link.broken)) Link.broken_whole rfl).next
    (a := .act (.replicate Link.clean)) Link.clean_clean.whole rfl).next
    (a := .act .finish) trivial rfl).next (a := .act (.clientClose 0)) trivial rfl).next
    (a := .act (.begin (orderOf0 3) fun _ => 5)) trivial rfl, rfl, rfl, rfl,
    (((Run.start.next (a := .act (.replicate Link.clean)) Link.clean_clean.whole rfl).next
    (a := .act (.replicate Link.clean)) Link.clean_clean.whole rfl).next
    (a := .act .finish) trivial rfl).next
    (a := .act (.begin (orderOf0 4) fun _ => 5)) trivial rfl, rfl, rfl, rfl, rfl⟩

def withoutTwo (id : ℤ) : ℤ := if id = 2 then -1 else 5

/-- Server 2 has been out of reach when it takes over. Its first order goes in
front of the entry that server 1 has committed. -/
theorem committed_overwritten : ∃ r r' : Routed, Fresh trio ∧
    Run routedStep (fun _ => Surviving) ⟨0, trio⟩ r ∧
    Run routedStep (fun _ => Surviving) r r' ∧
    (r.cluster 1).server.committedIndex = 0 ∧
    (r.cluster 1).server.smrLog = [⟨1, 7, 1⟩, ⟨1, 7, 2⟩] ∧
    (r'.cluster 1).server.smrLog = [⟨1, 7, 3⟩, ⟨1, 7, 1⟩, ⟨1, 7, 2⟩] :=
  ⟨_, _, trio_fresh, ((((((Run.start.next (a := .act (.begin (orderOf7 1) withoutTwo)) trivial
    rfl).next (a := .act (.replicate Link.clean)) Link.clean_clean.whole rfl).next
    (a := .act (.replicate Link.clean)) Link.clean_clean.whole rfl).next
    (a := .act .finish) trivial rfl).next
    (a := .act (.begin (orderOf7 2) withoutTwo)) trivial rfl).next
    (a := .act (.replicate Link.clean)) Link.clean_clean.whole rfl).next
    (a := .act (.replicate Link.clean)) Link.clean_clean.whole rfl,
    ((((Run.start.next (a := .act (.crash 0)) trivial rfl).next (a := .takeover 2) trivial rfl).next
    (a := .act (.begin (orderOf7 3) withoutZero)) trivial rfl).next
    (a := .act (.replicate Link.clean)) Link.clean_clean.whole rfl).next
    (a := .act (.replicate Link.clean)) Link.clean_clean.whole rfl, rfl, rfl, rfl⟩

end RobotFactory
