import RobotFactory.Acknowledgement
import RobotFactory.Pairing

/-!
# Every acknowledged order is logged once

Orders and commit markers share the queue and the message type; a customer id of
-1 tells them apart. As long as no client orders under that id, each order that
was released has exactly one entry at the primary, in the order of the queue, and
the backups that have acknowledged it have the same entry at the same index.
-/
namespace RobotFactory
open TransitionSystem

/-- No client orders under the customer id of the markers. -/
def NamedOrders : Threads → ThreadAction → Prop
  | _, .request _ makeOrder => makeOrder.requestType = 1 → makeOrder.customerId ≠ -1
  | _, _ => True

/-- No client orders under the id of the markers, the log has room, and the exchanges
with the backups are such that an acknowledgement proves replication. -/
def AcknowledgedOrders (p : ℤ) (t : Threads) (a : ThreadAction) : Prop :=
  NamedOrders t a ∧ match a with
    | .begin _ => (t.cluster p).server.lastIndex + 1 < intMax
    | .replicate link => Acknowledging p t.cluster (.replicate link)
    | .peer a => Acknowledging p t.cluster a
    | .others _ => False
    | _ => True

section Backups

/-- The primary's log only grows at its end. -/
theorem primary_grows [Zlib] {p : ℤ} {c c' : Cluster} {a : Action} (h : Lagging p c)
    (hok : Recovering p c a) (hstep : step p c a = some c') :
    (c p).server.smrLog <+: (c' p).server.smrLog := by
  cases step_cases hstep with
  | begin shipOrder connect _ hadmin =>
    obtain ⟨s', hnode, hbegan⟩ := beginIteration_began shipOrder connect h.sound.server
      (.inr (h.committed hadmin)) hok.canCount
    rw [Function.update_self, hnode, hbegan.log_eq, Server.appendedLog_eq h.last_eq]
    exact List.prefix_append _ _
  | skipped => rw [Function.update_self]; exact List.prefix_rfl
  | exchanged => rw [Function.update_self]; exact List.prefix_rfl
  | unanswered => rw [Function.update_self]; exact List.prefix_rfl
  | finish shipOrder req i _ hadmin =>
    obtain ⟨hbecame, -⟩ := adminCommit_became h.sound.server (h.sound.serving _ _ _ hadmin)
    rw [Function.update_self, Node.finishIteration, hbecame.log_eq]
  | clientClose s =>
    rw [((Node.SameLog.clientClosed (c s)).update p).smrLog_eq]
  | replicationClose s =>
    rw [((Node.SameLog.replicationClosed (c s)).update p).smrLog_eq]
  | crash s =>
    rw [((Node.SameLog.crashed (c s)).update p).smrLog_eq]
  | ifaTurn | restart => exact hok.elim

theorem backup_grows [Zlib] {p : ℤ} {c c' : Cluster} {a : Action} (h : Lagging p c)
    (hok : Recovering p c a) (hstep : step p c a = some c') {b : ℤ}
    (hb : b ∈ (c p).server.peerIds) :
    (c b).server.smrLog.length ≤ (c' b).server.smrLog.length := by
  have hne : b ≠ p := fun heq => h.roster.others p (heq ▸ hb)
  cases step_cases hstep with
  | begin => rw [Function.update_of_ne hne]
  | skipped => rw [Function.update_of_ne hne]
  | exchanged link shipOrder req i f _ hadmin hf hsocket hpeer _ _ result hresult =>
    rw [Function.update_of_ne hne]
    by_cases hbf : b = f.factoryId
    · subst hbf
      obtain ⟨hlink, hworks⟩ := hok _ _ _ f hadmin hf hsocket hpeer
      have hlags := h.next_lags hadmin hf
      have hcaught := exchange_caught hlink (h.sound.serving _ _ _ hadmin) h.last_eq hlags hworks
      rw [h.stale] at hresult
      rw [Function.update_self, ← hresult]
      revert hcaught
      generalize (exchange link false req (c p).server.smrLog (c f.factoryId).server).backup = after
      intro hcaught
      cases hcaught with
      | missed id => exact le_rfl
      | caughtUp b' hbecame =>
        simp only [Node.afterExchange, hbecame.log_eq]
        have hpre := hlags.log_prefix
        exact (hpre.trans (List.take_prefix _ _)).length_le
      | faulted => exact le_rfl
    · rw [Function.update_of_ne hbf]
  | unanswered => rw [Function.update_of_ne hne]
  | finish => rw [Function.update_of_ne hne]
  | clientClose s => rw [((Node.SameLog.clientClosed (c s)).update b).smrLog_eq]
  | replicationClose s => rw [((Node.SameLog.replicationClosed (c s)).update b).smrLog_eq]
  | crash s => rw [((Node.SameLog.crashed (c s)).update b).smrLog_eq]
  | ifaTurn | restart => exact hok.elim

/-- A backup of `p` has the entry of a released order, and so has `p`. -/
structure HasAcknowledged (p : ℤ) (c : Cluster) (b : ℤ) (r : Release) : Prop where
  peer : b ∈ (c p).server.peerIds
  index_ge : 0 ≤ r.index
  entry : (c p).server.smrLog[r.index.toNat]? = some (Server.logEntryOf r.robot)
  length_gt : r.index.toNat < (c b).server.smrLog.length

theorem HasAcknowledged.step [Zlib] {p b : ℤ} {c c' : Cluster} {a : Action} {r : Release}
    (hinv : Lagging p c) (h : HasAcknowledged p c b r) (hok : Recovering p c a)
    (hstep : step p c a = some c') : HasAcknowledged p c' b r := by
  obtain ⟨rest, hrest⟩ := primary_grows hinv hok hstep
  have hlt := (List.getElem?_eq_some_iff.mp h.entry).1
  refine ⟨?_, h.index_ge, ?_, h.length_gt.trans_le (backup_grows hinv hok hstep h.peer)⟩
  · rw [step_peerIds hstep p]
    exact h.peer
  · rw [← hrest, List.getElem?_append_left hlt]
    exact h.entry

theorem HasAcknowledged.agree {p b : ℤ} {c : Cluster} {r : Release} (hinv : Lagging p c)
    (h : HasAcknowledged p c b r) :
    (c b).server.smrLog[r.index.toNat]? = some (Server.logEntryOf r.robot) := by
  obtain ⟨f, hf, rfl⟩ := List.mem_map.mp h.peer
  obtain ⟨k, hk⟩ := List.getElem?_of_mem hf
  have hreplicated : (c p).replicatedLog k <+: (c p).server.smrLog := by
    unfold Node.replicatedLog
    split
    · exact List.prefix_rfl
    · split_ifs
      · exact List.prefix_rfl
      · exact List.take_prefix _ _
  have hlags := hinv.peers k f hk
  have hpre := hlags.log_prefix
  obtain ⟨rest, hrest⟩ := hpre.trans hreplicated
  have hentry := h.entry
  rwa [← hrest, List.getElem?_append_left h.length_gt] at hentry

theorem hasAcknowledged_of_mem {p : ℤ} {c : Cluster} (hinv : Lagging p c) (hserved : Served p c)
    {x : ℤ × Release} (hx : x ∈ acknowledgedBy p c) : HasAcknowledged p c x.1 x.2 := by
  unfold acknowledgedBy at hx
  split at hx
  · rename_i shipOrder req i hadmin
    split at hx
    · rename_i f hf
      split_ifs at hx with hcond
      · obtain rfl := List.mem_singleton.mp hx
        have hserving := hinv.sound.serving _ _ _ hadmin
        have hentry := hserving.entry hcond.2
        have hge := hserving.honest.ge
        have hsucc := hserving.honest.order (mt hserving.order_iff.mp hcond.2)
        have hlog := hserved _ _ _ i f hadmin (Nat.lt_succ_self i) hf hcond.1
        refine ⟨List.mem_map_of_mem (List.mem_of_getElem? hf), ?_, ?_, ?_⟩
        · simp only
          omega
        · rw [hentry, hserving.mapop_eq]
        · rw [hlog]
          exact (List.getElem?_eq_some_iff.mp hentry).1
      · cases hx
    · cases hx
  · cases hx

end Backups

namespace Threads

/-- The backups lag behind the primary, and have what they have acknowledged. -/
structure Acknowledged (p : ℤ) (t : Threads) : Prop where
  lagging : Lagging p t.cluster
  served : Served p t.cluster
  kept : ∀ x ∈ t.acknowledged, HasAcknowledged p t.cluster x.1 x.2

theorem Acknowledged.act [Zlib] {p : ℤ} {t t' : Threads} {a : Action} (h : t.Acknowledged p)
    (hok : Acknowledging p t.cluster a) (hc : RobotFactory.step p t.cluster a = some t'.cluster)
    (hnew : ∀ x ∈ t'.acknowledged, x ∈ t.acknowledged ∨ x ∈ acknowledgedBy p t'.cluster) :
    t'.Acknowledged p := by
  have hlagging := h.lagging.step hok.1 hc
  have hserved := Served.step h.lagging h.served hok hc
  refine ⟨hlagging, hserved, fun x hx => ?_⟩
  rcases hnew x hx with hold | hmem
  · exact (h.kept x hold).step h.lagging hok.1 hc
  · exact hasAcknowledged_of_mem hlagging hserved hmem

theorem Acknowledged.opened [Zlib] {p : ℤ} {c : Cluster} (h : Fresh c) :
    (Threads.opened c).Acknowledged p := by
  refine ⟨lagging_of_fresh p h, ?_, fun x hx => by cases hx⟩
  intro o r j k f hadmin
  change (c p).admin = _ at hadmin
  rw [h.waiting p] at hadmin
  cases hadmin

theorem Acknowledged.step [Zlib] {p : ℤ} {t t' : Threads} {a : ThreadAction}
    (h : t.Acknowledged p) (hok : AcknowledgedOrders p t a) (hstep : threadStep p t a = some t') :
    t'.Acknowledged p := by
  cases threadStep_cases hstep with
  | connect | order | read | ignored | ship | marker | noMarker | fail | wake | wait =>
    exact ⟨h.lagging, h.served, h.kept⟩
  | close e c _ hc => exact h.act .of_clientClose hc fun x hx => .inl hx
  | begin connect o b orders barriers shipOrder c _ _ _ _ _ hc =>
    exact h.act (.of_begin hok.2) hc fun x hx => .inl hx
  | replicate link o b c _ hc => exact h.act hok.2 hc fun x hx => List.mem_append.mp hx
  | finish o b c _ hc => exact h.act .of_finish hc fun x hx => .inl hx
  | peer a c _ hc => exact h.act hok.2 hc fun x hx => .inl hx
  | others => exact hok.2.elim

/-- Only the markers carry the customer id -1. -/
def Named (t : Threads) : Prop := ∀ q ∈ t.pushes, q.robot.customerId = -1 ↔ q.marker = true

theorem Named.step [Zlib] {p : ℤ} {t t' : Threads} {a : ThreadAction} (h : t.Named)
    (hok : NamedOrders t a) (hstep : threadStep p t a = some t') : t'.Named := by
  have hpush {e : ℕ} {x : Engineer} {robot : RobotInf} {marker : Bool} {event : ClientEvent}
      (hiff : robot.customerId = -1 ↔ marker = true) : (t.push e x robot marker event).Named := by
    intro q hq
    rcases List.mem_append.mp hq with hold | hnew
    · exact h q hold
    · rw [List.mem_singleton.mp hnew]
      exact hiff
  cases threadStep_cases hstep with
  | order e makeOrder _ _ htype =>
    exact hpush ⟨fun heq => absurd heq (hok htype), fun hfalse => by cases hfalse⟩
  | marker e uninit => exact hpush ⟨fun _ => rfl, fun _ => rfl⟩
  | _ => exact h

/-- What holds of the queue, the barriers and the log. -/
structure LoggedOnce (p : ℤ) (t : Threads) : Prop where
  lists : t.barrierList = t.adminThreadList
  released : t.releases = (t.pushes.take t.releases.length).map fun q => (q.owner, q.owner)
  waiting : ∀ q ∈ t.pushes.drop t.releases.length, (t.engineers q.owner).pc = q.pc
  waiting_once : ((t.pushes.drop t.releases.length).map Push.owner).Nodup
  markers : ∀ q ∈ t.pushes, q.robot.customerId = -1 ↔ q.marker = true
  entries : (t.cluster p).server.smrLog =
    (t.handled.filter fun q => !q.marker).map fun q => Server.logEntryOf q.robot

end Threads

/-- The entries of orders and markers are those of the orders. -/
theorem flatMap_logged_of_named {qs : List Push}
    (h : ∀ q ∈ qs, q.robot.customerId = -1 ↔ q.marker = true) : qs.flatMap Push.logged =
      (qs.filter fun q => !q.marker).map fun q => Server.logEntryOf q.robot := by
  induction qs with
  | nil => rfl
  | cons q qs ih =>
    have hq := h q List.mem_cons_self
    rw [List.flatMap_cons, ih fun r hr => h r (List.mem_cons_of_mem q hr), Push.logged]
    cases hmarker : q.marker with
    | true => simp [hmarker, hq.mpr hmarker]
    | false =>
      have hne : q.robot.customerId ≠ -1 := by simp [hq, hmarker]
      simp [hmarker, hne]

/-- In every run in which no client orders under the id of the markers, the two
lists name the same engineers, each engineer is released once, by the iteration
that handled its robot, and the log has one entry for each order handled, in the
order of the queue. If the acknowledgements of the run prove replication, each
backup has the entries of the orders it has acknowledged. -/
theorem orders_logged_once [Zlib] {p : ℤ} {c₀ : Cluster} {t : Threads} (hfresh : Fresh c₀)
    (hrun : Run (threadStep p) NamedOrders (Threads.opened c₀) t) :
    t.LoggedOnce p ∧ (Run (threadStep p) (AcknowledgedOrders p) (Threads.opened c₀) t →
      ∀ x ∈ t.acknowledged, 0 ≤ x.2.index ∧
        (t.cluster p).server.smrLog[x.2.index.toNat]? = some (Server.logEntryOf x.2.robot) ∧
        (t.cluster x.1).server.smrLog[x.2.index.toNat]? = some (Server.logEntryOf x.2.robot)) := by
  obtain ⟨-, hpaired, hlog⟩ := Threads.threads_run hfresh hrun
  have hnamed := hrun.invariant Threads.Named (fun _ _ _ hinv hok hstep => hinv.step hok hstep)
    fun q hq => by cases hq
  constructor
  · refine ⟨hpaired.barriers, hpaired.releases_eq, hpaired.waiting, ?_, hnamed, ?_⟩
    · have hnodup := hpaired.nodup
      rwa [← hpaired.owners_eq] at hnodup
    · exact hlog.trans (flatMap_logged_of_named fun q hq => hnamed q (List.mem_of_mem_take hq))
  · intro hacked x hx
    have hinv := hacked.invariant (Threads.Acknowledged p)
      (fun _ _ _ hinv hok hstep => hinv.step hok hstep) (.opened hfresh)
    have hkept := hinv.kept x hx
    exact ⟨hkept.index_ge, hkept.entry, hkept.agree hinv.lagging⟩

theorem orders_logged_once_duo : ∃ t : Threads,
    t.pushes = [⟨0, orderOf7 1, false⟩] ∧ t.LoggedOnce 0 ∧
    (t.cluster 1).server.smrLog[0]? = some ⟨1, 7, 1⟩ := by
  have hrun : ∃ t, Run (threadStep 0) (AcknowledgedOrders 0) (Threads.opened duo) t ∧
      t.pushes = [⟨0, orderOf7 1, false⟩] ∧ t.acknowledged = [(1, ⟨orderOf7 1, 0⟩)] :=
    ⟨_, (((((Run.start.next (a := .connect 0) ⟨trivial, trivial⟩ rfl).next
      (a := .request 0 (requestOf7 1)) ⟨fun _ => by decide, trivial⟩ rfl).next
      (a := .wake) ⟨trivial, trivial⟩ rfl).next
      (a := .begin fun _ => 5) ⟨trivial, show (-1 : ℤ) + 1 < intMax by decide⟩ rfl).next
      (a := .replicate Link.clean) ⟨trivial, .of_clean rfl rfl fun _ => .of_no_gap rfl⟩ rfl).next
      (a := .finish) ⟨trivial, trivial⟩ rfl, rfl, rfl⟩
  obtain ⟨t, hrun, hpushes, hacked⟩ := hrun
  obtain ⟨honce, hbackups⟩ := orders_logged_once duo_fresh (hrun.mono fun _ _ hok => hok.1)
  obtain ⟨-, -, hentry⟩ := hbackups hrun (1, ⟨orderOf7 1, 0⟩)
    (by rw [hacked]; exact List.mem_singleton_self _)
  exact ⟨t, hpushes, honce, hentry⟩

/-- An order under the customer id -1 is released without an entry. -/
theorem order_taken_for_marker : ∃ t : Threads, Fresh duo ∧
    Run (threadStep 0) (fun _ _ => True) (Threads.opened duo) t ∧
    t.pushes = [⟨0, ⟨-1, 5, 1, 100, -1⟩, false⟩] ∧ t.releases = [(0, 0)] ∧
    (t.cluster 0).server.smrLog = [] ∧ ¬t.LoggedOnce 0 := by
  have hrun : ∃ t, Run (threadStep 0) (fun _ _ => True) (Threads.opened duo) t ∧
      t.pushes = [⟨0, ⟨-1, 5, 1, 100, -1⟩, false⟩] ∧ t.releases = [(0, 0)] ∧
      (t.cluster 0).server.smrLog = [] :=
    ⟨_, (((((Run.start.next (a := .connect 0) trivial rfl).next
      (a := .request 0 ⟨-1, 5, 1⟩) trivial rfl).next (a := .wake) trivial rfl).next
      (a := .begin fun _ => 5) trivial rfl).next
      (a := .replicate Link.clean) trivial rfl).next (a := .finish) trivial rfl, rfl, rfl, rfl⟩
  obtain ⟨t, hrun, hpushes, hreleases, hlog⟩ := hrun
  refine ⟨t, duo_fresh, hrun, hpushes, hreleases, hlog, fun honce => ?_⟩
  have hmarkers := honce.markers ⟨0, ⟨-1, 5, 1, 100, -1⟩, false⟩ (by rw [hpushes]; exact .head _)
  exact absurd (hmarkers.mp rfl) (by decide)

end RobotFactory
