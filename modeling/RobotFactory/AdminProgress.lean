import RobotFactory.Crc32
import RobotFactory.Pairing

/-!
# Every order is released

The admin thread needs at most one step to wake up and, for each robot in front of
an order and for the order itself, one to take it, one for each backup and one to
release it. Neither clients nor backups can make it take more, whatever becomes of
the calls to the backups. As long as these return it can always take its next step,
unless another server acts as primary at the same time.
-/
namespace RobotFactory
open TransitionSystem

def ThreadAction.OfAdmin : ThreadAction → Bool
  | .wake => true
  | .wait => true
  | .begin _ => true
  | .replicate _ => true
  | .finish => true
  | _ => false

def countedStep [Zlib] (p : ℤ) (x : Threads × ℕ) (a : ThreadAction) : Option (Threads × ℕ) :=
  (threadStep p x.1 a).map fun t => (t, x.2 + if a.OfAdmin then 1 else 0)

namespace Threads

def backups (p : ℤ) (t : Threads) : ℕ := (t.cluster p).server.factoriesRecord.length

/-- The steps that the admin thread needs until the robot at position `g` of all those
queued is released. -/
def workLeft (p : ℤ) (t : Threads) (g : ℕ) : ℕ :=
  match (t.cluster p).admin with
  | .waiting =>
    (if t.holdsMtx then 0 else 1) + (g - t.releases.length + 1) * (t.backups p + 2)
  | .replicating _ _ i =>
    (t.backups p - i) + 1 + (g - t.releases.length) * (t.backups p + 2)

theorem backups_of_peerIds {p : ℤ} {t t' : Threads}
    (h : (t'.cluster p).server.peerIds = (t.cluster p).server.peerIds) :
    t'.backups p = t.backups p := by
  have hlen := congrArg List.length h
  simpa [Server.peerIds, backups] using hlen

/-- Nothing that was queued or released is forgotten. -/
theorem queue_grows [Zlib] {p : ℤ} {t t' : Threads} {a : ThreadAction}
    (hstep : threadStep p t a = some t') :
    t.pushes.length ≤ t'.pushes.length ∧ t.releases.length ≤ t'.releases.length := by
  cases threadStep_cases hstep with
  | order => simp [engineerThreadRobotDef, push]
  | marker => simp [engineerThreadSendCommitedIndex, push]
  | finish => simp [released]
  | _ => exact ⟨le_rfl, le_rfl⟩

theorem workLeft_same {p : ℤ} {t t' : Threads} (g : ℕ)
    (hadmin : (t'.cluster p).admin = (t.cluster p).admin) (hholds : t'.holdsMtx = t.holdsMtx)
    (hreleases : t'.releases = t.releases) (hbackups : t'.backups p = t.backups p) :
    t'.workLeft p g + 0 ≤ t.workLeft p g := by
  rw [workLeft, hadmin, hholds, hreleases, hbackups, ← workLeft]
  exact le_rfl

/-- The admin thread's steps do some of the work before a robot that is still queued,
and no other step adds to it. -/
theorem workLeft_step [Zlib] {p : ℤ} {t t' : Threads} {a : ThreadAction} {g : ℕ} (hl : t.Leads p)
    (hp : t.Paired p) (hg : g < t.pushes.length) (hge : t.releases.length ≤ g)
    (hstep : threadStep p t a = some t') : g < t'.releases.length ∨
      t'.workLeft p g + (if a.OfAdmin then 1 else 0) ≤ t.workLeft p g := by
  cases threadStep_cases hstep with
  | connect | order | read | ignored | ship | marker | noMarker | fail =>
    exact .inr (workLeft_same g rfl rfl rfl rfl)
  | close e c _ hc =>
    refine .inr (workLeft_same g ?_ rfl rfl (backups_of_peerIds (step_peerIds hc p)))
    cases step_cases hc
    simp only [Function.update_self]
    rfl
  | peer a c hpeer hc =>
    refine .inr (workLeft_same g ?_ rfl rfl (backups_of_peerIds (step_peerIds hc p)))
    simp only [peer_primary hpeer hc]
  | others d =>
    refine .inr (workLeft_same g ?_ rfl rfl (backups_of_peerIds ?_)) <;>
      simp only [Function.update_self]
  | wake hfree =>
    have hidle := hl.idle (hl.parked hfree)
    refine .inr ?_
    simp only [workLeft, hidle, hfree, backups, ThreadAction.OfAdmin, if_true, Bool.false_eq_true,
      if_false]
    omega
  | wait hholds hidle hempty =>
    have hnone : t.pending = [] := by
      have howners := hp.owners_eq
      rw [pendingOwners, hidle, hempty] at howners
      exact List.map_eq_nil_iff.mp howners
    have hall := List.drop_eq_nil_iff.mp hnone
    omega
  | begin connect o b orders barriers shipOrder c hholds hidle horders hbarriers hframe hc halive =>
    refine .inr ?_
    have hsame : backups p { t with
        cluster := c, adminThreadList := orders, barrierList := barriers,
        handling := some (o, b) } = t.backups p := backups_of_peerIds (step_peerIds hc p)
    cases step_cases hc with
    | begin _ _ _ hadmin =>
      rw [Function.update_self] at halive
      obtain ⟨s', hnode, -⟩ := hl.leads.begun hadmin halive
      simp only [workLeft, Function.update_self, hnode, hadmin, hholds, ThreadAction.OfAdmin,
        if_true] at hsame ⊢
      rw [hsame, Nat.add_mul, Nat.one_mul]
      omega
  | replicate link o b c hhandling hc =>
    refine .inr ?_
    have hsame : backups p { t with
        cluster := c, acknowledged := t.acknowledged ++ acknowledgedBy p c } = t.backups p :=
      backups_of_peerIds (step_peerIds hc p)
    obtain ⟨shipOrder, req, i, f, kept, stale, hadmin, hf, hnode⟩ := replicate_primary hc
    have hlt : i < t.backups p := (List.getElem?_eq_some_iff.mp hf).1
    have hnext : (c p).admin = .replicating shipOrder req (i + 1) := by
      rw [hnode]
      rfl
    simp only [workLeft, hnext, hadmin, ThreadAction.OfAdmin, if_true] at hsame ⊢
    rw [hsame]
    omega
  | finish o b c hhandling hc =>
    have hsame : (t.released p o b c).backups p = t.backups p :=
      backups_of_peerIds (step_peerIds hc p)
    have hcount : (t.released p o b c).releases.length = t.releases.length + 1 :=
      List.length_append
    have hholds : t.holdsMtx = true := by
      by_contra hfree
      have hidle := hl.parked (by simpa using hfree)
      rw [hhandling] at hidle
      cases hidle
    rcases hge.eq_or_lt with heq | hlt
    · exact .inl (by omega)
    · refine .inr ?_
      cases step_cases hc with
      | finish shipOrder req i _ hadmin hlen =>
        have hwait : ((t.released p o b (Function.update t.cluster p
            ((t.cluster p).finishIteration shipOrder req))).cluster p).admin = .waiting := by
          simp only [released, Function.update_self]
          rfl
        have hholds' : (t.released p o b (Function.update t.cluster p
            ((t.cluster p).finishIteration shipOrder req))).holdsMtx = true := hholds
        simp only [workLeft, hwait, hholds', hadmin, hcount, hsame, ThreadAction.OfAdmin, if_true]
        rw [show g - (t.releases.length + 1) + 1 = g - t.releases.length by omega]
        omega

/-- The count of the admin's steps and the work that is left make up the work there was. -/
theorem counted_run [Zlib] {p : ℤ} {t u : Threads} {g k : ℕ}
    {ok : Threads × ℕ → ThreadAction → Prop} (hl : t.Leads p) (hp : t.Paired p)
    (hg : g < t.pushes.length) (hrun : Run (countedStep p) ok (t, 0) (u, k)) :
    g < u.releases.length ∨ u.workLeft p g + k ≤ t.workLeft p g := by
  have hinv := hrun.invariant
    (fun x => x.1.Leads p ∧ x.1.Paired p ∧ g < x.1.pushes.length ∧
      (g < x.1.releases.length ∨ x.1.workLeft p g + x.2 ≤ t.workLeft p g)) ?_
    ⟨hl, hp, hg, .inr le_rfl⟩
  · exact hinv.2.2.2
  · rintro ⟨v, n⟩ a ⟨v', n'⟩ ⟨hl, hp, hg, hwork⟩ - hstep
    simp only [countedStep, Option.map_eq_some_iff, Prod.mk.injEq] at hstep hl hp hg hwork
    obtain ⟨v', hstep, rfl, rfl⟩ := hstep
    obtain ⟨hpushes, hreleases⟩ := queue_grows hstep
    refine ⟨hl.step hstep, hp.step hl hstep, lt_of_lt_of_le hg hpushes, ?_⟩
    simp only
    by_cases hge : v.releases.length ≤ g
    · have hbefore := hwork.resolve_left (by omega)
      rcases workLeft_step hl hp hg hge hstep with hdone | hless
      · exact .inl hdone
      · exact .inr (by omega)
    · exact .inl (by omega)

end Threads

/-- Every robot in the queue is released by the time the admin thread has made the given
number of further steps, one to wake up and, for it and for each robot in front of it, as
many as there are backups and two more. No step of a client or of a server that sends the
primary no requests, and no failure of a call, puts it off. -/
theorem order_released_within [Zlib] {p : ℤ} {c₀ : Cluster} {t u : Threads} {j k : ℕ}
    {ok : Threads × ℕ → ThreadAction → Prop} (hfresh : Fresh c₀)
    (hrun : Run (threadStep p) (fun _ _ => True) (Threads.opened c₀) t)
    (hj : t.releases.length + j < t.pushes.length)
    (hlater : Run (countedStep p) ok (t, 0) (u, k))
    (hk : 1 + (j + 1) * (t.backups p + 2) ≤ k) : t.releases.length + j < u.releases.length := by
  obtain ⟨hleads, hpaired, -⟩ := Threads.threads_run hfresh hrun
  refine (Threads.counted_run hleads hpaired hj hlater).resolve_right fun hwork => ?_
  have hpos : 0 < u.workLeft p (t.releases.length + j) := by
    unfold Threads.workLeft
    split
    · exact Nat.add_pos_right _ (Nat.mul_pos (Nat.succ_pos _) (Nat.succ_pos _))
    · omega
  have hmost : t.workLeft p (t.releases.length + j) ≤ 1 + (j + 1) * (t.backups p + 2) := by
    unfold Threads.workLeft
    rw [Nat.add_sub_cancel_left, Nat.add_mul, Nat.one_mul]
    split
    · split_ifs <;> omega
    · omega
  omega

/-- One order and one backup: four steps, also with a lost connection. -/
theorem order_released_within_duo : ∃ u : Threads, u.releases.length = 1 := by
  have hrun : ∃ t u, Run (threadStep 0) (fun _ _ => True) (Threads.opened duo) t ∧
      Run (countedStep 0) (fun _ _ => True) (t, 0) (u, 4) ∧ t.releases.length = 0 ∧
      t.pushes.length = 1 ∧ t.backups 0 = 1 ∧ u.releases.length = 1 :=
    ⟨_, _, (Run.start.next (a := .connect 0) trivial rfl).next
      (a := .request 0 ⟨3000, 1, 1⟩) trivial rfl, (((Run.start.next (a := .wake) trivial rfl).next
      (a := .begin fun _ => -1) trivial rfl).next (a := .replicate Link.clean) trivial rfl).next
      (a := .finish) trivial rfl, rfl, rfl, rfl, rfl⟩
  obtain ⟨t, u, hrun, hlater, hreleases, hpushes, hbackups, hlen⟩ := hrun
  have hreleased := order_released_within (j := 0) duo_fresh hrun (by omega) hlater
    (by rw [hbackups])
  exact ⟨u, by omega⟩

/-- While only `p` handles orders, the admin threads of all others stay idle. -/
theorem step_idle [Zlib] {p : ℤ} {c c' : Cluster} {a : Action} (hstep : step p c a = some c')
    (h : ∀ s, s ≠ p → (c s).admin = .waiting) (s : ℤ) (hs : s ≠ p) : (c' s).admin = .waiting := by
  have hupdate {u : ℤ} {n : Node} (hn : u ≠ p → n.admin = .waiting) :
      (Function.update c u n s).admin = .waiting :=
    Cluster.update_all (fun v m => v ≠ p → m.admin = .waiting) h hn s hs
  cases step_cases hstep with
  | begin => exact hupdate fun hne => absurd rfl hne
  | skipped => exact hupdate fun hne => absurd rfl hne
  | exchanged link shipOrder req i f _ _ _ _ _ hfree _ result =>
    rw [Function.update_of_ne hs]
    refine hupdate fun _ => ?_
    unfold Node.afterExchange
    split <;> exact hfree
  | unanswered => exact hupdate fun hne => absurd rfl hne
  | finish => exact hupdate fun hne => absurd rfl hne
  | ifaTurn s' ifa sendAck _ hfree =>
    refine hupdate fun _ => ?_
    unfold Node.afterExchange
    split <;> exact hfree
  | clientClose s' => exact hupdate fun hne => h s' hne
  | replicationClose s' => exact hupdate fun hne => h s' hne
  | crash s' => exact hupdate fun hne => h s' hne
  | restart s' file uninit replies n _ hn =>
    obtain ⟨r, -, rfl⟩ := Node.start_of_restarted hn
    exact hupdate fun _ => rfl

namespace Threads

/-- The primary lives on, and no other server acts as primary. -/
structure Unrivalled (p : ℤ) (t : Threads) : Prop where
  alive : (t.cluster p).alive = true
  idle : ∀ s, s ≠ p → (t.cluster s).admin = .waiting
  roster : Roster t.cluster

theorem Unrivalled.step [Zlib] {p : ℤ} {t t' : Threads} {a : ThreadAction}
    (h : t.Unrivalled p) (hok : ∀ d, a ≠ .others d) (hstep : threadStep p t a = some t') :
    t'.Unrivalled p := by
  cases threadStep_cases hstep with
  | connect | order | read | ignored | ship | marker | noMarker | fail | wake | wait =>
    exact ⟨h.alive, h.idle, h.roster⟩
  | close e c _ hc =>
    refine ⟨?_, step_idle hc h.idle, h.roster.step hc⟩
    cases step_cases hc
    simp only [Function.update_self]
    exact h.alive
  | begin connect o b orders barriers shipOrder c _ _ _ _ _ hc halive =>
    exact ⟨halive, step_idle hc h.idle, h.roster.step hc⟩
  | replicate link o b c _ hc =>
    obtain ⟨shipOrder, req, i, f, kept, stale, -, -, hnode⟩ := replicate_primary hc
    refine ⟨?_, step_idle hc h.idle, h.roster.step hc⟩
    simp only [hnode]
    exact h.alive
  | finish o b c _ hc =>
    refine ⟨?_, step_idle hc h.idle, h.roster.step hc⟩
    cases step_cases hc
    simp only [released, Function.update_self]
    exact h.alive
  | peer a c hpeer hc =>
    refine ⟨?_, step_idle hc h.idle, h.roster.step hc⟩
    simp only [peer_primary hpeer hc]
    exact h.alive
  | others d => exact absurd rfl (hok d)

theorem Unrivalled.iterates [Zlib] {p : ℤ} {t : Threads} (h : t.Unrivalled p)
    {shipOrder : RobotInf} {req : ReplReq} {i : ℕ}
    (hadmin : (t.cluster p).admin = .replicating shipOrder req i) (link : Link) :
    (RobotFactory.step p t.cluster (.replicate link)).isSome = true ∨
      (RobotFactory.step p t.cluster .finish).isSome = true := by
  cases hf : (t.cluster p).server.factoriesRecord[i]? with
  | none =>
    refine .inr ?_
    simp [RobotFactory.step, h.alive, hadmin, List.getElem?_eq_none_iff.mp hf]
  | some f =>
    refine .inl ?_
    have hpeer := h.idle f.factoryId (h.roster.ne hf)
    simp only [RobotFactory.step, h.alive, hadmin, hf, replicateTo, hpeer]
    split_ifs <;> rfl

theorem length_flatMap_logged_le (pushes : List Push) :
    (pushes.flatMap Push.logged).length ≤ pushes.length := by
  induction pushes with
  | nil => exact le_rfl
  | cons q pushes ih =>
    have hone : q.logged.length ≤ 1 := by
      unfold Push.logged
      split_ifs <;> simp
    rw [List.flatMap_cons, List.length_append, List.length_cons]
    omega

/-- While fewer than 2^31 robots have been queued, the next one can be logged. -/
theorem LogsHandled.canCount {p : ℤ} {t : Threads} (h : t.LogsHandled p) (hl : t.Leads p)
    (hidle : t.handling = none) (hqueued : t.pending ≠ [])
    (hfew : (t.pushes.length : ℤ) ≤ intMax) (shipOrder : RobotInf) :
    (t.cluster p).server.CanCount shipOrder := by
  intro _
  have hlast := hl.leads.last_eq
  have hlen := length_flatMap_logged_le t.handled
  have hlt : t.releases.length < t.pushes.length := by
    by_contra hge
    exact hqueued (List.drop_eq_nil_iff.mpr (by omega))
  rw [← h, handled, handledCount, hidle, List.length_take] at hlen
  simp only [Option.isSome_none, Bool.false_eq_true, if_false] at hlen
  omega

/-- An admin thread that is awake takes its next step, if a robot is queued. -/
theorem Unrivalled.proceeds [Zlib] {p : ℤ} {t : Threads} (h : t.Unrivalled p) (hl : t.Leads p)
    (hp : t.Paired p) (hlog : t.LogsHandled p) (hholds : t.holdsMtx = true)
    (hqueued : t.pending ≠ []) (hfew : (t.pushes.length : ℤ) ≤ intMax) (connect : ℤ → ℤ)
    (link : Link) : ∃ a ∈ [ThreadAction.begin connect, .replicate link, .finish],
      (threadStep p t a).isSome = true := by
  obtain ⟨q, rest, hpending⟩ := List.exists_cons_of_ne_nil hqueued
  cases hhandling : t.handling with
  | none =>
    have howners := hp.owners_eq
    rw [hpending, pendingOwners, hhandling] at howners
    have horders : t.adminThreadList = q.owner :: rest.map Push.owner := howners.symm
    have hframe := frame_of_pc (hp.waiting q (hpending ▸ List.mem_cons_self))
    refine ⟨.begin connect, by simp, ?_⟩
    obtain ⟨s', hnode, -⟩ := hl.leads.begin q.robot connect (hl.idle hhandling)
      (hlog.canCount hl hhandling hqueued hfew q.robot)
    simp only [threadStep, hholds, hhandling, hp.barriers, horders, hframe, RobotFactory.step,
      h.alive, hl.idle hhandling, Option.bind_some, Function.update_self, hnode, if_true]
    rfl
  | some x =>
    have hcurrent := hp.current
    cases hadmin : (t.cluster p).admin with
    | waiting => simp [hadmin, hhandling, AdminPc.shipOrder?, hpending] at hcurrent
    | replicating shipOrder req i =>
      rcases h.iterates hadmin link with hstep | hstep
      · exact ⟨.replicate link, by simp, by simpa [threadStep, hhandling] using hstep⟩
      · exact ⟨.finish, by simp, by simpa [threadStep, hhandling] using hstep⟩

end Threads

/-- While no other server acts as primary, an admin thread with robots in its queue, of
fewer than 2^31 so far, can take one of its steps, whatever the calls on the connections
return. -/
theorem admin_thread_progress [Zlib] {p : ℤ} {c₀ : Cluster} {t : Threads} (hfresh : Fresh c₀)
    (hrun : Run (threadStep p) (fun _ a => ∀ d, a ≠ .others d) (Threads.opened c₀) t)
    (hqueued : t.releases.length < t.pushes.length) (hfew : (t.pushes.length : ℤ) ≤ intMax)
    (connect : ℤ → ℤ) (link : Link) :
    ∃ a ∈ [ThreadAction.wake, .begin connect, .replicate link, .finish],
      (threadStep p t a).isSome = true := by
  obtain ⟨hleads, hpaired, hlog⟩ := Threads.threads_run hfresh hrun
  have hunrivalled := hrun.invariant (fun u => u.Unrivalled p)
    (fun _ _ _ hinv hok hstep => hinv.step hok hstep)
    ⟨hfresh.alive p, fun s _ => hfresh.waiting s, hfresh.roster⟩
  cases hholds : t.holdsMtx with
  | false => exact ⟨.wake, by simp, by simp [threadStep, hholds]⟩
  | true =>
    have hpending : t.pending ≠ [] := fun hnil => by
      have hall := List.drop_eq_nil_iff.mp hnil
      omega
    obtain ⟨a, ha, hstep⟩ := hunrivalled.proceeds hleads hpaired hlog hholds hpending hfew connect
      link
    exact ⟨a, List.mem_cons_of_mem _ ha, hstep⟩

/-- The admin thread can take the first order of all. -/
theorem admin_thread_progress_duo : ∃ t : Threads, t.pushes.length = 1 ∧
    ∃ a ∈ [ThreadAction.wake, .begin fun _ => 5, .replicate Link.clean, .finish],
      (threadStep 0 t a).isSome = true := by
  have hrun : ∃ t, Run (threadStep 0) (fun _ a => ∀ d, a ≠ .others d) (Threads.opened duo) t ∧
      t.releases.length = 0 ∧ t.pushes.length = 1 :=
    ⟨_, ((Run.start.next (a := .connect 0) (fun _ h => by cases h) rfl).next
      (a := .request 0 ⟨3000, 1, 1⟩) (fun _ h => by cases h) rfl).next (a := .wake)
      (fun _ h => by cases h) rfl, rfl, rfl⟩
  obtain ⟨t, hrun, hreleases, hpushes⟩ := hrun
  exact ⟨t, hpushes, admin_thread_progress duo_fresh hrun (by omega) (by rw [hpushes]; decide)
    (fun _ => 5) Link.clean⟩

end RobotFactory
