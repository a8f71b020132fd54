import RobotFactory.ConfiguredWorkers

/-!
# The first master

As long as worker 0 answers every probe, it is the master of every session, no session
is refused, and no null pointer is used.
-/
namespace RobotFactory
open TransitionSystem

/-- The start of the heartbeat marks workers as healthy only. -/
theorem LoadBalancer.heartbeatInit_healthy (lb : LoadBalancer) {i : ℤ}
    (h : lb.nodeHealth i = true) : lb.heartbeatInit.nodeHealth i = true := by
  unfold heartbeatInit
  generalize lb.workerIndices = is
  induction is generalizing lb with
  | nil => exact h
  | cons j is ih =>
    refine ih { (lb.initStub j).2 with
      nodeHealth := Function.update (lb.initStub j).2.nodeHealth j true } ?_
    by_cases hj : i = j
    · simp [hj]
    · simpa [Function.update_of_ne hj] using h

section Firm

variable {workerNodesMap : Finmap fun _ : ℤ => String × ℤ}

/-- Worker 0 is healthy and the master, and every session has a stub for it. -/
structure Balancer.Firm (workerNodesMap : Finmap fun _ : ℤ => String × ℤ) (b : Balancer) :
    Prop where
  alive : b.alive = true
  configured : b.Configured workerNodesMap
  master_eq : b.lb.masterNodeId = 0
  healthy : b.lb.nodeHealth 0 = true
  masters : ∀ e m, (b.sessions e).masterNode? = some m → m = some (stubOf workerNodesMap 0)
  workers : ∀ e masterNode cs, b.sessions e = .serving masterNode cs →
    ∃ i ∈ workerNodesMap, cs = some (stubOf workerNodesMap i)

/-- What a step can make of a session `x` of such a load balancer. -/
structure ClientSession.Firm (workerNodesMap : Finmap fun _ : ℤ => String × ℤ)
    (a : BalancerAction) (e : ℕ) (x x' : ClientSession) : Prop where
  started : x' ≠ .absent → x ≠ .absent ∨ a = .accept e
  ended : x' = .ended → x = .ended ∨ a = .close e
  masters : ∀ m, x'.masterNode? = some m → m = some (stubOf workerNodesMap 0)
  workers : ∀ masterNode cs, x' = .serving masterNode cs →
    ∃ i ∈ workerNodesMap, cs = some (stubOf workerNodesMap i)

def Balancer.Answers (b : Balancer) (a : BalancerAction) : Prop :=
  a = .heartbeat false → b.nextProbe ≠ some 0

namespace Balancer.Firm

theorem started (horder : InOrder workerNodesMap) (hsome : 0 < workerNodesMap.keys.card) :
    (Balancer.started workerNodesMap).Firm workerNodesMap where
  alive := rfl
  configured := started_configured horder
  master_eq := rfl
  healthy := by simpa [Balancer.started, LoadBalancer.new] using Finset.card_pos.mp hsome
  masters e m hm := by cases hm
  workers e masterNode cs hserving := by cases hserving

theorem selectWorker_eq {b : Balancer} (h : b.Firm workerNodesMap)
    (hsome : 0 < workerNodesMap.keys.card) :
    ∃ i ∈ workerNodesMap, b.lb.selectWorker.1 = .worker i := by
  have hcases := b.lb.selectWorker_cases
  have hsize := h.configured.size_eq
  generalize b.lb.selectWorker = result at hcases
  cases hcases with
  | current hcurrent => exact ⟨_, h.configured.healthy_mem _ hcurrent, rfl⟩
  | first _ hfirst => exact ⟨0, h.configured.healthy_mem 0 h.healthy, rfl⟩
  | unconnected _ hnone => omega
  | refused _ hpos hall =>
    exact absurd ⟨le_rfl, Int.natCast_pos.mpr hpos, h.healthy⟩ (hall 0)
  | nullStub _ _ hfirst => exact absurd h.healthy (by simp [hfirst])

theorem healthy_step {b b' : Balancer} {a : BalancerAction} (h : b.Firm workerNodesMap)
    (hanswers : b.Answers a) (hstep : balancerStep b a = some b') : b'.lb.nodeHealth 0 = true := by
  cases hsession : a.ofSession with
  | true =>
    rw [(session_nodeHealth hsession hstep).1]
    exact h.healthy
  | false =>
    cases balancerStep_cases hstep with
    | heartbeatInit hfirst => exact b.lb.heartbeatInit_healthy h.healthy
    | heartbeat answered i hprobe hlt =>
      by_cases hi : (0 : ℤ) = i
      · obtain rfl : i = 0 := by omega
        cases answered with
        | true => simp [LoadBalancer.setHealth]
        | false => exact absurd hprobe (hanswers rfl)
      · simp only [LoadBalancer.setHealth, Function.update_of_ne hi]
        exact h.healthy
    | accept | current | changed | none | read | connected | selected | request | closed
    | crashed =>
      cases hsession

theorem session_step {b b' : Balancer} {a : BalancerAction} (h : b.Firm workerNodesMap)
    (hsome : 0 < workerNodesMap.keys.card) (hstep : balancerStep b a = some b') :
    b'.alive = true ∧
      ∀ e, ClientSession.Firm workerNodesMap a e (b.sessions e) (b'.sessions e) := by
  have hsame (e : ℕ) : ClientSession.Firm workerNodesMap a e (b.sessions e) (b.sessions e) :=
    ⟨.inl, .inl, h.masters e, h.workers e⟩
  have hmoves {e : ℕ} {x : ClientSession}
      (hx : ClientSession.Firm workerNodesMap a e (b.sessions e) x) (e' : ℕ) :
      ClientSession.Firm workerNodesMap a e' (b.sessions e')
        (Function.update b.sessions e x e') := by
    by_cases heq : e' = e
    · subst heq
      rwa [Function.update_self]
    · rw [Function.update_of_ne heq]
      exact hsame e'
  have hhealthy : ¬b.lb.nodeHealth b.lb.masterNodeId = false := by
    simp [h.master_eq, h.healthy]
  cases balancerStep_cases hstep with
  | accept e => exact ⟨h.alive, hmoves ⟨fun _ => .inr rfl, nofun, nofun, nofun⟩⟩
  | current e hcalling =>
    exact ⟨h.alive, hmoves ⟨fun _ => .inl (by simp [hcalling]), nofun, nofun, nofun⟩⟩
  | changed _ _ _ hunhealthy => exact absurd hunhealthy hhealthy
  | none _ _ hunhealthy => exact absurd hunhealthy hhealthy
  | read e hunlocked =>
    refine ⟨h.alive, hmoves ⟨fun _ => .inl (by simp [hunlocked]), nofun, fun m hm => ?_, nofun⟩⟩
    cases hm
    rw [LoadBalancer.initStub_fst, h.configured.map_eq, h.master_eq]
  | connected e newMaster hconnecting =>
    refine ⟨h.alive, hmoves ⟨fun _ => .inl (by simp [hconnecting]), nofun, fun m hm => ?_, nofun⟩⟩
    cases hm
    exact h.masters e (some newMaster) (by rw [hconnecting]; rfl)
  | selected e masterNode hselecting =>
    obtain ⟨i, hi, hworker⟩ := h.selectWorker_eq hsome
    have hselected : b.selected e masterNode b.lb.selectWorker =
        { b.setSession e (.serving masterNode (some (b.lb.selectWorker.2.initStub i).1)) with
          lb := (b.lb.selectWorker.2.initStub i).2 } := by
      simp only [selected, hworker]
    rw [hselected]
    refine ⟨h.alive, hmoves ⟨fun _ => .inl (by simp [hselecting]), nofun, fun m hm => ?_,
      fun m cs hserving => ?_⟩⟩
    · cases hm
      exact h.masters e masterNode (by rw [hselecting]; rfl)
    · cases hserving
      refine ⟨i, hi, ?_⟩
      rw [LoadBalancer.initStub_fst, LoadBalancer.selectWorker_workerNodesMap,
        h.configured.map_eq]
  | request e getOrder masterNode =>
    have halive : (b.forward e masterNode getOrder).alive = b.alive := by
      unfold forward
      split
      · split_ifs <;> rfl
      · rfl
    rw [(b.forward_eq e masterNode getOrder).2]
    exact ⟨halive.trans h.alive, hsame⟩
  | closed e stub cs hserving =>
    exact ⟨h.alive, hmoves ⟨fun _ => .inl (by simp [hserving]), fun _ => .inr rfl, nofun, nofun⟩⟩
  | crashed e cs hserving => exact absurd (h.masters e none (by rw [hserving]; rfl)) nofun
  | heartbeatInit | heartbeat => exact ⟨h.alive, hsame⟩

theorem step {b b' : Balancer} {a : BalancerAction} (h : b.Firm workerNodesMap)
    (horder : InOrder workerNodesMap) (hsome : 0 < workerNodesMap.keys.card)
    (hanswers : b.Answers a) (hstep : balancerStep b a = some b') : b'.Firm workerNodesMap := by
  obtain ⟨halive, hsessions⟩ := h.session_step hsome hstep
  refine ⟨halive, h.configured.step horder hstep, ?_, h.healthy_step hanswers hstep,
    fun e => (hsessions e).masters, fun e => (hsessions e).workers⟩
  rcases (masterNodeId_step hstep).2 with hsame | ⟨hunhealthy, -⟩
  · exact hsame.trans h.master_eq
  · simp [h.master_eq, h.healthy] at hunhealthy

end Balancer.Firm

end Firm

end RobotFactory
