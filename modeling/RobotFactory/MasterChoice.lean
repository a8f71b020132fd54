import RobotFactory.LoadBalancer
import RobotFactory.TransitionSystem

/-!
# The choice of the master

`get_master_node` takes its decision with the lock held, but reads the address of
a healthy master after it has released the lock, and returns when it has connected.
Before the read other sessions may change the master, though only to a worker that
is healthy then. So the worker returned was healthy at some moment of the call,
whatever happens meanwhile.
-/
namespace RobotFactory
open TransitionSystem

def ClientSession.InCall : ClientSession → Prop
  | .calling => True
  | .unlocked => True
  | .connecting _ => True
  | _ => False

/-- The session has not decided on a master yet. -/
def ClientSession.Undecided : ClientSession → Prop
  | .absent => True
  | .calling => True
  | _ => False

/-- What `get_master_node` has found for the session, before or after its return. -/
def ClientSession.masterNode? : ClientSession → Option (Option ClientStub)
  | .connecting newMaster => some (some newMaster)
  | .selecting masterNode => some masterNode
  | .serving masterNode _ => some masterNode
  | _ => none

namespace Balancer

/-- A run of any steps. -/
abbrev Reaches (b c : Balancer) : Prop := Run balancerStep (fun _ _ => True) b c

/-- A run during which neither the health of a worker nor the master changes. -/
abbrev Steady (b c : Balancer) : Prop :=
  Run balancerStep (fun u a => ∀ u', balancerStep u a = some u' →
    u'.lb.nodeHealth = u.lb.nodeHealth ∧ u'.lb.masterNodeId = u.lb.masterNodeId) b c

def HasMaster (n : ℕ) (b : Balancer) : Prop :=
  b.lb.workerNodeMapSize = n ∧ 0 ≤ b.lb.masterNodeId ∧ b.lb.masterNodeId < n

theorem HasMaster.step {n : ℕ} {b b' : Balancer} {a : BalancerAction} (h : b.HasMaster n)
    (hstep : balancerStep b a = some b') : b'.HasMaster n := by
  obtain ⟨hsize, hmaster⟩ := masterNodeId_step hstep
  refine ⟨hsize.trans h.1, ?_⟩
  rcases hmaster with hsame | ⟨-, hlowest⟩
  · rw [hsame]
    exact h.2
  · exact ⟨hlowest.nonneg, by rw [← h.1]; exact hlowest.lt⟩

/-- In the call that has started in `c`, the master found healthy, or its
successor, was healthy at some moment, and so was the worker of its stub. -/
structure SeenHealthy (c : Balancer) (e : ℕ) (b : Balancer) : Prop where
  reaches : c.Reaches b
  unlocked : b.sessions e = .unlocked →
    ∃ v, c.Reaches v ∧ v.Reaches b ∧ v.lb.nodeHealth b.lb.masterNodeId = true
  connecting : ∀ stub, b.sessions e = .connecting stub →
    ∃ v, c.Reaches v ∧ v.Reaches b ∧ v.lb.nodeHealth stub.workerNode = true

theorem SeenHealthy.step {c b b' : Balancer} {e : ℕ} {a : BalancerAction} (h : c.SeenHealthy e b)
    (hstep : balancerStep b a = some b') : c.SeenHealthy e b' := by
  obtain ⟨hreaches, hseen, hconnecting⟩ := h
  have hnext : b.Reaches b' := Run.start.next trivial hstep
  have hmove := session_step hstep e
  generalize hx : b.sessions e = x at hmove
  refine ⟨hreaches.next trivial hstep, fun hunlocked => ?_, fun stub hstub => ?_⟩
  · rcases (masterNodeId_step hstep).2 with hsame | ⟨-, hlowest⟩
    · -- the same master: found healthy now or before
      rw [hunlocked] at hmove
      rw [hsame]
      cases hmove with
      | same =>
        obtain ⟨v, hcv, hvb, hv⟩ := hseen hx
        exact ⟨v, hcv, hvb.next trivial hstep, hv⟩
      | current hhealthy => exact ⟨b, hreaches, hnext, hhealthy⟩
    · exact ⟨b, hreaches, hnext, hlowest.healthy⟩
  · rw [hstub] at hmove
    have hfound : ∃ v, c.Reaches v ∧ v.Reaches b ∧ v.lb.nodeHealth stub.workerNode = true := by
      cases hmove with
      | same => exact hconnecting stub hx
      | read _ hstub =>
        rw [hstub]
        exact hseen hx
    obtain ⟨v, hcv, hvb, hv⟩ := hfound
    exact ⟨v, hcv, hvb.next trivial hstep, hv⟩

/-- A call that finds a stub has made its worker the master, or reads it there. -/
theorem found_some {b b' : Balancer} {e : ℕ} {a : BalancerAction} {stub : ClientStub}
    (hnone : (b.sessions e).masterNode? = none) (hstep : balancerStep b a = some b')
    (hfound : (b'.sessions e).masterNode? = some (some stub)) :
    b'.lb.masterNodeId = stub.workerNode := by
  have hmove := session_step hstep e
  generalize b.sessions e = x at hmove hnone
  generalize b'.sessions e = x' at hmove hfound
  cases hmove with
  | same => rw [hnone] at hfound; cases hfound
  | changed _ _ _ hmaster => cases hfound; exact hmaster
  | read _ hstub hmaster => cases hfound; exact hmaster.trans hstub.symm
  | connected | selected => cases hnone
  | accepted | current | none | refused | closed => cases hfound

theorem returned_none {b b' : Balancer} {e : ℕ} {a : BalancerAction}
    (hcall : (b.sessions e).InCall) (hstep : balancerStep b a = some b')
    (hselecting : b'.sessions e = .selecting none) (i : ℤ) (h0 : 0 ≤ i)
    (hi : i < b.lb.workerNodeMapSize) : b.lb.nodeHealth i = false := by
  have hmove := session_step hstep e
  rw [hselecting] at hmove
  generalize hx : b.sessions e = x at hmove hcall
  cases hmove with
  | same => exact hcall.elim
  | none _ hall => exact hall i h0 hi

/-- A call returns a worker that was healthy at some moment of it. -/
theorem SeenHealthy.returned {c b b' : Balancer} {e : ℕ} {a : BalancerAction}
    {stub : ClientStub} (h : c.SeenHealthy e b) (hcall : (b.sessions e).InCall)
    (hstep : balancerStep b a = some b') (hselecting : b'.sessions e = .selecting (some stub)) :
    ∃ v, c.Reaches v ∧ v.Reaches b ∧ v.lb.nodeHealth stub.workerNode = true := by
  have hmove := session_step hstep e
  rw [hselecting] at hmove
  generalize hx : b.sessions e = x at hmove hcall
  cases hmove with
  | same => exact hcall.elim
  | changed _ _ hlowest => exact ⟨b, h.reaches, .start, hlowest.healthy⟩
  | connected => exact h.connecting stub hx

/-- The result of a call during which health and master do not change. -/
def steadyMaster (b : Balancer) : Option ℤ :=
  if b.lb.nodeHealth b.lb.masterNodeId then some b.lb.masterNodeId else none

/-- A session that has decided since `c`, without a change, has decided for the master. -/
structure DecidedFor (c : Balancer) (e : ℕ) (b : Balancer) : Prop where
  nodeHealth_eq : b.lb.nodeHealth = c.lb.nodeHealth
  masterNodeId_eq : b.lb.masterNodeId = c.lb.masterNodeId
  unlocked : b.sessions e = .unlocked → c.lb.nodeHealth c.lb.masterNodeId = true
  decided : ∀ m, (b.sessions e).masterNode? = some m → m.map ClientStub.workerNode = c.steadyMaster

theorem DecidedFor.step {c b b' : Balancer} {e : ℕ} {a : BalancerAction} (h : c.DecidedFor e b)
    (hsteady : b'.lb.nodeHealth = b.lb.nodeHealth ∧ b'.lb.masterNodeId = b.lb.masterNodeId)
    (hstep : balancerStep b a = some b') : c.DecidedFor e b' := by
  have hmove := session_step hstep e
  refine ⟨hsteady.1.trans h.nodeHealth_eq, hsteady.2.trans h.masterNodeId_eq, ?_, ?_⟩
  · intro hunlocked
    rw [hunlocked] at hmove
    generalize hx : b.sessions e = x at hmove
    cases hmove with
    | same => exact h.unlocked hx
    | current hhealthy => rwa [h.nodeHealth_eq, h.masterNodeId_eq] at hhealthy
  · intro m hm
    generalize hx : b.sessions e = x at hmove
    generalize hx' : b'.sessions e = x' at hmove hm
    have hdecided := h.decided m
    rw [hx] at hdecided
    cases hmove with
    | same => exact hdecided hm
    | changed stub hunhealthy hlowest hmaster =>
      have hhealthy := hlowest.healthy
      rw [← hmaster, hsteady.2, hunhealthy] at hhealthy
      cases hhealthy
    | none hunhealthy =>
      rw [h.nodeHealth_eq, h.masterNodeId_eq] at hunhealthy
      cases hm
      simp [steadyMaster, hunhealthy]
    | read stub hstub =>
      cases hm
      have hhealthy := h.unlocked hx
      simp [steadyMaster, hhealthy, hstub, h.masterNodeId_eq]
    | connected | selected => exact hdecided hm
    | accepted | current | refused | closed => cases hm

theorem Steady.decidedFor {c b : Balancer} (h : c.Steady b) {e : ℕ}
    (hundecided : (c.sessions e).Undecided) : c.DecidedFor e b := by
  refine h.invariant (c.DecidedFor e) (fun _ _ _ hinv hok hstep => hinv.step (hok _ hstep) hstep)
    ⟨rfl, rfl, fun hunlocked => ?_, fun m hm => ?_⟩
  · rw [hunlocked] at hundecided
    exact hundecided.elim
  · cases hx : c.sessions e <;> rw [hx] at hundecided hm
    all_goals first | exact hundecided.elim | cases hm

end Balancer

/-- The choice of the master is sound and sticky. In every state reached, the
master is a worker; it changes only while it is marked unhealthy, and then to the
lowest worker that is healthy; a call returns a worker that was healthy at some
moment since its start, and NULL only if no worker is healthy; and calls during
which neither health nor master change return the same worker. -/
theorem master_choice {workerNodesMap : Finmap fun _ : ℤ => String × ℤ} {b : Balancer}
    (hn : 0 < workerNodesMap.keys.card) (hrun : (Balancer.started workerNodesMap).Reaches b) :
    (0 ≤ b.lb.masterNodeId ∧ b.lb.masterNodeId < workerNodesMap.keys.card) ∧
    (∀ a b', balancerStep b a = some b' → b'.lb.masterNodeId ≠ b.lb.masterNodeId →
      b.lb.nodeHealth b.lb.masterNodeId = false ∧ b.lb.IsLowestHealthy b'.lb.masterNodeId) ∧
    (∀ e (c₀ c : Balancer) a b', balancerStep c₀ (.accept e) = some c → c.Reaches b →
      (b.sessions e).InCall → balancerStep b a = some b' →
      (∀ stub, b'.sessions e = .selecting (some stub) →
        ∃ v, c.Reaches v ∧ v.Reaches b ∧ v.lb.nodeHealth stub.workerNode = true) ∧
      (b'.sessions e = .selecting none →
        ∀ i : ℤ, 0 ≤ i → i < workerNodesMap.keys.card → b.lb.nodeHealth i = false)) ∧
    ∀ (c b₁ : Balancer) e₁ e₂ m₁ m₂, (c.sessions e₁).Undecided → (c.sessions e₂).Undecided →
      c.Steady b₁ → b₁.Steady b → (b₁.sessions e₁).masterNode? = some m₁ →
      (b.sessions e₂).masterNode? = some m₂ →
      m₁.map ClientStub.workerNode = m₂.map ClientStub.workerNode := by
  obtain ⟨hsize, hmaster⟩ := hrun.invariant (Balancer.HasMaster workerNodesMap.keys.card)
    (fun _ _ _ hinv _ hstep => hinv.step hstep) ⟨rfl, le_rfl, Int.natCast_pos.mpr hn⟩
  refine ⟨hmaster, ?_, ?_, ?_⟩
  · intro a b' hstep hne
    exact (Balancer.masterNodeId_step hstep).2.resolve_left hne
  · intro e c₀ c a b' haccept hcall hin hstep
    have hcalling : c.sessions e = .calling := by
      cases Balancer.balancerStep_cases haccept
      exact Function.update_self ..
    have hseen := hcall.invariant (c.SeenHealthy e) (fun _ _ _ hinv _ hstep => hinv.step hstep)
      ⟨.start, fun hunlocked => (by rw [hcalling] at hunlocked; cases hunlocked),
        fun stub hstub => by rw [hcalling] at hstub; cases hstub⟩
    rw [← hsize]
    exact ⟨fun _ => hseen.returned hin hstep, Balancer.returned_none hin hstep⟩
  · intro c b₁ e₁ e₂ m₁ m₂ h₁ h₂ hsteady₁ hsteady hm₁ hm₂
    have hfirst := (hsteady₁.decidedFor h₁).decided m₁ hm₁
    have hboth : c.Steady b := hsteady₁.trans hsteady
    have hsecond := (hboth.decidedFor h₂).decided m₂ hm₂
    exact hfirst.trans hsecond.symm

def twoWorkers : Finmap fun _ : ℤ => String × ℤ :=
  List.toFinmap [⟨0, "10.0.0.1", 8000⟩, ⟨1, "10.0.0.2", 8000⟩]

/-- The master does not answer the heartbeat, and a session changes it. -/
theorem master_choice_two : ∃ b b' : Balancer, balancerStep b (.getMasterNode 0) = some b' ∧
    b.lb.masterNodeId = 0 ∧ b'.lb.masterNodeId = 1 ∧ b.lb.nodeHealth 0 = false ∧
    b.lb.IsLowestHealthy 1 := by
  have hrun : ∃ b b', (Balancer.started twoWorkers).Reaches b ∧
      balancerStep b (.getMasterNode 0) = some b' ∧ b.lb.masterNodeId = 0 ∧
      b'.lb.masterNodeId = 1 :=
    ⟨_, _, ((Run.start.next (a := .accept 0) trivial rfl).next
      (a := .heartbeatInit) trivial rfl).next (a := .heartbeat false) trivial rfl, rfl, rfl, rfl⟩
  obtain ⟨b, b', hrun, hstep, hmaster, hmaster'⟩ := hrun
  obtain ⟨-, hchange, -⟩ := master_choice (by decide) hrun
  obtain ⟨hunhealthy, hlowest⟩ := hchange _ b' hstep (by rw [hmaster, hmaster']; decide)
  exact ⟨b, b', hstep, hmaster, hmaster', hmaster ▸ hunhealthy, hmaster' ▸ hlowest⟩

end RobotFactory
