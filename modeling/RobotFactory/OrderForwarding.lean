import RobotFactory.MasterChoice

/-!
# Where orders go

A session asks for the master once, before its first request, and keeps the stub
for its life. Its orders go to the worker that was master when the call read or set
`master_node_id`, which is the current one only as long as the master has not
changed since, and may be an old one already when the call returns.
-/
namespace RobotFactory
open TransitionSystem

namespace Balancer

abbrev KeepsMaster (b c : Balancer) : Prop :=
  Run balancerStep (fun u a => ∀ u', balancerStep u a = some u' →
    u'.lb.masterNodeId = u.lb.masterNodeId) b c

theorem KeepsMaster.masterNodeId_eq {b c : Balancer} (h : b.KeepsMaster c) :
    c.lb.masterNodeId = b.lb.masterNodeId :=
  h.invariant (fun u => u.lb.masterNodeId = b.lb.masterNodeId)
    (fun _ _ _ hinv hok hstep => (hok _ hstep).trans hinv) rfl

/-- On the way from `b₀` to `b`, the step to `v` is where the call of session `e` has
read or set `master_node_id` and got the address for `stub`. -/
structure Found (b₀ b : Balancer) (e : ℕ) (stub : ClientStub) (v : Balancer) : Prop where
  finds : ∃ u a, b₀.Reaches u ∧ (u.sessions e).InCall ∧ (u.sessions e).masterNode? = none ∧
    balancerStep u a = some v
  later : v.Reaches b
  found : (v.sessions e).masterNode? = some (some stub)

theorem Found.masterNodeId_eq {b₀ b v : Balancer} {e : ℕ} {stub : ClientStub}
    (h : b₀.Found b e stub v) : v.lb.masterNodeId = stub.workerNode := by
  obtain ⟨u, a, -, -, hnone, hstep⟩ := h.finds
  exact found_some hnone hstep h.found

/-- A session that has a master has found it in a call. -/
def HasFound (b₀ b : Balancer) : Prop :=
  b₀.Reaches b ∧ ∀ e stub, (b.sessions e).masterNode? = some (some stub) →
    ∃ v, b₀.Found b e stub v

theorem HasFound.step {b₀ b b' : Balancer} {a : BalancerAction} (h : b₀.HasFound b)
    (hstep : balancerStep b a = some b') : b₀.HasFound b' := by
  refine ⟨h.1.next trivial hstep, fun e stub hstub => ?_⟩
  have hold (hm : (b.sessions e).masterNode? = some (some stub)) :
      ∃ v, b₀.Found b' e stub v := by
    obtain ⟨v, hv⟩ := h.2 e stub hm
    exact ⟨v, hv.finds, hv.later.next trivial hstep, hv.found⟩
  have hnew (hcall : (b.sessions e).InCall) (hnone : (b.sessions e).masterNode? = none) :
      ∃ v, b₀.Found b' e stub v := ⟨b', ⟨b, a, h.1, hcall, hnone, hstep⟩, .start, hstub⟩
  have hmove := session_step hstep e
  generalize hx : b.sessions e = x at hmove hold hnew
  generalize hx' : b'.sessions e = x' at hmove hstub
  cases hmove with
  | same | connected | selected => exact hold hstub
  | changed | read => exact hnew trivial rfl
  | accepted | current | none | refused | closed => cases hstub

/-- A session that serves its client keeps its stubs. -/
theorem serving_kept {b c : Balancer} (h : b.Reaches c) {e : ℕ} {masterNode cs : Option ClientStub}
    (hserving : b.sessions e = .serving masterNode cs) :
    c.sessions e = .serving masterNode cs ∨ c.sessions e = .ended := by
  refine h.invariant (fun u => u.sessions e = .serving masterNode cs ∨ u.sessions e = .ended)
    (fun u a u' hinv _ hstep => ?_) (.inl hserving)
  have hmove := session_step hstep e
  rcases hinv with hx | hx <;> rw [hx] at hmove <;> generalize u'.sessions e = x' at hmove ⊢ <;>
    cases hmove <;> simp

end Balancer

/-- Every order of a session goes to the worker that was master when the session's
call read or set `master_node_id`, and to no other afterwards. This is the current
master if it has not changed since, and two sessions have the same worker if it has
not changed between these moments. A session without a master forwards nothing. -/
theorem orders_follow_first_master {workerNodesMap : Finmap fun _ : ℤ => String × ℤ}
    {b b' : Balancer} {e : ℕ} {getOrder : OrderInf}
    (hrun : (Balancer.started workerNodesMap).Reaches b) (htype : getOrder.requestType = 1)
    (hstep : balancerStep b (.request e getOrder) = some b') :
    ∃ masterNode cs, b.sessions e = .serving masterNode cs ∧
      (masterNode = none → b'.forwards = b.forwards) ∧
      (∀ stub, masterNode = some stub →
        b'.forwards = b.forwards ++ [⟨e, getOrder, stub.workerNode, b.lb.masterNodeId⟩] ∧
        ∃ v, (Balancer.started workerNodesMap).Found b e stub v ∧
          v.lb.masterNodeId = stub.workerNode ∧
          (v.KeepsMaster b → stub.workerNode = b.lb.masterNodeId) ∧
          ∀ e₂ stub₂ v₂, (Balancer.started workerNodesMap).Found b e₂ stub₂ v₂ →
            v.KeepsMaster v₂ → stub₂.workerNode = stub.workerNode) ∧
      ∀ c masterNode' cs', b'.Reaches c → c.sessions e = .serving masterNode' cs' →
        masterNode' = masterNode := by
  have hfound := hrun.invariant (Balancer.started workerNodesMap).HasFound
    (fun _ _ _ hinv _ hnext => hinv.step hnext) ⟨.start, fun e stub hstub => by cases hstub⟩
  cases Balancer.balancerStep_cases hstep with
  | request _ _ masterNode cs hserving =>
    refine ⟨masterNode, cs, hserving, ?_, ?_, ?_⟩
    · rintro rfl
      rfl
    · rintro stub rfl
      obtain ⟨v, hv⟩ := hfound.2 e stub (by rw [hserving]; rfl)
      refine ⟨?_, v, hv, hv.masterNodeId_eq, fun hkeeps => ?_, fun e₂ stub₂ v₂ hv₂ hkeeps => ?_⟩
      · simp only [Balancer.forward, htype, if_true]
      · rw [← hv.masterNodeId_eq, hkeeps.masterNodeId_eq]
      · rw [← hv.masterNodeId_eq, ← hv₂.masterNodeId_eq, hkeeps.masterNodeId_eq]
    · intro c masterNode' cs' hlater hserving'
      have hserving₁ : (b.forward e masterNode getOrder).sessions e = .serving masterNode cs := by
        rw [(b.forward_eq e masterNode getOrder).2, hserving]
      rcases Balancer.serving_kept hlater hserving₁ with hsame | hended
      · rw [hsame] at hserving'
        cases hserving'
        rfl
      · rw [hended] at hserving'
        cases hserving'

/-- A session of the first master forwards to it. -/
theorem orders_follow_first_master_two : ∃ b b' : Balancer,
    balancerStep b (.request 0 ⟨7, 1, 1⟩) = some b' ∧
    b'.forwards = b.forwards ++ [⟨0, ⟨7, 1, 1⟩, 0, 0⟩] ∧
    ∃ v, (Balancer.started twoWorkers).Found b 0 ⟨0, "10.0.0.1", 8000⟩ v ∧
      v.lb.masterNodeId = 0 := by
  have hrun : ∃ b b', (Balancer.started twoWorkers).Reaches b ∧
      balancerStep b (.request 0 ⟨7, 1, 1⟩) = some b' ∧ b.lb.masterNodeId = 0 ∧
      (b.sessions 0).masterNode? = some (some ⟨0, "10.0.0.1", 8000⟩) :=
    ⟨_, _, ((((Run.start.next (a := .accept 0) trivial rfl).next
      (a := .getMasterNode 0) trivial rfl).next
      (a := .readMasterNode 0) trivial rfl).next
      (a := .initMaster 0) trivial rfl).next
      (a := .selectWorker 0) trivial rfl, rfl, rfl, rfl⟩
  obtain ⟨b, b', hrun, hstep, hmaster, hstub⟩ := hrun
  obtain ⟨masterNode, cs, hserving, -, hforward, -⟩ :=
    orders_follow_first_master hrun (by decide) hstep
  rw [hserving] at hstub
  obtain ⟨hforwards, v, hv, hthen, -⟩ := hforward _ (Option.some.inj hstub)
  rw [hmaster] at hforwards
  exact ⟨b, b', hstep, hforwards, v, hv, hthen⟩

/-- After a change of the master, an old session forwards to the old one, a new
session to the new one. -/
theorem orders_follow_old_master : ∃ b : Balancer, (Balancer.started twoWorkers).Reaches b ∧
    b.lb.masterNodeId = 1 ∧
    b.forwards = [⟨1, ⟨7, 1, 1⟩, 1, 1⟩, ⟨0, ⟨7, 2, 1⟩, 0, 1⟩] ∧
    ¬∀ f ∈ b.forwards, f.workerNode = f.masterNodeId := by
  have hrun : ∃ b, (Balancer.started twoWorkers).Reaches b ∧ b.lb.masterNodeId = 1 ∧
      b.forwards = [⟨1, ⟨7, 1, 1⟩, 1, 1⟩, ⟨0, ⟨7, 2, 1⟩, 0, 1⟩] :=
    ⟨_, (((((((((((Run.start.next (a := .accept 0) trivial rfl).next
      (a := .getMasterNode 0) trivial rfl).next
      (a := .readMasterNode 0) trivial rfl).next
      (a := .initMaster 0) trivial rfl).next
      (a := .selectWorker 0) trivial rfl).next
      (a := .heartbeatInit) trivial rfl).next
      (a := .heartbeat false) trivial rfl).next
      (a := .accept 1) trivial rfl).next
      (a := .getMasterNode 1) trivial rfl).next
      (a := .selectWorker 1) trivial rfl).next
      (a := .request 1 ⟨7, 1, 1⟩) trivial rfl).next
      (a := .request 0 ⟨7, 2, 1⟩) trivial rfl, rfl, rfl⟩
  obtain ⟨b, hrun, hmaster, hforwards⟩ := hrun
  refine ⟨b, hrun, hmaster, hforwards, fun hall => ?_⟩
  have hold := hall ⟨0, ⟨7, 2, 1⟩, 0, 1⟩ (by simp [hforwards])
  exact absurd hold (by decide)

end RobotFactory
