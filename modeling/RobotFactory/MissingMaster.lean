import RobotFactory.WorkerSelection

/-!
# A session without a master

A session asks for the master and selects its worker in two critical sections. If
no worker is healthy in the first one it has no master, and if one is again in the
second it goes on to its requests all the same. Orders are then refused one by
one, but the end of the session calls a method through the null pointer.
-/
namespace RobotFactory
open TransitionSystem

namespace Balancer

/-- No session takes requests without a master. -/
def MastersPresent (b : Balancer) : Prop := ∀ e cs, b.sessions e ≠ .serving none cs

/-- A session that has found no master finds no worker to go on with either: there
are workers, but neither the one under the cursor nor worker 0 is healthy. -/
def EndsWithoutMaster (b : Balancer) (a : BalancerAction) : Prop :=
  ∀ e, a = .selectWorker e → b.sessions e = .selecting none →
    0 < b.lb.workerNodeMapSize ∧ b.lb.nodeHealth b.lb.currentWorkerNode = false ∧
      b.lb.nodeHealth 0 = false

theorem MastersPresent.update {b : Balancer} (h : b.MastersPresent) (e : ℕ) {x : ClientSession}
    (hx : ∀ cs, x ≠ .serving none cs) :
    ∀ e' cs, Function.update b.sessions e x e' ≠ .serving none cs :=
  (Function.forall_update_iff b.sessions fun _ x => ∀ cs, x ≠ .serving none cs).mpr
    ⟨hx, fun e' _ => h e'⟩

/-- All that the worker selection can do to a session and to the process. -/
theorem selected_cases (b : Balancer) (e : ℕ) (masterNode : Option ClientStub) :
    (∃ cs, (b.selected e masterNode b.lb.selectWorker).sessions =
        Function.update b.sessions e (.serving masterNode cs) ∧
      (b.selected e masterNode b.lb.selectWorker).alive = b.alive ∧
      (b.lb.nodeHealth b.lb.currentWorkerNode = true ∨ b.lb.IsHealthyWorker 0 ∨
        b.lb.workerNodeMapSize = 0)) ∨
    ((b.selected e masterNode b.lb.selectWorker).sessions = b.sessions ∨
      (b.selected e masterNode b.lb.selectWorker).sessions =
        Function.update b.sessions e .ended) ∧
      0 < b.lb.workerNodeMapSize ∧ b.lb.nodeHealth b.lb.currentWorkerNode = false ∧
      b.lb.nodeHealth 0 = false := by
  have hcases := b.lb.selectWorker_cases
  generalize b.lb.selectWorker = result at hcases
  cases hcases with
  | current hcurrent => exact .inl ⟨_, rfl, rfl, .inl hcurrent⟩
  | unconnected _ hnone => exact .inl ⟨_, rfl, rfl, .inr (.inr hnone)⟩
  | first _ hfirst => exact .inl ⟨_, rfl, rfl, .inr (.inl hfirst)⟩
  | refused hcurrent hsome hall =>
    refine .inr ⟨.inr rfl, hsome, hcurrent, ?_⟩
    by_contra hhealthy
    exact hall 0 ⟨le_rfl, Int.natCast_pos.mpr hsome, by simpa using hhealthy⟩
  | nullStub i hcurrent hfirst hi =>
    have h0 := hi.nonneg
    have hlt := hi.lt
    exact .inr ⟨.inl rfl, by omega, hcurrent, hfirst⟩

theorem MastersPresent.step {b b' : Balancer} {a : BalancerAction} (h : b.MastersPresent)
    (hends : b.EndsWithoutMaster a) (hstep : balancerStep b a = some b') :
    b'.MastersPresent := by
  cases balancerStep_cases hstep with
  | accept e | current e | changed e | none e | read e | connected e | closed e =>
    exact h.update e fun _ => nofun
  | crashed | heartbeatInit | heartbeat => exact h
  | request e getOrder masterNode =>
    unfold MastersPresent
    rwa [(b.forward_eq e masterNode getOrder).2]
  | selected e masterNode hselecting =>
    unfold MastersPresent
    rcases b.selected_cases e masterNode with
      ⟨cs, hsessions, -, hgoes⟩ | ⟨hsame | hended, -⟩
    · rw [hsessions]
      cases masterNode with
      | some stub => exact h.update e fun _ => nofun
      | none =>
        obtain ⟨hsome, hcurrent, hfirst⟩ := hends e rfl hselecting
        rcases hgoes with hhealthy | hzero | hnone
        · simp [hcurrent] at hhealthy
        · simp [hzero.healthy] at hfirst
        · omega
    · rwa [hsame]
    · rw [hended]
      exact h.update e fun _ => nofun

theorem alive_of_step {b b' : Balancer} {a : BalancerAction} (h : balancerStep b a = some b') :
    b.alive = true := by
  simp only [balancerStep, Option.ite_none_right_eq_some] at h
  exact h.1

/-- A session with a master ends without a fault. -/
theorem close_alive {b b' : Balancer} {e : ℕ} (h : b.MastersPresent)
    (hstep : balancerStep b (.close e) = some b') : b'.alive = true := by
  have halive := alive_of_step hstep
  cases balancerStep_cases hstep with
  | closed => exact halive
  | crashed _ cs hserving => exact absurd hserving (h e cs)

/-- Otherwise the session goes on without a master, and its end is a fault. -/
theorem close_crashes {b b' : Balancer} {e : ℕ}
    (hstep : balancerStep b (.selectWorker e) = some b')
    (hgoes : ¬b.EndsWithoutMaster (.selectWorker e)) :
    (∃ cs, b'.sessions e = .serving none cs) ∧
      ∃ b'', balancerStep b' (.close e) = some b'' ∧ b''.alive = false := by
  have halive := alive_of_step hstep
  unfold EndsWithoutMaster at hgoes
  push Not at hgoes
  obtain ⟨e', he, hselecting, hnot⟩ := hgoes
  cases he
  cases balancerStep_cases hstep with
  | selected _ masterNode hmaster =>
    rw [hselecting] at hmaster
    cases hmaster
    rcases b.selected_cases e none with ⟨cs, hsessions, hstill, -⟩ | ⟨-, hsome, hcurrent, hfirst⟩
    · have hserving : (b.selected e none b.lb.selectWorker).sessions e = .serving none cs := by
        rw [hsessions, Function.update_self]
      refine ⟨⟨cs, hserving⟩, { b.selected e none b.lb.selectWorker with alive := false }, ?_, rfl⟩
      simp only [balancerStep, act, hstill, halive, if_true, hserving]
    · exact absurd hfirst (hnot hsome hcurrent)

end Balancer

/-- In a run in which each session that found no master finds no worker either, no
session takes requests without a master, and none ends in a call through the null
pointer. A session that does find a worker goes on without a master, and does. -/
theorem master_present {workerNodesMap : Finmap fun _ : ℤ => String × ℤ} {b : Balancer}
    (hrun : Run balancerStep Balancer.EndsWithoutMaster (Balancer.started workerNodesMap) b) :
    (∀ e cs, b.sessions e ≠ .serving none cs) ∧
    (∀ e b', balancerStep b (.close e) = some b' → b'.alive = true) ∧
    ∀ e b', balancerStep b (.selectWorker e) = some b' → ¬b.EndsWithoutMaster (.selectWorker e) →
      (∃ cs, b'.sessions e = .serving none cs) ∧
        ∃ b'', balancerStep b' (.close e) = some b'' ∧ b''.alive = false := by
  have hpresent := hrun.invariant Balancer.MastersPresent
    (fun _ _ _ hinv hends hstep => hinv.step hends hstep) (fun _ _ h => by cases h)
  exact ⟨hpresent, fun _ _ => Balancer.close_alive hpresent, fun _ _ => Balancer.close_crashes⟩

/-- A session with its master and its worker. -/
theorem master_present_two : ∃ b b' : Balancer,
    b.sessions 0 = .serving (some ⟨0, "10.0.0.1", 8000⟩) (some ⟨0, "10.0.0.1", 8000⟩) ∧
    balancerStep b (.close 0) = some b' ∧ b'.alive = true := by
  have hrun : ∃ b b', Run balancerStep Balancer.EndsWithoutMaster (Balancer.started twoWorkers) b ∧
      b.sessions 0 = .serving (some ⟨0, "10.0.0.1", 8000⟩) (some ⟨0, "10.0.0.1", 8000⟩) ∧
      balancerStep b (.close 0) = some b' := by
    refine ⟨_, _, ((((Run.start.next (a := .accept 0) (fun _ => nofun) rfl).next
      (a := .getMasterNode 0) (fun _ => nofun) rfl).next
      (a := .readMasterNode 0) (fun _ => nofun) rfl).next
      (a := .initMaster 0) (fun _ => nofun) rfl).next
      (a := .selectWorker 0) (fun e he hselecting => ?_) rfl, rfl, rfl⟩
    cases he
    cases hselecting
  obtain ⟨b, b', hrun, hserving, hclose⟩ := hrun
  exact ⟨b, b', hserving, hclose, (master_present hrun).2.1 0 b' hclose⟩

/-- Worker 0 answers the heartbeat again after the session has found no master. -/
theorem master_missing : ∃ b b' : Balancer, (Balancer.started twoWorkers).Reaches b ∧
    b.alive = true ∧ b.sessions 0 = .serving none (some ⟨0, "10.0.0.1", 8000⟩) ∧
    balancerStep b (.close 0) = some b' ∧ b'.alive = false :=
  ⟨_, _, ((((((Run.start.next (a := .heartbeatInit) trivial rfl).next
    (a := .heartbeat false) trivial rfl).next (a := .heartbeat false) trivial rfl).next
    (a := .accept 0) trivial rfl).next (a := .getMasterNode 0) trivial rfl).next
    (a := .heartbeat true) trivial rfl).next (a := .selectWorker 0) trivial rfl, rfl, rfl, rfl, rfl⟩

end RobotFactory
