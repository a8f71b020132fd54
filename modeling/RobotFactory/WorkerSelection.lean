import RobotFactory.MasterChoice
import RobotFactory.Replies

/-!
# The selection of a worker

The scan for a healthy worker sets the pointer to the stub to null at each worker
that is not healthy, and uses it at the first one that is. So it gets over no
worker: it succeeds at worker 0, or it ends in the refusal of the session, or in a
call through the null pointer.
-/
namespace RobotFactory
open TransitionSystem

/-- Only a session that is refused is answered by the negative record alone. -/
theorem sessionReplies_refused_iff {selection : Selection} :
    (∀ masterNode uninit requests, sessionReplies masterNode selection uninit requests =
      [⟨none, .cRec ⟨-1, -1⟩⟩]) ↔ selection = .refused := by
  constructor
  · intro hall
    have hnone := hall none (fun _ => .zero) []
    cases selection with
    | refused => rfl
    | worker | nullStub | unconnected => cases hnone
  · rintro rfl _ _ _
    rfl

theorem selectLoop_of_null (nodeHealth : ℤ → Bool) (is : List ℤ) :
    selectLoop nodeHealth true is = if is.any nodeHealth then .nullStub else .refused := by
  induction is with
  | nil => rfl
  | cons i is ih =>
    rw [selectLoop, List.any_cons, ih]
    cases nodeHealth i <;> rfl

namespace LoadBalancer

structure IsHealthyWorker (lb : LoadBalancer) (i : ℤ) : Prop where
  nonneg : 0 ≤ i
  lt : i < lb.workerNodeMapSize
  healthy : lb.nodeHealth i = true

/-- All that the worker selection can come to, and the cursor after it. -/
inductive SelectedWorker (lb : LoadBalancer) : Selection × LoadBalancer → Prop where
  | current (hcurrent : lb.nodeHealth lb.currentWorkerNode = true) :
      SelectedWorker lb (.worker lb.currentWorkerNode, { lb with
        currentWorkerNode :=
          if lb.currentWorkerNode + 1 = lb.workerNodeMapSize then 0
          else lb.currentWorkerNode + 1 })
  | unconnected (hcurrent : lb.nodeHealth lb.currentWorkerNode = false)
      (hnone : lb.workerNodeMapSize = 0) : SelectedWorker lb (.unconnected, lb)
  | first (hcurrent : lb.nodeHealth lb.currentWorkerNode = false)
      (hfirst : lb.IsHealthyWorker 0) : SelectedWorker lb (.worker 0, lb)
  | refused (hcurrent : lb.nodeHealth lb.currentWorkerNode = false)
      (hsome : 0 < lb.workerNodeMapSize) (hall : ∀ i, ¬lb.IsHealthyWorker i) :
      SelectedWorker lb (.refused, lb)
  | nullStub (i : ℤ) (hcurrent : lb.nodeHealth lb.currentWorkerNode = false)
      (hfirst : lb.nodeHealth 0 = false) (hi : lb.IsHealthyWorker i) :
      SelectedWorker lb (.nullStub, lb)

theorem mem_workerIndices {lb : LoadBalancer} {i : ℤ} :
    i ∈ lb.workerIndices ↔ 0 ≤ i ∧ i < lb.workerNodeMapSize := by
  simp only [workerIndices, List.mem_map, List.mem_range]
  constructor
  · rintro ⟨k, hk, rfl⟩
    omega
  · rintro ⟨h0, hi⟩
    exact ⟨i.toNat, by omega, by omega⟩

theorem any_workerIndices {lb : LoadBalancer} :
    lb.workerIndices.any lb.nodeHealth = true ↔ ∃ i, lb.IsHealthyWorker i := by
  rw [List.any_eq_true]
  constructor
  · rintro ⟨i, hi, hhealthy⟩
    obtain ⟨h0, hlt⟩ := mem_workerIndices.mp hi
    exact ⟨i, h0, hlt, hhealthy⟩
  · rintro ⟨i, hi⟩
    exact ⟨i, mem_workerIndices.mpr ⟨hi.nonneg, hi.lt⟩, hi.healthy⟩

/-- The loop of the scan looks at worker 0 with a stub, and at the others without. -/
theorem selectLoop_workerIndices {lb : LoadBalancer} (hsome : 0 < lb.workerNodeMapSize) :
    selectLoop lb.nodeHealth false lb.workerIndices =
      if lb.nodeHealth 0 then .worker 0
      else if lb.workerIndices.any lb.nodeHealth then .nullStub else .refused := by
  obtain ⟨n, hn⟩ := Nat.exists_eq_add_of_lt hsome
  have hindices : lb.workerIndices = 0 :: ((List.range n).map Nat.succ).map (↑) := by
    rw [workerIndices, hn, Nat.zero_add, List.range_succ_eq_map]
    rfl
  rw [hindices, selectLoop, selectLoop_of_null, List.any_cons]
  cases lb.nodeHealth 0 <;> rfl

/-- The inversion of `selectWorker`. -/
theorem selectWorker_cases (lb : LoadBalancer) : lb.SelectedWorker lb.selectWorker := by
  unfold selectWorker
  by_cases hcurrent : lb.nodeHealth lb.currentWorkerNode
  · rw [if_pos hcurrent]
    exact .current hcurrent
  rw [if_neg hcurrent]
  rw [Bool.not_eq_true] at hcurrent
  rcases Nat.eq_zero_or_pos lb.workerNodeMapSize with hnone | hsome
  · have hloop : selectLoop lb.nodeHealth false lb.workerIndices = .unconnected := by
      rw [workerIndices, hnone]
      rfl
    rw [hloop]
    exact .unconnected hcurrent hnone
  rw [selectLoop_workerIndices hsome]
  split_ifs with hfirst hany
  · exact .first hcurrent ⟨le_rfl, Int.natCast_pos.mpr hsome, hfirst⟩
  · obtain ⟨i, hi⟩ := any_workerIndices.mp hany
    exact .nullStub i hcurrent (by simpa using hfirst) hi
  · exact .refused hcurrent hsome fun i hi => hany (any_workerIndices.mpr ⟨i, hi⟩)

/-- The worker selection as it should be: the worker under the cursor or the
lowest healthy one, and a negative record instead exactly if there is none. -/
structure SelectsWell (lb : LoadBalancer) : Prop where
  connected : lb.selectWorker.1 ≠ .nullStub
  current : lb.nodeHealth lb.currentWorkerNode = true →
    lb.selectWorker.1 = .worker lb.currentWorkerNode
  lowest : lb.nodeHealth lb.currentWorkerNode = false → (∃ i, lb.IsHealthyWorker i) →
    ∃ i, lb.IsLowestHealthy i ∧ lb.selectWorker.1 = .worker i
  refused_iff : (∀ masterNode uninit requests,
      sessionReplies masterNode lb.selectWorker.1 uninit requests =
        [⟨none, .cRec ⟨-1, -1⟩⟩]) ↔ ∀ i, ¬lb.IsHealthyWorker i

/-- A healthy worker is well selected if it is the worker under the cursor, or the
one there is not healthy and it is the lowest that is. -/
theorem SelectsWell.of_worker {lb : LoadBalancer} {i : ℤ}
    (hselection : lb.selectWorker.1 = .worker i) (hi : lb.IsHealthyWorker i)
    (hcurrent : lb.nodeHealth lb.currentWorkerNode = true → i = lb.currentWorkerNode)
    (hlowest : lb.nodeHealth lb.currentWorkerNode = false → lb.IsLowestHealthy i) :
    lb.SelectsWell where
  connected := by
    rw [hselection]
    nofun
  current hhealthy := hcurrent hhealthy ▸ hselection
  lowest hunhealthy _ := ⟨i, hlowest hunhealthy, hselection⟩
  refused_iff := by
    rw [hselection, sessionReplies_refused_iff]
    exact iff_of_false nofun fun hall => hall i hi

/-- Without a healthy worker the session is rightly refused. -/
theorem SelectsWell.of_refused {lb : LoadBalancer} (hselection : lb.selectWorker.1 = .refused)
    (hcurrent : lb.nodeHealth lb.currentWorkerNode = false) (hall : ∀ i, ¬lb.IsHealthyWorker i) :
    lb.SelectsWell where
  connected := by
    rw [hselection]
    nofun
  current hhealthy := by simp [hcurrent] at hhealthy
  lowest _ := fun ⟨i, hi⟩ => absurd hi (hall i)
  refused_iff := by
    rw [hselection, sessionReplies_refused_iff]
    exact iff_of_true rfl hall

end LoadBalancer

/-- With the cursor on a worker, the selection is as it should be if and only if
the worker under the cursor is healthy, or worker 0 is, or none is. -/
theorem selectsWell_iff (lb : LoadBalancer) (h0 : 0 ≤ lb.currentWorkerNode)
    (hlt : lb.currentWorkerNode < lb.workerNodeMapSize) :
    lb.SelectsWell ↔ lb.nodeHealth lb.currentWorkerNode = true ∨ lb.nodeHealth 0 = true ∨
      ∀ i, ¬lb.IsHealthyWorker i := by
  have hcases := lb.selectWorker_cases
  generalize hresult : lb.selectWorker = result at hcases
  have hselection : lb.selectWorker.1 = result.1 := congrArg Prod.fst hresult
  constructor
  · intro hwell
    have hconnected := hwell.connected
    rw [hselection] at hconnected
    cases hcases with
    | current hcurrent => exact .inl hcurrent
    | unconnected _ hnone => omega
    | first _ hfirst => exact .inr (.inl hfirst.healthy)
    | refused _ _ hall => exact .inr (.inr hall)
    | nullStub => exact absurd rfl hconnected
  · intro hcond
    cases hcases with
    | current hcurrent =>
      exact .of_worker hselection ⟨h0, hlt, hcurrent⟩ (fun _ => rfl)
        fun hunhealthy => by simp [hcurrent] at hunhealthy
    | unconnected _ hnone => omega
    | first hcurrent hfirst =>
      have hlowest : lb.IsLowestHealthy 0 :=
        ⟨le_rfl, hfirst.lt, hfirst.healthy, fun j hj hj0 => absurd hj0 (by omega)⟩
      exact .of_worker hselection hfirst (fun hhealthy => by simp [hcurrent] at hhealthy)
        fun _ => hlowest
    | refused hcurrent _ hall => exact .of_refused hselection hcurrent hall
    | nullStub i hcurrent hfirst hi =>
      rw [hcurrent, hfirst] at hcond
      have hall := hcond.resolve_left nofun |>.resolve_left nofun
      exact absurd hi (hall i)

/-- Worker 1 has the cursor but does not answer the heartbeat: the scan finds worker 0. -/
theorem selectsWell_two : ∃ lb : LoadBalancer, lb.currentWorkerNode = 1 ∧
    lb.nodeHealth 1 = false ∧ lb.selectWorker.1 = .worker 0 ∧ lb.SelectsWell :=
  ⟨LoadBalancer.setHealth { LoadBalancer.new twoWorkers with currentWorkerNode := 1 } 1 false, rfl,
    rfl, rfl, (selectsWell_iff _ Int.one_pos.le (by decide)).mpr (.inr (.inl rfl))⟩

/-- Worker 0 does not answer the heartbeat, and the next session, with its cursor
there, calls a method through the null pointer. -/
theorem selection_through_null : ∃ b, (Balancer.started twoWorkers).Reaches b ∧
    b.alive = true ∧ b.sessions 0 = .selecting (some ⟨1, "10.0.0.2", 8000⟩) ∧
    b.lb.currentWorkerNode = 0 ∧ b.lb.IsHealthyWorker 1 ∧ ¬b.lb.SelectsWell ∧
    ∃ b', balancerStep b (.selectWorker 0) = some b' ∧ b'.alive = false := by
  refine ⟨_, (((Run.start.next (a := .heartbeatInit) trivial rfl).next
    (a := .heartbeat false) trivial rfl).next (a := .accept 0) trivial rfl).next
    (a := .getMasterNode 0) trivial rfl, rfl, rfl, rfl, ⟨by decide, by decide, rfl⟩, ?_, _, rfl,
    rfl⟩
  intro hwell
  exact hwell.connected rfl

end RobotFactory
