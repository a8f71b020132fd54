import RobotFactory.Rotation
import RobotFactory.WorkerSelection

/-!
# The spread of the sessions

The cursor moves on while its own worker is healthy, so sessions go round over the
healthy workers from the cursor on. At the first worker that is not healthy the
cursor stays: from there all sessions go to worker 0, if it is healthy.
-/
namespace RobotFactory
open Rotation TransitionSystem

namespace LoadBalancer

/-- What `N` consecutive sessions select, and the load balancer after them. -/
def selections : ℕ → LoadBalancer → List Selection × LoadBalancer
  | 0, lb => ([], lb)
  | N + 1, lb =>
    let first := lb.selectWorker
    let rest := selections N first.2
    (first.1 :: rest.1, rest.2)

theorem selections_add (M N : ℕ) (lb : LoadBalancer) :
    (lb.selections (M + N)).1 =
      (lb.selections M).1 ++ ((lb.selections M).2.selections N).1 := by
  induction M generalizing lb with
  | zero => rw [Nat.zero_add, selections, List.nil_append]
  | succ M ih => rw [Nat.succ_add, selections, selections, ih, List.cons_append]

def HasCursor (lb : LoadBalancer) : Prop :=
  0 ≤ lb.currentWorkerNode ∧ lb.currentWorkerNode < lb.workerNodeMapSize

theorem HasCursor.selectWorker {lb : LoadBalancer} (h : lb.HasCursor) :
    lb.selectWorker.2.HasCursor := by
  have hcases := lb.selectWorker_cases
  generalize lb.selectWorker = result at hcases
  cases hcases with
  | current =>
    obtain ⟨h0, hlt⟩ := h
    unfold HasCursor
    split_ifs <;> constructor <;> simp only <;> omega
  | unconnected | first | refused | nullStub => exact h

theorem HasCursor.selections {lb : LoadBalancer} (h : lb.HasCursor) (N : ℕ) :
    (lb.selections N).2.HasCursor := by
  induction N generalizing lb with
  | zero => exact h
  | succ N ih => exact ih h.selectWorker

theorem selections_workerNodeMapSize (N : ℕ) (lb : LoadBalancer) :
    (lb.selections N).2.workerNodeMapSize = lb.workerNodeMapSize := by
  induction N generalizing lb with
  | zero => rfl
  | succ N ih => exact (ih _).trans lb.selectWorker_workerNodeMapSize

theorem selections_turns (N : ℕ) {lb : LoadBalancer} {c : ℕ} (hn : 0 < lb.workerNodeMapSize)
    (hc : lb.currentWorkerNode = (c % lb.workerNodeMapSize : ℕ))
    (hall : ∀ i ∈ turns lb.workerNodeMapSize c N, lb.nodeHealth i = true) :
    lb.selections N = ((turns lb.workerNodeMapSize c N).map fun i : ℕ => .worker i,
      { lb with currentWorkerNode := ((c + N) % lb.workerNodeMapSize : ℕ) }) := by
  induction N generalizing lb c with
  | zero =>
    rw [Nat.add_zero, ← hc]
    rfl
  | succ N ih =>
    rw [turns_succ] at hall
    obtain ⟨hfirst, hrest⟩ := List.forall_mem_cons.mp hall
    have hlt := Nat.mod_lt c hn
    have hnext : (if lb.currentWorkerNode + 1 = lb.workerNodeMapSize then 0
        else lb.currentWorkerNode + 1) = ((c + 1) % lb.workerNodeMapSize : ℕ) := by
      rw [hc, mod_succ hn]
      split_ifs <;> omega
    have hselect : lb.selectWorker = (.worker (c % lb.workerNodeMapSize : ℕ),
        { lb with currentWorkerNode := ((c + 1) % lb.workerNodeMapSize : ℕ) }) := by
      rw [selectWorker, hnext, hc, if_pos hfirst]
    have hmore := @ih { lb with currentWorkerNode := ((c + 1) % lb.workerNodeMapSize : ℕ) } (c + 1)
      hn rfl hrest
    rw [selections, hselect, turns_succ, List.map_cons, ← Nat.add_comm 1 N, ← Nat.add_assoc]
    exact congrArg (fun rest : List Selection × LoadBalancer =>
      (Selection.worker (c % lb.workerNodeMapSize : ℕ) :: rest.1, rest.2)) hmore

theorem selectWorker_first {lb : LoadBalancer}
    (hcurrent : lb.nodeHealth lb.currentWorkerNode = false) (hfirst : lb.IsHealthyWorker 0) :
    lb.selectWorker = (.worker 0, lb) := by
  have hcases := lb.selectWorker_cases
  generalize lb.selectWorker = result at hcases
  cases hcases with
  | first => rfl
  | current hhealthy => simp [hcurrent] at hhealthy
  | unconnected _ hnone => exact absurd hfirst.lt (by omega)
  | refused _ _ hall => exact absurd hfirst (hall 0)
  | nullStub i _ hunhealthy => simp [hfirst.healthy] at hunhealthy

theorem selectWorker_nullStub {lb : LoadBalancer} {i : ℤ}
    (hcurrent : lb.nodeHealth lb.currentWorkerNode = false) (hfirst : lb.nodeHealth 0 = false)
    (hi : lb.IsHealthyWorker i) : lb.selectWorker = (.nullStub, lb) := by
  have hcases := lb.selectWorker_cases
  generalize lb.selectWorker = result at hcases
  cases hcases with
  | nullStub => rfl
  | current hhealthy => simp [hcurrent] at hhealthy
  | unconnected _ hnone =>
    have h0 := hi.nonneg
    have hlt := hi.lt
    omega
  | first _ hhealthy => simp [hhealthy.healthy] at hfirst
  | refused _ _ hall => exact absurd hi (hall i)

/-- A cursor that does not move leaves everything to worker 0. -/
theorem selections_first (N : ℕ) {lb : LoadBalancer}
    (hcurrent : lb.nodeHealth lb.currentWorkerNode = false) (hfirst : lb.IsHealthyWorker 0) :
    (lb.selections N).1 = List.replicate N (.worker 0) := by
  induction N with
  | zero => rfl
  | succ N ih => rw [selections, selectWorker_first hcurrent hfirst, List.replicate_succ, ih]

/-- The workers that sessions go to before the cursor stops. -/
def stretch (lb : LoadBalancer) : List ℕ :=
  (turns lb.workerNodeMapSize lb.currentWorkerNode.toNat lb.workerNodeMapSize).takeWhile
    fun i => lb.nodeHealth i

/-- The sessions are balanced, if they all get through the selection: each is
given a healthy worker, the cursor stays on a worker, and no healthy worker is
given two sessions more than another one. -/
def Balances (lb : LoadBalancer) (N : ℕ) : Prop :=
  .nullStub ∉ (lb.selections N).1 →
    (∀ x ∈ (lb.selections N).1, ∃ i, lb.IsHealthyWorker i ∧ x = .worker i) ∧
    (∀ M ≤ N, 0 ≤ (lb.selections M).2.currentWorkerNode ∧
      (lb.selections M).2.currentWorkerNode < lb.workerNodeMapSize) ∧
    ∀ i j, lb.IsHealthyWorker i → lb.IsHealthyWorker j →
      (lb.selections N).1.count (.worker i) ≤ (lb.selections N).1.count (.worker j) + 1

/-- Every session that gets a worker gets a healthy one. -/
theorem isHealthyWorker_of_selections {lb : LoadBalancer} (h : lb.HasCursor) {N : ℕ} {x : Selection}
    (hsome : ∃ i, lb.IsHealthyWorker i) (hx : x ∈ (lb.selections N).1) (hnull : x ≠ .nullStub) :
    ∃ i, lb.IsHealthyWorker i ∧ x = .worker i := by
  induction N generalizing lb with
  | zero => cases hx
  | succ N ih =>
    have hnext (i : ℤ) : lb.selectWorker.2.IsHealthyWorker i ↔ lb.IsHealthyWorker i := by
      rw [selectWorker_eq]
      exact ⟨fun h => ⟨h.1, h.2, h.3⟩, fun h => ⟨h.1, h.2, h.3⟩⟩
    rcases List.mem_cons.mp hx with rfl | hrest
    · have hcases := lb.selectWorker_cases
      generalize lb.selectWorker = result at hcases hnull
      cases hcases with
      | current hcurrent => exact ⟨_, ⟨h.1, h.2, hcurrent⟩, rfl⟩
      | unconnected _ hnone =>
        obtain ⟨h0, hlt⟩ := h
        omega
      | first _ hfirst => exact ⟨0, hfirst, rfl⟩
      | refused _ _ hall =>
        obtain ⟨i, hi⟩ := hsome
        exact absurd hi (hall i)
      | nullStub => exact absurd rfl hnull
    · obtain ⟨i, hi⟩ := hsome
      obtain ⟨j, hj, hxj⟩ := ih h.selectWorker ⟨i, (hnext i).mpr hi⟩ hrest
      exact ⟨j, (hnext j).mp hj, hxj⟩

theorem balances_iff {lb : LoadBalancer} (h : lb.HasCursor) (hsome : ∃ i, lb.IsHealthyWorker i)
    (N : ℕ) : lb.Balances N ↔ (.nullStub ∉ (lb.selections N).1 →
      ∀ i j, lb.IsHealthyWorker i → lb.IsHealthyWorker j →
        (lb.selections N).1.count (.worker i) ≤ (lb.selections N).1.count (.worker j) + 1) := by
  constructor
  · exact fun hbalances hnull => (hbalances hnull).2.2
  · intro hcounts hnull
    refine ⟨fun x hx => ?_, fun M _ => ?_, hcounts hnull⟩
    · exact isHealthyWorker_of_selections h hsome hx fun heq => hnull (heq ▸ hx)
    · rw [← selections_workerNodeMapSize M lb]
      exact h.selections M

theorem HasCursor.eq_mod {lb : LoadBalancer} (h : lb.HasCursor) :
    lb.currentWorkerNode = (lb.currentWorkerNode.toNat % lb.workerNodeMapSize : ℕ) := by
  obtain ⟨h0, hlt⟩ := h
  rw [Nat.mod_eq_of_lt (by omega)]
  omega

theorem count_worker_turns {i : ℤ} (h0 : 0 ≤ i) (is : List ℕ) :
    (is.map fun i : ℕ => Selection.worker i).count (.worker i) = is.count i.toNat := by
  obtain ⟨i, rfl⟩ := Int.eq_ofNat_of_zero_le h0
  refine List.count_map_of_injective is (fun i : ℕ => Selection.worker i) (fun i j heq => ?_) i
  simpa using heq

theorem balances_of_turns {lb : LoadBalancer} (h : lb.HasCursor)
    (hsome : ∃ i, lb.IsHealthyWorker i) {N : ℕ}
    (hall : ∀ i ∈ turns lb.workerNodeMapSize lb.currentWorkerNode.toNat N,
      lb.nodeHealth i = true) : lb.Balances N := by
  refine (balances_iff h hsome N).mpr fun _ i j hi hj => ?_
  have hi0 := hi.nonneg
  have hilt := hi.lt
  have hj0 := hj.nonneg
  have hjlt := hj.lt
  rw [selections_turns N (by omega) h.eq_mod hall, count_worker_turns hi0, count_worker_turns hj0]
  exact count_turns_le_succ (by omega) (by omega) _ _

theorem exists_stretch_eq (lb : LoadBalancer) : ∃ k ≤ lb.workerNodeMapSize,
    lb.stretch = turns lb.workerNodeMapSize lb.currentWorkerNode.toNat k ∧
    (k < lb.workerNodeMapSize →
      lb.nodeHealth ((lb.currentWorkerNode.toNat + k) % lb.workerNodeMapSize : ℕ) = false) ∧
    ∀ i ∈ turns lb.workerNodeMapSize lb.currentWorkerNode.toNat k, lb.nodeHealth i = true := by
  obtain ⟨k, hk, heq, hstop⟩ := takeWhile_turns (fun i => lb.nodeHealth i) lb.workerNodeMapSize
    lb.currentWorkerNode.toNat lb.workerNodeMapSize
  refine ⟨k, hk, heq, hstop, fun i hi => ?_⟩
  rw [← heq] at hi
  exact List.mem_takeWhile_imp (p := fun i : ℕ => lb.nodeHealth i) hi

section Beyond

-- the first `k` workers from the cursor on are healthy, and the next one is not
variable {lb : LoadBalancer} {k : ℕ} (h : lb.HasCursor)
  (hall : ∀ i ∈ turns lb.workerNodeMapSize lb.currentWorkerNode.toNat k, lb.nodeHealth i = true)
  (hstop : lb.nodeHealth ((lb.currentWorkerNode.toNat + k) % lb.workerNodeMapSize : ℕ) = false)

include h hall hstop

theorem selections_beyond (m : ℕ) (hfirst : lb.IsHealthyWorker 0) :
    (lb.selections (k + m)).1 =
      ((turns lb.workerNodeMapSize lb.currentWorkerNode.toNat k).map fun i : ℕ => .worker i) ++
        List.replicate m (.worker 0) := by
  have hlt := hfirst.lt
  rw [selections_add, selections_turns k (by omega) h.eq_mod hall]
  congr 1
  exact selections_first m hstop ⟨hfirst.nonneg, hfirst.lt, hfirst.healthy⟩

theorem nullStub_mem_selections (m : ℕ) (hfirst : lb.nodeHealth 0 = false)
    (hsome : ∃ i, lb.IsHealthyWorker i) :
    .nullStub ∈ (lb.selections (k + (m + 1))).1 := by
  obtain ⟨i, hi⟩ := hsome
  have hi0 := hi.nonneg
  have hilt := hi.lt
  rw [selections_add, selections_turns k (by omega) h.eq_mod hall]
  have hnull := @selectWorker_nullStub { lb with currentWorkerNode :=
    ((lb.currentWorkerNode.toNat + k) % lb.workerNodeMapSize : ℕ) } i hstop hfirst
    ⟨hi0, hilt, hi.healthy⟩
  exact List.mem_append_right _ (List.mem_cons.mpr (.inl (congrArg Prod.fst hnull.symm)))

/-- The sessions are balanced within the stretch; behind it all depends on how
many sessions worker 0 gets. -/
theorem balances_beyond_iff (m : ℕ) (hk : k ≤ lb.workerNodeMapSize)
    (hfirst : lb.IsHealthyWorker 0) : lb.Balances (k + m) ↔
      ∀ i, i ≠ 0 → lb.IsHealthyWorker i →
        m + (turns lb.workerNodeMapSize lb.currentWorkerNode.toNat k).count 0 ≤
          (turns lb.workerNodeMapSize lb.currentWorkerNode.toNat k).count i.toNat + 1 := by
  have hselections := selections_beyond h hall hstop m hfirst
  have hnull : .nullStub ∉ (lb.selections (k + m)).1 := by
    rw [hselections]
    simp
  have hzero : (lb.selections (k + m)).1.count (.worker 0) =
      m + (turns lb.workerNodeMapSize lb.currentWorkerNode.toNat k).count 0 := by
    rw [hselections, List.count_append, count_worker_turns le_rfl, List.count_replicate_self,
      Nat.add_comm]
    rfl
  have hother {i : ℤ} (hi : lb.IsHealthyWorker i) (hne : i ≠ 0) :
      (lb.selections (k + m)).1.count (.worker i) =
        (turns lb.workerNodeMapSize lb.currentWorkerNode.toNat k).count i.toNat := by
    rw [hselections, List.count_append, count_worker_turns hi.nonneg, List.count_replicate,
      if_neg (by simpa using hne.symm), Nat.add_zero]
  rw [balances_iff h ⟨0, hfirst⟩]
  constructor
  · intro hcounts i hne hi
    have hcount := hcounts hnull 0 i hfirst hi
    rwa [hzero, hother hi hne] at hcount
  · intro hcond _ i j hi hj
    have hone {i : ℤ} (hi : lb.IsHealthyWorker i) :
        (turns lb.workerNodeMapSize lb.currentWorkerNode.toNat k).count i.toNat ≤ 1 := by
      have h0 := hi.nonneg
      have hlt := hi.lt
      exact count_turns_le_one (by omega) _ hk
    by_cases hi0 : i = 0
    · subst hi0
      by_cases hj0 : j = 0
      · rw [hj0]
        exact Nat.le_succ _
      · rw [hzero, hother hj hj0]
        exact hcond j hj0 hj
    · rw [hother hi hi0]
      exact (hone hi).trans (Nat.le_add_left 1 _)

end Beyond

end LoadBalancer

/-- With the cursor on a worker and some worker healthy, `N` sessions are balanced
if and only if all workers are healthy, or worker 0 is not, or the sessions behind
the stretch give worker 0 at most one more than any other healthy worker has. -/
theorem sessions_balanced_iff (lb : LoadBalancer) (N : ℕ) (h0 : 0 ≤ lb.currentWorkerNode)
    (hlt : lb.currentWorkerNode < lb.workerNodeMapSize) (hsome : ∃ i, lb.IsHealthyWorker i) :
    lb.Balances N ↔
      (∀ i : ℤ, 0 ≤ i → i < lb.workerNodeMapSize → lb.nodeHealth i = true) ∨
      lb.nodeHealth 0 = false ∨
      ∀ i, i ≠ 0 → lb.IsHealthyWorker i →
        N - lb.stretch.length + lb.stretch.count 0 ≤ lb.stretch.count i.toNat + 1 := by
  have hcursor : lb.HasCursor := ⟨h0, hlt⟩
  obtain ⟨k, hk, hstretch, hstop, hall⟩ := lb.exists_stretch_eq
  rw [hstretch, length_turns]
  rcases Nat.le_total N k with hle | hle
  · have hbalances := LoadBalancer.balances_of_turns hcursor hsome
      fun i hi => hall i (turns_subset hle hi)
    refine iff_of_true hbalances (.inr (.inr fun i _ hi => ?_))
    have hone := count_turns_le_one (show 0 < lb.workerNodeMapSize by omega)
      lb.currentWorkerNode.toNat hk
    omega
  obtain ⟨m, rfl⟩ := Nat.exists_eq_add_of_le hle
  rw [Nat.add_sub_cancel_left]
  rcases hk.eq_or_lt with rfl | hklt
  · -- the stretch goes round: all workers are healthy
    have heach (i : ℕ) (hi : i < lb.workerNodeMapSize) : lb.nodeHealth i = true :=
      hall i (mem_turns_self hi _)
    have hbalances : lb.Balances (lb.workerNodeMapSize + m) :=
      LoadBalancer.balances_of_turns hcursor hsome fun i hi => heach i (mem_turns_lt (by omega) hi)
    refine iff_of_true hbalances (.inl fun i hi0 hi => ?_)
    obtain ⟨i, rfl⟩ := Int.eq_ofNat_of_zero_le hi0
    exact heach i (by omega)
  have hnotall : ¬∀ i : ℤ, 0 ≤ i → i < lb.workerNodeMapSize → lb.nodeHealth i = true := by
    intro heach
    have hmod := Nat.mod_lt (lb.currentWorkerNode.toNat + k)
      (show 0 < lb.workerNodeMapSize by omega)
    have hhealthy := heach _ (Int.natCast_nonneg _) (Int.ofNat_lt.mpr hmod)
    rw [hstop hklt] at hhealthy
    cases hhealthy
  cases hfirst : lb.nodeHealth 0 with
  | true =>
    rw [LoadBalancer.balances_beyond_iff hcursor hall (hstop hklt) m hk
      ⟨le_rfl, by omega, hfirst⟩]
    exact ⟨fun hcond => .inr (.inr hcond),
      fun hcond => (hcond.resolve_left hnotall).resolve_left nofun⟩
  | false =>
    cases m with
    | zero =>
      exact iff_of_true (LoadBalancer.balances_of_turns hcursor hsome hall) (.inr (.inl rfl))
    | succ m =>
      have hnull := LoadBalancer.nullStub_mem_selections hcursor hall (hstop hklt) m hfirst hsome
      exact iff_of_true (fun hnot => absurd hnull hnot) (.inr (.inl rfl))

/-- Five sessions on two healthy workers. -/
theorem sessions_balanced_two : (LoadBalancer.new twoWorkers).Balances 5 :=
  (sessions_balanced_iff _ 5 le_rfl (by decide) ⟨0, le_rfl, by decide, rfl⟩).mpr
    (.inl fun i h0 hi => by simpa [LoadBalancer.new] using ⟨h0, hi⟩)

def threeWorkers : Finmap fun _ : ℤ => String × ℤ :=
  List.toFinmap [⟨0, "10.0.0.1", 8000⟩, ⟨1, "10.0.0.2", 8000⟩, ⟨2, "10.0.0.3", 8000⟩]

/-- Worker 1 does not answer the heartbeat while the cursor is there: the next two
sessions both go to worker 0, and none to worker 2. -/
theorem sessions_unbalanced : ∃ b, (Balancer.started threeWorkers).Reaches b ∧
    b.lb.currentWorkerNode = 1 ∧ b.lb.IsHealthyWorker 0 ∧ b.lb.IsHealthyWorker 2 ∧
    (b.lb.selections 2).1 = [.worker 0, .worker 0] ∧ ¬b.lb.Balances 2 := by
  have hrun : ∃ b, (Balancer.started threeWorkers).Reaches b ∧
      b.lb.currentWorkerNode = 1 ∧ b.lb.IsHealthyWorker 0 ∧ b.lb.IsHealthyWorker 2 ∧
      (b.lb.selections 2).1 = [.worker 0, .worker 0] := by
    refine ⟨_, (((((((Run.start.next (a := .accept 0) trivial rfl).next
      (a := .getMasterNode 0) trivial rfl).next (a := .readMasterNode 0) trivial rfl).next
      (a := .initMaster 0) trivial rfl).next
      (a := .selectWorker 0) trivial rfl).next (a := .heartbeatInit) trivial rfl).next
      (a := .heartbeat true) trivial rfl).next (a := .heartbeat false) trivial rfl, rfl,
      ⟨by decide, by decide, rfl⟩, ⟨by decide, by decide, rfl⟩, rfl⟩
  obtain ⟨b, hreaches, hcursor, hzero, htwo, hselections⟩ := hrun
  refine ⟨b, hreaches, hcursor, hzero, htwo, hselections, fun hbalances => ?_⟩
  rw [LoadBalancer.Balances, hselections] at hbalances
  have hcount := (hbalances (by decide)).2.2 0 2 hzero htwo
  revert hcount
  decide

end RobotFactory
