import RobotFactory.Heartbeat
import RobotFactory.WorkerSelection

/-!
# The workers that are contacted

The map of the workers has the ids of the command line as its keys, and is looked
up at the positions from 0 on. Where the ids are these positions, nothing else is
contacted and all workers are probed; any other list of ids makes the lookup of a
position insert an empty address. An id that is given twice keeps its last address.
-/
namespace RobotFactory
open TransitionSystem

/-- The map that `main` makes of the ids, addresses and ports given to it. -/
def workerNodeMap (workers : List (ℤ × String × ℤ)) : Finmap fun _ : ℤ => String × ℤ :=
  workers.foldl (fun workerNodesMap x => workerNodesMap.insert x.1 x.2) ∅

theorem lookup_insertAll {workers : List (ℤ × String × ℤ)}
    {workerNodesMap : Finmap fun _ : ℤ => String × ℤ} {i : ℤ} {address : String × ℤ}
    (h : (workers.foldl (fun workerNodesMap x => workerNodesMap.insert x.1 x.2)
      workerNodesMap).lookup i = some address) :
    (i, address) ∈ workers ∨ workerNodesMap.lookup i = some address := by
  induction workers generalizing workerNodesMap with
  | nil => exact .inr h
  | cons x workers ih =>
    rcases ih h with hmem | hlookup
    · exact .inl (List.mem_cons_of_mem x hmem)
    · by_cases hi : i = x.1
      · subst hi
        rw [Finmap.lookup_insert, Option.some.injEq] at hlookup
        exact .inl (List.mem_cons.mpr (.inl (hlookup ▸ rfl)))
      · exact .inr (by rwa [Finmap.lookup_insert_of_ne _ hi] at hlookup)

theorem mem_insertAll {workers : List (ℤ × String × ℤ)}
    {workerNodesMap : Finmap fun _ : ℤ => String × ℤ} {i : ℤ}
    (h : (∃ x ∈ workers, x.1 = i) ∨ i ∈ workerNodesMap) :
    i ∈ workers.foldl (fun workerNodesMap x => workerNodesMap.insert x.1 x.2) workerNodesMap := by
  induction workers generalizing workerNodesMap with
  | nil => exact h.resolve_left (by simp)
  | cons x workers ih =>
    refine ih ?_
    rcases h with ⟨y, hy, rfl⟩ | hold
    · rcases List.mem_cons.mp hy with rfl | hrest
      · exact .inr (Finmap.mem_insert.mpr (.inl rfl))
      · exact .inl ⟨y, hrest, rfl⟩
    · exact .inr (Finmap.mem_insert.mpr (.inr hold))

theorem lookup_workerNodeMap {workers : List (ℤ × String × ℤ)} {i : ℤ} {address : String × ℤ}
    (h : (workerNodeMap workers).lookup i = some address) : (i, address) ∈ workers :=
  (lookup_insertAll h).resolve_right (by simp)

/-- No id is given with two addresses. -/
def OneAddress (workers : List (ℤ × String × ℤ)) : Prop :=
  ∀ x ∈ workers, ∀ y ∈ workers, x.1 = y.1 → x.2 = y.2

theorem OneAddress.lookup_eq {workers : List (ℤ × String × ℤ)} (h : OneAddress workers)
    {x : ℤ × String × ℤ} (hx : x ∈ workers) : (workerNodeMap workers).lookup x.1 = some x.2 := by
  have hmem : x.1 ∈ workerNodeMap workers := mem_insertAll (.inl ⟨x, hx, rfl⟩)
  obtain ⟨address, hlookup⟩ := Finmap.mem_iff.mp hmem
  have hsame : address = x.2 := h (x.1, address) (lookup_workerNodeMap hlookup) x hx rfl
  rw [hlookup, hsame]

/-- The ids are the positions from 0 on. -/
def InOrder (workerNodesMap : Finmap fun _ : ℤ => String × ℤ) : Prop :=
  ∀ i, i ∈ workerNodesMap ↔ 0 ≤ i ∧ i < workerNodesMap.keys.card

theorem inOrder_of_mem {workerNodesMap : Finmap fun _ : ℤ => String × ℤ}
    (h : ∀ i : ℤ, 0 ≤ i → i < workerNodesMap.keys.card → i ∈ workerNodesMap) :
    InOrder workerNodesMap := by
  have hsub : (Finset.range workerNodesMap.keys.card).image (fun k : ℕ => (k : ℤ)) ⊆
      workerNodesMap.keys := by
    intro i hi
    obtain ⟨k, hk, rfl⟩ := Finset.mem_image.mp hi
    have hlt := Finset.mem_range.mp hk
    exact Finmap.mem_keys.mpr (h k (Int.natCast_nonneg k) (by omega))
  have heq := Finset.eq_of_subset_of_card_le hsub (by
    rw [Finset.card_image_of_injective _ Nat.cast_injective, Finset.card_range])
  refine fun i => ⟨fun hi => ?_, fun hi => h i hi.1 hi.2⟩
  rw [← Finmap.mem_keys, ← heq] at hi
  obtain ⟨k, hk, rfl⟩ := Finset.mem_image.mp hi
  have hlt := Finset.mem_range.mp hk
  exact ⟨Int.natCast_nonneg k, by omega⟩

def stubOf (workerNodesMap : Finmap fun _ : ℤ => String × ℤ) (i : ℤ) : ClientStub :=
  ⟨i, (workerNodesMap.lookup i).getD ("", 0)⟩

namespace LoadBalancer

theorem initStub_fst (lb : LoadBalancer) (i : ℤ) :
    (lb.initStub i).1 = stubOf lb.workerNodesMap i := by
  unfold initStub stubOf
  cases lb.workerNodesMap.lookup i <;> rfl

theorem initStub_of_mem {lb : LoadBalancer} {i : ℤ} (h : i ∈ lb.workerNodesMap) :
    (lb.initStub i).2 = lb := by
  obtain ⟨address, haddress⟩ := Finmap.mem_iff.mp h
  unfold initStub
  rw [haddress]

theorem mem_initStub (lb : LoadBalancer) (i : ℤ) : i ∈ (lb.initStub i).2.workerNodesMap := by
  unfold initStub
  split
  · rename_i address haddress
    exact Finmap.mem_iff.mpr ⟨address, haddress⟩
  · exact Finmap.mem_insert.mpr (.inl rfl)

theorem mem_initStub_of_mem {lb : LoadBalancer} {j : ℤ} (h : j ∈ lb.workerNodesMap) (i : ℤ) :
    j ∈ (lb.initStub i).2.workerNodesMap := by
  unfold initStub
  split
  · exact h
  · exact Finmap.mem_insert.mpr (.inr h)

theorem heartbeatStubs_of_mem (is : List ℤ) {lb : LoadBalancer}
    (h : ∀ i ∈ is, i ∈ lb.workerNodesMap) :
    lb.heartbeatStubs is = is.map (stubOf lb.workerNodesMap) := by
  induction is with
  | nil => rfl
  | cons i is ih =>
    obtain ⟨hi, his⟩ := List.forall_mem_cons.mp h
    rw [heartbeatStubs, initStub_fst, initStub_of_mem hi, ih his, List.map_cons]

/-- The start of the heartbeat leaves every position behind as a key. -/
theorem mem_heartbeatInit {lb : LoadBalancer} {i : ℤ} (h : i ∈ lb.workerIndices) :
    i ∈ lb.heartbeatInit.workerNodesMap := by
  have hmem : i ∈ lb.workerIndices ∨ i ∈ lb.workerNodesMap := .inl h
  clear h
  unfold heartbeatInit
  generalize lb.workerIndices = is at hmem
  induction is generalizing lb with
  | nil => exact hmem.resolve_left List.not_mem_nil
  | cons j is ih =>
    rw [List.foldl_cons]
    refine ih ?_
    rcases hmem with hmem | hmem
    · rcases List.mem_cons.mp hmem with rfl | hmem
      · exact .inr (lb.mem_initStub i)
      · exact .inl hmem
    · exact .inr (mem_initStub_of_mem hmem j)

/-- On keys the start of the heartbeat changes the marks only. -/
theorem heartbeatInit_of_mem {lb : LoadBalancer}
    (h : ∀ i ∈ lb.workerIndices, i ∈ lb.workerNodesMap) :
    lb.heartbeatInit.workerNodesMap = lb.workerNodesMap ∧
      ∀ i, lb.heartbeatInit.nodeHealth i = true →
        i ∈ lb.workerIndices ∨ lb.nodeHealth i = true := by
  unfold heartbeatInit
  generalize lb.workerIndices = is at h
  induction is generalizing lb with
  | nil => exact ⟨rfl, fun _ => .inr⟩
  | cons j is ih =>
    obtain ⟨hj, his⟩ := List.forall_mem_cons.mp h
    rw [List.foldl_cons, initStub_of_mem hj]
    obtain ⟨hmap, hhealth⟩ := @ih
      { lb with nodeHealth := Function.update lb.nodeHealth j true } his
    refine ⟨hmap, fun i hi => ?_⟩
    rcases hhealth i hi with hmem | hmarked
    · exact .inl (List.mem_cons_of_mem _ hmem)
    · by_cases hij : i = j
      · exact .inl (hij ▸ List.mem_cons_self)
      · exact .inr (by simpa [Function.update_of_ne hij] using hmarked)

end LoadBalancer

/-- The map of the workers is as configured, and its keys are the positions. -/
structure Balancer.Configured (workerNodesMap : Finmap fun _ : ℤ => String × ℤ) (b : Balancer) :
    Prop where
  size_eq : b.lb.workerNodeMapSize = workerNodesMap.keys.card
  map_eq : b.lb.workerNodesMap = workerNodesMap
  healthy_mem : ∀ i, b.lb.nodeHealth i = true → i ∈ workerNodesMap
  master_mem : ∀ e, b.sessions e = .unlocked → b.lb.masterNodeId ∈ workerNodesMap

section Configured

variable {workerNodesMap : Finmap fun _ : ℤ => String × ℤ}

namespace Balancer

theorem started_configured (horder : InOrder workerNodesMap) :
    (started workerNodesMap).Configured workerNodesMap where
  size_eq := rfl
  map_eq := rfl
  healthy_mem i hi := (horder i).mpr (by simpa [started, LoadBalancer.new] using hi)
  master_mem e he := by cases he

namespace Configured

theorem mem_of_index {b : Balancer} (h : b.Configured workerNodesMap)
    (horder : InOrder workerNodesMap) : ∀ i ∈ b.lb.workerIndices, i ∈ b.lb.workerNodesMap := by
  intro i hi
  obtain ⟨h0, hlt⟩ := LoadBalancer.mem_workerIndices.mp hi
  rw [h.map_eq]
  exact (horder i).mpr ⟨h0, h.size_eq ▸ hlt⟩

/-- The master is a key whenever it is looked up. -/
theorem master_step {b b' : Balancer} {a : BalancerAction} (h : b.Configured workerNodesMap)
    (hstep : balancerStep b a = some b') (e : ℕ) (hunlocked : b'.sessions e = .unlocked) :
    b'.lb.masterNodeId ∈ workerNodesMap := by
  rcases (masterNodeId_step hstep).2 with hsame | ⟨-, hlowest⟩
  · rw [hsame]
    have hmove := session_step hstep e
    rw [hunlocked] at hmove
    generalize hx : b.sessions e = x at hmove
    cases hmove with
    | same => exact h.master_mem e hx
    | current hhealthy => exact h.healthy_mem _ hhealthy
  · exact h.healthy_mem _ hlowest.healthy

theorem selectWorker_mem {b : Balancer} (h : b.Configured workerNodesMap) {i : ℤ}
    (hi : b.lb.selectWorker.1 = .worker i) : i ∈ workerNodesMap := by
  have hcases := b.lb.selectWorker_cases
  generalize b.lb.selectWorker = result at hcases hi
  cases hcases with
  | current hcurrent =>
    cases hi
    exact h.healthy_mem _ hcurrent
  | first _ hfirst =>
    cases hi
    exact h.healthy_mem _ hfirst.healthy
  | unconnected | refused | nullStub => cases hi

theorem map_step {b b' : Balancer} {a : BalancerAction} (h : b.Configured workerNodesMap)
    (horder : InOrder workerNodesMap) (hstep : balancerStep b a = some b') :
    b'.lb.workerNodesMap = workerNodesMap := by
  have hmap := h.map_eq
  cases balancerStep_cases hstep with
  | accept | current | none | connected | closed | crashed | heartbeat => exact hmap
  | changed e i _ _ hlowest =>
    have hmem : i ∈ b.lb.workerNodesMap := hmap ▸ h.healthy_mem i hlowest.healthy
    exact (congrArg LoadBalancer.workerNodesMap (LoadBalancer.initStub_of_mem
      (show i ∈ ({ b.lb with masterNodeId := i } : LoadBalancer).workerNodesMap from hmem))).trans
      hmap
  | read e hunlocked =>
    have hmem : b.lb.masterNodeId ∈ b.lb.workerNodesMap := hmap ▸ h.master_mem e hunlocked
    exact (congrArg LoadBalancer.workerNodesMap (LoadBalancer.initStub_of_mem hmem)).trans hmap
  | selected e masterNode =>
    have hsame := b.lb.selectWorker_workerNodesMap.trans hmap
    unfold selected
    split
    · rename_i i hi
      have hmem : i ∈ b.lb.selectWorker.2.workerNodesMap := hsame ▸ h.selectWorker_mem hi
      exact (congrArg LoadBalancer.workerNodesMap (LoadBalancer.initStub_of_mem hmem)).trans hsame
    · exact hsame
    · exact hsame
    · exact hsame
  | request e getOrder masterNode =>
    rw [(b.forward_eq e masterNode getOrder).1]
    exact hmap
  | heartbeatInit =>
    exact (LoadBalancer.heartbeatInit_of_mem (h.mem_of_index horder)).1.trans hmap

theorem healthy_step {b b' : Balancer} {a : BalancerAction} (h : b.Configured workerNodesMap)
    (horder : InOrder workerNodesMap) (hstep : balancerStep b a = some b') (i : ℤ)
    (hi : b'.lb.nodeHealth i = true) : i ∈ workerNodesMap := by
  cases hsession : a.ofSession with
  | true =>
    rw [(session_nodeHealth hsession hstep).1] at hi
    exact h.healthy_mem i hi
  | false =>
    cases balancerStep_cases hstep with
    | heartbeatInit =>
      have hindex := h.mem_of_index horder
      rcases (LoadBalancer.heartbeatInit_of_mem hindex).2 i hi with hmem | hmarked
      · exact h.map_eq ▸ hindex i hmem
      · exact h.healthy_mem i hmarked
    | heartbeat answered k hk hlt =>
      by_cases hik : i = k
      · rw [hik]
        exact (horder k).mpr ⟨Int.natCast_nonneg k, by rw [← h.size_eq]; omega⟩
      · simp only [LoadBalancer.setHealth, Function.update_of_ne hik] at hi
        exact h.healthy_mem i hi
    | accept | current | changed | none | read | connected | selected | request | closed
    | crashed =>
      cases hsession

theorem step {b b' : Balancer} {a : BalancerAction} (h : b.Configured workerNodesMap)
    (horder : InOrder workerNodesMap) (hstep : balancerStep b a = some b') :
    b'.Configured workerNodesMap where
  size_eq := (masterNodeId_step hstep).1.trans h.size_eq
  map_eq := h.map_step horder hstep
  healthy_mem := h.healthy_step horder hstep
  master_mem := h.master_step hstep

theorem newStubs {b b' : Balancer} {a : BalancerAction} (h : b.Configured workerNodesMap)
    (horder : InOrder workerNodesMap) (hstep : balancerStep b a = some b') :
    ∀ stub ∈ b.newStubs a, ∃ i ∈ workerNodesMap, stub = stubOf workerNodesMap i := by
  intro stub hstub
  cases a with
  | getMasterNode e =>
    have hcases := b.lb.getMasterNode_cases
    simp only [Balancer.newStubs] at hstub
    revert hcases hstub
    generalize b.lb.getMasterNode = result
    obtain ⟨decision, lb'⟩ := result
    intro hstub hcases
    cases hcases with
    | current => cases hstub
    | none => cases hstub
    | changed i _ hlowest =>
      simp only [Option.toList_some, List.mem_singleton] at hstub
      exact ⟨i, h.healthy_mem i hlowest.healthy,
        by rw [hstub, LoadBalancer.initStub_fst, h.map_eq]⟩
  | readMasterNode e =>
    rw [List.mem_singleton.mp hstub, LoadBalancer.initStub_fst, h.map_eq]
    cases balancerStep_cases hstep with
    | read _ hunlocked => exact ⟨_, h.master_mem e hunlocked, rfl⟩
  | selectWorker e =>
    simp only [Balancer.newStubs] at hstub
    split at hstub
    · rename_i i hi
      rw [List.mem_singleton.mp hstub, LoadBalancer.initStub_fst,
        LoadBalancer.selectWorker_workerNodesMap, h.map_eq]
      exact ⟨i, h.selectWorker_mem hi, rfl⟩
    · cases hstub
  | heartbeatInit =>
    have hindex := h.mem_of_index horder
    simp only [Balancer.newStubs, LoadBalancer.heartbeatStubs_of_mem _ hindex] at hstub
    obtain ⟨i, hi, rfl⟩ := List.mem_map.mp hstub
    rw [h.map_eq] at hindex ⊢
    exact ⟨i, hindex i hi, rfl⟩
  | accept | initMaster | request | close | heartbeat => cases hstub

end Configured

end Balancer

namespace Watched

/-- The load balancer has contacted given workers only, has no other key, and has
probed every worker given once it has made as many probes as there are keys. -/
structure KeepsTo (workers : List (ℤ × String × ℤ)) (w : Watched) : Prop where
  contacts : ∀ address ∈ w.contacts, ∃ i, (i, address) ∈ workers
  keys : ∀ i ∈ w.balancer.lb.workerNodesMap, i ∈ workerNodeMap workers
  probed : (workerNodeMap workers).keys.card ≤ w.probed.length →
    ∀ x ∈ workers, ⟨x.1, x.2⟩ ∈ w.probed

/-- The stubs of the heartbeat are made for the positions, and those in front of
the next one have been probed; all of them once the loop has gone round. -/
structure GoesRound (workerNodesMap : Finmap fun _ : ℤ => String × ℤ) (w : Watched) : Prop where
  configured : w.balancer.Configured workerNodesMap
  contacts : ∀ address ∈ w.contacts, ∃ i, workerNodesMap.lookup i = some address
  unstarted : w.balancer.nextProbe = none → w.probed = []
  probed_eq : ∀ stub ∈ w.probed, ∃ i, stub = stubOf workerNodesMap i
  array_eq : ∀ k, w.balancer.nextProbe = some k → w.hbWorkerNodeArray =
    (List.range workerNodesMap.keys.card).map fun j : ℕ => stubOf workerNodesMap j
  before : ∀ k, w.balancer.nextProbe = some k → ∀ j < k, stubOf workerNodesMap j ∈ w.probed
  round : ∀ k, w.balancer.nextProbe = some k → w.probed.length = k ∨
    ∀ j < workerNodesMap.keys.card, stubOf workerNodesMap j ∈ w.probed

theorem lookup_stubOf {i : ℤ} (h : i ∈ workerNodesMap) :
    workerNodesMap.lookup i = some (stubOf workerNodesMap i).address := by
  obtain ⟨address, haddress⟩ := Finmap.mem_iff.mp h
  rw [stubOf, haddress, Option.getD_some]

/-- New contacts are configured as the old ones are. -/
theorem GoesRound.contacted {w : Watched} {b : Balancer} {a : BalancerAction}
    (h : w.GoesRound workerNodesMap) (horder : InOrder workerNodesMap)
    (hstep : balancerStep w.balancer a = some b) :
    ∀ address ∈ w.contacted a, ∃ i, workerNodesMap.lookup i = some address := by
  intro address haddress
  rcases List.mem_append.mp haddress with hold | hnew
  · exact h.contacts address hold
  · obtain ⟨stub, hstub, rfl⟩ := List.mem_map.mp hnew
    obtain ⟨i, hi, rfl⟩ := h.configured.newStubs horder hstep stub hstub
    exact ⟨i, lookup_stubOf hi⟩

theorem GoesRound.step {w w' : Watched} {a : WatchedAction} (h : w.GoesRound workerNodesMap)
    (horder : InOrder workerNodesMap) (hstep : watchedStep w a = some w') :
    w'.GoesRound workerNodesMap := by
  cases watchedStep_cases hstep with
  | session a b hsession hbalancer =>
    have hnext := (Balancer.session_nodeHealth hsession hbalancer).2
    exact ⟨h.configured.step horder hbalancer, h.contacted horder hbalancer,
      fun hnone => h.unstarted (hnext ▸ hnone), h.probed_eq,
      fun k hk => h.array_eq k (hnext ▸ hk), fun k hk => h.before k (hnext ▸ hk),
      fun k hk => h.round k (hnext ▸ hk)⟩
  | heartbeatInit connects b hbalancer =>
    have hconfigured := h.configured.step horder hbalancer
    have hcontacts := h.contacted horder hbalancer
    cases Balancer.balancerStep_cases hbalancer with
    | heartbeatInit hfirst =>
      have harray : w.balancer.newStubs .heartbeatInit =
          (List.range workerNodesMap.keys.card).map fun j : ℕ => stubOf workerNodesMap j := by
        rw [Balancer.newStubs,
          LoadBalancer.heartbeatStubs_of_mem _ (h.configured.mem_of_index horder),
          LoadBalancer.workerIndices, h.configured.size_eq, h.configured.map_eq, List.map_map]
        rfl
      have hnil := h.unstarted hfirst
      refine ⟨hconfigured, hcontacts, fun _ => hnil, h.probed_eq, fun _ _ => harray,
        fun k hk j hj => ?_, fun k hk => .inl ?_⟩
      · cases hk
        exact absurd hj (Nat.not_lt_zero j)
      · cases hk
        exact congrArg List.length hnil
  | heartbeat probe i b hprobe hbalancer =>
    have hconfigured := h.configured.step horder hbalancer
    have harray := h.array_eq i hprobe
    have hbefore := h.before i hprobe
    have hround := h.round i hprobe
    cases Balancer.balancerStep_cases hbalancer with
    | heartbeat _ k hk hlt =>
      obtain rfl := Option.some.inj (hprobe.symm.trans hk)
      have hsize := h.configured.size_eq
      have hstub : (w.hbWorkerNodeArray[i]?).toList = [stubOf workerNodesMap i] := by
        rw [harray, List.getElem?_map, List.getElem?_range (by omega)]
        rfl
      have hmore {j : ℕ} (hj : j < i + 1) :
          stubOf workerNodesMap j ∈ w.probed ++ (w.hbWorkerNodeArray[i]?).toList := by
        rw [hstub]
        rcases Nat.lt_succ_iff_lt_or_eq.mp hj with hlt | rfl
        · exact List.mem_append_left _ (hbefore j hlt)
        · exact List.mem_append_right _ (List.mem_singleton.mpr rfl)
      refine ⟨hconfigured, h.contacts, ?_, fun stub hmem => ?_, fun _ _ => harray,
        fun k hk j hj => ?_, fun k hk => ?_⟩
      · rintro ⟨⟩
      · rw [hstub] at hmem
        rcases List.mem_append.mp hmem with hold | hnew
        · exact h.probed_eq stub hold
        · exact ⟨i, List.mem_singleton.mp hnew⟩
      · simp only [Option.some.injEq] at hk
        split_ifs at hk with hend
        · exact hmore (hk ▸ hj)
        · omega
      · simp only [Option.some.injEq] at hk
        split_ifs at hk with hend
        · refine hround.imp (fun hlen => ?_) fun hall j hj => List.mem_append_left _ (hall j hj)
          rw [hstub, List.length_append, List.length_singleton, hlen]
          exact hk
        · exact .inr fun j hj => hmore (by omega)

theorem started_goesRound (horder : InOrder workerNodesMap) :
    (started workerNodesMap).GoesRound workerNodesMap where
  configured := Balancer.started_configured horder
  contacts _ haddress := by cases haddress
  unstarted _ := rfl
  probed_eq _ hmem := by cases hmem
  array_eq _ hk := by cases hk
  before _ hk := by cases hk
  round _ hk := by cases hk

/-- The loop can go on for any number of probes. -/
theorem exists_run_probed (horder : InOrder workerNodesMap) (hsome : 0 < workerNodesMap.keys.card)
    (N : ℕ) : ∃ w, Run watchedStep (fun _ _ => True) (started workerNodesMap) w ∧
      w.probed.length = N := by
  have hgoes : ∃ w, Run watchedStep (fun _ _ => True) (started workerNodesMap) w ∧
      w.probed.length = N ∧ w.balancer.alive = true ∧
      ∃ k < workerNodesMap.keys.card, w.balancer.nextProbe = some k := by
    induction N with
    | zero =>
      exact ⟨_, Run.start.next (a := .heartbeatInit fun _ => true) trivial rfl, rfl, rfl, 0, hsome,
        rfl⟩
    | succ N ih =>
      obtain ⟨w, hrun, hlen, halive, k, hk, hnext⟩ := ih
      have hround := hrun.invariant (GoesRound workerNodesMap)
        (fun _ _ _ hinv _ hstep => hinv.step horder hstep) (started_goesRound horder)
      have hlt : k < w.balancer.lb.workerNodeMapSize := hround.configured.size_eq ▸ hk
      have hget : w.hbWorkerNodeArray[k]? = some (stubOf workerNodesMap k) := by
        rw [hround.array_eq k hnext, List.getElem?_map, List.getElem?_range hk]
        rfl
      have hstep : ∃ w', watchedStep w (.heartbeat ⟨.sendFailed, ⟨0, 0⟩, .zero⟩) = some w' ∧
          w'.probed = w.probed ++ [stubOf workerNodesMap k] ∧ w'.balancer.alive = true ∧
          w'.balancer.nextProbe =
            some (if k + 1 < w.balancer.lb.workerNodeMapSize then k + 1 else 0) := by
        simp only [watchedStep, balancerStep, Balancer.act, hnext, halive, if_pos hlt, if_true,
          Option.map_some, hget, Option.toList_some]
        exact ⟨_, rfl, rfl, rfl, rfl⟩
      obtain ⟨w', hw', hprobed, halive', hnext'⟩ := hstep
      refine ⟨w', hrun.next trivial hw', ?_, halive', _, ?_, hnext'⟩
      · rw [hprobed, List.length_append, hlen, List.length_singleton]
      · split_ifs
        · rw [← hround.configured.size_eq]
          assumption
        · exact hsome
  obtain ⟨w, hrun, hlen, -⟩ := hgoes
  exact ⟨w, hrun, hlen⟩

end Watched

end Configured

namespace Watched

/-- What goes round over the positions keeps to the workers. -/
theorem GoesRound.keepsTo {workers : List (ℤ × String × ℤ)} {w : Watched}
    (h : w.GoesRound (workerNodeMap workers)) (horder : InOrder (workerNodeMap workers))
    (hone : OneAddress workers) : w.KeepsTo workers := by
  refine ⟨fun address haddress => ?_, fun i hi => h.configured.map_eq ▸ hi, fun hlen x hx => ?_⟩
  · obtain ⟨i, hi⟩ := h.contacts address haddress
    exact ⟨i, lookup_workerNodeMap hi⟩
  · have hlookup := hone.lookup_eq hx
    obtain ⟨h0, hlt⟩ := (horder x.1).mp (Finmap.mem_iff.mpr ⟨x.2, hlookup⟩)
    obtain ⟨j, hj⟩ := Int.eq_ofNat_of_zero_le h0
    have hstub : stubOf (workerNodeMap workers) j = ⟨x.1, x.2⟩ := by
      rw [stubOf, ← hj, hlookup, Option.getD_some]
    rw [← hstub]
    cases hnext : w.balancer.nextProbe with
    | none =>
      rw [h.unstarted hnext, List.length_nil] at hlen
      omega
    | some k =>
      rcases h.round k hnext with hk | hall
      · exact h.before k hnext j (by omega)
      · exact hall j (by omega)

/-- If all workers given are probed, none of them has lost its address. -/
theorem GoesRound.oneAddress {workers : List (ℤ × String × ℤ)} {w : Watched}
    (h : w.GoesRound (workerNodeMap workers)) (hprobed : ∀ x ∈ workers, ⟨x.1, x.2⟩ ∈ w.probed) :
    OneAddress workers := by
  have haddress {x : ℤ × String × ℤ} (hx : x ∈ workers) :
      x.2 = (stubOf (workerNodeMap workers) x.1).address := by
    obtain ⟨i, hi⟩ := h.probed_eq _ (hprobed x hx)
    obtain rfl : x.1 = i := congrArg ClientStub.workerNode hi
    exact congrArg ClientStub.address hi
  intro x hx y hy hid
  rw [haddress hx, haddress hy, hid]

end Watched

/-- For any workers given to `main`: in every run the load balancer contacts only
these workers, knows no others, and probes all of them, if and only if the ids are
the positions from 0 on and none is given with two addresses. -/
theorem contacts_configured_iff (workers : List (ℤ × String × ℤ)) :
    (∀ w, Run watchedStep (fun _ _ => True) (Watched.started (workerNodeMap workers)) w →
      w.KeepsTo workers) ↔ InOrder (workerNodeMap workers) ∧ OneAddress workers := by
  have hround (horder : InOrder (workerNodeMap workers)) {w : Watched}
      (hrun : Run watchedStep (fun _ _ => True) (Watched.started (workerNodeMap workers)) w) :=
    hrun.invariant (Watched.GoesRound (workerNodeMap workers))
      (fun _ _ _ hinv _ hstep => hinv.step horder hstep) (Watched.started_goesRound horder)
  constructor
  · intro hall
    have horder : InOrder (workerNodeMap workers) := by
      refine inOrder_of_mem fun i h0 hlt => ?_
      have hinit := hall _ (Run.start.next (a := .heartbeatInit fun _ => true) trivial rfl)
      exact hinit.keys i (LoadBalancer.mem_heartbeatInit
        (LoadBalancer.mem_workerIndices.mpr ⟨h0, hlt⟩))
    refine ⟨horder, ?_⟩
    rcases Nat.eq_zero_or_pos (workerNodeMap workers).keys.card with hnone | hsome
    · intro x hx
      have hmem : x.1 ∈ workerNodeMap workers := mem_insertAll (.inl ⟨x, hx, rfl⟩)
      have hpos := (horder x.1).mp hmem
      omega
    · obtain ⟨w, hrun, hlen⟩ := Watched.exists_run_probed horder hsome _
      exact (hround horder hrun).oneAddress ((hall w hrun).probed hlen.ge)
  · rintro ⟨horder, hone⟩ w hrun
    exact (hround horder hrun).keepsTo horder hone

/-- A single worker with the id 1: the heartbeat looks up position 0 in its place. -/
theorem contacts_unconfigured : ∃ w,
    Run watchedStep (fun _ _ => True) (Watched.started (workerNodeMap [(1, "10.0.0.1", 8000)])) w ∧
    w.contacts = [("", 0)] ∧ 0 ∈ w.balancer.lb.workerNodesMap ∧
    ¬w.KeepsTo [(1, "10.0.0.1", 8000)] := by
  refine ⟨_, Run.start.next (a := .heartbeatInit fun _ => true) trivial rfl, rfl, by decide, ?_⟩
  intro hkeeps
  have hkey := hkeeps.keys 0 (by decide)
  revert hkey
  decide

end RobotFactory
