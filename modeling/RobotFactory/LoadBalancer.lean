import RobotFactory.Data

/-!
# The load balancer

The class `RobotFactory` of the load balancer with its threads: a session for each
client, and the heartbeat. A session gets the master node, selects a worker for
reads, and then forwards the requests of its client. `get_master_node` releases
the lock before it reads `master_node_id` again and connects, which are two steps
of their own; the critical sections are one step each. An entry that is missing in
`node_health` reads as false, as the value that `operator[]` inserts for it.
-/
namespace RobotFactory

/-- A `ClientStub` after `Init`: the key of the worker, and the address found for it. -/
structure ClientStub where
  workerNode : ℤ
  address : String × ℤ
  deriving DecidableEq, Repr

/-- The members of the load balancer's `RobotFactory`. -/
structure LoadBalancer where
  currentWorkerNode : ℤ
  masterNodeId : ℤ
  workerNodeMapSize : ℕ
  workerNodesMap : Finmap fun _ : ℤ => String × ℤ
  nodeHealth : ℤ → Bool

/-- What the worker selection of a session comes to: a worker, the refusal of the
session, a method call through the null pointer, or a stub that no loop has
connected. -/
inductive Selection where
  | worker (i : ℤ)
  | refused
  | nullStub
  | unconnected
  deriving DecidableEq, Repr

/-- The critical section of `get_master_node` has returned a stub or NULL, or the
current master is healthy and is looked up without the lock. -/
inductive MasterDecision where
  | returned (masterNode : Option ClientStub)
  | current
  deriving DecidableEq, Repr

/-- The loop of the worker selection; `isNull` tells whether `cs` is null. -/
def selectLoop (nodeHealth : ℤ → Bool) : Bool → List ℤ → Selection
  | isNull, [] => if isNull then .refused else .unconnected
  | isNull, i :: is =>
    if nodeHealth i then if isNull then .nullStub else .worker i
    else selectLoop nodeHealth true is

namespace LoadBalancer

def new (workerNodesMap : Finmap fun _ : ℤ => String × ℤ) : LoadBalancer where
  currentWorkerNode := 0
  masterNodeId := 0
  workerNodeMapSize := workerNodesMap.keys.card
  workerNodesMap := workerNodesMap
  nodeHealth i := 0 ≤ i ∧ i < workerNodesMap.keys.card

def workerIndices (lb : LoadBalancer) : List ℤ := (List.range lb.workerNodeMapSize).map (↑)

/-- A stub for `worker_nodes_map[i]`, which inserts a missing key. -/
def initStub (lb : LoadBalancer) (i : ℤ) : ClientStub × LoadBalancer :=
  match lb.workerNodesMap.lookup i with
  | some address => (⟨i, address⟩, lb)
  | none => (⟨i, "", 0⟩, { lb with workerNodesMap := lb.workerNodesMap.insert i ("", 0) })

/-- `get_master_node` up to the end of its critical section. -/
def getMasterNode (lb : LoadBalancer) : MasterDecision × LoadBalancer :=
  if lb.nodeHealth lb.masterNodeId then (.current, lb)
  else
    match lb.workerIndices.find? lb.nodeHealth with
    | some i =>
      let result := { lb with masterNodeId := i }.initStub i
      (.returned (some result.1), result.2)
    | none => (.returned none, lb)

/-- The critical section of the worker selection. -/
def selectWorker (lb : LoadBalancer) : Selection × LoadBalancer :=
  if lb.nodeHealth lb.currentWorkerNode then
    (.worker lb.currentWorkerNode, { lb with
      currentWorkerNode :=
        if lb.currentWorkerNode + 1 = lb.workerNodeMapSize then 0 else lb.currentWorkerNode + 1 })
  else (selectLoop lb.nodeHealth false lb.workerIndices, lb)

/-- The critical section at the start of `HertBeatHandler`. -/
def heartbeatInit (lb : LoadBalancer) : LoadBalancer :=
  lb.workerIndices.foldl (fun lb i =>
    let lb := (lb.initStub i).2
    { lb with nodeHealth := Function.update lb.nodeHealth i true }) lb

def setHealth (lb : LoadBalancer) (i : ℤ) (answered : Bool) : LoadBalancer :=
  { lb with nodeHealth := Function.update lb.nodeHealth i answered }

end LoadBalancer

/-- Where a session stands: not accepted, before and after the critical section of
`get_master_node`, inside its `Init` without the lock, before the worker selection,
before the next request of the client with its two stubs, or at its end. -/
inductive ClientSession where
  | absent
  | calling
  | unlocked
  | connecting (newMaster : ClientStub)
  | selecting (masterNode : Option ClientStub)
  | serving (masterNode cs : Option ClientStub)
  | ended
  deriving DecidableEq, Repr

/-- An order that a session has forwarded to a worker, and the master at that time. -/
structure Forward where
  session : ℕ
  order : OrderInf
  workerNode : ℤ
  masterNodeId : ℤ
  deriving DecidableEq, Repr

/-- The load balancer with its threads. `nextProbe` is the worker that the
heartbeat probes next, once it has started; `forwards` is not part of the program. -/
structure Balancer where
  lb : LoadBalancer
  alive : Bool
  sessions : ℕ → ClientSession
  nextProbe : Option ℕ
  forwards : List Forward

/-- Steps of the load balancer. `close` is the end of the requests of a client, and
`answered` tells whether the probe of the heartbeat succeeded. -/
inductive BalancerAction where
  | accept (e : ℕ)
  | getMasterNode (e : ℕ)
  | readMasterNode (e : ℕ)
  | initMaster (e : ℕ)
  | selectWorker (e : ℕ)
  | request (e : ℕ) (getOrder : OrderInf)
  | close (e : ℕ)
  | heartbeatInit
  | heartbeat (answered : Bool)

namespace Balancer

def setSession (b : Balancer) (e : ℕ) (x : ClientSession) : Balancer :=
  { b with sessions := Function.update b.sessions e x }

/-- The session after the critical section of `get_master_node`. -/
def gotMasterNode (b : Balancer) (e : ℕ) (result : MasterDecision × LoadBalancer) : Balancer :=
  match result.1 with
  | .returned masterNode => { b.setSession e (.selecting masterNode) with lb := result.2 }
  | .current => { b.setSession e .unlocked with lb := result.2 }

def selected (b : Balancer) (e : ℕ) (masterNode : Option ClientStub)
    (result : Selection × LoadBalancer) : Balancer :=
  match result.1 with
  | .worker i =>
    let init := result.2.initStub i
    { b.setSession e (.serving masterNode (some init.1)) with lb := init.2 }
  | .refused => { b.setSession e .ended with lb := result.2 }
  | .nullStub => { b with lb := result.2, alive := false }
  | .unconnected => { b.setSession e (.serving masterNode none) with lb := result.2 }

/-- An order goes to the master node of the session, if it has one. -/
def forward (b : Balancer) (e : ℕ) (masterNode : Option ClientStub) (getOrder : OrderInf) :
    Balancer :=
  match masterNode with
  | some stub =>
    if getOrder.requestType = 1 then
      { b with forwards := b.forwards ++ [⟨e, getOrder, stub.workerNode, b.lb.masterNodeId⟩] }
    else b
  | none => b

/-- A step of a thread. -/
def act (b : Balancer) : BalancerAction → Option Balancer
  | .accept e => if b.sessions e = .absent then some (b.setSession e .calling) else none
  | .getMasterNode e =>
    if b.sessions e = .calling then some (b.gotMasterNode e b.lb.getMasterNode) else none
  | .readMasterNode e =>
    if b.sessions e = .unlocked then
      let init := b.lb.initStub b.lb.masterNodeId
      some { b.setSession e (.connecting init.1) with lb := init.2 }
    else none
  | .initMaster e =>
    match b.sessions e with
    | .connecting newMaster => some (b.setSession e (.selecting (some newMaster)))
    | _ => none
  | .selectWorker e =>
    match b.sessions e with
    | .selecting masterNode => some (b.selected e masterNode b.lb.selectWorker)
    | _ => none
  | .request e getOrder =>
    match b.sessions e with
    | .serving masterNode _ => some (b.forward e masterNode getOrder)
    | _ => none
  | .close e =>
    match b.sessions e with
    | .serving (some _) _ => some (b.setSession e .ended)
    -- `master_node->ClientStubClose()` through the null pointer
    | .serving none _ => some { b with alive := false }
    | _ => none
  | .heartbeatInit =>
    if b.nextProbe = none then some { b with lb := b.lb.heartbeatInit, nextProbe := some 0 }
    else none
  | .heartbeat answered =>
    match b.nextProbe with
    | some i =>
      if i < b.lb.workerNodeMapSize then
        some { b with
          lb := b.lb.setHealth i answered
          nextProbe := some (if i + 1 < b.lb.workerNodeMapSize then i + 1 else 0) }
      else none
    | none => none

end Balancer

def balancerStep (b : Balancer) (a : BalancerAction) : Option Balancer :=
  if b.alive then b.act a else none

def Balancer.started (workerNodesMap : Finmap fun _ : ℤ => String × ℤ) : Balancer where
  lb := .new workerNodesMap
  alive := true
  sessions _ := .absent
  nextProbe := none
  forwards := []

namespace LoadBalancer

structure IsLowestHealthy (lb : LoadBalancer) (i : ℤ) : Prop where
  nonneg : 0 ≤ i
  lt : i < lb.workerNodeMapSize
  healthy : lb.nodeHealth i = true
  lowest : ∀ j, 0 ≤ j → j < i → lb.nodeHealth j = false

theorem find?_eq_some {lb : LoadBalancer} {i : ℤ}
    (h : lb.workerIndices.find? lb.nodeHealth = some i) : lb.IsLowestHealthy i := by
  rw [workerIndices, List.find?_map] at h
  obtain ⟨k, hk, rfl⟩ := Option.map_eq_some_iff.mp h
  obtain ⟨hhealthy, hmem, hlowest⟩ := List.find?_range_eq_some.mp hk
  have hlt := List.mem_range.mp hmem
  refine ⟨by omega, by omega, hhealthy, fun j h0 hj => ?_⟩
  obtain ⟨j, rfl⟩ := Int.eq_ofNat_of_zero_le h0
  simpa using hlowest j (by omega)

theorem find?_eq_none {lb : LoadBalancer} (h : lb.workerIndices.find? lb.nodeHealth = none) (i : ℤ)
    (h0 : 0 ≤ i) (hi : i < lb.workerNodeMapSize) : lb.nodeHealth i = false := by
  obtain ⟨k, rfl⟩ := Int.eq_ofNat_of_zero_le h0
  have hmem : (k : ℤ) ∈ lb.workerIndices :=
    List.mem_map_of_mem (List.mem_range.mpr (by omega))
  simpa using List.find?_eq_none.mp h k hmem

@[simp] theorem initStub_workerNode (lb : LoadBalancer) (i : ℤ) :
    (lb.initStub i).1.workerNode = i := by
  unfold initStub
  split <;> rfl

theorem initStub_eq (lb : LoadBalancer) (i : ℤ) : (lb.initStub i).2 =
    { lb with workerNodesMap := (lb.initStub i).2.workerNodesMap } := by
  unfold initStub
  split <;> rfl

@[simp] theorem initStub_masterNodeId (lb : LoadBalancer) (i : ℤ) :
    (lb.initStub i).2.masterNodeId = lb.masterNodeId := by
  rw [initStub_eq]

@[simp] theorem initStub_nodeHealth (lb : LoadBalancer) (i : ℤ) :
    (lb.initStub i).2.nodeHealth = lb.nodeHealth := by
  rw [initStub_eq]

@[simp] theorem initStub_workerNodeMapSize (lb : LoadBalancer) (i : ℤ) :
    (lb.initStub i).2.workerNodeMapSize = lb.workerNodeMapSize := by
  rw [initStub_eq]

inductive GotMasterNode (lb : LoadBalancer) : MasterDecision → LoadBalancer → Prop where
  | current (hhealthy : lb.nodeHealth lb.masterNodeId = true) : GotMasterNode lb .current lb
  | changed (i : ℤ) (hunhealthy : lb.nodeHealth lb.masterNodeId = false)
      (hlowest : lb.IsLowestHealthy i) : GotMasterNode lb
        (.returned (some ({ lb with masterNodeId := i }.initStub i).1))
        ({ lb with masterNodeId := i }.initStub i).2
  | none (hunhealthy : lb.nodeHealth lb.masterNodeId = false)
      (hall : ∀ i : ℤ, 0 ≤ i → i < lb.workerNodeMapSize → lb.nodeHealth i = false) :
      GotMasterNode lb (.returned none) lb

theorem getMasterNode_cases (lb : LoadBalancer) :
    lb.GotMasterNode lb.getMasterNode.1 lb.getMasterNode.2 := by
  unfold getMasterNode
  split_ifs with hhealthy
  · exact .current hhealthy
  · have hunhealthy : lb.nodeHealth lb.masterNodeId = false := by simpa using hhealthy
    split
    · rename_i i hfind
      exact .changed i hunhealthy (find?_eq_some hfind)
    · rename_i hfind
      exact .none hunhealthy (find?_eq_none hfind)

theorem selectWorker_eq (lb : LoadBalancer) : lb.selectWorker.2 =
    { lb with currentWorkerNode := lb.selectWorker.2.currentWorkerNode } := by
  unfold selectWorker
  split_ifs <;> rfl

@[simp] theorem selectWorker_masterNodeId (lb : LoadBalancer) :
    lb.selectWorker.2.masterNodeId = lb.masterNodeId := by
  rw [selectWorker_eq]

@[simp] theorem selectWorker_workerNodeMapSize (lb : LoadBalancer) :
    lb.selectWorker.2.workerNodeMapSize = lb.workerNodeMapSize := by
  rw [selectWorker_eq]

@[simp] theorem selectWorker_workerNodesMap (lb : LoadBalancer) :
    lb.selectWorker.2.workerNodesMap = lb.workerNodesMap := by
  rw [selectWorker_eq]

@[simp] theorem selectWorker_nodeHealth (lb : LoadBalancer) :
    lb.selectWorker.2.nodeHealth = lb.nodeHealth := by
  rw [selectWorker_eq]

theorem heartbeatInit_same (lb : LoadBalancer) :
    lb.heartbeatInit.masterNodeId = lb.masterNodeId ∧
      lb.heartbeatInit.workerNodeMapSize = lb.workerNodeMapSize := by
  unfold heartbeatInit
  generalize lb.workerIndices = is
  induction is generalizing lb with
  | nil => exact ⟨rfl, rfl⟩
  | cons i is ih =>
    rw [List.foldl_cons]
    obtain ⟨hmaster, hsize⟩ := ih
      { (lb.initStub i).2 with nodeHealth := Function.update (lb.initStub i).2.nodeHealth i true }
    exact ⟨hmaster.trans (by simp), hsize.trans (by simp)⟩

end LoadBalancer

namespace Balancer

inductive Balanced (b : Balancer) : BalancerAction → Balancer → Prop where
  | accept (e : ℕ) (habsent : b.sessions e = .absent) :
      Balanced b (.accept e) (b.setSession e .calling)
  | current (e : ℕ) (hcalling : b.sessions e = .calling)
      (hhealthy : b.lb.nodeHealth b.lb.masterNodeId = true) :
      Balanced b (.getMasterNode e) (b.setSession e .unlocked)
  | changed (e : ℕ) (i : ℤ) (hcalling : b.sessions e = .calling)
      (hunhealthy : b.lb.nodeHealth b.lb.masterNodeId = false) (hlowest : b.lb.IsLowestHealthy i) :
      Balanced b (.getMasterNode e)
        { b.setSession e (.selecting (some ({ b.lb with masterNodeId := i }.initStub i).1)) with
          lb := ({ b.lb with masterNodeId := i }.initStub i).2 }
  | none (e : ℕ) (hcalling : b.sessions e = .calling)
      (hunhealthy : b.lb.nodeHealth b.lb.masterNodeId = false)
      (hall : ∀ i : ℤ, 0 ≤ i → i < b.lb.workerNodeMapSize → b.lb.nodeHealth i = false) :
      Balanced b (.getMasterNode e) (b.setSession e (.selecting none))
  | read (e : ℕ) (hunlocked : b.sessions e = .unlocked) : Balanced b (.readMasterNode e)
      { b.setSession e (.connecting (b.lb.initStub b.lb.masterNodeId).1) with
        lb := (b.lb.initStub b.lb.masterNodeId).2 }
  | connected (e : ℕ) (newMaster : ClientStub)
      (hconnecting : b.sessions e = .connecting newMaster) :
      Balanced b (.initMaster e) (b.setSession e (.selecting (some newMaster)))
  | selected (e : ℕ) (masterNode : Option ClientStub)
      (hselecting : b.sessions e = .selecting masterNode) :
      Balanced b (.selectWorker e) (b.selected e masterNode b.lb.selectWorker)
  | request (e : ℕ) (getOrder : OrderInf) (masterNode cs : Option ClientStub)
      (hserving : b.sessions e = .serving masterNode cs) :
      Balanced b (.request e getOrder) (b.forward e masterNode getOrder)
  | closed (e : ℕ) (stub : ClientStub) (cs : Option ClientStub)
      (hserving : b.sessions e = .serving (some stub) cs) :
      Balanced b (.close e) (b.setSession e .ended)
  | crashed (e : ℕ) (cs : Option ClientStub) (hserving : b.sessions e = .serving none cs) :
      Balanced b (.close e) { b with alive := false }
  | heartbeatInit (hfirst : b.nextProbe = .none) :
      Balanced b .heartbeatInit { b with lb := b.lb.heartbeatInit, nextProbe := some 0 }
  | heartbeat (answered : Bool) (i : ℕ) (hprobe : b.nextProbe = some i)
      (hlt : i < b.lb.workerNodeMapSize) :
      Balanced b (.heartbeat answered) { b with
        lb := b.lb.setHealth i answered
        nextProbe := some (if i + 1 < b.lb.workerNodeMapSize then i + 1 else 0) }

theorem gotMasterNode_cases {b : Balancer} {e : ℕ} (hcalling : b.sessions e = .calling) :
    b.Balanced (.getMasterNode e) (b.gotMasterNode e b.lb.getMasterNode) := by
  have hgot := b.lb.getMasterNode_cases
  unfold gotMasterNode
  revert hgot
  generalize b.lb.getMasterNode = result
  obtain ⟨decision, lb'⟩ := result
  intro hgot
  cases hgot with
  | current hhealthy => exact .current e hcalling hhealthy
  | changed i hunhealthy hlowest => exact .changed e i hcalling hunhealthy hlowest
  | none hunhealthy hall => exact .none e hcalling hunhealthy hall

/-- The inversion of `balancerStep`. -/
theorem balancerStep_cases {b b' : Balancer} {a : BalancerAction} (h : balancerStep b a = some b') :
    b.Balanced a b' := by
  simp only [balancerStep, Option.ite_none_right_eq_some] at h
  obtain ⟨-, h⟩ := h
  cases a with
  | accept e =>
    simp only [act, Option.ite_none_right_eq_some, Option.some.injEq] at h
    obtain ⟨habsent, rfl⟩ := h
    exact .accept e habsent
  | getMasterNode e =>
    simp only [act, Option.ite_none_right_eq_some, Option.some.injEq] at h
    obtain ⟨hcalling, rfl⟩ := h
    exact gotMasterNode_cases hcalling
  | readMasterNode e =>
    simp only [act, Option.ite_none_right_eq_some, Option.some.injEq] at h
    obtain ⟨hunlocked, rfl⟩ := h
    exact .read e hunlocked
  | initMaster e =>
    simp only [act] at h
    split at h
    · rename_i newMaster hconnecting
      cases h
      exact .connected e newMaster hconnecting
    · cases h
  | selectWorker e =>
    simp only [act] at h
    split at h
    · rename_i masterNode hselecting
      cases h
      exact .selected e masterNode hselecting
    · cases h
  | request e getOrder =>
    simp only [act] at h
    split at h
    · rename_i masterNode cs hserving
      cases h
      exact .request e getOrder masterNode cs hserving
    · cases h
  | close e =>
    simp only [act] at h
    split at h
    · rename_i stub cs hserving
      cases h
      exact .closed e stub cs hserving
    · rename_i cs hserving
      cases h
      exact .crashed e cs hserving
    · cases h
  | heartbeatInit =>
    simp only [act, Option.ite_none_right_eq_some, Option.some.injEq] at h
    obtain ⟨hfirst, rfl⟩ := h
    exact .heartbeatInit hfirst
  | heartbeat answered =>
    simp only [act] at h
    split at h
    · rename_i i hprobe
      simp only [Option.ite_none_right_eq_some, Option.some.injEq] at h
      obtain ⟨hlt, rfl⟩ := h
      exact .heartbeat answered i hprobe hlt
    · cases h

theorem forward_eq (b : Balancer) (e : ℕ) (masterNode : Option ClientStub) (getOrder : OrderInf) :
    (b.forward e masterNode getOrder).lb = b.lb ∧
      (b.forward e masterNode getOrder).sessions = b.sessions := by
  unfold forward
  split
  · split_ifs <;> exact ⟨rfl, rfl⟩
  · exact ⟨rfl, rfl⟩

/-- The master changes in the critical section of `get_master_node` only. -/
theorem masterNodeId_step {b b' : Balancer} {a : BalancerAction} (h : balancerStep b a = some b') :
    b'.lb.workerNodeMapSize = b.lb.workerNodeMapSize ∧
      (b'.lb.masterNodeId = b.lb.masterNodeId ∨
        b.lb.nodeHealth b.lb.masterNodeId = false ∧ b.lb.IsLowestHealthy b'.lb.masterNodeId) := by
  cases balancerStep_cases h with
  | accept | current | none | connected | closed | crashed => exact ⟨rfl, .inl rfl⟩
  | changed e i _ hunhealthy hlowest => exact ⟨by simp, .inr ⟨hunhealthy, by simpa using hlowest⟩⟩
  | read => exact ⟨by simp, .inl (by simp)⟩
  | selected =>
    unfold selected
    split <;> simp
  | request e getOrder masterNode =>
    rw [(b.forward_eq e masterNode getOrder).1]
    exact ⟨rfl, .inl rfl⟩
  | heartbeatInit =>
    obtain ⟨hmaster, hsize⟩ := b.lb.heartbeatInit_same
    exact ⟨hsize, .inl hmaster⟩
  | heartbeat => exact ⟨rfl, .inl rfl⟩

end Balancer

/-- All that a step of the load balancer can do to a session, with the members
before and after it. -/
inductive SessionStep (lb lb' : LoadBalancer) : ClientSession → ClientSession → Prop where
  | same (x : ClientSession) : SessionStep lb lb' x x
  | accepted : SessionStep lb lb' .absent .calling
  | current (hhealthy : lb.nodeHealth lb.masterNodeId = true) :
      SessionStep lb lb' .calling .unlocked
  | changed (stub : ClientStub) (hunhealthy : lb.nodeHealth lb.masterNodeId = false)
      (hlowest : lb.IsLowestHealthy stub.workerNode)
      (hmaster : lb'.masterNodeId = stub.workerNode) :
      SessionStep lb lb' .calling (.selecting (some stub))
  | none (hunhealthy : lb.nodeHealth lb.masterNodeId = false)
      (hall : ∀ i : ℤ, 0 ≤ i → i < lb.workerNodeMapSize → lb.nodeHealth i = false) :
      SessionStep lb lb' .calling (.selecting none)
  | read (stub : ClientStub) (hstub : stub.workerNode = lb.masterNodeId)
      (hmaster : lb'.masterNodeId = lb.masterNodeId) :
      SessionStep lb lb' .unlocked (.connecting stub)
  | connected (stub : ClientStub) : SessionStep lb lb' (.connecting stub) (.selecting (some stub))
  | selected (masterNode cs : Option ClientStub) :
      SessionStep lb lb' (.selecting masterNode) (.serving masterNode cs)
  | refused (masterNode : Option ClientStub) : SessionStep lb lb' (.selecting masterNode) .ended
  | closed (masterNode cs : Option ClientStub) : SessionStep lb lb' (.serving masterNode cs) .ended

namespace Balancer

theorem sessionStep_of {b : Balancer} {lb' : LoadBalancer} {e : ℕ} {x : ClientSession}
    (h : SessionStep b.lb lb' (b.sessions e) x) (e' : ℕ) :
    SessionStep b.lb lb' (b.sessions e') (Function.update b.sessions e x e') := by
  by_cases heq : e' = e
  · subst heq
    rwa [Function.update_self]
  · rw [Function.update_of_ne heq]
    exact .same _

theorem session_step {b b' : Balancer} {a : BalancerAction} (h : balancerStep b a = some b')
    (e : ℕ) : SessionStep b.lb b'.lb (b.sessions e) (b'.sessions e) := by
  cases balancerStep_cases h with
  | accept e' habsent => exact sessionStep_of (habsent ▸ .accepted) e
  | current e' hcalling hhealthy => exact sessionStep_of (hcalling ▸ .current hhealthy) e
  | changed e' i hcalling hunhealthy hlowest =>
    refine sessionStep_of (hcalling ▸ .changed _ hunhealthy ?_ ?_) e
    · simpa using hlowest
    · simp
  | none e' hcalling hunhealthy hall => exact sessionStep_of (hcalling ▸ .none hunhealthy hall) e
  | read e' hunlocked => exact sessionStep_of (hunlocked ▸ .read _ (by simp) (by simp)) e
  | connected e' stub hconnecting => exact sessionStep_of (hconnecting ▸ .connected stub) e
  | selected e' masterNode hselecting =>
    unfold selected
    split
    · exact sessionStep_of (hselecting ▸ .selected masterNode _) e
    · exact sessionStep_of (hselecting ▸ .refused masterNode) e
    · exact .same _
    · exact sessionStep_of (hselecting ▸ .selected masterNode _) e
  | request e' getOrder masterNode =>
    rw [(b.forward_eq e' masterNode getOrder).2]
    exact .same _
  | closed e' stub cs hserving => exact sessionStep_of (hserving ▸ .closed _ _) e
  | crashed | heartbeatInit | heartbeat => exact .same _

end Balancer

end RobotFactory
