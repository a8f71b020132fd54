import RobotFactory.MasterChoice
import RobotFactory.Replies

/-!
# The heartbeat

The heartbeat makes a connection to each worker once and sends a read over it
again and again. A worker is marked unhealthy if `struct_read_record` returns -1.
The end of the stream is no failure to that call, so a worker that has closed its
connection stays healthy until a send fails.
-/
namespace RobotFactory
open TransitionSystem

/-- What a probe meets: what becomes of the request if there is a connection, the
record that the worker replies with, and the memory that is not initialised. -/
structure Probe where
  outcome : Outcome
  record : CRec
  memory : Uninit

/-- The load balancer with the stubs of the heartbeat, and whether `Init` has
connected each of them. The addresses given to `Init`, the stubs probed and what
became of the last probe of each worker are not part of the program. -/
structure Watched where
  balancer : Balancer
  hbWorkerNodeArray : List ClientStub
  connected : ℤ → Bool
  contacts : List (String × ℤ)
  probed : List ClientStub
  lastProbe : ℤ → Option Outcome

/-- Steps of the sessions, the start of the heartbeat with the connections that it
makes, and its probes. -/
inductive WatchedAction where
  | session (a : BalancerAction)
  | heartbeatInit (connects : ℤ → Bool)
  | heartbeat (probe : Probe)

def BalancerAction.ofSession : BalancerAction → Bool
  | .heartbeatInit => false
  | .heartbeat _ => false
  | _ => true

def LoadBalancer.heartbeatStubs : List ℤ → LoadBalancer → List ClientStub
  | [], _ => []
  | i :: is, lb => (lb.initStub i).1 :: heartbeatStubs is (lb.initStub i).2

def Balancer.newStubs (b : Balancer) : BalancerAction → List ClientStub
  | .getMasterNode _ =>
    match b.lb.getMasterNode.1 with
    | .returned masterNode => masterNode.toList
    | .current => []
  | .readMasterNode _ => [(b.lb.initStub b.lb.masterNodeId).1]
  | .selectWorker _ =>
    match b.lb.selectWorker.1 with
    | .worker i => [(b.lb.selectWorker.2.initStub i).1]
    | _ => []
  | .heartbeatInit => b.lb.heartbeatStubs b.lb.workerIndices
  | _ => []

namespace Watched

/-- Without a connection the send fails. -/
def outcomeOf (w : Watched) (i : ℤ) (probe : Probe) : Outcome :=
  if w.connected i then probe.outcome else .sendFailed

/-- Whether `struct_read_record` returns 0; the record itself is not looked at. -/
def answers (w : Watched) (i : ℤ) (probe : Probe) : Bool :=
  (structReply cRecCodec probe.memory probe.record (w.outcomeOf i probe)).isSome

def contacted (w : Watched) (a : BalancerAction) : List (String × ℤ) :=
  w.contacts ++ (w.balancer.newStubs a).map ClientStub.address

end Watched

def watchedStep (w : Watched) : WatchedAction → Option Watched
  | .session a =>
    if a.ofSession then
      (balancerStep w.balancer a).map fun b => { w with balancer := b, contacts := w.contacted a }
    else none
  | .heartbeatInit connects =>
    (balancerStep w.balancer .heartbeatInit).map fun b => { w with
      balancer := b
      hbWorkerNodeArray := w.balancer.newStubs .heartbeatInit
      connected := connects
      contacts := w.contacted .heartbeatInit }
  | .heartbeat probe =>
    match w.balancer.nextProbe with
    | some i =>
      (balancerStep w.balancer (.heartbeat (w.answers i probe))).map fun b => { w with
        balancer := b
        probed := w.probed ++ (w.hbWorkerNodeArray[i]?).toList
        lastProbe := Function.update w.lastProbe i (some (w.outcomeOf i probe)) }
    | none => none

def Watched.started (workerNodesMap : Finmap fun _ : ℤ => String × ℤ) : Watched where
  balancer := .started workerNodesMap
  hbWorkerNodeArray := []
  connected _ := false
  contacts := []
  probed := []
  lastProbe _ := none

namespace Watched

inductive Stepped (w : Watched) : WatchedAction → Watched → Prop where
  | session (a : BalancerAction) (b : Balancer) (hsession : a.ofSession = true)
      (hstep : balancerStep w.balancer a = some b) :
      Stepped w (.session a) { w with balancer := b, contacts := w.contacted a }
  | heartbeatInit (connects : ℤ → Bool) (b : Balancer)
      (hstep : balancerStep w.balancer .heartbeatInit = some b) :
      Stepped w (.heartbeatInit connects) { w with
        balancer := b
        hbWorkerNodeArray := w.balancer.newStubs .heartbeatInit
        connected := connects
        contacts := w.contacted .heartbeatInit }
  | heartbeat (probe : Probe) (i : ℕ) (b : Balancer) (hprobe : w.balancer.nextProbe = some i)
      (hstep : balancerStep w.balancer (.heartbeat (w.answers i probe)) = some b) :
      Stepped w (.heartbeat probe) { w with
        balancer := b
        probed := w.probed ++ (w.hbWorkerNodeArray[i]?).toList
        lastProbe := Function.update w.lastProbe i (some (w.outcomeOf i probe)) }

theorem watchedStep_cases {w w' : Watched} {a : WatchedAction} (h : watchedStep w a = some w') :
    w.Stepped a w' := by
  cases a with
  | session a =>
    simp only [watchedStep, Option.ite_none_right_eq_some, Option.map_eq_some_iff] at h
    obtain ⟨hsession, b, hstep, rfl⟩ := h
    exact .session a b hsession hstep
  | heartbeatInit connects =>
    simp only [watchedStep, Option.map_eq_some_iff] at h
    obtain ⟨b, hstep, rfl⟩ := h
    exact .heartbeatInit connects b hstep
  | heartbeat probe =>
    simp only [watchedStep] at h
    split at h
    · rename_i i hprobe
      simp only [Option.map_eq_some_iff] at h
      obtain ⟨b, hstep, rfl⟩ := h
      exact .heartbeat probe i b hprobe hstep
    · cases h

theorem reaches_balancer {workerNodesMap : Finmap fun _ : ℤ => String × ℤ} {w : Watched}
    (hrun : Run watchedStep (fun _ _ => True) (started workerNodesMap) w) :
    (Balancer.started workerNodesMap).Reaches w.balancer := by
  refine hrun.invariant (fun w => (Balancer.started workerNodesMap).Reaches w.balancer)
    (fun _ _ _ hreaches _ hstep => ?_) .start
  cases watchedStep_cases hstep with
  | session a b _ hbalancer => exact hreaches.next trivial hbalancer
  | heartbeatInit connects b hbalancer => exact hreaches.next trivial hbalancer
  | heartbeat probe i b _ hbalancer => exact hreaches.next trivial hbalancer

end Watched

namespace Balancer

theorem selected_nodeHealth (b : Balancer) (e : ℕ) (masterNode : Option ClientStub) :
    (b.selected e masterNode b.lb.selectWorker).lb.nodeHealth = b.lb.nodeHealth ∧
      (b.selected e masterNode b.lb.selectWorker).nextProbe = b.nextProbe := by
  unfold selected
  split <;> exact ⟨by simp, rfl⟩

/-- Sessions mark no worker. -/
theorem session_nodeHealth {b b' : Balancer} {a : BalancerAction} (hsession : a.ofSession = true)
    (hstep : balancerStep b a = some b') :
    b'.lb.nodeHealth = b.lb.nodeHealth ∧ b'.nextProbe = b.nextProbe := by
  cases balancerStep_cases hstep with
  | accept | current | none | connected | closed | crashed => exact ⟨rfl, rfl⟩
  | changed | read => exact ⟨by simp, rfl⟩
  | selected e masterNode => exact b.selected_nodeHealth e masterNode
  | request e getOrder masterNode =>
    refine ⟨by rw [(b.forward_eq e masterNode getOrder).1], ?_⟩
    unfold forward
    split
    · split_ifs <;> rfl
    · rfl
  | heartbeatInit | heartbeat => cases hsession

end Balancer

/-- `recv` has returned, if only the end of the stream. -/
def Outcome.IsReceived : Outcome → Prop
  | .received _ => True
  | _ => False

theorem structReply_isSome_iff {α : Type} {c : RecordStream.Codec UInt8 α} {u : Uninit} {reply : α}
    {outcome : Outcome} : (structReply c u reply outcome).isSome = true ↔ outcome.IsReceived := by
  cases outcome <;> simp [structReply, Outcome.IsReceived]

namespace Watched

/-- A worker is healthy after its last probe if and only if `recv` has returned. -/
structure Marked (w : Watched) : Prop where
  unstarted : w.balancer.nextProbe = none → ∀ i, w.lastProbe i = none
  marked : ∀ i outcome, w.lastProbe i = some outcome →
    (w.balancer.lb.nodeHealth i = true ↔ outcome.IsReceived)

theorem Marked.step {w w' : Watched} {a : WatchedAction} (h : w.Marked)
    (hstep : watchedStep w a = some w') : w'.Marked := by
  cases watchedStep_cases hstep with
  | session a b hsession hbalancer =>
    obtain ⟨hhealth, hnext⟩ := Balancer.session_nodeHealth hsession hbalancer
    refine ⟨fun hnone => h.unstarted (hnext ▸ hnone), fun i outcome hprobe => ?_⟩
    simp only [hhealth]
    exact h.marked i outcome hprobe
  | heartbeatInit connects b hbalancer =>
    cases Balancer.balancerStep_cases hbalancer with
    | heartbeatInit hfirst =>
      refine ⟨?_, fun i outcome hprobe => ?_⟩
      · rintro ⟨⟩
      · have hnone := h.unstarted hfirst i
        exact absurd (hnone.symm.trans hprobe) nofun
  | heartbeat probe i b hprobe hbalancer =>
    have hanswers : w.answers i probe = true ↔ (w.outcomeOf i probe).IsReceived :=
      structReply_isSome_iff
    generalize w.answers i probe = answered at hanswers hbalancer
    cases Balancer.balancerStep_cases hbalancer with
    | heartbeat _ k hk hlt =>
      obtain rfl := Option.some.inj (hprobe.symm.trans hk)
      refine ⟨?_, fun j outcome hlast => ?_⟩
      · rintro ⟨⟩
      by_cases hj : j = i
      · subst hj
        simp only [Function.update_self, Option.some.injEq] at hlast
        simp only [LoadBalancer.setHealth, Function.update_self, hanswers, hlast]
      · simp only [Function.update_of_ne hj] at hlast
        simp only [LoadBalancer.setHealth, Function.update_of_ne hj]
        exact h.marked j outcome hlast

end Watched

/-- Whatever the sessions do meanwhile, the mark that a worker has after its last
probe is right, if and only if in that probe `recv` has not returned less than a
record. -/
theorem heartbeat_truthful_iff {workerNodesMap : Finmap fun _ : ℤ => String × ℤ} {w : Watched}
    (hrun : Run watchedStep (fun _ _ => True) (Watched.started workerNodesMap) w) {i : ℤ}
    {outcome : Outcome} (hprobe : w.lastProbe i = some outcome) :
    (w.balancer.lb.nodeHealth i = true ↔ outcome.Complete cRecCodec.size) ↔
      ∀ n, outcome = .received n → cRecCodec.size ≤ n := by
  have hmarked := hrun.invariant Watched.Marked (fun _ _ _ hinv _ hstep => hinv.step hstep)
    ⟨fun _ _ => rfl, fun _ _ hprobe => by cases hprobe⟩
  rw [hmarked.marked i outcome hprobe]
  cases outcome with
  | sendFailed => simp [Outcome.IsReceived, Outcome.Complete]
  | recvFailed => simp [Outcome.IsReceived, Outcome.Complete]
  | received n => simp [Outcome.IsReceived, Outcome.Complete]

def wholeProbe : Probe := ⟨.received 8, ⟨3000, -1⟩, .zero⟩

/-- Worker 0 answers its first probe. -/
theorem heartbeat_truthful_two : ∃ w : Watched, w.lastProbe 0 = some (.received 8) ∧
    w.balancer.lb.nodeHealth 0 = true ∧
    (w.balancer.lb.nodeHealth 0 = true ↔ (Outcome.received 8).Complete cRecCodec.size) := by
  have hrun : ∃ w, Run watchedStep (fun _ _ => True) (Watched.started twoWorkers) w ∧
      w.lastProbe 0 = some (.received 8) ∧ w.balancer.lb.nodeHealth 0 = true :=
    ⟨_, (Run.start.next (a := .heartbeatInit fun _ => true) trivial rfl).next
      (a := .heartbeat wholeProbe) trivial rfl, rfl, rfl⟩
  obtain ⟨w, hrun, hprobe, hhealth⟩ := hrun
  refine ⟨w, hprobe, hhealth, (heartbeat_truthful_iff hrun hprobe).mpr fun n hn => ?_⟩
  cases hn
  decide

/-- Worker 0 has closed its connection, and its probe marks it healthy. -/
theorem heartbeat_untruthful : ∃ w : Watched,
    Run watchedStep (fun _ _ => True) (Watched.started twoWorkers) w ∧
    w.lastProbe 0 = some (.received 0) ∧ w.balancer.lb.nodeHealth 0 = true ∧
    ¬(Outcome.received 0).Complete cRecCodec.size :=
  ⟨_, (Run.start.next (a := .heartbeatInit fun _ => true) trivial rfl).next
    (a := .heartbeat ⟨.received 0, ⟨3000, -1⟩, .zero⟩) trivial rfl, rfl, rfl,
    fun h => absurd (show cRecCodec.size ≤ 0 from h) (by decide)⟩

end RobotFactory
