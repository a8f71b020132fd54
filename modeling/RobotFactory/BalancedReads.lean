import RobotFactory.Convergence
import RobotFactory.Transparency

/-!
# Reads through the load balancer

A read may be given to any worker. The primary answers it with all orders that it has
answered, but a backup has not committed the last entry of its log until the next
request. In normal operation it is therefore behind by at most one order, that is the
last one of all.
-/
namespace RobotFactory
open TransitionSystem

theorem Lockstep.record_behind {p : ℤ} {c : Cluster} (h : Lockstep p c) {f : FactoryRec}
    (hf : f ∈ (c p).server.factoriesRecord) :
    ∃ n, (c p).server.committedLog.length ≤ n + 1 ∧
      (c f.factoryId).server.committedLog = (c p).server.committedLog.take n := by
  obtain ⟨k, hk⟩ := List.getElem?_of_mem hf
  have hfollows := h.peers k f hk
  have hholds := hfollows.holds
  have hserved := hfollows.served
  have hge := hholds.sound.last_le
  have hlast := hholds.last_eq
  have hlog : (c f.factoryId).server.committedLog =
      ((c p).replicatedLog k).take ((c f.factoryId).server.committedIndex + 1).toNat := by
    rw [Server.committedLog, hholds.log_eq]
  have hpcommitted := h.sound.server.committed_ge
  have hplast := h.last_eq
  unfold Node.replicatedLog at hlog hlast
  cases hadmin : (c p).admin with
  | waiting =>
    simp only [hadmin] at hlog hlast
    have hall : (c p).server.committedLog = (c p).server.smrLog :=
      List.take_of_length_le (by have := h.committed hadmin; omega)
    exact ⟨((c f.factoryId).server.committedIndex + 1).toNat, by rw [hall]; omega,
      by rw [hlog, hall]⟩
  | replicating shipOrder req i =>
    have hreq := (h.sound.serving _ _ _ hadmin).committed_eq
    simp only [hadmin] at hlog hlast
    split_ifs at hlog hlast with hpassed
    · -- it has been sent the request in progress
      refine ⟨(c p).server.committedLog.length, by omega, ?_⟩
      rw [hlog, hserved _ _ _ hadmin hpassed, hreq, List.take_length]
      rfl
    · rw [hreq] at hlog hlast
      change _ = (((c p).server.committedLog.length : ℕ) : ℤ) - 1 at hlast
      exact ⟨((c f.factoryId).server.committedIndex + 1).toNat, by omega, hlog⟩

theorem Clients.Ordered.lastOrderIn_take {s : Clients} {p : ℤ} {orders e k : ℕ}
    (h : s.Ordered p orders e k) (n : ℕ) :
    ∃ m, m ≤ k ∧ k ≤ m + ((s.service.threads.cluster p).server.committedLog.length - n) ∧
      lastOrderIn ((s.service.threads.cluster p).server.committedLog.take n)
        (Client.customerId e) = Client.lastOrder m := by
  have hlogged := h.logged
  generalize (s.service.threads.cluster p).server.committedLog = log at hlogged ⊢
  have hsplit : (log.take n).filter (fun op => op.arg1 = Client.customerId e) ++
      (log.drop n).filter (fun op => op.arg1 = Client.customerId e) =
      (Client.ordersOf e k).map entryOf := by
    rw [← List.filter_append, List.take_append_drop, hlogged]
  have hlength := congrArg List.length hsplit
  rw [List.length_append, List.length_map, Client.length_ordersOf] at hlength
  have hdropped := List.length_filter_le (fun op : MapOp => op.arg1 = Client.customerId e)
    (log.drop n)
  rw [List.length_drop] at hdropped
  have hfront : (log.take n).filter (fun op => op.arg1 = Client.customerId e) =
      (Client.ordersOf e ((log.take n).filter
        fun op => op.arg1 = Client.customerId e).length).map entryOf := by
    have htake := congrArg (List.take ((log.take n).filter
      fun op => op.arg1 = Client.customerId e).length) hsplit
    rwa [List.take_left, ← List.map_take, Client.take_ordersOf (by omega)] at htake
  refine ⟨((log.take n).filter fun op => op.arg1 = Client.customerId e).length, by omega, by omega,
    ?_⟩
  rw [lastOrderIn, hfront, List.getLast?_map, Client.getLast?_ordersOf, List.length_map,
    Client.length_ordersOf, Client.lastOrder]
  split_ifs <;> rfl

namespace Deployment

/-- A steady run in which the primary never loses a backup either. -/
def Quiet (p : ℤ) (client : Client) (d : Deployment) (a : DeploymentAction) : Prop :=
  d.Steady client a ∧
    match a with
    | .server b => d.clients.service.threads.Calm p b
    | _ => True

theorem calm_run [Zlib] {p : ℤ} {client : Client} {serverAt : String × ℤ → Option ℤ}
    {workerNodesMap : Finmap fun _ : ℤ => String × ℤ} {c₀ : Cluster} {d : Deployment}
    (hrun : Run (deploymentStep p client serverAt) (Quiet p client) (opened workerNodesMap c₀) d) :
    Run (threadStep p) (Threads.Calm p) (Threads.opened c₀) d.clients.service.threads := by
  refine hrun.invariant (fun u => Run (threadStep p) (Threads.Calm p) (Threads.opened c₀)
    u.clients.service.threads) (fun u a u' hthreads hok hstep => ?_) .start
  cases deploymentStep_cases hstep with
  | client a s hsends hclient =>
    cases clientStep_cases hclient with
    | server => exact hsends.elim
    | _ => exact hthreads
  | balancer | forward => simpa using hthreads
  | answer | reply | replyFailed | answered | close => exact hthreads
  | server a service henabled hservice =>
    exact hthreads.next hok.2 (Service.threads_step hservice).1

theorem converging_run [Zlib] {p : ℤ} {client : Client} {serverAt : String × ℤ → Option ℤ}
    {workerNodesMap : Finmap fun _ : ℤ => String × ℤ} {c₀ : Cluster} {d : Deployment}
    (hfresh : Fresh c₀)
    (hrun : Run (deploymentStep p client serverAt) (Quiet p client) (opened workerNodesMap c₀) d) :
    d.clients.service.threads.Converging p :=
  ((calm_run hrun).invariant (fun t => (t.Leads p ∧ t.Paired p) ∧ t.Converging p)
    (fun _ _ _ hinv hok hstep => ⟨⟨hinv.1.1.step hstep, hinv.1.2.step hinv.1.1 hstep⟩,
      hinv.2.step hinv.1.2 hok hstep⟩) ⟨⟨.opened hfresh, .opened hfresh⟩, .opened hfresh⟩).2

end Deployment

/-- In normal operation a read of a customer gives all orders that the customer has been
told of if the primary answers it, and all but one, at worst, if a backup does. -/
theorem balanced_reads_recent [Zlib] {p : ℤ} {client : Client}
    {serverAt : String × ℤ → Option ℤ} {workerNodesMap : Finmap fun _ : ℤ => String × ℤ}
    {c₀ : Cluster} {d d' : Deployment} {e : ℕ} {getOrder : OrderInf} (hfresh : Fresh c₀)
    (htype : client.requestType = 1) (horder : InOrder workerNodesMap)
    (hsome : 0 < workerNodesMap.keys.card)
    (hserver : serverAt (stubOf workerNodesMap 0).address = some p)
    (hrun : Run (deploymentStep p client serverAt) (Deployment.Quiet p client)
      (Deployment.opened workerNodesMap c₀) d) (he : client.IsCustomer e)
    (hread : getOrder.requestType = 2) (hid : getOrder.customerId = Client.customerId e) :
    (∀ n, deploymentStep p client serverAt d (.server (.request n getOrder)) = some d' →
      ∃ k, (d.clients.customers e).opCount ≤ k ∧ k ≤ client.orders.toInt.toNat ∧
        d'.fromPrimary n =
          d.fromPrimary n ++ [.cRec ⟨Client.customerId e, Client.lastOrder k⟩]) ∧
    ∀ e' i robot, d.awaiting e' = .worker i getOrder →
      i ∈ (d.clients.service.threads.cluster p).server.peerIds →
      deploymentStep p client serverAt d (.answer e' robot) = some d' →
      ∃ k, (d.clients.customers e).opCount ≤ k + 1 ∧ k ≤ client.orders.toInt.toNat ∧
        d'.awaiting e' =
          .answered getOrder (.cRec ⟨Client.customerId e, Client.lastOrder k⟩) := by
  obtain ⟨-, hdirect⟩ := Deployment.relayed_run htype horder hsome hserver
    (hrun.mono fun _ _ hok => hok.1)
  obtain ⟨-, -, hexplained⟩ := Service.explained_run hfresh (Clients.service_run hdirect)
  obtain ⟨k, hdirectly⟩ := (Clients.orderly_run htype hdirect).ordered hexplained he
  have hordered := Deployment.ordered_of_direct hdirectly
  have hknown := hordered.known
  have hwanted := hordered.wanted
  constructor
  · intro n hstep
    cases deploymentStep_cases hstep with
    | server _ service _ hservice =>
      refine ⟨k, hknown, hwanted, ?_⟩
      have hreply : service.replies n = d.clients.service.replies n ++
          [d.clients.service.sendRec p getOrder] := by
        rw [(Service.threads_step hservice).2]
        simp [Service.record, hread]
      have hlast : (d.clients.service.threads.cluster p).server.lastOrder getOrder.customerId =
          Client.lastOrder k := by
        rw [hid, Server.lastOrder, hordered.recorded, Client.lastOrder]
        split_ifs <;> rfl
      simp only [Deployment.served, hreply, List.drop_left, Service.sendRec, hlast]
      rw [hid]
  · intro e' i robot hawaiting hpeer hstep
    cases deploymentStep_cases hstep with
    | answer _ _ j o hawaiting' =>
      obtain ⟨rfl, rfl⟩ : i = j ∧ getOrder = o := by
        rw [hawaiting] at hawaiting'
        cases hawaiting'
        exact ⟨rfl, rfl⟩
      obtain ⟨f, hf, rfl⟩ := List.mem_map.mp hpeer
      have hlockstep := (Deployment.converging_run hfresh hrun).lockstep
      obtain ⟨n, hn, hbehind⟩ := hlockstep.record_behind hf
      obtain ⟨m, hm, hlag, hlast⟩ := hordered.lastOrderIn_take n
      refine ⟨m, ?_, hm.trans hwanted, ?_⟩
      · omega
      · obtain ⟨j, hj⟩ := List.getElem?_of_mem hf
        have hsound := (hlockstep.peers j f hj).holds.sound
        simp only [Function.update_self, Deployment.answer, hread]
        rw [hid, lastOrder_eq hsound, ← Server.committedLog, hbehind, hlast]
        rfl

/-- A customer has got its robot, but a read of its record at server 1 finds no order. -/
theorem balanced_reads_recent_two : ∃ d d' : Deployment,
    (d.clients.customers 0).opCount = 1 ∧
    d'.awaiting 1 = .answered ⟨3000, 0, 2⟩ (.cRec ⟨3000, -1⟩) ∧
    ∃ k, 1 ≤ k + 1 ∧ k ≤ 1 ∧
      d'.awaiting 1 = .answered ⟨3000, 0, 2⟩ (.cRec ⟨Client.customerId 0, Client.lastOrder k⟩) := by
  have hconnect : ∀ (d : Deployment) f,
      f ∈ (d.clients.service.threads.cluster 0).server.factoriesRecord → (0 : ℤ) < 5 :=
    fun _ _ _ => by decide
  have hrun : ∃ d d', Run (deploymentStep 0 ⟨1, 1, 1⟩ twoServers) (Deployment.Quiet 0 ⟨1, 1, 1⟩)
      (Deployment.opened twoWorkers duo) d ∧
      deploymentStep 0 ⟨1, 1, 1⟩ twoServers d (.answer 1 ⟨0, 0, 0, 0, 0⟩) = some d' ∧
      (d.clients.customers 0).opCount = 1 ∧ d.awaiting 1 = .worker 1 ⟨3000, 0, 2⟩ ∧
      (d.clients.service.threads.cluster 0).server.peerIds = [1] ∧
      d'.awaiting 1 = .answered ⟨3000, 0, 2⟩ (.cRec ⟨3000, -1⟩) :=
    ⟨_, _, ((((((((((((((((((((((((Run.start.next
      (a := .client (.init 0 true)) ⟨trivial, trivial⟩ rfl).next
      (a := .balancer (.accept 0)) ⟨by nofun, trivial⟩ rfl).next
      (a := .balancer (.getMasterNode 0)) ⟨by nofun, trivial⟩ rfl).next
      (a := .balancer (.readMasterNode 0)) ⟨by nofun, trivial⟩ rfl).next
      (a := .balancer (.initMaster 0)) ⟨by nofun, trivial⟩ rfl).next
      (a := .balancer (.selectWorker 0)) ⟨by nofun, trivial⟩ rfl).next
      (a := .client (.send 0 true)) ⟨trivial, trivial⟩ rfl).next
      (a := .forward 0 true .zero) ⟨rfl, trivial⟩ rfl).next
      (a := .server (.connect 0)) ⟨trivial, trivial, trivial⟩ rfl).next
      (a := .server (.request 0 ⟨3000, 1, 1⟩)) ⟨trivial, fun _ => by decide, trivial⟩ rfl).next
      (a := .server .wake) ⟨trivial, trivial, trivial⟩ rfl).next
      (a := .server (.begin fun _ => 5)) ⟨trivial, trivial, hconnect _⟩ rfl).next
      (a := .server (.replicate Link.clean)) ⟨trivial, trivial, Link.clean_clean⟩ rfl).next
      (a := .server .finish) ⟨trivial, trivial, trivial⟩ rfl).next
      (a := .server (.ship 0)) ⟨trivial, trivial, trivial⟩ rfl).next
      (a := .reply 0 true .zero) ⟨rfl, trivial⟩ rfl).next
      (a := .client (.recv 0 true)) ⟨trivial, trivial⟩ rfl).next
      (a := .balancer (.accept 1)) ⟨by nofun, trivial⟩ rfl).next
      (a := .balancer (.getMasterNode 1)) ⟨by nofun, trivial⟩ rfl).next
      (a := .balancer (.readMasterNode 1)) ⟨by nofun, trivial⟩ rfl).next
      (a := .balancer (.initMaster 1)) ⟨by nofun, trivial⟩ rfl).next
      (a := .balancer (.selectWorker 1)) ⟨by nofun, trivial⟩ rfl).next
      (a := .client (.other 1 ⟨3000, 0, 2⟩)) ⟨by nofun, trivial⟩ rfl).next
      (a := .forward 1 true .zero) ⟨rfl, trivial⟩ rfl), rfl, rfl, rfl, rfl, rfl⟩
  obtain ⟨d, d', hrun, hstep, hcount, hawaiting, hpeers, hanswered⟩ := hrun
  have hpeer : 1 ∈ (d.clients.service.threads.cluster 0).server.peerIds := by simp [hpeers]
  obtain ⟨k, hk, hwanted, hread⟩ := (balanced_reads_recent duo_fresh rfl inOrder_twoWorkers
    (by decide) rfl hrun (show Client.IsCustomer _ 0 by decide) rfl rfl).2 1 1 _ hawaiting hpeer
    hstep
  exact ⟨d, d', hcount, hanswered, k, hcount ▸ hk, hwanted, hread⟩

end RobotFactory
