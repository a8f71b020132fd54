import RobotFactory.Deployment
import RobotFactory.FirstMaster

/-!
# The load balancer is transparent

While worker 0 is found healthy it is the master of every session, and no session is
refused. The requests of a client reach it in order, and so do its replies the
client, so that the deployment does nothing but what it would do without the load
balancer: each connection of a client, taken together with the connection of its
session, is a connection to the primary.
-/
namespace RobotFactory
open TransitionSystem

namespace Clients

/-- What a step of the clients leaves of thread `e` and of its queue. -/
structure Goes (client : Client) (s s' : Clients) (a : ClientAction) (e : ℕ) : Prop where
  connected : (s.customers e).pc ≠ .start ∧ (s.customers e).pc ≠ .unconnected →
    (s'.customers e).pc ≠ .start ∧ (s'.customers e).pc ≠ .unconnected
  done : (s.customers e).pc = .done → (s'.customers e).pc = .done
  queue : s'.toServer e = s.toServer e ∨
    ((s.customers e).pc = .sending ∧
      s'.toServer e = s.toServer e ++ [(s.customers e).sendOrder]) ∨
    ∃ request, a = .other e request ∧ ¬client.IsCustomer e ∧
      s'.toServer e = s.toServer e ++ [request]

theorem loop_pc (client : Client) (x : Customer) :
    (client.loop x).pc = .sending ∨ (client.loop x).pc = .closing := by
  unfold Client.loop
  split_ifs <;> simp

theorem failed_pc (client : Client) (x : Customer) :
    (client.failed x).pc = .sending ∨ (client.failed x).pc = .closing := by
  unfold Client.failed
  split_ifs
  · exact .inr rfl
  · exact loop_pc client _

theorem Goes.moved {client : Client} {s s' : Clients} {a : ClientAction} {e e' : ℕ} {x : Customer}
    (hcustomers : s'.customers = Function.update s.customers e' x)
    (hserver : s'.toServer = s.toServer)
    (hx : x.pc ≠ .start ∧ x.pc ≠ .unconnected ∨ (s.customers e').pc = .start)
    (hpc : (s.customers e').pc ≠ .done) : Goes client s s' a e := by
  by_cases heq : e = e'
  · subst heq
    refine ⟨fun hold => ?_, fun hdone => absurd hdone hpc, .inl (by rw [hserver])⟩
    rw [hcustomers, Function.update_self]
    exact hx.resolve_right hold.1
  · refine ⟨fun hold => ?_, fun hdone => ?_, .inl (by rw [hserver])⟩ <;>
      rwa [hcustomers, Function.update_of_ne heq]

theorem client_goes [Zlib] {p : ℤ} {client : Client} {s s' : Clients} {a : ClientAction}
    (hstep : clientStep p client s a = some s') (hclient : ∀ b, a ≠ .server b) (e : ℕ) :
    Goes client s s' a e := by
  have hrunning {x : Customer} (hx : x.pc = .sending ∨ x.pc = .closing) :
      x.pc ≠ .start ∧ x.pc ≠ .unconnected := by
    rcases hx with hx | hx <;> simp [hx]
  cases clientStep_cases hstep with
  | init e' connected hcustomer hpc =>
    exact .moved rfl rfl (.inr hpc) (by simp [hpc])
  | sent e' hpc =>
    by_cases heq : e = e'
    · subst heq
      refine ⟨fun _ => ?_, fun hdone => ?_, .inr (.inl ⟨hpc, ?_⟩)⟩
      · simp [setCustomer]
      · rw [hpc] at hdone
        cases hdone
      · simp only [Function.update_self]
    · refine ⟨fun hold => ?_, fun hdone => ?_, .inl ?_⟩ <;>
        simp only [setCustomer, Function.update_of_ne heq]
      · exact hold
      · exact hdone
  | sendFailed e' hpc =>
    exact .moved rfl rfl (.inl (hrunning (failed_pc client _))) (by simp [hpc])
  | received e' reply rest hpc =>
    exact .moved rfl rfl (.inl (hrunning (loop_pc client _))) (by simp [hpc])
  | recvFailed e' hpc =>
    exact .moved rfl rfl (.inl (hrunning (failed_pc client _))) (by simp [hpc])
  | closeSocket e' hpc => exact .moved rfl rfl (.inl (by simp)) (by simp [hpc])
  | other e' request hother =>
    by_cases heq : e = e'
    · subst heq
      exact ⟨id, id, .inr (.inr ⟨request, rfl, hother, by simp only [Function.update_self]⟩)⟩
    · exact ⟨id, id, .inl (Function.update_of_ne heq ..)⟩
  | server b => exact absurd rfl (hclient b)

end Clients

/-- What the session of connection `e` may wait for: that of a customer for the reply to
an order only. -/
def Awaiting.Fits (client : Client) (e : ℕ) : Awaiting → Prop
  | .request => True
  | .reply n _ => n = e ∨ n = Deployment.readConnection e ∧ ¬client.IsCustomer e
  | _ => ¬client.IsCustomer e

namespace Deployment

/-- The clients as they would stand if they were connected to the primary: a
connection is that of a client up to its session, and that of the session behind it. -/
def direct (client : Client) (d : Deployment) : Clients where
  service := d.clients.service
  toServer n := d.toPrimary n ++ (d.clients.toServer n).filter fun o => o.requestType = 1
  toClient n :=
    if client.IsCustomer n then d.clients.toClient n ++ d.fromPrimary n
    else d.clients.service.replies n
  customers := d.clients.customers

/-- Other programs do not order for the customers, worker 0 answers all probes, and no
call of a session fails. -/
def Steady (client : Client) (d : Deployment) : DeploymentAction → Prop
  | .client (.other _ request) => client.Leaves request
  | .balancer a => d.balancer.Answers a
  | .forward _ sent _ => sent = true
  | .reply _ received _ => received = true
  | _ => True

/-- The sessions keep up with their clients, and forward to worker 0. -/
structure Relayed (workerNodesMap : Finmap fun _ : ℤ => String × ℤ) (client : Client)
    (d : Deployment) : Prop where
  firm : d.balancer.Firm workerNodesMap
  started : ∀ e, d.balancer.sessions e ≠ .absent → client.IsCustomer e →
    (d.clients.customers e).pc ≠ .start ∧ (d.clients.customers e).pc ≠ .unconnected
  ended : ∀ e, d.balancer.sessions e = .ended → d.clients.toServer e = [] ∧
    (client.IsCustomer e → (d.clients.customers e).pc = .done)
  small : ∀ n, 2 ^ 31 ≤ n → d.clients.toServer n = []
  orders : ∀ e, client.IsCustomer e → ∀ o ∈ d.clients.toServer e, o.requestType = 1
  awaits : ∀ e, (d.awaiting e).Fits client e
  strayed : d.strayed = []

section Relayed

variable {workerNodesMap : Finmap fun _ : ℤ => String × ℤ} {client : Client} {p : ℤ}
  {serverAt : String × ℤ → Option ℤ} {c₀ : Cluster}

theorem readConnection_not_customer (e : ℕ) : ¬client.IsCustomer (readConnection e) := by
  intro h
  have hlt := h.lt
  unfold readConnection at hlt
  omega

theorem Relayed.opened (horder : InOrder workerNodesMap) (hsome : 0 < workerNodesMap.keys.card)
    (c : Cluster) : (opened workerNodesMap c).Relayed workerNodesMap client where
  firm := .started horder hsome
  started e hne := absurd rfl hne
  ended e he := by cases he
  small _ _ := rfl
  orders e _ o ho := by cases ho
  awaits _ := trivial
  strayed := rfl

/-- A thread that sends is a customer's, and it sends an order. -/
theorem sending_order {d : Deployment} (h : (d.direct client).Orderly client) {e : ℕ}
    (hpc : (d.clients.customers e).pc = .sending) :
    client.IsCustomer e ∧ (d.clients.customers e).sendOrder.requestType = 1 := by
  by_cases he : client.IsCustomer e
  · obtain ⟨m, got, hseq⟩ := h.1 e he
    exact ⟨he, congrArg OrderInf.requestType (hseq.sent.sendOrder_eq hpc)⟩
  · exact absurd (hpc.symm.trans (h.2 e he).start) nofun

theorem isCustomer_of_pc {d : Deployment} (h : (d.direct client).Orderly client) {e : ℕ}
    (hpc : (d.clients.customers e).pc ≠ .start) : client.IsCustomer e := by
  by_contra he
  exact hpc (h.2 e he).start

theorem Relayed.goes [Zlib] {d : Deployment} {a : ClientAction} {s : Clients}
    (h : d.Relayed workerNodesMap client) (horderly : (d.direct client).Orderly client)
    (hsends : d.Sends a) (hstep : clientStep p client d.clients a = some s) :
    Relayed workerNodesMap client { d with clients := s } := by
  have hgoes := Clients.client_goes hstep fun b hb => by subst hb; exact hsends
  refine ⟨h.firm, fun e hne he => (hgoes e).connected (h.started e hne he), fun e hended => ?_,
    fun n hn => ?_, fun e he o ho => ?_, h.awaits, h.strayed⟩
  · obtain ⟨hempty, hdone⟩ := h.ended e hended
    refine ⟨?_, fun he => (hgoes e).done (hdone he)⟩
    rcases (hgoes e).queue with hsame | ⟨hpc, -⟩ | ⟨request, rfl, -⟩
    · exact hsame.trans hempty
    · exact absurd ((hdone (sending_order horderly hpc).1).symm.trans hpc) nofun
    · exact absurd hended hsends.2
  · rcases (hgoes n).queue with hsame | ⟨hpc, -⟩ | ⟨request, rfl, -⟩
    · exact hsame.trans (h.small n hn)
    · have hlt := (sending_order horderly hpc).1.lt
      omega
    · have hlt := hsends.1
      omega
  · rcases (hgoes e).queue with hsame | ⟨hpc, hqueue⟩ | ⟨_, -, hother, -⟩
    · exact h.orders e he o (hsame ▸ ho)
    · change o ∈ s.toServer e at ho
      rw [hqueue, List.mem_append, List.mem_singleton] at ho
      rcases ho with hold | rfl
      · exact h.orders e he o hold
      · exact (sending_order horderly hpc).2
    · exact absurd he hother

theorem eq_direct {d : Deployment} {s : Clients} (hservice : s.service = d.clients.service)
    (hserver : ∀ n, s.toServer n = (d.direct client).toServer n)
    (hclient : ∀ n, s.toClient n = (d.direct client).toClient n)
    (hcustomers : s.customers = d.clients.customers) : s = d.direct client := by
  obtain ⟨service, toServer, toClient, customers⟩ := s
  obtain rfl : toServer = (d.direct client).toServer := funext hserver
  obtain rfl : toClient = (d.direct client).toClient := funext hclient
  obtain rfl := hservice
  obtain rfl := hcustomers
  rfl

theorem direct_client [Zlib] {d : Deployment} {a : ClientAction} {s : Clients}
    (horderly : (d.direct client).Orderly client) (hsteady : d.Steady client (.client a))
    (hsends : d.Sends a) (hstep : clientStep p client d.clients a = some s) :
    Run (clientStep p client) client.Alone (d.direct client)
      (direct client { d with clients := s }) := by
  have hpush (e : ℕ) (request : OrderInf) (n : ℕ) :
      d.toPrimary n ++ (Function.update d.clients.toServer e
        (d.clients.toServer e ++ [request]) n).filter (fun o => o.requestType = 1) =
      Function.update (d.direct client).toServer e ((d.direct client).toServer e ++
        [request].filter fun o => o.requestType = 1) n := by
    rw [Function.apply_update fun n (q : List OrderInf) => d.toPrimary n ++
      q.filter fun o => o.requestType = 1, List.filter_append, ← List.append_assoc]
    rfl
  cases clientStep_cases hstep with
  | init e connected hcustomer hpc =>
    exact Run.start.next (a := .init e connected) trivial (if_pos ⟨hcustomer, hpc⟩)
  | sent e hpc =>
    have horder := (sending_order horderly hpc).2
    refine Run.start.next (a := .send e true) trivial ((if_pos hpc).trans ?_)
    refine congrArg some (eq_direct rfl (fun n => ?_) (fun n => rfl) rfl)
    have hnew := hpush e (d.clients.customers e).sendOrder n
    rw [List.filter_cons_of_pos (by simpa using horder)] at hnew
    exact hnew.symm
  | sendFailed e hpc => exact Run.start.next (a := .send e false) trivial (if_pos hpc)
  | received e reply rest hpc hqueue =>
    have he := isCustomer_of_pc horderly (e := e) (by simp [hpc])
    have hfront : (d.direct client).toClient e = reply :: (rest ++ d.fromPrimary e) := by
      simp only [direct, if_pos he, hqueue, List.cons_append]
    refine Run.start.next (a := .recv e true) trivial ((if_pos hpc).trans ?_)
    rw [if_pos rfl, hfront]
    refine congrArg some (eq_direct rfl (fun n => rfl) (fun n => ?_) rfl)
    by_cases hn : n = e
    · subst hn
      simp [direct, he]
    · simp only [direct, Function.update_of_ne hn]
      rfl
  | recvFailed e hpc => exact Run.start.next (a := .recv e false) trivial (if_pos hpc)
  | closeSocket e hpc => exact Run.start.next (a := .closeSocket e) trivial (if_pos hpc)
  | other e request hother =>
    by_cases horder : request.requestType = 1
    · refine Run.start.next (a := .other e request) hsteady ((if_neg hother).trans ?_)
      refine congrArg some (eq_direct rfl (fun n => ?_) (fun n => rfl) rfl)
      have hnew := hpush e request n
      rw [List.filter_cons_of_pos (by simpa using horder)] at hnew
      exact hnew.symm
    · -- a request that is no order is not for the master node
      have hsame : direct client { d with clients := { d.clients with
          toServer := Function.update d.clients.toServer e
            (d.clients.toServer e ++ [request]) } } = d.direct client := by
        refine (eq_direct (d := d) rfl (fun n => ?_) (fun n => rfl) rfl)
        have hnew := hpush e request n
        rw [List.filter_cons_of_neg (by simpa using horder), List.filter_nil, List.append_nil,
          Function.update_eq_self] at hnew
        exact hnew
      rw [hsame]
      exact .start
  | server => exact hsends.elim

theorem Relayed.enabled {d : Deployment} {a : ThreadAction}
    (h : d.Relayed workerNodesMap client) (henabled : d.Enabled p serverAt a) :
    (d.direct client).Enabled client a := by
  cases a with
  | connect n =>
    intro he
    refine h.started n (fun habsent => ?_) he
    rwa [Enabled, Connected, if_pos he.lt, habsent] at henabled
  | request n makeOrder =>
    obtain ⟨rest, hrest⟩ := List.head?_eq_some_iff.mp henabled
    simp [Clients.Enabled, direct, hrest]
  | hangUp n uninit =>
    obtain ⟨hempty, hended⟩ := henabled
    by_cases hn : n < 2 ^ 31
    · rw [if_pos hn] at hended
      obtain ⟨hqueue, hdone⟩ := h.ended n hended
      exact ⟨by simp [direct, hempty, hqueue], hdone⟩
    · have hqueue := h.small n (by omega)
      exact ⟨by simp [direct, hempty, hqueue], fun he => absurd he.lt hn⟩
  | _ => trivial

theorem direct_served [Zlib] {d : Deployment} {a : ThreadAction} {service : Service}
    (h : d.Relayed workerNodesMap client) (henabled : d.Enabled p serverAt a)
    (hstep : serviceStep p d.clients.service a = some service) :
    Run (clientStep p client) client.Alone (d.direct client) ((d.served a service).direct client)
      := by
  refine Run.start.next (a := .server a) trivial ((if_pos (h.enabled henabled)).trans ?_)
  change (serviceStep p d.clients.service a).map _ = _
  rw [hstep, Option.map_some]
  refine congrArg some (eq_direct rfl (fun n => ?_) (fun n => ?_) rfl)
  · cases a with
    | request e makeOrder =>
      obtain ⟨rest, hrest⟩ := List.head?_eq_some_iff.mp henabled
      by_cases hn : n = e
      · subst hn
        simp [Clients.served, served, direct, hrest]
      · simp [Clients.served, served, direct, Function.update_of_ne hn]
    | _ => rfl
  · obtain ⟨new, hnew⟩ := Service.replies_prefix hstep n
    by_cases hn : client.IsCustomer n
    · simp [Clients.served, served, direct, hn]
    · simp only [Clients.served, served, direct, if_neg hn]
      rw [← hnew, List.drop_left]

theorem Relayed.congr {d d' : Deployment} (h : d.Relayed workerNodesMap client)
    (hbalancer : d'.balancer = d.balancer) (hserver : d'.clients.toServer = d.clients.toServer)
    (hcustomers : d'.clients.customers = d.clients.customers) {e : ℕ} {x : Awaiting}
    (hawaiting : d'.awaiting = Function.update d.awaiting e x) (hx : x.Fits client e)
    (hstrayed : d'.strayed = d.strayed) : d'.Relayed workerNodesMap client where
  firm := hbalancer ▸ h.firm
  started e' := by
    rw [hbalancer, hcustomers]
    exact h.started e'
  ended e' := by
    rw [hbalancer, hserver, hcustomers]
    exact h.ended e'
  small := hserver ▸ h.small
  orders := hserver ▸ h.orders
  awaits := by
    rw [hawaiting]
    exact (Function.forall_update_iff d.awaiting fun e x => x.Fits client e).mpr
      ⟨hx, fun e' _ => h.awaits e'⟩
  strayed := hstrayed.trans h.strayed

theorem Relayed.taken {d : Deployment} {b : Balancer} {e : ℕ} {getOrder : OrderInf}
    {rest : List OrderInf} (h : d.Relayed workerNodesMap client)
    (hb : b.Firm workerNodesMap) (hsessions : b.sessions = d.balancer.sessions)
    (hended : d.balancer.sessions e ≠ .ended) (hqueue : d.clients.toServer e = getOrder :: rest) :
    Relayed workerNodesMap client { d with
      balancer := b
      clients.toServer := Function.update d.clients.toServer e rest } := by
  refine ⟨hb, fun e' hne => h.started e' (hsessions ▸ hne), fun e' he' => ?_, fun n hn => ?_,
    fun e' he' o ho => ?_, h.awaits, h.strayed⟩
  · have hne : e' ≠ e := by
      rintro rfl
      exact hended (hsessions ▸ he')
    simp only [Function.update_of_ne hne]
    exact h.ended e' (hsessions ▸ he')
  · have hne : n ≠ e := by
      rintro rfl
      exact absurd (h.small n hn) (by simp [hqueue])
    simp only [Function.update_of_ne hne]
    exact h.small n hn
  · by_cases heq : e' = e
    · subst heq
      simp only [Function.update_self] at ho
      exact h.orders e' he' o (hqueue ▸ List.mem_cons_of_mem _ ho)
    · simp only [Function.update_of_ne heq] at ho
      exact h.orders e' he' o ho

theorem direct_order {d d' : Deployment} {e : ℕ} {getOrder : OrderInf} {rest : List OrderInf}
    (horder : getOrder.requestType = 1) (hqueue : d.clients.toServer e = getOrder :: rest)
    (hclients : d'.clients = { d.clients with
      toServer := Function.update d.clients.toServer e rest })
    (hto : d'.toPrimary = Function.update d.toPrimary e (d.toPrimary e ++ [getOrder]))
    (hfrom : d'.fromPrimary = d.fromPrimary) : d'.direct client = d.direct client := by
  refine eq_direct (d := d) (by rw [direct, hclients]) (fun n => ?_) (fun n => ?_)
    (by rw [direct, hclients])
  · simp only [direct, hclients, hto]
    by_cases hn : n = e
    · subst hn
      simp [hqueue, horder]
    · simp only [Function.update_of_ne hn]
  · simp only [direct, hclients, hfrom]

theorem direct_taken {d d' : Deployment} {e : ℕ} {getOrder : OrderInf} {rest : List OrderInf}
    (hother : getOrder.requestType ≠ 1) (hqueue : d.clients.toServer e = getOrder :: rest)
    (hservice : d'.clients.service = d.clients.service)
    (hcustomers : d'.clients.customers = d.clients.customers)
    (hserver : d'.clients.toServer = Function.update d.clients.toServer e rest)
    (hclient : ∀ n, client.IsCustomer n → d'.clients.toClient n = d.clients.toClient n)
    (hto : d'.toPrimary = d.toPrimary) (hfrom : d'.fromPrimary = d.fromPrimary) :
    d'.direct client = d.direct client := by
  refine eq_direct (d := d) hservice (fun n => ?_) (fun n => ?_) hcustomers
  · simp only [direct, hserver, hto]
    by_cases hn : n = e
    · subst hn
      simp [hqueue, hother]
    · simp only [Function.update_of_ne hn]
  · simp only [direct, hservice, hfrom]
    split_ifs with hn
    · rw [hclient n hn]
    · rfl

theorem direct_read {d d' : Deployment} {e : ℕ} {getOrder : OrderInf} {rest : List OrderInf}
    (hother : getOrder.requestType ≠ 1) (hqueue : d.clients.toServer e = getOrder :: rest)
    (hempty : d.clients.toServer (readConnection e) = [])
    (hclients : d'.clients = { d.clients with
      toServer := Function.update d.clients.toServer e rest })
    (hto : d'.toPrimary = Function.update d.toPrimary (readConnection e)
      (d.toPrimary (readConnection e) ++ [getOrder]))
    (hfrom : d'.fromPrimary = d.fromPrimary) :
    d'.direct client = { d.direct client with
      toServer := Function.update (d.direct client).toServer (readConnection e)
        ((d.direct client).toServer (readConnection e) ++ [getOrder]) } := by
  have hne : readConnection e ≠ e := by
    intro heq
    rw [heq, hqueue] at hempty
    cases hempty
  refine (eq_direct (d := d') (by rw [hclients]; rfl) (fun n => ?_) (fun n => ?_)
    (by rw [hclients]; rfl)).symm
  · simp only [direct, hclients, hto]
    by_cases hn : n = readConnection e
    · subst hn
      simp only [Function.update_self, Function.update_of_ne hne, hempty, List.filter_nil,
        List.append_nil]
    · simp only [Function.update_of_ne hn]
      by_cases hself : n = e
      · subst hself
        simp [hqueue, hother]
      · simp only [Function.update_of_ne hself]
  · simp only [direct, hclients, hfrom]

theorem Relayed.forward_read [Zlib] {d d₁ : Deployment} {e : ℕ} {u : Uninit}
    {getOrder : OrderInf} {rest : List OrderInf} {b : Balancer}
    (h : d.Relayed workerNodesMap client) (htaken : d₁.Relayed workerNodesMap client)
    (he : ¬client.IsCustomer e) (horder : getOrder.requestType ≠ 1)
    (hqueue : d.clients.toServer e = getOrder :: rest)
    (hd₁ : d₁ = { d with
      balancer := b
      clients.toServer := Function.update d.clients.toServer e rest }) {d' : Deployment}
    (server : Option ℤ) (hd' : d' = match server with
      | some i => d₁.send p e (readConnection e) getOrder i
      | none => d₁.ship e (u.message getOrder)) :
    d'.Relayed workerNodesMap client ∧
      Run (clientStep p client) client.Alone (d.direct client) (d'.direct client) := by
  have hne {n : ℕ} (hn : client.IsCustomer n) : n ≠ e := fun heq => he (heq ▸ hn)
  cases server with
  | none =>
    change d' = d₁.ship e (u.message getOrder) at hd'
    have hdirect : d'.direct client = d.direct client := by
      refine direct_taken horder hqueue ?_ ?_ ?_ (fun n hn => ?_) ?_ ?_ <;> rw [hd', hd₁]
      · rfl
      · rfl
      · rfl
      · exact Function.update_of_ne (hne hn) ..
      · rfl
      · rfl
    refine ⟨htaken.congr (e := e) ?_ ?_ ?_ ?_ (x := .request) trivial ?_, hdirect ▸ .start⟩ <;>
      rw [hd'] <;> rfl
  | some i =>
    change d' = d₁.send p e (readConnection e) getOrder i at hd'
    by_cases hi : i = p
    · have hsend : d' = { d₁ with
          toPrimary := Function.update d₁.toPrimary (readConnection e)
            (d₁.toPrimary (readConnection e) ++ [getOrder])
          awaiting := Function.update d₁.awaiting e (.reply (readConnection e) getOrder) } := by
        rw [hd', send, if_pos hi]
      refine ⟨htaken.congr ?_ ?_ ?_ ?_ (x := .reply (readConnection e) getOrder)
        (.inr ⟨rfl, he⟩) ?_, ?_⟩
      · rw [hsend]
      · rw [hsend]
      · rw [hsend]
      · rw [hsend]
      · rw [hsend]
      · -- the other end of the read connection receives it
        refine Run.start.next (a := .other (readConnection e) getOrder)
          (fun htype => absurd htype horder) ((if_neg (readConnection_not_customer e)).trans ?_)
        refine congrArg some (Eq.symm ?_)
        refine direct_read horder hqueue (h.small _ (Nat.le_add_right _ _)) ?_ ?_ ?_ <;>
          rw [hsend, hd₁]
    · have hsend : d' = { d₁ with
          awaiting := Function.update d₁.awaiting e (.worker i getOrder) } := by
        rw [hd', send, if_neg hi, if_neg horder]
      have hdirect : d'.direct client = d.direct client := by
        refine direct_taken horder hqueue ?_ ?_ ?_ (fun n _ => ?_) ?_ ?_ <;> rw [hsend, hd₁]
      refine ⟨htaken.congr ?_ ?_ ?_ ?_ (x := .worker i getOrder) he ?_, hdirect ▸ .start⟩ <;>
        rw [hsend]

theorem Relayed.forward [Zlib] {d : Deployment} {e : ℕ} {u : Uninit}
    {masterNode cs : Option ClientStub} {getOrder : OrderInf} {rest : List OrderInf} {b : Balancer}
    (hserver : serverAt (stubOf workerNodesMap 0).address = some p)
    (h : d.Relayed workerNodesMap client)
    (hserving : d.balancer.sessions e = .serving masterNode cs)
    (hqueue : d.clients.toServer e = getOrder :: rest) (hb : b.Firm workerNodesMap)
    (hsessions : b.sessions = d.balancer.sessions) {d₁ d' : Deployment}
    (hd₁ : d₁ = { d with
      balancer := b
      clients.toServer := Function.update d.clients.toServer e rest })
    (hd' : d' = d₁.forward p serverAt e masterNode cs getOrder true u) :
    d'.Relayed workerNodesMap client ∧
      Run (clientStep p client) client.Alone (d.direct client) (d'.direct client) := by
  have htaken : d₁.Relayed workerNodesMap client :=
    hd₁ ▸ h.taken hb hsessions (by simp [hserving]) hqueue
  obtain rfl := h.firm.masters e masterNode (by rw [hserving]; rfl)
  by_cases horder : getOrder.requestType = 1
  · have hsend : d' = { d₁ with
        toPrimary := Function.update d₁.toPrimary e (d₁.toPrimary e ++ [getOrder])
        awaiting := Function.update d₁.awaiting e (.reply e getOrder) } := by
      simp [hd', Deployment.forward, horder, hserver, send]
    have hdirect : d'.direct client = d.direct client := by
      refine direct_order horder hqueue ?_ ?_ ?_ <;> rw [hsend, hd₁]
    refine ⟨htaken.congr ?_ ?_ ?_ ?_ (x := .reply e getOrder) (.inl rfl) ?_, hdirect ▸ .start⟩ <;>
      rw [hsend]
  · have he : ¬client.IsCustomer e := fun he =>
      horder (h.orders e he getOrder (hqueue ▸ List.mem_cons_self))
    by_cases hread : getOrder.requestType = 2
    · refine h.forward_read htaken he horder hqueue hd₁ (u := u)
        (cs.bind fun x => serverAt x.address) ?_
      rw [hd', Deployment.forward, if_neg horder, if_pos hread]
      rfl
    · have hsame : d' = d₁ := by simp [hd', Deployment.forward, horder, hread]
      have hdirect : d'.direct client = d.direct client := by
        refine direct_taken horder hqueue ?_ ?_ ?_ (fun n _ => ?_) ?_ ?_ <;> rw [hsame, hd₁]
      exact ⟨hsame ▸ htaken, hdirect ▸ .start⟩

theorem direct_reply {d : Deployment} {e n : ℕ} {message : Message} {rest : List Message}
    {getOrder : OrderInf} (hfits : (Awaiting.reply n getOrder).Fits client e)
    (hqueue : d.fromPrimary n = message :: rest) :
    direct client { d.ship e message with
      fromPrimary := Function.update d.fromPrimary n rest } = d.direct client := by
  refine eq_direct (d := d) rfl (fun _ => rfl) (fun k => ?_) rfl
  by_cases hk : client.IsCustomer k
  · simp only [direct, if_pos hk, ship]
    by_cases heq : k = e
    · subst heq
      obtain rfl : n = k := hfits.resolve_right fun hread => hread.2 hk
      simp only [Function.update_self, hqueue, List.append_assoc, List.singleton_append]
    · have hn : k ≠ n := by
        rcases hfits with rfl | ⟨rfl, -⟩
        · exact heq
        · exact fun hread => readConnection_not_customer e (hread ▸ hk)
      simp only [Function.update_of_ne heq, Function.update_of_ne hn]
  · simp only [direct, if_neg hk, ship]

theorem direct_ship {d : Deployment} {e : ℕ} (he : ¬client.IsCustomer e) (message : Message) :
    (d.ship e message).direct client = d.direct client := by
  refine eq_direct (d := d) rfl (fun _ => rfl) (fun k => ?_) rfl
  simp only [direct, ship]
  split_ifs with hk
  · rw [Function.update_of_ne fun heq : k = e => he (heq ▸ hk)]
  · rfl

theorem Relayed.balanced {d : Deployment} {a : BalancerAction} {b : Balancer}
    (horder : InOrder workerNodesMap) (hsome : 0 < workerNodesMap.keys.card)
    (h : d.Relayed workerNodesMap client) (hallows : d.Allows client a)
    (hanswers : d.balancer.Answers a) (hstep : balancerStep d.balancer a = some b) :
    (d.balanced a b).Relayed workerNodesMap client ∧
      (d.balanced a b).direct client = d.direct client := by
  have hsame : d.balanced a b = { d with balancer := b } := by
    obtain ⟨i, -, hworker⟩ := h.firm.selectWorker_eq hsome
    unfold Deployment.balanced
    split
    · rw [hworker, if_neg nofun]
    · rfl
  obtain ⟨-, hsessions⟩ := h.firm.session_step hsome hstep
  rw [hsame]
  refine ⟨⟨h.firm.step horder hsome hanswers hstep, fun e hne he => ?_, fun e hended => ?_,
    h.small, h.orders, h.awaits, h.strayed⟩, rfl⟩
  · rcases (hsessions e).started hne with hold | rfl
    · exact h.started e hold he
    · exact hallows.2 he
  · rcases (hsessions e).ended hended with hold | rfl
    · exact h.ended e hold
    · exact hallows.elim

/-- One step of the deployment. -/
theorem Relayed.step [Zlib] {d d' : Deployment} {a : DeploymentAction}
    (htype : client.requestType = 1) (horder : InOrder workerNodesMap)
    (hsome : 0 < workerNodesMap.keys.card)
    (hserver : serverAt (stubOf workerNodesMap 0).address = some p)
    (h : d.Relayed workerNodesMap client)
    (hrun : Run (clientStep p client) client.Alone (Clients.opened c₀) (d.direct client))
    (hsteady : d.Steady client a) (hstep : deploymentStep p client serverAt d a = some d') :
    d'.Relayed workerNodesMap client ∧
      Run (clientStep p client) client.Alone (d.direct client) (d'.direct client) := by
  have horderly := Clients.orderly_run htype hrun
  cases deploymentStep_cases hstep with
  | client a s hsends hclient =>
    exact ⟨h.goes horderly hsends hclient, direct_client horderly hsteady hsends hclient⟩
  | balancer a b hallows hbalancer =>
    obtain ⟨hrelayed, hsame⟩ := h.balanced horder hsome hallows hsteady hbalancer
    exact ⟨hrelayed, hsame ▸ .start⟩
  | forward e sent u masterNode cs getOrder rest b hserving hawaiting hqueue hbalancer =>
    obtain rfl : sent = true := hsteady
    have hsessions : b.sessions = d.balancer.sessions := by
      cases Balancer.balancerStep_cases hbalancer with
      | request => exact (d.balancer.forward_eq e _ getOrder).2
    exact h.forward hserver hserving hqueue
      (h.firm.step horder hsome (by nofun) hbalancer) hsessions rfl rfl
  | answer e robot i getOrder hawaiting =>
    have he := h.awaits e
    rw [hawaiting] at he
    exact ⟨h.congr rfl rfl rfl rfl he rfl, .start⟩
  | reply e u n getOrder message rest hawaiting hqueue =>
    have hfits := h.awaits e
    rw [hawaiting] at hfits
    exact ⟨h.congr rfl rfl rfl rfl trivial rfl, direct_reply hfits hqueue ▸ .start⟩
  | replyFailed => cases hsteady
  | answered e received u getOrder message hawaiting =>
    have he := h.awaits e
    rw [hawaiting] at he
    exact ⟨h.congr rfl rfl rfl rfl trivial rfl, direct_ship he _ ▸ .start⟩
  | close e b hawaiting hempty hdone hbalancer =>
    obtain ⟨-, hsessions⟩ := h.firm.session_step hsome hbalancer
    refine ⟨⟨h.firm.step horder hsome (by nofun) hbalancer, fun e' hne he => ?_,
      fun e' hended => ?_, h.small, h.orders, h.awaits, h.strayed⟩, .start⟩
    · exact h.started e' (((hsessions e').started hne).resolve_right nofun) he
    · rcases (hsessions e').ended hended with hold | heq
      · exact h.ended e' hold
      · cases heq
        exact ⟨hempty, hdone⟩
  | server a service henabled hservice =>
    exact ⟨⟨h.firm, h.started, h.ended, h.small, h.orders, h.awaits, h.strayed⟩,
      direct_served h henabled hservice⟩

theorem direct_opened (c : Cluster) :
    (opened workerNodesMap c).direct client = Clients.opened c := by
  refine (eq_direct rfl (fun n => rfl) (fun n => ?_) rfl).symm
  simp only [direct, opened, Clients.opened, List.append_nil]
  split_ifs <;> rfl

theorem relayed_run [Zlib] {d : Deployment} (htype : client.requestType = 1)
    (horder : InOrder workerNodesMap) (hsome : 0 < workerNodesMap.keys.card)
    (hserver : serverAt (stubOf workerNodesMap 0).address = some p)
    (hrun : Run (deploymentStep p client serverAt) (Steady client) (opened workerNodesMap c₀) d) :
    d.Relayed workerNodesMap client ∧
      Run (clientStep p client) client.Alone (Clients.opened c₀) (d.direct client) := by
  have hopened : (opened workerNodesMap c₀).direct client = Clients.opened c₀ := direct_opened c₀
  rw [← hopened]
  exact hrun.refines (direct client) (Relayed workerNodesMap client)
    (fun u a v hdirect hrelayed hsteady hstep => hrelayed.step htype horder hsome hserver
      (hopened ▸ hdirect) hsteady hstep) (.opened horder hsome c₀)

/-- What the orders of a customer have come to is the same on both sides. -/
theorem ordered_of_direct {d : Deployment} {orders e k : ℕ}
    (h : (d.direct client).Ordered p orders e k) : d.clients.Ordered p orders e k :=
  ⟨h.known, h.unknown, h.wanted, h.logged, h.recorded, h.told⟩

end Relayed

end Deployment

/-- While worker 0 answers its probes and no call of a session fails, the deployment is
the client program connected to worker 0. No order is sent to another server, and the
orders of each customer are logged and answered in sequence. -/
theorem load_balancer_transparent [Zlib] {p : ℤ} {client : Client}
    {serverAt : String × ℤ → Option ℤ} {workerNodesMap : Finmap fun _ : ℤ => String × ℤ}
    {c₀ : Cluster} {d : Deployment} (hfresh : Fresh c₀) (htype : client.requestType = 1)
    (horder : InOrder workerNodesMap) (hsome : 0 < workerNodesMap.keys.card)
    (hserver : serverAt (stubOf workerNodesMap 0).address = some p)
    (hrun : Run (deploymentStep p client serverAt) (Deployment.Steady client)
      (Deployment.opened workerNodesMap c₀) d) :
    Run (clientStep p client) client.Alone (Clients.opened c₀) (d.direct client) ∧
      d.strayed = [] ∧
      ∀ e, client.IsCustomer e → ∃ k, d.clients.Ordered p client.orders.toInt.toNat e k := by
  obtain ⟨hrelayed, hdirect⟩ := Deployment.relayed_run htype horder hsome hserver hrun
  obtain ⟨-, -, hexplained⟩ := Service.explained_run hfresh (Clients.service_run hdirect)
  refine ⟨hdirect, hrelayed.strayed, fun e he => ?_⟩
  obtain ⟨k, hordered⟩ := (Clients.orderly_run htype hdirect).ordered hexplained he
  exact ⟨k, Deployment.ordered_of_direct hordered⟩

def twoServers (address : String × ℤ) : Option ℤ :=
  if address = ("10.0.0.1", 8000) then some 0
  else if address = ("10.0.0.2", 8000) then some 1
  else none

theorem inOrder_twoWorkers : InOrder twoWorkers := by
  refine inOrder_of_mem fun i h0 hi => ?_
  have hcard : twoWorkers.keys.card = 2 := by decide
  rcases (by omega : i = 0 ∨ i = 1) with rfl | rfl <;> exact Finmap.mem_iff.mpr ⟨_, rfl⟩

/-- One customer with one order, which it gets through the load balancer. -/
theorem load_balancer_transparent_two : ∃ d : Deployment,
    (d.clients.customers 0).opCount = 1 ∧ d.balancer.forwards = [⟨0, ⟨3000, 1, 1⟩, 0, 0⟩] ∧
    d.strayed = [] ∧ ∃ k, d.clients.Ordered 0 1 0 k := by
  have hrun : ∃ d, Run (deploymentStep 0 ⟨1, 1, 1⟩ twoServers) (Deployment.Steady ⟨1, 1, 1⟩)
      (Deployment.opened twoWorkers duo) d ∧ (d.clients.customers 0).opCount = 1 ∧
      d.balancer.forwards = [⟨0, ⟨3000, 1, 1⟩, 0, 0⟩] :=
    ⟨_, (((((((((((((((((Run.start.next (a := .client (.init 0 true)) trivial rfl).next
      (a := .balancer (.accept 0)) (by nofun) rfl).next
      (a := .balancer (.getMasterNode 0)) (by nofun) rfl).next
      (a := .balancer (.readMasterNode 0)) (by nofun) rfl).next
      (a := .balancer (.initMaster 0)) (by nofun) rfl).next
      (a := .balancer (.selectWorker 0)) (by nofun) rfl).next
      (a := .client (.send 0 true)) trivial rfl).next
      (a := .forward 0 true .zero) (by rfl) rfl).next
      (a := .server (.connect 0)) trivial rfl).next
      (a := .server (.request 0 ⟨3000, 1, 1⟩)) trivial rfl).next
      (a := .server .wake) trivial rfl).next
      (a := .server (.begin fun _ => 5)) trivial rfl).next
      (a := .server (.replicate Link.clean)) trivial rfl).next
      (a := .server .finish) trivial rfl).next
      (a := .server (.ship 0)) trivial rfl).next
      (a := .balancer .heartbeatInit) (by nofun) rfl).next
      (a := .reply 0 true .zero) (by rfl) rfl).next
      (a := .client (.recv 0 true)) trivial rfl, rfl, rfl⟩
  obtain ⟨d, hrun, hcount, hforwards⟩ := hrun
  obtain ⟨-, hstrayed, hordered⟩ :=
    load_balancer_transparent duo_fresh rfl inOrder_twoWorkers (by decide) rfl hrun
  exact ⟨d, hcount, hforwards, hstrayed, hordered 0 (by decide)⟩

end RobotFactory
