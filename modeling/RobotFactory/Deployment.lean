import RobotFactory.ConfiguredWorkers
import RobotFactory.CustomerOrders

/-!
# The deployment

The client program in front, the load balancer behind it, and the servers behind the
load balancer. A session forwards orders to its master node over one connection and
reads to its worker over another, waits for each reply, and passes it on. One server is
modelled with its threads, and the others by the records that they return. A
connection carries whole messages in order; a session sees its end when the client has
closed it and all requests are handled. What is shipped after a failed call is an
argument.
-/
namespace RobotFactory
open TransitionSystem

/-- What a session waits for: a request of its client, the reply on connection `n` to
the primary, the reply of another server; or it has got that reply. -/
inductive Awaiting where
  | request
  | reply (n : ℕ) (getOrder : OrderInf)
  | worker (i : ℤ) (getOrder : OrderInf)
  | answered (getOrder : OrderInf) (message : Message)
  deriving DecidableEq, Repr

/-- The clients with their connections, where the server of `clients` is the primary,
the load balancer, and the connections between its sessions and the primary. `strayed`
is not part of the program: the orders that were sent to other servers. -/
structure Deployment where
  clients : Clients
  balancer : Balancer
  awaiting : ℕ → Awaiting
  toPrimary : ℕ → List OrderInf
  fromPrimary : ℕ → List Message
  strayed : List (ℤ × OrderInf)

/-- Steps of the clients, of the threads of the load balancer up to the requests of a
session, of a session with a request, of another server that answers one, and of the
primary. -/
inductive DeploymentAction where
  | client (a : ClientAction)
  | balancer (a : BalancerAction)
  | forward (e : ℕ) (sent : Bool) (u : Uninit)
  | answer (e : ℕ) (robot : RobotInf)
  | reply (e : ℕ) (received : Bool) (u : Uninit)
  | close (e : ℕ)
  | server (a : ThreadAction)

/-- What `CreateRobot` or `ReadRecord` ships after a failed call. -/
def Uninit.message (u : Uninit) (getOrder : OrderInf) : Message :=
  if getOrder.requestType = 1 then .robotInf u.getRobo else .cRec u.getRec

namespace Deployment

/-- The number of a session's connection to its worker; that to its master node has the
number of the session, which is an `int`. -/
def readConnection (e : ℕ) : ℕ := 2 ^ 31 + e

def opened (workerNodesMap : Finmap fun _ : ℤ => String × ℤ) (c : Cluster) : Deployment where
  clients := .opened c
  balancer := .started workerNodesMap
  awaiting _ := .request
  toPrimary _ := []
  fromPrimary _ := []
  strayed := []

def ship (d : Deployment) (e : ℕ) (message : Message) : Deployment :=
  { d with
    clients.toClient := Function.update d.clients.toClient e (d.clients.toClient e ++ [message])
    awaiting := Function.update d.awaiting e .request }

/-- A request is sent to server `i`, over connection `n` if this is the primary. -/
def send (d : Deployment) (p : ℤ) (e n : ℕ) (getOrder : OrderInf) (i : ℤ) : Deployment :=
  if i = p then
    { d with
      toPrimary := Function.update d.toPrimary n (d.toPrimary n ++ [getOrder])
      awaiting := Function.update d.awaiting e (.reply n getOrder) }
  else
    { d with
      awaiting := Function.update d.awaiting e (.worker i getOrder)
      strayed := if getOrder.requestType = 1 then d.strayed ++ [(i, getOrder)] else d.strayed }

/-- The body of the loop in `LoadBalancerThread` up to the `recv` of the reply. -/
def forward (d : Deployment) (p : ℤ) (serverAt : String × ℤ → Option ℤ) (e : ℕ)
    (masterNode cs : Option ClientStub) (getOrder : OrderInf) (sent : Bool) (u : Uninit) :
    Deployment :=
  let connected (stub : Option ClientStub) : Option ℤ :=
    if sent then stub.bind fun x => serverAt x.address else none
  if getOrder.requestType = 1 then
    if masterNode.isNone then d.ship e (.robotInf negativeRobot)
    else
      match connected masterNode with
      | some i => d.send p e e getOrder i
      | none => d.ship e (u.message getOrder)
  else if getOrder.requestType = 2 then
    match connected cs with
    | some i => d.send p e (readConnection e) getOrder i
    | none => d.ship e (u.message getOrder)
  else d

/-- A session that finds no worker ships the negative record. -/
def balanced (d : Deployment) (a : BalancerAction) (b : Balancer) : Deployment :=
  match a with
  | .selectWorker e =>
    if d.balancer.lb.selectWorker.1 = .refused then
      { d with balancer := b }.ship e (.cRec negativeRecord)
    else { d with balancer := b }
  | _ => { d with balancer := b }

/-- The load balancer does nothing to the primary. -/
@[simp] theorem forward_service (d : Deployment) (p : ℤ) (serverAt : String × ℤ → Option ℤ) (e : ℕ)
    (masterNode cs : Option ClientStub) (getOrder : OrderInf) (sent : Bool) (u : Uninit) :
    (d.forward p serverAt e masterNode cs getOrder sent u).clients.service = d.clients.service := by
  have hsend (n : ℕ) (i : ℤ) : (d.send p e n getOrder i).clients = d.clients := by
    unfold send
    split_ifs <;> rfl
  unfold forward
  simp only
  split_ifs <;> first | rfl | (split <;> first | exact congrArg _ (hsend ..) | rfl)

@[simp] theorem balanced_service (d : Deployment) (a : BalancerAction) (b : Balancer) :
    (d.balanced a b).clients.service = d.clients.service := by
  unfold balanced
  split
  · split_ifs <;> rfl
  · rfl

/-- What another server replies; a robot may be any. -/
def answer (d : Deployment) (i : ℤ) (getOrder : OrderInf) (robot : RobotInf) : Message :=
  if getOrder.requestType = 1 then .robotInf robot
  else .cRec ⟨getOrder.customerId,
    (d.clients.service.threads.cluster i).server.lastOrder getOrder.customerId⟩

/-- A step of the primary takes a request from its connection and adds the replies it
has sent. -/
def served (d : Deployment) (a : ThreadAction) (service : Service) : Deployment :=
  { d with
    clients.service := service
    toPrimary :=
      match a with
      | .request n _ => Function.update d.toPrimary n (d.toPrimary n).tail
      | _ => d.toPrimary
    fromPrimary n :=
      d.fromPrimary n ++ (service.replies n).drop (d.clients.service.replies n).length }

/-- A session may have made connection `n` to the primary. -/
def Connected (d : Deployment) (p : ℤ) (serverAt : String × ℤ → Option ℤ) (n : ℕ) : Prop :=
  if n < 2 ^ 31 then
    match d.balancer.sessions n with
    | .selecting (some stub) => serverAt stub.address = some p
    | .serving (some stub) _ => serverAt stub.address = some p
    | .ended => True
    | _ => False
  else
    match d.balancer.sessions (n - 2 ^ 31) with
    | .serving _ (some stub) => serverAt stub.address = some p
    | .ended => True
    | _ => False

instance (d : Deployment) (p : ℤ) (serverAt : String × ℤ → Option ℤ) (n : ℕ) :
    Decidable (d.Connected p serverAt n) := by
  unfold Connected
  split_ifs <;> split <;> infer_instance

/-- What the connections allow the primary. -/
def Enabled (d : Deployment) (p : ℤ) (serverAt : String × ℤ → Option ℤ) : ThreadAction → Prop
  | .connect n => d.Connected p serverAt n
  | .request n makeOrder => (d.toPrimary n).head? = some makeOrder
  | .hangUp n _ => d.toPrimary n = [] ∧
      d.balancer.sessions (if n < 2 ^ 31 then n else n - 2 ^ 31) = .ended
  | _ => True

instance (d : Deployment) (p : ℤ) (serverAt : String × ℤ → Option ℤ) (a : ThreadAction) :
    Decidable (d.Enabled p serverAt a) :=
  match a with
  | .connect n => inferInstanceAs (Decidable (d.Connected p serverAt n))
  | .request n makeOrder => inferInstanceAs (Decidable ((d.toPrimary n).head? = some makeOrder))
  | .hangUp n _ => inferInstanceAs (Decidable (d.toPrimary n = [] ∧
      d.balancer.sessions (if n < 2 ^ 31 then n else n - 2 ^ 31) = .ended))
  | .ship _ | .close _ | .fail _ | .wake | .wait | .begin _ | .replicate _ | .finish | .peer _
  | .others _ => .isTrue trivial

/-- A client may send requests until its session has ended. -/
def Sends (d : Deployment) : ClientAction → Prop
  | .other e _ => e < 2 ^ 31 ∧ d.balancer.sessions e ≠ .ended
  | .server _ => False
  | _ => True

instance (d : Deployment) (a : ClientAction) : Decidable (d.Sends a) := by
  cases a <;> unfold Sends <;> infer_instance

/-- Which threads of the load balancer may go on: a connection that was made is
accepted, and the requests of a session are steps of their own. -/
def Allows (client : Client) (d : Deployment) : BalancerAction → Prop
  | .accept e => e < 2 ^ 31 ∧ (client.IsCustomer e →
      (d.clients.customers e).pc ≠ .start ∧ (d.clients.customers e).pc ≠ .unconnected)
  | .request _ _ => False
  | .close _ => False
  | _ => True

instance (client : Client) (d : Deployment) (a : BalancerAction) :
    Decidable (d.Allows client a) := by
  cases a <;> unfold Allows <;> infer_instance

end Deployment

/-- One step of the deployment of `client` with the primary `p`, where `serverAt` tells
which server listens on an address. -/
def deploymentStep [Zlib] (p : ℤ) (client : Client) (serverAt : String × ℤ → Option ℤ)
    (d : Deployment) : DeploymentAction → Option Deployment
  | .client a =>
    if d.Sends a then (clientStep p client d.clients a).map fun s => { d with clients := s }
    else none
  | .balancer a =>
    if d.Allows client a then (balancerStep d.balancer a).map (d.balanced a) else none
  | .forward e sent u =>
    match d.balancer.sessions e, d.awaiting e, d.clients.toServer e with
    | .serving masterNode cs, .request, getOrder :: rest =>
      (balancerStep d.balancer (.request e getOrder)).map fun b =>
        { d with
          balancer := b
          clients.toServer := Function.update d.clients.toServer e rest }.forward p serverAt e
            masterNode cs getOrder sent u
    | _, _, _ => none
  | .answer e robot =>
    match d.awaiting e with
    | .worker i getOrder =>
      some { d with
        awaiting := Function.update d.awaiting e (.answered getOrder (d.answer i getOrder robot)) }
    | _ => none
  | .reply e received u =>
    match d.balancer.alive, d.awaiting e with
    | true, .reply n getOrder =>
      if received then
        match d.fromPrimary n with
        | [] => none
        | message :: rest =>
          some { d.ship e message with fromPrimary := Function.update d.fromPrimary n rest }
      else some (d.ship e (u.message getOrder))
    | true, .answered getOrder message =>
      some (d.ship e (if received then message else u.message getOrder))
    | _, _ => none
  | .close e =>
    if d.awaiting e = .request ∧ d.clients.toServer e = [] ∧
        (client.IsCustomer e → (d.clients.customers e).pc = .done) then
      (balancerStep d.balancer (.close e)).map fun b => { d with balancer := b }
    else none
  | .server a =>
    if d.Enabled p serverAt a then (serviceStep p d.clients.service a).map (d.served a) else none

inductive Deployed [Zlib] (p : ℤ) (client : Client) (serverAt : String × ℤ → Option ℤ)
    (d : Deployment) : DeploymentAction → Deployment → Prop where
  | client (a : ClientAction) (s : Clients) (hsends : d.Sends a)
      (hstep : clientStep p client d.clients a = some s) :
      Deployed p client serverAt d (.client a) { d with clients := s }
  | balancer (a : BalancerAction) (b : Balancer) (hallows : d.Allows client a)
      (hstep : balancerStep d.balancer a = some b) :
      Deployed p client serverAt d (.balancer a) (d.balanced a b)
  | forward (e : ℕ) (sent : Bool) (u : Uninit) (masterNode cs : Option ClientStub)
      (getOrder : OrderInf) (rest : List OrderInf) (b : Balancer)
      (hserving : d.balancer.sessions e = .serving masterNode cs)
      (hawaiting : d.awaiting e = .request) (hqueue : d.clients.toServer e = getOrder :: rest)
      (hstep : balancerStep d.balancer (.request e getOrder) = some b) :
      Deployed p client serverAt d (.forward e sent u)
        ({ d with
            balancer := b
            clients.toServer := Function.update d.clients.toServer e rest }.forward p serverAt e
              masterNode cs getOrder sent u)
  | answer (e : ℕ) (robot : RobotInf) (i : ℤ) (getOrder : OrderInf)
      (hawaiting : d.awaiting e = .worker i getOrder) :
      Deployed p client serverAt d (.answer e robot) { d with
        awaiting := Function.update d.awaiting e (.answered getOrder (d.answer i getOrder robot)) }
  | reply (e : ℕ) (u : Uninit) (n : ℕ) (getOrder : OrderInf) (message : Message)
      (rest : List Message) (hawaiting : d.awaiting e = .reply n getOrder)
      (hqueue : d.fromPrimary n = message :: rest) :
      Deployed p client serverAt d (.reply e true u)
        { d.ship e message with fromPrimary := Function.update d.fromPrimary n rest }
  | replyFailed (e : ℕ) (u : Uninit) (n : ℕ) (getOrder : OrderInf)
      (hawaiting : d.awaiting e = .reply n getOrder) :
      Deployed p client serverAt d (.reply e false u) (d.ship e (u.message getOrder))
  | answered (e : ℕ) (received : Bool) (u : Uninit) (getOrder : OrderInf) (message : Message)
      (hawaiting : d.awaiting e = .answered getOrder message) :
      Deployed p client serverAt d (.reply e received u)
        (d.ship e (if received then message else u.message getOrder))
  | close (e : ℕ) (b : Balancer) (hawaiting : d.awaiting e = .request)
      (hempty : d.clients.toServer e = [])
      (hdone : client.IsCustomer e → (d.clients.customers e).pc = .done)
      (hstep : balancerStep d.balancer (.close e) = some b) :
      Deployed p client serverAt d (.close e) { d with balancer := b }
  | server (a : ThreadAction) (service : Service) (henabled : d.Enabled p serverAt a)
      (hstep : serviceStep p d.clients.service a = some service) :
      Deployed p client serverAt d (.server a) (d.served a service)

/-- The inversion of `deploymentStep`. -/
theorem deploymentStep_cases [Zlib] {p : ℤ} {client : Client} {serverAt : String × ℤ → Option ℤ}
    {d d' : Deployment} {a : DeploymentAction}
    (h : deploymentStep p client serverAt d a = some d') : Deployed p client serverAt d a d' := by
  cases a with
  | client a =>
    simp only [deploymentStep, Option.ite_none_right_eq_some, Option.map_eq_some_iff] at h
    obtain ⟨hsends, s, hstep, rfl⟩ := h
    exact .client a s hsends hstep
  | balancer a =>
    simp only [deploymentStep, Option.ite_none_right_eq_some, Option.map_eq_some_iff] at h
    obtain ⟨hallows, b, hstep, rfl⟩ := h
    exact .balancer a b hallows hstep
  | forward e sent u =>
    simp only [deploymentStep] at h
    split at h
    · rename_i masterNode cs getOrder rest hserving hawaiting hqueue
      obtain ⟨b, hstep, rfl⟩ := Option.map_eq_some_iff.mp h
      exact .forward e sent u masterNode cs getOrder rest b hserving hawaiting hqueue hstep
    · cases h
  | answer e robot =>
    simp only [deploymentStep] at h
    split at h
    · rename_i i getOrder hawaiting
      cases h
      exact .answer e robot i getOrder hawaiting
    · cases h
  | reply e received u =>
    simp only [deploymentStep] at h
    split at h
    · rename_i n getOrder _ hawaiting
      cases received with
      | true =>
        simp only [if_true] at h
        split at h
        · cases h
        · rename_i message rest hqueue
          cases h
          exact .reply e u n getOrder message rest hawaiting hqueue
      | false =>
        cases h
        exact .replyFailed e u n getOrder hawaiting
    · rename_i getOrder message _ hawaiting
      cases h
      exact .answered e received u getOrder message hawaiting
    · cases h
  | close e =>
    simp only [deploymentStep, Option.ite_none_right_eq_some, Option.map_eq_some_iff] at h
    obtain ⟨⟨hawaiting, hempty, hdone⟩, b, hstep, rfl⟩ := h
    exact .close e b hawaiting hempty hdone hstep
  | server a =>
    simp only [deploymentStep, Option.ite_none_right_eq_some, Option.map_eq_some_iff] at h
    obtain ⟨henabled, service, hstep, rfl⟩ := h
    exact .server a service henabled hstep

end RobotFactory
