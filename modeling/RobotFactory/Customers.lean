import RobotFactory.Service

/-!
# The client program

`run` starts a thread for each customer, with an id of its own and a connection of
its own. A customer sends its requests one by one and waits for each reply, and an
order thread ends at the first call that fails. The clients are put together with
the primary that they are connected to. A connection carries whole messages in
order, and a call may fail at any point. The server's process lives on, and none of
its engineers closes a connection before the client does, so `recv` never finds the
end of the stream.
-/
namespace RobotFactory
open TransitionSystem Linearization

/-- The arguments of the client program. -/
structure Client where
  customers : Int32
  orders : Int32
  requestType : Int32
  deriving DecidableEq, Repr

/-- Where `Client_thread_body` stands: before `Init`, at its end without a
connection, before a `send`, before a `recv`, before `close_socket`, or at its end. -/
inductive CustomerPc where
  | start
  | unconnected
  | sending
  | receiving
  | closing
  | done
  deriving DecidableEq, Repr

/-- The locals of a customer thread, the count of its timer, and the last reply it
has got. -/
structure Customer where
  pc : CustomerPc
  sendOrder : OrderInf
  i : ℕ
  opCount : ℕ
  reply : Option Message
  deriving DecidableEq, Repr

namespace Client

def customerId (e : ℕ) : Int32 := Int32.ofNat e + 3000

/-- The connections of the customer threads; all others are those of other programs. -/
def IsCustomer (client : Client) (e : ℕ) : Prop := (e : ℤ) < client.customers.toInt

instance (client : Client) (e : ℕ) : Decidable (client.IsCustomer e) :=
  inferInstanceAs (Decidable (_ < _))

/-- The loop test of an order thread and of a read thread; other threads have no loop. -/
def loop (client : Client) (x : Customer) : Customer :=
  { x with
    pc :=
      if (client.requestType = 1 ∨ client.requestType = 2) ∧ (x.i : ℤ) < client.orders.toInt then
        .sending
      else .closing }

def entered (client : Client) (e : ℕ) : Customer :=
  client.loop
    { pc := .start
      sendOrder :=
        if client.requestType = 1 then ⟨customerId e, 1, client.requestType⟩
        else ⟨customerId e, -1, 2⟩
      i := 0
      opCount := 0
      reply := none }

/-- An exchange has failed: an order thread leaves its loop, a read thread goes on. -/
def failed (client : Client) (x : Customer) : Customer :=
  if client.requestType = 1 then { x with pc := .closing }
  else client.loop { x with i := x.i + 1 }

/-- An exchange has succeeded. -/
def succeeded (client : Client) (x : Customer) (reply : Message) : Customer :=
  client.loop
    { x with
      sendOrder.orderNumber :=
        if client.requestType = 1 then x.sendOrder.orderNumber + 1 else x.sendOrder.orderNumber
      i := x.i + 1
      opCount := x.opCount + 1
      reply := some reply }

end Client

/-- The service with its connections and the threads of the client program. -/
structure Clients where
  service : Service
  toServer : ℕ → List OrderInf
  toClient : ℕ → List Message
  customers : ℕ → Customer

/-- Steps of a customer thread, of another client that sends a request, and of the
threads of the server. -/
inductive ClientAction where
  | init (e : ℕ) (connected : Bool)
  | send (e : ℕ) (sent : Bool)
  | recv (e : ℕ) (received : Bool)
  | closeSocket (e : ℕ)
  | other (e : ℕ) (request : OrderInf)
  | server (a : ThreadAction)

namespace Clients

def opened (c : Cluster) : Clients where
  service := .opened c
  toServer _ := []
  toClient _ := []
  customers _ := ⟨.start, ⟨0, 0, 0⟩, 0, 0, none⟩

def setCustomer (s : Clients) (e : ℕ) (x : Customer) : Clients :=
  { s with customers := Function.update s.customers e x }

/-- What the connections allow the server: a connection that was made is accepted,
the next request is received, and the end of the stream is seen once the client has
closed the connection and all it sent is received. -/
def Enabled (client : Client) (s : Clients) : ThreadAction → Prop
  | .connect e => client.IsCustomer e → (s.customers e).pc ≠ .start ∧
      (s.customers e).pc ≠ .unconnected
  | .request e makeOrder => (s.toServer e).head? = some makeOrder
  | .hangUp e _ => s.toServer e = [] ∧ (client.IsCustomer e → (s.customers e).pc = .done)
  | _ => True

instance (client : Client) (s : Clients) (a : ThreadAction) : Decidable (s.Enabled client a) := by
  cases a <;> unfold Enabled <;> infer_instance

/-- A step of the server takes a request from its connection and adds the replies it
has sent. -/
def served (s : Clients) (a : ThreadAction) (service : Service) : Clients where
  service := service
  toServer :=
    match a with
    | .request e _ => Function.update s.toServer e (s.toServer e).tail
    | _ => s.toServer
  toClient e := s.toClient e ++ (service.replies e).drop (s.service.replies e).length
  customers := s.customers

end Clients

def clientStep [Zlib] (p : ℤ) (client : Client) (s : Clients) : ClientAction → Option Clients
  | .init e connected =>
    if client.IsCustomer e ∧ (s.customers e).pc = .start then
      some (s.setCustomer e
        (if connected then client.entered e else { s.customers e with pc := .unconnected }))
    else none
  | .send e sent =>
    if (s.customers e).pc = .sending then
      some (if sent then
          { s.setCustomer e { s.customers e with pc := .receiving } with
            toServer :=
              Function.update s.toServer e (s.toServer e ++ [(s.customers e).sendOrder]) }
        else s.setCustomer e (client.failed (s.customers e)))
    else none
  | .recv e received =>
    if (s.customers e).pc = .receiving then
      if received then
        match s.toClient e with
        | [] => none
        | reply :: rest =>
          some { s.setCustomer e (client.succeeded (s.customers e) reply) with
            toClient := Function.update s.toClient e rest }
      else some (s.setCustomer e (client.failed (s.customers e)))
    else none
  | .closeSocket e =>
    if (s.customers e).pc = .closing then
      some (s.setCustomer e { s.customers e with pc := .done })
    else none
  | .other e request =>
    if client.IsCustomer e then none
    else some { s with toServer := Function.update s.toServer e (s.toServer e ++ [request]) }
  | .server a =>
    if s.Enabled client a then (serviceStep p s.service a).map (s.served a) else none

inductive ClientStepped [Zlib] (p : ℤ) (client : Client) (s : Clients) :
    ClientAction → Clients → Prop where
  | init (e : ℕ) (connected : Bool) (hcustomer : client.IsCustomer e)
      (hpc : (s.customers e).pc = .start) :
      ClientStepped p client s (.init e connected) (s.setCustomer e
        (if connected then client.entered e else { s.customers e with pc := .unconnected }))
  | sent (e : ℕ) (hpc : (s.customers e).pc = .sending) :
      ClientStepped p client s (.send e true)
        { s.setCustomer e { s.customers e with pc := .receiving } with
          toServer := Function.update s.toServer e (s.toServer e ++ [(s.customers e).sendOrder]) }
  | sendFailed (e : ℕ) (hpc : (s.customers e).pc = .sending) :
      ClientStepped p client s (.send e false) (s.setCustomer e (client.failed (s.customers e)))
  | received (e : ℕ) (reply : Message) (rest : List Message)
      (hpc : (s.customers e).pc = .receiving) (hqueue : s.toClient e = reply :: rest) :
      ClientStepped p client s (.recv e true)
        { s.setCustomer e (client.succeeded (s.customers e) reply) with
          toClient := Function.update s.toClient e rest }
  | recvFailed (e : ℕ) (hpc : (s.customers e).pc = .receiving) :
      ClientStepped p client s (.recv e false) (s.setCustomer e (client.failed (s.customers e)))
  | closeSocket (e : ℕ) (hpc : (s.customers e).pc = .closing) :
      ClientStepped p client s (.closeSocket e)
        (s.setCustomer e { s.customers e with pc := .done })
  | other (e : ℕ) (request : OrderInf) (hother : ¬client.IsCustomer e) :
      ClientStepped p client s (.other e request)
        { s with toServer := Function.update s.toServer e (s.toServer e ++ [request]) }
  | server (a : ThreadAction) (service : Service) (henabled : s.Enabled client a)
      (hstep : serviceStep p s.service a = some service) :
      ClientStepped p client s (.server a) (s.served a service)

/-- The inversion of `clientStep`. -/
theorem clientStep_cases [Zlib] {p : ℤ} {client : Client} {s s' : Clients} {a : ClientAction}
    (h : clientStep p client s a = some s') : ClientStepped p client s a s' := by
  cases a with
  | init e connected =>
    simp only [clientStep, Option.ite_none_right_eq_some, Option.some.injEq] at h
    obtain ⟨⟨hcustomer, hpc⟩, rfl⟩ := h
    exact .init e connected hcustomer hpc
  | send e sent =>
    simp only [clientStep, Option.ite_none_right_eq_some, Option.some.injEq] at h
    obtain ⟨hpc, rfl⟩ := h
    cases sent with
    | true => exact .sent e hpc
    | false => exact .sendFailed e hpc
  | recv e received =>
    simp only [clientStep, Option.ite_none_right_eq_some] at h
    obtain ⟨hpc, h⟩ := h
    cases received with
    | true =>
      cases hqueue : s.toClient e with
      | nil => simp [hqueue] at h
      | cons reply rest =>
        simp only [if_true, hqueue, Option.some.injEq] at h
        subst h
        exact .received e reply rest hpc hqueue
    | false =>
      simp only [Bool.false_eq_true, if_false, Option.some.injEq] at h
      subst h
      exact .recvFailed e hpc
  | closeSocket e =>
    simp only [clientStep, Option.ite_none_right_eq_some, Option.some.injEq] at h
    obtain ⟨hpc, rfl⟩ := h
    exact .closeSocket e hpc
  | other e request =>
    simp only [clientStep, Option.ite_none_left_eq_some, Option.some.injEq] at h
    obtain ⟨hother, rfl⟩ := h
    exact .other e request hother
  | server a =>
    simp only [clientStep, Option.ite_none_right_eq_some, Option.map_eq_some_iff] at h
    obtain ⟨henabled, service, hstep, rfl⟩ := h
    exact .server a service henabled hstep

namespace Clients

/-- A run with clients is a run of the service. -/
theorem service_run [Zlib] {p : ℤ} {client : Client} {c₀ : Cluster} {s : Clients}
    {ok : Clients → ClientAction → Prop} (h : Run (clientStep p client) ok (opened c₀) s) :
    Run (serviceStep p) (fun _ _ => True) (Service.opened c₀) s.service := by
  refine h.invariant
    (fun u => Run (serviceStep p) (fun _ _ => True) (Service.opened c₀) u.service) ?_ .start
  intro u a u' hrun _ hstep
  cases clientStep_cases hstep with
  | server a service _ hserver => exact hrun.next trivial hserver
  | _ => exact hrun

end Clients

end RobotFactory
