import RobotFactory.Customers

/-!
# What a customer can rely on

An order thread sends its orders in sequence under an id that no one else orders
under. So the log has them in sequence, none twice and none left out, and at most one
more than the thread knows of.
-/
namespace RobotFactory
open TransitionSystem Linearization ReplayLog

section OrderBook

def entryOf (order : OrderInf) : MapOp := ⟨1, order.customerId, order.orderNumber⟩

theorem loggedEntry_of_order {x : Effect ℕ OrderInf Message} (htype : x.request.requestType = 1)
    (hid : x.request.customerId ≠ -1) : loggedEntry x = some (entryOf x.request) :=
  if_pos ⟨htype, hid⟩

/-- The order book is the replay of the orders that have taken effect. -/
theorem legal_record {adminId : Int32} {history : List (Effect ℕ OrderInf Message)}
    {record : CustomerRecord} (h : Legal (orderBook adminId) history record) :
    record = replayRecord (history.filterMap loggedEntry) := by
  induction h with
  | start => rfl
  | @next history record e request h ih =>
    rw [Service.filterMap_concat]
    by_cases horder : request.requestType = 1
    · by_cases hid : request.customerId = -1
      · simpa [orderBook, loggedEntry, horder, hid] using ih
      · rw [loggedEntry_of_order horder hid, Option.toList_some, replayRecord, replay_concat]
        simp only [orderBook, if_pos horder, ne_eq, hid, not_false_eq_true, if_true, ih]
        rfl
    · simpa [orderBook, loggedEntry, horder] using ih

def robotOf (adminId : Int32) (order : OrderInf) : Message :=
  .robotInf ⟨order.customerId, order.orderNumber, 1, engineerIdDefault, adminId⟩

theorem legal_reply {adminId : Int32} {history : List (Effect ℕ OrderInf Message)}
    {record : CustomerRecord} (h : Legal (orderBook adminId) history record)
    {x : Effect ℕ OrderInf Message} (hx : x ∈ history) (htype : x.request.requestType = 1)
    (hid : x.request.customerId ≠ -1) : x.reply = robotOf adminId x.request := by
  obtain ⟨before, after, rfl⟩ := List.append_of_mem hx
  obtain ⟨mid, -, hreply⟩ := h.reply_eq
  rw [hreply]
  simp only [orderBook, if_pos htype, if_pos hid]
  rfl

/-- Connection `e` orders for customer `id` only, and no other connection does. -/
structure Owned (history : List (Effect ℕ OrderInf Message)) (e : ℕ) (id : Int32) : Prop where
  id_ne : id ≠ -1
  own : ∀ x ∈ history, x.client = e → x.request.requestType = 1 ∧ x.request.customerId = id
  others : ∀ x ∈ history, x.client ≠ e → x.request.requestType = 1 → x.request.customerId ≠ id

namespace Owned

theorem of_append {before after : List (Effect ℕ OrderInf Message)} {e : ℕ} {id : Int32}
    (h : Owned (before ++ after) e id) : Owned before e id :=
  ⟨h.id_ne, fun x hx => h.own x (List.mem_append_left _ hx),
    fun x hx => h.others x (List.mem_append_left _ hx)⟩

/-- The customer's entries are those of the requests of its connection. -/
theorem entries_eq {history : List (Effect ℕ OrderInf Message)} {e : ℕ} {id : Int32}
    (h : Owned history e id) : (history.filterMap loggedEntry).filter (fun op => op.arg1 = id) =
      (requestsOf history e).map entryOf := by
  induction history with
  | nil => rfl
  | cons x history ih =>
    have ih' := ih ⟨h.id_ne, fun y hy => h.own y (List.mem_cons_of_mem x hy),
      fun y hy => h.others y (List.mem_cons_of_mem x hy)⟩
    have hx : x ∈ x :: history := List.mem_cons_self
    by_cases hown : x.client = e
    · obtain ⟨htype, hid⟩ := h.own x hx hown
      rw [List.filterMap_cons, loggedEntry_of_order htype (hid ▸ h.id_ne)]
      simp [requestsOf, hown, entryOf, hid] at ih' ⊢
      exact ih'
    · have hforeign := h.others x hx hown
      rw [List.filterMap_cons]
      cases hentry : loggedEntry x with
      | none => simpa [requestsOf, hown] using ih'
      | some op =>
        unfold loggedEntry at hentry
        split_ifs at hentry with hboth
        cases hentry
        simpa [requestsOf, hown, hforeign hboth.1] using ih'

theorem repliesOf_eq {adminId : Int32} {history : List (Effect ℕ OrderInf Message)}
    {record : CustomerRecord} {e : ℕ} {id : Int32} (h : Owned history e id)
    (hlegal : Legal (orderBook adminId) history record) :
    repliesOf history e = (requestsOf history e).map (robotOf adminId) := by
  rw [repliesOf, requestsOf, List.map_map]
  refine List.map_congr_left fun x hx => ?_
  obtain ⟨hmem, hclient⟩ := List.mem_filter.mp hx
  obtain ⟨htype, hid⟩ := h.own x hmem (by simpa using hclient)
  exact legal_reply hlegal hmem htype (hid ▸ h.id_ne)

end Owned

end OrderBook

namespace Client

theorem IsCustomer.lt {client : Client} {e : ℕ} (h : client.IsCustomer e) : e < 2 ^ 31 := by
  have hlt := client.customers.toInt_lt
  unfold IsCustomer at h
  omega

theorem ofNat_inj {a b : ℕ} (ha : a < 2 ^ 32) (hb : b < 2 ^ 32)
    (h : Int32.ofNat a = Int32.ofNat b) : a = b := by
  have hbits := congrArg (fun x : Int32 => x.toBitVec.toNat) h
  simp only [Int32.toBitVec_ofNat', BitVec.toNat_ofNat] at hbits
  omega

/-- The ids of the customer threads differ, also where the addition wraps around. -/
theorem customerId_inj {a b : ℕ} (ha : a < 2 ^ 31) (hb : b < 2 ^ 31)
    (h : customerId a = customerId b) : a = b :=
  ofNat_inj (by omega) (by omega) ((Int32.add_left_inj 3000).mp h)

theorem customerId_ne {a : ℕ} (ha : a < 2 ^ 31) : customerId a ≠ -1 := by
  intro h
  have hbits := congrArg (fun x : Int32 => x.toBitVec.toNat) h
  simp [customerId] at hbits
  omega

def orderNo (e n : ℕ) : OrderInf := ⟨customerId e, Int32.ofNat n, 1⟩

def ordersOf (e m : ℕ) : List OrderInf := (List.range m).map fun j => orderNo e (j + 1)

@[simp] theorem ordersOf_zero (e : ℕ) : ordersOf e 0 = [] := rfl

@[simp] theorem length_ordersOf (e m : ℕ) : (ordersOf e m).length = m := by simp [ordersOf]

theorem ordersOf_succ (e m : ℕ) : ordersOf e (m + 1) = ordersOf e m ++ [orderNo e (m + 1)] := by
  simp [ordersOf, List.range_succ]

theorem getLast?_ordersOf (e m : ℕ) :
    (ordersOf e m).getLast? = if m = 0 then none else some (orderNo e m) := by
  cases m with
  | zero => rfl
  | succ m => simp [ordersOf_succ]

theorem take_ordersOf {e m n : ℕ} (h : n ≤ m) : (ordersOf e m).take n = ordersOf e n := by
  rw [ordersOf, ← List.map_take, List.take_range, min_eq_left h, ordersOf]

theorem eq_ordersOf_of_prefix {e m : ℕ} {l : List OrderInf} (h : l <+: ordersOf e m) :
    l = ordersOf e l.length ∧ l.length ≤ m := by
  have hle := h.length_le
  have htake := List.prefix_iff_eq_take.mp h
  rw [length_ordersOf] at hle
  exact ⟨htake.trans (take_ordersOf hle), hle⟩

/-- An order thread that has sent `m` orders, all but the last of which have been
answered; the last is not if the thread waits for it or has ended with it. -/
def Sent (client : Client) (e : ℕ) (x : Customer) (m : ℕ) : Prop :=
  x.opCount = x.i ∧ m ≤ client.orders.toInt.toNat ∧
    match x.pc with
    | .start => m = 0 ∧ x.i = 0
    | .unconnected => m = 0 ∧ x.i = 0
    | .sending => m = x.i ∧ m < client.orders.toInt.toNat ∧ x.sendOrder = orderNo e (m + 1)
    | .receiving => m = x.i + 1 ∧ x.sendOrder = orderNo e m
    | _ => x.i ≤ m ∧ m ≤ x.i + 1

theorem Sent.bounds {client : Client} {e m : ℕ} {x : Customer} (h : client.Sent e x m) :
    x.opCount ≤ m ∧ m ≤ x.opCount + 1 ∧ m ≤ client.orders.toInt.toNat := by
  obtain ⟨hcount, hle, h⟩ := h
  split at h <;> omega

theorem Sent.loop {client : Client} {e m : ℕ} {x : Customer} (hcount : x.opCount = x.i)
    (hm : m = x.i) (hle : m ≤ client.orders.toInt.toNat)
    (horder : x.sendOrder = orderNo e (m + 1)) : client.Sent e (client.loop x) m := by
  refine ⟨hcount, hle, ?_⟩
  by_cases htest : (client.requestType = 1 ∨ client.requestType = 2) ∧
      (x.i : ℤ) < client.orders.toInt
  · simp only [Client.loop, if_pos htest]
    exact ⟨hm, by omega, horder⟩
  · simp only [Client.loop, if_neg htest]
    omega

theorem Sent.entered {client : Client} (htype : client.requestType = 1) (e : ℕ) :
    client.Sent e (client.entered e) 0 := by
  refine .loop rfl rfl (Nat.zero_le _) ?_
  simp only [htype, if_true]
  rfl

theorem Sent.sent {client : Client} {e m : ℕ} {x : Customer} (h : client.Sent e x m)
    (hpc : x.pc = .sending) : client.Sent e { x with pc := .receiving } (m + 1) := by
  obtain ⟨hcount, hle, h⟩ := h
  rw [hpc] at h
  obtain ⟨hm, hlt, horder⟩ := h
  exact ⟨hcount, hlt, congrArg (· + 1) hm, horder⟩

theorem Sent.sendOrder_eq {client : Client} {e m : ℕ} {x : Customer} (h : client.Sent e x m)
    (hpc : x.pc = .sending) : x.sendOrder = orderNo e (m + 1) := by
  obtain ⟨-, -, h⟩ := h
  rw [hpc] at h
  exact h.2.2

theorem Sent.failed {client : Client} (htype : client.requestType = 1) {e m : ℕ} {x : Customer}
    (h : client.Sent e x m) : client.Sent e (client.failed x) m := by
  obtain ⟨hcount, hle, h⟩ := h
  rw [Client.failed, if_pos htype]
  refine ⟨hcount, hle, ?_⟩
  split at h <;> simp only <;> omega

theorem Sent.succeeded {client : Client} (htype : client.requestType = 1) {e m : ℕ} {x : Customer}
    (h : client.Sent e x m) (hpc : x.pc = .receiving) (reply : Message) :
    client.Sent e (client.succeeded x reply) m := by
  obtain ⟨hcount, hle, h⟩ := h
  rw [hpc] at h
  obtain ⟨hm, horder⟩ := h
  refine .loop (congrArg (· + 1) hcount) hm hle ?_
  simp only [htype, if_true, horder, orderNo, OrderInf.mk.injEq, true_and, and_true]
  exact (Int32.ofNat_add m 1).symm

theorem Sent.closed {client : Client} {e m : ℕ} {x : Customer} (h : client.Sent e x m)
    (hpc : x.pc = .closing) : client.Sent e { x with pc := .done } m := by
  obtain ⟨hcount, hle, h⟩ := h
  rw [hpc] at h
  exact ⟨hcount, hle, h⟩

end Client

/-- A request that is no order for a customer of this client. -/
def Client.Leaves (client : Client) (request : OrderInf) : Prop :=
  request.requestType = 1 → ∀ e, client.IsCustomer e → request.customerId ≠ Client.customerId e

/-- Other programs may order for any customer but those of this client. -/
def Client.Alone (client : Client) : Clients → ClientAction → Prop
  | _, .other _ request => client.Leaves request
  | _, _ => True

namespace Clients

/-- Thread `e` has sent `m` orders and got the replies `got`; the rest is under way. -/
structure Sequenced (client : Client) (s : Clients) (e m : ℕ) (got : List Message) : Prop where
  sent : client.Sent e (s.customers e) m
  requests_eq : s.service.requests e ++ s.toServer e = Client.ordersOf e m
  replies_eq : s.service.replies e = got ++ s.toClient e
  length_eq : got.length = (s.customers e).opCount
  reply_eq : (s.customers e).reply = got.getLast?

theorem served_requests [Zlib] {p : ℤ} {client : Client} {s : Clients} {a : ThreadAction}
    {service : Service} (henabled : s.Enabled client a)
    (hstep : serviceStep p s.service a = some service) (e : ℕ) :
    (service.requests e = s.service.requests e ∧ (s.served a service).toServer e = s.toServer e) ∨
      ∃ makeOrder rest, s.toServer e = makeOrder :: rest ∧
        (s.served a service).toServer e = rest ∧
        service.requests e = s.service.requests e ++
          if makeOrder.requestType = 1 ∨ makeOrder.requestType = 2 then [makeOrder] else [] := by
  have hrequests := Service.requests_step hstep e
  cases a with
  | request e' makeOrder =>
    by_cases heq : e' = e
    · subst heq
      obtain ⟨rest, hrest⟩ := List.head?_eq_some_iff.mp henabled
      refine .inr ⟨makeOrder, rest, hrest, ?_, ?_⟩
      · simp only [served, Function.update_self, hrest, List.tail_cons]
      · simpa only [Service.received, true_and] using hrequests
    · refine .inl ⟨?_, ?_⟩
      · simpa [Service.received, heq] using hrequests
      · simp only [served, Function.update_of_ne (Ne.symm heq)]
  | _ => exact .inl ⟨by simpa [Service.received] using hrequests, rfl⟩

theorem Sequenced.served [Zlib] {p : ℤ} {client : Client} {s : Clients} {a : ThreadAction}
    {service : Service} {e m : ℕ} {got : List Message} (h : s.Sequenced client e m got)
    (henabled : s.Enabled client a) (hstep : serviceStep p s.service a = some service) :
    (s.served a service).Sequenced client e m got := by
  refine ⟨h.sent, ?_, ?_, h.length_eq, h.reply_eq⟩
  · have hall := h.requests_eq
    rcases served_requests henabled hstep e with ⟨hsame, hqueue⟩ | ⟨o, rest, ho, hqueue, hrequests⟩
    · rw [hqueue]
      change service.requests e ++ s.toServer e = _
      rw [hsame, hall]
    · have htype : o.requestType = 1 := by
        have hmem : o ∈ Client.ordersOf e m := by
          rw [← hall, ho]
          simp
        obtain ⟨j, -, rfl⟩ := List.mem_map.mp hmem
        rfl
      rw [hqueue]
      change service.requests e ++ rest = _
      rw [hrequests, if_pos (.inl htype), ← hall, ho, List.append_assoc, List.singleton_append]
  · obtain ⟨new, hnew⟩ := Service.replies_prefix hstep e
    change service.replies e =
      got ++ (s.toClient e ++ (service.replies e).drop (s.service.replies e).length)
    rw [← hnew, List.drop_left, h.replies_eq, List.append_assoc]

theorem Sequenced.congr {client : Client} {s s' : Clients} {e m : ℕ} {got : List Message}
    (h : s.Sequenced client e m got) (hservice : s'.service = s.service)
    (hcustomer : s'.customers e = s.customers e) (hserver : s'.toServer e = s.toServer e)
    (hclient : s'.toClient e = s.toClient e) : s'.Sequenced client e m got := by
  refine ⟨?_, ?_, ?_, ?_, ?_⟩
  · rw [hcustomer]
    exact h.sent
  · rw [hservice, hserver, h.requests_eq]
  · rw [hservice, hclient, h.replies_eq]
  · rw [hcustomer, h.length_eq]
  · rw [hcustomer, h.reply_eq]

theorem Sequenced.of_start {client : Client} {s : Clients} {e m : ℕ} {got : List Message}
    (h : s.Sequenced client e m got) (hpc : (s.customers e).pc = .start) :
    m = 0 ∧ (s.customers e).opCount = 0 ∧ (s.customers e).reply = none := by
  obtain ⟨hcount, -, hsent⟩ := h.sent
  rw [hpc] at hsent
  have hgot : got = [] := List.length_eq_zero_iff.mp (by rw [h.length_eq, hcount, hsent.2])
  exact ⟨hsent.1, hcount.trans hsent.2, by rw [h.reply_eq, hgot]; rfl⟩

theorem failed_keeps {client : Client} (htype : client.requestType = 1) (x : Customer) :
    (client.failed x).opCount = x.opCount ∧ (client.failed x).reply = x.reply := by
  rw [Client.failed, if_pos htype]
  exact ⟨rfl, rfl⟩

theorem Sequenced.step [Zlib] {p : ℤ} {client : Client} (htype : client.requestType = 1)
    {s s' : Clients} {a : ClientAction} {e m : ℕ} {got : List Message} (he : client.IsCustomer e)
    (h : s.Sequenced client e m got) (hstep : clientStep p client s a = some s') :
    ∃ m' got', s'.Sequenced client e m' got' := by
  have hother {e' : ℕ} (x : Customer) (hne : e' ≠ e) :
      (s.setCustomer e' x).Sequenced client e m got :=
    h.congr rfl (Function.update_of_ne (Ne.symm hne) ..) rfl rfl
  have hown {x : Customer} (hsent : client.Sent e x m)
      (hcount : x.opCount = (s.customers e).opCount) (hreply : x.reply = (s.customers e).reply) :
      (s.setCustomer e x).Sequenced client e m got := by
    refine ⟨?_, h.requests_eq, h.replies_eq, ?_, ?_⟩ <;>
      simp only [setCustomer, Function.update_self]
    · exact hsent
    · rw [hcount, h.length_eq]
    · rw [hreply, h.reply_eq]
  cases clientStep_cases hstep with
  | init e' connected hcustomer hpc =>
    by_cases heq : e' = e
    · subst heq
      obtain ⟨hm, hcount, hreply⟩ := h.of_start hpc
      subst hm
      refine ⟨0, got, ?_⟩
      cases connected with
      | true => exact hown (.entered htype e') hcount.symm hreply.symm
      | false =>
        have hsent := h.sent
        unfold Client.Sent at hsent
        rw [hpc] at hsent
        exact hown hsent rfl rfl
    · exact ⟨m, got, hother _ heq⟩
  | sent e' hpc =>
    by_cases heq : e' = e
    · subst heq
      refine ⟨m + 1, got, ?_, ?_, h.replies_eq, ?_, ?_⟩ <;>
        simp only [setCustomer, Function.update_self]
      · exact h.sent.sent hpc
      · rw [← List.append_assoc, h.requests_eq, h.sent.sendOrder_eq hpc, ← Client.ordersOf_succ]
      · exact h.length_eq
      · exact h.reply_eq
    · exact ⟨m, got, h.congr rfl (Function.update_of_ne (Ne.symm heq) ..)
        (Function.update_of_ne (Ne.symm heq) ..) rfl⟩
  | sendFailed e' hpc =>
    by_cases heq : e' = e
    · subst heq
      exact ⟨m, got, hown (h.sent.failed htype) (failed_keeps htype _).1 (failed_keeps htype _).2⟩
    · exact ⟨m, got, hother _ heq⟩
  | received e' reply rest hpc hqueue =>
    by_cases heq : e' = e
    · subst heq
      refine ⟨m, got ++ [reply], ?_, h.requests_eq, ?_, ?_, ?_⟩ <;>
        simp only [setCustomer, Function.update_self]
      · exact h.sent.succeeded htype hpc reply
      · rw [h.replies_eq, hqueue, List.append_assoc, List.singleton_append]
      · rw [List.length_append, h.length_eq]
        rfl
      · rw [List.getLast?_concat]
        rfl
    · exact ⟨m, got, h.congr rfl (Function.update_of_ne (Ne.symm heq) ..) rfl
        (Function.update_of_ne (Ne.symm heq) ..)⟩
  | recvFailed e' hpc =>
    by_cases heq : e' = e
    · subst heq
      exact ⟨m, got, hown (h.sent.failed htype) (failed_keeps htype _).1 (failed_keeps htype _).2⟩
    · exact ⟨m, got, hother _ heq⟩
  | closeSocket e' hpc =>
    by_cases heq : e' = e
    · subst heq
      exact ⟨m, got, hown (h.sent.closed hpc) rfl rfl⟩
    · exact ⟨m, got, hother _ heq⟩
  | other e' request hforeign =>
    have hne : e ≠ e' := fun heq => hforeign (heq ▸ he)
    exact ⟨m, got, h.congr rfl rfl (Function.update_of_ne hne ..) rfl⟩
  | server a service henabled hserver => exact ⟨m, got, h.served henabled hserver⟩

/-- A connection of another program, all of whose requests satisfy `P`. -/
structure Foreign (P : OrderInf → Prop) (s : Clients) (d : ℕ) : Prop where
  start : (s.customers d).pc = .start
  requests : ∀ makeOrder ∈ s.service.requests d ++ s.toServer d, P makeOrder

theorem Foreign.congr {P : OrderInf → Prop} {s s' : Clients} {d : ℕ} (h : s.Foreign P d)
    (hservice : s'.service = s.service) (hcustomer : s'.customers d = s.customers d)
    (hserver : s'.toServer d = s.toServer d) : s'.Foreign P d := by
  refine ⟨hcustomer ▸ h.start, ?_⟩
  rw [hservice, hserver]
  exact h.requests

theorem Foreign.served [Zlib] {p : ℤ} {client : Client} {P : OrderInf → Prop} {s : Clients}
    {a : ThreadAction} {service : Service} {d : ℕ} (h : s.Foreign P d)
    (henabled : s.Enabled client a) (hstep : serviceStep p s.service a = some service) :
    (s.served a service).Foreign P d := by
  refine ⟨h.start, fun o ho => h.requests o ?_⟩
  rcases served_requests henabled hstep d with ⟨hsame, hqueue⟩ | ⟨o', rest, ho', hqueue, hrequests⟩
  · rw [hqueue] at ho
    change o ∈ service.requests d ++ _ at ho
    rwa [hsame] at ho
  · rw [hqueue] at ho
    change o ∈ service.requests d ++ rest at ho
    rw [hrequests] at ho
    rw [ho']
    split_ifs at ho <;> simp only [List.mem_append, List.mem_cons, List.not_mem_nil] at ho ⊢ <;>
      tauto

theorem Foreign.step [Zlib] {p : ℤ} {client : Client} {P : OrderInf → Prop} {s s' : Clients}
    {a : ClientAction} {d : ℕ} (hd : ¬client.IsCustomer d) (h : s.Foreign P d)
    (hok : ∀ e request, a = .other e request → P request)
    (hstep : clientStep p client s a = some s') : s'.Foreign P d := by
  have hstarted {e : ℕ} {pc : CustomerPc} (hpc : (s.customers e).pc = pc) (hne : pc ≠ .start) :
      d ≠ e := by
    rintro rfl
    exact hne (hpc.symm.trans h.start)
  have hother {e : ℕ} (x : Customer) (hne : d ≠ e) : (s.setCustomer e x).Foreign P d :=
    h.congr rfl (Function.update_of_ne hne ..) rfl
  cases clientStep_cases hstep with
  | init e connected hcustomer hpc => exact hother _ fun heq => hd (heq ▸ hcustomer)
  | sent e hpc =>
    have hne := hstarted hpc (by decide)
    exact h.congr rfl (Function.update_of_ne hne ..) (Function.update_of_ne hne ..)
  | sendFailed e hpc => exact hother _ (hstarted hpc (by decide))
  | received e reply rest hpc =>
    exact h.congr rfl (Function.update_of_ne (hstarted hpc (by decide)) ..) rfl
  | recvFailed e hpc => exact hother _ (hstarted hpc (by decide))
  | closeSocket e hpc => exact hother _ (hstarted hpc (by decide))
  | other e request hforeign =>
    by_cases heq : d = e
    · subst heq
      refine ⟨h.start, fun o ho => ?_⟩
      simp only [Function.update_self] at ho
      rw [← List.append_assoc, List.mem_append, List.mem_singleton] at ho
      rcases ho with hold | rfl
      · exact h.requests o hold
      · exact hok d o rfl
    · exact h.congr rfl rfl (Function.update_of_ne heq ..)
  | server a service henabled hserver => exact h.served henabled hserver

/-- Every connection is in sequence, or foreign. -/
def Orderly (client : Client) (s : Clients) : Prop :=
  (∀ e, client.IsCustomer e → ∃ m got, s.Sequenced client e m got) ∧
    ∀ d, ¬client.IsCustomer d → s.Foreign client.Leaves d

theorem orderly_run [Zlib] {p : ℤ} {client : Client} (htype : client.requestType = 1)
    {c₀ : Cluster} {s : Clients} (hrun : Run (clientStep p client) client.Alone (opened c₀) s) :
    s.Orderly client := by
  refine hrun.invariant (Orderly client) (fun u a u' hinv hok hstep => ⟨fun e he => ?_, fun d hd =>
    (hinv.2 d hd).step hd (fun _ _ heq => by subst heq; exact hok) hstep⟩)
    ⟨fun e _ => ⟨0, [], ?_⟩, fun d _ => ⟨rfl, ?_⟩⟩
  · obtain ⟨m, got, h⟩ := hinv.1 e he
    exact h.step htype he hstep
  · exact ⟨⟨rfl, Nat.zero_le _, rfl, rfl⟩, rfl, rfl, rfl, rfl⟩
  · exact fun o ho => by cases ho

/-- Each customer's id is its own. -/
theorem Orderly.owned {client : Client} {s : Clients} (h : s.Orderly client)
    (hfront : ∀ e, requestsOf s.service.history e <+: s.service.requests e) {e : ℕ}
    (he : client.IsCustomer e) : Owned s.service.history e (Client.customerId e) := by
  have hmem {x : Effect ℕ OrderInf Message} (hx : x ∈ s.service.history) :
      x.request ∈ s.service.requests x.client ++ s.toServer x.client := by
    refine List.mem_append_left _ ((hfront x.client).subset ?_)
    exact List.mem_map_of_mem (List.mem_filter.mpr ⟨hx, by simp⟩)
  have hcustomer {x : Effect ℕ OrderInf Message} (hx : x ∈ s.service.history)
      (hclient : client.IsCustomer x.client) : x.request.requestType = 1 ∧
        x.request.customerId = Client.customerId x.client := by
    obtain ⟨m, got, hseq⟩ := h.1 x.client hclient
    have horder := hmem hx
    rw [hseq.requests_eq] at horder
    obtain ⟨j, -, hj⟩ := List.mem_map.mp horder
    rw [← hj]
    exact ⟨rfl, rfl⟩
  refine ⟨Client.customerId_ne he.lt, fun x hx hown => ?_, fun x hx hne htype => ?_⟩
  · subst hown
    exact hcustomer hx he
  · by_cases hclient : client.IsCustomer x.client
    · rw [(hcustomer hx hclient).2]
      exact fun heq => hne (Client.customerId_inj hclient.lt he.lt heq)
    · exact (h.2 _ hclient).requests _ (hmem hx) htype e he

end Clients

/-- What a customer's orders have come to: `k` of them have taken effect. -/
structure Clients.Ordered (s : Clients) (p : ℤ) (orders : ℕ) (e k : ℕ) : Prop where
  known : (s.customers e).opCount ≤ k
  unknown : k ≤ (s.customers e).opCount + 1
  wanted : k ≤ orders
  logged : (s.service.threads.cluster p).server.committedLog.filter
      (fun op => op.arg1 = Client.customerId e) = (Client.ordersOf e k).map entryOf
  recorded : (s.service.threads.cluster p).server.customerRecord.lookup (Client.customerId e) =
    if k = 0 then none else some (Int32.ofNat k)
  told : (s.customers e).reply =
    if (s.customers e).opCount = 0 then none
    else some (robotOf (adminThreadId p) (Client.orderNo e (s.customers e).opCount))

theorem Clients.Orderly.ordered {p : ℤ} {client : Client} {s : Clients}
    (h : s.Orderly client) (hexplained : s.service.Explained p) {e : ℕ}
    (he : client.IsCustomer e) : ∃ k, s.Ordered p client.orders.toInt.toNat e k := by
  have hexplains := hexplained.explains
  have howned := h.owned hexplains.requestsOf_prefix he
  obtain ⟨m, got, hseq⟩ := h.1 e he
  have heffects : requestsOf s.service.history e <+: Client.ordersOf e m :=
    hseq.requests_eq ▸ (hexplains.requestsOf_prefix e).trans (List.prefix_append _ _)
  obtain ⟨horders, hle⟩ := Client.eq_ordersOf_of_prefix heffects
  obtain ⟨-, hone, hwanted⟩ := hseq.sent.bounds
  have hgot : got <+: repliesOf s.service.history e :=
    (hseq.replies_eq ▸ List.prefix_append _ _ : got <+: s.service.replies e).trans
      (hexplains.replies_prefix e)
  have hknown : (s.customers e).opCount ≤ (requestsOf s.service.history e).length := by
    rw [← hseq.length_eq, ← length_repliesOf]
    exact hgot.length_le
  refine ⟨(requestsOf s.service.history e).length, hknown, by omega, by omega, ?_, ?_, ?_⟩
  · rw [hexplained.committed, howned.entries_eq, ← horders]
  · rw [legal_record hexplains.legal, lookup_replayRecord, howned.entries_eq, horders]
    rw [List.getLast?_map, Client.getLast?_ordersOf, Client.length_ordersOf]
    split_ifs <;> rfl
  · have htold : got = (Client.ordersOf e (s.customers e).opCount).map
        (robotOf (adminThreadId p)) := by
      rw [List.prefix_iff_eq_take.mp hgot, howned.repliesOf_eq hexplains.legal, horders,
        hseq.length_eq, ← List.map_take, Client.take_ordersOf hknown]
    rw [hseq.reply_eq, htold, List.getLast?_map, Client.getLast?_ordersOf]
    split_ifs <;> rfl

/-- Whatever the interleaving, and wherever calls fail: the committed log has the
orders 1, ..., `k` of each customer in this order and no other entry for it, its
record is `k`, and the thread has been given the robots of the first `k` or `k - 1`
of them, its last robot being that of its last completed order. -/
theorem customer_orders_in_sequence [Zlib] {p : ℤ} {client : Client} {c₀ : Cluster} {s : Clients}
    {e : ℕ} (hfresh : Fresh c₀) (htype : client.requestType = 1)
    (hrun : Run (clientStep p client) client.Alone (Clients.opened c₀) s)
    (he : client.IsCustomer e) : ∃ k, s.Ordered p client.orders.toInt.toNat e k := by
  obtain ⟨-, -, hexplained⟩ := Service.explained_run hfresh (Clients.service_run hrun)
  exact (Clients.orderly_run htype hrun).ordered hexplained he

/-- Two customers with one order each: the first is told its robot while the order of
the second is on its way. -/
theorem customer_orders_in_sequence_duo : ∃ s : Clients,
    (s.customers 0).opCount = 1 ∧ s.toServer 1 = [⟨3001, 1, 1⟩] ∧
    (∃ k, s.Ordered 0 1 0 k) ∧ ∃ k, s.Ordered 0 1 1 k := by
  have hrun : ∃ s, Run (clientStep 0 ⟨2, 1, 1⟩) (Client.Alone ⟨2, 1, 1⟩) (Clients.opened duo) s ∧
      (s.customers 0).opCount = 1 ∧ s.toServer 1 = [⟨3001, 1, 1⟩] :=
    ⟨_, ((((((((((((Run.start.next (a := .init 0 true) trivial rfl).next
      (a := .send 0 true) trivial rfl).next (a := .server (.connect 0)) trivial rfl).next
      (a := .server (.request 0 ⟨3000, 1, 1⟩)) trivial rfl).next
      (a := .server .wake) trivial rfl).next
      (a := .server (.begin fun _ => 5)) trivial rfl).next
      (a := .server (.replicate Link.clean)) trivial rfl).next
      (a := .init 1 true) trivial rfl).next
      (a := .server .finish) trivial rfl).next
      (a := .server (.ship 0)) trivial rfl).next (a := .recv 0 true) trivial rfl).next
      (a := .send 1 true) trivial rfl), rfl, rfl⟩
  obtain ⟨s, hrun, hcount, hqueue⟩ := hrun
  exact ⟨s, hcount, hqueue, customer_orders_in_sequence duo_fresh rfl hrun (by decide),
    customer_orders_in_sequence duo_fresh rfl hrun (by decide)⟩

/-- What a read returns for a customer of whose orders `k` have taken effect. -/
def Client.lastOrder (k : ℕ) : Int32 := if k = 0 then -1 else Int32.ofNat k

/-- A read returns the number of the customer's orders that have taken effect before. -/
theorem Clients.Orderly.read_eq {p : ℤ} {client : Client} {s : Clients}
    (h : s.Orderly client) (hexplained : s.service.Explained p) {e : ℕ} (he : client.IsCustomer e)
    {before after : List (Effect ℕ OrderInf Message)} {x : Effect ℕ OrderInf Message}
    (hhistory : s.service.history = before ++ x :: after) (htype : x.request.requestType = 2)
    (hid : x.request.customerId = Client.customerId e) :
    x.reply = .cRec ⟨Client.customerId e, Client.lastOrder (requestsOf before e).length⟩ ∧
      (requestsOf before e).length ≤ client.orders.toInt.toNat := by
  have hexplains := hexplained.explains
  obtain ⟨m, got, hseq⟩ := h.1 e he
  have hfront : requestsOf before e <+: Client.ordersOf e m := by
    have hall := (hexplains.requestsOf_prefix e).trans
      (List.prefix_append (s.service.requests e) (s.toServer e))
    rw [hseq.requests_eq, hhistory, requestsOf_append] at hall
    exact (List.prefix_append _ _).trans hall
  obtain ⟨horders, hle⟩ := Client.eq_ordersOf_of_prefix hfront
  refine ⟨?_, hle.trans hseq.sent.bounds.2.2⟩
  have howned := h.owned hexplains.requestsOf_prefix he
  have hlegal := hexplains.legal
  rw [hhistory] at howned hlegal
  obtain ⟨mid, hmid, hreply⟩ := hlegal.reply_eq
  have hne : x.request.requestType ≠ 1 := by
    rw [htype]
    decide
  rw [hreply]
  simp only [orderBook, if_neg hne]
  rw [legal_record hmid, lookup_replayRecord, hid, howned.of_append.entries_eq, horders,
    List.getLast?_map, Client.getLast?_ordersOf, Client.length_ordersOf, Client.lastOrder]
  split_ifs <;> rfl

/-- A read of a customer that is received after `n` calls of its order thread have
returned gives at least the order `n`, and no read that follows gives less. -/
theorem reads_follow_orders [Zlib] {p : ℤ} {client : Client} {c₀ : Cluster} {s s' : Clients}
    {e : ℕ} {between mid after : List (Effect ℕ OrderInf Message)} {x y : Effect ℕ OrderInf Message}
    (hfresh : Fresh c₀) (htype : client.requestType = 1)
    (hrun : Run (clientStep p client) client.Alone (Clients.opened c₀) s)
    (hlater : Run (clientStep p client) client.Alone s s') (he : client.IsCustomer e)
    (hhistory : s'.service.history = s.service.history ++ between ++ x :: mid ++ y :: after)
    (hx : x.request.requestType = 2 ∧ x.request.customerId = Client.customerId e)
    (hy : y.request.requestType = 2 ∧ y.request.customerId = Client.customerId e) :
    ∃ k l, (s.customers e).opCount ≤ k ∧ k ≤ l ∧ l ≤ client.orders.toInt.toNat ∧
      x.reply = .cRec ⟨Client.customerId e, Client.lastOrder k⟩ ∧
      y.reply = .cRec ⟨Client.customerId e, Client.lastOrder l⟩ := by
  obtain ⟨-, -, hbefore⟩ := Service.explained_run hfresh (Clients.service_run hrun)
  obtain ⟨-, -, hafter⟩ := Service.explained_run hfresh (Clients.service_run (hrun.trans hlater))
  have horderly := Clients.orderly_run htype (hrun.trans hlater)
  obtain ⟨m, got, hseq⟩ := (Clients.orderly_run htype hrun).1 e he
  have hknown : (s.customers e).opCount ≤ (requestsOf s.service.history e).length := by
    have hgot := (hbefore.explains.replies_prefix e).length_le
    rw [hseq.replies_eq, List.length_append, hseq.length_eq, length_repliesOf] at hgot
    omega
  obtain ⟨hread, -⟩ := horderly.read_eq hafter he
    (by rw [hhistory, List.append_assoc, List.cons_append]) hx.1 hx.2
  obtain ⟨hread', hwanted⟩ := horderly.read_eq hafter he hhistory hy.1 hy.2
  refine ⟨_, _, ?_, ?_, hwanted, hread, hread'⟩
  · rw [requestsOf_append, List.length_append]
    omega
  · rw [requestsOf_append (_ ++ _) (x :: mid), List.length_append]
    omega

/-- The record of the first customer is read twice after its order. -/
theorem reads_follow_orders_duo : ∃ k l : ℕ, 1 ≤ k ∧ k ≤ l ∧ l ≤ 1 ∧
    Message.cRec ⟨3000, 1⟩ = .cRec ⟨Client.customerId 0, Client.lastOrder k⟩ ∧
    Message.cRec ⟨3000, 1⟩ = .cRec ⟨Client.customerId 0, Client.lastOrder l⟩ := by
  have hrun : ∃ s s', Run (clientStep 0 ⟨1, 1, 1⟩) (Client.Alone ⟨1, 1, 1⟩) (Clients.opened duo) s ∧
      Run (clientStep 0 ⟨1, 1, 1⟩) (Client.Alone ⟨1, 1, 1⟩) s s' ∧ (s.customers 0).opCount = 1 ∧
      s'.service.history = s.service.history ++ [] ++ ⟨5, ⟨3000, 0, 2⟩, .cRec ⟨3000, 1⟩⟩ :: [] ++
        ⟨5, ⟨3000, 0, 2⟩, .cRec ⟨3000, 1⟩⟩ :: [] :=
    ⟨_, _, ((((((((((Run.start.next (a := .init 0 true) trivial rfl).next
      (a := .send 0 true) trivial rfl).next (a := .server (.connect 0)) trivial rfl).next
      (a := .server (.request 0 ⟨3000, 1, 1⟩)) trivial rfl).next
      (a := .server .wake) trivial rfl).next
      (a := .server (.begin fun _ => 5)) trivial rfl).next
      (a := .server (.replicate Link.clean)) trivial rfl).next
      (a := .server .finish) trivial rfl).next
      (a := .server (.ship 0)) trivial rfl).next (a := .recv 0 true) trivial rfl),
      (((((Run.start.next (a := .server .wait) trivial rfl).next
      (a := .server (.connect 5)) trivial rfl).next
      (a := .other 5 ⟨3000, 0, 2⟩) (fun h => absurd h (by decide)) rfl).next
      (a := .server (.request 5 ⟨3000, 0, 2⟩)) trivial rfl).next
      (a := .other 5 ⟨3000, 0, 2⟩) (fun h => absurd h (by decide)) rfl).next
      (a := .server (.request 5 ⟨3000, 0, 2⟩)) trivial rfl, rfl, rfl⟩
  obtain ⟨s, s', hrun, hlater, hcount, hhistory⟩ := hrun
  have hreads := reads_follow_orders duo_fresh rfl hrun hlater
    (show Client.IsCustomer _ 0 by decide) hhistory ⟨rfl, rfl⟩ ⟨rfl, rfl⟩
  rwa [hcount] at hreads

end RobotFactory
