import RobotFactory.Convergence
import RobotFactory.CustomerOrders

/-!
# A run of the client program

When all customer threads have ended and no call has failed, every server has the
last order of every customer. The backups need a marker for it, and the engineer
that served the last order of all queues one when its client closes.
-/
namespace RobotFactory
open TransitionSystem Linearization

def Engineer.Ended (x : Engineer) : Prop :=
  match x.pc with
  | .marking _ => True
  | .closing => True
  | .closed => True
  | _ => False

namespace Threads

/-- An engineer that has not started has received no order, and one that has seen the
end of its connection has received none after it. -/
structure Ends (t : Threads) : Prop where
  absent : ∀ e, (t.engineers e).pc = .absent → .order e ∉ t.requests
  ended : ∀ e, (t.engineers e).Ended →
    ∃ before after, t.requests = before ++ .close e :: after ∧ .order e ∉ after

theorem Ends.opened (c : Cluster) : (Threads.opened c).Ends :=
  ⟨fun _ _ => List.not_mem_nil, fun _ hended => hended.elim⟩

theorem Ends.same {t t' : Threads} (h : t.Ends) (hrequests : t'.requests = t.requests)
    (habsent : ∀ e, (t'.engineers e).pc = .absent → (t.engineers e).pc = .absent)
    (hended : ∀ e, (t'.engineers e).Ended → (t.engineers e).Ended) : t'.Ends := by
  refine ⟨fun e hpc => ?_, fun e hpc => ?_⟩ <;> rw [hrequests]
  · exact h.absent e (habsent e hpc)
  · exact h.ended e (hended e hpc)

theorem Ends.moved {t t' : Threads} (h : t.Ends) {e : ℕ} {x : Engineer}
    (hengineers : t'.engineers = Function.update t.engineers e x)
    (hrequests : t'.requests = t.requests) (habsent : x.pc ≠ .absent)
    (hended : x.Ended → (t.engineers e).Ended) : t'.Ends := by
  refine h.same hrequests (fun e' hpc => ?_) (fun e' hpc => ?_) <;> rw [hengineers] at hpc <;>
    by_cases heq : e' = e
  · subst heq
    rw [Function.update_self] at hpc
    exact absurd hpc habsent
  · rwa [Function.update_of_ne heq] at hpc
  · subst heq
    rw [Function.update_self] at hpc
    exact hended hpc
  · rwa [Function.update_of_ne heq] at hpc

theorem Ends.event {t t' : Threads} (h : t.Ends) {e : ℕ} {x : Engineer} {event : ClientEvent}
    (hengineers : t'.engineers = Function.update t.engineers e x)
    (hrequests : t'.requests = t.requests ++ [event]) (habsent : x.pc ≠ .absent)
    (hended : x.Ended → event = .close e) (hother : ∀ e', e' ≠ e → event ≠ .order e') :
    t'.Ends := by
  refine ⟨fun e' hpc hmem => ?_, fun e' hpc => ?_⟩ <;> rw [hengineers] at hpc <;>
    by_cases heq : e' = e
  · subst heq
    rw [Function.update_self] at hpc
    exact habsent hpc
  · rw [Function.update_of_ne heq] at hpc
    rw [hrequests, List.mem_append, List.mem_singleton] at hmem
    rcases hmem with hold | hnew
    · exact h.absent e' hpc hold
    · exact hother e' heq hnew.symm
  · subst heq
    rw [Function.update_self] at hpc
    exact ⟨t.requests, [], by rw [hrequests, hended hpc], List.not_mem_nil⟩
  · rw [Function.update_of_ne heq] at hpc
    obtain ⟨before, after, hsplit, hnone⟩ := h.ended e' hpc
    refine ⟨before, after ++ [event], by simp [hrequests, hsplit], fun hmem => ?_⟩
    rcases List.mem_append.mp hmem with hold | hnew
    · exact hnone hold
    · exact hother e' heq (List.mem_singleton.mp hnew).symm

theorem ended_release (x : Engineer) (adminId : Int32) :
    ((x.setAdminId adminId).release.Ended → x.Ended) ∧
      ((x.setAdminId adminId).release.pc = .absent → x.pc = .absent) := by
  obtain ⟨pc, flag⟩ := x
  cases pc with
  | ordering shipOrder =>
    by_cases horder : shipOrder.customerId = -1 <;>
      simp [Engineer.setAdminId, Engineer.release, Engineer.Ended, horder]
  | _ => simp [Engineer.setAdminId, Engineer.release, Engineer.Ended]

theorem Ends.step [Zlib] {p : ℤ} {t t' : Threads} {a : ThreadAction} (hp : t.Paired p)
    (h : t.Ends) (hstep : threadStep p t a = some t') : t'.Ends := by
  cases threadStep_cases hstep with
  | connect e hpc => exact h.moved rfl rfl (by simp) (fun hended => hended.elim)
  | order e makeOrder =>
    refine h.event rfl rfl (by simp) (fun hended => hended.elim) fun e' hne heq => ?_
    cases heq
    exact hne rfl
  | read e makeOrder =>
    exact h.event rfl rfl (by simp) (fun hended => hended.elim) fun e' _ heq => by cases heq
  | ignored => exact h
  | ship e shipOrder hpc => exact h.moved rfl rfl (by simp) (fun hended => hended.elim)
  | marker e uninit =>
    exact h.event rfl rfl (by simp) (fun _ => rfl) fun e' _ heq => by cases heq
  | noMarker e uninit =>
    exact h.event rfl rfl (by simp) (fun _ => rfl) fun e' _ heq => by cases heq
  | close e c hpc =>
    refine h.moved rfl rfl (by simp) fun _ => ?_
    rw [Engineer.Ended, hpc]
    trivial
  | fail e hpc => exact h.moved rfl rfl (by simp) (fun hended => hended.elim)
  | wake => exact h.same rfl (fun _ hpc => hpc) fun _ hpc => hpc
  | wait => exact h.same rfl (fun _ hpc => hpc) fun _ hpc => hpc
  | begin => exact h.same rfl (fun _ hpc => hpc) fun _ hpc => hpc
  | replicate => exact h.same rfl (fun _ hpc => hpc) fun _ hpc => hpc
  | peer => exact h.same rfl (fun _ hpc => hpc) fun _ hpc => hpc
  | others => exact h.same rfl (fun _ hpc => hpc) fun _ hpc => hpc
  | finish o b c hhandling =>
    obtain rfl := hp.taken o b hhandling
    refine h.same rfl (fun e hpc => ?_) (fun e hpc => ?_) <;>
      simp only [released, Function.update_self, Function.update_idem, Function.update_apply] at hpc
    · split_ifs at hpc with heq
      · exact heq ▸ (ended_release _ _).2 hpc
      · exact hpc
    · split_ifs at hpc with heq
      · exact heq ▸ (ended_release _ _).1 hpc
      · exact hpc

theorem last_order (events : List ClientEvent) : (∀ e, .order e ∉ events) ∨
    ∃ before e after, events = before ++ .order e :: after ∧ ∀ e', .order e' ∉ after := by
  induction events with
  | nil => exact .inl fun _ => List.not_mem_nil
  | cons x events ih =>
    rcases ih with hnone | ⟨before, e, after, rfl, hlast⟩
    · cases x with
      | order e => exact .inr ⟨[], e, events, rfl, hnone⟩
      | _ => exact .inl fun e hmem => hnone e (by simpa using hmem)
    · exact .inr ⟨x :: before, e, after, rfl, hlast⟩

/-- If no connection both orders and reads, the end of the connection of the last order
queues a marker. -/
theorem Ends.committing {t : Threads} (h : t.Ends) (hclosed : t.AllClosed)
    (hapart : ∀ e, .order e ∈ t.requests → .read e ∉ t.requests) : Committing t.requests := by
  rcases last_order t.requests with hnone | ⟨before, e, after, hsplit, hlast⟩
  · exact .inl hnone
  · have hmem : .order e ∈ t.requests := by
      rw [hsplit]
      exact List.mem_append_right _ List.mem_cons_self
    have hpc : (t.engineers e).pc = .closed :=
      (hclosed e).resolve_left fun habsent => h.absent e habsent hmem
    obtain ⟨front, back, hends, hnone⟩ := h.ended e (by rw [Engineer.Ended, hpc]; trivial)
    have hread := hapart e hmem
    rw [hsplit] at hends hread
    rcases List.append_eq_append_iff.mp hends with ⟨mid, rfl, hmid⟩ | ⟨mid, rfl, hmid⟩
    · cases mid with
      | nil => cases hmid
      | cons x mid =>
        obtain ⟨rfl, rfl⟩ := List.cons.inj hmid
        refine .inr ⟨before ++ .order e :: mid, e, back, by simp [hsplit],
          ⟨before, mid, rfl, ?_⟩, ?_⟩
        · exact fun hmem => hread (by simp [hmem])
        · exact fun e' hmem => hlast e' (by simp [hmem])
    · cases mid with
      | nil => cases hmid
      | cons x mid =>
        obtain ⟨rfl, rfl⟩ := List.cons.inj hmid
        exact absurd (by simp) hnone

end Threads

theorem Threads.requests_step [Zlib] {p : ℤ} {t t' : Threads} {a : ThreadAction}
    (h : threadStep p t a = some t') {x : ClientEvent} (hx : x ∈ t'.requests) :
    x ∈ t.requests ∨ (∃ e, x = .close e) ∨ ∃ e makeOrder, a = .request e makeOrder ∧
      (makeOrder.requestType = 1 ∧ x = .order e ∨ makeOrder.requestType = 2 ∧ x = .read e) := by
  have hconcat {event : ClientEvent} (hmem : x ∈ t.requests ++ [event]) :
      x ∈ t.requests ∨ x = event := by simpa using hmem
  cases threadStep_cases h with
  | order e makeOrder _ _ htype =>
    exact (hconcat hx).imp_right fun heq => .inr ⟨e, makeOrder, rfl, .inl ⟨htype, heq⟩⟩
  | read e makeOrder _ _ htype =>
    exact (hconcat hx).imp_right fun heq => .inr ⟨e, makeOrder, rfl, .inr ⟨htype, heq⟩⟩
  | marker e => exact (hconcat hx).imp_right fun heq => .inl ⟨e, heq⟩
  | noMarker e => exact (hconcat hx).imp_right fun heq => .inl ⟨e, heq⟩
  | _ => exact .inl hx

/-- No call of a client fails, no connection to a backup is lost, and other programs
only read. -/
def Client.Undisturbed (p : ℤ) : Clients → ClientAction → Prop
  | _, .init _ connected => connected = true
  | _, .send _ sent => sent = true
  | _, .recv _ received => received = true
  | _, .other _ request => request.requestType ≠ 1
  | s, .server (.begin connect) =>
    ∀ f ∈ (s.service.threads.cluster p).server.factoriesRecord, 0 < connect f.factoryId
  | _, .server (.replicate link) => link.Clean
  | s, .server (.peer a) => FailureFree p s.service.threads.cluster a
  | _, .server (.fail _) => False
  | _, .server (.others _) => False
  | _, _ => True

namespace Clients

/-- What undisturbed clients have done: the customers have ordered, other programs have
read, and a customer thread that has left its loop has placed all its orders. -/
structure Undisturbed (client : Client) (s : Clients) : Prop where
  orderly : s.Orderly client
  readers : ∀ d, ¬client.IsCustomer d → s.Foreign (fun request => request.requestType ≠ 1) d
  orders : ∀ e, .order e ∈ s.service.threads.requests → client.IsCustomer e
  reads : ∀ e, .read e ∈ s.service.threads.requests → ¬client.IsCustomer e
  complete : ∀ e, client.IsCustomer e → (s.customers e).pc = .closing ∨ (s.customers e).pc = .done →
    client.orders.toInt.toNat ≤ (s.customers e).i
  connected : ∀ e, (s.customers e).pc ≠ .unconnected

theorem Undisturbed.opened (client : Client) (c : Cluster) :
    (Clients.opened c).Undisturbed client where
  orderly := by
    refine ⟨fun e _ => ⟨0, [], ?_⟩, fun d _ => ⟨rfl, fun o ho => by cases ho⟩⟩
    exact ⟨⟨rfl, Nat.zero_le _, rfl, rfl⟩, rfl, rfl, rfl, rfl⟩
  readers d _ := ⟨rfl, fun o ho => by cases ho⟩
  orders e he := by cases he
  reads e he := by cases he
  complete e _ hpc := by rcases hpc with hpc | hpc <;> cases hpc
  connected e hpc := by cases hpc

theorem Undisturbed.request {client : Client} {s : Clients} (h : s.Undisturbed client) {e : ℕ}
    {makeOrder : OrderInf} (henabled : s.Enabled client (.request e makeOrder)) :
    client.IsCustomer e ∧ makeOrder.requestType = 1 ∧ makeOrder.customerId ≠ -1 ∨
      ¬client.IsCustomer e ∧ makeOrder.requestType ≠ 1 := by
  have hmem : makeOrder ∈ s.service.requests e ++ s.toServer e :=
    List.mem_append_right _ (List.mem_of_head? henabled)
  by_cases he : client.IsCustomer e
  · obtain ⟨m, got, hseq⟩ := h.orderly.1 e he
    rw [hseq.requests_eq] at hmem
    obtain ⟨j, -, rfl⟩ := List.mem_map.mp hmem
    exact .inl ⟨he, rfl, Client.customerId_ne he.lt⟩
  · exact .inr ⟨he, (h.readers e he).requests _ hmem⟩

/-- The primary's threads have a run without failures. -/
theorem Undisturbed.calm {p : ℤ} {client : Client} {s : Clients} (h : s.Undisturbed client)
    {a : ThreadAction} (hok : Client.Undisturbed p s (.server a)) (henabled : s.Enabled client a) :
    s.service.threads.Calm p a := by
  cases a with
  | request e makeOrder =>
    refine ⟨fun htype => ?_, trivial⟩
    rcases h.request henabled with ⟨-, -, hid⟩ | ⟨-, hne⟩
    · exact hid
    · exact absurd htype hne
  | begin | replicate | peer => exact ⟨trivial, hok⟩
  | fail | others => exact hok.elim
  | _ => exact ⟨trivial, trivial⟩

theorem Undisturbed.served [Zlib] {p : ℤ} {client : Client} {s : Clients} (h : s.Undisturbed client)
    {a : ThreadAction} {service : Service} (henabled : s.Enabled client a)
    (hstep : serviceStep p s.service a = some service) :
    (∀ e, .order e ∈ service.threads.requests → client.IsCustomer e) ∧
      ∀ e, .read e ∈ service.threads.requests → ¬client.IsCustomer e := by
  have hthreads := (Service.threads_step hstep).1
  refine ⟨fun e hmem => ?_, fun e hmem => ?_⟩ <;>
    rcases Threads.requests_step hthreads hmem with hold | ⟨e', he'⟩ | ⟨e', o, rfl, hevent⟩
  · exact h.orders e hold
  · cases he'
  · rcases hevent with ⟨htype, heq⟩ | ⟨-, heq⟩ <;> cases heq
    rcases h.request henabled with ⟨he, -⟩ | ⟨-, hne⟩
    · exact he
    · exact absurd htype hne
  · exact h.reads e hold
  · cases he'
  · rcases hevent with ⟨-, heq⟩ | ⟨htype, heq⟩ <;> cases heq
    rcases h.request henabled with ⟨-, horder, -⟩ | ⟨he, -⟩
    · rw [htype] at horder
      exact absurd horder (by decide)
    · exact he

/-- A thread leaves its loop when it has placed all its orders. -/
theorem complete_loop {client : Client} (htype : client.requestType = 1) (x : Customer)
    (hpc : (client.loop x).pc = .closing ∨ (client.loop x).pc = .done) :
    client.orders.toInt.toNat ≤ (client.loop x).i := by
  unfold Client.loop at hpc ⊢
  simp only [htype, true_or, true_and] at hpc ⊢
  split_ifs at hpc with htest
  · simp at hpc
  · omega

theorem Undisturbed.step [Zlib] {p : ℤ} {client : Client} (htype : client.requestType = 1)
    {s s' : Clients} {a : ClientAction} (h : s.Undisturbed client) (hok : Client.Undisturbed p s a)
    (hstep : clientStep p client s a = some s') : s'.Undisturbed client := by
  have hother : ∀ e request, a = .other e request → request.requestType ≠ 1 := by
    rintro e request rfl
    exact hok
  have horderly : s'.Orderly client := by
    refine ⟨fun e he => ?_, fun d hd => (h.orderly.2 d hd).step hd ?_ hstep⟩
    · obtain ⟨m, got, hseq⟩ := h.orderly.1 e he
      exact hseq.step htype he hstep
    · exact fun e request heq hone => absurd hone (hother e request heq)
  have hreaders d (hd : ¬client.IsCustomer d) := (h.readers d hd).step hd hother hstep
  have hmoved {e : ℕ} {x : Customer} {s'' : Clients}
      (hcustomers : s''.customers = Function.update s.customers e x)
      (hservice : s''.service = s.service) (hs'' : s''.Orderly client)
      (hr : ∀ d, ¬client.IsCustomer d → s''.Foreign (fun request => request.requestType ≠ 1) d)
      (hx : client.IsCustomer e → x.pc = .closing ∨ x.pc = .done →
        client.orders.toInt.toNat ≤ x.i) (hconnected : x.pc ≠ .unconnected) :
      s''.Undisturbed client := by
    refine ⟨hs'', hr, hservice ▸ h.orders, hservice ▸ h.reads, fun e' he' hpc => ?_,
      fun e' => ?_⟩ <;>
      rw [hcustomers] at * <;> by_cases heq : e' = e
    · subst heq
      rw [Function.update_self] at hpc ⊢
      exact hx he' hpc
    · rw [Function.update_of_ne heq] at hpc ⊢
      exact h.complete e' he' hpc
    · subst heq
      rwa [Function.update_self]
    · rw [Function.update_of_ne heq]
      exact h.connected e'
  cases clientStep_cases hstep with
  | init e connected hcustomer hpc =>
    have hconnected : connected = true := hok
    subst hconnected
    refine hmoved rfl rfl horderly hreaders (fun _ hpc => complete_loop htype _ hpc) ?_
    simp only [if_true, Client.entered, Client.loop]
    split_ifs <;> simp
  | sent e hpc => exact hmoved rfl rfl horderly hreaders (fun _ hpc => by simp at hpc) (by simp)
  | sendFailed => cases hok
  | received e reply rest hpc =>
    refine hmoved rfl rfl horderly hreaders (fun _ hpc => complete_loop htype _ hpc) ?_
    simp only [Client.succeeded, Client.loop]
    split_ifs <;> simp
  | recvFailed => cases hok
  | closeSocket e hpc =>
    exact hmoved rfl rfl horderly hreaders (fun he _ => h.complete e he (.inl hpc)) (by simp)
  | other e request => exact ⟨horderly, hreaders, h.orders, h.reads, h.complete, h.connected⟩
  | server a service henabled hserver =>
    obtain ⟨horders, hreads⟩ := h.served henabled hserver
    exact ⟨horderly, hreaders, horders, hreads, h.complete, h.connected⟩

end Clients

/-- After a run without failures the backups have caught up, if no connection both
orders and reads. -/
theorem caughtUp_of_apart [Zlib] {p : ℤ} {c₀ : Cluster} {t : Threads} (hfresh : Fresh c₀)
    (hrun : Run (threadStep p) (Threads.Calm p) (Threads.opened c₀) t) (hclosed : t.AllClosed)
    (hapart : ∀ e, .order e ∈ t.requests → .read e ∉ t.requests) :
    ∀ f ∈ (t.cluster p).server.factoriesRecord,
      (t.cluster p).server.CaughtUp (t.cluster f.factoryId).server := by
  obtain ⟨hleads, hpaired, -⟩ := Threads.threads_run hfresh hrun
  obtain ⟨-, hends, hmarked, hnamed, hconverging⟩ :
      (t.Leads p ∧ t.Paired p) ∧ t.Ends ∧ t.Marked ∧ t.Named ∧ t.Converging p :=
    hrun.invariant (fun u => (u.Leads p ∧ u.Paired p) ∧ u.Ends ∧ u.Marked ∧ u.Named ∧
        u.Converging p)
      (fun _ _ _ hinv hok hstep => ⟨⟨hinv.1.1.step hstep, hinv.1.2.step hinv.1.1 hstep⟩,
        hinv.2.1.step hinv.1.2 hstep, hinv.2.2.1.step hstep, hinv.2.2.2.1.step hok.1 hstep,
        hinv.2.2.2.2.step hinv.1.2 hok hstep⟩)
      ⟨⟨.opened hfresh, .opened hfresh⟩, .opened c₀, .opened c₀, fun q hq => (by cases hq),
        .opened hfresh⟩
  obtain ⟨hpending, hidle, -⟩ := hclosed.quiet hpaired
  have hwait := hleads.idle hidle
  have hall : t.pushes.take t.releases.length = t.pushes :=
    List.take_of_length_le (List.drop_eq_nil_iff.mp hpending)
  intro f hf
  have hbehind := hconverging.behind hwait f hf
  rw [(Threads.lag_eq_zero_iff hmarked hnamed hall).mpr (hends.committing hclosed hapart),
    sub_zero] at hbehind
  exact (hconverging.lockstep.caughtUp_iff hwait hf).mpr hbehind

/-- When all customer threads have ended without a failed call and the server has closed
all connections, every thread has got all its robots, the record of every customer is
its last order, and every backup has the log and the record of the primary. -/
theorem client_run_recorded [Zlib] {p : ℤ} {client : Client} {c₀ : Cluster} {s : Clients}
    (hfresh : Fresh c₀) (htype : client.requestType = 1)
    (hrun : Run (clientStep p client) (Client.Undisturbed p) (Clients.opened c₀) s)
    (hdone : ∀ e, client.IsCustomer e → (s.customers e).pc = .done)
    (hclosed : s.service.threads.AllClosed) :
    (∀ e, client.IsCustomer e → (s.customers e).opCount = client.orders.toInt.toNat ∧
      (s.service.threads.cluster p).server.customerRecord.lookup (Client.customerId e) =
        if client.orders.toInt.toNat = 0 then none else some client.orders) ∧
    ∀ f ∈ (s.service.threads.cluster p).server.factoriesRecord,
      (s.service.threads.cluster p).server.CaughtUp
        (s.service.threads.cluster f.factoryId).server := by
  obtain ⟨hcalm, hundisturbed⟩ : Run (threadStep p) (Threads.Calm p) (Threads.opened c₀)
      s.service.threads ∧ s.Undisturbed client := by
    refine hrun.invariant (fun u => Run (threadStep p) (Threads.Calm p) (Threads.opened c₀)
      u.service.threads ∧ u.Undisturbed client) ?_ ⟨.start, ?_⟩
    · rintro u a u' ⟨hthreads, hinv⟩ hok hstep
      refine ⟨?_, hinv.step htype hok hstep⟩
      cases clientStep_cases hstep with
      | server a service henabled hserver =>
        exact hthreads.next (hinv.calm hok henabled) (Service.threads_step hserver).1
      | _ => exact hthreads
    · exact .opened client c₀
  obtain ⟨-, -, hexplained⟩ := Service.explained_run hfresh (Clients.service_run hrun)
  refine ⟨fun e he => ?_, caughtUp_of_apart hfresh hcalm hclosed fun e horder hread =>
    hundisturbed.reads e hread (hundisturbed.orders e horder)⟩
  obtain ⟨k, hordered⟩ := hundisturbed.orderly.ordered hexplained he
  obtain ⟨m, got, hseq⟩ := hundisturbed.orderly.1 e he
  have hcount := hseq.sent.1
  have hall := hundisturbed.complete e he (.inr (hdone e he))
  have hle := hordered.wanted
  have hknown := hordered.known
  obtain rfl : k = client.orders.toInt.toNat := by omega
  refine ⟨by omega, hordered.recorded.trans ?_⟩
  split_ifs with hzero
  · rfl
  · have hpos : ((client.orders.toInt.toNat : ℕ) : ℤ) = client.orders.toInt := by omega
    rw [← Int32.ofInt_eq_ofNat, hpos, Int32.ofInt_toInt]

/-- One customer with one order: the marker of its connection lets the backup catch up. -/
theorem client_run_recorded_duo : ∃ s : Clients,
    (s.customers 0).reply = some (.robotInf ⟨3000, 1, 1, 100, 100⟩) ∧
    (s.service.threads.cluster 0).server.customerRecord.lookup 3000 = some 1 ∧
    (s.service.threads.cluster 0).server.CaughtUp (s.service.threads.cluster 1).server := by
  have hconnect : ∀ (s : Clients) f, f ∈ (s.service.threads.cluster 0).server.factoriesRecord →
      (0 : ℤ) < 5 := fun _ _ _ => by decide
  have hrun : ∃ s, Run (clientStep 0 ⟨1, 1, 1⟩) (Client.Undisturbed 0) (Clients.opened duo) s ∧
      (s.customers 0).pc = .done ∧ (s.customers 0).reply = some (.robotInf ⟨3000, 1, 1, 100, 100⟩) ∧
      s.service.threads.AllClosed ∧
      (s.service.threads.cluster 0).server.factoriesRecord = [⟨1, 5⟩] :=
    ⟨_, (((((((((((((((((Run.start.next (a := .init 0 true) (by rfl) rfl).next
      (a := .send 0 true) (by rfl) rfl).next (a := .server (.connect 0)) (by trivial) rfl).next
      (a := .server (.request 0 ⟨3000, 1, 1⟩)) (by trivial) rfl).next
      (a := .server .wake) (by trivial) rfl).next
      (a := .server (.begin fun _ => 5)) (by exact hconnect _) rfl).next
      (a := .server (.replicate Link.clean)) (by exact Link.clean_clean) rfl).next
      (a := .server .finish) (by trivial) rfl).next
      (a := .server (.ship 0)) (by trivial) rfl).next (a := .recv 0 true) (by rfl) rfl).next
      (a := .closeSocket 0) (by trivial) rfl).next (a := .server .wait) (by trivial) rfl).next
      (a := .server (.hangUp 0 ⟨0, 0, 0, 0, 0⟩)) (by trivial) rfl).next
      (a := .server .wake) (by trivial) rfl).next
      (a := .server (.begin fun _ => 5)) (by exact hconnect _) rfl).next
      (a := .server (.replicate Link.clean)) (by exact Link.clean_clean) rfl).next
      (a := .server .finish) (by trivial) rfl).next
      (a := .server (.close 0)) (by trivial) rfl, rfl, rfl,
      fun e => (by cases e with | zero => exact .inr rfl | succ e => exact .inl rfl), rfl⟩
  obtain ⟨s, hrun, hdone, hreply, hclosed, hfactories⟩ := hrun
  have hall (e : ℕ) (he : Client.IsCustomer ⟨1, 1, 1⟩ e) : (s.customers e).pc = .done := by
    obtain rfl : e = 0 := by
      have hlt : (e : ℤ) < 1 := he
      omega
    exact hdone
  obtain ⟨hcustomers, hcaught⟩ := client_run_recorded duo_fresh rfl hrun hall hclosed
  exact ⟨s, hreply, (hcustomers 0 (by decide)).2, hcaught ⟨1, 5⟩ (by simp [hfactories])⟩

end RobotFactory
