import Mathlib.Algebra.Order.BigOperators.Group.Finset
import RobotFactory.AdminProgress
import RobotFactory.ClientRun

/-!
# A run of the client program ends

If no call fails, a customer takes two steps for each order and its engineer two more,
besides those with which a connection is opened and closed, and the admin thread takes
as many for each order and each marker as there are backups and two more. As long as a
customer or its engineer is not at its end, one of these steps is possible, at most
after the admin thread has woken up or gone to sleep.
-/
namespace RobotFactory
open TransitionSystem Linearization
open scoped BigOperators

/-- The steps that a customer thread has taken. -/
def Customer.steps (x : Customer) : ℕ :=
  match x.pc with
  | .start => 0
  | .unconnected => 1
  | .sending => 2 * x.i + 1
  | .receiving => 2 * x.i + 2
  | .closing => 2 * x.i + 1
  | .done => 2 * x.i + 2

/-- The steps of an engineer, without those that receive a request or ship a robot. -/
def EngineerPc.steps : EngineerPc → ℕ
  | .absent => 0
  | .receiving => 1
  | .ordering _ => 1
  | .shipping _ => 1
  | .marking _ => 2
  | .closing => 2
  | .failed => 2
  | .closed => 3

/-- An `int` can count the orders of all customers and their markers. -/
def Client.Few (client : Client) : Prop :=
  ((client.customers.toInt.toNat * (client.orders.toInt.toNat + 1) : ℕ) : ℤ) ≤ intMax

instance (client : Client) : Decidable client.Few := inferInstanceAs (Decidable (_ ≤ _))

def ThreadAction.connection : ThreadAction → Option ℕ
  | .connect e => some e
  | .request e _ => some e
  | .ship e => some e
  | .hangUp e _ => some e
  | .close e => some e
  | .fail e => some e
  | _ => none

def ThreadAction.OfIteration : ThreadAction → Bool
  | .begin _ => true
  | .replicate _ => true
  | .finish => true
  | _ => false

def ClientAction.connection : ClientAction → Option ℕ
  | .init e _ => some e
  | .send e _ => some e
  | .recv e _ => some e
  | .closeSocket e => some e
  | .other e _ => some e
  | .server a => a.connection

/-- The steps that are counted: those of a customer thread, of its engineer, and of an
iteration. -/
def Client.counts (client : Client) (a : ClientAction) : ℕ :=
  (match a.connection with
  | some e => if client.IsCustomer e then 1 else 0
  | none => 0) +
  match a with
  | .server b => if b.OfIteration then 1 else 0
  | _ => 0

namespace Threads

/-- What a step does to the iteration in progress: nothing, or one of its three parts. -/
inductive Iterates (p : ℤ) (t t' : Threads) : Bool → Prop where
  | same (hadmin : (t'.cluster p).admin = (t.cluster p).admin)
      (hreleases : t'.releases.length = t.releases.length) : Iterates p t t' false
  | begin (shipOrder : RobotInf) (req : ReplReq) (hadmin : (t.cluster p).admin = .waiting)
      (hadmin' : (t'.cluster p).admin = .replicating shipOrder req 0)
      (hreleases : t'.releases.length = t.releases.length) : Iterates p t t' true
  | replicate (shipOrder : RobotInf) (req : ReplReq) (i : ℕ)
      (hadmin : (t.cluster p).admin = .replicating shipOrder req i)
      (hadmin' : (t'.cluster p).admin = .replicating shipOrder req (i + 1))
      (hlt : i < t.backups p) (hreleases : t'.releases.length = t.releases.length) :
      Iterates p t t' true
  | finish (shipOrder : RobotInf) (req : ReplReq) (i : ℕ)
      (hadmin : (t.cluster p).admin = .replicating shipOrder req i)
      (hadmin' : (t'.cluster p).admin = .waiting) (hle : t.backups p ≤ i)
      (hreleases : t'.releases.length = t.releases.length + 1) : Iterates p t t' true

theorem iterates_step [Zlib] {p : ℤ} {t t' : Threads} {a : ThreadAction} (hl : t.Leads p)
    (hstep : threadStep p t a = some t') :
    Iterates p t t' a.OfIteration ∧ t'.backups p = t.backups p := by
  cases threadStep_cases hstep with
  | connect | order | read | ignored | ship | marker | noMarker | fail | wake | wait =>
    exact ⟨.same rfl rfl, rfl⟩
  | close e c _ hc =>
    refine ⟨.same ?_ rfl, backups_of_peerIds (step_peerIds hc p)⟩
    cases step_cases hc
    simp only [Function.update_self]
    rfl
  | peer a c hpeer hc =>
    refine ⟨.same ?_ rfl, backups_of_peerIds (step_peerIds hc p)⟩
    simp only [peer_primary hpeer hc]
  | others d =>
    have hsame : Function.update d p (t.cluster p) p = t.cluster p := Function.update_self ..
    exact ⟨.same (congrArg Node.admin hsame) rfl, by simp only [backups, hsame]⟩
  | begin connect o b orders barriers shipOrder c _ _ _ _ _ hc halive =>
    refine ⟨?_, backups_of_peerIds (step_peerIds hc p)⟩
    cases step_cases hc with
    | begin _ _ _ hadmin =>
      rw [Function.update_self] at halive
      obtain ⟨s', hnode, -⟩ := hl.leads.begun hadmin halive
      refine .begin shipOrder (s'.sendReq shipOrder) hadmin ?_ rfl
      simp only [Function.update_self, hnode]
  | replicate link o b c _ hc =>
    refine ⟨?_, backups_of_peerIds (step_peerIds hc p)⟩
    obtain ⟨shipOrder, req, i, f, kept, stale, hadmin, hf, hnode⟩ := replicate_primary hc
    refine .replicate shipOrder req i hadmin ?_ (List.getElem?_eq_some_iff.mp hf).1 rfl
    exact congrArg Node.admin hnode
  | finish o b c _ hc =>
    refine ⟨?_, backups_of_peerIds (step_peerIds hc p)⟩
    cases step_cases hc with
    | finish shipOrder req i _ hadmin hlen =>
      refine .finish shipOrder req i hadmin ?_ hlen List.length_append
      simp only [released, Function.update_self]
      rfl

def iterationSteps (p : ℤ) (t : Threads) : ℕ :=
  t.releases.length * (t.backups p + 2) +
    match (t.cluster p).admin with
    | .waiting => 0
    | .replicating _ _ i => i + 1

/-- The replication loop has passed no more backups than there are. -/
def Passed (p : ℤ) (t : Threads) : Prop :=
  ∀ shipOrder req i, (t.cluster p).admin = .replicating shipOrder req i → i ≤ t.backups p

theorem Passed.step [Zlib] {p : ℤ} {t t' : Threads} {a : ThreadAction} (hl : t.Leads p)
    (h : t.Passed p) (hstep : threadStep p t a = some t') : t'.Passed p ∧
      t'.iterationSteps p = t.iterationSteps p + if a.OfIteration then 1 else 0 := by
  obtain ⟨hiterates, hbackups⟩ := iterates_step hl hstep
  unfold Passed iterationSteps
  rw [hbackups]
  generalize a.OfIteration = iterating at hiterates
  cases hiterates with
  | same hadmin hreleases =>
    rw [hadmin, hreleases]
    exact ⟨h, rfl⟩
  | begin shipOrder req hadmin hadmin' hreleases =>
    rw [hadmin, hadmin', hreleases]
    exact ⟨fun _ _ i hi => by cases hi; exact Nat.zero_le _, rfl⟩
  | replicate shipOrder req i hadmin hadmin' hlt hreleases =>
    rw [hadmin, hadmin', hreleases]
    exact ⟨fun _ _ j hj => by cases hj; exact hlt, rfl⟩
  | finish shipOrder req i hadmin hadmin' hle hreleases =>
    have hge := h _ _ _ hadmin
    obtain rfl : i = t.backups p := by omega
    rw [hadmin, hadmin', hreleases, Nat.add_mul, Nat.one_mul]
    exact ⟨fun _ _ j hj => absurd hj nofun, rfl⟩

/-- An iteration is for a robot that was queued. -/
theorem iterationSteps_le {p : ℤ} {t : Threads} (hl : t.Leads p) (hp : t.Paired p)
    (h : t.Passed p) : t.iterationSteps p ≤ t.pushes.length * (t.backups p + 2) := by
  have hcount := hp.handledCount_le
  unfold handledCount at hcount
  unfold iterationSteps
  cases hadmin : (t.cluster p).admin with
  | waiting =>
    have hle : t.releases.length ≤ t.pushes.length := hp.count
    simpa using hle
  | replicating shipOrder req i =>
    have hi := h _ _ _ hadmin
    have hsome : t.handling.isSome = true := by
      by_contra hnone
      have hidle := hl.idle (by simpa using hnone)
      rw [hadmin] at hidle
      cases hidle
    rw [if_pos hsome] at hcount
    have hmul := Nat.mul_le_mul_right (t.backups p + 2) hcount
    rw [Nat.add_mul, Nat.one_mul] at hmul
    simp only
    omega

theorem release_keeps (x : Engineer) (adminId : Int32) :
    (x.setAdminId adminId).release.pc.steps = x.pc.steps ∧
      ((x.setAdminId adminId).release.pc = .failed → x.pc = .failed) := by
  obtain ⟨pc, flag⟩ := x
  cases pc with
  | ordering shipOrder =>
    by_cases horder : shipOrder.customerId = -1 <;>
      simp [Engineer.setAdminId, Engineer.release, EngineerPc.steps, horder]
  | _ => simp [Engineer.setAdminId, Engineer.release, EngineerPc.steps]

/-- No engineer goes back. -/
theorem engineer_mono [Zlib] {p : ℤ} {t t' : Threads} {a : ThreadAction} (hp : t.Paired p)
    (hstep : threadStep p t a = some t') (e : ℕ) :
    (t.engineers e).pc.steps ≤ (t'.engineers e).pc.steps := by
  have hupdate {d : ℕ} {x : Engineer} (hx : (t.engineers d).pc.steps ≤ x.pc.steps) :
      (t.engineers e).pc.steps ≤ (Function.update t.engineers d x e).pc.steps := by
    by_cases heq : e = d
    · subst heq
      rwa [Function.update_self]
    · rw [Function.update_of_ne heq]
  cases threadStep_cases hstep with
  | connect _ hpc | order _ _ hpc | read _ _ hpc | ship _ _ hpc | marker _ _ hpc
  | noMarker _ _ hpc | close _ _ hpc | fail _ hpc =>
    exact hupdate (by simp [hpc, EngineerPc.steps])
  | finish o b c hhandling =>
    obtain rfl := hp.taken o b hhandling
    simp only [released, Function.update_self, Function.update_idem]
    exact hupdate (release_keeps _ _).1.ge
  | ignored | wake | wait | begin | replicate | peer | others => exact le_rfl

end Threads

namespace Service

def engineerSteps (s : Service) (e : ℕ) : ℕ :=
  (s.threads.engineers e).pc.steps + (s.requests e).length + (s.replies e).length

/-- On the connection of a customer, a step of the threads is one of its engineer or none. -/
theorem engineerSteps_step [Zlib] {p : ℤ} {s s' : Service} {a : ThreadAction} {e : ℕ}
    (hp : s.threads.Paired p) (h : s.Explained p) (hstep : serviceStep p s a = some s')
    (horder : ∀ makeOrder, a = .request e makeOrder → makeOrder.requestType = 1) :
    s'.engineerSteps e = s.engineerSteps e + if a.connection = some e then 1 else 0 := by
  obtain ⟨hthreads, hrecord⟩ := threads_step hstep
  generalize s'.threads = t at hthreads hrecord
  subst hrecord
  have hown {d : ℕ} {u : Service} (hcount : u.engineerSteps d = s.engineerSteps d + 1)
      (hothers : ∀ e', e' ≠ d → u.engineerSteps e' = s.engineerSteps e') :
      u.engineerSteps e = s.engineerSteps e + if some d = some e then 1 else 0 := by
    by_cases heq : d = e
    · subst heq
      simpa using hcount
    · simpa [heq] using hothers e (Ne.symm heq)
  have hmoved {d : ℕ} {t : Threads} {x : Engineer}
      (hengineers : t.engineers = Function.update s.threads.engineers d x)
      (hx : x.pc.steps = (s.threads.engineers d).pc.steps + 1) :
      engineerSteps { s with threads := t } e =
        s.engineerSteps e + if some d = some e then 1 else 0 := by
    refine hown ?_ fun e' hne => ?_
    · simp only [engineerSteps, hengineers, Function.update_self, hx]
      omega
    · simp only [engineerSteps, hengineers, Function.update_of_ne hne]
  cases threadStep_cases hthreads with
  | connect d hpc => exact hmoved rfl (by simp [hpc, EngineerPc.steps])
  | order d makeOrder hpc _ htype =>
    simp only [record, if_pos htype]
    refine hown ?_ fun e' hne => ?_ <;>
      simp only [engineerSteps, Threads.engineerThreadRobotDef, Threads.push]
    · simp [hpc, EngineerPc.steps]
      omega
    · simp only [Function.update_of_ne hne]
  | read d makeOrder hpc _ htype =>
    have hne : e ≠ d := by
      rintro rfl
      exact absurd ((horder makeOrder rfl).symm.trans htype) (by decide)
    have horder' : makeOrder.requestType ≠ 1 := by
      rw [htype]
      decide
    simp only [record, if_neg horder', if_pos htype, engineerSteps, Threads.engineerThreadReadDef,
      Function.update_of_ne hne]
    simp [ThreadAction.connection, Ne.symm hne]
  | ignored d makeOrder =>
    by_cases heq : d = e
    · subst heq
      simp only [record, if_pos (horder makeOrder rfl)]
      refine hown ?_ fun e' hne => ?_ <;> simp only [engineerSteps]
      · simp
        omega
      · simp only [Function.update_of_ne hne]
    · have hother : (ThreadAction.request d makeOrder).connection ≠ some e := by
        simpa [ThreadAction.connection] using heq
      rw [if_neg hother, Nat.add_zero]
      simp only [record]
      split_ifs <;> simp only [engineerSteps, Function.update_of_ne (Ne.symm heq)]
  | ship d shipOrder hpc =>
    simp only [record, hpc]
    refine hown ?_ fun e' hne => ?_ <;> simp only [engineerSteps, Threads.setPc]
    · simp [hpc, EngineerPc.steps]
      omega
    · simp only [Function.update_of_ne hne]
  | marker d uninit hpc => exact hmoved rfl (by simp [hpc, EngineerPc.steps])
  | noMarker d uninit hpc => exact hmoved rfl (by simp [hpc, EngineerPc.steps])
  | close d c hpc => exact hmoved rfl (by simp [hpc, EngineerPc.steps])
  | fail d hpc => exact hmoved rfl (by simp [hpc, EngineerPc.steps])
  | finish o b c hhandling =>
    obtain rfl := hp.taken o b hhandling
    have hpc : ((s.threads.released p b b c).engineers e).pc.steps =
        (s.threads.engineers e).pc.steps := by
      rw [released_engineers h]
      by_cases heq : e = b
      · subst heq
        rw [Function.update_self, (Threads.release_keeps _ _).1]
      · rw [Function.update_of_ne heq]
    have hkept : (s.record p (s.threads.released p b b c) .finish).engineerSteps e =
        engineerSteps { s with threads := s.threads.released p b b c } e := by
      simp only [record]
      split
      · split <;> rfl
      · rfl
    rw [hkept, engineerSteps, hpc]
    rfl
  | wake | wait | begin | replicate | peer | others => rfl

/-- The robots that an engineer may have queued: one for each request, and a marker. -/
def queued (s : Service) (e : ℕ) : ℕ :=
  (s.requests e).length + if 2 ≤ (s.threads.engineers e).pc.steps then 1 else 0

theorem queued_mono [Zlib] {p : ℤ} {s s' : Service} {a : ThreadAction} (hp : s.threads.Paired p)
    (hstep : serviceStep p s a = some s') (e : ℕ) : s.queued e ≤ s'.queued e := by
  have hpc := Threads.engineer_mono hp (threads_step hstep).1 e
  have hrequests := congrArg List.length (requests_step hstep e)
  rw [List.length_append] at hrequests
  unfold queued
  split_ifs <;> omega

/-- A robot is queued by an engineer that receives an order, or that has received one and
sees the end of its connection. -/
theorem pushes_step [Zlib] {p : ℤ} {s s' : Service} {a : ThreadAction}
    (hstep : serviceStep p s a = some s') :
    s'.threads.pushes.length = s.threads.pushes.length ∨
      ∃ e, s'.threads.pushes.length = s.threads.pushes.length + 1 ∧
        s'.queued e = s.queued e + 1 ∧
        ((∃ makeOrder, a = .request e makeOrder ∧ makeOrder.requestType = 1) ∨
          (s.threads.engineers e).sendLastCommittedIndex = true) := by
  obtain ⟨hthreads, hrecord⟩ := threads_step hstep
  generalize s'.threads = t at hthreads hrecord
  subst hrecord
  cases threadStep_cases hthreads with
  | order e makeOrder hpc _ htype =>
    refine .inr ⟨e, List.length_append, ?_, .inl ⟨makeOrder, rfl, htype⟩⟩
    simp [queued, record, htype, Threads.engineerThreadRobotDef, Threads.push, hpc,
      EngineerPc.steps]
  | marker e uninit hpc hflag =>
    refine .inr ⟨e, List.length_append, ?_, .inr hflag⟩
    simp [queued, record, Threads.engineerThreadSendCommitedIndex, Threads.push, hpc,
      EngineerPc.steps]
  | _ => exact .inl rfl

end Service

namespace Clients

/-- The steps of a customer thread and of its engineer. -/
def stepsOf (s : Clients) (e : ℕ) : ℕ := (s.customers e).steps + s.service.engineerSteps e

def steps (p : ℤ) (client : Client) (s : Clients) : ℕ :=
  ∑ e ∈ Finset.range client.customers.toInt.toNat, s.stepsOf e +
    s.service.threads.iterationSteps p

/-- An undisturbed run under way: no engineer has failed, the engineer of a customer goes on
until the customer is at its end, and only orders and their markers are queued. -/
structure Underway (p : ℤ) (client : Client) (s : Clients) : Prop where
  leads : s.service.threads.Leads p
  paired : s.service.threads.Paired p
  logged : s.service.threads.LogsHandled p
  explained : s.service.Explained p
  undisturbed : s.Undisturbed client
  marked : s.service.threads.Marked
  unrivalled : s.service.threads.Unrivalled p
  passed : s.service.threads.Passed p
  intact : ∀ e, (s.service.threads.engineers e).pc ≠ .failed
  ended : ∀ e, client.IsCustomer e → (s.service.threads.engineers e).Ended →
    (s.customers e).pc = .done
  queued : s.service.threads.pushes.length ≤
    ∑ e ∈ Finset.range client.customers.toInt.toNat, s.service.queued e

theorem steps_loop (client : Client) (x : Customer) : (client.loop x).steps = 2 * x.i + 1 := by
  unfold Client.loop
  split_ifs <;> rfl

theorem Underway.stepsOf_step [Zlib] {p : ℤ} {client : Client} {s s' : Clients} {a : ClientAction}
    (h : s.Underway p client) (hok : Client.Undisturbed p s a)
    (hstep : clientStep p client s a = some s') {e : ℕ} (he : client.IsCustomer e) :
    s'.stepsOf e = s.stepsOf e + if a.connection = some e then 1 else 0 := by
  have hmoved {e' : ℕ} {x : Customer} {s' : Clients} (hservice : s'.service = s.service)
      (hcustomers : s'.customers = Function.update s.customers e' x)
      (hx : x.steps = (s.customers e').steps + 1) :
      s'.stepsOf e = s.stepsOf e + if some e' = some e then 1 else 0 := by
    unfold stepsOf
    rw [hservice, hcustomers]
    by_cases heq : e' = e
    · subst heq
      rw [Function.update_self, if_pos rfl, hx]
      omega
    · rw [Function.update_of_ne (Ne.symm heq), if_neg (by simpa using heq), Nat.add_zero]
  cases clientStep_cases hstep with
  | init e' connected hcustomer hpc =>
    obtain rfl : connected = true := hok
    refine hmoved rfl rfl ?_
    rw [if_pos rfl, Client.entered, steps_loop]
    simp [Customer.steps, hpc]
  | sent e' hpc => exact hmoved rfl rfl (by simp [Customer.steps, hpc])
  | sendFailed => cases hok
  | received e' reply rest hpc =>
    refine hmoved rfl rfl ?_
    rw [Client.succeeded, steps_loop]
    simp only [Customer.steps, hpc]
    omega
  | recvFailed => cases hok
  | closeSocket e' hpc => exact hmoved rfl rfl (by simp [Customer.steps, hpc])
  | other e' request hother =>
    have hne : some e' ≠ some e := fun heq => hother (Option.some.inj heq ▸ he)
    rw [ClientAction.connection, if_neg hne]
    rfl
  | server a service henabled hserver =>
    have horder : ∀ makeOrder, a = .request e makeOrder → makeOrder.requestType = 1 := by
      rintro makeOrder rfl
      rcases h.undisturbed.request henabled with ⟨-, horder, -⟩ | ⟨hother, -⟩
      · exact horder
      · exact absurd he hother
    change (s.customers e).steps + service.engineerSteps e = _
    rw [Service.engineerSteps_step h.paired h.explained hserver horder, ← Nat.add_assoc]
    rfl

theorem isCustomer_iff (client : Client) (e : ℕ) :
    client.IsCustomer e ↔ e < client.customers.toInt.toNat := by
  unfold Client.IsCustomer
  omega

theorem sum_connection (client : Client) (f : ℕ → ℕ) (connection : Option ℕ) :
    ∑ e ∈ Finset.range client.customers.toInt.toNat,
        (f e + if connection = some e then 1 else 0) =
      ∑ e ∈ Finset.range client.customers.toInt.toNat, f e +
        match connection with
        | some e => if client.IsCustomer e then 1 else 0
        | none => 0 := by
  rw [Finset.sum_add_distrib]
  cases connection with
  | none => simp
  | some e => simp [isCustomer_iff]

theorem Underway.steps_step [Zlib] {p : ℤ} {client : Client} {s s' : Clients} {a : ClientAction}
    (h : s.Underway p client) (hok : Client.Undisturbed p s a)
    (hstep : clientStep p client s a = some s') :
    s'.steps p client = s.steps p client + client.counts a := by
  have hsum := Finset.sum_congr rfl fun e (he : e ∈ Finset.range client.customers.toInt.toNat) =>
    h.stepsOf_step hok hstep ((isCustomer_iff client e).mpr (Finset.mem_range.mp he))
  rw [sum_connection] at hsum
  unfold steps Client.counts
  rw [hsum]
  cases clientStep_cases hstep with
  | server a service henabled hserver =>
    have hiteration := (h.passed.step h.leads (Service.threads_step hserver).1).2
    simp only [served, hiteration]
    omega
  | _ => exact Nat.add_right_comm ..

theorem Underway.opened [Zlib] {p : ℤ} (client : Client) {c₀ : Cluster} (hfresh : Fresh c₀) :
    (Clients.opened c₀).Underway p client where
  leads := .opened hfresh
  paired := .opened hfresh
  logged := .opened hfresh
  explained := .opened hfresh
  undisturbed := .opened client c₀
  marked := .opened c₀
  unrivalled := ⟨hfresh.alive p, fun s _ => hfresh.waiting s, hfresh.roster⟩
  passed _ _ i hi := by
    have hwait : (c₀ p).admin = .replicating _ _ i := hi
    rw [hfresh.waiting p] at hwait
    cases hwait
  intact _ hpc := by cases hpc
  ended _ _ hended := hended.elim
  queued := Nat.zero_le _

/-- Only customers order, so only their engineers queue anything. -/
theorem Underway.queued_step [Zlib] {p : ℤ} {client : Client} {s : Clients} {a : ThreadAction}
    {service : Service} (h : s.Underway p client) (henabled : s.Enabled client a)
    (hstep : serviceStep p s.service a = some service) : service.threads.pushes.length ≤
      ∑ e ∈ Finset.range client.customers.toInt.toNat, service.queued e := by
  have hmono := Service.queued_mono h.paired hstep
  have hqueued := h.queued
  rcases Service.pushes_step hstep with hsame | ⟨d, hnew, hcount, hcustomer⟩
  · rw [hsame]
    exact hqueued.trans (Finset.sum_le_sum fun e _ => hmono e)
  · have hd : client.IsCustomer d := by
      rcases hcustomer with ⟨makeOrder, rfl, horder⟩ | hflag
      · rcases h.undisturbed.request henabled with ⟨hd, -⟩ | ⟨-, hread⟩
        · exact hd
        · exact absurd horder hread
      · exact h.undisturbed.orders d ((h.marked.flag d).mp hflag).mem
    calc service.threads.pushes.length = s.service.threads.pushes.length + 1 := hnew
      _ ≤ ∑ e ∈ Finset.range client.customers.toInt.toNat, s.service.queued e + 1 :=
        Nat.add_le_add_right hqueued 1
      _ = ∑ e ∈ Finset.range client.customers.toInt.toNat,
            (s.service.queued e + if some d = some e then 1 else 0) := by
        rw [sum_connection]
        simp only [if_pos hd]
      _ ≤ ∑ e ∈ Finset.range client.customers.toInt.toNat, service.queued e := by
        refine Finset.sum_le_sum fun e _ => ?_
        by_cases heq : d = e
        · subst heq
          rw [if_pos rfl, hcount]
        · rw [if_neg (by simpa using heq)]
          exact hmono e

/-- The end of a connection is seen after its customer has closed it. -/
theorem Underway.ended_step [Zlib] {p : ℤ} {client : Client} {s : Clients} {a : ThreadAction}
    {t : Threads} (h : s.Underway p client) (hok : Client.Undisturbed p s (.server a))
    (henabled : s.Enabled client a) (hstep : threadStep p s.service.threads a = some t) (e : ℕ) :
    (t.engineers e).pc ≠ .failed ∧
      (client.IsCustomer e → (t.engineers e).Ended → (s.customers e).pc = .done) := by
  have hupdate {d : ℕ} {x : Engineer} (hx : x.pc ≠ .failed ∧
      (client.IsCustomer d → x.Ended → (s.customers d).pc = .done)) :
      (Function.update s.service.threads.engineers d x e).pc ≠ .failed ∧
        (client.IsCustomer e → (Function.update s.service.threads.engineers d x e).Ended →
          (s.customers e).pc = .done) := by
    by_cases heq : e = d
    · subst heq
      rwa [Function.update_self]
    · rw [Function.update_of_ne heq]
      exact ⟨h.intact e, h.ended e⟩
  cases threadStep_cases hstep with
  | connect d | order d | read d | ship d =>
    exact hupdate ⟨by simp, fun _ hended => hended.elim⟩
  | marker d uninit hpc => exact hupdate ⟨by simp, fun hd _ => henabled.2 hd⟩
  | noMarker d uninit hpc => exact hupdate ⟨by simp, fun hd _ => henabled.2 hd⟩
  | close d c hpc =>
    refine hupdate ⟨by simp, fun hd _ => h.ended d hd ?_⟩
    rw [Engineer.Ended, hpc]
    trivial
  | fail => exact hok.elim
  | finish o b c hhandling =>
    obtain rfl := h.paired.taken o b hhandling
    simp only [Threads.released, Function.update_self, Function.update_idem]
    exact hupdate ⟨fun hfailed => h.intact b ((Threads.release_keeps _ _).2 hfailed),
      fun hd hended => h.ended b hd ((Threads.ended_release _ _).1 hended)⟩
  | others => exact hok.elim
  | ignored | wake | wait | begin | replicate | peer => exact ⟨h.intact e, h.ended e⟩

theorem Underway.step [Zlib] {p : ℤ} {client : Client} (htype : client.requestType = 1)
    {s s' : Clients} {a : ClientAction} (h : s.Underway p client)
    (hok : Client.Undisturbed p s a) (hstep : clientStep p client s a = some s') :
    s'.Underway p client := by
  have hundisturbed := h.undisturbed.step htype hok hstep
  have hcustomer {e : ℕ} {x : Customer} {s' : Clients} (hundisturbed : s'.Undisturbed client)
      (hservice : s'.service = s.service)
      (hcustomers : s'.customers = Function.update s.customers e x)
      (hpc : (s.customers e).pc ≠ .done) : s'.Underway p client := by
    refine ⟨?_, ?_, ?_, ?_, hundisturbed, ?_, ?_, ?_, ?_, fun e' he' hended => ?_, ?_⟩ <;>
      rw [hservice] at *
    · exact h.leads
    · exact h.paired
    · exact h.logged
    · exact h.explained
    · exact h.marked
    · exact h.unrivalled
    · exact h.passed
    · exact h.intact
    · have hdone := h.ended e' he' hended
      have hne : e' ≠ e := by
        rintro rfl
        exact hpc hdone
      rwa [hcustomers, Function.update_of_ne hne]
    · exact h.queued
  cases clientStep_cases hstep with
  | init e _ _ hpc => exact hcustomer hundisturbed rfl rfl (by simp [hpc])
  | sent e hpc => exact hcustomer hundisturbed rfl rfl (by simp [hpc])
  | sendFailed => cases hok
  | received e _ _ hpc => exact hcustomer hundisturbed rfl rfl (by simp [hpc])
  | recvFailed => cases hok
  | closeSocket e hpc => exact hcustomer hundisturbed rfl rfl (by simp [hpc])
  | other => exact { h with undisturbed := hundisturbed }
  | server a service henabled hserver =>
    have hthreads := (Service.threads_step hserver).1
    have hended := h.ended_step hok henabled hthreads
    exact ⟨h.leads.step hthreads, h.paired.step h.leads hthreads,
      h.logged.step h.leads h.paired hthreads,
      h.explained.step h.leads h.paired hserver, hundisturbed, h.marked.step hthreads,
      h.unrivalled.step (fun d hd => by subst hd; exact hok) hthreads,
      (h.passed.step h.leads hthreads).1, fun e => (hended e).1, fun e => (hended e).2,
      h.queued_step henabled hserver⟩

/-- The run is over for the customers: each is at its end, and so is its engineer. -/
def Finished (client : Client) (s : Clients) : Prop :=
  ∀ e, client.IsCustomer e → (s.customers e).pc = .done ∧
    (s.service.threads.engineers e).pc = .closed

/-- The admin thread wakes up or goes to sleep. -/
def Idles (_ : Clients) (a : ClientAction) : Prop :=
  a = .server .wake ∨ a = .server .wait

def Proceeds [Zlib] (p : ℤ) (client : Client) (s : Clients) : Prop :=
  ∃ a v, 0 < client.counts a ∧ Client.Undisturbed p s a ∧ clientStep p client s a = some v

theorem Proceeds.of_connection [Zlib] {p : ℤ} {client : Client} {s v : Clients} {a : ClientAction}
    {e : ℕ} (he : client.IsCustomer e) (hconnection : a.connection = some e)
    (hok : Client.Undisturbed p s a) (hstep : clientStep p client s a = some v) :
    s.Proceeds p client := by
  refine ⟨a, v, ?_, hok, hstep⟩
  unfold Client.counts
  simp only [hconnection, if_pos he]
  omega

theorem clientStep_server [Zlib] {p : ℤ} {client : Client} {s : Clients} {a : ThreadAction}
    {t : Threads} (henabled : s.Enabled client a)
    (hstep : threadStep p s.service.threads a = some t) :
    clientStep p client s (.server a) = some (s.served a (s.service.record p t a)) := by
  simp [clientStep, serviceStep, henabled, hstep]

theorem Underway.answered {p : ℤ} {client : Client} {s : Clients} (h : s.Underway p client) {e : ℕ}
    (he : client.IsCustomer e) (hpc : (s.service.threads.engineers e).pc = .receiving)
    (hserver : s.toServer e = []) (hclient : s.toClient e = []) :
    (s.customers e).pc ≠ .receiving := by
  intro hwaits
  obtain ⟨m, got, hseq⟩ := h.undisturbed.orderly.1 e he
  obtain ⟨hcount, -, hsent⟩ := hseq.sent
  rw [hwaits] at hsent
  have hsentAll : m = (s.customers e).i + 1 := hsent.1
  have hphase : s.service.threads.phases e = .idle := by
    simp only [Threads.phases, Engineer.phase, hpc]
  have hreplies := h.explained.explains.length_requests e
  have hall := congrArg List.length hseq.requests_eq
  have hgot := congrArg List.length hseq.replies_eq
  simp only [hphase, Phase.asked_idle, Phase.due_idle, List.length_nil] at hreplies
  rw [hserver, List.append_nil, Client.length_ordersOf] at hall
  rw [hclient, List.append_nil] at hgot
  have hlength := hseq.length_eq
  omega

/-- While the admin thread has nothing to do, an engineer takes its next step. -/
theorem Underway.engineer_proceeds [Zlib] {p : ℤ} {client : Client} {s : Clients}
    (h : s.Underway p client) (hfree : s.service.threads.holdsMtx = false)
    (hempty : s.service.threads.adminThreadList = []) {e : ℕ} (he : client.IsCustomer e)
    (hpc : (s.service.threads.engineers e).pc ≠ .closed)
    (hwaits : (s.customers e).pc = .done ∨
      (s.customers e).pc = .receiving ∧ s.toClient e = []) : s.Proceeds p client := by
  have hproceeds {a : ThreadAction} {t : Threads} (hconnection : a.connection = some e)
      (hok : Client.Undisturbed p s (.server a)) (henabled : s.Enabled client a)
      (hstep : threadStep p s.service.threads a = some t) : s.Proceeds p client :=
    .of_connection (a := .server a) he hconnection hok (clientStep_server henabled hstep)
  have hframe : (s.service.threads.engineers e).frame.isSome = false := by
    by_contra hsome
    have hmem := h.paired.inside e (Bool.eq_true_of_not_eq_false hsome)
    simp [Threads.pendingOwners, h.leads.parked hfree, hempty] at hmem
  cases hengineer : (s.service.threads.engineers e).pc with
  | absent =>
    refine hproceeds (a := .connect e) rfl trivial (fun _ => ?_) (if_pos hengineer)
    rcases hwaits with hdone | ⟨hreceiving, -⟩
    · simp [hdone]
    · simp [hreceiving]
  | receiving =>
    cases hserver : s.toServer e with
    | cons makeOrder rest =>
      refine hproceeds (a := .request e makeOrder) rfl trivial ?_ (if_pos ⟨hengineer, hfree⟩)
      simp [Enabled, hserver]
    | nil =>
      have hdone := hwaits.resolve_right fun hreceiving =>
        h.answered he hengineer hserver hreceiving.2 hreceiving.1
      have henabled : s.Enabled client (.hangUp e commitMarker) := ⟨hserver, fun _ => hdone⟩
      cases hflag : (s.service.threads.engineers e).sendLastCommittedIndex with
      | true =>
        refine hproceeds (a := .hangUp e commitMarker)
          (t := s.service.threads.engineerThreadSendCommitedIndex e commitMarker) rfl trivial
          henabled ?_
        simp [threadStep, hengineer, hflag, hfree]
      | false =>
        refine hproceeds (a := .hangUp e commitMarker)
          (t := { s.service.threads.setPc e .closing with
            requests := s.service.threads.requests ++ [.close e] }) rfl trivial henabled ?_
        simp [threadStep, hengineer, hflag]
  | ordering => simp [Engineer.frame, hengineer] at hframe
  | shipping shipOrder =>
    refine hproceeds (a := .ship e) (t := s.service.threads.setPc e .receiving) rfl trivial
      trivial ?_
    simp only [threadStep, hengineer]
  | marking => simp [Engineer.frame, hengineer] at hframe
  | closing =>
    refine hproceeds (a := .close e) (t := { s.service.threads.setPc e .closed with
      cluster := Function.update s.service.threads.cluster p
        (s.service.threads.cluster p).clientClosed }) rfl trivial trivial ?_
    simp [threadStep, hengineer, RobotFactory.step, h.unrivalled.alive]
  | closed => exact absurd hengineer hpc
  | failed => exact absurd hengineer (h.intact e)

/-- While the admin thread has nothing to do, the threads of a customer take their next
step. -/
theorem Underway.customer_proceeds [Zlib] {p : ℤ} {client : Client} {s : Clients}
    (h : s.Underway p client) (hfree : s.service.threads.holdsMtx = false)
    (hempty : s.service.threads.adminThreadList = []) {e : ℕ} (he : client.IsCustomer e)
    (hopen : (s.customers e).pc = .done → (s.service.threads.engineers e).pc ≠ .closed) :
    s.Proceeds p client := by
  cases hpc : (s.customers e).pc with
  | start =>
    exact .of_connection (a := .init e true) he rfl rfl (if_pos ⟨he, hpc⟩)
  | unconnected => exact absurd hpc (h.undisturbed.connected e)
  | sending => exact .of_connection (a := .send e true) he rfl rfl (if_pos hpc)
  | receiving =>
    cases hclient : s.toClient e with
    | cons reply rest =>
      refine .of_connection (a := .recv e true)
        (v := { s.setCustomer e (client.succeeded (s.customers e) reply) with
          toClient := Function.update s.toClient e rest }) he rfl rfl ?_
      simp only [clientStep, hpc, if_true, hclient]
    | nil =>
      refine h.engineer_proceeds hfree hempty he (fun hclosed => ?_) (.inr ⟨hpc, hclient⟩)
      have hdone := h.ended e he (by rw [Engineer.Ended, hclosed]; trivial)
      rw [hpc] at hdone
      cases hdone
  | closing => exact .of_connection (a := .closeSocket e) he rfl trivial (if_pos hpc)
  | done => exact h.engineer_proceeds hfree hempty he (hopen hpc) (.inl hpc)

/-- The requests that have been received are orders of the customer. -/
theorem Underway.bounds {p : ℤ} {client : Client} {s : Clients} (h : s.Underway p client) {e : ℕ}
    (he : client.IsCustomer e) : s.stepsOf e ≤ 4 * client.orders.toInt.toNat + 5 ∧
      s.service.queued e ≤ client.orders.toInt.toNat + 1 := by
  obtain ⟨m, got, hseq⟩ := h.undisturbed.orderly.1 e he
  obtain ⟨hcount, hm, hsent⟩ := hseq.sent
  have hrequests := congrArg List.length hseq.requests_eq
  have hreplies := h.explained.explains.length_requests e
  rw [List.length_append, Client.length_ordersOf] at hrequests
  have hengineer : (s.service.threads.engineers e).pc.steps ≤ 3 := by
    cases (s.service.threads.engineers e).pc <;> simp [EngineerPc.steps]
  have hcustomer : (s.customers e).steps ≤ 2 * client.orders.toInt.toNat + 2 := by
    unfold Customer.steps
    cases hpc : (s.customers e).pc <;> rw [hpc] at hsent <;> simp only at hsent ⊢ <;> omega
  constructor
  · unfold stepsOf Service.engineerSteps
    omega
  · unfold Service.queued
    split_ifs <;> omega

/-- One robot is queued for each order, and one marker for each customer. -/
theorem Underway.pushes_le {p : ℤ} {client : Client} {s : Clients} (h : s.Underway p client) :
    s.service.threads.pushes.length ≤
      client.customers.toInt.toNat * (client.orders.toInt.toNat + 1) := by
  have hqueued := Finset.sum_le_card_nsmul _ _ _ fun e he =>
    (h.bounds ((isCustomer_iff client e).mpr (Finset.mem_range.mp he))).2
  rw [Finset.card_range, smul_eq_mul] at hqueued
  exact h.queued.trans hqueued

/-- An admin thread that is awake takes its next step, if a robot is queued. -/
theorem Underway.admin_proceeds [Zlib] {p : ℤ} {client : Client} {s : Clients}
    (h : s.Underway p client) (hfew : client.Few) (hholds : s.service.threads.holdsMtx = true)
    (hqueued : s.service.threads.pending ≠ []) : s.Proceeds p client := by
  have hpushes : (s.service.threads.pushes.length : ℤ) ≤ intMax :=
    (Int.ofNat_le.mpr h.pushes_le).trans hfew
  obtain ⟨a, ha, hstep⟩ := h.unrivalled.proceeds h.leads h.paired h.logged hholds hqueued hpushes
    (fun _ => 1) Link.clean
  obtain ⟨t, ht⟩ := Option.isSome_iff_exists.mp hstep
  simp only [List.mem_cons, List.not_mem_nil, or_false] at ha
  rcases ha with rfl | rfl | rfl
  · exact ⟨.server (.begin fun _ => 1), _, Nat.one_pos, fun _ _ => Int.one_pos,
      clientStep_server trivial ht⟩
  · exact ⟨.server (.replicate Link.clean), _, Nat.one_pos, Link.clean_clean,
      clientStep_server trivial ht⟩
  · exact ⟨.server .finish, _, Nat.one_pos, trivial, clientStep_server trivial ht⟩

/-- As long as the run is not over, a step that counts is possible, at most after the admin
thread has woken up or gone to sleep. -/
theorem Underway.proceeds [Zlib] {p : ℤ} {client : Client} (htype : client.requestType = 1)
    (hfew : client.Few) {s : Clients} (h : s.Underway p client) (hopen : ¬s.Finished client) :
    ∃ u, Run (clientStep p client) Idles s u ∧ u.Proceeds p client := by
  by_cases hpending : s.service.threads.pending = []
  · obtain ⟨hidle, hempty⟩ : s.service.threads.handling = none ∧
        s.service.threads.adminThreadList = [] := by
      have howners := h.paired.owners_eq
      rw [hpending] at howners
      simpa [Threads.pendingOwners] using howners.symm
    obtain ⟨e, he, hpc⟩ : ∃ e, client.IsCustomer e ∧ ((s.customers e).pc = .done →
        (s.service.threads.engineers e).pc ≠ .closed) := by
      simpa [Finished] using hopen
    cases hholds : s.service.threads.holdsMtx with
    | false => exact ⟨s, .start, h.customer_proceeds hholds hempty he hpc⟩
    | true =>
      have hstep : clientStep p client s (.server .wait) = some _ :=
        clientStep_server trivial (if_pos ⟨hholds, hidle, hempty⟩)
      exact ⟨_, Run.start.next (.inr rfl) hstep,
        (h.step (a := .server .wait) htype trivial hstep).customer_proceeds rfl hempty he hpc⟩
  · cases hholds : s.service.threads.holdsMtx with
    | true => exact ⟨s, .start, h.admin_proceeds hfew hholds hpending⟩
    | false =>
      have hstep : clientStep p client s (.server .wake) = some _ :=
        clientStep_server trivial (if_pos hholds)
      exact ⟨_, Run.start.next (.inl rfl) hstep,
        (h.step (a := .server .wake) htype trivial hstep).admin_proceeds hfew rfl hpending⟩

theorem Underway.steps_le {p : ℤ} {client : Client} {s : Clients} (h : s.Underway p client) :
    s.steps p client ≤ client.customers.toInt.toNat *
      ((client.orders.toInt.toNat + 1) * (s.service.threads.backups p + 6) + 1) := by
  have hbounds e (he : e ∈ Finset.range client.customers.toInt.toNat) :=
    h.bounds ((isCustomer_iff client e).mpr (Finset.mem_range.mp he))
  have hsteps := Finset.sum_le_card_nsmul _ _ _ fun e he => (hbounds e he).1
  have hpushes := h.pushes_le
  have hiterations := Threads.iterationSteps_le h.leads h.paired h.passed
  rw [Finset.card_range, smul_eq_mul] at hsteps
  unfold steps
  generalize s.service.threads.backups p = backups at hiterations ⊢
  generalize client.customers.toInt.toNat = customers at hsteps hpushes ⊢
  generalize client.orders.toInt.toNat = orders at hsteps hpushes ⊢
  calc ∑ e ∈ Finset.range customers, s.stepsOf e + s.service.threads.iterationSteps p
      ≤ customers * (4 * orders + 5) + customers * (orders + 1) * (backups + 2) :=
        Nat.add_le_add hsteps (hiterations.trans (Nat.mul_le_mul_right _ hpushes))
    _ = customers * ((orders + 1) * (backups + 6) + 1) := by ring

end Clients

/-- An undisturbed run of the client program takes a limited number of steps, apart from
those of other clients and from the times that the admin thread wakes up and goes to
sleep, and it can go on until all customers and their engineers are at their ends, as
long as the calls on the connections return. -/
theorem client_run_ends [Zlib] {p : ℤ} {client : Client} {c₀ : Cluster} {s : Clients} {n : ℕ}
    (hfresh : Fresh c₀) (htype : client.requestType = 1) (hfew : client.Few)
    (hrun : Run (counted (clientStep p client) client.counts)
      (fun x a => Client.Undisturbed p x.1 a) (Clients.opened c₀, 0) (s, n)) :
    n ≤ client.customers.toInt.toNat *
        ((client.orders.toInt.toNat + 1) * (s.service.threads.backups p + 6) + 1) ∧
      (s.Finished client ∨
        ∃ u, Run (clientStep p client) Clients.Idles s u ∧ u.Proceeds p client) := by
  have hstep (u : Clients) (a : ClientAction) (v : Clients) (h : u.Underway p client)
      (hok : Client.Undisturbed p u a) (hv : clientStep p client u a = some v) :
      v.Underway p client ∧ v.steps p client = u.steps p client + client.counts a :=
    ⟨h.step htype hok hv, h.steps_step hok hv⟩
  obtain ⟨hunderway, hcount⟩ := hrun.count_eq (fun u => u.Underway p client)
    (fun u => u.steps p client) hstep (.opened client hfresh)
  have hstart : (Clients.opened c₀).steps p client = 0 := by
    simp [Clients.steps, Clients.stepsOf, Clients.opened, Service.opened, Threads.opened,
      Service.engineerSteps, Threads.iterationSteps, Customer.steps, EngineerPc.steps,
      hfresh.waiting p]
  have hle := hunderway.steps_le
  refine ⟨by omega, or_iff_not_imp_left.mpr fun hopen => hunderway.proceeds htype hfew hopen⟩

/-- One customer with one order and one backup: fifteen steps, as many as there may be. -/
theorem client_run_ends_duo : ∃ s : Clients, s.service.threads.backups 0 = 1 ∧
    s.Finished ⟨1, 1, 1⟩ ∧ 15 ≤ 1 * ((1 + 1) * (s.service.threads.backups 0 + 6) + 1) := by
  have hconnect : ∀ (s : Clients) f, f ∈ (s.service.threads.cluster 0).server.factoriesRecord →
      (0 : ℤ) < 5 := fun _ _ _ => by decide
  have hrun : ∃ s, Run (counted (clientStep 0 ⟨1, 1, 1⟩) (Client.counts ⟨1, 1, 1⟩))
      (fun x a => Client.Undisturbed 0 x.1 a) (Clients.opened duo, 0) (s, 15) ∧
      (s.customers 0).pc = .done ∧ (s.service.threads.engineers 0).pc = .closed ∧
      s.service.threads.backups 0 = 1 :=
    ⟨_, (((((((((((((((((Run.start.next (a := .init 0 true) (by rfl) rfl).next
      (a := .send 0 true) (by rfl) rfl).next (a := .server (.connect 0)) (by trivial) rfl).next
      (a := .server (.request 0 ⟨3000, 1, 1⟩)) (by trivial) rfl).next
      (a := .server .wake) (by trivial) rfl).next
      (a := .server (.begin fun _ => 5)) (by exact hconnect _) rfl).next
      (a := .server (.replicate Link.clean)) (by exact Link.clean_clean) rfl).next
      (a := .server .finish) (by trivial) rfl).next
      (a := .server (.ship 0)) (by trivial) rfl).next (a := .recv 0 true) (by rfl) rfl).next
      (a := .closeSocket 0) (by trivial) rfl).next (a := .server .wait) (by trivial) rfl).next
      (a := .server (.hangUp 0 ⟨0, 0, 0, 0, 0⟩)) (by trivial) rfl).next
      (a := .server .wake) (by trivial) rfl).next
      (a := .server (.begin fun _ => 5)) (by exact hconnect _) rfl).next
      (a := .server (.replicate Link.clean)) (by exact Link.clean_clean) rfl).next
      (a := .server .finish) (by trivial) rfl).next
      (a := .server (.close 0)) (by trivial) rfl, rfl, rfl, rfl⟩
  obtain ⟨s, hrun, hdone, hclosed, hbackups⟩ := hrun
  obtain ⟨hle, -⟩ := client_run_ends duo_fresh rfl (by decide) hrun
  refine ⟨s, hbackups, fun e he => ?_, hle⟩
  obtain rfl : e = 0 := by
    have hlt : (e : ℤ) < 1 := he
    omega
  exact ⟨hdone, hclosed⟩

end RobotFactory
