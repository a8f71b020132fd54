import RobotFactory.Linearization
import RobotFactory.Reads
import RobotFactory.Replies

/-!
# The service that clients see

To its clients the primary is a map from customers to their last orders. Engineers
work side by side, an order is committed by the admin thread and a read is answered
by the engineer itself, but all replies are those of the map when it is given the
requests one after the other. Beside the threads, the state records what engineers
have received and sent, and the requests in the order in which they take effect: an
order when its barrier is released, a read when it is received.
-/
namespace RobotFactory
open TransitionSystem Linearization ReplayLog

/-- What the factory is for: it keeps the last order of each customer. An order
under the id of the markers has no effect and comes back without an admin. -/
def orderBook (adminId : Int32) : Sequential CustomerRecord OrderInf Message where
  init := ∅
  perform record order :=
    if order.requestType = 1 then
      if order.customerId ≠ -1 then
        (record.insert order.customerId order.orderNumber,
          .robotInf ⟨order.customerId, order.orderNumber, 1, engineerIdDefault, adminId⟩)
      else (record, .robotInf ⟨-1, order.orderNumber, 1, engineerIdDefault, -1⟩)
    else (record, .cRec ⟨order.customerId, (record.lookup order.customerId).getD (-1)⟩)

/-- `admin_thread_id` in `start`. -/
def adminThreadId (p : ℤ) : Int32 := Int32.ofInt (p + 100)

def RobotInf.order (robot : RobotInf) : OrderInf :=
  ⟨robot.customerId, robot.orderNumber, robot.requestType⟩

@[simp] theorem order_assembleRobot (makeOrder : OrderInf) (engineerId : Int32) :
    (assembleRobot makeOrder engineerId).order = makeOrder := rfl

def loggedEntry (x : Effect ℕ OrderInf Message) : Option MapOp :=
  if x.request.requestType = 1 ∧ x.request.customerId ≠ -1 then
    some ⟨1, x.request.customerId, x.request.orderNumber⟩
  else none

/-- Where the client of an engineer stands. -/
def Engineer.phase (x : Engineer) : Phase OrderInf Message :=
  match x.pc with
  | .ordering shipOrder => .requested shipOrder.order
  | .shipping shipOrder => .effected (.robotInf shipOrder)
  | _ => .idle

/-- The robot in the frame of a waiting engineer is as it was assembled, or a marker. -/
def Engineer.Framed (x : Engineer) : Prop :=
  match x.pc with
  | .ordering shipOrder => ∃ makeOrder : OrderInf,
    shipOrder = assembleRobot makeOrder engineerIdDefault ∧ makeOrder.requestType = 1
  | .marking replCommitIndex => replCommitIndex.customerId = -1
  | _ => True

def Threads.phases (t : Threads) (e : ℕ) : Phase OrderInf Message := (t.engineers e).phase

/-- The threads of a primary, and what its engineers have received and sent. -/
structure Service where
  threads : Threads
  requests : ℕ → List OrderInf
  replies : ℕ → List Message
  history : List (Effect ℕ OrderInf Message)

namespace Service

def opened (c : Cluster) : Service where
  threads := .opened c
  requests _ := []
  replies _ := []
  history := []

/-- What `ReturnRecord` sends. -/
def sendRec (p : ℤ) (s : Service) (makeOrder : OrderInf) : Message :=
  .cRec ⟨makeOrder.customerId, (s.threads.cluster p).server.lastOrder makeOrder.customerId⟩

/-- What a step of the threads to `t` adds to the record. -/
def record (p : ℤ) (s : Service) (t : Threads) : ThreadAction → Service
  | .request e makeOrder =>
    if makeOrder.requestType = 1 then
      { s with
        threads := t
        requests := Function.update s.requests e (s.requests e ++ [makeOrder]) }
    else if makeOrder.requestType = 2 then
      { threads := t
        requests := Function.update s.requests e (s.requests e ++ [makeOrder])
        replies := Function.update s.replies e (s.replies e ++ [s.sendRec p makeOrder])
        history := s.history ++ [⟨e, makeOrder, s.sendRec p makeOrder⟩] }
    else { s with threads := t }
  | .ship e =>
    match (s.threads.engineers e).pc with
    | .shipping shipOrder =>
      { s with
        threads := t
        replies := Function.update s.replies e (s.replies e ++ [.robotInf shipOrder]) }
    | _ => { s with threads := t }
  | .finish =>
    match s.threads.handling with
    | some (_, b) =>
      match (t.engineers b).pc with
      | .shipping shipOrder =>
        { s with threads := t, history := s.history ++ [⟨b, shipOrder.order, .robotInf shipOrder⟩] }
      | _ => { s with threads := t }
    | none => { s with threads := t }
  | _ => { s with threads := t }

@[simp] theorem record_threads (p : ℤ) (s : Service) (t : Threads) (a : ThreadAction) :
    (s.record p t a).threads = t := by
  cases a with
  | request e makeOrder => simp only [record]; split_ifs <;> rfl
  | ship e => simp only [record]; split <;> rfl
  | finish =>
    simp only [record]
    split
    · split <;> rfl
    · rfl
  | _ => rfl

end Service

def serviceStep [Zlib] (p : ℤ) (s : Service) (a : ThreadAction) : Option Service :=
  (threadStep p s.threads a).map fun t => s.record p t a

namespace Service

theorem threads_step [Zlib] {p : ℤ} {s s' : Service} {a : ThreadAction}
    (h : serviceStep p s a = some s') :
    threadStep p s.threads a = some s'.threads ∧ s' = s.record p s'.threads a := by
  obtain ⟨t, ht, rfl⟩ := Option.map_eq_some_iff.mp h
  rw [record_threads]
  exact ⟨ht, rfl⟩

theorem threads_run [Zlib] {p : ℤ} {c₀ : Cluster} {s : Service} {ok : Service → ThreadAction → Prop}
    (h : Run (serviceStep p) ok (opened c₀) s) :
    Run (threadStep p) (fun _ _ => True) (Threads.opened c₀) s.threads :=
  h.invariant (fun u => Run (threadStep p) (fun _ _ => True) (Threads.opened c₀) u.threads)
    (fun _ _ _ hrun _ hstep => hrun.next trivial (threads_step hstep).1) .start

/-- The record of the service explains the replies, and the committed part of the
log consists of the orders that have taken effect. -/
structure Explained (p : ℤ) (s : Service) : Prop where
  explains : Explains (orderBook (adminThreadId p)) s.history
    (s.threads.cluster p).server.customerRecord s.requests s.replies s.threads.phases
  framed : ∀ e, (s.threads.engineers e).Framed
  committed : (s.threads.cluster p).server.committedLog = s.history.filterMap loggedEntry
  id_eq : (s.threads.cluster p).server.myFactoryId = p

end Service

namespace Threads

theorem phases_of_update {t t' : Threads} {e : ℕ} {x : Engineer}
    (h : t'.engineers = Function.update t.engineers e x) :
    t'.phases = Function.update t.phases e x.phase := by
  funext e'
  simp only [phases, h, Function.update_apply]
  split_ifs <;> rfl

end Threads

structure Server.SameCommitted (s s' : Server) : Prop where
  record_eq : s'.customerRecord = s.customerRecord
  committed_eq : s'.committedLog = s.committedLog
  id_eq : s'.myFactoryId = s.myFactoryId

theorem Node.Leads.begin_sameCommitted [Zlib] {n : Node} (h : n.Leads) (shipOrder : RobotInf)
    (connect : ℤ → ℤ) (hadmin : n.admin = .waiting)
    (halive : (n.beginIteration shipOrder connect).alive = true) :
    n.server.SameCommitted (n.beginIteration shipOrder connect).server := by
  obtain ⟨s', hnode, hbegan, -⟩ := h.begun hadmin halive
  have hdone := h.committed hadmin
  have hlast := h.last_eq
  have hall : n.server.committedLog = n.server.smrLog := List.take_of_length_le (by omega)
  have hcommitted : s'.committedLog = n.server.committedLog :=
    (hbegan.take_committed hlast).trans hall.symm
  rw [hnode]
  refine ⟨?_, hcommitted, hbegan.myFactoryId_eq⟩
  calc s'.customerRecord = replayRecord s'.committedLog := replayed_record hbegan.sound
    _ = replayRecord n.server.committedLog := by rw [hcommitted]
    _ = n.server.customerRecord := (replayed_record h.sound.server).symm

/-- The commit of an order, or of a marker. -/
theorem Node.Leads.adminCommit_committed {n : Node} (h : n.Leads) {shipOrder : RobotInf}
    {req : ReplReq} {i : ℕ} (hadmin : n.admin = .replicating shipOrder req i) :
    (n.server.adminCommit shipOrder).committedLog = n.server.committedLog ++
      if shipOrder.customerId ≠ -1 then [Server.logEntryOf shipOrder] else [] := by
  have hserving := h.sound.serving _ _ _ hadmin
  have hcommitted := hserving.committed_eq
  have hlog : (n.server.adminCommit shipOrder).committedLog = n.server.smrLog :=
    h.committed_all hadmin
  rw [hlog, Server.committedLog, ← hcommitted]
  split_ifs with horder
  · have hentry := hserving.log_of_order h.last_eq (mt hserving.order_iff.mp horder)
    rw [← hserving.mapop_eq, hentry]
  · rw [List.append_nil]
    exact (hserving.log_of_marker h.last_eq (hserving.order_iff.mpr (not_not.mp horder))).symm

namespace Service

theorem Explained.same {p : ℤ} {s : Service} {t : Threads} (h : s.Explained p)
    (hphases : t.phases = s.threads.phases) (hframed : ∀ e, (t.engineers e).Framed)
    (hsame : (s.threads.cluster p).server.SameCommitted (t.cluster p).server) :
    Explained p { s with threads := t } := by
  refine ⟨?_, hframed, hsame.committed_eq.trans h.committed, hsame.id_eq.trans h.id_eq⟩
  rw [hphases, hsame.record_eq]
  exact h.explains

theorem Explained.framed_update {p : ℤ} {s : Service} (h : s.Explained p) (e : ℕ) {x : Engineer}
    (hx : x.Framed) (e' : ℕ) : (Function.update s.threads.engineers e x e').Framed :=
  (Function.forall_update_iff s.threads.engineers fun _ y => y.Framed).mpr
    ⟨hx, fun d _ => h.framed d⟩ e'

theorem Explained.moved {p : ℤ} {s : Service} {t : Threads} (h : s.Explained p) {e : ℕ}
    {x : Engineer} (hengineers : t.engineers = Function.update s.threads.engineers e x)
    (hbefore : (s.threads.engineers e).phase = .idle) (hafter : x.phase = .idle)
    (hx : x.Framed) (hsame : (s.threads.cluster p).server.SameCommitted (t.cluster p).server) :
    Explained p { s with threads := t } := by
  refine h.same ?_ (hengineers ▸ h.framed_update e hx) hsame
  rw [Threads.phases_of_update hengineers, hafter, ← hbefore]
  exact Function.update_eq_self ..

theorem Explained.order {p : ℤ} {s : Service} (h : s.Explained p) {e : ℕ} {makeOrder : OrderInf}
    (hidle : (s.threads.engineers e).phase = .idle) (htype : makeOrder.requestType = 1) :
    (s.record p (s.threads.engineerThreadRobotDef e makeOrder)
      (.request e makeOrder)).Explained p := by
  have hasked := h.explains.invoke (c := e) makeOrder hidle
  rw [record, if_pos htype]
  refine ⟨?_, h.framed_update e ⟨makeOrder, rfl, htype⟩, h.committed, h.id_eq⟩
  rw [Threads.phases_of_update (e := e) rfl]
  exact hasked

theorem Explained.read {p : ℤ} {s : Service} (h : s.Explained p) {e : ℕ} {makeOrder : OrderInf}
    (hidle : (s.threads.engineers e).phase = .idle) (htype : makeOrder.requestType = 2) :
    (s.record p (s.threads.engineerThreadReadDef p e makeOrder)
      (.request e makeOrder)).Explained p := by
  have horder : makeOrder.requestType ≠ 1 := by
    rw [htype]
    decide
  have hperform : (orderBook (adminThreadId p)).perform
      (s.threads.cluster p).server.customerRecord makeOrder =
      ((s.threads.cluster p).server.customerRecord, s.sendRec p makeOrder) := by
    simp only [orderBook, if_neg horder]
    rfl
  have hentry : loggedEntry ⟨e, makeOrder, s.sendRec p makeOrder⟩ = none :=
    if_neg fun hand => horder hand.1
  have hmoved := h.moved (t := s.threads.engineerThreadReadDef p e makeOrder) rfl hidle rfl
    trivial ⟨rfl, rfl, rfl⟩
  have hdone := hmoved.explains.perform (c := e) makeOrder
    (by simp [Threads.phases, Threads.engineerThreadReadDef, Engineer.phase])
  simp only [Threads.engineerThreadReadDef, hperform] at hdone
  rw [record, if_neg horder, if_pos htype]
  refine ⟨hdone, hmoved.framed, ?_, h.id_eq⟩
  rw [List.filterMap_append, List.filterMap_cons, hentry, List.filterMap_nil, List.append_nil]
  exact h.committed

theorem Explained.ship {p : ℤ} {s : Service} (h : s.Explained p) {e : ℕ} {shipOrder : RobotInf}
    (hpc : (s.threads.engineers e).pc = .shipping shipOrder) :
    (s.record p (s.threads.setPc e .receiving) (.ship e)).Explained p := by
  have hphase : s.threads.phases e = .effected (.robotInf shipOrder) := by
    simp only [Threads.phases, Engineer.phase, hpc]
  simp only [record, hpc]
  refine ⟨?_, h.framed_update e trivial, h.committed, h.id_eq⟩
  rw [Threads.phases_of_update (e := e) rfl]
  exact h.explains.respond hphase

theorem release_ordering {x : Engineer} {shipOrder : RobotInf} (adminId : Int32)
    (hpc : x.pc = .ordering shipOrder) : (x.setAdminId adminId).release.pc =
      .shipping (if shipOrder.customerId ≠ -1 then { shipOrder with adminId := adminId }
        else shipOrder) := by
  simp only [Engineer.setAdminId, hpc]
  split_ifs with horder
  · rfl
  · simp only [Engineer.release, hpc]

theorem release_marking {x : Engineer} {shipOrder : RobotInf} (adminId : Int32)
    (hpc : x.pc = .marking shipOrder) : (x.setAdminId adminId).release.pc = .closing := by
  simp only [Engineer.setAdminId, hpc, Engineer.release]

theorem frame_of_handling {p : ℤ} {t : Threads} (h : t.Paired p) {o b i : ℕ} {shipOrder : RobotInf}
    {req : ReplReq} (hhandling : t.handling = some (o, b))
    (hadmin : (t.cluster p).admin = .replicating shipOrder req i) :
    o = b ∧ (t.engineers b).frame = some shipOrder := by
  obtain rfl := h.taken o b hhandling
  have hcurrent := h.current
  rw [hadmin, hhandling, Option.isSome_some, if_pos rfl] at hcurrent
  obtain ⟨q, hq, hrobot⟩ := Option.map_eq_some_iff.mp hcurrent.symm
  have hmem : q ∈ t.pending := List.mem_of_head? hq
  have howner := h.owners_eq
  rw [Threads.pendingOwners, hhandling] at howner
  obtain ⟨rest, hpending⟩ := List.head?_eq_some_iff.mp hq
  rw [hpending, List.map_cons] at howner
  have hq' : q.owner = b := (List.cons.inj howner).1
  refine ⟨rfl, ?_⟩
  rw [← hq', Threads.frame_of_pc (h.waiting q hmem), hrobot]

theorem perform_order (p : ℤ) (s : Server) {makeOrder : OrderInf} {shipOrder : RobotInf}
    (hassembled : shipOrder = assembleRobot makeOrder engineerIdDefault)
    (htype : makeOrder.requestType = 1) :
    (orderBook (adminThreadId p)).perform s.customerRecord shipOrder.order =
      ((s.adminCommit shipOrder).customerRecord,
        .robotInf (if shipOrder.customerId ≠ -1 then { shipOrder with adminId := adminThreadId p }
          else shipOrder)) := by
  obtain ⟨customerId, orderNumber, requestType⟩ := makeOrder
  subst hassembled htype
  by_cases horder : customerId = -1
  · subst horder
    rfl
  · simp only [orderBook, RobotInf.order, if_true, Server.adminCommit, assembleRobot, ne_eq,
      horder, not_false_eq_true]
    rfl

theorem loggedEntry_order (b : ℕ) {makeOrder : OrderInf} {shipOrder : RobotInf} (reply : Message)
    (hassembled : shipOrder = assembleRobot makeOrder engineerIdDefault)
    (htype : makeOrder.requestType = 1) : (loggedEntry ⟨b, shipOrder.order, reply⟩).toList =
      if shipOrder.customerId ≠ -1 then [Server.logEntryOf shipOrder] else [] := by
  subst hassembled
  by_cases horder : makeOrder.customerId = -1 <;>
    simp [loggedEntry, htype, assembleRobot, RobotInf.order, Server.logEntryOf, horder]

theorem filterMap_concat {α β : Type*} (f : α → Option β) (l : List α) (x : α) :
    (l ++ [x]).filterMap f = l.filterMap f ++ (f x).toList := by
  rw [List.filterMap_append, List.filterMap_cons]
  cases f x <;> simp

theorem released_engineers {p : ℤ} {s : Service} (h : s.Explained p) (o : ℕ) (c : Cluster) :
    (s.threads.released p o o c).engineers = Function.update s.threads.engineers o
      ((s.threads.engineers o).setAdminId (adminThreadId p)).release := by
  simp only [Threads.released, h.id_eq, Function.update_self, Function.update_idem]
  rfl

/-- The end of an iteration: the order takes effect, and its engineer may reply. -/
theorem Explained.finish [Zlib] {p : ℤ} {s : Service} (hl : s.threads.Leads p)
    (hp : s.threads.Paired p) (h : s.Explained p) {o b : ℕ} {c : Cluster}
    (hhandling : s.threads.handling = some (o, b))
    (hc : step p s.threads.cluster .finish = some c) :
    (s.record p (s.threads.released p o b c) .finish).Explained p := by
  cases step_cases hc with
  | finish shipOrder req i _ hadmin =>
    obtain ⟨rfl, hframe⟩ := frame_of_handling hp hhandling hadmin
    have hcommit := hl.leads.adminCommit_committed hadmin
    have hrole := (adminCommit_became hl.leads.sound.server
      (hl.leads.sound.serving _ _ _ hadmin)).2
    set t := s.threads.released p o o (Function.update s.threads.cluster p
      ((s.threads.cluster p).finishIteration shipOrder req)) with ht
    have hserver : (t.cluster p).server = (s.threads.cluster p).server.adminCommit shipOrder := by
      simp only [ht, Threads.released, Function.update_self]
      rfl
    have hengineers := released_engineers h o (Function.update s.threads.cluster p
      ((s.threads.cluster p).finishIteration shipOrder req))
    rw [← ht] at hengineers
    have hframed := h.framed o
    unfold Engineer.Framed at hframed
    unfold Engineer.frame at hframe
    cases hpc : (s.threads.engineers o).pc with
    | ordering robot =>
      rw [hpc] at hframe hframed
      obtain rfl := Option.some.inj hframe
      obtain ⟨makeOrder, hassembled, htype⟩ := hframed
      have hreleased := release_ordering (adminThreadId p) hpc
      generalize hship : (if robot.customerId ≠ -1 then
        { robot with adminId := adminThreadId p } else robot) = shipped at hreleased
      have hshipped : shipped.order = robot.order := by
        rw [← hship]
        split_ifs <;> rfl
      have hpc' : (t.engineers o).pc = .shipping shipped := by
        rw [hengineers, Function.update_self, hreleased]
      have hphase : s.threads.phases o = .requested robot.order := by
        simp only [Threads.phases, Engineer.phase, hpc]
      have heffect := h.explains.effect hphase
      rw [perform_order p _ hassembled htype, hship] at heffect
      simp only [record, hhandling, hpc', hshipped]
      refine ⟨?_, hengineers ▸ h.framed_update o (by rw [Engineer.Framed, hreleased]; trivial), ?_,
        ?_⟩
      · rw [Threads.phases_of_update hengineers, Engineer.phase, hreleased, hserver]
        exact heffect
      · rw [hserver, hcommit, h.committed, filterMap_concat, loggedEntry_order o _ hassembled htype]
      · rw [hserver, hrole.myFactoryId]
        exact h.id_eq
    | marking robot =>
      rw [hpc] at hframe hframed
      obtain rfl := Option.some.inj hframe
      have hreleased := release_marking (adminThreadId p) hpc
      have hpc' : (t.engineers o).pc = .closing := by
        rw [hengineers, Function.update_self, hreleased]
      simp only [record, hhandling, hpc']
      refine h.moved hengineers (by rw [Engineer.phase, hpc]) (by rw [Engineer.phase, hreleased])
        (by rw [Engineer.Framed, hreleased]; trivial) ?_
      rw [hserver, Server.adminCommit, if_neg (not_not.mpr hframed)]
      exact ⟨rfl, rfl, rfl⟩
    | _ =>
      rw [hpc] at hframe
      cases hframe

theorem Explained.opened [Zlib] {p : ℤ} {c : Cluster} (h : Fresh c) : (opened c).Explained p where
  explains := by
    obtain ⟨factories, uninit, replies, hstart⟩ := h.started p
    rw [start_empty, Except.ok.injEq] at hstart
    change Explains _ [] (c p).server.customerRecord _ _ _
    rw [← hstart]
    exact .start _
  framed _ := trivial
  committed := by
    change (c p).server.committedLog = []
    rw [Server.committedLog, (h.blank p).log_eq, List.take_nil]
  id_eq := by
    obtain ⟨factories, uninit, replies, hstart⟩ := h.started p
    rw [start_empty, Except.ok.injEq] at hstart
    change (c p).server.myFactoryId = p
    rw [← hstart]
    rfl

theorem Explained.step [Zlib] {p : ℤ} {s s' : Service} {a : ThreadAction} (hl : s.threads.Leads p)
    (hp : s.threads.Paired p) (h : s.Explained p) (hstep : serviceStep p s a = some s') :
    s'.Explained p := by
  obtain ⟨ht, hs'⟩ := threads_step hstep
  rw [hs']
  generalize s'.threads = t at ht
  have hidle {e : ℕ} {pc : EngineerPc} (hpc : (s.threads.engineers e).pc = pc)
      (hpc' : Engineer.phase ⟨pc, false⟩ = .idle) : (s.threads.engineers e).phase = .idle := by
    rw [Engineer.phase, hpc]
    exact hpc'
  cases a with
  | request e makeOrder =>
    simp only [threadStep, Option.ite_none_right_eq_some, Option.some.injEq] at ht
    obtain ⟨⟨hpc, -⟩, rfl⟩ := ht
    unfold Threads.received
    split_ifs with horder hread
    · exact h.order (hidle hpc rfl) horder
    · exact h.read (hidle hpc rfl) hread
    · rw [record, if_neg horder, if_neg hread]
      exact h
  | ship e =>
    cases threadStep_cases ht with
    | ship e shipOrder hpc => exact h.ship hpc
  | finish =>
    cases threadStep_cases ht with
    | finish o b c hhandling hc => exact h.finish hl hp hhandling hc
  | connect e =>
    cases threadStep_cases ht with
    | connect e hpc => exact h.moved rfl (hidle hpc rfl) rfl trivial ⟨rfl, rfl, rfl⟩
  | fail e =>
    cases threadStep_cases ht with
    | fail e hpc => exact h.moved rfl (hidle hpc rfl) rfl trivial ⟨rfl, rfl, rfl⟩
  | hangUp e uninit =>
    cases threadStep_cases ht with
    | marker e uninit hpc => exact h.moved rfl (hidle hpc rfl) rfl rfl ⟨rfl, rfl, rfl⟩
    | noMarker e uninit hpc => exact h.moved rfl (hidle hpc rfl) rfl trivial ⟨rfl, rfl, rfl⟩
  | close e =>
    cases threadStep_cases ht with
    | close e c hpc hc =>
      cases step_cases hc
      refine h.moved rfl (hidle hpc rfl) rfl trivial ?_
      simp only [Function.update_self]
      exact ⟨rfl, rfl, rfl⟩
  | wake =>
    cases threadStep_cases ht with
    | wake => exact h.same rfl h.framed ⟨rfl, rfl, rfl⟩
  | wait =>
    cases threadStep_cases ht with
    | wait => exact h.same rfl h.framed ⟨rfl, rfl, rfl⟩
  | begin connect =>
    cases threadStep_cases ht with
    | begin connect o b orders barriers shipOrder c _ _ _ _ _ hc halive =>
      cases step_cases hc with
      | begin _ _ _ hadmin =>
        refine h.same rfl h.framed ?_
        simp only [Function.update_self] at halive ⊢
        exact hl.leads.begin_sameCommitted shipOrder connect hadmin halive
  | replicate link =>
    cases threadStep_cases ht with
    | replicate link o b c _ hc =>
      obtain ⟨shipOrder, req, i, f, kept, stale, -, -, hp⟩ := replicate_primary hc
      refine h.same rfl h.framed ?_
      simp only [hp]
      exact ⟨rfl, rfl, rfl⟩
  | peer a =>
    cases threadStep_cases ht with
    | peer a c hpeer hc =>
      refine h.same rfl h.framed ?_
      simp only [peer_primary hpeer hc]
      exact ⟨rfl, rfl, rfl⟩
  | others d =>
    cases threadStep_cases ht with
    | others d =>
      refine h.same rfl h.framed ?_
      simp only [Function.update_self]
      exact ⟨rfl, rfl, rfl⟩

/-- The requests that an action adds to those of a connection. -/
def received (e : ℕ) : ThreadAction → List OrderInf
  | .request e' makeOrder =>
    if e' = e ∧ (makeOrder.requestType = 1 ∨ makeOrder.requestType = 2) then [makeOrder] else []
  | _ => []

theorem requests_step [Zlib] {p : ℤ} {s s' : Service} {a : ThreadAction}
    (h : serviceStep p s a = some s') (e : ℕ) : s'.requests e = s.requests e ++ received e a := by
  rw [(threads_step h).2]
  cases a with
  | request e' makeOrder =>
    by_cases heq : e' = e
    · subst heq
      simp only [record, received, true_and]
      split_ifs with horder hread hnone <;> simp_all
    · simp only [record, received, heq, false_and, if_false, List.append_nil]
      split_ifs <;> simp [Ne.symm heq]
  | ship => simp only [record, received]; split <;> simp
  | finish => simp only [record, received]; split <;> [split; skip] <;> simp
  | _ => simp [record, received]

theorem replies_prefix [Zlib] {p : ℤ} {s s' : Service} {a : ThreadAction}
    (h : serviceStep p s a = some s') (e : ℕ) : s.replies e <+: s'.replies e := by
  have hupdate (e' : ℕ) (reply : Message) :
      s.replies e <+: Function.update s.replies e' (s.replies e' ++ [reply]) e := by
    by_cases heq : e = e'
    · subst heq
      rw [Function.update_self]
      exact List.prefix_append _ _
    · rw [Function.update_of_ne heq]
  rw [(threads_step h).2]
  unfold record
  repeat' split
  all_goals first | exact hupdate _ _ | exact List.prefix_rfl

/-- What holds of every state of every run. -/
theorem explained_run [Zlib] {p : ℤ} {c₀ : Cluster} {s : Service}
    {ok : Service → ThreadAction → Prop} (hfresh : Fresh c₀)
    (hrun : Run (serviceStep p) ok (opened c₀) s) :
    s.threads.Leads p ∧ s.threads.Paired p ∧ s.Explained p :=
  hrun.invariant (fun u => u.threads.Leads p ∧ u.threads.Paired p ∧ u.Explained p)
    (fun _ _ _ hinv _ hstep => ⟨hinv.1.step (threads_step hstep).1,
      hinv.2.1.step hinv.1 (threads_step hstep).1, hinv.2.2.step hinv.1 hinv.2.1 hstep⟩)
    ⟨.opened hfresh, .opened hfresh, .opened hfresh⟩

end Service

end RobotFactory
