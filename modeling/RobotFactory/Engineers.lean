import RobotFactory.Startup

/-!
# The threads of a primary

Each client connection has an engineer thread. It queues the address of a robot
and of a barrier in two lists and waits; the admin thread takes both in front,
runs an iteration, and releases the barrier. The engineers touch the lists and
the customer record with the mutex locked, which the admin thread holds from the
moment it wakes up until it finds the lists empty. An address is modelled by the
number of the engineer in whose frame the robot or the barrier is. The lists of
past events at the end of the state are not part of the program. A run of the
threads ends where their process does.
-/
namespace RobotFactory

def assembleRobot (order : OrderInf) (engineerId : Int32) : RobotInf :=
  ⟨order.customerId, order.orderNumber, order.requestType, engineerId, -1⟩

/-- `engineer_id` in `start`, the same for every connection. -/
def engineerIdDefault : Int32 := 100

/-- The robot of `engineer_thread_send_commited_index`; its other members are not
initialised. -/
def replCommitIndex (uninit : RobotInf) : RobotInf :=
  { uninit with customerId := -1, orderNumber := -1 }

/-- Where an engineer stands: before its start, before the next `recv`, waiting
for the barrier of an order, about to ship it, waiting for the barrier of a
marker, about to close the connection, or at its end, with or without a close. -/
inductive EngineerPc where
  | absent
  | receiving
  | ordering (shipOrder : RobotInf)
  | shipping (shipOrder : RobotInf)
  | marking (replCommitIndex : RobotInf)
  | closing
  | closed
  | failed
  deriving DecidableEq, Repr

/-- A connection and the local flag of its thread. -/
structure Engineer where
  pc : EngineerPc
  sendLastCommittedIndex : Bool
  deriving DecidableEq, Repr

namespace Engineer

/-- The robot that the admin thread finds in the frame of a waiting engineer. -/
def frame (x : Engineer) : Option RobotInf :=
  match x.pc with
  | .ordering shipOrder => some shipOrder
  | .marking shipOrder => some shipOrder
  | _ => none

def setAdminId (x : Engineer) (adminId : Int32) : Engineer :=
  match x.pc with
  | .ordering shipOrder =>
    if shipOrder.customerId ≠ -1 then
      { x with pc := .ordering { shipOrder with adminId := adminId } }
    else x
  | _ => x

def release (x : Engineer) : Engineer :=
  match x.pc with
  | .ordering shipOrder => { x with pc := .shipping shipOrder }
  | .marking _ => { x with pc := .closing }
  | _ => x

end Engineer

def Server.lastOrder (s : Server) (customerId : Int32) : Int32 :=
  (s.customerRecord.lookup customerId).getD (-1)

/-- A queued robot: an order, or the marker of a closing connection. -/
structure Push where
  owner : ℕ
  robot : RobotInf
  marker : Bool
  deriving DecidableEq, Repr

/-- What a client has sent, as far as it was handled. -/
inductive ClientEvent where
  | order (e : ℕ)
  | read (e : ℕ)
  | close (e : ℕ)
  deriving DecidableEq, Repr

/-- The primary with its threads: whether the admin thread holds `mtx`, the robot
and the barrier it has taken, and the engineers. Behind it everything queued, for
each finished iteration the owners of its robot and of its barrier, the replies to
reads, the requests, and the orders that backups have acknowledged. -/
structure Threads where
  cluster : Cluster
  adminThreadList : List ℕ
  barrierList : List ℕ
  holdsMtx : Bool
  handling : Option (ℕ × ℕ)
  engineers : ℕ → Engineer
  pushes : List Push
  releases : List (ℕ × ℕ)
  replies : List (ℕ × CRec)
  requests : List ClientEvent
  acknowledged : List (ℤ × Release)

/-- Steps of the threads: of an engineer by its connection, of the admin thread,
and of the other servers, one by one as far as the primary's connections to them
go, or in any way. `connect` starts a thread, `hangUp` is the end of the client's
requests, and `fail` a request that cannot be received. -/
inductive ThreadAction where
  | connect (e : ℕ)
  | request (e : ℕ) (makeOrder : OrderInf)
  | ship (e : ℕ)
  | hangUp (e : ℕ) (uninit : RobotInf)
  | close (e : ℕ)
  | fail (e : ℕ)
  | wake
  | wait
  | begin (connect : ℤ → ℤ)
  | replicate (link : Link)
  | finish
  | peer (a : Action)
  | others (d : Cluster)

namespace Threads

def setPc (t : Threads) (e : ℕ) (pc : EngineerPc) : Threads :=
  { t with engineers := Function.update t.engineers e { t.engineers e with pc := pc } }

/-- Both lists get an entry, and the engineer waits. -/
def push (t : Threads) (e : ℕ) (x : Engineer) (robot : RobotInf) (marker : Bool)
    (event : ClientEvent) : Threads :=
  { t with
    adminThreadList := t.adminThreadList ++ [e]
    barrierList := t.barrierList ++ [e]
    engineers := Function.update t.engineers e x
    pushes := t.pushes ++ [⟨e, robot, marker⟩]
    requests := t.requests ++ [event] }

def engineerThreadRobotDef (t : Threads) (e : ℕ) (makeOrder : OrderInf) : Threads :=
  let shipOrder := assembleRobot makeOrder engineerIdDefault
  t.push e ⟨.ordering shipOrder, true⟩ shipOrder false (.order e)

def engineerThreadSendCommitedIndex (t : Threads) (e : ℕ) (uninit : RobotInf) : Threads :=
  let shipOrder := replCommitIndex uninit
  t.push e { t.engineers e with pc := .marking shipOrder } shipOrder true (.close e)

def engineerThreadReadDef (t : Threads) (p : ℤ) (e : ℕ) (makeOrder : OrderInf) : Threads :=
  { t with
    engineers := Function.update t.engineers e ⟨.receiving, false⟩
    replies := t.replies ++
      [(e, ⟨makeOrder.customerId, (t.cluster p).server.lastOrder makeOrder.customerId⟩)]
    requests := t.requests ++ [.read e] }

/-- A received request; other types are ignored. -/
def received (t : Threads) (p : ℤ) (e : ℕ) (makeOrder : OrderInf) : Threads :=
  if makeOrder.requestType = 1 then t.engineerThreadRobotDef e makeOrder
  else if makeOrder.requestType = 2 then t.engineerThreadReadDef p e makeOrder
  else t

/-- The commit of an iteration is done: the admin's id goes into the robot of `o`,
and the barrier of `b` is set. -/
def released (t : Threads) (p : ℤ) (o b : ℕ) (c : Cluster) : Threads :=
  let adminId := Int32.ofInt ((t.cluster p).server.myFactoryId + 100)
  let engineers := Function.update t.engineers o ((t.engineers o).setAdminId adminId)
  { t with
    cluster := c
    handling := none
    engineers := Function.update engineers b (engineers b).release
    releases := t.releases ++ [(o, b)] }

end Threads

/-- The backup that the replication loop has just passed, if its socket is left
and the request was an order. -/
def acknowledgedBy (p : ℤ) (c : Cluster) : List (ℤ × Release) :=
  match (c p).admin with
  | .replicating shipOrder req (i + 1) =>
    match (c p).server.factoriesRecord[i]? with
    | some f =>
      if 0 ≤ f.socket ∧ shipOrder.customerId ≠ -1 then [(f.factoryId, ⟨shipOrder, req.lastIndex⟩)]
      else []
    | none => []
  | _ => []

/-- The steps of the other servers that concern the primary's connections. -/
def Action.OfPeer (p : ℤ) : Action → Prop
  | .ifaTurn s .. => s ≠ p
  | .clientClose s => s ≠ p
  | .replicationClose s => s ≠ p
  | .crash s => s ≠ p
  | .restart s .. => s ≠ p
  | _ => False

instance (p : ℤ) (a : Action) : Decidable (a.OfPeer p) := by
  cases a <;> unfold Action.OfPeer <;> infer_instance

/-- One step of the threads of the primary `p`. A thread that needs the mutex has
to wait while the admin thread holds it. -/
def threadStep [Zlib] (p : ℤ) (t : Threads) : ThreadAction → Option Threads
  | .connect e => if (t.engineers e).pc = .absent then some (t.setPc e .receiving) else none
  | .request e makeOrder =>
    if (t.engineers e).pc = .receiving ∧ t.holdsMtx = false then some (t.received p e makeOrder)
    else none
  | .ship e =>
    match (t.engineers e).pc with
    | .shipping _ => some (t.setPc e .receiving)
    | _ => none
  | .hangUp e uninit =>
    if (t.engineers e).pc = .receiving then
      if (t.engineers e).sendLastCommittedIndex then
        if t.holdsMtx = false then some (t.engineerThreadSendCommitedIndex e uninit) else none
      else some { t.setPc e .closing with requests := t.requests ++ [.close e] }
    else none
  | .close e =>
    if (t.engineers e).pc = .closing then
      (step p t.cluster (.clientClose p)).map fun c => { t.setPc e .closed with cluster := c }
    else none
  | .fail e => if (t.engineers e).pc = .receiving then some (t.setPc e .failed) else none
  | .wake => if t.holdsMtx = false then some { t with holdsMtx := true } else none
  | .wait =>
    if t.holdsMtx = true ∧ t.handling = none ∧ t.adminThreadList = [] then
      some { t with holdsMtx := false }
    else none
  | .begin connect =>
    match t.holdsMtx, t.handling, t.adminThreadList, t.barrierList with
    | true, none, o :: orders, b :: barriers =>
      match (t.engineers o).frame with
      | some shipOrder =>
        (step p t.cluster (.begin shipOrder connect)).bind fun c =>
          if (c p).alive then
            some { t with
              cluster := c, adminThreadList := orders, barrierList := barriers,
              handling := some (o, b) }
          else none
      | none => none
    | _, _, _, _ => none
  | .replicate link =>
    match t.handling with
    | some _ =>
      (step p t.cluster (.replicate link)).map fun c =>
        { t with cluster := c, acknowledged := t.acknowledged ++ acknowledgedBy p c }
    | none => none
  | .finish =>
    match t.handling with
    | some (o, b) => (step p t.cluster .finish).map fun c => t.released p o b c
    | none => none
  | .peer a =>
    if a.OfPeer p then (step p t.cluster a).map fun c => { t with cluster := c } else none
  | .others d => some { t with cluster := Function.update d p (t.cluster p) }

def Threads.opened (c : Cluster) : Threads where
  cluster := c
  adminThreadList := []
  barrierList := []
  holdsMtx := false
  handling := none
  engineers _ := ⟨.absent, false⟩
  pushes := []
  releases := []
  replies := []
  requests := []
  acknowledged := []

inductive Threaded [Zlib] (p : ℤ) (t : Threads) : ThreadAction → Threads → Prop where
  | connect (e : ℕ) (hpc : (t.engineers e).pc = .absent) :
      Threaded p t (.connect e) (t.setPc e .receiving)
  | order (e : ℕ) (makeOrder : OrderInf) (hpc : (t.engineers e).pc = .receiving)
      (hfree : t.holdsMtx = false) (htype : makeOrder.requestType = 1) :
      Threaded p t (.request e makeOrder) (t.engineerThreadRobotDef e makeOrder)
  | read (e : ℕ) (makeOrder : OrderInf) (hpc : (t.engineers e).pc = .receiving)
      (hfree : t.holdsMtx = false) (htype : makeOrder.requestType = 2) :
      Threaded p t (.request e makeOrder) (t.engineerThreadReadDef p e makeOrder)
  | ignored (e : ℕ) (makeOrder : OrderInf) : Threaded p t (.request e makeOrder) t
  | ship (e : ℕ) (shipOrder : RobotInf) (hpc : (t.engineers e).pc = .shipping shipOrder) :
      Threaded p t (.ship e) (t.setPc e .receiving)
  | marker (e : ℕ) (uninit : RobotInf) (hpc : (t.engineers e).pc = .receiving)
      (hflag : (t.engineers e).sendLastCommittedIndex = true) (hfree : t.holdsMtx = false) :
      Threaded p t (.hangUp e uninit) (t.engineerThreadSendCommitedIndex e uninit)
  | noMarker (e : ℕ) (uninit : RobotInf) (hpc : (t.engineers e).pc = .receiving)
      (hflag : (t.engineers e).sendLastCommittedIndex = false) :
      Threaded p t (.hangUp e uninit)
        { t.setPc e .closing with requests := t.requests ++ [.close e] }
  | close (e : ℕ) (c : Cluster) (hpc : (t.engineers e).pc = .closing)
      (hstep : step p t.cluster (.clientClose p) = some c) :
      Threaded p t (.close e) { t.setPc e .closed with cluster := c }
  | fail (e : ℕ) (hpc : (t.engineers e).pc = .receiving) :
      Threaded p t (.fail e) (t.setPc e .failed)
  | wake (hfree : t.holdsMtx = false) : Threaded p t .wake { t with holdsMtx := true }
  | wait (hholds : t.holdsMtx = true) (hidle : t.handling = none)
      (hempty : t.adminThreadList = []) : Threaded p t .wait { t with holdsMtx := false }
  | begin (connect : ℤ → ℤ) (o b : ℕ) (orders barriers : List ℕ) (shipOrder : RobotInf)
      (c : Cluster) (hholds : t.holdsMtx = true) (hidle : t.handling = none)
      (horders : t.adminThreadList = o :: orders) (hbarriers : t.barrierList = b :: barriers)
      (hframe : (t.engineers o).frame = some shipOrder)
      (hstep : step p t.cluster (.begin shipOrder connect) = some c)
      (halive : (c p).alive = true) : Threaded p t (.begin connect) { t with
        cluster := c, adminThreadList := orders, barrierList := barriers,
        handling := some (o, b) }
  | replicate (link : Link) (o b : ℕ) (c : Cluster) (hhandling : t.handling = some (o, b))
      (hstep : step p t.cluster (.replicate link) = some c) :
      Threaded p t (.replicate link)
        { t with cluster := c, acknowledged := t.acknowledged ++ acknowledgedBy p c }
  | finish (o b : ℕ) (c : Cluster) (hhandling : t.handling = some (o, b))
      (hstep : step p t.cluster .finish = some c) :
      Threaded p t .finish (t.released p o b c)
  | peer (a : Action) (c : Cluster) (hpeer : a.OfPeer p) (hstep : step p t.cluster a = some c) :
      Threaded p t (.peer a) { t with cluster := c }
  | others (d : Cluster) :
      Threaded p t (.others d) { t with cluster := Function.update d p (t.cluster p) }

/-- The inversion of `threadStep`. -/
theorem threadStep_cases [Zlib] {p : ℤ} {t t' : Threads} {a : ThreadAction}
    (h : threadStep p t a = some t') : Threaded p t a t' := by
  cases a with
  | connect e =>
    simp only [threadStep, Option.ite_none_right_eq_some, Option.some.injEq] at h
    obtain ⟨hpc, rfl⟩ := h
    exact .connect e hpc
  | request e makeOrder =>
    simp only [threadStep, Option.ite_none_right_eq_some, Option.some.injEq] at h
    obtain ⟨⟨hpc, hfree⟩, rfl⟩ := h
    unfold Threads.received
    split_ifs with horder hread
    · exact .order e makeOrder hpc hfree horder
    · exact .read e makeOrder hpc hfree hread
    · exact .ignored e makeOrder
  | ship e =>
    cases hpc : (t.engineers e).pc <;> simp [threadStep, hpc] at h
    subst h
    exact .ship e _ hpc
  | hangUp e uninit =>
    simp only [threadStep, Option.ite_none_right_eq_some] at h
    obtain ⟨hpc, h⟩ := h
    split_ifs at h with hflag hfree
    · cases h
      exact .marker e uninit hpc hflag hfree
    · cases h
      exact .noMarker e uninit hpc (by simpa using hflag)
  | close e =>
    simp only [threadStep, Option.ite_none_right_eq_some, Option.map_eq_some_iff] at h
    obtain ⟨hpc, c, hstep, rfl⟩ := h
    exact .close e c hpc hstep
  | fail e =>
    simp only [threadStep, Option.ite_none_right_eq_some, Option.some.injEq] at h
    obtain ⟨hpc, rfl⟩ := h
    exact .fail e hpc
  | wake =>
    simp only [threadStep, Option.ite_none_right_eq_some, Option.some.injEq] at h
    obtain ⟨hfree, rfl⟩ := h
    exact .wake hfree
  | wait =>
    simp only [threadStep, Option.ite_none_right_eq_some, Option.some.injEq] at h
    obtain ⟨⟨hholds, hidle, hempty⟩, rfl⟩ := h
    exact .wait hholds hidle hempty
  | begin connect =>
    simp only [threadStep] at h
    split at h
    · rename_i o orders b barriers hholds hidle horders hbarriers
      split at h
      · rename_i shipOrder hframe
        obtain ⟨c, hstep, h⟩ := Option.bind_eq_some_iff.mp h
        obtain ⟨halive, h⟩ := Option.ite_none_right_eq_some.mp h
        cases h
        exact .begin connect o b orders barriers shipOrder c hholds hidle horders hbarriers hframe
          hstep halive
      · cases h
    · cases h
  | replicate link =>
    simp only [threadStep] at h
    split at h
    · rename_i x hhandling
      obtain ⟨c, hstep, rfl⟩ := Option.map_eq_some_iff.mp h
      exact .replicate link x.1 x.2 c hhandling hstep
    · cases h
  | finish =>
    simp only [threadStep] at h
    split at h
    · rename_i o b hhandling
      obtain ⟨c, hstep, rfl⟩ := Option.map_eq_some_iff.mp h
      exact .finish o b c hhandling hstep
    · cases h
  | peer a =>
    simp only [threadStep, Option.ite_none_right_eq_some, Option.map_eq_some_iff] at h
    obtain ⟨hpeer, c, hstep, rfl⟩ := h
    exact .peer a c hpeer hstep
  | others d =>
    cases h
    exact .others d

section Primary

theorem replicate_primary [Zlib] {p : ℤ} {c c' : Cluster} {link : Link}
    (h : step p c (.replicate link) = some c') : ∃ shipOrder req i f kept stale,
      (c p).admin = .replicating shipOrder req i ∧ (c p).server.factoriesRecord[i]? = some f ∧
      c' p = (c p).afterPeer shipOrder req i f kept stale := by
  cases step_cases h with
  | skipped _ shipOrder req i f _ hadmin hf =>
    exact ⟨shipOrder, req, i, f, _, _, hadmin, hf, Function.update_self ..⟩
  | exchanged _ shipOrder req i f _ hadmin hf =>
    exact ⟨shipOrder, req, i, f, _, _, hadmin, hf, Function.update_self ..⟩
  | unanswered _ shipOrder req i f _ hadmin hf =>
    exact ⟨shipOrder, req, i, f, _, _, hadmin, hf, Function.update_self ..⟩

theorem peer_primary [Zlib] {p : ℤ} {c c' : Cluster} {a : Action} (hpeer : a.OfPeer p)
    (h : step p c a = some c') : c' p = c p := by
  cases step_cases h with
  | ifaTurn s => exact Function.update_of_ne (Ne.symm hpeer) ..
  | clientClose s => exact Function.update_of_ne (Ne.symm hpeer) ..
  | replicationClose s => exact Function.update_of_ne (Ne.symm hpeer) ..
  | crash s => exact Function.update_of_ne (Ne.symm hpeer) ..
  | restart s => exact Function.update_of_ne (Ne.symm hpeer) ..
  | _ => exact hpeer.elim

end Primary

/-- The primary leads its backups, the admin thread is at the head of its loop
unless it has taken an order, and it holds the mutex while it has one. -/
structure Threads.Leads (p : ℤ) (t : Threads) : Prop where
  leads : (t.cluster p).Leads
  idle : t.handling = none → (t.cluster p).admin = .waiting
  parked : t.holdsMtx = false → t.handling = none

namespace Threads.Leads

theorem opened [Zlib] {p : ℤ} {c : Cluster} (h : Fresh c) : (Threads.opened c).Leads p where
  leads := by
    have hblank := h.blank p
    refine ⟨.waiting hblank.sound (h.waiting p), ?_, ?_, ?_⟩
    · change (c p).server.lastIndex = ((c p).server.smrLog.length : ℤ) - 1
      rw [hblank.last_eq, hblank.log_eq]
      rfl
    · exact fun _ => hblank.committed_eq.trans hblank.last_eq.symm
    · intro r hr
      change r ∈ (c p).released at hr
      rw [h.released p] at hr
      cases hr
  idle _ := h.waiting p
  parked _ := rfl

theorem step [Zlib] {p : ℤ} {t t' : Threads} {a : ThreadAction} (h : t.Leads p)
    (hstep : threadStep p t a = some t') : t'.Leads p := by
  cases threadStep_cases hstep with
  | connect | ignored | ship | fail | noMarker => exact ⟨h.leads, h.idle, h.parked⟩
  | order | read | marker => exact ⟨h.leads, h.idle, h.parked⟩
  | close e c _ hc =>
    cases step_cases hc
    refine ⟨?_, ?_, h.parked⟩ <;> simp only [Function.update_self]
    · exact h.leads.clientClosed
    · exact h.idle
  | wake => exact ⟨h.leads, h.idle, fun hfalse => by cases hfalse⟩
  | wait _ hidle => exact ⟨h.leads, h.idle, fun _ => hidle⟩
  | begin connect o b orders barriers shipOrder c hholds hidle _ _ _ hc halive =>
    cases step_cases hc with
    | begin _ _ _ hadmin =>
      rw [Function.update_self] at halive
      obtain ⟨s', hnode, -, hleads⟩ := h.leads.begun hadmin halive
      refine ⟨?_, fun hnone => (by cases hnone), fun hfree => ?_⟩
      · simp only [Function.update_self]
        exact hleads
      · simp only [hholds] at hfree
        cases hfree
  | replicate link o b c hhandling hc =>
    obtain ⟨shipOrder, req, i, f, kept, stale, hadmin, -, hp⟩ := replicate_primary hc
    refine ⟨?_, fun hnone => ?_, h.parked⟩
    · simp only [hp]
      exact h.leads.afterPeer hadmin f kept stale
    · simp only [hhandling] at hnone
      cases hnone
  | finish o b c _ hc =>
    cases step_cases hc with
    | finish shipOrder req i _ hadmin =>
      refine ⟨?_, fun _ => ?_, fun _ => rfl⟩ <;>
        simp only [Threads.released, Function.update_self]
      · exact h.leads.finish hadmin
      · rfl
  | peer a c hpeer hc =>
    have hp := peer_primary hpeer hc
    refine ⟨?_, ?_, h.parked⟩ <;> simp only [hp]
    · exact h.leads
    · exact h.idle
  | others d =>
    refine ⟨?_, ?_, h.parked⟩ <;> simp only [Function.update_self]
    · exact h.leads
    · exact h.idle

end Threads.Leads

def requestOf7 (orderNumber : Int32) : OrderInf := ⟨7, orderNumber, 1⟩

end RobotFactory
