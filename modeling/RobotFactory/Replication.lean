import RobotFactory.Server

/-!
# Servers connected by replication

One exchange between the replication loop of `admin_thread` and the thread of a
backup that serves the connection, and the system made of all servers. The
primary waits for each backup in turn, so an exchange is one step. What happens
to each call on the connection is given by a `Link`; every combination of
outcomes is allowed, which includes a connection lost at any point. The threads
of a backup also take turns that no exchange waits for: on requests that come
late, and on bytes that an earlier turn has left unread.
-/
namespace RobotFactory

/-- Outcome of a call that reads a message: it arrives whole; `recv` returns fewer
bytes, none of them at the end of the stream, which `check` takes for success, and
the rest of the object is what its buffer held; or the call returns -1. After a
short call the `rest` of the message may still arrive. -/
inductive Recv (α : Type) where
  | message
  | short (junk : α) (rest : Bool)
  | failure
  deriving DecidableEq, Repr

namespace Recv

variable {α : Type}

/-- The value a call returns when the peer sent `sent`, `none` for -1. Where the
peer sends nothing the wait ends with the loss of the connection. -/
def read (outcome : Recv α) (sent : Option α) : Option α :=
  match outcome with
  | .message => sent
  | .short junk _ => some junk
  | .failure => none

/-- A part of the message is left in the stream. -/
def rest : Recv α → Bool
  | .short _ rest => rest
  | _ => false

end Recv

/-- Outcomes of the calls of one exchange, in the order in which they are made; a
request that is sent but not handled in the exchange counts as not sent. The last
three are what the primary reads as acknowledgements and as a committed index when
the connection is out of step. -/
structure Link where
  sendRequest : Bool
  recvRequest : Recv ReplReq
  sendRecoveryAck : Bool
  recvAck : Recv ℤ
  recvIndex : Recv ℤ
  sendEntry : ℕ → Bool
  recvEntry : ℕ → Recv MapOp
  sendAck : Bool
  recvReack : Recv ℤ
  strayAck : Option ℤ
  strayIndex : Option ℤ
  strayReack : Option ℤ

namespace Link

/-- The entries that `SendRecoveryLog` puts on the connection, given the first
acknowledgement and the committed index that the backup sent. -/
def entriesSent (link : Link) (smrLog : List MapOp) (ack index : Option ℤ) : List MapOp :=
  if link.recvAck.read ack = some 2 then
    (sendRecoveryLog (link.recvIndex.read index) link.sendEntry smrLog).1
  else []

/-- The replication loop from `GetReplicationAck` on: does the socket stay? The
arguments are what the backup sent as first acknowledgement, as committed index
and as second acknowledgement. -/
def acknowledged (link : Link) (smrLog : List MapOp) (ack index reack : Option ℤ) : Bool :=
  match link.recvAck.read ack with
  | none => false
  | some isSuccess =>
    if isSuccess = 2 then
      (sendRecoveryLog (link.recvIndex.read index) link.sendEntry smrLog).2 &&
        link.recvReack.read reack = some 1
    else isSuccess = 1

/-- The stub calls of the backup, when the primary has sent `req` and holds `smrLog`. -/
def ifaStub (link : Link) (req : ReplReq) (smrLog : List MapOp) (backup : Server) : IfaStub where
  getReplicationRequest := link.recvRequest.read (some req)
  recoveryAck := link.sendRecoveryAck
  recvEntry k :=
    (link.recvEntry k).read ((link.entriesSent smrLog (some 2) (some backup.committedIndex))[k]?)

/-- The number of entries the backup reads in a recovery it has announced with
the acknowledgement 2; `none` when it announces none. -/
def recoveryCount (link : Link) (req : ReplReq) (smrLog : List MapOp) (backup : Server) :
    Option ℕ :=
  match (link.ifaStub req smrLog backup).getReplicationRequest with
  | none => none
  | some received =>
    if backup.needsRecovery received && link.sendRecoveryAck then
      some (received.lastIndex - backup.lastIndex).toNat
    else none

/-- Are bytes left unread on the connection, when the backup has read `count` entries? -/
def leftUnread (link : Link) (smrLog : List MapOp) (ack index : Option ℤ) (count : ℕ) : Bool :=
  link.recvRequest.rest || link.recvAck.rest ||
    (decide (link.recvAck.read ack = some 2) && (link.recvIndex.rest || link.recvReack.rest)) ||
    (List.range count).any (fun k => (link.recvEntry k).rest) ||
    decide (count < (link.entriesSent smrLog ack index).length)

end Link

/-- One turn of `ifa_thread_body`. -/
def Server.ifaThreadTurn [Zlib] (sendAck : Bool) (ifa : IfaStub) (s : Server) :
    Except Fault Server := do
  let s ← s.ifaThreadRead ifa
  return if sendAck then s else { s with smrReplCommit.primaryId := -1 }

/-- The effect of an exchange: the backup afterwards, whether the primary keeps
its socket, and whether bytes are left unread on it. -/
@[ext] structure Exchange where
  backup : Except Fault Server
  kept : Bool
  stale : Bool

/-- The acknowledgement 1 of `ifa_thread_body`, sent whenever the thread has survived. -/
def finalAck (link : Link) (after : Except Fault Server) : Option ℤ :=
  if after.toBool && link.sendAck then some 1 else none

/-- Exchange with a live backup. On a connection with unread bytes the backup's thread
does not wait for this request, and the primary reads what its other turns have sent. -/
def exchange [Zlib] (link : Link) (stale : Bool) (req : ReplReq) (smrLog : List MapOp)
    (backup : Server) : Exchange :=
  if link.sendRequest then
    if stale then
      ⟨.ok backup, link.acknowledged smrLog link.strayAck link.strayIndex link.strayReack, true⟩
    else
      let after := backup.ifaThreadTurn link.sendAck (link.ifaStub req smrLog backup)
      match link.recoveryCount req smrLog backup with
      | none =>
        ⟨after, link.acknowledged smrLog (finalAck link after) none none,
          link.leftUnread smrLog (finalAck link after) none 0⟩
      | some count =>
        let index := some backup.committedIndex
        ⟨after, link.acknowledged smrLog (some 2) index (finalAck link after),
          link.leftUnread smrLog (some 2) index count⟩
  else ⟨.ok backup, false, stale⟩

/-- Exchange with a process that is gone: nothing is answered. -/
def exchangeWithDead (link : Link) (smrLog : List MapOp) : Bool :=
  link.sendRequest && link.acknowledged smrLog none none none

/-- Where the admin thread of a server stands: waiting on its queue, or before
the `i`-th turn of the replication loop. -/
inductive AdminPc where
  | waiting
  | replicating (shipOrder : RobotInf) (req : ReplReq) (i : ℕ)

/-- A released barrier: the order and the index its entry was given. -/
structure Release where
  robot : RobotInf
  index : ℤ
  deriving DecidableEq, Repr

/-- A server process. `stale` marks the peers whose connection holds unread bytes. -/
structure Node where
  server : Server
  admin : AdminPc
  alive : Bool
  stale : ℤ → Bool
  released : List Release

abbrev Cluster := ℤ → Node

/-- What holds of all servers still does after a change of one, if it holds of that one. -/
theorem Cluster.update_all (P : ℤ → Node → Prop) {c : Cluster} {s : ℤ} {n : Node}
    (h : ∀ t, P t (c t)) (hn : P s n) (t : ℤ) : P t (Function.update c s n t) :=
  (Function.forall_update_iff c P).mpr ⟨hn, fun u _ => h u⟩ t

/-- Steps of the system while a given server acts as primary: the three parts of
an iteration of its admin thread, a turn of `ifa_thread_body` that no exchange waits
for, a client that closes its connection to a server, a backup that sees the end of a
replication connection, and the crash and restart of a process. The request of such a
turn was sent by a primary that has died or given the connection up, is made of bytes
that are left unread, or comes from any other process. -/
inductive Action where
  | begin (shipOrder : RobotInf) (connect : ℤ → ℤ)
  | replicate (link : Link)
  | finish
  | ifaTurn (s : ℤ) (ifa : IfaStub) (sendAck : Bool)
  | clientClose (s : ℤ)
  | replicationClose (s : ℤ)
  | crash (s : ℤ)
  | restart (s : ℤ) (file : List UInt8) (uninit : ℕ → Int32) (replies : List PeerReply)

namespace Node

/-- The rechecks and the logging of the next order. -/
def beginIteration [Zlib] (n : Node) (shipOrder : RobotInf) (connect : ℤ → ℤ) : Node :=
  match n.server.adminRecheck connect >>= Server.adminAppend shipOrder with
  | .error _ => { n with alive := false }
  | .ok s => { n with server := s, admin := .replicating shipOrder (s.sendReq shipOrder) 0 }

/-- The next turn of the replication loop, after the `i`-th peer `f` was served. -/
def afterPeer (n : Node) (shipOrder : RobotInf) (req : ReplReq) (i : ℕ) (f : FactoryRec)
    (kept stale : Bool) : Node :=
  { n with
    server := { n.server with
      factoriesRecord :=
        if kept then n.server.factoriesRecord
        else n.server.factoriesRecord.set i { f with socket := -1 } }
    admin := .replicating shipOrder req (i + 1)
    stale := Function.update n.stale f.factoryId (kept && stale) }

/-- A backup after an exchange; a fault ends the process. -/
def afterExchange (n : Node) (backup : Except Fault Server) : Node :=
  match backup with
  | .ok s => { n with server := s }
  | .error _ => { n with alive := false }

/-- The commit and the release of the barrier. -/
def finishIteration (n : Node) (shipOrder : RobotInf) (req : ReplReq) : Node :=
  let robot := if shipOrder.customerId ≠ -1 then
      { shipOrder with adminId := Int32.ofInt (n.server.myFactoryId + 100) }
    else shipOrder
  { n with
    server := n.server.adminCommit shipOrder
    admin := .waiting
    released := n.released ++ [⟨robot, req.lastIndex⟩] }

/-- The close path of `engineer_thread_body`. -/
def clientClosed (n : Node) : Node :=
  { n with server := { n.server with
      clog := if walEnabled then n.server.clog.sync else n.server.clog
      recheckAllow := true } }

def replicationClosed (n : Node) : Node :=
  { n with server := { n.server with smrReplCommit.primaryId := -1 } }

/-- A new process on whatever the crash left in its log file. -/
def restarted [Zlib] (n : Node) (file : List UInt8) (uninit : ℕ → Int32)
    (replies : List PeerReply) : Option Node :=
  let factories := n.server.factoriesRecord.map fun f => { f with socket := -1 }
  match Server.start n.server.myFactoryId factories file uninit replies with
  | .error _ => none
  | .ok s => some { n with server := s, admin := .waiting, alive := true, stale := fun _ => false }

end Node

/-- One turn of the replication loop of `p`, for the peer `f` at position `i`. A
live peer answers only while its own mutex is free. -/
def replicateTo [Zlib] (p : ℤ) (c : Cluster) (link : Link) (shipOrder : RobotInf) (req : ReplReq)
    (i : ℕ) (f : FactoryRec) : Option Cluster :=
  if f.socket < 0 then
    some (Function.update c p ((c p).afterPeer shipOrder req i f true ((c p).stale f.factoryId)))
  else if (c f.factoryId).alive then
    match (c f.factoryId).admin with
    | .replicating .. => none
    | .waiting =>
      let result := exchange link ((c p).stale f.factoryId) req (c p).server.smrLog
        (c f.factoryId).server
      some (Function.update
        (Function.update c f.factoryId ((c f.factoryId).afterExchange result.backup))
        p ((c p).afterPeer shipOrder req i f result.kept result.stale))
  else
    some (Function.update c p ((c p).afterPeer shipOrder req i f
      (exchangeWithDead link (c p).server.smrLog) ((c p).stale f.factoryId)))

/-- One step of the system in which `p` acts as primary. -/
def step [Zlib] (p : ℤ) (c : Cluster) : Action → Option Cluster
  | .begin shipOrder connect =>
    match (c p).alive, (c p).admin with
    | true, .waiting => some (Function.update c p ((c p).beginIteration shipOrder connect))
    | _, _ => none
  | .replicate link =>
    match (c p).alive, (c p).admin with
    | true, .replicating shipOrder req i =>
      match (c p).server.factoriesRecord[i]? with
      | none => none
      | some f => replicateTo p c link shipOrder req i f
    | _, _ => none
  | .finish =>
    match (c p).alive, (c p).admin with
    | true, .replicating shipOrder req i =>
      if (c p).server.factoriesRecord.length ≤ i then
        some (Function.update c p ((c p).finishIteration shipOrder req))
      else none
    | _, _ => none
  | .ifaTurn s ifa sendAck =>
    match (c s).alive, (c s).admin with
    | true, .waiting => some (Function.update c s
        ((c s).afterExchange ((c s).server.ifaThreadTurn sendAck ifa)))
    | _, _ => none
  | .clientClose s => if (c s).alive then some (Function.update c s (c s).clientClosed) else none
  | .replicationClose s =>
    if (c s).alive then some (Function.update c s (c s).replicationClosed) else none
  | .crash s =>
    if (c s).alive then some (Function.update c s { c s with alive := false }) else none
  | .restart s file uninit replies =>
    if (c s).alive then none
    else ((c s).restarted file uninit replies).map (Function.update c s)

inductive Stepped [Zlib] (p : ℤ) (c : Cluster) : Action → Cluster → Prop where
  | begin (shipOrder : RobotInf) (connect : ℤ → ℤ)
      (halive : (c p).alive = true) (hadmin : (c p).admin = .waiting) :
      Stepped p c (.begin shipOrder connect)
        (Function.update c p ((c p).beginIteration shipOrder connect))
  | skipped (link : Link) (shipOrder : RobotInf) (req : ReplReq) (i : ℕ) (f : FactoryRec)
      (halive : (c p).alive = true) (hadmin : (c p).admin = .replicating shipOrder req i)
      (hf : (c p).server.factoriesRecord[i]? = some f) (hsocket : f.socket < 0) :
      Stepped p c (.replicate link) (Function.update c p
        ((c p).afterPeer shipOrder req i f true ((c p).stale f.factoryId)))
  | exchanged (link : Link) (shipOrder : RobotInf) (req : ReplReq) (i : ℕ) (f : FactoryRec)
      (halive : (c p).alive = true) (hadmin : (c p).admin = .replicating shipOrder req i)
      (hf : (c p).server.factoriesRecord[i]? = some f) (hsocket : 0 ≤ f.socket)
      (hpeer : (c f.factoryId).alive = true) (hfree : (c f.factoryId).admin = .waiting)
      (hne : f.factoryId ≠ p) (result : Exchange)
      (hresult : exchange link ((c p).stale f.factoryId) req (c p).server.smrLog
        (c f.factoryId).server = result) :
      Stepped p c (.replicate link) (Function.update
        (Function.update c f.factoryId ((c f.factoryId).afterExchange result.backup))
        p ((c p).afterPeer shipOrder req i f result.kept result.stale))
  | unanswered (link : Link) (shipOrder : RobotInf) (req : ReplReq) (i : ℕ) (f : FactoryRec)
      (halive : (c p).alive = true) (hadmin : (c p).admin = .replicating shipOrder req i)
      (hf : (c p).server.factoriesRecord[i]? = some f) (hsocket : 0 ≤ f.socket)
      (hpeer : (c f.factoryId).alive = false) :
      Stepped p c (.replicate link) (Function.update c p ((c p).afterPeer shipOrder req i f
        (exchangeWithDead link (c p).server.smrLog) ((c p).stale f.factoryId)))
  | finish (shipOrder : RobotInf) (req : ReplReq) (i : ℕ)
      (halive : (c p).alive = true) (hadmin : (c p).admin = .replicating shipOrder req i)
      (hlen : (c p).server.factoriesRecord.length ≤ i) :
      Stepped p c .finish (Function.update c p ((c p).finishIteration shipOrder req))
  | ifaTurn (s : ℤ) (ifa : IfaStub) (sendAck : Bool) (halive : (c s).alive = true)
      (hfree : (c s).admin = .waiting) :
      Stepped p c (.ifaTurn s ifa sendAck) (Function.update c s
        ((c s).afterExchange ((c s).server.ifaThreadTurn sendAck ifa)))
  | clientClose (s : ℤ) (halive : (c s).alive = true) :
      Stepped p c (.clientClose s) (Function.update c s (c s).clientClosed)
  | replicationClose (s : ℤ) (halive : (c s).alive = true) :
      Stepped p c (.replicationClose s) (Function.update c s (c s).replicationClosed)
  | crash (s : ℤ) (halive : (c s).alive = true) :
      Stepped p c (.crash s) (Function.update c s { c s with alive := false })
  | restart (s : ℤ) (file : List UInt8) (uninit : ℕ → Int32) (replies : List PeerReply) (n : Node)
      (hdead : (c s).alive = false) (hn : (c s).restarted file uninit replies = some n) :
      Stepped p c (.restart s file uninit replies) (Function.update c s n)

theorem replicateTo_cases [Zlib] {p : ℤ} {c c' : Cluster} {link : Link} {shipOrder : RobotInf}
    {req : ReplReq} {i : ℕ} {f : FactoryRec} (halive : (c p).alive = true)
    (hadmin : (c p).admin = .replicating shipOrder req i)
    (hf : (c p).server.factoriesRecord[i]? = some f)
    (h : replicateTo p c link shipOrder req i f = some c') :
    Stepped p c (.replicate link) c' := by
  unfold replicateTo at h
  split_ifs at h with hsocket hpeer
  · cases h
    exact .skipped link shipOrder req i f halive hadmin hf hsocket
  · cases hfree : (c f.factoryId).admin with
    | replicating => simp [hfree] at h
    | waiting =>
      have hne : f.factoryId ≠ p := by
        intro heq
        rw [heq, hadmin] at hfree
        cases hfree
      simp only [hfree] at h
      cases h
      exact .exchanged link shipOrder req i f halive hadmin hf (by omega) hpeer hfree hne _ rfl
  · cases h
    exact .unanswered link shipOrder req i f halive hadmin hf (by omega) (by simpa using hpeer)

/-- The inversion of `step`. -/
theorem step_cases [Zlib] {p : ℤ} {c c' : Cluster} {a : Action} (h : step p c a = some c') :
    Stepped p c a c' := by
  cases a with
  | begin shipOrder connect =>
    cases halive : (c p).alive <;> cases hadmin : (c p).admin <;> simp [step, halive, hadmin] at h
    subst h
    exact .begin shipOrder connect halive hadmin
  | replicate link =>
    cases halive : (c p).alive with
    | false => simp [step, halive] at h
    | true =>
      cases hadmin : (c p).admin with
      | waiting => simp [step, halive, hadmin] at h
      | replicating shipOrder req i =>
        cases hf : (c p).server.factoriesRecord[i]? with
        | none => simp [step, halive, hadmin, hf] at h
        | some f =>
          simp only [step, halive, hadmin, hf] at h
          exact replicateTo_cases halive hadmin hf h
  | finish =>
    cases halive : (c p).alive with
    | false => simp [step, halive] at h
    | true =>
      cases hadmin : (c p).admin with
      | waiting => simp [step, halive, hadmin] at h
      | replicating shipOrder req i =>
        simp only [step, halive, hadmin, Option.ite_none_right_eq_some, Option.some.injEq] at h
        obtain ⟨hlen, rfl⟩ := h
        exact .finish shipOrder req i halive hadmin hlen
  | ifaTurn s ifa sendAck =>
    cases halive : (c s).alive <;> cases hfree : (c s).admin <;> simp [step, halive, hfree] at h
    subst h
    exact .ifaTurn s ifa sendAck halive hfree
  | clientClose s =>
    simp only [step, Option.ite_none_right_eq_some, Option.some.injEq] at h
    obtain ⟨halive, rfl⟩ := h
    exact .clientClose s halive
  | replicationClose s =>
    simp only [step, Option.ite_none_right_eq_some, Option.some.injEq] at h
    obtain ⟨halive, rfl⟩ := h
    exact .replicationClose s halive
  | crash s =>
    simp only [step, Option.ite_none_right_eq_some, Option.some.injEq] at h
    obtain ⟨halive, rfl⟩ := h
    exact .crash s halive
  | restart s file uninit replies =>
    simp only [step, Option.ite_none_left_eq_some, Option.map_eq_some_iff] at h
    obtain ⟨hdead, n, hn, rfl⟩ := h
    exact .restart s file uninit replies n (by simpa using hdead) hn

/-- Every such transition is a step. -/
theorem Stepped.step [Zlib] {p : ℤ} {c c' : Cluster} {a : Action} (h : Stepped p c a c') :
    RobotFactory.step p c a = some c' := by
  cases h with
  | begin shipOrder connect halive hadmin => simp only [RobotFactory.step, halive, hadmin]
  | skipped _ _ _ _ _ halive hadmin hf hsocket =>
    simp only [RobotFactory.step, halive, hadmin, hf, replicateTo, if_pos hsocket]
  | exchanged _ _ _ _ _ halive hadmin hf hsocket hpeer hfree _ _ hresult =>
    simp only [RobotFactory.step, halive, hadmin, hf, replicateTo, if_neg (not_lt.mpr hsocket),
      if_pos hpeer, hfree, hresult]
  | unanswered _ _ _ _ _ halive hadmin hf hsocket hpeer =>
    simp only [RobotFactory.step, halive, hadmin, hf, replicateTo, if_neg (not_lt.mpr hsocket),
      hpeer, Bool.false_eq_true, if_false]
  | finish _ _ _ halive hadmin hlen => simp only [RobotFactory.step, halive, hadmin, if_pos hlen]
  | ifaTurn _ _ _ halive hfree => simp only [RobotFactory.step, halive, hfree]
  | clientClose _ halive | replicationClose _ halive | crash _ halive => exact if_pos halive
  | restart _ _ _ _ _ hdead hn =>
    simp only [RobotFactory.step, hdead, Bool.false_eq_true, if_false, hn, Option.map_some]

/-- `P` holds of the request and the backup of the exchange that `p` is about to
make with a live peer. -/
def NextExchange (p : ℤ) (c : Cluster) (P : ReplReq → Server → Prop) : Prop :=
  ∀ shipOrder req i f, (c p).admin = .replicating shipOrder req i →
    (c p).server.factoriesRecord[i]? = some f → 0 ≤ f.socket → (c f.factoryId).alive = true →
    P req (c f.factoryId).server

/-- Every request that a thread of a live server handles in the step satisfies `P`, given
the calls of that thread and the server. -/
def NextHandled (p : ℤ) (c : Cluster) (P : IfaStub → ReplReq → Server → Prop) : Action → Prop
  | .replicate link => ∀ shipOrder req i f received, (c p).admin = .replicating shipOrder req i →
      (c p).server.factoriesRecord[i]? = some f → 0 ≤ f.socket → (c f.factoryId).alive = true →
      (c p).stale f.factoryId = false → link.sendRequest = true →
      (link.ifaStub req (c p).server.smrLog (c f.factoryId).server).getReplicationRequest =
        some received →
      P (link.ifaStub req (c p).server.smrLog (c f.factoryId).server) received
        (c f.factoryId).server
  | .ifaTurn s ifa _ => ∀ received, ifa.getReplicationRequest = some received →
      P ifa received (c s).server
  | _ => True

theorem NextHandled.imp {p : ℤ} {c : Cluster} {P Q : IfaStub → ReplReq → Server → Prop}
    {a : Action} (h : NextHandled p c P a)
    (himp : ∀ ifa req s, ifa.getReplicationRequest = some req → P ifa req (c s).server →
      Q ifa req (c s).server) : NextHandled p c Q a := by
  cases a with
  | replicate link =>
    intro shipOrder req i f received hadmin hf hsocket halive hstale hsend hreq
    exact himp _ _ _ hreq (h shipOrder req i f received hadmin hf hsocket halive hstale hsend hreq)
  | ifaTurn s ifa sendAck => exact fun received hreq => himp _ _ _ hreq (h received hreq)
  | _ => trivial

theorem NextExchange.of_peer {p : ℤ} {c : Cluster} {P : ReplReq → Server → Prop}
    {shipOrder : RobotInf} {req : ReplReq} {i : ℕ} {f : FactoryRec}
    (hadmin : (c p).admin = .replicating shipOrder req i)
    (hf : (c p).server.factoriesRecord[i]? = some f)
    (h : 0 ≤ f.socket → P req (c f.factoryId).server) : NextExchange p c P := by
  intro o r j g hadmin' hg hsocket _
  rw [hadmin] at hadmin'
  cases hadmin'
  rw [hf] at hg
  cases hg
  exact h hsocket

end RobotFactory
