import RobotFactory.Primary

/-!
# Servers that replicate to each other

Every server has an admin thread, and an IFA thread for each connection on which
another server replicates to it. Both need `mtx`: the admin thread holds it from the
moment it wakes up until its queue is empty, with all sends and receives in between,
and an IFA thread from its first `recv` of a request until the request is handled.
Messages wait in the connections until they are read. The thread of a connection that
the other side has given up goes on with what is unread there. A server on which a
thread leaves the defined behaviour of C++ stops.
-/
namespace RobotFactory

/-- Twelve bytes on the way to a backup: the first half of a request, or a `map_op`. -/
inductive Packet where
  | indices (factoryId committedIndex lastIndex : ℤ)
  | mapop (op : MapOp)
  deriving DecidableEq, Repr

def ReplReq.packets (req : ReplReq) : List Packet :=
  [.indices req.factoryId req.committedIndex req.lastIndex, .mapop req.mapopRecord]

/-- `recv` of a request; `misread` is what other bytes are taken for. -/
def recvRequest (misread : ReplReq) : List Packet → ReplReq
  | .indices factoryId committedIndex lastIndex :: .mapop op :: _ =>
    ⟨factoryId, committedIndex, lastIndex, op⟩
  | _ => misread

/-- `recv` of a `map_op`. -/
def recvMapop (misread : MapOp) : Packet → MapOp
  | .mapop op => op
  | .indices .. => misread

/-- A connection on which `primary` replicates to `backup`, by its socket at `primary`.
No socket is used twice: one that is given up is never closed. -/
structure Connection where
  primary : ℤ
  backup : ℤ
  socket : ℤ
  deriving DecidableEq, Repr

/-- The connection of a server `s` to a peer. -/
def FactoryRec.connection (s : ℤ) (f : FactoryRec) : Connection := ⟨s, f.factoryId, f.socket⟩

/-- The threads that lock `mtx` for longer than a push. -/
inductive Owner where
  | admin
  | ifa (conn : Connection)
  deriving DecidableEq, Repr

/-- Where an admin thread stands: waiting for its condition variable, at the head
of its loop, before the `i`-th turn of the replication loop, and in this turn
before the first acknowledgement, the committed index, and the second one. -/
inductive AdminThread where
  | waiting
  | awake
  | turn (shipOrder : RobotInf) (req : ReplReq) (i : ℕ)
  | getAck (shipOrder : RobotInf) (req : ReplReq) (i : ℕ)
  | sendLog (shipOrder : RobotInf) (req : ReplReq) (i : ℕ)
  | getReack (shipOrder : RobotInf) (req : ReplReq) (i : ℕ)
  deriving DecidableEq, Repr

/-- Where an IFA thread stands: in the `recv` with `MSG_PEEK`, before the lock of
`ifa_thread_read`, inside it with a request, or before the acknowledgement. -/
inductive IfaThread where
  | peeking
  | locking
  | reading (req : ReplReq)
  | acking
  deriving DecidableEq, Repr

structure Process where
  server : Server
  alive : Bool
  mtx : Option Owner
  admin : AdminThread
  adminThreadList : List RobotInf
  ifa : Connection → IfaThread

/-- The servers, and what is unread on each connection: packets of the admin thread, and
integers of the IFA thread, which are all that acknowledgements and committed indices
consist of. -/
structure Mesh where
  procs : ℤ → Process
  toIfa : Connection → List Packet
  toAdmin : Connection → List ℤ

/-- Steps of the threads of a server `s`. `order` is the push of an engineer. -/
inductive MeshAction where
  | order (s : ℤ) (shipOrder : RobotInf)
  | clientClose (s : ℤ)
  | wake (s : ℤ)
  | wait (s : ℤ)
  | begin (s : ℤ) (connect : ℤ → ℤ)
  | send (s : ℤ)
  | getAck (s : ℤ)
  | sendLog (s : ℤ)
  | getReack (s : ℤ)
  | finish (s : ℤ)
  | peek (conn : Connection)
  | lock (conn : Connection) (misread : ReplReq)
  | read (conn : Connection) (misread : ℕ → MapOp)
  | ack (conn : Connection)

namespace Process

/-- The rechecks and the logging of the order in front. -/
def beginIteration [Zlib] (x : Process) (connect : ℤ → ℤ) (shipOrder : RobotInf)
    (rest : List RobotInf) : Process :=
  match x.server.adminRecheck connect >>= Server.adminAppend shipOrder with
  | .error _ => { x with alive := false }
  | .ok s => { x with
      server := s
      adminThreadList := rest
      admin := .turn shipOrder (s.sendReq shipOrder) 0 }

def acknowledged (x : Process) (shipOrder : RobotInf) (req : ReplReq) (i : ℕ) (isSuccess : ℤ) :
    Process :=
  { x with
    server := { x.server with
      factoriesRecord :=
        if isSuccess = 1 then x.server.factoriesRecord
        else x.server.factoriesRecord.modify i fun f => { f with socket := -1 } }
    admin := .turn shipOrder req (i + 1) }

/-- The first acknowledgement; 2 asks for the log. -/
def firstAck (x : Process) (shipOrder : RobotInf) (req : ReplReq) (i : ℕ) (isSuccess : ℤ) :
    Process :=
  if isSuccess = 2 then { x with admin := .sendLog shipOrder req i }
  else x.acknowledged shipOrder req i isSuccess

/-- The number of entries that `GetRecoveryLog` reads for a request. -/
def recoveryCount (x : Process) (req : ReplReq) : ℕ :=
  if x.server.needsRecovery req then (req.lastIndex - x.server.lastIndex).toNat else 0

end Process

namespace Mesh

def setProc (m : Mesh) (s : ℤ) (x : Process) : Mesh :=
  { m with procs := Function.update m.procs s x }

def setAdmin (m : Mesh) (s : ℤ) (admin : AdminThread) : Mesh :=
  m.setProc s { m.procs s with admin := admin }

/-- The next turn of the replication loop begins: a peer without socket is
skipped, any other is sent the request. -/
def sendReplicationRequest (m : Mesh) (s : ℤ) : Option Mesh :=
  match (m.procs s).admin with
  | .turn shipOrder req i =>
    match (m.procs s).server.factoriesRecord[i]? with
    | some f =>
      if f.socket < 0 then some (m.setAdmin s (.turn shipOrder req (i + 1)))
      else
        some { m.setAdmin s (.getAck shipOrder req i) with
          toIfa := Function.update m.toIfa (f.connection s)
            (m.toIfa (f.connection s) ++ req.packets) }
    | none => none
  | _ => none

/-- An integer is read from the peer of the turn in progress. -/
def recvInt (m : Mesh) (s : ℤ) (i : ℕ) (k : Connection → ℤ → Mesh → Mesh) : Option Mesh :=
  match (m.procs s).server.factoriesRecord[i]? with
  | some f =>
    match m.toAdmin (f.connection s) with
    | n :: rest =>
      some (k (f.connection s) n
        { m with toAdmin := Function.update m.toAdmin (f.connection s) rest })
    | [] => none
  | none => none

/-- The committed index has been read, and the log is sent from there on. -/
def sendRecoveryLog (s : ℤ) (shipOrder : RobotInf) (req : ReplReq) (i : ℕ) (conn : Connection)
    (index : ℤ) (m : Mesh) : Mesh :=
  let entries :=
    (RobotFactory.sendRecoveryLog (some index) (fun _ => true) (m.procs s).server.smrLog).1
  { m.setAdmin s (.getReack shipOrder req i) with
    toIfa := Function.update m.toIfa conn (m.toIfa conn ++ entries.map .mapop) }

/-- `ifa_thread_read` has the mutex and reads a request. When it finds a gap it asks
for recovery. -/
def getReplicationRequest (m : Mesh) (conn : Connection) (misread : ReplReq) : Mesh :=
  let x := m.procs conn.backup
  let req := recvRequest misread (m.toIfa conn)
  { m.setProc conn.backup { x with
      mtx := some (.ifa conn)
      ifa := Function.update x.ifa conn (.reading req) } with
    toIfa := Function.update m.toIfa conn ((m.toIfa conn).drop 2)
    toAdmin := Function.update m.toAdmin conn (m.toAdmin conn ++
      if x.server.needsRecovery req then [2, x.server.committedIndex] else []) }

/-- What the stub calls of the rest of `ifa_thread_read` return. -/
def ifaStub (m : Mesh) (conn : Connection) (req : ReplReq) (misread : ℕ → MapOp) : IfaStub :=
  let packets := (m.toIfa conn).take ((m.procs conn.backup).recoveryCount req)
  ⟨some req, true, fun k => packets[k]?.map (recvMapop (misread k))⟩

/-- The rest of `ifa_thread_read`, with the entries that have arrived. -/
def ifaThreadRead [Zlib] (m : Mesh) (conn : Connection) (req : ReplReq) (misread : ℕ → MapOp) :
    Mesh :=
  let x := m.procs conn.backup
  match x.server.ifaThreadRead (m.ifaStub conn req misread) with
  | .error _ => m.setProc conn.backup { x with alive := false }
  | .ok server =>
    { m.setProc conn.backup { x with
        server := server
        mtx := none
        ifa := Function.update x.ifa conn .acking } with
      toIfa := Function.update m.toIfa conn ((m.toIfa conn).drop (x.recoveryCount req)) }

structure Unused (m : Mesh) (conn : Connection) : Prop where
  toIfa : m.toIfa conn = []
  toAdmin : m.toAdmin conn = []
  peeking : (m.procs conn.backup).ifa conn = .peeking

instance (m : Mesh) (conn : Connection) : Decidable (m.Unused conn) :=
  decidable_of_iff (m.toIfa conn = [] ∧ m.toAdmin conn = [] ∧
      (m.procs conn.backup).ifa conn = .peeking)
    ⟨fun ⟨h, h', h''⟩ => ⟨h, h', h''⟩, fun h => ⟨h.toIfa, h.toAdmin, h.peeking⟩⟩

/-- A step of a thread of a server that is alive. -/
def act [Zlib] (m : Mesh) : MeshAction → Option Mesh
  | .order s shipOrder =>
    let x := m.procs s
    if x.mtx = none then
      some (m.setProc s { x with adminThreadList := x.adminThreadList ++ [shipOrder] })
    else none
  | .clientClose s =>
    let x := m.procs s
    some (m.setProc s { x with
      server := { x.server with
        clog := if walEnabled then x.server.clog.sync else x.server.clog
        recheckAllow := true } })
  | .wake s =>
    let x := m.procs s
    if x.admin = .waiting ∧ x.mtx = none then
      some (m.setProc s { x with mtx := some .admin, admin := .awake })
    else none
  | .wait s =>
    let x := m.procs s
    if x.admin = .awake ∧ x.adminThreadList = [] then
      some (m.setProc s { x with mtx := none, admin := .waiting })
    else none
  | .begin s connect =>
    match (m.procs s).admin, (m.procs s).adminThreadList with
    | .awake, shipOrder :: rest =>
      if ∀ f ∈ (m.procs s).server.recheckedFactories connect,
          f ∉ (m.procs s).server.factoriesRecord → m.Unused (f.connection s) then
        some (m.setProc s ((m.procs s).beginIteration connect shipOrder rest))
      else none
    | _, _ => none
  | .send s => m.sendReplicationRequest s
  | .getAck s =>
    match (m.procs s).admin with
    | .getAck shipOrder req i =>
      m.recvInt s i fun _ n m => m.setProc s ((m.procs s).firstAck shipOrder req i n)
    | _ => none
  | .sendLog s =>
    match (m.procs s).admin with
    | .sendLog shipOrder req i => m.recvInt s i (sendRecoveryLog s shipOrder req i)
    | _ => none
  | .getReack s =>
    match (m.procs s).admin with
    | .getReack shipOrder req i =>
      m.recvInt s i fun _ n m => m.setProc s ((m.procs s).acknowledged shipOrder req i n)
    | _ => none
  | .finish s =>
    match (m.procs s).admin with
    | .turn shipOrder _ i =>
      let x := m.procs s
      if x.server.factoriesRecord.length ≤ i then
        some (m.setProc s { x with server := x.server.adminCommit shipOrder, admin := .awake })
      else none
    | _ => none
  | .peek conn =>
    let x := m.procs conn.backup
    if x.ifa conn = .peeking ∧ m.toIfa conn ≠ [] then
      some (m.setProc conn.backup { x with ifa := Function.update x.ifa conn .locking })
    else none
  | .lock conn misread =>
    if (m.procs conn.backup).ifa conn = .locking ∧ (m.procs conn.backup).mtx = none then
      some (m.getReplicationRequest conn misread)
    else none
  | .read conn misread =>
    match (m.procs conn.backup).ifa conn with
    | .reading req =>
      if (m.procs conn.backup).recoveryCount req ≤ (m.toIfa conn).length then
        some (m.ifaThreadRead conn req misread)
      else none
    | _ => none
  | .ack conn =>
    let x := m.procs conn.backup
    if x.ifa conn = .acking then
      some { m.setProc conn.backup { x with ifa := Function.update x.ifa conn .peeking } with
        toAdmin := Function.update m.toAdmin conn (m.toAdmin conn ++ [1]) }
    else none

end Mesh

def MeshAction.server : MeshAction → ℤ
  | .order s _ | .clientClose s | .wake s | .wait s | .begin s _ | .send s | .getAck s | .sendLog s
  | .getReack s | .finish s => s
  | .peek conn | .lock conn _ | .read conn _ | .ack conn => conn.backup

def meshStep [Zlib] (m : Mesh) (a : MeshAction) : Option Mesh :=
  if (m.procs a.server).alive then m.act a else none

namespace Mesh

inductive Moved [Zlib] (m : Mesh) : MeshAction → Mesh → Prop where
  | order (s : ℤ) (shipOrder : RobotInf) (hfree : (m.procs s).mtx = none) :
      Moved m (.order s shipOrder) (m.setProc s { m.procs s with
        adminThreadList := (m.procs s).adminThreadList ++ [shipOrder] })
  | clientClose (s : ℤ) : Moved m (.clientClose s) (m.setProc s { m.procs s with
      server := { (m.procs s).server with
        clog := if walEnabled then (m.procs s).server.clog.sync else (m.procs s).server.clog
        recheckAllow := true } })
  | wake (s : ℤ) (hwaiting : (m.procs s).admin = .waiting) (hfree : (m.procs s).mtx = none) :
      Moved m (.wake s) (m.setProc s { m.procs s with mtx := some .admin, admin := .awake })
  | wait (s : ℤ) (hawake : (m.procs s).admin = .awake)
      (hempty : (m.procs s).adminThreadList = []) :
      Moved m (.wait s) (m.setProc s { m.procs s with mtx := none, admin := .waiting })
  | begin (s : ℤ) (connect : ℤ → ℤ) (shipOrder : RobotInf) (rest : List RobotInf)
      (hawake : (m.procs s).admin = .awake)
      (horders : (m.procs s).adminThreadList = shipOrder :: rest)
      (hunused : ∀ f ∈ (m.procs s).server.recheckedFactories connect,
        f ∉ (m.procs s).server.factoriesRecord → m.Unused (f.connection s)) :
      Moved m (.begin s connect)
        (m.setProc s ((m.procs s).beginIteration connect shipOrder rest))
  | skip (s : ℤ) (shipOrder : RobotInf) (req : ReplReq) (i : ℕ) (f : FactoryRec)
      (hadmin : (m.procs s).admin = .turn shipOrder req i)
      (hf : (m.procs s).server.factoriesRecord[i]? = some f) (hsocket : f.socket < 0) :
      Moved m (.send s) (m.setAdmin s (.turn shipOrder req (i + 1)))
  | send (s : ℤ) (shipOrder : RobotInf) (req : ReplReq) (i : ℕ) (f : FactoryRec)
      (hadmin : (m.procs s).admin = .turn shipOrder req i)
      (hf : (m.procs s).server.factoriesRecord[i]? = some f) (hsocket : 0 ≤ f.socket) :
      Moved m (.send s) { m.setAdmin s (.getAck shipOrder req i) with
        toIfa := Function.update m.toIfa (f.connection s)
          (m.toIfa (f.connection s) ++ req.packets) }
  | getAck (s : ℤ) (shipOrder : RobotInf) (req : ReplReq) (i : ℕ) (f : FactoryRec) (n : ℤ)
      (rest : List ℤ) (hadmin : (m.procs s).admin = .getAck shipOrder req i)
      (hf : (m.procs s).server.factoriesRecord[i]? = some f)
      (hunread : m.toAdmin (f.connection s) = n :: rest) :
      Moved m (.getAck s) { m.setProc s ((m.procs s).firstAck shipOrder req i n) with
        toAdmin := Function.update m.toAdmin (f.connection s) rest }
  | sendLog (s : ℤ) (shipOrder : RobotInf) (req : ReplReq) (i : ℕ) (f : FactoryRec) (n : ℤ)
      (rest : List ℤ) (hadmin : (m.procs s).admin = .sendLog shipOrder req i)
      (hf : (m.procs s).server.factoriesRecord[i]? = some f)
      (hunread : m.toAdmin (f.connection s) = n :: rest) :
      Moved m (.sendLog s) (sendRecoveryLog s shipOrder req i (f.connection s) n
        { m with toAdmin := Function.update m.toAdmin (f.connection s) rest })
  | getReack (s : ℤ) (shipOrder : RobotInf) (req : ReplReq) (i : ℕ) (f : FactoryRec) (n : ℤ)
      (rest : List ℤ) (hadmin : (m.procs s).admin = .getReack shipOrder req i)
      (hf : (m.procs s).server.factoriesRecord[i]? = some f)
      (hunread : m.toAdmin (f.connection s) = n :: rest) :
      Moved m (.getReack s) { m.setProc s ((m.procs s).acknowledged shipOrder req i n) with
        toAdmin := Function.update m.toAdmin (f.connection s) rest }
  | finish (s : ℤ) (shipOrder : RobotInf) (req : ReplReq) (i : ℕ)
      (hadmin : (m.procs s).admin = .turn shipOrder req i)
      (hlen : (m.procs s).server.factoriesRecord.length ≤ i) :
      Moved m (.finish s) (m.setProc s { m.procs s with
        server := (m.procs s).server.adminCommit shipOrder, admin := .awake })
  | peek (conn : Connection) (hpeeking : (m.procs conn.backup).ifa conn = .peeking)
      (hunread : m.toIfa conn ≠ []) :
      Moved m (.peek conn) (m.setProc conn.backup { m.procs conn.backup with
        ifa := Function.update (m.procs conn.backup).ifa conn .locking })
  | lock (conn : Connection) (misread : ReplReq)
      (hlocking : (m.procs conn.backup).ifa conn = .locking)
      (hfree : (m.procs conn.backup).mtx = none) :
      Moved m (.lock conn misread) (m.getReplicationRequest conn misread)
  | read (conn : Connection) (misread : ℕ → MapOp) (req : ReplReq)
      (hreading : (m.procs conn.backup).ifa conn = .reading req)
      (hcount : (m.procs conn.backup).recoveryCount req ≤ (m.toIfa conn).length) :
      Moved m (.read conn misread) (m.ifaThreadRead conn req misread)
  | ack (conn : Connection) (hacking : (m.procs conn.backup).ifa conn = .acking) :
      Moved m (.ack conn) { m.setProc conn.backup { m.procs conn.backup with
          ifa := Function.update (m.procs conn.backup).ifa conn .peeking } with
        toAdmin := Function.update m.toAdmin conn (m.toAdmin conn ++ [1]) }

theorem sendReplicationRequest_cases [Zlib] {m m' : Mesh} {s : ℤ}
    (h : m.sendReplicationRequest s = some m') : m.Moved (.send s) m' := by
  unfold sendReplicationRequest at h
  split at h
  · rename_i shipOrder req i hadmin
    split at h
    · rename_i f hf
      split_ifs at h with hsocket
      · cases h
        exact .skip s shipOrder req i f hadmin hf hsocket
      · cases h
        exact .send s shipOrder req i f hadmin hf (by omega)
    · cases h
  · cases h

theorem recvInt_cases {m m' : Mesh} {s : ℤ} {i : ℕ} {k : Connection → ℤ → Mesh → Mesh}
    (h : m.recvInt s i k = some m') : ∃ f n rest,
      (m.procs s).server.factoriesRecord[i]? = some f ∧ m.toAdmin (f.connection s) = n :: rest ∧
      m' = k (f.connection s) n
        { m with toAdmin := Function.update m.toAdmin (f.connection s) rest } := by
  unfold recvInt at h
  split at h
  · rename_i f hf
    split at h
    · rename_i n rest hunread
      cases h
      exact ⟨f, n, rest, hf, hunread, rfl⟩
    · cases h
  · cases h

theorem act_cases [Zlib] {m m' : Mesh} {a : MeshAction} (h : m.act a = some m') :
    m.Moved a m' := by
  cases a with
  | order s shipOrder =>
    simp only [act, Option.ite_none_right_eq_some, Option.some.injEq] at h
    obtain ⟨hfree, rfl⟩ := h
    exact .order s shipOrder hfree
  | clientClose s =>
    simp only [act, Option.some.injEq] at h
    subst h
    exact .clientClose s
  | wake s =>
    simp only [act, Option.ite_none_right_eq_some, Option.some.injEq] at h
    obtain ⟨⟨hwaiting, hfree⟩, rfl⟩ := h
    exact .wake s hwaiting hfree
  | wait s =>
    simp only [act, Option.ite_none_right_eq_some, Option.some.injEq] at h
    obtain ⟨⟨hawake, hempty⟩, rfl⟩ := h
    exact .wait s hawake hempty
  | begin s connect =>
    simp only [act] at h
    split at h
    · rename_i shipOrder rest hawake horders
      simp only [Option.ite_none_right_eq_some, Option.some.injEq] at h
      obtain ⟨hunused, rfl⟩ := h
      exact .begin s connect shipOrder rest hawake horders hunused
    · cases h
  | send s => exact sendReplicationRequest_cases h
  | getAck s =>
    simp only [act] at h
    split at h
    · rename_i shipOrder req i hadmin
      obtain ⟨f, n, rest, hf, hunread, rfl⟩ := recvInt_cases h
      exact .getAck s shipOrder req i f n rest hadmin hf hunread
    · cases h
  | sendLog s =>
    simp only [act] at h
    split at h
    · rename_i shipOrder req i hadmin
      obtain ⟨f, n, rest, hf, hunread, rfl⟩ := recvInt_cases h
      exact .sendLog s shipOrder req i f n rest hadmin hf hunread
    · cases h
  | getReack s =>
    simp only [act] at h
    split at h
    · rename_i shipOrder req i hadmin
      obtain ⟨f, n, rest, hf, hunread, rfl⟩ := recvInt_cases h
      exact .getReack s shipOrder req i f n rest hadmin hf hunread
    · cases h
  | finish s =>
    simp only [act] at h
    split at h
    · rename_i shipOrder req i hadmin
      simp only [Option.ite_none_right_eq_some, Option.some.injEq] at h
      obtain ⟨hlen, rfl⟩ := h
      exact .finish s shipOrder req i hadmin hlen
    · cases h
  | peek conn =>
    simp only [act, Option.ite_none_right_eq_some, Option.some.injEq] at h
    obtain ⟨⟨hpeeking, hunread⟩, rfl⟩ := h
    exact .peek conn hpeeking hunread
  | lock conn misread =>
    simp only [act, Option.ite_none_right_eq_some, Option.some.injEq] at h
    obtain ⟨⟨hlocking, hfree⟩, rfl⟩ := h
    exact .lock conn misread hlocking hfree
  | read conn misread =>
    simp only [act] at h
    split at h
    · rename_i req hreading
      simp only [Option.ite_none_right_eq_some, Option.some.injEq] at h
      obtain ⟨hcount, rfl⟩ := h
      exact .read conn misread req hreading hcount
    · cases h
  | ack conn =>
    simp only [act, Option.ite_none_right_eq_some, Option.some.injEq] at h
    obtain ⟨hacking, rfl⟩ := h
    exact .ack conn hacking

theorem meshStep_cases [Zlib] {m m' : Mesh} {a : MeshAction} (h : meshStep m a = some m') :
    m.Moved a m' := by
  simp only [meshStep, Option.ite_none_right_eq_some] at h
  exact act_cases h.2

/-- What an IFA thread of the mesh does with a request is a turn of `ifa_thread_body` in
the sense of the cluster, whether an admin thread waits for it or its packets were left
unread by an earlier turn. -/
theorem Moved.ifaTurn [Zlib] {m m' : Mesh} {conn : Connection} {misread : ℕ → MapOp} {n : Node}
    (h : m.Moved (.read conn misread) m') (hserver : n.server = (m.procs conn.backup).server)
    (halive : n.alive = (m.procs conn.backup).alive) :
    ∃ ifa, (n.afterExchange (n.server.ifaThreadTurn true ifa)).server =
        (m'.procs conn.backup).server ∧
      (n.afterExchange (n.server.ifaThreadTurn true ifa)).alive =
        (m'.procs conn.backup).alive := by
  cases h with
  | read _ _ req =>
    refine ⟨m.ifaStub conn req misread, ?_⟩
    rw [hserver]
    unfold Server.ifaThreadTurn ifaThreadRead
    simp only
    cases (m.procs conn.backup).server.ifaThreadRead (m.ifaStub conn req misread) with
    | error fault => simp [Node.afterExchange, setProc, bind, Except.bind, hserver]
    | ok server => simp [Node.afterExchange, setProc, bind, Except.bind, pure, Except.pure, halive]

end Mesh

end RobotFactory
