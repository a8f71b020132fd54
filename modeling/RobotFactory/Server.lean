import RobotFactory.CommitLog

/-!
# The factory server

The functions of `ServerSocket` that read or write the replicated log, in the
order of the source. A thread that leaves the defined behaviour of C++ is a
`Fault`; otherwise each function returns the server's members after the call.
What the calls on a connection return is an argument: `connect` gives the socket
of each new connection, and `IfaStub` the results of a backup's stub calls.
-/
namespace RobotFactory
open ReplayLog

def walEnabled : Bool := true

def crcEnabled : Bool := true

def fFlushDefault : Int32 := 0

def batchSizeDefault : UInt32 := 10

/-- The members of `ServerSocket` that the replication code uses. -/
structure Server where
  myFactoryId : ℤ
  smrLog : List MapOp
  customerRecord : CustomerRecord
  smrReplCommit : SmrLcommit
  factoriesRecord : List FactoryRec
  recheckAllow : Bool
  clog : CommitLog

/-- The write to the commit log that precedes every insertion into `smr_log`. -/
def writeAhead [Zlib] (clog : CommitLog) (logEntry : MapOp) : Except Fault CommitLog :=
  if walEnabled then
    if crcEnabled then clog.writelogwithcrc logEntry else clog.writelog logEntry
  else .ok clog

/-- What the stub calls of `ifa_thread_read` return on one connection: the
request, or `none` when the call returned -1; whether the acknowledgement that
starts recovery is sent; and the `k`-th entry read by `GetRecoveryLog`. -/
structure IfaStub where
  getReplicationRequest : Option ReplReq
  recoveryAck : Bool
  recvEntry : ℕ → Option MapOp

/-- `GetRecoveryLog` for the `n` indices from `i` on, having read `k` entries. It
returns the log with the entries inserted so far, and whether all calls succeeded. -/
def getRecoveryLog (recvEntry : ℕ → Option MapOp) :
    ℕ → ℕ → ℤ → List MapOp → Except Fault (List MapOp × Bool)
  | 0, _, _, smrLog => .ok (smrLog, true)
  | n + 1, k, i, smrLog =>
    match recvEntry k with
    | none => .ok (smrLog, false)
    | some tempOp => do
      let smrLog ← vectorInsert smrLog i tempOp
      getRecoveryLog recvEntry n (k + 1) (i + 1) smrLog

/-- The sending loop of `SendRecoveryLog`: the entries sent and whether all were. -/
def sendEntries (sendEntry : ℕ → Bool) : ℕ → List MapOp → List MapOp × Bool
  | _, [] => ([], true)
  | k, op :: ops =>
    if sendEntry k then
      let rest := sendEntries sendEntry (k + 1) ops
      (op :: rest.1, rest.2)
    else ([], false)

/-- `SendRecoveryLog` once the backup's committed index has been read, `none`
when that call returned -1. A negative start is a huge unsigned index. -/
def sendRecoveryLog (recvCommitedIndex : Option ℤ) (sendEntry : ℕ → Bool) (smrLog : List MapOp) :
    List MapOp × Bool :=
  match recvCommitedIndex with
  | none => ([], false)
  | some committedIndex =>
    let fromIndex := committedIndex + 1
    if fromIndex < 0 then ([], true) else sendEntries sendEntry 0 (smrLog.drop fromIndex.toNat)

namespace Server

abbrev lastIndex (s : Server) : ℤ := s.smrReplCommit.lastIndex

abbrev committedIndex (s : Server) : ℤ := s.smrReplCommit.committedIndex

/-- Apply the entry at index `i` and record it as the last committed one. -/
def commitAt (s : Server) (i : ℤ) : Except Fault Server := do
  let commitedMapop ← vectorAt s.smrLog i
  return { s with
    customerRecord := s.customerRecord.apply commitedMapop
    smrReplCommit.committedIndex := i }

def recheckcommit (s : Server) : Except Fault Server :=
  if 0 ≤ s.lastIndex ∧ s.committedIndex < s.lastIndex then s.commitAt s.lastIndex else .ok s

def recheckreplsock (connect : ℤ → ℤ) (s : Server) : Server :=
  { s with
    factoriesRecord := s.factoriesRecord.map fun f =>
      if f.socket < 0 then
        if 0 < connect f.factoryId then { f with socket := connect f.factoryId }
        else { f with socket := -1 }
      else f }

/-- The loop of `initiate_recovery` over the `n` indices from `i` on. -/
def commitRecovered [Zlib] (remoteLastCommitedIndex : ℤ) :
    ℕ → ℤ → Server → Except Fault Server
  | 0, _, s => .ok s
  | n + 1, i, s => do
    let commitedMapop ← vectorAt s.smrLog i
    let clog ← writeAhead s.clog commitedMapop
    let s := { s with clog := clog }
    let s := if i ≤ remoteLastCommitedIndex then
        { s with
          customerRecord := s.customerRecord.apply commitedMapop
          smrReplCommit.committedIndex := i }
      else s
    commitRecovered remoteLastCommitedIndex n (i + 1) s

/-- `initiate_recovery` once the log has been received, as far as it was. -/
def afterGetRecoveryLog [Zlib] (remoteLastCommitedIndex : ℤ) (count : ℕ) (s : Server)
    (result : List MapOp × Bool) : Except Fault Server :=
  if result.2 then
    commitRecovered remoteLastCommitedIndex count (s.lastIndex + 1) { s with smrLog := result.1 }
  else .ok { s with smrLog := result.1, smrReplCommit.primaryId := -1 }

def initiateRecovery [Zlib] (ifa : IfaStub) (remoteLastLogIndex remoteLastCommitedIndex : ℤ)
    (s : Server) : Except Fault Server :=
  if ifa.recoveryAck then
    let count := (remoteLastLogIndex - s.lastIndex).toNat
    getRecoveryLog ifa.recvEntry count 0 (s.lastIndex + 1) s.smrLog >>=
      s.afterGetRecoveryLog remoteLastCommitedIndex count
  else .ok { s with smrReplCommit.primaryId := -1 }

/-- The test of `ifa_thread_read` for a gap between the two logs. -/
def needsRecovery (s : Server) (req : ReplReq) : Bool := 1 < req.lastIndex - s.lastIndex

/-- The write-ahead and the insertion of `ifa_thread_read`. -/
def ifaInsert [Zlib] (req : ReplReq) (s : Server) : Except Fault Server := do
  let clog ← writeAhead s.clog req.mapopRecord
  let smrLog ← vectorInsert s.smrLog req.lastIndex req.mapopRecord
  return { s with clog := if walEnabled then clog.sync else clog, smrLog := smrLog }

/-- The first part of `ifa_thread_read`: recovery, an order, or a marker. -/
def ifaReceive [Zlib] (ifa : IfaStub) (req : ReplReq) (s : Server) : Except Fault Server :=
  if s.needsRecovery req then s.initiateRecovery ifa req.lastIndex req.committedIndex
  else if req.mapopRecord.arg1 ≠ -1 then s.ifaInsert req
  else .ok s

/-- The last part of `ifa_thread_read`: the request's indices are stored, and
the entry at its committed index is applied unless that is -1. -/
def ifaStore (req : ReplReq) (s : Server) : Except Fault Server :=
  let s := { s with
    smrReplCommit.primaryId := req.factoryId
    smrReplCommit.lastIndex := req.lastIndex }
  if req.committedIndex ≠ -1 then s.commitAt req.committedIndex else .ok s

def ifaThreadRead [Zlib] (ifa : IfaStub) (s : Server) : Except Fault Server :=
  match ifa.getReplicationRequest with
  | none => .ok { s with smrReplCommit.primaryId := -1 }
  | some req => s.ifaReceive ifa req >>= ifaStore req

theorem ifaThreadRead_of_none [Zlib] {ifa : IfaStub} {s : Server}
    (h : ifa.getReplicationRequest = none) :
    s.ifaThreadRead ifa = .ok { s with smrReplCommit.primaryId := -1 } := by
  simp only [ifaThreadRead, h]

theorem ifaThreadRead_of_some [Zlib] {ifa : IfaStub} {s : Server} {req : ReplReq}
    (h : ifa.getReplicationRequest = some req) :
    s.ifaThreadRead ifa = s.ifaReceive ifa req >>= ifaStore req := by
  simp only [ifaThreadRead, h]

/-- The rechecks at the start of an iteration of `admin_thread`. -/
def adminRecheck (connect : ℤ → ℤ) (s : Server) : Except Fault Server :=
  if s.recheckAllow then do
    let s ← s.recheckcommit
    return { s.recheckreplsock connect with recheckAllow := false }
  else .ok s

/-- The log entry of an order. -/
def logEntryOf (shipOrder : RobotInf) : MapOp := ⟨1, shipOrder.customerId, shipOrder.orderNumber⟩

/-- An order is logged at the next index, a marker is not. -/
def adminAppend [Zlib] (shipOrder : RobotInf) (s : Server) : Except Fault Server :=
  if shipOrder.customerId ≠ -1 then do
    let lastIndex ← intSucc s.lastIndex
    let clog ← writeAhead s.clog (logEntryOf shipOrder)
    let smrLog ← vectorInsert s.smrLog lastIndex (logEntryOf shipOrder)
    return { s with
      clog := clog
      smrLog := smrLog
      smrReplCommit.primaryId := s.myFactoryId
      smrReplCommit.lastIndex := lastIndex }
  else .ok { s with smrReplCommit.primaryId := s.myFactoryId }

/-- The replication request that `admin_thread` sends to every backup. -/
def sendReq (shipOrder : RobotInf) (s : Server) : ReplReq where
  factoryId := s.myFactoryId
  committedIndex := s.committedIndex
  lastIndex := s.lastIndex
  mapopRecord := logEntryOf shipOrder

/-- The commit at the end of an iteration of `admin_thread`. -/
def adminCommit (shipOrder : RobotInf) (s : Server) : Server :=
  if shipOrder.customerId ≠ -1 then
    { s with
      customerRecord := s.customerRecord.apply (logEntryOf shipOrder)
      smrReplCommit.committedIndex := s.lastIndex }
  else s

end Server

/-- What one peer does when it is asked for its committed index at startup. -/
inductive PeerReply where
  | notConnected
  | callFailed
  | committed (index : ℤ)
  deriving DecidableEq, Repr

/-- `last_commited_index` after the loop over the peers. -/
def firstCommitedIndex : List PeerReply → ℤ
  | [] => 0
  | .committed index :: _ => index
  | _ :: replies => firstCommitedIndex replies

namespace Server

/-- The replay loop of `initiate_recovery_from_log` over `n` indices from `i` on. -/
def replayRecovered : ℕ → ℤ → Server → Except Fault Server
  | 0, _, s => .ok s
  | n + 1, i, s => do
    let s ← s.commitAt i
    replayRecovered n (i + 1) { s with smrReplCommit.lastIndex := i }

/-- The bound of the replay loop, from the reported committed index and the
number of entries found in the commit log. -/
def replayBound (lastCommitedIndex size : ℤ) : ℤ :=
  let lastCommitedIndex := if size < lastCommitedIndex then size - 1 else lastCommitedIndex
  if lastCommitedIndex = 0 then size - 1 else lastCommitedIndex

def replayFromLog (lastCommitedIndex : ℤ) (s : Server) : Except Fault Server :=
  if s.smrLog.length = 0 ∧ lastCommitedIndex = 0 then .ok s
  else replayRecovered (replayBound lastCommitedIndex s.smrLog.length + 1).toNat 0 s

/-- The entries of the commit log file and the log object after reading them. -/
def recoverLog [Zlib] (s : Server) : Except Fault (List MapOp × CommitLog) :=
  if walEnabled then
    if crcEnabled then s.clog.recoverwithcrc s.smrLog else s.clog.recover s.smrLog
  else .ok (s.smrLog, s.clog)

def initiateRecoveryFromLog [Zlib] (replies : List PeerReply) (s : Server) :
    Except Fault Server := do
  let (smrLog, clog) ← s.recoverLog
  replayFromLog (firstCommitedIndex replies) { s with smrLog := smrLog, clog := clog }

/-- The members set by `start` before recovery, on a commit log file. -/
def opened (facId : ℤ) (factories : List FactoryRec) (file : List UInt8) (uninit : ℕ → Int32) :
    Server where
  myFactoryId := facId
  smrLog := []
  customerRecord := ∅
  smrReplCommit := ⟨-1, -1, -1, facId⟩
  factoriesRecord := factories
  recheckAllow := true
  clog := (CommitLog.new uninit).init file fFlushDefault batchSizeDefault

def start [Zlib] (facId : ℤ) (factories : List FactoryRec) (file : List UInt8) (uninit : ℕ → Int32)
    (replies : List PeerReply) : Except Fault Server :=
  if walEnabled then (opened facId factories file uninit).initiateRecoveryFromLog replies
  else .ok (opened facId factories file uninit)

end Server

end RobotFactory
