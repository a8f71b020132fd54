import RobotFactory.Channels
import RobotFactory.CommittedReplay
import RobotFactory.ServerMessages

/-!
# An exchange is one step

The stub calls of the primary and of a backup in one exchange, as two programs that run
at the same time on a connection, a stream of bytes in each direction, where each call
of `recv` waits for all bytes of its message. However their steps are interleaved, they
end in the state that `exchange` gives, and the thread of the backup waits for the next
request. The connection starts with a `conn_type`, by
which the backup tells a replication connection from the question of a server that is
starting for the committed index.
-/
namespace RobotFactory
open RecordStream Channels TransitionSystem

structure ConnType where
  isCustomer : Int32
  getCommitReq : Int32
  deriving DecidableEq, Repr

def connTypeCodec : Codec UInt8 ConnType :=
  (int32Codec.pair int32Codec).retract (fun x => (x.isCustomer, x.getCommitReq))
    (fun x => ⟨x.1, x.2⟩) (fun _ => rfl)

/-- What `set_conn_type_admin` sends. -/
def setConnTypeAdmin : ConnType := ⟨0, 0⟩

/-- What `get_commited_index` sends first. -/
def getCommitedIndexType : ConnType := ⟨0, 1⟩

/-- Where `admin_thread` stands in an exchange, from the call of `recheckreplsock` that
makes the connection, and whether the socket stays in the end. -/
inductive PfaPc where
  | setConnTypeAdmin
  | sendReplicationRequest
  | getReplicationAck
  | recvCommitedIndex
  | sendRecoveryLog (entries : List MapOp)
  | getReack
  | done (kept : Bool)

def pfaCall (req : ReplRequest) (smrLog : List MapOp) : PfaPc → Call UInt8 PfaPc
  | .setConnTypeAdmin => .send (connTypeCodec.encode setConnTypeAdmin) .sendReplicationRequest
  | .sendReplicationRequest => .send (replRequestCodec.encode req) .getReplicationAck
  | .getReplicationAck => .recv int32Codec.size fun bytes =>
      if int32Codec.decode bytes = 2 then .recvCommitedIndex
      else .done (int32Codec.decode bytes = 1)
  | .recvCommitedIndex => .recv int32Codec.size fun bytes =>
      .sendRecoveryLog
        (sendRecoveryLog (some (int32Codec.decode bytes).toInt) (fun _ => true) smrLog).1
  | .sendRecoveryLog [] => .send [] .getReack
  | .sendRecoveryLog (op :: entries) => .send (mapOpCodec.encode op) (.sendRecoveryLog entries)
  | .getReack => .recv int32Codec.size fun bytes => .done (int32Codec.decode bytes = 1)
  | .done _ => .stop

/-- Where `ifa_thread_body` stands, with the server that it works on: before the first
message, in a turn of its loop, ended by a fault, or in the answer to a starting server. -/
inductive IfaPc where
  | getConnType (s : Server)
  | getReplicationRequest (s : Server)
  | sendRecoveryAck (s : Server) (req : ReplReq)
  | sendIndex (s : Server) (req : ReplReq)
  | getRecoveryLog (s : Server) (req : ReplReq) (n : ℕ) (i : ℤ) (smrLog : List MapOp)
  | replicationAck (s : Server)
  | failed (fault : Fault)
  | sendCommitedIndex (s : Server)
  | closed

/-- The end of `ifa_thread_read`. -/
def IfaPc.afterRead : Except Fault Server → IfaPc
  | .ok s => .replicationAck s
  | .error fault => .failed fault

/-- `ifa_thread_read` on a request without a gap, up to the tail that stores its indices. -/
def Server.ifaHandle [Zlib] (req : ReplReq) (s : Server) : Except Fault Server :=
  if req.mapopRecord.arg1 ≠ -1 then s.ifaInsert req else .ok s

/-- The program of the backup, which holds its mutex from a request to its acknowledgement. -/
def ifaCall [Zlib] : IfaPc → Call UInt8 IfaPc
  | .getConnType s => .recv connTypeCodec.size fun bytes =>
      if (connTypeCodec.decode bytes).getCommitReq = 0 then .getReplicationRequest s
      else .sendCommitedIndex s
  | .getReplicationRequest s => .recv replRequestCodec.size fun bytes =>
      let req := (replRequestCodec.decode bytes).toReplReq
      if s.needsRecovery req then .sendRecoveryAck s req
      else .afterRead (s.ifaHandle req >>= Server.ifaStore req)
  | .sendRecoveryAck s req => .send (int32Codec.encode 2) (.sendIndex s req)
  | .sendIndex s req => .send (int32Codec.encode (Int32.ofInt s.committedIndex))
      (.getRecoveryLog s req (req.lastIndex - s.lastIndex).toNat (s.lastIndex + 1) s.smrLog)
  | .getRecoveryLog s req 0 _ smrLog => .send []
      (.afterRead (s.afterGetRecoveryLog req.committedIndex (req.lastIndex - s.lastIndex).toNat
        (smrLog, true) >>= Server.ifaStore req))
  | .getRecoveryLog s req (n + 1) i smrLog => .recv mapOpCodec.size fun bytes =>
      match vectorInsert smrLog i (mapOpCodec.decode bytes) with
      | .ok smrLog => .getRecoveryLog s req n (i + 1) smrLog
      | .error fault => .failed fault
  | .replicationAck s => .send (int32Codec.encode 1) (.getReplicationRequest s)
  | .failed _ => .stop
  | .sendCommitedIndex s => .send (int32Codec.encode (Int32.ofInt s.committedIndex)) .closed
  | .closed => .stop

/-- Where `get_commited_index` of a starting server stands. -/
inductive QueryPc where
  | sendConnType
  | recvCommitedIndex
  | done (committedIndex : Int32)

def queryCall : QueryPc → Call UInt8 QueryPc
  | .sendConnType => .send (connTypeCodec.encode getCommitedIndexType) .recvCommitedIndex
  | .recvCommitedIndex => .recv int32Codec.size fun bytes => .done (int32Codec.decode bytes)
  | .done _ => .stop

abbrev connStep [Zlib] (req : ReplRequest) (smrLog : List MapOp) :
    Pair UInt8 PfaPc IfaPc → Side → Option (Pair UInt8 PfaPc IfaPc) :=
  Channels.pairStep (pfaCall req smrLog) ifaCall

namespace AtomicExchange

def connected (s : Server) : Pair UInt8 PfaPc IfaPc := ⟨.setConnTypeAdmin, .getConnType s, [], []⟩

/-- The connection is open, and the next exchange is about to start. -/
def idle (s : Server) : Pair UInt8 PfaPc IfaPc :=
  ⟨.sendReplicationRequest, .getReplicationRequest s, [], []⟩

/-- The entries that a recovery is sent, and how many of them it reads. -/
def entriesFor (smrLog : List MapOp) (s : Server) : List MapOp :=
  smrLog.drop (s.committedIndex + 1).toNat

def countFor (get : ReplReq) (s : Server) : ℕ := (get.lastIndex - s.lastIndex).toNat

/-- A recovery reads all the entries that it is sent. -/
def ReadsAll (smrLog : List MapOp) (s : Server) (get : ReplReq) : Prop :=
  s.needsRecovery get = true →
    (smrLog.length : ℤ) - (s.committedIndex + 1) ≤ get.lastIndex - s.lastIndex

theorem countFor_eq {smrLog : List MapOp} {s : Server} (hs : s.Sound) {get : ReplReq}
    (hlast : get.lastIndex < smrLog.length) (hgap : s.needsRecovery get = true)
    (hall : ReadsAll smrLog s get) : countFor get s = (entriesFor smrLog s).length := by
  have hle := hs.committed_le
  have hge := hs.committed_ge
  have hread := hall hgap
  rw [entriesFor, List.length_drop, countFor]
  omega

section Parts

variable [Zlib] (req : ReplRequest) (smrLog : List MapOp) {s : Server}

theorem connecting : Steps (connStep req smrLog) 2 (connected s) (idle s) := by
  have hread := pairStep_right_recv (p := pfaCall req smrLog) (q := ifaCall)
    (s := .sendReplicationRequest) (t := .getConnType s) rfl
    (connTypeCodec.length_encode setConnTypeAdmin) [] []
  rw [List.append_nil, connTypeCodec.decode_encode] at hread
  exact .head (pairStep_left_send (by rfl)) (.one hread)

/-- `SendRecoveryLog` puts its entries on the stream. -/
theorem sending (entries : List MapOp) (t : IfaPc) (toRight toLeft : List UInt8) :
    Steps (connStep req smrLog) (entries.length + 1)
      ⟨.sendRecoveryLog entries, t, toRight, toLeft⟩
      ⟨.getReack, t, toRight ++ mapOpCodec.encodeAll entries, toLeft⟩ := by
  induction entries generalizing toRight with
  | nil => exact .one (pairStep_left_send (by rfl))
  | cons op entries ih =>
    have hrest := ih (toRight ++ mapOpCodec.encode op)
    rw [List.append_assoc, ← Codec.encodeAll_cons] at hrest
    exact .head (pairStep_left_send (by rfl)) hrest

/-- `GetRecoveryLog` takes them from the stream and inserts them behind `front`. -/
theorem receiving (get : ReplReq) (entries front back : List MapOp) (t : PfaPc)
    (rest toLeft : List UInt8) :
    Steps (connStep req smrLog) entries.length
      ⟨t, .getRecoveryLog s get entries.length front.length (front ++ back),
        mapOpCodec.encodeAll entries ++ rest, toLeft⟩
      ⟨t, .getRecoveryLog s get 0 (front ++ entries).length (front ++ entries ++ back), rest,
        toLeft⟩ := by
  induction entries generalizing front with
  | nil =>
    rw [List.append_nil]
    exact .refl _
  | cons op entries ih =>
    have hinsert : vectorInsert (front ++ back) front.length op = .ok (front ++ [op] ++ back) := by
      rw [vectorInsert_of_le op (Int.natCast_nonneg _) (by simp), Int.toNat_natCast,
        ReplayLog.insertIdx_eq_take_append_drop _ _ (by simp), List.take_left, List.drop_left,
        List.append_cons]
    have hfirst := pairStep_right_recv (p := pfaCall req smrLog) (q := ifaCall) (s := t)
      (t := .getRecoveryLog s get (entries.length + 1) front.length (front ++ back)) rfl
      (mapOpCodec.length_encode op) (mapOpCodec.encodeAll entries ++ rest) toLeft
    simp only [mapOpCodec.decode_encode, hinsert] at hfirst
    have hrest := ih (front ++ [op])
    rw [List.length_append, List.length_singleton, Nat.cast_add, Nat.cast_one] at hrest
    rw [Codec.encodeAll_cons, List.append_assoc, List.append_cons]
    exact .head hfirst hrest

theorem requesting {next : IfaPc} (hnext : next =
    if s.needsRecovery req.toReplReq then .sendRecoveryAck s req.toReplReq
    else .afterRead (s.ifaHandle req.toReplReq >>= Server.ifaStore req.toReplReq)) :
    Steps (connStep req smrLog) 2 (idle s) ⟨.getReplicationAck, next, [], []⟩ := by
  have hread := pairStep_right_recv (p := pfaCall req smrLog) (q := ifaCall)
    (s := .getReplicationAck) (t := .getReplicationRequest s) rfl
    (replRequestCodec.length_encode req) [] []
  rw [List.append_nil] at hread
  simp only [replRequestCodec.decode_encode, ← hnext] at hread
  exact .head (pairStep_left_send (by rfl)) (.one hread)

theorem asking (hs : s.Sound) (hcommitted : s.committedIndex < 2 ^ 31) (get : ReplReq) :
    Steps (connStep req smrLog) 4 ⟨.getReplicationAck, .sendRecoveryAck s get, [], []⟩
      ⟨.sendRecoveryLog (entriesFor smrLog s),
        .getRecoveryLog s get (countFor get s) (s.lastIndex + 1) s.smrLog, [], []⟩ := by
  have hindex : (int32Codec.decode (int32Codec.encode (Int32.ofInt s.committedIndex))).toInt =
      s.committedIndex := by
    have hge := hs.committed_ge
    rw [int32Codec.decode_encode, Int32.toInt_ofInt_of_le (by omega) (by omega)]
  have hack := pairStep_left_recv (p := pfaCall req smrLog) (q := ifaCall)
    (s := .getReplicationAck) (t := .sendIndex s get) rfl (int32Codec.length_encode 2) [] []
  have hsent := pairStep_left_recv (p := pfaCall req smrLog) (q := ifaCall)
    (s := .recvCommitedIndex)
    (t := .getRecoveryLog s get (countFor get s) (s.lastIndex + 1) s.smrLog) rfl
    (int32Codec.length_encode (Int32.ofInt s.committedIndex)) [] []
  simp only [int32Codec.decode_encode, if_true, List.append_nil] at hack
  rw [hindex, Link.sendRecoveryLog_some hs.committed_ge, Link.sendEntries_all (fun _ => rfl),
    List.append_nil] at hsent
  exact .head (pairStep_right_send (by rfl)) (.head hack (.head (pairStep_right_send (by rfl))
    (.one hsent)))

theorem shipping (hs : s.Sound) {get : ReplReq} (hlast : get.lastIndex < smrLog.length)
    (hgap : s.needsRecovery get = true) (hall : ReadsAll smrLog s get) :
    ∃ n, Steps (connStep req smrLog) n
      ⟨.sendRecoveryLog (entriesFor smrLog s),
        .getRecoveryLog s get (countFor get s) (s.lastIndex + 1) s.smrLog, [], []⟩
      ⟨.getReack, .getRecoveryLog s get 0
          (s.smrLog.take (s.lastIndex + 1).toNat ++ entriesFor smrLog s).length
          (s.smrLog.take (s.lastIndex + 1).toNat ++ entriesFor smrLog s ++
            s.smrLog.drop (s.lastIndex + 1).toNat), [], []⟩ := by
  have hread := receiving req smrLog (s := s) get (entriesFor smrLog s)
    (s.smrLog.take (s.lastIndex + 1).toNat) (s.smrLog.drop (s.lastIndex + 1).toNat) .getReack
    [] []
  have hfront : ((s.smrLog.take (s.lastIndex + 1).toNat).length : ℤ) = s.lastIndex + 1 := by
    have hge := hs.committed_ge
    have hle := hs.committed_le
    have hlt := hs.last_lt
    rw [List.length_take]
    omega
  rw [List.append_nil, List.take_append_drop, hfront, ← countFor_eq hs hlast hgap hall] at hread
  exact ⟨_, (sending req smrLog (entriesFor smrLog s) _ [] []).trans hread⟩

theorem acknowledging {pc : PfaPc} {next : List UInt8 → PfaPc} (s' : Server)
    (hpc : pfaCall req smrLog pc = .recv int32Codec.size next)
    (hnext : next (int32Codec.encode 1) = .done true) :
    Steps (connStep req smrLog) 2 ⟨pc, .replicationAck s', [], []⟩
      ⟨.done true, .getReplicationRequest s', [], []⟩ := by
  have hread := pairStep_left_recv (q := ifaCall) (t := .getReplicationRequest s') hpc
    (int32Codec.length_encode 1) [] []
  rw [hnext, List.append_nil] at hread
  exact .head (pairStep_right_send (by rfl)) (.one hread)

theorem stuck_done (kept : Bool) (s' : Server) :
    Stuck (connStep req smrLog) ⟨.done kept, .getReplicationRequest s', [], []⟩ := by
  intro side
  cases side with
  | left => exact pairStep_left_eq_none (.inl rfl)
  | right => exact pairStep_right_eq_none (.inr ⟨_, _, rfl, rfl⟩)

theorem stuck_waiting {pc : PfaPc} {next : List UInt8 → PfaPc} (fault : Fault)
    (hpc : pfaCall req smrLog pc = .recv int32Codec.size next) :
    Stuck (connStep req smrLog) ⟨pc, .failed fault, [], []⟩ := by
  intro side
  cases side with
  | left => exact pairStep_left_eq_none (.inr ⟨3, next, hpc, rfl⟩)
  | right => exact pairStep_right_eq_none (.inl rfl)

end Parts

/-- The state in which an exchange leaves both servers and their connection. A backup
whose thread has ended leaves the primary without an answer. -/
def Leaves (e : Exchange) (u : Pair UInt8 PfaPc IfaPc) : Prop :=
  match e.backup with
  | .ok s' => u = ⟨.done e.kept, .getReplicationRequest s', [], []⟩
  | .error fault => u.right = .failed fault ∧ ∀ kept, u.left ≠ .done kept

/-- A starting server always gets the committed index, and no replication is started. -/
theorem query_settles [Zlib] (s : Server) :
    Settles (pairStep queryCall ifaCall) ⟨.sendConnType, .getConnType s, [], []⟩
      ⟨.done (Int32.ofInt s.committedIndex), .closed, [], []⟩ := by
  have hread := pairStep_right_recv (p := queryCall) (q := ifaCall) (s := .recvCommitedIndex)
    (t := .getConnType s) rfl (connTypeCodec.length_encode getCommitedIndexType) [] []
  have hindex := pairStep_left_recv (p := queryCall) (q := ifaCall) (s := .recvCommitedIndex)
    (t := .closed) rfl (int32Codec.length_encode (Int32.ofInt s.committedIndex)) [] []
  rw [List.append_nil, connTypeCodec.decode_encode, if_neg (by decide)] at hread
  rw [List.append_nil, int32Codec.decode_encode] at hindex
  have hsteps : Steps (pairStep queryCall ifaCall) 4 ⟨.sendConnType, .getConnType s, [], []⟩
      ⟨.done (Int32.ofInt s.committedIndex), .closed, [], []⟩ :=
    .head (pairStep_left_send (by rfl)) (.head hread
      (.head (pairStep_right_send (by rfl)) (.one hindex)))
  refine hsteps.settles (pairStep_commutes _ _) fun side => ?_
  cases side with
  | left => exact pairStep_left_eq_none (.inl rfl)
  | right => exact pairStep_right_eq_none (.inl rfl)

section Whole

variable [Zlib] {req : ReplRequest} {smrLog : List MapOp} {s : Server}

theorem finishing {pc : PfaPc} {next : List UInt8 → PfaPc} (e : Exchange)
    (hpc : pfaCall req smrLog pc = .recv int32Codec.size next)
    (hnext : next (int32Codec.encode 1) = .done true)
    (hkept : e.backup.toBool = true → e.kept = true) :
    ∃ n f, Steps (connStep req smrLog) n ⟨pc, .afterRead e.backup, [], []⟩ f ∧
      Stuck (connStep req smrLog) f ∧ Leaves e f := by
  unfold Leaves
  cases hbackup : e.backup with
  | error fault =>
    have hnot (kept : Bool) : pc ≠ .done kept := by
      rintro rfl
      cases hpc
    exact ⟨0, _, .refl _, stuck_waiting req smrLog fault hpc, rfl, hnot⟩
  | ok s' =>
    rw [hkept (by rw [hbackup]; rfl)]
    exact ⟨2, _, acknowledging req smrLog s' hpc hnext, stuck_done req smrLog true s', rfl⟩

theorem backup_clean : (exchange Link.clean false req.toReplReq smrLog s).backup =
    s.ifaReceive (Link.clean.ifaStub req.toReplReq smrLog s) req.toReplReq >>=
      Server.ifaStore req.toReplReq := by
  have hget := Link.clean.getReplicationRequest_of_message rfl req.toReplReq smrLog s
  rw [exchange_received req.toReplReq smrLog s rfl, Server.ifaThreadTurn,
    Server.ifaThreadRead_of_some hget]
  cases s.ifaReceive _ _ >>= Server.ifaStore req.toReplReq <;> rfl

theorem backup_recovered (hs : s.Sound) (hlast : req.toReplReq.lastIndex < smrLog.length)
    (hgap : s.needsRecovery req.toReplReq = true) (hall : ReadsAll smrLog s req.toReplReq) :
    (exchange Link.clean false req.toReplReq smrLog s).backup =
      s.afterGetRecoveryLog req.toReplReq.committedIndex (countFor req.toReplReq s)
        (s.smrLog.take (s.lastIndex + 1).toNat ++ entriesFor smrLog s ++
          s.smrLog.drop (s.lastIndex + 1).toNat, true) >>= Server.ifaStore req.toReplReq := by
  have hge := hs.committed_ge
  have hle := hs.committed_le
  have hlt := hs.last_lt
  have hentry (k : ℕ) (_ : k < (entriesFor smrLog s).length) :
      (Link.clean.ifaStub req.toReplReq smrLog s).recvEntry (0 + k) =
        (entriesFor smrLog s)[k]? := by
    rw [Nat.zero_add, Link.clean_clean.toRecoveryCalls.recvEntry_eq hge, entriesFor]
  have hread := getRecoveryLog_complete _ 0 (s.lastIndex + 1) s.smrLog (by omega) (by omega) hentry
  rw [← countFor_eq hs hlast hgap hall] at hread
  rw [backup_clean, Server.ifaReceive, if_pos hgap, Server.initiateRecovery, if_pos (by rfl)]
  simp only [countFor] at hread ⊢
  rw [hread, ok_bind]

theorem exchanging (hs : s.Sound) (hgap : s.needsRecovery req.toReplReq = false) :
    ∃ n f, Steps (connStep req smrLog) n (idle s) f ∧ Stuck (connStep req smrLog) f ∧
      Leaves (exchange Link.clean false req.toReplReq smrLog s) f := by
  have hbackup : (exchange Link.clean false req.toReplReq smrLog s).backup =
      s.ifaHandle req.toReplReq >>= Server.ifaStore req.toReplReq := by
    rw [backup_clean, Server.ifaReceive, hgap]
    rfl
  have hask := requesting req smrLog (s := s) (by rw [hgap])
  have hpc : pfaCall req smrLog .getReplicationAck = .recv int32Codec.size fun bytes =>
      if int32Codec.decode bytes = 2 then .recvCommitedIndex
      else .done (int32Codec.decode bytes = 1) := rfl
  obtain ⟨n, f, hsteps, hf, hleaves⟩ :=
    finishing (exchange Link.clean false req.toReplReq smrLog s) hpc
      (by simp [int32Codec.decode_encode])
      (exchange_clean_kept Link.clean_clean _ _ hs.committed_ge)
  rw [hbackup] at hsteps
  exact ⟨2 + n, f, hask.trans hsteps, hf, hleaves⟩

theorem recovering (hs : s.Sound) (hcommitted : s.committedIndex < 2 ^ 31)
    (hlast : req.toReplReq.lastIndex < smrLog.length)
    (hgap : s.needsRecovery req.toReplReq = true) (hall : ReadsAll smrLog s req.toReplReq) :
    ∃ n f, Steps (connStep req smrLog) n (idle s) f ∧ Stuck (connStep req smrLog) f ∧
      Leaves (exchange Link.clean false req.toReplReq smrLog s) f := by
  have hask := requesting req smrLog (s := s) (by rw [hgap])
  obtain ⟨m, hship⟩ := shipping req smrLog hs hlast hgap hall
  have hpc : pfaCall req smrLog .getReack = .recv int32Codec.size fun bytes =>
      .done (int32Codec.decode bytes = 1) := rfl
  obtain ⟨n, f, hsteps, hf, hleaves⟩ :=
    finishing (exchange Link.clean false req.toReplReq smrLog s) hpc
      (by simp [int32Codec.decode_encode])
      (exchange_clean_kept Link.clean_clean _ _ hs.committed_ge)
  rw [backup_recovered hs hlast hgap hall] at hsteps
  refine ⟨2 + 4 + m + (n + 1), f, ?_, hf, hleaves⟩
  exact ((hask.trans (asking req smrLog hs hcommitted _)).trans hship).trans
    (.head (pairStep_right_send (by rfl)) hsteps)

theorem exists_run (hs : s.Sound) (hcommitted : s.committedIndex < 2 ^ 31)
    (hlast : req.toReplReq.lastIndex < smrLog.length) (hall : ReadsAll smrLog s req.toReplReq)
    {u : Pair UInt8 PfaPc IfaPc} (hu : u = connected s ∨ u = idle s) :
    ∃ n f, Steps (connStep req smrLog) n u f ∧ Stuck (connStep req smrLog) f ∧
      Leaves (exchange Link.clean false req.toReplReq smrLog s) f := by
  have hidle : ∃ n f, Steps (connStep req smrLog) n (idle s) f ∧ Stuck (connStep req smrLog) f ∧
      Leaves (exchange Link.clean false req.toReplReq smrLog s) f := by
    cases hgap : s.needsRecovery req.toReplReq with
    | false => exact exchanging hs hgap
    | true => exact recovering hs hcommitted hlast hgap hall
  obtain ⟨n, f, hsteps, hf, hleaves⟩ := hidle
  rcases hu with rfl | rfl
  · exact ⟨2 + n, f, (connecting req smrLog).trans hsteps, hf, hleaves⟩
  · exact ⟨n, f, hsteps, hf, hleaves⟩

end Whole

end AtomicExchange

/-- However the steps of the primary and of a sound backup are interleaved, their
exchange ends, and it ends as `exchange` says. -/
theorem exchange_settles [Zlib] {req : ReplRequest} {smrLog : List MapOp} {s : Server}
    (hs : s.Sound) (hcommitted : s.committedIndex < 2 ^ 31)
    (hlast : req.toReplReq.lastIndex < smrLog.length)
    (hall : AtomicExchange.ReadsAll smrLog s req.toReplReq) {u : Pair UInt8 PfaPc IfaPc}
    (hu : u = AtomicExchange.connected s ∨ u = AtomicExchange.idle s) :
    ∃ v, Settles (connStep req smrLog) u v ∧
      AtomicExchange.Leaves (exchange Link.clean false req.toReplReq smrLog s) v := by
  obtain ⟨n, v, hsteps, hv, hleaves⟩ := AtomicExchange.exists_run hs hcommitted hlast hall hu
  exact ⟨v, hsteps.settles (pairStep_commutes _ _) hv, hleaves⟩

/-- Where the primary turns to a live backup over a connection that is in step and loses
nothing, and a recovery reads all that it is sent, all interleavings of the calls of both
lead to what the one step of the system gives: to the same backup and the same socket,
with nothing left on the connection and the backup's thread back at its next request. -/
theorem exchange_atomic [Zlib] {c₀ c : Cluster} (hfresh : Fresh c₀)
    (hrun : Run moveStep Replaying c₀ c) {p : ℤ} {shipOrder : RobotInf} {req : ReplRequest} {i : ℕ}
    {f : FactoryRec} (halive : (c p).alive = true)
    (hadmin : (c p).admin = .replicating shipOrder req.toReplReq i)
    (hf : (c p).server.factoriesRecord[i]? = some f) (hsocket : 0 ≤ f.socket)
    (hpeer : (c f.factoryId).alive = true) (hfree : (c f.factoryId).admin = .waiting)
    (hstale : (c p).stale f.factoryId = false)
    (hall : AtomicExchange.ReadsAll (c p).server.smrLog (c f.factoryId).server req.toReplReq)
    {u : Pair UInt8 PfaPc IfaPc}
    (hu : u = AtomicExchange.connected (c f.factoryId).server ∨
      u = AtomicExchange.idle (c f.factoryId).server) :
    ∃ c' v, step p c (.replicate Link.clean) = some c' ∧
      Settles (connStep req (c p).server.smrLog) u v ∧
      (c' p).stale f.factoryId = false ∧
      ((c' f.factoryId).alive = true →
        v = ⟨.done true, .getReplicationRequest (c' f.factoryId).server, [], []⟩ ∧
        (c' p).server.factoriesRecord = (c p).server.factoriesRecord) ∧
      ((c' f.factoryId).alive = false → ∀ kept, v.left ≠ .done kept) := by
  have hinv := replays_run hfresh hrun
  have hs := (hinv f.factoryId).server
  have hlast : req.toReplReq.lastIndex < (c p).server.smrLog.length := by
    rw [((hinv p).attends _ _ _ hadmin).req_eq]
    exact (hinv p).server.last_lt
  have hcommitted : (c f.factoryId).server.committedIndex < 2 ^ 31 := by
    have hle := hs.committed_le
    have hlt := (hinv f.factoryId).counting.last_lt
    simp only [intMax] at hlt
    omega
  have hne : f.factoryId ≠ p := by
    intro heq
    rw [heq, hadmin] at hfree
    cases hfree
  obtain ⟨v, hv, hleaves⟩ := exchange_settles hs hcommitted hlast hall hu
  have hkept := exchange_clean_kept Link.clean_clean req.toReplReq (c p).server.smrLog
    hs.committed_ge
  have hunread := exchange_not_stale Link.clean_clean.whole req.toReplReq (c p).server.smrLog
    hs.committed_ge fun _ => hall
  generalize hresult : exchange Link.clean false req.toReplReq (c p).server.smrLog
    (c f.factoryId).server = result at hleaves hkept hunread
  refine ⟨Function.update
    (Function.update c f.factoryId ((c f.factoryId).afterExchange result.backup))
    p ((c p).afterPeer shipOrder req.toReplReq i f result.kept result.stale), v, ?_, hv, ?_, ?_⟩
  · simp only [step, halive, hadmin, hf, replicateTo, if_neg (not_lt.mpr hsocket), hpeer, if_true,
      hfree, hstale, hresult]
  · rw [Function.update_self, hunread]
    exact afterPeer_stale hstale
  · rw [Function.update_self, Function.update_of_ne hne, Function.update_self]
    unfold AtomicExchange.Leaves at hleaves
    cases hbackup : result.backup with
    | error fault =>
      rw [hbackup] at hleaves
      exact ⟨fun h => (by cases h), fun _ => hleaves.2⟩
    | ok b =>
      have hbool : result.backup.toBool = true := by rw [hbackup]; rfl
      rw [hbackup, hkept hbool] at hleaves
      refine ⟨fun _ => ⟨hleaves, ?_⟩, fun h => ?_⟩
      · simp [Node.afterPeer, hkept hbool]
      · simp [Node.afterExchange, hpeer] at h

/-- A backup that has missed two orders is sent them, on a new connection. -/
theorem exchange_atomic_duo : ∃ (c d : Cluster) (v : Pair UInt8 PfaPc IfaPc),
    Settles (connStep ⟨0, 1, 2, ⟨1, 7, 3⟩⟩ (c 0).server.smrLog)
      (AtomicExchange.connected (c 1).server) v ∧
    v = ⟨.done true, .getReplicationRequest (d 1).server, [], []⟩ ∧ (c 1).server.smrLog = [] ∧
      (d 1).server.smrLog = [⟨1, 7, 1⟩, ⟨1, 7, 2⟩, ⟨1, 7, 3⟩] := by
  have hlost : Link.broken.sendRequest = false := rfl
  have hbroken {c : Cluster} : Replaying c ⟨0, .replicate Link.broken⟩ := by
    intro o r j g received _ _ _ _ _ hsend
    rw [hlost] at hsend
    cases hsend
  have hbegin {c : Cluster} {n : Int32} (hroom : (c 0).server.lastIndex + 1 < intMax)
      (hdone : (c 0).server.recheckAllow = true ∨
        (c 0).server.committedIndex = (c 0).server.lastIndex) :
      Replaying c ⟨0, .begin (orderOf7 n) fun _ => 5⟩ := ⟨fun _ => hroom, fun _ => hdone⟩
  have hfinish {c : Cluster} : Replaying c ⟨0, .finish⟩ := trivial
  have hclose {c : Cluster} : Replaying c ⟨0, .clientClose 0⟩ := trivial
  have hrun : ∃ c, Run moveStep Replaying duo c ∧ (c 0).alive = true ∧
      (c 0).admin = .replicating (orderOf7 3)
        (⟨0, 1, 2, ⟨1, 7, 3⟩⟩ : ReplRequest).toReplReq 0 ∧
      (c 0).server.factoriesRecord[0]? = some ⟨1, 5⟩ ∧ (c 1).alive = true ∧
      (c 1).admin = .waiting ∧ (c 0).stale 1 = false ∧ (c 1).server.smrLog = [] ∧
      AtomicExchange.ReadsAll (c 0).server.smrLog (c 1).server
        (⟨0, 1, 2, ⟨1, 7, 3⟩⟩ : ReplRequest).toReplReq ∧
      ∃ d, step 0 c (.replicate Link.clean) = some d ∧ (d 1).alive = true ∧
        (d 1).server.smrLog = [⟨1, 7, 1⟩, ⟨1, 7, 2⟩, ⟨1, 7, 3⟩] :=
    ⟨_, (((((((Run.start.next (hbegin (n := 1) (by decide) (.inl rfl)) rfl).next hbroken rfl).next
      hfinish rfl).next (hbegin (n := 2) (by decide) (.inr rfl)) rfl).next hbroken rfl).next
      hfinish rfl).next hclose rfl).next (hbegin (n := 3) (by decide) (.inl rfl)) rfl,
      rfl, rfl, rfl, rfl, rfl, rfl, rfl, fun _ => (by decide), _, rfl, rfl, rfl⟩
  obtain ⟨c, hrun, halive, hadmin, hf, hpeer, hfree, hstale, hempty, hall, d, hd, halive',
    hlog⟩ := hrun
  obtain ⟨c', v, hstep, hv, -, hok, -⟩ := exchange_atomic duo_fresh hrun halive hadmin hf
    (by decide) hpeer hfree hstale hall (.inl rfl)
  obtain rfl := Option.some.inj (hstep.symm.trans hd)
  exact ⟨c, c', v, hv, (hok halive').1, hempty, hlog⟩

end RobotFactory
