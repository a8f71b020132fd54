import RobotFactory.Fragmentation
import RobotFactory.Server

/-!
# The messages of the servers

Each call of the stub that reads a message makes one `recv`, and takes any result
that is not negative for the whole message. What the call stores are then the bytes
that have arrived, and behind them what was found in the new buffer.
-/
namespace RobotFactory
open RecordStream Fragmentation

def orderInfCodec : Codec UInt8 OrderInf :=
  (int32Codec.pair (int32Codec.pair int32Codec)).retract
    (fun x => (x.customerId, x.orderNumber, x.requestType)) (fun x => ⟨x.1, x.2.1, x.2.2⟩)
    (fun _ => rfl)

/-- The words of a `repl_request`. -/
structure ReplRequest where
  factoryId : Int32
  committedIndex : Int32
  lastIndex : Int32
  mapopRecord : MapOp
  deriving DecidableEq, Repr

def replRequestCodec : Codec UInt8 ReplRequest :=
  (int32Codec.pair (int32Codec.pair (int32Codec.pair mapOpCodec))).retract
    (fun x => (x.factoryId, x.committedIndex, x.lastIndex, x.mapopRecord))
    (fun x => ⟨x.1, x.2.1, x.2.2.1, x.2.2.2⟩) (fun _ => rfl)

theorem orderInfCodec_onto : orderInfCodec.Onto :=
  (int32Codec_onto.pair (int32Codec_onto.pair int32Codec_onto)).retract _ (fun _ => rfl)

theorem mapOpCodec_onto : mapOpCodec.Onto :=
  (int32Codec_onto.pair (int32Codec_onto.pair int32Codec_onto)).retract _ (fun _ => rfl)

theorem replRequestCodec_onto : replRequestCodec.Onto :=
  (int32Codec_onto.pair (int32Codec_onto.pair (int32Codec_onto.pair mapOpCodec_onto))).retract _
    (fun _ => rfl)

/-- A connection that is read: the bytes that still arrive before the stream ends, what
the network makes of each of the following calls of `recv`, and what is found in the
buffer that is allocated for it. -/
structure Conn where
  incoming : List UInt8
  network : ℕ → Piece
  memory : ℕ → ℕ → UInt8

def Conn.next (conn : Conn) (incoming : List UInt8) : Conn where
  incoming := incoming
  network k := conn.network (k + 1)
  memory k := conn.memory (k + 1)

/-- `new char[sizeof(*x)]`, `recv`, `check` and `memcpy`, as all of the calls below have
them: the value stored, `none` for -1. -/
def recvStruct {α : Type} (c : Codec UInt8 α) (conn : Conn) : Option α × Conn :=
  match receive conn.incoming c.size (conn.network 0) with
  | none => (none, conn.next conn.incoming)
  | some (got, rest) =>
    (some (c.decode (got ++ ((List.range c.size).map (conn.memory 0)).drop got.length)),
      conn.next rest)

def receiveRequest (conn : Conn) : Option OrderInf × Conn := recvStruct orderInfCodec conn

def getReplicationRequest (conn : Conn) : Option ReplRequest × Conn :=
  recvStruct replRequestCodec conn

/-- The value is the member `is_success`. -/
def getReplicationAck (conn : Conn) : Option Int32 × Conn := recvStruct int32Codec conn

/-- The read of `SendRecoveryLog`; the value is the member `committed_index`. -/
def recvCommitedIndex (conn : Conn) : Option Int32 × Conn := recvStruct int32Codec conn

/-- The read of one turn of the loop of `GetRecoveryLog`. -/
def recvMapOp (conn : Conn) : Option MapOp × Conn := recvStruct mapOpCodec conn

/-- `GetRecoveryLog` on a connection, for the `n` indices from `i` on. -/
def getRecoveryLogOn : ℕ → ℤ → List MapOp → Conn → Except Fault (List MapOp × Bool)
  | 0, _, smrLog, _ => .ok (smrLog, true)
  | n + 1, i, smrLog, conn =>
    match recvMapOp conn with
    | (none, _) => .ok (smrLog, false)
    | (some tempOp, conn) => do
      let smrLog ← vectorInsert smrLog i tempOp
      getRecoveryLogOn n (i + 1) smrLog conn

/-- The request in the words of the server. -/
def ReplRequest.toReplReq (req : ReplRequest) : ReplReq :=
  ⟨req.factoryId.toInt, req.committedIndex.toInt, req.lastIndex.toInt, req.mapopRecord⟩

/-- The entry that the `k`-th turn of the loop reads. -/
def Conn.entry : ℕ → Conn → Option MapOp
  | 0, conn => (recvMapOp conn).1
  | k + 1, conn => (recvMapOp conn).2.entry k

/-- The loop reads one entry after another, each by a call of its own. -/
theorem getRecoveryLogOn_eq {recvEntry : ℕ → Option MapOp} (n k : ℕ) (i : ℤ) (smrLog : List MapOp)
    {conn : Conn} (h : ∀ j, recvEntry (k + j) = conn.entry j) :
    getRecoveryLogOn n i smrLog conn = getRecoveryLog recvEntry n k i smrLog := by
  induction n generalizing k i smrLog conn with
  | zero => rfl
  | succ n ih =>
    have hfirst : recvEntry k = (recvMapOp conn).1 := h 0
    rw [getRecoveryLogOn, getRecoveryLog, hfirst]
    cases hrecv : recvMapOp conn with
    | mk value rest =>
      cases value with
      | none => rfl
      | some op =>
        have hrest : ∀ j, recvEntry (k + 1 + j) = rest.entry j := by
          intro j
          rw [Nat.add_assoc, Nat.add_comm 1 j, h, Conn.entry, hrecv]
        cases hinsert : vectorInsert smrLog i op with
        | error e => simp only [hinsert]; rfl
        | ok log => simp only [hinsert, ok_bind]; exact ih _ _ _ hrest

/-- What the calls of `ifa_thread_read` return on a connection. -/
def Conn.ifaStub (conn : Conn) (recoveryAck : Bool) : IfaStub where
  getReplicationRequest := (getReplicationRequest conn).1.map ReplRequest.toReplReq
  recoveryAck := recoveryAck
  recvEntry k := (getReplicationRequest conn).2.entry k

theorem getRecoveryLogOn_ifaStub (n : ℕ) (i : ℤ) (smrLog : List MapOp) (conn : Conn)
    (recoveryAck : Bool) : getRecoveryLogOn n i smrLog (getReplicationRequest conn).2 =
      getRecoveryLog (conn.ifaStub recoveryAck).recvEntry n 0 i smrLog :=
  getRecoveryLogOn_eq n 0 i smrLog fun j => by rw [Nat.zero_add, Conn.ifaStub]

/-- A message of the servers. -/
inductive StubMessage where
  | order (getOrder : OrderInf)
  | request (req : ReplRequest)
  | ack (isSuccess : Int32)
  | committedIndex (index : Int32)
  | entry (op : MapOp)
  deriving DecidableEq, Repr

namespace StubMessage

def bytes : StubMessage → List UInt8
  | order getOrder => orderInfCodec.encode getOrder
  | request req => replRequestCodec.encode req
  | ack isSuccess => int32Codec.encode isSuccess
  | committedIndex index => int32Codec.encode index
  | entry op => mapOpCodec.encode op

/-- The call that reads a message of this kind, and what it stores. -/
def readBack (conn : Conn) : StubMessage → Option StubMessage × Conn
  | order _ => (receiveRequest conn).map (Option.map order) id
  | request _ => (getReplicationRequest conn).map (Option.map request) id
  | ack _ => (getReplicationAck conn).map (Option.map ack) id
  | committedIndex _ => (recvCommitedIndex conn).map (Option.map committedIndex) id
  | entry _ => (recvMapOp conn).map (Option.map entry) id

theorem exists_codec (m : StubMessage) : ∃ (α : Type) (c : Codec UInt8 α) (wrap : α → StubMessage)
    (x : α), c.Onto ∧ Function.Injective wrap ∧ m = wrap x ∧ m.bytes = c.encode x ∧
      ∀ conn, m.readBack conn = (recvStruct c conn).map (Option.map wrap) id := by
  cases m with
  | order getOrder =>
    exact ⟨_, _, order, getOrder, orderInfCodec_onto, fun _ _ => order.inj, rfl, rfl, fun _ => rfl⟩
  | request req =>
    exact ⟨_, _, request, req, replRequestCodec_onto, fun _ _ => request.inj, rfl, rfl,
      fun _ => rfl⟩
  | ack isSuccess =>
    exact ⟨_, _, ack, isSuccess, int32Codec_onto, fun _ _ => ack.inj, rfl, rfl, fun _ => rfl⟩
  | committedIndex index =>
    exact ⟨_, _, committedIndex, index, int32Codec_onto, fun _ _ => committedIndex.inj, rfl, rfl,
      fun _ => rfl⟩
  | entry op =>
    exact ⟨_, _, entry, op, mapOpCodec_onto, fun _ _ => entry.inj, rfl, rfl, fun _ => rfl⟩

end StubMessage

/-- What is obtained from a connection by a call for each of the messages, up to the
first call that returns -1. -/
def obtained : List StubMessage → Conn → List StubMessage
  | [], _ => []
  | m :: ms, conn =>
    match m.readBack conn with
    | (none, _) => []
    | (some value, conn) => value :: obtained ms conn

/-- The loop of `GetRecoveryLog` appends the entries that its turns obtain to a log that
ends where it starts, and succeeds if each of them obtains one. -/
theorem getRecoveryLogOn_obtained (ops smrLog : List MapOp) (conn : Conn) :
    ∃ values : List MapOp, obtained (ops.map .entry) conn = values.map .entry ∧
      getRecoveryLogOn ops.length smrLog.length smrLog conn =
        .ok (smrLog ++ values, decide (values.length = ops.length)) := by
  induction ops generalizing smrLog conn with
  | nil => exact ⟨[], rfl, by simp [getRecoveryLogOn]⟩
  | cons op ops ih =>
    rw [List.map_cons, obtained, StubMessage.readBack, List.length_cons, getRecoveryLogOn]
    cases hrecv : recvMapOp conn with
    | mk value rest =>
      cases value with
      | none => exact ⟨[], rfl, by simp⟩
      | some value =>
        obtain ⟨values, hvalues, hlog⟩ := ih (smrLog ++ [value]) rest
        refine ⟨value :: values, by simp [hvalues], ?_⟩
        have hinsert : vectorInsert smrLog smrLog.length value = .ok (smrLog ++ [value]) := by
          simp [vectorInsert]
        rw [List.length_append, List.length_singleton, Nat.cast_add, Nat.cast_one] at hlog
        simp only [hinsert, ok_bind, hlog, List.append_assoc, List.singleton_append,
          List.length_cons, Nat.add_right_cancel_iff]

def messageBytes (messages : List StubMessage) : List UInt8 := messages.flatMap StubMessage.bytes

/-- What is obtained when the first `n` bytes of the messages arrive are the messages
from the first one on. A message of which not all bytes have arrived is not obtained;
where no more is obtained, the stream ends within the next message or its call fails. -/
structure Conveyed (messages : List StubMessage) (n : ℕ) (network : ℕ → Piece)
    (got : List StubMessage) : Prop where
  front : got <+: messages
  arrived : (messageBytes got).length ≤ n
  ended : got.length < messages.length →
    n < (messageBytes (messages.take (got.length + 1))).length ∨ network got.length = .failed

/-- The connection on which the messages are written and `n` bytes of them arrive. -/
def Conn.ofMessages (messages : List StubMessage) (n : ℕ) (network : ℕ → Piece)
    (memory : ℕ → ℕ → UInt8) : Conn :=
  ⟨(messageBytes messages).take n, network, memory⟩

/-- The messages survive the cutting of the stream, whatever is found in memory. -/
def SurvivesCutting (messages : List StubMessage) (n : ℕ) (network : ℕ → Piece) : Prop :=
  ∀ memory, Conveyed messages n network
    (obtained messages (Conn.ofMessages messages n network memory))

/-- Up to the first call that fails, each call of `recv` gets the whole of the message
that it is made for. -/
def Uncut : List StubMessage → ℕ → (ℕ → Piece) → Prop
  | [], _, _ => True
  | m :: ms, n, network =>
    match network 0 with
    | .failed => True
    | .upTo k =>
      m.bytes.length ≤ min n (k + 1) ∧ Uncut ms (n - m.bytes.length) fun j => network (j + 1)

theorem recvStruct_failed {α : Type} (c : Codec UInt8 α) {conn : Conn}
    (h : conn.network 0 = .failed) : recvStruct c conn = (none, conn.next conn.incoming) := by
  simp only [recvStruct, h, receive_failed]

theorem recvStruct_upTo {α : Type} (c : Codec UInt8 α) {conn : Conn} {k : ℕ}
    (h : conn.network 0 = .upTo k) : recvStruct c conn =
      (some (c.decode (conn.incoming.take (min c.size (k + 1)) ++
        ((List.range c.size).map (conn.memory 0)).drop
          (conn.incoming.take (min c.size (k + 1))).length)),
        conn.next (conn.incoming.drop (min c.size (k + 1)))) := by
  simp only [recvStruct, h, receive_upTo]

/-- A message of which all bytes are there, and are let through, is stored as it was sent. -/
theorem recvStruct_whole {α : Type} (c : Codec UInt8 α) (x : α) {conn : Conn} {k : ℕ}
    {rest : List UInt8} (h : conn.network 0 = .upTo k) (hin : conn.incoming = c.encode x ++ rest)
    (hk : c.size ≤ k + 1) : recvStruct c conn = (some x, conn.next rest) := by
  have hlen := c.length_encode x
  have hbuffer : ((List.range c.size).map (conn.memory 0)).drop c.size = [] := by simp
  rw [recvStruct_upTo c h, Nat.min_eq_left hk, hin, List.take_left' hlen, List.drop_left' hlen,
    hlen, hbuffer, List.append_nil, c.decode_encode]

/-- If the stream or the call is too short, memory can make the value stored another one. -/
theorem recvStruct_cut {α : Type} {c : Codec UInt8 α} (hc : c.Onto) (x : α)
    {incoming : List UInt8} {network : ℕ → Piece} {k : ℕ} (h : network 0 = .upTo k)
    (hcut : ¬c.size ≤ min incoming.length (k + 1)) : ∃ b value rest,
      recvStruct c ⟨incoming, network, fun _ _ => b⟩ = (some value, rest) ∧ value ≠ x := by
  have hgot : (incoming.take (min c.size (k + 1))).length < c.size := by
    rw [List.length_take]
    omega
  have : Nontrivial UInt8 := ⟨0, 1, by decide⟩
  obtain ⟨b, hne⟩ := hc.exists_fill_ne x hgot
  refine ⟨b, _, _, recvStruct_upTo c h, ?_⟩
  simpa only [List.map_const', List.length_range, List.drop_replicate] using hne

section Obtained

variable (m : StubMessage) (ms : List StubMessage) {conn : Conn}

@[simp] theorem messageBytes_cons :
    messageBytes (m :: ms) = m.bytes ++ messageBytes ms := rfl

theorem obtained_failed (h : conn.network 0 = .failed) : obtained (m :: ms) conn = [] := by
  obtain ⟨α, c, wrap, x, -, -, -, -, hread⟩ := m.exists_codec
  rw [obtained, hread, recvStruct_failed c h]
  rfl

theorem obtained_whole {k : ℕ} {rest : List UInt8} (h : conn.network 0 = .upTo k)
    (hin : conn.incoming = m.bytes ++ rest) (hk : m.bytes.length ≤ k + 1) :
    obtained (m :: ms) conn = m :: obtained ms (conn.next rest) := by
  obtain ⟨α, c, wrap, x, -, -, hm, hbytes, hread⟩ := m.exists_codec
  rw [hbytes, c.length_encode] at hk
  rw [hbytes] at hin
  rw [obtained, hread, recvStruct_whole c x h hin hk, hm]
  rfl

/-- A call for a message that does not fail stores something. -/
theorem obtained_upTo {k : ℕ} (h : conn.network 0 = .upTo k) : ∃ value rest,
    obtained (m :: ms) conn = value :: obtained ms (conn.next rest) := by
  obtain ⟨α, c, wrap, x, -, -, -, -, hread⟩ := m.exists_codec
  rw [obtained, hread, recvStruct_upTo c h]
  exact ⟨_, _, rfl⟩

theorem obtained_cut {incoming : List UInt8} {network : ℕ → Piece} {k : ℕ}
    (h : network 0 = .upTo k) (hcut : ¬m.bytes.length ≤ min incoming.length (k + 1)) :
    ∃ b value rest, obtained (m :: ms) ⟨incoming, network, fun _ _ => b⟩ =
      value :: obtained ms rest ∧ value ≠ m := by
  obtain ⟨α, c, wrap, x, hc, hwrap, hm, hbytes, hread⟩ := m.exists_codec
  rw [hbytes, c.length_encode] at hcut
  obtain ⟨b, value, rest, hrecv, hne⟩ := recvStruct_cut hc x h hcut
  refine ⟨b, wrap value, rest, ?_, ?_⟩
  · rw [obtained, hread, hrecv]
    rfl
  · rw [hm]
    exact fun heq => hne (hwrap heq)

end Obtained

theorem network_obtained {ms : List StubMessage} {conn : Conn}
    (h : (obtained ms conn).length < ms.length) :
    conn.network (obtained ms conn).length = .failed := by
  induction ms generalizing conn with
  | nil => simp at h
  | cons m ms ih =>
    cases hpiece : conn.network 0 with
    | failed =>
      rw [obtained_failed m ms hpiece]
      exact hpiece
    | upTo k =>
      obtain ⟨value, rest, hobtained⟩ := obtained_upTo m ms hpiece
      rw [hobtained, List.length_cons, List.length_cons, Nat.add_lt_add_iff_right] at h
      rw [hobtained, List.length_cons]
      exact ih h

theorem Uncut.cons_iff {m : StubMessage} {ms : List StubMessage} {n k : ℕ} {network : ℕ → Piece}
    (h : network 0 = .upTo k) : Uncut (m :: ms) n network ↔
      m.bytes.length ≤ min n (k + 1) ∧
        Uncut ms (n - m.bytes.length) fun j => network (j + 1) := by
  simp only [Uncut, h]

theorem take_messageBytes_cons {m : StubMessage} (ms : List StubMessage) {n : ℕ}
    (h : m.bytes.length ≤ n) : (messageBytes (m :: ms)).take n =
      m.bytes ++ (messageBytes ms).take (n - m.bytes.length) := by
  rw [messageBytes_cons, List.take_append, List.take_of_length_le h]

theorem obtained_ofMessages {m : StubMessage} (ms : List StubMessage) {n k : ℕ}
    {network : ℕ → Piece} (memory : ℕ → ℕ → UInt8) (h : network 0 = .upTo k)
    (hwhole : m.bytes.length ≤ min n (k + 1)) :
    obtained (m :: ms) (Conn.ofMessages (m :: ms) n network memory) =
      m :: obtained ms (Conn.ofMessages ms (n - m.bytes.length) (fun j => network (j + 1))
        fun j => memory (j + 1)) :=
  obtained_whole m ms h (take_messageBytes_cons ms (hwhole.trans (min_le_left _ _)))
    (hwhole.trans (min_le_right _ _))

theorem obtained_uncut {ms : List StubMessage} {n : ℕ} {network : ℕ → Piece}
    (h : Uncut ms n network) (memory : ℕ → ℕ → UInt8) :
    obtained ms (Conn.ofMessages ms n network memory) <+: ms ∧
      (messageBytes (obtained ms (Conn.ofMessages ms n network memory))).length ≤ n := by
  induction ms generalizing n network memory with
  | nil => exact ⟨List.prefix_rfl, Nat.zero_le n⟩
  | cons m ms ih =>
    cases hpiece : network 0 with
    | failed =>
      rw [obtained_failed m ms hpiece]
      exact ⟨List.nil_prefix, Nat.zero_le n⟩
    | upTo k =>
      obtain ⟨hwhole, hrest⟩ := (Uncut.cons_iff hpiece).mp h
      obtain ⟨hfront, harrived⟩ := ih hrest fun j => memory (j + 1)
      rw [obtained_ofMessages ms memory hpiece hwhole, messageBytes_cons, List.length_append]
      refine ⟨(List.prefix_cons_inj m).mpr hfront, ?_⟩
      omega

theorem obtained_not_front {ms : List StubMessage} {n : ℕ} {network : ℕ → Piece}
    (h : ¬Uncut ms n network) :
    ∃ b, ¬obtained ms (Conn.ofMessages ms n network fun _ _ => b) <+: ms := by
  induction ms generalizing n network with
  | nil => exact absurd trivial h
  | cons m ms ih =>
    cases hpiece : network 0 with
    | failed => simp [Uncut, hpiece] at h
    | upTo k =>
      rw [Uncut.cons_iff hpiece] at h
      by_cases hwhole : m.bytes.length ≤ min n (k + 1)
      · obtain ⟨b, hnot⟩ := ih fun hrest => h ⟨hwhole, hrest⟩
        refine ⟨b, ?_⟩
        rwa [obtained_ofMessages ms _ hpiece hwhole, List.prefix_cons_inj]
      · have hcut : ¬m.bytes.length ≤
            min ((messageBytes (m :: ms)).take n).length (k + 1) := by
          rw [List.length_take]
          omega
        obtain ⟨b, value, rest, hobtained, hne⟩ := obtained_cut m ms hpiece hcut
        refine ⟨b, ?_⟩
        rw [Conn.ofMessages, hobtained, List.cons_prefix_cons]
        exact fun hfront => hne hfront.1

/-- The messages survive the cutting of the stream if and only if, up to the first call
that fails, each call of `recv` gets the whole of its message. -/
theorem messages_survive_iff (messages : List StubMessage) (n : ℕ) (network : ℕ → Piece) :
    SurvivesCutting messages n network ↔ Uncut messages n network := by
  constructor
  · intro hall
    by_contra hcut
    obtain ⟨b, hnot⟩ := obtained_not_front hcut
    exact hnot (hall fun _ _ => b).front
  · intro huncut memory
    obtain ⟨hfront, harrived⟩ := obtained_uncut huncut memory
    exact ⟨hfront, harrived, fun hlt => .inr (network_obtained hlt)⟩

/-- Two orders of customer 7, which arrive whole; the first call gets four bytes, and
the second one twelve. -/
theorem orders_shifted :
    obtained [.order ⟨7, 1, 1⟩, .order ⟨7, 2, 1⟩]
      (Conn.ofMessages [.order ⟨7, 1, 1⟩, .order ⟨7, 2, 1⟩] 24
        (fun i => if i = 0 then .upTo 3 else .upTo 11) fun _ _ => 0) =
      [.order ⟨7, 0, 0⟩, .order ⟨1, 1, 7⟩] ∧
    ¬SurvivesCutting [.order ⟨7, 1, 1⟩, .order ⟨7, 2, 1⟩] 24
      fun i => if i = 0 then .upTo 3 else .upTo 11 := by
  have hshifted : obtained [.order ⟨7, 1, 1⟩, .order ⟨7, 2, 1⟩]
      (Conn.ofMessages [.order ⟨7, 1, 1⟩, .order ⟨7, 2, 1⟩] 24
        (fun i => if i = 0 then .upTo 3 else .upTo 11) fun _ _ => 0) =
      [.order ⟨7, 0, 0⟩, .order ⟨1, 1, 7⟩] := by decide +kernel
  refine ⟨hshifted, fun hall => ?_⟩
  have hfront := (hall fun _ _ => 0).front
  rw [hshifted] at hfront
  revert hfront
  decide

end RobotFactory
