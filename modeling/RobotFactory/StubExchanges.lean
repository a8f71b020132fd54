import RobotFactory.SocketLoops

/-!
# Exchanges of marshalled messages

A client sends requests to a server, which answers each by a robot or by a customer
record. Whatever becomes of the pieces in which the bytes are transferred, each call of
the stubs returns the object that the other side has marshalled, or a default one, unless
`SIGPIPE` ends the process within it.
-/
namespace RobotFactory.Marshalling
open RecordStream Fragmentation

/-- `char buffer[32]`, with what is found in it. -/
structure Buffer where
  bytes : List UInt8
  length_bytes : bytes.length = 32

/-- What a call returns, its buffer when it does, and the socket after it. -/
structure Received (α : Type) where
  value : α
  buffer : List UInt8
  socket : Socket

def Received.map {α β : Type} (f : α → β) (r : Received α) : Received β :=
  ⟨f r.value, r.buffer, r.socket⟩

section Stubs

variable {α : Type} (C : MessageClass α)

/-- `Recv`, and `Unmarshal` into a default object if it succeeds. -/
def receiveObject (buffer : List UInt8) (s : Socket) : Received α :=
  match s.recv buffer C.size with
  | (true, buffer, s) => ⟨C.unmarshal buffer, buffer, s⟩
  | (false, buffer, s) => ⟨C.new, buffer, s⟩

/-- `Marshal` and `Send`. -/
def sendObject (x : α) (buffer : Buffer) (s : Socket) : Received Bool :=
  match s.send (C.marshal x buffer.bytes) C.size with
  | (sent, s) => ⟨sent, C.marshal x buffer.bytes, s⟩

/-- A request, and the reply to it in the same buffer. -/
def exchangeObject (request : CustomerRequest) (buffer : Buffer) (s : Socket) : Received α :=
  let sent := sendObject customerRequestClass request buffer s
  if sent.value then receiveObject C sent.buffer sent.socket
  else ⟨C.new, sent.buffer, sent.socket⟩

end Stubs

def order (request : CustomerRequest) (buffer : Buffer) (s : Socket) : Received RobotInfo :=
  exchangeObject robotInfoClass request buffer s

def readRecord (request : CustomerRequest) (buffer : Buffer) (s : Socket) :
    Received CustomerRecord :=
  exchangeObject customerRecordClass request buffer s

def receiveRequest (buffer : Buffer) (s : Socket) : Received CustomerRequest :=
  receiveObject customerRequestClass buffer.bytes s

def shipRobot (info : RobotInfo) (buffer : Buffer) (s : Socket) : Received Bool :=
  sendObject robotInfoClass info buffer s

def returnRecord (cr : CustomerRecord) (buffer : Buffer) (s : Socket) : Received Bool :=
  sendObject customerRecordClass cr buffer s

inductive Response where
  | robotInfo (info : RobotInfo)
  | customerRecord (cr : CustomerRecord)
  deriving DecidableEq, Repr

namespace Response

def fresh : Response → Response
  | robotInfo _ => robotInfo .new
  | customerRecord _ => customerRecord .new

def bytes : Response → List UInt8
  | robotInfo info => robotInfoCodec.encode info
  | customerRecord cr => customerRecordCodec.encode cr

end Response

/-- A request and the reply to it, and what is found in the buffers of the client's call
and of the two calls of the server. -/
structure Exchange where
  request : CustomerRequest
  response : Response
  clientBuffer : Buffer
  receiveBuffer : Buffer
  replyBuffer : Buffer

/-- The client's call: `Order` or `ReadRecord`. -/
def clientTurn (e : Exchange) (s : Socket) : Received Response :=
  match e.response with
  | .robotInfo _ => (order e.request e.clientBuffer s).map .robotInfo
  | .customerRecord _ => (readRecord e.request e.clientBuffer s).map .customerRecord

/-- The two calls of the server. -/
structure ServerTurn where
  received : Received CustomerRequest
  replied : Received Bool

def reply (response : Response) (buffer : Buffer) (s : Socket) : Received Bool :=
  match response with
  | .robotInfo info => shipRobot info buffer s
  | .customerRecord cr => returnRecord cr buffer s

/-- `ReceiveRequest`, then `ShipRobot` or `ReturnRecord`. -/
def serverTurn (e : Exchange) (s : Socket) : ServerTurn :=
  let received := receiveRequest e.receiveBuffer s
  ⟨received, reply e.response e.replyBuffer received.socket⟩

/-- One party of all exchanges: its turns as far as the process lives to their end, and
its socket after them. -/
def run {τ : Type} (turn : Exchange → Socket → τ) (after : τ → Socket) :
    List Exchange → Socket → List τ × Socket
  | [], s => ([], s)
  | e :: es, s =>
    let t := turn e s
    if (after t).killed then ([], after t)
    else
      let rest := run turn after es (after t)
      (t :: rest.1, rest.2)

def clientRun : List Exchange → Socket → List (Received Response) × Socket :=
  run clientTurn fun r => r.socket

def serverRun : List Exchange → Socket → List ServerTurn × Socket :=
  run serverTurn fun t => t.replied.socket

def requestBytes (es : List Exchange) : List UInt8 :=
  es.flatMap fun e => customerRequestCodec.encode e.request

def responseBytes (es : List Exchange) : List UInt8 := es.flatMap fun e => e.response.bytes

/-- A call that is to return the object `x`, up to which the other side has marshalled
the bytes `read`: it returns `x`, with the stream at the next message, or the default
object, with the socket closed. The former if no system call has failed and the stream
has brought all of them, the latter if one has or it has not; and the buffer has not
grown, so that nothing has been written behind it. -/
structure Received.AllOrNothing {α : Type} (network : Network) (stream read : List UInt8)
    (x fresh : α) (r : Received α) : Prop where
  length_buffer : r.buffer.length = 32
  outcome :
    (r.value = x ∧ r.socket.isInitialized = true ∧ stream = read ++ r.socket.incoming ∧
      network.Unfailed r.socket.recvs r.socket.sends) ∨
    (r.value = fresh ∧ r.socket.isInitialized = false ∧
      (¬network.Unfailed r.socket.recvs r.socket.sends ∨ stream.length < read.length))

/-- Each call of `Order` and `ReadRecord` returns its reply, or nothing. -/
def ClientAllOrNothing (es : List Exchange) (network : Network) (stream : List UInt8) : Prop :=
  (clientRun es (.connected network stream)).1.length = es.length ∧
    ∀ (i : ℕ) (e : Exchange) (r : Received Response), es[i]? = some e →
      (clientRun es (.connected network stream)).1[i]? = some r →
      r.AllOrNothing network stream (responseBytes (es.take (i + 1))) e.response e.response.fresh

/-- Each call of `ReceiveRequest` returns its request, or nothing; and so does each of
`ShipRobot` and `ReturnRecord`, with no reply marshalled past its buffer. -/
def ServerAllOrNothing (es : List Exchange) (network : Network) (stream : List UInt8) : Prop :=
  (serverRun es (.connected network stream)).1.length = es.length ∧
    ∀ (i : ℕ) (e : Exchange) (t : ServerTurn), es[i]? = some e →
      (serverRun es (.connected network stream)).1[i]? = some t →
      t.received.AllOrNothing network stream (requestBytes (es.take (i + 1))) e.request .new ∧
        t.replied.buffer.length = 32

section Calls

variable {network : Network} {stream read sent : List UInt8} {s : Socket} {α : Type}
  (C : MessageClass α)

theorem allOrNothing_of_inStep {r : Received α} {x fresh : α} (hlen : r.buffer.length = 32)
    (hvalue : r.value = x) (h : r.socket.InStep network stream read sent) :
    r.AllOrNothing network stream read x fresh :=
  ⟨hlen, .inl ⟨hvalue, h.opened, h.position, h.unfailed⟩⟩

theorem allOrNothing_of_lost {r : Received α} {x fresh : α} (hlen : r.buffer.length = 32)
    (hvalue : r.value = fresh) (h : r.socket.Lost network stream read.length sent) :
    r.AllOrNothing network stream read x fresh :=
  ⟨hlen, .inr ⟨hvalue, h.closed, h.cause⟩⟩

theorem Received.AllOrNothing.map {β : Type} {f : α → β} {x fresh : α} {r : Received α}
    (h : r.AllOrNothing network stream read x fresh) :
    (r.map f).AllOrNothing network stream read (f x) (f fresh) where
  length_buffer := h.length_buffer
  outcome := h.outcome.imp (fun ⟨hvalue, hrest⟩ => ⟨congrArg f hvalue, hrest⟩)
    fun ⟨hvalue, hrest⟩ => ⟨congrArg f hvalue, hrest⟩

theorem receiveObject_tracks {buffer : List UInt8} (h : s.Tracks network stream read sent)
    (hlen : buffer.length = 32) : ∃ got,
      (receiveObject C buffer s).socket.Tracks network stream (read ++ got) sent := by
  have hresult := h.recv C.size_pos (C.size_le.trans hlen.ge)
  rw [receiveObject]
  generalize s.recv buffer C.size = result at hresult
  cases hresult with
  | whole got s' hgot hstep => exact ⟨got, .inl hstep⟩
  | lost buffer' s' hbuffer hlost =>
    refine ⟨List.replicate C.size 0, .inr ?_⟩
    rwa [List.length_append, List.length_replicate]

/-- If it is the object `x` that arrives, it is received, or nothing is. -/
theorem receiveObject_allOrNothing {buffer rest : List UInt8} {x : α}
    (h : s.Tracks network stream read sent) (hlen : buffer.length = 32)
    (hfront : stream <+: read ++ (C.codec.encode x ++ rest)) :
    (receiveObject C buffer s).AllOrNothing network stream (read ++ C.codec.encode x) x C.new ∧
      (receiveObject C buffer s).socket.Tracks network stream (read ++ C.codec.encode x) sent := by
  have hresult := h.recv C.size_pos (C.size_le.trans hlen.ge)
  have hx := C.length_encode x
  rw [receiveObject]
  generalize s.recv buffer C.size = result at hresult
  cases hresult with
  | whole got s' hgot hstep =>
    have hblock : got = C.codec.encode x := by
      rw [hstep.position, List.append_assoc, List.prefix_append_right_inj] at hfront
      exact eq_of_front ((List.prefix_append got _).trans hfront) (hgot.trans hx.symm)
    subst hblock
    refine ⟨allOrNothing_of_inStep ?_ (C.unmarshal_overwrite x buffer) hstep, .inl hstep⟩
    have hle := C.size_le
    rw [length_overwrite]
    omega
  | lost buffer' s' hbuffer hlost =>
    rw [← hx, ← List.length_append] at hlost
    exact ⟨allOrNothing_of_lost (hbuffer.trans hlen) rfl hlost, .inr hlost⟩

theorem sendObject_result (x : α) (buffer : Buffer)
    (h : s.Tracks network stream read sent) :
    (sendObject C x buffer s).buffer.length = 32 ∧
      Socket.SendResult network stream read sent (C.codec.encode x)
        ((sendObject C x buffer s).value, (sendObject C x buffer s).socket) := by
  have hresult := h.send (C.marshal x buffer.bytes) C.size_pos
  rw [C.take_marshal] at hresult
  exact ⟨C.length_marshal x buffer.length_bytes, hresult⟩

theorem sendObject_tracks (x : α) (buffer : Buffer)
    (h : s.Tracks network stream read sent) :
    (sendObject C x buffer s).socket.Tracks network stream read (sent ++ C.codec.encode x) := by
  have hresult := (sendObject_result C x buffer h).2
  generalize sendObject C x buffer s = r at hresult
  obtain ⟨value, _, s'⟩ := r
  cases hresult with
  | whole _ hstep => exact .inl hstep
  | lost _ hlost => exact .inr hlost

theorem exchangeObject_tracks (request : CustomerRequest) (buffer : Buffer)
    (h : s.Tracks network stream read sent) : ∃ got,
      (exchangeObject C request buffer s).socket.Tracks network stream (read ++ got)
        (sent ++ customerRequestCodec.encode request) := by
  have hlen := (sendObject_result customerRequestClass request buffer h).1
  have hsent := sendObject_tracks customerRequestClass request buffer h
  rw [exchangeObject]
  split_ifs
  · exact receiveObject_tracks C hsent hlen
  · exact ⟨[], by rwa [List.append_nil]⟩

theorem exchangeObject_allOrNothing (request : CustomerRequest) (buffer : Buffer)
    {rest : List UInt8} {x : α} (h : s.Tracks network stream read sent)
    (hfront : stream <+: read ++ (C.codec.encode x ++ rest)) :
    (exchangeObject C request buffer s).AllOrNothing network stream
        (read ++ C.codec.encode x) x C.new ∧
      (exchangeObject C request buffer s).socket.Tracks network stream
        (read ++ C.codec.encode x) (sent ++ customerRequestCodec.encode request) := by
  obtain ⟨hlen, hresult⟩ := sendObject_result customerRequestClass request buffer h
  have hsent := sendObject_tracks customerRequestClass request buffer h
  rw [exchangeObject]
  split_ifs with hvalue
  · exact receiveObject_allOrNothing C hsent hlen hfront
  · generalize sendObject customerRequestClass request buffer s = r at *
    obtain ⟨value, buffer', s'⟩ := r
    cases hresult with
    | whole _ _ => exact absurd rfl hvalue
    | lost _ hlost =>
      have hle : read.length ≤ (read ++ C.codec.encode x).length := by simp
      have hmore := hlost.mono hle List.prefix_rfl
      exact ⟨allOrNothing_of_lost hlen rfl hmore, .inr hmore⟩

theorem clientTurn_tracks (e : Exchange) (h : s.Tracks network stream read sent) : ∃ got,
    (clientTurn e s).socket.Tracks network stream (read ++ got)
      (sent ++ customerRequestCodec.encode e.request) := by
  unfold clientTurn
  cases e.response with
  | robotInfo info => exact exchangeObject_tracks robotInfoClass e.request e.clientBuffer h
  | customerRecord cr =>
    exact exchangeObject_tracks customerRecordClass e.request e.clientBuffer h

theorem clientTurn_allOrNothing {e : Exchange} {rest : List UInt8}
    (h : s.Tracks network stream read sent)
    (hfront : stream <+: read ++ (e.response.bytes ++ rest)) :
    (clientTurn e s).AllOrNothing network stream (read ++ e.response.bytes) e.response
        e.response.fresh ∧
      (clientTurn e s).socket.Tracks network stream (read ++ e.response.bytes)
        (sent ++ customerRequestCodec.encode e.request) := by
  unfold clientTurn
  cases hresponse : e.response with
  | robotInfo info =>
    rw [hresponse] at hfront
    have hresult := exchangeObject_allOrNothing robotInfoClass e.request e.clientBuffer h hfront
    exact ⟨hresult.1.map, hresult.2⟩
  | customerRecord cr =>
    rw [hresponse] at hfront
    have hresult := exchangeObject_allOrNothing customerRecordClass e.request e.clientBuffer h
      hfront
    exact ⟨hresult.1.map, hresult.2⟩

theorem reply_tracks (response : Response) (buffer : Buffer)
    (h : s.Tracks network stream read sent) :
    (reply response buffer s).buffer.length = 32 ∧
      (reply response buffer s).socket.Tracks network stream read (sent ++ response.bytes) := by
  cases response with
  | robotInfo info =>
    exact ⟨(sendObject_result robotInfoClass info buffer h).1,
      sendObject_tracks robotInfoClass info buffer h⟩
  | customerRecord cr =>
    exact ⟨(sendObject_result customerRecordClass cr buffer h).1,
      sendObject_tracks customerRecordClass cr buffer h⟩

theorem serverTurn_tracks (e : Exchange) (h : s.Tracks network stream read sent) : ∃ got,
    (serverTurn e s).replied.socket.Tracks network stream (read ++ got)
      (sent ++ e.response.bytes) := by
  obtain ⟨got, hreceived⟩ := receiveObject_tracks customerRequestClass h
    e.receiveBuffer.length_bytes
  exact ⟨got, (reply_tracks e.response e.replyBuffer hreceived).2⟩

theorem serverTurn_allOrNothing {e : Exchange} {rest : List UInt8}
    (h : s.Tracks network stream read sent)
    (hfront : stream <+: read ++ (customerRequestCodec.encode e.request ++ rest)) :
    ((serverTurn e s).received.AllOrNothing network stream
        (read ++ customerRequestCodec.encode e.request) e.request .new ∧
      (serverTurn e s).replied.buffer.length = 32) ∧
      (serverTurn e s).replied.socket.Tracks network stream
        (read ++ customerRequestCodec.encode e.request) (sent ++ e.response.bytes) := by
  obtain ⟨hvalue, hreceived⟩ := receiveObject_allOrNothing customerRequestClass h
    e.receiveBuffer.length_bytes hfront
  obtain ⟨hlen, hreplied⟩ := reply_tracks e.response e.replyBuffer hreceived
  exact ⟨⟨hvalue, hlen⟩, hreplied⟩

end Calls

section Rule

variable {τ : Type} (turn : Exchange → Socket → τ) (after : τ → Socket)

theorem run_cons_of_killed {e : Exchange} {es : List Exchange} {s : Socket}
    (h : (after (turn e s)).killed = true) :
    run turn after (e :: es) s = ([], after (turn e s)) := by simp [run, h]

theorem run_cons_of_living {e : Exchange} {es : List Exchange} {s : Socket}
    (h : (after (turn e s)).killed = false) :
    run turn after (e :: es) s = (turn e s :: (run turn after es (after (turn e s))).1,
      (run turn after es (after (turn e s))).2) := by simp [run, h]

/-- What holds before the first turn, and is kept by every turn, holds in the end; what
each turn yields from it holds of each turn that returns; and all do unless the process
is killed. -/
theorem run_rule {es : List Exchange} (Inv : List Exchange → Socket → Prop)
    (Yields : List Exchange → Exchange → τ → Prop)
    (hturn : ∀ done e rest s, done ++ e :: rest = es → Inv done s →
      Yields (done ++ [e]) e (turn e s) ∧ Inv (done ++ [e]) (after (turn e s)))
    {done rest : List Exchange} {s : Socket} (hes : done ++ rest = es) (h : Inv done s)
    (hliving : s.killed = false) :
    ((run turn after rest s).1.length = rest.length ↔
        (run turn after rest s).2.killed = false) ∧
      (∀ i e t, rest[i]? = some e → (run turn after rest s).1[i]? = some t →
        Yields (done ++ rest.take (i + 1)) e t) ∧
      ∃ done', done' <+: es ∧ Inv done' (run turn after rest s).2 := by
  induction rest generalizing done s with
  | nil =>
    rw [List.append_nil] at hes
    exact ⟨by simp [run, hliving], by simp, done, hes ▸ List.prefix_rfl, h⟩
  | cons e rest ih =>
    obtain ⟨hyields, hinv⟩ := hturn done e rest s hes h
    cases hkilled : (after (turn e s)).killed with
    | true =>
      rw [run_cons_of_killed turn after hkilled]
      refine ⟨by simp [hkilled], by simp, done ++ [e], ?_, hinv⟩
      exact ⟨rest, by rw [List.append_assoc, List.singleton_append, hes]⟩
    | false =>
      obtain ⟨hlen, hall, hend⟩ := ih (by rwa [List.append_assoc]) hinv hkilled
      rw [run_cons_of_living turn after hkilled]
      refine ⟨by simpa using hlen, ?_, hend⟩
      intro i e' t he ht
      cases i with
      | zero =>
        obtain rfl := Option.some.inj he
        obtain rfl := Option.some.inj ht
        exact hyields
      | succ i =>
        have hmore := hall i e' t he ht
        rwa [List.append_assoc] at hmore

end Rule

section Runs

variable {τ : Type} (turn : Exchange → Socket → τ) (after : τ → Socket)
  {arriving writing : Exchange → List UInt8} {network : Network} {stream : List UInt8}

/-- A party of which each turn, whatever arrives, writes a block as far as it can writes
the blocks of all turns from the first one on. -/
theorem run_outgoing (es : List Exchange)
    (hturn : ∀ e s read sent, s.Tracks network stream read sent →
      ∃ got, (after (turn e s)).Tracks network stream (read ++ got) (sent ++ writing e)) :
    (run turn after es (.connected network stream)).2.outgoing <+: es.flatMap writing := by
  have hstep : ∀ done e rest s, done ++ e :: rest = es →
      (∃ read, s.Tracks network stream read (done.flatMap writing)) →
      True ∧ ∃ read, (after (turn e s)).Tracks network stream read
        ((done ++ [e]).flatMap writing) := by
    rintro done e rest s - ⟨read, htracks⟩
    obtain ⟨got, hnext⟩ := hturn e s read _ htracks
    exact ⟨trivial, read ++ got, by simpa using hnext⟩
  obtain ⟨-, -, done, ⟨rest, hes⟩, read, htracks⟩ := run_rule turn after
    (fun done s => ∃ read, s.Tracks network stream read (done.flatMap writing))
    (fun _ _ _ => True) hstep (List.nil_append es) ⟨[], Socket.tracks_connected network stream⟩
    rfl
  refine htracks.outgoing.trans ?_
  rw [← hes, List.flatMap_append]
  exact List.prefix_append _ _

/-- What each turn yields if it is its own block that arrives, all turns yield if it is
the front of all blocks and no call of `send` raises the signal. -/
theorem run_yields {es : List Exchange} (Yields : List UInt8 → Exchange → τ → Prop)
    (hturn : ∀ e s read sent rest, s.Tracks network stream read sent →
      stream <+: read ++ (arriving e ++ rest) →
      Yields (read ++ arriving e) e (turn e s) ∧
        (after (turn e s)).Tracks network stream (read ++ arriving e) (sent ++ writing e))
    (hfront : stream <+: es.flatMap arriving) :
    ((run turn after es (.connected network stream)).1.length = es.length ∧
      ∀ i e t, es[i]? = some e →
        (run turn after es (.connected network stream)).1[i]? = some t →
        Yields ((es.take (i + 1)).flatMap arriving) e t) ↔
      ¬network.Signals (run turn after es (.connected network stream)).2.sends := by
  have hstep : ∀ done e rest s, done ++ e :: rest = es →
      s.Tracks network stream (done.flatMap arriving) (done.flatMap writing) →
      Yields ((done ++ [e]).flatMap arriving) e (turn e s) ∧
      (after (turn e s)).Tracks network stream ((done ++ [e]).flatMap arriving)
        ((done ++ [e]).flatMap writing) := by
    rintro done e rest s rfl htracks
    rw [List.flatMap_append, List.flatMap_cons] at hfront
    simpa using hturn e s _ _ _ htracks hfront
  obtain ⟨hlen, hall, _, -, htracks⟩ := run_rule turn after
    (fun done s => s.Tracks network stream (done.flatMap arriving) (done.flatMap writing))
    (fun done => Yields (done.flatMap arriving)) hstep (List.nil_append es)
    (Socket.tracks_connected network stream) rfl
  rw [← htracks.killed_iff, Bool.not_eq_true, ← hlen]
  exact and_iff_left hall

theorem clientRun_outgoing (es : List Exchange) (network : Network) (stream : List UInt8) :
    (clientRun es (.connected network stream)).2.outgoing <+: requestBytes es :=
  run_outgoing clientTurn (fun r => r.socket) es fun e _ _ _ h => clientTurn_tracks e h

theorem serverRun_outgoing (es : List Exchange) (network : Network) (stream : List UInt8) :
    (serverRun es (.connected network stream)).2.outgoing <+: responseBytes es :=
  run_outgoing serverTurn (fun t => t.replied.socket) es fun e _ _ _ h => serverTurn_tracks e h

/-- If what arrives is the front of the marshalled replies, each call of the client is all
or nothing, unless one is killed. -/
theorem clientAllOrNothing_iff {es : List Exchange} (hfront : stream <+: responseBytes es) :
    ClientAllOrNothing es network stream ↔
      ¬network.Signals (clientRun es (.connected network stream)).2.sends :=
  run_yields clientTurn (fun r => r.socket)
    (fun read e r => r.AllOrNothing network stream read e.response e.response.fresh)
    (fun _ _ _ _ _ h hblock => clientTurn_allOrNothing h hblock) hfront

/-- If what arrives is the front of the marshalled requests, each call of
`ReceiveRequest` is all or nothing, unless a reply is killed. -/
theorem serverAllOrNothing_iff {es : List Exchange} (hfront : stream <+: requestBytes es) :
    ServerAllOrNothing es network stream ↔
      ¬network.Signals (serverRun es (.connected network stream)).2.sends :=
  run_yields serverTurn (fun t => t.replied.socket)
    (fun read e t => t.received.AllOrNothing network stream read e.request .new ∧
      t.replied.buffer.length = 32)
    (fun _ _ _ _ _ h hblock => serverTurn_allOrNothing h hblock) hfront

end Runs

/-- A client and a server exchange requests and replies. What arrives on either side is
what the other one has written, up to any point at which the stream ends, and the system
calls transfer any pieces of it, or fail. Each call of `Order` and `ReadRecord` then
returns the reply that the server has marshalled, or the default object, and each call
of `ReceiveRequest` the request that the client has marshalled, or the default one, if
and only if no call of `send` that one of them makes raises `SIGPIPE`. -/
theorem exchanges_all_or_nothing_iff (es : List Exchange)
    (clientNetwork serverNetwork : Network) (toClient toServer : List UInt8)
    (hclient : toClient <+: (serverRun es (.connected serverNetwork toServer)).2.outgoing)
    (hserver : toServer <+: (clientRun es (.connected clientNetwork toClient)).2.outgoing) :
    ClientAllOrNothing es clientNetwork toClient ∧
        ServerAllOrNothing es serverNetwork toServer ↔
      ¬clientNetwork.Signals (clientRun es (.connected clientNetwork toClient)).2.sends ∧
        ¬serverNetwork.Signals (serverRun es (.connected serverNetwork toServer)).2.sends :=
  and_congr
    (clientAllOrNothing_iff (hclient.trans (serverRun_outgoing es serverNetwork toServer)))
    (serverAllOrNothing_iff (hserver.trans (clientRun_outgoing es clientNetwork toClient)))

def zeroBuffer : Buffer := ⟨List.replicate 32 0, rfl⟩

/-- An order and a read of customer 7. -/
def twoExchanges : List Exchange :=
  [⟨⟨7, 1, 1⟩, .robotInfo ⟨7, 1, 1, 100, -1⟩, zeroBuffer, zeroBuffer, zeroBuffer⟩,
    ⟨⟨7, 1, 2⟩, .customerRecord ⟨7, 1⟩, zeroBuffer, zeroBuffer, zeroBuffer⟩]

/-- All calls transfer up to `n + 1` bytes, but `send` fails from call `failing` on. -/
def piecewise (n failing : ℕ) : Network where
  recv _ := .upTo n
  send k := if k < failing then .upTo n else .failed
  epipe _ := false

/-- The bytes are transferred three and five at a time, the stream to the client ends
within the record, and the server cannot send the last bytes of it. -/
theorem exchanges_two :
    ClientAllOrNothing twoExchanges (piecewise 2 100) ((responseBytes twoExchanges).take 23) ∧
      ServerAllOrNothing twoExchanges (piecewise 4 5) (requestBytes twoExchanges) :=
  (exchanges_all_or_nothing_iff twoExchanges _ _ _ _ (by decide +kernel)
    (by decide +kernel)).mpr (by decide +kernel)

/-- The robot is received, and the default record. -/
example : (clientRun twoExchanges (.connected (piecewise 2 100)
    ((responseBytes twoExchanges).take 23))).1.map Received.value =
      [.robotInfo ⟨7, 1, 1, 100, -1⟩, .customerRecord ⟨-1, -1⟩] := by decide +kernel

/-- The server, whose first call of `recv` fails, closes the connection. The client writes
five bytes of its request, and the rest meets `EPIPE`: the call of `Order` never returns. -/
theorem order_killed :
    let es := twoExchanges.take 1
    let clientNetwork : Network := ⟨fun _ => .upTo 4,
      fun k => if k = 0 then .upTo 4 else .failed, fun _ => true⟩
    let serverNetwork : Network := ⟨fun _ => .failed, fun _ => .upTo 4, fun _ => false⟩
    ([] : List UInt8) <+: (serverRun es (.connected serverNetwork [])).2.outgoing ∧
      ([] : List UInt8) <+: (clientRun es (.connected clientNetwork [])).2.outgoing ∧
      (clientRun es (.connected clientNetwork [])).1.length = 0 ∧
      ¬ClientAllOrNothing es clientNetwork [] := by
  intro es clientNetwork serverNetwork
  have hnone : (clientRun es (.connected clientNetwork [])).1.length = 0 := by decide +kernel
  refine ⟨List.nil_prefix, List.nil_prefix, hnone, fun h => ?_⟩
  exact absurd (hnone.symm.trans h.1) (by decide)

end RobotFactory.Marshalling
