import RobotFactory.LoadBalancer

/-!
# The replies of the load balancer

A session forwards a request to a worker and passes the reply on. The calls of the
stub report a failure by their return value only, which the session ignores, and a
stream that ends is no failure to them. What the client is sent is then what was
left in memory, which is an argument here.
-/
namespace RobotFactory
open RecordStream

def robotInfCodec : Codec UInt8 RobotInf :=
  (int32Codec.pair (int32Codec.pair (int32Codec.pair (int32Codec.pair int32Codec)))).retract
    (fun x => (x.customerId, x.orderNumber, x.requestType, x.engineerId, x.adminId))
    (fun x => ⟨x.1, x.2.1, x.2.2.1, x.2.2.2.1, x.2.2.2.2⟩) (fun _ => rfl)

def cRecCodec : Codec UInt8 CRec :=
  (int32Codec.pair int32Codec).retract (fun x => (x.customerId, x.lastOrder))
    (fun x => ⟨x.1, x.2⟩) (fun _ => rfl)

/-- What becomes of a request that is forwarded: the send fails, `recv` returns -1,
or it returns the first `n` bytes of the reply, none of them at the end of the stream. -/
inductive Outcome where
  | sendFailed
  | recvFailed
  | received (n : ℕ)
  deriving DecidableEq, Repr

/-- A request of the client, the replies of the worker to an order and to a read,
and what becomes of the forwarding. -/
structure Forwarding where
  getOrder : OrderInf
  robot : RobotInf
  record : CRec
  outcome : Outcome
  deriving DecidableEq, Repr

/-- What is found in memory that is not initialised: in the local variables of
`CreateRobot` and `ReadRecord`, and in a new buffer. -/
structure Uninit where
  getRobo : RobotInf
  getRec : CRec
  buffer : ℕ → UInt8

/-- `struct_order` and `struct_read_record`: the value copied from the buffer,
`none` for -1. -/
def structReply {α : Type} (c : Codec UInt8 α) (u : Uninit) (reply : α) : Outcome → Option α
  | .sendFailed => none
  | .recvFailed => none
  | .received n =>
    some (c.decode ((c.encode reply).take n ++ ((List.range c.size).map u.buffer).drop n))

/-- The return value of `struct_order` is not looked at. -/
def createRobot (u : Uninit) (f : Forwarding) : RobotInf :=
  (structReply robotInfCodec u f.robot f.outcome).getD u.getRobo

/-- Nor is that of `struct_read_record`. -/
def readRecord (u : Uninit) (f : Forwarding) : CRec :=
  (structReply cRecCodec u f.record f.outcome).getD u.getRec

def negativeRobot : RobotInf := ⟨-1, -1, -1, -1, -1⟩

def negativeRecord : CRec := ⟨-1, -1⟩

inductive Message where
  | robotInf (robot : RobotInf)
  | cRec (record : CRec)
  deriving DecidableEq, Repr

/-- A message sent to the client, and the request that it answers. -/
structure Reply where
  request : Option Forwarding
  message : Message

/-- The answer to a request; there is none to a request of another type. -/
def answer (masterNode : Option ClientStub) (u : Uninit) (f : Forwarding) : Option Message :=
  if f.getOrder.requestType = 1 then
    match masterNode with
    | some _ => some (.robotInf (createRobot u f))
    | none => some (.robotInf negativeRobot)
  else if f.getOrder.requestType = 2 then some (.cRec (readRecord u f))
  else none

/-- The loop over the requests, from the `k`-th on. -/
def requestLoop (masterNode : Option ClientStub) (uninit : ℕ → Uninit) :
    ℕ → List Forwarding → List Reply
  | _, [] => []
  | k, f :: fs =>
    ((answer masterNode (uninit k) f).map fun message => ⟨some f, message⟩).toList ++
      requestLoop masterNode uninit (k + 1) fs

/-- All messages of a session: one without a worker is refused. -/
def sessionReplies (masterNode : Option ClientStub) (selection : Selection) (uninit : ℕ → Uninit)
    (requests : List Forwarding) : List Reply :=
  match selection with
  | .worker _ => requestLoop masterNode uninit 0 requests
  | .unconnected => requestLoop masterNode uninit 0 requests
  | .refused => [⟨none, .cRec negativeRecord⟩]
  | .nullStub => []

theorem mem_requestLoop {masterNode : Option ClientStub} {uninit : ℕ → Uninit} {r : Reply} (k : ℕ)
    {fs : List Forwarding} : r ∈ requestLoop masterNode uninit k fs ↔
      ∃ i f, fs[i]? = some f ∧
        ∃ message, answer masterNode (uninit (k + i)) f = some message ∧ r = ⟨some f, message⟩ := by
  induction fs generalizing k with
  | nil => simp [requestLoop]
  | cons g fs ih =>
    rw [requestLoop, List.mem_append, ih (k + 1)]
    constructor
    · rintro (hhead | ⟨i, f, hf, message, hanswer, rfl⟩)
      · simp only [Option.mem_toList, Option.map_eq_some_iff] at hhead
        obtain ⟨message, hanswer, rfl⟩ := hhead
        exact ⟨0, g, rfl, message, hanswer, rfl⟩
      · exact ⟨i + 1, f, hf, message, by rwa [← Nat.add_assoc, Nat.add_right_comm], rfl⟩
    · rintro ⟨i, f, hf, message, hanswer, rfl⟩
      cases i with
      | zero =>
        obtain rfl := Option.some.inj hf
        exact .inl (by simpa using hanswer)
      | succ i =>
        exact .inr ⟨i, f, hf, message, by rwa [Nat.add_right_comm, Nat.add_assoc], rfl⟩

/-- The whole reply has been received, of the given size. -/
def Outcome.Complete (size : ℕ) : Outcome → Prop
  | .received n => size ≤ n
  | _ => False

/-- The message is the worker's complete reply to this request, or negative. -/
def Reply.Genuine (r : Reply) : Prop :=
  match r.message with
  | .robotInf robot => robot = negativeRobot ∨
      ∃ f, r.request = some f ∧ f.outcome.Complete robotInfCodec.size ∧ robot = f.robot
  | .cRec record => record = negativeRecord ∨
      ∃ f, r.request = some f ∧ f.outcome.Complete cRecCodec.size ∧ record = f.record

/-- A request that is forwarded is answered completely. -/
def Forwarding.Completes (f : Forwarding) (masterNode : Option ClientStub) : Prop :=
  (f.getOrder.requestType = 1 → masterNode ≠ none → f.outcome.Complete robotInfCodec.size) ∧
    (f.getOrder.requestType = 2 → f.outcome.Complete cRecCodec.size)

theorem structReply_of_complete {α : Type} {c : Codec UInt8 α} {u : Uninit} {reply : α}
    {outcome : Outcome} (h : outcome.Complete c.size) :
    structReply c u reply outcome = some reply := by
  cases outcome with
  | received n =>
    have hle : c.size ≤ n := h
    rw [structReply, List.take_of_length_le (by rw [c.length_encode]; exact hle),
      List.drop_eq_nil_of_le (by simpa using hle), List.append_nil, c.decode_encode]
  | sendFailed => exact h.elim
  | recvFailed => exact h.elim

section Torn

theorem ofLittleEndian_concat (bs : List UInt8) (b : UInt8) :
    ofLittleEndian (bs ++ [b]) = ofLittleEndian bs + 256 ^ bs.length * b.toNat := by
  induction bs with
  | nil => simp [ofLittleEndian]
  | cons c bs ih =>
    rw [List.cons_append, ofLittleEndian, ofLittleEndian, ih, List.length_cons, pow_succ]
    ring

/-- A word whose highest byte is zero is not -1. -/
theorem decode_ne_neg_one {bs : List UInt8} (h : bs.length = 3) :
    int32Codec.decode (bs ++ [0]) ≠ -1 := by
  intro heq
  have hlt := ofLittleEndian_lt bs
  rw [h] at hlt
  have hword : UInt32.ofNat (ofLittleEndian bs) = Int32.toUInt32 (-1) := by
    rw [← heq]
    change _ = (UInt32.ofNat (ofLittleEndian (bs ++ [0]))).toInt32.toUInt32
    rw [ofLittleEndian_concat, UInt8.toNat_zero, Nat.mul_zero, Nat.add_zero,
      UInt32.toUInt32_toInt32]
  have hnat := congrArg UInt32.toNat hword
  rw [UInt32.toNat_ofNat', Nat.mod_eq_of_lt (by omega)] at hnat
  have hone : (Int32.toUInt32 (-1)).toNat = 2 ^ 32 - 1 := by decide
  omega

theorem drop_torn (reply : List UInt8) {size n k : ℕ} (b : UInt8) (hreply : reply.length = size)
    (hn : n < size) (hk : k < size) : ∃ bs, bs.length = size - 1 - k ∧
      (reply.take n ++ ((List.range size).map fun _ => b).drop n).drop k = bs ++ [b] := by
  have hbuffer : ((List.range size).map fun _ => b).drop n =
      List.replicate (size - n - 1) b ++ [b] := by
    rw [List.map_const', List.length_range, List.drop_replicate, ← List.replicate_succ',
      Nat.sub_add_cancel (by omega)]
  refine ⟨(reply.take n ++ List.replicate (size - n - 1) b).drop k, ?_, ?_⟩
  · rw [List.length_drop, List.length_append, List.length_take, List.length_replicate]
    omega
  · rw [hbuffer, ← List.append_assoc, List.drop_append_of_le_length]
    rw [List.length_append, List.length_take, List.length_replicate]
    omega

/-- Memory full of zeros. -/
def Uninit.zero : Uninit := ⟨⟨0, 0, 0, 0, 0⟩, ⟨0, 0⟩, fun _ => 0⟩

/-- The last word of a reply that is not complete is not -1, if the buffer was zero. -/
theorem structReply_zero_ne {α : Type} {c : Codec UInt8 α} (last : α → Int32) {reply x : α}
    {outcome : Outcome} (hsize : 4 ≤ c.size)
    (hlast : ∀ bs, last (c.decode bs) = int32Codec.decode (bs.drop (c.size - 4)))
    (h : ¬outcome.Complete c.size) (hx : structReply c .zero reply outcome = some x) :
    last x ≠ -1 := by
  cases outcome with
  | received n =>
    have hn : n < c.size := by simpa [Outcome.Complete] using h
    obtain ⟨bs, hlen, hbs⟩ := drop_torn (c.encode reply) (k := c.size - 4) 0
      (c.length_encode reply) hn (by omega)
    rw [structReply, Option.some.injEq] at hx
    rw [← hx, hlast]
    change int32Codec.decode (List.drop _ (_ ++ List.drop n (List.map (fun _ => 0) _))) ≠ -1
    rw [hbs]
    exact decode_ne_neg_one (by omega)
  | sendFailed => cases hx
  | recvFailed => cases hx

theorem createRobot_zero_ne {f : Forwarding} (h : ¬f.outcome.Complete robotInfCodec.size) :
    createRobot .zero f ≠ negativeRobot := by
  unfold createRobot
  cases hreply : structReply robotInfCodec .zero f.robot f.outcome with
  | none => decide
  | some robot =>
    have hlast := structReply_zero_ne RobotInf.adminId (by decide) (fun bs => ?_) h hreply
    · rintro rfl
      exact hlast rfl
    · change int32Codec.decode ((((bs.drop 4).drop 4).drop 4).drop 4) = _
      simp only [List.drop_drop]
      rfl

theorem readRecord_zero_ne {f : Forwarding} (h : ¬f.outcome.Complete cRecCodec.size) :
    readRecord .zero f ≠ negativeRecord := by
  unfold readRecord
  cases hreply : structReply cRecCodec .zero f.record f.outcome with
  | none => decide
  | some record =>
    have hlast := structReply_zero_ne CRec.lastOrder (by decide) (fun _ => rfl) h hreply
    rintro rfl
    exact hlast rfl

end Torn

theorem answer_genuine {masterNode : Option ClientStub} {u : Uninit} {f : Forwarding}
    {message : Message} (h : f.Completes masterNode)
    (hanswer : answer masterNode u f = some message) : Reply.Genuine ⟨some f, message⟩ := by
  unfold answer at hanswer
  split_ifs at hanswer with horder hread
  · cases hmaster : masterNode with
    | none =>
      rw [hmaster] at hanswer
      cases hanswer
      exact .inl rfl
    | some stub =>
      rw [hmaster] at hanswer
      cases hanswer
      have hcomplete := h.1 horder (by simp [hmaster])
      refine .inr ⟨f, rfl, hcomplete, ?_⟩
      rw [createRobot, structReply_of_complete hcomplete, Option.getD_some]
  · cases hanswer
    have hcomplete := h.2 hread
    refine .inr ⟨f, rfl, hcomplete, ?_⟩
    rw [readRecord, structReply_of_complete hcomplete, Option.getD_some]

theorem answer_not_genuine {masterNode : Option ClientStub} {f : Forwarding}
    (h : ¬f.Completes masterNode) : ∃ message, answer masterNode .zero f = some message ∧
      ¬Reply.Genuine ⟨some f, message⟩ := by
  unfold Forwarding.Completes at h
  by_cases horder : f.getOrder.requestType = 1
  · have hread : f.getOrder.requestType ≠ 2 := by
      rw [horder]
      decide
    obtain ⟨stub, rfl⟩ : ∃ stub, masterNode = some stub := by
      rw [← Option.ne_none_iff_exists']
      intro hnone
      exact h ⟨fun _ hne => absurd hnone hne, fun htype => absurd htype hread⟩
    have hcomplete : ¬f.outcome.Complete robotInfCodec.size := fun hc =>
      h ⟨fun _ _ => hc, fun htype => absurd htype hread⟩
    refine ⟨.robotInf (createRobot .zero f), by simp [answer, horder], ?_⟩
    rintro (hnegative | ⟨g, hg, hc, -⟩)
    · exact createRobot_zero_ne hcomplete hnegative
    · exact hcomplete (Option.some.inj hg ▸ hc)
  · have hread : f.getOrder.requestType = 2 := by
      by_contra hread
      exact h ⟨fun htype => absurd htype horder, fun htype => absurd htype hread⟩
    have hcomplete : ¬f.outcome.Complete cRecCodec.size := fun hc =>
      h ⟨fun htype => absurd htype horder, fun _ => hc⟩
    refine ⟨.cRec (readRecord .zero f), by simp [answer, hread], ?_⟩
    rintro (hnegative | ⟨g, hg, hc, -⟩)
    · exact readRecord_zero_ne hcomplete hnegative
    · exact hcomplete (Option.some.inj hg ▸ hc)

theorem requestLoop_genuine_iff (masterNode : Option ClientStub) (fs : List Forwarding) :
    (∀ uninit, ∀ r ∈ requestLoop masterNode uninit 0 fs, r.Genuine) ↔
      ∀ f ∈ fs, f.Completes masterNode := by
  constructor
  · intro hall f hf
    by_contra hnot
    obtain ⟨message, hanswer, hfalse⟩ := answer_not_genuine hnot
    obtain ⟨i, hi⟩ := List.getElem?_of_mem hf
    exact hfalse (hall (fun _ => .zero) _
      ((mem_requestLoop 0).mpr ⟨i, f, hi, message, hanswer, rfl⟩))
  · intro hcomplete uninit r hr
    obtain ⟨i, f, hf, message, hanswer, rfl⟩ := (mem_requestLoop 0).mp hr
    exact answer_genuine (hcomplete f (List.mem_of_getElem? hf)) hanswer

/-- Whatever is found in memory, each message of a session is the complete reply of
the worker to that request or the negative one, if and only if the session does
not get to its requests, or each request that it forwards is answered completely. -/
theorem replies_genuine_iff (masterNode : Option ClientStub) (selection : Selection)
    (requests : List Forwarding) :
    (∀ uninit, ∀ r ∈ sessionReplies masterNode selection uninit requests, r.Genuine) ↔
      selection = .refused ∨ selection = .nullStub ∨ ∀ f ∈ requests, f.Completes masterNode := by
  cases selection with
  | worker i => simpa [sessionReplies] using requestLoop_genuine_iff masterNode requests
  | unconnected => simpa [sessionReplies] using requestLoop_genuine_iff masterNode requests
  | refused => simp [sessionReplies, Reply.Genuine]
  | nullStub => simp [sessionReplies]

/-- The worker has closed the connection before it replies to an order. -/
theorem reply_fabricated : ∃ (uninit : ℕ → Uninit) (f : Forwarding),
    f.getOrder = ⟨7, 1, 1⟩ ∧ f.outcome = .received 0 ∧
    (sessionReplies (some ⟨0, "10.0.0.1", 8000⟩) (.worker 0) uninit [f]).map Reply.message =
      [.robotInf ⟨0, 0, 0, 0, 0⟩] ∧
    ¬∀ r ∈ sessionReplies (some ⟨0, "10.0.0.1", 8000⟩) (.worker 0) uninit [f], r.Genuine := by
  refine ⟨fun _ => .zero, ⟨⟨7, 1, 1⟩, ⟨7, 1, 1, 100, 100⟩, ⟨7, 1⟩, .received 0⟩, rfl, rfl, ?_, ?_⟩
  · decide +kernel
  · intro hall
    have hgenuine := hall _ List.mem_cons_self
    rcases hgenuine with hnegative | ⟨g, hg, hcomplete, -⟩
    · revert hnegative
      decide +kernel
    · cases hg
      exact absurd (show robotInfCodec.size ≤ 0 from hcomplete) (by decide)

end RobotFactory
