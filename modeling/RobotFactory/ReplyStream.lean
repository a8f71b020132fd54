import RobotFactory.WorkerSelection

/-!
# The stream of replies

The client reads as many bytes as the reply to its request has, a `robot_inf` or a
`c_rec`. Each request that the session gets to is answered by the right one; but
the record that refuses a session is sent before the first request is read, and
nothing else after it.
-/
namespace RobotFactory
open TransitionSystem

def Message.bytes : Message → List UInt8
  | .robotInf robot => robotInfCodec.encode robot
  | .cRec record => cRecCodec.encode record

def sessionBytes (masterNode : Option ClientStub) (selection : Selection) (uninit : ℕ → Uninit)
    (requests : List Forwarding) : List UInt8 :=
  (sessionReplies masterNode selection uninit requests).flatMap fun r => r.message.bytes

/-- The message is of the kind that the client expects for this request. -/
def Forwarding.Expects (f : Forwarding) : Message → Prop
  | .robotInf _ => f.getOrder.requestType = 1
  | .cRec _ => f.getOrder.requestType = 2

/-- The bytes are one reply for each request, in the same order, and nothing else. -/
def MatchesRequests (requests : List Forwarding) (bytes : List UInt8) : Prop :=
  ∃ messages, List.Forall₂ Forwarding.Expects requests messages ∧
    bytes = messages.flatMap Message.bytes

theorem answer_expected (masterNode : Option ClientStub) (u : Uninit) {f : Forwarding}
    (htype : f.getOrder.requestType = 1 ∨ f.getOrder.requestType = 2) :
    ∃ message, answer masterNode u f = some message ∧ f.Expects message := by
  unfold answer
  by_cases horder : f.getOrder.requestType = 1
  · rw [if_pos horder]
    cases masterNode with
    | some stub => exact ⟨_, rfl, horder⟩
    | none => exact ⟨_, rfl, horder⟩
  · have hread := htype.resolve_left horder
    rw [if_neg horder, if_pos hread]
    exact ⟨_, rfl, hread⟩

/-- The loop over the requests answers every one of them. -/
theorem requestLoop_matches (masterNode : Option ClientStub) (uninit : ℕ → Uninit) (k : ℕ)
    {requests : List Forwarding}
    (htypes : ∀ f ∈ requests, f.getOrder.requestType = 1 ∨ f.getOrder.requestType = 2) :
    MatchesRequests requests
      ((requestLoop masterNode uninit k requests).flatMap fun r => r.message.bytes) := by
  induction requests generalizing k with
  | nil => exact ⟨[], .nil, rfl⟩
  | cons f fs ih =>
    obtain ⟨hf, hfs⟩ := List.forall_mem_cons.mp htypes
    obtain ⟨message, hanswer, hexpects⟩ := answer_expected masterNode (uninit k) hf
    obtain ⟨messages, hall, hbytes⟩ := ih (k + 1) hfs
    refine ⟨message :: messages, .cons hexpects hall, ?_⟩
    rw [requestLoop, hanswer, List.flatMap_append, hbytes, List.flatMap_cons]
    simp

theorem Message.length_bytes (message : Message) :
    8 ≤ message.bytes.length ∧ ∀ f : Forwarding, f.Expects message →
      message.bytes.length = 8 → f.getOrder.requestType = 2 := by
  cases message with
  | robotInf robot =>
    have hlen : (Message.robotInf robot).bytes.length = 20 := robotInfCodec.length_encode robot
    rw [hlen]
    exact ⟨by decide, fun _ _ h => absurd h (by decide)⟩
  | cRec record =>
    have hlen : (Message.cRec record).bytes.length = 8 := cRecCodec.length_encode record
    rw [hlen]
    exact ⟨le_rfl, fun _ hread _ => hread⟩

theorem matches_nil_iff {requests : List Forwarding} :
    MatchesRequests requests [] ↔ requests = [] := by
  constructor
  · rintro ⟨messages, hall, hbytes⟩
    cases hall with
    | nil => rfl
    | @cons _ message _ _ hexpects hall =>
      have hlen := congrArg List.length hbytes
      have hle := message.length_bytes.1
      rw [List.flatMap_cons, List.length_append, List.length_nil] at hlen
      omega
  · rintro rfl
    exact ⟨[], .nil, rfl⟩

theorem matches_negativeRecord_iff {requests : List Forwarding} :
    MatchesRequests requests (cRecCodec.encode negativeRecord) ↔
      ∃ f, requests = [f] ∧ f.getOrder.requestType = 2 := by
  constructor
  · rintro ⟨messages, hall, hbytes⟩
    have hlen := congrArg List.length hbytes
    rw [cRecCodec.length_encode] at hlen
    change 8 = _ at hlen
    cases hall with
    | nil => cases hlen
    | @cons f message fs messages hexpects hall =>
      obtain ⟨hle, hread⟩ := message.length_bytes
      rw [List.flatMap_cons, List.length_append] at hlen
      cases hall with
      | nil =>
        rw [List.flatMap_nil, List.length_nil] at hlen
        exact ⟨f, rfl, hread f hexpects (by omega)⟩
      | @cons _ second _ _ _ _ =>
        have hmore := second.length_bytes.1
        rw [List.flatMap_cons, List.length_append] at hlen
        omega
  · rintro ⟨f, rfl, hread⟩
    exact ⟨[.cRec negativeRecord], .cons hread .nil, by simp [Message.bytes]⟩

/-- The bytes written in a session whose client sends orders and reads are one
reply for each, if and only if the worker under the cursor or worker 0 is healthy,
or there are no workers; or no worker is healthy and the client sends a single
read; or some worker is healthy and the client sends nothing. -/
theorem replies_match_iff (lb : LoadBalancer) (masterNode : Option ClientStub)
    (uninit : ℕ → Uninit) (requests : List Forwarding)
    (htypes : ∀ f ∈ requests, f.getOrder.requestType = 1 ∨ f.getOrder.requestType = 2) :
    MatchesRequests requests (sessionBytes masterNode lb.selectWorker.1 uninit requests) ↔
      lb.nodeHealth lb.currentWorkerNode = true ∨ lb.IsHealthyWorker 0 ∨
      lb.workerNodeMapSize = 0 ∨
      (∀ i, ¬lb.IsHealthyWorker i) ∧ (∃ f, requests = [f] ∧ f.getOrder.requestType = 2) ∨
      (∃ i, lb.IsHealthyWorker i) ∧ requests = [] := by
  have hserved := requestLoop_matches masterNode uninit 0 htypes
  have hcases := lb.selectWorker_cases
  generalize lb.selectWorker = result at hcases
  cases hcases with
  | current hcurrent => exact iff_of_true hserved (.inl hcurrent)
  | unconnected _ hnone => exact iff_of_true hserved (.inr (.inr (.inl hnone)))
  | first _ hfirst => exact iff_of_true hserved (.inr (.inl hfirst))
  | refused hcurrent hsome hall =>
    have hbytes : sessionBytes masterNode .refused uninit requests =
        cRecCodec.encode negativeRecord := List.append_nil _
    rw [hbytes, matches_negativeRecord_iff]
    constructor
    · exact fun hread => .inr (.inr (.inr (.inl ⟨hall, hread⟩)))
    · rintro (hhealthy | hfirst | hnone | ⟨-, hread⟩ | ⟨⟨i, hi⟩, -⟩)
      · simp [hcurrent] at hhealthy
      · exact absurd hfirst (hall 0)
      · omega
      · exact hread
      · exact absurd hi (hall i)
  | nullStub i hcurrent hfirst hi =>
    have hbytes : sessionBytes masterNode .nullStub uninit requests = [] := rfl
    have h0 := hi.nonneg
    have hlt := hi.lt
    rw [hbytes, matches_nil_iff]
    constructor
    · exact fun hnil => .inr (.inr (.inr (.inr ⟨⟨i, hi⟩, hnil⟩)))
    · rintro (hhealthy | hzero | hnone | ⟨hall, -⟩ | ⟨-, hnil⟩)
      · simp [hcurrent] at hhealthy
      · simp [hzero.healthy] at hfirst
      · omega
      · exact absurd hi (hall i)
      · exact hnil

def forwardedOrder : Forwarding := ⟨⟨7, 1, 1⟩, ⟨7, 1, 1, 100, 100⟩, ⟨7, 1⟩, .received 20⟩

/-- An order in the first session after the start. -/
theorem replies_match_two : MatchesRequests [forwardedOrder]
    (sessionBytes (some ⟨0, "10.0.0.1", 8000⟩) (LoadBalancer.new twoWorkers).selectWorker.1
      (fun _ => .zero) [forwardedOrder]) :=
  (replies_match_iff (LoadBalancer.new twoWorkers) _ _ _ (by simp [forwardedOrder])).mpr (.inl rfl)

/-- Neither worker answers the heartbeat, and the client that sends an order is
sent a `c_rec`. -/
theorem reply_unmatched : ∃ b, (Balancer.started twoWorkers).Reaches b ∧
    b.sessions 0 = .selecting none ∧ b.lb.currentWorkerNode = 0 ∧
    sessionBytes none b.lb.selectWorker.1 (fun _ => .zero) [forwardedOrder] =
      cRecCodec.encode ⟨-1, -1⟩ ∧
    ¬MatchesRequests [forwardedOrder]
      (sessionBytes none b.lb.selectWorker.1 (fun _ => .zero) [forwardedOrder]) := by
  refine ⟨_, ((((Run.start.next (a := .heartbeatInit) trivial rfl).next
    (a := .heartbeat false) trivial rfl).next (a := .heartbeat false) trivial rfl).next
    (a := .accept 0) trivial rfl).next (a := .getMasterNode 0) trivial rfl, rfl, rfl, rfl, ?_⟩
  change ¬MatchesRequests [forwardedOrder] (cRecCodec.encode negativeRecord)
  rw [matches_negativeRecord_iff]
  rintro ⟨f, hf, hread⟩
  obtain rfl := List.head_eq_of_cons_eq hf
  revert hread
  decide

end RobotFactory
