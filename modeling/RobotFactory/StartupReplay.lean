import RobotFactory.Crc32
import RobotFactory.Replies
import RobotFactory.Startup

/-!
# The replay at startup

A starting server asks its peers for their committed index and replays its commit
log up to the first answer. The answer 0 is taken for no answer, and the end of
the stream for an answer, which is then what was found in memory. An answer that
is one more than the last index of the log is not cut down to it.
-/
namespace RobotFactory
open ReplayLog RecordStream

theorem le_length_of_replayRecovered (n : ℕ) (i : ℤ) {s s' : Server}
    (h : Server.replayRecovered n i s = .ok s') (hle : i ≤ s.smrLog.length) :
    i + n ≤ s.smrLog.length := by
  induction n generalizing i s with
  | zero => simpa using hle
  | succ n ih =>
    obtain ⟨r, hr, hrest⟩ := bind_eq_ok.mp h
    have hlt := (lt_length_of_commitAt hr).2
    have hlog : r.smrLog = s.smrLog := (commitAt_eq_ok hr).1
    have hmore := ih (i + 1) hrest (by simp only [hlog]; omega)
    simp only [hlog] at hmore
    omega

theorem replayFromLog_ok_iff {s : Server} {lastCommitedIndex : ℤ} :
    (∃ s', s.replayFromLog lastCommitedIndex = .ok s') ↔
      Server.replayedTo lastCommitedIndex s.smrLog.length < s.smrLog.length := by
  constructor
  · rintro ⟨s', h⟩
    unfold Server.replayFromLog at h
    split_ifs at h with hnone
    · rw [hnone.1, hnone.2, replayedTo_eq, if_pos (.inl rfl)]
      omega
    · have hle := le_length_of_replayRecovered _ 0 h (by omega)
      unfold Server.replayedTo
      omega
  · exact replayFromLog_total

/-- The replay ends before the end of the log unless that is where it is sent. -/
theorem replayedTo_lt_iff (lastCommitedIndex : ℤ) (n : ℕ) :
    Server.replayedTo lastCommitedIndex n < n ↔ ¬(0 < n ∧ lastCommitedIndex = n) := by
  rw [replayedTo_eq]
  split_ifs <;> omega

/-- Any entries can be those of a commit log. -/
theorem exists_recoverLog [Zlib] {entries : List MapOp} (hfew : entries.length < 2 ^ 31) :
    ∃ file clog, (Server.opened 0 [] file fun _ => 0).recoverLog = .ok (entries, clog) := by
  have hread : CommitLog.entriesOf (Server.opened 0 [] (CommitLog.fileOf entries)
      fun _ => 0).clog.outfile.unread = entries := CommitLog.entriesOf_fileOf entries
  obtain ⟨clog, hrecover⟩ := recoverLog_total rfl (hread.symm ▸ hfew)
  rw [hread] at hrecover
  exact ⟨CommitLog.fileOf entries, clog, hrecover⟩

/-- The startup succeeds if and only if the committed index reported first is not
the number of entries found, unless that is 0. -/
theorem startup_total_iff [Zlib] {replies : List PeerReply} {s : Server} {smrLog : List MapOp}
    {clog : CommitLog} (hrecover : s.recoverLog = .ok (smrLog, clog)) :
    (∃ s', s.initiateRecoveryFromLog replies = .ok s') ↔
      ¬(0 < smrLog.length ∧ firstCommitedIndex replies = smrLog.length) := by
  rw [← replayedTo_lt_iff, Server.initiateRecoveryFromLog, hrecover, ok_bind]
  exact replayFromLog_ok_iff

/-- Two entries, of which the cluster has committed both. -/
theorem startup_total_pair :
    ∃ file s, Server.start 0 [] file (fun _ => 0) [.committed 1] = .ok s := by
  obtain ⟨file, clog, hrecover⟩ :=
    exists_recoverLog (show [(⟨1, 7, 1⟩ : MapOp), ⟨1, 7, 2⟩].length < 2 ^ 31 by decide)
  obtain ⟨s, hs⟩ := (@startup_total_iff _ [.committed 1] _ _ _ hrecover).mpr (by decide)
  exact ⟨file, s, hs⟩

/-- The cluster has committed one entry more than the two in the log. -/
theorem startup_throws : ∃ file clog,
    (Server.opened 0 [] file fun _ => 0).recoverLog = .ok ([⟨1, 7, 1⟩, ⟨1, 7, 2⟩], clog) ∧
    Server.start 0 [] file (fun _ => 0) [.committed 2] = .error .outOfRange := by
  obtain ⟨file, clog, hrecover⟩ :=
    exists_recoverLog (show [(⟨1, 7, 1⟩ : MapOp), ⟨1, 7, 2⟩].length < 2 ^ 31 by decide)
  refine ⟨file, clog, hrecover, ?_⟩
  rw [Server.start, walEnabled, if_pos rfl, Server.initiateRecoveryFromLog, hrecover, ok_bind]
  rfl

/-- What one peer does at startup: there is no connection to it, or it is asked,
and replies with its committed index as far as the call gets it. -/
inductive PeerCall where
  | notConnected
  | asked (outcome : Outcome) (committedIndex : Int32)
  deriving DecidableEq, Repr

/-- The return value of `get_commited_index`, and what it stores. -/
def PeerCall.reply (u : Uninit) : PeerCall → PeerReply
  | .notConnected => .notConnected
  | .asked outcome committedIndex =>
    match structReply int32Codec u committedIndex outcome with
    | some index => .committed index.toInt
    | none => .callFailed

/-- The loop over the peers; `uninit` is what each of its turns finds in memory. -/
def peerReplies : (ℕ → Uninit) → List PeerCall → List PeerReply
  | _, [] => []
  | uninit, peer :: peers => peer.reply (uninit 0) :: peerReplies (fun k => uninit (k + 1)) peers

/-- The committed index of the first peer that answers. -/
def answeredIndex : List PeerCall → Option ℤ
  | [] => none
  | .asked (.received n) committedIndex :: peers =>
    if int32Codec.size ≤ n then some committedIndex.toInt else answeredIndex peers
  | _ :: peers => answeredIndex peers

/-- The stream of a peer ends within its answer, before any other has answered. -/
def EndsEarly : List PeerCall → Prop
  | [] => False
  | .asked (.received n) _ :: _ => n < int32Codec.size
  | _ :: peers => EndsEarly peers

/-- The index up to which the cluster has committed, as far as a log of `n` entries
can tell. -/
def clusterIndex (peers : List PeerCall) (n : ℕ) : ℤ :=
  match answeredIndex peers with
  | some index => min index ((n : ℤ) - 1)
  | none => (n : ℤ) - 1

theorem firstCommitedIndex_answered (uninit : ℕ → Uninit) {peers : List PeerCall}
    (h : ¬EndsEarly peers) :
    firstCommitedIndex (peerReplies uninit peers) = (answeredIndex peers).getD 0 := by
  induction peers generalizing uninit with
  | nil => rfl
  | cons peer peers ih =>
    cases peer with
    | notConnected => exact ih _ h
    | asked outcome index =>
      cases outcome with
      | sendFailed => exact ih _ h
      | recvFailed => exact ih _ h
      | received n =>
        have hcomplete : int32Codec.size ≤ n := not_lt.mp h
        have hreply : structReply int32Codec (uninit 0) index (.received n) = some index :=
          structReply_of_complete
            (show (Outcome.received n).Complete int32Codec.size from hcomplete)
        rw [peerReplies, PeerCall.reply, hreply, answeredIndex, if_pos hcomplete]
        rfl

/-- Memory in which each new buffer is full of the byte `b`. -/
def Uninit.filled (b : UInt8) : Uninit := ⟨⟨0, 0, 0, 0, 0⟩, ⟨0, 0⟩, fun _ => b⟩

theorem firstCommitedIndex_early (b : UInt8) {peers : List PeerCall} (h : EndsEarly peers) :
    ∃ bs : List UInt8, bs.length = 3 ∧
      firstCommitedIndex (peerReplies (fun _ => .filled b) peers) =
        (int32Codec.decode (bs ++ [b])).toInt := by
  induction peers with
  | nil => exact h.elim
  | cons peer peers ih =>
    cases peer with
    | notConnected => exact ih h
    | asked outcome index =>
      cases outcome with
      | sendFailed => exact ih h
      | recvFailed => exact ih h
      | received n =>
        obtain ⟨bs, hlen, hbs⟩ := drop_torn (int32Codec.encode index) b
          (int32Codec.length_encode index) h int32Codec.size_pos
        refine ⟨bs, hlen, ?_⟩
        rw [← hbs]
        rfl

theorem toInt_decode {bs : List UInt8} (h : bs.length = 3) (b : UInt8) :
    (int32Codec.decode (bs ++ [b])).toInt =
      Int.bmod (ofLittleEndian bs + 2 ^ 24 * b.toNat : ℕ) (2 ^ 32) := by
  change (BitVec.ofNat 32 (ofLittleEndian (bs ++ [b]))).toInt = _
  rw [BitVec.toInt_ofNat', ofLittleEndian_concat, h]
  rfl

theorem toInt_decode_neg {bs : List UInt8} (h : bs.length = 3) :
    (int32Codec.decode (bs ++ [255])).toInt < 0 := by
  have hlt := ofLittleEndian_lt bs
  rw [h] at hlt
  rw [toInt_decode h, show (255 : UInt8).toNat = 255 from rfl, Int.bmod_neg] <;> omega

theorem toInt_decode_nonneg {bs : List UInt8} (h : bs.length = 3) {b : UInt8} (hb : b.toNat < 128) :
    (int32Codec.decode (bs ++ [b])).toInt = (ofLittleEndian bs : ℤ) + 2 ^ 24 * b.toNat := by
  have hlt := ofLittleEndian_lt bs
  rw [h] at hlt
  rw [toInt_decode h, Int.bmod_eq_of_le] <;> omega

theorem exists_early_neg {peers : List PeerCall} (h : EndsEarly peers) :
    ∃ memory, firstCommitedIndex (peerReplies memory peers) < 0 := by
  obtain ⟨bs, hlen, hfirst⟩ := firstCommitedIndex_early 255 h
  exact ⟨fun _ => .filled 255, hfirst ▸ toInt_decode_neg hlen⟩

/-- Of two indices with different highest bytes one is not `n`. -/
theorem exists_early_ne {peers : List PeerCall} (h : EndsEarly peers) (n : ℤ) : ∃ memory,
    0 ≤ firstCommitedIndex (peerReplies memory peers) ∧
      firstCommitedIndex (peerReplies memory peers) ≠ n := by
  obtain ⟨bs, hlen, hfirst⟩ := firstCommitedIndex_early 0 h
  obtain ⟨bs', hlen', hfirst'⟩ := firstCommitedIndex_early 1 h
  have hlt := ofLittleEndian_lt bs
  rw [hlen] at hlt
  rw [toInt_decode_nonneg hlen (by decide), UInt8.toNat_zero] at hfirst
  rw [toInt_decode_nonneg hlen' (by decide), UInt8.toNat_one] at hfirst'
  by_cases hn : (ofLittleEndian bs : ℤ) = n
  · refine ⟨fun _ => .filled 1, ?_⟩
    rw [hfirst']
    omega
  · refine ⟨fun _ => .filled 0, ?_⟩
    rw [hfirst]
    omega

theorem replayedTo_early {peers : List PeerCall} {n : ℕ} (hn : 0 < n) (hearly : EndsEarly peers) :
    ∃ memory, Server.replayedTo (firstCommitedIndex (peerReplies memory peers)) n < n ∧
      Server.replayedTo (firstCommitedIndex (peerReplies memory peers)) n ≠
        clusterIndex peers n := by
  by_cases hnone : clusterIndex peers n = -1
  · obtain ⟨memory, h0, hne⟩ := exists_early_ne hearly n
    refine ⟨memory, ?_⟩
    rw [hnone, replayedTo_eq]
    split_ifs <;> omega
  · obtain ⟨memory, hneg⟩ := exists_early_neg hearly
    have hto : Server.replayedTo (firstCommitedIndex (peerReplies memory peers)) n = -1 := by
      rw [replayedTo_eq]
      split_ifs <;> omega
    exact ⟨memory, by omega, fun heq => hnone (heq.symm.trans hto)⟩

/-- Otherwise the replay goes wrong at the answer 0 only. -/
theorem replayedTo_answered {peers : List PeerCall} {n : ℕ} (hn : 0 < n)
    (hearly : ¬EndsEarly peers)
    (hanswer : ∀ index, answeredIndex peers = some index → -1 ≤ index) (memory : ℕ → Uninit) :
    (Server.replayedTo (firstCommitedIndex (peerReplies memory peers)) n < n →
      Server.replayedTo (firstCommitedIndex (peerReplies memory peers)) n =
        clusterIndex peers n) ↔ ¬(answeredIndex peers = some 0 ∧ 2 ≤ n) := by
  rw [firstCommitedIndex_answered memory hearly, clusterIndex]
  cases hindex : answeredIndex peers with
  | none => simp [replayedTo_eq]
  | some index =>
    have hge := hanswer index hindex
    rw [Option.getD_some, Option.some.injEq, replayedTo_eq]
    dsimp only
    split_ifs <;> omega

section Start

variable [Zlib] {facId : ℤ} {factories : List FactoryRec} {file : List UInt8} {uninit : ℕ → Int32}
  {smrLog : List MapOp} {clog : CommitLog}

/-- A start replays up to the index that the loop over the peers comes to. -/
theorem start_replayedTo {replies : List PeerReply} {s : Server}
    (hrecover : (Server.opened facId factories file uninit).recoverLog = .ok (smrLog, clog))
    (h : Server.start facId factories file uninit replies = .ok s) :
    s.committedIndex = Server.replayedTo (firstCommitedIndex replies) smrLog.length ∧
      s.customerRecord = replayRecord (smrLog.take (s.committedIndex + 1).toNat) ∧
      s.committedIndex < smrLog.length := by
  obtain ⟨hlog, -, -⟩ := recoverLog_eq_ok hrecover rfl
  obtain ⟨unread, last, record, hlast, rfl, hrep, -⟩ :=
    initiateRecoveryFromLog_eq_ok h rfl rfl rfl rfl
  rw [← hlog] at hlast
  have hle : (last + 1).toNat ≤ smrLog.length := hlog ▸ hrep.le_length
  refine ⟨hlast, hlog ▸ hrep.state_eq, ?_⟩
  change last < smrLog.length
  omega

theorem start_total {replies : List PeerReply}
    (hrecover : (Server.opened facId factories file uninit).recoverLog = .ok (smrLog, clog))
    (hto : Server.replayedTo (firstCommitedIndex replies) smrLog.length < smrLog.length) :
    ∃ s, Server.start facId factories file uninit replies = .ok s := by
  obtain ⟨hlog, hfew, -⟩ := recoverLog_eq_ok hrecover rfl
  rw [hlog] at hfew hto
  exact initiateRecoveryFromLog_total rfl hfew hto

/-- Whatever is found in memory, each start that succeeds has committed what the
cluster has. -/
def ReplaysCommitted (facId : ℤ) (factories : List FactoryRec) (file : List UInt8)
    (uninit : ℕ → Int32) (smrLog : List MapOp) (peers : List PeerCall) : Prop :=
  ∀ memory s, Server.start facId factories file uninit (peerReplies memory peers) = .ok s →
    s.committedIndex = clusterIndex peers smrLog.length ∧
    s.customerRecord = replayRecord (smrLog.take (clusterIndex peers smrLog.length + 1).toNat)

theorem replaysCommitted_iff_replayedTo {peers : List PeerCall}
    (hrecover : (Server.opened facId factories file uninit).recoverLog = .ok (smrLog, clog)) :
    ReplaysCommitted facId factories file uninit smrLog peers ↔ ∀ memory,
      Server.replayedTo (firstCommitedIndex (peerReplies memory peers)) smrLog.length <
        smrLog.length →
      Server.replayedTo (firstCommitedIndex (peerReplies memory peers)) smrLog.length =
        clusterIndex peers smrLog.length := by
  constructor
  · intro hreplays memory hto
    obtain ⟨s, hs⟩ := start_total hrecover hto
    rw [← (start_replayedTo hrecover hs).1]
    exact (hreplays memory s hs).1
  · intro hindex memory s hs
    obtain ⟨hcommitted, hrecord, hlt⟩ := start_replayedTo hrecover hs
    have heq := hcommitted.trans (hindex memory (hcommitted ▸ hlt))
    exact ⟨heq, heq ▸ hrecord⟩

/-- A start commits what the cluster has committed, if and only if its log is empty,
or no peer ends the stream within its answer before another one answers, and the
answer is not 0 while the log has more than one entry. -/
theorem replay_committed_iff {peers : List PeerCall}
    (hrecover : (Server.opened facId factories file uninit).recoverLog = .ok (smrLog, clog))
    (hanswer : ∀ index, answeredIndex peers = some index → -1 ≤ index) :
    ReplaysCommitted facId factories file uninit smrLog peers ↔ smrLog.length = 0 ∨
      ¬EndsEarly peers ∧ ¬(answeredIndex peers = some 0 ∧ 2 ≤ smrLog.length) := by
  rw [replaysCommitted_iff_replayedTo hrecover]
  rcases Nat.eq_zero_or_pos smrLog.length with hnone | hsome
  · refine iff_of_true (fun memory _ => ?_) (.inl hnone)
    rw [hnone, replayedTo_eq, clusterIndex]
    cases hindex : answeredIndex peers with
    | none =>
      dsimp only
      split_ifs <;> omega
    | some index =>
      have hge := hanswer index hindex
      dsimp only
      split_ifs <;> omega
  · by_cases hearly : EndsEarly peers
    · obtain ⟨memory, hto, hwrong⟩ := replayedTo_early hsome hearly
      refine iff_of_false (fun hall => hwrong (hall memory hto)) ?_
      rintro (hnone | ⟨hnot, -⟩)
      · omega
      · exact hnot hearly
    · have hmemory := replayedTo_answered hsome hearly hanswer
      constructor
      · exact fun hall => .inr ⟨hearly, (hmemory fun _ => .zero).mp (hall _)⟩
      · intro hcond memory
        exact (hmemory memory).mpr (hcond.resolve_left (by omega)).2

end Start

/-- Three entries; the first peer is down, and the second has committed more. -/
theorem replay_committed_three : ∃ file clog,
    (Server.opened 0 [] file fun _ => 0).recoverLog =
      .ok ([⟨1, 7, 1⟩, ⟨1, 7, 2⟩, ⟨1, 7, 3⟩], clog) ∧
    ReplaysCommitted 0 [] file (fun _ => 0) [⟨1, 7, 1⟩, ⟨1, 7, 2⟩, ⟨1, 7, 3⟩]
      [.notConnected, .asked (.received 4) 5] := by
  obtain ⟨file, clog, hrecover⟩ := exists_recoverLog
    (show [(⟨1, 7, 1⟩ : MapOp), ⟨1, 7, 2⟩, ⟨1, 7, 3⟩].length < 2 ^ 31 by decide)
  have hanswer : ∀ index, answeredIndex [.notConnected, .asked (.received 4) 5] = some index →
      -1 ≤ index := by
    rintro _ ⟨⟩
    decide
  refine ⟨file, clog, hrecover, (replay_committed_iff hrecover hanswer).mpr (.inr ⟨?_, by decide⟩)⟩
  exact not_lt.mpr (show int32Codec.size ≤ 4 by decide)

/-- Three entries, of which the peer has committed the first: all are replayed. -/
theorem replay_beyond_committed : ∃ file clog s,
    (Server.opened 0 [] file fun _ => 0).recoverLog =
      .ok ([⟨1, 7, 1⟩, ⟨1, 7, 2⟩, ⟨1, 7, 3⟩], clog) ∧
    Server.start 0 [] file (fun _ => 0)
      (peerReplies (fun _ => .zero) [.asked (.received 4) 0]) = .ok s ∧
    s.committedIndex = 2 ∧ clusterIndex [.asked (.received 4) 0] 3 = 0 ∧
    ¬ReplaysCommitted 0 [] file (fun _ => 0) [⟨1, 7, 1⟩, ⟨1, 7, 2⟩, ⟨1, 7, 3⟩]
      [.asked (.received 4) 0] := by
  obtain ⟨file, clog, hrecover⟩ := exists_recoverLog
    (show [(⟨1, 7, 1⟩ : MapOp), ⟨1, 7, 2⟩, ⟨1, 7, 3⟩].length < 2 ^ 31 by decide)
  have hindex : firstCommitedIndex (peerReplies (fun _ => .zero) [.asked (.received 4) 0]) = 0 :=
    firstCommitedIndex_answered _ (not_lt.mpr (show int32Codec.size ≤ 4 by decide))
  have hto : Server.replayedTo
      (firstCommitedIndex (peerReplies (fun _ => .zero) [.asked (.received 4) 0])) 3 < 3 := by
    rw [hindex]
    decide
  obtain ⟨s, hs⟩ := start_total hrecover hto
  have hcommitted : s.committedIndex = 2 := by
    rw [(start_replayedTo hrecover hs).1, hindex]
    decide
  refine ⟨file, clog, s, hrecover, hs, hcommitted, by decide, fun hreplays => ?_⟩
  have h0 := (hreplays _ s hs).1
  rw [hcommitted] at h0
  revert h0
  decide

end RobotFactory
