import RobotFactory.Crc32
import RobotFactory.LogWriting
import RobotFactory.Startup
import RobotFactory.TransitionSystem

/-!
# Restarts of a server without peers

A server without peers goes through cycles: it starts on the file that the last
crash has left, handles orders, and crashes again when only complete batches have
reached the file. What it has in memory after a start is the concatenation of the
entries in these batches, as long as the reader can count them.
-/
namespace RobotFactory
open TransitionSystem ReplayLog RecordStream

namespace Server

/-- `start` with the flags of `Init` as arguments, when there is no peer to ask. -/
def startAlone [Zlib] (isFFlush : Int32) (batch : UInt32) (facId : ℤ) (file : List UInt8)
    (uninit : ℕ → Int32) : Except Fault Server :=
  let s := { opened facId [] file uninit with
    clog := (CommitLog.new uninit).init file isFFlush batch }
  if walEnabled then s.initiateRecoveryFromLog [] else .ok s

theorem startAlone_default [Zlib] (facId : ℤ) (file : List UInt8) (uninit : ℕ → Int32) :
    startAlone fFlushDefault batchSizeDefault facId file uninit =
      start facId [] file uninit [] := rfl

/-- An iteration of `admin_thread` without peers: its replication loop does nothing. -/
def iteration [Zlib] (shipOrder : RobotInf) (s : Server) : Except Fault Server := do
  let s ← s.adminRecheck fun _ => -1
  let s ← s.adminAppend shipOrder
  return s.adminCommit shipOrder

/-- Without peers the two parts of an iteration that the system takes one after the
other are this one. -/
theorem iteration_eq_parts [Zlib] {n : Node} {shipOrder : RobotInf} {s' : Server}
    (hnone : n.server.factoriesRecord = []) (h : n.server.iteration shipOrder = .ok s')
    (connect : ℤ → ℤ) (req : ReplReq) :
    ((n.beginIteration shipOrder connect).finishIteration shipOrder req).server = s' := by
  have hconnect : n.server.adminRecheck connect = n.server.adminRecheck fun _ => -1 := by
    unfold adminRecheck recheckcommit
    split_ifs with hallow hbehind
    · unfold commitAt
      cases vectorAt n.server.smrLog n.server.lastIndex with
      | error fault => rfl
      | ok op => simp [recheckreplsock, hnone, pure, Except.pure]
    · simp [recheckreplsock, hnone]
    · rfl
  obtain ⟨r, hr, hrest⟩ := bind_eq_ok.mp h
  obtain ⟨t, ht, hpure⟩ := bind_eq_ok.mp hrest
  cases hpure
  unfold Node.beginIteration
  rw [hconnect, hr, ok_bind, ht]
  rfl

/-- The close path of `engineer_thread_body`. -/
def clientClosed (s : Server) : Server :=
  { s with clog := if walEnabled then s.clog.sync else s.clog, recheckAllow := true }

theorem clientClosed_server (n : Node) : n.clientClosed.server = n.server.clientClosed := rfl

/-- Everything in the log is committed. -/
structure Settled (s : Server) : Prop where
  last_eq : s.lastIndex = (s.smrLog.length : ℤ) - 1
  committed_eq : s.committedIndex = (s.smrLog.length : ℤ) - 1
  record_eq : s.customerRecord = replayRecord s.smrLog

theorem Settled.sameState {s s' : Server} (h : s.Settled) (hsame : s.SameState s') :
    s'.Settled := by
  refine ⟨?_, ?_, ?_⟩
  · rw [hsame.lastIndex_eq, hsame.smrLog_eq, h.last_eq]
  · rw [hsame.committedIndex_eq, hsame.smrLog_eq, h.committed_eq]
  · rw [hsame.customerRecord_eq, hsame.smrLog_eq, h.record_eq]

theorem Settled.recheck {s : Server} (h : s.Settled) (connect : ℤ → ℤ) :
    ∃ r, s.adminRecheck connect = .ok r ∧ s.SameState r := by
  have hdone : ¬(0 ≤ s.lastIndex ∧ s.committedIndex < s.lastIndex) := by
    rw [h.last_eq, h.committed_eq]
    omega
  unfold adminRecheck recheckcommit
  rw [if_neg hdone]
  split_ifs
  · exact ⟨_, rfl, rfl, rfl, rfl, rfl, rfl⟩
  · exact ⟨s, rfl, rfl, rfl, rfl, rfl, rfl⟩

theorem Settled.order [Zlib] {s : Server} (h : s.Settled) {shipOrder : RobotInf}
    (horder : shipOrder.customerId ≠ -1) (hfew : s.smrLog.length < 2 ^ 31) {clog : CommitLog}
    (hw : writeAhead s.clog (logEntryOf shipOrder) = .ok clog) :
    ∃ s', s.iteration shipOrder = .ok s' ∧ s'.Settled ∧
      s'.smrLog = s.smrLog ++ [logEntryOf shipOrder] ∧ s'.clog = clog := by
  obtain ⟨r, hr, hsame⟩ := h.recheck fun _ => -1
  have hrs := h.sameState hsame
  have hend : r.lastIndex + 1 = (r.smrLog.length : ℤ) := by
    rw [hrs.last_eq]
    omega
  have hinsert : vectorInsert r.smrLog (r.lastIndex + 1) (logEntryOf shipOrder) =
      .ok (r.smrLog ++ [logEntryOf shipOrder]) := by
    rw [hend, vectorInsert_of_le _ (by omega) le_rfl, Int.toNat_natCast, List.insertIdx_length_self]
  have hsucc : intSucc r.lastIndex = .ok (r.lastIndex + 1) :=
    intSucc_of_lt (by rw [hrs.last_eq, hsame.smrLog_eq, intMax]; omega)
  rw [iteration, hr, ok_bind, adminAppend, if_pos horder, hsucc, ok_bind, hsame.clog_eq, hw,
    ok_bind, hinsert]
  refine ⟨_, rfl, ?_⟩
  rw [adminCommit, if_pos horder]
  refine ⟨⟨?_, ?_, ?_⟩, ?_, rfl⟩
  · simp only [lastIndex, List.length_append, List.length_singleton] at hend ⊢
    omega
  · simp only [committedIndex, lastIndex, List.length_append, List.length_singleton] at hend ⊢
    omega
  · simp only [hrs.record_eq, replayRecord, replay_concat]
  · simp only [hsame.smrLog_eq]

theorem Settled.marker [Zlib] {s : Server} (h : s.Settled) {shipOrder : RobotInf}
    (hmarker : shipOrder.customerId = -1) :
    ∃ s', s.iteration shipOrder = .ok s' ∧ s.SameState s' := by
  obtain ⟨r, hr, hsame⟩ := h.recheck fun _ => -1
  rw [iteration, hr, ok_bind, adminAppend, if_neg (not_not.mpr hmarker)]
  refine ⟨_, rfl, ?_⟩
  rw [adminCommit, if_neg (not_not.mpr hmarker)]
  exact ⟨hsame.1, hsame.2, hsame.3, hsame.4, hsame.5⟩

theorem Settled.written [Zlib] {s s' : Server} (h : s.Settled) {shipOrder : RobotInf}
    (horder : shipOrder.customerId ≠ -1) (hok : s.iteration shipOrder = .ok s') :
    s.smrLog.length < 2 ^ 31 ∧
      ∃ clog, writeAhead s.clog (logEntryOf shipOrder) = .ok clog := by
  obtain ⟨r, hr, hsame⟩ := h.recheck fun _ => -1
  rw [iteration, hr, ok_bind] at hok
  obtain ⟨t, happend, -⟩ := bind_eq_ok.mp hok
  have hlast := h.last_eq
  have hsucc := hsame.lastIndex_eq
  cases adminAppend_cases happend with
  | order clog _ hlt hclog =>
    rw [intMax] at hlt
    exact ⟨by omega, clog, hsame.clog_eq ▸ hclog⟩
  | marker hmarker => exact absurd hmarker horder

end Server

/-- What happens to a server between start and crash. -/
inductive ServerEvent where
  | iteration (shipOrder : RobotInf)
  | clientClose

namespace ServerEvent

def handle [Zlib] (s : Server) : ServerEvent → Except Fault Server
  | .iteration shipOrder => s.iteration shipOrder
  | .clientClose => .ok s.clientClosed

def logged : ServerEvent → List MapOp
  | .iteration shipOrder =>
    if shipOrder.customerId ≠ -1 then [Server.logEntryOf shipOrder] else []
  | .clientClose => []

theorem length_logged_le (events : List ServerEvent) :
    (events.flatMap logged).length ≤ events.length := by
  induction events with
  | nil => exact le_rfl
  | cons e events ih =>
    have hone : e.logged.length ≤ 1 := by
      unfold logged
      split
      · split_ifs <;> simp
      · exact Nat.zero_le _
    rw [List.flatMap_cons, List.length_append, List.length_cons]
    omega

end ServerEvent

/-- The invariant of a server between start and crash: `old` was in the file
`base`, `entries` have been logged since. -/
structure Server.InCycle [Zlib] (s : Server) (b : ℕ) (base : List UInt8)
    (old entries : List MapOp) : Prop where
  settled : s.Settled
  log_eq : s.smrLog = old ++ entries
  logs : s.clog.LogsWithCrc b base entries

namespace Server.InCycle

theorem handle [Zlib] {s s' : Server} {b : ℕ} {base : List UInt8} {old entries : List MapOp}
    {e : ServerEvent} (h : s.InCycle b base old entries) (hok : e.handle s = .ok s') :
    s'.InCycle b base old (entries ++ e.logged) := by
  cases e with
  | clientClose =>
    cases hok
    rw [ServerEvent.logged, List.append_nil]
    exact ⟨⟨h.settled.1, h.settled.2, h.settled.3⟩, h.log_eq, h.logs.sync⟩
  | iteration shipOrder =>
    simp only [ServerEvent.handle, ServerEvent.logged] at hok ⊢
    split_ifs with horder
    · obtain ⟨hfew, clog, hw⟩ := h.settled.written horder hok
      obtain ⟨r, hr, hsettled, hlog, hclog⟩ := h.settled.order horder hfew hw
      rw [hr, Except.ok.injEq] at hok
      subst hok
      refine ⟨hsettled, by rw [hlog, h.log_eq, List.append_assoc], ?_⟩
      rw [hclog]
      exact h.logs.write hw
    · obtain ⟨r, hr, hsame⟩ := h.settled.marker (not_not.mp horder)
      rw [hr, Except.ok.injEq] at hok
      subst hok
      rw [List.append_nil]
      exact ⟨h.settled.sameState hsame, hsame.smrLog_eq.trans h.log_eq, hsame.clog_eq ▸ h.logs⟩

theorem total [Zlib] {s : Server} {b : ℕ} {base : List UInt8} {old entries : List MapOp}
    (h : s.InCycle b base old entries) (hfit : 24 * b < 2 ^ 31)
    (hfew : s.smrLog.length < 2 ^ 31) (e : ServerEvent) :
    ∃ s', e.handle s = .ok s' := by
  cases e with
  | clientClose => exact ⟨_, rfl⟩
  | iteration shipOrder =>
    by_cases horder : shipOrder.customerId = -1
    · obtain ⟨r, hr, -⟩ := h.settled.marker horder
      exact ⟨r, hr⟩
    · obtain ⟨clog, hw⟩ := h.logs.total s.clog.flushes (Server.logEntryOf shipOrder) (.inr hfit)
      obtain ⟨r, hr, -⟩ := h.settled.order horder hfew hw
      exact ⟨r, hr⟩

theorem run [Zlib] {s s' : Server} {b : ℕ} {base : List UInt8} {old : List MapOp}
    {events : List ServerEvent} (h : s.InCycle b base old [])
    (hok : events.foldlM ServerEvent.handle s = .ok s') :
    s'.InCycle b base old (events.flatMap ServerEvent.logged) := by
  have hstart : s.InCycle b base old (([] : List ServerEvent).flatMap ServerEvent.logged) := h
  refine foldlM_invariant (fun es t => t.InCycle b base old (es.flatMap ServerEvent.logged))
    (fun es e t t' ht he => ?_) hstart hok
  rw [List.flatMap_append, List.flatMap_singleton]
  exact ht.handle he

theorem run_total [Zlib] {s : Server} {b : ℕ} {base : List UInt8} {old : List MapOp}
    (events : List ServerEvent) (h : s.InCycle b base old []) (hfit : 24 * b < 2 ^ 31)
    (hfew : old.length + events.length ≤ 2 ^ 31) :
    ∃ s', events.foldlM ServerEvent.handle s = .ok s' := by
  have hstart : s.InCycle b base old (([] : List ServerEvent).flatMap ServerEvent.logged) := h
  refine foldlM_total ServerEvent.handle
    (fun es t => t.InCycle b base old (es.flatMap ServerEvent.logged))
    (fun es e t t' ht he => ?_) events hstart (fun es e t ht hlt => ht.total hfit ?_ e)
  · rw [List.flatMap_append, List.flatMap_singleton]
    exact ht.handle he
  · have hle := ServerEvent.length_logged_le es
    rw [List.length_nil, Nat.zero_add] at hlt
    rw [ht.log_eq, List.length_append]
    omega

end Server.InCycle

theorem replayedTo_zero (n : ℕ) : Server.replayedTo 0 n = (n : ℤ) - 1 := by
  rw [replayedTo_eq, if_pos (.inl rfl)]

/-- A server that has started on a file has everything it found there committed. -/
theorem startAlone_eq_ok [Zlib] {isFFlush : Int32} {batch : UInt32} {facId : ℤ} {file : List UInt8}
    {uninit : ℕ → Int32} {s : Server}
    (h : Server.startAlone isFFlush batch facId file uninit = .ok s) :
    s.InCycle (max 1 batch.toNat) file (CommitLog.entriesOf file) [] ∧
      (CommitLog.entriesOf file).length < 2 ^ 31 := by
  obtain ⟨unread, last, record, hlast, rfl, hrep, hlt⟩ :=
    initiateRecoveryFromLog_eq_ok h rfl rfl rfl rfl
  have hend : last = ((CommitLog.entriesOf file).length : ℤ) - 1 := hlast.trans (replayedTo_zero _)
  have hrecord : record = replayRecord (CommitLog.entriesOf file) := by
    have hstate := hrep.state_eq
    rw [List.take_of_length_le (by simp only [OutFile.fopen, CommitLog.init]; omega)] at hstate
    exact hstate
  refine ⟨⟨⟨hend, hend, hrecord⟩, (List.append_nil _).symm, ?_⟩, hlt⟩
  exact (CommitLog.LogsWithCrc.init uninit file isFFlush batch).congr rfl List.prefix_rfl

theorem startAlone_total [Zlib] (isFFlush : Int32) (batch : UInt32) (facId : ℤ) {file : List UInt8}
    (uninit : ℕ → Int32) (h : (CommitLog.entriesOf file).length < 2 ^ 31) :
    ∃ s, Server.startAlone isFFlush batch facId file uninit = .ok s := by
  refine initiateRecoveryFromLog_total rfl h ?_
  change Server.replayedTo 0 (CommitLog.entriesOf file).length < (CommitLog.entriesOf file).length
  rw [replayedTo_zero]
  omega

/-- From a start to the crash after it: the arguments of `Init`, the events, the
number of batches that the crash keeps, and the buffered bytes that reach the disk. -/
structure Cycle where
  isFFlush : Int32
  batch : UInt32
  uninit : ℕ → Int32
  events : List ServerEvent
  kept : ℕ
  keep : ℕ

/-- The file between two cycles, and the entries in all batches that were kept. -/
structure Stored where
  file : List UInt8
  durable : List MapOp

namespace Cycle

def batchSize (cyc : Cycle) : ℕ := max 1 cyc.batch.toNat

def logged (cyc : Cycle) : List MapOp := cyc.events.flatMap ServerEvent.logged

def durable (cyc : Cycle) : List MapOp := cyc.logged.take (cyc.kept * cyc.batchSize)

def live [Zlib] (cyc : Cycle) (facId : ℤ) (file : List UInt8) : Except Fault Server := do
  let s ← Server.startAlone cyc.isFFlush cyc.batch facId file cyc.uninit
  cyc.events.foldlM ServerEvent.handle s

end Cycle

def cycleStep [Zlib] (facId : ℤ) (d : Stored) (cyc : Cycle) : Option Stored :=
  match cyc.live facId d.file with
  | .error _ => none
  | .ok s => some ⟨s.clog.outfile.crashImage cyc.keep, d.durable ++ cyc.durable⟩

/-- The crash keeps exactly the first batches: the file holds the records of their
entries, behind what it held at the start. -/
structure KeepsBatches [Zlib] (facId : ℤ) (d : Stored) (cyc : Cycle) : Prop where
  kept_le : cyc.kept * cyc.batchSize ≤ cyc.logged.length
  image_eq : ∀ s, cyc.live facId d.file = .ok s → ∃ records : List WalSmrEntry,
    records.map WalSmrEntry.data = cyc.durable ∧
    (∀ r ∈ records, CommitLog.checksumMatches r = true) ∧
    s.clog.outfile.crashImage cyc.keep = d.file ++ walSmrEntryCodec.encodeAll records

theorem live_inCycle [Zlib] {facId : ℤ} {file : List UInt8} {cyc : Cycle} {s : Server}
    (h : cyc.live facId file = .ok s) :
    s.InCycle cyc.batchSize file (CommitLog.entriesOf file) cyc.logged := by
  obtain ⟨r, hstart, hrun⟩ := bind_eq_ok.mp h
  exact (startAlone_eq_ok hstart).1.run hrun

/-- Every crash at the end of a batch is such a crash, unless a batch was written
whose size does not fit an `int`. -/
theorem keepsBatches_of_length [Zlib] {facId : ℤ} {d : Stored} {cyc : Cycle} {s : Server}
    (hlive : cyc.live facId d.file = .ok s)
    (hfit : cyc.logged.length < cyc.batchSize ∨ 24 * cyc.batchSize < 2 ^ 31)
    (hlen : (s.clog.outfile.crashImage cyc.keep).length =
      d.file.length + 24 * (cyc.kept * cyc.batchSize)) : KeepsBatches facId d cyc := by
  obtain ⟨records, flushed, -, hlogged, hdata, hsum⟩ := (live_inCycle hlive).logs
  have hcount : records.length = cyc.logged.length := by rw [← hdata, List.length_map]
  obtain ⟨m, himage, -⟩ := hlogged.crashImage (hfit.imp_left fun hlt => by omega) cyc.keep
  have hsplit := hlogged.batched.split
  have hbytes : min m (24 * flushed.length) = 24 * (cyc.kept * cyc.batchSize) := by
    rw [himage, List.length_append, List.length_take, Codec.length_encodeAll,
      walSmrEntryCodec_size] at hlen
    omega
  have hle : cyc.kept * cyc.batchSize ≤ flushed.length := by omega
  have hfront : flushed.take (cyc.kept * cyc.batchSize) =
      records.take (cyc.kept * cyc.batchSize) := by
    rw [← hsplit, List.take_append_of_le_length hle]
  refine ⟨?_, fun t ht => ⟨records.take (cyc.kept * cyc.batchSize), ?_, ?_, ?_⟩⟩
  · rw [← hcount, ← hsplit, List.length_append]
    omega
  · rw [Cycle.durable, ← hdata, List.map_take]
  · exact fun r hr => hsum r (List.mem_of_mem_take hr)
  · rw [hlive, Except.ok.injEq] at ht
    rw [← ht, himage, ← hfront, ← Codec.take_encodeAll, walSmrEntryCodec_size, ← hbytes,
      List.take_eq_take_min, Codec.length_encodeAll, walSmrEntryCodec_size]

/-- The file holds the durable entries, and nothing behind them. -/
structure Stored.Holds [Zlib] (d : Stored) : Prop where
  entries_eq : CommitLog.entriesOf d.file = d.durable
  length_eq : walSmrEntryCodec.size * d.durable.length = d.file.length

namespace Stored.Holds

theorem empty [Zlib] : Stored.Holds ⟨[], []⟩ :=
  ⟨CommitLog.entriesOf_nil, rfl⟩

theorem step [Zlib] {facId : ℤ} {d d' : Stored} {cyc : Cycle} (h : d.Holds)
    (hkeeps : KeepsBatches facId d cyc) (hstep : cycleStep facId d cyc = some d') : d'.Holds := by
  unfold cycleStep at hstep
  split at hstep
  · cases hstep
  · rename_i s hlive
    obtain ⟨records, hdata, hsum, himage⟩ := hkeeps.image_eq s hlive
    cases hstep
    have hend : walSmrEntryCodec.size * (CommitLog.entriesOf d.file).length = d.file.length := by
      rw [h.entries_eq, h.length_eq]
    refine ⟨?_, ?_⟩
    · simp only [himage]
      rw [CommitLog.entriesOf_append hend hsum, h.entries_eq, hdata]
    · simp only [himage]
      rw [List.length_append, List.length_append, Codec.length_encodeAll, Nat.mul_add, h.length_eq,
        ← hdata, List.length_map]

theorem run [Zlib] {facId : ℤ} {d : Stored}
    (hrun : Run (cycleStep facId) (KeepsBatches facId) ⟨[], []⟩ d) : d.Holds :=
  hrun.invariant Stored.Holds (fun _ _ _ hd hok hstep => hd.step hok hstep) empty

end Stored.Holds

/-- The server has what it had when the last durable entry was committed. -/
structure Server.Restored [Zlib] (s : Server) (facId : ℤ) (d : Stored) : Prop where
  log_eq : s.smrLog = d.durable
  last_eq : s.lastIndex = (d.durable.length : ℤ) - 1
  committed_eq : s.committedIndex = (d.durable.length : ℤ) - 1
  record_eq : ∀ (isFFlush : Int32) (batch : UInt32) (uninit : ℕ → Int32) (orders : List RobotInf)
    (r t : Server), (∀ o ∈ orders, o.customerId ≠ -1) →
    orders.map Server.logEntryOf = d.durable →
    Server.startAlone isFFlush batch facId [] uninit = .ok r →
    orders.foldlM (fun u o => u.iteration o) r = .ok t → s.customerRecord = t.customerRecord
  next : ∀ o : RobotInf, o.customerId ≠ -1 → ∃ t, s.iteration o = .ok t ∧
    t.smrLog = s.smrLog ++ [Server.logEntryOf o] ∧ t.lastIndex = s.smrLog.length

theorem flatMap_logged {orders : List RobotInf} (h : ∀ o ∈ orders, o.customerId ≠ -1) :
    (orders.map ServerEvent.iteration).flatMap ServerEvent.logged =
      orders.map Server.logEntryOf := by
  induction orders with
  | nil => rfl
  | cons o orders ih =>
    rw [List.map_cons, List.flatMap_cons, ih fun u hu => h u (List.mem_cons_of_mem o hu),
      ServerEvent.logged, if_pos (h o List.mem_cons_self)]
    rfl

/-- A run without a crash ends with the replay of its orders. -/
theorem uninterrupted_eq_ok [Zlib] {isFFlush : Int32} {batch : UInt32} {facId : ℤ}
    {uninit : ℕ → Int32} {orders : List RobotInf} {s s' : Server}
    (horders : ∀ o ∈ orders, o.customerId ≠ -1)
    (hstart : Server.startAlone isFFlush batch facId [] uninit = .ok s)
    (hrun : orders.foldlM (fun u o => u.iteration o) s = .ok s') :
    s'.customerRecord = replayRecord (orders.map Server.logEntryOf) := by
  have hevents : (orders.map ServerEvent.iteration).foldlM ServerEvent.handle s = .ok s' := by
    rw [List.foldlM_map]
    exact hrun
  have hdone := (startAlone_eq_ok hstart).1.run hevents
  rw [hdone.settled.record_eq, hdone.log_eq, Stored.Holds.empty.entries_eq, List.nil_append,
    flatMap_logged horders]

theorem restored_of_lt [Zlib] {facId : ℤ} {d : Stored} (h : d.Holds) (isFFlush : Int32)
    (batch : UInt32) (uninit : ℕ → Int32) (hlt : d.durable.length < 2 ^ 31) :
    ∃ s, Server.startAlone isFFlush batch facId d.file uninit = .ok s ∧ s.Restored facId d := by
  obtain ⟨s, hstart⟩ := startAlone_total isFFlush batch facId uninit (h.entries_eq ▸ hlt)
  obtain ⟨hcycle, -⟩ := startAlone_eq_ok hstart
  have hlog : s.smrLog = d.durable := by rw [hcycle.log_eq, List.append_nil, h.entries_eq]
  have hsettled := hcycle.settled
  refine ⟨s, hstart, hlog, hlog ▸ hsettled.last_eq, hlog ▸ hsettled.committed_eq, ?_, ?_⟩
  · intro _ _ _ orders r t horders hdata hr ht
    rw [hsettled.record_eq, hlog, ← hdata, uninterrupted_eq_ok horders hr ht]
  · intro o horder
    have hroom : ([] : List MapOp).length + 1 < max 1 batch.toNat ∨
        24 * max 1 batch.toNat < 2 ^ 31 := by
      simp only [List.length_nil]
      omega
    obtain ⟨clog, hw⟩ := hcycle.logs.total s.clog.flushes (Server.logEntryOf o) hroom
    obtain ⟨t, ht, hnext, hmore, -⟩ := hsettled.order horder (hlog ▸ hlt) hw
    refine ⟨t, ht, hmore, ?_⟩
    rw [hnext.last_eq, hmore, List.length_append, List.length_singleton]
    omega

theorem lt_of_startAlone [Zlib] {isFFlush : Int32} {batch : UInt32} {facId : ℤ} {uninit : ℕ → Int32}
    {d : Stored} {s : Server} (h : d.Holds)
    (hstart : Server.startAlone isFFlush batch facId d.file uninit = .ok s) :
    d.durable.length < 2 ^ 31 :=
  h.entries_eq ▸ (startAlone_eq_ok hstart).2

/-- After any number of cycles a start restores the server exactly if the durable
entries are fewer than `2 ^ 31`. -/
theorem restart_restores_iff [Zlib] {facId : ℤ} {d : Stored}
    (hrun : Run (cycleStep facId) (KeepsBatches facId) ⟨[], []⟩ d) (isFFlush : Int32)
    (batch : UInt32) (uninit : ℕ → Int32) :
    (∃ s, Server.startAlone isFFlush batch facId d.file uninit = .ok s ∧ s.Restored facId d) ↔
      d.durable.length < 2 ^ 31 := by
  have hholds := Stored.Holds.run hrun
  constructor
  · rintro ⟨s, hstart, -⟩
    exact lt_of_startAlone hholds hstart
  · exact restored_of_lt hholds isFFlush batch uninit

/-- A cycle that handles a list of orders and flushes each full batch: its crash loses
the entries that are still pending. -/
theorem exists_cycle [Zlib] (facId : ℤ) {d : Stored} (h : d.Holds) {orders : List RobotInf}
    (horders : ∀ o ∈ orders, o.customerId ≠ -1) (batch : UInt32)
    (hfit : 24 * max 1 batch.toNat < 2 ^ 31) (hlt : d.durable.length < 2 ^ 31)
    (hfew : d.durable.length + orders.length ≤ 2 ^ 31) : ∃ cyc d',
    KeepsBatches facId d cyc ∧ cycleStep facId d cyc = some d' ∧
      d'.durable = d.durable ++ (orders.map Server.logEntryOf).take
        (orders.length / max 1 batch.toNat * max 1 batch.toNat) := by
  let cyc : Cycle := ⟨0, batch, fun _ => 0, orders.map .iteration,
    orders.length / max 1 batch.toNat, 24 * orders.length⟩
  have hlogged : cyc.logged = orders.map Server.logEntryOf := flatMap_logged horders
  have hcount : cyc.logged.length = orders.length := by rw [hlogged, List.length_map]
  obtain ⟨r, hr⟩ := startAlone_total 0 batch facId (fun _ => 0) (h.entries_eq ▸ hlt)
  obtain ⟨s, hs⟩ := (startAlone_eq_ok hr).1.run_total cyc.events hfit
    (by rw [h.entries_eq, List.length_map]; exact hfew)
  have hlive : cyc.live facId d.file = .ok s := bind_eq_ok.mpr ⟨r, hr, hs⟩
  obtain ⟨records, flushed, -, hwritten, hdata, -⟩ := (live_inCycle hlive).logs
  have hrecords : records.length = orders.length := by rw [← hcount, ← hdata, List.length_map]
  have hflushed : flushed.length = orders.length / cyc.batchSize * cyc.batchSize := by
    rw [hwritten.batched.length_flushed, hrecords]
  have hmost : flushed.length ≤ orders.length := hflushed ▸ Nat.div_mul_le_self _ _
  have hlen : (s.clog.outfile.crashImage cyc.keep).length =
      d.file.length + 24 * (cyc.kept * cyc.batchSize) := by
    have hcontents := hwritten.contents_of (.inr hfit)
    have hdisk := hwritten.base_prefix.length_le
    rw [OutFile.crashImage_eq_take, hcontents, List.length_take, List.length_append,
      Codec.length_encodeAll, walSmrEntryCodec_size, hflushed]
    rw [hflushed] at hmost
    have hkeep : cyc.keep = 24 * orders.length := rfl
    exact min_eq_right (by omega)
  have hstep : cycleStep facId d cyc =
      some ⟨s.clog.outfile.crashImage cyc.keep, d.durable ++ cyc.durable⟩ := by
    simp only [cycleStep, hlive]
  refine ⟨cyc, _, keepsBatches_of_length hlive (.inr hfit) hlen, hstep, ?_⟩
  rw [Cycle.durable, hlogged]
  rfl

/-- Two cycles: the first loses the last of three orders, the second the last of two. -/
theorem restart_restores_pair : ∃ (d : Stored) (s : Server),
    d.durable = [⟨1, 7, 1⟩, ⟨1, 7, 2⟩, ⟨1, 8, 1⟩, ⟨1, 8, 2⟩] ∧
    Server.startAlone 0 10 0 d.file (fun _ => 0) = .ok s ∧
    s.smrLog = [⟨1, 7, 1⟩, ⟨1, 7, 2⟩, ⟨1, 8, 1⟩, ⟨1, 8, 2⟩] ∧ s.committedIndex = 3 := by
  obtain ⟨cyc₁, d₁, hkeeps₁, hstep₁, hdurable₁⟩ := exists_cycle 0 .empty
    (show ∀ o ∈ [orderOf7 1, orderOf7 2, orderOf7 3], o.customerId ≠ -1 by decide) 2
    (by decide) (by decide) (by decide)
  have hrun₁ := Run.start.next hkeeps₁ hstep₁
  replace hdurable₁ : d₁.durable = [⟨1, 7, 1⟩, ⟨1, 7, 2⟩] := hdurable₁
  obtain ⟨cyc₂, d, hkeeps₂, hstep₂, hdurable⟩ := exists_cycle 0 (.run hrun₁)
    (show ∀ o ∈ [⟨8, 1, 1, 100, -1⟩, ⟨8, 2, 1, 100, -1⟩, ⟨8, 3, 1, 100, -1⟩],
      RobotInf.customerId o ≠ -1 by decide) 2
    (by decide) (by rw [hdurable₁]; decide) (by rw [hdurable₁]; decide)
  rw [hdurable₁] at hdurable
  replace hdurable : d.durable = [⟨1, 7, 1⟩, ⟨1, 7, 2⟩, ⟨1, 8, 1⟩, ⟨1, 8, 2⟩] := hdurable
  obtain ⟨s, hstart, hrestored⟩ := (restart_restores_iff (hrun₁.next hkeeps₂ hstep₂) 0 10
    fun _ => 0).mpr (by rw [hdurable]; decide)
  have hcommitted := hrestored.committed_eq
  rw [hdurable] at hcommitted
  exact ⟨d, s, hdurable, hstart, hrestored.log_eq.trans hdurable, hcommitted⟩

/-- With `2 ^ 31` orders in complete batches the server does not start again. -/
theorem restart_loses_all : ∃ d : Stored,
    Run (cycleStep 0) (KeepsBatches 0) ⟨[], []⟩ d ∧
    d.durable = List.replicate (2 ^ 31) ⟨1, 7, 1⟩ ∧
    ∀ s, Server.startAlone 0 1 0 d.file (fun _ => 0) ≠ .ok s := by
  have horders : ∀ o ∈ List.replicate (2 ^ 31) (orderOf7 1), o.customerId ≠ -1 := by
    intro o ho
    rw [List.eq_of_mem_replicate ho]
    decide
  generalize hlist : List.replicate (2 ^ 31) (orderOf7 1) = orders at horders
  have hlen : orders.length = 2 ^ 31 := by rw [← hlist, List.length_replicate]
  obtain ⟨cyc, d, hkeeps, hstep, hdurable⟩ := exists_cycle 0 .empty horders 1 (by decide)
    (by decide) (by rw [hlen, List.length_nil, Nat.zero_add])
  have hrun := Run.start.next hkeeps hstep
  have hall : d.durable = List.replicate (2 ^ 31) ⟨1, 7, 1⟩ := by
    rw [hdurable, show max 1 (1 : UInt32).toNat = 1 from rfl, Nat.div_one, Nat.mul_one,
      List.take_of_length_le (List.length_map ..).le, List.nil_append, ← hlist, List.map_replicate]
    rfl
  refine ⟨d, hrun, hall, fun s hstart => ?_⟩
  have hlt := lt_of_startAlone (Stored.Holds.run hrun) hstart
  rw [hall, List.length_replicate] at hlt
  exact lt_irrefl _ hlt

end RobotFactory
