import RobotFactory.Acknowledgement

/-!
# A backup that comes back

A backup that crashes and restarts replays some of the entries that it finds in its
commit log, up to the index that the first peer reports. Those behind it stay in its
log. Replication neither reads nor moves them: a recovery inserts the missing entries
in front of them. As long as the entries that were replayed are those of the primary,
the log of the backup is the primary's up to its last index, and what was not replayed
stays behind it, over any number of lost connections and whatever the other backups do.
-/
namespace RobotFactory
open TransitionSystem

/-- The log of `s` is `log` up to its last index, and `tail` behind it. -/
structure Server.Joined (s : Server) (log tail : List MapOp) : Prop where
  sound : s.Sound
  last_lt : s.lastIndex < log.length
  log_eq : s.smrLog = log.take (s.lastIndex + 1).toNat ++ tail

namespace Server.Joined

theorem last_ge {s : Server} {log tail : List MapOp} (h : s.Joined log tail) :
    -1 ≤ s.lastIndex := by
  have hge := h.sound.committed_ge
  have hle := h.sound.committed_le
  omega

theorem length_take {s : Server} {log tail : List MapOp} (h : s.Joined log tail) :
    (log.take (s.lastIndex + 1).toNat).length = (s.lastIndex + 1).toNat := by
  have hlt := h.last_lt
  rw [List.length_take]
  omega

theorem take_eq {s : Server} {log tail : List MapOp} (h : s.Joined log tail) :
    s.smrLog.take (s.lastIndex + 1).toNat = log.take (s.lastIndex + 1).toNat := by
  rw [h.log_eq, List.take_left' h.length_take]

theorem drop_eq {s : Server} {log tail : List MapOp} (h : s.Joined log tail) :
    s.smrLog.drop (s.lastIndex + 1).toNat = tail := by
  rw [h.log_eq, List.drop_left' h.length_take]

theorem mono {s : Server} {log log' tail : List MapOp} (h : s.Joined log tail)
    (hlog : log <+: log') : s.Joined log' tail := by
  have hlt := h.last_lt
  have hle := hlog.length_le
  obtain ⟨more, rfl⟩ := hlog
  refine ⟨h.sound, by omega, ?_⟩
  rw [List.take_append_of_le_length (by omega)]
  exact h.log_eq

theorem sameLog {n n' : Node} {log tail : List MapOp} (h : n.server.Joined log tail)
    (hsame : n.SameLog n') : n'.server.Joined log tail := by
  refine ⟨h.sound.sameLog hsame, ?_, ?_⟩ <;> rw [hsame.lastIndex_eq]
  · exact h.last_lt
  · rw [hsame.smrLog_eq]
    exact h.log_eq

theorem record_eq {s : Server} {log tail : List MapOp} (h : s.Joined log tail) :
    s.customerRecord = replayRecord (log.take (s.committedIndex + 1).toNat) := by
  have hle := h.sound.committed_le
  have htake := congrArg (List.take (s.committedIndex + 1).toNat) h.take_eq
  rw [List.take_take, List.take_take, min_eq_left (by omega)] at htake
  rw [replayed_record h.sound, htake]

end Server.Joined

/-- A server that has restarted on a file whose replayed entries are in `log`. -/
theorem start_joined [Zlib] {facId : ℤ} {factories : List FactoryRec} {file : List UInt8}
    {uninit : ℕ → Int32} {replies : List PeerReply} {s : Server} {log : List MapOp}
    (h : Server.start facId factories file uninit replies = .ok s)
    (hfront : (CommitLog.entriesOf file).take (Server.replayedTo (firstCommitedIndex replies)
      (CommitLog.entriesOf file).length + 1).toNat <+: log) :
    s.Joined log ((CommitLog.entriesOf file).drop (Server.replayedTo (firstCommitedIndex replies)
      (CommitLog.entriesOf file).length + 1).toNat) := by
  obtain ⟨unread, last, record, hlast, hs, hrep, -⟩ :=
    initiateRecoveryFromLog_eq_ok h rfl rfl rfl rfl
  obtain ⟨log', j, hbecame, -⟩ := start_became h
  have hfile : s.smrLog = CommitLog.entriesOf file := by rw [hs]; rfl
  have hto : s.lastIndex = Server.replayedTo (firstCommitedIndex replies)
      (CommitLog.entriesOf file).length := by rw [hs]; exact hlast
  have hlt := hbecame.sound.last_lt
  rw [← hto] at hfront ⊢
  rw [hfile] at hlt
  have hlen := hfront.length_le
  have htake := List.prefix_iff_eq_take.mp hfront
  rw [List.length_take] at hlen htake
  refine ⟨hbecame.sound, by omega, ?_⟩
  rw [min_eq_left (by omega)] at htake
  rw [hfile, ← htake, List.take_append_drop]

section Exchanges

/-- What has to hold where a backup receives a request: a recovery is entered with
everything committed and its calls succeed, and a marker is not exactly one ahead. -/
structure Joins (link : Link) (req : ReplReq) (s : Server) : Prop where
  recovery : RecoveryWorks link req s
  marker : req.mapopRecord.arg1 = -1 → req.lastIndex ≠ s.lastIndex + 1

/-- Every path of `ifa_thread_read` completes the log in front of the tail. -/
theorem handledLog_joined {s b : Server} {shipOrder : RobotInf} {req : ReplReq}
    {tail : List MapOp} (hserving : s.Serving shipOrder req)
    (hlast : s.lastIndex = (s.smrLog.length : ℤ) - 1)
    (hb : b.Joined (s.smrLog.take (req.committedIndex + 1).toNat) tail)
    (hmarker : req.mapopRecord.arg1 = -1 → req.lastIndex ≠ b.lastIndex + 1) :
    b.handledLog req s.smrLog = s.smrLog ++ tail := by
  have hlen := hserving.length_take_committed hlast
  have hlt := hb.last_lt
  have hge := hserving.honest.ge
  unfold Server.handledLog
  split_ifs with hgap harg
  · have hmore := hb.mono (List.take_prefix _ _)
    rw [hmore.take_eq, hmore.drop_eq, List.take_append_drop]
  · have hsucc := hserving.honest.order harg
    simp only [Server.needsRecovery, decide_eq_true_eq] at hgap
    have hend : (b.lastIndex + 1).toNat = (req.committedIndex + 1).toNat := by omega
    have hlog := hb.log_eq
    rw [hend, List.take_take, min_self] at hlog
    have hindex : req.lastIndex.toNat =
        (s.smrLog.take (req.committedIndex + 1).toNat).length := by omega
    rw [hlog, hindex, ReplayLog.insertIdx_eq_take_append_drop _ _ (by simp), List.take_left,
      List.drop_left, List.append_cons, hserving.log_of_order hlast harg]
  · have harg' := not_not.mp harg
    have hmark := hserving.honest.marker harg'
    have hne := hmarker harg'
    simp only [Server.needsRecovery, decide_eq_true_eq] at hgap
    have hlog := hb.log_eq
    rw [show (b.lastIndex + 1).toNat = (req.committedIndex + 1).toNat by omega, List.take_take,
      min_self, hserving.log_of_marker hlast harg'] at hlog
    exact hlog

theorem prepared_of_joined {s b : Server} {link : Link} {shipOrder : RobotInf} {req : ReplReq}
    {tail : List MapOp} (hserving : s.Serving shipOrder req)
    (hlast : s.lastIndex = (s.smrLog.length : ℤ) - 1)
    (hb : b.Joined (s.smrLog.take (req.committedIndex + 1).toNat) tail)
    (hjoins : Joins link req b) : b.Prepared req s.smrLog := by
  have hlen := hserving.length_take_committed hlast
  have hlt := hb.last_lt
  have hcl := hb.sound.committed_le
  have hll := hb.sound.last_le
  have hend := hb.sound.last_lt
  have hreq := hserving.last_eq
  refine ⟨by omega, fun hneeds => ⟨(hjoins.recovery hneeds).1, by omega⟩, fun hgap harg => ?_⟩
  have hmark := hserving.honest.marker harg
  have hne := hjoins.marker harg
  simp only [Server.needsRecovery, decide_eq_false_iff_not] at hgap
  exact ⟨by omega, by omega⟩

/-- What an exchange makes of a backup that has joined: it does not get the request,
or it has the whole log in front of the tail. -/
inductive Attended (link : Link) (req : ReplReq) (smrLog tail : List MapOp) (b : Server) :
    Except Fault Server → Prop where
  | missed (id : ℤ) (hlost : link.sendRequest = false ∨ link.recvRequest = .failure) :
      Attended link req smrLog tail b (.ok { b with smrReplCommit.primaryId := id })
  | caughtUp (b' : Server)
      (hbecame : b'.Became (smrLog ++ tail) req.lastIndex req.committedIndex) :
      Attended link req smrLog tail b (.ok b')

/-- No entry is left unread. -/
theorem exchange_joined_not_stale [Zlib] {link : Link} (hlink : link.Whole) {s b : Server}
    {shipOrder : RobotInf} {req : ReplReq} {tail : List MapOp}
    (hserving : s.Serving shipOrder req) (hlast : s.lastIndex = (s.smrLog.length : ℤ) - 1)
    (hb : b.Joined (s.smrLog.take (req.committedIndex + 1).toNat) tail)
    (hjoins : link.sendRequest = true → link.recvRequest = .message → Joins link req b) :
    (exchange link false req s.smrLog b).stale = false := by
  cases hsend : link.sendRequest with
  | false => simp [exchange, hsend]
  | true =>
    exact exchange_not_stale hlink req s.smrLog hb.sound.committed_ge fun hrecv hneeds =>
      (prepared_of_joined hserving hlast hb (hjoins hsend hrecv)).drained hneeds

theorem exchange_attended [Zlib] {link : Link} (hlink : link.Whole) {s b : Server}
    {shipOrder : RobotInf} {req : ReplReq} {tail : List MapOp}
    (hserving : s.Serving shipOrder req) (hlast : s.lastIndex = (s.smrLog.length : ℤ) - 1)
    (hb : b.Joined (s.smrLog.take (req.committedIndex + 1).toNat) tail)
    (hjoins : link.sendRequest = true → link.recvRequest = .message → Joins link req b) :
    Attended link req s.smrLog tail b (exchange link false req s.smrLog b).backup := by
  by_cases hlost : link.sendRequest = false ∨ link.recvRequest = .failure
  · obtain ⟨id, hmissed⟩ := exchange_missed req s.smrLog b hlost
    rw [hmissed]
    exact .missed id hlost
  · obtain ⟨hsend, hrecv⟩ := Link.message_of_not_lost hlink.recvRequest hlost
    have hworks := hjoins hsend hrecv
    obtain ⟨b', hok, hbecame, -⟩ := exchange_became hb.sound hserving.honest
      (prepared_of_joined hserving hlast hb hworks) hsend hrecv
      fun hneeds => (hworks.recovery hneeds).2
    rw [handledLog_joined hserving hlast hb hworks.marker] at hbecame
    rw [hok]
    exact .caughtUp b' hbecame

theorem Attended.joined {link : Link} {s b : Server} {shipOrder : RobotInf} {req : ReplReq}
    {tail : List MapOp} {after : Except Fault Server} (h : Attended link req s.smrLog tail b after)
    (hserving : s.Serving shipOrder req) (hlast : s.lastIndex = (s.smrLog.length : ℤ) - 1)
    (hb : b.Joined (s.smrLog.take (req.committedIndex + 1).toNat) tail) (n : Node) :
    (n.afterExchange after).server.Joined s.smrLog tail := by
  cases h with
  | missed id =>
    have hmore := hb.mono (List.take_prefix _ _)
    exact ⟨hmore.sound.with_primaryId id, hmore.last_lt, hmore.log_eq⟩
  | caughtUp b' hbecame =>
    have hreq := hserving.last_eq
    have hend : b'.lastIndex = req.lastIndex := hbecame.last_eq
    refine ⟨hbecame.sound, ?_, ?_⟩ <;> simp only [Node.afterExchange]
    · omega
    · rw [hbecame.log_eq, List.take_of_length_le (by omega)]

end Exchanges

/-- `s` neither starts again nor handles a request outside the exchanges. -/
def Action.Spares (s : ℤ) : Action → Prop
  | .ifaTurn t .. => t ≠ s
  | .restart t .. => t ≠ s
  | _ => True

namespace Node.Leads

theorem crashed {n : Node} (h : n.Leads) : Node.Leads { n with alive := false } :=
  ⟨h.sound.sameLog (.crashed n), h.last_eq, h.committed, h.released⟩

theorem step [Zlib] {p : ℤ} {c c' : Cluster} {a : Action} (h : (c p).Leads) (hok : a.Spares p)
    (hstep : RobotFactory.step p c a = some c') : (c' p).Leads := by
  have hupdate {s : ℤ} {n : Node} (hn : s = p → n.Leads) : (Function.update c s n p).Leads := by
    by_cases hs : s = p
    · subst hs
      rw [Function.update_self]
      exact hn rfl
    · rwa [Function.update_of_ne (Ne.symm hs)]
  cases step_cases hstep with
  | begin shipOrder connect _ hadmin =>
    refine hupdate fun _ => ?_
    by_cases hcount : (c p).server.CanCount shipOrder
    · obtain ⟨s', -, -, hleads⟩ := h.begin shipOrder connect hadmin hcount
      exact hleads
    · rw [h.overflow shipOrder connect hadmin hcount]
      exact h.crashed
  | skipped _ _ _ _ f _ hadmin => exact hupdate fun _ => h.afterPeer hadmin f _ _
  | unanswered _ _ _ _ f _ hadmin => exact hupdate fun _ => h.afterPeer hadmin f _ _
  | exchanged _ _ _ _ f _ hadmin =>
    rw [Function.update_self]
    exact h.afterPeer hadmin f _ _
  | finish _ _ _ _ hadmin => exact hupdate fun _ => h.finish hadmin
  | clientClose => exact hupdate fun hs => hs ▸ h.clientClosed
  | replicationClose => exact hupdate fun hs => hs ▸ h.replicationClosed
  | crash => exact hupdate fun hs => hs ▸ h.crashed
  | ifaTurn | restart => exact hupdate fun hs => absurd hs hok

end Node.Leads

/-- The primary `p` leads, and the log of its backup `b` is the log that `b` has been
sent, up to the last index of `b`, and `tail`. -/
structure Rejoined (p b : ℤ) (tail : List MapOp) (c : Cluster) : Prop where
  roster : Roster c
  leads : (c p).Leads
  stale : (c p).stale b = false
  joined : ∀ (k : ℕ) (f : FactoryRec), (c p).server.factoriesRecord[k]? = some f →
    f.factoryId = b → (c b).server.Joined ((c p).replicatedLog k) tail

/-- The steps from which `b` comes back: in its exchanges every `recv` gets its whole
message, and they find it joining; the entries that it replays at a restart are among
those that it has been sent. The primary stays without a restart, neither of the two
handles a request outside the exchanges, and the log has room. -/
def Rejoining [Zlib] (p b : ℤ) (c : Cluster) : Action → Prop
  | .begin shipOrder _ => (c p).server.HasRoom shipOrder
  | .ifaTurn s .. => s ≠ p ∧ s ≠ b
  | .replicate link => ∀ shipOrder req i f, (c p).admin = .replicating shipOrder req i →
      (c p).server.factoriesRecord[i]? = some f → f.factoryId = b → 0 ≤ f.socket →
      (c b).alive = true → link.Whole ∧
        (link.sendRequest = true → link.recvRequest = .message → Joins link req (c b).server)
  | .restart s file _ replies => s ≠ p ∧ (s = b → ∀ (k : ℕ) (f : FactoryRec),
      (c p).server.factoriesRecord[k]? = some f → f.factoryId = b →
      (CommitLog.entriesOf file).take (Server.replayedTo (firstCommitedIndex replies)
        (CommitLog.entriesOf file).length + 1).toNat <+: (c p).replicatedLog k)
  | _ => True

theorem Rejoining.spares [Zlib] {p b : ℤ} {c : Cluster} {a : Action} (h : Rejoining p b c a) :
    a.Spares p := by
  cases a with
  | ifaTurn | restart => exact h.1
  | _ => trivial

theorem rejoined_of_fresh [Zlib] (p b : ℤ) {c : Cluster} (h : Fresh c) : Rejoined p b [] c where
  roster := h.roster
  leads := by
    have hblank := h.blank p
    refine ⟨.waiting hblank.sound (h.waiting p), ?_, ?_, fun r hr => ?_⟩
    · rw [hblank.last_eq, hblank.log_eq]
      rfl
    · exact fun _ => hblank.committed_eq.trans hblank.last_eq.symm
    · rw [h.released p] at hr
      cases hr
  stale := h.stale p b
  joined k f _ _ := by
    have hblank := h.blank b
    refine ⟨hblank.sound, ?_, ?_⟩ <;> rw [hblank.last_eq]
    · omega
    · rw [hblank.log_eq]
      rfl

namespace Rejoined

theorem begin [Zlib] {p b : ℤ} {tail : List MapOp} {c : Cluster} (h : Rejoined p b tail c)
    (shipOrder : RobotInf) (connect : ℤ → ℤ) (hadmin : (c p).admin = .waiting)
    (hroom : (c p).server.HasRoom shipOrder)
    (hroster : Roster (Function.update c p ((c p).beginIteration shipOrder connect))) :
    Rejoined p b tail (Function.update c p ((c p).beginIteration shipOrder connect)) := by
  obtain ⟨s', hnode, hbegan, hleads⟩ := h.leads.begin shipOrder connect hadmin hroom.canCount
  have htake := hbegan.take_committed h.leads.last_eq
  rw [hnode] at hroster hleads ⊢
  refine ⟨hroster, ?_, ?_, ?_⟩ <;> simp only [Function.update_self]
  · exact hleads
  · exact h.stale
  · intro k f hf hid
    rw [hbegan.factories_eq] at hf
    obtain ⟨g, hg, hgid, -⟩ := recheckedFactories_getElem? hf
    have hjoined := h.joined k g hg (hgid.trans hid)
    rw [Function.update_of_ne (hid ▸ hgid ▸ h.roster.ne hg)]
    simp only [Node.replicatedLog, hadmin] at hjoined
    simpa [Node.replicatedLog, Server.sendReq, htake] using hjoined

theorem turn {p b : ℤ} {tail : List MapOp} {c : Cluster} (h : Rejoined p b tail c)
    {shipOrder : RobotInf} {req : ReplReq} {i : ℕ} {f : FactoryRec}
    (hadmin : (c p).admin = .replicating shipOrder req i)
    (hf : (c p).server.factoriesRecord[i]? = some f) (backup : Node) (kept stale : Bool)
    (hbackup : f.factoryId = b → backup.server.Joined (c p).server.smrLog tail)
    (hstale : f.factoryId = b → stale = false)
    (hroster : Roster (Function.update (Function.update c f.factoryId backup) p
      ((c p).afterPeer shipOrder req i f kept stale))) :
    Rejoined p b tail (Function.update (Function.update c f.factoryId backup) p
      ((c p).afterPeer shipOrder req i f kept stale)) := by
  refine ⟨hroster, ?_, ?_, ?_⟩ <;> simp only [Function.update_self]
  · exact h.leads.afterPeer hadmin f kept stale
  · simp only [Node.afterPeer, Function.update_apply]
    split_ifs with hid
    · rw [hstale hid.symm, Bool.and_false]
    · exact h.stale
  · intro k g hg hid
    obtain ⟨g', hg', hgid, -⟩ := afterPeer_getElem? hf hg
    have hne : b ≠ p := hid ▸ hgid ▸ h.roster.ne hg'
    rw [Function.update_of_ne hne]
    by_cases hki : k = i
    · subst hki
      obtain rfl : f = g' := Option.some.inj (hf.symm.trans hg')
      have hfb := hgid.trans hid
      rw [← hfb, Function.update_self]
      simpa [Node.replicatedLog, Node.afterPeer] using hbackup hfb
    · have hother : b ≠ f.factoryId := fun heq =>
        hki (h.roster.position_unique hg' hf (hgid.trans (hid.trans heq)))
      have hiff : k < i + 1 ↔ k < i := by omega
      have hjoined := h.joined k g' hg' (hgid.trans hid)
      rw [Function.update_of_ne hother]
      simp only [Node.replicatedLog, hadmin] at hjoined
      simpa [Node.replicatedLog, Node.afterPeer, hiff] using hjoined

theorem next_joined {p b : ℤ} {tail : List MapOp} {c : Cluster} (h : Rejoined p b tail c)
    {shipOrder : RobotInf} {req : ReplReq} {i : ℕ} {f : FactoryRec}
    (hadmin : (c p).admin = .replicating shipOrder req i)
    (hf : (c p).server.factoriesRecord[i]? = some f) (hid : f.factoryId = b) :
    (c b).server.Joined ((c p).server.smrLog.take (req.committedIndex + 1).toNat) tail := by
  have hjoined := h.joined i f hf hid
  simpa [Node.replicatedLog, hadmin] using hjoined

theorem passed {p b : ℤ} {tail : List MapOp} {c : Cluster} (h : Rejoined p b tail c)
    {shipOrder : RobotInf} {req : ReplReq} {i : ℕ} {f : FactoryRec}
    (hadmin : (c p).admin = .replicating shipOrder req i)
    (hf : (c p).server.factoriesRecord[i]? = some f) (kept : Bool)
    (hroster : Roster (Function.update c p
      ((c p).afterPeer shipOrder req i f kept ((c p).stale f.factoryId)))) :
    Rejoined p b tail (Function.update c p
      ((c p).afterPeer shipOrder req i f kept ((c p).stale f.factoryId))) := by
  have hsame : Function.update c f.factoryId (c f.factoryId) = c := Function.update_eq_self ..
  have hturn := h.turn hadmin hf (c f.factoryId) kept ((c p).stale f.factoryId)
    (fun hid => (hid ▸ h.next_joined hadmin hf hid).mono (List.take_prefix _ _))
    (fun hid => hid ▸ h.stale)
  rw [hsame] at hturn
  exact hturn hroster

theorem finish {p b : ℤ} {tail : List MapOp} {c : Cluster} (h : Rejoined p b tail c)
    {shipOrder : RobotInf} {req : ReplReq} {i : ℕ}
    (hadmin : (c p).admin = .replicating shipOrder req i)
    (hlen : (c p).server.factoriesRecord.length ≤ i)
    (hroster : Roster (Function.update c p ((c p).finishIteration shipOrder req))) :
    Rejoined p b tail (Function.update c p ((c p).finishIteration shipOrder req)) := by
  obtain ⟨hbecame, hrole⟩ :=
    adminCommit_became h.leads.sound.server (h.leads.sound.serving _ _ _ hadmin)
  refine ⟨hroster, ?_, ?_, ?_⟩ <;> simp only [Function.update_self]
  · exact h.leads.finish hadmin
  · exact h.stale
  · intro k f hf hid
    simp only [Node.finishIteration, hrole.factoriesRecord] at hf
    have hk : k < i := (List.getElem?_eq_some_iff.mp hf).1.trans_le hlen
    have hjoined := h.joined k f hf hid
    rw [Function.update_of_ne (hid ▸ h.roster.ne hf)]
    simp only [Node.replicatedLog, hadmin, hk, if_true] at hjoined
    simpa [Node.finishIteration, Node.replicatedLog, hbecame.log_eq] using hjoined

theorem quiet {p b s : ℤ} {tail : List MapOp} {c : Cluster} (h : Rejoined p b tail c) {n : Node}
    (hsame : (c s).SameLog n) (hleads : (Function.update c s n p).Leads)
    (hroster : Roster (Function.update c s n)) : Rejoined p b tail (Function.update c s n) := by
  have hall := hsame.update
  have hp := hall p
  refine ⟨hroster, hleads, ?_, fun k f hf hid => ?_⟩
  · rw [hp.stale_eq]
    exact h.stale
  · rw [hp.factoriesRecord_eq] at hf
    have hjoined := (h.joined k f hf hid).sameLog (hall b)
    simpa only [Node.replicatedLog, hp.admin_eq, hp.smrLog_eq] using hjoined

/-- A step that does not restart `b` leaves the tail alone. -/
theorem step [Zlib] {p b : ℤ} {tail : List MapOp} {c c' : Cluster} {a : Action}
    (h : Rejoined p b tail c) (hok : Rejoining p b c a)
    (hrestart : ∀ file uninit replies, a ≠ .restart b file uninit replies)
    (hstep : RobotFactory.step p c a = some c') : Rejoined p b tail c' := by
  have hroster := h.roster.step hstep
  have hleads := h.leads.step hok.spares hstep
  cases step_cases hstep with
  | begin shipOrder connect _ hadmin => exact h.begin shipOrder connect hadmin hok hroster
  | skipped _ _ _ _ _ _ hadmin hf => exact h.passed hadmin hf true hroster
  | exchanged link shipOrder req i f _ hadmin hf hsocket hpeer _ _ result hresult =>
    have hserving := h.leads.sound.serving _ _ _ hadmin
    refine h.turn hadmin hf _ _ _ (fun hid => ?_) (fun hid => ?_) hroster <;>
      obtain ⟨hlink, hjoins⟩ := hok _ _ _ f hadmin hf hid hsocket (hid ▸ hpeer) <;>
      rw [hid, h.stale] at hresult <;> rw [← hresult]
    · exact (exchange_attended hlink hserving h.leads.last_eq (h.next_joined hadmin hf hid)
        hjoins).joined hserving h.leads.last_eq (h.next_joined hadmin hf hid) _
    · exact exchange_joined_not_stale hlink hserving h.leads.last_eq (h.next_joined hadmin hf hid)
        hjoins
  | unanswered _ _ _ _ _ _ hadmin hf => exact h.passed hadmin hf _ hroster
  | finish _ _ _ _ hadmin hlen => exact h.finish hadmin hlen hroster
  | clientClose => exact h.quiet (.clientClosed _) hleads hroster
  | replicationClose => exact h.quiet (.replicationClosed _) hleads hroster
  | crash => exact h.quiet (.crashed _) hleads hroster
  | ifaTurn s =>
    refine ⟨hroster, hleads, ?_, ?_⟩ <;> rw [Function.update_of_ne hok.1.symm]
    · exact h.stale
    · rw [Function.update_of_ne hok.2.symm]
      exact h.joined
  | restart s file uninit replies n _ hn =>
    have hsp : p ≠ s := fun heq => hok.1 heq.symm
    have hsb : b ≠ s := by
      rintro rfl
      exact hrestart file uninit replies rfl
    refine ⟨hroster, hleads, ?_, ?_⟩ <;> rw [Function.update_of_ne hsp]
    · exact h.stale
    · rw [Function.update_of_ne hsb]
      exact h.joined

/-- A restart of `b` leaves behind its last index what it has not replayed. -/
theorem restart [Zlib] {p b : ℤ} {tail : List MapOp} {c c' : Cluster} {file : List UInt8}
    {uninit : ℕ → Int32} {replies : List PeerReply} (h : Rejoined p b tail c)
    (hok : Rejoining p b c (.restart b file uninit replies))
    (hstep : RobotFactory.step p c (.restart b file uninit replies) = some c') :
    Rejoined p b ((CommitLog.entriesOf file).drop (Server.replayedTo (firstCommitedIndex replies)
      (CommitLog.entriesOf file).length + 1).toNat) c' := by
  have hroster := h.roster.step hstep
  have hbp : p ≠ b := fun heq => hok.1 heq.symm
  cases step_cases hstep with
  | restart _ _ _ _ n _ hn =>
    obtain ⟨s, hs, rfl⟩ := Node.start_of_restarted hn
    refine ⟨hroster, ?_, ?_, ?_⟩ <;> rw [Function.update_of_ne hbp]
    · exact h.leads
    · exact h.stale
    · intro k f hf hid
      rw [Function.update_self]
      exact start_joined hs (hok.2 rfl k f hf hid)

theorem run [Zlib] {p b : ℤ} {c₀ c : Cluster} (hfresh : Fresh c₀)
    (hrun : Run (RobotFactory.step p) (Rejoining p b) c₀ c) : ∃ tail, Rejoined p b tail c := by
  refine hrun.invariant (fun d => ∃ tail, Rejoined p b tail d) ?_ ⟨[], rejoined_of_fresh p b hfresh⟩
  rintro d a d' ⟨tail, hd⟩ hok hstep
  by_cases hrestart : ∃ file uninit replies, a = .restart b file uninit replies
  · obtain ⟨file, uninit, replies, rfl⟩ := hrestart
    exact ⟨_, hd.restart hok hstep⟩
  · refine ⟨tail, hd.step hok (fun file uninit replies heq => hrestart ?_) hstep⟩
    exact ⟨file, uninit, replies, heq⟩

theorem backup {p b : ℤ} {tail : List MapOp} {c : Cluster} (h : Rejoined p b tail c)
    (hpeer : b ∈ (c p).server.peerIds) : (c b).server.Joined (c p).server.smrLog tail := by
  obtain ⟨f, hf, hid⟩ := List.mem_map.mp hpeer
  obtain ⟨k, hk⟩ := List.getElem?_of_mem hf
  refine (h.joined k f hk hid).mono ?_
  unfold Node.replicatedLog
  split
  · exact List.prefix_rfl
  · split_ifs
    · exact List.prefix_rfl
    · exact List.take_prefix _ _

end Rejoined

/-- The primary keeps the socket of `b` if all calls succeed. -/
theorem Rejoined.kept [Zlib] {p b : ℤ} {tail : List MapOp} {c c' : Cluster}
    (h : Rejoined p b tail c) {link : Link} {shipOrder : RobotInf} {req : ReplReq} {i : ℕ}
    {f : FactoryRec} (hadmin : (c p).admin = .replicating shipOrder req i)
    (hf : (c p).server.factoriesRecord[i]? = some f) (hid : f.factoryId = b)
    (halive : (c b).alive = true) (hok : Rejoining p b c (.replicate link)) (hclean : link.Clean)
    (hstep : RobotFactory.step p c (.replicate link) = some c') :
    (c' p).server.factoriesRecord[i]? = some f := by
  cases step_cases hstep with
  | skipped _ _ _ _ f' _ hadmin' hf' =>
    rw [hadmin] at hadmin'
    cases hadmin'
    rw [Function.update_self, afterPeer_getElem?_self hf', ← hf, hf']
    rfl
  | unanswered _ _ _ _ f' _ hadmin' hf' _ hdead =>
    rw [hadmin] at hadmin'
    cases hadmin'
    obtain rfl := Option.some.inj (hf.symm.trans hf')
    rw [hid, halive] at hdead
    cases hdead
  | exchanged _ _ _ _ f' _ hadmin' hf' hsocket _ _ _ result hresult =>
    rw [hadmin] at hadmin'
    cases hadmin'
    obtain rfl := Option.some.inj (hf.symm.trans hf')
    obtain ⟨hlink, hjoins⟩ := hok _ _ _ f hadmin hf hid hsocket halive
    have hb := h.next_joined hadmin hf hid
    have hattended := exchange_attended hlink (h.leads.sound.serving _ _ _ hadmin)
      h.leads.last_eq hb hjoins
    have hbool : (exchange link false req (c p).server.smrLog (c b).server).backup.toBool =
        true := by
      revert hattended
      generalize (exchange link false req (c p).server.smrLog (c b).server).backup = after
      rintro (⟨id, hlost⟩ | ⟨b', hbecame⟩) <;> rfl
    have hkept := exchange_clean_kept hclean req (c p).server.smrLog hb.sound.committed_ge hbool
    rw [hid, h.stale] at hresult
    rw [hresult] at hkept
    rw [Function.update_self, afterPeer_getElem?_self hf, hkept, if_pos rfl]

/-- A peer without a gap, or that has committed everything, is ready for an order. -/
theorem Rejoining.of_order [Zlib] {p b : ℤ} {c : Cluster} {shipOrder : RobotInf} {req : ReplReq}
    {i : ℕ} {f : FactoryRec} (hadmin : (c p).admin = .replicating shipOrder req i)
    (hf : (c p).server.factoriesRecord[i]? = some f) (harg : req.mapopRecord.arg1 ≠ -1)
    (hdone : (c f.factoryId).alive = true → (c f.factoryId).server.needsRecovery req = true →
      (c f.factoryId).server.committedIndex = (c f.factoryId).server.lastIndex) :
    Rejoining p b c (.replicate Link.clean) := by
  intro o r j g hadmin' hg hid _ halive
  rw [hadmin] at hadmin'
  cases hadmin'
  obtain rfl := Option.some.inj (hf.symm.trans hg)
  subst hid
  exact ⟨Link.clean_clean.whole, fun _ _ => ⟨fun hneeds => ⟨hdone halive hneeds,
    Link.clean_clean.1⟩, fun heq => absurd heq harg⟩⟩

end RobotFactory
