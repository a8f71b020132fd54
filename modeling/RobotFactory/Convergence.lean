import RobotFactory.Lockstep
import RobotFactory.LoggedOnce

/-!
# When the backups catch up

A backup commits an order with the request that follows it. The last order is
therefore committed by a marker, which a connection queues at its end if its last
request was an order. Once all connections are closed, the backups have caught up
exactly if such an end comes after the last order of all.
-/
namespace RobotFactory
open TransitionSystem

section Requests

def LastIsOrder (events : List ClientEvent) (e : ℕ) : Prop :=
  ∃ before after, events = before ++ .order e :: after ∧ .read e ∉ after

/-- After the last order of all, a connection has ended with an order as its last request. -/
def EndsCommitted (events : List ClientEvent) : Prop :=
  ∃ before e after, events = before ++ .close e :: after ∧ LastIsOrder before e ∧
    ∀ e', .order e' ∉ after

/-- The last order, if there is any, is followed by such an end. -/
def Committing (events : List ClientEvent) : Prop :=
  (∀ e, .order e ∉ events) ∨ EndsCommitted events

theorem concat_eq_append_cons {α : Type*} {l before after : List α} {x y : α} :
    l ++ [x] = before ++ y :: after ↔
      (l = before ∧ x = y ∧ after = []) ∨
        ∃ rest, after = rest ++ [x] ∧ l = before ++ y :: rest := by
  rcases List.eq_nil_or_concat after with rfl | ⟨rest, z, rfl⟩
  · simp
  · rw [List.concat_eq_append, ← List.cons_append, ← List.append_assoc]
    constructor
    · intro h
      obtain ⟨hl, hx⟩ := List.append_inj' h rfl
      cases hx
      exact .inr ⟨rest, rfl, hl⟩
    · rintro (⟨-, -, hnil⟩ | ⟨rest', hrest, rfl⟩)
      · simp at hnil
      · obtain ⟨rfl, hz⟩ := List.append_inj' hrest rfl
        cases hz
        rfl

theorem lastIsOrder_concat {events : List ClientEvent} {x : ClientEvent} {e : ℕ} :
    LastIsOrder (events ++ [x]) e ↔ x = .order e ∨ (x ≠ .read e ∧ LastIsOrder events e) := by
  constructor
  · rintro ⟨before, after, heq, hread⟩
    rcases concat_eq_append_cons.mp heq with ⟨-, hx, -⟩ | ⟨rest, rfl, rfl⟩
    · exact .inl hx
    · simp only [List.mem_append, List.mem_singleton, not_or] at hread
      exact .inr ⟨Ne.symm hread.2, before, rest, rfl, hread.1⟩
  · rintro (rfl | ⟨hx, before, after, rfl, hread⟩)
    · exact ⟨events, [], rfl, List.not_mem_nil⟩
    · refine ⟨before, after ++ [x], by simp, ?_⟩
      simp only [List.mem_append, List.mem_singleton, not_or]
      exact ⟨hread, Ne.symm hx⟩

theorem endsCommitted_concat {events : List ClientEvent} {x : ClientEvent} :
    EndsCommitted (events ++ [x]) ↔ (∃ e, x = .close e ∧ LastIsOrder events e) ∨
      ((∀ e, x ≠ .order e) ∧ EndsCommitted events) := by
  constructor
  · rintro ⟨before, e, after, heq, hlast, horder⟩
    rcases concat_eq_append_cons.mp heq with ⟨rfl, hx, -⟩ | ⟨rest, rfl, rfl⟩
    · exact .inl ⟨e, hx, hlast⟩
    · simp only [List.mem_append, List.mem_singleton, not_or] at horder
      exact .inr ⟨fun e' => Ne.symm (horder e').2, before, e, rest, rfl, hlast,
        fun e' => (horder e').1⟩
  · rintro (⟨e, rfl, hlast⟩ | ⟨hx, before, e, after, rfl, hlast, horder⟩)
    · exact ⟨events, e, [], rfl, hlast, fun _ => List.not_mem_nil⟩
    · refine ⟨before, e, after ++ [x], by simp, hlast, fun e' => ?_⟩
      simp only [List.mem_append, List.mem_singleton, not_or]
      exact ⟨horder e', Ne.symm (hx e')⟩

theorem LastIsOrder.mem {events : List ClientEvent} {e : ℕ} (h : LastIsOrder events e) :
    .order e ∈ events := by
  obtain ⟨before, after, rfl, -⟩ := h
  exact List.mem_append_right _ List.mem_cons_self

end Requests

namespace Threads

/-- The flags of the connections and the kinds of the queued robots follow from the
requests. -/
structure Marked (t : Threads) : Prop where
  flag : ∀ e, (t.engineers e).sendLastCommittedIndex = true ↔ LastIsOrder t.requests e
  last : (∃ q, t.pushes.getLast? = some q ∧ q.marker = true) ↔ EndsCommitted t.requests
  orders : t.pushes = [] ↔ ∀ e, .order e ∉ t.requests

theorem Marked.opened (c : Cluster) : (Threads.opened c).Marked where
  flag e := by simp [Threads.opened, LastIsOrder]
  last := by simp [Threads.opened, EndsCommitted]
  orders := by simp [Threads.opened]

theorem Marked.of_eq {t t' : Threads} (h : t.Marked) (hrequests : t'.requests = t.requests)
    (hpushes : t'.pushes = t.pushes) (hflag : ∀ e, (t'.engineers e).sendLastCommittedIndex =
      (t.engineers e).sendLastCommittedIndex) : t'.Marked := by
  refine ⟨fun e => ?_, ?_, ?_⟩
  · rw [hflag, hrequests]
    exact h.flag e
  · rw [hpushes, hrequests]
    exact h.last
  · rw [hpushes, hrequests]
    exact h.orders

theorem Marked.setPc {t : Threads} (h : t.Marked) (e : ℕ) (pc : EngineerPc) :
    (t.setPc e pc).Marked := by
  refine h.of_eq rfl rfl fun e' => ?_
  simp only [Threads.setPc, Function.update_apply]
  split_ifs with heq
  · rw [heq]
  · rfl

theorem Marked.push {t : Threads} {e : ℕ} {x : Engineer} {robot : RobotInf}
    {marker : Bool} {event : ClientEvent}
    (hflag : ∀ e', ((t.push e x robot marker event).engineers e').sendLastCommittedIndex = true ↔
      LastIsOrder (t.requests ++ [event]) e')
    (hlast : marker = true ↔ EndsCommitted (t.requests ++ [event]))
    (horder : ∃ e', .order e' ∈ t.requests ++ [event]) :
    (t.push e x robot marker event).Marked := by
  refine ⟨hflag, ?_, ?_⟩
  · simp [Threads.push, ← hlast]
  · obtain ⟨e', he'⟩ := horder
    constructor
    · intro hnil
      simp [Threads.push] at hnil
    · exact fun hnone => absurd he' (hnone e')

theorem Marked.step [Zlib] {p : ℤ} {t t' : Threads} {a : ThreadAction} (h : t.Marked)
    (hstep : threadStep p t a = some t') : t'.Marked := by
  cases threadStep_cases hstep with
  | connect e => exact h.setPc e _
  | ignored => exact h
  | ship e => exact h.setPc e _
  | fail e => exact h.setPc e _
  | close e c => exact (h.setPc e _).of_eq rfl rfl fun _ => rfl
  | wake => exact h.of_eq rfl rfl fun _ => rfl
  | wait => exact h.of_eq rfl rfl fun _ => rfl
  | begin => exact h.of_eq rfl rfl fun _ => rfl
  | replicate => exact h.of_eq rfl rfl fun _ => rfl
  | peer => exact h.of_eq rfl rfl fun _ => rfl
  | others => exact h.of_eq rfl rfl fun _ => rfl
  | order e makeOrder =>
    refine .push (fun e' => ?_) ?_ ⟨e, by simp⟩
    · rw [lastIsOrder_concat]
      by_cases heq : e' = e
      · simp [Threads.push, heq]
      · simp [Threads.push, heq, Ne.symm heq, h.flag]
    · simp [endsCommitted_concat]
  | marker e uninit _ hflag =>
    have hlast := (h.flag e).mp hflag
    refine .push (fun e' => ?_) ?_ ⟨e, List.mem_append_left _ hlast.mem⟩
    · rw [lastIsOrder_concat]
      by_cases heq : e' = e
      · simp [Threads.push, heq, h.flag]
      · simp [Threads.push, heq, h.flag]
    · simp [endsCommitted_concat, hlast]
  | read e makeOrder =>
    refine ⟨fun e' => ?_, ?_, ?_⟩
    · rw [engineerThreadReadDef, lastIsOrder_concat]
      by_cases heq : e' = e
      · simp [heq]
      · simp [heq, Ne.symm heq, h.flag]
    · simp [engineerThreadReadDef, endsCommitted_concat, h.last]
    · simp [engineerThreadReadDef, h.orders]
  | noMarker e uninit _ hflag =>
    have hlast : ¬LastIsOrder t.requests e := by
      rw [← h.flag, hflag]
      exact Bool.false_ne_true
    refine ⟨fun e' => ?_, ?_, ?_⟩
    · rw [(h.setPc e .closing).flag, lastIsOrder_concat]
      simp [Threads.setPc]
    · simp [endsCommitted_concat, Threads.setPc, hlast, h.last]
    · simp [Threads.setPc, h.orders]
  | finish o b =>
    refine h.of_eq rfl rfl fun e => ?_
    have hadmin (x : Engineer) (id : Int32) :
        (x.setAdminId id).sendLastCommittedIndex = x.sendLastCommittedIndex := by
      unfold Engineer.setAdminId
      split
      · split_ifs <;> rfl
      · rfl
    have hrelease (x : Engineer) : x.release.sendLastCommittedIndex = x.sendLastCommittedIndex := by
      unfold Engineer.release
      split <;> rfl
    simp only [Threads.released, Function.update_apply]
    split_ifs with hb ho <;> simp_all

/-- The steps of clients and of a primary that never loses a backup. -/
def Calm (p : ℤ) (t : Threads) (a : ThreadAction) : Prop :=
  NamedOrders t a ∧ match a with
    | .begin connect => ∀ f ∈ (t.cluster p).server.factoriesRecord, 0 < connect f.factoryId
    | .replicate link => link.Clean
    | .peer a => FailureFree p t.cluster a
    | .fail _ | .others _ => False
    | _ => True

/-- How far the backups' commits are behind after the last robot handled. -/
def lag (t : Threads) : ℤ :=
  match (t.pushes.take t.releases.length).getLast? with
  | some q => if q.robot.customerId ≠ -1 then 1 else 0
  | none => 0

/-- Between two iterations the backups are behind by the last order. -/
structure Converging (p : ℤ) (t : Threads) : Prop where
  lockstep : Lockstep p t.cluster
  behind : (t.cluster p).admin = .waiting → ∀ f ∈ (t.cluster p).server.factoriesRecord,
    (t.cluster f.factoryId).server.committedIndex = (t.cluster p).server.committedIndex - t.lag

theorem Converging.opened [Zlib] {p : ℤ} {c : Cluster} (h : Fresh c) :
    (Threads.opened c).Converging p where
  lockstep := lockstep_of_fresh p h
  behind _ f _ := by
    change (c f.factoryId).server.committedIndex = (c p).server.committedIndex - 0
    rw [(h.blank _).committed_eq, (h.blank p).committed_eq]
    rfl

theorem Converging.sameQueue {p : ℤ} {t t' : Threads} (h : t.Converging p)
    (hlockstep : Lockstep p t'.cluster) (hsame : ∀ s, (t.cluster s).SameLog (t'.cluster s))
    (hreleases : t'.releases = t.releases)
    (hpushes : t'.pushes.take t.releases.length = t.pushes.take t.releases.length) :
    t'.Converging p := by
  refine ⟨hlockstep, fun hwait f hf => ?_⟩
  have hlag : t'.lag = t.lag := by rw [lag, hreleases, hpushes, lag]
  rw [(hsame p).admin_eq] at hwait
  rw [(hsame p).factoriesRecord_eq] at hf
  rw [(hsame _).committedIndex_eq, (hsame p).committedIndex_eq, hlag]
  exact h.behind hwait f hf

/-- The end of an iteration that has served all backups. -/
theorem Converging.finish {p : ℤ} {t : Threads} (h : t.Converging p) (hp : t.Paired p) {o b : ℕ}
    {shipOrder : RobotInf} {req : ReplReq} {i : ℕ} (hhandling : t.handling = some (o, b))
    (hadmin : (t.cluster p).admin = .replicating shipOrder req i)
    (hlen : (t.cluster p).server.factoriesRecord.length ≤ i)
    (hlockstep : Lockstep p
      (Function.update t.cluster p ((t.cluster p).finishIteration shipOrder req))) :
    (t.released p o b (Function.update t.cluster p
      ((t.cluster p).finishIteration shipOrder req))).Converging p := by
  refine ⟨hlockstep, fun _ f hf => ?_⟩
  have hserving := h.lockstep.sound.serving _ _ _ hadmin
  obtain ⟨hbecame, hrole⟩ := adminCommit_became h.lockstep.sound.server hserving
  have hcurrent := hp.current
  rw [hadmin, hhandling, pending, List.head?_drop] at hcurrent
  obtain ⟨q, hq, hrobot⟩ := Option.map_eq_some_iff.mp hcurrent.symm
  have hlag : (t.released p o b (Function.update t.cluster p
      ((t.cluster p).finishIteration shipOrder req))).lag =
      if shipOrder.customerId ≠ -1 then 1 else 0 := by
    simp only [lag, released, List.length_append, List.length_singleton]
    rw [List.take_add_one, hq, Option.toList_some, List.getLast?_concat]
    simp only [hrobot]
  simp only [released, Function.update_self, Node.finishIteration, hrole.factoriesRecord] at hf
  obtain ⟨k, hk⟩ := List.getElem?_of_mem hf
  have hserved := (h.lockstep.peers k f hk).served _ _ _ hadmin
    ((List.getElem?_eq_some_iff.mp hk).1.trans_le hlen)
  rw [hlag]
  simp only [released, Function.update_self, Function.update_of_ne (h.lockstep.roster.ne hk),
    Node.finishIteration]
  rw [hbecame.committed_eq, hserved]
  have hreq := hserving.last_eq
  split_ifs with horder
  · have := hserving.honest.order (mt hserving.order_iff.mp horder)
    omega
  · have := hserving.honest.marker (hserving.order_iff.mpr (not_not.mp horder))
    omega

theorem Converging.step [Zlib] {p : ℤ} {t t' : Threads} {a : ThreadAction} (hp : t.Paired p)
    (h : t.Converging p) (hok : Calm p t a) (hstep : threadStep p t a = some t') :
    t'.Converging p := by
  have hbusy {u : Threads} (hlockstep : Lockstep p u.cluster) {shipOrder : RobotInf} {req : ReplReq}
      {i : ℕ} (hadmin : (u.cluster p).admin = .replicating shipOrder req i) : u.Converging p := by
    refine ⟨hlockstep, fun hwait => ?_⟩
    rw [hadmin] at hwait
    cases hwait
  cases threadStep_cases hstep with
  | connect | read | ignored | ship | noMarker | fail | wake | wait =>
    exact h.sameQueue h.lockstep (fun _ => .refl _) rfl rfl
  | order | marker =>
    exact h.sameQueue h.lockstep (fun _ => .refl _) rfl (List.take_append_of_le_length hp.count)
  | close e c _ hc =>
    have hlockstep := h.lockstep.step (a := .clientClose p) trivial hc
    cases step_cases hc with
    | clientClose s => exact h.sameQueue hlockstep (Node.SameLog.clientClosed _).update rfl rfl
  | begin connect o b orders barriers shipOrder c _ _ _ _ _ hc halive =>
    have hlockstep := h.lockstep.step (a := .begin shipOrder connect) hok.2 hc
    cases step_cases hc with
    | begin _ _ _ hadmin =>
      rw [Function.update_self] at halive
      obtain ⟨s', hnode, -⟩ := h.lockstep.leads.begun hadmin halive
      have hadmin' : (Function.update t.cluster p
          ((t.cluster p).beginIteration shipOrder connect) p).admin =
          .replicating shipOrder (s'.sendReq shipOrder) 0 := by
        rw [Function.update_self, hnode]
      exact hbusy hlockstep hadmin'
  | replicate link o b c _ hc =>
    have hlockstep := h.lockstep.step (a := .replicate link) hok.2 hc
    obtain ⟨shipOrder, req, i, f, kept, stale, hadmin, -, hp⟩ := replicate_primary hc
    have hadmin' : (c p).admin = .replicating shipOrder req (i + 1) := by
      rw [hp]
      rfl
    exact hbusy hlockstep hadmin'
  | finish o b c hhandling hc =>
    have hlockstep := h.lockstep.step (a := .finish) trivial hc
    cases step_cases hc with
    | finish shipOrder req i _ hadmin hlen => exact h.finish hp hhandling hadmin hlen hlockstep
  | peer a c hpeer hc =>
    have hlockstep := h.lockstep.step hok.2 hc
    cases step_cases hc with
    | clientClose s => exact h.sameQueue hlockstep (Node.SameLog.clientClosed _).update rfl rfl
    | replicationClose s =>
      exact h.sameQueue hlockstep (Node.SameLog.replicationClosed _).update rfl rfl
    | begin | skipped | exchanged | unanswered | finish => exact hpeer.elim
    | ifaTurn | crash | restart => exact hok.2.elim
  | others d => exact hok.2.elim

def AllClosed (t : Threads) : Prop :=
  ∀ e, (t.engineers e).pc = .absent ∨ (t.engineers e).pc = .closed

/-- Nothing is queued or handled any more. -/
theorem AllClosed.quiet {p : ℤ} {t : Threads} (h : t.AllClosed) (hp : t.Paired p) :
    t.pending = [] ∧ t.handling = none ∧ t.adminThreadList = [] := by
  have hpending : t.pending = [] := by
    refine List.eq_nil_iff_forall_not_mem.mpr fun q hq => ?_
    have hpc := hp.waiting q hq
    unfold Push.pc at hpc
    rcases h q.owner with hq | hq <;> rw [hq] at hpc <;> split_ifs at hpc
  have howners := hp.owners_eq
  rw [hpending, List.map_nil, pendingOwners] at howners
  obtain ⟨hhandling, hlist⟩ := List.append_eq_nil_iff.mp howners.symm
  refine ⟨hpending, ?_, hlist⟩
  cases hhandle : t.handling with
  | none => rfl
  | some x =>
    rw [hhandle] at hhandling
    cases hhandling

/-- The backups are up to date exactly if the requests end with a commit. -/
theorem lag_eq_zero_iff {t : Threads} (hmarked : t.Marked) (hnamed : t.Named)
    (hall : t.pushes.take t.releases.length = t.pushes) : t.lag = 0 ↔ Committing t.requests := by
  unfold lag Committing
  rw [hall, ← hmarked.orders, ← hmarked.last]
  cases hlast : t.pushes.getLast? with
  | none => simp [List.getLast?_eq_none_iff.mp hlast]
  | some q =>
    have hmem := List.mem_of_getLast? hlast
    have hne := List.ne_nil_of_mem hmem
    simp [hne, ← hnamed q hmem]

end Threads

/-- A backup has the log, the indices and the record of the primary. -/
structure Server.CaughtUp (primary b : Server) : Prop where
  smrLog_eq : b.smrLog = primary.smrLog
  lastIndex_eq : b.lastIndex = primary.lastIndex
  committedIndex_eq : b.committedIndex = primary.committedIndex
  customerRecord_eq : b.customerRecord = primary.customerRecord

/-- In lockstep, a backup between two iterations differs in its commits only. -/
theorem Lockstep.caughtUp_iff {p : ℤ} {c : Cluster} (h : Lockstep p c)
    (hadmin : (c p).admin = .waiting) {f : FactoryRec}
    (hf : f ∈ (c p).server.factoriesRecord) :
    (c p).server.CaughtUp (c f.factoryId).server ↔
      (c f.factoryId).server.committedIndex = (c p).server.committedIndex := by
  refine ⟨fun hcaught => hcaught.committedIndex_eq, fun hcommitted => ?_⟩
  obtain ⟨k, hk⟩ := List.getElem?_of_mem hf
  have hholds := (h.peers k f hk).holds
  simp only [Node.replicatedLog, hadmin] at hholds
  refine ⟨hholds.log_eq, hholds.last_eq.trans h.last_eq.symm, hcommitted, ?_⟩
  rw [replayed_record hholds.sound, replayed_record h.sound.server, hcommitted, hholds.log_eq]

/-- Once all connections of a run without failures are closed, the queue is empty,
and the backups equal the primary if and only if there is none, or the last order
is followed by the end of a connection whose last request was an order. -/
theorem backups_converge_iff [Zlib] {p : ℤ} {c₀ : Cluster} {t : Threads} (hfresh : Fresh c₀)
    (hrun : Run (threadStep p) (Threads.Calm p) (Threads.opened c₀) t) (hclosed : t.AllClosed) :
    t.adminThreadList = [] ∧
      ((∀ f ∈ (t.cluster p).server.factoriesRecord,
        (t.cluster p).server.CaughtUp (t.cluster f.factoryId).server) ↔
      (t.cluster p).server.factoriesRecord = [] ∨ Committing t.requests) := by
  obtain ⟨hleads, hpaired, -⟩ := Threads.threads_run hfresh hrun
  obtain ⟨hmarked, hnamed, hconverging⟩ : t.Marked ∧ t.Named ∧ t.Converging p := by
    have hinv := hrun.invariant
      (fun u => (u.Leads p ∧ u.Paired p) ∧ u.Marked ∧ u.Named ∧ u.Converging p)
      (fun _ _ _ hinv hok hstep => ⟨⟨hinv.1.1.step hstep, hinv.1.2.step hinv.1.1 hstep⟩,
        hinv.2.1.step hstep, hinv.2.2.1.step hok.1 hstep, hinv.2.2.2.step hinv.1.2 hok hstep⟩)
      ⟨⟨.opened hfresh, .opened hfresh⟩, .opened c₀, fun q hq => (by cases hq), .opened hfresh⟩
    exact hinv.2
  obtain ⟨hpending, hidle, hlist⟩ := hclosed.quiet hpaired
  have hwait := hleads.idle hidle
  have hall : t.pushes.take t.releases.length = t.pushes :=
    List.take_of_length_le (List.drop_eq_nil_iff.mp hpending)
  have hcommits := Threads.lag_eq_zero_iff hmarked hnamed hall
  refine ⟨hlist, ?_⟩
  constructor
  · intro hcaught
    cases hfactories : (t.cluster p).server.factoriesRecord with
    | nil => exact .inl rfl
    | cons f rest =>
      have hf : f ∈ (t.cluster p).server.factoriesRecord := hfactories ▸ List.mem_cons_self
      have hsame := (hcaught f hf).committedIndex_eq
      have hbehind := hconverging.behind hwait f hf
      exact .inr (hcommits.mp (by omega))
  · rintro (hnil | hcommitting) f hf
    · rw [hnil] at hf
      cases hf
    · have hbehind := hconverging.behind hwait f hf
      rw [hcommits.mpr hcommitting, sub_zero] at hbehind
      exact (hconverging.lockstep.caughtUp_iff hwait hf).mpr hbehind

/-- A client orders and closes: the marker lets the backup catch up. -/
theorem backups_converge_iff_duo : ∃ t : Threads, t.requests = [.order 0, .close 0] ∧
    (t.cluster 1).server.smrLog = [⟨1, 7, 1⟩] ∧
    (t.cluster 0).server.CaughtUp (t.cluster 1).server := by
  have hconnect : ∀ (t : Threads) f, f ∈ (t.cluster 0).server.factoriesRecord → (0 : ℤ) < 5 :=
    fun _ _ _ => by decide
  have hrun : ∃ t, Run (threadStep 0) (Threads.Calm 0) (Threads.opened duo) t ∧ t.AllClosed ∧
      (t.cluster 0).server.factoriesRecord = [⟨1, 5⟩] ∧ t.requests = [.order 0, .close 0] ∧
      (t.cluster 1).server.smrLog = [⟨1, 7, 1⟩] :=
    ⟨_, ((((((((((((((Run.start.next (a := .connect 0) ⟨trivial, trivial⟩ rfl).next
      (a := .request 0 (requestOf7 1)) ⟨fun _ => by decide, trivial⟩ rfl).next
      (a := .wake) ⟨trivial, trivial⟩ rfl).next
      (a := .begin fun _ => 5) ⟨trivial, hconnect _⟩ rfl).next
      (a := .replicate Link.clean) ⟨trivial, Link.clean_clean⟩ rfl).next
      (a := .finish) ⟨trivial, trivial⟩ rfl).next
      (a := .ship 0) ⟨trivial, trivial⟩ rfl).next
      (a := .wait) ⟨trivial, trivial⟩ rfl).next
      (a := .hangUp 0 ⟨0, 0, 0, 0, 0⟩) ⟨trivial, trivial⟩ rfl).next
      (a := .wake) ⟨trivial, trivial⟩ rfl).next
      (a := .begin fun _ => 5) ⟨trivial, hconnect _⟩ rfl).next
      (a := .replicate Link.clean) ⟨trivial, Link.clean_clean⟩ rfl).next
      (a := .finish) ⟨trivial, trivial⟩ rfl).next
      (a := .close 0) ⟨trivial, trivial⟩ rfl),
      fun e => (by cases e with | zero => exact .inr rfl | succ e => exact .inl rfl), rfl, rfl, rfl⟩
  obtain ⟨t, hrun, hclosed, hfactories, hrequests, hlog⟩ := hrun
  obtain ⟨-, hiff⟩ := backups_converge_iff duo_fresh hrun hclosed
  have hcommitting : Committing t.requests := by
    rw [hrequests]
    exact .inr ⟨[.order 0], 0, [], rfl, ⟨[], [], rfl, by simp⟩, by simp⟩
  have hcaught := hiff.mpr (.inr hcommitting) ⟨1, 5⟩ (by simp [hfactories])
  exact ⟨t, hrequests, hlog, hcaught⟩

/-- A client orders, reads and closes: no marker is queued, and the backup never
commits the order. -/
theorem backup_stays_behind : ∃ t : Threads, Fresh duo ∧
    Run (threadStep 0) (Threads.Calm 0) (Threads.opened duo) t ∧ t.AllClosed ∧
    t.requests = [.order 0, .read 0, .close 0] ∧ t.adminThreadList = [] ∧
    (t.cluster 0).server.committedIndex = 0 ∧ (t.cluster 1).server.committedIndex = -1 ∧
    ¬∀ f ∈ (t.cluster 0).server.factoriesRecord,
      (t.cluster 0).server.CaughtUp (t.cluster f.factoryId).server := by
  have hconnect : ∀ (t : Threads) f, f ∈ (t.cluster 0).server.factoriesRecord → (0 : ℤ) < 5 :=
    fun _ _ _ => by decide
  have hrun : ∃ t, Run (threadStep 0) (Threads.Calm 0) (Threads.opened duo) t ∧ t.AllClosed ∧
      t.requests = [.order 0, .read 0, .close 0] ∧ t.adminThreadList = [] ∧
      (t.cluster 0).server.committedIndex = 0 ∧ (t.cluster 1).server.committedIndex = -1 ∧
      (t.cluster 0).server.factoriesRecord = [⟨1, 5⟩] :=
    ⟨_, (((((((((((Run.start.next (a := .connect 0) ⟨trivial, trivial⟩ rfl).next
      (a := .request 0 (requestOf7 1)) ⟨fun _ => by decide, trivial⟩ rfl).next
      (a := .wake) ⟨trivial, trivial⟩ rfl).next
      (a := .begin fun _ => 5) ⟨trivial, hconnect _⟩ rfl).next
      (a := .replicate Link.clean) ⟨trivial, Link.clean_clean⟩ rfl).next
      (a := .finish) ⟨trivial, trivial⟩ rfl).next
      (a := .ship 0) ⟨trivial, trivial⟩ rfl).next
      (a := .wait) ⟨trivial, trivial⟩ rfl).next
      (a := .request 0 ⟨7, 0, 2⟩) ⟨fun h => absurd h (by decide), trivial⟩ rfl).next
      (a := .hangUp 0 ⟨0, 0, 0, 0, 0⟩) ⟨trivial, trivial⟩ rfl).next
      (a := .close 0) ⟨trivial, trivial⟩ rfl),
      fun e => (by cases e with | zero => exact .inr rfl | succ e => exact .inl rfl),
      rfl, rfl, rfl, rfl, rfl⟩
  obtain ⟨t, hrun, hclosed, hrequests, hempty, hprimary, hbackup, hfactories⟩ := hrun
  refine ⟨t, duo_fresh, hrun, hclosed, hrequests, hempty, hprimary, hbackup, fun hall => ?_⟩
  have hcommitted := (hall ⟨1, 5⟩ (by simp [hfactories])).committedIndex_eq
  simp only at hcommitted
  omega

end RobotFactory
