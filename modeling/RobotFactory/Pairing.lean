import RobotFactory.Engineers
import RobotFactory.TransitionSystem

/-!
# The two lists belong together

The addresses of robots and of barriers stand in two lists. Both always name the
same engineers in the same order, each of them waits in the frame that is named,
and an iteration releases the engineer whose robot it has handled. So the queued
robots are released one after the other, each exactly once, and the log consists
of their entries in the order of the queue.
-/
namespace RobotFactory
open TransitionSystem

def AdminPc.shipOrder? : AdminPc → Option RobotInf
  | .waiting => none
  | .replicating shipOrder _ _ => some shipOrder

def Push.pc (q : Push) : EngineerPc := if q.marker then .marking q.robot else .ordering q.robot

namespace Threads

def pending (t : Threads) : List Push := t.pushes.drop t.releases.length

/-- The owner of the robot being handled, followed by those in the list. -/
def pendingOwners (t : Threads) : List ℕ := (t.handling.map Prod.fst).toList ++ t.adminThreadList

/-- The invariant of the two lists. -/
structure Paired (p : ℤ) (t : Threads) : Prop where
  barriers : t.barrierList = t.adminThreadList
  taken : ∀ o b, t.handling = some (o, b) → b = o
  releases_eq : t.releases = (t.pushes.take t.releases.length).map fun q => (q.owner, q.owner)
  owners_eq : t.pending.map Push.owner = t.pendingOwners
  waiting : ∀ q ∈ t.pending, (t.engineers q.owner).pc = q.pc
  nodup : t.pendingOwners.Nodup
  inside : ∀ e, (t.engineers e).frame.isSome = true → e ∈ t.pendingOwners
  current : (t.cluster p).admin.shipOrder? =
    if t.handling.isSome then t.pending.head?.map Push.robot else none

theorem frame_of_pc {x : Engineer} {q : Push} (h : x.pc = q.pc) : x.frame = some q.robot := by
  unfold Push.pc at h
  unfold Engineer.frame
  split_ifs at h <;> rw [h]

theorem Paired.opened [Zlib] {p : ℤ} {c : Cluster} (h : Fresh c) : (Threads.opened c).Paired p where
  barriers := rfl
  taken _ _ hnone := by cases hnone
  releases_eq := rfl
  owners_eq := rfl
  waiting q hq := by cases hq
  nodup := List.nodup_nil
  inside e hframe := by cases hframe
  current := by
    change (c p).admin.shipOrder? = none
    rw [h.waiting p]
    rfl

/-- The queue is the same, and so is the iteration in progress. -/
structure SameQueue (p : ℤ) (t t' : Threads) : Prop where
  adminThreadList_eq : t'.adminThreadList = t.adminThreadList
  barrierList_eq : t'.barrierList = t.barrierList
  handling_eq : t'.handling = t.handling
  pushes_eq : t'.pushes = t.pushes
  releases_eq : t'.releases = t.releases
  current_eq : (t'.cluster p).admin.shipOrder? = (t.cluster p).admin.shipOrder?

theorem Paired.sameQueue {p : ℤ} {t t' : Threads} (h : t.Paired p) (hsame : t.SameQueue p t')
    (hengineers : ∀ e, (t'.engineers e).pc = (t.engineers e).pc ∨
      (t.engineers e).frame = none ∧ (t'.engineers e).frame = none) : t'.Paired p := by
  have hpending : t'.pending = t.pending := by
    rw [pending, hsame.pushes_eq, hsame.releases_eq]
    rfl
  have howners : t'.pendingOwners = t.pendingOwners := by
    rw [pendingOwners, hsame.handling_eq, hsame.adminThreadList_eq]
    rfl
  refine ⟨?_, ?_, ?_, ?_, ?_, ?_, ?_, ?_⟩
  · rw [hsame.barrierList_eq, hsame.adminThreadList_eq, h.barriers]
  · rw [hsame.handling_eq]
    exact h.taken
  · rw [hsame.releases_eq, hsame.pushes_eq]
    exact h.releases_eq
  · rw [hpending, howners, h.owners_eq]
  · rw [hpending]
    intro q hq
    have hwaits := h.waiting q hq
    rcases hengineers q.owner with hpc | ⟨hframe, -⟩
    · rw [hpc, hwaits]
    · rw [frame_of_pc hwaits] at hframe
      cases hframe
  · rw [howners]
    exact h.nodup
  · rw [howners]
    intro e hframe
    rcases hengineers e with hpc | ⟨-, hnone⟩
    · refine h.inside e ?_
      rwa [Engineer.frame, ← hpc]
    · rw [hnone] at hframe
      cases hframe
  · rw [hsame.current_eq, hsame.handling_eq, hpending, h.current]

theorem Paired.not_mem {p : ℤ} {t : Threads} (h : t.Paired p) {e : ℕ}
    (hframe : (t.engineers e).frame = none) : e ∉ t.pendingOwners := by
  intro he
  rw [← h.owners_eq] at he
  obtain ⟨q, hq, rfl⟩ := List.mem_map.mp he
  rw [frame_of_pc (h.waiting q hq)] at hframe
  cases hframe

theorem Paired.count {p : ℤ} {t : Threads} (h : t.Paired p) :
    t.releases.length ≤ t.pushes.length := by
  have hlen := congrArg List.length h.releases_eq
  rw [List.length_map, List.length_take] at hlen
  omega

theorem Paired.push {p : ℤ} {t : Threads} (h : t.Paired p) {e : ℕ} {x : Engineer}
    {robot : RobotInf} {marker : Bool} (event : ClientEvent)
    (hframe : (t.engineers e).frame = none) (hx : x.pc = Push.pc ⟨e, robot, marker⟩) :
    (t.push e x robot marker event).Paired p := by
  have hout := h.not_mem hframe
  have hle := h.count
  have hpending : (t.push e x robot marker event).pending = t.pending ++ [⟨e, robot, marker⟩] :=
    List.drop_append_of_le_length hle
  have howners : (t.push e x robot marker event).pendingOwners = t.pendingOwners ++ [e] :=
    (List.append_assoc ..).symm
  refine ⟨?_, h.taken, ?_, ?_, ?_, ?_, ?_, ?_⟩
  · simp only [Threads.push, h.barriers]
  · simp only [Threads.push]
    rw [List.take_append_of_le_length hle]
    exact h.releases_eq
  · rw [hpending, howners, List.map_append, h.owners_eq]
    rfl
  · rw [hpending]
    intro q hq
    rcases List.mem_append.mp hq with hold | hnew
    · have hne : q.owner ≠ e := by
        rintro rfl
        rw [frame_of_pc (h.waiting q hold)] at hframe
        cases hframe
      simp only [Threads.push, Function.update_of_ne hne]
      exact h.waiting q hold
    · rw [List.mem_singleton.mp hnew]
      simp only [Threads.push, Function.update_self]
      exact hx
  · rw [howners]
    exact h.nodup.append (List.nodup_singleton e) (by simpa using hout)
  · rw [howners]
    intro e' he'
    by_cases heq : e' = e
    · exact List.mem_append_right _ (List.mem_singleton.mpr heq)
    · simp only [Threads.push, Function.update_of_ne heq] at he'
      exact List.mem_append_left _ (h.inside e' he')
  · rw [hpending]
    change (t.cluster p).admin.shipOrder? = if t.handling.isSome = true then _ else _
    rw [h.current]
    split_ifs with hsome
    · have hne : t.pending ≠ [] := by
        intro hnil
        obtain ⟨x, hx⟩ := Option.isSome_iff_exists.mp hsome
        have howners := h.owners_eq
        rw [hnil, pendingOwners, hx] at howners
        cases howners
      rw [List.head?_append_of_ne_nil _ hne]
    · rfl

theorem Paired.head {p : ℤ} {t : Threads} (h : t.Paired p) (hidle : t.handling = none) {o : ℕ}
    {orders : List ℕ} {shipOrder : RobotInf} (horders : t.adminThreadList = o :: orders)
    (hframe : (t.engineers o).frame = some shipOrder) :
    t.pending.head?.map Push.robot = some shipOrder := by
  have howners := h.owners_eq
  rw [pendingOwners, hidle, horders] at howners
  obtain ⟨q, rest, hpending, howner, -⟩ := List.map_eq_cons_iff.mp howners
  have hwaits := frame_of_pc (h.waiting q (hpending ▸ List.mem_cons_self))
  rw [howner, hframe] at hwaits
  rw [hpending]
  exact hwaits.symm

theorem Paired.begin {p : ℤ} {t : Threads} (h : t.Paired p) (hidle : t.handling = none) {o b : ℕ}
    {orders barriers : List ℕ} {shipOrder : RobotInf} {c : Cluster}
    (horders : t.adminThreadList = o :: orders) (hbarriers : t.barrierList = b :: barriers)
    (hframe : (t.engineers o).frame = some shipOrder)
    (hcurrent : (c p).admin.shipOrder? = some shipOrder) :
    Paired p { t with
      cluster := c, adminThreadList := orders, barrierList := barriers,
      handling := some (o, b) } := by
  have hlists := h.barriers
  rw [horders, hbarriers] at hlists
  obtain ⟨rfl, rfl⟩ := List.cons.inj hlists
  have hpendingOwners : t.pendingOwners = b :: barriers := by
    rw [pendingOwners, hidle, horders]
    rfl
  refine ⟨rfl, ?_, h.releases_eq, ?_, h.waiting, ?_, ?_, ?_⟩
  · intro o' b' hsome
    cases hsome
    rfl
  · exact h.owners_eq.trans hpendingOwners
  · have hnodup := h.nodup
    rw [hpendingOwners] at hnodup
    exact hnodup
  · intro e he
    have hmem := h.inside e he
    rwa [hpendingOwners] at hmem
  · exact hcurrent.trans (h.head hidle horders hframe).symm

theorem frame_release_setAdminId (x : Engineer) (adminId : Int32) :
    (x.setAdminId adminId).release.frame = none := by
  obtain ⟨pc, flag⟩ := x
  cases pc with
  | ordering shipOrder =>
    simp only [Engineer.setAdminId]
    split_ifs <;> rfl
  | _ => rfl

theorem Paired.finish {p : ℤ} {t : Threads} (h : t.Paired p) {o b : ℕ} {c : Cluster}
    (hhandling : t.handling = some (o, b)) (hidle : (c p).admin = .waiting) :
    (t.released p o b c).Paired p := by
  obtain rfl := h.taken o b hhandling
  have howners := h.owners_eq
  have hpendingOwners : t.pendingOwners = b :: t.adminThreadList := by
    rw [pendingOwners, hhandling]
    rfl
  rw [hpendingOwners] at howners
  obtain ⟨q, rest, hpending, howner, hrest⟩ := List.map_eq_cons_iff.mp howners
  have hnodup := hpendingOwners ▸ h.nodup
  have hlt : t.releases.length < t.pushes.length := by
    have hlen := congrArg List.length hpending
    rw [pending, List.length_drop, List.length_cons] at hlen
    omega
  have hq : t.pushes[t.releases.length]? = some q := by
    have hhead := congrArg List.head? hpending
    rw [pending, List.head?_drop] at hhead
    exact hhead
  have hpending' : (t.released p b b c).pending = rest := by
    have htail := congrArg List.tail hpending
    rw [pending, List.tail_drop] at htail
    simp only [pending, released, List.length_append, List.length_singleton]
    exact htail
  have hengineers {e : ℕ} (hne : e ≠ b) : (t.released p b b c).engineers e = t.engineers e := by
    simp only [released, Function.update_of_ne hne]
  refine ⟨h.barriers, fun o' b' hnone => (by cases hnone), ?_, ?_, ?_, ?_, ?_, ?_⟩
  · simp only [released, List.length_append, List.length_singleton]
    rw [List.take_add_one, hq, List.map_append, ← h.releases_eq, Option.toList_some,
      List.map_singleton, howner]
  · rw [hpending', hrest]
    rfl
  · rw [hpending']
    intro r hr
    have hne : r.owner ≠ b := by
      rintro rfl
      exact (List.nodup_cons.mp hnodup).1 (hrest ▸ List.mem_map_of_mem hr)
    rw [hengineers hne]
    exact h.waiting r (hpending ▸ List.mem_cons_of_mem q hr)
  · exact (List.nodup_cons.mp hnodup).2
  · intro e he
    by_cases heq : e = b
    · subst heq
      simp only [released, Function.update_self, frame_release_setAdminId] at he
      cases he
    · rw [hengineers heq] at he
      have hmem := h.inside e he
      rw [hpendingOwners] at hmem
      exact (List.mem_cons.mp hmem).resolve_left heq
  · change (c p).admin.shipOrder? = none
    rw [hidle]
    rfl

theorem moved {t : Threads} {e : ℕ} {x : Engineer} (hframe : (t.engineers e).frame = none)
    (hx : x.frame = none) (e' : ℕ) :
    (Function.update t.engineers e x e').pc = (t.engineers e').pc ∨
      (t.engineers e').frame = none ∧ (Function.update t.engineers e x e').frame = none := by
  by_cases heq : e' = e
  · subst heq
    rw [Function.update_self]
    exact .inr ⟨hframe, hx⟩
  · rw [Function.update_of_ne heq]
    exact .inl rfl

theorem Paired.step [Zlib] {p : ℤ} {t t' : Threads} {a : ThreadAction} (hl : t.Leads p)
    (h : t.Paired p) (hstep : threadStep p t a = some t') : t'.Paired p := by
  have hnone {e : ℕ} {pc : EngineerPc} (hpc : (t.engineers e).pc = pc)
      (hpc' : Engineer.frame ⟨pc, false⟩ = none) : (t.engineers e).frame = none := by
    rw [Engineer.frame, hpc]
    exact hpc'
  cases threadStep_cases hstep with
  | connect e hpc => exact h.sameQueue ⟨rfl, rfl, rfl, rfl, rfl, rfl⟩ (moved (hnone hpc rfl) rfl)
  | order e makeOrder hpc => exact h.push _ (hnone hpc rfl) rfl
  | read e makeOrder hpc =>
    exact h.sameQueue ⟨rfl, rfl, rfl, rfl, rfl, rfl⟩ (moved (hnone hpc rfl) rfl)
  | ignored => exact h
  | ship e shipOrder hpc =>
    exact h.sameQueue ⟨rfl, rfl, rfl, rfl, rfl, rfl⟩ (moved (hnone hpc rfl) rfl)
  | marker e uninit hpc => exact h.push _ (hnone hpc rfl) rfl
  | noMarker e uninit hpc =>
    exact h.sameQueue ⟨rfl, rfl, rfl, rfl, rfl, rfl⟩ (moved (hnone hpc rfl) rfl)
  | close e c hpc hc =>
    cases step_cases hc
    refine h.sameQueue ⟨rfl, rfl, rfl, rfl, rfl, ?_⟩ (moved (hnone hpc rfl) rfl)
    simp only [Function.update_self]
    rfl
  | fail e hpc => exact h.sameQueue ⟨rfl, rfl, rfl, rfl, rfl, rfl⟩ (moved (hnone hpc rfl) rfl)
  | wake => exact h.sameQueue ⟨rfl, rfl, rfl, rfl, rfl, rfl⟩ fun _ => .inl rfl
  | wait => exact h.sameQueue ⟨rfl, rfl, rfl, rfl, rfl, rfl⟩ fun _ => .inl rfl
  | begin connect o b orders barriers shipOrder c _ hidle horders hbarriers hframe hc halive =>
    refine h.begin hidle horders hbarriers hframe ?_
    cases step_cases hc with
    | begin _ _ _ hadmin =>
      rw [Function.update_self] at halive ⊢
      obtain ⟨s', hnode, -⟩ := hl.leads.begun hadmin halive
      rw [hnode]
      rfl
  | replicate link o b c _ hc =>
    obtain ⟨shipOrder, req, i, f, kept, stale, hadmin, -, hp⟩ := replicate_primary hc
    refine h.sameQueue ⟨rfl, rfl, rfl, rfl, rfl, ?_⟩ fun _ => .inl rfl
    simp only [hp, hadmin]
    rfl
  | finish o b c hhandling hc =>
    refine h.finish hhandling ?_
    cases step_cases hc
    rw [Function.update_self]
    rfl
  | peer a c hpeer hc =>
    refine h.sameQueue ⟨rfl, rfl, rfl, rfl, rfl, ?_⟩ fun _ => .inl rfl
    simp only [peer_primary hpeer hc]
  | others d =>
    refine h.sameQueue ⟨rfl, rfl, rfl, rfl, rfl, ?_⟩ fun _ => .inl rfl
    simp only [Function.update_self]

/-- How many queued robots have been handled, with the one in progress. -/
def handledCount (t : Threads) : ℕ := t.releases.length + if t.handling.isSome then 1 else 0

/-- The robots that have been handled, with the one in progress. -/
def handled (t : Threads) : List Push := t.pushes.take t.handledCount

theorem Paired.handledCount_le {p : ℤ} {t : Threads} (h : t.Paired p) :
    t.handledCount ≤ t.pushes.length := by
  unfold handledCount
  split_ifs with hsome
  · obtain ⟨x, hx⟩ := Option.isSome_iff_exists.mp hsome
    have hlen := congrArg List.length h.owners_eq
    rw [List.length_map, pending, List.length_drop, pendingOwners, hx, List.length_append] at hlen
    simp only [Option.map_some, Option.toList_some, List.length_singleton] at hlen
    omega
  · exact h.count

end Threads

def Push.logged (q : Push) : List MapOp :=
  if q.robot.customerId ≠ -1 then [Server.logEntryOf q.robot] else []

namespace Threads

def LogsHandled (p : ℤ) (t : Threads) : Prop :=
  (t.cluster p).server.smrLog = t.handled.flatMap Push.logged

theorem LogsHandled.opened [Zlib] {p : ℤ} {c : Cluster} (h : Fresh c) :
    (Threads.opened c).LogsHandled p := (h.blank p).log_eq

theorem LogsHandled.sameQueue {p : ℤ} {t t' : Threads} (h : t.LogsHandled p)
    (hsame : t.SameQueue p t')
    (hlog : (t'.cluster p).server.smrLog = (t.cluster p).server.smrLog) : t'.LogsHandled p := by
  rw [LogsHandled, hlog, handled, handledCount, hsame.pushes_eq, hsame.releases_eq,
    hsame.handling_eq]
  exact h

theorem LogsHandled.push {p : ℤ} {t : Threads} (hp : t.Paired p) (h : t.LogsHandled p) (e : ℕ)
    (x : Engineer) (robot : RobotInf) (marker : Bool) (event : ClientEvent) :
    (t.push e x robot marker event).LogsHandled p := by
  rw [LogsHandled, handled]
  change _ = ((t.pushes ++ [_]).take t.handledCount).flatMap Push.logged
  rw [List.take_append_of_le_length hp.handledCount_le]
  exact h

theorem LogsHandled.begin [Zlib] {p : ℤ} {t : Threads} (hl : t.Leads p) (h : t.LogsHandled p)
    {o b : ℕ} {orders barriers : List ℕ} {shipOrder : RobotInf} {connect : ℤ → ℤ} {c : Cluster}
    (hidle : t.handling = none)
    (hc : RobotFactory.step p t.cluster (.begin shipOrder connect) = some c)
    (halive : (c p).alive = true) (hhead : t.pending.head?.map Push.robot = some shipOrder) :
    LogsHandled p { t with
      cluster := c, adminThreadList := orders, barrierList := barriers,
      handling := some (o, b) } := by
  obtain ⟨q, hq, rfl⟩ := Option.map_eq_some_iff.mp hhead
  rw [pending, List.head?_drop] at hq
  cases step_cases hc with
  | begin _ _ _ hadmin =>
    rw [Function.update_self] at halive
    obtain ⟨s', hnode, hbegan, -⟩ := hl.leads.begun hadmin halive
    have hcount : t.handledCount = t.releases.length := by
      rw [handledCount, hidle]
      rfl
    unfold LogsHandled handled at h
    rw [hcount] at h
    unfold LogsHandled handled handledCount
    simp only [Function.update_self, hnode, Option.isSome_some, if_true]
    rw [hbegan.log_eq, Server.appendedLog_eq hl.leads.last_eq, h, List.take_add_one, hq,
      Option.toList_some, List.flatMap_append, List.flatMap_singleton]
    rfl

theorem LogsHandled.step [Zlib] {p : ℤ} {t t' : Threads} {a : ThreadAction} (hl : t.Leads p)
    (hp : t.Paired p) (h : t.LogsHandled p) (hstep : threadStep p t a = some t') :
    t'.LogsHandled p := by
  cases threadStep_cases hstep with
  | connect | read | ignored | ship | noMarker | fail | wake | wait =>
    exact h.sameQueue ⟨rfl, rfl, rfl, rfl, rfl, rfl⟩ rfl
  | order | marker => exact h.push hp ..
  | close e c hpc hc =>
    cases step_cases hc
    refine h.sameQueue ⟨rfl, rfl, rfl, rfl, rfl, ?_⟩ ?_ <;> simp only [Function.update_self] <;> rfl
  | begin connect o b orders barriers shipOrder c _ hidle horders hbarriers hframe hc halive =>
    exact h.begin hl hidle hc halive (hp.head hidle horders hframe)
  | replicate link o b c _ hc =>
    obtain ⟨shipOrder, req, i, f, kept, stale, hadmin, -, hp⟩ := replicate_primary hc
    refine h.sameQueue ⟨rfl, rfl, rfl, rfl, rfl, ?_⟩ ?_ <;> simp only [hp, hadmin] <;> rfl
  | finish o b c hhandling hc =>
    cases step_cases hc with
    | finish shipOrder req i _ hadmin =>
      obtain ⟨hbecame, -⟩ := adminCommit_became hl.leads.sound.server
        (hl.leads.sound.serving _ _ _ hadmin)
      unfold LogsHandled handled handledCount at h ⊢
      rw [hhandling] at h
      simp only [released, Function.update_self, Node.finishIteration, hbecame.log_eq,
        List.length_append, List.length_singleton]
      exact h
  | peer a c hpeer hc =>
    refine h.sameQueue ⟨rfl, rfl, rfl, rfl, rfl, ?_⟩ ?_ <;> simp only [peer_primary hpeer hc]
  | others d =>
    refine h.sameQueue ⟨rfl, rfl, rfl, rfl, rfl, ?_⟩ ?_ <;> simp only [Function.update_self]

/-- The three invariants hold in every state of every run of the threads. -/
theorem threads_run [Zlib] {p : ℤ} {c₀ : Cluster} {t : Threads}
    {ok : Threads → ThreadAction → Prop} (hfresh : Fresh c₀)
    (hrun : Run (threadStep p) ok (Threads.opened c₀) t) :
    t.Leads p ∧ t.Paired p ∧ t.LogsHandled p :=
  hrun.invariant (fun u => u.Leads p ∧ u.Paired p ∧ u.LogsHandled p)
    (fun _ _ _ hinv _ hstep => ⟨hinv.1.step hstep, hinv.2.1.step hinv.1 hstep,
      hinv.2.2.step hinv.1 hinv.2.1 hstep⟩)
    ⟨.opened hfresh, .opened hfresh, .opened hfresh⟩

end Threads

end RobotFactory
