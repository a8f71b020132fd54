import RobotFactory.CommittedReplay

/-!
# A backup whose connection is lost

The primary opens connections only in the rechecks at the start of an iteration, and
it makes the rechecks only if a client has closed its connection since the last time.
Until then a backup that has lost its socket gets nothing, whatever else happens: its
log and its record stay as they are while the primary goes on with the others.
-/
namespace RobotFactory
open TransitionSystem

/-- The primary has no connection to `b`; `due` tells whether it will make its rechecks
in the next iteration. -/
structure Lost (p b : ℤ) (due : Bool) (c : Cluster) : Prop where
  recheckAllow : (c p).server.recheckAllow = due
  unconnected : ∀ f ∈ (c p).server.factoriesRecord, f.factoryId = b → f.socket < 0

/-- No client of the primary closes its connection, neither of the two starts again, and
`b` handles no request that comes late, is made of leftover bytes or is another server's. -/
def Unreported (p b : ℤ) : Action → Prop
  | .clientClose s => s ≠ p
  | .ifaTurn s .. => s ≠ b
  | .restart s .. => s ≠ p ∧ s ≠ b
  | _ => True

/-- No iteration of the admin thread begins. -/
def Action.Continues : Action → Prop
  | .begin .. => False
  | _ => True

/-- What a server holds: the log, its indices and the record. -/
structure Server.SameData (s s' : Server) : Prop where
  smrLog : s'.smrLog = s.smrLog
  lastIndex : s'.lastIndex = s.lastIndex
  committedIndex : s'.committedIndex = s.committedIndex
  customerRecord : s'.customerRecord = s.customerRecord

namespace Server.SameData

theorem refl (s : Server) : s.SameData s := ⟨rfl, rfl, rfl, rfl⟩

theorem trans {s t u : Server} (h : s.SameData t) (h' : t.SameData u) : s.SameData u :=
  ⟨h'.smrLog.trans h.smrLog, h'.lastIndex.trans h.lastIndex,
    h'.committedIndex.trans h.committedIndex, h'.customerRecord.trans h.customerRecord⟩

end Server.SameData

theorem beginIteration_lost [Zlib] {n : Node} (hallow : n.server.recheckAllow = false)
    (shipOrder : RobotInf) (connect : ℤ → ℤ) :
    (n.beginIteration shipOrder connect).server.recheckAllow = false ∧
      (n.beginIteration shipOrder connect).server.factoriesRecord = n.server.factoriesRecord := by
  have hskip : n.server.adminRecheck connect = .ok n.server := by simp [Server.adminRecheck, hallow]
  unfold Node.beginIteration
  rw [hskip, ok_bind]
  cases happend : n.server.adminAppend shipOrder with
  | error fault => exact ⟨hallow, rfl⟩
  | ok s =>
    refine ⟨?_, adminAppend_factories happend⟩
    cases adminAppend_cases happend with
    | order | marker => exact hallow

theorem afterPeer_lost {n : Node} {shipOrder : RobotInf} {req : ReplReq} {i : ℕ} {f : FactoryRec}
    {b : ℤ} (h : ∀ g ∈ n.server.factoriesRecord, g.factoryId = b → g.socket < 0)
    (kept stale : Bool) {g : FactoryRec}
    (hg : g ∈ (n.afterPeer shipOrder req i f kept stale).server.factoriesRecord)
    (hid : g.factoryId = b) : g.socket < 0 := by
  cases kept with
  | true => exact h g hg hid
  | false =>
    rcases List.mem_or_eq_of_mem_set hg with hold | rfl
    · exact h g hold hid
    · exact neg_one_lt_zero

/-- The change of one server, which opens no connection from `p` to `b` if it is `p`, and
leaves what it holds if it is `b`. -/
theorem Lost.update {p b : ℤ} {due : Bool} {c : Cluster} (h : Lost p b due c) {s : ℤ} {n : Node}
    (hallow : s = p → n.server.recheckAllow = due)
    (hunconnected : s = p → ∀ f ∈ n.server.factoriesRecord, f.factoryId = b → f.socket < 0)
    (hdata : s = b → (c b).server.SameData n.server) :
    Lost p b due (Function.update c s n) ∧
      (c b).server.SameData (Function.update c s n b).server := by
  refine ⟨⟨?_, ?_⟩, ?_⟩
  · by_cases hs : p = s
    · subst hs
      rw [Function.update_self]
      exact hallow rfl
    · rw [Function.update_of_ne hs]
      exact h.recheckAllow
  · by_cases hs : p = s
    · subst hs
      rw [Function.update_self]
      exact hunconnected rfl
    · rw [Function.update_of_ne hs]
      exact h.unconnected
  · by_cases hs : b = s
    · subst hs
      rw [Function.update_self]
      exact hdata rfl
    · rw [Function.update_of_ne hs]
      exact .refl _

theorem Lost.turn {p b : ℤ} {due : Bool} {c : Cluster} (h : Lost p b due c) (hne : b ≠ p)
    (shipOrder : RobotInf) (req : ReplReq) (i : ℕ) (f : FactoryRec) (kept stale : Bool) :
    Lost p b due (Function.update c p ((c p).afterPeer shipOrder req i f kept stale)) ∧
      (c b).server.SameData (Function.update c p
        ((c p).afterPeer shipOrder req i f kept stale) b).server :=
  h.update (fun _ => h.recheckAllow)
    (fun _ _ hg hid => afterPeer_lost h.unconnected kept stale hg hid)
    (fun heq => absurd heq.symm hne)

/-- One step changes neither the loss nor what the backup holds, unless it is the next
iteration and the rechecks are due. -/
theorem Lost.step [Zlib] {p b : ℤ} {due : Bool} {c c' : Cluster} {a : Action} (h : Lost p b due c)
    (hne : b ≠ p) (hok : Unreported p b a) (hbegin : due = true → a.Continues)
    (hstep : step p c a = some c') : Lost p b due c' ∧ (c b).server.SameData (c' b).server := by
  cases step_cases hstep with
  | begin shipOrder connect =>
    cases due with
    | true => exact absurd (hbegin rfl) id
    | false =>
      obtain ⟨hallow, hfactories⟩ := beginIteration_lost h.recheckAllow shipOrder connect
      exact h.update (fun _ => hallow) (fun _ => hfactories ▸ h.unconnected)
        (fun heq => absurd heq.symm hne)
  | skipped link shipOrder req i f => exact h.turn hne shipOrder req i f true _
  | exchanged link shipOrder req i f _ hadmin hf hsocket hpeer hfree hnep result =>
    have hother : f.factoryId ≠ b := by
      intro heq
      have := h.unconnected f (List.mem_of_getElem? hf) heq
      omega
    obtain ⟨hlost, hdata⟩ := h.update (n := (c f.factoryId).afterExchange result.backup)
      (fun heq => absurd heq hnep) (fun heq => absurd heq hnep) (fun heq => absurd heq hother)
    obtain ⟨hlost', hdata'⟩ := hlost.turn hne shipOrder req i f result.kept result.stale
    rw [Function.update_of_ne hnep.symm] at hlost' hdata'
    exact ⟨hlost', hdata.trans hdata'⟩
  | unanswered link shipOrder req i f => exact h.turn hne shipOrder req i f _ _
  | finish shipOrder req i =>
    have hsame : ((c p).server.adminCommit shipOrder).SameRole (c p).server := by
      unfold Server.adminCommit
      split_ifs <;> exact ⟨rfl, rfl, rfl⟩
    exact h.update (fun _ => hsame.recheckAllow ▸ h.recheckAllow)
      (fun _ => hsame.factoriesRecord ▸ h.unconnected) (fun heq => absurd heq.symm hne)
  | ifaTurn s ifa sendAck =>
    have hrole : (c s).server.SameRole
        ((c s).afterExchange ((c s).server.ifaThreadTurn sendAck ifa)).server := by
      unfold Node.afterExchange
      cases hturn : (c s).server.ifaThreadTurn sendAck ifa with
      | error fault => exact .refl _
      | ok s' => exact ifaThreadTurn_sameRole hturn
    exact h.update (fun heq => by rw [hrole.recheckAllow, heq, h.recheckAllow])
      (fun heq => by rw [hrole.factoriesRecord, heq]; exact h.unconnected)
      (fun heq => absurd heq hok)
  | clientClose s =>
    exact h.update (fun heq => absurd heq hok) (fun heq => absurd heq hok)
      (fun heq => heq ▸ ⟨rfl, rfl, rfl, rfl⟩)
  | replicationClose s =>
    exact h.update (fun heq => heq ▸ h.recheckAllow) (fun heq => heq ▸ h.unconnected)
      (fun heq => heq ▸ ⟨rfl, rfl, rfl, rfl⟩)
  | crash s =>
    exact h.update (fun heq => heq ▸ h.recheckAllow) (fun heq => heq ▸ h.unconnected)
      (fun heq => heq ▸ .refl _)
  | restart s file uninit replies n =>
    exact h.update (fun heq => absurd heq hok.1) (fun heq => absurd heq hok.1)
      (fun heq => absurd heq hok.2)

theorem Lost.run [Zlib] {p b : ℤ} {due : Bool} {c d : Cluster} (h : Lost p b due c) (hne : b ≠ p)
    (hrun : Run (RobotFactory.step p)
      (fun _ a => Unreported p b a ∧ (due = true → a.Continues)) c d) :
    Lost p b due d ∧ (c b).server.SameData (d b).server :=
  hrun.invariant (fun e => Lost p b due e ∧ (c b).server.SameData (e b).server)
    (fun _ _ _ hinv hok hstep => by
      obtain ⟨hlost, hdata⟩ := hinv.1.step hne hok.1 hok.2 hstep
      exact ⟨hlost, hinv.2.trans hdata⟩)
    ⟨h, .refl _⟩

theorem Lost.closed [Zlib] {p b : ℤ} {due : Bool} {c c' : Cluster} (h : Lost p b due c)
    (hne : b ≠ p) (hstep : RobotFactory.step p c (.clientClose p) = some c') :
    Lost p b true c' ∧ (c b).server.SameData (c' b).server := by
  cases step_cases hstep with
  | clientClose =>
    refine ⟨⟨?_, ?_⟩, ?_⟩
    · rw [Function.update_self]
      rfl
    · rw [Function.update_self]
      exact h.unconnected
    · rw [Function.update_of_ne hne]
      exact .refl _

theorem Lost.reconnected [Zlib] {p b : ℤ} {c c' : Cluster} {shipOrder : RobotInf}
    {connect : ℤ → ℤ} (h : Lost p b true c) (hne : b ≠ p)
    (hstep : RobotFactory.step p c (.begin shipOrder connect) = some c')
    (halive : (c' p).alive = true) :
    (c b).server.SameData (c' b).server ∧
      ∀ f ∈ (c' p).server.factoriesRecord, f.factoryId = b →
        f.socket = if 0 < connect b then connect b else -1 := by
  cases step_cases hstep with
  | begin =>
    refine ⟨?_, fun g hg hid => ?_⟩
    · rw [Function.update_of_ne hne]
      exact .refl _
    · rw [Function.update_self] at halive hg
      unfold Node.beginIteration at halive hg
      cases hs : (c p).server.adminRecheck connect >>= Server.adminAppend shipOrder with
      | error fault => simp [hs] at halive
      | ok s =>
        obtain ⟨r, hrecheck, happend⟩ := bind_eq_ok.mp hs
        simp only [hs] at hg
        rw [adminAppend_factories happend, adminRecheck_factories hrecheck,
          Server.recheckedFactories, if_pos h.recheckAllow] at hg
        obtain ⟨f, hf, rfl⟩ := List.mem_map.mp hg
        have hfb : f.factoryId = b := by split_ifs at hid <;> exact hid
        rw [if_pos (h.unconnected f hf hfb), hfb]
        split_ifs <;> rfl

/-- Once the primary has lost a backup, the backup holds what it held, and the primary
has no connection to it, until a client of the primary closes its connection, one of
the two starts again or another request reaches the backup; whatever is ordered.
The first iteration after that close tries to connect. -/
theorem lost_backup_waits [Zlib] {p b : ℤ} {c d : Cluster} (hne : b ≠ p) (h : Lost p b false c)
    (hrun : Run (step p) (fun _ => Unreported p b) c d) :
    Lost p b false d ∧ (c b).server.SameData (d b).server ∧
      ∀ d' e e' shipOrder connect, step p d (.clientClose p) = some d' →
        Run (step p) (fun _ a => Unreported p b a ∧ a.Continues) d' e →
        step p e (.begin shipOrder connect) = some e' → (e' p).alive = true →
        (c b).server.SameData (e' b).server ∧
          ∀ f ∈ (e' p).server.factoriesRecord, f.factoryId = b →
            f.socket = if 0 < connect b then connect b else -1 := by
  obtain ⟨hlost, hdata⟩ := h.run hne (hrun.mono fun _ _ hok => ⟨hok, fun hdue => by cases hdue⟩)
  refine ⟨hlost, hdata, fun d' e e' shipOrder connect hclose hlater hbegin halive => ?_⟩
  obtain ⟨hclosed, hdata'⟩ := hlost.closed hne hclose
  obtain ⟨hdue, hdata''⟩ := hclosed.run hne (hlater.mono fun _ _ hok => ⟨hok.1, fun _ => hok.2⟩)
  obtain ⟨hlast, hsocket⟩ := hdue.reconnected hne hbegin halive
  exact ⟨((hdata.trans hdata').trans hdata'').trans hlast, hsocket⟩

/-- Server 1 loses the first order and gets none of the second, although a connection
could be made; then a client closes. -/
theorem lost_backup_waits_duo : ∃ c d e' : Cluster, Lost 0 1 false c ∧
    (d 0).server.smrLog = [⟨1, 7, 1⟩, ⟨1, 7, 2⟩] ∧ (d 1).server.smrLog = [] ∧
    (e' 1).server.smrLog = [] ∧
    ∀ f ∈ (e' 0).server.factoriesRecord, f.factoryId = 1 → f.socket = 5 := by
  have hrun : ∃ c d d' e', Run (step 0) (fun _ _ => True) duo c ∧
      (c 0).server.recheckAllow = false ∧ (c 0).server.factoriesRecord = [⟨1, -1⟩] ∧
      (c 1).server.smrLog = [] ∧ Run (step 0) (fun _ => Unreported 0 1) c d ∧
      (d 0).server.smrLog = [⟨1, 7, 1⟩, ⟨1, 7, 2⟩] ∧ step 0 d (.clientClose 0) = some d' ∧
      step 0 d' (.begin commitMarker fun _ => 5) = some e' ∧ (e' 0).alive = true :=
    ⟨_, _, _, _, (Run.start.next (a := .begin (orderOf7 1) fun _ => 5) trivial rfl).next
      (a := .replicate Link.broken) trivial rfl, rfl, rfl, rfl,
      (((Run.start.next (a := .finish) (by trivial) rfl).next
      (a := .begin (orderOf7 2) fun _ => 5) (by trivial) rfl).next
      (a := .replicate Link.clean) (by trivial) rfl).next (a := .finish) (by trivial) rfl,
      rfl, rfl, rfl, rfl⟩
  obtain ⟨c, d, d', e', -, hallow, hfactories, hlog, hrun, hlog', hclose, hbegin, halive⟩ := hrun
  have hlost : Lost 0 1 false c := by
    refine ⟨hallow, fun f hf _ => ?_⟩
    rw [hfactories, List.mem_singleton] at hf
    rw [hf]
    exact neg_one_lt_zero
  obtain ⟨-, hdata, hagain⟩ := lost_backup_waits (by decide) hlost hrun
  obtain ⟨hdata', hsocket⟩ := hagain d' d' e' _ _ hclose .start hbegin halive
  exact ⟨c, d, e', hlost, hlog', hdata.smrLog.trans hlog, hdata'.smrLog.trans hlog, hsocket⟩

end RobotFactory
