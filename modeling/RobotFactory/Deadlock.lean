import RobotFactory.TransitionSystem
import RobotFactory.Crc32
import RobotFactory.Startup
import RobotFactory.Mutexes

/-!
# Two servers that wait for each other

An admin thread keeps the mutex of its server while it waits for the
acknowledgement of a backup, and the IFA thread of the backup needs the mutex
there. Two servers that are both in the middle of an iteration, each still in
need of the other, cannot go on. This is the only way into that state: it is
never reached if no server begins an iteration while another one that it will
contact still needs it.
-/
namespace RobotFactory
open TransitionSystem

namespace Process

def turnsLeft (x : Process) : List FactoryRec :=
  match x.admin with
  | .waiting | .awake => []
  | .turn _ _ i => x.server.factoriesRecord.drop i
  | .getAck _ _ i | .sendLog _ _ i | .getReack _ _ i => x.server.factoriesRecord.drop (i + 1)

def asked (x : Process) : Option FactoryRec :=
  match x.admin with
  | .getAck _ _ i => x.server.factoriesRecord[i]?
  | _ => none

theorem turnsLeft_acknowledged (x : Process) (shipOrder : RobotInf) (req : ReplReq) (i : ℕ)
    (isSuccess : ℤ) : (x.acknowledged shipOrder req i isSuccess).turnsLeft =
      x.server.factoriesRecord.drop (i + 1) := by
  simp only [acknowledged, turnsLeft]
  split_ifs
  · rfl
  · rw [List.drop_modify_of_lt _ _ _ _ (Nat.lt_succ_self i)]

theorem turnsLeft_firstAck (x : Process) (shipOrder : RobotInf) (req : ReplReq) (i : ℕ)
    (isSuccess : ℤ) : (x.firstAck shipOrder req i isSuccess).turnsLeft =
      x.server.factoriesRecord.drop (i + 1) := by
  unfold firstAck
  split_ifs
  · rfl
  · exact x.turnsLeft_acknowledged shipOrder req i isSuccess

end Process

namespace Mesh

/-- No acknowledgement has been sent on the connection, and its IFA thread has not taken
the request. -/
def Unanswered (m : Mesh) (conn : Connection) : Prop :=
  m.toAdmin conn = [] ∧ ((m.procs conn.backup).ifa conn = .peeking ∨
    (m.procs conn.backup).ifa conn = .locking)

/-- The iteration of `a` cannot end unless the IFA thread of `b` gets the mutex. -/
def Needs (m : Mesh) (a b : ℤ) : Prop :=
  (∃ f ∈ (m.procs a).turnsLeft, f.factoryId = b ∧ 0 ≤ f.socket) ∨
    ∃ f, (m.procs a).asked = some f ∧ f.factoryId = b ∧ m.Unanswered (f.connection a)

/-- The admin thread of `a` holds its mutex and waits for the acknowledgement of
`b` on this connection, whose IFA thread waits for the mutex there. -/
structure BlockedOn (m : Mesh) (a b : ℤ) (f : FactoryRec) : Prop where
  holds : (m.procs a).mtx = some .admin
  asked : (m.procs a).asked = some f
  peer : f.factoryId = b
  unanswered : m.toAdmin (f.connection a) = []
  locking : (m.procs b).ifa (f.connection a) = .locking

def Blocked (m : Mesh) (a b : ℤ) : Prop := ∃ f, m.BlockedOn a b f

def Deadlocked (m : Mesh) (a b : ℤ) : Prop := m.Blocked a b ∧ m.Blocked b a

theorem Blocked.needs {m : Mesh} {a b : ℤ} (h : m.Blocked a b) : m.Needs a b := by
  obtain ⟨f, hf⟩ := h
  obtain rfl := hf.peer
  exact .inr ⟨f, hf.asked, rfl, hf.unanswered, .inr hf.locking⟩

structure Idle (m : Mesh) : Prop where
  alive : ∀ s, (m.procs s).alive = true
  mtx : ∀ s, (m.procs s).mtx = none
  waiting : ∀ s, (m.procs s).admin = .waiting
  peeking : ∀ s conn, (m.procs s).ifa conn = .peeking
  toIfa : ∀ x, m.toIfa x = []
  toAdmin : ∀ x, m.toAdmin x = []

/-- A server begins an iteration only while no peer that it will contact needs it. -/
def TakesTurns (m : Mesh) : MeshAction → Prop
  | .begin s connect => ∀ f ∈ (m.procs s).server.recheckedFactories connect, 0 ≤ f.socket →
      ¬m.Needs f.factoryId s
  | _ => True

/-- No two servers need each other. -/
def OneSided (m : Mesh) : Prop := ∀ a b, a ≠ b → m.Needs a b → ¬m.Needs b a

/-- A step after which no server needs another one that it did not need before. -/
structure Settles (m m' : Mesh) : Prop where
  turns : ∀ a, (m'.procs a).turnsLeft ⊆ (m.procs a).turnsLeft
  asked : ∀ a f, (m'.procs a).asked = some f → m'.Unanswered (f.connection a) →
    m.Needs a f.factoryId

theorem Settles.needs {m m' : Mesh} (h : m.Settles m') {a b : ℤ} (hn : m'.Needs a b) :
    m.Needs a b := by
  rcases hn with ⟨f, hf, hid, hsocket⟩ | ⟨f, hasked, rfl, hunanswered⟩
  · exact .inl ⟨f, h.turns a hf, hid, hsocket⟩
  · exact h.asked a f hasked hunanswered

theorem Settles.oneSided {m m' : Mesh} (h : m.Settles m') (hone : m.OneSided) : m'.OneSided :=
  fun a b hne hab hba => hone a b hne (h.needs hab) (h.needs hba)

theorem settles_admin {m m' : Mesh} {s : ℤ} {x : Process}
    (hprocs : m'.procs = Function.update m.procs s x) (hifa : x.ifa = (m.procs s).ifa)
    (hchannels : ∀ conn, conn.primary ≠ s → m'.toAdmin conn = m.toAdmin conn)
    (hturns : x.turnsLeft ⊆ (m.procs s).turnsLeft)
    (hasked : ∀ f, x.asked = some f → m'.Unanswered (f.connection s) → m.Needs s f.factoryId) :
    m.Settles m' := by
  have hunanswered {conn : Connection} (hne : conn.primary ≠ s) (h : m'.Unanswered conn) :
      m.Unanswered conn := by
    unfold Unanswered at h
    rw [hchannels conn hne, hprocs] at h
    by_cases hb : conn.backup = s
    · rw [hb, Function.update_self, hifa] at h
      rwa [Unanswered, hb]
    · rwa [Function.update_of_ne hb] at h
  refine ⟨fun a => ?_, fun a f h hun => ?_⟩
  · rw [hprocs]
    by_cases ha : a = s
    · subst ha
      rwa [Function.update_self]
    · rw [Function.update_of_ne ha]
      exact List.Subset.refl _
  · rw [hprocs] at h
    by_cases ha : a = s
    · subst ha
      rw [Function.update_self] at h
      exact hasked f h hun
    · rw [Function.update_of_ne ha] at h
      exact .inr ⟨f, h, rfl, hunanswered ha hun⟩

theorem settles_ifa {m m' : Mesh} {s : ℤ} {x : Process}
    (hprocs : m'.procs = Function.update m.procs s x) (hadmin : x.admin = (m.procs s).admin)
    (hfactories : x.server.factoriesRecord = (m.procs s).server.factoriesRecord)
    (hunanswered : ∀ conn, m'.Unanswered conn → m.Unanswered conn) : m.Settles m' := by
  have hsame (a : ℤ) : (m'.procs a).turnsLeft = (m.procs a).turnsLeft ∧
      (m'.procs a).asked = (m.procs a).asked := by
    rw [hprocs]
    by_cases ha : a = s
    · subst ha
      simp only [Function.update_self, Process.turnsLeft, Process.asked, hadmin, hfactories,
        and_self]
    · rw [Function.update_of_ne ha]
      exact ⟨rfl, rfl⟩
  refine ⟨fun a => ?_, fun a f h hun => ?_⟩
  · rw [(hsame a).1]
    exact List.Subset.refl _
  · rw [(hsame a).2] at h
    exact .inr ⟨f, h, rfl, hunanswered _ hun⟩

theorem settles_ifa_peer {m m' : Mesh} {conn : Connection} {x : Process}
    (hprocs : m'.procs = Function.update m.procs conn.backup x)
    (hadmin : x.admin = (m.procs conn.backup).admin)
    (hfactories : x.server.factoriesRecord = (m.procs conn.backup).server.factoriesRecord)
    (hifa : ∀ k, k ≠ conn → x.ifa k = (m.procs conn.backup).ifa k)
    (hchannels : ∀ k, k ≠ conn → m'.toAdmin k = m.toAdmin k)
    (hconn : m'.Unanswered conn → m.Unanswered conn) : m.Settles m' := by
  refine settles_ifa hprocs hadmin hfactories fun k hun => ?_
  by_cases heq : k = conn
  · subst heq
    exact hconn hun
  · unfold Unanswered at hun ⊢
    rw [hchannels k heq, hprocs] at hun
    by_cases hb : k.backup = conn.backup
    · rw [hb, Function.update_self, hifa k heq] at hun
      rwa [hb]
    · rwa [Function.update_of_ne hb] at hun

theorem settles_same {m : Mesh} {s : ℤ} {x : Process} (hifa : x.ifa = (m.procs s).ifa)
    (hadmin : x.admin = (m.procs s).admin)
    (hfactories : x.server.factoriesRecord = (m.procs s).server.factoriesRecord) :
    m.Settles (m.setProc s x) := by
  refine settles_ifa rfl hadmin hfactories fun conn hun => ?_
  unfold Unanswered at hun ⊢
  simp only [setProc] at hun
  by_cases hb : conn.backup = s
  · rw [hb, Function.update_self, hifa] at hun
    rwa [hb]
  · rwa [Function.update_of_ne hb] at hun

theorem settles_unasked {m m' : Mesh} {s : ℤ} {x : Process}
    (hprocs : m'.procs = Function.update m.procs s x) (hifa : x.ifa = (m.procs s).ifa)
    (hchannels : ∀ conn, conn.primary ≠ s → m'.toAdmin conn = m.toAdmin conn)
    (hturns : x.turnsLeft ⊆ (m.procs s).turnsLeft) (hasked : x.asked = none) : m.Settles m' := by
  refine settles_admin hprocs hifa hchannels hturns fun b h => ?_
  rw [hasked] at h
  cases h

theorem getReplicationRequest_settles (m : Mesh) (conn : Connection) (misread : ReplReq) :
    m.Settles (m.getReplicationRequest conn misread) := by
  refine settles_ifa_peer rfl rfl rfl (fun _ hk => Function.update_of_ne hk ..)
    (fun _ hk => Function.update_of_ne hk ..) fun hun => ?_
  simp [Unanswered, getReplicationRequest, setProc] at hun

theorem ifaThreadRead_settles [Zlib] (m : Mesh) (conn : Connection) (req : ReplReq)
    (misread : ℕ → MapOp) : m.Settles (m.ifaThreadRead conn req misread) := by
  unfold ifaThreadRead
  simp only
  split
  · exact settles_same rfl rfl rfl
  · rename_i server hserver
    refine settles_ifa_peer rfl rfl (ifaThreadRead_sameRole hserver).factoriesRecord
      (fun _ hk => Function.update_of_ne hk ..) (fun _ _ => rfl) fun hun => ?_
    simp [Unanswered, setProc] at hun

theorem peek_settles {m : Mesh} {conn : Connection}
    (h : (m.procs conn.backup).ifa conn = .peeking) :
    m.Settles (m.setProc conn.backup { m.procs conn.backup with
      ifa := Function.update (m.procs conn.backup).ifa conn .locking }) :=
  settles_ifa_peer rfl rfl rfl (fun _ hk => Function.update_of_ne hk ..) (fun _ _ => rfl)
    fun hun => ⟨hun.1, .inl h⟩

theorem ack_settles {m : Mesh} {conn : Connection} :
    m.Settles { m.setProc conn.backup { m.procs conn.backup with
        ifa := Function.update (m.procs conn.backup).ifa conn .peeking } with
      toAdmin := Function.update m.toAdmin conn (m.toAdmin conn ++ [1]) } := by
  refine settles_ifa_peer rfl rfl rfl (fun _ hk => Function.update_of_ne hk ..)
    (fun _ hk => Function.update_of_ne hk ..) fun hun => ?_
  simp [Unanswered] at hun

theorem Moved.settles [Zlib] {m m' : Mesh} {a : MeshAction} (h : m.Moved a m')
    (hbegin : ∀ s connect, a ≠ .begin s connect) : m.Settles m' := by
  have hread {s : ℤ} {f : FactoryRec} {rest : List ℤ} (conn : Connection)
      (hne : conn.primary ≠ s) :
      Function.update m.toAdmin (f.connection s) rest conn = m.toAdmin conn :=
    Function.update_of_ne (fun heq => hne (congrArg Connection.primary heq)) ..
  cases h with
  | order | clientClose => exact settles_same rfl rfl rfl
  | wake | wait | finish =>
    exact settles_unasked rfl rfl (fun _ _ => rfl) (List.nil_subset _) rfl
  | begin s connect => exact absurd rfl (hbegin s connect)
  | skip s shipOrder req i f hadmin =>
    refine settles_unasked rfl rfl (fun _ _ => rfl) ?_ rfl
    simp only [Process.turnsLeft, hadmin]
    exact List.drop_subset_drop_left _ (Nat.le_succ i)
  | send s shipOrder req i f hadmin hf hsocket =>
    have hleft : (m.procs s).turnsLeft = (m.procs s).server.factoriesRecord.drop i := by
      simp only [Process.turnsLeft, hadmin]
    refine settles_admin rfl rfl (fun _ _ => rfl) ?_
      fun g hasked _ => .inl ⟨g, ?_, rfl, ?_⟩
    · rw [hleft]
      exact List.drop_subset_drop_left _ (Nat.le_succ i)
    · rw [hleft, List.mem_iff_getElem?]
      exact ⟨0, by rw [List.getElem?_drop, Nat.add_zero]; exact hasked⟩
    · obtain rfl : f = g := Option.some.inj (hf.symm.trans hasked)
      exact hsocket
  | getAck s shipOrder req i f n rest hadmin =>
    refine settles_unasked rfl ?_ hread ?_ ?_
    · unfold Process.firstAck
      split_ifs <;> rfl
    · rw [Process.turnsLeft_firstAck, Process.turnsLeft, hadmin]
      exact List.Subset.refl _
    · unfold Process.firstAck
      split_ifs <;> rfl
  | sendLog s shipOrder req i f n rest hadmin =>
    refine settles_unasked rfl rfl hread ?_ rfl
    simp only [Process.turnsLeft, hadmin]
    exact List.Subset.refl _
  | getReack s shipOrder req i f n rest hadmin =>
    refine settles_unasked rfl rfl hread ?_ rfl
    rw [Process.turnsLeft_acknowledged, Process.turnsLeft, hadmin]
    exact List.Subset.refl _
  | peek conn hpeeking => exact peek_settles hpeeking
  | lock conn misread => exact getReplicationRequest_settles ..
  | read conn misread req => exact ifaThreadRead_settles ..
  | ack conn => exact ack_settles

/-- A server that begins an iteration with a fault has stopped; otherwise it needs
those peers that it is connected to after the rechecks, and waits for none yet. -/
theorem beginIteration_cases [Zlib] (x : Process) (connect : ℤ → ℤ) (shipOrder : RobotInf)
    (rest : List RobotInf) (hawake : x.admin = .awake) :
    let y := x.beginIteration connect shipOrder rest
    y.ifa = x.ifa ∧ y.asked = none ∧ y.turnsLeft ⊆ x.server.recheckedFactories connect := by
  simp only [Process.beginIteration]
  split
  · refine ⟨rfl, ?_, ?_⟩
    · simp only [Process.asked, hawake]
    · simp only [Process.turnsLeft, hawake]
      exact List.nil_subset _
  · rename_i s hs
    obtain ⟨r, hrecheck, happend⟩ := bind_eq_ok.mp hs
    refine ⟨rfl, rfl, ?_⟩
    rw [← adminRecheck_factories hrecheck, ← adminAppend_factories happend]
    exact List.Subset.refl _

theorem begin_oneSided [Zlib] {m : Mesh} {s : ℤ} {connect : ℤ → ℤ} {shipOrder : RobotInf}
    {rest : List RobotInf} (hone : m.OneSided) (hawake : (m.procs s).admin = .awake)
    (hturns : m.TakesTurns (.begin s connect)) :
    (m.setProc s ((m.procs s).beginIteration connect shipOrder rest)).OneSided := by
  obtain ⟨hifa, hasked, hleft⟩ := beginIteration_cases (m.procs s) connect shipOrder rest hawake
  have hprocs (conn : Connection) :
      ((m.setProc s ((m.procs s).beginIteration connect shipOrder rest)).procs conn.backup).ifa =
        (m.procs conn.backup).ifa := by
    simp only [setProc]
    by_cases hb : conn.backup = s
    · rw [hb, Function.update_self, hifa]
    · rw [Function.update_of_ne hb]
  have hother {a b : ℤ} (ha : a ≠ s)
      (h : (m.setProc s ((m.procs s).beginIteration connect shipOrder rest)).Needs a b) :
      m.Needs a b := by
    simp only [Needs, Unanswered, hprocs] at h
    simpa only [Needs, Unanswered, setProc, Function.update_of_ne ha] using h
  have hself {b : ℤ}
      (h : (m.setProc s ((m.procs s).beginIteration connect shipOrder rest)).Needs s b) :
      ¬m.Needs b s := by
    unfold Needs setProc at h
    simp only [Function.update_self, hasked] at h
    rcases h with ⟨f, hf, rfl, hsocket⟩ | ⟨f, hnone, -⟩
    · exact hturns f (hleft hf) hsocket
    · cases hnone
  intro a b hne hab hba
  by_cases ha : a = s
  · subst ha
    exact hself hab (hother (Ne.symm hne) hba)
  · by_cases hb : b = s
    · subst hb
      exact hself hba (hother ha hab)
    · exact hone a b hne (hother ha hab) (hother hb hba)

theorem oneSided_step [Zlib] {m m' : Mesh} {a : MeshAction} (hone : m.OneSided)
    (hok : m.TakesTurns a) (hstep : meshStep m a = some m') : m'.OneSided := by
  have hmoved := meshStep_cases hstep
  by_cases hbegin : ∃ s connect, a = .begin s connect
  · obtain ⟨s, connect, rfl⟩ := hbegin
    cases hmoved with
    | begin _ _ shipOrder rest hawake => exact begin_oneSided hone hawake hok
  · exact (hmoved.settles fun s connect heq => hbegin ⟨s, connect, heq⟩).oneSided hone

theorem Idle.oneSided {m : Mesh} (h : m.Idle) : m.OneSided := by
  rintro a b - (⟨f, hf, -⟩ | ⟨f, hasked, -⟩) -
  · simp only [Process.turnsLeft, h.waiting] at hf
    cases hf
  · simp only [Process.asked, h.waiting] at hasked
    cases hasked

end Mesh

/-- A thread in the middle of an iteration or of a request holds the mutex. -/
structure Process.Locked (x : Process) : Prop where
  admin : x.admin ≠ .waiting → x.mtx = some .admin
  ifa : ∀ conn req, x.ifa conn = .reading req → x.mtx = some (.ifa conn)

namespace Process.Locked

theorem admin_moves {x y : Process} (h : x.Locked) (hadmin : x.admin ≠ .waiting)
    (hmtx : y.mtx = x.mtx) (hifa : y.ifa = x.ifa) : y.Locked := by
  refine ⟨fun _ => hmtx.trans (h.admin hadmin), fun p req hreading => ?_⟩
  rw [hifa] at hreading
  rw [hmtx]
  exact h.ifa p req hreading

theorem ifa_moves {x y : Process} {p : Connection} {pc : IfaThread} (h : x.Locked)
    (hadmin : y.admin = x.admin) (hmtx : y.mtx = x.mtx)
    (hifa : y.ifa = Function.update x.ifa p pc) (hpc : ∀ req, pc ≠ .reading req) : y.Locked := by
  refine ⟨fun hne => ?_, fun q req hreading => ?_⟩
  · rw [hmtx]
    exact h.admin (hadmin ▸ hne)
  · rw [hifa] at hreading
    rw [hmtx]
    by_cases hq : q = p
    · subst hq
      rw [Function.update_self] at hreading
      exact absurd hreading (hpc req)
    · rw [Function.update_of_ne hq] at hreading
      exact h.ifa q req hreading

theorem free {x : Process} (h : x.Locked) (hfree : x.mtx = none) :
    x.admin = .waiting ∧ ∀ p req, x.ifa p ≠ .reading req := by
  constructor
  · by_contra hne
    rw [h.admin hne] at hfree
    cases hfree
  · intro p req hreading
    rw [h.ifa p req hreading] at hfree
    cases hfree

end Process.Locked

namespace Mesh

theorem Moved.locked [Zlib] {m m' : Mesh} {a : MeshAction} (h : m.Moved a m')
    (hlocked : ∀ s, (m.procs s).Locked) : ∀ s, (m'.procs s).Locked := by
  have hupdate {s : ℤ} {x : Process} (hx : x.Locked) (t : ℤ) :
      (Function.update m.procs s x t).Locked := by
    by_cases ht : t = s
    · subst ht
      rwa [Function.update_self]
    · rw [Function.update_of_ne ht]
      exact hlocked t
  have hbusy {s : ℤ} {admin : AdminThread} (hadmin : (m.procs s).admin = admin)
      (hne : admin ≠ .waiting) : (m.procs s).admin ≠ .waiting := by rwa [hadmin]
  cases h with
  | order s | clientClose s => exact hupdate ⟨(hlocked s).admin, (hlocked s).ifa⟩
  | wake s _ hfree =>
    exact hupdate ⟨fun _ => rfl, fun p req hreading =>
      absurd hreading (((hlocked s).free hfree).2 p req)⟩
  | wait s hawake =>
    refine hupdate ⟨fun hne => absurd rfl hne, fun p req hreading => ?_⟩
    have hifa := (hlocked s).ifa p req hreading
    rw [(hlocked s).admin (hbusy hawake nofun)] at hifa
    cases hifa
  | begin s connect shipOrder rest hawake =>
    refine hupdate ((hlocked s).admin_moves (hbusy hawake nofun) ?_
      (beginIteration_cases (m.procs s) connect shipOrder rest hawake).1)
    unfold Process.beginIteration
    split <;> rfl
  | skip s _ _ _ _ hadmin | send s _ _ _ _ hadmin | sendLog s _ _ _ _ _ _ hadmin
  | getReack s _ _ _ _ _ _ hadmin | finish s _ _ _ hadmin =>
    exact hupdate ((hlocked s).admin_moves (hbusy hadmin nofun) rfl rfl)
  | getAck s shipOrder req i f n rest hadmin =>
    refine hupdate ((hlocked s).admin_moves (hbusy hadmin nofun) ?_ ?_) <;>
      unfold Process.firstAck <;> split_ifs <;> rfl
  | peek conn | ack conn => exact hupdate ((hlocked conn.backup).ifa_moves rfl rfl rfl nofun)
  | lock conn misread _ hfree =>
    obtain ⟨hwaiting, hnone⟩ := (hlocked conn.backup).free hfree
    refine hupdate ⟨fun hne => absurd hwaiting hne, fun q req hreading => ?_⟩
    by_cases hq : q = conn
    · rw [hq]
    · simp only [Function.update_of_ne hq] at hreading
      exact absurd hreading (hnone q req)
  | read conn misread req hreading =>
    have hmtx := (hlocked conn.backup).ifa conn req hreading
    unfold ifaThreadRead
    simp only
    split
    · exact hupdate ⟨(hlocked conn.backup).admin, (hlocked conn.backup).ifa⟩
    · refine hupdate ⟨fun hne => ?_, fun q req' hreading' => ?_⟩
      · have hadmin := (hlocked conn.backup).admin hne
        rw [hmtx] at hadmin
        cases hadmin
      · by_cases hq : q = conn
        · subst hq
          simp only [Function.update_self] at hreading'
          cases hreading'
        · simp only [Function.update_of_ne hq] at hreading'
          have hother := (hlocked conn.backup).ifa q req' hreading'
          rw [hmtx] at hother
          cases hother
          exact absurd rfl hq

theorem Idle.locked {m : Mesh} (h : m.Idle) (s : ℤ) : (m.procs s).Locked where
  admin hne := absurd (h.waiting s) hne
  ifa p req hreading := by
    rw [h.peeking s p] at hreading
    cases hreading

theorem BlockedOn.update {m m' : Mesh} {a b s : ℤ} {f : FactoryRec} {x : Process}
    (h : m.BlockedOn a b f) (hprocs : m'.procs = Function.update m.procs s x)
    (hadmin : s = a → x.mtx = (m.procs s).mtx ∧ x.asked = (m.procs s).asked)
    (hifa : s = b → x.ifa (f.connection a) = (m.procs s).ifa (f.connection a))
    (hchannel : m'.toAdmin (f.connection a) = m.toAdmin (f.connection a)) :
    m'.BlockedOn a b f := by
  have hsame : (m'.procs a).mtx = (m.procs a).mtx ∧ (m'.procs a).asked = (m.procs a).asked := by
    rw [hprocs]
    by_cases ha : s = a
    · subst ha
      rw [Function.update_self]
      exact hadmin rfl
    · rw [Function.update_of_ne (Ne.symm ha)]
      exact ⟨rfl, rfl⟩
  refine ⟨hsame.1.trans h.holds, hsame.2.trans h.asked, h.peer, hchannel.trans h.unanswered, ?_⟩
  rw [hprocs]
  by_cases hb : s = b
  · subst hb
    rw [Function.update_self, hifa rfl]
    exact h.locking
  · rw [Function.update_of_ne (Ne.symm hb)]
    exact h.locking

/-- As long as the admin thread of `b` holds the mutex there, `a` stays blocked. -/
theorem BlockedOn.step [Zlib] {m m' : Mesh} {a b : ℤ} {g : FactoryRec} {action : MeshAction}
    (h : m.BlockedOn a b g) (hheld : (m.procs b).mtx = some .admin)
    (hlocked : ∀ s, (m.procs s).Locked) (hmoved : m.Moved action m') : m'.BlockedOn a b g := by
  have hother {s : ℤ} {admin : AdminThread} (hadmin : (m.procs s).admin = admin)
      (hnone : ∀ shipOrder req i, admin ≠ .getAck shipOrder req i) : s ≠ a := by
    rintro rfl
    have hasked := h.asked
    unfold Process.asked at hasked
    split at hasked
    · rename_i heq
      exact hnone _ _ _ (hadmin.symm.trans heq)
    · cases hasked
  have hneither {s : ℤ} (hmtx : (m.procs s).mtx ≠ some .admin) : s ≠ a ∧ s ≠ b :=
    ⟨fun hs => hmtx (hs ▸ h.holds), fun hs => hmtx (hs ▸ hheld)⟩
  have hread {s : ℤ} {f : FactoryRec} {rest : List ℤ} (hs : s ≠ a) :
      Function.update m.toAdmin (f.connection s) rest (g.connection a) =
        m.toAdmin (g.connection a) :=
    Function.update_of_ne (fun heq => hs (congrArg Connection.primary heq).symm) ..
  cases hmoved with
  | order | clientClose => exact h.update rfl (fun _ => ⟨rfl, rfl⟩) (fun _ => rfl) rfl
  | wake s hadmin | wait s hadmin | skip s _ _ _ _ hadmin | send s _ _ _ _ hadmin
  | finish s _ _ _ hadmin =>
    exact h.update rfl (fun hs => absurd hs (hother hadmin nofun)) (fun _ => rfl) rfl
  | begin s connect shipOrder rest hawake =>
    have hifa := (beginIteration_cases (m.procs s) connect shipOrder rest hawake).1
    exact h.update rfl (fun hs => absurd hs (hother hawake nofun)) (fun _ => by rw [hifa]) rfl
  | sendLog s _ _ _ _ _ _ hadmin | getReack s _ _ _ _ _ _ hadmin =>
    have hs := hother hadmin nofun
    exact h.update rfl (fun heq => absurd heq hs) (fun _ => rfl) (hread hs)
  | getAck s shipOrder req i f n rest hadmin hf hunread =>
    have hs : s ≠ a := by
      rintro rfl
      have hasked := h.asked
      simp only [Process.asked, hadmin, hf, Option.some.injEq] at hasked
      rw [hasked, h.unanswered] at hunread
      cases hunread
    refine h.update rfl (fun heq => absurd heq hs) (fun _ => ?_) (hread hs)
    unfold Process.firstAck
    split_ifs <;> rfl
  | peek conn hpeeking =>
    refine h.update rfl (fun _ => ⟨rfl, rfl⟩) (fun hs => Function.update_of_ne ?_ ..) rfl
    rintro rfl
    rw [hs, h.locking] at hpeeking
    cases hpeeking
  | lock conn misread _ hfree =>
    obtain ⟨ha, hb⟩ := hneither (s := conn.backup) (by rw [hfree]; nofun)
    refine h.update rfl (fun hs => absurd hs ha) (fun hs => absurd hs hb)
      (Function.update_of_ne (fun heq => hb ?_) ..)
    rw [← heq, ← h.peer]
    rfl
  | read conn misread req hreading =>
    obtain ⟨ha, hb⟩ := hneither (s := conn.backup)
      (by rw [(hlocked conn.backup).ifa conn req hreading]; nofun)
    unfold ifaThreadRead
    simp only
    split <;> exact h.update rfl (fun hs => absurd hs ha) (fun hs => absurd hs hb) rfl
  | ack conn hacking =>
    have hne : g.connection a ≠ conn := by
      rintro rfl
      have hlocking := h.locking
      rw [← h.peer] at hlocking
      rw [FactoryRec.connection] at hacking hlocking
      rw [hlocking] at hacking
      cases hacking
    exact h.update rfl (fun _ => ⟨rfl, rfl⟩) (fun _ => Function.update_of_ne hne ..)
      (Function.update_of_ne hne ..)

theorem Deadlocked.step [Zlib] {m m' : Mesh} {a b : ℤ} {action : MeshAction}
    (h : m.Deadlocked a b) (hlocked : ∀ s, (m.procs s).Locked) (hmoved : m.Moved action m') :
    m'.Deadlocked a b := by
  obtain ⟨⟨f, hab⟩, ⟨g, hba⟩⟩ := h
  exact ⟨⟨f, hab.step hba.holds hlocked hmoved⟩, ⟨g, hba.step hab.holds hlocked hmoved⟩⟩

end Mesh

/-- In every run in which a server begins an iteration only while no peer that it
will contact needs its IFA thread, no two servers wait for each other. -/
theorem no_replication_deadlock [Zlib] {m₀ m : Mesh} {a b : ℤ} (hidle : m₀.Idle)
    (hrun : Run meshStep Mesh.TakesTurns m₀ m) (hne : a ≠ b) : ¬m.Deadlocked a b := by
  have hone := hrun.invariant Mesh.OneSided
    (fun _ _ _ hinv hok hstep => Mesh.oneSided_step hinv hok hstep) hidle.oneSided
  exact fun hdead => hone a b hne hdead.1.needs hdead.2.needs

/-- Two servers that wait for each other do so for ever. -/
theorem deadlocked_forever [Zlib] {m₀ m m' : Mesh} {a b : ℤ} (hidle : m₀.Idle)
    (hrun : Run meshStep (fun _ _ => True) m₀ m) (hdead : m.Deadlocked a b)
    (hlater : Run meshStep (fun _ _ => True) m m') : m'.Deadlocked a b := by
  have hlocked := hrun.invariant (fun u => ∀ s, (u.procs s).Locked)
    (fun _ _ _ hinv _ hstep => (Mesh.meshStep_cases hstep).locked hinv) hidle.locked
  have hboth := hlater.invariant (fun u => (∀ s, (u.procs s).Locked) ∧ u.Deadlocked a b)
    (fun _ _ _ hinv _ hstep => by
      have hmoved := Mesh.meshStep_cases hstep
      exact ⟨hmoved.locked hinv.1, hinv.2.step hinv.1 hmoved⟩)
    ⟨hlocked, hdead⟩
  exact hboth.2

def Mesh.started (c : Cluster) : Mesh where
  procs s :=
    { server := (c s).server
      alive := true
      mtx := none
      admin := .waiting
      adminThreadList := []
      ifa := fun _ => .peeking }
  toIfa _ := []
  toAdmin _ := []

theorem Mesh.started_idle (c : Cluster) : (Mesh.started c).Idle :=
  ⟨fun _ => rfl, fun _ => rfl, fun _ => rfl, fun _ _ => rfl, fun _ => rfl, fun _ => rfl⟩

/-- Server 1 begins its iteration when it has answered server 0. -/
theorem no_replication_deadlock_duo : ∃ m : Mesh,
    (m.procs 0).asked = some ⟨1, 5⟩ ∧ m.toAdmin ⟨0, 1, 5⟩ = [1] ∧
    (m.procs 1).turnsLeft = [⟨0, 5⟩] ∧ ¬m.Deadlocked 0 1 := by
  have hrun : ∃ m, Run meshStep Mesh.TakesTurns (Mesh.started duo) m ∧
      (m.procs 0).asked = some ⟨1, 5⟩ ∧ m.toAdmin ⟨0, 1, 5⟩ = [1] ∧
      (m.procs 1).turnsLeft = [⟨0, 5⟩] := by
    refine ⟨_, ((((((((((Run.start.next (a := .order 0 (orderOf7 1)) trivial rfl).next
      (a := .order 1 (orderOf7 2)) trivial rfl).next
      (a := .wake 0) trivial rfl).next
      (a := .begin 0 fun _ => 5) ?_ rfl).next
      (a := .send 0) trivial rfl).next
      (a := .peek ⟨0, 1, 5⟩) trivial rfl).next
      (a := .lock ⟨0, 1, 5⟩ ⟨0, 0, 0, 0, 0, 0⟩) trivial rfl).next
      (a := .read ⟨0, 1, 5⟩ fun _ => ⟨0, 0, 0⟩) trivial rfl).next
      (a := .ack ⟨0, 1, 5⟩) trivial rfl).next
      (a := .wake 1) trivial rfl).next
      (a := .begin 1 fun _ => 5) ?_ rfl, rfl, rfl, rfl⟩
    · intro f hf _ hneeds
      obtain rfl := List.mem_singleton.mp hf
      rcases hneeds with ⟨g, hg, -⟩ | ⟨g, hasked, -⟩
      · cases hg
      · cases hasked
    · intro f hf _ hneeds
      obtain rfl := List.mem_singleton.mp hf
      rcases hneeds with ⟨g, hg, -⟩ | ⟨g, hasked, -, hnone, -⟩
      · cases hg
      · cases hasked
        cases hnone
  obtain ⟨m, hrun, hasked, hacked, hleft⟩ := hrun
  exact ⟨m, hasked, hacked, hleft,
    no_replication_deadlock (Mesh.started_idle duo) hrun (by decide)⟩

/-- Both servers begin an iteration and send each other a request. -/
theorem replication_deadlock : ∃ m : Mesh, (Mesh.started duo).Idle ∧
    Run meshStep (fun _ _ => True) (Mesh.started duo) m ∧ m.Deadlocked 0 1 :=
  ⟨_, Mesh.started_idle duo,
    (((((((((Run.start.next (a := .order 0 (orderOf7 1)) trivial rfl).next
      (a := .order 1 (orderOf7 2)) trivial rfl).next
      (a := .wake 0) trivial rfl).next
      (a := .wake 1) trivial rfl).next
      (a := .begin 0 fun _ => 5) trivial rfl).next
      (a := .begin 1 fun _ => 5) trivial rfl).next
      (a := .send 0) trivial rfl).next
      (a := .send 1) trivial rfl).next
      (a := .peek ⟨1, 0, 5⟩) trivial rfl).next
      (a := .peek ⟨0, 1, 5⟩) trivial rfl,
    ⟨⟨1, 5⟩, rfl, rfl, rfl, rfl, rfl⟩, ⟨⟨0, 5⟩, rfl, rfl, rfl, rfl, rfl⟩⟩

end RobotFactory
