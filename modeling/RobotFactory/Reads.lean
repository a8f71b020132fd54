import RobotFactory.Crc32
import RobotFactory.Pairing

/-!
# Reads at the primary

A read holds the mutex, so it finds the primary between two iterations: all of
the log is committed and the customer record is its replay. Hence the reply is
the order number of the customer's last entry, and it takes into account every
order that was released before.
-/
namespace RobotFactory
open TransitionSystem ReplayLog

/-- The order number of the last entry for a customer, -1 if there is none. -/
def lastOrderIn (log : List MapOp) (customerId : Int32) : Int32 :=
  ((log.filter fun op => op.arg1 = customerId).getLast?.map MapOp.arg2).getD (-1)

theorem lookup_replayRecord (log : List MapOp) (customerId : Int32) :
    (replayRecord log).lookup customerId =
      (log.filter fun op => op.arg1 = customerId).getLast?.map MapOp.arg2 := by
  induction log using List.reverseRecOn with
  | nil => rfl
  | append_singleton log op ih =>
    rw [replayRecord, replay_concat, CustomerRecord.apply, List.filter_append]
    by_cases heq : op.arg1 = customerId
    · rw [← heq, Finmap.lookup_insert]
      simp
    · rw [Finmap.lookup_insert_of_ne _ (Ne.symm heq)]
      change (replayRecord log).lookup customerId = _
      rw [ih]
      simp [heq]

/-- The reply to a read, from a record that is the replay of the committed log. -/
theorem lastOrder_eq {s : Server} (h : s.Sound) (customerId : Int32) :
    s.lastOrder customerId =
      lastOrderIn (s.smrLog.take (s.committedIndex + 1).toNat) customerId := by
  rw [Server.lastOrder, replayed_record h, lookup_replayRecord]
  rfl

def Server.committedLog (s : Server) : List MapOp := s.smrLog.take (s.committedIndex + 1).toNat

/-- In every state of every run of the threads, a read replies with the last
committed order of the customer, and everything is committed. The robots whose
engineers have been released are the first of the queue; the entry of each order
among them is committed, and the engineers of the others still wait. -/
theorem read_latest [Zlib] {p : ℤ} {c₀ : Cluster} {t t' : Threads} {e : ℕ} {makeOrder : OrderInf}
    (hfresh : Fresh c₀) (hrun : Run (threadStep p) (fun _ _ => True) (Threads.opened c₀) t)
    (htype : makeOrder.requestType = 2)
    (hread : threadStep p t (.request e makeOrder) = some t') :
    t'.replies = t.replies ++ [(e, ⟨makeOrder.customerId,
      lastOrderIn (t.cluster p).server.committedLog makeOrder.customerId⟩)] ∧
    (t.cluster p).server.committedIndex = (t.cluster p).server.lastIndex ∧
    (∀ q ∈ t.pushes.take t.releases.length, q.robot.customerId ≠ -1 →
      Server.logEntryOf q.robot ∈ (t.cluster p).server.committedLog) ∧
    ∀ q ∈ t.pushes.drop t.releases.length, (t.engineers q.owner).pc = q.pc := by
  obtain ⟨hleads, hpaired, hlog⟩ := Threads.threads_run hfresh hrun
  simp only [threadStep, Option.ite_none_right_eq_some, Option.some.injEq] at hread
  obtain ⟨⟨-, hfree⟩, rfl⟩ := hread
  have hidle := hleads.parked hfree
  have hdone := hleads.leads.committed (hleads.idle hidle)
  have hlast := hleads.leads.last_eq
  have hall : (t.cluster p).server.committedLog = (t.cluster p).server.smrLog :=
    List.take_of_length_le (by omega)
  refine ⟨?_, hdone, fun q hq horder => ?_, hpaired.waiting⟩
  · have htype' : makeOrder.requestType ≠ 1 := by
      rw [htype]
      decide
    rw [Threads.received, if_neg htype', if_pos htype, Threads.engineerThreadReadDef,
      lastOrder_eq hleads.leads.sound.server]
    rfl
  · unfold Threads.LogsHandled Threads.handled Threads.handledCount at hlog
    rw [hidle] at hlog
    rw [hall, hlog]
    refine List.mem_flatMap.mpr ⟨q, hq, ?_⟩
    rw [Push.logged, if_pos horder]
    exact List.mem_singleton_self _

def readOf7 : OrderInf := ⟨7, 0, 2⟩

theorem read_latest_duo : ∃ t' : Threads, t'.replies = [(0, ⟨7, 1⟩)] := by
  have hrun : ∃ t, Run (threadStep 0) (fun _ _ => True) (Threads.opened duo) t ∧ t.replies = [] ∧
      (t.cluster 0).server.committedLog = [⟨1, 7, 1⟩] ∧
      (threadStep 0 t (.request 0 readOf7)).isSome = true :=
    ⟨_, ((((((((Run.start.next (a := .connect 0) trivial rfl).next
      (a := .request 0 (requestOf7 1)) trivial rfl).next (a := .wake) trivial rfl).next
      (a := .begin fun _ => 5) trivial rfl).next
      (a := .replicate Link.clean) trivial rfl).next (a := .finish) trivial rfl).next
      (a := .ship 0) trivial rfl).next (a := .wait) trivial rfl), rfl, rfl, rfl⟩
  obtain ⟨t, hrun, hnone, hlog, hsome⟩ := hrun
  obtain ⟨t', hread⟩ := Option.isSome_iff_exists.mp hsome
  obtain ⟨hreply, -⟩ := read_latest duo_fresh hrun (by decide) hread
  rw [hnone, hlog] at hreply
  exact ⟨t', hreply⟩

end RobotFactory
