import Mathlib.Data.List.InsertIdx
import Mathlib.Tactic

/-!
# Replaying a log into a state

A log of entries determines a state by applying the entries in index order. A
replica holds a log, the number of its committed entries and the replay of
exactly these. Three facts carry every commit of the replica: the next entry
extends the replay, applying the last committed entry once more changes nothing
when application is idempotent, and entries added behind the committed prefix
are invisible to it.
-/
namespace RobotFactory.ReplayLog

/-- The state after applying all entries of a log in index order. -/
def replay {σ ε : Type*} (apply : σ → ε → σ) (init : σ) (log : List ε) : σ :=
  log.foldl apply init

/-- Applying the same entry twice in a row is the same as applying it once. -/
def IdempotentApply {σ ε : Type*} (apply : σ → ε → σ) : Prop :=
  ∀ s e, apply (apply s e) e = apply s e

@[simp] theorem replay_nil {σ ε : Type*} (apply : σ → ε → σ) (init : σ) :
    replay apply init [] = init := rfl

@[simp] theorem replay_concat {σ ε : Type*} (apply : σ → ε → σ) (init : σ) (log : List ε) (e : ε) :
    replay apply init (log ++ [e]) = apply (replay apply init log) e := by
  simp [replay]

theorem replay_take_succ {σ ε : Type*} (apply : σ → ε → σ) (init : σ) {log : List ε} {i : ℕ} {e : ε}
    (h : log[i]? = some e) :
    replay apply init (log.take (i + 1)) = apply (replay apply init (log.take i)) e := by
  rw [List.take_add_one, h]
  exact replay_concat apply init (log.take i) e

theorem insertIdx_eq_take_append_drop {ε : Type*} (log : List ε) (e : ε) {i : ℕ}
    (h : i ≤ log.length) : log.insertIdx i e = log.take i ++ e :: log.drop i := by
  induction log generalizing i with
  | nil => simp [Nat.le_zero.mp h]
  | cons a log ih =>
    cases i with
    | zero => rfl
    | succ i => simp [ih (Nat.le_of_succ_le_succ h)]

theorem take_insertIdx_of_le {ε : Type*} (log : List ε) (e : ε) {n i : ℕ} (h : n ≤ i) :
    (log.insertIdx i e).take n = log.take n :=
  List.take_insertIdx_eq_take_of_le log e n i h

/-- The committed part of a replica: the first `committed` entries of the log
exist, and the state is their replay. -/
structure Committed {σ ε : Type*} (apply : σ → ε → σ) (init : σ) (log : List ε) (committed : ℕ)
    (state : σ) : Prop where
  le_length : committed ≤ log.length
  state_eq : state = replay apply init (log.take committed)

namespace Committed

theorem empty {σ ε : Type*} (apply : σ → ε → σ) (init : σ) (log : List ε) :
    Committed apply init log 0 init := ⟨Nat.zero_le _, by simp⟩

theorem advance {σ ε : Type*} {apply : σ → ε → σ} {init : σ} {log : List ε} {n : ℕ} {state : σ}
    {e : ε} (h : Committed apply init log n state) (he : log[n]? = some e) :
    Committed apply init log (n + 1) (apply state e) := by
  obtain ⟨hlt, _⟩ := List.getElem?_eq_some_iff.mp he
  exact ⟨hlt, by rw [replay_take_succ apply init he, h.state_eq]⟩

theorem again {σ ε : Type*} {apply : σ → ε → σ} {init : σ} {log : List ε} {n : ℕ} {state : σ}
    {e : ε} (hidem : IdempotentApply apply) (h : Committed apply init log (n + 1) state)
    (he : log[n]? = some e) : Committed apply init log (n + 1) (apply state e) := by
  refine ⟨h.le_length, ?_⟩
  rw [h.state_eq, replay_take_succ apply init he, hidem]

theorem congr {σ ε : Type*} {apply : σ → ε → σ} {init : σ} {log log' : List ε} {n : ℕ} {state : σ}
    (h : Committed apply init log n state) (htake : log'.take n = log.take n)
    (hlen : n ≤ log'.length) : Committed apply init log' n state :=
  ⟨hlen, by rw [htake, h.state_eq]⟩

theorem insert {σ ε : Type*} {apply : σ → ε → σ} {init : σ} {log : List ε} {n i : ℕ} {state : σ}
    (h : Committed apply init log n state) (e : ε) (hni : n ≤ i) :
    Committed apply init (log.insertIdx i e) n state :=
  h.congr (take_insertIdx_of_le log e hni)
    (h.le_length.trans (List.length_le_length_insertIdx ..))

end Committed

end RobotFactory.ReplayLog
