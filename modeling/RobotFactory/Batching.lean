import Mathlib.Tactic

/-!
# Collecting items in batches

Items arrive one at a time and wait in a pending batch. When the batch has
reached its size it is flushed as a whole. At any time the flushed items are the
largest multiple of the batch size that fits into the items seen, and the
pending ones are the rest.
-/
namespace RobotFactory.Batching

/-- `flushed` and `pending` split the items seen into complete batches of size
`b` and an incomplete one. -/
structure Batched {α : Type*} (b : ℕ) (items flushed pending : List α) : Prop where
  split : flushed ++ pending = items
  dvd : b ∣ flushed.length
  pending_lt : pending.length < b

namespace Batched

theorem empty {α : Type*} {b : ℕ} (hb : 0 < b) : Batched b ([] : List α) [] [] :=
  ⟨rfl, by simp, hb⟩

/-- An item that does not fill the batch waits. -/
theorem keep {α : Type*} {b : ℕ} {items flushed pending : List α}
    (h : Batched b items flushed pending) (x : α) (hlt : pending.length + 1 < b) :
    Batched b (items ++ [x]) flushed (pending ++ [x]) :=
  ⟨by rw [← List.append_assoc, h.split], h.dvd, by simpa using hlt⟩

theorem flush {α : Type*} {b : ℕ} {items flushed pending : List α}
    (h : Batched b items flushed pending) (x : α) (hge : b ≤ pending.length + 1) :
    Batched b (items ++ [x]) (flushed ++ (pending ++ [x])) [] := by
  have hlt := h.pending_lt
  have hlen : (pending ++ [x]).length = b := by simp; omega
  refine ⟨by rw [List.append_nil, ← List.append_assoc, h.split], ?_, by simp; omega⟩
  rw [List.length_append, hlen]
  exact h.dvd.add (dvd_refl b)

theorem length_flushed {α : Type*} {b : ℕ} {items flushed pending : List α}
    (h : Batched b items flushed pending) : flushed.length = items.length / b * b := by
  obtain ⟨k, hk⟩ := h.dvd
  have hlen : items.length = b * k + pending.length := by
    rw [← h.split, List.length_append, hk]
  have hdiv : items.length / b = k := by
    rw [hlen, Nat.mul_add_div (by have := h.pending_lt; omega),
      Nat.div_eq_of_lt h.pending_lt, Nat.add_zero]
  rw [hdiv, hk, Nat.mul_comm]

/-- The flushed items are the first `⌊n / b⌋ * b` of the `n` items seen. -/
theorem flushed_eq {α : Type*} {b : ℕ} {items flushed pending : List α}
    (h : Batched b items flushed pending) : flushed = items.take (items.length / b * b) := by
  rw [← h.length_flushed, ← h.split, List.take_left]

theorem pending_eq_nil_iff {α : Type*} {b : ℕ} {items flushed pending : List α}
    (h : Batched b items flushed pending) : pending = [] ↔ b ∣ items.length := by
  rw [← h.split, List.length_append, Nat.dvd_add_right h.dvd]
  constructor
  · rintro rfl
    simp
  · intro hdvd
    have hzero := Nat.eq_zero_of_dvd_of_lt hdvd h.pending_lt
    exact List.length_eq_zero_iff.mp hzero

end Batched

end RobotFactory.Batching
