import Mathlib.Data.List.Basic
import Mathlib.Tactic

/-!
# Byte streams in pieces

A call that transfers up to `size` cells transfers as many as the network likes,
at least one, or fails. A call that receives also gets no more than the stream has
left, and so nothing at its end.
-/
namespace RobotFactory.Fragmentation

/-- What the network makes of one call: it lets at most `k + 1` cells through, or
the call fails. -/
inductive Piece where
  | upTo (k : ℕ)
  | failed
  deriving DecidableEq, Repr

/-- The number of cells that a call for `size` cells can transfer, `none` if it fails. -/
def Piece.count (size : ℕ) : Piece → Option ℕ
  | upTo k => some (min size (k + 1))
  | failed => none

@[simp] theorem Piece.count_upTo (size k : ℕ) : (upTo k).count size = some (min size (k + 1)) := rfl

@[simp] theorem Piece.count_failed (size : ℕ) : failed.count size = none := rfl

theorem Piece.count_eq_none_iff {size : ℕ} {p : Piece} : p.count size = none ↔ p = failed := by
  cases p <;> simp

/-- A call that does not fail makes progress, and transfers no more than it is asked for. -/
theorem Piece.count_pos {size n : ℕ} {p : Piece} (h : p.count size = some n) (hsize : 0 < size) :
    0 < n ∧ n ≤ size := by
  cases p with
  | upTo k =>
    obtain rfl := Option.some.inj h
    exact ⟨lt_min hsize k.succ_pos, min_le_left _ _⟩
  | failed => cases h

/-- One call that receives: the cells it gets, and the rest of the stream. -/
def receive {β : Type*} (stream : List β) (size : ℕ) (p : Piece) : Option (List β × List β) :=
  (p.count size).map fun n => (stream.take n, stream.drop n)

@[simp] theorem receive_failed {β : Type*} (stream : List β) (size : ℕ) :
    receive stream size .failed = none := rfl

@[simp] theorem receive_upTo {β : Type*} (stream : List β) (size k : ℕ) :
    receive stream size (.upTo k) =
      some (stream.take (min size (k + 1)), stream.drop (min size (k + 1))) := rfl

section Received

variable {β : Type*} {stream got rest : List β} {size : ℕ} {p : Piece}

/-- A call gets the cells at the front of the stream, at most as many as it asks for. -/
theorem receive_eq_some (h : receive stream size p = some (got, rest)) :
    stream = got ++ rest ∧ got.length ≤ size := by
  cases p with
  | upTo k =>
    obtain ⟨rfl, rfl⟩ := Prod.mk.inj (Option.some.inj h)
    refine ⟨(List.take_append_drop _ _).symm, ?_⟩
    rw [List.length_take]
    omega
  | failed => cases h

/-- It gets nothing at the end of the stream only. -/
theorem receive_nil_iff (h : receive stream size p = some (got, rest)) (hsize : 0 < size) :
    got = [] ↔ stream = [] := by
  cases p with
  | upTo k =>
    obtain ⟨rfl, -⟩ := Prod.mk.inj (Option.some.inj h)
    rw [List.take_eq_nil_iff, or_iff_right (by omega)]
  | failed => cases h

end Received

/-- A block at the front of a stream is the first one that was written, if it is as long. -/
theorem eq_of_front {β : Type*} {got block rest : List β} (h : got <+: block ++ rest)
    (hlen : got.length = block.length) : got = block :=
  (List.prefix_of_prefix_length_le h (List.prefix_append block rest) hlen.le).eq_of_length hlen

end RobotFactory.Fragmentation
