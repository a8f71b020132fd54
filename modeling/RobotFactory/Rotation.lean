import Mathlib.Data.Int.CardIntervalMod
import Mathlib.Tactic

/-!
# Rotation

Turns go round over `n` places, one place after the other. Over any number of
turns no place gets two turns more than another one, and over at most `n` of them
no place gets two.
-/
namespace RobotFactory.Rotation

/-- The places of `N` turns over `n` places, from place `c % n` on. -/
def turns (n c N : ℕ) : List ℕ := (List.range N).map fun j => (c + j) % n

@[simp] theorem length_turns (n c N : ℕ) : (turns n c N).length = N := by simp [turns]

@[simp] theorem turns_zero (n c : ℕ) : turns n c 0 = [] := rfl

theorem turns_succ (n c N : ℕ) : turns n c (N + 1) = c % n :: turns n (c + 1) N := by
  rw [turns, List.range_succ_eq_map, List.map_cons, List.map_map, Nat.add_zero]
  congr 1
  refine List.map_congr_left fun j _ => ?_
  rw [Function.comp_apply, Nat.succ_eq_add_one, Nat.add_comm j 1, Nat.add_assoc]

theorem turns_subset {n c M N : ℕ} (h : M ≤ N) : turns n c M ⊆ turns n c N :=
  List.map_subset _ (List.range_subset.mpr h)

theorem mem_turns_lt {n c N i : ℕ} (hn : 0 < n) (h : i ∈ turns n c N) : i < n := by
  obtain ⟨j, -, rfl⟩ := List.mem_map.mp h
  exact Nat.mod_lt _ hn

theorem mod_succ {n : ℕ} (hn : 0 < n) (c : ℕ) :
    (c + 1) % n = if c % n + 1 = n then 0 else c % n + 1 := by
  have hlt := Nat.mod_lt c hn
  have hround : c + 1 = c % n + 1 + n * (c / n) := by
    have hdiv := Nat.div_add_mod c n
    omega
  rw [hround, Nat.add_mul_mod_self_left]
  split_ifs with hend
  · rw [hend, Nat.mod_self]
  · exact Nat.mod_eq_of_lt (by omega)

/-- The turns of a place, by the number of whole rounds. -/
theorem count_turns {n i : ℕ} (hi : i < n) (c N : ℕ) :
    (turns n c N).count i = N / n + if (i + (n - c % n)) % n < N % n then 1 else 0 := by
  have hn : 0 < n := by omega
  have hturn (j : ℕ) : (c + j) % n = i ↔ j ≡ i + (n - c % n) [MOD n] := by
    have hround : c + j + (n - c % n) = j + n * (c / n + 1) := by
      have hlt := Nat.mod_lt c hn
      have hdiv := Nat.div_add_mod c n
      rw [Nat.mul_add, Nat.mul_one]
      omega
    calc (c + j) % n = i
        ↔ c + j ≡ i [MOD n] := by rw [Nat.ModEq, Nat.mod_eq_of_lt hi]
      _ ↔ c + j + (n - c % n) ≡ i + (n - c % n) [MOD n] :=
        ⟨Nat.ModEq.add_right _, Nat.ModEq.add_right_cancel' _⟩
      _ ↔ j ≡ i + (n - c % n) [MOD n] := by
        rw [hround, Nat.ModEq, Nat.ModEq, Nat.add_mul_mod_self_left]
  rw [← Nat.count_modEq_card N hn, turns, List.count_eq_countP, List.countP_map, Nat.count]
  refine List.countP_congr fun j _ => ?_
  simp [hturn]

theorem count_turns_le_succ {n i j : ℕ} (hi : i < n) (hj : j < n) (c N : ℕ) :
    (turns n c N).count i ≤ (turns n c N).count j + 1 := by
  rw [count_turns hi, count_turns hj]
  split_ifs <;> omega

theorem count_turns_le_one {n i : ℕ} (hi : i < n) (c : ℕ) {N : ℕ} (hN : N ≤ n) :
    (turns n c N).count i ≤ 1 := by
  rw [count_turns hi]
  rcases hN.lt_or_eq with hlt | rfl
  · rw [Nat.div_eq_of_lt hlt]
    split_ifs <;> omega
  · rw [Nat.div_self (by omega), Nat.mod_self]
    simp

theorem mem_turns_self {n i : ℕ} (hi : i < n) (c : ℕ) : i ∈ turns n c n := by
  rw [← List.count_pos_iff, count_turns hi, Nat.div_self (by omega)]
  omega

/-- The turns up to the first place that does not satisfy `p`. -/
theorem takeWhile_turns (p : ℕ → Bool) (n c N : ℕ) : ∃ k ≤ N,
    (turns n c N).takeWhile p = turns n c k ∧ (k < N → p ((c + k) % n) = false) := by
  induction N generalizing c with
  | zero => exact ⟨0, le_rfl, rfl, fun h => absurd h (lt_irrefl 0)⟩
  | succ N ih =>
    rw [turns_succ]
    cases hp : p (c % n) with
    | false => exact ⟨0, Nat.zero_le _, by simp [hp], fun _ => by simpa using hp⟩
    | true =>
      obtain ⟨k, hk, htake, hstop⟩ := ih (c + 1)
      refine ⟨k + 1, Nat.succ_le_succ hk, ?_, fun hlt => ?_⟩
      · rw [List.takeWhile_cons_of_pos hp, htake, turns_succ]
      · have hfalse := hstop (by omega)
        rwa [Nat.add_assoc, Nat.add_comm 1 k] at hfalse

end RobotFactory.Rotation
