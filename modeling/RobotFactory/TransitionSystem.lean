import Mathlib.Data.Nat.Notation
import Mathlib.Logic.Relation

/-!
# Runs of a partial step function

A system is given by `step : σ → α → Option σ`, where `none` means that the
action is not enabled. A run is a finite sequence of enabled actions whose
steps all meet a side condition on the state before the step and the action.
The two induction rules below are the only inductions over runs: an invariant
holds in every state reached, and a preorder relates any two states of a run.
-/
namespace RobotFactory.TransitionSystem

/-- `Run step ok s t`: the state `t` is reached from `s` by enabled actions,
each taken in a state where `ok` admits it. -/
inductive Run {σ α : Type*} (step : σ → α → Option σ) (ok : σ → α → Prop) (s : σ) : σ → Prop where
  | start : Run step ok s s
  | next {t u : σ} {a : α} : Run step ok s t → ok t a → step t a = some u → Run step ok s u

namespace Run

/-- A property of the first state that every admitted step preserves holds in
every state reached. -/
theorem invariant {σ α : Type*} {step : σ → α → Option σ} {ok : σ → α → Prop} (inv : σ → Prop)
    (hstep : ∀ t a u, inv t → ok t a → step t a = some u → inv u)
    {s t : σ} (hs : inv s) (h : Run step ok s t) : inv t := by
  induction h with
  | start => exact hs
  | next _ hok hu ih => exact hstep _ _ _ ih hok hu

/-- A preorder that relates each state satisfying an invariant to its successor
relates the first state of a run to the last. -/
theorem related {σ α : Type*} {step : σ → α → Option σ} {ok : σ → α → Prop} (inv : σ → Prop)
    (rel : σ → σ → Prop) (hrefl : ∀ t, rel t t) (htrans : ∀ t u v, rel t u → rel u v → rel t v)
    (hstep : ∀ t a u, inv t → ok t a → step t a = some u → inv u ∧ rel t u)
    {s t : σ} (hs : inv s) (h : Run step ok s t) : rel s t := by
  suffices hboth : inv t ∧ rel s t from hboth.2
  induction h with
  | start => exact ⟨hs, hrefl _⟩
  | next _ hok hu ih =>
    obtain ⟨hinv, hrel⟩ := hstep _ _ _ ih.1 hok hu
    exact ⟨hinv, htrans _ _ _ ih.2 hrel⟩

theorem trans {σ α : Type*} {step : σ → α → Option σ} {ok : σ → α → Prop} {s t u : σ}
    (hst : Run step ok s t) (htu : Run step ok t u) : Run step ok s u := by
  induction htu with
  | start => exact hst
  | next _ hok hu ih => exact ih.next hok hu

/-- Weakening the side condition keeps the run. -/
theorem mono {σ α : Type*} {step : σ → α → Option σ} {ok ok' : σ → α → Prop}
    (hok : ∀ t a, ok t a → ok' t a) {s t : σ} (h : Run step ok s t) : Run step ok' s t := by
  induction h with
  | start => exact .start
  | next _ ha hu ih => exact ih.next (hok _ _ ha) hu

/-- If an abstract system follows every admitted step from a state with an invariant, by
any number of steps of its own, then it follows every run. -/
theorem refines {σ α τ β : Type*} {step : σ → α → Option σ} {ok : σ → α → Prop}
    {step' : τ → β → Option τ} {ok' : τ → β → Prop} (abs : σ → τ) (inv : σ → Prop) {s t : σ}
    (hstep : ∀ u a v, Run step' ok' (abs s) (abs u) → inv u → ok u a → step u a = some v →
      inv v ∧ Run step' ok' (abs u) (abs v))
    (hs : inv s) (h : Run step ok s t) : inv t ∧ Run step' ok' (abs s) (abs t) := by
  induction h with
  | start => exact ⟨hs, .start⟩
  | next _ hok hv ih =>
    obtain ⟨hinv, hmoves⟩ := hstep _ _ _ ih.2 ih.1 hok hv
    exact ⟨hinv, ih.2.trans hmoves⟩

end Run

/-- Steps with a count to which each action adds its weight. -/
def counted {σ α : Type*} (step : σ → α → Option σ) (weight : α → ℕ) (x : σ × ℕ) (a : α) :
    Option (σ × ℕ) :=
  (step x.1 a).map fun t => (t, x.2 + weight a)

/-- If each admitted step from a state with an invariant adds its weight to a measure of
the state, then the measure tells the count. -/
theorem Run.count_eq {σ α : Type*} {step : σ → α → Option σ} {weight : α → ℕ}
    {ok : σ → α → Prop} (inv : σ → Prop) (measure : σ → ℕ)
    (hstep : ∀ t a u, inv t → ok t a → step t a = some u →
      inv u ∧ measure u = measure t + weight a)
    {s t : σ} {k n : ℕ} (hs : inv s)
    (h : Run (counted step weight) (fun x a => ok x.1 a) (s, k) (t, n)) :
    inv t ∧ measure t + k = measure s + n := by
  refine h.invariant (fun x => inv x.1 ∧ measure x.1 + k = measure s + x.2) ?_ ⟨hs, rfl⟩
  rintro x a y ⟨hinv, hcount⟩ hok hy
  obtain ⟨u, hu, rfl⟩ := Option.map_eq_some_iff.mp hy
  obtain ⟨hinv', hmeasure⟩ := hstep _ _ _ hinv hok hu
  exact ⟨hinv', by simp only; omega⟩

end RobotFactory.TransitionSystem
