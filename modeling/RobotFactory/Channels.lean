import Mathlib.Data.List.Basic

/-!
# Two programs on two streams

Two deterministic programs are connected by a stream in each direction. A program
writes cells, waits until a number of cells is there, or has stopped. A step of one of
them takes nothing away that the other one needs, so that the steps of the two commute,
and all interleavings lead to the same state after the same number of steps.
-/
namespace RobotFactory.Channels

section Commuting

variable {σ α : Type*}

/-- `Steps step n s t`: the state `t` is reached from `s` in `n` steps. -/
inductive Steps (step : σ → α → Option σ) : ℕ → σ → σ → Prop where
  | refl (s : σ) : Steps step 0 s s
  | head {n : ℕ} {s t u : σ} {a : α} : step s a = some t → Steps step n t u → Steps step (n + 1) s u

theorem Steps.trans {step : σ → α → Option σ} {m n : ℕ} {s t u : σ} (h : Steps step m s t)
    (h' : Steps step n t u) : Steps step (m + n) s u := by
  induction h with
  | refl s => rwa [Nat.zero_add]
  | head hstep _ ih =>
    rw [Nat.add_right_comm]
    exact .head hstep (ih h')

theorem Steps.one {step : σ → α → Option σ} {s t : σ} {a : α} (h : step s a = some t) :
    Steps step 1 s t :=
  .head h (.refl t)

def Stuck (step : σ → α → Option σ) (s : σ) : Prop := ∀ a, step s a = none

/-- Different steps from one state can be made up for by each other. -/
def Commutes (step : σ → α → Option σ) : Prop :=
  ∀ s a b t u, a ≠ b → step s a = some t → step s b = some u →
    ∃ v, step t b = some v ∧ step u a = some v

theorem Steps.after {step : σ → α → Option σ} (hcomm : Commutes step) {n : ℕ} {s t f : σ} {a : α}
    (h : Steps step n s f) (hf : Stuck step f) (hstep : step s a = some t) :
    ∃ k, n = k + 1 ∧ Steps step k t f := by
  induction h generalizing t with
  | refl s =>
    rw [hf a] at hstep
    cases hstep
  | @head n s u f b hfirst hrest ih =>
    by_cases hab : a = b
    · subst hab
      obtain rfl := Option.some.inj (hfirst.symm.trans hstep)
      exact ⟨n, rfl, hrest⟩
    · obtain ⟨v, hv, hv'⟩ := hcomm s a b t u hab hstep hfirst
      obtain ⟨k, rfl, hmore⟩ := ih hf hv'
      exact ⟨k + 1, rfl, .head hv hmore⟩

/-- If some run ends in a stuck state, every run can be continued to it, and in all of
them it is reached after the same number of steps. -/
theorem Steps.confluent {step : σ → α → Option σ} (hcomm : Commutes step) {n m : ℕ} {s t f : σ}
    (h : Steps step n s f) (hf : Stuck step f) (hrun : Steps step m s t) :
    m ≤ n ∧ Steps step (n - m) t f := by
  induction hrun generalizing n with
  | refl s => exact ⟨Nat.zero_le n, h⟩
  | @head m s u t a hfirst _ ih =>
    obtain ⟨k, rfl, hmore⟩ := h.after hcomm hf hfirst
    obtain ⟨hle, hsteps⟩ := ih hmore
    exact ⟨Nat.succ_le_succ hle, by rwa [Nat.add_sub_add_right]⟩

/-- Every run can be continued to the stuck state `f`, and none is longer than the others. -/
def Settles (step : σ → α → Option σ) (s f : σ) : Prop :=
  Stuck step f ∧ ∃ n, ∀ m t, Steps step m s t → m ≤ n ∧ Steps step (n - m) t f

/-- One run to a stuck state is enough. -/
theorem Steps.settles {step : σ → α → Option σ} (hcomm : Commutes step) {n : ℕ} {s f : σ}
    (h : Steps step n s f) (hf : Stuck step f) : Settles step s f :=
  ⟨hf, n, fun _ _ hrun => h.confluent hcomm hf hrun⟩

end Commuting

/-- What a program does next, with the state it goes on from. -/
inductive Call (β σ : Type*) where
  | send (cells : List β) (next : σ)
  | recv (n : ℕ) (next : List β → σ)
  | stop

/-- The states of two programs, and what is on the streams between them. -/
structure Pair (β σ τ : Type*) where
  left : σ
  right : τ
  toRight : List β
  toLeft : List β

inductive Side where
  | left
  | right
  deriving DecidableEq

section Programs

variable {β σ τ : Type*}

/-- The next call of a program that reads from one stream and writes to the other. -/
def advance (call : Call β σ) (input output : List β) : Option (σ × List β × List β) :=
  match call with
  | .send cells next => some (next, input, output ++ cells)
  | .recv n next =>
    if n ≤ input.length then some (next (input.take n), input.drop n, output) else none
  | .stop => none

/-- A call takes cells from the front of one stream and puts cells on the end of the
other one, whatever else is on them. -/
theorem advance_local {call : Call β σ} {input output rest out : List β} {s : σ}
    (h : advance call input output = some (s, rest, out)) :
    ∃ taken sent, input = taken ++ rest ∧ out = output ++ sent ∧
      ∀ more output', advance call (taken ++ more) output' = some (s, more, output' ++ sent) := by
  cases call with
  | send cells next =>
    cases h
    exact ⟨[], cells, rfl, rfl, fun _ _ => rfl⟩
  | recv n next =>
    simp only [advance, Option.ite_none_right_eq_some] at h
    obtain ⟨hle, heq⟩ := h
    cases heq
    have hlen : (input.take n).length = n := by
      rw [List.length_take]
      omega
    refine ⟨input.take n, [], (List.take_append_drop n input).symm, (List.append_nil _).symm,
      fun more output' => ?_⟩
    simp only [advance]
    rw [if_pos (by rw [List.length_append]; omega), List.take_left' hlen, List.drop_left' hlen,
      List.append_nil]
  | stop => cases h

def pairStep (p : σ → Call β σ) (q : τ → Call β τ) (u : Pair β σ τ) : Side → Option (Pair β σ τ)
  | .left => (advance (p u.left) u.toLeft u.toRight).map fun r => ⟨r.1, u.right, r.2.2, r.2.1⟩
  | .right => (advance (q u.right) u.toRight u.toLeft).map fun r => ⟨u.left, r.1, r.2.1, r.2.2⟩

variable {p : σ → Call β σ} {q : τ → Call β τ} {s : σ} {t : τ} {toRight toLeft : List β}

theorem pairStep_left_send {cells : List β} {next : σ} (h : p s = .send cells next) :
    pairStep p q ⟨s, t, toRight, toLeft⟩ .left = some ⟨next, t, toRight ++ cells, toLeft⟩ := by
  simp only [pairStep, h, advance, Option.map_some]

theorem pairStep_left_recv {n : ℕ} {next : List β → σ} (h : p s = .recv n next) {cells : List β}
    (hlen : cells.length = n) (toRight toLeft : List β) :
    pairStep p q ⟨s, t, toRight, cells ++ toLeft⟩ .left =
      some ⟨next cells, t, toRight, toLeft⟩ := by
  simp only [pairStep, h, advance]
  rw [if_pos (by rw [List.length_append]; omega), List.take_left' hlen, List.drop_left' hlen]
  rfl

theorem pairStep_right_send {cells : List β} {next : τ} (h : q t = .send cells next) :
    pairStep p q ⟨s, t, toRight, toLeft⟩ .right = some ⟨s, next, toRight, toLeft ++ cells⟩ := by
  simp only [pairStep, h, advance, Option.map_some]

theorem pairStep_right_recv {n : ℕ} {next : List β → τ} (h : q t = .recv n next) {cells : List β}
    (hlen : cells.length = n) (toRight toLeft : List β) :
    pairStep p q ⟨s, t, cells ++ toRight, toLeft⟩ .right =
      some ⟨s, next cells, toRight, toLeft⟩ := by
  simp only [pairStep, h, advance]
  rw [if_pos (by rw [List.length_append]; omega), List.take_left' hlen, List.drop_left' hlen]
  rfl

/-- A program that has stopped, or that waits on an empty stream, makes no step. -/
theorem pairStep_left_eq_none
    (h : p s = .stop ∨ ∃ n next, p s = .recv (n + 1) next ∧ toLeft = []) :
    pairStep p q ⟨s, t, toRight, toLeft⟩ .left = none := by
  rcases h with h | ⟨n, next, h, rfl⟩ <;> simp [pairStep, h, advance]

theorem pairStep_right_eq_none
    (h : q t = .stop ∨ ∃ n next, q t = .recv (n + 1) next ∧ toRight = []) :
    pairStep p q ⟨s, t, toRight, toLeft⟩ .right = none := by
  rcases h with h | ⟨n, next, h, rfl⟩ <;> simp [pairStep, h, advance]

theorem pairStep_commutes (p : σ → Call β σ) (q : τ → Call β τ) : Commutes (pairStep p q) := by
  have hboth (u v w : Pair β σ τ) (hl : pairStep p q u .left = some v)
      (hr : pairStep p q u .right = some w) :
      ∃ x, pairStep p q v .right = some x ∧ pairStep p q w .left = some x := by
    simp only [pairStep, Option.map_eq_some_iff, Prod.exists] at hl hr
    obtain ⟨s, rest, out, hl, rfl⟩ := hl
    obtain ⟨t, rest', out', hr, rfl⟩ := hr
    obtain ⟨taken, sent, hinput, rfl, hlocal⟩ := advance_local hl
    obtain ⟨taken', sent', hinput', rfl, hlocal'⟩ := advance_local hr
    refine ⟨⟨s, t, rest' ++ sent, rest ++ sent'⟩, ?_, ?_⟩
    · simp only [pairStep, hinput', List.append_assoc, hlocal', Option.map_some]
    · simp only [pairStep, hinput, List.append_assoc, hlocal, Option.map_some]
  intro u a b v w hne hv hw
  cases a <;> cases b
  · exact absurd rfl hne
  · exact hboth u v w hv hw
  · obtain ⟨x, hx, hx'⟩ := hboth u w v hw hv
    exact ⟨x, hx', hx⟩
  · exact absurd rfl hne

end Programs

end RobotFactory.Channels
