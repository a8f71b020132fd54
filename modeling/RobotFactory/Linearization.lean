import Mathlib.Data.List.Basic
import Mathlib.Tactic

/-!
# Clients of a sequential object

Clients make requests to a service and get replies, each client one after the
other, while the service works on the requests of several clients at a time. A
history explains what the clients see when it is a run of a sequential object
whose requests and replies, client by client, are those that were made and given,
up to the request a client still waits for. A history only grows, so a request
that was answered before another one was made precedes it in every history.
-/
namespace RobotFactory.Linearization

/-- An object that performs one request after the other. -/
structure Sequential (σ ω ρ : Type*) where
  init : σ
  perform : σ → ω → σ × ρ

/-- A request that has taken effect, with its client and the reply due to it. -/
structure Effect (κ ω ρ : Type*) where
  client : κ
  request : ω
  reply : ρ
  deriving DecidableEq, Repr

section Projections

variable {κ ω ρ : Type*} [DecidableEq κ]

def requestsOf (history : List (Effect κ ω ρ)) (c : κ) : List ω :=
  (history.filter fun x => x.client = c).map Effect.request

def repliesOf (history : List (Effect κ ω ρ)) (c : κ) : List ρ :=
  (history.filter fun x => x.client = c).map Effect.reply

@[simp] theorem requestsOf_nil (c : κ) : requestsOf ([] : List (Effect κ ω ρ)) c = [] := rfl

@[simp] theorem repliesOf_nil (c : κ) : repliesOf ([] : List (Effect κ ω ρ)) c = [] := rfl

@[simp] theorem requestsOf_append (history later : List (Effect κ ω ρ)) (c : κ) :
    requestsOf (history ++ later) c = requestsOf history c ++ requestsOf later c := by
  simp [requestsOf]

@[simp] theorem repliesOf_append (history later : List (Effect κ ω ρ)) (c : κ) :
    repliesOf (history ++ later) c = repliesOf history c ++ repliesOf later c := by
  simp [repliesOf]

theorem requestsOf_singleton (x : Effect κ ω ρ) (c : κ) :
    requestsOf [x] c = if x.client = c then [x.request] else [] := by
  by_cases h : x.client = c <;> simp [requestsOf, h]

theorem repliesOf_singleton (x : Effect κ ω ρ) (c : κ) :
    repliesOf [x] c = if x.client = c then [x.reply] else [] := by
  by_cases h : x.client = c <;> simp [repliesOf, h]

theorem length_repliesOf (history : List (Effect κ ω ρ)) (c : κ) :
    (repliesOf history c).length = (requestsOf history c).length := by
  simp [repliesOf, requestsOf]

end Projections

/-- The object performs the requests of a history in this order, with these
replies, and is left in the given state. -/
inductive Legal {κ σ ω ρ : Type*} (obj : Sequential σ ω ρ) : List (Effect κ ω ρ) → σ → Prop where
  | start : Legal obj [] obj.init
  | next {history : List (Effect κ ω ρ)} {state : σ} (c : κ) (request : ω)
      (h : Legal obj history state) :
      Legal obj (history ++ [⟨c, request, (obj.perform state request).2⟩])
        (obj.perform state request).1

theorem Legal.reply_eq {κ σ ω ρ : Type*} {obj : Sequential σ ω ρ}
    {before after : List (Effect κ ω ρ)} {x : Effect κ ω ρ} {state : σ}
    (h : Legal obj (before ++ x :: after) state) :
    ∃ mid, Legal obj before mid ∧ x.reply = (obj.perform mid x.request).2 := by
  generalize hhistory : before ++ x :: after = history at h
  induction h generalizing after with
  | start => simp at hhistory
  | next c request hlegal ih =>
    rcases List.eq_nil_or_concat after with rfl | ⟨rest, y, rfl⟩
    · obtain ⟨rfl, hx⟩ := List.append_inj' hhistory rfl
      cases hx
      exact ⟨_, hlegal, rfl⟩
    · rw [List.concat_eq_append, ← List.cons_append, ← List.append_assoc] at hhistory
      exact ih (List.append_inj' hhistory rfl).1

/-- Where a client stands: it waits for nothing, for its request to take effect,
or for a reply that is due. -/
inductive Phase (ω ρ : Type*) where
  | idle
  | requested (request : ω)
  | effected (reply : ρ)
  deriving DecidableEq, Repr

namespace Phase

variable {ω ρ : Type*}

def asked : Phase ω ρ → List ω
  | requested request => [request]
  | _ => []

def due : Phase ω ρ → List ρ
  | effected reply => [reply]
  | _ => []

@[simp] theorem asked_idle : (idle : Phase ω ρ).asked = [] := rfl

@[simp] theorem asked_requested (request : ω) :
    (requested request : Phase ω ρ).asked = [request] := rfl

@[simp] theorem asked_effected (reply : ρ) : (effected reply : Phase ω ρ).asked = [] := rfl

@[simp] theorem due_idle : (idle : Phase ω ρ).due = [] := rfl

@[simp] theorem due_requested (request : ω) : (requested request : Phase ω ρ).due = [] := rfl

@[simp] theorem due_effected (reply : ρ) : (effected reply : Phase ω ρ).due = [reply] := rfl

end Phase

/-- The history explains what the clients have asked and been told. -/
structure Explains {κ σ ω ρ : Type*} [DecidableEq κ] (obj : Sequential σ ω ρ)
    (history : List (Effect κ ω ρ)) (state : σ) (requests : κ → List ω) (replies : κ → List ρ)
    (phase : κ → Phase ω ρ) : Prop where
  legal : Legal obj history state
  requests_eq : ∀ c, requests c = requestsOf history c ++ (phase c).asked
  replies_eq : ∀ c, repliesOf history c = replies c ++ (phase c).due

namespace Explains

variable {κ σ ω ρ : Type*} [DecidableEq κ] {obj : Sequential σ ω ρ}
  {history : List (Effect κ ω ρ)} {state : σ} {requests : κ → List ω} {replies : κ → List ρ}
  {phase : κ → Phase ω ρ}

theorem start (obj : Sequential σ ω ρ) :
    Explains (κ := κ) obj [] obj.init (fun _ => []) (fun _ => []) (fun _ => .idle) :=
  ⟨.start, fun _ => rfl, fun _ => rfl⟩

theorem move (h : Explains obj history state requests replies phase) (c : κ) (asked : List ω)
    (told : List ρ) (x : Phase ω ρ) {history' : List (Effect κ ω ρ)} {state' : σ}
    (hlegal : Legal obj history' state')
    (hothers : ∀ d, d ≠ c → requestsOf history' d = requestsOf history d ∧
      repliesOf history' d = repliesOf history d)
    (hasked : asked = requestsOf history' c ++ x.asked)
    (htold : repliesOf history' c = told ++ x.due) :
    Explains obj history' state' (Function.update requests c asked)
      (Function.update replies c told) (Function.update phase c x) := by
  refine ⟨hlegal, fun d => ?_, fun d => ?_⟩ <;> by_cases heq : d = c
  · subst heq
    simpa using hasked
  · simpa [heq, (hothers d heq).1] using h.requests_eq d
  · subst heq
    simpa using htold
  · simpa [heq, (hothers d heq).2] using h.replies_eq d

/-- A client makes its next request. -/
theorem invoke (h : Explains obj history state requests replies phase) {c : κ} (request : ω)
    (hidle : phase c = .idle) :
    Explains obj history state (Function.update requests c (requests c ++ [request])) replies
      (Function.update phase c (.requested request)) := by
  have hreq := h.requests_eq c
  have hrep := h.replies_eq c
  rw [hidle] at hreq hrep
  simpa using h.move c (requests c ++ [request]) (replies c) (.requested request) h.legal
    (fun _ _ => ⟨rfl, rfl⟩) (by simpa using hreq) (by simpa using hrep)

/-- The request of a client takes effect. -/
theorem effect (h : Explains obj history state requests replies phase) {c : κ} {request : ω}
    (hphase : phase c = .requested request) :
    Explains obj (history ++ [⟨c, request, (obj.perform state request).2⟩])
      (obj.perform state request).1 requests replies
      (Function.update phase c (.effected (obj.perform state request).2)) := by
  have hreq := h.requests_eq c
  have hrep := h.replies_eq c
  rw [hphase] at hreq hrep
  have hothers (d : κ) (hne : d ≠ c) :
      requestsOf (history ++ [⟨c, request, (obj.perform state request).2⟩]) d =
        requestsOf history d ∧
      repliesOf (history ++ [⟨c, request, (obj.perform state request).2⟩]) d =
        repliesOf history d := by
    simp [requestsOf_singleton, repliesOf_singleton, Ne.symm hne]
  simpa using h.move c (requests c) (replies c) (.effected (obj.perform state request).2)
    (h.legal.next c request) hothers (by simpa [requestsOf_singleton] using hreq)
    (by simpa [repliesOf_singleton] using hrep)

theorem respond (h : Explains obj history state requests replies phase) {c : κ} {reply : ρ}
    (hphase : phase c = .effected reply) :
    Explains obj history state requests (Function.update replies c (replies c ++ [reply]))
      (Function.update phase c .idle) := by
  have hreq := h.requests_eq c
  have hrep := h.replies_eq c
  rw [hphase] at hreq hrep
  simpa using h.move c (requests c) (replies c ++ [reply]) .idle h.legal
    (fun _ _ => ⟨rfl, rfl⟩) (by simpa using hreq) (by simpa using hrep)

/-- A request that takes effect and is answered at once. -/
theorem perform (h : Explains obj history state requests replies phase) {c : κ} (request : ω)
    (hidle : phase c = .idle) :
    Explains obj (history ++ [⟨c, request, (obj.perform state request).2⟩])
      (obj.perform state request).1 (Function.update requests c (requests c ++ [request]))
      (Function.update replies c (replies c ++ [(obj.perform state request).2])) phase := by
  have hdone := ((h.invoke request hidle).effect (Function.update_self ..)).respond
    (Function.update_self ..)
  simpa [← hidle] using hdone

/-- The replies given to a client are those due to it, in order, but for the last. -/
theorem replies_prefix (h : Explains obj history state requests replies phase) (c : κ) :
    replies c <+: repliesOf history c :=
  h.replies_eq c ▸ List.prefix_append _ _

theorem requestsOf_prefix (h : Explains obj history state requests replies phase) (c : κ) :
    requestsOf history c <+: requests c :=
  h.requests_eq c ▸ List.prefix_append _ _

theorem length_requests (h : Explains obj history state requests replies phase) (c : κ) :
    (requests c).length =
      (replies c).length + (phase c).asked.length + (phase c).due.length := by
  have hreq := congrArg List.length (h.requests_eq c)
  have hrep := congrArg List.length (h.replies_eq c)
  rw [List.length_append] at hreq hrep
  rw [length_repliesOf] at hrep
  omega

end Explains

end RobotFactory.Linearization
