import Mathlib

/-!
# Runs with a history

A system takes steps that emit events. Its history is the list of the events so far, the newest
first, and what must hold at an event is a statement about the history before it.
-/

namespace History

variable {σ α ε : Type}

/-- There was a `hit`, and since then every event is one to `keep`. -/
def Since (hit : ε → List ε → Prop) (keep : ε → Prop) : List ε → Prop
  | [] => False
  | e :: h => hit e h ∨ keep e ∧ Since hit keep h

/-- At each event of the `kind`, the history before it meets `meets`. -/
def AtEach (kind : ε → Prop) (meets : List ε → Prop) : List ε → Prop
  | [] => True
  | e :: h => (kind e → meets h) ∧ AtEach kind meets h

/-- The states that a run can reach, with their histories, when each step is one that `ok` allows. -/
inductive Reach (start : σ → Prop) (step : σ → α → Option (σ × List ε)) (ok : σ → α → Prop) : σ → List ε → Prop where
  | start {s : σ} (initial : start s) : Reach start step ok s []
  | step {s s' : σ} {h events : List ε} {a : α} (before : Reach start step ok s h) (allowed : ok s a)
      (run : step s a = some (s', events)) : Reach start step ok s' (events ++ h)

variable {start : σ → Prop} {step : σ → α → Option (σ × List ε)} {ok : σ → α → Prop}

/-- **What holds at the start and is kept by every step holds in every state that is reached.** -/
theorem Reach.invariant {inv : σ → List ε → Prop} (init : ∀ s, start s → inv s [])
    (keep : ∀ s h a s' events, inv s h → ok s a → step s a = some (s', events) → inv s' (events ++ h)) {s : σ}
    {h : List ε} (reach : Reach start step ok s h) : inv s h := by
  induction reach with
  | start initial => exact init _ initial
  | step _ allowed run ih => exact keep _ _ _ _ _ ih allowed run

theorem since_keep {hit : ε → List ε → Prop} {keep : ε → Prop} {events h : List ε} (kept : ∀ e ∈ events, keep e)
    (since : Since hit keep h) : Since hit keep (events ++ h) := by
  induction events with
  | nil => exact since
  | cons e events ih =>
    obtain ⟨head, tail⟩ := List.forall_mem_cons.1 kept
    exact .inr ⟨head, ih tail⟩

/-- A run of given steps. -/
def run (step : σ → α → Option (σ × List ε)) : σ → List ε → List α → Option (σ × List ε)
  | s, h, [] => some (s, h)
  | s, h, a :: actions => (step s a).bind fun next => run step next.1 (next.2 ++ h) actions

/-- Every step of the run is one that `ok` allows. -/
def Along (step : σ → α → Option (σ × List ε)) (ok : σ → α → Prop) : σ → List α → Prop
  | _, [] => True
  | s, a :: actions => ok s a ∧ ∀ next ∈ step s a, Along step ok next.1 actions

instance decidableAlong [∀ s a, Decidable (ok s a)] : ∀ (s : σ) (actions : List α), Decidable (Along step ok s actions)
  | _, [] => isTrue trivial
  | s, a :: actions =>
    have (next : σ × List ε) : Decidable (Along step ok next.1 actions) := decidableAlong next.1 actions
    inferInstanceAs (Decidable (ok s a ∧ ∀ next ∈ step s a, Along step ok next.1 actions))

theorem along_true (s : σ) (actions : List α) : Along step (fun _ _ => True) s actions := by
  induction actions generalizing s with
  | nil => trivial
  | cons a actions ih => exact ⟨trivial, fun next _ => ih next.1⟩

theorem reach_of_run {s s' : σ} {h h' : List ε} {actions : List α} (reach : Reach start step ok s h)
    (along : Along step ok s actions) (runs : run step s h actions = some (s', h')) : Reach start step ok s' h' := by
  induction actions generalizing s h with
  | nil =>
    obtain ⟨rfl, rfl⟩ := Prod.mk.inj (Option.some.inj runs)
    exact reach
  | cons a actions ih =>
    obtain ⟨⟨next, events⟩, here, rest⟩ := Option.bind_eq_some_iff.1 runs
    exact ih (reach.step along.1 here) (along.2 _ here) rest

end History
