import Mathlib

/-!
# A program with remote calls

A program submits remote calls and waits for their results. A submitted call finishes at
any time; a wait goes on only when its call has finished. Some actions of the program need
all calls to be finished. A static pass over the program checks that they are.
-/

namespace Futures

/-- An action of the program, for calls with indices in `ι`. -/
inductive Act (ι β : Type) where
  | submit (i : ι)
  | get (i : ι)
  | act (b : β)

variable {ι β : Type}

/-- The rest of the program, and the calls submitted, finished and waited for. -/
structure Sys (ι β : Type) where
  todo : List (Act ι β)
  submitted : List ι
  finished : List ι
  consumed : List ι

def Sys.start (program : List (Act ι β)) : Sys ι β := ⟨program, [], [], []⟩

inductive Step : Sys ι β → Sys ι β → Prop where
  | finish (s : Sys ι β) (i : ι) (submitted : i ∈ s.submitted) (running : i ∉ s.finished) :
      Step s { s with finished := i :: s.finished }
  | submit (s : Sys ι β) (i : ι) (rest : List (Act ι β)) (next : s.todo = .submit i :: rest) :
      Step s { s with todo := rest, submitted := i :: s.submitted }
  | get (s : Sys ι β) (i : ι) (rest : List (Act ι β)) (next : s.todo = .get i :: rest) (done : i ∈ s.finished) :
      Step s { s with todo := rest, consumed := i :: s.consumed }
  | act (s : Sys ι β) (b : β) (rest : List (Act ι β)) (next : s.todo = .act b :: rest) : Step s { s with todo := rest }

/-- The states that the program reaches, whenever its calls finish. -/
abbrev Reaches : Sys ι β → Sys ι β → Prop := Relation.ReflTransGen Step

/-- What is left is an end of the program. -/
theorem todo_suffix {program : List (Act ι β)} {s : Sys ι β} (run : Reaches (Sys.start program) s) :
    ∃ done, program = done ++ s.todo := by
  induction run with
  | refl => exact ⟨[], rfl⟩
  | tail _ step ih =>
    obtain ⟨done, split⟩ := ih
    cases step with
    | finish i mem fresh => exact ⟨done, split⟩
    | submit i rest next => exact ⟨done ++ [.submit i], by rw [split, next, ← List.append_cons]⟩
    | get i rest next mem => exact ⟨done ++ [.get i], by rw [split, next, ← List.append_cons]⟩
    | act b rest next => exact ⟨done ++ [.act b], by rw [split, next, ← List.append_cons]⟩

section Checked

variable [DecidableEq ι] (quiet : β → Prop)

/-- From the calls submitted so far and those not waited for yet: every wait is for a
submitted call, a quiet action has none to wait for, and in the end there is none. -/
def Checked (submitted pending : List ι) : List (Act ι β) → Prop
  | [] => pending = []
  | .submit i :: rest => Checked (i :: submitted) (i :: pending) rest
  | .get i :: rest => i ∈ submitted ∧ Checked submitted (pending.filter (· ≠ i)) rest
  | .act b :: rest => (quiet b → pending = []) ∧ Checked submitted pending rest

/-- The calls not waited for yet are among the pending ones of the check. -/
structure Consistent (s : Sys ι β) (pending : List ι) : Prop where
  checked : Checked quiet s.submitted pending s.todo
  waiting : ∀ i ∈ s.submitted, i ∈ s.consumed ∨ i ∈ pending
  finished : ∀ i ∈ s.consumed, i ∈ s.finished

variable {quiet}

theorem Consistent.step {s s' : Sys ι β} {pending : List ι} (consistent : Consistent quiet s pending) (step : Step s s') :
    ∃ pending', Consistent quiet s' pending' := by
  obtain ⟨checked, waiting, finished⟩ := consistent
  cases step with
  | finish i submitted running =>
    exact ⟨pending, checked, waiting, fun j mem => List.mem_cons_of_mem _ (finished j mem)⟩
  | submit i rest next =>
    rw [next] at checked
    refine ⟨i :: pending, checked, fun j mem => ?_, finished⟩
    rcases List.mem_cons.1 mem with rfl | mem
    · exact Or.inr (List.mem_cons_self ..)
    · exact (waiting j mem).imp_right (List.mem_cons_of_mem _)
  | get i rest next done =>
    rw [next] at checked
    refine ⟨pending.filter (· ≠ i), checked.2, fun j mem => ?_, fun j mem => ?_⟩
    · by_cases same : j = i
      · exact Or.inl (same ▸ List.mem_cons_self ..)
      · exact (waiting j mem).imp (List.mem_cons_of_mem _) fun here => List.mem_filter.2 ⟨here, decide_eq_true same⟩
    · rcases List.mem_cons.1 mem with rfl | mem
      · exact done
      · exact finished j mem
  | act b rest next =>
    rw [next] at checked
    exact ⟨pending, checked.2, waiting, finished⟩

theorem Consistent.reaches {s s' : Sys ι β} {pending : List ι} (consistent : Consistent quiet s pending) (run : Reaches s s') :
    ∃ pending', Consistent quiet s' pending' := by
  induction run with
  | refl => exact ⟨pending, consistent⟩
  | tail _ step ih =>
    obtain ⟨_, consistent⟩ := ih
    exact consistent.step step

theorem consistent_of_reaches {program : List (Act ι β)} {s : Sys ι β} (checked : Checked quiet [] [] program)
    (run : Reaches (Sys.start program) s) : ∃ pending, Consistent quiet s pending :=
  Consistent.reaches ⟨checked, fun _ mem => (List.not_mem_nil mem).elim, fun _ mem => (List.not_mem_nil mem).elim⟩ run

/-- **A quiet action comes when every submitted call has finished.** -/
theorem quiet_finished {program : List (Act ι β)} {s : Sys ι β} (checked : Checked quiet [] [] program)
    (run : Reaches (Sys.start program) s) {b : β} {rest : List (Act ι β)} (next : s.todo = .act b :: rest) (silent : quiet b) :
    ∀ i ∈ s.submitted, i ∈ s.finished := by
  obtain ⟨pending, consistent⟩ := consistent_of_reaches checked run
  have none : pending = [] := by
    have here := consistent.checked
    rw [next] at here
    exact here.1 silent
  intro i mem
  rcases consistent.waiting i mem with consumed | waiting
  · exact consistent.finished i consumed
  · rw [none] at waiting
    cases waiting

/-- **When the program ends, every submitted call has been waited for.** -/
theorem all_consumed {program : List (Act ι β)} {s : Sys ι β} (checked : Checked quiet [] [] program)
    (run : Reaches (Sys.start program) s) (ended : s.todo = []) : ∀ i ∈ s.submitted, i ∈ s.consumed := by
  obtain ⟨pending, consistent⟩ := consistent_of_reaches checked run
  have none : pending = [] := by
    have here := consistent.checked
    rwa [ended] at here
  intro i mem
  rcases consistent.waiting i mem with consumed | waiting
  · exact consumed
  · rw [none] at waiting
    cases waiting

/-- **The program is never stuck**: its next action can run, or the call it waits for can finish. -/
theorem not_stuck {program : List (Act ι β)} {s : Sys ι β} (checked : Checked quiet [] [] program)
    (run : Reaches (Sys.start program) s) (more : s.todo ≠ []) : ∃ s', Step s s' := by
  obtain ⟨pending, consistent⟩ := consistent_of_reaches checked run
  have here := consistent.checked
  cases next : s.todo with
  | nil => exact absurd next more
  | cons a rest =>
    cases a with
    | submit i => exact ⟨_, .submit s i rest next⟩
    | get i =>
      rw [next] at here
      by_cases done : i ∈ s.finished
      · exact ⟨_, .get s i rest next done⟩
      · exact ⟨_, .finish s i here.1 done⟩
    | act b => exact ⟨_, .act s b rest next⟩

/-- Every point of the program is reached. -/
theorem reaches_split {program rest : List (Act ι β)} (checked : Checked quiet [] [] program) (done : List (Act ι β))
    (split : program = done ++ rest) : ∃ s, Reaches (Sys.start program) s ∧ s.todo = rest := by
  induction done using List.reverseRecOn generalizing rest with
  | nil => exact ⟨_, .refl, split⟩
  | append_singleton done a ih =>
    rw [List.append_assoc] at split
    obtain ⟨s, run, next⟩ := ih split
    have next : s.todo = a :: rest := next
    cases a with
    | submit i => exact ⟨_, run.tail (.submit s i rest next), rfl⟩
    | act b => exact ⟨_, run.tail (.act s b rest next), rfl⟩
    | get i =>
      by_cases finished : i ∈ s.finished
      · exact ⟨_, run.tail (.get s i rest next finished), rfl⟩
      · obtain ⟨pending, consistent⟩ := consistent_of_reaches checked run
        have here := consistent.checked
        rw [next] at here
        have finish := run.tail (.finish s i here.1 finished)
        exact ⟨_, finish.tail (.get _ i rest next (List.mem_cons_self ..)), rfl⟩

end Checked

end Futures
