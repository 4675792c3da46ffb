import Mathlib

/-!
# Brackets with names

A list of marks opens and closes named brackets. `close` reads it with the stack of the brackets that
are open, and stops where one is closed that is not the innermost.
-/

namespace Brackets

variable {ι : Type}

inductive Mark (ι : Type) where
  | start (x : ι)
  | stop (x : ι)
  | other
  deriving DecidableEq

variable [DecidableEq ι] {marks marks' : List (Mark ι)} {r loc : List ι}

/-- The brackets open after the marks, the innermost first. -/
def close : List (Mark ι) → List ι → Option (List ι)
  | [], opened => some opened
  | .start x :: marks, opened => close marks (x :: opened)
  | .stop _ :: _, [] => none
  | .stop x :: marks, y :: opened => if x = y then close marks opened else none
  | .other :: marks, opened => close marks opened

/-- Every bracket is closed, the innermost first. -/
def Bracketed (marks : List (Mark ι)) : Prop := close marks [] = some []

theorem close_append (marks marks' : List (Mark ι)) (opened : List ι) :
    close (marks ++ marks') opened = (close marks opened).bind (close marks') := by
  induction marks generalizing opened with
  | nil => rfl
  | cons mark marks ih =>
    cases mark with
    | start x => exact ih (x :: opened)
    | other => exact ih opened
    | stop x =>
      cases opened with
      | nil => rfl
      | cons y opened =>
        rw [List.cons_append, close, close]
        split
        · exact ih opened
        · rfl

/-- **Brackets below that the marks do not close stay as they are.** -/
theorem close_frame {below : List ι} (apart : ∀ x ∈ below, .stop x ∉ marks) (loc : List ι) :
    close marks (loc ++ below) = (close marks loc).map (· ++ below) := by
  induction marks generalizing loc with
  | nil => rfl
  | cons mark marks ih =>
    have rest := ih fun x mem here => apart x mem (List.mem_cons_of_mem _ here)
    cases mark with
    | start x => exact rest (x :: loc)
    | other => exact rest loc
    | stop x =>
      cases loc with
      | cons y loc =>
        rw [List.cons_append, close, close]
        split
        · exact rest loc
        · rfl
      | nil =>
        cases below with
        | nil => rfl
        | cons y below =>
          have differ : x ≠ y := fun same => apart y (List.mem_cons_self ..) (same ▸ List.mem_cons_self ..)
          change (if x = y then _ else none) = none
          exact if_neg differ

/-- What is open after the marks was open before, or the marks opened it. -/
theorem mem_of_close (closed : close marks loc = some r) {x : ι} (mem : x ∈ r) : x ∈ loc ∨ .start x ∈ marks := by
  induction marks generalizing loc with
  | nil => exact .inl (Option.some.inj closed ▸ mem)
  | cons mark marks ih =>
    cases mark with
    | start y =>
      rcases ih closed with here | later
      · rcases List.mem_cons.1 here with rfl | here
        · exact .inr (List.mem_cons_self ..)
        · exact .inl here
      · exact .inr (List.mem_cons_of_mem _ later)
    | other => exact (ih closed).imp_right (List.mem_cons_of_mem _)
    | stop y =>
      cases loc with
      | nil => cases closed
      | cons z loc =>
        rw [close] at closed
        split at closed
        · exact (ih closed).imp (List.mem_cons_of_mem _) (List.mem_cons_of_mem _)
        · cases closed

/-- Each bracket that was opened is closed or still open, once for each time. -/
theorem count_of_close (closed : close marks loc = some r) (x : ι) :
    marks.count (.start x) + loc.count x = marks.count (.stop x) + r.count x := by
  induction marks generalizing loc with
  | nil => rw [Option.some.inj closed]; simp
  | cons mark marks ih =>
    cases mark with
    | start y =>
      have rest := ih closed
      by_cases same : y = x
      · subst same
        simp at rest ⊢
        omega
      · simp [same] at rest ⊢
        omega
    | other =>
      have rest := ih closed
      simp at rest ⊢
      omega
    | stop y =>
      cases loc with
      | nil => cases closed
      | cons z loc =>
        rw [close] at closed
        split at closed
        · rename_i same
          subst same
          have rest := ih closed
          by_cases here : y = x
          · subst here
            simp at rest ⊢
            omega
          · simp [here] at rest ⊢
            omega
        · cases closed

theorem close_starts (xs : List ι) (loc : List ι) : close (xs.map .start) loc = some (xs.reverse ++ loc) := by
  induction xs generalizing loc with
  | nil => rfl
  | cons x xs ih => rw [List.map_cons, close, ih, List.reverse_cons, List.append_assoc]; rfl

/-- Brackets that are closed in the order in which they were opened are bracketed if there is at most
one, and nothing is left open in it. -/
theorem close_stops_iff {xs : List ι} (nodup : xs.Nodup) (apart : ∀ x ∈ r, x ∉ xs) :
    close (xs.map .stop) (r ++ xs.reverse) = some [] ↔ r = [] ∧ xs.length ≤ 1 := by
  rcases xs with _ | ⟨x, _ | ⟨y, xs⟩⟩
  · simp [close]
  · cases r with
    | nil => simp [close]
    | cons z r =>
      have differ : x ≠ z := fun same => apart z (List.mem_cons_self ..) (by simp [same])
      simp [close, differ]
  · refine iff_of_false ?_ (by simp)
    cases r with
    | cons z r =>
      have differ : x ≠ z := fun same => apart z (List.mem_cons_self ..) (by simp [same])
      simp [close, differ]
    | nil =>
      have last : ∃ z rest, (x :: y :: xs).reverse = z :: rest ∧ z ≠ x := by
        have some : (y :: xs).reverse ≠ [] := by simp
        obtain ⟨z, rest, shape⟩ := List.exists_cons_of_ne_nil some
        refine ⟨z, rest ++ [x], by rw [List.reverse_cons, shape]; rfl, fun same => ?_⟩
        have mem : z ∈ y :: xs := List.mem_reverse.1 (shape ▸ List.mem_cons_self ..)
        exact (List.nodup_cons.1 nodup).1 (same ▸ mem)
      obtain ⟨z, rest, shape, differ⟩ := last
      rw [shape, List.nil_append, List.map_cons, close, if_neg (Ne.symm differ)]
      exact Option.some_ne_none _ ∘ Eq.symm

end Brackets
