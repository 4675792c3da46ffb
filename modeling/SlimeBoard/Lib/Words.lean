import Mathlib

/-!
# Cutting a list at given words

`split words s` is the list of the pieces between the words that a scan from the left finds in `s`,
with the words found between them. `Cut` says what such a list is, without the scan.
-/

namespace Words

variable {α : Type} {words : List (List α)} {s : List α} {segments : List (List α)}

/-- No word occurs in `text`. -/
def Clear (words : List (List α)) (text : List α) : Prop := ∀ w ∈ words, ¬w <:+: text

/-- **`segments` cuts `s`**: pieces clear of the words, with a word between two of them. -/
inductive Cut (words : List (List α)) : List α → List (List α) → Prop
  | last {text : List α} (clear : Clear words text) : Cut words text [text]
  | word {text w rest : List α} {segments : List (List α)} (clear : Clear words text) (mem : w ∈ words)
      (cut : Cut words rest segments) : Cut words (text ++ (w ++ rest)) (text :: w :: segments)

theorem Clear.nil (full : [] ∉ words) : Clear words [] := by
  intro w mem occurs
  rw [List.infix_nil] at occurs
  exact full (occurs ▸ mem)

theorem Clear.cons {c : α} {text rest : List α} (clear : Clear words text) (begins : text <+: rest)
    (none : ∀ w ∈ words, ¬w <+: c :: rest) : Clear words (c :: text) := by
  intro w mem occurs
  rcases List.infix_cons_iff.1 occurs with starts | later
  · exact none w mem (starts.trans ((List.prefix_cons_inj c).2 begins))
  · exact clear w mem later

/-- The pieces and the words make up the list again. -/
theorem Cut.flatten (cut : Cut words s segments) : segments.flatten = s := by
  induction cut with
  | last _ => simp
  | word _ _ _ ih => rw [List.flatten_cons, List.flatten_cons, ih]

/-- A letter before a cut, where no word begins, goes to the first piece. -/
theorem Cut.cons {c : α} (cut : Cut words s segments) (none : ∀ w ∈ words, ¬w <+: c :: s) :
    Cut words (c :: s) (segments.modifyHead (c :: ·)) := by
  cases cut with
  | last clear => exact .last (clear.cons (List.prefix_refl s) none)
  | word clear mem cut => exact .word (clear.cons (List.prefix_append ..) none) mem cut

variable [DecidableEq α]

/-- Splits what is left after skipping the letters of a word. -/
def splitFrom (words : List (List α)) : Nat → List α → List (List α)
  | _, [] => [[]]
  | skip + 1, _ :: rest => splitFrom words skip rest
  | 0, c :: rest =>
    match words.find? (· <+: c :: rest) with
    | some w => [] :: w :: splitFrom words (w.length - 1) rest
    | none => (splitFrom words 0 rest).modifyHead (c :: ·)

/-- The pieces of `s` and the words between them, where the first word that begins at a place counts. -/
def split (words : List (List α)) (s : List α) : List (List α) := splitFrom words 0 s

theorem splitFrom_cut (full : [] ∉ words) (skip : Nat) (s : List α) :
    Cut words (s.drop skip) (splitFrom words skip s) := by
  induction s generalizing skip with
  | nil =>
    rw [List.drop_nil, splitFrom]
    exact .last (Clear.nil full)
  | cons c rest ih =>
    cases skip with
    | succ skip => exact ih skip
    | zero =>
      rw [List.drop_zero, splitFrom]
      cases found : words.find? (· <+: c :: rest) with
      | none =>
        apply (ih 0).cons
        simpa using List.find?_eq_none.1 found
      | some w =>
        have mem : w ∈ words := List.mem_of_find?_eq_some found
        obtain ⟨tail, meets⟩ : w <+: c :: rest := by simpa using List.find?_some found
        have after : rest.drop (w.length - 1) = tail := by
          cases w with
          | nil => exact absurd mem full
          | cons a w =>
            obtain ⟨-, rfl⟩ := List.cons.inj meets
            simp
        have cut : Cut words ([] ++ (w ++ tail)) ([] :: w :: splitFrom words (w.length - 1) rest) :=
          .word (Clear.nil full) mem (after ▸ ih (w.length - 1))
        rwa [List.nil_append, meets] at cut

/-- **The scan cuts the list.** -/
theorem split_cut (full : [] ∉ words) (s : List α) : Cut words s (split words s) := splitFrom_cut full 0 s

end Words
