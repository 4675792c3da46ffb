import Mathlib

/-!
# Substrings, search and replacement

`old in s` is `old <:+: s`, `find old s` is where its first occurrence begins, and `replace old new s`
puts `new` for the occurrences of `old` that do not overlap, from the left. Where an inserted word
meets its surroundings, that no new occurrence arises is a check on the two words alone.
-/

namespace Substring

variable {α : Type}

/-- No occurrence of `old` touches `word`: none lies in it, ends in it or begins in it. -/
structure Apart (old word : List α) : Prop where
  inside : ¬old <:+: word
  ends : ∀ y ∈ old.tails, y ≠ [] → ¬y <+: word ∧ ¬word <+: y
  starts : ∀ x ∈ old.inits, x ≠ [] → ¬x <:+ word

/-- **Putting `word` between two pieces makes no new occurrence.** -/
theorem Apart.not_infix {old word before after : List α} (apart : Apart old word) (absent : ¬old <:+: before)
    (absent' : ¬old <:+: after) : ¬old <:+: before ++ (word ++ after) := by
  intro occurs
  rcases List.infix_append_iff_ne_nil.1 occurs with early | late | ⟨x, y, _, some, rfl, _, meets⟩
  · exact absent early
  · rcases List.infix_append_iff_ne_nil.1 late with inside | after' | ⟨x, y, some, _, rfl, begins, _⟩
    · exact apart.inside inside
    · exact absent' after'
    · exact apart.starts x ((List.mem_inits _ _).2 (List.prefix_append ..)) some begins
  · obtain ⟨short, long⟩ := apart.ends y ((List.mem_tails _ _).2 (List.suffix_append ..)) some
    exact (List.prefix_or_prefix_of_prefix meets (List.prefix_append word after)).elim short long

/-- An occurrence cannot begin before `old` where the first letter of `old` does not come again. -/
theorem not_prefix_append {a : α} {t before after : List α} (once : a ∉ t) (some : before ≠ [])
    (absent : ¬(a :: t) <:+: before) : ¬(a :: t) <+: before ++ ((a :: t) ++ after) := by
  intro starts
  rcases List.prefix_or_prefix_of_prefix starts (List.prefix_append before _) with whole | ⟨tail, same⟩
  · exact absent whole.isInfix
  · cases before with
    | nil => exact some rfl
    | cons b before =>
      obtain ⟨rfl, rfl⟩ := List.cons.inj (same : b :: (before ++ tail) = a :: t)
      cases tail with
      | nil => exact absent (by simp)
      | cons c tail =>
        have meets : (c :: tail) <+: (b :: (before ++ c :: tail)) ++ after :=
          (List.prefix_append_right_inj (b :: before)).1 starts
        obtain rfl : c = b := (List.cons_prefix_cons.1 meets).1
        exact once (by simp)

variable [DecidableEq α]

instance (old word : List α) : Decidable (Apart old word) :=
  decidable_of_iff
    (¬old <:+: word ∧ (∀ y ∈ old.tails, y ≠ [] → ¬y <+: word ∧ ¬word <+: y) ∧ ∀ x ∈ old.inits, x ≠ [] → ¬x <:+ word)
    ⟨fun ⟨inside, ends, starts⟩ => ⟨inside, ends, starts⟩, fun apart => ⟨apart.inside, apart.ends, apart.starts⟩⟩

/-- Replaces in what is left after skipping the letters of an occurrence. -/
def replaceFrom (old new : List α) : Nat → List α → List α
  | _, [] => []
  | skip + 1, _ :: rest => replaceFrom old new skip rest
  | 0, c :: rest =>
    if old <+: c :: rest then new ++ replaceFrom old new (old.length - 1) rest
    else c :: replaceFrom old new 0 rest

/-- `s.replace(old, new)`, for an `old` that is not empty. -/
def replace (old new s : List α) : List α := replaceFrom old new 0 s

theorem replaceFrom_skip (old new : List α) (skip : Nat) (s : List α) :
    replaceFrom old new skip s = replace old new (s.drop skip) := by
  induction s generalizing skip with
  | nil => cases skip <;> rfl
  | cons c rest ih =>
    cases skip with
    | zero => rfl
    | succ skip => exact ih skip

theorem replace_of_not_infix {old s : List α} (new : List α) (absent : ¬old <:+: s) : replace old new s = s := by
  induction s with
  | nil => rfl
  | cons c rest ih =>
    have here : ¬old <+: c :: rest := fun starts => absent starts.isInfix
    have later : ¬old <:+: rest := fun occurs => absent (occurs.trans (List.suffix_cons ..).isInfix)
    change (if old <+: c :: rest then _ else c :: replace old new rest) = c :: rest
    rw [if_neg here, ih later]

/-- The one occurrence is replaced. -/
theorem replace_splice {a : α} {t before after : List α} (new : List α) (once : a ∉ t)
    (absent : ¬(a :: t) <:+: before) (absent' : ¬(a :: t) <:+: after) :
    replace (a :: t) new (before ++ ((a :: t) ++ after)) = before ++ (new ++ after) := by
  induction before with
  | nil =>
    change (if (a :: t) <+: (a :: t) ++ after then new ++ replaceFrom (a :: t) new t.length (t ++ after) else _) = _
    rw [if_pos (List.prefix_append ..), replaceFrom_skip, List.drop_left, replace_of_not_infix new absent', List.nil_append]
  | cons c before ih =>
    have here : ¬(a :: t) <+: (c :: before) ++ ((a :: t) ++ after) := not_prefix_append once (List.cons_ne_nil c before) absent
    change (if (a :: t) <+: (c :: before) ++ _ then _ else c :: replace (a :: t) new (before ++ _)) = _
    rw [if_neg here, ih fun occurs => absent (occurs.trans (List.suffix_cons ..).isInfix), List.cons_append]

/-- `s.find(old)` -/
def find (old : List α) : List α → Option Nat
  | [] => if old = [] then some 0 else none
  | c :: rest => if old <+: c :: rest then some 0 else (find old rest).map (· + 1)

/-- `s.find(old, start)`, for an `old` that is not empty. -/
def findFrom (old s : List α) (start : Nat) : Option Nat := (find old (s.drop start)).map (start + ·)

theorem findFrom_append (old before s : List α) :
    findFrom old (before ++ s) before.length = (find old s).map (before.length + ·) := by
  rw [findFrom, List.drop_left]

theorem findFrom_append_add (old before s : List α) (start : Nat) :
    findFrom old (before ++ s) (before.length + start) = (findFrom old s start).map (before.length + ·) := by
  rw [findFrom, findFrom, List.drop_length_add_append, Option.map_map]
  congr 1
  funext n
  exact Nat.add_assoc ..

theorem prefix_of_find {old s : List α} {n : Nat} (found : find old s = some n) : old <+: s.drop n := by
  induction s generalizing n with
  | nil =>
    rw [find] at found
    split at found
    · rename_i empty
      exact empty ▸ List.nil_prefix
    · cases found
  | cons c rest ih =>
    rw [find] at found
    split at found
    · rename_i starts
      obtain rfl := Option.some.inj found
      exact starts
    · obtain ⟨m, later, rfl⟩ := Option.map_eq_some_iff.1 found
      exact ih later

/-- An occurrence in the first piece is found there, or one before it is. -/
theorem find_occurring {old before : List α} (after : List α) (occurs : old <:+: before) :
    ∃ n, find old (before ++ after) = some n ∧ n + old.length ≤ before.length := by
  induction before with
  | nil =>
    rw [List.infix_nil] at occurs
    subst occurs
    cases after with
    | nil => exact ⟨0, rfl, Nat.le_refl 0⟩
    | cons c after => exact ⟨0, by rw [List.nil_append, find, if_pos List.nil_prefix], Nat.le_refl 0⟩
  | cons c before ih =>
    rw [List.cons_append, find]
    by_cases here : old <+: c :: (before ++ after)
    · refine ⟨0, if_pos here, ?_⟩
      rw [Nat.zero_add]
      exact occurs.length_le
    · have later : old <:+: before := by
        rcases List.infix_cons_iff.1 occurs with starts | later
        · exact absurd (starts.trans (List.prefix_append (c :: before) after)) here
        · exact later
      obtain ⟨n, found, short⟩ := ih later
      refine ⟨n + 1, by rw [if_neg here, found]; rfl, ?_⟩
      rw [List.length_cons]
      omega

/-- An occurrence in the first piece is found without the second. -/
theorem find_append_occurring {old before : List α} (after : List α) (occurs : old <:+: before) :
    find old (before ++ after) = find old before := by
  induction before with
  | nil =>
    rw [List.infix_nil] at occurs
    subst occurs
    cases after with
    | nil => rfl
    | cons c after => exact if_pos List.nil_prefix
  | cons c before ih =>
    have longer (starts : old <+: c :: before) : old <+: c :: (before ++ after) :=
      starts.trans (List.prefix_append (c :: before) after)
    rw [List.cons_append, find, find]
    by_cases here : old <+: c :: before
    · rw [if_pos here, if_pos (longer here)]
    · have later := (List.infix_cons_iff.1 occurs).resolve_left here
      have absent : ¬old <+: c :: (before ++ after) := fun starts =>
        here (List.prefix_of_prefix_length_le starts (List.prefix_append (c :: before) after) occurs.length_le)
      rw [if_neg here, if_neg absent, ih later]

/-- The first occurrence is the one that follows a piece without any. -/
theorem find_append {a : α} {t before : List α} (after : List α) (once : a ∉ t) (absent : ¬(a :: t) <:+: before) :
    find (a :: t) (before ++ ((a :: t) ++ after)) = some before.length := by
  induction before with
  | nil => exact if_pos (List.prefix_append ..)
  | cons c before ih =>
    have here : ¬(a :: t) <+: (c :: before) ++ ((a :: t) ++ after) :=
      not_prefix_append once (List.cons_ne_nil c before) absent
    have rest := ih fun occurs => absent (occurs.trans (List.suffix_cons ..).isInfix)
    change (if (a :: t) <+: (c :: before) ++ _ then some 0 else (find (a :: t) (before ++ _)).map (· + 1)) = _
    rw [if_neg here, rest]
    rfl

end Substring
