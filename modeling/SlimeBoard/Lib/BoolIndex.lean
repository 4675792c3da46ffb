import SlimeBoard.Lib.PyDict

/-!
# Indexing by a mask

`select` takes the entries of a vector where a mask is 1, `scatter` puts entries back
there. The `j`-th entry that is taken is the one at the `j`-th place of the mask.
-/

namespace BoolIndex

section Lists

variable {α β : Type}

/-- The entries where the mask is 1. -/
def select : List Nat → List α → List α
  | m :: mask, x :: xs => if m = 1 then x :: select mask xs else select mask xs
  | _, _ => []

/-- `ys` at the places where the mask is 1, and `fill` elsewhere. -/
def scatter (fill : α) : List Nat → List α → List α
  | [], _ => []
  | m :: mask, ys => if m = 1 then ys.headD fill :: scatter fill mask ys.tail else fill :: scatter fill mask ys

theorem length_select {mask : List Nat} {xs : List α} (whole : xs.length = mask.length) :
    (select mask xs).length = mask.count 1 := by
  induction mask generalizing xs with
  | nil => rfl
  | cons m mask ih =>
    obtain ⟨x, xs, rfl⟩ := List.exists_cons_of_length_eq_add_one whole
    have rest := ih (Nat.succ.inj whole)
    rw [select, List.count_cons]
    split
    · rename_i one
      simp [one, rest]
    · rename_i other
      simp [other, rest]

theorem length_scatter (fill : α) (mask : List Nat) (ys : List α) : (scatter fill mask ys).length = mask.length := by
  induction mask generalizing ys with
  | nil => rfl
  | cons m mask ih =>
    rw [scatter]
    split
    · rw [List.length_cons, List.length_cons, ih]
    · rw [List.length_cons, List.length_cons, ih]

theorem count_take_lt {mask : List Nat} {k : Nat} (one : mask[k]? = some 1) : (mask.take k).count 1 < mask.count 1 := by
  obtain ⟨inside, here⟩ := List.getElem?_eq_some_iff.1 one
  have whole := congrArg (List.count 1) (List.take_append_drop k mask)
  rw [List.drop_eq_getElem_cons inside, here, List.count_append, List.count_cons_self] at whole
  omega

theorem getElem?_scatter (fill : α) {mask : List Nat} {ys : List α} (whole : ys.length = mask.count 1) {k : Nat}
    (inside : k < mask.length) :
    (scatter fill mask ys)[k]? = if mask[k]? = some 1 then ys[(mask.take k).count 1]? else some fill := by
  induction mask generalizing ys k with
  | nil => cases inside
  | cons m mask ih =>
    rw [scatter]
    by_cases mine : m = 1
    · rw [if_pos mine]
      rw [mine, List.count_cons_self] at whole
      obtain ⟨y, ys, rfl⟩ := List.exists_cons_of_length_eq_add_one whole
      cases k with
      | zero =>
        rw [List.getElem?_cons_zero, List.getElem?_cons_zero, if_pos (congrArg some mine)]
        rfl
      | succ k =>
        rw [List.getElem?_cons_succ, List.getElem?_cons_succ, List.take_succ_cons, mine, List.count_cons_self,
          List.getElem?_cons_succ]
        exact ih (Nat.succ.inj whole) (Nat.lt_of_succ_lt_succ inside)
    · rw [if_neg mine]
      rw [List.count_cons_of_ne mine] at whole
      cases k with
      | zero => rw [List.getElem?_cons_zero, List.getElem?_cons_zero, if_neg (by simpa using mine)]
      | succ k =>
        rw [List.getElem?_cons_succ, List.getElem?_cons_succ, List.take_succ_cons, List.count_cons_of_ne mine]
        exact ih whole (Nat.lt_of_succ_lt_succ inside)

end Lists

end BoolIndex
