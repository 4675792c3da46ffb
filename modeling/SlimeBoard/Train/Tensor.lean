import SlimeBoard.Parallel.Gather

/-!
# Tensor operations

A vector is a list and a tensor of shape `[B, T]` is a row of length `T` for each of `B`
samples. An operation on tensors of other shapes raises `RuntimeError`.
-/

namespace SlimeBoard

section Vectors

variable {α β γ : Type}

/-- An elementwise operation on vectors of one length, or of which one has a single entry. -/
def broadcast (f : α → β → γ) (xs : List α) (ys : List β) : Py (List γ) :=
  if xs.length = ys.length then .ok (List.zipWith f xs ys)
  else
    match xs, ys with
    | xs, [y] => .ok (xs.map fun x => f x y)
    | [x], ys => .ok (ys.map (f x))
    | _, _ => .error .runtimeError

theorem broadcast_eq (f : α → β → γ) {xs : List α} {ys : List β} (same : xs.length = ys.length) :
    broadcast f xs ys = .ok (List.zipWith f xs ys) := if_pos same

/-- `xs[i]` -/
def torchItem (xs : List α) (i : Nat) : Py α :=
  match xs[i]? with
  | some x => .ok x
  | none => .error .indexError

theorem torchItem_eq [Zero α] {xs : List α} {i : Nat} (inside : i < xs.length) : torchItem xs i = .ok (xs.getD i 0) := by
  unfold torchItem
  rw [List.getD_eq_getElem?_getD, List.getElem?_eq_getElem inside]
  rfl

/-- `row[:length] = xs` for a row of `width` zeros. -/
def assignRow [Zero α] (width length : Nat) (xs : List α) : Py (List α) :=
  if xs.length = length then .ok (xs ++ List.replicate (width - length) 0)
  else
    match xs with
    | [x] => .ok (List.replicate length x ++ List.replicate (width - length) 0)
    | _ => .error .runtimeError

theorem assignRow_eq [Zero α] (width : Nat) {length : Nat} {xs : List α} (same : xs.length = length) :
    assignRow width length xs = .ok (xs ++ List.replicate (width - length) 0) := if_pos same

theorem getD_append_zeros [Zero α] (xs : List α) (k i : Nat) : (xs ++ List.replicate k 0).getD i 0 = xs.getD i 0 := by
  rw [List.getD_eq_getElem?_getD, List.getD_eq_getElem?_getD, List.getElem?_append]
  split
  · rfl
  · rename_i outside
    rw [List.getElem?_eq_none (Nat.not_lt.1 outside), List.getElem?_replicate]
    split
    · rfl
    · rfl

theorem getD_beyond [Zero α] {xs : List α} {i : Nat} (outside : xs.length ≤ i) : xs.getD i 0 = 0 := by
  rw [List.getD_eq_getElem?_getD, List.getElem?_eq_none outside]
  rfl

end Vectors

section Rows

variable {α : Type} {B : Nat}

/-- `x[:, t]` -/
def column [Zero α] (x : Fin B → List α) (t : Nat) : Fin B → α := fun b => (x b).getD t 0

/-- `torch.stack(columns, dim=1)` -/
def stack (columns : List (Fin B → α)) : Py (Fin B → List α) :=
  if columns = [] then .error .runtimeError else .ok fun b => columns.map fun c => c b

/-- `max(xs)` over the samples of a batch. -/
def pyMax (xs : Fin B → Nat) : Py Nat := if B = 0 then .error .valueError else .ok (Finset.univ.sup xs)

end Rows

end SlimeBoard
