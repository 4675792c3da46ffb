import Mathlib

/-!
# Weighted totals over cells

Cells hold at most one item each. The total of a weight over all cells, and how
it changes when one cell is overwritten or when items are cleared away.
-/

namespace Tally

variable {ι α M : Type} [Fintype ι] [AddCommGroup M]

/-- The weight of everything that is held. -/
def total (w : ι → α → M) (cells : ι → Option α) : M := ∑ i, (cells i).elim 0 (w i)

variable {w : ι → α → M} {cells : ι → Option α}

/-- Overwriting one cell. -/
theorem total_update [DecidableEq ι] (i : ι) (c : Option α) :
    total w (Function.update cells i c) = total w cells - (cells i).elim 0 (w i) + c.elim 0 (w i) := by
  have pointwise : (fun j => (Function.update cells i c j).elim 0 (w j)) =
      Function.update (fun j => (cells j).elim 0 (w j)) i (c.elim 0 (w i)) := by
    funext j
    by_cases same : j = i
    · subst same
      simp only [Function.update_self]
    · simp only [Function.update_of_ne same]
  rw [total, total, pointwise, Finset.sum_update_of_mem (Finset.mem_univ i),
    Finset.sum_eq_add_sum_sdiff_singleton_of_mem (Finset.mem_univ i) (fun j => (cells j).elim 0 (w j))]
  abel

/-- Clearing away items is the same as weighing them nothing. -/
theorem total_filter (keep : α → Bool) :
    total w (fun i => (cells i).filter keep) = total (fun i a => if keep a then w i a else 0) cells := by
  refine Finset.sum_congr rfl fun i _ => ?_
  show ((cells i).filter keep).elim 0 (w i) = _
  cases held : cells i with
  | none => rfl
  | some a => cases kept : keep a <;> simp [Option.filter, kept]

theorem total_congr {w' : ι → α → M} (same : ∀ i a, cells i = some a → w i a = w' i a) :
    total w cells = total w' cells := by
  refine Finset.sum_congr rfl fun i _ => ?_
  cases held : cells i with
  | none => rfl
  | some a => exact same i a held

theorem total_eq_zero (nothing : ∀ i a, cells i = some a → w i a = 0) : total w cells = 0 := by
  refine Finset.sum_eq_zero fun i _ => ?_
  cases held : cells i with
  | none => rfl
  | some a => exact nothing i a held

theorem total_nonneg {w : ι → α → Int} (nonneg : ∀ i a, 0 ≤ w i a) : 0 ≤ total w cells := by
  refine Finset.sum_nonneg fun i _ => ?_
  cases cells i with
  | none => exact le_rfl
  | some a => exact nonneg i a

/-- Weights 0 and 1 count. -/
theorem total_card (counts : ι → α → Bool) :
    total (fun i a => if counts i a = true then (1 : Int) else 0) cells =
      (Finset.univ.filter fun i => (cells i).any (counts i) = true).card := by
  rw [Finset.card_filter, Nat.cast_sum]
  refine Finset.sum_congr rfl fun i _ => ?_
  cases cells i with
  | none => rfl
  | some a => simp

/-- Cells filled one by one from a list of different cells. -/
theorem total_of_image {σ : Type} [Fintype σ] (cell : σ → ι) (item : σ → α)
    (injective : Function.Injective cell)
    (filled : ∀ i a, cells i = some a ↔ ∃ s, cell s = i ∧ item s = a) :
    total w cells = ∑ s, w (cell s) (item s) := by
  have values : ∀ s, (cells (cell s)).elim 0 (w (cell s)) = w (cell s) (item s) := by
    intro s
    rw [(filled _ _).2 ⟨s, rfl, rfl⟩]
    rfl
  rw [total, ← Finset.sum_congr rfl fun s _ => values s]
  refine (Finset.sum_of_injOn cell injective.injOn (fun _ _ => Finset.mem_coe.2 (Finset.mem_univ _)) ?_
    fun _ _ => rfl).symm
  intro i _ outside
  cases held : cells i with
  | none => rfl
  | some a =>
    obtain ⟨s, same, _⟩ := (filled i a).1 held
    exact absurd ⟨s, Finset.mem_coe.2 (Finset.mem_univ s), same⟩ outside

/-- Cells in another order, with their items renamed. -/
theorem total_equiv {κ β : Type} [Fintype κ] (e : ι ≃ κ) (f : α → β) {w' : κ → β → M} (same : ∀ i a, w' (e i) (f a) = w i a) :
    total w' (fun k => (cells (e.symm k)).map f) = total w cells := by
  refine (Fintype.sum_equiv e _ _ fun i => ?_).symm
  dsimp only
  rw [e.symm_apply_apply]
  cases cells i with
  | none => rfl
  | some a => exact (same i a).symm

end Tally
