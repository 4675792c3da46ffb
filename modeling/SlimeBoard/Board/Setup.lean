import SlimeBoard.Lib.Bimap
import SlimeBoard.Board.Engine

/-!
# The starting position

`init_layout` in closed form: which piece stands on the square of a slot, and
which row of the mask is its. A slot is a seat and an index into its layout.
-/

namespace SlimeBoard

abbrev Slot := Player × Fin 25

/-! ## Slots -/

/-- The turn of the loops of `init_layout` at which the slot is filled. -/
def slotIndex (t : Slot) : Nat := 25 * t.1.val + t.2.val

def slotOf (k : Nat) : Slot := (Fin.ofNat 4 (k / 25), Fin.ofNat 25 (k % 25))

theorem slotIndex_lt (t : Slot) : slotIndex t < 100 := by
  have := t.1.isLt
  have := t.2.isLt
  unfold slotIndex
  omega

theorem slotIndex_slotOf {k : Nat} (bound : k < 100) : slotIndex (slotOf k) = k := by
  simp only [slotIndex, slotOf, Fin.val_ofNat]
  omega

theorem slotOf_slotIndex (t : Slot) : slotOf (slotIndex t) = t := by
  have := t.1.isLt
  have := t.2.isLt
  refine Prod.ext (Fin.ext ?_) (Fin.ext ?_)
  · simp only [slotIndex, slotOf, Fin.val_ofNat]
    omega
  · simp only [slotIndex, slotOf, Fin.val_ofNat]
    omega

/-- The square of an index, relative to the home area. -/
def relPos (i : Fin 25) : Nat := layoutPositions.getD i.val 0

theorem relPos_lt : ∀ i, relPos i < 30 := by decide

theorem relPos_injective : Function.Injective relPos := by decide

def squareAt (t : Slot) : Pos := Fin.ofNat 129 (30 * t.1.val + relPos t.2)

theorem squareAt_val (t : Slot) : (squareAt t).val = 30 * t.1.val + relPos t.2 := by
  have := t.1.isLt
  have := relPos_lt t.2
  unfold squareAt
  rw [Fin.val_ofNat]
  omega

theorem squareAt_injective : Function.Injective squareAt := by
  intro t t' same
  have values := congrArg Fin.val same
  rw [squareAt_val, squareAt_val] at values
  have low := relPos_lt t.2
  have low' := relPos_lt t'.2
  refine Prod.ext (Fin.ext (by omega)) (relPos_injective (by omega))

/-- Pieces that start in a headquarters have no row. -/
def rowed (t : Slot) : Bool := decide (relPos t.2 ∉ [26, 28])

/-- The rows handed out in group `g` before turn `k`. -/
def rowsBefore (g : Fin 2) (k : Nat) : Nat :=
  (List.range k).countP fun j => decide (group (slotOf j).1 = g) && rowed (slotOf j)

def rowAt (t : Slot) : Nat := rowsBefore (group t.1) (slotIndex t)

theorem rowsBefore_succ (g : Fin 2) (k : Nat) : rowsBefore g (k + 1) =
    rowsBefore g k + if group (slotOf k).1 = g ∧ rowed (slotOf k) = true then 1 else 0 := by
  unfold rowsBefore
  rw [List.range_succ, List.countP_append, List.countP_singleton]
  simp

theorem rowsBefore_lt {g : Fin 2} {j k : Nat} (before : j < k) (same : group (slotOf j).1 = g)
    (row : rowed (slotOf j) = true) : rowsBefore g j < rowsBefore g k := by
  induction k with
  | zero => omega
  | succ k ih =>
    rw [rowsBefore_succ]
    by_cases last : j = k
    · subst last
      rw [if_pos ⟨same, row⟩]
      omega
    · have := ih (by omega)
      omega

section Pieces

variable (layout : Player → List Role)

def roleAt (t : Slot) : Role := (layout t.1).getD t.2.val 0

def pieceAt (t : Slot) : Piece := ⟨t.1, roleAt layout t, ((layout t.1).take t.2.val).count (roleAt layout t)⟩

/-- The loop of `init_layout` over all slots. -/
def placeSlot (s : Setup) (k : Nat) : Setup :=
  Setup.place (slotOf k).1 s (roleAt layout (slotOf k), relPos (slotOf k).2)

variable {layout} (full : ∀ p, (layout p).length = 25)
include full

theorem initLayout_eq : initLayout layout = (List.range 100).foldl (placeSlot layout) .empty := by
  have turns : List.range 100 = ([0, 1, 2, 3] : List Player).flatMap fun p =>
      (List.range 25).map fun i => 25 * p.val + i := by decide
  rw [turns, List.foldl_flatMap]
  unfold initLayout
  congr 1
  funext s p
  have zipped : (layout p).zip layoutPositions =
      (List.range 25).map fun i => (roleAt layout (slotOf (25 * p.val + i)), relPos (slotOf (25 * p.val + i)).2) := by
    refine List.ext_getElem ?_ ?_
    · rw [List.length_zip, full]
      simp [layoutPositions]
    · intro i bound bound'
      rw [List.length_map, List.length_range] at bound'
      have slot : slotOf (25 * p.val + i) = (p, ⟨i, bound'⟩) := slotOf_slotIndex (p, ⟨i, bound'⟩)
      have inside : i < (layout p).length := by rw [full]; exact bound'
      have inside' : i < layoutPositions.length := bound'
      rw [List.getElem_zip, List.getElem_map, List.getElem_range, slot]
      simp [roleAt, relPos, List.getD_eq_getElem?_getD, inside, inside']
  rw [zipped, List.foldl_map, List.foldl_map]
  refine List.foldl_ext _ _ _ fun s i mem => ?_
  have slot : slotOf (25 * p.val + i) = (p, ⟨i, List.mem_range.1 mem⟩) := slotOf_slotIndex (p, ⟨i, _⟩)
  rw [placeSlot, slot]

theorem layout_getElem? (t : Slot) : (layout t.1)[t.2.val]? = some (roleAt layout t) := by
  have inside : t.2.val < (layout t.1).length := by
    rw [full]
    exact t.2.isLt
  rw [roleAt, List.getD_eq_getElem?_getD, List.getElem?_eq_getElem inside, Option.getD_some]

theorem take_succ_count (t : Slot) (r : Role) : ((layout t.1).take (t.2.val + 1)).count r =
    ((layout t.1).take t.2.val).count r + if roleAt layout t = r then 1 else 0 := by
  rw [List.take_add_one, layout_getElem? full t, Option.toList_some, List.count_append, List.count_singleton]
  simp

/-- Pieces of different slots are different: equal roles are numbered upwards. -/
theorem pieceAt_injective : Function.Injective (pieceAt layout) := by
  have ordered : ∀ (p : Player) (i j : Fin 25), i < j → pieceAt layout (p, i) ≠ pieceAt layout (p, j) := by
    intro p i j less same
    rw [pieceAt, pieceAt, Piece.mk.injEq] at same
    obtain ⟨_, role, number⟩ := same
    have grows := take_succ_count full (p, i) (roleAt layout (p, i))
    rw [if_pos rfl] at grows
    have more : ((layout p).take (i.val + 1)).count (roleAt layout (p, i)) ≤
        ((layout p).take j.val).count (roleAt layout (p, i)) :=
      (List.take_sublist_take_left less).count_le _
    rw [← role] at number
    dsimp only at *
    omega
  rintro ⟨p, i⟩ ⟨p', j⟩ same
  have seat : p = p' := congrArg Piece.player same
  subst seat
  rcases lt_trichotomy i j with less | rfl | more
  · exact absurd same (ordered p i j less)
  · rfl
  · exact absurd same.symm (ordered p j i more)

end Pieces

/-! ## The loop -/

/-- The loop invariant: the slots before turn `k` are filled. -/
structure After (layout : Player → List Role) (k : Nat) (s : Setup) : Prop where
  counter : ∀ p r, (s.counter.lookup (p, r)).getD 0 = ((layout p).take (k - 25 * p.val)).count r
  linked : Dict.Linked s.pos2piece s.piece2pos
  placed : ∀ q x, s.pos2piece.lookup q = some x ↔ ∃ t, slotIndex t < k ∧ squareAt t = q ∧ pieceAt layout t = x
  numbered : ∀ g, Dict.Linked (s.action2piece g) (s.piece2action g)
  rows : ∀ g a x, (s.action2piece g).lookup a = some x ↔
    ∃ t, slotIndex t < k ∧ rowed t = true ∧ group t.1 = g ∧ rowAt t = a ∧ pieceAt layout t = x
  ids : ∀ g, s.actionIds g = rowsBefore g k

theorem after_empty (layout : Player → List Role) : After layout 0 .empty :=
  ⟨by simp [Setup.empty], Dict.linked_empty, by simp [Setup.empty], fun _ => Dict.linked_empty,
    by simp [Setup.empty], fun _ => rfl⟩

theorem slotIndex_succ {t t' : Slot} :
    slotIndex t' < slotIndex t + 1 ↔ slotIndex t' < slotIndex t ∨ t' = t := by
  constructor
  · intro less
    by_cases last : slotIndex t' = slotIndex t
    · exact Or.inr (by rw [← slotOf_slotIndex t', last, slotOf_slotIndex])
    · exact Or.inl (by omega)
  · rintro (less | rfl)
    · omega
    · omega

section Turn

variable {layout : Player → List Role} (full : ∀ p, (layout p).length = 25) {s : Setup} {t : Slot}
  (h : After layout (slotIndex t) s)
include full h

omit full in
theorem After.piece_eq :
    (⟨t.1, roleAt layout t, (s.counter.lookup (t.1, roleAt layout t)).getD 0⟩ : Piece) = pieceAt layout t := by
  have turn : slotIndex t - 25 * t.1.val = t.2.val := by
    unfold slotIndex
    omega
  rw [h.counter, turn]
  rfl

theorem After.counter_succ (p : Player) (r : Role) :
    ((s.counter.insert (t.1, roleAt layout t) ((s.counter.lookup (t.1, roleAt layout t)).getD 0 + 1)).lookup
      (p, r)).getD 0 = ((layout p).take (slotIndex t + 1 - 25 * p.val)).count r := by
  have turn : slotIndex t - 25 * t.1.val = t.2.val ∧ slotIndex t + 1 - 25 * t.1.val = t.2.val + 1 := by
    unfold slotIndex
    omega
  rw [Dict.lookup_insert]
  by_cases seat : p = t.1
  · subst seat
    rw [turn.2, take_succ_count full]
    by_cases role : r = roleAt layout t
    · rw [if_pos (by rw [role]), Option.getD_some, h.counter, turn.1, if_pos role.symm, role]
    · rw [if_neg fun same => role (congrArg Prod.snd same), h.counter, turn.1, if_neg (Ne.symm role),
        Nat.add_zero]
  · rw [if_neg fun same => seat (congrArg Prod.fst same), h.counter]
    have other : p.val ≠ t.1.val := fun same => seat (Fin.ext same)
    have inside := t.2.isLt
    by_cases before : p.val < t.1.val
    · have all : 25 ≤ slotIndex t - 25 * p.val := by
        unfold slotIndex
        omega
      rw [List.take_of_length_le (by rw [full]; omega), List.take_of_length_le (by rw [full]; omega)]
    · have none : slotIndex t + 1 - 25 * p.val = 0 := by
        unfold slotIndex
        omega
      rw [none, show slotIndex t - 25 * p.val = 0 by omega]

omit full in
theorem After.square_free : s.pos2piece.lookup (squareAt t) = none := by
  rw [Option.eq_none_iff_forall_ne_some]
  intro x found
  obtain ⟨t', less, same, _⟩ := (h.placed _ _).1 found
  rw [squareAt_injective same] at less
  exact Nat.lt_irrefl _ less

theorem After.piece_free : s.piece2pos.lookup (pieceAt layout t) = none := by
  rw [Option.eq_none_iff_forall_ne_some]
  intro q found
  obtain ⟨t', less, _, same⟩ := (h.placed _ _).1 ((h.linked _ _).2 found)
  rw [pieceAt_injective full same] at less
  exact Nat.lt_irrefl _ less

omit full in
theorem After.row_free : (s.action2piece (group t.1)).lookup (s.actionIds (group t.1)) = none := by
  rw [Option.eq_none_iff_forall_ne_some]
  intro x found
  obtain ⟨t', less, row, seat, number, _⟩ := (h.rows _ _ _).1 found
  have lower := rowsBefore_lt less (g := group t.1) (by rw [slotOf_slotIndex, seat]) (by rw [slotOf_slotIndex, row])
  rw [h.ids, rowAt, seat] at number
  omega

theorem After.piece_unnumbered : (s.piece2action (group t.1)).lookup (pieceAt layout t) = none := by
  rw [Option.eq_none_iff_forall_ne_some]
  intro a found
  obtain ⟨t', less, _, _, _, same⟩ := (h.rows _ _ _).1 ((h.numbered _ _ _).2 found)
  rw [pieceAt_injective full same] at less
  exact Nat.lt_irrefl _ less

/-- One turn of the loop. -/
theorem After.place : After layout (slotIndex t + 1)
    (Setup.place t.1 s (roleAt layout t, relPos t.2)) := by
  have placed : ∀ q x, (s.pos2piece.insert (squareAt t) (pieceAt layout t)).lookup q = some x ↔
      ∃ t', slotIndex t' < slotIndex t + 1 ∧ squareAt t' = q ∧ pieceAt layout t' = x := by
    intro q x
    simp only [slotIndex_succ, or_and_right, exists_or, exists_eq_left, ← h.placed]
    rw [Dict.lookup_insert]
    by_cases same : q = squareAt t
    · subst same
      rw [if_pos rfl, h.square_free]
      simp
    · rw [if_neg same]
      simp [Ne.symm same]
  have linked := h.linked.insert h.square_free (h.piece_free full)
  unfold Setup.place
  dsimp only
  rw [h.piece_eq]
  by_cases row : relPos t.2 ∈ [26, 28]
  · have unrowed : rowed t = false := by
      simp [rowed, row]
    rw [if_pos row]
    refine ⟨h.counter_succ full, linked, placed, h.numbered, ?_, ?_⟩
    · intro g a x
      simp only [slotIndex_succ, or_and_right, exists_or, exists_eq_left, unrowed, Bool.false_eq_true,
        false_and, or_false]
      exact h.rows g a x
    · intro g
      rw [rowsBefore_succ, slotOf_slotIndex, unrowed, if_neg (by simp), Nat.add_zero]
      exact h.ids g
  · have isRowed : rowed t = true := by
      simpa [rowed] using row
    rw [if_neg row]
    refine ⟨h.counter_succ full, linked, placed, ?_, ?_, ?_⟩
    · intro g
      dsimp only
      by_cases seat : g = group t.1
      · subst seat
        rw [Function.update_self, Function.update_self]
        exact (h.numbered _).insert h.row_free (h.piece_unnumbered full)
      · rw [Function.update_of_ne seat, Function.update_of_ne seat]
        exact h.numbered g
    · intro g a x
      simp only [slotIndex_succ, or_and_right, exists_or, exists_eq_left, isRowed, true_and, ← h.rows]
      by_cases seat : g = group t.1
      · subst seat
        rw [Function.update_self, Dict.lookup_insert, h.ids, rowAt]
        by_cases number : a = rowsBefore (group t.1) (slotIndex t)
        · rw [if_pos number, number, ← h.ids, h.row_free]
          simp
        · rw [if_neg number]
          simp [Ne.symm number]
      · rw [Function.update_of_ne seat]
        simp [Ne.symm seat]
    · intro g
      dsimp only
      rw [rowsBefore_succ, slotOf_slotIndex, isRowed]
      by_cases seat : g = group t.1
      · subst seat
        rw [Function.update_self, h.ids, if_pos ⟨rfl, rfl⟩]
      · rw [Function.update_of_ne seat, h.ids, if_neg fun both => seat both.1.symm, Nat.add_zero]

end Turn

/-- **`init_layout` fills every slot.** -/
theorem initLayout_spec {layout : Player → List Role} (full : ∀ p, (layout p).length = 25) :
    After layout 100 (initLayout layout) := by
  have turns : ∀ k ≤ 100, After layout k ((List.range k).foldl (placeSlot layout) .empty) := by
    intro k bound
    induction k with
    | zero => exact after_empty layout
    | succ k ih =>
      have index := slotIndex_slotOf (show k < 100 by omega)
      rw [List.range_succ, List.foldl_append]
      have before := ih (by omega)
      rw [← index] at before ⊢
      have after := before.place full
      rw [index] at after ⊢
      exact after
  rw [initLayout_eq full]
  exact turns 100 (Nat.le_refl _)

end SlimeBoard
