import SlimeBoard.Lib.Bimap
import SlimeBoard.Board.Moves

/-!
# The action masks

A row of the mask belongs to a piece. Refreshing a piece makes its row exact and
touches no other row. The rows that `update` leaves alone stay exact, because a
piece whose moves change is seen from a square that changed: a straight railway
path can be walked back, and the neighbour tables are symmetric.
-/

namespace SlimeBoard

open Radix

namespace Board

/-! ## What a change can influence -/

/-- `get_moves` from `d` meets the piece `z`. -/
def Noticed (sq : Squares) (d : Pos) (z : Piece) : Prop :=
  ∃ q, sq q = some z ∧ (Sees sq d q ∨ q ∈ nearbyBack d)

section Unnoticed

variable {sq sq' : Squares} {z : Piece} {pos : Pos}

/-- Along a straight path that was or is open, no square has changed. -/
theorem path_agrees (here : sq' pos = some z) (unnoticed : ∀ d, sq d ≠ sq' d → ¬ Noticed sq' d z) (π : List Pos)
    (straight : π = [] ∨ π ∈ (POS2STRAIGHT pos).paths)
    (opened : ∀ r ∈ π.dropLast, sq r = none ∨ sq' r = none) : ∀ r ∈ π, sq r = sq' r := by
  induction π using List.reverseRecOn with
  | nil => simp
  | append_singleton ρ d ih =>
    have path : ρ ++ [d] ∈ (POS2STRAIGHT pos).paths := straight.resolve_left (by simp)
    rw [List.dropLast_concat] at opened
    have before : ∀ r ∈ ρ, sq r = sq' r := by
      refine ih ?_ fun r mem => opened r (List.mem_of_mem_dropLast mem)
      by_cases empty : ρ = []
      · exact Or.inl empty
      · exact Or.inr (straight_prefixes path empty (List.prefix_append ρ [d]))
    have free : ∀ r ∈ ρ, sq' r = none := by
      intro r mem
      rcases opened r mem with h | h
      · rw [← before r mem, h]
      · exact h
    intro r mem
    rcases List.mem_append.1 mem with mem | mem
    · exact before r mem
    · rw [List.mem_singleton] at mem
      subst mem
      apply Classical.byContradiction
      intro changed
      apply unnoticed r changed
      exact ⟨pos, here, Or.inl ⟨ρ.reverse, straight_symm path, fun x mem => free x (List.mem_reverse.1 mem)⟩⟩

theorem sees_agrees (here : sq' pos = some z) (unnoticed : ∀ d, sq d ≠ sq' d → ¬ Noticed sq' d z) {q : Pos} :
    (Sees sq pos q ↔ Sees sq' pos q) ∧ (Sees sq pos q → sq q = sq' q) := by
  have agree : ∀ ρ, ρ ++ [q] ∈ (POS2STRAIGHT pos).paths → (∀ r ∈ ρ, sq r = none ∨ sq' r = none) →
      ∀ r ∈ ρ ++ [q], sq r = sq' r := by
    intro ρ path opened
    apply path_agrees here unnoticed (ρ ++ [q]) (Or.inr path)
    rw [List.dropLast_concat]
    exact opened
  refine ⟨⟨?_, ?_⟩, ?_⟩
  · rintro ⟨ρ, path, free⟩
    have same := agree ρ path fun r mem => Or.inl (free r mem)
    exact ⟨ρ, path, fun r mem => by rw [← same r (List.mem_append_left _ mem), free r mem]⟩
  · rintro ⟨ρ, path, free⟩
    have same := agree ρ path fun r mem => Or.inr (free r mem)
    exact ⟨ρ, path, fun r mem => by rw [same r (List.mem_append_left _ mem), free r mem]⟩
  · rintro ⟨ρ, path, free⟩
    exact agree ρ path (fun r mem => Or.inl (free r mem)) q (by simp)

theorem lands_agrees {attack : Piece → Bool} {q : Pos} (same : sq q = sq' q) :
    Lands sq attack q ↔ Lands sq' attack q := by
  unfold Lands
  rw [same]

/-- **A piece that no changed square notices keeps its moves**, unless it is an
engineer: the flood of an engineer turns corners. -/
theorem canMove_agrees (here : sq' pos = some z) (walker : z.role ≠ 9)
    (unnoticed : ∀ d, sq d ≠ sq' d → ¬ Noticed sq' d z) (q : Pos) :
    CanMove sq z pos q ↔ CanMove sq' z pos q := by
  have near : ∀ r ∈ nearby pos, sq r = sq' r := by
    intro r mem
    apply Classical.byContradiction
    intro changed
    exact unnoticed r changed ⟨pos, here, Or.inr ((square_facts pos).2.2.2.1 r mem)⟩
  obtain ⟨sees, target⟩ := sees_agrees here unnoticed (q := q)
  unfold CanMove RailTo
  rw [if_neg walker, if_neg walker]
  refine or_congr ?_ (or_congr ?_ (or_congr ?_ ?_))
  · rw [← sees]
    exact and_congr_right fun seen => lands_agrees (target seen)
  · exact and_congr_right fun mem => lands_agrees (near q (by simp [nearby, mem]))
  · exact and_congr_right fun mem => by rw [near q (by simp [nearby, mem])]
  · exact and_congr_right fun mem => lands_agrees (near q (by simp [nearby, mem]))

end Unnoticed

/-! ## Rows -/

/-- The square that bit `q` of a row of group `g` stands for. -/
def unview (g : Fin 2) (q : Pos) : Pos := if g = 1 then transformPosReverse q else q

theorem view_eq_iff {g : Fin 2} {p q : Pos} : view g p = q ↔ p = unview g q := by
  unfold view unview
  split
  · constructor
    · rintro rfl
      rw [reverse_transform]
    · rintro rfl
      rw [transform_reverse]
  · exact Iff.rfl

/-- The row `a` of the masks `M` tells the moves of `z` in the position of `b`. -/
def RowExact (b : Board) (M : Fin 2 → ActionMask) (z : Piece) (a : Nat) : Prop :=
  ∀ q : Pos, M (group z.player) (a * 129 + q.val) = true ↔
    ∃ pos, b.piece2pos.lookup z = some pos ∧
      CanMove (b.pos2piece.lookup ·) z pos (unview (group z.player) q)

/-- The action numbers never change: `action2piece` and `piece2action` are inverse,
the 46 rows of a group belong to its two seats, the first half to the first seat,
and every engineer with a row is listed. -/
structure Roster (b : Board) : Prop where
  linked : ∀ g, Dict.Linked (b.action2piece g) (b.piece2action g)
  bound : ∀ g z a, (b.piece2action g).lookup z = some a → group z.player = g ∧ a < 46 ∧
    (z.player.val < 2 ↔ a < 23)
  full : ∀ g a, a < 46 → ∃ z, (b.action2piece g).lookup a = some z
  engineers : ∀ z a, (b.piece2action (group z.player)).lookup z = some a → z.role = 9 →
    z ∈ b.engineerPieces z.player

/-- **The mask invariant**: mines have empty rows, and a living piece whose row is
not marked for a refresh, and which is no engineer, has an exact row. -/
structure Masked (b : Board) : Prop where
  mines : ∀ z a, (b.piece2action (group z.player)).lookup z = some a → z.role = 0 →
    ∀ q : Pos, b.actionMask (group z.player) (a * 129 + q.val) = false
  exact : ∀ z a, (b.piece2action (group z.player)).lookup z = some a → z.player ∉ b.deadPlayers →
    z.role ≠ 0 → z.role ≠ 9 → z ∉ b.influencedPieces z.player → b.RowExact b.actionMask z a

variable {b : Board} (ord : RailOrder)

theorem row_index {a : Nat} (q : Pos) : (a * 129 + q.val) / 129 = a := by
  have := q.isLt
  omega

/-- One refreshed row. -/
theorem refreshRow_spec (linked : Dict.Linked b.pos2piece b.piece2pos) {z : Piece} {a : Nat}
    (armed : z.role ≠ 0) (row : (b.piece2action (group z.player)).lookup z = some a) :
    ∃ M, refreshRow ord b z = .ok { b with actionMask := M } ∧ b.RowExact M z a ∧
      ∀ g i, (g ≠ group z.player ∨ i / 129 ≠ a) → M g i = b.actionMask g i := by
  have outside : ∀ i, i / 129 ≠ a → clearRow (b.actionMask (group z.player)) (a * 129) i =
      b.actionMask (group z.player) i := by
    intro i other
    unfold clearRow
    rw [if_neg]
    omega
  have cleared : ∀ q : Pos, clearRow (b.actionMask (group z.player)) (a * 129) (a * 129 + q.val) = false := by
    intro q
    have := q.isLt
    unfold clearRow
    rw [if_pos]
    omega
  have frame : ∀ mask : ActionMask, (∀ i, i / 129 ≠ a → mask i = b.actionMask (group z.player) i) →
      ∀ g i, (g ≠ group z.player ∨ i / 129 ≠ a) →
        Function.update b.actionMask (group z.player) mask g i = b.actionMask g i := by
    intro mask same g i other
    rw [Function.update_apply]
    split
    · rename_i sameGroup
      rw [sameGroup]
      exact same i (other.resolve_left fun differ => differ sameGroup)
    · rfl
  unfold refreshRow
  rw [if_neg armed]
  simp only [row]
  cases placed : b.piece2pos.lookup z with
  | none =>
    refine ⟨_, rfl, ?_, frame _ outside⟩
    intro q
    rw [Function.update_self, cleared q]
    simp [placed]
  | some pos =>
    obtain ⟨mv, run, _, found⟩ := pieceMoves_spec ord ((linked pos z).2 placed)
    simp only [run, Py.ok_bind]
    refine ⟨_, rfl, ?_, frame _ ?_⟩
    · intro q
      rw [Function.update_self]
      simp only [placed, Option.some.injEq, exists_eq_left']
      rw [← found, setBits, cleared q]
      simp only [List.mem_map, Nat.add_left_cancel_iff]
      have bit : (∃ p ∈ mv.positions, (view (group z.player) p).val = q.val) ↔
          unview (group z.player) q ∈ mv.positions := by
        constructor
        · rintro ⟨p, mem, same⟩
          rw [← view_eq_iff.1 (Fin.ext same)]
          exact mem
        · intro mem
          exact ⟨_, mem, congrArg Fin.val (view_eq_iff.2 rfl)⟩
      rw [← bit]
      split
      · rename_i hit
        simpa using hit
      · rename_i miss
        simpa using miss
    · intro i other
      rw [setBits, if_neg, outside i other]
      intro mem
      obtain ⟨p, _, same⟩ := List.mem_map.1 mem
      rw [← same, row_index] at other
      exact other rfl

theorem refreshRow_skip {z : Piece} (h : z.role = 0 ∨ (b.piece2action (group z.player)).lookup z = none) :
    refreshRow ord b z = .ok b := by
  unfold refreshRow
  split
  · rfl
  · rename_i armed
    simp only [h.resolve_left armed]
    rfl

/-- **Refreshing some pieces** makes their rows exact and leaves the other rows alone. -/
theorem updateMaskByPieces_spec (roster : b.Roster) (linked : Dict.Linked b.pos2piece b.piece2pos)
    (pieces : List Piece) :
    ∃ M, b.updateMaskByPieces ord pieces = .ok { b with actionMask := M } ∧
      (∀ z a, (b.piece2action (group z.player)).lookup z = some a → z.role ≠ 0 → z ∈ pieces → b.RowExact M z a) ∧
      ∀ z a, (b.piece2action (group z.player)).lookup z = some a → z.role = 0 ∨ z ∉ pieces →
        ∀ q : Pos, M (group z.player) (a * 129 + q.val) = b.actionMask (group z.player) (a * 129 + q.val) := by
  induction pieces generalizing b with
  | nil => exact ⟨b.actionMask, rfl, by simp, by simp⟩
  | cons z₀ pieces ih =>
    rw [updateMaskByPieces, List.foldlM_cons]
    by_cases idle : z₀.role = 0 ∨ (b.piece2action (group z₀.player)).lookup z₀ = none
    · obtain ⟨M, run, exact, frame⟩ := ih roster linked
      rw [refreshRow_skip ord idle, Py.ok_bind]
      refine ⟨M, run, ?_, ?_⟩
      · intro z a row armed mem
        rcases List.mem_cons.1 mem with rfl | mem
        · rw [idle.resolve_left armed] at row
          cases row
        · exact exact z a row armed mem
      · intro z a row other
        exact frame z a row (other.imp_right fun h mem => h (List.mem_cons_of_mem _ mem))
    · rw [not_or] at idle
      obtain ⟨a₀, row₀⟩ := Option.ne_none_iff_exists'.1 idle.2
      obtain ⟨M₁, run₁, exact₁, frame₁⟩ := refreshRow_spec ord linked idle.1 row₀
      obtain ⟨M, run, exact, frame⟩ := ih (b := { b with actionMask := M₁ }) ⟨roster.linked, roster.bound,
        roster.full, roster.engineers⟩ linked
      have others : ∀ z a, (b.piece2action (group z.player)).lookup z = some a → z ≠ z₀ →
          ∀ q : Pos, M₁ (group z.player) (a * 129 + q.val) = b.actionMask (group z.player) (a * 129 + q.val) := by
        intro z a row differ q
        apply frame₁
        rw [row_index]
        by_cases sameGroup : group z.player = group z₀.player
        · right
          rintro rfl
          rw [sameGroup] at row
          exact differ ((roster.linked _).symm.inj row row₀)
        · exact Or.inl sameGroup
      rw [run₁, Py.ok_bind]
      refine ⟨M, run, ?_, ?_⟩
      · intro z a row armed mem
        by_cases later : z ∈ pieces
        · exact exact z a row armed later
        · obtain rfl := (List.mem_cons.1 mem).resolve_right later
          intro q
          rw [frame z a row (Or.inr later) q]
          rw [row₀, Option.some.injEq] at row
          subst row
          exact exact₁ q
      · intro z a row other q
        have differ : z ≠ z₀ := by
          rintro rfl
          rcases other with mine | absent
          · exact idle.1 mine
          · exact absent (List.mem_cons_self ..)
        rw [frame z a row (other.imp_right fun h mem => h (List.mem_cons_of_mem _ mem)) q]
        exact others z a row differ q

/-! ## Marking pieces for a refresh -/

theorem influence_spec (pieces : List Piece) :
    ∃ I, b.influence pieces = { b with influencedPieces := I } ∧
      ∀ z, z ∈ b.influencedPieces z.player ∨ (z.role ≠ 0 ∧ z ∈ pieces) → z ∈ I z.player := by
  induction pieces generalizing b with
  | nil => exact ⟨b.influencedPieces, rfl, fun z h => h.resolve_right (by simp)⟩
  | cons y pieces ih =>
    rw [influence, List.foldl_cons]
    by_cases mine : y.role = 0
    · rw [if_pos mine]
      obtain ⟨I, run, covers⟩ := ih (b := b)
      refine ⟨I, run, fun z h => covers z (h.imp_right ?_)⟩
      rintro ⟨armed, mem⟩
      rcases List.mem_cons.1 mem with rfl | mem
      · exact absurd mine armed
      · exact ⟨armed, mem⟩
    · rw [if_neg mine]
      let I₁ := Function.update b.influencedPieces y.player ((b.influencedPieces y.player).insert y)
      have added : ∀ z, z ∈ b.influencedPieces z.player ∨ z = y → z ∈ I₁ z.player := by
        intro z h
        show z ∈ Function.update b.influencedPieces y.player _ z.player
        rw [Function.update_apply]
        split
        · rename_i same
          rw [List.mem_insert_iff, ← same]
          exact h.symm
        · rename_i differ
          refine h.resolve_right ?_
          rintro rfl
          exact differ rfl
      obtain ⟨I, run, covers⟩ := ih (b := { b with influencedPieces := I₁ })
      refine ⟨I, run, fun z h => covers z ?_⟩
      rcases h with h | ⟨armed, mem⟩
      · exact Or.inl (added z (Or.inl h))
      · rcases List.mem_cons.1 mem with rfl | mem
        · exact Or.inl (added z (Or.inr rfl))
        · exact Or.inr ⟨armed, mem⟩

/-- The pieces that the given squares notice are marked. -/
theorem influenceAround_spec (positions : List Pos) :
    ∃ I, positions.foldlM (fun (b : Board) pos => do
        let moves ← getMoves b.pos2piece pos
        return b.influence moves.pieces) b = .ok { b with influencedPieces := I } ∧
      ∀ z, z ∈ b.influencedPieces z.player ∨
        (z.role ≠ 0 ∧ ∃ d ∈ positions, Noticed (b.pos2piece.lookup ·) d z) → z ∈ I z.player := by
  induction positions generalizing b with
  | nil => exact ⟨b.influencedPieces, rfl, fun z h => h.resolve_right (by simp)⟩
  | cons d positions ih =>
    obtain ⟨mv, search, spec⟩ := @getMoves_spec b.pos2piece d
    obtain ⟨I₁, run₁, covers₁⟩ := @influence_spec b mv.pieces
    obtain ⟨I, run, covers⟩ := ih (b := { b with influencedPieces := I₁ })
    refine ⟨I, ?_, fun z h => covers z ?_⟩
    · rw [List.foldlM_cons, search, Py.ok_bind, run₁]
      exact run
    · rcases h with h | ⟨armed, e, mem, noticed⟩
      · exact Or.inl (covers₁ z (Or.inl h))
      · rcases List.mem_cons.1 mem with rfl | mem
        · obtain ⟨q, held, seen⟩ := noticed
          refine Or.inl (covers₁ z (Or.inr ⟨armed, (spec.pieces z).2 ⟨q, List.mem_append.2 ?_, held⟩⟩))
          exact seen.imp_left mem_straightVisits.2
        · exact Or.inr ⟨armed, e, mem, noticed⟩

/-- The given pieces and the pieces that the given squares notice are marked. -/
theorem updateInfluencedPieces_spec (pieces : List Piece) (positions : List Pos) :
    ∃ I, b.updateInfluencedPieces pieces positions = .ok { b with influencedPieces := I } ∧
      ∀ z, z ∈ b.influencedPieces z.player ∨
        (z.role ≠ 0 ∧ (z ∈ pieces ∨ ∃ d ∈ positions, Noticed (b.pos2piece.lookup ·) d z)) →
        z ∈ I z.player := by
  obtain ⟨I₁, run₁, covers₁⟩ := @influence_spec b pieces
  obtain ⟨I, run, covers⟩ := @influenceAround_spec { b with influencedPieces := I₁ } positions
  refine ⟨I, ?_, fun z h => covers z ?_⟩
  · rw [updateInfluencedPieces, run₁]
    exact run
  · rcases h with h | ⟨armed, h | h⟩
    · exact Or.inl (covers₁ z (Or.inl h))
    · exact Or.inl (covers₁ z (Or.inr ⟨armed, h⟩))
    · exact Or.inr ⟨armed, h⟩

/-! ## The invariant is kept -/

/-- A living seat's pieces that were not on the marked squares and are not noticed
from them keep their rows. -/
theorem masked_quiet {b b' : Board} (masked : b.Masked)
    (sameMask : b'.actionMask = b.actionMask) (sameRows : b'.piece2action = b.piece2action)
    (dead : ∀ p, p ∈ b.deadPlayers → p ∈ b'.deadPlayers)
    (linked : Dict.Linked b'.pos2piece b'.piece2pos)
    (marked : ∀ z, z ∈ b.influencedPieces z.player → z ∈ b'.influencedPieces z.player)
    (noticed : ∀ z, z.role ≠ 0 → ∀ d, b.pos2piece.lookup d ≠ b'.pos2piece.lookup d →
      Noticed (b'.pos2piece.lookup ·) d z → z ∈ b'.influencedPieces z.player)
    (moved : ∀ z, z.role ≠ 0 → b.piece2pos.lookup z ≠ b'.piece2pos.lookup z →
      z ∈ b'.influencedPieces z.player) :
    b'.Masked := by
  refine ⟨?_, ?_⟩
  · intro z a row
    rw [sameMask]
    rw [sameRows] at row
    exact masked.mines z a row
  · intro z a row living armed walker unmarked
    rw [sameRows] at row
    have still : b.piece2pos.lookup z = b'.piece2pos.lookup z := by
      apply Classical.byContradiction
      intro differ
      exact unmarked (moved z armed differ)
    intro q
    rw [sameMask, masked.exact z a row (fun h => living (dead _ h)) armed walker
      (fun h => unmarked (marked z h)) q, still]
    refine exists_congr fun pos => and_congr_right fun placed => ?_
    have here := (linked pos z).2 placed
    exact canMove_agrees here walker (fun d changed seen => unmarked (noticed z armed d changed seen)) _

/-- `update_mask` refreshes the pieces on the board, the marked and the deleted ones. -/
theorem updateMask_spec (roster : b.Roster) (linked : Dict.Linked b.pos2piece b.piece2pos)
    (delPieces : List Piece) :
    ∃ M, b.updateMask ord delPieces = .ok { b with actionMask := M, influencedPieces := fun _ => [] } ∧
      (∀ z a, (b.piece2action (group z.player)).lookup z = some a → z.role ≠ 0 →
        (∃ pos, b.piece2pos.lookup z = some pos) ∨ (∃ p, z ∈ b.influencedPieces p) ∨ z ∈ delPieces →
        b.RowExact M z a) ∧
      ∀ z a, (b.piece2action (group z.player)).lookup z = some a →
        z.role = 0 ∨ (b.piece2pos.lookup z = none ∧ (∀ p, z ∉ b.influencedPieces p) ∧ z ∉ delPieces) →
        ∀ q : Pos, M (group z.player) (a * 129 + q.val) = b.actionMask (group z.player) (a * 129 + q.val) := by
  obtain ⟨M, run, exact, frame⟩ := updateMaskByPieces_spec ord roster linked
    (b.piece2pos.keys ∪ (b.influencedPieces 0 ∪ b.influencedPieces 1 ∪ b.influencedPieces 2 ∪
      b.influencedPieces 3) ∪ delPieces)
  have influenced : ∀ z, (z ∈ b.influencedPieces 0 ∪ b.influencedPieces 1 ∪ b.influencedPieces 2 ∪
      b.influencedPieces 3) ↔ ∃ p, z ∈ b.influencedPieces p := by
    intro z
    simp only [List.mem_union_iff, Fin.exists_fin_succ, Fin.exists_fin_zero, or_false, or_assoc]
    rfl
  refine ⟨M, ?_, ?_, ?_⟩
  · rw [updateMask, run]
    rfl
  · intro z a row armed h
    apply exact z a row armed
    rw [List.mem_union_iff, List.mem_union_iff, influenced, Dict.mem_keys_iff]
    exact or_assoc.2 h
  · intro z a row h
    apply frame z a row
    refine h.imp_right ?_
    rintro ⟨absent, unmarked, undeleted⟩
    rw [List.mem_union_iff, List.mem_union_iff, influenced, Dict.mem_keys_iff]
    rintro ((⟨pos, placed⟩ | ⟨p, mem⟩) | mem)
    · rw [absent] at placed
      cases placed
    · exact unmarked p mem
    · exact undeleted mem

/-- After `update_mask` the invariant holds again, if the pieces of living seats
that have left the board were marked or are deleted. -/
theorem masked_sweep {b b' : Board} (masked : b.Masked) (roster : b'.Roster)
    (linked : Dict.Linked b'.pos2piece b'.piece2pos) (sameMask : b'.actionMask = b.actionMask)
    (sameRows : b'.piece2action = b.piece2action)
    (dead : ∀ p, p ∈ b.deadPlayers → p ∈ b'.deadPlayers)
    (marked : ∀ z, z.player ∉ b'.deadPlayers → z ∈ b.influencedPieces z.player →
      z ∈ b'.influencedPieces z.player)
    (delPieces : List Piece)
    (left : ∀ z, z.player ∉ b'.deadPlayers → b'.piece2pos.lookup z = none →
      b.piece2pos.lookup z = none ∨ z ∈ delPieces) :
    ∃ M, b'.updateMask ord delPieces = .ok { b' with actionMask := M, influencedPieces := fun _ => [] } ∧
      Masked { b' with actionMask := M, influencedPieces := fun _ => [] } := by
  obtain ⟨M, run, exact, frame⟩ := updateMask_spec ord roster linked delPieces
  refine ⟨M, run, ?_, ?_⟩
  · intro z a row mine q
    show M _ _ = false
    rw [frame z a row (Or.inl mine) q, sameMask]
    rw [sameRows] at row
    exact masked.mines z a row mine q
  · intro z a row living armed walker _
    show b'.RowExact M z a
    by_cases refreshed : (∃ pos, b'.piece2pos.lookup z = some pos) ∨ (∃ p, z ∈ b'.influencedPieces p) ∨
        z ∈ delPieces
    · exact exact z a row armed refreshed
    · rw [not_or, not_or, not_exists, not_exists] at refreshed
      obtain ⟨off, unmarked, undeleted⟩ := refreshed
      have off : b'.piece2pos.lookup z = none := Option.eq_none_iff_forall_ne_some.2 off
      have off' := (left z living off).resolve_right undeleted
      have row' := row
      rw [sameRows] at row'
      have before := masked.exact z a row' (fun h => living (dead _ h)) armed walker
        fun h => unmarked _ (marked z living h)
      intro q
      rw [frame z a row (Or.inr ⟨off, unmarked, undeleted⟩) q, sameMask, before q, off, off']
      simp

/-! ## Asking for the mask -/

theorem seatMask_iff {player : Player} {mask : ActionMask} {i : Nat} :
    seatMask player mask i = true ↔
      i = 5934 ∨ (i < 5934 ∧ (player.val < 2 ↔ i / 129 < 23) ∧ mask i = true) := by
  unfold seatMask
  dsimp only [Nat.reduceMul, Nat.reduceDiv]
  by_cases skip : i = 5934
  · simp [skip]
  · by_cases first : player.val < 2
    · by_cases low : i < 2967
      · have bound : i < 5934 ∧ i / 129 < 23 := by omega
        simp [skip, first, low, bound]
      · have beyond : ¬ i / 129 < 23 := by omega
        simp [skip, first, low, beyond]
    · by_cases high : 2967 ≤ i ∧ i < 5934
      · have beyond : ¬ i / 129 < 23 := by omega
        simp [skip, first, high, beyond]
      · have low : ¬ (i < 5934 ∧ 23 ≤ i / 129) := by omega
        rw [if_neg skip, if_neg first, if_neg high]
        simp only [Bool.false_eq_true, skip, first, false_or, false_iff, not_and]
        intro bound side
        exact absurd ⟨bound, Nat.le_of_not_lt fun h => side h⟩ low

/-- A seat is known by its group and its half. -/
theorem seat_eq : ∀ p p' : Player, group p = group p' → (p.val < 2 ↔ p'.val < 2) → p = p' := by decide

/-- **The mask returned to a living seat is exact**, and asking keeps the invariant. -/
theorem getActionMask_spec (roster : b.Roster) (linked : Dict.Linked b.pos2piece b.piece2pos)
    (masked : b.Masked) {player : Player} (living : player ∉ b.deadPlayers) :
    ∃ M I result, b.getActionMask ord player = .ok (some result, { b with actionMask := M, influencedPieces := I }) ∧
      Masked { b with actionMask := M, influencedPieces := I } ∧
      ∀ i, result i = true ↔ i = 5934 ∨ (i < 5934 ∧ ∃ z pos,
        (b.action2piece (group player)).lookup (i / 129) = some z ∧ z.player = player ∧ z.role ≠ 0 ∧
        b.piece2pos.lookup z = some pos ∧
        CanMove (b.pos2piece.lookup ·) z pos (unview (group player) (Fin.ofNat 129 (i % 129)))) := by
  obtain ⟨M, run, exact, frame⟩ := updateMaskByPieces_spec ord roster linked
    (b.influencedPieces player ∪ b.engineerPieces player)
  -- a row of this seat is refreshed or was exact
  have own : ∀ z a, (b.piece2action (group z.player)).lookup z = some a → z.player = player → z.role ≠ 0 →
      b.RowExact M z a := by
    intro z a row same armed
    by_cases refreshed : z ∈ b.influencedPieces player ∪ b.engineerPieces player
    · exact exact z a row armed refreshed
    · rw [List.mem_union_iff, not_or, ← same] at refreshed
      have walker : z.role ≠ 9 := fun engineer => refreshed.2 (roster.engineers z a row engineer)
      have before := masked.exact z a row (by rw [same]; exact living) armed walker refreshed.1
      intro q
      rw [frame z a row (Or.inr ?_) q, before q]
      rw [List.mem_union_iff, not_or, ← same]
      exact refreshed
  have mines : ∀ z a, (b.piece2action (group z.player)).lookup z = some a → z.role = 0 →
      ∀ q : Pos, M (group z.player) (a * 129 + q.val) = false := by
    intro z a row mine q
    rw [frame z a row (Or.inl mine) q]
    exact masked.mines z a row mine q
  refine ⟨M, Function.update b.influencedPieces player [], seatMask player (M (group player)), ?_,
    ⟨mines, ?_⟩, ?_⟩
  · rw [getActionMask, if_neg living, run, Py.ok_bind]
    rfl
  · intro z a row living' armed walker unmarked
    show b.RowExact M z a
    by_cases refreshed : z ∈ b.influencedPieces player ∪ b.engineerPieces player
    · exact exact z a row armed refreshed
    · by_cases same : z.player = player
      · exact own z a row same armed
      · change z ∉ Function.update b.influencedPieces player [] z.player at unmarked
        rw [Function.update_of_ne same] at unmarked
        have before := masked.exact z a row living' armed walker unmarked
        intro q
        rw [frame z a row (Or.inr refreshed) q, before q]
  · intro i
    have bit : ∀ z a, (b.piece2action (group player)).lookup z = some a → z.player = player → i / 129 = a →
        (M (group player) i = true ↔ z.role ≠ 0 ∧ ∃ pos, b.piece2pos.lookup z = some pos ∧
          CanMove (b.pos2piece.lookup ·) z pos (unview (group player) (Fin.ofNat 129 (i % 129)))) := by
      intro z a row same number
      have index : i = a * 129 + (Fin.ofNat 129 (i % 129)).val := by
        rw [Fin.val_ofNat, Nat.mod_mod, ← number]
        omega
      rw [← same] at row ⊢
      by_cases mine : z.role = 0
      · have off := mines z a row mine (Fin.ofNat 129 (i % 129))
        rw [← index] at off
        simp [off, mine]
      · have on := own z a row same mine (Fin.ofNat 129 (i % 129))
        rw [← index] at on
        simp [on, mine]
    rw [seatMask_iff]
    refine or_congr_right (and_congr_right fun bound => ?_)
    obtain ⟨z, held⟩ := roster.full (group player) (i / 129) (by omega)
    have row := (roster.linked (group player) _ z).1 held
    obtain ⟨sameGroup, _, side⟩ := roster.bound (group player) z _ row
    rw [held, ← side]
    constructor
    · rintro ⟨half, set⟩
      have same := seat_eq z.player player sameGroup half.symm
      obtain ⟨armed, pos, placed, can⟩ := (bit z _ row same rfl).1 set
      exact ⟨z, pos, rfl, same, armed, placed, can⟩
    · rintro ⟨z', pos, same', same, armed, placed, can⟩
      rw [Option.some.injEq] at same'
      subst same'
      exact ⟨by rw [same], (bit z _ row same rfl).2 ⟨armed, pos, placed, can⟩⟩

end Board

end SlimeBoard
