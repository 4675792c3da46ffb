import SlimeBoard.Board.Run

/-!
# Seat symmetry

`transform_pos` turns the board by one seat: what belongs to seat `p` comes to where seat `p - 1` has it.
A game and the game with turned layouts and turned actions go on alike, and the seats 1 and 3 read the same
masks in the first as the seats 0 and 2 in the second.
-/

namespace SlimeBoard

open Board Radix GraphSearch

/-! ## The turned board -/

/-- The board, turned by one seat. -/
def turning : Pos ≃ Pos where
  toFun := transformPos
  invFun := transformPosReverse
  left_inv := reverse_transform
  right_inv := transform_reverse

theorem transformPos_inj {q r : Pos} : transformPos q = transformPos r ↔ q = r := turning.injective.eq_iff

theorem transformPos_four : ∀ q, transformPos (transformPos (transformPos (transformPos q))) = q := by decide

theorem transformPos_headquarters : ∀ q, transformPos q ∈ headquarters ↔ q ∈ headquarters := by decide

theorem opposed_turn : ∀ p p' : Player, opposed (p - 1) (p' - 1) = opposed p p' := by decide

def Piece.turn (x : Piece) : Piece := { x with player := x.player - 1 }

@[simp] theorem Piece.turn_player (x : Piece) : x.turn.player = x.player - 1 := rfl

@[simp] theorem Piece.turn_role (x : Piece) : x.turn.role = x.role := rfl

theorem Piece.turn_injective : Function.Injective Piece.turn := by
  rintro ⟨p, r, n⟩ ⟨p', r', n'⟩ same
  simp only [Piece.turn, Piece.mk.injEq, sub_left_inj] at same ⊢
  exact same

theorem Piece.turn_four (x : Piece) : x.turn.turn.turn.turn = x := by
  obtain ⟨p, r, n⟩ := x
  have whole : ∀ p : Player, p - 1 - 1 - 1 - 1 = p := by decide
  simp only [Piece.turn, whole]

/-- The pieces where they stand on the turned board. -/
def turnSquares (sq : Squares) : Squares := fun q => (sq (transformPosReverse q)).map Piece.turn

section Squares

variable {sq : Squares} {x : Piece} {start q : Pos}

@[simp] theorem turnSquares_apply : turnSquares sq (transformPos q) = (sq q).map Piece.turn := by
  rw [turnSquares, reverse_transform]

theorem turnSquares_four : turnSquares (turnSquares (turnSquares (turnSquares sq))) = sq := by
  funext q
  obtain ⟨r, rfl⟩ : ∃ r, transformPos (transformPos (transformPos (transformPos r))) = q := ⟨q, transformPos_four q⟩
  rw [turnSquares_apply, turnSquares_apply, turnSquares_apply, turnSquares_apply, transformPos_four]
  cases sq r with
  | none => rfl
  | some x => exact congrArg some x.turn_four

theorem turnSquares_none : turnSquares sq (transformPos q) = none ↔ sq q = none := by
  rw [turnSquares_apply, Option.map_eq_none_iff]

theorem turnSquares_some {z : Piece} : turnSquares sq (transformPos q) = some z ↔ ∃ y, sq q = some y ∧ y.turn = z := by
  rw [turnSquares_apply, Option.map_eq_some_iff]

/-! ## Moves -/

theorem Lands.turn (lands : Lands sq (attacks (some x)) q) : Lands (turnSquares sq) (attacks (some x.turn)) (transformPos q) := by
  intro z held
  obtain ⟨y, there, rfl⟩ := turnSquares_some.1 held
  exact (opposed_turn _ _).trans (lands y there)

theorem Sees.turn (sees : Sees sq start q) : Sees (turnSquares sq) (transformPos start) (transformPos q) := by
  obtain ⟨ρ, path, free⟩ := sees
  refine ⟨ρ.map transformPos, ?_, ?_⟩
  · rw [← List.map_singleton, ← List.map_append]
    exact straight_transform path
  · intro r mem
    obtain ⟨s, there, rfl⟩ := List.mem_map.1 mem
    exact turnSquares_none.2 (free s there)

theorem Floods.turn (floods : Floods sq start q) : Floods (turnSquares sq) (transformPos start) (transformPos q) := by
  obtain ⟨differ, n, route⟩ := floods
  refine ⟨fun same => differ (transformPos_inj.1 same), n, ?_⟩
  refine route.map transformPos (fun r => (transform_facts r).2.2.2) fun r free => ?_
  rw [Option.isNone_iff_eq_none] at free ⊢
  exact turnSquares_none.2 free

theorem CanMove.turn (can : CanMove sq x start q) : CanMove (turnSquares sq) x.turn (transformPos start) (transformPos q) := by
  obtain ⟨plain, camp, flag, -⟩ := transform_facts start
  obtain ⟨rail, lands⟩ | ⟨near, lands⟩ | ⟨near, free⟩ | ⟨near, lands⟩ := can
  · refine .inl ⟨?_, lands.turn⟩
    unfold RailTo at rail ⊢
    by_cases engineer : x.role = 9
    · rw [if_pos engineer] at rail
      rw [if_pos (show x.turn.role = 9 from engineer)]
      exact rail.turn
    · rw [if_neg engineer] at rail
      rw [if_neg (show ¬x.turn.role = 9 from engineer)]
      exact rail.turn
  · exact .inr (.inl ⟨plain _ near, lands.turn⟩)
  · exact .inr (.inr (.inl ⟨camp _ near, turnSquares_none.2 free⟩))
  · exact .inr (.inr (.inr ⟨flag _ near, lands.turn⟩))

/-- **The move rule is the same for every seat.** -/
theorem canMove_turn : CanMove (turnSquares sq) x.turn (transformPos start) (transformPos q) ↔ CanMove sq x start q := by
  refine ⟨fun can => ?_, CanMove.turn⟩
  have whole := can.turn.turn.turn
  rwa [turnSquares_four, x.turn_four, transformPos_four, transformPos_four] at whole

theorem worth_turn {M : Type} [AddCommGroup M] (w : Role → M) (p : Player) : worth w (turnSquares sq) (p - 1) = worth w sq p := by
  refine Tally.total_equiv turning Piece.turn fun q y => ?_
  show (if y.player - 1 = p - 1 ∧ transformPos q ∉ headquarters then w y.role else 0) = _
  simp only [sub_left_inj, transformPos_headquarters]

theorem cleared_turn (dying : List Player) : cleared (dying.map (· - 1)) (turnSquares sq) = turnSquares (cleared dying sq) := by
  funext q
  unfold cleared turnSquares
  dsimp only
  cases sq (transformPosReverse q) with
  | none => rfl
  | some y =>
    by_cases gone : y.player ∈ dying
    · simp [Option.filter, gone]
    · simp [Option.filter, gone]

end Squares

/-! ## The game -/

/-- The index of a flag on the turned board. -/
def turnFlag (f : Nat) : Nat := (f + 6) % 8

namespace Game

/-- The position of the turned board. -/
def turn (g : Game) : Game where
  square := turnSquares g.square
  count p := g.count (p + 1)
  skips p := g.skips (p + 1)
  flagPos p := turnFlag (g.flagPos (p + 1))
  dead := g.dead.image (· - 1)

end Game

def Verdict.turn (v : Verdict) : Verdict :=
  { v with flags := v.flags.map turnFlag, deadPlayers := v.deadPlayers.map (· - 1) }

namespace Game

variable {g : Game} {x : Piece} {pos pos1 : Pos}

@[simp] theorem turn_square (q : Pos) : g.turn.square (transformPos q) = (g.square q).map Piece.turn := turnSquares_apply

theorem bury_turn (dying : List Player) : g.turn.bury (dying.map (· - 1)) = (g.bury dying).turn := by
  have dead : g.turn.dead ∪ (dying.map (· - 1)).toFinset = (g.dead ∪ dying.toFinset).image (· - 1) := by
    rw [Finset.image_union]
    congr 1
    ext p
    simp
  unfold bury
  rw [dead]
  show Game.mk _ _ _ _ _ = Game.mk _ _ _ _ _
  rw [show g.turn.square = turnSquares g.square from rfl, cleared_turn]
  rfl

@[simp] theorem meet_turn : g.turn.meet x.turn (transformPos pos1) = g.meet x pos1 := by
  unfold meet
  rw [turn_square]
  cases g.square pos1 <;> rfl

theorem settled_turn : g.turn.settled x.turn (transformPos pos) (transformPos pos1) = turnSquares (g.settled x pos pos1) := by
  funext q
  obtain ⟨r, rfl⟩ := turning.surjective q
  show g.turn.settled x.turn (transformPos pos) (transformPos pos1) (transformPos r) = turnSquares _ (transformPos r)
  rw [turnSquares_apply]
  unfold settled
  simp only [meet_turn, Function.update_apply, transformPos_inj, turn_square]
  split
  · split
    · rfl
    · split <;> rfl
  · split <;> rfl

@[simp] theorem spent_turn : g.turn.spent x.turn (transformPos pos1) = g.spent x pos1 := by
  unfold spent
  rw [meet_turn, decide_eq_decide.2 (transformPos_headquarters pos1)]

theorem victim_turn : g.turn.victim x.turn (transformPos pos1) = (g.victim x pos1).map Piece.turn := by
  unfold victim
  simp only [meet_turn, transformPos_headquarters, turn_square]
  split <;> rfl

theorem loss_turn {M : Type} [AddCommGroup M] (w : Role → M) (p : Player) :
    g.turn.loss x.turn (transformPos pos1) w (p - 1) = g.loss x pos1 w p := by
  unfold loss
  rw [spent_turn, victim_turn]
  cases g.victim x pos1 with
  | none => simp only [Piece.turn_player, Piece.turn_role, sub_left_inj, Option.map_none, Option.elim_none]
  | some y => simp only [Piece.turn_player, Piece.turn_role, sub_left_inj, Option.map_some, Option.elim_some]

theorem countAfter_turn (p : Player) : g.turn.countAfter x.turn (transformPos pos1) (p - 1) = g.countAfter x pos1 p := by
  unfold countAfter
  rw [loss_turn]
  show g.count (p - 1 + 1) - _ = _
  rw [sub_add_cancel]

theorem ownDeath_turn : g.turn.ownDeath x.turn (transformPos pos1) = (g.ownDeath x pos1).map (· - 1) := by
  unfold ownDeath
  rw [Piece.turn_player, countAfter_turn]
  split <;> rfl

theorem foeDeath_turn : g.turn.foeDeath x.turn (transformPos pos1) = (g.foeDeath x pos1).map (· - 1) := by
  unfold foeDeath
  rw [turn_square]
  cases g.square pos1 with
  | none => rfl
  | some y =>
    show (if y.role = 11 ∨ g.turn.countAfter x.turn (transformPos pos1) (y.player - 1) = 0 then [y.player - 1] else []) =
      (if y.role = 11 ∨ g.countAfter x pos1 y.player = 0 then [y.player] else []).map (· - 1)
    rw [countAfter_turn]
    split <;> rfl

theorem dying_turn : g.turn.dying x.turn (transformPos pos1) = (g.dying x pos1).map (· - 1) := by
  unfold dying
  rw [ownDeath_turn, foeDeath_turn, List.map_append]

theorem mem_dying_turn {p : Player} : p - 1 ∈ g.turn.dying x.turn (transformPos pos1) ↔ p ∈ g.dying x pos1 := by
  rw [dying_turn]
  exact List.mem_map_of_injective (sub_left_injective (b := 1))

theorem exposed_turn : g.turn.exposed x.turn (transformPos pos1) = (g.exposed x pos1).map (· - 1) := by
  unfold exposed
  simp only [List.map_append, meet_turn, Piece.turn_player, Piece.turn_role, mem_dying_turn, turn_square]
  congr 1
  · split <;> rfl
  · cases g.square pos1 with
    | none => rfl
    | some y =>
      simp only [Option.map_some, Option.elim_some, Piece.turn_player, Piece.turn_role, mem_dying_turn]
      split <;> rfl

theorem result_turn : g.turn.result x.turn (transformPos pos1) = g.result x pos1 := by
  unfold result
  simp only [meet_turn, turn_square, Option.map_eq_none_iff]

theorem gain_turn : g.turn.gain x.turn (transformPos pos) (transformPos pos1) = g.gain x pos pos1 := by
  unfold gain
  simp only [spent_turn, victim_turn, settled_turn, Piece.turn_player, Piece.turn_role, mem_dying_turn, worth_turn, turn_square]
  congr 1
  · cases g.victim x pos1 <;> rfl
  · cases g.square pos1 with
    | none => rfl
    | some y => simp only [Option.map_some, Option.elim_some, Piece.turn_player, mem_dying_turn, worth_turn]

/-- **A move on the turned board is the move, turned.** -/
theorem move_turn : g.turn.move x.turn (transformPos pos) (transformPos pos1) =
    ((g.move x pos pos1).1.turn, (g.move x pos pos1).2.turn) := by
  have counts : g.turn.countAfter x.turn (transformPos pos1) = fun p => g.countAfter x pos1 (p + 1) := by
    funext p
    have same : g.turn.countAfter x.turn (transformPos pos1) (p + 1 - 1) = g.countAfter x pos1 (p + 1) := countAfter_turn (p + 1)
    rwa [add_sub_cancel_right] at same
  have flags : (g.turn.exposed x.turn (transformPos pos1)).map g.turn.flagPos = ((g.exposed x pos1).map g.flagPos).map turnFlag := by
    rw [exposed_turn, List.map_map, List.map_map]
    refine List.map_congr_left fun p _ => ?_
    show turnFlag (g.flagPos (p - 1 + 1)) = _
    rw [sub_add_cancel]
    rfl
  unfold move
  rw [dying_turn, settled_turn, counts, flags, result_turn, gain_turn]
  rw [show ({ g.turn with square := turnSquares (g.settled x pos pos1), count := fun p => g.countAfter x pos1 (p + 1) } : Game) =
    turn { g with square := g.settled x pos pos1, count := g.countAfter x pos1 } from rfl, bury_turn]
  rfl

/-- **A skip on the turned board is the skip, turned.** -/
theorem pass_turn (p : Player) : g.turn.pass (p - 1) = ((g.pass p).1.turn, (g.pass p).2.turn) := by
  have own : g.turn.skips (p - 1) = g.skips p := by
    show g.skips (p - 1 + 1) = _
    rw [sub_add_cancel]
  have skips : Function.update g.turn.skips (p - 1) (g.skips p + 1) = fun p' => Function.update g.skips p (g.skips p + 1) (p' + 1) := by
    funext p'
    simp only [Function.update_apply, eq_sub_iff_add_eq]
    rfl
  unfold pass
  rw [own, skips, show ({ g.turn with skips := fun p' => Function.update g.skips p (g.skips p + 1) (p' + 1) } : Game) =
    turn { g with skips := Function.update g.skips p (g.skips p + 1) } from rfl]
  dsimp only
  split
  · rw [show [p - 1] = [p].map (· - 1) from rfl, bury_turn, show g.turn.square = turnSquares g.square from rfl, worth_turn]
    rfl
  · rfl

end Game

end SlimeBoard
