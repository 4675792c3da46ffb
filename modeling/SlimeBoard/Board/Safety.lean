import SlimeBoard.Board.Run

/-!
# What holds in every game

The masks are exact, the two maps, the tallies and the dead agree, rewards are
changes of the lead, and offered actions do not fail.
-/

namespace SlimeBoard

open Board

variable {ord : RailOrder} {layout : Player → List Role} {plays : List (Player × Nat)} {b : Board}
  {offers : Player → Option ActionMask} {p : Player} {mask : ActionMask} {a : Nat}

/-! ## A first game -/

/-- The layout of a generator that always draws the first candidate. -/
def firstLayout : List Role := [1, 2, 3, 3, 4, 4, 7, 8, 8, 8, 9, 9, 9, 10, 10, 0, 0, 5, 5, 6, 6, 11, 7, 0, 7]

theorem firstLayout_generates : Generates firstLayout := ⟨fun _ => 0, by decide +kernel⟩

/-- The neighbour sets in the order of the table. -/
def tableOrder : RailOrder := ⟨POS2ANY, fun _ => .refl _⟩

/-- The mask of a new board offers the skip, and the commander of seat 0 the centre. -/
theorem first_offer : ∃ b mask,
    Run tableOrder (fun _ => firstLayout) [] b (Function.update (fun _ => none) 0 (some mask)) ∧
      mask 5934 = true ∧ mask 126 = true ∧ b.deadPlayers = [] ∧ b.pos2piece.lookup 126 = none := by
  obtain ⟨b, new, starts⟩ := new_spec fun _ => firstLayout_generates.proper
  have run : Run tableOrder (fun _ => firstLayout) [] b fun _ => none := .start new
  have reached := run.reached fun _ => firstLayout_generates
  have living : 0 ∉ b.deadPlayers := by
    rw [starts.dead]
    exact List.not_mem_nil
  obtain ⟨M, I, mask, asked, offered, _⟩ := reached.ask tableOrder living
  have held : b.pos2piece.lookup (squareAt (0, 0)) = some (pieceAt (fun _ => firstLayout) (0, 0)) :=
    (starts.placed _ _).2 ⟨_, rfl, rfl⟩
  refine ⟨_, mask, run.ask living asked, (offered _).2 (Or.inl rfl), (offered _).2 (Or.inr ⟨by decide, ?_⟩), starts.dead, ?_⟩
  · refine ⟨_, _, (starts.rows _ _ _).2 ⟨(0, 0), rfl, rfl, by decide +kernel, rfl⟩, rfl, by decide,
      (starts.inv.linked _ _).1 held, ?_⟩
    exact (mem_walkTargets (owner_of_placed starts.placed) (by decide)).1 (by decide +kernel)
  · refine Option.eq_none_iff_forall_ne_some.2 fun x held => ?_
    obtain ⟨t, here, -⟩ := (starts.placed _ _).1 held
    exact absurd here (by revert t; decide)

/-- The commander goes to the centre, and seat 1 is asked. -/
theorem first_play : ∃ b mask,
    Run tableOrder (fun _ => firstLayout) [(0, 126)] b (Function.update (fun _ => none) 1 (some mask)) ∧
      b.deadPlayers = [] := by
  obtain ⟨b, mask, run, -, move, dead, free⟩ := first_offer
  have reached := run.reached fun _ => firstLayout_generates
  have alive (p : Player) : p ∉ b.deadPlayers := by
    rw [dead]
    exact List.not_mem_nil
  obtain ⟨b', path, step, played, done, acts, reached'⟩ := reached.play tableOrder (alive 0) (Function.update_self ..) move
  have nobody : step.2.deadPlayers = [] := by
    rcases acts with ⟨skip, -⟩ | ⟨x, pos, pos1, plays, rfl⟩
    · exact absurd skip (by decide)
    · obtain ⟨z, -, target⟩ := Py.bind_eq_ok.1 plays.decode
      obtain rfl : (126 : Pos) = pos1 := congrArg Prod.snd (Except.ok.inj target)
      exact Game.dying_free reached.inv.sound free (by decide) (by simpa [game] using alive x.player)
  have none' : b'.deadPlayers = [] := by
    have gone : b'.game.dead = b.game.dead ∪ step.2.deadPlayers.toFinset := (congrArg Game.dead done.game).trans acts.announces.1
    rw [nobody] at gone
    simpa [game, dead] using gone
  have living : 1 ∉ b'.deadPlayers := by
    rw [none']
    exact List.not_mem_nil
  obtain ⟨M, I, mask', asked, -, -⟩ := reached'.ask tableOrder living
  exact ⟨_, mask', (run.play (alive 0) (Function.update_self ..) move played).ask living asked, none'⟩

/-! ## Masks -/

/-- Bit `i` of the mask of seat `p`, from the current squares alone. -/
def Board.FreshBit (ord : RailOrder) (b : Board) (p : Player) (i : Nat) : Prop :=
  i = 5934 ∨ (i < 5934 ∧ ∃ z pos moves,
    (b.action2piece (group p)).lookup (i / 129) = some z ∧ z.player = p ∧ z.role ≠ 0 ∧
    b.piece2pos.lookup z = some pos ∧ pieceMoves b.pos2piece ord z pos = .ok moves ∧
    unview (group p) (Fin.ofNat 129 (i % 129)) ∈ moves.positions)

theorem Board.Offers.fresh (offered : b.Offers p mask) (inv : b.Inv) (i : Nat) :
    mask i = true ↔ b.FreshBit ord p i := by
  rw [offered i, FreshBit]
  refine or_congr_right (and_congr_right fun _ => exists_congr fun z => exists_congr fun pos => ?_)
  constructor
  · rintro ⟨number, owner, armed, placed, can⟩
    obtain ⟨moves, run, _, found⟩ := pieceMoves_spec ord ((inv.linked _ _).2 placed)
    exact ⟨moves, number, owner, armed, placed, run, (found _).2 can⟩
  · rintro ⟨moves, number, owner, armed, placed, run, mem⟩
    obtain ⟨moves', run', _, found⟩ := pieceMoves_spec ord ((inv.linked _ _).2 placed)
    obtain rfl := Except.ok.inj (run'.symm.trans run)
    exact ⟨number, owner, armed, placed, (found _).1 mem⟩

/-- **Action masks are exact**: in every state of a run the mask of a living seat is
the one recomputed from the current squares, and the rows of its partner are clear. -/
theorem action_mask_exact (generates : ∀ p, Generates (layout p)) (run : Run ord layout plays b offers)
    (living : p ∉ b.deadPlayers) :
    ∃ mask b', b.getActionMask ord p = .ok (some mask, b') ∧
      (∀ i, mask i = true ↔ b.FreshBit ord p i) ∧
      ∀ a z, (b.action2piece (group p)).lookup a = some z → z.player ≠ p →
        ∀ q : Pos, mask (a * 129 + q.val) = false := by
  have reached := run.reached generates
  obtain ⟨M, I, mask, asked, offered, _⟩ := reached.ask ord living
  refine ⟨mask, _, asked, offered.fresh reached.inv, ?_⟩
  intro a z number partner q
  have bound := (reached.inv.roster.bound _ z a ((reached.inv.roster.linked _ a z).1 number)).2.1
  rw [Bool.eq_false_iff, ne_eq, offered]
  rintro (skip | ⟨_, z', _, number', owner, _⟩)
  · have := q.isLt
    omega
  · rw [row_index, number, Option.some.injEq] at number'
    exact partner (number' ▸ owner)

theorem action_mask_exact_first : ∃ (b : Board) (mask : ActionMask) (b' : Board), b.getActionMask tableOrder 2 = .ok (some mask, b') ∧
    (∀ i, mask i = true ↔ b.FreshBit tableOrder 2 i) ∧
    ∀ a z, (b.action2piece (group 2)).lookup a = some z → z.player ≠ 2 →
      ∀ q : Pos, mask (a * 129 + q.val) = false := by
  obtain ⟨b, mask, run, dead⟩ := first_play
  obtain ⟨mask', b', exact⟩ := action_mask_exact (p := 2) (fun _ => firstLayout_generates) run (by simp [dead])
  exact ⟨b, mask', b', exact⟩

/-! ## The two maps, the tallies and the dead -/

/-- The pieces of a seat that are neither mines nor the flag and stand outside the
headquarters, by their squares. -/
def Board.fieldPieces (b : Board) (p : Player) : Finset Pos :=
  Finset.univ.filter fun q => (b.pos2piece.lookup q).any fun x =>
    decide (x.player = p ∧ q ∉ headquarters ∧ x.role ≠ 0 ∧ x.role ≠ 11)

/-- The action moves a piece onto the flag of seat `p'`. -/
def Board.TakesFlag (b : Board) (p : Player) (a : Nat) (p' : Player) : Prop :=
  a ≠ 5934 ∧ ∃ x pos1 y, b.decode p a = .ok (x, pos1) ∧ b.pos2piece.lookup pos1 = some y ∧
    y.role = 11 ∧ y.player = p'

theorem Board.fieldPieces_card (b : Board) (p : Player) :
    worth tallied (b.pos2piece.lookup ·) p = (b.fieldPieces p).card := by
  unfold fieldPieces
  rw [← Tally.total_card fun q (x : Piece) =>
    decide (x.player = p ∧ q ∉ headquarters ∧ x.role ≠ 0 ∧ x.role ≠ 11)]
  refine Tally.total_congr fun q x _ => ?_
  unfold tallied
  by_cases own : x.player = p <;> by_cases home : q ∈ headquarters <;> by_cases mine : x.role = 0 <;>
    by_cases flag : x.role = 11 <;> simp [own, home, mine, flag]

/-- Who an action kills. -/
theorem Board.Acts.dead_iff {step : Game × Verdict} (acts : b.Acts p a step) (inv : b.Inv) {p' : Player}
    (living : p' ∉ b.deadPlayers) : p' ∈ step.1.dead ↔
      b.TakesFlag p a p' ∨ step.1.count p' = 0 ∨ (p' = p ∧ a = 5934 ∧ b.stepCount p = 4) := by
  have alive : p' ∉ b.game.dead := by simpa [game] using living
  rcases acts with ⟨rfl, rfl⟩ | ⟨x, pos, pos1, plays, rfl⟩
  · have count := inv.sound.tally_pos p' alive
    rw [Game.pass_dead_iff alive, Game.pass_count]
    constructor
    · exact fun h => Or.inr (Or.inr ⟨h.1, rfl, h.2⟩)
    · rintro (flag | zero | ⟨same, _, fourth⟩)
      · exact absurd rfl flag.1
      · omega
      · exact ⟨same, fourth⟩
  · rw [Game.move_dead_iff inv.sound alive]
    have same : b.TakesFlag p a p' ↔ ∃ y, b.game.square pos1 = some y ∧ y.role = 11 ∧ y.player = p' := by
      constructor
      · rintro ⟨_, x', pos1', y, decoded, rest⟩
        rw [plays.decode, Except.ok.injEq, Prod.mk.injEq] at decoded
        rw [← decoded.2] at rest
        exact ⟨y, rest⟩
      · rintro ⟨y, rest⟩
        exact ⟨plays.move, x, pos1, y, plays.decode, rest⟩
    rw [same]
    refine or_congr_right ⟨Or.inl, ?_⟩
    rintro (zero | ⟨_, skip, _⟩)
    · exact zero
    · exact absurd skip plays.move

theorem Board.Acts.dead_mono {step : Game × Verdict} (acts : b.Acts p a step) {p' : Player}
    (gone : p' ∈ b.game.dead) : p' ∈ step.1.dead := by
  rcases acts with ⟨_, rfl⟩ | ⟨x, pos, pos1, _, rfl⟩
  · unfold Game.pass
    dsimp only
    split
    · exact Finset.mem_union_left _ gone
    · exact gone
  · exact Finset.mem_union_left _ gone

/-- **The representation invariant**: in every state of a run the two maps are
inverse, the tally of a living seat counts its pieces on the field, and is positive,
the dead have no pieces; and a seat dies exactly when its flag is taken, its tally
reaches zero or it skips for the fifth time. -/
theorem representation_invariant (generates : ∀ p, Generates (layout p)) (run : Run ord layout plays b offers) :
    Dict.Linked b.pos2piece b.piece2pos ∧
    (∀ p, p ∉ b.deadPlayers → b.piecesCount p = (b.fieldPieces p).card ∧ 1 ≤ b.piecesCount p) ∧
    (∀ x, x.player ∈ b.deadPlayers → b.piece2pos.lookup x = none ∧ ∀ q, b.pos2piece.lookup q ≠ some x) ∧
    (plays = [] → b.deadPlayers = []) ∧
    ∀ p mask a, p ∉ b.deadPlayers → offers p = some mask → mask a = true →
      ∃ b' out, b.update ord p a = .ok (b', out) ∧ (∀ p' ∈ b.deadPlayers, p' ∈ b'.deadPlayers) ∧
        ∀ p', p' ∉ b.deadPlayers → (p' ∈ b'.deadPlayers ↔
          b.TakesFlag p a p' ∨ b'.piecesCount p' = 0 ∨ (p' = p ∧ a = 5934 ∧ plays.count (p, 5934) = 4)) := by
  have reached := run.reached generates
  have inv := reached.inv
  have gone : ∀ q x, b.pos2piece.lookup q = some x → x.player ∉ b.deadPlayers := by
    intro q x held dead
    exact inv.sound.dead_gone q x held (List.mem_toFinset.2 dead)
  refine ⟨inv.linked, ?_, ?_, ?_, ?_⟩
  · intro p living
    have alive : p ∉ b.game.dead := by simpa [game] using living
    exact ⟨(inv.sound.tally p alive).trans (b.fieldPieces_card p), inv.sound.tally_pos p alive⟩
  · intro x dead
    have absent : ∀ q, b.pos2piece.lookup q ≠ some x := fun q held => gone q x held dead
    refine ⟨Option.eq_none_iff_forall_ne_some.2 fun q placed => ?_, absent⟩
    exact absent q ((inv.linked q x).2 placed)
  · exact reached.fresh
  · intro p mask a living offer allowed
    obtain ⟨b', path, step, played, done, acts, _⟩ := reached.play ord living offer allowed
    have dead : ∀ p', p' ∈ b'.deadPlayers ↔ p' ∈ step.1.dead := by
      intro p'
      rw [← congrArg Game.dead done.game]
      exact List.mem_toFinset.symm
    refine ⟨b', _, played, ?_, ?_⟩
    · intro p' gone'
      rw [dead]
      exact acts.dead_mono (List.mem_toFinset.2 gone')
    · intro p' living'
      rw [dead, acts.dead_iff inv living', ← reached.skips p, ← congrArg Game.count done.game]
      rfl

theorem representation_invariant_first : ∃ (b : Board) (offers : Player → Option ActionMask),
    Dict.Linked b.pos2piece b.piece2pos ∧
    (∀ p, p ∉ b.deadPlayers → b.piecesCount p = (b.fieldPieces p).card ∧ 1 ≤ b.piecesCount p) ∧
    (∀ x, x.player ∈ b.deadPlayers → b.piece2pos.lookup x = none ∧ ∀ q, b.pos2piece.lookup q ≠ some x) ∧
    (([(0, 126)] : List (Player × Nat)) = [] → b.deadPlayers = []) ∧
    ∀ p mask a, p ∉ b.deadPlayers → offers p = some mask → mask a = true →
      ∃ b' out, b.update tableOrder p a = .ok (b', out) ∧ (∀ p' ∈ b.deadPlayers, p' ∈ b'.deadPlayers) ∧
        ∀ p', p' ∉ b.deadPlayers → (p' ∈ b'.deadPlayers ↔
          b.TakesFlag p a p' ∨ b'.piecesCount p' = 0 ∨
            (p' = p ∧ a = 5934 ∧ ([(0, 126)] : List (Player × Nat)).count (p, 5934) = 4)) := by
  obtain ⟨b, mask, run, _⟩ := first_play
  exact ⟨b, _, representation_invariant (fun _ => firstLayout_generates) run⟩

/-! ## Rewards -/

/-- **The reward is the change of the lead** of the mover's team, for every action but
the first four skips. -/
theorem reward_is_lead_change (generates : ∀ p, Generates (layout p)) (run : Run ord layout plays b offers)
    (living : p ∉ b.deadPlayers) (offer : offers p = some mask) (allowed : mask a = true)
    (late : a = 5934 → 4 ≤ plays.count (p, 5934)) :
    ∃ b' out, b.update ord p a = .ok (b', out) ∧
      out.reward =
        (Game.teamWorth (b'.pos2piece.lookup ·) (group p) - Game.teamWorth (b.pos2piece.lookup ·) (group p)) -
        (Game.teamWorth (b'.pos2piece.lookup ·) (1 - group p) - Game.teamWorth (b.pos2piece.lookup ·) (1 - group p)) := by
  have reached := run.reached generates
  obtain ⟨b', path, step, played, done, acts, _⟩ := reached.play ord living offer allowed
  have square : (b'.pos2piece.lookup ·) = step.1.square := congrArg Game.square done.game
  refine ⟨b', _, played, ?_⟩
  rw [square]
  rcases acts with ⟨skip, rfl⟩ | ⟨x, pos, pos1, plays, rfl⟩
  · have alive : p ∉ b.game.dead := by simpa [game] using living
    have fewer : b.stepCount p < 5 := reached.inv.sound.skips_lt p alive
    have fifth : b.game.skips p + 1 = 5 := by
      have := late skip
      rw [← reached.skips] at this
      show b.stepCount p + 1 = 5
      omega
    exact Game.pass_eq fifth
  · have gain := Game.gain_eq (plays.legal reached.inv)
    rw [plays.owner] at gain
    exact gain

theorem reward_is_lead_change_first : ∃ (b b' : Board) (out : Outcome), b.update tableOrder 0 126 = .ok (b', out) ∧
    out.reward =
      (Game.teamWorth (b'.pos2piece.lookup ·) (group 0) - Game.teamWorth (b.pos2piece.lookup ·) (group 0)) -
      (Game.teamWorth (b'.pos2piece.lookup ·) (1 - group 0) - Game.teamWorth (b.pos2piece.lookup ·) (1 - group 0)) := by
  obtain ⟨b, mask, run, _, move, dead, _⟩ := first_offer
  obtain ⟨b', out, played⟩ := reward_is_lead_change (p := 0) (fun _ => firstLayout_generates) run (by simp [dead])
    (Function.update_self ..) move (by decide)
  exact ⟨b, b', out, played⟩

/-! ## Offered actions -/

/-- **Offered actions do not fail**: a set bit other than the skip decodes to a piece of
the seat outside the headquarters and a square it may go to, and `update` completes. -/
theorem offered_actions_succeed (generates : ∀ p, Generates (layout p)) (run : Run ord layout plays b offers)
    (living : p ∉ b.deadPlayers) :
    ∃ mask b', b.getActionMask ord p = .ok (some mask, b') ∧ ∀ a, a ≠ 5934 → mask a = true →
      (∃ x pos pos1, b'.decode p a = .ok (x, pos1) ∧ x.player = p ∧ b'.piece2pos.lookup x = some pos ∧
        x.role ≠ 0 ∧ pos ∉ headquarters ∧ pos1 ≠ pos ∧
        (∀ y, b'.pos2piece.lookup pos1 = some y → y.player ≠ p ∧ y.player ≠ p + 2) ∧
        (pos1 ∈ camps → b'.pos2piece.lookup pos1 = none)) ∧
      ∃ b'' out, b'.update ord p a = .ok (b'', out) := by
  have reached := run.reached generates
  obtain ⟨M, I, mask, asked, _, reached'⟩ := reached.ask ord living
  refine ⟨mask, _, asked, ?_⟩
  intro a move allowed
  have offer := Function.update_self p (some mask) offers
  obtain ⟨x, pos, pos1, plays⟩ := (reached'.offers p mask offer).plays allowed move
  obtain ⟨differ, outside, foe, camp⟩ := plays.can.facts
  obtain ⟨b'', path, step, played, _⟩ := reached'.play ord living offer allowed
  refine ⟨⟨x, pos, pos1, plays.decode, plays.owner, plays.placed, plays.armed, outside, differ, ?_, camp⟩, b'', _, played⟩
  intro y held
  have team : ∀ p p' : Player, opposed p p' = true → p' ≠ p ∧ p' ≠ p + 2 := by decide
  rw [← plays.owner]
  exact team _ _ (foe y held)

theorem offered_actions_succeed_first : ∃ (b : Board) (mask : ActionMask) (b' : Board), b.getActionMask tableOrder 1 = .ok (some mask, b') ∧
    ∀ a, a ≠ 5934 → mask a = true →
      (∃ x pos pos1, b'.decode 1 a = .ok (x, pos1) ∧ x.player = 1 ∧ b'.piece2pos.lookup x = some pos ∧
        x.role ≠ 0 ∧ pos ∉ headquarters ∧ pos1 ≠ pos ∧
        (∀ y, b'.pos2piece.lookup pos1 = some y → y.player ≠ 1 ∧ y.player ≠ 1 + 2) ∧
        (pos1 ∈ camps → b'.pos2piece.lookup pos1 = none)) ∧
      ∃ b'' out, b'.update tableOrder 1 a = .ok (b'', out) := by
  obtain ⟨b, mask, run, dead⟩ := first_play
  obtain ⟨mask', b', succeed⟩ := offered_actions_succeed (p := 1) (fun _ => firstLayout_generates) run (by simp [dead])
  exact ⟨b, mask', b', succeed⟩

end SlimeBoard
