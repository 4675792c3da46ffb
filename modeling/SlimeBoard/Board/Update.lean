import SlimeBoard.Board.Mask
import SlimeBoard.Board.Paths

/-!
# `update` plays by the rules

Every branch of `update` moves pieces in both dictionaries, counts, sweeps the
seats that die and either marks the pieces it influences or refreshes the masks.
For a legal move all branches are the one `Game.move`, and for a skip `Game.pass`;
no dictionary access fails and the masks keep their invariant.
-/

namespace SlimeBoard

/-- What `update` returns for a verdict. -/
def Verdict.outcome (v : Verdict) (path : List Pos) : Board.Outcome :=
  ⟨v.result, path, v.flags, v.deadPlayers, v.reward⟩

namespace Board

/-- The position behind a board. -/
def game (b : Board) : Game where
  square := (b.pos2piece.lookup ·)
  count := b.piecesCount
  skips := b.stepCount
  flagPos := b.flagPos
  dead := b.deadPlayers.toFinset

/-- `b'` is `b` with other squares and tallies, and without the seats in `gone`. -/
structure Becomes (b b' : Board) (sq : Squares) (count : Player → Int) (gone : List Player) : Prop where
  frame : ∃ m n d I, b' = { b with
    pos2piece := m, piece2pos := n, piecesCount := count, deadPlayers := d, influencedPieces := I }
  linked : Dict.Linked b'.pos2piece b'.piece2pos
  square : ∀ q, b'.pos2piece.lookup q = sq q
  dead : ∀ p, p ∈ b'.deadPlayers ↔ p ∈ b.deadPlayers ∨ p ∈ gone
  influenced : ∀ p, p ∉ gone → b'.influencedPieces p = b.influencedPieces p

variable {b b₁ : Board} (ord : RailOrder) {sq : Squares} {count : Player → Int} {gone : List Player}

theorem Becomes.game (h : Becomes b b₁ sq count gone) :
    b₁.game = { b.game with square := sq, count := count, dead := b.game.dead ∪ gone.toFinset } := by
  obtain ⟨m, n, d, I, rfl⟩ := h.frame
  unfold Board.game
  rw [Game.mk.injEq]
  refine ⟨funext h.square, rfl, rfl, rfl, ?_⟩
  ext p
  simpa using h.dead p

theorem Becomes.trans {b₂ : Board} {sq' : Squares} {count' : Player → Int} {gone' : List Player}
    (h : Becomes b b₁ sq count gone) (h' : Becomes b₁ b₂ sq' count' gone') :
    Becomes b b₂ sq' count' (gone ++ gone') := by
  obtain ⟨m, n, d, I, frame⟩ := h.frame
  obtain ⟨m', n', d', I', frame'⟩ := h'.frame
  refine ⟨⟨m', n', d', I', by rw [frame', frame]⟩, h'.linked, h'.square, ?_, ?_⟩
  · intro p
    rw [h'.dead, h.dead, List.mem_append, or_assoc]
  · intro p spared
    rw [List.mem_append, not_or] at spared
    rw [h'.influenced p spared.2, h.influenced p spared.1]

/-! ## Sweeping a seat -/

theorem worth_erase {m : Dict Pos Piece} {q : Pos} {x : Piece} (held : m.lookup q = some x) :
    worth rewardMap ((m.erase q).lookup ·) x.player =
      worth rewardMap (m.lookup ·) x.player - if q ∉ headquarters then rewardMap x.role else 0 := by
  have erased : (((m.erase q).lookup ·) : Squares) = Function.update (m.lookup ·) q none := by
    funext p
    rw [Dict.lookup_erase, Function.update_apply]
  unfold worth
  rw [erased, Tally.total_update]
  simp [held]

/-- Deleting pieces of one seat one by one. -/
theorem removePieces_spec (p : Player) (rm : List Piece) (linked : Dict.Linked b.pos2piece b.piece2pos)
    (nodup : rm.Nodup) (own : ∀ x ∈ rm, x.player = p ∧ ∃ q, b.piece2pos.lookup x = some q) (reward : ℚ) :
    ∃ m n r, rm.foldlM removePiece (b, reward) = .ok ({ b with pos2piece := m, piece2pos := n }, r) ∧
      Dict.Linked m n ∧
      (∀ q y, m.lookup q = some y ↔ b.pos2piece.lookup q = some y ∧ y ∉ rm) ∧
      r + worth rewardMap (m.lookup ·) p = reward + worth rewardMap (b.pos2piece.lookup ·) p := by
  induction rm generalizing b reward with
  | nil => exact ⟨b.pos2piece, b.piece2pos, reward, rfl, linked, by simp, rfl⟩
  | cons x rm ih =>
    obtain ⟨rfl, q, placed⟩ := own x (List.mem_cons_self ..)
    have held := (linked q x).2 placed
    rw [List.nodup_cons] at nodup
    let reward₁ := if q ∉ headquarters then reward + rewardMap x.role else reward
    have first : removePiece (b, reward) x =
        .ok ({ b with pos2piece := b.pos2piece.erase q, piece2pos := b.piece2pos.erase x }, reward₁) := by
      rw [removePiece, Dict.get_eq placed, Py.ok_bind, Dict.del_eq (Dict.mem_of_lookup placed), Py.ok_bind,
        Dict.del_eq (Dict.mem_of_lookup held), Py.ok_bind]
      rfl
    have own' : ∀ y ∈ rm, y.player = x.player ∧ ∃ q, (b.piece2pos.erase x).lookup y = some q := by
      intro y mem
      obtain ⟨same, q', placed'⟩ := own y (List.mem_cons_of_mem _ mem)
      refine ⟨same, q', ?_⟩
      rw [Dict.lookup_erase, if_neg, placed']
      rintro rfl
      exact nodup.1 mem
    obtain ⟨m, n, r, run, linked', keeps, sum⟩ := ih
      (b := { b with pos2piece := b.pos2piece.erase q, piece2pos := b.piece2pos.erase x })
      (linked.erase held) nodup.2 own' reward₁
    refine ⟨m, n, r, ?_, linked', ?_, ?_⟩
    · rw [List.foldlM_cons, first, Py.ok_bind, run]
    · intro q' y
      rw [keeps, Dict.lookup_erase, List.mem_cons, not_or]
      by_cases same : q' = q
      · subst same
        rw [if_pos rfl, held]
        constructor
        · rintro ⟨h, _⟩
          cases h
        · rintro ⟨h, differ, _⟩
          exact absurd (Option.some.inj h).symm differ
      · rw [if_neg same]
        constructor
        · rintro ⟨h, absent⟩
          refine ⟨h, ?_, absent⟩
          rintro rfl
          exact same (linked.inj h held)
        · rintro ⟨h, _, absent⟩
          exact ⟨h, absent⟩
    · rw [sum]
      show reward₁ + worth rewardMap ((b.pos2piece.erase q).lookup ·) x.player = _
      rw [worth_erase held]
      show (if q ∉ headquarters then reward + rewardMap x.role else reward) + _ = _
      split <;> ring

/-- **`update_dead_players` sweeps the seat** and returns its worth. -/
theorem updateDeadPlayers_spec (linked : Dict.Linked b.pos2piece b.piece2pos) (p : Player) :
    ∃ b₁, b.updateDeadPlayers p = .ok (b₁, worth rewardMap (b.pos2piece.lookup ·) p) ∧
      Becomes b b₁ (cleared [p] (b.pos2piece.lookup ·)) b.piecesCount [p] := by
  have nodup : (b.piece2pos.keys.filter (·.player = p)).Nodup := b.piece2pos.nodupKeys.filter _
  obtain ⟨m, n, r, run, linked', keeps, sum⟩ := removePieces_spec p _ linked nodup (by
    intro x mem
    rw [List.mem_filter, Dict.mem_keys_iff] at mem
    exact ⟨by simpa using mem.2, mem.1⟩) 0
  have square : ∀ q, m.lookup q = cleared [p] (b.pos2piece.lookup ·) q := by
    intro q
    ext y
    rw [keeps, cleared_eq_some, List.mem_filter, Dict.mem_keys_iff, List.mem_singleton]
    refine and_congr_right fun held => not_congr ?_
    simp only [decide_eq_true_eq, and_iff_right_iff_imp]
    intro _
    exact ⟨q, (linked q y).1 held⟩
  have swept : r = worth rewardMap (b.pos2piece.lookup ·) p := by
    have empty : worth rewardMap (m.lookup ·) p = 0 := by
      apply worth_absent
      intro q y held
      rw [square, cleared_eq_some] at held
      simpa using held.2
    rw [empty] at sum
    linarith
  let rm := b.piece2pos.keys.filter (·.player = p)
  let b₁ : Board := { b with
    pos2piece := m
    piece2pos := n
    deadPlayers := b.deadPlayers.insert p
    influencedPieces := Function.update b.influencedPieces p (b.influencedPieces p ∪ rm) }
  refine ⟨b₁, ?_, ⟨⟨m, n, _, _, rfl⟩, linked', square, ?_, ?_⟩⟩
  · rw [updateDeadPlayers, run, Py.ok_bind, swept]
    rfl
  · intro p'
    show p' ∈ b.deadPlayers.insert p ↔ _
    rw [List.mem_insert_iff, List.mem_singleton, or_comm]
  · intro p' other
    show Function.update b.influencedPieces p _ p' = _
    rw [Function.update_of_ne (by simpa using other)]

/-- One off a seat's tally; the seat is swept when nothing is left. -/
theorem countDown_spec (linked : Dict.Linked b.pos2piece b.piece2pos) (p : Player) {dies : List Player}
    (verdict : dies = if b.piecesCount p - 1 = 0 then [p] else []) :
    ∃ b₁, b.countDown p =
        .ok (b₁, (if b.piecesCount p - 1 = 0 then worth rewardMap (b.pos2piece.lookup ·) p else 0), dies) ∧
      Becomes b b₁ (cleared dies (b.pos2piece.lookup ·))
        (Function.update b.piecesCount p (b.piecesCount p - 1)) dies := by
  let b' : Board := { b with piecesCount := Function.update b.piecesCount p (b.piecesCount p - 1) }
  have counted : Becomes b b' (b.pos2piece.lookup ·) (Function.update b.piecesCount p (b.piecesCount p - 1)) [] :=
    ⟨⟨_, _, _, _, rfl⟩, linked, fun _ => rfl, by simp [b'], fun _ _ => rfl⟩
  have entry : (Function.update b.piecesCount p (b.piecesCount p - 1)) p = b.piecesCount p - 1 :=
    Function.update_self ..
  unfold countDown
  simp only [entry]
  split at verdict
  · rename_i zero
    obtain ⟨b₁, run, swept⟩ := updateDeadPlayers_spec (b := b') linked p
    subst verdict
    refine ⟨b₁, ?_, counted.trans swept⟩
    rw [if_pos zero, if_pos zero]
    show (b'.updateDeadPlayers p >>= _) = _
    rw [run]
    rfl
  · rename_i more
    subst verdict
    refine ⟨b', ?_, ?_⟩
    · rw [if_neg more, if_neg more]
      rfl
    · rw [cleared_nil]
      exact counted

/-! ## Moving the pieces -/

section Stages

variable {x : Piece} {pos pos1 : Pos}

/-- The attacker replaces the defender. -/
theorem capture_spec (linked : Dict.Linked b.pos2piece b.piece2pos) (legal : b.game.Move x pos pos1) {y : Piece}
    (held : b.pos2piece.lookup pos1 = some y) (stands : (b.game.meet x pos1).stands = true) :
    ∃ b₁, b.capture x y pos pos1 = .ok b₁ ∧
      Becomes b b₁ (b.game.settled x pos pos1) b.piecesCount [] := by
  have here : b.pos2piece.lookup pos = some x := legal.holds
  have placed : b.piece2pos.lookup y = some pos1 := (linked pos1 y).1 held
  have differ : y ≠ x := by
    rintro rfl
    exact legal.foe_ne held rfl
  have present : y ∈ b.piece2pos.insert x pos1 := (AList.mem_insert _).2 (Or.inr (Dict.mem_of_lookup placed))
  let b₁ : Board := { b with
    piece2pos := (b.piece2pos.insert x pos1).erase y
    pos2piece := (b.pos2piece.erase pos).insert pos1 x }
  refine ⟨b₁, ?_, ⟨⟨_, _, _, _, rfl⟩, linked.capture here held legal.differ, ?_, by simp [b₁], fun _ _ => rfl⟩⟩
  · rw [capture, Dict.del_eq present, Py.ok_bind, Dict.del_eq (Dict.mem_of_lookup here)]
    rfl
  · intro q
    show ((b.pos2piece.erase pos).insert pos1 x).lookup q = _
    rw [Game.settled, stands, if_pos rfl, Dict.lookup_insert, Dict.lookup_erase, Function.update_apply,
      Function.update_apply]
    rfl

/-- Attacker and defender leave the board. -/
theorem bothFall_spec (linked : Dict.Linked b.pos2piece b.piece2pos) (legal : b.game.Move x pos pos1) {y : Piece}
    (held : b.pos2piece.lookup pos1 = some y) (falls : b.game.meet x pos1 = ⟨false, true⟩) :
    ∃ b₁, b.bothFall x y pos pos1 = .ok b₁ ∧
      Becomes b b₁ (b.game.settled x pos pos1) b.piecesCount [] := by
  have here : b.pos2piece.lookup pos = some x := legal.holds
  have linked₁ := linked.erase here
  have differ : y ≠ x := by
    rintro rfl
    exact legal.foe_ne held rfl
  have held₁ : (b.pos2piece.erase pos).lookup pos1 = some y := by
    rw [Dict.lookup_erase, if_neg legal.differ.symm, held]
  have linked₂ := linked₁.erase held₁
  let b₁ : Board := { b with
    piece2pos := (b.piece2pos.erase x).erase y
    pos2piece := (b.pos2piece.erase pos).erase pos1 }
  refine ⟨b₁, ?_, ⟨⟨_, _, _, _, rfl⟩, linked₂, ?_, by simp [b₁], fun _ _ => rfl⟩⟩
  · rw [bothFall, Dict.del_eq (Dict.mem_of_lookup ((linked pos x).1 here)), Py.ok_bind,
      Dict.del_eq (Dict.mem_of_lookup ((linked₁ pos1 y).1 held₁)), Py.ok_bind,
      Dict.del_eq (Dict.mem_of_lookup here), Py.ok_bind, Dict.del_eq (Dict.mem_of_lookup held₁)]
    rfl
  · intro q
    show ((b.pos2piece.erase pos).erase pos1).lookup q = _
    rw [Game.settled, falls, if_neg Bool.false_ne_true, if_pos rfl, Dict.lookup_erase, Dict.lookup_erase,
      Function.update_apply, Function.update_apply]
    rfl

/-- The attacker goes to a free square. -/
theorem advance_spec (linked : Dict.Linked b.pos2piece b.piece2pos) (legal : b.game.Move x pos pos1)
    (free : b.pos2piece.lookup pos1 = none) :
    Becomes b { b with
      piece2pos := b.piece2pos.insert x pos1
      pos2piece := (b.pos2piece.erase pos).insert pos1 x } (b.game.settled x pos pos1) b.piecesCount [] := by
  refine ⟨⟨_, _, _, _, rfl⟩, linked.move legal.holds free, ?_, by simp, fun _ _ => rfl⟩
  intro q
  have stands : (b.game.meet x pos1).stands = true := by
    simp [Game.meet, game, free]
  show ((b.pos2piece.erase pos).insert pos1 x).lookup q = _
  rw [Game.settled, stands, if_pos rfl, Dict.lookup_insert, Dict.lookup_erase, Function.update_apply,
    Function.update_apply]
  rfl

/-- The attacker leaves the board. -/
theorem fall_spec (linked : Dict.Linked b.pos2piece b.piece2pos) (legal : b.game.Move x pos pos1)
    (falls : b.game.meet x pos1 = ⟨false, false⟩) :
    Becomes b { b with piece2pos := b.piece2pos.erase x, pos2piece := b.pos2piece.erase pos }
      (b.game.settled x pos pos1) b.piecesCount [] := by
  refine ⟨⟨_, _, _, _, rfl⟩, linked.erase legal.holds, ?_, by simp, fun _ _ => rfl⟩
  intro q
  show (b.pos2piece.erase pos).lookup q = _
  rw [Game.settled, falls, if_neg Bool.false_ne_true, if_neg Bool.false_ne_true, Dict.lookup_erase,
    Function.update_apply, Function.update_apply]
  split
  · rename_i start
    rw [if_neg]
    intro target
    exact legal.differ (start.symm.trans target)
  · split
    · rename_i target
      rw [target]
      rfl
    · rfl

/-! ## Counting -/

theorem update_kept {count : Player → Int} {p p' : Player} (differ : p ≠ p') (c : Int) :
    Function.update (Function.update count p c) p' (count p') = Function.update count p c := by
  rw [Function.update_comm differ, Function.update_eq_self]

/-- After the attacker's side has been settled. -/
def OwnSettled (b b₁ : Board) (x : Piece) (pos pos1 : Pos) : Prop :=
  Becomes b b₁ (cleared (b.game.ownDeath x pos1) (b.game.settled x pos pos1))
    (Function.update b.piecesCount x.player (b.game.countAfter x pos1 x.player)) (b.game.ownDeath x pos1)

/-- After both sides have been settled. -/
def Settled (b b₁ : Board) (x : Piece) (pos pos1 : Pos) : Prop :=
  Becomes b b₁ (cleared (b.game.dying x pos1) (b.game.settled x pos pos1)) (b.game.countAfter x pos1)
    (b.game.dying x pos1)

variable (sound : b.game.Sound) (legal : b.game.Move x pos pos1)
include sound legal

/-- A lost attacker is counted. -/
theorem ownSettled_spent (moved : Becomes b b₁ (b.game.settled x pos pos1) b.piecesCount [])
    (spent : b.game.spent x pos1 = true) :
    ∃ b₂, b₁.countDown x.player = .ok (b₂, (if x.player ∈ b.game.dying x pos1 then
        worth rewardMap (b.game.settled x pos pos1) x.player else 0), b.game.ownDeath x pos1) ∧
      b.OwnSettled b₂ x pos pos1 := by
  have after := Game.countAfter_attacker sound legal
  rw [spent, if_pos rfl] at after
  have squares : (b₁.pos2piece.lookup ·) = b.game.settled x pos pos1 := funext moved.square
  have counts : b₁.piecesCount = b.piecesCount := by
    obtain ⟨m, n, d, I, rfl⟩ := moved.frame
    rfl
  obtain ⟨b₂, run, swept⟩ := countDown_spec moved.linked x.player
    (show b.game.ownDeath x pos1 = _ by rw [counts, Game.ownDeath, after]; rfl)
  rw [counts, squares] at run swept
  change b.game.countAfter x pos1 x.player = b.piecesCount x.player - 1 at after
  refine ⟨b₂, ?_, ?_⟩
  · rw [run, ← after]
    simp only [Game.attacker_dies_iff legal]
  · rw [← after] at swept
    exact moved.trans swept

/-- An attacker that stays in the tally is not counted. -/
theorem ownSettled_kept (moved : Becomes b b₁ (b.game.settled x pos pos1) b.piecesCount [])
    (kept : b.game.spent x pos1 = false) :
    b.game.ownDeath x pos1 = [] ∧ b.OwnSettled b₁ x pos pos1 := by
  have after := Game.countAfter_attacker sound legal
  have count := sound.count_pos legal.holds
  rw [kept, if_neg Bool.false_ne_true, sub_zero] at after
  have lives : b.game.ownDeath x pos1 = [] := by
    rw [Game.ownDeath, if_neg]
    omega
  refine ⟨lives, ?_⟩
  rw [OwnSettled, lives, cleared_nil, after]
  show Becomes b b₁ _ (Function.update b.piecesCount x.player (b.piecesCount x.player)) []
  rw [Function.update_eq_self]
  exact moved

omit sound in
theorem foe_spared {y : Piece} (held : b.pos2piece.lookup pos1 = some y) :
    y.player ∉ b.game.ownDeath x pos1 := by
  have differ := legal.foe_ne held
  unfold Game.ownDeath
  split
  · simpa using differ.symm
  · simp

omit sound legal in
/-- The tallies, once the defender's is known. -/
theorem counts_eq {y : Piece} (held : b.pos2piece.lookup pos1 = some y) :
    Function.update (Function.update b.piecesCount x.player (b.game.countAfter x pos1 x.player)) y.player
      (b.game.countAfter x pos1 y.player) = b.game.countAfter x pos1 := by
  have square : b.game.square pos1 = some y := held
  have split := @Game.countAfter_eq_update b.game x pos1
  rw [square] at split
  exact split.symm

/-- A fallen defender is counted. -/
theorem settled_counted (own : b.OwnSettled b₁ x pos pos1) {y : Piece} (held : b.pos2piece.lookup pos1 = some y)
    (falls : (b.game.meet x pos1).falls = true) (field : pos1 ∉ headquarters) (mine : y.role ≠ 0) :
    ∃ b₂, b₁.countDown y.player = .ok (b₂, (if y.player ∈ b.game.dying x pos1 then
        worth rewardMap (b.game.settled x pos pos1) y.player else 0), b.game.foeDeath x pos1) ∧
      b.Settled b₂ x pos pos1 := by
  have square : b.game.square pos1 = some y := held
  have flag : y.role ≠ 11 := fun flag => field (sound.flag_home pos1 y held flag)
  have after := Game.countAfter_defender legal square
  rw [if_pos ⟨falls, field⟩, tallied, if_neg (by simp [mine, flag])] at after
  have squares : (b₁.pos2piece.lookup ·) = cleared (b.game.ownDeath x pos1) (b.game.settled x pos pos1) :=
    funext own.square
  have counts : b₁.piecesCount =
      Function.update b.piecesCount x.player (b.game.countAfter x pos1 x.player) := by
    obtain ⟨m, n, d, I, rfl⟩ := own.frame
    rfl
  have entry : b₁.piecesCount y.player - 1 = b.game.countAfter x pos1 y.player := by
    rw [counts, Function.update_of_ne (legal.foe_ne held).symm, after]
    rfl
  have dies : b.game.foeDeath x pos1 = if b₁.piecesCount y.player - 1 = 0 then [y.player] else [] := by
    rw [Game.foeDeath, square, Option.elim_some, entry]
    simp only [flag, false_or]
  obtain ⟨b₂, run, swept⟩ := countDown_spec (b := b₁) own.linked y.player dies
  refine ⟨b₂, ?_, ?_⟩
  · rw [run, entry, squares, worth_cleared, if_neg (foe_spared legal held)]
    simp only [Game.defender_dies_iff legal square, flag, false_or]
  · have both := own.trans swept
    rw [squares, cleared_cleared, entry, counts, counts_eq held] at both
    exact both

/-- A defender outside the tally is not counted. -/
theorem settled_uncounted (own : b.OwnSettled b₁ x pos pos1)
    (spared : ∀ y, b.pos2piece.lookup pos1 = some y → y.role ≠ 11 ∧
      ((b.game.meet x pos1).falls = true ∧ pos1 ∉ headquarters → tallied y.role = 0)) :
    b.game.foeDeath x pos1 = [] ∧ b.Settled b₁ x pos pos1 := by
  have lives := Game.foeDeath_eq_nil sound legal spared
  refine ⟨lives, ?_⟩
  have counts : Function.update b.piecesCount x.player (b.game.countAfter x pos1 x.player) =
      b.game.countAfter x pos1 := by
    have split := @Game.countAfter_eq_update b.game x pos1
    cases held : b.game.square pos1 with
    | none =>
      rw [held] at split
      exact split.symm
    | some y =>
      have after := Game.countAfter_defender legal held
      have same : b.game.countAfter x pos1 y.player = b.piecesCount y.player := by
        rw [after]
        split
        · rename_i fell
          rw [(spared y held).2 fell, sub_zero]
          rfl
        · rw [sub_zero]
          rfl
      refine Eq.trans ?_ (counts_eq held)
      rw [same, update_kept (legal.foe_ne held)]
  rw [Settled, Game.dying, lives, List.append_nil, ← counts]
  exact own

/-- The seat whose flag is taken is swept. -/
theorem settled_flag (own : b.OwnSettled b₁ x pos pos1) {y : Piece} (held : b.pos2piece.lookup pos1 = some y)
    (flag : y.role = 11) :
    ∃ b₂, b₁.updateDeadPlayers y.player = .ok (b₂, worth rewardMap (b.game.settled x pos pos1) y.player) ∧
      b.game.foeDeath x pos1 = [y.player] ∧ b.Settled b₂ x pos pos1 := by
  have square : b.game.square pos1 = some y := held
  have home := sound.flag_home pos1 y held flag
  have squares : (b₁.pos2piece.lookup ·) = cleared (b.game.ownDeath x pos1) (b.game.settled x pos pos1) :=
    funext own.square
  have dies : b.game.foeDeath x pos1 = [y.player] := by
    rw [Game.foeDeath, square, Option.elim_some, if_pos (Or.inl flag)]
  have after := Game.countAfter_defender legal square
  rw [if_neg fun h => h.2 home, sub_zero] at after
  have counts : b₁.piecesCount = b.game.countAfter x pos1 := by
    have entry : b₁.piecesCount =
        Function.update b.piecesCount x.player (b.game.countAfter x pos1 x.player) := by
      obtain ⟨m, n, d, I, rfl⟩ := own.frame
      rfl
    refine entry.trans (Eq.trans ?_ (counts_eq held))
    rw [after]
    exact (update_kept (legal.foe_ne held) _).symm
  obtain ⟨b₂, run, swept⟩ := updateDeadPlayers_spec (b := b₁) own.linked y.player
  refine ⟨b₂, ?_, dies, ?_⟩
  · rw [run, squares, worth_cleared, if_neg (foe_spared legal held)]
  · have both := own.trans swept
    rw [squares, cleared_cleared, counts, ← dies] at both
    exact both

end Stages

/-! ## The masks -/

/-- `b'` is in the position `g`, with the same action numbers as `b` and valid masks. -/
structure Step (b b' : Board) (g : Game) : Prop where
  game : b'.game = g
  linked : Dict.Linked b'.pos2piece b'.piece2pos
  layout : b'.layout = b.layout
  action2piece : b'.action2piece = b.action2piece
  piece2action : b'.piece2action = b.piece2action
  engineerPieces : b'.engineerPieces = b.engineerPieces
  masked : b'.Masked

section Finish

variable {x : Piece} {pos pos1 : Pos} (linked : Dict.Linked b.pos2piece b.piece2pos) (roster : b.Roster)
  (masked : b.Masked) (legal : b.game.Move x pos pos1) (done : b.Settled b₁ x pos pos1)

theorem settled_frame {g : Game} {q : Pos} (start : q ≠ pos) (target : q ≠ pos1) :
    g.settled x pos pos1 q = g.square q := by
  rw [Game.settled, Function.update_of_ne target, Function.update_of_ne start]

theorem settled_start {g : Game} (differ : pos ≠ pos1) : g.settled x pos pos1 pos = none := by
  rw [Game.settled, Function.update_of_ne differ, Function.update_self]

theorem settled_target {g : Game} : g.settled x pos pos1 pos1 =
    if (g.meet x pos1).stands then some x else if (g.meet x pos1).falls then none else g.square pos1 := by
  rw [Game.settled, Function.update_self]

include done in
theorem Settled.move_game : b₁.game = (b.game.move x pos pos1).1 := Becomes.game done

include linked masked legal done

/-- Nobody dies: the influenced pieces are marked. -/
theorem finish_quiet (lives : b.game.dying x pos1 = []) (pieces : List Piece) (positions : List Pos)
    (start : pos ∈ positions) (attacker : x ∈ pieces)
    (target : b.game.settled x pos pos1 pos1 ≠ b.pos2piece.lookup pos1 →
      pos1 ∈ positions ∧ ∀ y, b.pos2piece.lookup pos1 = some y → y ∈ pieces) :
    ∃ b', b₁.updateInfluencedPieces pieces positions = .ok b' ∧ Step b b' (b.game.move x pos pos1).1 := by
  obtain ⟨I, run, covers⟩ := @updateInfluencedPieces_spec b₁ pieces positions
  have after : ∀ q, b₁.pos2piece.lookup q = b.game.settled x pos pos1 q := by
    intro q
    rw [done.square, lives, cleared_nil]
  have place : ∀ q, b.pos2piece.lookup q ≠ b₁.pos2piece.lookup q → q = pos ∨ q = pos1 := by
    intro q changed
    apply Classical.byContradiction
    intro far
    rw [not_or] at far
    rw [after, settled_frame far.1 far.2] at changed
    exact changed rfl
  have changed1 : b.pos2piece.lookup pos1 ≠ b₁.pos2piece.lookup pos1 →
      pos1 ∈ positions ∧ ∀ y, b.pos2piece.lookup pos1 = some y → y ∈ pieces := by
    intro changed
    rw [after] at changed
    exact target changed.symm
  have game := done.move_game
  obtain ⟨m, n, d, I₁, frame⟩ := done.frame
  refine ⟨_, run, game, done.linked, by rw [frame], by rw [frame], by rw [frame], by rw [frame], ?_⟩
  refine masked_quiet masked (by rw [frame]) (by rw [frame]) (fun p h => (done.dead p).2 (Or.inl h))
    done.linked ?_ ?_ ?_
  · intro z mem
    refine covers z (Or.inl ?_)
    rw [done.influenced _ (by rw [lives]; exact List.not_mem_nil)]
    exact mem
  · intro z armed q changed noticed
    refine covers z (Or.inr ⟨armed, Or.inr ⟨q, ?_, noticed⟩⟩)
    rcases place q changed with rfl | rfl
    · exact start
    · exact (changed1 changed).1
  · intro z armed moved
    refine covers z (Or.inr ⟨armed, Or.inl ?_⟩)
    change b.piece2pos.lookup z ≠ b₁.piece2pos.lookup z at moved
    -- the square that `z` has left or entered
    have shifted : ∃ q, b.pos2piece.lookup q ≠ b₁.pos2piece.lookup q ∧
        (b.pos2piece.lookup q = some z ∨ b₁.pos2piece.lookup q = some z) := by
      cases was : b.piece2pos.lookup z with
      | some q =>
        refine ⟨q, ?_, Or.inl ((linked q z).2 was)⟩
        intro same
        rw [(linked q z).2 was] at same
        rw [was, (done.linked q z).1 same.symm] at moved
        exact moved rfl
      | none =>
        obtain ⟨q, is⟩ := Option.ne_none_iff_exists'.1 (was ▸ moved).symm
        refine ⟨q, ?_, Or.inr ((done.linked q z).2 is)⟩
        intro same
        rw [(done.linked q z).2 is, linked, was] at same
        cases same
    obtain ⟨q, changed, held⟩ := shifted
    have here : b.pos2piece.lookup pos = some x := legal.holds
    rcases place q changed with rfl | rfl
    · rcases held with held | held
      · rw [here, Option.some.injEq] at held
        exact held ▸ attacker
      · rw [after, settled_start legal.differ] at held
        cases held
    · rcases held with held | held
      · exact (changed1 changed).2 z held
      · rw [after, settled_target] at held
        rw [after, settled_target] at changed
        split at held
        · rw [Option.some.injEq] at held
          exact held ▸ attacker
        · rename_i falls
          rw [if_neg falls] at changed
          split at held
          · cases held
          · rename_i stays
            rw [if_neg stays] at changed
            exact absurd rfl changed

include roster

/-- Somebody dies: all masks are refreshed. -/
theorem finish_sweep (delPieces : List Piece)
    (attacker : (b.game.meet x pos1).stands = false → x ∈ delPieces)
    (defender : ∀ y, b.pos2piece.lookup pos1 = some y → b.game.settled x pos pos1 pos1 ≠ some y → y ∈ delPieces) :
    ∃ b', b₁.updateMask ord delPieces = .ok b' ∧ Step b b' (b.game.move x pos pos1).1 := by
  have game := done.move_game
  obtain ⟨m, n, d, I₁, frame⟩ := done.frame
  have roster₁ : b₁.Roster := by
    rw [frame]
    exact ⟨roster.linked, roster.bound, roster.full, roster.engineers⟩
  have spared : ∀ p, p ∉ b₁.deadPlayers → p ∉ b.game.dying x pos1 := fun p living dies =>
    living ((done.dead p).2 (Or.inr dies))
  obtain ⟨M, run, masked'⟩ := masked_sweep ord masked roster₁ done.linked (by rw [frame])
    (by rw [frame]) (fun p h => (done.dead p).2 (Or.inl h)) (by
      intro z living mem
      rw [done.influenced _ (spared _ living)]
      exact mem) delPieces (by
      intro z living off
      cases was : b.piece2pos.lookup z with
      | none => exact Or.inl rfl
      | some q =>
        right
        have held := (linked q z).2 was
        have gone : ∀ r, b.game.settled x pos pos1 r ≠ some z := by
          intro r there
          have there' : b₁.pos2piece.lookup r = some z := by
            rw [done.square, cleared_eq_some]
            exact ⟨there, spared _ living⟩
          rw [(done.linked r z).1 there'] at off
          cases off
        have here : b.pos2piece.lookup pos = some x := legal.holds
        by_cases start : q = pos
        · subst start
          rw [here, Option.some.injEq] at held
          subst held
          apply attacker
          cases stands : (b.game.meet x pos1).stands with
          | false => rfl
          | true => exact absurd (by rw [settled_target, stands, if_pos rfl]) (gone pos1)
        · by_cases target : q = pos1
          · subst target
            exact defender z held (gone q)
          · exact absurd ((settled_frame start target).trans held) (gone q))
  exact ⟨_, run, game, done.linked, by rw [frame], by rw [frame], by rw [frame], by rw [frame], masked'⟩

end Finish

/-! ## The branches -/

section Branches

variable {x : Piece} {pos pos1 : Pos}

/-- The code returns the verdict, part by part. -/
theorem outcome_eq {g : Game} {b' : Board} (path : List Pos) {result : Nat} {flags : List Nat}
    {dead : List Player} {reward : ℚ} (sameResult : g.result x pos1 = result)
    (sameFlags : (g.exposed x pos1).map g.flagPos = flags) (sameDead : g.dying x pos1 = dead)
    (sameReward : g.gain x pos pos1 = reward) :
    (pure (b', ⟨result, path, flags, dead, reward⟩) : Py (Board × Outcome)) =
      .ok (b', (g.move x pos pos1).2.outcome path) := by
  subst sameResult sameFlags sameDead sameReward
  rfl

variable (linked : Dict.Linked b.pos2piece b.piece2pos) (roster : b.Roster)
  (masked : b.Masked) (sound : b.game.Sound) (legal : b.game.Move x pos pos1) (path : List Pos)
include linked roster masked sound legal

theorem walk_spec (free : b.pos2piece.lookup pos1 = none) :
    ∃ b', b.walk ord x.player x pos pos1 path (decide (pos1 ∈ headquarters)) =
        .ok (b', (b.game.move x pos pos1).2.outcome path) ∧ Step b b' (b.game.move x pos pos1).1 := by
  have square : b.game.square pos1 = none := free
  have meet : b.game.meet x pos1 = ⟨true, false⟩ := by
    rw [Game.meet, square]
  have victim : b.game.victim x pos1 = none := by
    rw [Game.victim, meet, if_neg fun h => Bool.false_ne_true h.1]
  have flags : (b.game.exposed x pos1).map b.game.flagPos = [] := by
    simp [Game.exposed, meet, square]
  have result : b.game.result x pos1 = 0 := by
    rw [Game.result, if_pos square]
  have moved := advance_spec linked legal free
  have nobody : ∀ y, b.pos2piece.lookup pos1 = some y → y.role ≠ 11 ∧
      ((b.game.meet x pos1).falls = true ∧ pos1 ∉ headquarters → tallied y.role = 0) := by
    intro y held
    rw [free] at held
    cases held
  -- the pieces and squares that are marked when nobody dies
  have target : b.game.settled x pos pos1 pos1 ≠ b.pos2piece.lookup pos1 →
      pos1 ∈ [pos, pos1] ∧ ∀ y, b.pos2piece.lookup pos1 = some y → y ∈ [x] :=
    fun _ => ⟨by simp, fun y held => by rw [free] at held; cases held⟩
  unfold walk
  rw [Dict.del_eq (Dict.mem_of_lookup legal.holds), Py.ok_bind]
  by_cases home : pos1 ∈ headquarters
  · have spent : b.game.spent x pos1 = true := by
      simp [Game.spent, home]
    obtain ⟨b₂, run, own⟩ := ownSettled_spent sound legal moved spent
    obtain ⟨foe, done⟩ := settled_uncounted sound legal own nobody
    have dying : b.game.dying x pos1 = b.game.ownDeath x pos1 := by
      rw [Game.dying, foe, List.append_nil]
    have gain : b.game.gain x pos pos1 = 0 - rewardMap x.role -
        if x.player ∈ b.game.dying x pos1 then worth rewardMap (b.game.settled x pos pos1) x.player else 0 := by
      rw [Game.gain, spent, victim, square, if_pos rfl, Option.elim_none, Option.elim_none]
      ring
    simp only [home, decide_true, if_true, run, Py.ok_bind]
    by_cases dies : b.game.ownDeath x pos1 = []
    · obtain ⟨b', quiet, step⟩ := finish_quiet linked masked legal done (dying.trans dies) [x] [pos, pos1]
        (by simp) (by simp) target
      refine ⟨b', ?_, step⟩
      rw [if_neg (not_not.2 dies), quiet, Py.ok_bind]
      refine outcome_eq path result flags (dying.trans dies) (gain.trans ?_)
      rw [if_neg (by rw [dying, dies]; exact List.not_mem_nil), sub_zero]
    · obtain ⟨b', sweep, step⟩ := finish_sweep ord linked roster masked legal done []
        (by simp [meet]) (fun y held => by rw [free] at held; cases held)
      refine ⟨b', ?_, step⟩
      rw [if_pos dies, sweep, Py.ok_bind]
      exact outcome_eq path result flags dying gain
  · have kept : b.game.spent x pos1 = false := by
      simp [Game.spent, home, meet]
    obtain ⟨lives, own⟩ := ownSettled_kept sound legal moved kept
    obtain ⟨foe, done⟩ := settled_uncounted sound legal own nobody
    have dying : b.game.dying x pos1 = [] := by
      rw [Game.dying, foe, lives, List.append_nil]
    obtain ⟨b', quiet, step⟩ := finish_quiet linked masked legal done dying [x] [pos, pos1]
      (by simp) (by simp) target
    refine ⟨b', ?_, step⟩
    simp only [home, decide_false, Bool.false_eq_true, if_false]
    rw [quiet, Py.ok_bind]
    refine outcome_eq path result flags dying ?_
    rw [Game.gain, kept, victim, square, dying, if_neg Bool.false_ne_true, Option.elim_none, Option.elim_none,
      if_neg List.not_mem_nil]
    norm_num

theorem takeFlag_spec {y : Piece} (held : b.pos2piece.lookup pos1 = some y) (flag : y.role = 11) :
    ∃ b', b.takeFlag ord x.player x pos pos1 path y =
        .ok (b', (b.game.move x pos pos1).2.outcome path) ∧ Step b b' (b.game.move x pos pos1).1 := by
  have square : b.game.square pos1 = some y := held
  have home := sound.flag_home pos1 y held flag
  have meet : b.game.meet x pos1 = ⟨decide (x.role ≠ 10), true⟩ := by
    rw [Game.meet, square]
    show clash x.role y.role = _
    rw [clash, if_pos flag]
  have victim : b.game.victim x pos1 = none := by
    rw [Game.victim, if_neg fun h => h.2 home]
  have spent : b.game.spent x pos1 = true := by
    simp [Game.spent, home]
  have flags : (b.game.exposed x pos1).map b.game.flagPos = [] := by
    rw [Game.exposed, meet, square, if_neg, Option.elim_some, if_neg]
    · rfl
    · rintro ⟨commander, _⟩
      rw [flag] at commander
      exact absurd commander (by decide)
    · rintro ⟨commander, bomb, _⟩
      rw [commander] at bomb
      exact absurd bomb (by decide)
  have result : b.game.result x pos1 = if x.role = 10 then 3 else 1 := by
    rw [Game.result, square, meet, if_neg (by simp)]
    by_cases bomb : x.role = 10 <;> simp [bomb]
  obtain ⟨b₁, run₁, moved⟩ : ∃ b₁, (if x.role = 10 then b.bothFall x y pos pos1 else b.capture x y pos pos1) =
      .ok b₁ ∧ Becomes b b₁ (b.game.settled x pos pos1) b.piecesCount [] := by
    by_cases bomb : x.role = 10
    · rw [if_pos bomb]
      exact bothFall_spec linked legal held (by simp [meet, bomb])
    · rw [if_neg bomb]
      exact capture_spec linked legal held (by simp [meet, bomb])
  obtain ⟨b₂, run₂, own⟩ := ownSettled_spent sound legal moved spent
  obtain ⟨b₃, run₃, foe, done⟩ := settled_flag sound legal own held flag
  obtain ⟨b', sweep, step⟩ := finish_sweep ord linked roster masked legal done [x, y]
    (by simp) (fun y' held' _ => by rw [held, Option.some.injEq] at held'; simp [held'])
  refine ⟨b', ?_, step⟩
  unfold takeFlag
  rw [run₁, Py.ok_bind]
  simp only [run₂, run₃, sweep, Py.ok_bind]
  refine outcome_eq path result flags (by rw [Game.dying, foe]) ?_
  have swept : y.player ∈ b.game.dying x pos1 := (Game.defender_dies_iff legal square).2 (Or.inl flag)
  rw [Game.gain, spent, victim, square, if_pos rfl, Option.elim_none, Option.elim_some, if_pos swept]
  ring

omit roster masked linked in
/-- The defender's loss is counted unless it is a mine or in a headquarters. -/
theorem countDefender_spec (own : b.OwnSettled b₁ x pos pos1) {y : Piece}
    (held : b.pos2piece.lookup pos1 = some y) (soldier : y.role ≠ 11)
    (falls : (b.game.meet x pos1).falls = true) (reward : ℚ) (dead : List Player) :
    ∃ b₂, b₁.countDefender (decide (pos1 ∈ headquarters)) y reward dead =
        .ok (b₂, reward + (if y.player ∈ b.game.dying x pos1 then
          worth rewardMap (b.game.settled x pos pos1) y.player else 0), dead ++ b.game.foeDeath x pos1) ∧
      b.Settled b₂ x pos pos1 := by
  unfold countDefender
  by_cases counted : y.role ≠ 0 ∧ pos1 ∉ headquarters
  · obtain ⟨b₂, run, done⟩ := settled_counted sound legal own held falls counted.2 counted.1
    refine ⟨b₂, ?_, done⟩
    rw [if_pos (by simpa using counted)]
    simp only [run, Py.ok_bind]
    rfl
  · have spared : ∀ y', b.pos2piece.lookup pos1 = some y' → y'.role ≠ 11 ∧
        ((b.game.meet x pos1).falls = true ∧ pos1 ∉ headquarters → tallied y'.role = 0) := by
      intro y' held'
      rw [held, Option.some.injEq] at held'
      subst held'
      refine ⟨soldier, fun field => ?_⟩
      have mine : y.role = 0 := Classical.byContradiction fun other => counted ⟨other, field.2⟩
      simp [tallied, mine]
    obtain ⟨foe, done⟩ := settled_uncounted sound legal own spared
    have safe : y.player ∉ b.game.dying x pos1 := by
      rw [Game.dying, foe, List.append_nil]
      exact foe_spared legal held
    refine ⟨b₁, ?_, done⟩
    rw [if_neg (by simpa using counted), if_neg safe, foe, add_zero, List.append_nil]
    rfl

theorem tie_spec {y : Piece} (held : b.pos2piece.lookup pos1 = some y) (soldier : y.role ≠ 11)
    (even : x.role = 10 ∨ y.role = 10 ∨ x.role = y.role) :
    ∃ b', b.tie ord x.player x pos pos1 path (decide (pos1 ∈ headquarters)) y =
        .ok (b', (b.game.move x pos pos1).2.outcome path) ∧ Step b b' (b.game.move x pos pos1).1 := by
  have square : b.game.square pos1 = some y := held
  have meet : b.game.meet x pos1 = ⟨false, true⟩ := by
    rw [Game.meet, square]
    show clash x.role y.role = _
    rw [clash, if_neg soldier, if_pos even]
  have spent : b.game.spent x pos1 = true := by
    simp [Game.spent, meet]
  have result : b.game.result x pos1 = 3 := by
    simp [Game.result, square, meet]
  have flags : (b.game.exposed x pos1).map b.game.flagPos =
      (if x.role = 1 ∧ x.player ∉ b.game.dying x pos1 then [b.flagPos x.player] else []) ++
        if y.role = 1 ∧ y.player ∉ b.game.dying x pos1 then [b.flagPos y.player] else [] := by
    rw [Game.exposed, meet, square, Option.elim_some, List.map_append]
    simp only [true_and]
    split <;> split <;> rfl
  obtain ⟨b₁, run₁, moved⟩ := bothFall_spec linked legal held meet
  obtain ⟨b₂, run₂, own⟩ := ownSettled_spent sound legal moved spent
  obtain ⟨b₃, run₃, done⟩ := countDefender_spec sound legal own held soldier (by rw [meet])
    ((if decide (pos1 ∈ headquarters) = true then 0 - rewardMap x.role
      else 0 - rewardMap x.role + rewardMap y.role) -
      if x.player ∈ b.game.dying x pos1 then worth rewardMap (b.game.settled x pos pos1) x.player else 0)
    (b.game.ownDeath x pos1)
  obtain ⟨b', run₄, step⟩ : ∃ b', (if b.game.dying x pos1 ≠ [] then b₃.updateMask ord [x, y]
      else b₃.updateInfluencedPieces [x, y] [pos, pos1]) = .ok b' ∧ Step b b' (b.game.move x pos pos1).1 := by
    have defender : ∀ y', b.pos2piece.lookup pos1 = some y' → y' ∈ [x, y] := by
      intro y' held'
      rw [held, Option.some.injEq] at held'
      simp [held']
    by_cases lives : b.game.dying x pos1 = []
    · rw [if_neg (not_not.2 lives)]
      exact finish_quiet linked masked legal done lives _ _ (by simp) (by simp) fun _ => ⟨by simp, defender⟩
    · rw [if_pos lives]
      exact finish_sweep ord linked roster masked legal done _ (by simp) fun y' held' _ => defender y' held'
  refine ⟨b', ?_, step⟩
  unfold tie
  rw [run₁, Py.ok_bind]
  simp only [run₂, Py.ok_bind, run₃]
  change (if b.game.dying x pos1 ≠ [] then _ else _) >>= _ = _
  have keeps : b'.flagPos = b.flagPos := congrArg Game.flagPos step.game
  rw [run₄, Py.ok_bind, keeps]
  refine outcome_eq path result flags rfl ?_
  rw [Game.gain, spent, square, if_pos rfl, Game.victim, meet, square, Option.elim_some]
  by_cases home : pos1 ∈ headquarters
  · simp only [home, not_true_eq_false, and_false, if_false, Option.elim_none, decide_true, if_true]
    ring
  · simp only [home, not_false_eq_true, and_true, if_true, Option.elim_some, decide_false, Bool.false_eq_true,
      if_false]
    ring

theorem win_spec {y : Piece} (held : b.pos2piece.lookup pos1 = some y) (soldier : y.role ≠ 11)
    (uneven : ¬ (x.role = 10 ∨ y.role = 10 ∨ x.role = y.role))
    (beats : (x.role = 9 ∧ y.role = 0) ∨ (x.role < y.role ∧ ¬ (x.role = 0 ∧ y.role = 9))) :
    ∃ b', b.win ord x.player x pos pos1 path (decide (pos1 ∈ headquarters)) y =
        .ok (b', (b.game.move x pos pos1).2.outcome path) ∧ Step b b' (b.game.move x pos pos1).1 := by
  have square : b.game.square pos1 = some y := held
  have meet : b.game.meet x pos1 = ⟨true, true⟩ := by
    rw [Game.meet, square]
    show clash x.role y.role = _
    rw [clash, if_neg soldier, if_neg uneven, if_pos beats]
  have spent : b.game.spent x pos1 = decide (pos1 ∈ headquarters) := by
    simp [Game.spent, meet]
  have result : b.game.result x pos1 = 1 := by
    simp [Game.result, square, meet]
  -- only a mine ranks above a commander, and mines do not attack
  have private_ : y.role ≠ 1 := by
    intro commander
    rcases beats with ⟨_, mine⟩ | ⟨above, _⟩
    · rw [commander] at mine
      exact absurd mine (by decide)
    · rw [commander] at above
      have : x.role = 0 := by
        rw [Fin.lt_def] at above
        exact Fin.ext (Nat.lt_one_iff.1 above)
      exact legal.armed this
  have flags : (b.game.exposed x pos1).map b.game.flagPos = [] := by
    simp [Game.exposed, meet, square, private_]
  obtain ⟨b₁, run₁, moved⟩ := capture_spec linked legal held (by rw [meet])
  obtain ⟨b₂, run₂, own⟩ : ∃ b₂, (if decide (pos1 ∈ headquarters) = true then do
        let down ← b₁.countDown x.player
        pure (down.1, (if decide (pos1 ∈ headquarters) = true then (0 : ℚ) else 0 + rewardMap y.role) -
          rewardMap x.role - down.2.1, down.2.2)
      else pure (b₁, if decide (pos1 ∈ headquarters) = true then (0 : ℚ) else 0 + rewardMap y.role, [])) =
      (.ok (b₂, (if pos1 ∈ headquarters then -rewardMap x.role else rewardMap y.role) -
        (if x.player ∈ b.game.dying x pos1 then worth rewardMap (b.game.settled x pos pos1) x.player else 0),
        b.game.ownDeath x pos1) : Py (Board × ℚ × List Player)) ∧ b.OwnSettled b₂ x pos pos1 := by
    by_cases home : pos1 ∈ headquarters
    · obtain ⟨b₂, run, own⟩ := ownSettled_spent sound legal moved (by simp [spent, home])
      refine ⟨b₂, ?_, own⟩
      simp only [home, decide_true, if_true, run, Py.ok_bind, zero_sub]
      rfl
    · obtain ⟨lives, own⟩ := ownSettled_kept sound legal moved (by simp [spent, home])
      have safe : x.player ∉ b.game.dying x pos1 := by
        rw [Game.attacker_dies_iff legal]
        intro zero
        rw [Game.ownDeath, if_pos zero] at lives
        cases lives
      refine ⟨b₁, ?_, own⟩
      simp only [home, decide_false, Bool.false_eq_true, if_false, zero_add, safe, sub_zero, lives]
      rfl
  obtain ⟨b₃, run₃, done⟩ := countDefender_spec sound legal own held soldier (by rw [meet])
    ((if pos1 ∈ headquarters then -rewardMap x.role else rewardMap y.role) -
      if x.player ∈ b.game.dying x pos1 then worth rewardMap (b.game.settled x pos pos1) x.player else 0)
    (b.game.ownDeath x pos1)
  obtain ⟨b', run₄, step⟩ : ∃ b', (if b.game.dying x pos1 ≠ [] then b₃.updateMask ord [y]
      else b₃.updateInfluencedPieces [x, y] [pos, pos1]) = .ok b' ∧ Step b b' (b.game.move x pos pos1).1 := by
    have defender : ∀ y', b.pos2piece.lookup pos1 = some y' → y' = y := by
      intro y' held'
      rw [held, Option.some.injEq] at held'
      exact held'.symm
    by_cases lives : b.game.dying x pos1 = []
    · rw [if_neg (not_not.2 lives)]
      exact finish_quiet linked masked legal done lives _ _ (by simp) (by simp)
        fun _ => ⟨by simp, fun y' held' => by simp [defender y' held']⟩
    · rw [if_pos lives]
      exact finish_sweep ord linked roster masked legal done _ (by simp [meet])
        fun y' held' _ => by simp [defender y' held']
  refine ⟨b', ?_, step⟩
  unfold win
  rw [run₁, Py.ok_bind]
  dsimp only
  refine (congrArg (· >>= _) run₂).trans ?_
  rw [Py.ok_bind]
  dsimp only
  rw [run₃, Py.ok_bind]
  change (if b.game.dying x pos1 ≠ [] then _ else _) >>= _ = _
  rw [run₄, Py.ok_bind]
  refine outcome_eq path result flags rfl ?_
  rw [Game.gain, spent, square, Game.victim, meet, square, Option.elim_some]
  by_cases home : pos1 ∈ headquarters
  · simp only [home, not_true_eq_false, and_false, if_false, Option.elim_none, decide_true, if_true]
    ring
  · simp only [home, not_false_eq_true, and_true, if_true, Option.elim_some, decide_false, Bool.false_eq_true,
      if_false]
    ring

theorem lose_spec {y : Piece} (held : b.pos2piece.lookup pos1 = some y) (soldier : y.role ≠ 11)
    (uneven : ¬ (x.role = 10 ∨ y.role = 10 ∨ x.role = y.role))
    (beaten : ¬ ((x.role = 9 ∧ y.role = 0) ∨ (x.role < y.role ∧ ¬ (x.role = 0 ∧ y.role = 9)))) :
    ∃ b', b.lose ord x.player x pos path =
        .ok (b', (b.game.move x pos pos1).2.outcome path) ∧ Step b b' (b.game.move x pos pos1).1 := by
  have square : b.game.square pos1 = some y := held
  have meet : b.game.meet x pos1 = ⟨false, false⟩ := by
    rw [Game.meet, square]
    show clash x.role y.role = _
    rw [clash, if_neg soldier, if_neg uneven, if_neg beaten]
  have spent : b.game.spent x pos1 = true := by
    simp [Game.spent, meet]
  have result : b.game.result x pos1 = 2 := by
    simp [Game.result, square, meet]
  have victim : b.game.victim x pos1 = none := by
    rw [Game.victim, meet, if_neg fun h => Bool.false_ne_true h.1]
  have here : b.pos2piece.lookup pos = some x := legal.holds
  obtain ⟨b₂, run₂, own⟩ := ownSettled_spent sound legal (fall_spec linked legal meet) spent
  have spared : ∀ y', b.pos2piece.lookup pos1 = some y' → y'.role ≠ 11 ∧
      ((b.game.meet x pos1).falls = true ∧ pos1 ∉ headquarters → tallied y'.role = 0) := by
    intro y' held'
    rw [held, Option.some.injEq] at held'
    subst held'
    refine ⟨soldier, fun field => ?_⟩
    rw [meet] at field
    cases field.1
  obtain ⟨foe, done⟩ := settled_uncounted sound legal own spared
  have dying : b.game.dying x pos1 = b.game.ownDeath x pos1 := by
    rw [Game.dying, foe, List.append_nil]
  have safe : y.player ∉ b.game.dying x pos1 := by
    rw [dying]
    exact foe_spared legal held
  have flags : (b.game.exposed x pos1).map b.game.flagPos =
      if x.role = 1 ∧ x.player ∉ b.game.ownDeath x pos1 then [b.flagPos x.player] else [] := by
    rw [Game.exposed, meet, square, dying, Option.elim_some]
    simp only [true_and, Bool.false_eq_true, false_and, and_false, if_false, List.append_nil]
    split <;> rfl
  have stays : b.game.settled x pos pos1 pos1 = b.pos2piece.lookup pos1 := by
    rw [settled_target, meet]
    rfl
  obtain ⟨b', run₃, step⟩ : ∃ b', (if b.game.ownDeath x pos1 ≠ [] then b₂.updateMask ord [x]
      else b₂.updateInfluencedPieces [x] [pos]) = .ok b' ∧ Step b b' (b.game.move x pos pos1).1 := by
    by_cases lives : b.game.ownDeath x pos1 = []
    · rw [if_neg (not_not.2 lives)]
      exact finish_quiet linked masked legal done (dying.trans lives) _ _ (by simp) (by simp)
        fun changed => absurd stays changed
    · rw [if_pos lives]
      exact finish_sweep ord linked roster masked legal done _ (by simp)
        fun y' held' moved => absurd (stays.trans held') moved
  refine ⟨b', ?_, step⟩
  unfold lose
  rw [Dict.del_eq (Dict.mem_of_lookup ((linked pos x).1 here)), Py.ok_bind,
    Dict.del_eq (Dict.mem_of_lookup here), Py.ok_bind]
  simp only [run₂, Py.ok_bind]
  have keeps : b'.flagPos = b.flagPos := congrArg Game.flagPos step.game
  rw [run₃, Py.ok_bind, keeps]
  refine outcome_eq path result flags dying ?_
  rw [Game.gain, spent, victim, square, if_pos rfl, Option.elim_none, Option.elim_some, if_neg safe]
  ring

end Branches

/-! ## Whole actions -/

/-- Everything the mask and the dictionaries rely on. -/
structure Inv (b : Board) : Prop where
  linked : Dict.Linked b.pos2piece b.piece2pos
  roster : b.Roster
  masked : b.Masked
  sound : b.game.Sound

theorem Step.inv {b' : Board} {g : Game} (h : Step b b' g) (inv : b.Inv) (sound : g.Sound) : b'.Inv := by
  refine ⟨h.linked, ⟨?_, ?_, ?_, ?_⟩, h.masked, h.game ▸ sound⟩
  · rw [h.action2piece, h.piece2action]
    exact inv.roster.linked
  · rw [h.piece2action]
    exact inv.roster.bound
  · rw [h.action2piece]
    exact inv.roster.full
  · rw [h.piece2action, h.engineerPieces]
    exact inv.roster.engineers

/-- The action is a move of `x` that the rules allow. -/
structure Plays (b : Board) (player : Player) (action : Nat) (x : Piece) (pos pos1 : Pos) : Prop where
  move : action ≠ 5934
  decode : b.decode player action = .ok (x, pos1)
  owner : x.player = player
  placed : b.piece2pos.lookup x = some pos
  armed : x.role ≠ 0
  can : CanMove (b.pos2piece.lookup ·) x pos pos1

variable {player : Player} {action : Nat} {x : Piece} {pos pos1 : Pos}

theorem Plays.legal (plays : b.Plays player action x pos pos1) (inv : b.Inv) : b.game.Move x pos pos1 := by
  obtain ⟨differ, outside, foe, _⟩ := plays.can.facts
  exact ⟨(inv.linked pos x).2 plays.placed, plays.armed, outside, differ.symm, foe⟩

/-- **A legal move is played without an error and by the rules.** -/
theorem update_spec (ord : RailOrder) (inv : b.Inv) (plays : b.Plays player action x pos pos1) :
    ∃ b' path, b.update ord player action = .ok (b', (b.game.move x pos pos1).2.outcome path) ∧
      b.getPath ord x pos1 = .ok path ∧ Step b b' (b.game.move x pos pos1).1 := by
  have legal := plays.legal inv
  have held := (inv.linked pos x).2 plays.placed
  obtain ⟨mv, l, _, _, _, run⟩ := getPath_spec ord plays.placed held plays.can
  obtain rfl := plays.owner
  unfold update
  rw [if_neg plays.move, plays.decode, Py.ok_bind]
  simp only [run, Py.ok_bind]
  rw [if_neg (by simp)]
  have start : pyAssert (decide (pos ≠ pos1)) = .ok () := by
    rw [decide_eq_true legal.differ]
    rfl
  show ∃ b' path, ((b.piece2pos.get x >>= _) : Py (Board × Outcome)) = _ ∧ _ ∧ _
  rw [Dict.get_eq plays.placed]
  simp only [Py.ok_bind, start]
  obtain ⟨linked, roster, masked, sound⟩ := inv
  cases target : b.pos2piece.lookup pos1 with
  | none =>
    obtain ⟨b', run', step⟩ := walk_spec ord linked roster masked sound legal _ target
    exact ⟨b', _, run', rfl, step⟩
  | some y =>
    dsimp only
    by_cases flag : y.role = 11
    · rw [if_pos flag]
      obtain ⟨b', run', step⟩ := takeFlag_spec ord linked roster masked sound legal _ target flag
      exact ⟨b', _, run', rfl, step⟩
    · rw [if_neg flag]
      by_cases even : x.role = 10 ∨ y.role = 10 ∨ x.role = y.role
      · rw [if_pos even]
        obtain ⟨b', run', step⟩ := tie_spec ord linked roster masked sound legal _ target flag even
        exact ⟨b', _, run', rfl, step⟩
      · rw [if_neg even]
        by_cases beats : (x.role = 9 ∧ y.role = 0) ∨ (x.role < y.role ∧ ¬ (x.role = 0 ∧ y.role = 9))
        · rw [if_pos beats]
          obtain ⟨b', run', step⟩ := win_spec ord linked roster masked sound legal _ target flag even beats
          exact ⟨b', _, run', rfl, step⟩
        · rw [if_neg beats]
          obtain ⟨b', run', step⟩ := lose_spec ord linked roster masked sound legal _ target flag even beats
          exact ⟨b', _, run', rfl, step⟩

/-- **A skip is played without an error and by the rules.** -/
theorem skip_spec (ord : RailOrder) (inv : b.Inv) (p : Player) :
    ∃ b', b.update ord p 5934 = .ok (b', (b.game.pass p).2.outcome []) ∧ Step b b' (b.game.pass p).1 := by
  let counted : Board := { b with stepCount := Function.update b.stepCount p (b.stepCount p + 1) }
  have entry : counted.stepCount p = b.stepCount p + 1 := Function.update_self ..
  unfold update
  rw [if_pos rfl]
  unfold skip
  change ∃ b', (if counted.stepCount p = 5 then _ else _) = _ ∧ _
  rw [entry]
  by_cases fifth : b.stepCount p + 1 = 5
  · have pass : b.game.pass p = ({ b.game with skips := counted.stepCount }.bury [p],
        ⟨4, [], [p], -worth rewardMap b.game.square p⟩) := by
      exact if_pos fifth
    obtain ⟨b₁, run, swept⟩ := updateDeadPlayers_spec (b := counted) inv.linked p
    obtain ⟨m, n, d, I, frame⟩ := swept.frame
    have roster₁ : b₁.Roster := by
      rw [frame]
      exact ⟨inv.roster.linked, inv.roster.bound, inv.roster.full, inv.roster.engineers⟩
    obtain ⟨M, sweep, masked⟩ := masked_sweep ord inv.masked roster₁ swept.linked (by rw [frame])
      (by rw [frame]) (fun p' h => (swept.dead p').2 (Or.inl h)) (by
        intro z living mem
        rw [swept.influenced _ fun dies => living ((swept.dead _).2 (Or.inr dies))]
        exact mem) [] (by
        intro z living off
        left
        rw [Option.eq_none_iff_forall_ne_some]
        intro q was
        have held : b₁.pos2piece.lookup q = some z := by
          rw [swept.square, cleared_eq_some]
          exact ⟨(inv.linked q z).2 was, fun dies => living ((swept.dead _).2 (Or.inr dies))⟩
        rw [(swept.linked q z).1 held] at off
        cases off)
    refine ⟨{ b₁ with actionMask := M, influencedPieces := fun _ => [] }, ?_,
      ⟨?_, swept.linked, by rw [frame], by rw [frame], by rw [frame], by rw [frame], masked⟩⟩
    · rw [if_pos fifth, pass]
      show (counted.updateDeadPlayers p >>= _) = _
      rw [run]
      simp only [Py.ok_bind, sweep]
      rfl
    · rw [pass]
      exact swept.game
  · have pass : b.game.pass p = ({ b.game with skips := counted.stepCount }, ⟨4, [], [], -2⟩) := by
      exact if_neg fifth
    refine ⟨counted, ?_, ⟨?_, inv.linked, rfl, rfl, rfl, rfl, ⟨inv.masked.mines, inv.masked.exact⟩⟩⟩
    · rw [if_neg fifth, pass]
      rfl
    · rw [pass]
      rfl

end Board

end SlimeBoard
