import SlimeBoard.Board.Symmetry
import SlimeBoard.Board.Safety

/-!
# Turned games

The boards of a game and of the game with turned layouts and turned actions stay related by one turn. What
an action returns is turned as well: the path of a walker square by square, while an engineer's path on the
turned board may be another one of the same length.
-/

namespace SlimeBoard

open Board Radix GraphSearch

/-! ## Paths -/

section Paths

variable {m m' : Dict Pos Piece} {start q : Pos} (square : (m'.lookup ·) = turnSquares (m.lookup ·))
include square

theorem isFree_turn (r : Pos) : isFree m' (transformPos r) = isFree m r := by
  have same : m'.lookup (transformPos r) = _ := (congrFun square (transformPos r)).trans turnSquares_apply
  unfold isFree
  rw [same, Option.isNone_map]

theorem dist_turn (ord ord' : RailOrder) :
    GraphSearch.dist ord'.list (isFree m') (transformPos start) (transformPos q) =
      GraphSearch.dist ord.list (isFree m) start q := by
  have forth {n : Nat} (route : Route ord.list (isFree m) start n q) :
      Route ord'.list (isFree m') (transformPos start) n (transformPos q) := by
    refine route.map transformPos (fun r s edge => ?_) fun r free => (isFree_turn square r).trans free
    exact ord'.mem_iff.2 ((transform_facts r).2.2.2 s (ord.mem_iff.1 edge))
  have back {n : Nat} (route : Route ord'.list (isFree m') (transformPos start) n (transformPos q)) :
      Route ord.list (isFree m) start n q := by
    have whole : Route ord.list (isFree m) (transformPosReverse (transformPos start)) n (transformPosReverse (transformPos q)) := by
      refine route.map transformPosReverse (fun r s edge => ?_) fun r free => ?_
      · obtain ⟨r, rfl⟩ := turning.surjective r
        obtain ⟨s, rfl⟩ := turning.surjective s
        have more := (transform_facts _).2.2.2 _ ((transform_facts _).2.2.2 _ ((transform_facts _).2.2.2 _ (ord'.mem_iff.1 edge)))
        show transformPosReverse (transformPos s) ∈ ord.list (transformPosReverse (transformPos r))
        rw [reverse_transform, reverse_transform, ord.mem_iff]
        change transformPos (transformPos (transformPos (transformPos s))) ∈
          POS2ANY (transformPos (transformPos (transformPos (transformPos r)))) at more
        rwa [transformPos_four, transformPos_four] at more
      · obtain ⟨r, rfl⟩ := turning.surjective r
        show isFree m (transformPosReverse (transformPos r)) = true
        rw [reverse_transform, ← isFree_turn square]
        exact free
    rwa [reverse_transform, reverse_transform] at whole
  unfold GraphSearch.dist
  congr 1
  ext n
  exact ⟨back, forth⟩

/-- The parent chains of a piece and of the turned piece. -/
theorem chain_turn {ord ord' : RailOrder} {x : Piece} {mv mv' : Moves} {l l' : List Pos} (held : m.lookup start = some x)
    (can : CanMove (m.lookup ·) x start q) (spec : MovesSpec m start (railVisits m ord x start) mv)
    (spec' : MovesSpec m' (transformPos start) (railVisits m' ord' x.turn (transformPos start)) mv')
    (chain : Climbs mv.next q (q :: (l ++ [start])))
    (chain' : Climbs mv'.next (transformPos q) (transformPos q :: (l' ++ [transformPos start]))) :
    l'.length = l.length ∧ (x.role ≠ 9 → l' = l.map transformPos) := by
  have held' : m'.lookup (transformPos start) = some x.turn :=
    (congrFun square (transformPos start)).trans (turnSquares_some.2 ⟨x, held, rfl⟩)
  have can' : CanMove (m'.lookup ·) x.turn (transformPos start) (transformPos q) := by
    rw [square]
    exact can.turn
  have strip {a b : Pos} {xs ys : List Pos} (same : a :: (xs ++ [b]) = a :: (ys ++ [b])) : xs = ys :=
    List.append_cancel_right (List.tail_eq_of_cons_eq same)
  have near (side : q ∈ nearby start) (side' : transformPos q ∈ nearby (transformPos start)) (mem : q ∈ mv.positions)
      (mem' : transformPos q ∈ mv'.positions) : l'.length = l.length ∧ (x.role ≠ 9 → l' = l.map transformPos) := by
    obtain rfl : l = [] := strip (chain.unique (spec.climbs_near side mem))
    obtain rfl : l' = [] := strip (chain'.unique (spec'.climbs_near side' mem'))
    exact ⟨rfl, fun _ => rfl⟩
  obtain ⟨plain, camp, flag, -⟩ := transform_facts start
  obtain ⟨rail, lands⟩ | ⟨side, lands⟩ | ⟨side, free⟩ | ⟨side, lands⟩ := can
  · have lands' := lands.turn
    rw [← square, ← held'] at lands'
    rw [← held] at lands
    unfold railVisits at spec spec'
    unfold RailTo at rail
    by_cases engineer : x.role = 9
    · rw [if_pos engineer] at rail spec
      rw [if_pos (show x.turn.role = 9 from engineer)] at spec'
      have rail' := rail.turn
      rw [← square] at rail'
      obtain ⟨k, climbs, length, -⟩ := climbs_flood spec rail lands
      obtain ⟨k', climbs', length', -⟩ := climbs_flood spec' rail' lands'
      obtain rfl := strip (chain.unique climbs)
      obtain rfl := strip (chain'.unique climbs')
      rw [dist_turn square ord ord'] at length'
      exact ⟨by omega, fun walker => absurd engineer walker⟩
    · rw [if_neg engineer] at rail spec
      rw [if_neg (show ¬x.turn.role = 9 from engineer)] at spec'
      obtain ⟨ρ, path, free⟩ := rail
      obtain rfl := strip (chain.unique (climbs_straight spec ρ path free lands))
      have path' : ρ.map transformPos ++ [transformPos q] ∈ (POS2STRAIGHT (transformPos start)).paths := by
        rw [← List.map_singleton, ← List.map_append]
        exact straight_transform path
      have free' : ∀ r ∈ ρ.map transformPos, m'.lookup r = none := by
        intro r mem
        obtain ⟨s, there, rfl⟩ := List.mem_map.1 mem
        exact (congrFun square _).trans (turnSquares_none.2 (free s there))
      obtain rfl := strip (chain'.unique (climbs_straight spec' _ path' free' lands'))
      exact ⟨by rw [List.length_reverse, List.length_map, List.length_reverse], fun _ => List.map_reverse.symm⟩
  · have lands' := lands.turn
    rw [← square, ← held'] at lands'
    rw [← held] at lands
    refine near ?_ ?_ ((spec.positions q).2 (.inr (.inl ⟨side, lands⟩))) ((spec'.positions _).2 (.inr (.inl ⟨plain _ side, lands'⟩)))
    · simp [nearby, side]
    · simp [nearby, plain _ side]
  · have free' : m'.lookup (transformPos q) = none := (congrFun square _).trans (turnSquares_none.2 free)
    refine near ?_ ?_ ((spec.positions q).2 (.inr (.inr (.inl ⟨side, free⟩))))
      ((spec'.positions _).2 (.inr (.inr (.inl ⟨camp _ side, free'⟩))))
    · simp [nearby, side]
    · simp [nearby, camp _ side]
  · have lands' := lands.turn
    rw [← square, ← held'] at lands'
    rw [← held] at lands
    refine near ?_ ?_ ((spec.positions q).2 (.inr (.inr (.inr ⟨side, lands⟩))))
      ((spec'.positions _).2 (.inr (.inr (.inr ⟨flag _ side, lands'⟩))))
    · simp [nearby, side]
    · simp [nearby, flag _ side]

end Paths

/-! ## Actions -/

/-- The row of a piece on the turned board. -/
def turnRow (p : Player) (row : Nat) : Nat := if p.val % 2 = 1 then row else (row + 23) % 46

/-- The action of seat `p` on the turned board. Seats of group 1 keep their numbers. -/
def turnAction (p : Player) (a : Nat) : Nat :=
  if p.val % 2 = 1 ∨ a = 5934 then a
  else turnRow p (a / 129) * 129 + (transformPos (transformPos (Fin.ofNat 129 (a % 129)))).val

section Actions

variable {p : Player} {a : Nat}

theorem turnRow_lt {row : Nat} (small : row < 46) : turnRow p row < 46 := by
  unfold turnRow
  split
  · exact small
  · exact Nat.mod_lt _ (by decide)

theorem turnRow_injective {row row' : Nat} (small : row < 46) (small' : row' < 46) (same : turnRow p row = turnRow p row') :
    row = row' := by
  unfold turnRow at same
  split at same <;> omega

theorem turnAction_div (move : a ≠ 5934) : turnAction p a / 129 = turnRow p (a / 129) := by
  unfold turnAction
  split
  · rename_i odd
    rw [turnRow, if_pos (odd.resolve_right move)]
  · exact row_index _

theorem turnAction_skip : turnAction p 5934 = 5934 := if_pos (.inr rfl)

theorem turnAction_lt (inside : a < 5934) : turnAction p a < 5934 := by
  have row : turnAction p a / 129 = turnRow p (a / 129) := turnAction_div inside.ne
  have small : turnRow p (a / 129) < 46 := turnRow_lt (by omega)
  omega

/-- An action stands for the turned square. -/
theorem unview_turn (move : a ≠ 5934) : unview (group (p - 1)) (Fin.ofNat 129 (turnAction p a % 129)) =
    transformPos (unview (group p) (Fin.ofNat 129 (a % 129))) := by
  have groups : ∀ p : Player, (group p = 1 ↔ p.val % 2 = 1) ∧ (group (p - 1) = 1 ↔ ¬p.val % 2 = 1) := by decide
  unfold unview
  by_cases odd : p.val % 2 = 1
  · have same : turnAction p a = a := if_pos (.inl odd)
    rw [if_neg fun one => (groups p).2.1 one odd, if_pos ((groups p).1.2 odd), same, transform_reverse]
  · have column (r v : Nat) (small : v < 129) : (r * 129 + v) % 129 = v := by omega
    have same : turnAction p a = _ := if_neg (not_or.2 ⟨odd, move⟩)
    rw [if_pos ((groups p).2.2 odd), if_neg fun one => odd ((groups p).1.1 one), same, column _ _ (Fin.isLt _),
      Fin.ofNat_val_eq_self, reverse_transform]

end Actions

/-! ## Boards -/

/-- The layouts of the turned board. -/
def turnLayout (layout : Player → List Role) (p : Player) : List Role := layout (p + 1)

/-- The second board is the first, turned. -/
structure Turned (b b' : Board) : Prop where
  game : b'.game = b.game.turn
  rows : ∀ p row x, row < 46 → x.player = p → ((b.action2piece (group p)).lookup row = some x ↔
    (b'.action2piece (group (p - 1))).lookup (turnRow p row) = some x.turn)

theorem rowAt_turn_all : allSlots (fun t => rowAt (t.1 - 1, t.2) == turnRow t.1 (rowAt t)) = true := by decide +kernel

theorem squareAt_turn_all : allSlots (fun t => squareAt (t.1 - 1, t.2) == transformPos (squareAt t)) = true := by decide +kernel

theorem rowAt_turn (t : Slot) : rowAt (t.1 - 1, t.2) = turnRow t.1 (rowAt t) := beq_iff_eq.1 (of_allSlots rowAt_turn_all t)

theorem squareAt_turn (t : Slot) : squareAt (t.1 - 1, t.2) = transformPos (squareAt t) :=
  beq_iff_eq.1 (of_allSlots squareAt_turn_all t)

section Start

variable {layout : Player → List Role}

theorem pieceAt_turn (t : Slot) : pieceAt (turnLayout layout) (t.1 - 1, t.2) = (pieceAt layout t).turn := by
  have seat : t.1 - 1 + 1 = t.1 := sub_add_cancel _ _
  unfold pieceAt roleAt turnLayout
  dsimp only
  rw [seat]
  rfl

theorem exists_slot (t : Slot) : ∃ s : Slot, t = (s.1 - 1, s.2) := ⟨(t.1 + 1, t.2), by rw [add_sub_cancel_right]⟩

/-- The new boards are related by one turn. -/
theorem Board.Starts.turned {b b' : Board} (starts : Starts layout b) (starts' : Starts (turnLayout layout) b') : Turned b b' := by
  have square : b'.game.square = turnSquares b.game.square := by
    funext q
    obtain ⟨r, rfl⟩ := turning.surjective q
    show b'.pos2piece.lookup (transformPos r) = turnSquares b.game.square (transformPos r)
    ext z
    rw [turnSquares_some, starts'.placed]
    constructor
    · rintro ⟨t, there, rfl⟩
      obtain ⟨s, rfl⟩ := exists_slot t
      rw [squareAt_turn, transformPos_inj] at there
      exact ⟨pieceAt layout s, (starts.placed _ _).2 ⟨s, there, rfl⟩, (pieceAt_turn s).symm⟩
    · rintro ⟨y, held, rfl⟩
      obtain ⟨s, rfl, rfl⟩ := (starts.placed r y).1 held
      exact ⟨(s.1 - 1, s.2), squareAt_turn s, pieceAt_turn s⟩
  have alive (p : Player) : p ∉ b.game.dead := by simp [game, starts.dead]
  have alive' (p : Player) : p ∉ b'.game.dead := by simp [game, starts'.dead]
  have count : b'.game.count = fun p => b.game.count (p + 1) := by
    funext p
    have same : worth tallied (turnSquares b.game.square) (p + 1 - 1) = worth tallied b.game.square (p + 1) := worth_turn tallied (p + 1)
    rw [add_sub_cancel_right] at same
    rw [starts.inv.sound.tally _ (alive _), starts'.inv.sound.tally p (alive' p), square, same]
  have skips : b'.game.skips = fun p => b.game.skips (p + 1) :=
    funext fun p => (starts'.skips p).trans (starts.skips (p + 1)).symm
  have flagPos : b'.game.flagPos = fun p => turnFlag (b.game.flagPos (p + 1)) := by
    have halves : ∀ p : Player, (p + 1).val = (p.val + 1) % 4 := by decide
    funext p
    show b'.flagPos p = turnFlag (b.flagPos (p + 1))
    have same : roleAt (turnLayout layout) (p, 23) = roleAt layout (p + 1, 23) := rfl
    have small := p.isLt
    rw [starts.flagPos, starts'.flagPos, same, turnFlag, halves]
    split <;> omega
  have dead : b'.game.dead = b.game.dead.image (· - 1) := by simp [game, starts.dead, starts'.dead]
  refine ⟨?_, ?_⟩
  · calc b'.game = ⟨b'.game.square, b'.game.count, b'.game.skips, b'.game.flagPos, b'.game.dead⟩ := rfl
      _ = b.game.turn := by rw [square, count, skips, flagPos, dead]; rfl
  · rintro _ row x small rfl
    rw [starts.rows, starts'.rows]
    constructor
    · rintro ⟨t, listed, -, rfl, rfl⟩
      exact ⟨(t.1 - 1, t.2), listed, rfl, rowAt_turn t, pieceAt_turn t⟩
    · rintro ⟨t, listed, -, number, same⟩
      obtain ⟨s, rfl⟩ := exists_slot t
      rw [pieceAt_turn] at same
      obtain rfl := Piece.turn_injective same
      rw [rowAt_turn] at number
      exact ⟨s, listed, rfl, turnRow_injective (rowAt_bound s).1 small number, rfl⟩

end Start

section Boards

variable {b b' : Board} (turned : Turned b b')
include turned

theorem Turned.square : (b'.pos2piece.lookup ·) = turnSquares (b.pos2piece.lookup ·) := congrArg Game.square turned.game

theorem Turned.dead {p : Player} : p - 1 ∈ b'.deadPlayers ↔ p ∈ b.deadPlayers := by
  have same : p - 1 ∈ b'.game.dead ↔ p - 1 ∈ b.game.turn.dead := by rw [turned.game]
  have image : p - 1 ∈ b.game.turn.dead ↔ p ∈ b.game.dead := (sub_left_injective (b := (1 : Player))).mem_finset_image
  exact List.mem_toFinset.symm.trans ((same.trans image).trans List.mem_toFinset)

theorem Turned.placed (inv : b.Inv) (inv' : b'.Inv) {x : Piece} {pos : Pos} :
    b'.piece2pos.lookup x.turn = some (transformPos pos) ↔ b.piece2pos.lookup x = some pos := by
  rw [← inv.linked, ← inv'.linked]
  have same : b'.pos2piece.lookup (transformPos pos) = (b.pos2piece.lookup pos).map Piece.turn :=
    (congrFun turned.square _).trans turnSquares_apply
  rw [same, Option.map_eq_some_iff]
  constructor
  · rintro ⟨y, held, alike⟩
    rwa [Piece.turn_injective alike] at held
  · exact fun held => ⟨x, held, rfl⟩

/-- A legal action is a legal action on the turned board. -/
theorem Turned.plays (inv : b.Inv) (inv' : b'.Inv) {p : Player} {a : Nat} {x : Piece} {pos pos1 : Pos}
    (plays : b.Plays p a x pos pos1) (small : a < 5935) :
    b'.Plays (p - 1) (turnAction p a) x.turn (transformPos pos) (transformPos pos1) := by
  have inside : a < 5934 := lt_of_le_of_ne (Nat.le_of_lt_succ small) plays.move
  obtain ⟨z, number, same⟩ := Py.bind_eq_ok.1 plays.decode
  cases same
  have row := (turned.rows p (a / 129) x (by omega) plays.owner).1 (Dict.get_ok_iff.1 number)
  rw [← turnAction_div plays.move] at row
  refine ⟨(turnAction_lt inside).ne, ?_, congrArg (· - 1) plays.owner, (turned.placed inv inv').2 plays.placed, plays.armed, ?_⟩
  · unfold decode
    dsimp only
    rw [Dict.get_eq row, Py.ok_bind]
    exact congrArg (fun q => Except.ok (x.turn, q)) (unview_turn plays.move)
  · rw [turned.square]
    exact plays.can.turn

/-- The same actions are offered. -/
theorem Turned.offers (inv : b.Inv) (inv' : b'.Inv) {p : Player} {mask mask' : ActionMask} (offers : b.Offers p mask)
    (offers' : b'.Offers (p - 1) mask') {a : Nat} (small : a < 5935) : mask' (turnAction p a) = true ↔ mask a = true := by
  rw [offers, offers']
  by_cases skip : a = 5934
  · subst skip
    exact iff_of_true (.inl turnAction_skip) (.inl rfl)
  have inside : a < 5934 := by omega
  have inside' : turnAction p a < 5934 := turnAction_lt inside
  rw [or_iff_right skip, or_iff_right inside'.ne, and_iff_right inside, and_iff_right inside', turnAction_div skip, unview_turn skip]
  constructor
  · rintro ⟨z, pos, number, owner, armed, placed, can⟩
    obtain ⟨y, rfl⟩ : ∃ y : Piece, y.turn = z := ⟨z.turn.turn.turn, z.turn_four⟩
    obtain ⟨r, rfl⟩ := turning.surjective pos
    have own : y.player = p := sub_left_injective owner
    refine ⟨y, r, (turned.rows p _ y (by omega) own).2 number, own, armed, (turned.placed inv inv').1 placed, ?_⟩
    rw [turned.square] at can
    exact canMove_turn.1 can
  · rintro ⟨z, pos, number, owner, armed, placed, can⟩
    refine ⟨z.turn, transformPos pos, (turned.rows p _ z (by omega) owner).1 number, congrArg (· - 1) owner, armed,
      (turned.placed inv inv').2 placed, ?_⟩
    rw [turned.square]
    exact can.turn

/-- The seats 1 and 3 read the masks of the seats 0 and 2 of the turned board. -/
theorem Turned.mask_eq (inv : b.Inv) (inv' : b'.Inv) {p : Player} {mask mask' : ActionMask} (offers : b.Offers p mask)
    (offers' : b'.Offers (p - 1) mask') (odd : p.val % 2 = 1) : mask' = mask := by
  funext a
  rw [Bool.eq_iff_iff]
  by_cases small : a < 5935
  · have same := turned.offers inv inv' offers offers' small
    rwa [turnAction, if_pos (.inl odd)] at same
  · rw [offers, offers']
    exact iff_of_false (by omega) (by omega)

/-- What an action does is turned. -/
theorem Turned.acts (inv : b.Inv) (inv' : b'.Inv) {p : Player} {a : Nat} (small : a < 5935) {step step' : Game × Verdict}
    (acts : b.Acts p a step) (acts' : b'.Acts (p - 1) (turnAction p a) step') : step' = (step.1.turn, step.2.turn) := by
  obtain ⟨rfl, rfl⟩ | ⟨x, pos, pos1, plays, rfl⟩ := acts
  · rw [turnAction_skip] at acts'
    obtain ⟨-, rfl⟩ | ⟨_, _, _, plays', -⟩ := acts'
    · rw [turned.game, Game.pass_turn]
    · exact absurd rfl plays'.move
  · have mine := turned.plays inv inv' plays small
    obtain ⟨skip, -⟩ | ⟨x', pos', pos1', plays', rfl⟩ := acts'
    · exact absurd skip mine.move
    · cases mine.decode.symm.trans plays'.decode
      cases mine.placed.symm.trans plays'.placed
      rw [turned.game, Game.move_turn]

end Boards

/-! ## Runs -/

/-- The piece that the action moves is no engineer. -/
def Board.Walks (b : Board) (p : Player) (a : Nat) : Prop := ∀ x pos1, b.decode p a = .ok (x, pos1) → x.role ≠ 9

/-- The second outcome is the first, turned. -/
structure SameOutcome (walks : Prop) (out out' : Outcome) : Prop where
  result : out'.result = out.result
  reward : out'.reward = out.reward
  deadPlayers : out'.deadPlayers = out.deadPlayers.map (· - 1)
  flags : out'.flags = out.flags.map turnFlag
  length : out'.path.length = out.path.length
  path : walks → out'.path = out.path.map transformPos

/-- The second masks are the first, each with its bits in the places of the turned actions. -/
def SameMasks (offers offers' : Player → Option ActionMask) : Prop :=
  ∀ p mask, offers p = some mask → ∃ mask', offers' (p - 1) = some mask' ∧
    (∀ a < 5935, mask' (turnAction p a) = mask a) ∧ (p.val % 2 = 1 → mask' = mask)

/-- An action of seat `p` becomes one of seat `p - 1`. -/
def turnPlay (play : Player × Nat) : Player × Nat := (play.1 - 1, turnAction play.1 play.2)

section Runs

variable {b b' : Board} {p : Player} {a : Nat}

theorem Turned.step (turned : Turned b b') {b₁ b₁' : Board} {g : Game} (done : Step b b₁ g) (done' : Step b' b₁' g.turn) :
    Turned b₁ b₁' := by
  refine ⟨by rw [done.game, done'.game], fun p row x small owner => ?_⟩
  rw [done.action2piece, done'.action2piece]
  exact turned.rows p row x small owner

/-- The path of a move and of the turned move. -/
theorem Turned.path (turned : Turned b b') (inv : b.Inv) (inv' : b'.Inv) {ord ord' : RailOrder} {x : Piece} {pos pos1 : Pos}
    {path path' : List Pos} (placed : b.piece2pos.lookup x = some pos) (can : CanMove (b.pos2piece.lookup ·) x pos pos1)
    (run : b.getPath ord x pos1 = .ok path) (run' : b'.getPath ord' x.turn (transformPos pos1) = .ok path') :
    path'.length = path.length ∧ (x.role ≠ 9 → path' = path.map transformPos) := by
  have held := (inv.linked _ _).2 placed
  have placed' := (turned.placed inv inv').2 placed
  have can' : CanMove (b'.pos2piece.lookup ·) x.turn (transformPos pos) (transformPos pos1) := by
    rw [turned.square]
    exact can.turn
  obtain ⟨mv, l, -, spec, chain, climbed⟩ := getPath_spec ord placed held can
  obtain ⟨mv', l', -, spec', chain', climbed'⟩ := getPath_spec ord' placed' ((inv'.linked _ _).2 placed') can'
  obtain rfl := Except.ok.inj (climbed.symm.trans run)
  obtain rfl := Except.ok.inj (climbed'.symm.trans run')
  obtain ⟨length, walks⟩ := chain_turn turned.square held can spec spec' chain chain'
  refine ⟨by simp [length], fun walker => ?_⟩
  rw [walks walker, ← List.map_reverse, List.map_cons, List.map_append, List.map_singleton]

/-- **An offered action and its turn** return the same and lead to boards related by one turn. -/
theorem Turned.update (turned : Turned b b') (inv : b.Inv) (inv' : b'.Inv) (ord ord' : RailOrder) {mask : ActionMask}
    (offers : b.Offers p mask) (allowed : mask a = true) : ∃ b₁ out b₁' out', b.update ord p a = .ok (b₁, out) ∧
      b'.update ord' (p - 1) (turnAction p a) = .ok (b₁', out') ∧ Turned b₁ b₁' ∧ SameOutcome (b.Walks p a) out out' := by
  by_cases skip : a = 5934
  · subst skip
    obtain ⟨b₁, run, done⟩ := skip_spec ord inv p
    obtain ⟨b₁', run', done'⟩ := skip_spec ord' inv' (p - 1)
    rw [turned.game, Game.pass_turn] at run' done'
    rw [turnAction_skip]
    exact ⟨b₁, _, b₁', _, run, run', turned.step done done', rfl, rfl, rfl, rfl, rfl, fun _ => rfl⟩
  · obtain ⟨x, pos, pos1, plays⟩ := offers.plays allowed skip
    have small : a < 5935 := by
      obtain same | inside := (offers a).1 allowed
      · exact absurd same skip
      · exact inside.1.trans (by decide)
    have plays' := turned.plays inv inv' plays small
    obtain ⟨b₁, path, run, climbed, done⟩ := update_spec ord inv plays
    obtain ⟨b₁', path', run', climbed', done'⟩ := update_spec ord' inv' plays'
    rw [turned.game, Game.move_turn] at run' done'
    obtain ⟨length, walks⟩ := turned.path inv inv' plays.placed plays.can climbed climbed'
    exact ⟨b₁, _, b₁', _, run, run', turned.step done done', rfl, rfl, rfl, rfl, length,
      fun walker => walks (walker x pos1 plays.decode)⟩

variable {ord : RailOrder} {layout : Player → List Role} {plays : List (Player × Nat)} {offers : Player → Option ActionMask}

/-- The turned game is played along. -/
theorem Run.turned (ord' : RailOrder) (generates : ∀ p, Generates (layout p)) (run : Run ord layout plays b offers) :
    ∃ b' offers', Run ord' (turnLayout layout) (plays.map turnPlay) b' offers' ∧ Turned b b' ∧ SameMasks offers offers' := by
  have generates' : ∀ p, Generates (turnLayout layout p) := fun p => generates (p + 1)
  induction run with
  | start new =>
    obtain ⟨b, same, starts⟩ := new_spec fun p => (generates p).proper
    obtain rfl := Except.ok.inj (same.symm.trans new)
    obtain ⟨b', new', starts'⟩ := new_spec fun p => (generates' p).proper
    exact ⟨b', _, .start new', starts.turned starts', fun _ _ found => nomatch found⟩
  | @ask plays b b₁ offers p mask run living asked ih =>
    obtain ⟨b', offers', run', turned, same⟩ := ih
    have reached := run.reached generates
    have reached' := run'.reached generates'
    obtain ⟨M, I, mask₁, asked₁, offered, -⟩ := reached.ask ord living
    rw [asked₁, Except.ok.injEq, Prod.mk.injEq, Option.some.injEq] at asked
    obtain ⟨rfl, rfl⟩ := asked
    have living' : p - 1 ∉ b'.deadPlayers := fun dead => living (turned.dead.1 dead)
    obtain ⟨M', I', mask', asked', offered', -⟩ := reached'.ask ord' living'
    refine ⟨_, _, .ask run' living' asked', ⟨turned.game, turned.rows⟩, fun p₁ mask₁ found => ?_⟩
    by_cases own : p₁ = p
    · subst own
      rw [Function.update_self, Option.some.injEq] at found
      obtain rfl := found
      refine ⟨mask', Function.update_self .., fun a small => ?_, turned.mask_eq reached.inv reached'.inv offered offered'⟩
      exact Bool.eq_iff_iff.2 (turned.offers reached.inv reached'.inv offered offered' small)
    · rw [Function.update_of_ne own] at found
      obtain ⟨mask₂, found', same⟩ := same p₁ mask₁ found
      refine ⟨mask₂, ?_, same⟩
      rw [Function.update_of_ne fun alike => own (sub_left_injective alike), found']
  | @play plays b b₁ offers p mask a out run living offer allowed played ih =>
    obtain ⟨b', offers', run', turned, same⟩ := ih
    have reached := run.reached generates
    have reached' := run'.reached generates'
    obtain ⟨mask', offer', bits, -⟩ := same p mask offer
    have offered := reached.offers p mask offer
    have small : a < 5935 := by
      obtain skip | inside := (offered a).1 allowed
      · omega
      · exact inside.1.trans (by decide)
    obtain ⟨b₂, out₂, b₁', out', played₂, played', turned', -⟩ := turned.update reached.inv reached'.inv ord ord' offered allowed
    obtain ⟨rfl, rfl⟩ := Prod.mk.inj (Except.ok.inj (played₂.symm.trans played))
    rw [List.map_append, List.map_singleton]
    refine ⟨b₁', _, .play run' (fun dead => living (turned.dead.1 dead)) offer' ?_ played', turned', fun _ _ found => nomatch found⟩
    exact (bits a small).trans allowed

/-- **Seat symmetry**: a game can be played along on the turned layouts with the turned actions. The boards
stay related by one turn, the masks have the same bits in the places of the turned actions, which for the
seats 1 and 3 are the actions themselves, and every next action returns the same, turned. -/
theorem seat_symmetry (ord' : RailOrder) (generates : ∀ p, Generates (layout p)) (run : Run ord layout plays b offers) :
    ∃ b' offers', Run ord' (turnLayout layout) (plays.map turnPlay) b' offers' ∧ Turned b b' ∧ SameMasks offers offers' ∧
      ∀ p mask a, p ∉ b.deadPlayers → offers p = some mask → mask a = true →
        ∃ b₁ out b₁' out', b.update ord p a = .ok (b₁, out) ∧ b'.update ord' (p - 1) (turnAction p a) = .ok (b₁', out') ∧
          Turned b₁ b₁' ∧ SameOutcome (b.Walks p a) out out' := by
  obtain ⟨b', offers', run', turned, same⟩ := run.turned ord' generates
  refine ⟨b', offers', run', turned, same, fun p mask a _ offer allowed => ?_⟩
  have reached := run.reached generates
  have reached' := run'.reached fun p => generates (p + 1)
  exact turned.update reached.inv reached'.inv ord ord' (reached.offers p mask offer) allowed

theorem seat_symmetry_first : ∃ (b : Board) (offers : Player → Option ActionMask) (b' : Board) (offers' : Player → Option ActionMask),
    Run tableOrder (turnLayout fun _ => firstLayout) [turnPlay (0, 126)] b' offers' ∧ Turned b b' ∧ SameMasks offers offers' ∧
      ∀ p mask a, p ∉ b.deadPlayers → offers p = some mask → mask a = true →
        ∃ b₁ out b₁' out', b.update tableOrder p a = .ok (b₁, out) ∧
          b'.update tableOrder (p - 1) (turnAction p a) = .ok (b₁', out') ∧ Turned b₁ b₁' ∧ SameOutcome (b.Walks p a) out out' := by
  obtain ⟨b, mask, run, -⟩ := first_play
  exact ⟨b, _, seat_symmetry tableOrder (fun _ => firstLayout_generates) run⟩

end Runs

end SlimeBoard
