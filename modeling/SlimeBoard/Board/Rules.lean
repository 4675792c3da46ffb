import SlimeBoard.Lib.Search
import SlimeBoard.Lib.Tally
import SlimeBoard.Board.Engine

/-!
# The rules of the game

What the game is about, without dictionaries, masks and caches: who may move
where, and what a move or a skip does to the squares, the tallies and the seats.
A piece is worth something while it stands outside the eight headquarters. A
seat dies with its flag or with the last piece in its tally.
-/

namespace SlimeBoard

open Radix GraphSearch

/-- Who stands where. -/
abbrev Squares := Pos → Option Piece

/-! ## Movement -/

/-- A square to move to: free, or held by a piece under attack. -/
def Lands (sq : Squares) (attack : Piece → Bool) (q : Pos) : Prop := ∀ x, sq q = some x → attack x = true

/-- `q` ends a straight railway path from `start` with only free squares in between. -/
def Sees (sq : Squares) (start q : Pos) : Prop :=
  ∃ ρ, ρ ++ [q] ∈ (POS2STRAIGHT start).paths ∧ ∀ r ∈ ρ, sq r = none

/-- An engineer's flood from `start` reaches `q`. -/
def Floods (sq : Squares) (start q : Pos) : Prop :=
  q ≠ start ∧ Reached POS2ANY (fun r => (sq r).isNone) start q

/-- The railway part of the moves of `x`. -/
def RailTo (sq : Squares) (x : Piece) (start q : Pos) : Prop :=
  if x.role = 9 then Floods sq start q else Sees sq start q

/-- **The move rule**: by rail, to a plain neighbour or into a headquarters onto a
free square or an opponent's piece, and into a free camp. -/
def CanMove (sq : Squares) (x : Piece) (start q : Pos) : Prop :=
  (RailTo sq x start q ∧ Lands sq (attacks (some x)) q) ∨
  (q ∈ POS2PLAIN start ∧ Lands sq (attacks (some x)) q) ∨
  (q ∈ POS2CAMP start ∧ sq q = none) ∨
  (q ∈ POS2FLAG start ∧ Lands sq (attacks (some x)) q)

/-! ## Encounters -/

/-- What an encounter leaves: does the attacker stand on the target, has the
defender fallen. -/
structure Clash where
  stands : Bool
  falls : Bool

/-- An attacker of rank `role` meets a defender of rank `role1`. -/
def clash (role role1 : Role) : Clash :=
  if role1 = 11 then ⟨decide (role ≠ 10), true⟩
  else if role = 10 ∨ role1 = 10 ∨ role = role1 then ⟨false, true⟩
  else if (role = 9 ∧ role1 = 0) ∨ (role < role1 ∧ ¬ (role = 0 ∧ role1 = 9)) then ⟨true, true⟩
  else ⟨false, false⟩

/-- Who stands on the target has beaten the defender. -/
theorem clash_cases (role role1 : Role) :
    clash role role1 = ⟨true, true⟩ ∨ clash role role1 = ⟨false, true⟩ ∨
      clash role role1 = ⟨false, false⟩ := by
  unfold clash
  split
  · by_cases bomb : role = 10 <;> simp [bomb]
  · split
    · simp
    · split <;> simp

/-- Mines and flags are not in a seat's tally. -/
def tallied (role : Role) : Int := if role = 0 ∨ role = 11 then 0 else 1

section Worth

variable {M : Type} [AddCommGroup M]

/-- The worth of the pieces of seat `p` outside the headquarters. -/
def worth (w : Role → M) (sq : Squares) (p : Player) : M :=
  Tally.total (fun q y => if y.player = p ∧ q ∉ headquarters then w y.role else 0) sq

/-- The seats in `dying` lose everything. -/
def cleared (dying : List Player) (sq : Squares) : Squares :=
  fun q => (sq q).filter fun y => !decide (y.player ∈ dying)

theorem cleared_eq_some {dying : List Player} {sq : Squares} {q : Pos} {y : Piece} :
    cleared dying sq q = some y ↔ sq q = some y ∧ y.player ∉ dying := by
  simp [cleared, Option.filter_eq_some_iff]

theorem cleared_nil (sq : Squares) : cleared [] sq = sq := by
  funext q
  cases held : sq q <;> simp [cleared, held]

theorem cleared_cleared (ps qs : List Player) (sq : Squares) :
    cleared qs (cleared ps sq) = cleared (ps ++ qs) sq := by
  funext q
  ext y
  rw [cleared_eq_some, cleared_eq_some, cleared_eq_some, List.mem_append, not_or, and_assoc]

theorem worth_cleared (w : Role → M) (dying : List Player) (sq : Squares) (p : Player) :
    worth w (cleared dying sq) p = if p ∈ dying then 0 else worth w sq p := by
  unfold worth cleared
  rw [Tally.total_filter]
  split
  · rename_i gone
    refine Tally.total_eq_zero fun q y _ => ?_
    by_cases same : y.player = p
    · simp [same, gone]
    · simp [same]
  · rename_i stays
    refine Tally.total_congr fun q y _ => ?_
    by_cases same : y.player = p
    · simp [same, stays]
    · simp [same]

/-- A seat without pieces is worth nothing. -/
theorem worth_absent (w : Role → M) {sq : Squares} {p : Player}
    (absent : ∀ q y, sq q = some y → y.player ≠ p) : worth w sq p = 0 :=
  Tally.total_eq_zero fun q y held => if_neg fun h => absent q y held h.1

theorem worth_tallied_nonneg (sq : Squares) (p : Player) : 0 ≤ worth tallied sq p := by
  refine Tally.total_nonneg fun q y => ?_
  unfold tallied
  split
  · split <;> decide
  · exact le_rfl

end Worth

/-! ## The game -/

structure Game where
  square : Squares
  count : Player → Int
  skips : Player → Nat
  flagPos : Player → Nat
  dead : Finset Player

/-- What is announced after an action. -/
structure Verdict where
  result : Nat
  flags : List Nat
  deadPlayers : List Player
  reward : ℚ

namespace Game

/-- The seats in `dying` leave the game. -/
def bury (g : Game) (dying : List Player) : Game :=
  { g with square := cleared dying g.square, dead := g.dead ∪ dying.toFinset }

section Move

variable (g : Game) (x : Piece) (pos pos1 : Pos)

/-- What becomes of `x` and of whoever holds `pos1`. -/
def meet : Clash :=
  match g.square pos1 with
  | none => ⟨true, false⟩
  | some y => clash x.role y.role

/-- The squares after `x` has gone from `pos` to `pos1`. -/
def settled : Squares :=
  Function.update (Function.update g.square pos none) pos1
    (if (g.meet x pos1).stands then some x else if (g.meet x pos1).falls then none else g.square pos1)

/-- The attacker is lost to its side: fallen, or shut in a headquarters. -/
def spent : Bool := !(g.meet x pos1).stands || decide (pos1 ∈ headquarters)

/-- The defender, if it falls outside the headquarters. -/
def victim : Option Piece :=
  if (g.meet x pos1).falls = true ∧ pos1 ∉ headquarters then g.square pos1 else none

/-- What seat `p` loses in the encounter. -/
def loss {M : Type} [AddCommGroup M] (w : Role → M) (p : Player) : M :=
  (if g.spent x pos1 = true ∧ x.player = p then w x.role else 0) +
    (g.victim x pos1).elim 0 fun y => if y.player = p then w y.role else 0

def countAfter (p : Player) : Int := g.count p - g.loss x pos1 tallied p

/-- The attacker's seat, if it dies. -/
def ownDeath : List Player := if g.countAfter x pos1 x.player = 0 then [x.player] else []

/-- The defender's seat, if it dies. -/
def foeDeath : List Player :=
  (g.square pos1).elim [] fun y =>
    if y.role = 11 ∨ g.countAfter x pos1 y.player = 0 then [y.player] else []

/-- The seats that die. -/
def dying : List Player := g.ownDeath x pos1 ++ g.foeDeath x pos1

/-- The seats whose commander falls while they live on. -/
def exposed : List Player :=
  (if x.role = 1 ∧ (g.meet x pos1).stands = false ∧ x.player ∉ g.dying x pos1 then [x.player] else []) ++
    (g.square pos1).elim [] fun y =>
      if y.role = 1 ∧ (g.meet x pos1).falls = true ∧ y.player ∉ g.dying x pos1 then [y.player] else []

def result : Nat :=
  if g.square pos1 = none then 0
  else if (g.meet x pos1).stands then 1
  else if (g.meet x pos1).falls then 3
  else 2

/-- The gain of the attacker's team. -/
def gain : ℚ :=
  (if g.spent x pos1 then -rewardMap x.role else 0) +
    (g.victim x pos1).elim 0 (fun y => rewardMap y.role) -
    (if x.player ∈ g.dying x pos1 then worth rewardMap (g.settled x pos pos1) x.player else 0) +
    (g.square pos1).elim 0 fun y =>
      if y.player ∈ g.dying x pos1 then worth rewardMap (g.settled x pos pos1) y.player else 0

/-- `x` goes from `pos` to `pos1`. -/
def move : Game × Verdict :=
  (bury { g with square := g.settled x pos pos1, count := g.countAfter x pos1 } (g.dying x pos1),
    { result := g.result x pos1
      flags := (g.exposed x pos1).map g.flagPos
      deadPlayers := g.dying x pos1
      reward := g.gain x pos pos1 })

end Move

/-- Seat `p` skips; the fifth time it dies. -/
def pass (g : Game) (p : Player) : Game × Verdict :=
  let g' := { g with skips := Function.update g.skips p (g.skips p + 1) }
  if g.skips p + 1 = 5 then (g'.bury [p], ⟨4, [], [p], -worth rewardMap g.square p⟩)
  else (g', ⟨4, [], [], -2⟩)

/-! ## The invariant -/

/-- **What holds of every position**: flags are in a headquarters, the dead own
nothing, and a living seat has the pieces in its tally, at least one. -/
structure Sound (g : Game) : Prop where
  flag_home : ∀ q y, g.square q = some y → y.role = 11 → q ∈ headquarters
  dead_gone : ∀ q y, g.square q = some y → y.player ∉ g.dead
  tally : ∀ p, p ∉ g.dead → g.count p = worth tallied g.square p
  tally_pos : ∀ p, p ∉ g.dead → 1 ≤ g.count p
  skips_lt : ∀ p, p ∉ g.dead → g.skips p < 5

/-- A move the rules allow, as far as the two squares are concerned. -/
structure Move (g : Game) (x : Piece) (pos pos1 : Pos) : Prop where
  holds : g.square pos = some x
  armed : x.role ≠ 0
  outside : pos ∉ headquarters
  differ : pos ≠ pos1
  foe : ∀ y, g.square pos1 = some y → opposed x.player y.player = true

variable {g : Game} {x : Piece} {pos pos1 : Pos}

/-- The encounter costs each seat its loss. -/
theorem worth_settled {M : Type} [AddCommGroup M] (w : Role → M) (legal : g.Move x pos pos1) (p : Player) :
    worth w (g.settled x pos pos1) p = worth w g.square p - g.loss x pos1 w p := by
  unfold worth settled
  rw [Tally.total_update, Tally.total_update, Function.update_of_ne legal.differ.symm, legal.holds]
  have start : ((some x).elim 0 fun y => if y.player = p ∧ pos ∉ headquarters then w y.role else 0) =
      if x.player = p then w x.role else 0 := by
    simp [legal.outside]
  rw [start]
  unfold loss spent victim
  cases held : g.square pos1 with
  | none =>
    simp only [meet, held, Option.elim_none, Option.elim_some, if_true, Bool.not_true, Bool.false_or]
    by_cases home : pos1 ∈ headquarters <;> by_cases mine : x.player = p <;> simp [home, mine]
  | some y =>
    simp only [meet, held]
    rcases clash_cases x.role y.role with outcome | outcome | outcome <;>
      by_cases home : pos1 ∈ headquarters <;> simp [outcome, home] <;> abel

theorem mem_dying {p : Player} : p ∈ g.dying x pos1 ↔
    (p = x.player ∧ g.countAfter x pos1 p = 0) ∨
    ∃ y, g.square pos1 = some y ∧ p = y.player ∧ (y.role = 11 ∨ g.countAfter x pos1 p = 0) := by
  unfold dying ownDeath foeDeath
  rw [List.mem_append]
  refine or_congr ?_ ?_
  · split
    · rename_i zero
      simp only [List.mem_singleton]
      exact ⟨fun h => ⟨h, h ▸ zero⟩, fun h => h.1⟩
    · rename_i more
      simp only [List.not_mem_nil, false_iff]
      rintro ⟨rfl, zero⟩
      exact more zero
  · cases held : g.square pos1 with
    | none => simp
    | some y =>
      simp only [Option.elim_some, Option.some.injEq, exists_eq_left']
      split
      · rename_i dies
        simp only [List.mem_singleton]
        exact ⟨fun h => ⟨h, h ▸ dies⟩, fun h => h.1⟩
      · rename_i lives
        simp only [List.not_mem_nil, false_iff]
        rintro ⟨rfl, dies⟩
        exact lives dies

/-- Nobody dies of a move to an empty square outside the headquarters. -/
theorem dying_free (sound : g.Sound) (free : g.square pos1 = none) (outside : pos1 ∉ headquarters)
    (living : x.player ∉ g.dead) : g.dying x pos1 = [] := by
  have spared : g.loss x pos1 tallied x.player = 0 := by
    simp [loss, spent, victim, meet, free, outside]
  have more := sound.tally_pos x.player living
  unfold dying ownDeath foeDeath countAfter
  rw [spared, free, if_neg (by omega)]
  rfl

theorem opposed_irrefl : ∀ p : Player, opposed p p = false := by decide

theorem Move.foe_ne (legal : g.Move x pos pos1) {y : Piece} (held : g.square pos1 = some y) :
    x.player ≠ y.player := by
  intro same
  have foe := legal.foe y held
  rw [same, opposed_irrefl] at foe
  cases foe

/-- A piece that moves is in its seat's tally. -/
theorem Move.tallied (sound : g.Sound) (legal : g.Move x pos pos1) : tallied x.role = 1 := by
  unfold SlimeBoard.tallied
  rw [if_neg]
  rintro (mine | flag)
  · exact legal.armed mine
  · exact legal.outside (sound.flag_home pos x legal.holds flag)

theorem Sound.count_pos (sound : g.Sound) {q : Pos} {y : Piece} (held : g.square q = some y) :
    1 ≤ g.count y.player :=
  sound.tally_pos _ (sound.dead_gone q y held)

/-- The attacker's seat dies when its tally runs out. -/
theorem attacker_dies_iff (legal : g.Move x pos pos1) :
    x.player ∈ g.dying x pos1 ↔ g.countAfter x pos1 x.player = 0 := by
  rw [mem_dying]
  constructor
  · rintro (⟨_, zero⟩ | ⟨y, held, same, _⟩)
    · exact zero
    · exact absurd same (legal.foe_ne held)
  · exact fun zero => Or.inl ⟨rfl, zero⟩

/-- The defender's seat dies when its tally runs out or its flag falls. -/
theorem defender_dies_iff (legal : g.Move x pos pos1) {y : Piece} (held : g.square pos1 = some y) :
    y.player ∈ g.dying x pos1 ↔ y.role = 11 ∨ g.countAfter x pos1 y.player = 0 := by
  rw [mem_dying]
  constructor
  · rintro (⟨same, _⟩ | ⟨y', held', _, dies⟩)
    · exact absurd same.symm (legal.foe_ne held)
    · rw [held, Option.some.injEq] at held'
      subst held'
      exact dies
  · exact fun dies => Or.inr ⟨y, held, rfl, dies⟩

/-- A seat that loses nothing from its tally keeps its count. -/
theorem loss_of_ne {M : Type} [AddCommGroup M] {w : Role → M} {p : Player} (own : x.player ≠ p)
    (other : ∀ y, g.square pos1 = some y → y.player ≠ p) : g.loss x pos1 w p = 0 := by
  unfold loss victim
  rw [if_neg fun h => own h.2, zero_add]
  split
  · cases held : g.square pos1 with
    | none => rfl
    | some y => exact if_neg (other y held)
  · rfl

/-- The attacker's tally pays for the attacker only. -/
theorem countAfter_attacker (sound : g.Sound) (legal : g.Move x pos pos1) :
    g.countAfter x pos1 x.player = g.count x.player - if g.spent x pos1 then 1 else 0 := by
  have other : ((g.victim x pos1).elim 0 fun y => if y.player = x.player then SlimeBoard.tallied y.role else 0) = 0 := by
    unfold victim
    split
    · cases held : g.square pos1 with
      | none => rfl
      | some y => exact if_neg (legal.foe_ne held).symm
    · rfl
  rw [countAfter, loss, other, add_zero, legal.tallied sound]
  simp

/-- The defender's tally pays for a fallen defender that was in it. -/
theorem countAfter_defender (legal : g.Move x pos pos1) {y : Piece} (held : g.square pos1 = some y) :
    g.countAfter x pos1 y.player = g.count y.player -
      if (g.meet x pos1).falls = true ∧ pos1 ∉ headquarters then SlimeBoard.tallied y.role else 0 := by
  rw [countAfter, loss, if_neg fun h => legal.foe_ne held h.2, zero_add, victim, held]
  split
  · simp
  · rfl

/-- Without a defender in its tally a seat does not die. -/
theorem foeDeath_eq_nil (sound : g.Sound) (legal : g.Move x pos pos1)
    (spared : ∀ y, g.square pos1 = some y → y.role ≠ 11 ∧
      ((g.meet x pos1).falls = true ∧ pos1 ∉ headquarters → SlimeBoard.tallied y.role = 0)) :
    g.foeDeath x pos1 = [] := by
  unfold foeDeath
  cases held : g.square pos1 with
  | none => rfl
  | some y =>
    obtain ⟨soldier, safe⟩ := spared y held
    have count := sound.count_pos held
    have after : g.countAfter x pos1 y.player = g.count y.player := by
      rw [countAfter_defender legal held]
      split
      · rename_i fell
        rw [safe fell, sub_zero]
      · rw [sub_zero]
    refine if_neg ?_
    rw [after, not_or]
    exact ⟨soldier, by omega⟩

/-- The other seats' tallies stay. -/
theorem countAfter_other {p : Player} (own : x.player ≠ p) (other : ∀ y, g.square pos1 = some y → y.player ≠ p) :
    g.countAfter x pos1 p = g.count p := by
  rw [countAfter, loss_of_ne own other, sub_zero]

/-- At most two tallies change. -/
theorem countAfter_eq_update : g.countAfter x pos1 =
    (g.square pos1).elim (Function.update g.count x.player (g.countAfter x pos1 x.player)) fun y =>
      Function.update (Function.update g.count x.player (g.countAfter x pos1 x.player)) y.player
        (g.countAfter x pos1 y.player) := by
  funext p
  cases held : g.square pos1 with
  | none =>
    rw [Option.elim_none, Function.update_apply]
    split
    · rename_i same
      rw [same]
    · rename_i own
      exact countAfter_other (Ne.symm own) (by simp [held])
  | some y =>
    rw [Option.elim_some, Function.update_apply, Function.update_apply]
    split
    · rename_i same
      rw [same]
    · rename_i other
      split
      · rename_i same
        rw [same]
      · rename_i own
        refine countAfter_other (Ne.symm own) fun y' held' => ?_
        rw [held, Option.some.injEq] at held'
        rw [← held']
        exact Ne.symm other

/-- **A legal move keeps the position sound.** -/
theorem sound_move (sound : g.Sound) (legal : g.Move x pos pos1) : (g.move x pos pos1).1.Sound := by
  have alive : ∀ p, p ∉ (g.move x pos pos1).1.dead → p ∉ g.dead ∧ p ∉ g.dying x pos1 := by
    intro p h
    simpa [move, bury] using h
  have tally : ∀ p, p ∉ (g.move x pos pos1).1.dead →
      g.countAfter x pos1 p = worth tallied (g.move x pos pos1).1.square p := by
    intro p h
    obtain ⟨living, spared⟩ := alive p h
    show _ = worth tallied (cleared _ _) p
    rw [worth_cleared, if_neg spared, worth_settled tallied legal, ← sound.tally p living]
    rfl
  refine ⟨?_, ?_, tally, ?_, ?_⟩
  · intro q y held flag
    have settled := (cleared_eq_some.1 held).1
    change g.settled x pos pos1 q = some y at settled
    unfold Game.settled at settled
    rw [Function.update_apply, Function.update_apply] at settled
    split at settled
    · rename_i same
      subst same
      split at settled
      · rw [Option.some.injEq] at settled
        subst settled
        exact absurd (sound.flag_home pos x legal.holds flag) legal.outside
      · split at settled
        · cases settled
        · exact sound.flag_home q y settled flag
    · split at settled
      · cases settled
      · exact sound.flag_home q y settled flag
  · intro q y held
    obtain ⟨settled, spared⟩ := cleared_eq_some.1 held
    have before : ∃ r, g.square r = some y := by
      change g.settled x pos pos1 q = some y at settled
      unfold Game.settled at settled
      rw [Function.update_apply, Function.update_apply] at settled
      split at settled
      · split at settled
        · exact ⟨pos, settled ▸ legal.holds⟩
        · split at settled
          · cases settled
          · exact ⟨pos1, settled⟩
      · split at settled
        · cases settled
        · exact ⟨q, settled⟩
    obtain ⟨r, before⟩ := before
    simpa [move, bury, spared] using sound.dead_gone r y before
  · intro p h
    obtain ⟨living, spared⟩ := alive p h
    show 1 ≤ g.countAfter x pos1 p
    by_cases own : x.player = p
    · have nonzero : g.countAfter x pos1 p ≠ 0 := fun zero => spared (mem_dying.2 (Or.inl ⟨own.symm, zero⟩))
      have nonneg := tally p h ▸ worth_tallied_nonneg _ p
      omega
    · by_cases other : ∃ y, g.square pos1 = some y ∧ y.player = p
      · obtain ⟨y, held, same⟩ := other
        have nonzero : g.countAfter x pos1 p ≠ 0 :=
          fun zero => spared (mem_dying.2 (Or.inr ⟨y, held, same.symm, Or.inr zero⟩))
        have nonneg := tally p h ▸ worth_tallied_nonneg _ p
        omega
      · rw [countAfter_other own fun y held same => other ⟨y, held, same⟩]
        exact sound.tally_pos p living
  · intro p h
    exact sound.skips_lt p (alive p h).1

/-- **A skip keeps the position sound.** -/
theorem sound_pass (sound : g.Sound) {p : Player} (living : p ∉ g.dead) : (g.pass p).1.Sound := by
  unfold pass
  dsimp only
  split
  · rename_i fifth
    have alive : ∀ p', p' ∉ g.dead ∪ [p].toFinset → p' ∉ g.dead ∧ p' ∉ [p] := by
      intro p' h
      simpa [not_or, and_comm] using h
    refine ⟨?_, ?_, ?_, ?_, ?_⟩
    · intro q y held
      exact sound.flag_home q y (cleared_eq_some.1 held).1
    · intro q y held
      obtain ⟨held, spared⟩ := cleared_eq_some.1 held
      have gone := sound.dead_gone q y held
      simpa [bury, gone] using spared
    · intro p' h
      obtain ⟨living, spared⟩ := alive p' h
      show _ = worth tallied (cleared _ _) p'
      rw [worth_cleared, if_neg spared]
      exact sound.tally p' living
    · intro p' h
      exact sound.tally_pos p' (alive p' h).1
    · intro p' h
      obtain ⟨living, spared⟩ := alive p' h
      show Function.update g.skips p _ p' < 5
      rw [Function.update_of_ne (by simpa using spared)]
      exact sound.skips_lt p' living
  · rename_i more
    refine ⟨sound.flag_home, sound.dead_gone, sound.tally, sound.tally_pos, ?_⟩
    intro p' living'
    show Function.update g.skips p _ p' < 5
    rw [Function.update_apply]
    split
    · have := sound.skips_lt p living
      omega
    · exact sound.skips_lt p' living'

/-- A move kills the seats whose flag it takes or whose tally it empties. -/
theorem move_dead_iff (sound : g.Sound) {p : Player} (living : p ∉ g.dead) :
    p ∈ (g.move x pos pos1).1.dead ↔
      (∃ y, g.square pos1 = some y ∧ y.role = 11 ∧ y.player = p) ∨ (g.move x pos pos1).1.count p = 0 := by
  have dead : p ∈ (g.move x pos pos1).1.dead ↔ p ∈ g.dying x pos1 := by
    simp [move, bury, living]
  rw [dead, mem_dying]
  show _ ↔ _ ∨ g.countAfter x pos1 p = 0
  constructor
  · rintro (⟨_, zero⟩ | ⟨y, held, rfl, flag | zero⟩)
    · exact Or.inr zero
    · exact Or.inl ⟨y, held, flag, rfl⟩
    · exact Or.inr zero
  · rintro (⟨y, held, flag, rfl⟩ | zero)
    · exact Or.inr ⟨y, held, rfl, Or.inl flag⟩
    · by_cases own : x.player = p
      · exact Or.inl ⟨own.symm, zero⟩
      · by_cases other : ∃ y, g.square pos1 = some y ∧ y.player = p
        · obtain ⟨y, held, same⟩ := other
          exact Or.inr ⟨y, held, same.symm, Or.inr zero⟩
        · have alive := sound.tally_pos p living
          rw [countAfter_other own fun y held same => other ⟨y, held, same⟩] at zero
          omega

theorem pass_count (g : Game) (p : Player) : (g.pass p).1.count = g.count := by
  unfold pass
  dsimp only
  split <;> rfl

theorem pass_dead_iff {p p' : Player} (living : p' ∉ g.dead) :
    p' ∈ (g.pass p).1.dead ↔ p' = p ∧ g.skips p = 4 := by
  unfold pass
  dsimp only
  split
  · rename_i fifth
    simp [bury, living, Nat.succ_inj.1 fifth]
  · rename_i more
    simp only [living, false_iff, not_and]
    intro _ fourth
    rw [fourth] at more
    exact more rfl

/-! ## The balance of a move -/

/-- The worth of the pieces of a team outside the headquarters. -/
def teamWorth (sq : Squares) (team : Fin 2) : ℚ :=
  Tally.total (fun q y => if group y.player = team ∧ q ∉ headquarters then rewardMap y.role else 0) sq

theorem teamWorth_eq_sum (sq : Squares) (team : Fin 2) :
    teamWorth sq team = ∑ p with group p = team, worth rewardMap sq p := by
  unfold teamWorth worth Tally.total
  rw [Finset.sum_comm]
  refine Finset.sum_congr rfl fun q _ => ?_
  cases sq q with
  | none => simp
  | some y =>
    have seat : ∀ p, (if group p = team then if y.player = p ∧ q ∉ headquarters then rewardMap y.role else 0 else 0) =
        if y.player = p then (if group y.player = team ∧ q ∉ headquarters then rewardMap y.role else 0) else 0 := by
      intro p
      by_cases own : y.player = p
      · simp [own, ite_and]
      · simp [own]
    simp only [Option.elim_some, Finset.sum_filter, seat]
    rw [Finset.sum_ite_eq, if_pos (Finset.mem_univ _)]

/-- The seats of the other group are the opponents. -/
theorem opposed_iff : ∀ a b : Player, opposed a b = true ↔ group b = 1 - group a := by decide

/-- The lead of a seat's team, seat by seat. -/
theorem lead_eq (sq : Squares) (p : Player) :
    teamWorth sq (group p) - teamWorth sq (1 - group p) =
      ∑ p', if opposed p p' then -worth rewardMap sq p' else worth rewardMap sq p' := by
  have other : ∀ p', group p' = 1 - group p ↔ ¬ group p' = group p := by
    intro p'
    rw [← opposed_iff]
    revert p p'
    decide
  have split : ∀ p', (if opposed p p' then -worth rewardMap sq p' else worth rewardMap sq p') =
      (if group p' = group p then worth rewardMap sq p' else 0) -
        if group p' = 1 - group p then worth rewardMap sq p' else 0 := by
    intro p'
    by_cases foe : opposed p p' = true
    · rw [if_pos foe, if_pos ((opposed_iff p p').1 foe), if_neg ((other p').1 ((opposed_iff p p').1 foe))]
      ring
    · have friend : ¬ group p' = 1 - group p := fun h => foe ((opposed_iff p p').2 h)
      rw [if_neg foe, if_neg friend, if_pos (not_not.1 fun h => friend ((other p').2 h))]
      ring
  simp only [split, Finset.sum_sub_distrib, teamWorth_eq_sum, Finset.sum_filter]

/-- What the move costs seat `p`, with what it loses by dying. -/
def shortfall (g : Game) (x : Piece) (pos pos1 : Pos) (p : Player) : ℚ :=
  g.loss x pos1 rewardMap p + if p ∈ g.dying x pos1 then worth rewardMap (g.settled x pos pos1) p else 0

theorem worth_move (legal : g.Move x pos pos1) (p : Player) :
    worth rewardMap (g.move x pos pos1).1.square p = worth rewardMap g.square p - g.shortfall x pos pos1 p := by
  show worth rewardMap (cleared _ _) p = _
  rw [worth_cleared, shortfall]
  split
  · rw [worth_settled rewardMap legal]
    ring
  · rw [add_zero]
    exact worth_settled rewardMap legal p

/-- Only the two seats that meet pay for it. -/
theorem shortfall_of_ne {p : Player} (own : x.player ≠ p)
    (other : ∀ y, g.square pos1 = some y → y.player ≠ p) : g.shortfall x pos pos1 p = 0 := by
  have spared : p ∉ g.dying x pos1 := by
    intro dies
    rcases mem_dying.1 dies with ⟨same, _⟩ | ⟨y, held, same, _⟩
    · exact own same.symm
    · exact other y held same.symm
  rw [shortfall, loss_of_ne own other, if_neg spared, add_zero]

/-- The gain, as the code adds it up, is what the opponent pays less what the
mover pays. -/
theorem gain_eq_shortfall (legal : g.Move x pos pos1) :
    g.gain x pos pos1 = (g.square pos1).elim 0 (fun y => g.shortfall x pos pos1 y.player) -
      g.shortfall x pos pos1 x.player := by
  unfold gain shortfall loss victim
  cases held : g.square pos1 with
  | none =>
    simp only [Option.elim_none, ite_self, and_true]
    split <;> ring
  | some y =>
    have differ := legal.foe_ne held
    simp only [Option.elim_some, and_true, differ, and_false, if_false, zero_add]
    split <;> split <;> simp only [Option.elim_none, Option.elim_some, differ.symm, if_true, if_false] <;> ring

/-- **The gain is the change of the lead.** -/
theorem gain_eq (legal : g.Move x pos pos1) :
    g.gain x pos pos1 =
      (teamWorth (g.move x pos pos1).1.square (group x.player) - teamWorth g.square (group x.player)) -
      (teamWorth (g.move x pos pos1).1.square (1 - group x.player) -
        teamWorth g.square (1 - group x.player)) := by
  have change : ∀ p, (if opposed x.player p then -worth rewardMap (g.move x pos pos1).1.square p
        else worth rewardMap (g.move x pos pos1).1.square p) =
      (if opposed x.player p then -worth rewardMap g.square p else worth rewardMap g.square p) +
      ((if x.player = p then -g.shortfall x pos pos1 p else 0) +
        (g.square pos1).elim 0 fun y => if y.player = p then g.shortfall x pos pos1 p else 0) := by
    intro p
    rw [worth_move legal]
    by_cases own : x.player = p
    · have other : ((g.square pos1).elim 0 fun y => if y.player = p then g.shortfall x pos pos1 p else 0) = 0 := by
        cases held : g.square pos1 with
        | none => rfl
        | some y => exact if_neg fun same => legal.foe_ne held (own.trans same.symm)
      rw [other, own, opposed_irrefl, if_neg Bool.false_ne_true, if_neg Bool.false_ne_true, if_pos rfl]
      ring
    · rw [if_neg own, zero_add]
      by_cases other : ∃ y, g.square pos1 = some y ∧ y.player = p
      · obtain ⟨y, held, same⟩ := other
        have foe := legal.foe y held
        rw [same] at foe
        rw [foe, if_pos rfl, if_pos rfl, held, Option.elim_some, if_pos same]
        ring
      · have paid : g.shortfall x pos pos1 p = 0 := shortfall_of_ne own fun y held same => other ⟨y, held, same⟩
        have none : ((g.square pos1).elim 0 fun y => if y.player = p then g.shortfall x pos pos1 p else 0) = 0 := by
          cases held : g.square pos1 with
          | none => rfl
          | some y => exact if_neg fun same => other ⟨y, held, same⟩
        rw [none, paid, sub_zero, add_zero]
  have lead := lead_eq (g.move x pos pos1).1.square x.player
  have before := lead_eq g.square x.player
  rw [Finset.sum_congr rfl fun p _ => change p, Finset.sum_add_distrib, Finset.sum_add_distrib,
    Finset.sum_ite_eq, if_pos (Finset.mem_univ _), ← before] at lead
  have theirs : ∑ p, ((g.square pos1).elim 0 fun y => if y.player = p then g.shortfall x pos pos1 p else 0) =
      (g.square pos1).elim 0 fun y => g.shortfall x pos pos1 y.player := by
    cases held : g.square pos1 with
    | none => simp
    | some y => simp
  rw [theirs] at lead
  rw [gain_eq_shortfall legal]
  linarith

/-- The fifth skip costs the lead what the seat still owned. -/
theorem pass_eq {p : Player} (fifth : g.skips p + 1 = 5) :
    (g.pass p).2.reward =
      (teamWorth (g.pass p).1.square (group p) - teamWorth g.square (group p)) -
      (teamWorth (g.pass p).1.square (1 - group p) - teamWorth g.square (1 - group p)) := by
  have swept : (g.pass p).1.square = cleared [p] g.square ∧ (g.pass p).2.reward = -worth rewardMap g.square p := by
    unfold pass
    dsimp only
    rw [if_pos fifth]
    exact ⟨rfl, rfl⟩
  have change : ∀ p', (if opposed p p' then -worth rewardMap (cleared [p] g.square) p'
        else worth rewardMap (cleared [p] g.square) p') =
      (if opposed p p' then -worth rewardMap g.square p' else worth rewardMap g.square p') +
        if p = p' then -worth rewardMap g.square p' else 0 := by
    intro p'
    rw [worth_cleared]
    by_cases own : p = p'
    · subst own
      rw [opposed_irrefl]
      simp
    · simp [own, Ne.symm own]
  have lead := lead_eq (cleared [p] g.square) p
  have before := lead_eq g.square p
  rw [Finset.sum_congr rfl fun p' _ => change p', Finset.sum_add_distrib, Finset.sum_ite_eq,
    if_pos (Finset.mem_univ _), ← before] at lead
  rw [swept.1, swept.2]
  linarith

end Game

end SlimeBoard
