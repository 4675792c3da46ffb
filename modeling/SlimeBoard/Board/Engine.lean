import SlimeBoard.Board.Traverse

/-!
# The game engine

The class `Board`: its dictionaries, the incrementally maintained action masks,
and `update`, which plays one action. Every dictionary access that can raise and
every assertion is in `Py`. Rewards are exact rationals.
-/

namespace SlimeBoard

/-- `np.zeros(46 * 129, dtype=bool)`: a bit for every action id and square. -/
abbrev ActionMask := Nat → Bool

/-- `mask[indices] = value` -/
def setBits (mask : ActionMask) (indices : List Nat) (value : Bool) : ActionMask :=
  fun i => if i ∈ indices then value else mask i

/-- `mask[base: base + 129] = False` -/
def clearRow (mask : ActionMask) (base : Nat) : ActionMask :=
  fun i => if base ≤ i ∧ i < base + 129 then false else mask i

/-- The squares an action id may reach in the starting position. -/
def actionTargets : Nat → List Pos :=
  addSrc
    (addFromSrc (fun _ => [])
      [(6, [0, 1, 2, 5, 6, 8, 9]), (8, [2, 3, 4, 6, 7, 10, 11]), (12, [6, 9, 10, 13]),
       (16, [8, 9, 12, 13, 15, 16, 17]), (18, [10, 11, 13, 14, 17, 18, 19]),
       (66, [23, 24, 25, 28, 29, 31, 32]), (68, [25, 26, 27, 29, 30, 33, 34]), (72, [29, 32, 33, 36]),
       (76, [31, 32, 35, 36, 38, 39, 40]), (78, [33, 34, 36, 37, 40, 41, 42])])
    [(0, [126, 127, 120, 94]), (2, [125, 128, 121]), (4, [124, 123, 122, 30]),
     (23, [124, 123, 122, 34]), (25, [125, 128, 121]), (27, [126, 127, 120, 90])]

def ACTION_MASK : ActionMask :=
  (List.range 46).foldl
    (fun mask a => setBits mask ((actionTargets a).map fun q => a * 129 + q.val) true) (fun _ => false)

/-- `reward_map` -/
def rewardMap : Role → ℚ := ![1, 15, 9, 5, 3, 2, 3 / 2, 6 / 5, 1, 2, 3, 0]

/-- `player % 2` -/
def group (player : Player) : Fin 2 := Fin.ofNat 2 player.val

structure Board where
  layout : Player → List Role
  pos2piece : Dict Pos Piece
  piece2pos : Dict Piece Pos
  action2piece : Fin 2 → Dict Nat Piece
  piece2action : Fin 2 → Dict Piece Nat
  actionMask : Fin 2 → ActionMask
  influencedPieces : Player → List Piece
  engineerPieces : Player → List Piece
  deadPlayers : List Player
  stepCount : Player → Nat
  piecesCount : Player → Int
  flagPos : Player → Nat

/-! ## Construction -/

/-- The squares of a layout, relative to the home area. -/
def layoutPositions : List Nat :=
  [0, 1, 2, 3, 4, 5, 7, 9, 10, 11, 13, 14, 15, 17, 19, 20, 21, 22, 23, 24, 25, 26, 27, 28, 29]

/-- The loop state of `init_layout`. -/
structure Setup where
  counter : Dict (Player × Role) Nat
  pos2piece : Dict Pos Piece
  piece2pos : Dict Piece Pos
  action2piece : Fin 2 → Dict Nat Piece
  piece2action : Fin 2 → Dict Piece Nat
  actionIds : Fin 2 → Nat

def Setup.empty : Setup := ⟨∅, ∅, ∅, fun _ => ∅, fun _ => ∅, fun _ => 0⟩

/-- The body of the inner loop of `init_layout`. -/
def Setup.place (playerId : Player) (s : Setup) (entry : Role × Nat) : Setup :=
  let (role, pos) := entry
  let group := group playerId
  let idx := (s.counter.lookup (playerId, role)).getD 0
  let piece : Piece := ⟨playerId, role, idx⟩
  let boardPos : Pos := Fin.ofNat 129 (30 * playerId.val + pos)
  let s := { s with
    counter := s.counter.insert (playerId, role) (idx + 1)
    piece2pos := s.piece2pos.insert piece boardPos
    pos2piece := s.pos2piece.insert boardPos piece }
  if pos ∈ [26, 28] then s
  else
    let actionId := s.actionIds group
    { s with
      action2piece := Function.update s.action2piece group ((s.action2piece group).insert actionId piece)
      piece2action := Function.update s.piece2action group ((s.piece2action group).insert piece actionId)
      actionIds := Function.update s.actionIds group (actionId + 1) }

def initLayout (layout : Player → List Role) : Setup :=
  [0, 1, 2, 3].foldl
    (fun s playerId => ((layout playerId).zip layoutPositions).foldl (Setup.place playerId) s)
    .empty

namespace Board

/-- `for pos in positions`: set `offsets` in the rows of the pieces of rank `role`. -/
def markRows (role : Role) (offsets : List Nat) (value : Bool) (g : Fin 2) (positions : List Pos)
    (b : Board) : Py Board :=
  positions.foldlM
    (fun b pos => do
      let piece ← b.pos2piece.get pos
      if piece.role = role then
        let actionId ← (b.piece2action g).get piece
        let mask := setBits (b.actionMask g) (offsets.map (actionId * 129 + ·)) value
        return { b with actionMask := Function.update b.actionMask g mask }
      else return b)
    b

def initActionMask (b : Board) : Py Board := do
  let b ← b.markRows 9 ((List.range 9).map (120 + ·)) true 0 [0, 2, 4, 60, 62, 64]
  let b ← b.markRows 9 ((List.range 9).map (120 + ·)) true 1 [30, 32, 34, 90, 92, 94]
  let b ← b.markRows 0 (List.range 129) false 0 [20, 21, 22, 23, 24, 80, 81, 82, 83, 84]
  b.markRows 0 (List.range 129) false 1 [50, 51, 52, 53, 54, 110, 111, 112, 113, 114]

def initEngineerPieces (b : Board) : Board :=
  b.piece2pos.keys.foldl
    (fun b p =>
      if p.role = 9 then
        let pieces := (b.engineerPieces p.player).insert p
        { b with engineerPieces := Function.update b.engineerPieces p.player pieces }
      else b)
    b

/-- The body of the inner loop of `init_pieces_count`. -/
def countHeadquarters (player : Player) (b : Board) (entry : Pos × Nat) : Py Board := do
  let (pos, i) := entry
  let piece ← b.pos2piece.get pos
  let count := b.piecesCount player + if piece.role = 0 then 1 else 0
  let flag := if piece.role = 11 then i + player.val * 2 else b.flagPos player
  return { b with
    piecesCount := Function.update b.piecesCount player count
    flagPos := Function.update b.flagPos player flag }

def initPiecesCount (b : Board) : Py Board :=
  [((0 : Player), [(26 : Pos), 28]), (1, [56, 58]), (2, [86, 88]), (3, [116, 118])].foldlM
    (fun b (player, positions) => positions.zipIdx.foldlM (countHeadquarters player) b) b

/-- `Board(layout)` -/
def new (layout : Player → List Role) : Py Board := do
  let s := initLayout layout
  let b : Board :=
    { layout
      pos2piece := s.pos2piece
      piece2pos := s.piece2pos
      action2piece := s.action2piece
      piece2action := s.piece2action
      actionMask := fun _ => ACTION_MASK
      influencedPieces := fun _ => []
      engineerPieces := fun _ => []
      deadPlayers := []
      stepCount := fun _ => 0
      piecesCount := fun _ => 20
      flagPos := fun _ => 0 }
  let b ← b.initActionMask
  let b := b.initEngineerPieces
  b.initPiecesCount

def getLayout (b : Board) (g : Fin 2) : List Role :=
  if g = 0 then b.layout 0 ++ b.layout 2 else b.layout 1 ++ b.layout 3

/-! ## Masks -/

/-- `if piece[1] == 0: continue; influenced_pieces[piece[0]].add(piece)`, for every piece. -/
def influence (pieces : List Piece) (b : Board) : Board :=
  pieces.foldl
    (fun b piece =>
      if piece.role = 0 then b
      else
        let pieces := (b.influencedPieces piece.player).insert piece
        { b with influencedPieces := Function.update b.influencedPieces piece.player pieces })
    b

def updateInfluencedPieces (pieces : List Piece) (positions : List Pos) (b : Board) : Py Board :=
  positions.foldlM
    (fun b pos => do
      let moves ← getMoves b.pos2piece pos
      return b.influence moves.pieces)
    (b.influence pieces)

/-- The square as group `g` sees it in its mask. -/
def view (g : Fin 2) (pos : Pos) : Pos := if g = 1 then transformPos pos else pos

/-- The loop body of `update_mask_by_pieces`. -/
def refreshRow (ord : RailOrder) (b : Board) (piece : Piece) : Py Board :=
  if piece.role = 0 then return b
  else
    let group := group piece.player
    match (b.piece2action group).lookup piece with
    | none => return b
    | some actionId =>
      let base := actionId * 129
      let mask := clearRow (b.actionMask group) base
      match b.piece2pos.lookup piece with
      | none => return { b with actionMask := Function.update b.actionMask group mask }
      | some pos => do
        let moves ← pieceMoves b.pos2piece ord piece pos
        let mask := setBits mask (moves.positions.map fun q => base + (view group q).val) true
        return { b with actionMask := Function.update b.actionMask group mask }

def updateMaskByPieces (ord : RailOrder) (pieces : List Piece) (b : Board) : Py Board :=
  pieces.foldlM (refreshRow ord) b

def updateMask (ord : RailOrder) (delPieces : List Piece) (b : Board) : Py Board := do
  let influenced := b.influencedPieces 0 ∪ b.influencedPieces 1 ∪ b.influencedPieces 2 ∪
    b.influencedPieces 3
  let b ← b.updateMaskByPieces ord (b.piece2pos.keys ∪ influenced ∪ delPieces)
  return { b with influencedPieces := fun _ => [] }

/-- `result` of `get_action_mask`: the player's half of the mask, and the skip. -/
def seatMask (player : Player) (mask : ActionMask) : ActionMask :=
  let size := 46 * 129
  let half := size / 2
  fun i =>
    if i = size then true
    else if player.val < 2 then (if i < half then mask i else false)
    else (if half ≤ i ∧ i < size then mask i else false)

/-- `None` for a dead player, else the mask over 46 × 129 moves and the skip. -/
def getActionMask (ord : RailOrder) (player : Player) (b : Board) : Py (Option ActionMask × Board) :=
  if player ∈ b.deadPlayers then return (none, b)
  else do
    let b ← b.updateMaskByPieces ord (b.influencedPieces player ∪ b.engineerPieces player)
    let b := { b with influencedPieces := Function.update b.influencedPieces player [] }
    return (some (seatMask player (b.actionMask (group player))), b)

/-! ## Playing an action -/

/-- What `update` returns. -/
structure Outcome where
  result : Nat
  path : List Pos
  flags : List Nat
  deadPlayers : List Player
  reward : ℚ

/-- Delete one piece of a dead player and add up its worth outside the headquarters. -/
def removePiece (st : Board × ℚ) (rmPiece : Piece) : Py (Board × ℚ) := do
  let (b, reward) := st
  let rmPos ← b.piece2pos.get rmPiece
  let piece2pos ← b.piece2pos.del rmPiece
  let pos2piece ← b.pos2piece.del rmPos
  return ({ b with piece2pos, pos2piece },
    if rmPos ∉ headquarters then reward + rewardMap rmPiece.role else reward)

def updateDeadPlayers (player : Player) (b : Board) : Py (Board × ℚ) := do
  let rmPieces := b.piece2pos.keys.filter (·.player = player)
  let (b, reward) ← rmPieces.foldlM removePiece (b, 0)
  let pieces := b.influencedPieces player ∪ rmPieces
  return ({ b with
    deadPlayers := b.deadPlayers.insert player
    influencedPieces := Function.update b.influencedPieces player pieces }, reward)

def decode (player : Player) (action : Nat) (b : Board) : Py (Piece × Pos) := do
  let group := group player
  let piece ← (b.action2piece group).get (action / 129)
  let pos : Pos := Fin.ofNat 129 (action % 129)
  return (piece, if group = 1 then transformPosReverse pos else pos)

/-- A path meets every square at most once, so 129 turns of the loop are enough. -/
def getPath (ord : RailOrder) (piece : Piece) (pos1 : Pos) (b : Board) : Py (List Pos) := do
  let pos ← b.piece2pos.get piece
  let moves ← pieceMoves b.pos2piece ord piece pos
  let path ← climb moves.parent 129 (some pos1) []
  return path.reverse

/-- `pieces_count[player] -= 1`, and the sweep when it reaches zero: the swept
reward and the players to report. -/
def countDown (player : Player) (b : Board) : Py (Board × ℚ × List Player) := do
  let b := { b with piecesCount := Function.update b.piecesCount player (b.piecesCount player - 1) }
  if b.piecesCount player = 0 then
    let (b, reward) ← b.updateDeadPlayers player
    return (b, reward, [player])
  else return (b, 0, [])

/-- The attacker takes the place of the defender. -/
def capture (piece piece1 : Piece) (pos pos1 : Pos) (b : Board) : Py Board := do
  let piece2pos ← Dict.del (b.piece2pos.insert piece pos1) piece1
  let pos2piece ← b.pos2piece.del pos
  return { b with piece2pos, pos2piece := pos2piece.insert pos1 piece }

/-- Both pieces leave the board. -/
def bothFall (piece piece1 : Piece) (pos pos1 : Pos) (b : Board) : Py Board := do
  let piece2pos ← b.piece2pos.del piece
  let piece2pos ← Dict.del piece2pos piece1
  let pos2piece ← b.pos2piece.del pos
  let pos2piece ← Dict.del pos2piece pos1
  return { b with piece2pos, pos2piece }

/-- The skip action. -/
def skip (ord : RailOrder) (player : Player) (b : Board) : Py (Board × Outcome) := do
  let b := { b with stepCount := Function.update b.stepCount player (b.stepCount player + 1) }
  if b.stepCount player = 5 then
    let (b, swept) ← b.updateDeadPlayers player
    let b ← b.updateMask ord []
    return (b, ⟨4, [], [], [player], -swept⟩)
  else return (b, ⟨4, [], [], [], -2⟩)

section Branches

variable (ord : RailOrder) (player : Player) (piece : Piece) (pos pos1 : Pos) (path : List Pos)
  (toFlag : Bool) (b : Board)

/-- `pos1 not in pos2piece` -/
def walk : Py (Board × Outcome) := do
  let pos2piece ← b.pos2piece.del pos
  let b := { b with
    piece2pos := b.piece2pos.insert piece pos1
    pos2piece := pos2piece.insert pos1 piece }
  if toFlag then
    let reward := 0 - rewardMap piece.role
    let (b, swept, dead) ← b.countDown player
    if dead ≠ [] then
      let b ← b.updateMask ord []
      return (b, ⟨0, path, [], dead, reward - swept⟩)
    let b ← b.updateInfluencedPieces [piece] [pos, pos1]
    return (b, ⟨0, path, [], [], reward⟩)
  let b ← b.updateInfluencedPieces [piece] [pos, pos1]
  return (b, ⟨0, path, [], [], 0⟩)

variable (piece1 : Piece)

/-- `role1 == 11` -/
def takeFlag : Py (Board × Outcome) := do
  let b ← (if piece.role = 10 then b.bothFall piece piece1 pos pos1 else b.capture piece piece1 pos pos1)
  let reward := 0 - rewardMap piece.role
  let (b, swept, dead) ← b.countDown player
  let (b, swept1) ← b.updateDeadPlayers piece1.player
  let b ← b.updateMask ord [piece, piece1]
  return (b, ⟨if piece.role = 10 then 3 else 1, path, [], dead ++ [piece1.player],
    reward - swept + swept1⟩)

/-- `if role1 != 0 and not to_flag`: the defender's loss is counted. -/
def countDefender (reward : ℚ) (dead : List Player) : Py (Board × ℚ × List Player) := do
  if piece1.role ≠ 0 ∧ toFlag = false then
    let (b, swept1, dead1) ← b.countDown piece1.player
    return (b, reward + swept1, dead ++ dead1)
  else return (b, reward, dead)

/-- `role == 10 or role1 == 10 or role == role1` -/
def tie : Py (Board × Outcome) := do
  let b ← b.bothFall piece piece1 pos pos1
  let reward := 0 - rewardMap piece.role
  let reward := if toFlag then reward else reward + rewardMap piece1.role
  let (b, swept, dead) ← b.countDown player
  let (b, reward, dead) ← b.countDefender toFlag piece1 (reward - swept) dead
  let b ← (if dead ≠ [] then b.updateMask ord [piece, piece1]
    else b.updateInfluencedPieces [piece, piece1] [pos, pos1])
  let flags := if piece.role = 1 ∧ player ∉ dead then [b.flagPos player] else []
  let flags1 := if piece1.role = 1 ∧ piece1.player ∉ dead then [b.flagPos piece1.player] else []
  return (b, ⟨3, path, flags ++ flags1, dead, reward⟩)

/-- `(role == 9 and role1 == 0) or (role < role1 and ...)` -/
def win : Py (Board × Outcome) := do
  let b ← b.capture piece piece1 pos pos1
  let reward : ℚ := if toFlag then 0 else 0 + rewardMap piece1.role
  let (b, reward, dead) ← (if toFlag then do
      let (b, swept, dead) ← b.countDown player
      pure (b, reward - rewardMap piece.role - swept, dead)
    else pure (b, reward, []))
  let (b, reward, dead) ← b.countDefender toFlag piece1 reward dead
  let b ← (if dead ≠ [] then b.updateMask ord [piece1]
    else b.updateInfluencedPieces [piece, piece1] [pos, pos1])
  return (b, ⟨1, path, [], dead, reward⟩)

/-- The attacker is lost. -/
def lose : Py (Board × Outcome) := do
  let piece2pos ← b.piece2pos.del piece
  let pos2piece ← b.pos2piece.del pos
  let b := { b with piece2pos, pos2piece }
  let reward := 0 - rewardMap piece.role
  let (b, swept, dead) ← b.countDown player
  let b ← (if dead ≠ [] then b.updateMask ord [piece] else b.updateInfluencedPieces [piece] [pos])
  let flags := if piece.role = 1 ∧ player ∉ dead then [b.flagPos player] else []
  return (b, ⟨2, path, flags, dead, reward - swept⟩)

end Branches

def update (ord : RailOrder) (player : Player) (action : Nat) (b : Board) : Py (Board × Outcome) := do
  if action = 5934 then b.skip ord player
  else
    let (piece, pos1) ← b.decode player action
    let path ← b.getPath ord piece pos1
    -- a path of one square is computed a second time
    let (piece, pos1, path) ← (if path.length = 1 then do
        let (piece, pos1) ← b.decode player action
        let path ← b.getPath ord piece pos1
        pure (piece, pos1, path)
      else pure (piece, pos1, path))
    let toFlag := decide (pos1 ∈ headquarters)
    let pos ← b.piece2pos.get piece
    pyAssert (decide (pos ≠ pos1))
    match b.pos2piece.lookup pos1 with
    | none => b.walk ord player piece pos pos1 path toFlag
    | some piece1 =>
      if piece1.role = 11 then b.takeFlag ord player piece pos pos1 path piece1
      else if piece.role = 10 ∨ piece1.role = 10 ∨ piece.role = piece1.role then
        b.tie ord player piece pos pos1 path toFlag piece1
      else if (piece.role = 9 ∧ piece1.role = 0) ∨
          (piece.role < piece1.role ∧ ¬ (piece.role = 0 ∧ piece1.role = 9)) then
        b.win ord player piece pos pos1 path toFlag piece1
      else b.lose ord player piece pos path

end Board

end SlimeBoard
