import SlimeBoard.Lib.PyDict
import SlimeBoard.Board.Squares

/-!
# Move search

`traverse_dfs` follows the straight railway lines, `traverse_bfs` floods the
railway for an engineer, `traverse` looks at the neighbours in one table. A
Python set is a duplicate-free list. The iteration order of a Python set of
squares is not specified; only the breadth-first search can observe it, through
its parent map, so the order is a parameter `RailOrder`.
-/

namespace SlimeBoard

open Radix

/-- A piece is named by its seat, its rank and its number among equals. -/
structure Piece where
  player : Player
  role : Role
  idx : Nat
  deriving DecidableEq, Repr

/-- An order in which the neighbour sets of `POS2ANY` are iterated. -/
structure RailOrder where
  list : Pos → List Pos
  perm : ∀ pos, (list pos).Perm (POS2ANY pos)

/-- The sets a traversal collects and its parent map. -/
structure Traversal where
  positions : List Pos
  pieces : List Piece
  parent : Dict Pos Pos

def Traversal.empty : Traversal := ⟨[], [], ∅⟩

/-- `abs(a - b) in {1, 3}`: the seats belong to different groups. -/
def opposed (a b : Player) : Bool :=
  let d := ((a.val : Int) - (b.val : Int)).natAbs
  d == 1 || d == 3

section Traverse

variable (pos2piece : Dict Pos Piece)

/-- The square is not in `pos2piece`. -/
def isFree (pos : Pos) : Bool := (pos2piece.lookup pos).isNone

/-- `piece and abs(piece[0] - piece1[0]) in {1, 3}` -/
def attacks (piece : Option Piece) (piece1 : Piece) : Bool :=
  match piece with
  | none => false
  | some piece => opposed piece.player piece1.player

/-- What every traversal does at a square first met from `prev`: a free square is
a target; an occupied one contributes its piece, and is a target if `attack` says so. -/
def Traversal.visit (attack : Piece → Bool) (acc : Traversal) (pos prev : Pos) : Traversal :=
  match pos2piece.lookup pos with
  | none => { acc with positions := acc.positions.insert pos, parent := acc.parent.insert pos prev }
  | some piece1 =>
    if attack piece1 then
      { positions := acc.positions.insert pos
        pieces := acc.pieces.insert piece1
        parent := acc.parent.insert pos prev }
    else { acc with pieces := acc.pieces.insert piece1 }

/-- The inner loop of `dfs` along one label; the result is `cur_prev`, or `none`
after the `break` at an occupied square. -/
def walkPath (attack : Piece → Bool) (curPrev : Pos) : List Pos → Traversal → Traversal × Option Pos
  | [], acc => (acc, some curPrev)
  | pos :: path, acc =>
    if isFree pos2piece pos then
      walkPath attack pos path (acc.visit pos2piece attack pos curPrev)
    else (acc.visit pos2piece attack pos curPrev, none)

def dfs (attack : Piece → Bool) : Trie Pos → Pos → Traversal → Traversal
  | .empty, _, acc => acc
  | .entry path subtree rest, prev, acc =>
    match walkPath pos2piece attack prev path acc with
    | (acc, some curPrev) => dfs attack rest prev (dfs attack subtree curPrev acc)
    | (acc, none) => dfs attack rest prev acc

def traverseDfs (startPos : Pos) (graph : Pos → Trie Pos) : Traversal :=
  dfs pos2piece (attacks (pos2piece.lookup startPos)) (graph startPos) startPos .empty

/-- The loop state of `traverse_bfs`. -/
structure Flood where
  queue : List Pos
  visited : List Pos
  acc : Traversal

/-- One turn of the inner loop of `traverse_bfs`. -/
def Flood.look (attack : Piece → Bool) (nxt : Pos) (s : Flood) (pos : Pos) : Flood :=
  if pos ∈ s.visited then s
  else
    { queue := if isFree pos2piece pos then s.queue ++ [pos] else s.queue
      visited := s.visited ++ [pos]
      acc := s.acc.visit pos2piece attack pos nxt }

/-- `while queue`, at most `fuel` turns. -/
def Flood.run (attack : Piece → Bool) (graph : Pos → List Pos) : Nat → Flood → Flood
  | 0, s => s
  | fuel + 1, s =>
    match s.queue with
    | [] => s
    | nxt :: queue =>
      Flood.run attack graph fuel
        ((graph nxt).foldl (Flood.look pos2piece attack nxt) { s with queue })

/-- Every square enters the queue at most once, so as many turns empty it. -/
def Flood.turns : Nat := 129

def traverseBfs (startPos : Pos) (graph : Pos → List Pos) : Py Traversal := do
  let piece ← pos2piece.get startPos
  return (Flood.run pos2piece (attacks (some piece)) graph Flood.turns ⟨[startPos], [startPos], .empty⟩).acc

def traverse (startPos : Pos) (graph : Pos → List Pos) (isCamp : Bool) : Traversal :=
  (graph startPos).foldl
    (fun acc pos =>
      acc.visit pos2piece (fun piece1 => !isCamp && attacks (pos2piece.lookup startPos) piece1)
        pos startPos)
    .empty

/-- `for k, v in d.items(): assert k not in parent; parent[k] = v` -/
def mergeParent (parent : Dict Pos (Option Pos)) (d : Dict Pos Pos) : Py (Dict Pos (Option Pos)) :=
  d.entries.foldlM
    (fun parent entry => do
      pyAssert (!decide (entry.1 ∈ parent))
      return parent.insert entry.1 (some entry.2))
    parent

/-- The result of `get_moves` and `get_engineer_moves`. -/
structure Moves where
  positions : List Pos
  pieces : List Piece
  parent : Dict Pos (Option Pos)

/-- The common part of `get_moves` and `get_engineer_moves` after the railway search. -/
def withNeighbours (startPos : Pos) (rail : Traversal) : Py Moves := do
  let plain := traverse pos2piece startPos POS2PLAIN false
  let camp := traverse pos2piece startPos POS2CAMP true
  let flag := traverse pos2piece startPos POS2FLAG false
  let pieces4 := (traverse pos2piece startPos FLAG2POS false).pieces
  let parent ← [rail.parent, plain.parent, camp.parent, flag.parent].foldlM mergeParent
    ((∅ : Dict Pos (Option Pos)).insert startPos none)
  return {
    positions := rail.positions ∪ plain.positions ∪ camp.positions ∪ flag.positions
    pieces := rail.pieces ∪ plain.pieces ∪ camp.pieces ∪ pieces4
    parent }

def getMoves (startPos : Pos) : Py Moves :=
  withNeighbours pos2piece startPos (traverseDfs pos2piece startPos POS2STRAIGHT)

def getEngineerMoves (ord : RailOrder) (startPos : Pos) : Py Moves := do
  let rail ← traverseBfs pos2piece startPos ord.list
  withNeighbours pos2piece startPos rail

/-- The move search of `update_mask_by_pieces` and `get_path` for `piece`. -/
def pieceMoves (ord : RailOrder) (piece : Piece) (pos : Pos) : Py Moves :=
  if piece.role = 9 then getEngineerMoves pos2piece ord pos else getMoves pos2piece pos

end Traverse

/-- `while cur is not None: path.append(cur); cur = parent.get(cur)` -/
def climb (parent : Dict Pos (Option Pos)) : Nat → Option Pos → List Pos → Py (List Pos)
  | _, none, path => .ok path
  | 0, some _, _ => .error .diverges
  | fuel + 1, some cur, path => climb parent fuel (parent.lookup cur).join (path ++ [cur])

end SlimeBoard
