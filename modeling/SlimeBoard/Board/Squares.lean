import SlimeBoard.Lib.Radix

/-!
# The squares of the four-player board

The four home areas are `30 * p ..< 30 * p + 30` for seat `p`, the nine centre
squares are 120 to 128. The movement tables are built from the same square lists
as the source builds them from; a `defaultdict` is a total function.
-/

namespace SlimeBoard

/-- A seat. -/
abbrev Player := Fin 4

/-- A square of the board. -/
abbrev Pos := Fin 129

/-- A rank: 0 mine, 1 commander, 2 general, 3 division, 4 brigade, 5 regiment,
6 battalion and 7 company commander, 8 platoon leader, 9 engineer, 10 bomb, 11 flag. -/
abbrev Role := Fin 12

-- numerals of these types, `Fin.ofNat` and membership in lists look for them
instance neZero_players : NeZero (4 : Nat) := ⟨by decide⟩
instance neZero_squares : NeZero (129 : Nat) := ⟨by decide⟩
instance neZero_roles : NeZero (12 : Nat) := ⟨by decide⟩
instance neZero_slots : NeZero (25 : Nat) := ⟨by decide⟩
instance neZero_groups : NeZero (2 : Nat) := ⟨by decide⟩
instance lawfulBEq_players : LawfulBEq Player := inferInstance
instance lawfulBEq_squares : LawfulBEq Pos := inferInstance

open Radix

/-- The railway lines. -/
def railLines : List (List Pos) :=
  [[0, 1, 2, 3, 4], [20, 21, 22, 23, 24], [30, 31, 32, 33, 34], [50, 51, 52, 53, 54], [60, 61, 62, 63, 64],
   [80, 81, 82, 83, 84], [90, 91, 92, 93, 94], [110, 111, 112, 113, 114],
   [20, 15, 10, 5, 0, 126, 127, 120, 64, 69, 74, 79, 84],
   [24, 19, 14, 9, 4, 124, 123, 122, 60, 65, 70, 75, 80],
   [50, 45, 40, 35, 30, 124, 125, 126, 94, 99, 104, 109, 114],
   [54, 49, 44, 39, 34, 122, 121, 120, 90, 95, 100, 105, 110],
   [20, 15, 10, 5, 0, 94, 99, 104, 109, 114], [24, 19, 14, 9, 4, 30, 35, 40, 45, 50],
   [54, 49, 44, 39, 34, 60, 65, 70, 75, 80], [84, 79, 74, 69, 64, 90, 95, 100, 105, 110],
   [2, 125, 128, 121, 62], [32, 123, 128, 127, 92]]

/-! ## Straight railway lines -/

namespace Straight

/-- `add_graph(graph[a], seq)` -/
def addTo (graph : Pos → Trie Pos) (a : Pos) (seq : List Pos) : Pos → Trie Pos :=
  fun x => if x = a then (graph x).addGraph seq else graph x

/-- The loop body of `add_seqs` for the square at index `i` of `seq`. -/
def addSquare (seq : List Pos) (graph : Pos → Trie Pos) (entry : Pos × Nat) : Pos → Trie Pos :=
  let (a, i) := entry
  addTo (addTo graph a (seq.take i).reverse) a (seq.drop (i + 1))

def addSeqs (graph : Pos → Trie Pos) (seqs : List (List Pos)) : Pos → Trie Pos :=
  seqs.foldl (fun graph seq => seq.zipIdx.foldl (addSquare seq) graph) graph

end Straight

def POS2STRAIGHT : Pos → Trie Pos := Straight.addSeqs (fun _ => .empty) railLines

/-! ## Neighbour sets -/

section Builders

variable {κ ν : Type} [DecidableEq κ] [DecidableEq ν]

/-- `graph[a].add(b)` -/
def addTo (graph : κ → List ν) (a : κ) (b : ν) : κ → List ν :=
  fun x => if x = a then (graph x).insert b else graph x

/-- `add_src`: the first element leads to the others. -/
def addSrc (graph : κ → List ν) (seqs : List (κ × List ν)) : κ → List ν :=
  seqs.foldl (fun graph (a, bs) => bs.foldl (fun graph b => addTo graph a b) graph) graph

/-- `add_from_src`: the other elements lead to the first. -/
def addFromSrc (graph : κ → List ν) (seqs : List (ν × List κ)) : κ → List ν :=
  seqs.foldl (fun graph (a, bs) => bs.foldl (fun graph b => addTo graph b a) graph) graph

end Builders

/-- `add_seqs` of `make_pos2any`: consecutive squares of a line are neighbours. -/
def addLine (graph : Pos → List Pos) : List Pos → Pos → List Pos
  | a :: b :: rest => addLine (addTo (addTo graph a b) b a) (b :: rest)
  | _ => graph

def POS2ANY : Pos → List Pos := railLines.foldl addLine (fun _ => [])

/-- `add_seqs` of `make_pos2plain` -/
def addPairs (graph : Pos → List Pos) (pairs : List (Pos × Pos)) : Pos → List Pos :=
  pairs.foldl (fun graph (a, b) => addTo (addTo graph a b) b a) graph

def POS2PLAIN : Pos → List Pos :=
  addSrc
    (addPairs (fun _ => [])
      [(2, 7), (10, 11), (13, 14), (17, 22), (20, 25), (22, 27), (24, 29),
       (32, 37), (40, 41), (43, 44), (47, 52), (50, 55), (52, 57), (54, 59),
       (62, 67), (70, 71), (73, 74), (77, 82), (80, 85), (82, 87), (84, 89),
       (92, 97), (100, 101), (103, 104), (107, 112), (110, 115), (112, 117), (114, 119)])
    [(6, [0, 1, 2, 5, 7, 10, 11]), (8, [2, 3, 4, 7, 9, 13, 14]), (12, [7, 11, 13, 17]),
     (16, [10, 11, 15, 17, 20, 21, 22]), (18, [13, 14, 17, 19, 22, 23, 24]),
     (36, [30, 31, 32, 35, 37, 40, 41]), (38, [32, 33, 34, 37, 39, 43, 44]), (42, [37, 41, 43, 47]),
     (46, [40, 41, 45, 47, 50, 51, 52]), (48, [43, 44, 47, 49, 52, 53, 54]),
     (66, [60, 61, 62, 65, 67, 70, 71]), (68, [62, 63, 64, 67, 69, 73, 74]), (72, [67, 71, 73, 77]),
     (76, [70, 71, 75, 77, 80, 81, 82]), (78, [73, 74, 77, 79, 82, 83, 84]),
     (96, [90, 91, 92, 95, 97, 100, 101]), (98, [92, 93, 94, 97, 99, 103, 104]), (102, [97, 101, 103, 107]),
     (106, [100, 101, 105, 107, 110, 111, 112]), (108, [103, 104, 107, 109, 112, 113, 114])]

def POS2CAMP : Pos → List Pos :=
  addFromSrc (fun _ => [])
    [(6, [0, 1, 2, 5, 7, 10, 11, 12]), (8, [2, 3, 4, 7, 9, 12, 13, 14]), (12, [6, 7, 8, 11, 13, 16, 17, 18]),
     (16, [10, 11, 12, 15, 17, 20, 21, 22]), (18, [12, 13, 14, 17, 19, 22, 23, 24]),
     (36, [30, 31, 32, 35, 37, 40, 41, 42]), (38, [32, 33, 34, 37, 39, 42, 43, 44]),
     (42, [36, 37, 38, 41, 43, 46, 47, 48]),
     (46, [40, 41, 42, 45, 47, 50, 51, 52]), (48, [42, 43, 44, 47, 49, 52, 53, 54]),
     (66, [60, 61, 62, 65, 67, 70, 71, 72]), (68, [62, 63, 64, 67, 69, 72, 73, 74]),
     (72, [66, 67, 68, 71, 73, 76, 77, 78]),
     (76, [70, 71, 72, 75, 77, 80, 81, 82]), (78, [72, 73, 74, 77, 79, 82, 83, 84]),
     (96, [90, 91, 92, 95, 97, 100, 101, 102]), (98, [92, 93, 94, 97, 99, 102, 103, 104]),
     (102, [96, 97, 98, 101, 103, 106, 107, 108]),
     (106, [100, 101, 102, 105, 107, 110, 111, 112]), (108, [102, 103, 104, 107, 109, 112, 113, 114])]

/-- Each headquarters square with the squares next to it. -/
def headquarterEdges : List (Pos × List Pos) :=
  [(26, [21, 25, 27]), (28, [23, 27, 29]), (56, [51, 55, 57]), (58, [53, 57, 59]), (86, [81, 85, 87]),
   (88, [83, 87, 89]), (116, [111, 115, 117]), (118, [113, 117, 119])]

def POS2FLAG : Pos → List Pos := addFromSrc (fun _ => []) headquarterEdges

def FLAG2POS : Pos → List Pos := addSrc (fun _ => []) headquarterEdges

/-- The headquarters squares. -/
def headquarters : List Pos := [26, 28, 56, 58, 86, 88, 116, 118]

/-- The camps: the sources of the camp edges. -/
def camps : List Pos :=
  [6, 8, 12, 16, 18, 36, 38, 42, 46, 48, 66, 68, 72, 76, 78, 96, 98, 102, 106, 108]

/-! ## The view rotation -/

/-- `transform_pos`, one element -/
def transformPos (pos : Pos) : Pos :=
  if pos.val < 120 then Fin.ofNat 129 (((pos.val : Int) - 30) % 120).toNat
  else if 120 ≤ pos.val ∧ pos.val ≤ 125 then Fin.ofNat 129 (pos.val + 2)
  else if 126 ≤ pos.val ∧ pos.val ≤ 127 then Fin.ofNat 129 (pos.val - 6)
  else pos

/-- `transform_pos_reverse_scalar` -/
def transformPosReverse (pos : Pos) : Pos :=
  if pos.val < 120 then Fin.ofNat 129 ((pos.val + 30) % 120)
  else if 120 ≤ pos.val ∧ pos.val ≤ 121 then Fin.ofNat 129 (pos.val + 6)
  else if 122 ≤ pos.val ∧ pos.val ≤ 127 then Fin.ofNat 129 (pos.val - 2)
  else pos

theorem transform_reverse : ∀ pos, transformPos (transformPosReverse pos) = pos := by decide

theorem reverse_transform : ∀ pos, transformPosReverse (transformPos pos) = pos := by decide

end SlimeBoard
