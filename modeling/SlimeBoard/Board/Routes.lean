import SlimeBoard.Board.Safety

/-!
# The paths of moves are routes

What `get_path` returns for a target of a piece is a way across the board: from square to
neighbouring square, through free squares, along the railway or over one other edge.
-/

namespace SlimeBoard

open Radix GraphSearch Board

/-- Next to each other on a railway line. -/
def RailEdge (a b : Pos) : Prop := ∃ l ∈ railLines, [a, b] <:+: l ∨ [a, b] <:+: l.reverse

/-- Joined by a plain, a camp or a headquarters edge. -/
def SideEdge (a b : Pos) : Prop := b ∈ POS2PLAIN a ∨ b ∈ POS2CAMP a ∨ b ∈ POS2FLAG a

/-- A way of `x` from `pos` to `pos1` over the squares `sq`. -/
structure IsRoute (sq : Squares) (x : Piece) (pos pos1 : Pos) (path : List Pos) : Prop where
  nodup : path.Nodup
  clear : ∃ inner, path = pos :: (inner ++ [pos1]) ∧ ∀ r ∈ inner, sq r = none
  steps : path.IsChain fun a b => RailEdge a b ∨ SideEdge a b
  engineer : x.role = 9 → (path = [pos, pos1] ∧ (RailEdge pos pos1 ∨ SideEdge pos pos1)) ∨ path.IsChain RailEdge
  walker : x.role ≠ 9 → (path = [pos, pos1] ∧ SideEdge pos pos1) ∨ ∃ l ∈ railLines, path <:+: l ∨ path <:+: l.reverse

def railCheck (pos : Pos) : Bool :=
  (POS2ANY pos).all fun d => railLines.any fun l => decide ([pos, d] <:+: l) || decide ([pos, d] <:+: l.reverse)

theorem railCheck_all : allSquares railCheck = true := by decide +kernel

/-- The neighbours of `POS2ANY` are next to each other on a line. -/
theorem railEdge_of_any {a b : Pos} (mem : b ∈ POS2ANY a) : RailEdge a b := by
  have check := List.all_eq_true.1 (of_allSquares railCheck_all a) b mem
  obtain ⟨l, line, both⟩ := List.any_eq_true.1 check
  rw [Bool.or_eq_true, decide_eq_true_iff, decide_eq_true_iff] at both
  exact ⟨l, line, both⟩

/-- Consecutive entries are a section of the list. -/
theorem isChain_sections {α : Type} (xs : List α) : xs.IsChain fun a b => [a, b] <:+: xs := by
  induction xs with
  | nil => exact .nil
  | cons a xs ih =>
    cases xs with
    | nil => exact .singleton a
    | cons b xs =>
      apply List.isChain_cons_cons.2
      refine ⟨(List.prefix_append [a, b] xs).isInfix, ?_⟩
      exact ih.imp fun c d part => part.trans (List.suffix_cons a (b :: xs)).isInfix

/-- A section of a line runs along railway edges. -/
theorem isChain_line {path l : List Pos} (line : l ∈ railLines) (part : path <:+: l ∨ path <:+: l.reverse) :
    path.IsChain RailEdge := by
  apply (isChain_sections path).imp
  intro a b both
  exact ⟨l, line, part.imp both.trans both.trans⟩

section Routes

variable {m : Dict Pos Piece} {x : Piece} {pos pos1 : Pos} {mv : Moves} {visits : List (Pos × Pos)}

/-- A neighbour off the railway is one step away. -/
theorem route_near (spec : MovesSpec m pos visits mv) (near : SideEdge pos pos1) (mem : pos1 ∈ mv.positions) :
    Climbs mv.next pos1 [pos1, pos] ∧ IsRoute (m.lookup ·) x pos pos1 [pos, pos1] := by
  have beside : pos1 ∈ nearby pos := by
    simp only [nearby, List.mem_append]
    exact or_assoc.2 near
  have climbs := spec.climbs_near beside mem
  refine ⟨climbs, List.nodup_reverse.1 climbs.nodup, ⟨[], rfl, ?_⟩, List.isChain_pair.2 (.inr near),
    fun _ => .inl ⟨rfl, .inr near⟩, fun _ => .inl ⟨rfl, near⟩⟩
  intro r mem
  cases mem

/-- What an engineer reaches by rail. -/
theorem route_flood {ord : RailOrder} (spec : MovesSpec m pos (floodVisits m ord pos) mv) (engineer : x.role = 9)
    (floods : Floods (m.lookup ·) pos pos1) (lands : Lands (m.lookup ·) (attacks (m.lookup pos)) pos1) :
    ∃ inner, Climbs mv.next pos1 (pos1 :: (inner ++ [pos])) ∧
      IsRoute (m.lookup ·) x pos pos1 (pos :: (inner.reverse ++ [pos1])) := by
  obtain ⟨l, climbs, -, clear, chain⟩ := climbs_flood spec floods lands
  have turned : (pos1 :: (l ++ [pos])).reverse = pos :: (l.reverse ++ [pos1]) := by simp
  have rail : (pos :: (l.reverse ++ [pos1])).IsChain RailEdge := by
    rw [← turned]
    exact List.isChain_reverse.2 (chain.imp fun a b edge => railEdge_of_any edge)
  refine ⟨l, climbs, ?_, ⟨_, rfl, fun r mem => clear r (List.mem_reverse.1 mem)⟩, rail.imp fun a b => .inl,
    fun _ => .inr rail, fun walker => absurd engineer walker⟩
  rw [← turned]
  exact List.nodup_reverse.2 climbs.nodup

/-- What another piece reaches by rail. -/
theorem route_straight (spec : MovesSpec m pos (straightVisits m pos) mv) (walker : x.role ≠ 9)
    (sees : Sees (m.lookup ·) pos pos1) (lands : Lands (m.lookup ·) (attacks (m.lookup pos)) pos1) :
    ∃ inner, Climbs mv.next pos1 (pos1 :: (inner ++ [pos])) ∧
      IsRoute (m.lookup ·) x pos pos1 (pos :: (inner.reverse ++ [pos1])) := by
  obtain ⟨ρ, path, free⟩ := sees
  have climbs := climbs_straight spec ρ path free lands
  obtain ⟨-, l, line, part⟩ := mem_straight.1 path
  refine ⟨ρ.reverse, climbs, ?_⟩
  rw [List.reverse_reverse]
  exact ⟨straight_nodup path, ⟨ρ, rfl, free⟩, (isChain_line line part).imp fun a b => .inl,
    fun engineer => absurd engineer walker, fun _ => .inr ⟨l, line, part⟩⟩

/-- The chain of the parent map from a target is a route, read backwards. -/
theorem route_exists {ord : RailOrder} (spec : MovesSpec m pos (railVisits m ord x pos) mv) (mem : pos1 ∈ mv.positions) :
    ∃ inner, Climbs mv.next pos1 (pos1 :: (inner ++ [pos])) ∧
      IsRoute (m.lookup ·) x pos pos1 (pos :: (inner.reverse ++ [pos1])) := by
  have near : SideEdge pos pos1 → ∃ inner, Climbs mv.next pos1 (pos1 :: (inner ++ [pos])) ∧
      IsRoute (m.lookup ·) x pos pos1 (pos :: (inner.reverse ++ [pos1])) := fun near => ⟨[], route_near spec near mem⟩
  rcases (spec.positions pos1).1 mem with ⟨rail, lands⟩ | ⟨plain, -⟩ | ⟨camp, -⟩ | ⟨flag, -⟩
  · rw [mem_railVisits] at rail
    unfold railVisits at spec
    unfold RailTo at rail
    by_cases engineer : x.role = 9
    · rw [if_pos engineer] at spec rail
      exact route_flood spec engineer rail lands
    · rw [if_neg engineer] at spec rail
      exact route_straight spec engineer rail lands
  · exact near (.inl plain)
  · exact near (.inr (.inl camp))
  · exact near (.inr (.inr flag))

end Routes

variable {ord : RailOrder} {layout : Player → List Role} {plays : List (Player × Nat)} {b : Board}
  {offers : Player → Option ActionMask}

/-- **The paths of moves are routes**, in every state of a run and for every piece on the board. -/
theorem paths_are_routes (generates : ∀ p, Generates (layout p)) (run : Run ord layout plays b offers) {x : Piece} {pos : Pos}
    (placed : b.piece2pos.lookup x = some pos) :
    ∃ mv, pieceMoves b.pos2piece ord x pos = .ok mv ∧ ∀ pos1 ∈ mv.positions, ∃ path,
      b.getPath ord x pos1 = .ok path ∧ IsRoute (b.pos2piece.lookup ·) x pos pos1 path := by
  have held := ((run.reached generates).inv.linked pos x).2 placed
  obtain ⟨mv, found, spec, targets⟩ := pieceMoves_spec ord held
  refine ⟨mv, found, ?_⟩
  intro pos1 mem
  obtain ⟨inner, climbs, route⟩ := route_exists spec mem
  obtain ⟨mv', l, again, -, climbs', path⟩ := getPath_spec ord placed held ((targets pos1).1 mem)
  obtain rfl := Except.ok.inj (again.symm.trans found)
  have same := climbs'.unique climbs
  rw [List.cons_inj_right, List.append_left_inj] at same
  rw [same] at path
  exact ⟨_, path, route⟩

/-- The commander of seat 0 goes from square 0 to the centre. -/
theorem paths_are_routes_first : ∃ (b : Board) (x : Piece) (path : List Pos),
    b.getPath tableOrder x 126 = .ok path ∧ IsRoute (b.pos2piece.lookup ·) x (squareAt (0, 0)) 126 path := by
  obtain ⟨b, new, starts⟩ := new_spec fun _ => firstLayout_generates.proper
  have held : b.pos2piece.lookup (squareAt (0, 0)) = some (pieceAt (fun _ => firstLayout) (0, 0)) :=
    (starts.placed _ _).2 ⟨_, rfl, rfl⟩
  obtain ⟨mv, moves, routes⟩ := paths_are_routes (fun _ => firstLayout_generates) (.start new)
    ((starts.inv.linked _ _).1 held)
  obtain ⟨mv', again, -, targets⟩ := pieceMoves_spec tableOrder held
  obtain rfl := Except.ok.inj (again.symm.trans moves)
  have can : CanMove (b.pos2piece.lookup ·) (pieceAt (fun _ => firstLayout) (0, 0)) (squareAt (0, 0)) 126 :=
    (mem_walkTargets (owner_of_placed starts.placed) (by decide)).1 (by decide +kernel)
  obtain ⟨path, found, route⟩ := routes 126 ((targets 126).2 can)
  exact ⟨b, _, path, found, route⟩

end SlimeBoard
