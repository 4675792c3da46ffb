import SlimeBoard.Board.Layout
import SlimeBoard.Board.Setup
import SlimeBoard.Board.Update

/-!
# A new board

`Board(layout)` never fails on generated layouts, and the board it returns
satisfies the invariant: the hand-written `ACTION_MASK` is right for the starting
position, and the tallies are.
-/

namespace SlimeBoard

open Radix

/-! ## Proper layouts -/

namespace Proper

variable {roles : List Role}

theorem length (proper : Proper roles) : roles.length = 25 := proper.army.length_eq

/-- An army has one flag. -/
theorem flag_unique (proper : Proper roles) {i j : Nat} (here : roles[i]? = some 11) (there : roles[j]? = some 11) :
    i = j := by
  obtain ⟨inside, here⟩ := List.getElem?_eq_some_iff.1 here
  obtain ⟨inside', there⟩ := List.getElem?_eq_some_iff.1 there
  have once : roles.count 11 = 1 := proper.army.count_eq 11
  have twice : ∀ i j : Nat, (inside : i < roles.length) → (inside' : j < roles.length) → roles[i] = 11 →
      roles[j] = 11 → ¬ i < j := by
    intro i j inside inside' here there before
    have two : 2 ≤ roles.count 11 := List.duplicate_iff_two_le_count.1
      (List.duplicate_iff_exists_distinct_get.2 ⟨⟨i, inside⟩, ⟨j, inside'⟩, before, here.symm, there.symm⟩)
    omega
  have first := twice i j inside inside' here there
  have second := twice j i inside' inside there here
  omega

/-- The flag is in one headquarters, and a mine, a private or a lieutenant in the other. -/
theorem headquarters (proper : Proper roles) : (roles[21]? = some 11 ∨ roles[23]? = some 11) ∧
    ∀ i : Nat, roles[i]? = some 11 → i = 21 ∨ i = 23 := by
  rcases proper.flag with ⟨flag, _⟩ | ⟨flag, _⟩
  · exact ⟨Or.inl flag, fun i held => Or.inl (proper.flag_unique held flag)⟩
  · exact ⟨Or.inr flag, fun i held => Or.inr (proper.flag_unique held flag)⟩

/-- Of the 21 pieces that are neither mine nor flag, at most one is in a headquarters. -/
theorem tally (proper : Proper roles) : (roles.map tallied).sum - tallied (roles.getD 21 0) - tallied (roles.getD 23 0) =
    20 + (if roles.getD 21 0 = 0 then 1 else 0) + if roles.getD 23 0 = 0 then 1 else 0 := by
  have army : (roles.map tallied).sum = 21 := by
    rw [(proper.army.map tallied).sum_eq]
    decide
  have other : ∀ r ∈ [(0 : Role), 7, 8], tallied r = 1 - if r = 0 then 1 else 0 := by decide
  rw [army, List.getD_eq_getElem?_getD, List.getD_eq_getElem?_getD]
  rcases proper.flag with ⟨flag, r, mem, held⟩ | ⟨flag, r, mem, held⟩
  · rw [flag, held, Option.getD_some, Option.getD_some, other r mem]
    have none : tallied 11 = 0 := by decide
    rw [none, if_neg (by decide : ¬ (11 : Role) = 0)]
    omega
  · rw [flag, held, Option.getD_some, Option.getD_some, other r mem]
    have none : tallied 11 = 0 := by decide
    rw [none, if_neg (by decide : ¬ (11 : Role) = 0)]
    omega

end Proper

namespace Board

variable {b : Board}

/-! ## The loops of the constructor -/

/-- What `markRows` does to the masks: it sets the offsets in the rows of the
pieces of the role, and nothing else. -/
structure Marks (b : Board) (role : Role) (offsets : List Nat) (value : Bool) (g : Fin 2) (positions : List Pos)
    (M : Fin 2 → ActionMask) : Prop where
  set : ∀ pos ∈ positions, ∀ x a, b.pos2piece.lookup pos = some x → x.role = role →
    (b.piece2action g).lookup x = some a → ∀ o ∈ offsets, M g (a * 129 + o) = value
  keep : ∀ g' i, M g' i = b.actionMask g' i ∨ (g' = g ∧ M g' i = value ∧
    ∃ x, x.role = role ∧ (b.piece2action g).lookup x = some (i / 129))

theorem markRows_spec (role : Role) (offsets : List Nat) (value : Bool) (g : Fin 2) (positions : List Pos)
    (small : ∀ o ∈ offsets, o < 129)
    (held : ∀ pos ∈ positions, ∃ x, b.pos2piece.lookup pos = some x ∧
      (x.role = role → ∃ a, (b.piece2action g).lookup x = some a)) :
    ∃ M, b.markRows role offsets value g positions = .ok { b with actionMask := M } ∧
      Marks b role offsets value g positions M := by
  induction positions generalizing b with
  | nil => exact ⟨b.actionMask, rfl, by simp, fun _ _ => Or.inl rfl⟩
  | cons pos positions ih =>
    obtain ⟨x, found, row⟩ := held pos (List.mem_cons_self ..)
    have held' := fun pos' mem => held pos' (List.mem_cons_of_mem _ mem)
    rw [markRows, List.foldlM_cons, Dict.get_eq found, Py.ok_bind]
    by_cases match_ : x.role = role
    · obtain ⟨a, row⟩ := row match_
      let mask := setBits (b.actionMask g) (offsets.map (a * 129 + ·)) value
      obtain ⟨M, run, set, keep⟩ := ih (b := { b with actionMask := Function.update b.actionMask g mask }) held'
      have first : ∀ o ∈ offsets, Function.update b.actionMask g mask g (a * 129 + o) = value := by
        intro o mem
        rw [Function.update_self]
        exact if_pos (List.mem_map.2 ⟨o, mem, rfl⟩)
      have frame : ∀ g' i, Function.update b.actionMask g mask g' i = b.actionMask g' i ∨
          (g' = g ∧ Function.update b.actionMask g mask g' i = value ∧ i / 129 = a) := by
        intro g' i
        by_cases same : g' = g
        · subst same
          rw [Function.update_self]
          by_cases mem : i ∈ offsets.map (a * 129 + ·)
          · obtain ⟨o, inside, rfl⟩ := List.mem_map.1 mem
            have := small o inside
            exact Or.inr ⟨rfl, if_pos mem, by omega⟩
          · exact Or.inl (if_neg mem)
        · rw [Function.update_of_ne same]
          exact Or.inl rfl
      refine ⟨M, ?_, ?_, ?_⟩
      · rw [if_pos match_, Dict.get_eq row]
        exact run
      · intro pos' mem y a' found' match' row' o inside
        rcases List.mem_cons.1 mem with rfl | mem
        · rw [found, Option.some.injEq] at found'
          subst found'
          rw [row, Option.some.injEq] at row'
          subst row'
          rcases keep g (a * 129 + o) with same | ⟨_, same, _⟩
          · rw [same]
            exact first o inside
          · exact same
        · exact set pos' mem y a' found' match' row' o inside
      · intro g' i
        rcases keep g' i with same | other
        · rcases frame g' i with same' | ⟨rfl, same', number⟩
          · exact Or.inl (same.trans same')
          · exact Or.inr ⟨rfl, same.trans same', x, match_, by rw [number, row]⟩
        · exact Or.inr other
    · obtain ⟨M, run, set, keep⟩ := ih held'
      refine ⟨M, ?_, ?_, keep⟩
      · rw [if_neg match_]
        exact run
      · intro pos' mem y a' found' match' row' o inside
        rcases List.mem_cons.1 mem with rfl | mem
        · rw [found, Option.some.injEq] at found'
          subst found'
          exact absurd match' match_
        · exact set pos' mem y a' found' match' row' o inside

theorem initEngineerPieces_spec : ∃ E, b.initEngineerPieces = { b with engineerPieces := E } ∧
    ∀ z ∈ b.piece2pos.keys, z.role = 9 → z ∈ E z.player := by
  have loop : ∀ (pieces : List Piece) (b : Board), ∃ E, pieces.foldl (fun (b : Board) p =>
      if p.role = 9 then
        let pieces := (b.engineerPieces p.player).insert p
        { b with engineerPieces := Function.update b.engineerPieces p.player pieces }
      else b) b = { b with engineerPieces := E } ∧
      ∀ z, z ∈ b.engineerPieces z.player ∨ (z ∈ pieces ∧ z.role = 9) → z ∈ E z.player := by
    intro pieces
    induction pieces with
    | nil => exact fun b => ⟨b.engineerPieces, rfl, by simp⟩
    | cons p pieces ih =>
      intro b
      rw [List.foldl_cons]
      by_cases engineer : p.role = 9
      · let E₁ := Function.update b.engineerPieces p.player ((b.engineerPieces p.player).insert p)
        obtain ⟨E, run, covers⟩ := ih { b with engineerPieces := E₁ }
        refine ⟨E, by rw [if_pos engineer]; exact run, fun z h => covers z ?_⟩
        have listed : z ∈ b.engineerPieces z.player ∨ z = p → z ∈ E₁ z.player := by
          intro h
          show z ∈ Function.update b.engineerPieces p.player _ z.player
          rw [Function.update_apply]
          split
          · rename_i same
            rw [List.mem_insert_iff, ← same]
            exact h.symm
          · rename_i differ
            refine h.resolve_right ?_
            rintro rfl
            exact differ rfl
        rcases h with h | ⟨mem, role⟩
        · exact Or.inl (listed (Or.inl h))
        · rcases List.mem_cons.1 mem with same | mem
          · exact Or.inl (listed (Or.inr same))
          · exact Or.inr ⟨mem, role⟩
      · obtain ⟨E, run, covers⟩ := ih b
        refine ⟨E, by rw [if_neg engineer]; exact run, fun z h => covers z (h.imp_right ?_)⟩
        rintro ⟨mem, role⟩
        rcases List.mem_cons.1 mem with rfl | mem
        · exact absurd role engineer
        · exact ⟨mem, role⟩
  obtain ⟨E, run, covers⟩ := loop b.piece2pos.keys b
  exact ⟨E, run, fun z mem role => covers z (Or.inr ⟨mem, role⟩)⟩

/-- The loop of `init_pieces_count` for one seat. -/
theorem countSeat_spec (player : Player) {q₀ q₁ : Pos} {x₀ x₁ : Piece} (held₀ : b.pos2piece.lookup q₀ = some x₀)
    (held₁ : b.pos2piece.lookup q₁ = some x₁) :
    [q₀, q₁].zipIdx.foldlM (countHeadquarters player) b = .ok { b with
      piecesCount := Function.update b.piecesCount player (b.piecesCount player +
        (if x₀.role = 0 then 1 else 0) + if x₁.role = 0 then 1 else 0)
      flagPos := Function.update b.flagPos player (if x₁.role = 11 then 1 + player.val * 2
        else if x₀.role = 11 then 0 + player.val * 2 else b.flagPos player) } := by
  have first : countHeadquarters player b (q₀, 0) = .ok { b with
      piecesCount := Function.update b.piecesCount player (b.piecesCount player + if x₀.role = 0 then 1 else 0)
      flagPos := Function.update b.flagPos player
        (if x₀.role = 11 then 0 + player.val * 2 else b.flagPos player) } := by
    rw [countHeadquarters]
    simp only [Dict.get_eq held₀, Py.ok_bind]
    rfl
  rw [List.zipIdx_cons, List.zipIdx_cons, List.zipIdx_nil, List.foldlM_cons, first, Py.ok_bind, List.foldlM_cons,
    countHeadquarters]
  simp only [Dict.get_eq held₁, Py.ok_bind, Function.update_self, Function.update_idem]
  rfl

/-- **The headquarters are counted**: a mine there is in the tally of 20 by default,
although it is none, so it is added. -/
theorem initPiecesCount_spec {layout : Player → List Role}
    (held : ∀ t, b.pos2piece.lookup (squareAt t) = some (pieceAt layout t)) :
    b.initPiecesCount = .ok { b with
      piecesCount := fun p => b.piecesCount p + (if roleAt layout (p, 21) = 0 then 1 else 0) +
        if roleAt layout (p, 23) = 0 then 1 else 0
      flagPos := fun p => if roleAt layout (p, 23) = 11 then 1 + p.val * 2
        else if roleAt layout (p, 21) = 11 then 0 + p.val * 2 else b.flagPos p } := by
  have squares : [((0 : Player), [(26 : Pos), 28]), (1, [56, 58]), (2, [86, 88]), (3, [116, 118])] =
      ([0, 1, 2, 3] : List Player).map fun p => (p, [squareAt (p, 21), squareAt (p, 23)]) := by decide
  rw [initPiecesCount, squares, List.foldlM_map]
  show ([0, 1, 2, 3] : List Player).foldlM (fun b p =>
    [squareAt (p, 21), squareAt (p, 23)].zipIdx.foldlM (countHeadquarters p) b) b = _
  rw [List.foldlM_cons, countSeat_spec 0 (held (0, 21)) (held (0, 23)), Py.ok_bind,
    List.foldlM_cons, countSeat_spec 1 (by exact held (1, 21)) (by exact held (1, 23)), Py.ok_bind,
    List.foldlM_cons, countSeat_spec 2 (by exact held (2, 21)) (by exact held (2, 23)), Py.ok_bind,
    List.foldlM_cons, countSeat_spec 3 (by exact held (3, 21)) (by exact held (3, 23)), Py.ok_bind, List.foldlM_nil]
  show Except.ok _ = Except.ok _
  congr 2
  · funext p
    fin_cases p <;> rfl
  · funext p
    fin_cases p <;> rfl

/-! ## The masks of the starting position -/

theorem actionMask_iff {a : Nat} (bound : a < 46) (q : Pos) :
    ACTION_MASK (a * 129 + q.val) = true ↔ q ∈ actionTargets a := by
  have loop : ∀ (rows : List Nat) (mask : ActionMask) (i : Nat),
      rows.foldl (fun mask a => setBits mask ((actionTargets a).map fun q => a * 129 + q.val) true) mask i = true ↔
        mask i = true ∨ ∃ a ∈ rows, ∃ q ∈ actionTargets a, a * 129 + q.val = i := by
    intro rows
    induction rows with
    | nil => simp
    | cons a rows ih =>
      intro mask i
      rw [List.foldl_cons, ih, setBits]
      by_cases mem : i ∈ (actionTargets a).map fun q => a * 129 + q.val
      · rw [if_pos mem]
        obtain ⟨q, inside, same⟩ := List.mem_map.1 mem
        exact ⟨fun _ => Or.inr ⟨a, List.mem_cons_self .., q, inside, same⟩, fun _ => Or.inl rfl⟩
      · rw [if_neg mem]
        refine or_congr_right ?_
        constructor
        · rintro ⟨a', mem', h⟩
          exact ⟨a', List.mem_cons_of_mem _ mem', h⟩
        · rintro ⟨a', mem', q, inside, same⟩
          rcases List.mem_cons.1 mem' with rfl | mem'
          · exact absurd (List.mem_map.2 ⟨q, inside, same⟩) mem
          · exact ⟨a', mem', q, inside, same⟩
  rw [ACTION_MASK, loop]
  constructor
  · rintro (h | ⟨a', _, q', inside, same⟩)
    · cases h
    · have := q.isLt
      have := q'.isLt
      obtain rfl : a' = a := by omega
      obtain rfl : q' = q := Fin.ext (by omega)
      exact inside
  · intro inside
    exact Or.inr ⟨a, List.mem_range.2 bound, q, inside, rfl⟩

/-- The seat that holds a square in the starting position. -/
def homeSeat (q : Pos) : Option Player :=
  if q.val < 120 ∧ q.val % 30 ∈ layoutPositions then some (Fin.ofNat 4 (q.val / 30)) else none

def opens (owner : Pos → Option Player) (p : Player) (q : Pos) : Bool :=
  match owner q with
  | none => true
  | some p' => opposed p p'

/-- The targets of a piece of seat `p` that is no engineer. They depend on the
owners of the squares only. -/
def walkTargets (owner : Pos → Option Player) (p : Player) (start : Pos) : List Pos :=
  (((POS2STRAIGHT start).visits (fun q => (owner q).isNone) start).map Prod.fst).filter (opens owner p) ++
    (POS2PLAIN start).filter (opens owner p) ++ (POS2CAMP start).filter (fun q => (owner q).isNone) ++
    (POS2FLAG start).filter (opens owner p)

theorem mem_walkTargets {sq : Squares} {owner : Pos → Option Player} (owned : ∀ q, (sq q).map Piece.player = owner q)
    {x : Piece} (walker : x.role ≠ 9) {start q : Pos} :
    q ∈ walkTargets owner x.player start ↔ CanMove sq x start q := by
  have free : ∀ r, (owner r).isNone = true ↔ sq r = none := by
    intro r
    rw [← owned]
    simp
  have lands : opens owner x.player q = true ↔ Lands sq (attacks (some x)) q := by
    unfold opens Lands
    rw [← owned]
    cases sq q with
    | none => simp
    | some y => simp [attacks]
  have seen : q ∈ ((POS2STRAIGHT start).visits (fun q => (owner q).isNone) start).map Prod.fst ↔ Sees sq start q := by
    simp only [List.mem_map, Prod.exists, exists_and_right, exists_eq_right, mem_visits, free, Sees]
    constructor
    · rintro ⟨_, ρ, path, open_, _⟩
      exact ⟨ρ, path, open_⟩
    · rintro ⟨ρ, path, open_⟩
      exact ⟨_, ρ, path, open_, rfl⟩
  unfold walkTargets CanMove RailTo
  rw [if_neg walker]
  simp only [List.mem_append, List.mem_filter, seen, lands, free, or_assoc]

/-- The row of the slot in `ACTION_MASK` shows the moves from its square, and is
empty for the slots of the last row, where mines can hide. -/
def rowCheck (t : Slot) : Bool :=
  let targets := walkTargets homeSeat t.1 (squareAt t)
  !rowed t ||
    ((actionTargets (rowAt t)).all (fun q => targets.contains (unview (group t.1) q)) &&
      targets.all (fun q => (actionTargets (rowAt t)).contains (view (group t.1) q)) &&
      (decide (t.2.val < 20) || (actionTargets (rowAt t)).isEmpty))

def allSlots (check : Slot → Bool) : Bool :=
  (List.finRange 4).all fun p => (List.finRange 25).all fun i => check (p, i)

theorem of_allSlots {check : Slot → Bool} (h : allSlots check = true) (t : Slot) : check t = true := by
  have seat := List.all_eq_true.1 h t.1 (List.mem_finRange _)
  exact List.all_eq_true.1 seat t.2 (List.mem_finRange _)

theorem rowCheck_all : allSlots rowCheck = true := by decide +kernel

/-- The row of an index among the 23 rows of its seat. -/
def rank (i : Fin 25) : Nat := if i.val < 22 then i.val else if i.val = 22 then 21 else 22

theorem rowAt_all : allSlots (fun t => rowAt t == 23 * (t.1.val / 2) + rank t.2) = true := by decide +kernel

theorem rowAt_bound (t : Slot) : rowAt t < 46 ∧ (t.1.val < 2 ↔ rowAt t < 23) := by
  have number := beq_iff_eq.1 (of_allSlots rowAt_all t)
  have seat := t.1.isLt
  have small : rank t.2 < 23 := by
    unfold rank
    split
    · omega
    · split <;> omega
  rw [number]
  omega

/-- The slot of a row. -/
def slotOfRow (g : Fin 2) (a : Nat) : Slot :=
  (Fin.ofNat 4 (g.val + 2 * (a / 23)), Fin.ofNat 25 (if a % 23 < 21 then a % 23 else if a % 23 = 21 then 22 else 24))

theorem slotOfRow_all : ((List.finRange 2).all fun g => (List.range 46).all fun a =>
    rowed (slotOfRow g a) && group (slotOfRow g a).1 == g && rowAt (slotOfRow g a) == a) = true := by
  decide +kernel

theorem homeSeat_all : allSquares (fun q =>
    (homeSeat q).all fun p => (List.finRange 25).any fun i => squareAt (p, i) == q) = true := by decide +kernel

theorem homeSeat_squareAt_all : allSlots (fun t => homeSeat (squareAt t) == some t.1) = true := by decide +kernel

/-- In the starting position the owners are those of the home squares. -/
theorem owner_of_placed {sq : Squares} {layout : Player → List Role}
    (placed : ∀ q x, sq q = some x ↔ ∃ t, squareAt t = q ∧ pieceAt layout t = x) (q : Pos) :
    (sq q).map Piece.player = homeSeat q := by
  cases there : sq q with
  | none =>
    cases home : homeSeat q with
    | none => rfl
    | some p =>
      have check := List.all_eq_true.1 homeSeat_all q (List.mem_finRange q)
      rw [home, Option.all_some, List.any_eq_true] at check
      obtain ⟨i, _, same⟩ := check
      rw [(placed q _).2 ⟨(p, i), beq_iff_eq.1 same, rfl⟩] at there
      cases there
  | some x =>
    obtain ⟨t, rfl, rfl⟩ := (placed q x).1 there
    exact (beq_iff_eq.1 (of_allSlots homeSeat_squareAt_all t)).symm

/-- **The hand-written mask is right** for the piece of any slot that is neither a
mine nor an engineer. -/
theorem row_exact {sq : Squares} (owned : ∀ q, (sq q).map Piece.player = homeSeat q) {t : Slot}
    (row : rowed t = true) {x : Piece} (seat : x.player = t.1) (walker : x.role ≠ 9) (q : Pos) :
    ACTION_MASK (rowAt t * 129 + q.val) = true ↔ CanMove sq x (squareAt t) (unview (group x.player) q) := by
  have bound := (rowAt_bound t).1
  have check := of_allSlots rowCheck_all t
  simp only [rowCheck, row, Bool.not_true, Bool.false_or, Bool.and_eq_true, List.all_eq_true,
    List.contains_iff_mem] at check
  obtain ⟨⟨sound, complete⟩, _⟩ := check
  rw [actionMask_iff bound, ← mem_walkTargets owned walker, seat]
  constructor
  · exact sound q
  · intro mem
    have back := complete _ mem
    rwa [view_eq_iff.2 rfl] at back

theorem row_empty {t : Slot} (row : rowed t = true) (last : 20 ≤ t.2.val) (q : Pos) :
    ACTION_MASK (rowAt t * 129 + q.val) = false := by
  have bound := (rowAt_bound t).1
  have check := of_allSlots rowCheck_all t
  simp only [rowCheck, row, Bool.not_true, Bool.false_or, Bool.and_eq_true, Bool.or_eq_true, decide_eq_true_eq,
    List.isEmpty_iff] at check
  have empty := check.2.resolve_left (by omega)
  rw [Bool.eq_false_iff, ne_eq, actionMask_iff bound, empty]
  exact List.not_mem_nil

/-! ## The new board -/

/-- A board in its starting position. -/
structure Starts (layout : Player → List Role) (b : Board) : Prop where
  inv : b.Inv
  sameLayout : b.layout = layout
  placed : ∀ q x, b.pos2piece.lookup q = some x ↔ ∃ t, squareAt t = q ∧ pieceAt layout t = x
  rows : ∀ g a x, (b.action2piece g).lookup a = some x ↔
    ∃ t, rowed t = true ∧ group t.1 = g ∧ rowAt t = a ∧ pieceAt layout t = x
  flagPos : ∀ p, b.flagPos p = (if roleAt layout (p, 23) = 11 then 1 else 0) + p.val * 2
  dead : b.deadPlayers = []
  skips : ∀ p, b.stepCount p = 0

section New

variable {layout : Player → List Role}

/-- The board before the loops over the squares. -/
def blank (layout : Player → List Role) : Board :=
  let s := initLayout layout
  { layout
    pos2piece := s.pos2piece
    piece2pos := s.piece2pos
    action2piece := s.action2piece
    piece2action := s.piece2action
    actionMask := fun _ => ACTION_MASK
    influencedPieces := fun _ => []
    engineerPieces := fun _ => []
    deadPlayers := []
    stepCount := fun _ => 0
    piecesCount := fun _ => 20
    flagPos := fun _ => 0 }

variable (full : ∀ p, (layout p).length = 25)
include full

theorem blank_placed (q : Pos) (x : Piece) : (blank layout).pos2piece.lookup q = some x ↔
    ∃ t, squareAt t = q ∧ pieceAt layout t = x := by
  rw [show (blank layout).pos2piece.lookup q = some x ↔ _ from (initLayout_spec full).placed q x]
  exact exists_congr fun t => and_iff_right (slotIndex_lt t)

theorem blank_rows (g : Fin 2) (a : Nat) (x : Piece) : ((blank layout).action2piece g).lookup a = some x ↔
    ∃ t, rowed t = true ∧ group t.1 = g ∧ rowAt t = a ∧ pieceAt layout t = x := by
  rw [show ((blank layout).action2piece g).lookup a = some x ↔ _ from (initLayout_spec full).rows g a x]
  exact exists_congr fun t => and_iff_right (slotIndex_lt t)

theorem blank_row {t : Slot} (row : rowed t = true) :
    ((blank layout).piece2action (group t.1)).lookup (pieceAt layout t) = some (rowAt t) :=
  ((initLayout_spec full).numbered _ _ _).1 ((blank_rows full _ _ _).2 ⟨t, row, rfl, rfl, rfl⟩)

theorem blank_roster (E : Player → List Piece)
    (engineers : ∀ z ∈ (blank layout).piece2pos.keys, z.role = 9 → z ∈ E z.player) :
    Roster { blank layout with engineerPieces := E } := by
  have spec := initLayout_spec full
  refine ⟨spec.numbered, ?_, ?_, ?_⟩
  · intro g z a row
    obtain ⟨t, _, seat, number, rfl⟩ := (blank_rows full g a z).1 ((spec.numbered g a z).2 row)
    rw [← number]
    exact ⟨seat, rowAt_bound t⟩
  · intro g a bound
    have check := List.all_eq_true.1 (List.all_eq_true.1 slotOfRow_all g (List.mem_finRange g)) a
      (List.mem_range.2 bound)
    simp only [Bool.and_eq_true, beq_iff_eq] at check
    obtain ⟨⟨row, seat⟩, number⟩ := check
    exact ⟨_, (blank_rows full g a _).2 ⟨slotOfRow g a, row, seat, number, rfl⟩⟩
  · intro z a row role
    obtain ⟨t, _, _, _, rfl⟩ := (blank_rows full _ a z).1 ((spec.numbered _ a z).2 row)
    refine engineers _ (Dict.mem_keys_iff.2 ⟨squareAt t, ?_⟩) role
    exact (spec.linked _ _).1 ((blank_placed full _ _).2 ⟨t, rfl, rfl⟩)

/-- Marking the rows of a role leaves the rows of other roles alone. -/
theorem marks_other {mask M : Fin 2 → ActionMask} {role : Role} {offsets : List Nat} {value : Bool} {g : Fin 2}
    {positions : List Pos} (marks : Marks { blank layout with actionMask := mask } role offsets value g positions M)
    {t : Slot} (row : rowed t = true) (other : roleAt layout t ≠ role) (q : Pos) :
    M (group t.1) (rowAt t * 129 + q.val) = mask (group t.1) (rowAt t * 129 + q.val) := by
  rcases marks.keep (group t.1) (rowAt t * 129 + q.val) with same | ⟨same, _, x, match_, number⟩
  · exact same
  · rw [row_index] at number
    change ((blank layout).piece2action g).lookup x = some (rowAt t) at number
    rw [← same] at number
    have equal := ((initLayout_spec full).numbered (group t.1)).symm.inj number (blank_row full row)
    rw [equal] at match_
    exact absurd match_ other

omit full in
theorem marks_false {mask M : Fin 2 → ActionMask} {role : Role} {offsets : List Nat} {g : Fin 2}
    {positions : List Pos} (marks : Marks { blank layout with actionMask := mask } role offsets false g positions M)
    {g' : Fin 2} {i : Nat} (off : mask g' i = false) : M g' i = false := by
  rcases marks.keep g' i with same | ⟨_, same, _⟩
  · exact same.trans off
  · exact same

theorem blank_held {g : Fin 2} {positions : List Pos}
    (slots : ∀ pos ∈ positions, ∃ t : Slot, rowed t = true ∧ group t.1 = g ∧ squareAt t = pos)
    (mask : Fin 2 → ActionMask) (role : Role) : ∀ pos ∈ positions,
    ∃ x, ({ blank layout with actionMask := mask } : Board).pos2piece.lookup pos = some x ∧
      (x.role = role → ∃ a, (({ blank layout with actionMask := mask } : Board).piece2action g).lookup x = some a) := by
  intro pos mem
  obtain ⟨t, row, seat, square⟩ := slots pos mem
  refine ⟨pieceAt layout t, (blank_placed full pos _).2 ⟨t, square, rfl⟩, fun _ => ⟨rowAt t, ?_⟩⟩
  rw [← seat]
  exact blank_row full row

/-- The first five slots of the last two rows. -/
def mineSquares (g : Fin 2) : List Pos :=
  if g = 0 then [20, 21, 22, 23, 24, 80, 81, 82, 83, 84] else [50, 51, 52, 53, 54, 110, 111, 112, 113, 114]

omit full in
theorem squareAt_mine : ∀ t : Slot, 15 ≤ t.2.val → t.2.val < 20 → squareAt t ∈ mineSquares (group t.1) := by
  decide

theorem blank_masks (mines : ∀ t, roleAt layout t = 0 → 15 ≤ t.2.val) :
    ∃ M, (blank layout).initActionMask = .ok { blank layout with actionMask := M } ∧
      (∀ t, rowed t = true → roleAt layout t = 0 → ∀ q : Pos, M (group t.1) (rowAt t * 129 + q.val) = false) ∧
      ∀ t, rowed t = true → roleAt layout t ≠ 0 → roleAt layout t ≠ 9 → ∀ q : Pos,
        M (group t.1) (rowAt t * 129 + q.val) = ACTION_MASK (rowAt t * 129 + q.val) := by
  have small : ∀ o ∈ (List.range 9).map (120 + ·), o < 129 := by decide
  have small' : ∀ o ∈ List.range 129, o < 129 := fun o mem => List.mem_range.1 mem
  obtain ⟨M₁, run₁, marks₁⟩ := markRows_spec (b := { blank layout with actionMask := fun _ => ACTION_MASK })
    9 ((List.range 9).map (120 + ·)) true 0 [0, 2, 4, 60, 62, 64] small (blank_held full (by decide +kernel) _ 9)
  obtain ⟨M₂, run₂, marks₂⟩ := markRows_spec (b := { blank layout with actionMask := M₁ })
    9 ((List.range 9).map (120 + ·)) true 1 [30, 32, 34, 90, 92, 94] small (blank_held full (by decide +kernel) _ 9)
  obtain ⟨M₃, run₃, marks₃⟩ := markRows_spec (b := { blank layout with actionMask := M₂ })
    0 (List.range 129) false 0 (mineSquares 0) small' (blank_held full (by decide +kernel) _ 0)
  obtain ⟨M₄, run₄, marks₄⟩ := markRows_spec (b := { blank layout with actionMask := M₃ })
    0 (List.range 129) false 1 (mineSquares 1) small' (blank_held full (by decide +kernel) _ 0)
  -- the engineers' marks leave the other rows alone
  have engineers : ∀ t, rowed t = true → roleAt layout t ≠ 9 → ∀ q : Pos,
      M₂ (group t.1) (rowAt t * 129 + q.val) = ACTION_MASK (rowAt t * 129 + q.val) := by
    intro t row other q
    rw [marks_other full marks₂ row other, marks_other full marks₁ row other]
  refine ⟨M₄, ?_, ?_, ?_⟩
  · unfold initActionMask
    show markRows _ _ _ _ _ { blank layout with actionMask := fun _ => ACTION_MASK } >>= _ = _
    rw [run₁, Py.ok_bind, run₂, Py.ok_bind]
    exact (congrArg (· >>= _) run₃).trans run₄
  · intro t row mine q
    have deep := mines t mine
    by_cases early : t.2.val < 20
    · have square := squareAt_mine t deep early
      have held : (blank layout).pos2piece.lookup (squareAt t) = some (pieceAt layout t) :=
        (blank_placed full _ _).2 ⟨t, rfl, rfl⟩
      have number := blank_row full row
      by_cases first : group t.1 = 0
      · rw [first] at square number ⊢
        refine marks_false marks₄ ?_
        exact marks₃.set _ square _ _ held mine number _ (List.mem_range.2 q.isLt)
      · have second : group t.1 = 1 := by
          generalize group t.1 = g at first
          revert g
          decide
        rw [second] at square number ⊢
        exact marks₄.set _ square _ _ held mine number _ (List.mem_range.2 q.isLt)
    · refine marks_false marks₄ (marks_false marks₃ ?_)
      rw [engineers t row (by rw [mine]; decide)]
      exact row_empty row (by omega) q
  · intro t row armed walker q
    rw [marks_other full marks₄ row armed, marks_other full marks₃ row armed]
    exact engineers t row walker q

end New

section Position

variable {layout : Player → List Role} (proper : ∀ p, Proper (layout p))
include proper

theorem roleAt_flag {t : Slot} (flag : roleAt layout t = 11) : t.2 = 21 ∨ t.2 = 23 := by
  have held := layout_getElem? (fun p => (proper p).length) t
  rw [flag] at held
  rcases (proper t.1).headquarters.2 t.2.val held with index | index
  · exact Or.inl (Fin.ext index)
  · exact Or.inr (Fin.ext index)

omit proper in
theorem squareAt_headquarters : ∀ t : Slot, squareAt t ∈ headquarters ↔ t.2 = 21 ∨ t.2 = 23 := by decide +kernel

/-- The tally of the starting position, from the squares. -/
theorem initial_tally {sq : Squares}
    (placed : ∀ q x, sq q = some x ↔ ∃ t, squareAt t = q ∧ pieceAt layout t = x) (p : Player) :
    worth tallied sq p = 20 + (if roleAt layout (p, 21) = 0 then 1 else 0) +
      if roleAt layout (p, 23) = 0 then 1 else 0 := by
  have slots : ∀ t : Slot, (if (pieceAt layout t).player = p ∧ squareAt t ∉ headquarters then
      tallied (pieceAt layout t).role else 0) = if t.1 = p then
        (tallied (roleAt layout t) - (if t.2 = 21 then tallied (roleAt layout t) else 0) -
          if t.2 = 23 then tallied (roleAt layout t) else 0) else 0 := by
    intro t
    simp only [pieceAt, squareAt_headquarters, not_or]
    by_cases own : t.1 = p <;> by_cases left : t.2 = 21 <;> by_cases right : t.2 = 23 <;>
      simp [own, left, right]
  rw [worth, Tally.total_of_image squareAt (pieceAt layout) squareAt_injective placed]
  rw [Finset.sum_congr rfl fun t _ => slots t, Fintype.sum_prod_type]
  have seat : ∀ p' : Player, (∑ i : Fin 25, if ((p', i) : Slot).1 = p then
      (tallied (roleAt layout (p', i)) - (if ((p', i) : Slot).2 = 21 then tallied (roleAt layout (p', i)) else 0) -
        if ((p', i) : Slot).2 = 23 then tallied (roleAt layout (p', i)) else 0) else 0) =
      if p' = p then ((layout p').map tallied).sum - tallied (roleAt layout (p', 21)) -
        tallied (roleAt layout (p', 23)) else 0 := by
    intro p'
    by_cases own : p' = p
    · have whole : layout p' = List.ofFn fun i : Fin 25 => roleAt layout (p', i) := by
        refine List.ext_getElem? fun i => ?_
        rw [List.getElem?_ofFn]
        split
        · rename_i inside
          exact layout_getElem? (fun p => (proper p).length) (p', ⟨i, inside⟩)
        · rw [List.getElem?_eq_none]
          rw [(proper p').length]
          omega
      have total : ((layout p').map tallied).sum = ∑ i : Fin 25, tallied (roleAt layout (p', i)) := by
        rw [whole, List.map_ofFn, List.sum_ofFn]
        rfl
      simp only [own, if_true, Finset.sum_sub_distrib, Finset.sum_ite_eq', Finset.mem_univ]
      rw [own] at total
      rw [total]
    · simp [own]
  rw [Finset.sum_congr rfl fun p' _ => seat p', Finset.sum_ite_eq', if_pos (Finset.mem_univ _)]
  exact (proper p).tally

/-- **`Board(layout)` does not fail on proper layouts**, and its board satisfies the
invariant. -/
theorem new_spec : ∃ b, Board.new layout = .ok b ∧ Starts layout b := by
  have full := fun p => (proper p).length
  have mines : ∀ t, roleAt layout t = 0 → 15 ≤ t.2.val := by
    intro t mine
    refine (proper t.1).mines t.2.val ?_
    rw [layout_getElem? full, mine]
  obtain ⟨M, run, empty, walkers⟩ := blank_masks full mines
  obtain ⟨E, run', engineers⟩ := initEngineerPieces_spec (b := { blank layout with actionMask := M })
  have held : ∀ t, (blank layout).pos2piece.lookup (squareAt t) = some (pieceAt layout t) :=
    fun t => (blank_placed full _ _).2 ⟨t, rfl, rfl⟩
  have run'' := initPiecesCount_spec (b := { blank layout with actionMask := M, engineerPieces := E }) held
  have flags : ∀ p, (if roleAt layout (p, 23) = 11 then 1 + p.val * 2
      else if roleAt layout (p, 21) = 11 then 0 + p.val * 2 else (blank layout).flagPos p) =
      (if roleAt layout (p, 23) = 11 then 1 else 0) + p.val * 2 := by
    intro p
    split
    · rfl
    · rename_i right
      rcases (proper p).headquarters.1 with flag | flag
      · rw [if_pos]
        exact Option.some.inj ((layout_getElem? full (p, 21)).symm.trans flag)
      · exact absurd (Option.some.inj ((layout_getElem? full (p, 23)).symm.trans flag)) right
  simp only [flags] at run''
  let start : Board := { blank layout with
    actionMask := M
    engineerPieces := E
    piecesCount := fun p => 20 + (if roleAt layout (p, 21) = 0 then 1 else 0) +
      if roleAt layout (p, 23) = 0 then 1 else 0
    flagPos := fun p => (if roleAt layout (p, 23) = 11 then 1 else 0) + p.val * 2 }
  have owned := owner_of_placed (blank_placed full)
  have slot : ∀ z a, ((blank layout).piece2action (group z.player)).lookup z = some a →
      ∃ t, rowed t = true ∧ rowAt t = a ∧ pieceAt layout t = z := by
    intro z a row
    obtain ⟨t, rowed, _, number, same⟩ := (blank_rows full _ a z).1 (((initLayout_spec full).numbered _ a z).2 row)
    exact ⟨t, rowed, number, same⟩
  have masked : start.Masked := by
    refine ⟨?_, ?_⟩
    · intro z a row mine q
      obtain ⟨t, rowed, rfl, rfl⟩ := slot z a row
      exact empty t rowed mine q
    · intro z a row _ armed walker _ q
      obtain ⟨t, rowed, rfl, rfl⟩ := slot z a row
      show M (group t.1) (rowAt t * 129 + q.val) = true ↔ _
      rw [walkers t rowed armed walker q, row_exact owned rowed rfl walker]
      have place := ((initLayout_spec full).linked _ _).1 (held t)
      constructor
      · exact fun can => ⟨_, place, can⟩
      · rintro ⟨pos, place', can⟩
        rw [show start.piece2pos.lookup (pieceAt layout t) = some (squareAt t) from place, Option.some.injEq] at place'
        rw [place']
        exact can
  have sound : start.game.Sound := by
    have tally := initial_tally proper (blank_placed full)
    refine ⟨?_, ?_, fun p _ => (tally p).symm, ?_, fun _ _ => Nat.succ_pos 4⟩
    · intro q y there flag
      obtain ⟨t, rfl, rfl⟩ := (blank_placed full _ _).1 there
      exact (squareAt_headquarters t).2 (roleAt_flag proper flag)
    · exact fun _ _ _ dead => absurd dead (Finset.notMem_empty _)
    · intro p _
      show (1 : Int) ≤ 20 + (if _ then 1 else 0) + if _ then 1 else 0
      split <;> split <;> decide
  have roster := blank_roster full E engineers
  refine ⟨start, ?_, ⟨(initLayout_spec full).linked,
    ⟨roster.linked, roster.bound, roster.full, roster.engineers⟩, masked, sound⟩,
    rfl, blank_placed full, blank_rows full, fun _ => rfl, rfl, fun _ => rfl⟩
  unfold Board.new
  show (blank layout).initActionMask >>= _ = _
  rw [run, Py.ok_bind]
  simp only [run']
  exact run''

end Position

end Board

end SlimeBoard
