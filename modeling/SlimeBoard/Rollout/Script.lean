import SlimeBoard.Rollout.Contexts

/-!
# Scripted games

A game of an engine with a script is computed at the rules: positions are kept as tables, so that the
moves of a script can be evaluated one after the other. The game the loop plays follows them.
-/

namespace SlimeBoard

open Board Junqi

section Tables

variable {α : Type} {n : Nat}

/-- A function with its values in a list. -/
def tabled (f : Fin n → α) : Fin n → α :=
  let values := (List.finRange n).map f
  fun i => values.getD i.val (f i)

theorem tabled_eq (f : Fin n → α) : tabled f = f := by
  funext i
  unfold tabled
  rw [List.getD_eq_getElem?_getD, List.getElem?_map, List.getElem?_eq_getElem (by rw [List.length_finRange]; exact i.isLt),
    List.getElem_finRange]
  rfl

/-- A position with its functions as tables. -/
def Game.tabled (g : Game) : Game :=
  { g with square := SlimeBoard.tabled g.square, count := SlimeBoard.tabled g.count, skips := SlimeBoard.tabled g.skips }

theorem Game.tabled_eq (g : Game) : g.tabled = g := by
  unfold Game.tabled
  rw [SlimeBoard.tabled_eq, SlimeBoard.tabled_eq, SlimeBoard.tabled_eq]

end Tables

/-- A move of a script: the slot in which the piece has started, its square and its way. -/
structure Ply where
  slot : Fin 25
  pos : Pos
  path : List Pos

/-- A turn of a script: of a dead seat, a skip or a move. -/
inductive Order where
  | dead
  | skip
  | ply (m : Ply)

namespace Ply

/-- Where the move ends. -/
def target (m : Ply) : Pos := m.path.getLastD m.pos

/-- A move along a railway line, or to a neighbour. -/
def reaches (m : Ply) (sq : Squares) (x : Piece) : Bool :=
  let lands := (sq m.target).elim true fun y => attacks (some x) y
  (decide (m.path ≠ []) && decide (x.role ≠ 9) && m.path.dropLast.all (fun q => (sq q).isNone) && lands &&
    railLines.any fun l => decide (m.pos :: m.path <:+: l) || decide (m.pos :: m.path <:+: l.reverse)) ||
  (decide (m.target ∈ POS2PLAIN m.pos) && lands) ||
  (decide (m.target ∈ POS2CAMP m.pos) && (sq m.target).isNone) ||
  (decide (m.target ∈ POS2FLAG m.pos) && lands)

end Ply

namespace Order

section Seat

variable (layout : Player → List Role) (p : Player)

/-- The action of a turn. -/
def action : Order → Nat
  | .ply m => rowAt (p, m.slot) * 129 + (view (group p) m.target).val
  | _ => 5934

/-- The seat may take this turn. -/
def fits (g : Game) (dead : List Player) : Order → Bool
  | .dead => decide (p ∈ dead)
  | .skip => decide (p ∉ dead)
  | .ply m =>
    let x := pieceAt layout (p, m.slot)
    decide (p ∉ dead) && rowed (p, m.slot) && decide (x.role ≠ 0) && decide (g.square m.pos = some x) && m.reaches g.square x

/-- The position after the turn, and who dies. -/
def step (g : Game) : Order → Game × List Player
  | .dead => (g, [])
  | .skip => ((g.pass p).1.tabled, (g.pass p).2.deadPlayers)
  | .ply m =>
    let x := pieceAt layout (p, m.slot)
    ((g.move x m.pos m.target).1.tabled, (g.move x m.pos m.target).2.deadPlayers)

end Seat

end Order

/-- The dead after the turns of a script, if all of them fit and none ends the game. -/
def playOut (layout : Player → List Role) : Nat → Game → List Player → List Order → Option (List Player)
  | _, _, dead, [] => some dead
  | i, g, dead, o :: os =>
    let next := o.step layout (Fin.ofNat 4 i) g
    if o.fits layout (Fin.ofNat 4 i) g dead = true ∧ ¬(next.2 ≠ [] ∧ ended (next.2 ∪ dead) = true) then
      playOut layout (i + 1) next.1 (next.2 ∪ dead) os
    else none

def slots : List Slot := (List.finRange 4).flatMap fun p => (List.finRange 25).map fun i => (p, i)

/-- The starting position. -/
def startGame (layout : Player → List Role) : Game where
  square := tabled fun q => (slots.find? fun t => squareAt t = q).map (pieceAt layout)
  count p := 20 + (if roleAt layout (p, 21) = 0 then 1 else 0) + if roleAt layout (p, 23) = 0 then 1 else 0
  skips _ := 0
  flagPos p := (if roleAt layout (p, 23) = 11 then 1 else 0) + p.val * 2
  dead := ∅

theorem mem_slots (t : Slot) : t ∈ slots :=
  List.mem_flatMap.2 ⟨t.1, List.mem_finRange _, List.mem_map.2 ⟨t.2, List.mem_finRange _, rfl⟩⟩

theorem Board.Starts.game_eq {layout : Player → List Role} (proper : ∀ p, Proper (layout p)) {b : Board} (starts : Starts layout b) :
    b.game = startGame layout := by
  have square : b.game.square = (startGame layout).square := by
    unfold startGame
    dsimp only
    rw [tabled_eq]
    funext q
    cases found : slots.find? fun t => squareAt t = q with
    | none =>
      refine Option.eq_none_iff_forall_ne_some.2 fun x held => ?_
      obtain ⟨t, here, -⟩ := (starts.placed q x).1 held
      exact List.find?_eq_none.1 found t (mem_slots t) (decide_eq_true here)
    | some t =>
      have here : squareAt t = q := by simpa using List.find?_some found
      exact (starts.placed q _).2 ⟨t, here, rfl⟩
  have alive (p : Player) : p ∉ b.game.dead := by simp [game, starts.dead]
  have count : b.game.count = (startGame layout).count := by
    funext p
    exact (starts.inv.sound.tally p (alive p)).trans (initial_tally proper starts.placed p)
  have skips : b.game.skips = (startGame layout).skips := funext starts.skips
  have flagPos : b.game.flagPos = (startGame layout).flagPos := funext starts.flagPos
  have dead : b.game.dead = (startGame layout).dead := by simp [game, startGame, starts.dead]
  calc b.game = ⟨b.game.square, b.game.count, b.game.skips, b.game.flagPos, b.game.dead⟩ := rfl
    _ = startGame layout := by rw [square, count, skips, flagPos, dead]

/-- A move that reaches its target is allowed by the rules. -/
theorem Ply.canMove {m : Ply} {sq : Squares} {x : Piece} (reaches : m.reaches sq x = true) :
    CanMove sq x m.pos m.target := by
  have lands (h : ((sq m.target).elim true fun y => attacks (some x) y) = true) :
      Lands sq (attacks (some x)) m.target := by
    intro y held
    rwa [held] at h
  unfold Ply.reaches at reaches
  simp only [Bool.or_eq_true, Bool.and_eq_true, decide_eq_true_eq, List.all_eq_true, List.any_eq_true,
    Option.isNone_iff_eq_none] at reaches
  obtain ((⟨⟨⟨⟨nonempty, walker⟩, free⟩, landing⟩, l, mem, part⟩ | ⟨near, landing⟩) | ⟨camp, free⟩) | ⟨home, landing⟩ := reaches
  · refine .inl ⟨?_, lands landing⟩
    unfold RailTo
    rw [if_neg walker]
    have whole : m.path.dropLast ++ [m.target] = m.path := by
      unfold Ply.target
      rw [List.getLastD_eq_getLast?, List.getLast?_eq_some_getLast nonempty, Option.getD_some]
      exact List.dropLast_append_getLast nonempty
    refine ⟨m.path.dropLast, ?_, free⟩
    rw [whole]
    exact mem_straight.2 ⟨nonempty, l, mem, part⟩
  · exact .inr (.inl ⟨near, lands landing⟩)
  · exact .inr (.inr (.inl ⟨camp, free⟩))
  · exact .inr (.inr (.inr ⟨home, lands landing⟩))

/-- The engine of a script. -/
def Engine.orders (os : List Order) : Engine :=
  .scripted fun i => (os[i]?).elim 5934 (Order.action (Fin.ofNat 4 i)) + 151665

section Follow

variable {layout : Player → List Role} {tokenizer : Option Tokenizer} {orders : List Order} {s s' : Junqi} {i : Nat} {e : Event}

/-- The rows of a board are those of the start. -/
def Rowed (layout : Player → List Role) (b : Board) : Prop := ∀ g a x, (b.action2piece g).lookup a = some x ↔
  ∃ t, rowed t = true ∧ group t.1 = g ∧ rowAt t = a ∧ pieceAt layout t = x

/-- A move of a script is offered and stands for itself. -/
theorem Order.plays {b : Board} (inv : b.Inv) (rows : Rowed layout b) {p : Player} {m : Ply} {dead : List Player}
    (fits : Order.fits layout p b.game dead (.ply m) = true) :
    b.Plays p (Order.action p (.ply m)) (pieceAt layout (p, m.slot)) m.pos m.target := by
  unfold Order.fits at fits
  simp only [Bool.and_eq_true, decide_eq_true_eq] at fits
  obtain ⟨⟨⟨⟨-, row⟩, armed⟩, held⟩, reaches⟩ := fits
  have bound := (rowAt_bound (p, m.slot)).1
  have small := (view (group p) m.target).isLt
  have number : (Order.action p (.ply m)) / 129 = rowAt (p, m.slot) := row_index _
  have square : (Order.action p (.ply m)) % 129 = (view (group p) m.target).val := by
    show (rowAt (p, m.slot) * 129 + (view (group p) m.target).val) % 129 = _
    omega
  refine ⟨?_, ?_, rfl, (inv.linked _ _).1 held, armed, Ply.canMove reaches⟩
  · unfold Order.action
    dsimp only
    omega
  · unfold decode
    dsimp only
    rw [number, Dict.get_eq ((rows _ _ _).2 ⟨(p, m.slot), row, rfl, rfl, rfl⟩), Py.ok_bind, square, Fin.ofNat_val_eq_self]
    have back : unview (group p) (view (group p) m.target) = m.target := (view_eq_iff.1 rfl).symm
    unfold unview at back
    rw [back]
    rfl

theorem Board.Plays.offered {b : Board} {p : Player} {a : Nat} {x : Piece} {pos pos1 : Pos} {mask : ActionMask}
    (plays : b.Plays p a x pos pos1) (offers : b.Offers p mask) (small : a < 5934) : mask a = true := by
  refine (offers a).2 (.inr ⟨small, x, pos, ?_⟩)
  obtain ⟨z, number, same⟩ := Py.bind_eq_ok.1 plays.decode
  cases same
  exact ⟨Dict.get_ok_iff.1 number, plays.owner, plays.armed, plays.placed, plays.can⟩

/-- The action of a turn that fits is offered. -/
theorem Order.offered {b : Board} (inv : b.Inv) (rows : Rowed layout b) {p : Player} {dead : List Player} {o : Order}
    (fits : o.fits layout p b.game dead = true) {mask : ActionMask} (offers : b.Offers p mask) : mask (o.action p) = true := by
  cases o with
  | dead => exact (offers _).2 (.inl rfl)
  | skip => exact (offers _).2 (.inl rfl)
  | ply m =>
    refine (Order.plays inv rows fits).offered offers ?_
    have bound := (rowAt_bound (p, m.slot)).1
    have small := (view (group p) m.target).isLt
    show rowAt (p, m.slot) * 129 + (view (group p) m.target).val < 5934
    omega

theorem Order.action_lt (o : Order) (p : Player) : o.action p < 5935 := by
  cases o with
  | dead => exact Nat.lt_succ_self 5934
  | skip => exact Nat.lt_succ_self 5934
  | ply m =>
    have bound := (rowAt_bound (p, m.slot)).1
    have small := (view (group p) m.target).isLt
    show rowAt (p, m.slot) * 129 + (view (group p) m.target).val < 5935
    omega

/-- What an action of a script does is its turn at the rules. -/
theorem Board.Acts.step_eq {b : Board} (inv : b.Inv) (rows : Rowed layout b) {p : Player} {dead : List Player} {o : Order}
    (fits : o.fits layout p b.game dead = true) (living : p ∉ dead) {step : Game × Verdict} (acts : b.Acts p (o.action p) step) :
    o.step layout p b.game = (step.1, step.2.deadPlayers) := by
  cases o with
  | dead => exact absurd (of_decide_eq_true fits) living
  | skip =>
    rcases acts with ⟨-, rfl⟩ | ⟨x, pos, pos1, plays, -⟩
    · exact congrArg (Prod.mk · _) (Game.tabled_eq _)
    · exact absurd rfl plays.move
  | ply m =>
    have mine := Order.plays inv rows fits
    rcases acts with ⟨skip, -⟩ | ⟨x, pos, pos1, plays, rfl⟩
    · exact absurd skip mine.move
    · cases mine.decode.symm.trans plays.decode
      cases mine.placed.symm.trans plays.placed
      exact congrArg (Prod.mk · _) (Game.tabled_eq _)

/-- The engine of a script plays the action of the script. -/
theorem Junqi.Live.follows (live : Live ord tokenizer (.orders orders) s s' i e) (playing : s.Playing)
    (rows : Rowed layout s.board) {o : Order} (now : orders[i]? = some o)
    (fits : o.fits layout (Fin.ofNat 4 i) s.board.game s.deadPlayersSet = true) :
    let next := o.step layout (Fin.ofNat 4 i) s.board.game
    s'.board.game = next.1 ∧ s'.deadPlayersSet = next.2 ∪ s.deadPlayersSet ∧ Rowed layout s'.board ∧
      (s'.stopped = true ↔ next.2 ≠ [] ∧ ended (next.2 ∪ s.deadPlayersSet) = true) := by
  have living := live.living
  have player := live.player
  obtain ⟨mask, offers, request⟩ := live.asked
  obtain ⟨rest, output⟩ := live.replied
  obtain ⟨step, acts, done, -, dead, stops, -⟩ := live.played
  rw [player] at living offers acts
  have legal : o.action (Fin.ofNat 4 i) + 151665 ∈ e.request.logitsMask := by
    rw [request]
    exact mem_maskIds.2 ⟨_, o.action_lt _, o.offered playing.inv rows fits offers, rfl⟩
  have reply : [if (orders[i]?).elim 5934 (Order.action (Fin.ofNat 4 i)) + 151665 ∈ e.request.logitsMask then
      (orders[i]?).elim 5934 (Order.action (Fin.ofNat 4 i)) + 151665 else e.request.logitsMask.headD 0] = e.action :: rest := output
  rw [now, Option.elim_some, if_pos legal, List.cons.injEq] at reply
  rw [← reply.1, Nat.add_sub_cancel] at acts
  have next := acts.step_eq playing.inv rows fits living
  dsimp only
  rw [next]
  refine ⟨done.game, dead, ?_, dead ▸ stops⟩
  intro g a x
  rw [done.action2piece]
  exact rows g a x

/-- **A script that plays out is played.** -/
theorem run_follows {ord : RailOrder} {start : Junqi} {os : List Order} {es : List Event} {dead' : List Player}
    (rest : ∀ j, orders[i + j]? = os[j]?) (out : playOut layout i s.board.game s.deadPlayersSet os = some dead')
    (reached : run ord tokenizer (.orders orders) start i = .ok (s, es)) (playing : s.Playing) (going : s.stopped = false)
    (rows : Rowed layout s.board) : ∃ s' es', run ord tokenizer (.orders orders) start (i + os.length) = .ok (s', es') ∧
      s'.Playing ∧ s'.stopped = false ∧ s'.deadPlayersSet = dead' := by
  induction os generalizing i s es with
  | nil => exact ⟨s, es, reached, playing, going, Option.some.inj out⟩
  | cons o os ih =>
    rw [playOut] at out
    split at out
    · rename_i both
      obtain ⟨fits, on⟩ := both
      obtain ⟨s', es', done, turn, playing'⟩ := step_spec ord tokenizer (.orders orders) playing es i
      have now : orders[i]? = some o := rest 0
      have later (j : Nat) : orders[i + 1 + j]? = os[j]? := by
        rw [Nat.add_assoc, Nat.add_comm 1]
        exact rest (j + 1)
      have next : run ord tokenizer (.orders orders) start (i + 1) = .ok (s', es') := by rw [run_succ, reached, Py.ok_bind, done]
      have whole : i + (o :: os).length = i + 1 + os.length := by rw [List.length_cons]; omega
      rw [whole]
      cases turn with
      | finished stopped => exact absurd (going.symm.trans stopped) Bool.false_ne_true
      | dead _ gone =>
        have skipped : o.step layout (Fin.ofNat 4 i) s.board.game = (s.board.game, []) := by
          cases o with
          | dead => rfl
          | skip => exact absurd gone (of_decide_eq_true fits)
          | ply m =>
            unfold Order.fits at fits
            simp only [Bool.and_eq_true, decide_eq_true_eq] at fits
            exact absurd gone fits.1.1.1.1
        rw [skipped] at out
        let s' := s.record (Fin.ofNat 2 i) [157599] [0] [0]
        have same : playOut layout (i + 1) s'.board.game s'.deadPlayersSet os = some dead' := out
        exact ih later same next playing' going rows
      | live _ live =>
        obtain ⟨game, dead, rows', stops⟩ := live.follows playing rows now fits
        refine ih later ?_ next playing' (eq_false_of_ne_true fun stopped => on (stops.1 stopped)) rows'
        rw [game, dead]
        exact out
    · cases out

end Follow

end SlimeBoard
