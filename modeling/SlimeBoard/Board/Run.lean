import SlimeBoard.Board.Start

/-!
# Runs of a game

A run starts on a new board and interleaves `get_action_mask` and `update`. Every
action is set in a mask returned since the last action for the same living seat.
The invariant of `Board` holds in every state of a run, and every mask returned is
the mask of the current squares.
-/

namespace SlimeBoard

open Board

/-- A run with the actions played in it, the board it leads to and the masks
returned since the last action. -/
inductive Run (ord : RailOrder) (layout : Player → List Role) :
    List (Player × Nat) → Board → (Player → Option ActionMask) → Prop where
  | start {b : Board} : Board.new layout = .ok b → Run ord layout [] b fun _ => none
  | ask {plays : List (Player × Nat)} {b b' : Board} {offers : Player → Option ActionMask} {p : Player}
      {mask : ActionMask} :
      Run ord layout plays b offers → p ∉ b.deadPlayers → b.getActionMask ord p = .ok (some mask, b') →
      Run ord layout plays b' (Function.update offers p (some mask))
  | play {plays : List (Player × Nat)} {b b' : Board} {offers : Player → Option ActionMask} {p : Player}
      {mask : ActionMask} {a : Nat} {out : Outcome} :
      Run ord layout plays b offers → p ∉ b.deadPlayers → offers p = some mask → mask a = true →
      b.update ord p a = .ok (b', out) → Run ord layout (plays ++ [(p, a)]) b' fun _ => none

namespace Board

/-- The mask offers seat `p` the skip and the moves of its pieces, no others. -/
def Offers (b : Board) (p : Player) (mask : ActionMask) : Prop :=
  ∀ i, mask i = true ↔ i = 5934 ∨ (i < 5934 ∧ ∃ z pos,
    (b.action2piece (group p)).lookup (i / 129) = some z ∧ z.player = p ∧ z.role ≠ 0 ∧
    b.piece2pos.lookup z = some pos ∧
    CanMove (b.pos2piece.lookup ·) z pos (unview (group p) (Fin.ofNat 129 (i % 129))))

variable {b : Board} {p : Player} {mask : ActionMask} {a : Nat}

/-- An offered action other than the skip is a legal move. -/
theorem Offers.plays (offers : b.Offers p mask) (allowed : mask a = true) (move : a ≠ 5934) :
    ∃ x pos pos1, b.Plays p a x pos pos1 := by
  rcases (offers a).1 allowed with skip | ⟨_, x, pos, number, owner, armed, placed, can⟩
  · exact absurd skip move
  · refine ⟨x, pos, _, move, ?_, owner, placed, armed, can⟩
    unfold decode
    dsimp only
    rw [Dict.get_eq number]
    rfl

/-- **Asking succeeds** and returns the mask of the current squares. -/
theorem ask_spec (ord : RailOrder) (inv : b.Inv) (living : p ∉ b.deadPlayers) : ∃ M I mask,
    b.getActionMask ord p = .ok (some mask, { b with actionMask := M, influencedPieces := I }) ∧
      b.Offers p mask ∧ Inv { b with actionMask := M, influencedPieces := I } := by
  obtain ⟨M, I, mask, run, masked, offered⟩ := getActionMask_spec ord inv.roster inv.linked inv.masked living
  refine ⟨M, I, mask, run, offered, inv.linked, ?_, masked, inv.sound⟩
  exact ⟨inv.roster.linked, inv.roster.bound, inv.roster.full, inv.roster.engineers⟩

/-- What playing an action does to the position. -/
def Acts (b : Board) (p : Player) (a : Nat) (step : Game × Verdict) : Prop :=
  (a = 5934 ∧ step = b.game.pass p) ∨
    ∃ x pos pos1, b.Plays p a x pos pos1 ∧ step = b.game.move x pos pos1

/-- The masks do not matter for what an action does. -/
theorem Acts.unmasked {M : Fin 2 → ActionMask} {I : Player → List Piece} {step : Game × Verdict}
    (acts : Acts { b with actionMask := M, influencedPieces := I } p a step) : b.Acts p a step := by
  rcases acts with skip | ⟨x, pos, pos1, plays, same⟩
  · exact Or.inl skip
  · exact Or.inr ⟨x, pos, pos1, ⟨plays.move, plays.decode, plays.owner, plays.placed, plays.armed, plays.can⟩, same⟩

/-- **An offered action is played without an error and by the rules.** -/
theorem play_spec (ord : RailOrder) (inv : b.Inv) (offers : b.Offers p mask) (allowed : mask a = true) :
    ∃ b' path step, b.update ord p a = .ok (b', step.2.outcome path) ∧ Step b b' step.1 ∧ b.Acts p a step := by
  by_cases skip : a = 5934
  · subst skip
    obtain ⟨b', run, done⟩ := skip_spec ord inv p
    exact ⟨b', [], _, run, done, Or.inl ⟨rfl, rfl⟩⟩
  · obtain ⟨x, pos, pos1, plays⟩ := offers.plays allowed skip
    obtain ⟨b', path, run, _, done⟩ := update_spec ord inv plays
    exact ⟨b', path, _, run, done, Or.inr ⟨x, pos, pos1, plays, rfl⟩⟩

theorem Acts.sound {step : Game × Verdict} (acts : b.Acts p a step) (inv : b.Inv) (living : p ∉ b.deadPlayers) :
    step.1.Sound := by
  rcases acts with ⟨_, rfl⟩ | ⟨x, pos, pos1, plays, rfl⟩
  · exact Game.sound_pass inv.sound (by simpa [game] using living)
  · exact Game.sound_move inv.sound (plays.legal inv)

/-- Only skips are counted as skips. -/
theorem Acts.skips {step : Game × Verdict} (acts : b.Acts p a step) (p' : Player) :
    step.1.skips p' = b.stepCount p' + if p' = p ∧ a = 5934 then 1 else 0 := by
  rcases acts with ⟨rfl, rfl⟩ | ⟨x, pos, pos1, plays, rfl⟩
  · have counted : (b.game.pass p).1.skips = Function.update b.stepCount p (b.stepCount p + 1) := by
      unfold Game.pass
      dsimp only
      split <;> rfl
    rw [counted, Function.update_apply]
    by_cases own : p' = p <;> simp [own]
  · rw [if_neg fun h => plays.move h.2]
    rfl

/-- What an action announces: the dead are the ones it has killed, the flags are those
of the seats, and the result is a skip or one of four. -/
theorem Acts.announces {step : Game × Verdict} (acts : b.Acts p a step) :
    step.1.dead = b.game.dead ∪ step.2.deadPlayers.toFinset ∧ step.1.flagPos = b.flagPos ∧
      (∀ f ∈ step.2.flags, ∃ p', f = b.flagPos p') ∧
      (step.2.result = 4 ↔ a = 5934) ∧ (a ≠ 5934 → step.2.result < 4) := by
  rcases acts with ⟨rfl, rfl⟩ | ⟨x, pos, pos1, plays, rfl⟩
  · unfold Game.pass
    dsimp only
    split <;> simp [Game.bury, game]
  · have small : b.game.result x pos1 < 4 := by
      unfold Game.result
      split
      · decide
      · split
        · decide
        · split <;> decide
    refine ⟨rfl, rfl, ?_, ⟨fun h => ?_, fun h => absurd h plays.move⟩, fun _ => small⟩
    · intro f mem
      obtain ⟨p', _, rfl⟩ := List.mem_map.1 mem
      exact ⟨p', rfl⟩
    · change b.game.result x pos1 = 4 at h
      omega

end Board

/-- What holds in every state of a run. -/
structure Reached (plays : List (Player × Nat)) (b : Board) (offers : Player → Option ActionMask) : Prop where
  inv : b.Inv
  offers : ∀ p mask, offers p = some mask → b.Offers p mask
  skips : ∀ p, b.stepCount p = plays.count (p, 5934)
  fresh : plays = [] → b.deadPlayers = []

variable {ord : RailOrder} {layout : Player → List Role} {plays : List (Player × Nat)} {b : Board}
  {offers : Player → Option ActionMask} {p : Player} {mask : ActionMask} {a : Nat}

namespace Reached

/-- Asking succeeds and returns the mask of the current squares. -/
theorem ask (ord : RailOrder) (h : Reached plays b offers) (living : p ∉ b.deadPlayers) : ∃ M I mask,
    b.getActionMask ord p = .ok (some mask, { b with actionMask := M, influencedPieces := I }) ∧ b.Offers p mask ∧
      Reached plays { b with actionMask := M, influencedPieces := I } (Function.update offers p (some mask)) := by
  obtain ⟨M, I, mask, run, offered, inv⟩ := ask_spec ord h.inv living
  refine ⟨M, I, mask, run, offered, inv, ?_, h.skips, h.fresh⟩
  intro p' mask' found
  rw [Function.update_apply] at found
  split at found
  · rename_i same
    rw [← Option.some.inj found, same]
    exact offered
  · exact h.offers p' mask' found

/-- Playing an offered action succeeds and forgets the offers. -/
theorem play (ord : RailOrder) (h : Reached plays b offers) (living : p ∉ b.deadPlayers) (offer : offers p = some mask)
    (allowed : mask a = true) : ∃ b' path step, b.update ord p a = .ok (b', step.2.outcome path) ∧
      Step b b' step.1 ∧ b.Acts p a step ∧ Reached (plays ++ [(p, a)]) b' fun _ => none := by
  obtain ⟨b', path, step, run, done, acts⟩ := play_spec ord h.inv (h.offers p mask offer) allowed
  refine ⟨b', path, step, run, done, acts, done.inv h.inv (acts.sound h.inv living), ?_, ?_, by simp⟩
  · intro p' mask' found
    cases found
  · intro p'
    have counted : b'.stepCount p' = step.1.skips p' := congrFun (congrArg Game.skips done.game) p'
    have last : (((p, a) == (p', 5934)) = true) = (p' = p ∧ a = 5934) := by
      rw [beq_iff_eq, Prod.mk.injEq, eq_comm (a := p)]
    rw [counted, acts.skips, h.skips, List.count_append, List.count_singleton]
    simp only [last]

end Reached

/-- **The invariant holds along every run.** -/
theorem Run.reached (generates : ∀ p, Generates (layout p)) (run : Run ord layout plays b offers) :
    Reached plays b offers := by
  induction run with
  | start new =>
    obtain ⟨b, new', starts⟩ := new_spec fun p => (generates p).proper
    obtain rfl := Except.ok.inj (new'.symm.trans new)
    refine ⟨starts.inv, ?_, fun p => starts.skips p, fun _ => starts.dead⟩
    intro p mask found
    cases found
  | ask _ living asked ih =>
    obtain ⟨M, I, mask, run, _, reached⟩ := ih.ask ord living
    rw [run, Except.ok.injEq, Prod.mk.injEq, Option.some.injEq] at asked
    rw [← asked.1, ← asked.2]
    exact reached
  | play _ living offer allowed played ih =>
    obtain ⟨b', path, step, run, _, _, reached⟩ := ih.play ord living offer allowed
    rw [run, Except.ok.injEq, Prod.mk.injEq] at played
    rw [← played.1]
    exact reached

end SlimeBoard
