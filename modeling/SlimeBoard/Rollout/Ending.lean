import SlimeBoard.Rollout.Script

/-!
# The end of a game

The loop of `generate_junqi` tests for the end by the size of the set of dead seats: three dead, or
two of one team. An action can kill two seats, so the set can also grow from two to four.
-/

namespace SlimeBoard

open Board Junqi

/-- Both seats of a team are dead. -/
def TeamDead (dead : List Player) : Prop := ∃ p ∈ dead, ∃ q ∈ dead, p ≠ q ∧ group p = group q

instance decidableTeamDead (dead : List Player) : Decidable (TeamDead dead) :=
  inferInstanceAs (Decidable (∃ p ∈ dead, ∃ q ∈ dead, p ≠ q ∧ group p = group q))

theorem TeamDead.mono {dead dead' : List Player} (sub : ∀ p ∈ dead, p ∈ dead') (team : TeamDead dead) : TeamDead dead' := by
  obtain ⟨p, here, q, there, both⟩ := team
  exact ⟨p, sub p here, q, sub q there, both⟩

theorem teamDead_congr {dead dead' : List Player} (same : ∀ p, p ∈ dead ↔ p ∈ dead') : TeamDead dead ↔ TeamDead dead' :=
  ⟨.mono fun p => (same p).1, .mono fun p => (same p).2⟩

/-! ## The test -/

section Ended

variable {dead : List Player} {p q : Player}

/-- As long as no team is dead, at most two seats are. -/
theorem length_le_two (nodup : dead.Nodup) (going : ¬TeamDead dead) : dead.length ≤ 2 := by
  have apart : (dead.map group).Nodup := by
    refine nodup.map_on fun p here q there same => ?_
    by_contra differ
    exact going ⟨p, here, q, there, differ, same⟩
  simpa using apart.length_le_card

/-- A single death is tested right. -/
theorem ended_insert (nodup : dead.Nodup) (going : ¬TeamDead dead) (living : p ∉ dead) :
    ended ([p] ∪ dead) = true ↔ TeamDead ([p] ∪ dead) := by
  have short := length_le_two nodup going
  match dead, short with
  | [], _ =>
    clear nodup going living
    revert p
    decide
  | [c], _ =>
    clear nodup going
    revert p c
    decide
  | [c, d], _ =>
    revert p c d
    decide

/-- Two deaths at once are tested right, unless a seat of each team was dead before. -/
theorem ended_insert_two (nodup : dead.Nodup) (going : ¬TeamDead dead) (living : p ∉ dead) (living' : q ∉ dead)
    (foes : group p ≠ group q) (spared : ¬∃ c ∈ dead, ∃ d ∈ dead, group c ≠ group d) :
    ended ([p, q] ∪ dead) = true ↔ TeamDead ([p, q] ∪ dead) := by
  have short := length_le_two nodup going
  match dead, short with
  | [], _ =>
    clear nodup going living living' spared
    revert p q
    decide
  | [c], _ =>
    clear nodup going spared
    revert p q c
    decide
  | [c, d], _ =>
    refine absurd ⟨c, by simp, d, by simp, fun same => going ⟨c, by simp, d, by simp, ?_, same⟩⟩ spared
    exact List.ne_of_not_mem_cons (List.nodup_cons.1 nodup).1

theorem length_of_ended (done : ended dead = true) : dead.length = 3 ∨ dead.length = 2 := by
  unfold ended at done
  split at done
  · rename_i three
    exact .inl three
  · split at done
    · exact .inr rfl
    · cases done

end Ended

/-! ## The action that ends it for all -/

/-- The seat of the defender dies, with its flag or with its last counted piece. -/
def Board.SeatFalls (b : Board) (x y : Piece) (pos1 : Pos) : Prop :=
  y.role = 11 ∨ b.piecesCount y.player = 1 ∧ y.role ≠ 0 ∧ (b.game.meet x pos1).falls = true ∧ pos1 ∉ headquarters

/-- A seat of each team is dead, and the action kills the other two: the mover spends its last counted
piece on the flag or on the last counted piece of the other. -/
def Board.KillsLastTwo (b : Board) (p : Player) (a : Nat) : Prop :=
  (∃ c ∈ b.deadPlayers, ∃ d ∈ b.deadPlayers, group c ≠ group d) ∧
  ∃ x pos pos1 y, b.Plays p a x pos pos1 ∧ b.pos2piece.lookup pos1 = some y ∧
    b.piecesCount p = 1 ∧ b.game.spent x pos1 = true ∧
    b.SeatFalls x y pos1

section Kills

variable {b : Board} {p : Player} {a : Nat}

/-- The mover's seat dies when it spends its last counted piece. -/
theorem own_dies_iff (inv : b.Inv) {x : Piece} {pos pos1 : Pos} (legal : b.game.Move x pos pos1) :
    b.game.countAfter x pos1 x.player = 0 ↔ b.piecesCount x.player = 1 ∧ b.game.spent x pos1 = true := by
  have count := inv.sound.count_pos legal.holds
  have same : b.game.count x.player = b.piecesCount x.player := rfl
  rw [Game.countAfter_attacker inv.sound legal, same]
  rw [same] at count
  by_cases lost : b.game.spent x pos1 = true
  · rw [if_pos lost, and_iff_left lost]
    omega
  · rw [if_neg lost]
    exact ⟨fun zero => absurd zero (by omega), fun both => absurd both.2 lost⟩

/-- The other seat dies with its flag or with its last counted piece. -/
theorem foe_dies_iff (inv : b.Inv) {x y : Piece} {pos pos1 : Pos} (legal : b.game.Move x pos pos1)
    (held : b.game.square pos1 = some y) : y.role = 11 ∨ b.game.countAfter x pos1 y.player = 0 ↔
      b.SeatFalls x y pos1 := by
  have count := inv.sound.count_pos held
  have same : b.game.count y.player = b.piecesCount y.player := rfl
  rw [Game.countAfter_defender legal held, same]
  rw [same] at count
  unfold Board.SeatFalls
  by_cases fell : (b.game.meet x pos1).falls = true ∧ pos1 ∉ headquarters
  · rw [if_pos fell, and_iff_left fell]
    unfold SlimeBoard.tallied
    by_cases flag : y.role = 11
    · exact iff_of_true (.inl flag) (.inl flag)
    · by_cases mine : y.role = 0
      · rw [if_pos (.inl mine)]
        exact ⟨fun dies => absurd (dies.resolve_left flag) (by omega), fun dies => absurd mine (dies.resolve_left flag).2⟩
      · rw [if_neg (not_or.2 ⟨mine, flag⟩), and_iff_left mine]
        exact or_congr_right (by omega)
  · rw [if_neg fell]
    exact or_congr_right ⟨fun zero => absurd zero (by omega), fun dies => absurd dies.2.2 fell⟩

/-- What dies by an action: nobody, the seat, its opponent or both. -/
theorem Board.Acts.dying_cases {step : Game × Verdict} (acts : b.Acts p a step) (inv : b.Inv) :
    step.2.deadPlayers = [] ∨ step.2.deadPlayers = [p] ∨
      ∃ q, q ∉ b.deadPlayers ∧ group p ≠ group q ∧ (step.2.deadPlayers = [q] ∨ step.2.deadPlayers = [p, q] ∧
        ∃ x pos pos1 y, b.Plays p a x pos pos1 ∧ b.pos2piece.lookup pos1 = some y ∧
          b.piecesCount p = 1 ∧ b.game.spent x pos1 = true ∧
          b.SeatFalls x y pos1) := by
  rcases acts with ⟨_, rfl⟩ | ⟨x, pos, pos1, plays, rfl⟩
  · unfold Game.pass
    dsimp only
    split
    · exact .inr (.inl rfl)
    · exact .inl rfl
  · have legal := plays.legal inv
    have owner := plays.owner
    have dying : (b.game.move x pos pos1).2.deadPlayers = b.game.ownDeath x pos1 ++ b.game.foeDeath x pos1 := rfl
    rw [dying]
    have own : b.game.ownDeath x pos1 = [] ∨
        b.game.ownDeath x pos1 = [p] ∧ b.piecesCount p = 1 ∧ b.game.spent x pos1 = true := by
      rw [← owner]
      unfold Game.ownDeath
      split
      · rename_i zero
        exact .inr ⟨rfl, (own_dies_iff inv legal).1 zero⟩
      · exact .inl rfl
    cases held : b.game.square pos1 with
    | none =>
      have foe : b.game.foeDeath x pos1 = [] := by
        unfold Game.foeDeath
        rw [held]
        rfl
      rw [foe, List.append_nil]
      exact own.imp id fun dies => .inl dies.1
    | some y =>
      have foes : group p ≠ group y.player := by
        have opposed := legal.foe y held
        rw [owner, Game.opposed_iff] at opposed
        rw [opposed]
        exact (by decide : ∀ g : Fin 2, g ≠ 1 - g) _
      have alive : y.player ∉ b.deadPlayers := fun dead =>
        inv.sound.dead_gone pos1 y held (List.mem_toFinset.2 dead)
      have foe : b.game.foeDeath x pos1 = [] ∨ b.game.foeDeath x pos1 = [y.player] ∧
          b.SeatFalls x y pos1 := by
        unfold Game.foeDeath
        rw [held, Option.elim_some]
        split
        · rename_i dies
          exact .inr ⟨rfl, (foe_dies_iff inv legal held).1 dies⟩
        · exact .inl rfl
      rcases own with safe | ⟨dies, last, lost⟩
      · rw [safe, List.nil_append]
        rcases foe with safe | ⟨dies, -⟩
        · exact .inl safe
        · exact .inr (.inr ⟨y.player, alive, foes, .inl dies⟩)
      · rw [dies]
        rcases foe with safe | ⟨dies, how⟩
        · rw [safe]
          exact .inr (.inl rfl)
        · rw [dies]
          exact .inr (.inr ⟨y.player, alive, foes, .inr ⟨rfl, x, pos, pos1, y, plays, held, last, lost, how⟩⟩)

/-- An action that kills the last two seats announces both. -/
theorem Board.Acts.kills_both {step : Game × Verdict} (acts : b.Acts p a step) (inv : b.Inv) {x y : Piece} {pos pos1 : Pos}
    (plays : b.Plays p a x pos pos1) (held : b.pos2piece.lookup pos1 = some y) (last : b.piecesCount p = 1)
    (lost : b.game.spent x pos1 = true)
    (how : b.SeatFalls x y pos1) :
    step.2.deadPlayers = [p, y.player] := by
  rcases acts with ⟨skip, -⟩ | ⟨x', pos', pos1', plays', rfl⟩
  · exact absurd skip plays.move
  · cases plays.decode.symm.trans plays'.decode
    cases plays.placed.symm.trans plays'.placed
    have legal := plays.legal inv
    rw [← plays.owner] at last ⊢
    show b.game.ownDeath x pos1 ++ b.game.foeDeath x pos1 = _
    have square : b.game.square pos1 = some y := held
    rw [Game.ownDeath, if_pos ((own_dies_iff inv legal).2 ⟨last, lost⟩), Game.foeDeath, square, Option.elim_some,
      if_pos ((foe_dies_iff inv legal square).2 how)]
    rfl

end Kills

/-! ## A turn -/

namespace Junqi

variable {ord : RailOrder} {tokenizer : Option Tokenizer} {engine : Engine} {s s' : Junqi} {i : Nat} {e : Event}

/-- What the test keeps from turn to turn. -/
structure Tested (s : Junqi) : Prop where
  stops : s.stopped = true ↔ TeamDead s.deadPlayersSet
  complete : s.isComplete = s.stopped

theorem Live.tested (live : Live ord tokenizer engine s s' i e) (playing : s.Playing) (going : s.stopped = false)
    (tested : s.Tested) (spared : ¬s.board.KillsLastTwo e.player (e.action - 151665)) : s'.Tested := by
  obtain ⟨step, acts, -, -, dead, stops, complete⟩ := live.played
  refine ⟨?_, by rw [complete, tested.complete, going, Bool.false_or]⟩
  have unbroken : ¬TeamDead s.deadPlayersSet := fun team => Bool.false_ne_true (going.symm.trans (tested.stops.2 team))
  rw [stops, dead]
  rcases acts.dying_cases playing.inv with none | own | ⟨q, alive, foes, foe | ⟨both, how⟩⟩
  · rw [none]
    exact ⟨fun h => absurd rfl h.1, fun team => absurd team unbroken⟩
  · rw [own, ended_insert playing.nodup unbroken live.living]
    exact and_iff_right (List.cons_ne_nil _ _)
  · rw [foe, ended_insert playing.nodup unbroken fun mem => alive ((playing.dead q).1 mem)]
    exact and_iff_right (List.cons_ne_nil _ _)
  · rw [both, ended_insert_two playing.nodup unbroken live.living (fun mem => alive ((playing.dead q).1 mem)) foes]
    · exact and_iff_right (List.cons_ne_nil _ _)
    · rintro ⟨c, here, d, there, differ⟩
      exact spared ⟨⟨c, (playing.dead c).1 here, d, (playing.dead d).1 there, differ⟩, how⟩

/-- A turn with an event is one of a living seat. -/
theorem Turn.live_of_event {es es' : List Event} (turn : Turn ord tokenizer engine i s es s' es') (same : es' = es ++ [e]) :
    s.stopped = false ∧ Live ord tokenizer engine s s' i e := by
  have longer : es'.length = es.length + 1 := by rw [same, List.length_append, List.length_singleton]
  cases turn with
  | finished _ => omega
  | dead _ _ => omega
  | live going live =>
    cases List.append_cancel_left same
    exact ⟨going, live⟩

/-- When the last two seats die at once the loop goes on. -/
theorem Live.unnoticed (live : Live ord tokenizer engine s s' i e) (playing : s.Playing)
    (kills : s.board.KillsLastTwo e.player (e.action - 151665)) : s'.stopped = false ∧ TeamDead s'.deadPlayersSet := by
  obtain ⟨step, acts, -, -, dead, stops, -⟩ := live.played
  obtain ⟨⟨c, here, d, there, differ⟩, x, pos, pos1, y, plays, held, last, lost, how⟩ := kills
  have legal := plays.legal playing.inv
  have alive : y.player ∉ s.deadPlayersSet := fun gone =>
    playing.inv.sound.dead_gone pos1 y held (List.mem_toFinset.2 ((playing.dead _).1 gone))
  have foes : e.player ≠ y.player := plays.owner ▸ legal.foe_ne held
  have dies : step.2.deadPlayers = [e.player, y.player] := acts.kills_both playing.inv plays held last lost how
  rw [dies] at dead stops
  have four : [e.player, y.player, c, d].Nodup := by
    have mine : e.player ∉ s.deadPlayersSet := live.living
    have set {q : Player} (gone : q ∈ s.board.deadPlayers) : q ∈ s.deadPlayersSet := (playing.dead q).2 gone
    rw [List.nodup_cons, List.nodup_cons, List.nodup_cons]
    refine ⟨?_, ?_, ?_, List.nodup_singleton d⟩
    · rw [List.mem_cons, List.mem_cons, List.mem_singleton]
      rintro (same | rfl | rfl)
      · exact foes same
      · exact mine (set here)
      · exact mine (set there)
    · rw [List.mem_cons, List.mem_singleton]
      rintro (rfl | rfl)
      · exact alive (set here)
      · exact alive (set there)
    · rw [List.mem_singleton]
      rintro rfl
      exact differ rfl
  have full : [e.player, y.player, c, d].toFinset = Finset.univ :=
    Finset.eq_univ_of_card _ (List.toFinset_card_of_nodup four)
  have all (q : Player) : q ∈ s'.deadPlayersSet := by
    have listed : q ∈ [e.player, y.player, c, d] := List.mem_toFinset.1 (full ▸ Finset.mem_univ q)
    rw [dead, List.mem_union_iff]
    simp only [List.mem_cons, List.not_mem_nil, or_false] at listed ⊢
    rcases listed with own | foe | rfl | rfl
    · exact .inl (.inl own)
    · exact .inl (.inr foe)
    · exact .inr ((playing.dead _).2 here)
    · exact .inr ((playing.dead _).2 there)
  have length : s'.deadPlayersSet.length = 4 := by
    have nodup : s'.deadPlayersSet.Nodup := dead ▸ playing.nodup.union _
    rw [← List.toFinset_card_of_nodup nodup, Finset.eq_univ_iff_forall.2 fun q => List.mem_toFinset.2 (all q)]
    rfl
  refine ⟨eq_false_of_ne_true fun stopped => ?_, 0, all 0, 2, all 2, by decide, rfl⟩
  have short := length_of_ended (stops.1 stopped).2
  omega

/-! ## The game -/

variable {ord : RailOrder}

/-- **The end as it is meant**: the loop stops at the first turn after which a team is dead and
requests nothing afterwards, and the samples are complete iff there is such a turn. -/
structure EndsWithTeam (ord : RailOrder) (tokenizer : Option Tokenizer) (engine : Engine) (start : Junqi) : Prop where
  plays : ∀ k, ∃ s es, run ord tokenizer engine start k = .ok (s, es)
  stops : ∀ {k s es}, k ≤ 400 → run ord tokenizer engine start k = .ok (s, es) →
    (s.stopped = true ↔ TeamDead s.board.deadPlayers)
  quiet : ∀ {k s es s' es'}, k ≤ 400 → run ord tokenizer engine start k = .ok (s, es) → TeamDead s.board.deadPlayers →
    run ord tokenizer engine start 400 = .ok (s', es') → es' = es
  status : ∀ {s es}, run ord tokenizer engine start 400 = .ok (s, es) → ∀ g,
    (s.sample g).status = .completed ↔ TeamDead s.board.deadPlayers

/-- Once it is left the loop stays where it is. -/
theorem run_stopped {start : Junqi} {k : Nat} {es : List Event} (reached : run ord tokenizer engine start k = .ok (s, es))
    (stopped : s.stopped = true) (j : Nat) : run ord tokenizer engine start (k + j) = .ok (s, es) := by
  induction j with
  | zero => exact reached
  | succ j ih =>
    rw [← Nat.add_assoc, run_succ, ih, Py.ok_bind]
    exact if_pos stopped

/-- No turn of the game kills the last two seats at once. -/
def Spares (ord : RailOrder) (tokenizer : Option Tokenizer) (engine : Engine) (start : Junqi) : Prop :=
  ∀ {k s es s' e}, k < 400 → run ord tokenizer engine start k = .ok (s, es) →
    run ord tokenizer engine start (k + 1) = .ok (s', es ++ [e]) → ¬s.board.KillsLastTwo e.player (e.action - 151665)

theorem run_tested {start : Junqi} (playing : start.Playing) (tested : start.Tested) (spares : Spares ord tokenizer engine start)
    {k : Nat} (within : k ≤ 400) : ∃ s es, run ord tokenizer engine start k = .ok (s, es) ∧ s.Playing ∧ s.Tested := by
  induction k with
  | zero => exact ⟨start, [], rfl, playing, tested⟩
  | succ k ih =>
    obtain ⟨s, es, reached, playing, tested⟩ := ih (by omega)
    obtain ⟨s', es', done, turn, playing'⟩ := step_spec ord tokenizer engine playing es k
    have next : run ord tokenizer engine start (k + 1) = .ok (s', es') := by rw [run_succ, reached, Py.ok_bind, done]
    refine ⟨s', es', next, playing', ?_⟩
    cases turn with
    | finished _ => exact tested
    | dead _ _ => exact ⟨tested.stops, tested.complete⟩
    | live going live => exact live.tested playing going tested (spares (by omega) reached next)

theorem run_plays (ord : RailOrder) (tokenizer : Option Tokenizer) (engine : Engine) {start : Junqi}
    (playing : start.Playing) (k : Nat) : ∃ s es, run ord tokenizer engine start k = .ok (s, es) ∧ s.Playing := by
  obtain ⟨s, es, reached, playing, -⟩ := run_induction ord tokenizer engine playing (P := fun _ _ _ => True) trivial
    (fun _ _ _ _ _ _ _ _ => trivial) k
  exact ⟨s, es, reached, playing⟩

/-- **The loop ends with a team**, in every game in which no action kills the last two seats at once. -/
theorem ends_with_team (ord : RailOrder) (tokenizer : Option Tokenizer) (encode : String → List Nat) (engine : Engine)
    {layout : Player → List Role} (generates : ∀ p, Generates (layout p)) {b : Board} (new : Board.new layout = .ok b)
    (spares : Spares ord tokenizer engine (.start encode b)) : EndsWithTeam ord tokenizer engine (.start encode b) := by
  obtain ⟨b', new', starts⟩ := new_spec fun p => (generates p).proper
  cases Except.ok.inj (new.symm.trans new')
  have playing := start_playing starts encode
  have tested : (start encode b).Tested := ⟨⟨(nomatch ·), fun ⟨_, here, _⟩ => nomatch here⟩, rfl⟩
  have reaches {k : Nat} {s : Junqi} {es : List Event} (within : k ≤ 400)
      (reached : run ord tokenizer engine (.start encode b) k = .ok (s, es)) :
      s.Tested ∧ (s.stopped = true ↔ TeamDead s.board.deadPlayers) := by
    obtain ⟨s', es', reached', playing, tested⟩ := run_tested playing tested spares within
    cases reached.symm.trans reached'
    exact ⟨tested, tested.stops.trans (teamDead_congr playing.dead)⟩
  refine ⟨fun k => ?_, fun within reached => (reaches within reached).2, fun {k s es s' es'} within reached team last => ?_,
    fun {s es} reached g => ?_⟩
  · obtain ⟨s, es, reached, -⟩ := run_plays ord tokenizer engine playing k
    exact ⟨s, es, reached⟩
  · have stay := run_stopped reached ((reaches within reached).2.2 team) (400 - k)
    rw [Nat.add_sub_of_le within, last] at stay
    cases stay
    rfl
  · obtain ⟨tested, stops⟩ := reaches le_rfl reached
    rw [← stops, ← tested.complete, sample]
    cases s.isComplete <;> simp

/-- **When the loop ends with a team**: exactly in the games in which no action kills the last two seats at
once, one of each team. -/
theorem ends_with_team_iff (ord : RailOrder) (tokenizer : Option Tokenizer) (encode : String → List Nat) (engine : Engine)
    {layout : Player → List Role} (generates : ∀ p, Generates (layout p)) {b : Board} (new : Board.new layout = .ok b) :
    EndsWithTeam ord tokenizer engine (.start encode b) ↔ Spares ord tokenizer engine (.start encode b) := by
  refine ⟨fun ends {k s es s' e} within reached next kills => ?_, ends_with_team ord tokenizer encode engine generates new⟩
  obtain ⟨b', new', starts⟩ := new_spec fun p => (generates p).proper
  cases Except.ok.inj (new.symm.trans new')
  obtain ⟨s₁, es₁, reached₁, playing⟩ := run_plays ord tokenizer engine (start_playing starts encode) k
  cases reached.symm.trans reached₁
  obtain ⟨s₂, es₂, done, turn, playing'⟩ := step_spec ord tokenizer engine playing es k
  have same := next
  rw [run_succ, reached, Py.ok_bind, done, Except.ok.injEq, Prod.mk.injEq] at same
  obtain ⟨rfl, same⟩ := same
  obtain ⟨going, team⟩ := (turn.live_of_event same).2.unnoticed playing kills
  have stopped := (ends.stops (by omega) next).2 ((teamDead_congr playing'.dead).1 team)
  exact Bool.false_ne_true (going.symm.trans stopped)

/-- A game of skips kills nobody by a move. -/
theorem spares_skips {start : Junqi} (playing : start.Playing) : Spares ord tokenizer (.scripted fun _ => 157599) start := by
  intro k s es s' e _ reached next ⟨_, x, pos, pos1, y, plays, _⟩
  obtain ⟨s₁, es₁, reached₁, playing⟩ := run_plays ord tokenizer (.scripted fun _ => 157599) playing k
  cases reached.symm.trans reached₁
  obtain ⟨s₂, es₂, done, turn, -⟩ := step_spec ord tokenizer (.scripted fun _ => 157599) playing es k
  rw [run_succ, reached, Py.ok_bind, done, Except.ok.injEq, Prod.mk.injEq] at next
  obtain ⟨rfl, same⟩ := next
  have live := turn.live_of_event same
  exact plays.move (by rw [live.2.skips])

theorem ends_with_team_skips : ∃ b, Board.new (fun _ => firstLayout) = .ok b ∧
    EndsWithTeam tableOrder none (.scripted fun _ => 157599) (.start (fun _ => []) b) := by
  obtain ⟨b, new, starts⟩ := new_spec fun _ => firstLayout_generates.proper
  refine ⟨b, new, ?_⟩
  apply (ends_with_team_iff tableOrder none (fun _ => []) _ (fun _ => firstLayout_generates) new).2
  exact spares_skips (start_playing starts _)

end Junqi

/-! ## A game that ends unnoticed -/

/-- The layout of the seats 0 and 1, which skip, and of seat 2, which loses all pieces but one. -/
def spentLayout : List Role := [1, 3, 2, 3, 4, 4, 5, 5, 6, 6, 7, 7, 7, 8, 8, 10, 10, 9, 9, 9, 0, 11, 0, 0, 8]

/-- The layout of seat 3, which loses its flag. -/
def guardLayout : List Role := [1, 4, 6, 6, 2, 7, 7, 3, 7, 8, 8, 3, 8, 9, 4, 10, 10, 9, 5, 5, 0, 0, 0, 11, 9]

def lastLayout (p : Player) : List Role := if p.val = 3 then guardLayout else spentLayout

theorem spentLayout_generates : Generates spentLayout := by
  refine ⟨fun n => [0, 1, 0, 0, 0, 0, 0, 0, 0, 0, 0, 0, 0, 0, 0, 13, 13, 10, 10, 10, 0, 0, 0, 0, 7, 0, 0, 5, 5].getD n 0, ?_⟩
  decide +kernel

theorem guardLayout_generates : Generates guardLayout := by
  refine ⟨fun n => [0, 3, 4, 4, 0, 3, 3, 0, 2, 2, 2, 0, 1, 1, 0, 13, 13, 10, 0, 0, 0, 0, 0, 0, 8, 1, 0, 5, 5].getD n 0, ?_⟩
  decide +kernel

theorem lastLayout_generates (p : Player) : Generates (lastLayout p) := by
  unfold lastLayout
  split
  · exact guardLayout_generates
  · exact spentLayout_generates

/-- The moves of the seats 2 and 3. -/
def lastPlies : List Ply :=
  [⟨2, 62, [121]⟩, ⟨0, 90, [64]⟩, ⟨7, 69, [64]⟩, ⟨0, 64, [63]⟩, ⟨11, 74, [69, 64, 90, 95]⟩,
   ⟨8, 100, [95, 90, 64, 69, 74, 79]⟩, ⟨1, 61, [62, 63]⟩, ⟨8, 79, [84]⟩, ⟨24, 89, [84]⟩, ⟨8, 84, [83]⟩,
   ⟨0, 60, [61, 62, 63]⟩, ⟨8, 83, [82]⟩, ⟨5, 65, [60, 122, 123, 124]⟩, ⟨4, 94, [126, 125, 124]⟩, ⟨13, 77, [82]⟩,
   ⟨4, 124, [123, 122, 60, 65, 70]⟩, ⟨12, 75, [70]⟩, ⟨8, 82, [81]⟩, ⟨9, 71, [70]⟩,
   ⟨12, 105, [100, 95, 90, 64, 69, 74, 79, 84]⟩, ⟨6, 67, [66]⟩, ⟨15, 110, [105, 100, 95, 90, 64, 69, 74]⟩,
   ⟨2, 121, [120, 90, 95, 100, 105, 110]⟩, ⟨16, 111, [106]⟩, ⟨2, 110, [111, 112]⟩, ⟨15, 74, [73]⟩, ⟨6, 66, [70]⟩,
   ⟨12, 84, [83, 82, 81, 80]⟩, ⟨2, 112, [113]⟩, ⟨6, 97, [96]⟩, ⟨2, 113, [118]⟩]

/-- The seats 0 and 1 skip five times and are dead, the others move in turn. -/
def lastOrders : List Order :=
  (List.range 63).map fun i =>
    if i % 4 < 2 then if i < 18 then .skip else .dead
    else (lastPlies[2 * (i / 4) + (i % 4 - 2)]?).elim .dead .ply

/-- With its last move seat 2 takes the flag of seat 3 and is out of pieces. -/
theorem lastOrders_play_out : playOut lastLayout 0 (startGame lastLayout) [] lastOrders = some [2, 3, 1, 0] := by
  decide +kernel

/-- **When the last two seats die at once the loop goes on.** -/
theorem not_ends_with_team_last : (∀ p, Generates (lastLayout p)) ∧ ∃ b, Board.new lastLayout = .ok b ∧
    ¬EndsWithTeam tableOrder none (.orders lastOrders) (.start (fun _ => []) b) := by
  have proper (p : Player) := (lastLayout_generates p).proper
  obtain ⟨b, new, starts⟩ := new_spec proper
  refine ⟨lastLayout_generates, b, new, fun ends => ?_⟩
  have out : playOut lastLayout 0 b.game [] lastOrders = some [2, 3, 1, 0] := by
    rw [starts.game_eq proper]
    exact lastOrders_play_out
  obtain ⟨s, es, reached, playing, going, dead⟩ := run_follows (i := 0) (s := .start (fun _ => []) b)
    (fun j => by rw [Nat.zero_add]) out rfl (start_playing starts _) rfl starts.rows
  have team : TeamDead s.board.deadPlayers := by
    rw [← teamDead_congr playing.dead, dead]
    decide
  have stopped := (ends.stops (by decide) reached).2 team
  exact Bool.false_ne_true (going.symm.trans stopped)

end SlimeBoard
