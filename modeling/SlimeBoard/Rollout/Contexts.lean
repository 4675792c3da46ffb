import SlimeBoard.Rollout.Transcript

/-!
# What the engine sees

The client marks the start of its next increment before it appends the action it
receives. The server has that action already, from its own output, so from the second
request of a session on every earlier action is seen twice, unless the server trims it.
-/

namespace SlimeBoard

open Board Junqi

/-- The server trims the token at the start of a continued request. -/
def trims (tokenizer : Option Tokenizer) (token : Nat) : Bool :=
  tokenizer.any fun t => decide (t.bosTokenId = some token)

theorem trimmed_cons (tokenizer : Option Tokenizer) (token : Nat) (rest : List Nat) :
    Session.trimmed tokenizer (token :: rest) = if trims tokenizer token then rest else token :: rest := by
  cases tokenizer with
  | none => rfl
  | some t => simp [Session.trimmed, trims]

/-- The prompt of group `g`. -/
def promptOf (encode : String → List Nat) (layout : Player → List Role) (g : Fin 2) : List Nat :=
  generatePrompt encode (if g = 0 then layout 0 ++ layout 2 else layout 1 ++ layout 3)

/-- The context of `e` has every earlier action of the group that is not trimmed once
too often. -/
structure Overlaps (tokenizer : Option Tokenizer) (prompt : Fin 2 → List Nat) (before : List Event) (e : Event) :
    Prop where
  length : e.context.length = (prompt (group e.player)).length + e.buffer.length +
    (own (group e.player) before).countP fun e' => !trims tokenizer e'.action
  exact : (∀ e' ∈ own (group e.player) before, trims tokenizer e'.action = true) →
    e.context = prompt (group e.player) ++ e.buffer

variable {ord : RailOrder} {tokenizer : Option Tokenizer} {engine : Engine} {prompt : Fin 2 → List Nat}
  {s s' : Junqi} {i : Nat} {es es' before : List Event} {e : Event} {g : Fin 2}

theorem Overlaps.exact_iff (overlaps : Overlaps tokenizer prompt before e) :
    e.context = prompt (group e.player) ++ e.buffer ↔
      ∀ e' ∈ before, group e'.player = group e.player → trims tokenizer e'.action = true := by
  have mine : (∀ e' ∈ own (group e.player) before, trims tokenizer e'.action = true) ↔
      ∀ e' ∈ before, group e'.player = group e.player → trims tokenizer e'.action = true := by
    simp [own]
  rw [← mine]
  constructor
  · intro same
    have length := overlaps.length
    rw [same, List.length_append] at length
    have none : (own (group e.player) before).countP (fun e' => !trims tokenizer e'.action) = 0 := by omega
    rw [List.countP_eq_zero] at none
    intro e' mem
    simpa using none e' mem
  · exact overlaps.exact

/-! ## The session of a group -/

/-- What client and server remember of the session of group `g`. -/
def Follows (s : Junqi) (es : List Event) (g : Fin 2) : Prop :=
  (own g es = [] ∧ s.reqId g = none ∧ s.idx g = 0) ∨
    ∃ before e after, es = before ++ e :: after ∧ group e.player = g ∧ own g after = [] ∧
      ∃ rid outputIds tail, s.reqId g = some rid ∧ (s.sessions g).Remembers rid e.context (e.action :: outputIds) 1 ∧
        s.idx g = e.buffer.length ∧ s.buffer = e.buffer ++ e.action :: tail

structure Contexts (tokenizer : Option Tokenizer) (prompt : Fin 2 → List Nat) (s : Junqi) (es : List Event) :
    Prop where
  samePrompt : s.prompt = prompt
  follows : ∀ g, Follows s es g
  overlaps : ∀ before e after, es = before ++ e :: after → Overlaps tokenizer prompt before e
  recorded : ∀ e ∈ es, e.buffer ++ [e.action] <+: s.buffer

theorem own_foreign (foreign : group e.player ≠ g) : own g [e] = [] :=
  List.filter_eq_nil_iff.2 (by simpa using foreign)

/-- A session goes on while others write to the buffer. -/
theorem Follows.write (follows : Follows s es g) (tokens : List Nat) (sessions : s'.sessions g = s.sessions g)
    (reqId : s'.reqId g = s.reqId g) (idx : s'.idx g = s.idx g) (buffer : s'.buffer = s.buffer ++ tokens)
    (more : List Event) (foreign : own g more = []) : Follows s' (es ++ more) g := by
  have own_more : ∀ es, own g (es ++ more) = own g es := by
    intro es
    unfold own at foreign ⊢
    rw [List.filter_append, foreign, List.append_nil]
  rcases follows with ⟨none, fresh, zero⟩ | ⟨before, e, after, rfl, mine, none, rid, outputIds, tail, asked, known, index, same⟩
  · exact Or.inl ⟨(own_more es).trans none, reqId.trans fresh, idx.trans zero⟩
  · refine Or.inr ⟨before, e, after ++ more, by simp, mine, (own_more after).trans none, rid, outputIds,
      tail ++ tokens, reqId.trans asked, ?_, idx.trans index, ?_⟩
    · rw [sessions]
      exact known
    · rw [buffer, same]
      simp

/-- The reply is remembered under the context of the request. -/
theorem Junqi.Live.remembered (playing : s.Playing) (live : Live ord tokenizer engine s s' i e) :
    ∃ outputIds, (s'.sessions (group e.player)).Remembers (engine.generate i e.request).id e.context
        (e.action :: outputIds) 1 ∧
      (s.reqId (group e.player) = none →
        e.context = s.prompt (group e.player) ++ s.buffer.drop (s.idx (group e.player))) ∧
      ∀ rid, s.reqId (group e.player) = some rid → ∀ context outputIds,
        (s.sessions (group e.player)).Remembers rid context outputIds 1 →
        e.context = context ++ outputIds.take 1 ++
          Session.trimmed tokenizer (s.buffer.drop (s.idx (group e.player))) := by
  obtain ⟨mask, _, same⟩ := live.asked
  obtain ⟨outputIds, output⟩ := live.replied
  obtain ⟨context, session, served, remembers, fresh, continued⟩ :=
    serve_spec tokenizer (group e.player) playing mask (engine.generate i e.request)
  rw [← same, live.served, Except.ok.injEq, Prod.mk.injEq] at served
  rw [output] at remembers
  rw [served.1, served.2]
  exact ⟨outputIds, remembers, fresh, continued⟩

/-- **What a request sees**, from what its group saw last. -/
theorem Junqi.Live.overlaps (playing : s.Playing) (contexts : Contexts tokenizer prompt s es)
    (live : Live ord tokenizer engine s s' i e) : Overlaps tokenizer prompt es e := by
  obtain ⟨_, _, fresh, continued⟩ := live.remembered playing
  rcases contexts.follows (group e.player) with ⟨none, unasked, zero⟩ |
    ⟨before, e₁, after, rfl, mine, none, rid, outputIds, tail, asked, known, index, buffer⟩
  · have context : e.context = prompt (group e.player) ++ e.buffer := by
      rw [fresh unasked, zero, List.drop_zero, contexts.samePrompt, live.buffer]
    refine ⟨?_, fun _ => context⟩
    rw [context, none, List.length_append]
    rfl
  · obtain ⟨length, exact⟩ := contexts.overlaps before e₁ after rfl
    rw [mine] at length exact
    have earlier : own (group e.player) (before ++ e₁ :: after) = own (group e.player) before ++ [e₁] := by
      unfold own at none ⊢
      rw [List.filter_append, List.filter_cons, if_pos (by simpa using mine), none]
    have context : e.context = e₁.context ++ [e₁.action] ++
        if trims tokenizer e₁.action then tail else e₁.action :: tail := by
      rw [continued rid asked _ _ known, index, buffer, List.drop_left, trimmed_cons]
      rfl
    refine ⟨?_, ?_⟩
    · rw [context, earlier, live.buffer, buffer, List.countP_append, List.countP_singleton]
      simp only [List.length_append, length, List.length_cons, List.length_nil]
      by_cases gone : trims tokenizer e₁.action = true
      · simp only [gone, if_true, Bool.not_true, Bool.false_eq_true, if_false]
        omega
      · simp only [gone, if_false, Bool.not_false, if_true, List.length_cons, Bool.false_eq_true]
        omega
    · intro gone
      rw [earlier] at gone
      have first := exact fun e' mem => gone e' (List.mem_append_left _ mem)
      rw [context, first, if_pos (gone e₁ (by simp)), live.buffer, buffer]
      simp

/-- **Every turn keeps the accounts of client and server.** -/
theorem Contexts.turn (playing : s.Playing) (contexts : Contexts tokenizer prompt s es)
    (turn : Turn ord tokenizer engine i s es s' es') : Contexts tokenizer prompt s' es' := by
  cases turn with
  | finished => exact contexts
  | dead =>
    refine ⟨contexts.samePrompt, ?_, contexts.overlaps, ?_⟩
    · intro g
      have sessions : (s.record (Fin.ofNat 2 i) [157599] [0] [0]).sessions g = s.sessions g := rfl
      have next := (contexts.follows g).write [157599] sessions rfl rfl rfl [] rfl
      rwa [List.append_nil] at next
    · exact fun e mem => (contexts.recorded e mem).trans (List.prefix_append _ _)
  | live going live =>
    rename_i e
    obtain ⟨tail, logprob, buffer, _⟩ := live.recorded
    refine ⟨live.prompt.trans contexts.samePrompt, ?_, ?_, ?_⟩
    · intro g
      by_cases mine : g = group e.player
      · subst mine
        obtain ⟨outputIds, remembers, _⟩ := live.remembered playing
        refine Or.inr ⟨es, e, [], rfl, rfl, rfl, _, outputIds, tail, live.reqId, remembers, ?_, ?_⟩
        · rw [live.idx, Function.update_self, live.buffer]
        · rw [buffer, live.buffer]
      · obtain ⟨sessions, reqId⟩ := live.others g mine
        refine (contexts.follows g).write (e.action :: tail) sessions reqId ?_ buffer [e] ?_
        · rw [live.idx, Function.update_of_ne mine]
        · exact own_foreign (Ne.symm mine)
    · intro before e' after split
      rcases List.eq_nil_or_concat after with rfl | ⟨after, e₁, rfl⟩
      · obtain ⟨rfl, same⟩ := List.append_inj' split rfl
        rw [List.cons.injEq] at same
        rw [← same.1]
        exact live.overlaps playing contexts
      · rw [List.concat_eq_append, ← List.cons_append, ← List.append_assoc] at split
        obtain ⟨split, _⟩ := List.append_inj' split rfl
        exact contexts.overlaps before e' after split
    · intro e' mem
      rcases List.mem_append.1 mem with mem | mem
      · rw [buffer]
        exact (contexts.recorded e' mem).trans (List.prefix_append _ _)
      · rw [List.mem_singleton.1 mem, buffer, live.buffer, List.append_cons s.buffer e.action tail]
        exact List.prefix_append _ _

theorem contexts_start {layout : Player → List Role} {b : Board} (starts : Starts layout b)
    (encode : String → List Nat) : Contexts tokenizer (promptOf encode layout) (.start encode b) [] := by
  refine ⟨?_, fun g => Or.inl ⟨rfl, rfl, rfl⟩, by simp, by simp⟩
  funext g
  show generatePrompt encode (b.getLayout g) = _
  rw [Board.getLayout, starts.sameLayout]
  rfl

theorem game_contexts (ord : RailOrder) (tokenizer : Option Tokenizer) (encode : String → List Nat)
    (engine : Engine) {layout : Player → List Role} (generates : ∀ p, Generates (layout p)) :
    ∃ s es, generateJunqi ord tokenizer encode engine layout = .ok (s.sample, es) ∧
      Tells ord tokenizer engine layout es ∧ Contexts tokenizer (promptOf encode layout) s es :=
  game_induction ord tokenizer encode engine generates
    (P := fun _ s es => Contexts tokenizer (promptOf encode layout) s es)
    (fun _ starts => contexts_start starts encode) fun _ _ _ _ _ playing contexts turn => contexts.turn playing turn

/-- **A request sees the prompt and the transcript exactly when every earlier action of
its group is a token the server trims.** The events tell what server, engine and board did,
and the action of each follows its buffer in the transcript. -/
theorem context_exact_iff (ord : RailOrder) (tokenizer : Option Tokenizer) (encode : String → List Nat)
    (engine : Engine) {layout : Player → List Role} (generates : ∀ p, Generates (layout p)) :
    ∃ samples events, generateJunqi ord tokenizer encode engine layout = .ok (samples, events) ∧
      Tells ord tokenizer engine layout events ∧ ∀ before e after, events = before ++ e :: after →
        promptOf encode layout (group e.player) ++ (e.buffer ++ [e.action]) <+: (samples (group e.player)).tokens ∧
        (e.context = promptOf encode layout (group e.player) ++ e.buffer ↔
          ∀ e' ∈ before, group e'.player = group e.player → trims tokenizer e'.action = true) := by
  obtain ⟨s, es, run, tells, contexts⟩ := game_contexts ord tokenizer encode engine generates
  refine ⟨s.sample, es, run, tells, ?_⟩
  intro before e after split
  refine ⟨?_, (contexts.overlaps before e after split).exact_iff⟩
  have mem : e ∈ es := by
    rw [split]
    simp
  show _ <+: s.prompt _ ++ s.buffer
  rw [contexts.samePrompt]
  exact (List.prefix_append_right_inj _).2 (contexts.recorded e mem)

theorem context_exact_iff_first : ∃ samples events,
    generateJunqi tableOrder (some ⟨none⟩) (fun _ => []) (.scripted fun _ => 157599) (fun _ => firstLayout) =
      .ok (samples, events) ∧
      Tells tableOrder (some ⟨none⟩) (.scripted fun _ => 157599) (fun _ => firstLayout) events ∧
      ∀ before e after, events = before ++ e :: after →
        promptOf (fun _ => []) (fun _ => firstLayout) (group e.player) ++ (e.buffer ++ [e.action]) <+:
          (samples (group e.player)).tokens ∧
        (e.context = promptOf (fun _ => []) (fun _ => firstLayout) (group e.player) ++ e.buffer ↔
          ∀ e' ∈ before, group e'.player = group e.player → trims (some ⟨none⟩) e'.action = true) :=
  context_exact_iff tableOrder (some ⟨none⟩) (fun _ => []) (.scripted fun _ => 157599) fun _ => firstLayout_generates

/-! ## A game of skips -/

/-- In a game of skips the first three seats skip in turn. -/
def Skipping (k : Nat) (s : Junqi) (es : List Event) : Prop :=
  (es.map Event.player).take 3 = ([0, 1, 2] : List Player).take k ∧
    (k < 3 → s.stopped = false ∧ s.deadPlayersSet = [] ∧ ∀ p, s.board.stepCount p ≤ k)

/-- A living seat may skip, so an engine told to skip does. -/
theorem Junqi.Live.skips (live : Live ord tokenizer (.scripted fun _ => 157599) s s' i e) : e.action = 157599 := by
  obtain ⟨mask, offers, request⟩ := live.asked
  obtain ⟨rest, output⟩ := live.replied
  have legal : 157599 ∈ e.request.logitsMask := by
    rw [request]
    exact skip_mem_maskIds ((offers _).2 (Or.inl rfl))
  have reply : [if 157599 ∈ e.request.logitsMask then 157599 else e.request.logitsMask.headD 0] = e.action :: rest :=
    output
  rw [if_pos legal, List.cons.injEq] at reply
  exact reply.1.symm

/-- The first four skips of a seat kill nobody. -/
theorem Board.Acts.quiet {b : Board} {p : Player} {a : Nat} {step : Game × Verdict} (acts : b.Acts p a step)
    (skip : a = 5934) (few : b.stepCount p < 4) : step.2.deadPlayers = [] := by
  rcases acts with ⟨_, rfl⟩ | ⟨x, pos, pos1, plays, rfl⟩
  · have more : b.game.skips p + 1 ≠ 5 := by
      show b.stepCount p + 1 ≠ 5
      omega
    unfold Game.pass
    dsimp only
    rw [if_neg more]
  · exact absurd skip plays.move

/-- The set of dead players and the skips after a turn without a death. -/
theorem Junqi.Live.quiet (live : Live ord tokenizer engine s s' i e) (skip : e.action = 157599)
    (few : ∀ p, s.board.stepCount p < 4) :
    s'.stopped = false ∧ s'.deadPlayersSet = s.deadPlayersSet ∧
      ∀ p, s'.board.stepCount p ≤ s.board.stepCount p + 1 := by
  obtain ⟨step, acts, done, _, dead, stopped, _⟩ := live.played
  have none := acts.quiet (by omega) (few _)
  rw [none] at dead stopped
  refine ⟨?_, dead.trans (List.nil_union _), ?_⟩
  · rw [Bool.eq_false_iff]
    intro finished
    exact (stopped.1 finished).1 rfl
  · intro p
    have counted : s'.board.stepCount p = step.1.skips p := congrFun (congrArg Game.skips done.game) p
    rw [counted, acts.skips]
    split
    · omega
    · omega

theorem take_seats {k : Nat} (early : k < 3) :
    ([0, 1, 2] : List Player).take k ++ [Fin.ofNat 4 k] = ([0, 1, 2] : List Player).take (k + 1) :=
  match k, early with
  | 0, _ => rfl
  | 1, _ => rfl
  | 2, _ => rfl

theorem Skipping.turn {k : Nat} (skipping : Skipping k s es)
    (turn : Turn ord tokenizer (.scripted fun _ => 157599) k s es s' es') : Skipping (k + 1) s' es' := by
  obtain ⟨players, early⟩ := skipping
  by_cases late : 3 ≤ k
  · have full : ([0, 1, 2] : List Player).take k = [0, 1, 2] := List.take_of_length_le late
    have three : (es.map Event.player).take 3 = [0, 1, 2] := players.trans full
    have long := congrArg List.length three
    rw [List.length_take, List.length_map] at long
    have bound : 3 ≤ (es.map Event.player).length := by
      rw [List.length_map]
      simp only [List.length_cons, List.length_nil] at long
      omega
    refine ⟨?_, fun early => by omega⟩
    rw [List.take_of_length_le (show ([0, 1, 2] : List Player).length ≤ k + 1 by simp; omega)]
    cases turn with
    | finished => exact three
    | dead => exact three
    | live going live => rw [List.map_append, List.take_append_of_le_length bound, three]
  · obtain ⟨going, none, few⟩ := early (by omega)
    cases turn with
    | finished finished => exact absurd (going.symm.trans finished) (by decide)
    | dead _ dead =>
      rw [none] at dead
      cases dead
    | live _ live =>
      rename_i e
      obtain ⟨going', dead, more⟩ := live.quiet live.skips fun p => by have := few p; omega
      refine ⟨?_, fun _ => ⟨going', dead.trans none, fun p => (more p).trans (by have := few p; omega)⟩⟩
      have length := congrArg List.length players
      rw [List.length_take, List.length_map, List.length_take] at length
      simp only [List.length_cons, List.length_nil] at length
      have short : (es.map Event.player).length ≤ 2 := by
        rw [List.length_map]
        omega
      have index : es.length = k := by omega
      rw [List.take_of_length_le (by omega)] at players
      rw [List.map_append, List.take_of_length_le (by simp; omega), players, List.map_singleton, live.player]
      exact take_seats (by omega)

theorem Skipping.first {k : Nat} (skipping : Skipping k s es) (late : 3 ≤ k) :
    ∃ e₀ e₁ e₂ rest, es = e₀ :: e₁ :: e₂ :: rest ∧ e₀.player = 0 ∧ e₁.player = 1 ∧ e₂.player = 2 := by
  have three := skipping.1
  rw [List.take_of_length_le (show ([0, 1, 2] : List Player).length ≤ k from late)] at three
  have long := congrArg List.length three
  rw [List.length_take, List.length_map] at long
  simp only [List.length_cons, List.length_nil] at long
  obtain ⟨e₀, es, rfl⟩ := List.exists_cons_of_length_pos (show 0 < es.length by omega)
  simp only [List.length_cons] at long
  obtain ⟨e₁, es, rfl⟩ := List.exists_cons_of_length_pos (show 0 < es.length by omega)
  simp only [List.length_cons] at long
  obtain ⟨e₂, rest, rfl⟩ := List.exists_cons_of_length_pos (show 0 < es.length by omega)
  simp only [List.map_cons, List.take_succ_cons, List.take_zero, List.cons.injEq, and_true] at three
  exact ⟨e₀, e₁, e₂, rest, rfl, three⟩

/-- **In a game of skips the third request sees the skip of its partner twice.** -/
theorem context_repeats_action : ∃ samples events e,
    generateJunqi tableOrder (some ⟨none⟩) (fun _ => []) (.scripted fun _ => 157599) (fun _ => firstLayout) =
      .ok (samples, events) ∧ e ∈ events ∧
      e.context ≠ promptOf (fun _ => []) (fun _ => firstLayout) (group e.player) ++ e.buffer := by
  obtain ⟨s, es, run, -, contexts, skipping⟩ := game_induction tableOrder (some ⟨none⟩) (fun _ => [])
    (.scripted fun _ => 157599) (fun _ => firstLayout_generates)
    (P := fun k s es => Contexts (some ⟨none⟩) (promptOf (fun _ => []) fun _ => firstLayout) s es ∧ Skipping k s es)
    (fun b starts => ⟨contexts_start starts _, by simp, fun _ => ⟨rfl, rfl, fun p => by rw [Junqi.start, starts.skips]⟩⟩)
    fun _ _ _ _ _ playing holds turn => ⟨holds.1.turn playing turn, holds.2.turn turn⟩
  obtain ⟨e₀, e₁, e₂, rest, rfl, zero, _, two⟩ := skipping.first (by omega)
  refine ⟨s.sample, _, e₂, run, by simp, ?_⟩
  intro same
  have trimmed := (contexts.overlaps [e₀, e₁] e₂ rest rfl).exact_iff.1 same e₀ (by simp) (by rw [zero, two]; rfl)
  cases trimmed

end SlimeBoard
