import SlimeBoard.Board.Safety
import SlimeBoard.Rollout.Turns

/-!
# The transcripts of a self-play game

What the two samples of a game contain, in terms of the events of the game: the
chosen tokens, the rewards each of them earns, and the contexts the engine saw.
-/

namespace SlimeBoard

open Board Junqi

/-! ## What should be recorded -/

/-- The events of group `g`. -/
def own (g : Fin 2) (es : List Event) : List Event := es.filter fun e => group e.player = g

/-- The rewards each action of group `g` earns: its own, and against it those of the
opponents until the next action of the group. -/
def credits (g : Fin 2) : List Event → List (List ℚ)
  | [] => []
  | e :: es =>
    if group e.player = g then
      (e.reward :: (es.takeWhile fun e => decide (group e.player ≠ g)).map fun e => -e.reward) :: credits g es
    else credits g es

/-- The response tokens with loss mask 1. -/
def chosen (buffer lossMask : List Nat) : List Nat :=
  ((buffer.zip lossMask).filter fun entry => decide (entry.2 = 1)).map Prod.fst

variable {g : Fin 2} {es : List Event} {e : Event}

theorem own_append (g : Fin 2) (es : List Event) (e : Event) :
    own g (es ++ [e]) = if group e.player = g then own g es ++ [e] else own g es := by
  unfold own
  rw [List.filter_append, List.filter_singleton]
  by_cases mine : group e.player = g <;> simp [mine]

theorem credits_eq_nil (foreign : ∀ e ∈ es, group e.player ≠ g) : credits g es = [] := by
  induction es with
  | nil => rfl
  | cons e es ih =>
    rw [credits, if_neg (foreign e (List.mem_cons_self ..))]
    exact ih fun e' mem => foreign e' (List.mem_cons_of_mem _ mem)

theorem credits_ne_nil (mem : e ∈ es) (mine : group e.player = g) : credits g es ≠ [] := by
  induction es with
  | nil => cases mem
  | cons e₀ es ih =>
    rw [credits]
    split
    · simp
    · rename_i foreign
      rcases List.mem_cons.1 mem with rfl | mem
      · exact absurd mine foreign
      · exact ih mem

theorem appendLast_cons {rewards : List ℚ} {rest : List (List ℚ)} (more : rest ≠ []) (reward : ℚ) :
    appendLast (rewards :: rest) reward = rewards :: appendLast rest reward := by
  cases rest with
  | nil => exact absurd rfl more
  | cons next rest => rfl

/-- An action opens a list of its group and continues the last list of the other. -/
theorem credits_append (g : Fin 2) (es : List Event) (e : Event) : credits g (es ++ [e]) =
    if group e.player = g then credits g es ++ [[e.reward]] else appendLast (credits g es) (-e.reward) := by
  induction es with
  | nil =>
    rw [List.nil_append]
    by_cases mine : group e.player = g <;> simp [credits, mine, appendLast]
  | cons e₀ es ih =>
    rw [List.cons_append, credits, ih, credits]
    by_cases mine₀ : group e₀.player = g
    · rw [if_pos mine₀, if_pos mine₀]
      by_cases foreign : ∀ e ∈ es, group e.player ≠ g
      · -- the list of `e₀` is the last one
        have whole : es.takeWhile (fun e => decide (group e.player ≠ g)) = es :=
          List.takeWhile_eq_self_iff.2 (by simpa using foreign)
        rw [List.takeWhile_append_of_pos (by simpa using foreign), credits_eq_nil foreign, whole]
        by_cases mine : group e.player = g <;> simp [mine, appendLast]
      · -- the list of `e₀` is closed
        have closed : (es ++ [e]).takeWhile (fun e => decide (group e.player ≠ g)) =
            es.takeWhile fun e => decide (group e.player ≠ g) := by
          rw [List.takeWhile_append, if_neg]
          intro whole
          have same := (List.takeWhile_prefix fun e : Event => decide (group e.player ≠ g)).eq_of_length whole
          exact foreign fun e mem => by simpa using List.takeWhile_eq_self_iff.1 same e mem
        have more : credits g es ≠ [] := by
          obtain ⟨e₁, mem, mine⟩ : ∃ e₁ ∈ es, group e₁.player = g := by simpa using foreign
          exact credits_ne_nil mem mine
        rw [closed, appendLast_cons more]
        split <;> rfl
    · rw [if_neg mine₀, if_neg mine₀]

theorem credits_length (g : Fin 2) (es : List Event) : (credits g es).length = (own g es).length := by
  induction es with
  | nil => rfl
  | cons e es ih =>
    unfold own at ih ⊢
    rw [credits, List.filter_cons]
    by_cases mine : group e.player = g <;> simp [mine, ih]

/-! ## What is recorded -/

theorem chosen_append {buffer buffer' lossMask lossMask' : List Nat} (same : lossMask.length = buffer.length) :
    chosen (buffer ++ buffer') (lossMask ++ lossMask') = chosen buffer lossMask ++ chosen buffer' lossMask' := by
  unfold chosen
  rw [List.zip_append same.symm, List.filter_append, List.map_append]

theorem chosen_zeros (tokens : List Nat) : chosen tokens (List.replicate tokens.length 0) = [] := by
  unfold chosen
  rw [List.map_eq_nil_iff, List.filter_eq_nil_iff]
  rintro ⟨token, bit⟩ mem
  have zero := (List.mem_replicate.1 (List.of_mem_zip mem).2).2
  simp [zero]

/-- Every chosen token is there once. -/
theorem chosen_length {buffer lossMask : List Nat} (same : lossMask.length = buffer.length) :
    (chosen buffer lossMask).length = lossMask.count 1 := by
  induction buffer generalizing lossMask with
  | nil =>
    rw [List.eq_nil_of_length_eq_zero same]
    rfl
  | cons token buffer ih =>
    cases lossMask with
    | nil => cases same
    | cons bit lossMask =>
      have rest := ih (Nat.succ_inj.1 same)
      unfold chosen at rest ⊢
      rw [List.zip_cons_cons, List.filter_cons, List.count_cons]
      by_cases one : bit = 1
      · simp only [one, decide_true, if_true, List.map_cons, List.length_cons, rest]
        simp
      · simp only [one, decide_false, Bool.false_eq_true, if_false, rest]
        simp [one]

/-- **The transcripts match the events.** -/
structure Recorded (s : Junqi) (es : List Event) : Prop where
  lossLength : ∀ g, (s.lossMask g).length = s.buffer.length
  probsLength : ∀ g, (s.rolloutLogProbs g).length = s.buffer.length
  chosen : ∀ g, chosen s.buffer (s.lossMask g) = (own g es).map Event.action
  rewards : ∀ g, s.rewardList g = credits g es
  logits : ∀ g, s.logitsMasks g = (own g es).map fun e => e.request.logitsMask
  legal : ∀ e ∈ es, e.action ∈ e.request.logitsMask

variable {ord : RailOrder} {tokenizer : Option Tokenizer} {engine : Engine} {s s' : Junqi} {i : Nat} {es' : List Event}

theorem recorded_start (encode : String → List Nat) (b : Board) : Recorded (.start encode b) [] :=
  ⟨fun _ => rfl, fun _ => rfl, fun _ => rfl, fun _ => rfl, fun _ => rfl, by simp⟩

/-- **Every turn keeps the transcripts aligned.** -/
theorem Recorded.turn (recorded : Recorded s es) (turn : Turn ord tokenizer engine i s es s' es') : Recorded s' es' := by
  cases turn with
  | finished => exact recorded
  | dead =>
    refine ⟨?_, ?_, ?_, recorded.rewards, recorded.logits, recorded.legal⟩
    · intro g
      show (s.lossMask g ++ if g = Fin.ofNat 2 i then [0] else [0]).length = (s.buffer ++ [157599]).length
      rw [ite_self, List.length_append, List.length_append, recorded.lossLength]
      rfl
    · intro g
      show (s.rolloutLogProbs g ++ if g = Fin.ofNat 2 i then [0] else [0]).length = (s.buffer ++ [157599]).length
      rw [ite_self, List.length_append, List.length_append, recorded.probsLength]
      rfl
    · intro g
      show SlimeBoard.chosen (s.buffer ++ [157599]) (s.lossMask g ++ if g = Fin.ofNat 2 i then [0] else [0]) = _
      rw [ite_self, chosen_append (recorded.lossLength g), recorded.chosen]
      exact List.append_nil _
  | live going live =>
    rename_i e
    obtain ⟨tail, logprob, buffer, lossMask, probs⟩ := live.recorded
    refine ⟨?_, ?_, ?_, ?_, ?_, ?_⟩
    · intro g
      rw [buffer, lossMask]
      show (s.lossMask g ++ if g = group e.player then _ else _).length = _
      rw [List.length_append, List.length_append, recorded.lossLength]
      split <;> simp
    · intro g
      rw [buffer, probs]
      show (s.rolloutLogProbs g ++ if g = group e.player then _ else _).length = _
      rw [List.length_append, List.length_append, recorded.probsLength]
      split <;> simp
    · intro g
      rw [buffer, lossMask, own_append]
      show SlimeBoard.chosen _ (s.lossMask g ++ if g = group e.player then _ else _) = _
      rw [chosen_append (recorded.lossLength g), recorded.chosen]
      by_cases mine : g = group e.player
      · have first : SlimeBoard.chosen (e.action :: tail) (1 :: List.replicate tail.length 0) = [e.action] := by
          have rest := chosen_zeros tail
          unfold SlimeBoard.chosen at rest ⊢
          rw [List.zip_cons_cons, List.filter_cons, if_pos (by simp), List.map_cons, rest]
        rw [if_pos mine, if_pos mine.symm, first, List.map_append]
        rfl
      · rw [if_neg mine, if_neg (Ne.symm mine), chosen_zeros, List.append_nil]
    · intro g
      rw [live.rewards, credits_append]
      show (if g = group e.player then s.rewardList g ++ [[e.reward]] else appendLast (s.rewardList g) (-e.reward)) = _
      rw [recorded.rewards]
      by_cases mine : g = group e.player
      · rw [if_pos mine, if_pos mine.symm]
      · rw [if_neg mine, if_neg (Ne.symm mine)]
    · intro g
      rw [live.logits, own_append, Function.update_apply]
      by_cases mine : g = group e.player
      · rw [if_pos mine, if_pos mine.symm, ← mine, recorded.logits, List.map_append]
        rfl
      · rw [if_neg mine, if_neg (Ne.symm mine), recorded.logits]
    · intro e' mem
      rcases List.mem_append.1 mem with mem | mem
      · exact recorded.legal e' mem
      · rw [List.mem_singleton.1 mem]
        exact live.legal

theorem sample_response (s : Junqi) (g : Fin 2) : (s.sample g).response = s.buffer := by
  unfold Sample.response Junqi.sample
  dsimp only
  rw [List.length_append, Nat.add_sub_cancel, List.drop_left]

/-- **The samples of a game are aligned with the game**: masks and log-probs have the
length of the response, the tokens with loss mask 1 are the actions of the group in
order, each is in its row of the logits masks, and its rewards are those it earns. The
events tell what the engine replied and what the board made of it. -/
theorem samples_match_game (ord : RailOrder) (tokenizer : Option Tokenizer) (encode : String → List Nat)
    (engine : Engine) {layout : Player → List Role} (generates : ∀ p, Generates (layout p)) :
    ∃ samples events, generateJunqi ord tokenizer encode engine layout = .ok (samples, events) ∧
      Tells ord tokenizer engine layout events ∧ ∀ g,
      (samples g).lossMask.length = (samples g).response.length ∧
      (samples g).rolloutLogProbs.length = (samples g).response.length ∧
      (samples g).lossMask.count 1 = (samples g).reward.length ∧
      (samples g).lossMask.count 1 = (samples g).logitsMasks.length ∧
      chosen (samples g).response (samples g).lossMask = (own g events).map Event.action ∧
      (samples g).logitsMasks = (own g events).map (fun e => e.request.logitsMask) ∧
      List.Forall₂ (· ∈ ·) (chosen (samples g).response (samples g).lossMask) (samples g).logitsMasks ∧
      (samples g).reward = credits g events := by
  obtain ⟨s, es, run, tells, recorded⟩ := game_induction ord tokenizer encode engine generates
    (P := fun _ s es => Recorded s es) (fun b _ => recorded_start encode b)
    fun _ _ _ _ _ _ recorded turn => recorded.turn turn
  refine ⟨s.sample, es, run, tells, fun g => ?_⟩
  have count := chosen_length (recorded.lossLength g)
  rw [recorded.chosen g, List.length_map] at count
  rw [sample_response]
  refine ⟨recorded.lossLength g, recorded.probsLength g, ?_, ?_, recorded.chosen g, recorded.logits g, ?_,
    recorded.rewards g⟩
  · show (s.lossMask g).count 1 = (s.rewardList g).length
    rw [recorded.rewards, credits_length, ← count]
  · show (s.lossMask g).count 1 = (s.logitsMasks g).length
    rw [recorded.logits, List.length_map, ← count]
  · show List.Forall₂ _ (chosen s.buffer (s.lossMask g)) (s.logitsMasks g)
    rw [recorded.chosen, recorded.logits, List.forall₂_map_left_iff, List.forall₂_map_right_iff, List.forall₂_same]
    exact fun e mem => recorded.legal e (List.mem_of_mem_filter mem)

theorem samples_match_game_first : ∃ samples events,
    generateJunqi tableOrder none (fun _ => []) (.scripted fun _ => 157599) (fun _ => firstLayout) =
      .ok (samples, events) ∧
      Tells tableOrder none (.scripted fun _ => 157599) (fun _ => firstLayout) events ∧ ∀ g,
      (samples g).lossMask.length = (samples g).response.length ∧
      (samples g).rolloutLogProbs.length = (samples g).response.length ∧
      (samples g).lossMask.count 1 = (samples g).reward.length ∧
      (samples g).lossMask.count 1 = (samples g).logitsMasks.length ∧
      chosen (samples g).response (samples g).lossMask = (own g events).map Event.action ∧
      (samples g).logitsMasks = (own g events).map (fun e => e.request.logitsMask) ∧
      List.Forall₂ (· ∈ ·) (chosen (samples g).response (samples g).lossMask) (samples g).logitsMasks ∧
      (samples g).reward = credits g events :=
  samples_match_game tableOrder none (fun _ => []) (.scripted fun _ => 157599) fun _ => firstLayout_generates

end SlimeBoard
