import SlimeBoard.Train.Slices

/-!
# Token rewards of scalar-reward PPO

`compute_advantages_and_returns` adds the scalar reward of a sample to the last entry of
the slice on context-parallel rank 0, wherever in the response that entry is.
-/

namespace SlimeBoard

open Cp Collective

/-- A sample with its scalar reward and its KL vector over the whole response. -/
structure RewardedSample extends Lengths where
  reward : ℚ
  kl : List ℚ
  whole : kl.length = responseLength

section Code

/-- `k[-1] += reward` -/
def addLast (k : List ℚ) (reward : ℚ) : Py (List ℚ) :=
  match k.getLast? with
  | none => .error .indexError
  | some last => .ok (k.dropLast ++ [last + reward])

/-- The body of the loop over `zip(old_rewards, kl)`. -/
def tokenReward {n : Nat} (rank : Fin n) (klCoef reward : ℚ) (k : List ℚ) : Py (List ℚ) :=
  let k := k.map (· * klCoef)
  if rank.val = 0 then addLast k reward else .ok k

def tokenRewards {n : Nat} (rank : Fin n) (klCoef : ℚ) (oldRewards : List ℚ) (kl : List (List ℚ)) : Py (List (List ℚ)) :=
  let klCoef := -klCoef
  (oldRewards.zip kl).mapM fun (reward, k) => tokenReward rank klCoef reward k

end Code

namespace RewardedSample

/-- `-kl_coef * kl[t]`, and the reward at the last response token. -/
def expected (s : RewardedSample) (klCoef : ℚ) : List ℚ :=
  (List.range s.responseLength).map fun k => -klCoef * s.kl.getD k 0 + if k + 1 = s.responseLength then s.reward else 0

/-- Rank 0 has the last response token, or the reward is 0 and rank 0 has some token. -/
def Lands (n : Nat) (s : RewardedSample) : Prop :=
  s.Owns n 0 (s.responseLength - 1) ∨ s.reward = 0 ∧ ∃ k < s.responseLength, s.Owns n 0 k

instance (n : Nat) (s : RewardedSample) : Decidable (s.Lands n) := inferInstanceAs (Decidable (_ ∨ _))

/-- The token rewards when the reward goes to token `last`. -/
def landed (s : RewardedSample) (klCoef : ℚ) (last : Nat) : List ℚ :=
  (List.range s.responseLength).map fun k => -klCoef * s.kl.getD k 0 + if k = last then s.reward else 0

end RewardedSample

/-- The ranks' slices of the KL vectors give token rewards without an exception, and the
gather of each sample's has the reward at the last response token. -/
def TerminalRewards (n : Nat) (klCoef : ℚ) (samples : List RewardedSample) : Prop :=
  ∃ kl rewards : Fin n → List (List ℚ),
    (∀ rank, samples.mapM (fun s => sliceLogProbWithCp rank s.kl s.totalLength s.responseLength .thd none) = .ok (kl rank)) ∧
    (∀ rank, tokenRewards rank klCoef (samples.map (·.reward)) (kl rank) = .ok (rewards rank)) ∧
    ∀ (i : Nat) (s : RewardedSample), samples[i]? = some s → ∃ part : Fin n → List ℚ,
      (∀ rank, (rewards rank)[i]? = some (part rank)) ∧
      allGatherWithCp part s.totalLength s.responseLength = .ok fun _ => s.expected klCoef

namespace RewardedSample

theorem addLast_map {front : List Nat} {last : Nat} (distinct : (front ++ [last]).Nodup) (f : Nat → ℚ) (reward : ℚ) :
    addLast ((front ++ [last]).map f) reward =
      .ok ((front ++ [last]).map fun k => f k + if k = last then reward else 0) := by
  have other : ∀ k ∈ front, k ≠ last := fun k mem => (List.nodup_append.1 distinct).2.2 k mem _ (List.mem_singleton_self _)
  unfold addLast
  rw [List.map_append, List.map_singleton, List.getLast?_concat, List.dropLast_concat, List.map_append, List.map_singleton]
  dsimp only
  rw [if_pos rfl]
  refine congrArg (fun xs => Except.ok (xs ++ _)) (List.map_congr_left fun k mem => ?_)
  rw [if_neg (other k mem), add_zero]

theorem kl_range (s : RewardedSample) : s.kl = (List.range s.responseLength).map fun k => s.kl.getD k 0 := by
  rw [← s.whole, map_range_getD]

/-- **The slices that the ranks get are those of one token reward vector.** -/
theorem tokenReward_eq {n : Nat} (rank : Fin n) (klCoef : ℚ) (s : RewardedSample) {front : List Nat} {last : Nat}
    (owned : s.owned n 0 = front ++ [last]) :
    tokenReward rank (-klCoef) s.reward (s.part n rank.val s.kl) = .ok (s.part n rank.val (s.landed klCoef last)) := by
  have scaled : (s.part n rank.val s.kl).map (· * -klCoef) =
      (s.owned n rank.val).map fun k => -klCoef * s.kl.getD k 0 := by
    rw [← Lengths.part_map, kl_range, List.map_map, ← s.part_range rank.isLt]
    refine congrArg _ (List.map_congr_left fun k mem => ?_)
    rw [Function.comp_apply, mul_comm, getD_map_range _ (List.mem_range.1 mem)]
  unfold tokenReward
  dsimp only
  rw [scaled, landed, s.part_range rank.isLt]
  split
  · rename_i first
    have distinct := s.owned_nodup n 0
    rw [first, owned] at *
    exact addLast_map distinct _ _
  · rename_i other
    refine congrArg Except.ok (List.map_congr_left fun k mem => ?_)
    have elsewhere : k ≠ last := by
      rintro rfl
      have mine := (Lengths.mem_owned.1 mem).2
      have first := (Lengths.mem_owned.1 (owned ▸ List.mem_append_right front (List.mem_singleton_self k))).2
      exact other (mine.unique rank.isLt (Nat.zero_lt_of_lt rank.isLt) first)
    rw [if_neg elsewhere, add_zero]

theorem length_landed (s : RewardedSample) (klCoef : ℚ) (last : Nat) : (s.landed klCoef last).length = s.responseLength := by
  rw [landed, List.length_map, List.length_range]

/-- The reward is in its place, or it is 0. -/
theorem landed_eq_iff (s : RewardedSample) (klCoef : ℚ) {last : Nat} (inside : last < s.responseLength) :
    s.landed klCoef last = s.expected klCoef ↔ last + 1 = s.responseLength ∨ s.reward = 0 := by
  unfold landed expected
  constructor
  · intro same
    have entry := congrArg (List.getD · last 0) same
    rw [getD_map_range _ inside, getD_map_range _ inside, if_pos rfl, add_right_inj] at entry
    by_cases place : last + 1 = s.responseLength
    · exact Or.inl place
    · rw [if_neg place] at entry
      exact Or.inr entry
  · intro lands
    refine List.map_congr_left fun k _ => ?_
    rcases lands with place | zero
    · rw [← place]
      simp only [Nat.add_right_cancel_iff]
    · rw [zero, ite_self, ite_self]

/-- The last token of rank 0 is the last of the response if rank 0 has that. -/
theorem last_owned_iff (s : RewardedSample) {n : Nat} {front : List Nat} {last : Nat} (owned : s.owned n 0 = front ++ [last]) :
    last + 1 = s.responseLength ↔ s.Owns n 0 (s.responseLength - 1) := by
  have positive := s.nonempty
  have mem : last ∈ s.owned n 0 := owned ▸ List.mem_append_right front (List.mem_singleton_self last)
  have bound := Lengths.mem_owned.1 mem
  constructor
  · intro place
    rw [← place, Nat.add_sub_cancel]
    exact bound.2
  · intro owns
    have sorted := s.owned_sorted n 0
    have here : s.responseLength - 1 ∈ s.owned n 0 := Lengths.mem_owned.2 ⟨by omega, owns⟩
    rw [owned] at sorted here
    rcases List.mem_append.1 here with before | same
    · have := (List.pairwise_append.1 sorted).2.2 _ before last (List.mem_singleton_self last)
      omega
    · have := List.mem_singleton.1 same
      omega

end RewardedSample

section Batch

variable {n : Nat} {klCoef : ℚ} {samples : List RewardedSample}

theorem slices_eq (rank : Fin n) (samples : List RewardedSample) :
    samples.mapM (fun s => sliceLogProbWithCp rank s.kl s.totalLength s.responseLength .thd none) =
      .ok (samples.map fun s => s.part n rank.val s.kl) :=
  mapM_ok samples fun s _ => s.slice_eq rank s.whole

theorem tokenRewards_eq (rank : Fin n) (klCoef : ℚ) (samples : List RewardedSample) :
    tokenRewards rank klCoef (samples.map (·.reward)) (samples.map fun s => s.part n rank.val s.kl) =
      samples.mapM fun s => tokenReward rank (-klCoef) s.reward (s.part n rank.val s.kl) := by
  unfold tokenRewards
  rw [List.zip_map', List.mapM_map]
  rfl

/-- A successful run, sample by sample. -/
theorem TerminalRewards.sample (terminal : TerminalRewards n klCoef samples) {s : RewardedSample} (mem : s ∈ samples) :
    ∃ part : Fin n → List ℚ, (∀ rank, tokenReward rank (-klCoef) s.reward (s.part n rank.val s.kl) = .ok (part rank)) ∧
      allGatherWithCp part s.totalLength s.responseLength = .ok fun _ => s.expected klCoef := by
  obtain ⟨kl, rewards, slices, run, gathered⟩ := terminal
  obtain ⟨i, found⟩ := List.mem_iff_getElem?.1 mem
  obtain ⟨part, parts, whole⟩ := gathered i s found
  refine ⟨part, fun rank => ?_, whole⟩
  have sliced := Except.ok.inj ((slices_eq rank samples).symm.trans (slices rank))
  have each := run rank
  rw [← sliced, tokenRewards_eq] at each
  obtain ⟨value, here, done⟩ := mapM_getElem? each found
  rw [parts rank, Option.some.injEq] at here
  rw [here]
  exact done

theorem TerminalRewards.lands (ranks : 0 < n) (terminal : TerminalRewards n klCoef samples) {s : RewardedSample}
    (mem : s ∈ samples) : s.Lands n := by
  obtain ⟨part, mine, whole⟩ := terminal.sample mem
  rcases List.eq_nil_or_concat (s.owned n 0) with none | ⟨front, last, owned⟩
  · -- rank 0 has no last entry to add to
    have first := mine ⟨0, ranks⟩
    have empty : s.part n 0 s.kl = [] := by
      rw [s.kl_range, s.part_range ranks, none, List.map_nil]
    rw [empty] at first
    cases first
  · rw [List.concat_eq_append] at owned
    have bound : last ∈ s.owned n 0 := owned ▸ List.mem_append_right front (List.mem_singleton_self last)
    obtain ⟨inside, owns⟩ := Lengths.mem_owned.1 bound
    have same : part = fun rank : Fin n => s.part n rank.val (s.landed klCoef last) :=
      funext fun rank => Except.ok.inj ((mine rank).symm.trans (s.tokenReward_eq rank klCoef owned))
    rw [same, s.gather_eq ranks (s.length_landed klCoef last), Except.ok.injEq] at whole
    rcases (s.landed_eq_iff klCoef inside).1 (congrFun whole ⟨0, ranks⟩) with place | zero
    · exact Or.inl ((s.last_owned_iff owned).1 place)
    · exact Or.inr ⟨zero, last, inside, owns⟩

/-- The last token of rank 0. -/
theorem RewardedSample.Lands.owned {s : RewardedSample} (lands : s.Lands n) :
    ∃ front, s.owned n 0 = front ++ [(s.owned n 0).getLastD 0] := by
  have some : ∃ k < s.responseLength, s.Owns n 0 k := by
    rcases lands with owns | ⟨_, owns⟩
    · exact ⟨_, Nat.sub_lt s.nonempty Nat.one_pos, owns⟩
    · exact owns
  obtain ⟨k, inside, owns⟩ := some
  rcases List.eq_nil_or_concat (s.owned n 0) with none | ⟨front, last, owned⟩
  · have mem := Lengths.mem_owned.2 ⟨inside, owns⟩
    rw [none] at mem
    cases mem
  · rw [List.concat_eq_append] at owned
    refine ⟨front, ?_⟩
    rw [owned, List.getLastD_concat]

theorem RewardedSample.Lands.landed_eq {s : RewardedSample} (lands : s.Lands n) (klCoef : ℚ) :
    s.landed klCoef ((s.owned n 0).getLastD 0) = s.expected klCoef := by
  obtain ⟨front, owned⟩ := lands.owned
  generalize (s.owned n 0).getLastD 0 = last at owned ⊢
  have mem : last ∈ s.owned n 0 := owned ▸ List.mem_append_right front (List.mem_singleton_self last)
  refine (s.landed_eq_iff klCoef (Lengths.mem_owned.1 mem).1).2 ?_
  rcases lands with owns | ⟨zero, _⟩
  · exact Or.inl ((s.last_owned_iff owned).2 owns)
  · exact Or.inr zero

/-- **The reward lands on the last token of every sample exactly when rank 0 has it.** -/
theorem terminal_rewards_iff (ranks : 0 < n) : TerminalRewards n klCoef samples ↔ ∀ s ∈ samples, s.Lands n := by
  refine ⟨fun terminal s mem => terminal.lands ranks mem, fun lands => ?_⟩
  let last (s : RewardedSample) : Nat := (s.owned n 0).getLastD 0
  refine ⟨_, fun rank => samples.map fun s => s.part n rank.val (s.landed klCoef (last s)), fun rank => slices_eq rank samples,
    fun rank => ?_, fun i s found => ⟨fun rank => s.part n rank.val (s.landed klCoef (last s)), fun rank => ?_, ?_⟩⟩
  · rw [tokenRewards_eq]
    refine mapM_ok samples fun s mem => ?_
    obtain ⟨front, owned⟩ := (lands s mem).owned
    exact s.tokenReward_eq rank klCoef owned
  · rw [List.getElem?_map, found]
    rfl
  · rw [s.gather_eq ranks (s.length_landed klCoef _), (lands s (List.mem_of_getElem? found)).landed_eq]

/-- Rank 1 has the last of five response tokens after a prompt of two. -/
def shortRewarded : RewardedSample where
  totalLength := 7
  responseLength := 5
  nonempty := by decide
  shorter := by decide
  reward := 1
  kl := [0, 0, 0, 0, 0]
  whole := rfl

theorem terminal_rewards_iff_short : TerminalRewards 2 0 [shortRewarded] ↔ ∀ s ∈ [shortRewarded], s.Lands 2 :=
  terminal_rewards_iff (by decide)

theorem terminal_reward_missed : ¬ TerminalRewards 2 0 [shortRewarded] := by
  intro terminal
  have lands := terminal.lands (by decide) (List.mem_singleton_self shortRewarded)
  revert lands
  decide

end Batch

end SlimeBoard
