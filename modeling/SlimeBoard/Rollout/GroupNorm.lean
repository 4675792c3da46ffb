import SlimeBoard.Lib.Moments
import SlimeBoard.Lib.Rows
import SlimeBoard.Rollout.TrainData

/-!
# Rewards relative to their group

`_post_process_rewards` takes the rewards in rows and subtracts from each the mean of its row: rows of
`n_samples_per_prompt` if that many for each prompt are there, else one row of everything. The samples
of a row are those of a group if and only if the positions say so.
-/

namespace SlimeBoard

open SlimeTypes (Value)

/-- What the code relies on of `std`. -/
structure Deviation (std : List ℚ → ℚ) : Prop where
  nonneg : ∀ xs, 2 ≤ xs.length → 0 ≤ std xs
  shift : ∀ xs c, 2 ≤ xs.length → std (xs.map (· - c)) = std xs

variable {Obj : Type} (args : ManagerArgs Obj)

/-- The rewards of the samples of a group. -/
def groupRewards (groups : List (Option Int)) (rewards : List ℚ) (group : Option Int) : List ℚ :=
  ((groups.zip rewards).filter fun p => decide (p.1 = group)).map Prod.snd

/-- A reward relative to the rewards of its group. -/
def relative (group : List ℚ) (reward : ℚ) : ℚ :=
  if args.grpoStdNormalization then (reward - Moments.mean group) / (args.std group + 1 / 1000000)
  else reward - Moments.mean group

/-- Each reward relative to its group. -/
def groupNormalized (groups : List (Option Int)) (rewards : List ℚ) : List ℚ :=
  (groups.zip rewards).map fun p => relative args (groupRewards groups rewards p.1) p.2

/-- The samples have these rewards. -/
def Rewarded (samples : List (SlimeTypes.Sample Obj)) (raw : List (Value Obj)) (rewards : List ℚ) : Prop :=
  samples.mapM (·.getRewardValue args.rewardKey) = .ok raw ∧
    List.Forall₂ (fun value reward => floatTensor value = .ok ([reward], [])) raw rewards

/-- Samples of these groups, whatever their rewards, have them normalized by group. -/
def NormalizesByGroup (groups : List (Option Int)) : Prop :=
  ∀ samples raw rewards, samples.map (·.groupIndex) = groups → Rewarded args samples raw rewards →
    postProcessRewards args samples = .ok (raw, (groupNormalized args groups rewards).map .float)

/-- The size of the rows of `size` rewards. -/
def rowSize (size : Nat) : Nat := if size = args.nSamplesPerPrompt * args.rolloutBatchSize then args.nSamplesPerPrompt else size

/-- Two samples are of one group if and only if they are in one row. -/
def RowsAreGroups (groups : List (Option Int)) : Prop :=
  ∀ i < groups.length, ∀ j < groups.length,
    (groups[i]? = groups[j]? ↔ i / rowSize args groups.length = j / rowSize args groups.length)

instance (groups : List (Option Int)) : Decidable (RowsAreGroups args groups) := by
  unfold RowsAreGroups
  infer_instance

/-- The estimators that normalize by group. -/
structure GroupRelative : Prop where
  plain : args.customRewardPostProcess = none
  estimator : args.advantageEstimator ∈ ["grpo", "gspo"]
  normalizes : args.rewardsNormalization = true

variable {args}

section Code

variable {samples : List (SlimeTypes.Sample Obj)} {raw : List (Value Obj)} {rewards : List ℚ}

/-- What `torch.tensor` makes of numbers. -/
theorem floatTensor_numbers (numbers : List.Forall₂ (fun value reward => floatTensor value = .ok ([reward], [])) raw rewards)
    (some : rewards ≠ []) : floatTensor (Value.list raw) = .ok (rewards, [rewards.length]) := by
  have parts : floatTensors raw = .ok (rewards.map fun reward => ([reward], [])) := by
    clear some
    induction numbers with
    | nil => rfl
    | cons head _ ih =>
      rw [floatTensors, head, Py.ok_bind, ih, Py.ok_bind]
      rfl
  obtain ⟨reward, rest, rfl⟩ := List.exists_cons_of_ne_nil some
  have flat : ∀ rewards : List ℚ, (rewards.map fun reward => ([reward], ([] : List Nat))).flatMap (·.1) = rewards := fun rewards => by
    induction rewards with
    | nil => rfl
    | cons reward rest ih => rw [List.map_cons, List.flatMap_cons, ih]; rfl
  have same : ((reward :: rest).map fun reward => ([reward], ([] : List Nat))).all (fun part => decide (part.2 = [])) = true :=
    List.all_eq_true.2 fun part mem => by
      obtain ⟨_, _, rfl⟩ := List.mem_map.1 mem
      rfl
  rw [floatTensor, parts, Py.ok_bind]
  rw [List.map_cons] at same ⊢
  refine (if_pos same).trans ?_
  have flat := flat (reward :: rest)
  rw [List.map_cons] at flat
  rw [flat, List.length_cons, List.length_map]
  rfl

/-- **The code normalizes row by row.** -/
theorem postProcessRewards_rows (relative : GroupRelative args) (rewarded : Rewarded args samples raw rewards) (some : rewards ≠ []) :
    postProcessRewards args samples =
      .ok (raw, ((rewards.toChunks (rowSize args rewards.length)).flatMap (normalizeRow args)).map .float) := by
  have estimator : args.advantageEstimator ∈ ["grpo", "gspo", "reinforce_plus_plus_baseline"] ∧ args.rewardsNormalization :=
    ⟨List.mem_append_left ["reinforce_plus_plus_baseline"] relative.estimator, relative.normalizes⟩
  have size : rewards.length ≠ 0 := (List.length_pos_iff.2 some).ne'
  rw [postProcessRewards, relative.plain]
  dsimp only
  rw [rewarded.1, Py.ok_bind, if_pos estimator, floatTensor_numbers rewarded.2 some, Py.ok_bind]
  by_cases full : rewards.length = args.nSamplesPerPrompt * args.rolloutBatchSize
  · rw [rowSize, if_pos full]
    exact if_pos full
  · rw [rowSize, if_neg full]
    exact (if_neg full).trans (if_neg size)

/-- One row, entry by entry. -/
theorem normalizeRow_eq (relative : GroupRelative args) (deviation : Deviation args.std) (row : List ℚ) :
    normalizeRow args row = row.map (SlimeBoard.relative args row) := by
  unfold normalizeRow SlimeBoard.relative
  by_cases std : args.grpoStdNormalization = true
  · rw [if_pos ⟨relative.estimator, std⟩, List.map_map]
    refine List.map_congr_left fun reward mem => ?_
    dsimp only [Function.comp]
    rw [if_pos std]
    by_cases several : 2 ≤ row.length
    · rw [deviation.shift row _ several, Moments.mean]
    · -- a row of one has nothing to divide
      obtain ⟨other, rfl⟩ : ∃ other, row = [other] :=
        List.length_eq_one_iff.1 (Nat.le_antisymm (by omega) (List.length_pos_of_mem mem))
      rw [List.mem_singleton.1 mem]
      simp [Moments.mean]
  · rw [if_neg fun both => std both.2]
    refine List.map_congr_left fun reward _ => ?_
    rw [if_neg std, Moments.mean]

theorem rows_getElem? (relative : GroupRelative args) (deviation : Deviation args.std) {n : Nat} (pos : 0 < n) (rewards : List ℚ)
    (i : Nat) : ((rewards.toChunks n).flatMap (normalizeRow args))[i]? =
      rewards[i]?.map (SlimeBoard.relative args (Rows.row n rewards i)) := by
  have keeps (row : List ℚ) : (normalizeRow args row).length = row.length := by
    rw [normalizeRow_eq relative deviation, List.length_map]
  rw [Rows.flatMap_getElem? pos keeps, normalizeRow_eq relative deviation, List.getElem?_map, Rows.row_getElem? pos]

theorem groupNormalized_getElem? {groups : List (Option Int)} {i : Nat} {group : Option Int} (length : groups.length = rewards.length)
    (here : groups[i]? = some group) :
    (groupNormalized args groups rewards)[i]? = rewards[i]?.map (relative args (groupRewards groups rewards group)) := by
  obtain ⟨lt, rfl⟩ := List.getElem?_eq_some_iff.1 here
  rw [groupNormalized, List.getElem?_map, List.getElem?_eq_getElem (by rw [List.length_zip]; omega),
    List.getElem?_eq_getElem (length ▸ lt), List.getElem_zip]
  rfl

/-- A reward of 0 stays where the others of its group are 0 too, and moves where one is more. -/
theorem relative_zero (deviation : Deviation args.std) {group : List ℚ} (nonneg : ∀ x ∈ group, 0 ≤ x) (mem : 0 ∈ group) :
    relative args group 0 = 0 ↔ ∀ x ∈ group, x = 0 := by
  have size : (group.length : ℚ) ≠ 0 := Nat.cast_ne_zero.2 (List.length_pos_of_mem mem).ne'
  have mean : 0 - Moments.mean group = 0 ↔ ∀ x ∈ group, x = 0 := by
    rw [zero_sub, neg_eq_zero, Moments.mean, div_eq_zero_iff, or_iff_left size]
    exact ⟨List.all_zero_of_le_zero_le_of_sum_eq_zero nonneg, List.sum_eq_zero⟩
  unfold relative
  split
  · by_cases several : 2 ≤ group.length
    · have positive := deviation.nonneg group several
      rw [div_eq_zero_iff, or_iff_left (by positivity), mean]
    · obtain ⟨other, rfl⟩ : ∃ other, group = [other] :=
        List.length_eq_one_iff.1 (Nat.le_antisymm (by omega) (List.length_pos_of_mem mem))
      obtain rfl := List.mem_singleton.1 mem
      simp [Moments.mean]
  · exact mean

theorem mem_groupRewards {groups : List (Option Int)} {group : Option Int} {x : ℚ} :
    x ∈ groupRewards groups rewards group ↔ ∃ j : Nat, groups[j]? = some group ∧ rewards[j]? = some x := by
  unfold groupRewards
  rw [List.mem_map]
  constructor
  · rintro ⟨p, mem, rfl⟩
    obtain ⟨mem, same⟩ := List.mem_filter.1 mem
    obtain ⟨j, here⟩ := List.mem_iff_getElem?.1 mem
    obtain ⟨label, value⟩ := List.getElem?_zip_eq_some.1 here
    exact ⟨j, of_decide_eq_true same ▸ label, value⟩
  · rintro ⟨j, label, value⟩
    exact ⟨(group, x), List.mem_filter.2 ⟨List.mem_of_getElem? (List.getElem?_zip_eq_some.2 ⟨label, value⟩), decide_eq_true rfl⟩, rfl⟩

theorem rowSize_pos {size : Nat} (pos : 0 < size) : 0 < rowSize args size := by
  unfold rowSize
  split
  · exact args.nSamplesPerPrompt.pos
  · exact pos

/-- Where the rows are the groups, every batch is normalized by group. -/
theorem RowsAreGroups.normalizes {groups : List (Option Int)} (relative : GroupRelative args) (deviation : Deviation args.std)
    (some : groups ≠ []) (rows : RowsAreGroups args groups) : NormalizesByGroup args groups := by
  intro samples raw rewards labels rewarded
  have length : groups.length = rewards.length := by
    obtain ⟨got, numbers⟩ := rewarded
    rw [← labels, List.length_map, ← numbers.length_eq]
    exact (mapM_forall₂.1 got).length_eq
  have pos : 0 < rewards.length := length ▸ List.length_pos_iff.2 some
  rw [postProcessRewards_rows relative rewarded (List.length_pos_iff.1 pos)]
  congr 3
  refine List.ext_getElem? fun i => ?_
  rw [rows_getElem? relative deviation (rowSize_pos pos)]
  cases here : groups[i]? with
  | none =>
    have out : rewards.length ≤ i := length ▸ List.getElem?_eq_none_iff.1 here
    rw [List.getElem?_eq_none out, List.getElem?_eq_none (by rw [groupNormalized, List.length_map, List.length_zip]; omega)]
    rfl
  | some group =>
    have lt := (List.getElem?_eq_some_iff.1 here).1
    rw [groupNormalized_getElem? length here, groupRewards, Rows.filter_zip (i := i) (rowSize_pos pos) length fun j l label => ?_]
    have both := rows j (List.getElem?_eq_some_iff.1 label).1 i lt
    rw [label, here, Option.some.injEq] at both
    exact length ▸ both

/-- The samples with other rewards. -/
def withRewards (rewardKey : Option String) (samples : List (SlimeTypes.Sample Obj)) (rewards : List ℚ) :
    List (SlimeTypes.Sample Obj) :=
  (samples.zip rewards).map fun p =>
    { p.1 with
      reward := match rewardKey with
        | none => .float p.2
        | some key => if key = "" then .float p.2 else .dict [(key, .float p.2)] }

theorem withRewards_rewarded (length : samples.length = rewards.length) :
    Rewarded args (withRewards args.rewardKey samples rewards) (rewards.map .float) rewards := by
  constructor
  · have values : (rewards.map Value.float : List (Value Obj)) = (samples.zip rewards).map fun p => .float p.2 := by
      have seconds : (samples.zip rewards).map Prod.snd = rewards := List.map_snd_zip (by omega)
      conv_lhs => rw [← seconds, List.map_map]
      rfl
    rw [withRewards, List.mapM_map, values]
    refine mapM_ok _ fun p _ => ?_
    cases key : args.rewardKey with
    | none => rfl
    | some name =>
      by_cases empty : name = ""
      · simp [Function.comp, SlimeTypes.Sample.getRewardValue, empty]
      · simp [Function.comp, SlimeTypes.Sample.getRewardValue, empty, Value.item, List.lookup]
  · rw [List.forall₂_map_left_iff, List.forall₂_same]
    exact fun reward _ => rfl

/-- Where every batch is normalized by group, the rows are the groups. -/
theorem rowsAreGroups_of (relative : GroupRelative args) (deviation : Deviation args.std) (samples : List (SlimeTypes.Sample Obj))
    (normalizes : NormalizesByGroup args (samples.map (·.groupIndex))) : RowsAreGroups args (samples.map (·.groupIndex)) := by
  intro i ilt j jlt
  have length : (samples.map (·.groupIndex)).length = samples.length := List.length_map ..
  rcases eq_or_ne i j with rfl | differ
  · exact iff_of_true rfl rfl
  -- one sample of reward 1, in the row of `i` or not, in the group of `i` or not
  let rewards : List ℚ := (List.range samples.length).map fun k => if k = j then 1 else 0
  have many : rewards.length = samples.length := by rw [List.length_map, List.length_range]
  have value (k : Nat) (lt : k < samples.length) : rewards[k]? = some (if k = j then 1 else 0) := by
    rw [List.getElem?_map, List.getElem?_range lt]
    rfl
  have entry (k : Nat) (x : ℚ) (here : rewards[k]? = some x) : k < samples.length ∧ x = if k = j then 1 else 0 := by
    have lt : k < samples.length := many ▸ (List.getElem?_eq_some_iff.1 here).1
    exact ⟨lt, (Option.some.inj ((value k lt).symm.trans here)).symm⟩
  -- a list of the rewards of some places is all zero if the place of the 1 is none of them
  have spot {places : Nat → Prop} {part : List ℚ} (mem : ∀ x, x ∈ part ↔ ∃ k, places k ∧ rewards[k]? = some x) :
      (∀ x ∈ part, 0 ≤ x) ∧ ((∀ x ∈ part, x = 0) ↔ ¬places j) := by
    refine ⟨fun x here => ?_, fun all here => ?_, fun none x here => ?_⟩
    · obtain ⟨k, _, here⟩ := (mem x).1 here
      rw [(entry k x here).2]
      split
      · exact zero_le_one
      · exact le_refl 0
    · exact one_ne_zero (all 1 ((mem 1).2 ⟨j, here, by rw [value j (by omega), if_pos rfl]⟩))
    · obtain ⟨k, here, at'⟩ := (mem x).1 here
      rw [(entry k x at').2, if_neg fun (same : k = j) => none (same ▸ here)]
  have labels : (withRewards args.rewardKey samples rewards).map (·.groupIndex) = samples.map (·.groupIndex) := by
    rw [withRewards, List.map_map]
    have firsts : (samples.zip rewards).map Prod.fst = samples := List.map_fst_zip (by omega)
    conv_rhs => rw [← firsts, List.map_map]
    rfl
  have rewarded : Rewarded args (withRewards args.rewardKey samples rewards) (rewards.map .float) rewards :=
    withRewards_rewarded many.symm
  have nonempty : rewards ≠ [] := List.length_pos_iff.1 (by omega)
  have ran := normalizes _ _ _ labels rewarded
  rw [postProcessRewards_rows relative rewarded nonempty] at ran
  have same := List.map_injective_iff.2 (fun _ _ => Value.float.inj) (Prod.mk.inj (Except.ok.inj ran)).2
  rw [many, ← length] at same
  set n := rowSize args (samples.map (·.groupIndex)).length with cut
  have pos : 0 < n := rowSize_pos (by omega)
  obtain ⟨group, here⟩ : ∃ group, (samples.map (·.groupIndex))[i]? = some group := ⟨_, List.getElem?_eq_getElem ilt⟩
  have zero : rewards[i]? = some 0 := by rw [value i (by omega), if_neg differ]
  have equal := congrArg (fun xs : List ℚ => xs[i]?) same
  rw [rows_getElem? relative deviation pos, groupNormalized_getElem? (length.trans many.symm) here, zero, Option.map_some,
    Option.map_some, Option.some.injEq] at equal
  obtain ⟨nonneg, inRow⟩ := spot fun x => (Rows.mem_row pos : x ∈ Rows.row n rewards i ↔ _)
  obtain ⟨nonneg', inGroup⟩ := spot fun x => (mem_groupRewards : x ∈ groupRewards (samples.map (·.groupIndex)) rewards group ↔ _)
  have inRow := (relative_zero deviation nonneg (Rows.mem_row pos |>.2 ⟨i, rfl, zero⟩)).trans inRow
  have inGroup := (relative_zero deviation nonneg' (mem_groupRewards.2 ⟨i, here, zero⟩)).trans inGroup
  rw [equal, inGroup, not_iff_not] at inRow
  rw [here, eq_comm, inRow, eq_comm]

theorem flattenData_ne_nil {α : Type} {depth : Nat} {data : List (NestedList α depth)} {flat : List α}
    (done : flattenData depth data = .ok flat) : flat ≠ [] := by
  induction depth with
  | zero =>
    rw [flattenData] at done
    split at done
    · cases done
    · rename_i nonempty
      rw [← Except.ok.inj done]
      exact fun empty => nonempty (by rw [empty]; rfl)
  | succ depth ih =>
    rw [flattenData] at done
    split at done
    · cases done
    · exact ih done

theorem getRolloutData_ne_nil {size : Option Nat} {depth : Nat} {data : List (NestedList (SlimeTypes.Sample Obj) depth)}
    (got : (getRolloutData args size (.generated depth data)).1 = .ok samples) : samples ≠ [] := by
  rw [getRolloutData] at got
  split at got
  · cases got
  · rename_i flat done
    have some := flattenData_ne_nil done
    split at got
    · dsimp only at got
      generalize (if args.useDynamicGlobalBatchSize = true then _ else (args.globalBatchSize : Nat)) = batch at got
      split at got
      · split at got
        · cases got
        · rename_i trims
          rw [← Except.ok.inj got]
          exact fun empty => (List.take_eq_nil_iff.1 empty).elim trims some
      · exact Except.ok.inj got ▸ some
    · exact Except.ok.inj got ▸ some

/-- **The rewards of a rollout are normalized by group, whatever they are, if and only if two of its
samples are of one group exactly if they are in one row.** -/
theorem normalizes_iff (relative : GroupRelative args) (deviation : Deviation args.std) {size : Option Nat} {depth : Nat}
    {data : List (NestedList (SlimeTypes.Sample Obj) depth)}
    (got : (getRolloutData args size (.generated depth data)).1 = .ok samples) :
    NormalizesByGroup args (samples.map (·.groupIndex)) ↔ RowsAreGroups args (samples.map (·.groupIndex)) := by
  have some : samples.map (·.groupIndex) ≠ [] := mt List.map_eq_nil_iff.1 (getRolloutData_ne_nil got)
  exact ⟨rowsAreGroups_of relative deviation samples, RowsAreGroups.normalizes relative deviation some⟩

end Code

/-- Two samples for each of two prompts. -/
def twoEach (globalBatchSize : ℕ+) : ManagerArgs Unit where
  rewardKey := none
  advantageEstimator := "grpo"
  rewardsNormalization := true
  grpoStdNormalization := true
  nSamplesPerPrompt := Nat.succPNat 1
  rolloutBatchSize := 2
  globalBatchSize := globalBatchSize
  dpSize := Nat.succPNat 0
  useDynamicGlobalBatchSize := false
  disableRolloutTrimSamples := false
  debugRolloutOnly := false
  balanceData := false
  customRewardPostProcess := none
  customConvertSamplesToTrainData := none
  std xs := Rat.sqrt (Moments.variance xs)
  seqlenBalancedPartitions _ _ := .error .valueError

theorem sqrt_deviation : Deviation fun xs => Rat.sqrt (Moments.variance xs) where
  nonneg := fun xs _ => Rat.sqrt_nonneg _
  shift := fun xs c several => by
    rw [Moments.variance_sub (List.length_pos_iff.1 (Nat.lt_of_lt_of_le Nat.two_pos several))]

theorem twoEach_relative (globalBatchSize : ℕ+) : GroupRelative (twoEach globalBatchSize) :=
  ⟨rfl, List.mem_cons_self .., rfl⟩

/-- A batch of four keeps both groups. -/
theorem normalizes_iff_four : ∃ samples,
    (getRolloutData (twoEach (Nat.succPNat 3)) none (.generated 1 twoGroups)).1 = .ok samples ∧
      (NormalizesByGroup (twoEach (Nat.succPNat 3)) (samples.map (·.groupIndex)) ↔
        RowsAreGroups (twoEach (Nat.succPNat 3)) (samples.map (·.groupIndex))) :=
  ⟨_, rfl, @normalizes_iff Unit (twoEach (Nat.succPNat 3)) _ (twoEach_relative _) sqrt_deviation none 1 twoGroups rfl⟩

/-- A batch of three has the first two samples and the third in one row. -/
theorem not_normalizes_three : ∃ samples,
    (getRolloutData (twoEach (Nat.succPNat 2)) none (.generated 1 twoGroups)).1 = .ok samples ∧
      ¬NormalizesByGroup (twoEach (Nat.succPNat 2)) (samples.map (·.groupIndex)) := by
  refine ⟨_, rfl, fun normalizes => ?_⟩
  have rows := rowsAreGroups_of (twoEach_relative _) sqrt_deviation _ normalizes
  exact absurd rows (by decide)

end SlimeBoard
