import SlimeBoard.Lib.Moments
import SlimeBoard.Lib.PyDict

/-!
# Pass rates

`compute_pass_rate` estimates for each group of samples the probability that `k` of them, drawn
without replacement, have a correct one among them.
-/

namespace SlimeBoard.PassRate

/-- `estimator`, in exact arithmetic; the product is over `arange(n - c + 1, n + 1)`. -/
def estimator (n c k : Nat) : ℚ :=
  if n - c < k then 1
  else 1 - ((List.range' (n - c + 1) (n + 1 - (n - c + 1))).map fun i : Nat => 1 - (k : ℚ) / (i : ℚ)).prod

def estimatePassAtK (numSamples numCorrect : List Nat) (k : Nat) : List ℚ :=
  (numSamples.zip numCorrect).map fun p => estimator p.1 p.2 k

/-- `np.mean`, which is not a number if there are none. -/
def npMean (xs : List ℚ) : Option ℚ := if xs.isEmpty then none else some (Moments.mean xs)

/-- `rewards_of_group` -/
def rewardsOfGroup (flatRewards : List ℚ) (numGroups groupSize : Nat) : List (List ℚ) :=
  (List.range numGroups).map fun j => (flatRewards.drop (j * groupSize)).take groupSize

/-- The samples of a group with reward 1. -/
def numCorrect (group : List ℚ) : Nat := group.count 1

/-- `log_dict[f"pass@{k}"]` -/
def passKey (k : Nat) : String := "pass@" ++ toString k

def computePassRate (flatRewards : List ℚ) (groupSize : Nat) (numGroups : Option Nat) : Py (List (String × Option ℚ)) := do
  if groupSize = 1 then return []
  -- neither a division by zero nor a logarithm of it
  if groupSize = 0 then .error .valueError
  let numGroups := numGroups.getD (flatRewards.length / groupSize)
  let passRateNameList := (List.range (Nat.log2 groupSize + 1)).map fun i => 2 ^ i
  pyAssert (decide (flatRewards.length = numGroups * groupSize))
  let rewardsOfGroup := rewardsOfGroup flatRewards numGroups groupSize
  return passRateNameList.map fun k =>
    (passKey k, npMean (estimatePassAtK (List.replicate numGroups groupSize) (rewardsOfGroup.map numCorrect) k))

/-! ## The estimator -/

/-- **The product telescopes** to a ratio of binomial coefficients. -/
theorem prod_telescopes {m k : Nat} (le : k ≤ m) (c : Nat) :
    ((List.range' (m + 1) c).map fun i : Nat => 1 - (k : ℚ) / (i : ℚ)).prod = (m.choose k : ℚ) / ((m + c).choose k : ℚ) := by
  induction c with
  | zero =>
    have some : (m.choose k : ℚ) ≠ 0 := Nat.cast_ne_zero.2 (Nat.choose_pos le).ne'
    rw [List.range'_zero, List.map_nil, List.prod_nil, Nat.add_zero, div_self some]
  | succ c ih =>
    have some : ((m + c).choose k : ℚ) ≠ 0 := Nat.cast_ne_zero.2 (Nat.choose_pos (le.trans (Nat.le_add_right m c))).ne'
    have next : ((m + (c + 1)).choose k : ℚ) ≠ 0 := Nat.cast_ne_zero.2 (Nat.choose_pos (le.trans (Nat.le_add_right m (c + 1)))).ne'
    have last : ((m + c + 1 : Nat) : ℚ) ≠ 0 := Nat.cast_ne_zero.2 (Nat.succ_ne_zero _)
    have step : ((m + c).choose k : ℚ) * ((m + c + 1 : Nat) : ℚ) = ((m + (c + 1)).choose k : ℚ) * (((m + c + 1 : Nat) : ℚ) - k) := by
      have nat := Nat.choose_mul_succ_eq (m + c) k
      rw [← Nat.cast_sub (by omega)]
      exact_mod_cast nat
    rw [List.range'_1_concat, List.map_append, List.prod_append, ih, List.map_singleton, List.prod_singleton,
      Nat.add_right_comm m 1 c, one_sub_div last, div_mul_div_comm, div_eq_div_iff (mul_ne_zero some last) next]
    linear_combination (m.choose k : ℚ) * step.symm

theorem estimator_eq {n c k : Nat} (correct : c ≤ n) :
    estimator n c k = 1 - ((n - c).choose k : ℚ) / (n.choose k : ℚ) := by
  rw [estimator]
  split
  · rename_i few
    rw [Nat.choose_eq_zero_of_lt few, Nat.cast_zero, zero_div, sub_zero]
  · rename_i many
    have size : n + 1 - (n - c + 1) = c := by omega
    have whole : n - c + c = n := Nat.sub_add_cancel correct
    rw [size, prod_telescopes (Nat.le_of_not_lt many), whole]

/-! ## The probability -/

/-- The probability that `k` samples of a group, drawn without replacement, have a correct one among them. -/
def passProbability (group : List ℚ) (k : Nat) : ℚ :=
  (((Finset.univ : Finset (Fin group.length)).powersetCard k).filter fun drawn => ∃ i ∈ drawn, group.get i = 1).card /
    ((Finset.univ : Finset (Fin group.length)).powersetCard k).card

theorem numCorrect_eq (group : List ℚ) :
    numCorrect group = ((Finset.univ : Finset (Fin group.length)).filter fun i => group.get i = 1).card := by
  exact (Fin.card_filter_univ_eq_vector_get_eq_count (1 : ℚ) ⟨group, rfl⟩).symm

theorem numCorrect_le (group : List ℚ) : numCorrect group ≤ group.length := List.count_le_length

/-- The draws without a correct sample. -/
theorem card_wrong (group : List ℚ) (k : Nat) :
    (((Finset.univ : Finset (Fin group.length)).powersetCard k).filter fun drawn => ¬∃ i ∈ drawn, group.get i = 1).card =
      (group.length - numCorrect group).choose k := by
  have wrong : ((Finset.univ : Finset (Fin group.length)).powersetCard k).filter (fun drawn => ¬∃ i ∈ drawn, group.get i = 1) =
      ((Finset.univ : Finset (Fin group.length)).filter fun i => ¬group.get i = 1).powersetCard k := by
    ext drawn
    rw [Finset.mem_filter, Finset.mem_powersetCard, Finset.mem_powersetCard]
    constructor
    · rintro ⟨⟨-, size⟩, none⟩
      refine ⟨fun i mem => Finset.mem_filter.2 ⟨Finset.mem_univ i, fun one => none ⟨i, mem, one⟩⟩, size⟩
    · rintro ⟨subset, size⟩
      refine ⟨⟨Finset.subset_univ drawn, size⟩, ?_⟩
      rintro ⟨i, mem, one⟩
      exact (Finset.mem_filter.1 (subset mem)).2 one
  have split := Finset.card_filter_add_card_filter_not (s := (Finset.univ : Finset (Fin group.length))) fun i => group.get i = 1
  rw [← numCorrect_eq, Finset.card_univ, Fintype.card_fin] at split
  rw [wrong, Finset.card_powersetCard]
  congr 1
  omega

theorem estimator_probability {group : List ℚ} {k : Nat} (le : k ≤ group.length) :
    estimator group.length (numCorrect group) k = passProbability group k := by
  have all : ((Finset.univ : Finset (Fin group.length)).powersetCard k).card = group.length.choose k := by
    rw [Finset.card_powersetCard, Finset.card_univ, Fintype.card_fin]
  have some : (group.length.choose k : ℚ) ≠ 0 := Nat.cast_ne_zero.2 (Nat.choose_pos le).ne'
  have split := Finset.card_filter_add_card_filter_not (s := (Finset.univ : Finset (Fin group.length)).powersetCard k)
    fun drawn => ∃ i ∈ drawn, group.get i = 1
  rw [card_wrong, all] at split
  rw [estimator_eq (numCorrect_le group), passProbability, all, one_sub_div some]
  congr 1
  rw [sub_eq_iff_eq_add]
  exact_mod_cast split.symm

/-- The estimates of the groups are their probabilities. -/
theorem estimatePassAtK_eq {flatRewards : List ℚ} {numGroups groupSize k : Nat} (le : k ≤ groupSize)
    (whole : flatRewards.length = numGroups * groupSize) :
    estimatePassAtK (List.replicate numGroups groupSize) ((rewardsOfGroup flatRewards numGroups groupSize).map numCorrect) k =
      (rewardsOfGroup flatRewards numGroups groupSize).map fun group => passProbability group k := by
  have length : (rewardsOfGroup flatRewards numGroups groupSize).length = numGroups := by
    rw [rewardsOfGroup, List.length_map, List.length_range]
  have sizes : ∀ group ∈ rewardsOfGroup flatRewards numGroups groupSize, group.length = groupSize := by
    intro group mem
    obtain ⟨j, lt, rfl⟩ := List.mem_map.1 mem
    have within : (j + 1) * groupSize ≤ numGroups * groupSize := Nat.mul_le_mul_right _ (List.mem_range.1 lt)
    rw [Nat.succ_mul] at within
    rw [List.length_take, List.length_drop]
    omega
  rw [estimatePassAtK]
  apply List.ext_getElem
  · rw [List.length_map, List.length_zip, List.length_replicate, List.length_map, List.length_map, length, Nat.min_self]
  · intro j lt lt'
    rw [List.getElem_map, List.getElem_zip, List.getElem_replicate, List.getElem_map, List.getElem_map]
    have size := sizes _ (List.getElem_mem (by rwa [List.length_map] at lt'))
    have estimate := estimator_probability (le.trans size.ge)
    rw [size] at estimate
    exact estimate

/-- The reported `k`: the powers of two up to the group size. -/
theorem mem_powers {groupSize : Nat} (some : groupSize ≠ 0) (k : Nat) :
    k ∈ (List.range (Nat.log2 groupSize + 1)).map (fun i => 2 ^ i) ↔ k ≤ groupSize ∧ ∃ i, k = 2 ^ i := by
  rw [List.mem_map]
  constructor
  · rintro ⟨i, lt, rfl⟩
    exact ⟨(Nat.le_log2 some).1 (Nat.le_of_lt_succ (List.mem_range.1 lt)), i, rfl⟩
  · rintro ⟨le, i, rfl⟩
    exact ⟨i, List.mem_range.2 (Nat.lt_succ_of_le ((Nat.le_log2 some).2 le)), rfl⟩

theorem pairwise_powers (count : Nat) : ((List.range count).map fun i => 2 ^ i).Pairwise (· < ·) := by
  rw [List.pairwise_map]
  exact List.pairwise_lt_range.imp fun lt => Nat.pow_lt_pow_right Nat.one_lt_two lt

/-- The rewards fill the groups. -/
def Whole (flatRewards : List ℚ) (groupSize : Nat) (numGroups : Option Nat) : Prop :=
  groupSize ≠ 0 ∧ flatRewards.length = numGroups.getD (flatRewards.length / groupSize) * groupSize

section Report

variable {flatRewards : List ℚ} {groupSize : Nat} {numGroups : Option Nat}

/-- Groups of several samples are reported after the assertion on their number. -/
theorem computePassRate_eq (one : groupSize ≠ 1) (zero : groupSize ≠ 0) (count : Nat)
    (counted : numGroups.getD (flatRewards.length / groupSize) = count) :
    computePassRate flatRewards groupSize numGroups = pyAssert (decide (flatRewards.length = count * groupSize)) >>=
      fun _ => .ok (((List.range (Nat.log2 groupSize + 1)).map fun i => 2 ^ i).map fun k => (passKey k, npMean
        (estimatePassAtK (List.replicate count groupSize) ((rewardsOfGroup flatRewards count groupSize).map numCorrect) k))) := by
  rw [computePassRate, if_neg one, if_neg zero]
  subst counted
  rfl

/-- Rewards that fill their groups are reported. -/
theorem computePassRate_whole (one : groupSize ≠ 1) (whole : Whole flatRewards groupSize numGroups) :
    computePassRate flatRewards groupSize numGroups =
      .ok (((List.range (Nat.log2 groupSize + 1)).map fun i => 2 ^ i).map fun k =>
        (passKey k, npMean ((rewardsOfGroup flatRewards (flatRewards.length / groupSize) groupSize).map
          fun group => passProbability group k))) := by
  obtain ⟨zero, whole⟩ := whole
  rw [computePassRate_eq one zero _ rfl, decide_eq_true whole, pyAssert_true, Py.ok_bind]
  have count : numGroups.getD (flatRewards.length / groupSize) = flatRewards.length / groupSize :=
    (Nat.div_eq_of_eq_mul_left (Nat.pos_of_ne_zero zero) whole).symm
  rw [count] at whole ⊢
  refine congrArg Except.ok (List.map_congr_left fun k mem => ?_)
  rw [estimatePassAtK_eq ((mem_powers zero k).1 mem).1 whole]

/-- Other rewards raise. -/
theorem computePassRate_raises (one : groupSize ≠ 1) (part : ¬Whole flatRewards groupSize numGroups)
    (log : List (String × Option ℚ)) : computePassRate flatRewards groupSize numGroups ≠ .ok log := by
  intro ok
  by_cases zero : groupSize = 0
  · rw [computePassRate, if_neg one, if_pos zero] at ok
    cases ok
  · rw [computePassRate_eq one zero _ rfl, decide_eq_false fun whole => part ⟨zero, whole⟩, pyAssert_false] at ok
    cases ok

end Report

/-- **Pass@k**: the estimator is `1 - C(n - c, k) / C(n, k)`. Rewards that fill their groups are reported, for the powers
of two up to the group size, as the mean over the groups of the probability that `k` of the samples of a group have a
correct one among them. -/
theorem pass_rate_unbiased :
    (∀ n c k, 1 ≤ n → c ≤ n → 1 ≤ k → k ≤ n → estimator n c k = 1 - ((n - c).choose k : ℚ) / (n.choose k : ℚ)) ∧
      ∀ flatRewards groupSize numGroups,
        ((∃ log, computePassRate flatRewards groupSize numGroups = .ok log) ↔
          groupSize = 1 ∨ Whole flatRewards groupSize numGroups) ∧
        ∀ log, computePassRate flatRewards groupSize numGroups = .ok log → ∃ ks : List Nat, ks.Pairwise (· < ·) ∧
          (∀ k, k ∈ ks ↔ groupSize ≠ 1 ∧ k ≤ groupSize ∧ ∃ i, k = 2 ^ i) ∧
          log = ks.map fun k => (passKey k,
            npMean ((rewardsOfGroup flatRewards (flatRewards.length / groupSize) groupSize).map
              fun group => passProbability group k)) := by
  refine ⟨fun n c k _ correct _ _ => estimator_eq correct, fun flatRewards groupSize numGroups => ?_⟩
  by_cases one : groupSize = 1
  · have nothing : computePassRate flatRewards groupSize numGroups = .ok [] := if_pos one
    refine ⟨⟨fun _ => Or.inl one, fun _ => ⟨_, nothing⟩⟩, fun log ok => ⟨[], .nil, ?_, ?_⟩⟩
    · intro k
      simp [one]
    · exact (Except.ok.inj (nothing.symm.trans ok)).symm
  · by_cases whole : Whole flatRewards groupSize numGroups
    · have reported := computePassRate_whole one whole
      refine ⟨⟨fun _ => Or.inr whole, fun _ => ⟨_, reported⟩⟩, ?_⟩
      intro log ok
      obtain rfl := Except.ok.inj (reported.symm.trans ok)
      refine ⟨_, pairwise_powers _, ?_, rfl⟩
      intro k
      rw [mem_powers whole.1]
      exact (and_iff_right one).symm
    · have fails := computePassRate_raises one whole
      refine ⟨⟨?_, ?_⟩, fun log ok => absurd ok (fails log)⟩
      · rintro ⟨log, ok⟩
        exact absurd ok (fails log)
      · rintro (h | h)
        · exact absurd h one
        · exact absurd h whole

/-- Two groups of four, with one and two correct samples. -/
theorem computePassRate_two : computePassRate [1, 0, 0, 0, 1, 1, 0, 0] 4 none =
    .ok [("pass@1", some (3 / 8)), ("pass@2", some (2 / 3)), ("pass@4", some 1)] := by
  decide +kernel

theorem pass_rate_unbiased_two :
    estimator 2 1 1 = 1 - ((2 - 1).choose 1 : ℚ) / (Nat.choose 2 1 : ℚ) ∧
      ∃ ks : List Nat, (∀ k, k ∈ ks ↔ 4 ≠ 1 ∧ k ≤ 4 ∧ ∃ i, k = 2 ^ i) ∧
        [("pass@1", some (3 / 8 : ℚ)), ("pass@2", some (2 / 3)), ("pass@4", some 1)] = ks.map fun k => (passKey k,
          npMean ((rewardsOfGroup [1, 0, 0, 0, 1, 1, 0, 0] 2 4).map fun group => passProbability group k)) := by
  obtain ⟨estimates, reports⟩ := pass_rate_unbiased
  obtain ⟨-, reported⟩ := reports [1, 0, 0, 0, 1, 1, 0, 0] 4 none
  obtain ⟨ks, -, powers, same⟩ := reported _ computePassRate_two
  exact ⟨estimates 2 1 1 (by decide) (by decide) (by decide) (by decide), ks, powers, same⟩

end SlimeBoard.PassRate
