import SlimeBoard.Parallel.LogProbs
import SlimeBoard.Train.Advantages

/-!
# Advantages of actions

The reward of a game is a list of steps for each action, a token that the loss mask lets
through. `compute_advantages_and_returns` folds the steps of an action into one reward and
one discount, and `get_advantages_and_returns_batch1` runs the recurrence over the actions.
-/

namespace SlimeBoard

open Cp Recurrence

section Code

variable {B : Nat}

/-- A row of `full_values`, `full_rewards`, `gamma_tensor` and `lambd_tensor`. -/
structure ActionRow where
  values : List ℚ
  rewards : List ℚ
  gammas : List ℚ
  lambds : List ℚ

/-- The body of the loop that fills the rows. -/
def actionRow (maxLen L : Nat) (values rewards gammas lambds : List ℚ) (lossMask : List Nat) : Py ActionRow := do
  let selected ← maskedSelect lossMask values
  let values ← assignRow maxLen L selected
  let rewards ← assignRow maxLen L rewards
  let gammas ← assignRow maxLen L gammas
  let lambds ← assignRow maxLen L lambds
  return { values, rewards, gammas, lambds }

/-- `full_advantages` and `full_returns` of a sample. -/
def scatterBoth (L L1 : Nat) (lossMask : List Nat) (advantages returns : List ℚ) : Py (List ℚ × List ℚ) := do
  let fullAdvantages ← maskedScatter L1 lossMask (advantages.take L)
  let fullReturns ← maskedScatter L1 lossMask (returns.take L)
  return (fullAdvantages, fullReturns)

/-- The part of `get_advantages_and_returns_batch1` between the gather and the slices. -/
def fullBatch1 (responseLengths : Fin B → Nat) (fullValuesList rewardsList gammaList lambdList : Fin B → List ℚ)
    (lossMasks : Fin B → List Nat) : Py (Fin B → List ℚ × List ℚ) := do
  let validLengths (i : Fin B) := (lossMasks i).count 1
  let maxLen ← pyMax validLengths
  let rows ← Collective.collect fun i =>
    actionRow maxLen (validLengths i) (fullValuesList i) (rewardsList i) (gammaList i) (lambdList i) (lossMasks i)
  let step (t : Nat) (lastgaelam : Fin B → ℚ) : Fin B → ℚ :=
    let nextValue := if t < maxLen - 1 then column (fun i => (rows i).values) (t + 1) else 0
    let delta := column (fun i => (rows i).rewards) t + column (fun i => (rows i).gammas) t * nextValue -
      column (fun i => (rows i).values) t
    delta + column (fun i => (rows i).lambds) t * lastgaelam
  let (_, advRev) := (List.range maxLen).reverse.foldl (fun p t => (step t p.1, p.2 ++ [step t p.1])) (0, [])
  let tempFullAdvantages ← stack advRev.reverse
  let tempFullReturns (i : Fin B) := List.zipWith (· + ·) (tempFullAdvantages i) (rows i).values
  Collective.collect fun i =>
    scatterBoth (validLengths i) (responseLengths i) (lossMasks i) (tempFullAdvantages i) (tempFullReturns i)

/-- The values have the tensor of every rank. The other lists and the masks are those of whole responses. -/
def getAdvantagesAndReturnsBatch1 {n : Nat} (totalLengths responseLengths : Fin B → Nat) (valuesList : Fin B → Fin n → List ℚ)
    (rewardsList gammaList lambdList : Fin B → List ℚ) (lossMasks : Fin B → List Nat) :
    Py (Fin B → Fin n → List ℚ × List ℚ) := do
  -- `values_list[0]`
  if B = 0 then .error .indexError
  else
    let fullValuesList ←
      if 1 < n then Collective.collect fun i => allGatherWithCp (valuesList i) (totalLengths i) (responseLengths i)
      else .ok valuesList
    let full ← Collective.collect fun rank =>
      fullBatch1 responseLengths (fun i => fullValuesList i rank) rewardsList gammaList lambdList lossMasks
    if 1 < n then
      Collective.collect fun i => Collective.collect fun rank =>
        sliceBoth rank (full rank i) (totalLengths i) (responseLengths i)
    else return fun i rank => full rank i

/-- `sum(gamma ** i * j for i, j in enumerate(item))` -/
def discountedSum (gamma : ℚ) (item : List ℚ) : ℚ := (item.zipIdx.map fun (j, i) => gamma ^ i * j).sum

/-- The branch of `compute_advantages_and_returns` for lists of rewards. -/
def listRewardAdvantages {n : Nat} (gamma lambd : ℚ) (totalLengths responseLengths : Fin B → Nat)
    (values : Fin B → Fin n → List ℚ) (rewards : Fin B → List (List ℚ)) (lossMasks : Fin B → List Nat) :
    Py (Fin B → Fin n → List ℚ × List ℚ) :=
  let lambd := lambd * gamma
  let gammaList (i : Fin B) := (rewards i).map fun item => gamma ^ item.length
  let lambdList (i : Fin B) := (rewards i).map fun item => lambd ^ item.length
  let rewardList (i : Fin B) := (rewards i).map (discountedSum gamma)
  getAdvantagesAndReturnsBatch1 totalLengths responseLengths values rewardList gammaList lambdList lossMasks

end Code

/-- The entry of column `t` in the recurrence of a row. -/
def ActionRow.entry (r : ActionRow) (width t : Nat) : ℚ × ℚ :=
  (r.rewards.getD t 0 + r.gammas.getD t 0 * (if t < width - 1 then r.values.getD (t + 1) 0 else 0) - r.values.getD t 0,
    r.lambds.getD t 0)

/-- A response whose loss mask lets one token through for each list of steps. -/
structure ActionSample where
  totalLength : Nat
  responseLength : Nat
  values : List ℚ
  rewards : List (List ℚ)
  lossMask : List Nat
  valued : values.length = responseLength
  masked : lossMask.length = responseLength
  paired : rewards.length = lossMask.count 1
  nonempty : ∀ steps ∈ rewards, steps ≠ []

namespace ActionSample

variable (s : ActionSample) (gamma lambd : ℚ)

/-- The values of the actions. -/
def actionValues : List ℚ := BoolIndex.select s.lossMask s.values

/-- The entry of an action in the recurrence. -/
def entry (j : Nat) : ℚ × ℚ :=
  let steps := s.rewards.getD j []
  (discounted gamma steps + gamma ^ steps.length * s.actionValues.getD (j + 1) 0 - s.actionValues.getD j 0,
    (gamma * lambd) ^ steps.length)

/-- The advantages of the actions. -/
def advantages : List ℚ := back ((List.range s.rewards.length).map (s.entry gamma lambd))

/-- The returns of the actions. -/
def returns : List ℚ := List.zipWith (· + ·) (s.advantages gamma lambd) s.actionValues

/-- A list over the actions, at their tokens, and 0 at the other tokens. -/
def spread (xs : List ℚ) : List ℚ :=
  (List.range s.responseLength).map fun k => if s.lossMask[k]? = some 1 then xs.getD ((s.lossMask.take k).count 1) 0 else 0

/-- The row of the sample, with zeros up to a width. -/
def row (width : Nat) : ActionRow where
  values := s.actionValues ++ List.replicate (width - s.rewards.length) 0
  rewards := s.rewards.map (discountedSum gamma) ++ List.replicate (width - s.rewards.length) 0
  gammas := (s.rewards.map fun item => gamma ^ item.length) ++ List.replicate (width - s.rewards.length) 0
  lambds := (s.rewards.map fun item => (lambd * gamma) ^ item.length) ++ List.replicate (width - s.rewards.length) 0

variable {s gamma lambd}

theorem length_actionValues : s.actionValues.length = s.rewards.length := by
  rw [actionValues, BoolIndex.length_select (s.valued.trans s.masked.symm), s.paired]

theorem length_advantages : (s.advantages gamma lambd).length = s.rewards.length := by
  rw [advantages, length_back, List.length_map, List.length_range]

theorem length_returns : (s.returns gamma lambd).length = s.rewards.length := by
  rw [returns, List.length_zipWith, length_advantages, length_actionValues, Nat.min_self]

/-- **The advantage of an action** from that of the next. -/
theorem advantages_step {j : Nat} (inside : j < s.rewards.length) :
    (s.advantages gamma lambd).getD j 0 = (s.entry gamma lambd j).1 +
      (s.entry gamma lambd j).2 * (s.advantages gamma lambd).getD (j + 1) 0 := by
  have here : ((List.range s.rewards.length).map (s.entry gamma lambd)).getD j (0, 0) = s.entry gamma lambd j := by
    rw [List.getD_eq_getElem?_getD, List.getElem?_map, List.getElem?_range inside]
    rfl
  rw [advantages, getD_back, here]
  rw [List.length_map, List.length_range]
  exact inside

/-- **Without lambda the estimate is the sum of all later steps.** -/
theorem advantages_add_values (j : Nat) :
    (s.advantages gamma 1).getD j 0 + s.actionValues.getD j 0 = discounted gamma (s.rewards.drop j).flatten := by
  induction left : s.rewards.length - j generalizing j with
  | zero =>
    have outside : s.rewards.length ≤ j := by omega
    rw [getD_beyond (length_advantages.le.trans outside), getD_beyond (length_actionValues.le.trans outside),
      List.drop_of_length_le outside, add_zero]
    rfl
  | succ k ih =>
    have inside : j < s.rewards.length := by omega
    have steps : s.rewards.getD j [] = s.rewards[j] := by
      rw [List.getD_eq_getElem?_getD, List.getElem?_eq_getElem inside]
      rfl
    rw [advantages_step inside, List.drop_eq_getElem_cons inside, List.flatten_cons, discounted_append, ← ih (j + 1) (by omega)]
    simp only [entry, steps, mul_one]
    ring

end ActionSample

section Batch

variable {B : Nat}

theorem discountedSum_eq (gamma : ℚ) (item : List ℚ) : discountedSum gamma item = discounted gamma item := by
  have shifted (k : Nat) : ((item.zipIdx k).map fun (j, i) => gamma ^ i * j).sum = gamma ^ k * discounted gamma item := by
    induction item generalizing k with
    | nil => simp [discounted]
    | cons r item ih =>
      rw [List.zipIdx_cons, List.map_cons, List.sum_cons, ih, discounted]
      ring
  rw [discountedSum, shifted, pow_zero, one_mul]

theorem row_eq (s : ActionSample) (gamma lambd : ℚ) (width : Nat) :
    actionRow width (s.lossMask.count 1) s.values (s.rewards.map (discountedSum gamma))
        (s.rewards.map fun item => gamma ^ item.length) (s.rewards.map fun item => (lambd * gamma) ^ item.length) s.lossMask =
      .ok (s.row gamma lambd width) := by
  have valued := s.valued.trans s.masked.symm
  have counted {f : List ℚ → ℚ} : (s.rewards.map f).length = s.lossMask.count 1 := by rw [List.length_map, s.paired]
  unfold actionRow maskedSelect
  rw [if_pos valued.symm, Py.ok_bind, assignRow_eq _ (BoolIndex.length_select valued), Py.ok_bind, assignRow_eq _ counted,
    Py.ok_bind, assignRow_eq _ counted, Py.ok_bind, assignRow_eq _ counted, ActionSample.row, s.paired]
  rfl

/-- A padded row has the entries of its actions. -/
theorem row_entry (s : ActionSample) {gamma lambd : ℚ} {width : Nat} (short : s.rewards.length ≤ width) {t : Nat}
    (inside : t < s.rewards.length) : (s.row gamma lambd width).entry width t = s.entry gamma lambd t := by
  have item {f : List ℚ → ℚ} : (s.rewards.map f).getD t 0 = f (s.rewards.getD t []) := by
    rw [List.getD_eq_getElem?_getD, List.getD_eq_getElem?_getD, List.getElem?_map, List.getElem?_eq_getElem inside]
    rfl
  simp only [ActionRow.entry, ActionSample.row, ActionSample.entry, getD_append_zeros, item, discountedSum_eq]
  refine Prod.ext ?_ (congrArg (· ^ _) (mul_comm lambd gamma))
  rcases Nat.lt_or_ge t (width - 1) with more | last
  · rw [if_pos more]
  · rw [if_neg (by omega), getD_beyond (s.length_actionValues.le.trans (by omega : s.rewards.length ≤ t + 1))]

theorem row_entry_beyond (s : ActionSample) {gamma lambd : ℚ} {width t : Nat} (outside : s.rewards.length ≤ t) :
    ((s.row gamma lambd width).entry width t).1 = 0 := by
  have beyond {f : List ℚ → ℚ} : (s.rewards.map f).getD t 0 = 0 := getD_beyond (by rwa [List.length_map])
  have unvalued := getD_beyond (s.length_actionValues.le.trans outside)
  simp only [ActionRow.entry, ActionSample.row, getD_append_zeros, beyond, unvalued, zero_mul, add_zero, sub_zero]

/-- What is scattered has the entries of the actions at their tokens. -/
theorem maskedScatter_eq (s : ActionSample) {ys : List ℚ} (whole : ys.length = s.rewards.length) :
    maskedScatter s.responseLength s.lossMask ys = .ok (s.spread ys) := by
  have counted : ys.length = s.lossMask.count 1 := whole.trans s.paired
  unfold ActionSample.spread
  rw [← s.masked]
  refine scatter_eq counted fun k here => ?_
  have inside := BoolIndex.count_take_lt here
  rw [List.getD_eq_getElem?_getD, List.getElem?_eq_getElem (counted ▸ inside)]
  rfl

theorem fullBatch1_eq (samples : Fin B → ActionSample) (some : ∃ i, 1 ∈ (samples i).lossMask) (gamma lambd : ℚ) :
    fullBatch1 (fun i => (samples i).responseLength) (fun i => (samples i).values)
        (fun i => (samples i).rewards.map (discountedSum gamma)) (fun i => (samples i).rewards.map fun item => gamma ^ item.length)
        (fun i => (samples i).rewards.map fun item => (lambd * gamma) ^ item.length) (fun i => (samples i).lossMask) =
      .ok fun i => ((samples i).spread ((samples i).advantages gamma lambd), (samples i).spread ((samples i).returns gamma lambd)) := by
  obtain ⟨j, acts⟩ := some
  have batch : B ≠ 0 := by
    rintro rfl
    exact j.elim0
  obtain ⟨T, maximal⟩ : ∃ T, (Finset.univ.sup fun i => (samples i).lossMask.count 1) = T := ⟨_, rfl⟩
  have short (i : Fin B) : (samples i).lossMask.count 1 ≤ T :=
    maximal ▸ @Finset.le_sup _ _ _ _ Finset.univ (fun i => (samples i).lossMask.count 1) i (Finset.mem_univ i)
  have long : 1 ≤ T := (List.count_pos_iff.2 acts).trans_le (short j)
  let row (i : Fin B) := (samples i).row gamma lambd T
  have loop := @stack_loop B T long (fun t b => ((row b).entry T t).1) (fun t b => ((row b).entry T t).2)
    (fun t lastgaelam => column (fun i => (row i).rewards) t + column (fun i => (row i).gammas) t *
        (if t < T - 1 then column (fun i => (row i).values) (t + 1) else 0) - column (fun i => (row i).values) t +
      column (fun i => (row i).lambds) t * lastgaelam) (by
    intro t s
    funext b
    simp only [Pi.add_apply, Pi.sub_apply, Pi.mul_apply, ActionRow.entry, column]
    split
    · rfl
    · rfl)
  unfold fullBatch1 pyMax
  dsimp only
  rw [if_neg batch, Py.ok_bind, maximal, Collective.collect_ok fun i => row_eq (samples i) gamma lambd T, Py.ok_bind, loop,
    Py.ok_bind]
  refine Collective.collect_ok fun i => ?_
  have whole := (samples i).length_actionValues
  have solved : (back ((List.range T).map fun t => (row i).entry T t)).take ((samples i).lossMask.count 1) =
      (samples i).advantages gamma lambd := by
    rw [← (samples i).paired]
    have short := (samples i).paired.le.trans (short i)
    exact take_back_range short (fun t inside => row_entry _ short inside) fun t outside => row_entry_beyond _ outside
  have returned : (List.zipWith (· + ·) (back ((List.range T).map fun t => (row i).entry T t)) (row i).values).take
      ((samples i).lossMask.count 1) = (samples i).returns gamma lambd := by
    rw [List.take_zipWith, solved]
    show List.zipWith _ _ (((samples i).actionValues ++ _).take _) = _
    rw [List.take_left' (whole.trans (samples i).paired)]
    rfl
  unfold scatterBoth
  show (do
    let fullAdvantages ← maskedScatter _ _ ((back ((List.range T).map fun t => (row i).entry T t)).take _)
    let fullReturns ← maskedScatter _ _ ((List.zipWith (· + ·) (back ((List.range T).map fun t => (row i).entry T t))
      (row i).values).take _)
    return (fullAdvantages, fullReturns)) = _
  rw [solved, returned, maskedScatter_eq _ (samples i).length_advantages, Py.ok_bind,
    maskedScatter_eq _ (samples i).length_returns]
  rfl

/-- **Each sample of a batch gets the advantages of its own actions**, whatever the other samples are. -/
theorem semi_markov_advantages (samples : Fin B → ActionSample) (some : ∃ i, 1 ∈ (samples i).lossMask) (gamma lambd : ℚ) :
    (listRewardAdvantages gamma lambd (fun i => (samples i).totalLength) (fun i => (samples i).responseLength)
        (fun i (_ : Fin 1) => (samples i).values) (fun i => (samples i).rewards) (fun i => (samples i).lossMask) =
      .ok fun i _ => ((samples i).spread ((samples i).advantages gamma lambd),
        (samples i).spread ((samples i).returns gamma lambd))) ∧
    ∀ s : ActionSample, (s.advantages gamma lambd).length = s.rewards.length ∧
      (∀ j < s.rewards.length, (s.advantages gamma lambd).getD j 0 =
        discounted gamma (s.rewards.getD j []) + gamma ^ (s.rewards.getD j []).length * s.actionValues.getD (j + 1) 0 -
          s.actionValues.getD j 0 +
          (gamma * lambd) ^ (s.rewards.getD j []).length * (s.advantages gamma lambd).getD (j + 1) 0) ∧
      (lambd = 1 → ∀ j < s.rewards.length, (s.advantages gamma lambd).getD j 0 + s.actionValues.getD j 0 =
        discounted gamma (s.rewards.drop j).flatten) := by
  refine ⟨?_, fun s => ⟨s.length_advantages, fun j inside => s.advantages_step inside, ?_⟩⟩
  · have batch : B ≠ 0 := by
      rintro rfl
      exact some.choose.elim0
    have full := Collective.collect_ok fun _ : Fin 1 => fullBatch1_eq samples some gamma lambd
    unfold listRewardAdvantages getAdvantagesAndReturnsBatch1
    simp only [if_neg batch, if_neg (Nat.lt_irrefl 1), Py.ok_bind, full]
    rfl
  · rintro rfl j _
    exact s.advantages_add_values j

/-- Two actions of two steps and of one step, with two tokens between them. -/
def twoActions : ActionSample where
  totalLength := 6
  responseLength := 4
  values := [1, 7, 7, 2]
  rewards := [[1, 2], [3]]
  lossMask := [1, 0, 0, 1]
  valued := rfl
  masked := rfl
  paired := rfl
  nonempty := by decide

theorem semi_markov_advantages_two :
    listRewardAdvantages (1 / 2) 1 (fun _ : Fin 1 => 6) (fun _ => 4) (fun _ (_ : Fin 1) => [1, 7, 7, 2]) (fun _ => [[1, 2], [3]])
        (fun _ => [1, 0, 0, 1]) =
      .ok fun _ _ => (twoActions.spread (twoActions.advantages (1 / 2) 1), twoActions.spread (twoActions.returns (1 / 2) 1)) :=
  (semi_markov_advantages (fun _ => twoActions) ⟨0, by decide⟩ (1 / 2) 1).1

/-- The first action has its own two steps and the later step ahead of it. -/
example : twoActions.advantages (1 / 2) 1 = [7 / 4, 1] := by decide +kernel

end Batch

end SlimeBoard
