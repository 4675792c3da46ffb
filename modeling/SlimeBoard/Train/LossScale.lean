import SlimeBoard.Parallel.Redistribute
import SlimeBoard.Train.Slices

/-!
# Scaling of the loss

`get_sum_of_sample_mean` sums the masked losses on a rank, each sample's over the size of
its whole mask. `loss_function` scales the sum so that Megatron's division by the number
of micro-batches and its reduction over the ranks leave the mean over the step.
-/

namespace SlimeBoard

open Cp

section Code

/-- `x_i * loss_mask_i`: tensors of one length, or of which one has a single entry. -/
def mulMask (x : List ℚ) (mask : List Nat) : Py (List ℚ) :=
  if x.length = mask.length then .ok (List.zipWith (fun (a : ℚ) (m : Nat) => a * m) x mask)
  else if mask.length = 1 then .ok (x.map fun a => a * (mask.headD 0 : Nat))
  else if x.length = 1 then .ok (mask.map fun m => x.headD 0 * m)
  else .error .runtimeError

/-- `torch.clamp_min(loss_mask.sum(), 1)` -/
def clampedSum (mask : List Nat) : Nat := max mask.sum 1

def sumOfSampleMean (lengths : List Nat) (chunkedLossMasks lossMasks : List (List Nat)) (x : List ℚ) : Py ℚ := do
  let xs ← torchSplit lengths x
  let means ← (xs.zip (chunkedLossMasks.zip lossMasks)).mapM fun (x, chunkedLossMask, lossMask) => do
    let masked ← mulMask x chunkedLossMask
    return masked.sum / clampedSum lossMask
  return means.sum

def sumOfToken (lengths : List Nat) (chunkedLossMasks : List (List Nat)) (x : List ℚ) : Py ℚ := do
  let xs ← torchSplit lengths x
  let sums ← (xs.zip chunkedLossMasks).mapM fun (x, chunkedLossMask) => do
    let masked ← mulMask x chunkedLossMask
    return masked.sum
  return sums.sum

/-- The loss mask of a sample on a rank, cut at the offsets of its tokens. -/
def chunkedLossMask {n : Nat} (rank : Fin n) (qkvFormat : QkvFormat) (maxSeqLen : Option Nat)
    (totalLength responseLength : Nat) (lossMask : List Nat) : Py (List Nat) := do
  let promptLength : Int := totalLength - responseLength
  let o ← getLogitsAndTokensOffsetWithCp rank totalLength responseLength qkvFormat maxSeqLen
  let lossMask0 := pySlice lossMask (o.tokens.1.1 - promptLength) (o.tokens.1.2 - promptLength)
  let lossMask1 := pySlice lossMask (o.tokens.2.1 - promptLength) (o.tokens.2.2 - promptLength)
  return lossMask0 ++ lossMask1

def getSumOfSampleMean {n : Nat} (rank : Fin n) (totalLengths responseLengths : List Nat) (lossMasks : List (List Nat))
    (calculatePerTokenLoss : Bool) (qkvFormat : QkvFormat) (maxSeqLens : Option (List Nat)) : Py (List ℚ → Py ℚ) := do
  if n = 1 then
    return if calculatePerTokenLoss then sumOfToken responseLengths lossMasks
      else sumOfSampleMean responseLengths lossMasks lossMasks
  else
    let chunkedLossMasks ← (totalLengths.zip (responseLengths.zip lossMasks)).zipIdx.mapM
      fun ((totalLength, responseLength, lossMask), i) => do
        let maxSeqLen ← maxSeqLenAt maxSeqLens i
        chunkedLossMask rank qkvFormat maxSeqLen totalLength responseLength lossMask
    let cpChunkLengths := chunkedLossMasks.map (·.length)
    return if calculatePerTokenLoss then sumOfToken cpChunkLengths chunkedLossMasks
      else sumOfSampleMean cpChunkLengths chunkedLossMasks lossMasks

structure LossArgs where
  calculatePerTokenLoss : Bool
  globalBatchSize : Nat
  qkvFormat : QkvFormat

/-- What `loss_function` reads of a micro-batch. -/
structure LossBatch where
  totalLengths : List Nat
  responseLengths : List Nat
  lossMasks : List (List Nat)
  maxSeqLens : Option (List Nat)
  dynamicGlobalBatchSize : Option Nat

/-- The scaled loss and the number by which Megatron normalises. `func` is the loss that
`loss_type` names, `dataParallelSize` the size of the data-parallel group with context
parallelism. -/
def lossFunction {n : Nat} (rank : Fin n) (dataParallelSize : Nat) (args : LossArgs) (batch : LossBatch)
    (numMicrobatches : Nat) (func : (List ℚ → Py ℚ) → Py ℚ) : Py (ℚ × Nat) := do
  let numTokens := (batch.lossMasks.map clampedSum).sum
  let reducer ← getSumOfSampleMean rank batch.totalLengths batch.responseLengths batch.lossMasks
    args.calculatePerTokenLoss args.qkvFormat batch.maxSeqLens
  let loss ← func reducer
  let globalBatchSize := batch.dynamicGlobalBatchSize.getD args.globalBatchSize
  if args.calculatePerTokenLoss then return (loss * n, numTokens)
  else return (loss * numMicrobatches / globalBatchSize * dataParallelSize, 1)

/-- What Megatron makes of the outputs of the loss function. -/
def forwardStepCalcLoss (calculatePerTokenLoss : Bool) (numMicrobatches : Nat) (outputs : ℚ × Nat) : ℚ × Nat :=
  if calculatePerTokenLoss then outputs
  else (outputs.1 / (max outputs.2 1 : Nat) / numMicrobatches, outputs.2)

end Code

/-- A sample of a step with the loss of each response token. -/
structure LossSample extends MaskedSample where
  losses : List ℚ
  whole : losses.length = responseLength

namespace LossSample

/-- The sum of the losses of the masked tokens. -/
def maskedSum (s : LossSample) : ℚ := (List.zipWith (fun (a : ℚ) (m : Nat) => a * m) s.losses s.lossMask).sum

/-- The mean of the losses of the masked tokens. -/
def maskedMean (s : LossSample) : ℚ := s.maskedSum / (max 1 s.lossMask.sum : Nat)

end LossSample

/-- A micro-batch on a rank: each sample's losses are those of the rank's response tokens. -/
def microLoss {n : Nat} (rank : Fin n) (dataParallelSize : Nat) (args : LossArgs) (dynamicGlobalBatchSize : Option Nat)
    (numMicrobatches : Nat) (samples : List LossSample) : Py (ℚ × Nat) := do
  let maxSeqLens := maxSeqLensOf args.qkvFormat (samples.map (·.maxSeqLen))
  let losses ← samples.zipIdx.mapM fun (s, i) => do
    let maxSeqLen ← maxSeqLenAt maxSeqLens i
    sliceLogProbWithCp rank s.losses s.totalLength s.responseLength args.qkvFormat maxSeqLen
  let batch := ⟨samples.map (·.totalLength), samples.map (·.responseLength), samples.map (·.lossMask), maxSeqLens,
    dynamicGlobalBatchSize⟩
  let outputs ← lossFunction rank dataParallelSize args batch numMicrobatches fun reducer => reducer losses.flatten
  return forwardStepCalcLoss args.calculatePerTokenLoss numMicrobatches outputs

/-- What Megatron's gradients are the gradients of: the mean of the ranks' losses, or their
sum over the number of tokens that all micro-batches report. -/
def effectiveObjective {dp n M : Nat} (calculatePerTokenLoss : Bool) (outputs : Fin dp → Fin n → Fin M → ℚ × Nat) : ℚ :=
  let loss := ∑ d, ∑ rank, ∑ m, (outputs d rank m).1
  if calculatePerTokenLoss then loss / (∑ d, ∑ rank, ∑ m, (outputs d rank m).2 : Nat) else loss / (dp * n : Nat)

namespace LossSample

def maskedLoss (s : LossSample) (k : Nat) : ℚ := s.losses.getD k 0 * (s.lossMask.getD k 0 : Nat)

/-- What rank `r` has of the masked losses. -/
def localSum (s : LossSample) (qkvFormat : QkvFormat) (n r : Nat) : ℚ := ((s.tokens qkvFormat n r).map s.maskedLoss).sum

section Rank

variable {n : Nat} (rank : Fin n) (qkvFormat : QkvFormat) (s : LossSample)

theorem mulMask_part : mulMask (s.part qkvFormat n rank.val s.losses) (s.part qkvFormat n rank.val s.lossMask) =
    .ok ((s.tokens qkvFormat n rank.val).map s.maskedLoss) := by
  unfold mulMask
  rw [s.part_eq rank qkvFormat 0 s.whole, s.part_eq rank qkvFormat 0 s.masked, if_pos (by rw [List.length_map, List.length_map]),
    List.zipWith_map, List.zipWith_self]
  rfl

theorem length_part : (s.part qkvFormat n rank.val s.losses).length = (s.part qkvFormat n rank.val s.lossMask).length := by
  rw [s.part_eq rank qkvFormat 0 s.whole, s.part_eq rank qkvFormat 0 s.masked, List.length_map, List.length_map]

theorem slice_losses : sliceLogProbWithCp rank s.losses s.totalLength s.responseLength qkvFormat (s.maxSeqLenOf qkvFormat) =
    .ok (s.part qkvFormat n rank.val s.losses) := by
  have sliced := sliceLogProb_part rank s.whole (s.lengthOf_cutLength qkvFormat)
  rwa [← s.totalLength_eq] at sliced

theorem chunkedLossMask_eq (parallel : 1 < n) :
    chunkedLossMask rank qkvFormat (s.maxSeqLenOf qkvFormat) s.totalLength s.responseLength s.lossMask =
      .ok (s.part qkvFormat n rank.val s.lossMask) := by
  have cut := s.lengthOf_cutLength qkvFormat
  have prompt : ((s.first + 1 + s.responseLength : Nat) : Int) - s.responseLength = s.first + 1 := by omega
  unfold chunkedLossMask MaskedSample.part Cp.part
  rw [s.totalLength_eq, getOffsets_eq parallel rank _ _ cut, Py.ok_bind, offsets_eq rank.isLt, if_neg (by omega)]
  dsimp only
  rw [prompt, pySlice_tokens, pySlice_tokens]
  refine congrArg Except.ok ?_
  unfold spans Span.pick
  rw [List.flatMap_append]

end Rank

/-- **The ranks' masked losses of a sample add up to all of them.** -/
theorem sum_localSum (s : LossSample) {n : Nat} (ranks : 0 < n) (qkvFormat : QkvFormat) :
    ∑ rank : Fin n, s.localSum qkvFormat n rank.val = s.maskedSum := by
  have all : s.maskedSum = ((List.range s.responseLength).map s.maskedLoss).sum := by
    unfold maskedSum
    nth_rewrite 1 [← map_range_getD 0 s.losses, ← map_range_getD 0 s.lossMask]
    rw [s.whole, s.masked, List.zipWith_map, List.zipWith_self]
    rfl
  rw [all]
  exact sum_tokensOf ranks (s.fits ranks qkvFormat) s.maskedLoss

end LossSample

section MicroBatch

variable {n : Nat} (rank : Fin n) (qkvFormat : QkvFormat) (samples : List LossSample)

theorem reducer_eq (calculatePerTokenLoss : Bool) :
    getSumOfSampleMean rank (samples.map (·.totalLength)) (samples.map (·.responseLength)) (samples.map (·.lossMask))
        calculatePerTokenLoss qkvFormat (maxSeqLensOf qkvFormat (samples.map (·.maxSeqLen))) =
      .ok (let chunks := samples.map fun s => s.part qkvFormat n rank.val s.lossMask
        if calculatePerTokenLoss then sumOfToken (chunks.map (·.length)) chunks
        else sumOfSampleMean (chunks.map (·.length)) chunks (samples.map (·.lossMask))) := by
  unfold getSumOfSampleMean
  split
  · rename_i alone
    have chunks : samples.map (fun s => s.part qkvFormat n rank.val s.lossMask) = samples.map (·.lossMask) :=
      List.map_congr_left fun s _ => if_pos alone
    have lengths : samples.map (·.responseLength) = (samples.map (·.lossMask)).map (·.length) := by
      rw [List.map_map]
      exact List.map_congr_left fun s _ => s.masked.symm
    rw [chunks, lengths]
    rfl
  · have ranks := rank.isLt
    have chunked := mapM_padded LossSample.toMaskedSample qkvFormat samples
      (fun s _ maxSeqLen => chunkedLossMask rank qkvFormat maxSeqLen s.totalLength s.responseLength s.lossMask) _
      fun s _ _ => s.chunkedLossMask_eq rank qkvFormat (by omega)
    rw [map_zipIdx_fst 0 fun s : LossSample => s.part qkvFormat n rank.val s.lossMask] at chunked
    rw [List.zip_map', List.zip_map', List.zipIdx_map, List.mapM_map]
    exact Py.bind_eq_ok.2 ⟨_, chunked, rfl⟩

/-- The losses of a micro-batch, split again. -/
theorem torchSplit_losses :
    torchSplit ((samples.map fun s => s.part qkvFormat n rank.val s.lossMask).map (·.length))
        (samples.map fun s => s.part qkvFormat n rank.val s.losses).flatten =
      .ok (samples.map fun s => s.part qkvFormat n rank.val s.losses) := by
  have lengths : (samples.map fun s => s.part qkvFormat n rank.val s.lossMask).map (·.length) =
      (samples.map fun s => s.part qkvFormat n rank.val s.losses).map (·.length) := by
    rw [List.map_map, List.map_map]
    exact List.map_congr_left fun s _ => (s.length_part rank qkvFormat).symm
  rw [lengths, torchSplit, if_pos (by rw [List.length_flatten]), splitLengths_flatten]

theorem sumOfToken_eq :
    sumOfToken ((samples.map fun s => s.part qkvFormat n rank.val s.lossMask).map (·.length))
        (samples.map fun s => s.part qkvFormat n rank.val s.lossMask)
        (samples.map fun s => s.part qkvFormat n rank.val s.losses).flatten =
      .ok (samples.map fun s => s.localSum qkvFormat n rank.val).sum := by
  have sums := mapM_ok (f := fun s : LossSample => do
      let masked ← mulMask (s.part qkvFormat n rank.val s.losses) (s.part qkvFormat n rank.val s.lossMask)
      return masked.sum) samples fun s _ => by rw [s.mulMask_part rank qkvFormat, Py.ok_bind]; rfl
  unfold sumOfToken
  rw [torchSplit_losses, Py.ok_bind, List.zip_map', List.mapM_map]
  exact Py.bind_eq_ok.2 ⟨_, sums, rfl⟩

theorem sumOfSampleMean_eq :
    sumOfSampleMean ((samples.map fun s => s.part qkvFormat n rank.val s.lossMask).map (·.length))
        (samples.map fun s => s.part qkvFormat n rank.val s.lossMask) (samples.map (·.lossMask))
        (samples.map fun s => s.part qkvFormat n rank.val s.losses).flatten =
      .ok (samples.map fun s => s.localSum qkvFormat n rank.val / (clampedSum s.lossMask : ℚ)).sum := by
  have means := mapM_ok (f := fun s : LossSample => do
      let masked ← mulMask (s.part qkvFormat n rank.val s.losses) (s.part qkvFormat n rank.val s.lossMask)
      return masked.sum / clampedSum s.lossMask) samples fun s _ => by rw [s.mulMask_part rank qkvFormat, Py.ok_bind]; rfl
  unfold sumOfSampleMean
  rw [torchSplit_losses, Py.ok_bind, List.zip_map', List.zip_map', List.mapM_map]
  exact Py.bind_eq_ok.2 ⟨_, means, rfl⟩

/-- What a micro-batch gives on a rank. -/
def microOutput (rank : Fin n) (dataParallelSize : Nat) (args : LossArgs) (globalBatchSize : Nat) (numMicrobatches : Nat)
    (samples : List LossSample) : ℚ × Nat :=
  forwardStepCalcLoss args.calculatePerTokenLoss numMicrobatches
    (if args.calculatePerTokenLoss then
      ((samples.map fun s => s.localSum args.qkvFormat n rank.val).sum * n, (samples.map fun s => clampedSum s.lossMask).sum)
    else
      ((samples.map fun s => s.localSum args.qkvFormat n rank.val / (clampedSum s.lossMask : ℚ)).sum * numMicrobatches /
        globalBatchSize * dataParallelSize, 1))

theorem microLoss_eq (dataParallelSize : Nat) (args : LossArgs) (dynamicGlobalBatchSize : Option Nat) (numMicrobatches : Nat) :
    microLoss rank dataParallelSize args dynamicGlobalBatchSize numMicrobatches samples =
      .ok (microOutput rank dataParallelSize args (dynamicGlobalBatchSize.getD args.globalBatchSize) numMicrobatches
        samples) := by
  have losses := mapM_padded LossSample.toMaskedSample args.qkvFormat samples
    (fun s _ maxSeqLen => sliceLogProbWithCp rank s.losses s.totalLength s.responseLength args.qkvFormat maxSeqLen) _
    fun s _ _ => s.slice_losses rank args.qkvFormat
  rw [map_zipIdx_fst 0 fun s : LossSample => s.part args.qkvFormat n rank.val s.losses] at losses
  refine Py.bind_eq_ok.2 ⟨_, losses, ?_⟩
  unfold lossFunction microOutput
  dsimp only
  rw [reducer_eq, Py.ok_bind]
  cases args.calculatePerTokenLoss with
  | true =>
    simp only [if_true]
    rw [sumOfToken_eq, Py.ok_bind, List.map_map]
    rfl
  | false =>
    simp only [Bool.false_eq_true, if_false]
    rw [sumOfSampleMean_eq, Py.ok_bind]
    rfl

end MicroBatch

/-- The samples of a step, from the micro-batches of every data-parallel rank. -/
def stepSamples {dp M : Nat} (batches : Fin dp → Fin M → List LossSample) : List LossSample :=
  (List.ofFn fun d => (List.ofFn (batches d)).flatten).flatten

section Step

variable {dp n M : Nat} (batches : Fin dp → Fin M → List LossSample)

theorem sum_stepSamples {α : Type} [AddCommMonoid α] (f : LossSample → α) :
    ((stepSamples batches).map f).sum = ∑ d, ∑ m, ((batches d m).map f).sum := by
  unfold stepSamples
  rw [List.map_flatten, List.sum_flatten, List.map_map, List.map_ofFn, List.sum_ofFn]
  refine Finset.sum_congr rfl fun d _ => ?_
  rw [Function.comp_apply, Function.comp_apply, List.map_flatten, List.sum_flatten, List.map_map, List.map_ofFn,
    List.sum_ofFn]
  rfl

theorem sum_ranks {f : Fin n → LossSample → ℚ} {g : LossSample → ℚ} (whole : ∀ s, ∑ rank, f rank s = g s)
    (samples : List LossSample) : ∑ rank, (samples.map (f rank)).sum = (samples.map g).sum := by
  induction samples with
  | nil => exact Finset.sum_const_zero
  | cons s samples ih => simp only [List.map_cons, List.sum_cons, Finset.sum_add_distrib, whole, ih]

/-- The ranks of one data-parallel rank and the micro-batches, summed over the step. -/
theorem sum_step {f : Fin n → LossSample → ℚ} {g : LossSample → ℚ} (whole : ∀ s, ∑ rank, f rank s = g s) :
    ∑ d, ∑ rank, ∑ m, ((batches d m).map (f rank)).sum = ((stepSamples batches).map g).sum := by
  rw [sum_stepSamples]
  refine Finset.sum_congr rfl fun d _ => ?_
  rw [Finset.sum_comm]
  exact Finset.sum_congr rfl fun m _ => sum_ranks whole _

/-- Without the per-token mode the scalings cancel but for the global batch size. -/
theorem microOutput_mean (rank : Fin n) (m : Fin M) {args : LossArgs} (mean : args.calculatePerTokenLoss = false)
    (globalBatchSize : Nat) (samples : List LossSample) :
    (microOutput rank (dp * n) args globalBatchSize M samples).1 =
      (samples.map fun s => s.localSum args.qkvFormat n rank.val / (clampedSum s.lossMask : ℚ)).sum / globalBatchSize *
        (dp * n : Nat) := by
  have micro : (M : ℚ) ≠ 0 := Nat.cast_ne_zero.2 (Nat.ne_of_gt (Nat.zero_lt_of_lt m.isLt))
  unfold microOutput forwardStepCalcLoss
  simp only [mean, Bool.false_eq_true, if_false, max_self, Nat.cast_one, div_one]
  rw [mul_div_right_comm, div_right_comm, mul_div_cancel_right₀ _ micro]

theorem objective_mean (ranks : 0 < n) {args : LossArgs} (mean : args.calculatePerTokenLoss = false) (globalBatchSize : Nat) :
    effectiveObjective false (fun d (rank : Fin n) m => microOutput rank (dp * n) args globalBatchSize M (batches d m)) =
      1 / globalBatchSize * ((stepSamples batches).map (·.maskedMean)).sum := by
  rcases Nat.eq_zero_or_pos dp with rfl | groups
  · simp [effectiveObjective, stepSamples]
  have size : ((dp * n : Nat) : ℚ) ≠ 0 := Nat.cast_ne_zero.2 (Nat.ne_of_gt (Nat.mul_pos groups ranks))
  have whole (s : LossSample) : ∑ rank : Fin n, s.localSum args.qkvFormat n rank.val / (clampedSum s.lossMask : ℚ) =
      s.maskedMean := by
    rw [← Finset.sum_div, s.sum_localSum ranks, LossSample.maskedMean, clampedSum, max_comm]
  have total := sum_step batches whole
  unfold effectiveObjective
  dsimp only
  rw [if_neg Bool.false_ne_true,
    Finset.sum_congr rfl fun d _ => Finset.sum_congr rfl fun rank _ => Finset.sum_congr rfl fun m _ =>
      microOutput_mean rank m mean globalBatchSize (batches d m)]
  simp only [← Finset.sum_mul, ← Finset.sum_div]
  rw [total, mul_div_cancel_right₀ _ size, one_div_mul_eq_div]

theorem objective_perToken (ranks : 0 < n) {args : LossArgs} (perToken : args.calculatePerTokenLoss = true)
    (globalBatchSize : Nat) :
    effectiveObjective true (fun d (rank : Fin n) m => microOutput rank (dp * n) args globalBatchSize M (batches d m)) =
      ((stepSamples batches).map (·.maskedSum)).sum /
        ((stepSamples batches).map fun s => max 1 s.lossMask.sum).sum := by
  have size : (n : ℚ) ≠ 0 := Nat.cast_ne_zero.2 (Nat.ne_of_gt ranks)
  have total := sum_step batches fun s => s.sum_localSum ranks args.qkvFormat
  have reported : ∑ d : Fin dp, ∑ rank : Fin n, ∑ m : Fin M, ((batches d m).map fun s => clampedSum s.lossMask).sum =
      n * ((stepSamples batches).map fun s => max 1 s.lossMask.sum).sum := by
    rw [sum_stepSamples, Finset.mul_sum]
    refine Finset.sum_congr rfl fun d _ => ?_
    rw [Finset.sum_const, Finset.card_univ, Fintype.card_fin, smul_eq_mul]
    simp only [clampedSum, max_comm]
  unfold effectiveObjective microOutput forwardStepCalcLoss
  simp only [perToken, if_true]
  rw [reported]
  simp only [← Finset.sum_mul]
  rw [total, Nat.cast_mul, mul_comm (n : ℚ), mul_div_mul_right _ _ size]

/-- **However a step is divided, the objective is the mean over its samples of the masked
means, or the mean over its tokens.** -/
theorem effective_objective_eq (ranks : 0 < n) (args : LossArgs) (dynamicGlobalBatchSize : Option Nat)
    {samples : List LossSample} (divided : (stepSamples batches).Perm samples) :
    ∃ outputs : Fin dp → Fin n → Fin M → ℚ × Nat,
      (∀ d rank m, microLoss rank (dp * n) args dynamicGlobalBatchSize M (batches d m) = .ok (outputs d rank m)) ∧
      effectiveObjective args.calculatePerTokenLoss outputs =
        if args.calculatePerTokenLoss then
          (samples.map (·.maskedSum)).sum / (samples.map fun s => max 1 s.lossMask.sum).sum
        else 1 / (dynamicGlobalBatchSize.getD args.globalBatchSize) * (samples.map (·.maskedMean)).sum := by
  refine ⟨_, fun d rank m => microLoss_eq rank (batches d m) (dp * n) args dynamicGlobalBatchSize M, ?_⟩
  cases mode : args.calculatePerTokenLoss with
  | true =>
    rw [objective_perToken batches ranks mode, if_pos rfl, (divided.map _).sum_eq, (divided.map _).sum_eq]
  | false => rw [objective_mean batches ranks mode, if_neg Bool.false_ne_true, (divided.map _).sum_eq]

/-- Two tokens, the second of them masked. -/
def pairSample : LossSample where
  totalLength := 4
  responseLength := 2
  maxSeqLen := 4
  lossMask := [0, 1]
  shorter := by decide
  padded := by decide
  masked := rfl
  losses := [3, 5]
  whole := rfl

theorem effective_objective_eq_pair :
    ∃ outputs : Fin 1 → Fin 2 → Fin 1 → ℚ × Nat,
      (∀ d rank m, microLoss rank (1 * 2) ⟨false, 2, .thd⟩ none 1 ((fun _ _ => [pairSample, pairSample]) d m) =
        .ok (outputs d rank m)) ∧
      effectiveObjective false outputs =
        if false then (([pairSample, pairSample] : List LossSample).map (·.maskedSum)).sum /
          (([pairSample, pairSample] : List LossSample).map fun s => max 1 s.lossMask.sum).sum
        else 1 / ((none : Option Nat).getD 2) * (([pairSample, pairSample] : List LossSample).map (·.maskedMean)).sum :=
  effective_objective_eq (fun _ _ => [pairSample, pairSample]) (by decide) ⟨false, 2, .thd⟩ none (List.Perm.refl _)

end Step

end SlimeBoard
