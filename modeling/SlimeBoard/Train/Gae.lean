import SlimeBoard.Lib.Recurrence
import SlimeBoard.Train.Slices
import SlimeBoard.Train.Tensor

/-!
# Generalized advantage estimation

`vanilla_gae` runs backwards over the columns of a padded batch. `chunked_gae` runs
forwards over the reversed rows, a chunk at a time, with a matrix of powers for each
chunk. `get_advantages_and_returns` is the estimator of one sample.
-/

namespace SlimeBoard

open Cp Recurrence

section Code

variable {B : Nat}

def vanillaGae (T : Nat) (rewards values : Fin B → List ℚ) (gamma lambd : ℚ) :
    Py ((Fin B → List ℚ) × (Fin B → List ℚ)) := do
  let step (t : Nat) (lastgaelam : Fin B → ℚ) : Fin B → ℚ :=
    let nextValue := if t < T - 1 then column values (t + 1) else 0
    let delta := column rewards t + gamma • nextValue - column values t
    delta + (gamma * lambd) • lastgaelam
  let (_, advRev) := (List.range T).reverse.foldl (fun p t => (step t p.1, p.2 ++ [step t p.1])) (0, [])
  let fullAdvantages ← stack advRev.reverse
  return (fullAdvantages, fun b => List.zipWith (· + ·) (fullAdvantages b) (values b))

/-- `M[i, j]` for the discount `w` -/
def scanKernel (w : ℚ) (i j : Nat) : ℚ :=
  if w = 0 then (if i = j then 1 else 0) else if i ≤ j then w ^ (j - i) else 0

def powVec (w : ℚ) (chunkSize : Nat) : List ℚ :=
  (List.range chunkSize).map fun t => if w = 0 then 0 else w ^ (t + 1)

/-- A row of `deltas_flat @ M` -/
def localScan (w : ℚ) (chunkSize : Nat) (deltas : List ℚ) : List ℚ :=
  (List.range chunkSize).map fun j => ∑ i ∈ Finset.range chunkSize, deltas.getD i 0 * scanKernel w i j

/-- `row[start:start + len(xs)] = xs` -/
def assignSlice (row : List ℚ) (start : Nat) (xs : List ℚ) : List ℚ := row.take start ++ xs ++ row.drop (start + xs.length)

def chunkedGae (T : Nat) (rewards values : Fin B → List ℚ) (gamma lambd : ℚ) (chunkSize : ℕ+) :
    Py ((Fin B → List ℚ) × (Fin B → List ℚ)) := do
  pyAssert (decide (∀ b, (values b).length = T))
  let chunkSize : Nat := chunkSize
  let nextValues (b : Fin B) := (values b).drop 1 ++ [0]
  let deltas (b : Fin B) :=
    List.zipWith (· - ·) (List.zipWith (fun r v => r + gamma * v) (rewards b) (nextValues b)) (values b)
  let w := gamma * lambd
  let pad := if T % chunkSize ≠ 0 then chunkSize - T % chunkSize else 0
  let deltasRev (b : Fin B) := (deltas b).reverse ++ List.replicate pad 0
  let nChunks := (T + pad) / chunkSize
  let lengths (c : Nat) := if 0 < pad ∧ c + 1 = nChunks then chunkSize - pad else chunkSize
  let step (c : Nat) (p : (Fin B → List ℚ) × (Fin B → ℚ)) : (Fin B → List ℚ) × (Fin B → ℚ) :=
    let start := c * chunkSize
    let sLocal (b : Fin B) := localScan w chunkSize (((deltasRev b).drop start).take chunkSize)
    let sGlobal (b : Fin B) := List.zipWith (fun s pow => s + p.2 b * pow) ((sLocal b).take (lengths c))
      ((powVec w chunkSize).take (lengths c))
    (fun b => assignSlice (p.1 b) start (sGlobal b), fun b => (sGlobal b).getLastD 0)
  let (sRev, _) := (List.range nChunks).foldl (fun p c => step c p) (fun _ => List.replicate (T + pad) 0, 0)
  let advantages (b : Fin B) := ((sRev b).take T).reverse
  return (advantages, fun b => List.zipWith (· + ·) (advantages b) (values b))

/-- The part of `get_advantages_and_returns` between the gather and the slices. -/
def fullAdvantagesAndReturns (responseLen : Nat) (fullValues fullRewards : List ℚ) (gamma lambd : ℚ) :
    Py (List ℚ × List ℚ) := do
  let step (p : ℚ × List ℚ) (t : Nat) : Py (ℚ × List ℚ) := do
    let nextvalues ← if t < responseLen - 1 then torchItem fullValues (t + 1) else .ok 0
    let reward ← torchItem fullRewards t
    let value ← torchItem fullValues t
    let delta := reward + gamma * nextvalues - value
    let lastgaelam := delta + gamma * lambd * p.1
    return (lastgaelam, p.2 ++ [lastgaelam])
  let (_, advantagesReversed) ← (List.range responseLen).reverse.foldlM step (0, [])
  let fullAdvantages := advantagesReversed.reverse
  let fullReturns ← broadcast (· + ·) fullAdvantages fullValues
  return (fullAdvantages, fullReturns)

/-- `slice_log_prob_with_cp` of the advantages and of the returns, on a rank. -/
def sliceBoth {n : Nat} (rank : Fin n) (full : List ℚ × List ℚ) (totalLen responseLen : Nat) : Py (List ℚ × List ℚ) := do
  let advantages ← sliceLogProbWithCp rank full.1 totalLen responseLen .thd none
  let returns ← sliceLogProbWithCp rank full.2 totalLen responseLen .thd none
  return (advantages, returns)

/-- `values` and `rewards` have the tensor of every rank, and so has the result. -/
def getAdvantagesAndReturns {n : Nat} (totalLen responseLen : Nat) (values rewards : Fin n → List ℚ) (gamma lambd : ℚ) :
    Py (Fin n → List ℚ × List ℚ) := do
  let fullRewards ← if 1 < n then allGatherWithCp rewards totalLen responseLen else .ok rewards
  let fullValues ← if 1 < n then allGatherWithCp values totalLen responseLen else .ok values
  let full ← Collective.collect fun rank =>
    fullAdvantagesAndReturns responseLen (fullValues rank) (fullRewards rank) gamma lambd
  if 1 < n then Collective.collect fun rank => sliceBoth rank (full rank) totalLen responseLen
  else return full

/-- The part of `get_advantages_and_returns_batch` between the gather and the slices. -/
def fullBatch (responseLengths : Fin B → Nat) (fullValuesList fullRewardsList : Fin B → List ℚ) (gamma lambd : ℚ)
    (chunked : Bool) : Py (Fin B → List ℚ × List ℚ) := do
  let maxLen ← pyMax responseLengths
  let fullValues ← Collective.collect fun i => assignRow maxLen (responseLengths i) ((fullValuesList i).take (responseLengths i))
  let fullRewards ← Collective.collect fun i => assignRow maxLen (responseLengths i) ((fullRewardsList i).take (responseLengths i))
  let (fullAdvantages, fullReturns) ←
    if chunked then chunkedGae maxLen fullRewards fullValues gamma lambd 128
    else vanillaGae maxLen fullRewards fullValues gamma lambd
  return fun i => ((fullAdvantages i).take (responseLengths i), (fullReturns i).take (responseLengths i))

/-- A batch of `B` samples; each entry of `valuesList` and `rewardsList` has the tensor of
every rank, and so has each entry of the result. -/
def getAdvantagesAndReturnsBatch {n : Nat} (totalLengths responseLengths : Fin B → Nat)
    (valuesList rewardsList : Fin B → Fin n → List ℚ) (gamma lambd : ℚ) (chunked : Bool) :
    Py (Fin B → Fin n → List ℚ × List ℚ) := do
  -- `values_list[0]`
  if B = 0 then .error .indexError
  else
    let gathered (xs : Fin B → Fin n → List ℚ) : Py (Fin B → Fin n → List ℚ) :=
      if 1 < n then Collective.collect fun i => allGatherWithCp (xs i) (totalLengths i) (responseLengths i) else .ok xs
    let fullValuesList ← gathered valuesList
    let fullRewardsList ← gathered rewardsList
    let full ← Collective.collect fun rank =>
      fullBatch responseLengths (fun i => fullValuesList i rank) (fun i => fullRewardsList i rank) gamma lambd chunked
    if 1 < n then
      Collective.collect fun i => Collective.collect fun rank =>
        sliceBoth rank (full rank i) (totalLengths i) (responseLengths i)
    else return fun i rank => full rank i

end Code

end SlimeBoard
