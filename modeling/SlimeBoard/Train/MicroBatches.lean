import SlimeBoard.Train.SeqlenBalancing

/-!
# Micro-batches of a training step

`get_data_iterator` counts the micro-batches of a step by first fit, takes the maximum over the
data-parallel ranks, rounds it for virtual pipelines, and lets the balancing group the samples.
`forward_only` puts the outputs back into the order of the samples.
-/

namespace SlimeBoard.MicroBatches

open SeqlenBalancing

structure Args where
  useDynamicBatchSize : Bool
  microBatchSize : Nat
  maxTokensPerGpu : Option Nat
  globalBatchSize : Nat

/-- The parallel sizes besides that of data parallelism. -/
structure Sizes where
  cpSize : Nat
  vppSize : Option Nat
  microbatchGroupSizePerVpStage : Nat
  grouped : 0 < microbatchGroupSizePerVpStage

/-- `vpp_size`, which is 1 if it is `None` -/
def Sizes.vpp (sizes : Sizes) : Nat := sizes.vppSize.getD 1

/-- What `get_data_iterator` reads of the rollout data of a rank. -/
structure RolloutData where
  totalLengths : List Nat
  dynamicGlobalBatchSize : Option Nat

/-- The loop over `batches` for one length. -/
def firstFit (maxTokens length : Nat) : List Nat → List Nat
  | [] => [length]
  | batch :: batches =>
    if batch + length ≤ maxTokens then (batch + length) :: batches else batch :: firstFit maxTokens length batches

def getMinimumNumMicroBatchSize (totalLengths : List Nat) (maxTokens : Nat) : Nat :=
  (totalLengths.foldl (fun batches length => firstFit maxTokens length batches) []).length

structure DataIterator where
  microBatchSize : Option Nat
  microBatchIndices : Option (List (List Nat))
  offset : Nat
  deriving DecidableEq

/-- `get_next`, for one of the keys -/
def DataIterator.getNext {α : Type} (it : DataIterator) (vals : List α) : Py (List α × DataIterator) :=
  match it.microBatchIndices with
  | some microBatchIndices => do
    let indices ← pyIndex microBatchIndices it.offset
    let batch ← indices.mapM (pyIndex vals)
    return (batch, { it with offset := it.offset + 1 })
  | none =>
    match it.microBatchSize with
    | some size => do
      pyAssert (decide (it.offset + size ≤ vals.length))
      return ((vals.drop it.offset).take size, { it with offset := it.offset + size })
    | none => .error .typeError

/-- The micro-batches of `n` calls of `get_next`. -/
def DataIterator.draw {α : Type} (vals : List α) : Nat → DataIterator → Py (List (List α) × DataIterator)
  | 0, it => .ok ([], it)
  | n + 1, it => do
    let (batch, it) ← it.getNext vals
    let (batches, it) ← DataIterator.draw vals n it
    return (batch :: batches, it)

section Schedule

variable (args : Args) (sizes : Sizes) {dpSize : Nat} (data : Fin dpSize → RolloutData)

/-- `global_batch_size // dp_size` -/
def numLocalGbs (r : Fin dpSize) : Nat := (data r).dynamicGlobalBatchSize.getD args.globalBatchSize / dpSize

def numStepsPerRollout (r : Fin dpSize) : Nat := (data r).totalLengths.length / numLocalGbs args data r

/-- `total_lengths[start:end]` of step `i` -/
def stepLengths (r : Fin dpSize) (i : Nat) : List Nat :=
  ((data r).totalLengths.drop (i * numLocalGbs args data r)).take (numLocalGbs args data r)

/-- The counts of a rank, before the reduction. -/
def localCounts (maxTokensPerGpu : Nat) (r : Fin dpSize) : List Nat :=
  (List.range (numStepsPerRollout args data r)).map fun i =>
    getMinimumNumMicroBatchSize (stepLengths args data r i) (maxTokensPerGpu * sizes.cpSize)

/-- `dist.all_reduce(op=MAX)`: every rank gives as many numbers. -/
def allReduceMax (counts : Fin dpSize → List Nat) (r : Fin dpSize) : List Nat :=
  (List.range (counts r).length).map fun i => Finset.univ.sup fun r' => (counts r').getD i 0

/-- The rounding for virtual pipelines. -/
def rounded (count : Nat) : Nat :=
  if 1 < sizes.vpp then
    max 1 (count / sizes.microbatchGroupSizePerVpStage * sizes.microbatchGroupSizePerVpStage)
  else count

/-- The turn of the loop over `num_microbatches` for step `i`. -/
def stepIndices (r : Fin dpSize) (i numMbs : Nat) : Py (List (List Nat)) := do
  let partitions ← getSeqlenBalancedPartitions (stepLengths args data r i) numMbs false
  return partitions.map fun partition => partition.map (· + i * numLocalGbs args data r)

/-- `get_data_iterator` on rank `r`: the iterators and `num_microbatches`. -/
def getDataIterator (r : Fin dpSize) : Py (List DataIterator × List Nat) := do
  -- a division by zero raises
  if numLocalGbs args data r = 0 then .error .valueError
  if args.useDynamicBatchSize then
    match args.maxTokensPerGpu with
    | none => .error .assertionError
    | some maxTokensPerGpu =>
      let numMicrobatches := (allReduceMax (localCounts args sizes data maxTokensPerGpu) r).map (rounded sizes)
      let steps ← numMicrobatches.zipIdx.mapM fun entry => stepIndices args data r entry.2 entry.1
      let microBatchIndices := steps.flatten
      pyAssert (decide (microBatchIndices.flatten.toFinset.card = (data r).totalLengths.length))
      return (List.replicate sizes.vpp ⟨none, some microBatchIndices, 0⟩, numMicrobatches)
  else
    -- a division by zero raises here too
    if args.microBatchSize = 0 then .error .valueError
    let numMicrobatches := List.replicate (numStepsPerRollout args data r) (numLocalGbs args data r / args.microBatchSize)
    return (List.replicate sizes.vpp ⟨some args.microBatchSize, none, 0⟩, numMicrobatches)

end Schedule

/-- The reordering at the end of `forward_only`. -/
def reorder {β : Type} (values : List β) (microBatchIndices : List (List Nat)) : Py (List (Option β)) :=
  (values.zip microBatchIndices.flatten).foldlM
    (fun originValues entry =>
      if entry.2 < originValues.length then .ok (originValues.set entry.2 (some entry.1)) else .error .indexError)
    (List.replicate values.length none)

/-! ## Reading micro-batches -/

/-- A schedule whose first micro-batches have been read: the next one is read at its indices. -/
theorem getNext_eq {α : Type} (done rest : List (List Nat)) {p : List Nat} {vals : List α} (default : α)
    (inside : ∀ j ∈ p, j < vals.length) :
    DataIterator.getNext ⟨none, some (done ++ p :: rest), done.length⟩ vals =
      .ok (p.map (vals.getD · default), ⟨none, some (done ++ [p] ++ rest), (done ++ [p]).length⟩) := by
  have batch : p.mapM (pyIndex vals) = .ok (p.map (vals.getD · default)) := by
    rw [mapM_forall₂, List.forall₂_map_right_iff, List.forall₂_same]
    intro j mem
    unfold pyIndex
    rw [List.getD_eq_getElem _ _ (inside j mem), List.getElem?_eq_getElem (inside j mem)]
  have head : pyIndex (done ++ p :: rest) done.length = .ok p := by
    unfold pyIndex
    rw [List.getElem?_append_right le_rfl, Nat.sub_self]
    rfl
  unfold DataIterator.getNext
  dsimp only
  rw [head, Py.ok_bind, batch, Py.ok_bind, List.append_assoc, List.length_append]
  rfl

/-- **The iterator hands out the micro-batches** of its schedule, one after the other. -/
theorem draw_eq {α : Type} (done rest : List (List Nat)) {vals : List α} (default : α)
    (inside : ∀ p ∈ rest, ∀ j ∈ p, j < vals.length) :
    DataIterator.draw vals rest.length ⟨none, some (done ++ rest), done.length⟩ =
      .ok (rest.map fun p => p.map (vals.getD · default), ⟨none, some (done ++ rest), (done ++ rest).length⟩) := by
  induction rest generalizing done with
  | nil =>
    rw [List.append_nil]
    rfl
  | cons p rest ih =>
    obtain ⟨here, later⟩ := List.forall_mem_cons.1 inside
    have next := ih (done ++ [p]) later
    rw [List.length_cons, DataIterator.draw, getNext_eq done rest default here, Py.ok_bind]
    dsimp only
    rw [next, Py.ok_bind, ← List.append_cons]
    rfl

/-! ## First fit -/

theorem length_firstFit (maxTokens length : Nat) (batches : List Nat) :
    batches.length ≤ (firstFit maxTokens length batches).length ∧
      (firstFit maxTokens length batches).length ≤ batches.length + 1 := by
  induction batches with
  | nil => exact ⟨Nat.zero_le _, le_rfl⟩
  | cons batch batches ih =>
    rw [firstFit]
    split
    · exact ⟨le_rfl, Nat.le_succ _⟩
    · exact ⟨Nat.succ_le_succ ih.1, Nat.succ_le_succ ih.2⟩

theorem firstFit_pos (maxTokens length : Nat) (batches : List Nat) : 0 < (firstFit maxTokens length batches).length := by
  cases batches with
  | nil => exact Nat.one_pos
  | cons batch batches => exact (Nat.succ_pos _).trans_le (length_firstFit maxTokens length (batch :: batches)).1

theorem length_foldl_firstFit (maxTokens : Nat) (totalLengths batches : List Nat) :
    let done := totalLengths.foldl (fun batches length => firstFit maxTokens length batches) batches
    batches.length ≤ done.length ∧ done.length ≤ batches.length + totalLengths.length := by
  induction totalLengths generalizing batches with
  | nil => exact ⟨le_rfl, le_rfl⟩
  | cons length totalLengths ih =>
    have one := length_firstFit maxTokens length batches
    have rest := ih (firstFit maxTokens length batches)
    rw [List.foldl_cons, List.length_cons]
    dsimp only at rest ⊢
    omega

theorem getMinimumNumMicroBatchSize_le (totalLengths : List Nat) (maxTokens : Nat) :
    getMinimumNumMicroBatchSize totalLengths maxTokens ≤ totalLengths.length :=
  (length_foldl_firstFit maxTokens totalLengths []).2.trans (Nat.zero_add _).le

theorem getMinimumNumMicroBatchSize_pos {totalLengths : List Nat} (some : totalLengths ≠ []) (maxTokens : Nat) :
    0 < getMinimumNumMicroBatchSize totalLengths maxTokens := by
  cases totalLengths with
  | nil => exact absurd rfl some
  | cons length totalLengths =>
    apply Nat.lt_of_lt_of_le (firstFit_pos maxTokens length [])
    exact (length_foldl_firstFit maxTokens totalLengths _).1

/-! ## The counts -/

section Counts

variable {args : Args} {sizes : Sizes} {dpSize : Nat} {data : Fin dpSize → RolloutData}

theorem length_localCounts (maxTokensPerGpu : Nat) (r : Fin dpSize) :
    (localCounts args sizes data maxTokensPerGpu r).length = numStepsPerRollout args data r := by
  rw [localCounts, List.length_map, List.length_range]

theorem localCounts_getD {maxTokensPerGpu : Nat} {r : Fin dpSize} {i : Nat} (lt : i < numStepsPerRollout args data r) :
    (localCounts args sizes data maxTokensPerGpu r).getD i 0 =
      getMinimumNumMicroBatchSize (stepLengths args data r i) (maxTokensPerGpu * sizes.cpSize) := by
  rw [localCounts, List.getD_eq_getElem?_getD, List.getElem?_map, List.getElem?_range lt]
  rfl

/-- A step of the rollout is a whole local batch. -/
theorem step_within {r : Fin dpSize} {i : Nat} (lt : i < numStepsPerRollout args data r) :
    (i + 1) * numLocalGbs args data r ≤ (data r).totalLengths.length :=
  (Nat.mul_le_mul_right _ lt).trans (Nat.div_mul_le_self ..)

theorem length_stepLengths {r : Fin dpSize} {i : Nat} (lt : i < numStepsPerRollout args data r) :
    (stepLengths args data r i).length = numLocalGbs args data r := by
  have within := step_within lt
  rw [Nat.succ_mul] at within
  rw [stepLengths, List.length_take, List.length_drop]
  omega

theorem rounded_pos {count : Nat} (pos : 0 < count) : 0 < rounded sizes count := by
  rw [rounded]
  split
  · exact Nat.lt_of_lt_of_le Nat.one_pos (Nat.le_max_left ..)
  · exact pos

theorem rounded_le {count bound : Nat} (pos : 0 < bound) (le : count ≤ bound) : rounded sizes count ≤ bound := by
  rw [rounded]
  split
  · exact Nat.max_le.2 ⟨pos, (Nat.div_mul_le_self ..).trans le⟩
  · exact le

end Counts

/-! ## A step -/

section Step

variable {args : Args} {sizes : Sizes} {dpSize : Nat} {data : Fin dpSize → RolloutData}

/-- The micro-batches of a step: the partition of its samples, at their places in the rollout. -/
structure Grouped (args : Args) (data : Fin dpSize → RolloutData) (r : Fin dpSize) (i numMbs : Nat)
    (indices : List (List Nat)) : Prop where
  count : indices.length = numMbs
  nonempty : ∀ p ∈ indices, p ≠ []
  perm : indices.flatten.Perm (List.range' (i * numLocalGbs args data r) (stepLengths args data r i).length)
  within : ∀ bound, (∀ length ∈ stepLengths args data r i, length ≤ bound) →
    ∀ p ∈ indices, ∀ q ∈ indices, totalOf (data r).totalLengths p ≤ totalOf (data r).totalLengths q + bound

theorem Grouped.inside {r : Fin dpSize} {i numMbs : Nat} {indices : List (List Nat)}
    (grouped : Grouped args data r i numMbs indices) (lt : i < numStepsPerRollout args data r) {p : List Nat}
    (there : p ∈ indices) {j : Nat} (mem : j ∈ p) : j < (data r).totalLengths.length := by
  have within := step_within lt
  have range := grouped.perm.subset (List.mem_flatten.2 ⟨p, there, mem⟩)
  rw [List.mem_range'_1, length_stepLengths lt] at range
  rw [Nat.succ_mul] at within
  omega

/-- Within the step, the samples have the lengths of the step. -/
theorem totalOf_step {r : Fin dpSize} {i : Nat} {p : List Nat} (inside : ∀ j ∈ p, j < (stepLengths args data r i).length) :
    totalOf (data r).totalLengths (p.map (· + i * numLocalGbs args data r)) = totalOf (stepLengths args data r i) p := by
  rw [totalOf, totalOf, List.map_map]
  congr 1
  apply List.map_congr_left
  intro j mem
  have lt := inside j mem
  rw [stepLengths, List.length_take] at lt
  rw [Function.comp_apply, stepLengths, List.getD_eq_getElem?_getD, List.getD_eq_getElem?_getD,
    List.getElem?_take_of_lt (lt.trans_le (Nat.min_le_left ..)), List.getElem?_drop, Nat.add_comm]

theorem stepIndices_spec {r : Fin dpSize} {i numMbs : Nat} (pos : 0 < numMbs)
    (enough : numMbs ≤ (stepLengths args data r i).length) :
    ∃ indices, stepIndices args data r i numMbs = .ok indices ∧ Grouped args data r i numMbs indices := by
  obtain ⟨partitions, run, balanced⟩ := @getSeqlenBalancedPartitions_spec _ _ false pos enough
    fun whole => absurd whole Bool.false_ne_true
  refine ⟨partitions.map fun partition => partition.map (· + i * numLocalGbs args data r), ?_, ?_⟩
  · rw [stepIndices, run, Py.ok_bind]
    rfl
  have each {p : List Nat} (mem : p ∈ partitions.map fun partition => partition.map (· + i * numLocalGbs args data r)) :
      ∃ q ∈ partitions, p = q.map (· + i * numLocalGbs args data r) ∧
        totalOf (data r).totalLengths p = totalOf (stepLengths args data r i) q := by
    obtain ⟨q, there, rfl⟩ := List.mem_map.1 mem
    refine ⟨q, there, rfl, totalOf_step fun j mem => ?_⟩
    exact List.mem_range.1 (balanced.perm.subset (List.mem_flatten.2 ⟨q, there, mem⟩))
  constructor
  · rw [List.length_map, balanced.count]
  · intro p mem none
    obtain ⟨q, there, rfl, -⟩ := each mem
    exact balanced.nonempty q there (List.map_eq_nil_iff.1 none)
  · rw [← List.map_flatten, List.range'_eq_map_range]
    refine (balanced.perm.map _).trans (.of_eq ?_)
    exact List.map_congr_left fun j _ => Nat.add_comm ..
  · intro bound short p hp q hq
    obtain ⟨p', hp', -, same⟩ := each hp
    obtain ⟨q', hq', -, same'⟩ := each hq
    rw [same, same']
    exact balanced.within bound short p' hp' q' hq'

/-- A step that is scheduled has as many micro-batches as it was asked for. -/
theorem grouped_of_ok {r : Fin dpSize} {i numMbs : Nat} {indices : List (List Nat)} (pos : 0 < numMbs)
    (ok : stepIndices args data r i numMbs = .ok indices) : Grouped args data r i numMbs indices := by
  obtain ⟨partitions, run, -⟩ := Py.bind_eq_ok.1 ok
  have enough : numMbs ≤ (stepLengths args data r i).length := by
    by_contra few
    rw [getSeqlenBalancedPartitions, decide_eq_false few, pyAssert_false, Py.error_bind] at run
    cases run
  obtain ⟨indices', ok', grouped⟩ := stepIndices_spec pos enough
  rw [ok] at ok'
  rw [Except.ok.inj ok']
  exact grouped

theorem sum_totalOf (seqlenList : List Nat) (partitions : List (List Nat)) :
    (partitions.map (totalOf seqlenList)).sum = totalOf seqlenList partitions.flatten := by
  induction partitions with
  | nil => rfl
  | cons p partitions ih =>
    rw [List.map_cons, List.sum_cons, ih, List.flatten_cons, totalOf, totalOf, totalOf, List.map_append, List.sum_append]

theorem totalOf_range (seqlenList : List Nat) : totalOf seqlenList (List.range seqlenList.length) = seqlenList.sum := by
  rw [totalOf]
  congr 1
  apply List.ext_getElem
  · rw [List.length_map, List.length_range]
  · intro j lt lt'
    rw [List.getElem_map, List.getElem_range, List.getD_eq_getElem _ _ lt']

theorem Grouped.total {r : Fin dpSize} {i numMbs : Nat} {indices : List (List Nat)} (grouped : Grouped args data r i numMbs indices) :
    (indices.map (totalOf (data r).totalLengths)).sum = (stepLengths args data r i).sum := by
  have shift : List.range' (i * numLocalGbs args data r) (stepLengths args data r i).length =
      (List.range (stepLengths args data r i).length).map (· + i * numLocalGbs args data r) := by
    rw [List.range'_eq_map_range]
    exact List.map_congr_left fun j _ => Nat.add_comm ..
  rw [sum_totalOf, totalOf_perm _ grouped.perm, shift, totalOf_step fun j mem => List.mem_range.1 mem, totalOf_range]

end Step

/-! ## The reordering -/

section Reorder

variable {β : Type}

/-- One turn of the reordering. -/
def place (originValues : List (Option β)) (entry : β × Nat) : Py (List (Option β)) :=
  if entry.2 < originValues.length then .ok (originValues.set entry.2 (some entry.1)) else .error .indexError

theorem foldlM_place (f : Nat → β) (order : List Nat) (originValues : List (Option β))
    (inside : ∀ i ∈ order, i < originValues.length) :
    ∃ values, ((order.map f).zip order).foldlM place originValues = .ok values ∧ values.length = originValues.length ∧
      ∀ i, values[i]? = if i ∈ order then some (some (f i)) else originValues[i]? := by
  induction order generalizing originValues with
  | nil => exact ⟨originValues, rfl, rfl, fun i => (if_neg List.not_mem_nil).symm⟩
  | cons j order ih =>
    obtain ⟨head, rest⟩ := List.forall_mem_cons.1 inside
    obtain ⟨values, run, length, each⟩ := ih (originValues.set j (some (f j))) fun i mem => by
      rw [List.length_set]
      exact rest i mem
    refine ⟨values, ?_, length.trans List.length_set, fun i => ?_⟩
    · rw [List.map_cons, List.zip_cons_cons, List.foldlM_cons, place, if_pos head, Py.ok_bind]
      exact run
    · rw [each, List.getElem?_set]
      by_cases later : i ∈ order
      · rw [if_pos later, if_pos (List.mem_cons_of_mem _ later)]
      · rw [if_neg later]
        by_cases here : j = i
        · subst here
          rw [if_pos rfl, if_pos head, if_pos (List.mem_cons_self ..)]
        · rw [if_neg here, if_neg]
          rw [List.mem_cons]
          rintro (same | mem)
          · exact here same.symm
          · exact later mem

/-- **The reordering** puts every output at the place of its sample. -/
theorem reorder_spec {n : Nat} {microBatchIndices : List (List Nat)}
    (perm : microBatchIndices.flatten.Perm (List.range n)) (f : Nat → β) :
    reorder (microBatchIndices.flatten.map f) microBatchIndices = .ok ((List.range n).map fun i => some (f i)) := by
  have length : (microBatchIndices.flatten.map f).length = n := by rw [List.length_map, perm.length_eq, List.length_range]
  obtain ⟨values, run, same, each⟩ := foldlM_place f microBatchIndices.flatten (List.replicate n none) fun i mem => by
    rw [List.length_replicate]
    exact List.mem_range.1 (perm.subset mem)
  rw [List.length_replicate] at same
  rw [reorder, length]
  refine run.trans (congrArg Except.ok ?_)
  apply List.ext_getElem?
  intro i
  rw [each, List.getElem?_map]
  by_cases lt : i < n
  · rw [if_pos (perm.mem_iff.2 (List.mem_range.2 lt)), List.getElem?_range lt]
    rfl
  · rw [if_neg fun mem => lt (List.mem_range.1 (perm.subset mem)), List.getElem?_eq_none, List.getElem?_eq_none]
    · rfl
    · rw [List.length_range]
      exact Nat.le_of_not_lt lt
    · rw [List.length_replicate]
      exact Nat.le_of_not_lt lt

end Reorder

/-! ## The schedule -/

section Schedule

variable {args : Args} {sizes : Sizes} {dpSize : Nat} {data : Fin dpSize → RolloutData}

/-- The micro-batches of the steps that have `numMicrobatches`. -/
def Scheduled (args : Args) (data : Fin dpSize → RolloutData) (r : Fin dpSize) (numMicrobatches : List Nat)
    (steps : List (List (List Nat))) : Prop :=
  List.Forall₂ (fun entry indices => Grouped args data r entry.2 entry.1 indices) numMicrobatches.zipIdx steps

/-- The steps follow each other in the rollout. -/
theorem perm_steps {r : Fin dpSize} {localGbs start : Nat} {numMicrobatches : List Nat} {steps : List (List (List Nat))}
    (gbs : numLocalGbs args data r = localGbs)
    (whole : ∀ i, start ≤ i → i < start + numMicrobatches.length → (stepLengths args data r i).length = localGbs)
    (all : List.Forall₂ (fun entry indices => Grouped args data r entry.2 entry.1 indices) (numMicrobatches.zipIdx start) steps) :
    steps.flatten.flatten.Perm (List.range' (start * localGbs) (numMicrobatches.length * localGbs)) := by
  induction numMicrobatches generalizing start steps with
  | nil =>
    obtain rfl := List.forall₂_nil_left_iff.1 all
    rw [List.length_nil, Nat.zero_mul]
    exact .refl _
  | cons numMbs numMicrobatches ih =>
    rw [List.zipIdx_cons, List.forall₂_cons_left_iff] at all
    obtain ⟨indices, steps, grouped, rest, rfl⟩ := all
    rw [List.length_cons] at whole
    have later := @ih (start + 1) steps (fun i le lt => whole i (by omega) (by omega)) rest
    have here := grouped.perm
    rw [whole start le_rfl (by omega), gbs] at here
    rw [List.flatten_cons, List.flatten_append, List.length_cons, Nat.succ_mul, Nat.add_comm, ← List.range'_append_1]
    rw [Nat.succ_mul] at later
    exact here.append later

/-- What the dynamic branch of `get_data_iterator` does. -/
theorem getDataIterator_ok {r : Fin dpSize} {maxTokensPerGpu : Nat} {iterators : List DataIterator} {numMicrobatches : List Nat}
    (dynamic : args.useDynamicBatchSize = true) (budget : args.maxTokensPerGpu = some maxTokensPerGpu)
    (ok : getDataIterator args sizes data r = .ok (iterators, numMicrobatches)) :
    0 < numLocalGbs args data r ∧
      numMicrobatches = (allReduceMax (localCounts args sizes data maxTokensPerGpu) r).map (rounded sizes) ∧
      ∃ steps, (numMicrobatches.zipIdx.mapM fun entry => stepIndices args data r entry.2 entry.1) = .ok steps ∧
        iterators = List.replicate sizes.vpp ⟨none, some steps.flatten, 0⟩ := by
  rw [getDataIterator] at ok
  by_cases zero : numLocalGbs args data r = 0
  · rw [if_pos zero] at ok
    cases ok
  · simp only [if_neg zero, dynamic, if_true, budget] at ok
    obtain ⟨steps, run, ok⟩ := Py.bind_eq_ok.1 ok
    obtain ⟨-, -, ok⟩ := Py.bind_eq_ok.1 ok
    obtain ⟨rfl, rfl⟩ := Prod.mk.inj (Except.ok.inj ok)
    exact ⟨Nat.pos_of_ne_zero zero, rfl, steps, run, rfl⟩

/-- The first-fit count of step `i`, at most over the ranks. -/
def stepCount (args : Args) (sizes : Sizes) (data : Fin dpSize → RolloutData) (maxTokensPerGpu i : Nat) : Nat :=
  Finset.univ.sup fun r => (localCounts args sizes data maxTokensPerGpu r).getD i 0

theorem allReduceMax_eq (maxTokensPerGpu : Nat) (r : Fin dpSize) :
    allReduceMax (localCounts args sizes data maxTokensPerGpu) r =
      (List.range (numStepsPerRollout args data r)).map (stepCount args sizes data maxTokensPerGpu) := by
  rw [allReduceMax, length_localCounts]
  rfl

theorem le_stepCount {maxTokensPerGpu i : Nat} {r : Fin dpSize} (lt : i < numStepsPerRollout args data r) :
    getMinimumNumMicroBatchSize (stepLengths args data r i) (maxTokensPerGpu * sizes.cpSize) ≤
      stepCount args sizes data maxTokensPerGpu i := by
  rw [← localCounts_getD lt]
  exact Finset.le_sup (f := fun r => (localCounts args sizes data maxTokensPerGpu r).getD i 0) (Finset.mem_univ r)

theorem stepCount_pos {maxTokensPerGpu i : Nat} {r : Fin dpSize} (pos : 0 < numLocalGbs args data r)
    (lt : i < numStepsPerRollout args data r) : 0 < stepCount args sizes data maxTokensPerGpu i := by
  have some : stepLengths args data r i ≠ [] := by
    apply List.ne_nil_of_length_pos
    rw [length_stepLengths lt]
    exact pos
  exact (getMinimumNumMicroBatchSize_pos some _).trans_le (le_stepCount lt)

end Schedule

/-! ## The limits of a micro-batch -/

section Limits

theorem foldl_firstFit_one {maxTokens : Nat} (totalLengths : List Nat) (batch : Nat)
    (one : (totalLengths.foldl (fun batches length => firstFit maxTokens length batches) [batch]).length = 1) :
    totalLengths = [] ∨ batch + totalLengths.sum ≤ maxTokens := by
  induction totalLengths generalizing batch with
  | nil => exact .inl rfl
  | cons length totalLengths ih =>
    right
    rw [List.foldl_cons, firstFit] at one
    split at one
    · rename_i fits
      rw [List.sum_cons]
      obtain rfl | le := ih (batch + length) one
      · exact fits
      · omega
    · have more := (length_foldl_firstFit maxTokens totalLengths (batch :: firstFit maxTokens length [])).1
      rw [one] at more
      exact absurd more (by rw [firstFit, List.length_cons, List.length_cons]; omega)

/-- One batch of first fit holds one sample, or fits. -/
theorem getMinimumNumMicroBatchSize_one {maxTokens : Nat} {totalLengths : List Nat}
    (one : getMinimumNumMicroBatchSize totalLengths maxTokens ≤ 1) : totalLengths.length ≤ 1 ∨ totalLengths.sum ≤ maxTokens := by
  cases totalLengths with
  | nil => exact .inl (Nat.zero_le _)
  | cons length totalLengths =>
    have pos := getMinimumNumMicroBatchSize_pos (List.cons_ne_nil length totalLengths) maxTokens
    obtain rfl | le := foldl_firstFit_one totalLengths length (le_antisymm one pos)
    · exact .inl le_rfl
    · exact .inr le

theorem length_mul_le {x bound : Nat} (ys : List Nat) (near : ∀ y ∈ ys, x ≤ y + bound) :
    ys.length * x ≤ ys.sum + ys.length * bound := by
  induction ys with
  | nil => rw [List.length_nil, Nat.zero_mul]; exact Nat.zero_le _
  | cons y ys ih =>
    obtain ⟨head, rest⟩ := List.forall_mem_cons.1 near
    have rest := ih rest
    rw [List.length_cons, List.sum_cons, Nat.succ_mul, Nat.succ_mul]
    omega

/-- No number of a list is above their mean by more than the distance to the others. -/
theorem length_mul_le_of_mem {x bound : Nat} {xs : List Nat} (mem : x ∈ xs) (near : ∀ y ∈ xs, x ≤ y + bound) :
    xs.length * x ≤ xs.sum + (xs.length - 1) * bound := by
  have perm := List.perm_cons_erase mem
  have rest := length_mul_le (xs.erase x) fun y there => near y (List.mem_of_mem_erase there)
  rw [perm.sum_eq, perm.length_eq, List.sum_cons, List.length_cons, Nat.succ_mul, Nat.add_sub_cancel]
  omega

variable {args : Args} {sizes : Sizes} {dpSize : Nat} {data : Fin dpSize → RolloutData}

/-- There are as many micro-batches as samples at most, and then none has two. -/
theorem Grouped.single {r : Fin dpSize} {i : Nat} {indices : List (List Nat)}
    (grouped : Grouped args data r i (stepLengths args data r i).length indices) : ∀ p ∈ indices, p.length ≤ 1 := by
  have sum : (indices.map List.length).sum = indices.length := by
    rw [← List.length_flatten, grouped.perm.length_eq, List.length_range', grouped.count]
  have each : ∀ p ∈ indices, 0 < p.length := fun p mem => List.length_pos_of_ne_nil (grouped.nonempty p mem)
  clear grouped
  have least : ∀ rows : List (List Nat), (∀ p ∈ rows, 0 < p.length) → rows.length ≤ (rows.map List.length).sum := by
    intro rows all
    induction rows with
    | nil => exact le_rfl
    | cons p rows ih =>
      obtain ⟨head, rest⟩ := List.forall_mem_cons.1 all
      have := ih rest
      rw [List.map_cons, List.sum_cons, List.length_cons]
      omega
  intro p mem
  have perm := List.perm_cons_erase mem
  have rest := least (indices.erase p) fun q there => each q (List.mem_of_mem_erase there)
  rw [(perm.map _).sum_eq, perm.length_eq, List.map_cons, List.sum_cons, List.length_cons] at sum
  omega

/-- The count of a step fills a group of the virtual pipeline. -/
def FillsGroup (sizes : Sizes) (count : Nat) : Prop :=
  1 < sizes.vpp → sizes.microbatchGroupSizePerVpStage ≤ count ∨ sizes.microbatchGroupSizePerVpStage = 1

/-- The grouping into `k` is forced, or leaves room for the longest sample. -/
def Roomy (k maxTokens : Nat) (lengths : List Nat) : Prop :=
  k = 1 ∨ k = lengths.length ∨ lengths.sum + (k - 1) * lengths.foldr max 0 ≤ k * maxTokens

instance (count : Nat) : Decidable (FillsGroup sizes count) := inferInstanceAs (Decidable (_ → _))

instance (k maxTokens : Nat) (lengths : List Nat) : Decidable (Roomy k maxTokens lengths) :=
  inferInstanceAs (Decidable (_ ∨ _))

theorem rounded_dvd_iff {count : Nat} :
    (1 < sizes.vpp → sizes.microbatchGroupSizePerVpStage ∣ rounded sizes count) ↔ FillsGroup sizes count := by
  have grouped := sizes.grouped
  rw [FillsGroup, rounded]
  refine imp_congr_right fun more => ?_
  rw [if_pos more]
  obtain less | le := Nat.lt_or_ge count sizes.microbatchGroupSizePerVpStage
  · rw [Nat.div_eq_of_lt less, Nat.zero_mul, Nat.max_eq_left (Nat.zero_le 1), Nat.dvd_one]
    constructor
    · exact .inr
    · rintro (le | one)
      · omega
      · exact one
  · have some : 1 ≤ count / sizes.microbatchGroupSizePerVpStage * sizes.microbatchGroupSizePerVpStage :=
      Nat.mul_pos (Nat.div_pos le grouped) grouped
    rw [Nat.max_eq_right some]
    exact ⟨fun _ => .inl le, fun _ => Nat.dvd_mul_left ..⟩

/-- One micro-batch of a count that fills a group is the count of first fit. -/
theorem count_le_one {count : Nat} (fills : FillsGroup sizes count) (one : rounded sizes count = 1) : count ≤ 1 := by
  have grouped := sizes.grouped
  rw [rounded] at one
  split at one
  · rename_i more
    have small : count / sizes.microbatchGroupSizePerVpStage * sizes.microbatchGroupSizePerVpStage ≤ 1 :=
      (Nat.le_max_right ..).trans one.le
    obtain le | single := fills more
    · have size : sizes.microbatchGroupSizePerVpStage ≤ 1 := (Nat.le_mul_of_pos_left _ (Nat.div_pos le grouped)).trans small
      have single : sizes.microbatchGroupSizePerVpStage = 1 := le_antisymm size grouped
      rwa [single, Nat.div_one, Nat.mul_one] at small
    · rwa [single, Nat.div_one, Nat.mul_one] at small
  · exact one.le

/-- **A micro-batch of a step is within the budget** where the step leaves room. -/
theorem Grouped.fits {r : Fin dpSize} {i maxTokens numMbs : Nat} {indices : List (List Nat)}
    (grouped : Grouped args data r i numMbs indices) (roomy : Roomy numMbs maxTokens (stepLengths args data r i))
    (one : numMbs = 1 → (stepLengths args data r i).length ≤ 1 ∨ (stepLengths args data r i).sum ≤ maxTokens) :
    ∀ p ∈ indices, 1 < p.length → totalOf (data r).totalLengths p ≤ maxTokens := by
  intro p mem several
  have count := grouped.count
  have total := grouped.total
  obtain forced | forced | room := roomy
  · -- the only micro-batch is the step
    obtain ⟨q, rfl⟩ := List.length_eq_one_iff.1 (count.trans forced)
    obtain rfl := List.mem_singleton.1 mem
    rw [List.map_singleton, List.sum_singleton] at total
    obtain few | le := one forced
    · have length := grouped.perm.length_eq
      rw [List.flatten_singleton, List.length_range'] at length
      omega
    · exact total.le.trans le
  · rw [forced] at grouped
    exact absurd (grouped.single p mem) (Nat.not_le.2 several)
  · have near : ∀ y ∈ indices.map (totalOf (data r).totalLengths),
        totalOf (data r).totalLengths p ≤ y + (stepLengths args data r i).foldr max 0 := by
      intro y there
      obtain ⟨q, hq, rfl⟩ := List.mem_map.1 there
      exact grouped.within _ (fun length there => List.le_max_of_le' 0 there le_rfl) p mem q hq
    have mean := length_mul_le_of_mem (List.mem_map_of_mem mem) near
    rw [List.length_map, count, total] at mean
    have pos : 0 < numMbs := count ▸ List.length_pos_of_mem mem
    exact Nat.le_of_mul_le_mul_left (mean.trans room) pos

/-- An entry of the counts, with its step. -/
theorem mem_counts {r : Fin dpSize} {maxTokensPerGpu : Nat} {entry : Nat × Nat}
    (mem : entry ∈ ((List.range (numStepsPerRollout args data r)).map
      (fun i => rounded sizes (stepCount args sizes data maxTokensPerGpu i))).zipIdx) :
    entry.2 < numStepsPerRollout args data r ∧ entry.1 = rounded sizes (stepCount args sizes data maxTokensPerGpu entry.2) := by
  have found := List.mem_zipIdx_iff_getElem?.1 mem
  rw [List.getElem?_map, Option.map_eq_some_iff] at found
  obtain ⟨i, here, same⟩ := found
  obtain ⟨lt, rfl⟩ := List.getElem?_eq_some_iff.1 here
  rw [List.length_range] at lt
  rw [List.getElem_range] at same
  exact ⟨lt, same.symm⟩

/-- The steps of a schedule, with their counts. -/
theorem scheduled_of_ok {r : Fin dpSize} {maxTokensPerGpu : Nat} {iterators : List DataIterator} {numMicrobatches : List Nat}
    (dynamic : args.useDynamicBatchSize = true) (budget : args.maxTokensPerGpu = some maxTokensPerGpu)
    (ok : getDataIterator args sizes data r = .ok (iterators, numMicrobatches)) :
    numMicrobatches = (List.range (numStepsPerRollout args data r)).map
        (fun i => rounded sizes (stepCount args sizes data maxTokensPerGpu i)) ∧
      ∃ steps, iterators = List.replicate sizes.vpp ⟨none, some steps.flatten, 0⟩ ∧ Scheduled args data r numMicrobatches steps := by
  obtain ⟨pos, counts, steps, run, same⟩ := getDataIterator_ok dynamic budget ok
  rw [allReduceMax_eq, List.map_map] at counts
  refine ⟨counts, steps, same, ?_⟩
  obtain ⟨length, all⟩ := List.forall₂_iff_zip.1 (mapM_forall₂.1 run)
  refine List.forall₂_iff_zip.2 ⟨length, fun {entry indices} pair => grouped_of_ok ?_ (all pair)⟩
  have mem := (List.of_mem_zip pair).1
  rw [counts] at mem
  obtain ⟨lt, count⟩ := mem_counts mem
  rw [count]
  exact rounded_pos (stepCount_pos pos lt)

theorem Scheduled.grouped {r : Fin dpSize} {numMicrobatches : List Nat} {steps : List (List (List Nat))}
    (scheduled : Scheduled args data r numMicrobatches steps) {step : List (List Nat)} (mem : step ∈ steps) :
    ∃ entry ∈ numMicrobatches.zipIdx, Grouped args data r entry.2 entry.1 step := by
  obtain ⟨j, lt, rfl⟩ := List.mem_iff_getElem.1 mem
  have short : j < numMicrobatches.zipIdx.length := scheduled.length_eq ▸ lt
  refine ⟨_, List.getElem_mem short, (List.forall₂_iff_zip.1 scheduled).2 ?_⟩
  exact List.mem_iff_getElem.2 ⟨j, by rw [List.length_zip]; omega, List.getElem_zip⟩

/-- The counts of a schedule are those of its micro-batches. -/
theorem Scheduled.count {r : Fin dpSize} {numMicrobatches : List Nat} {steps : List (List (List Nat))}
    (scheduled : Scheduled args data r numMicrobatches steps) : steps.flatten.length = numMicrobatches.sum := by
  have counts : List.Forall₂ (· = ·) (numMicrobatches.zipIdx.map Prod.fst) (steps.map List.length) := by
    rw [List.forall₂_map_left_iff, List.forall₂_map_right_iff]
    exact scheduled.imp fun entry indices grouped => grouped.count.symm
  rw [List.forall₂_eq_eq_eq] at counts
  rw [List.length_flatten, ← counts, List.zipIdx_map_fst]

/-- **The limits of the schedule.** The counts are multiples of the group size exactly where first fit fills a group; then a
micro-batch of several samples is within the budget if its step leaves room for the balancing,
in the index lists and in what the iterators hand out. -/
theorem within_limits {r : Fin dpSize} {maxTokensPerGpu : Nat} {iterators : List DataIterator} {numMicrobatches : List Nat}
    (dynamic : args.useDynamicBatchSize = true) (budget : args.maxTokensPerGpu = some maxTokensPerGpu)
    (ok : getDataIterator args sizes data r = .ok (iterators, numMicrobatches)) :
    ((1 < sizes.vpp → ∀ numMbs ∈ numMicrobatches, sizes.microbatchGroupSizePerVpStage ∣ numMbs) ↔
        ∀ i < numStepsPerRollout args data r, FillsGroup sizes (stepCount args sizes data maxTokensPerGpu i)) ∧
      ((∀ i < numStepsPerRollout args data r, FillsGroup sizes (stepCount args sizes data maxTokensPerGpu i) ∧
          Roomy (rounded sizes (stepCount args sizes data maxTokensPerGpu i)) (maxTokensPerGpu * sizes.cpSize)
            (stepLengths args data r i)) →
        ∀ it ∈ iterators, (∀ indices, it.microBatchIndices = some indices → ∀ p ∈ indices, 1 < p.length →
            totalOf (data r).totalLengths p ≤ maxTokensPerGpu * sizes.cpSize) ∧
          ∃ batches it', it.draw (data r).totalLengths numMicrobatches.sum = .ok (batches, it') ∧
            ∀ batch ∈ batches, 1 < batch.length → batch.sum ≤ maxTokensPerGpu * sizes.cpSize) := by
  obtain ⟨counts, steps, rfl, scheduled⟩ := scheduled_of_ok dynamic budget ok
  constructor
  · rw [counts, List.forall_mem_map]
    constructor
    · intro divides i lt
      exact rounded_dvd_iff.1 fun more => divides more i (List.mem_range.2 lt)
    · intro fills more i mem
      exact rounded_dvd_iff.2 (fills i (List.mem_range.1 mem)) more
  · intro limits it mem
    have fits : ∀ p ∈ steps.flatten, 1 < p.length → totalOf (data r).totalLengths p ≤ maxTokensPerGpu * sizes.cpSize := by
      intro p there several
      obtain ⟨step, here, there⟩ := List.mem_flatten.1 there
      obtain ⟨entry, mem, grouped⟩ := scheduled.grouped here
      rw [counts] at mem
      obtain ⟨lt, count⟩ := mem_counts mem
      obtain ⟨fills, roomy⟩ := limits entry.2 lt
      rw [← count] at roomy
      refine grouped.fits roomy (fun one => ?_) p there several
      have few := count_le_one fills (count.symm.trans one)
      exact getMinimumNumMicroBatchSize_one ((le_stepCount lt).trans few)
    have inside : ∀ p ∈ steps.flatten, ∀ j ∈ p, j < (data r).totalLengths.length := by
      intro p there j mem
      obtain ⟨step, here, there⟩ := List.mem_flatten.1 there
      obtain ⟨entry, counted, grouped⟩ := scheduled.grouped here
      rw [counts] at counted
      obtain ⟨lt, -⟩ := mem_counts counted
      exact grouped.inside lt there mem
    obtain rfl := List.eq_of_mem_replicate mem
    refine ⟨?_, _, _, scheduled.count ▸ draw_eq [] steps.flatten 0 inside, ?_⟩
    · intro indices found
      obtain rfl := Option.some.inj found
      exact fits
    · intro batch handed several
      obtain ⟨p, there, rfl⟩ := List.mem_map.1 handed
      rw [List.length_map] at several
      exact fits p there several

end Limits

def oneGpu : Sizes := ⟨1, none, 1, Nat.one_pos⟩

def lengthsOf (totalLengths : List Nat) : Fin 1 → RolloutData := fun _ => ⟨totalLengths, none⟩

def budgetOf (globalBatchSize : Nat) : Args := ⟨true, 0, some 15, globalBatchSize⟩

/-- Four samples in two micro-batches, and the virtual pipeline asks for pairs. -/
theorem scheduled_pairs :
    getDataIterator (budgetOf 4) ⟨1, some 2, 2, Nat.two_pos⟩ (lengthsOf [8, 2, 8, 2]) 0 =
      .ok (List.replicate 2 ⟨none, some [[1, 2], [0, 3]], 0⟩, [2]) := by
  decide +kernel

theorem within_limits_two : (∀ numMbs ∈ [2], 2 ∣ numMbs) ∧
    (∀ p ∈ [[1, 2], [0, 3]], 1 < p.length → totalOf [8, 2, 8, 2] p ≤ 15 * 1) ∧
    ∃ batches it', DataIterator.draw [8, 2, 8, 2] 2 ⟨none, some [[1, 2], [0, 3]], 0⟩ = .ok (batches, it') ∧
      ∀ batch ∈ batches, 1 < batch.length → batch.sum ≤ 15 * 1 := by
  obtain ⟨divides, fits⟩ := within_limits rfl rfl scheduled_pairs
  obtain ⟨listed, handed⟩ := fits (by decide +kernel) _ (List.mem_replicate.2 ⟨two_ne_zero, rfl⟩)
  exact ⟨divides.2 (by decide +kernel) (by decide), listed _ rfl, handed⟩

/-- Five samples that first fit packs into two micro-batches of 15 tokens, which the balancing regroups to 16 and 14; and two
samples in one micro-batch, where the virtual pipeline asks for pairs. -/
theorem exceeds_limits :
    (getDataIterator (budgetOf 5) oneGpu (lengthsOf [8, 7, 6, 5, 4]) 0 = .ok ([⟨none, some [[1, 3, 4], [0, 2]], 0⟩], [2]) ∧
      ¬ totalOf [8, 7, 6, 5, 4] [1, 3, 4] ≤ 15 * 1) ∧
    getDataIterator (budgetOf 2) ⟨1, some 2, 2, Nat.two_pos⟩ (lengthsOf [3, 4]) 0 =
      .ok ([⟨none, some [[0, 1]], 0⟩, ⟨none, some [[0, 1]], 0⟩], [1]) ∧ ¬ 2 ∣ 1 := by
  decide +kernel

/-! ## The schedule as a whole -/

section Whole

variable {args : Args} {sizes : Sizes} {dpSize : Nat} {data : Fin dpSize → RolloutData}

/-- **The dynamic schedule.** All ranks have the same counts, every step is partitioned into its count of micro-batches, no
assertion trips, and the reordering undoes the grouping. -/
theorem schedule_partitions {maxTokensPerGpu localGbs steps : Nat} (dynamic : args.useDynamicBatchSize = true)
    (budget : args.maxTokensPerGpu = some maxTokensPerGpu) (pos : 0 < localGbs) (gbs : ∀ r, numLocalGbs args data r = localGbs)
    (samples : ∀ r, (data r).totalLengths.length = steps * localGbs) :
    ∃ numMicrobatches, numMicrobatches.length = steps ∧ ∀ r, ∃ microBatches,
      getDataIterator args sizes data r =
        .ok (List.replicate sizes.vpp ⟨none, some microBatches.flatten, 0⟩, numMicrobatches) ∧
      Scheduled args data r numMicrobatches microBatches ∧
      ∀ {β : Type} (f : Nat → β), reorder (microBatches.flatten.flatten.map f) microBatches.flatten =
        .ok ((List.range (steps * localGbs)).map fun i => some (f i)) := by
  have turns : ∀ r, numStepsPerRollout args data r = steps := by
    intro r
    rw [numStepsPerRollout, gbs, samples, Nat.mul_div_cancel _ pos]
  refine ⟨(List.range steps).map fun i => rounded sizes (stepCount args sizes data maxTokensPerGpu i), ?_, fun r => ?_⟩
  · rw [List.length_map, List.length_range]
  have whole : ∀ {r : Fin dpSize} {i : Nat}, i < steps → (stepLengths args data r i).length = localGbs := by
    intro r i lt
    rw [length_stepLengths ((turns r).symm ▸ lt), gbs]
  -- no rank counts more micro-batches than there are samples in a step
  have few : ∀ {i : Nat}, i < steps → stepCount args sizes data maxTokensPerGpu i ≤ localGbs := by
    intro i lt
    apply Finset.sup_le
    intro r _
    rw [localCounts_getD ((turns r).symm ▸ lt)]
    exact (getMinimumNumMicroBatchSize_le ..).trans (whole lt).le
  obtain ⟨microBatches, run, scheduled⟩ := exists_mapM
    (((List.range steps).map fun i => rounded sizes (stepCount args sizes data maxTokensPerGpu i)).zipIdx)
    (f := fun entry => stepIndices args data r entry.2 entry.1)
    (Q := fun entry indices => Grouped args data r entry.2 entry.1 indices) fun entry mem => by
      rw [← turns r] at mem
      obtain ⟨lt, count⟩ := mem_counts mem
      have lt' := (turns r) ▸ lt
      apply stepIndices_spec
      · rw [count]
        exact rounded_pos (stepCount_pos ((gbs r).symm ▸ pos) lt)
      · rw [count, whole lt']
        exact rounded_le pos (few lt')
  have perm : microBatches.flatten.flatten.Perm (List.range (steps * localGbs)) := by
    have all := @perm_steps args _ data r localGbs 0 _ _ (gbs r) (fun i _ lt => whole (by
      rw [List.length_map, List.length_range] at lt
      omega)) scheduled
    rwa [List.length_map, List.length_range, Nat.zero_mul, ← List.range_eq_range'] at all
  have seen : decide (microBatches.flatten.flatten.toFinset.card = (data r).totalLengths.length) = true := by
    rw [decide_eq_true_iff, List.toFinset_eq_of_perm _ _ perm, List.toFinset_range, Finset.card_range, samples]
  refine ⟨microBatches, ?_, scheduled, fun f => reorder_spec perm f⟩
  rw [getDataIterator, if_neg ((gbs r).symm ▸ pos.ne')]
  simp only [dynamic, if_true, budget]
  rw [allReduceMax_eq, turns, List.map_map]
  refine (congrArg (· >>= _) run).trans ?_
  rw [Py.ok_bind, seen, pyAssert_true, Py.ok_bind]
  rfl

def twoRanks : Fin 2 → RolloutData := ![⟨[8, 2, 8, 2], none⟩, ⟨[3, 3, 3, 3], none⟩]

/-- Two ranks, of which the first needs two micro-batches and groups its samples across. -/
theorem schedule_partitions_two :
    (∃ numMicrobatches, numMicrobatches.length = 1 ∧ ∀ r, ∃ microBatches,
      getDataIterator (budgetOf 8) oneGpu twoRanks r =
        .ok (List.replicate 1 ⟨none, some microBatches.flatten, 0⟩, numMicrobatches) ∧
      Scheduled (budgetOf 8) twoRanks r numMicrobatches microBatches ∧
      reorder (microBatches.flatten.flatten.map (10 * ·)) microBatches.flatten = .ok [some 0, some 10, some 20, some 30]) ∧
    getDataIterator (budgetOf 8) oneGpu twoRanks ⟨0, Nat.two_pos⟩ = .ok ([⟨none, some [[1, 2], [0, 3]], 0⟩], [2]) := by
  obtain ⟨numMicrobatches, length, each⟩ := @schedule_partitions (budgetOf 8) oneGpu 2 twoRanks 15 4 1
    rfl rfl (by decide) (by decide) (by decide)
  refine ⟨⟨numMicrobatches, length, fun r => ?_⟩, by decide +kernel⟩
  obtain ⟨microBatches, ok, scheduled, undone⟩ := each r
  exact ⟨microBatches, ok, scheduled, undone (10 * ·)⟩

end Whole

end SlimeBoard.MicroBatches
