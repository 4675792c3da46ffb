import SlimeBoard.Parallel.Redistribute

/-!
# Routing replay

`fill_routing_replay` lays the experts that the engine reported for the tokens of a
micro-batch out for a rank, and records them for each layer with experts. It cuts them in
the packed zigzag layout, whatever the layout of the tokens is.
-/

namespace SlimeBoard

open Cp

/-- The expert ids of a token, one row a layer. -/
abbrev TokenExperts (numLayers topk numExperts : Nat) := Fin numLayers → Fin topk → Fin numExperts

/-- `moe_layer_freq`: every n-th layer, or a list of flags. -/
inductive MoeLayerFreq where
  | int (freq : Nat)
  | list (flags : List Nat)

/-- The ranks and sizes of tensor parallelism. -/
structure TensorParallel where
  tpSize : ℕ+
  dataPadSizeMultiplier : ℕ+
  sequenceParallel : Bool

/-- `tp_size * data_pad_size_multiplier` -/
def TensorParallel.padSize (tp : TensorParallel) : ℕ+ := tp.tpSize * tp.dataPadSizeMultiplier

section Code

variable {α : Type} {n : Nat} (rank : Fin n) (tp : TensorParallel) (tpRank : Fin tp.tpSize) (padRow : Nat → α)

/-- `pad_func`, where `padRow j` is row `j` of the padding -/
def padFunc (experts : List α) (pad : Nat) : List α := experts ++ (List.range pad).map padRow

/-- `slice_with_cp(tokens, pad_func)`, with the defaults of its other arguments -/
def sliceWithCpBy (tokens : List α) : List α :=
  if n = 1 then tokens
  else
    let chunkSize := chunkSizeOf n tokens.length
    let tokens := padFunc padRow tokens (2 * n * chunkSize - tokens.length)
    pySlice tokens (chunkSize * rank.val : Nat) (chunkSize * (rank.val + 1) : Nat) ++
      pySlice tokens (chunkSize * (2 * n - rank.val - 1) : Nat) (chunkSize * (2 * n - rank.val) : Nat)

/-- The rows of a tensor parallel rank, all of them without `sequence_parallel`. -/
def sequenceParallelSlice (rows : List α) : Py (List α) :=
  if tp.sequenceParallel then do
    let seqlen := rows.length
    pyAssert (decide (seqlen % tp.tpSize = 0))
    return pySlice rows (seqlen / tp.tpSize * tpRank.val : Nat) (seqlen / tp.tpSize * (tpRank.val + 1) : Nat)
  else return rows

/-- The rows of the experts of a micro-batch before they are split for sequence parallelism. -/
def paddedExperts (routedExperts : List (List α)) : Py (List α) :=
  -- `torch.cat` does not take an empty list
  if routedExperts = [] then .error .runtimeError
  else
    let rows := (routedExperts.map fun r => sliceWithCpBy rank padRow (padFunc padRow r 1)).flatten
    let pad := padding tp.padSize rows.length
    .ok (if pad ≠ 0 then padFunc padRow rows pad else rows)

/-- The layers with experts, of model chunks with an offset and a number of layers each. -/
def moeLayers (moeLayerFreq : MoeLayerFreq) (numLayers : Nat) (chunks : List (Nat × Nat)) : Py (List Nat) := do
  let layers := chunks.flatMap fun chunk => List.range' chunk.1 chunk.2
  match moeLayerFreq with
  | .int freq => return layers.filter fun layer => layer % freq = 0
  | .list flags =>
    pyAssert (decide (layers = [] ∨ flags.length = numLayers))
    let flagged ← layers.mapM fun layer => do
      let flag ← pyIndex flags layer
      return (layer, flag)
    return (flagged.filter fun entry => entry.2 ≠ 0).map (·.1)

end Code

section Record

variable {numLayers topk numExperts : Nat} [NeZero numExperts]

/-- Row `j` of the padding: `arange % num_experts`, reshaped -/
def padExperts (j : Nat) : TokenExperts numLayers topk numExperts :=
  fun layer k => Fin.ofNat numExperts ((j * numLayers + layer) * topk + k)

/-- What a pass of `fill_routing_replay` records of a micro-batch: the rows of each layer with
experts, in the order of the `numReplays` objects that record them. -/
def fillRoutingReplay {n : Nat} (rank : Fin n) (tp : TensorParallel) (tpRank : Fin tp.tpSize) (moeLayerFreq : MoeLayerFreq)
    (chunks : List (Nat × Nat)) (numReplays : Nat) (tokens : List (List Nat))
    (routedExperts : List (List (TokenExperts numLayers topk numExperts))) : Py (List (List (Fin topk → Fin numExperts))) := do
  pyAssert (decide (routedExperts.map List.length = tokens.map fun t => t.length - 1))
  let rows ← paddedExperts rank tp padExperts routedExperts
  let rows ← sequenceParallelSlice tp tpRank rows
  let layers ← moeLayers moeLayerFreq numLayers chunks
  let recorded ← layers.mapM fun layer =>
    if inside : layer < numLayers then .ok (rows.map fun row => row ⟨layer, inside⟩) else .error .indexError
  pyAssert (decide (recorded.length = numReplays))
  return recorded

end Record

/-! ## The rows of the experts -/

/-- What stands in a row of experts: those of a token, or a row of padding. -/
abbrev ReplayRow := (Nat × Nat) ⊕ Nat

/-- The row at position `t` of sample `i`; nothing is reported for its last token. -/
def replayAt (s : TrainSample) (i t : Nat) : ReplayRow :=
  if t + 1 < s.totalLength then .inl (i, t) else .inr (t - if t < s.totalLength then s.totalLength - 1 else s.totalLength)

/-- The experts reported for the tokens of a micro-batch. -/
def recordsOf {α : Type} (samples : List TrainSample) (reported : Nat × Nat → α) : List (List α) :=
  samples.zipIdx.map fun p => (List.range (p.1.totalLength - 1)).map fun t => reported (p.2, t)

section Rows

variable {α : Type} {n : Nat} (rank : Fin n)

/-- The rows of rank `r`, without the padding at the end. -/
def replaySlices (n r : Nat) (samples : List TrainSample) : List ReplayRow :=
  samples.zipIdx.flatMap fun p => localRows n r p.1.totalLength (replayAt p.1 p.2)

/-- The rows of rank `r`. -/
def replayRows (n r padSize : Nat) (samples : List TrainSample) : List ReplayRow :=
  replaySlices n r samples ++ (List.range (padding padSize (replaySlices n r samples).length)).map .inr

theorem padded_records (padRow : Nat → α) (s : TrainSample) (i : Nat) (reported : Nat × Nat → α) {k : Nat}
    (fits : s.totalLength ≤ k) :
    padFunc padRow (padFunc padRow ((List.range (s.totalLength - 1)).map fun t => reported (i, t)) 1) (k - s.totalLength) =
      (List.range k).map fun t => Sum.elim reported padRow (replayAt s i t) := by
  have total := s.totalLength_eq
  have parts : List.range k = List.range (s.totalLength - 1) ++ (List.range 1).map (s.totalLength - 1 + ·) ++
      (List.range (k - s.totalLength)).map (s.totalLength + ·) := by
    have whole : k = s.totalLength - 1 + 1 + (k - s.totalLength) := by omega
    conv_lhs => rw [whole, List.range_add, List.range_add]
    rw [show s.totalLength - 1 + 1 = s.totalLength by omega]
  unfold padFunc
  rw [parts, List.map_append, List.map_append, List.map_map, List.map_map]
  refine congr (congrArg _ (congr (congrArg _ ?_) ?_)) ?_
  · refine List.map_congr_left fun t mem => ?_
    have inner := List.mem_range.1 mem
    rw [replayAt, if_pos (by omega)]
    rfl
  · refine List.map_congr_left fun t mem => ?_
    have last := List.mem_range.1 mem
    rw [Function.comp_apply, replayAt, if_neg (by omega), if_pos (by omega), Nat.add_sub_cancel_left]
    rfl
  · refine List.map_congr_left fun t _ => ?_
    rw [Function.comp_apply, replayAt, if_neg (by omega), if_neg (by omega), Nat.add_sub_cancel_left]
    rfl

/-- **The slice of a sample's experts has the rows that a rank owns in the zigzag layout.** -/
theorem sliceWithCpBy_records (padRow : Nat → α) (s : TrainSample) (i : Nat) (reported : Nat × Nat → α) :
    sliceWithCpBy rank padRow (padFunc padRow ((List.range (s.totalLength - 1)).map fun t => reported (i, t)) 1) =
      (localRows n rank.val s.totalLength (replayAt s i)).map (Sum.elim reported padRow) := by
  have total := s.totalLength_eq
  have ranks := rank.isLt
  have length : (padFunc padRow ((List.range (s.totalLength - 1)).map fun t => reported (i, t)) 1).length = s.totalLength := by
    simp only [padFunc, List.length_append, List.length_map, List.length_range]
    omega
  rw [localRows_map]
  unfold sliceWithCpBy localRows
  rw [length]
  split
  · have whole := padded_records padRow s i reported le_rfl
    rw [Nat.sub_self] at whole
    rw [← whole]
    exact (List.append_nil _).symm
  · let c := chunkSizeOf n s.totalLength
    have window (second : Bool) : pySlice ((List.range (2 * n * c)).map fun t => Sum.elim reported padRow (replayAt s i t))
        ((chunk n rank.val c second).1 : Nat) ((chunk n rank.val c second).2 : Nat) =
        (List.range' (chunk n rank.val c second).1 c).map fun t => Sum.elim reported padRow (replayAt s i t) := by
      rw [pySlice_nat, Span.window_range _ (chunk_fits ranks c second), chunk_size ranks, Nat.add_sub_cancel_left]
    have zig : c * rank.val = (chunk n rank.val c false).1 := Nat.mul_comm ..
    have zig' : c * (rank.val + 1) = (chunk n rank.val c false).2 := Nat.mul_comm ..
    have mirror : c * (2 * n - rank.val - 1) = (chunk n rank.val c true).1 := Nat.mul_comm ..
    have mirror' : c * (2 * n - rank.val) = (chunk n rank.val c true).2 := Nat.mul_comm ..
    dsimp only
    rw [padded_records padRow s i reported (le_chunks (by omega) _), zig, zig', mirror, mirror', window, window]

/-- **The rows of the experts of a micro-batch.** -/
theorem paddedExperts_eq (tp : TensorParallel) (padRow : Nat → α) {samples : List TrainSample} (nonempty : samples ≠ [])
    (reported : Nat × Nat → α) : paddedExperts rank tp padRow (recordsOf samples reported) =
      .ok ((replayRows n rank.val tp.padSize samples).map (Sum.elim reported padRow)) := by
  have some : recordsOf samples reported ≠ [] := by
    unfold recordsOf
    simpa using nonempty
  have slices : ((recordsOf samples reported).map fun r => sliceWithCpBy rank padRow (padFunc padRow r 1)).flatten =
      (replaySlices n rank.val samples).map (Sum.elim reported padRow) := by
    unfold recordsOf replaySlices
    rw [List.map_map, List.map_flatMap, List.flatMap_def]
    exact congrArg List.flatten (List.map_congr_left fun p _ => sliceWithCpBy_records rank padRow p.1 p.2 reported)
  unfold paddedExperts
  dsimp only
  rw [if_neg some, slices, List.length_map]
  unfold replayRows padFunc
  split
  · rw [List.map_append, List.map_map]
    rfl
  · rename_i none
    rw [not_not.1 none]
    simp

end Rows

end SlimeBoard
