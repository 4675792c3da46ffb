import SlimeBoard.Parallel.Gather

/-!
# Micro-batches and their logits

`get_batch` lays the tokens of a micro-batch out for a rank; the model returns one row
of logits for each of them. `get_responses` finds the rows of each response again, from
the lengths alone.
-/

namespace SlimeBoard

open Cp

/-- A sample of a micro-batch: a prompt, a response and the loss mask of the response. -/
structure TrainSample where
  tokens : List Nat
  responseLength : Nat
  lossMask : List Nat
  nonempty : 1 ≤ responseLength
  shorter : responseLength < tokens.length
  masked : lossMask.length = responseLength

namespace TrainSample

def totalLength (s : TrainSample) : Nat := s.tokens.length

def promptLength (s : TrainSample) : Nat := s.totalLength - s.responseLength

/-- `F.pad(loss_mask, (prompt_length - 1, 1), value=0)` -/
def paddedMask (s : TrainSample) : List Nat := List.replicate (s.promptLength - 1) 0 ++ s.lossMask ++ [0]

/-- The position of the first logits of the response. -/
def first (s : TrainSample) : Nat := s.promptLength - 1

theorem totalLength_eq (s : TrainSample) : s.totalLength = s.first + 1 + s.responseLength := by
  have := s.shorter
  unfold first promptLength totalLength
  omega

theorem promptLength_eq (s : TrainSample) : s.promptLength = s.first + 1 := by
  have := s.totalLength_eq
  unfold promptLength
  omega

end TrainSample

/-- The arguments that choose a layout. `padSize` is the product of the tensor parallel
size and `data_pad_size_multiplier`. -/
structure LayoutArgs where
  qkvFormat : QkvFormat
  allgatherCp : Bool
  padSize : ℕ+

/-- `get_batch` gathers the stream of `allgather_cp` in the packed format only. -/
def LayoutArgs.Supported (args : LayoutArgs) : Prop := args.qkvFormat = .bshd → args.allgatherCp = false

theorem LayoutArgs.Supported.packed {args : LayoutArgs} (supported : args.Supported) (gathered : args.allgatherCp = true) :
    args.qkvFormat = .thd := by
  cases format : args.qkvFormat with
  | thd => rfl
  | bshd => exact absurd (gathered.symm.trans (supported format)) (by decide)

section Layout

variable {α : Type} {n : Nat} (rank : Fin n)

/-- `F.pad` on the right; a negative pad cuts. -/
def padRight (xs : List α) (padValue : α) (pad : Int) : List α :=
  xs.take (xs.length + pad).toNat ++ List.replicate pad.toNat padValue

def sliceWithCp (tokens : List α) (padValue : α) (qkvFormat : QkvFormat) (maxSeqLen : Option Nat) : Py (List α) := do
  let length ← lengthOf tokens.length qkvFormat maxSeqLen
  if n = 1 then
    match qkvFormat with
    | .bshd => return padRight tokens padValue (length - tokens.length)
    | .thd => return tokens
  else
    let chunkSize := chunkSizeOf n length
    let tokens := padRight tokens padValue (2 * n * chunkSize - tokens.length)
    return pySlice tokens (chunkSize * rank.val : Nat) (chunkSize * (rank.val + 1) : Nat) ++
      pySlice tokens (chunkSize * (2 * n - rank.val - 1) : Nat) (chunkSize * (2 * n - rank.val) : Nat)

/-- `(pad_size - len % pad_size) % pad_size` -/
def padding (padSize length : Nat) : Nat := (padSize - length % padSize) % padSize

/-- `xs.chunk(n)[rank]` -/
def chunkOf (xs : List α) : Py (List α) :=
  let size := (xs.length + n - 1) / n
  if rank.val * size < xs.length then .ok ((xs.drop (rank.val * size)).take size) else .error .indexError

/-- The rows of tokens that `get_batch` gives a rank, with the padding and the
`cu_seqlens` of the packed layouts. -/
def layTokens (args : LayoutArgs) (maxSeqLens : Option (List Nat)) (padValue : α) (tokens : List (List α)) :
    Py (List (List α) × Nat × Option (List Nat)) :=
  -- neither `torch.stack` nor `torch.cat` takes an empty list
  if tokens = [] then .error .runtimeError
  else match args.qkvFormat with
  | .bshd =>
    match maxSeqLens with
    | some (maxSeqlen :: _) => do
      pyAssert (tokens.all fun t => decide (t.length ≤ maxSeqlen))
      let rows ← tokens.mapM fun t => sliceWithCp rank t padValue .bshd (some maxSeqlen)
      return (rows, 0, none)
    | _ => .error .typeError
  | .thd =>
    if args.allgatherCp then do
      let stream := tokens.flatten
      let pad := padding (n * args.padSize) stream.length
      let cuSeqlens := (tokens.map List.length ++ if pad ≠ 0 then [pad] else []).scanl (· + ·) 0
      let row ← chunkOf rank (stream ++ List.replicate pad padValue)
      return ([row], pad, some cuSeqlens)
    else do
      let slices ← tokens.mapM fun t => sliceWithCp rank t padValue .thd none
      let pad := padding args.padSize slices.flatten.length
      let cuSeqlens := (slices.map List.length ++ if pad ≠ 0 then [pad] else []).scanl (· + ·) 0
      return ([slices.flatten ++ List.replicate pad padValue], pad, some (cuSeqlens.map (· * n)))

/-- The rows of loss masks that `get_batch` gives a rank, with the padding of the tokens. -/
def layMasks (args : LayoutArgs) (maxSeqLens : Option (List Nat)) (pad : Nat) (masks : List (List Nat)) :
    Py (List (List Nat)) :=
  match args.qkvFormat with
  | .bshd =>
    -- whole masks, which `torch.stack` takes if they have one length
    if args.allgatherCp then
      if masks.all fun mask => mask.length = (masks.headD []).length then .ok masks else .error .runtimeError
    else masks.mapM fun mask => sliceWithCp rank mask 0 .bshd (maxSeqLens.bind List.head?)
  | .thd =>
    if args.allgatherCp then do
      let row ← chunkOf rank (masks.flatten ++ List.replicate pad 0)
      return [row]
    else do
      -- the packed format does not read `max_seqlen`
      let slices ← masks.mapM fun mask => sliceWithCp rank mask 0 .thd none
      return [slices.flatten ++ List.replicate pad 0]

/-- A micro-batch as the model receives it. -/
structure Batch where
  tokens : List (List Nat)
  /-- of `packed_seq_params` -/
  cuSeqlens : Option (List Nat)
  fullLossMasks : List (List Nat)

def getBatch (args : LayoutArgs) (maxSeqLens : Option (List Nat)) (samples : List TrainSample) : Py Batch := do
  let (tokens, pad, cuSeqlens) ← layTokens rank args maxSeqLens 0 (samples.map (·.tokens))
  let masks ← layMasks rank args maxSeqLens pad (samples.map (·.paddedMask))
  pyAssert (decide (masks.map List.length = tokens.map List.length))
  return ⟨tokens, cuSeqlens, masks⟩

end Layout

section Responses

variable {ρ : Type} {n : Nat} (rank : Fin n)

/-- The `end` of sample `i` without context parallelism. -/
def sampleEnd (qkvFormat : QkvFormat) (maxSeqLen : Option Nat) (i : Nat) (stop totalLength : Int) : Py Int :=
  match qkvFormat, maxSeqLen with
  | .bshd, some maxSeqLen => .ok (maxSeqLen * i + totalLength)
  | .bshd, none => .error .typeError
  | .thd, _ => .ok (stop + totalLength)

/-- The logits and tokens of one response, and the new `end`. -/
def responseChunk (args : LayoutArgs) (logits : List ρ) (maxSeqLen : Option Nat) (i : Nat) (stop seqStart : Int)
    (s : TrainSample) : Py ((List ρ × List Nat) × Int) :=
  let totalLength : Int := s.totalLength
  let responseLength : Int := s.responseLength
  if n = 1 then do
    let stop ← sampleEnd args.qkvFormat maxSeqLen i stop totalLength
    let start := stop - responseLength
    return ((pySlice logits (start - 1) (stop - 1), pySlice s.tokens (-responseLength) s.tokens.length), stop)
  else if args.allgatherCp then do
    let logitsLocalLen : Int := logits.length
    let chunkStart := rank.val * logitsLocalLen
    let chunkEnd := chunkStart + logitsLocalLen
    let promptLength := totalLength - responseLength
    let logitGlobalStart := seqStart + promptLength - 1
    let logitGlobalEnd := seqStart + totalLength - 1
    let first := max logitGlobalStart chunkStart
    let last := min logitGlobalEnd chunkEnd
    let pair := if last ≤ first then ([], [])
      else (pySlice logits (first - chunkStart) (last - chunkStart),
        pySlice s.tokens (first + 1 - seqStart) (last + 1 - seqStart))
    pyAssert (decide (pair.1.length = pair.2.length))
    return (pair, stop)
  else do
    let o ← getLogitsAndTokensOffsetWithCp rank s.totalLength s.responseLength args.qkvFormat maxSeqLen
    let logits0 := pySlice logits stop (stop + o.chunkSize)
    let logits1 := pySlice logits (stop + o.chunkSize) (stop + 2 * o.chunkSize)
    let logits0 := pySlice logits0 (o.logits.1.1 - o.chunks.1.1) (o.logits.1.2 - o.chunks.1.1)
    let tokens0 := pySlice s.tokens o.tokens.1.1 o.tokens.1.2
    let logits1 := pySlice logits1 (o.logits.2.1 - o.chunks.2.1) (o.logits.2.2 - o.chunks.2.1)
    let tokens1 := pySlice s.tokens o.tokens.2.1 o.tokens.2.2
    pyAssert (decide (logits0.length = tokens0.length))
    pyAssert (decide (logits1.length = tokens1.length))
    return ((logits0 ++ logits1, tokens0 ++ tokens1), stop + 2 * o.chunkSize)

/-- `max_seq_lens[i] if max_seq_lens is not None else None` -/
def maxSeqLenAt (maxSeqLens : Option (List Nat)) (i : Nat) : Py (Option Nat) :=
  match maxSeqLens with
  | none => .ok none
  | some lens =>
    match lens[i]? with
    | some maxSeqLen => .ok (some maxSeqLen)
    | none => .error .indexError

/-- The loop of `get_responses`. -/
def responseChunks (args : LayoutArgs) (logits : List ρ) (maxSeqLens : Option (List Nat)) :
    Nat → Int → Int → List TrainSample → Py (List (List ρ × List Nat))
  | _, _, _, [] => .ok []
  | i, stop, seqStart, s :: rest => do
    let maxSeqLen ← maxSeqLenAt maxSeqLens i
    let (chunk, stop) ← responseChunk rank args logits maxSeqLen i stop seqStart s
    let chunks ← responseChunks args logits maxSeqLens (i + 1) stop (seqStart + s.totalLength) rest
    return chunk :: chunks

/-- `get_responses` on rows of logits; `scale` is the division by the temperature. -/
def getResponses (args : LayoutArgs) (scale : ρ → ρ) (logits : List (List ρ)) (maxSeqLens : Option (List Nat))
    (samples : List TrainSample) : Py (List (List ρ × List Nat)) := do
  let logits ← (match args.qkvFormat with
    | .thd => do
      pyAssert (decide (logits.length = 1))
      pure logits.flatten
    | .bshd => do
      pyAssert maxSeqLens.isSome
      pure logits.flatten)
  responseChunks rank args (logits.map scale) maxSeqLens 0 0 0 samples

end Responses

end SlimeBoard
