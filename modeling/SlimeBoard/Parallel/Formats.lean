import SlimeBoard.Parallel.Redistribute

/-!
# Gathering the responses of every layout

`get_responses` and `slice_log_prob_with_cp` cut responses by the length of the format:
the sample's own in the packed format, the maximum of the batch in the padded one.
`all_gather_with_cp` and the slices after it look for them by the sample's own length.
-/

namespace SlimeBoard

open Cp Collective

/-- The response tensors that the ranks get from their rows, one list a rank. -/
def responseTensors {α : Type} [AddCommMonoid α] {n : Nat} (args : LayoutArgs) (maxSeqLens : Option (List Nat))
    (samples : List TrainSample) (rows : Fin n → List (List α)) : Py (Fin n → List (List α)) := do
  let chunks ← Collective.collect fun rank => getResponses rank args id (rows rank) maxSeqLens samples
  let values := fun rank => (chunks rank).map (·.1)
  -- `logits.size(1)` is the length of a row
  if args.allgatherCp then
    allgatherCpRedistribute args maxSeqLens samples (fun rank => ((rows rank).headD []).length) values
  else return values

/-- `max_seq_lens[i] if qkv_format == "bshd" else None` -/
def maxSeqLenOf (args : LayoutArgs) (m : Nat) : Option Nat :=
  match args.qkvFormat with
  | .thd => none
  | .bshd => some m

/-- The values at the response of sample `i`, in token order. -/
def responseValues {α : Type} (v : Label → α) (s : TrainSample) (i : Nat) : List α :=
  (List.range s.responseLength).map fun k => v (some (i, s.first + k))

/-- Whatever the values at the positions of a micro-batch are, both producers leave the
same part of each response on a rank, a gather puts the parts together to the response in
token order, and a slice of the gathered response has the length of the rank's part. -/
def Reassembles (α : Type) [AddCommMonoid α] (n : Nat) (args : LayoutArgs) (m : Nat) (samples : List TrainSample) : Prop :=
  ∃ labels : Fin n → List (List Label),
    (∀ rank, ∃ pad cuSeqlens, layTokens rank args (maxSeqLens args m samples.length) none (positions samples) =
      .ok (labels rank, pad, cuSeqlens)) ∧
    ∀ v : Label → α, ∃ tensors : Fin n → List (List α),
      responseTensors args (maxSeqLens args m samples.length) samples (fun rank => (labels rank).map (List.map v)) =
        .ok tensors ∧
      ∀ (i : Nat) (s : TrainSample), samples[i]? = some s → ∃ part : Fin n → List α,
        (∀ rank, (tensors rank)[i]? = some (part rank) ∧
          sliceLogProbWithCp rank (responseValues v s i) s.totalLength s.responseLength args.qkvFormat
            (maxSeqLenOf args m) = .ok (part rank)) ∧
        allGatherWithCp part s.totalLength s.responseLength = .ok (fun _ => responseValues v s i) ∧
        ∀ rank, ∃ back, sliceLogProbWithCp rank (responseValues v s i) s.totalLength s.responseLength .thd none =
          .ok back ∧ back.length = (part rank).length

section Layouts

variable {α : Type} {n : Nat} {args : LayoutArgs} {m : Nat} {samples : List TrainSample}

theorem responsePart_values (r : Nat) {g : TrainSample → Nat → Nat → α} {v : Label → α} (s : TrainSample) (i : Nat)
    (same : ∀ t < s.totalLength, g s i t = v (some (i, t))) :
    (responsePart args n r m g s i).1 =
      part n r (chunkSizeOf n (cutLength args m s)) s.first s.responseLength (responseValues v s i) := by
  have total := s.totalLength_eq
  refine congrArg (part n r _ s.first s.responseLength) (List.map_congr_left fun k mem => ?_)
  have := List.mem_range.1 mem
  exact same _ (by omega)

theorem responsePart_labelAt (r : Nat) (v : Label → α) (s : TrainSample) (i : Nat) :
    (responsePart args n r m labelAt s i).1.map v =
      part n r (chunkSizeOf n (cutLength args m s)) s.first s.responseLength (responseValues v s i) := by
  unfold responsePart
  rw [responseRows_labelAt, ← part_map, List.map_map]
  rfl

theorem length_responseValues (v : Label → α) (s : TrainSample) (i : Nat) :
    (responseValues v s i).length = s.responseLength := by
  rw [responseValues, List.length_map, List.length_range]

theorem lengthOf_cutLength (args : LayoutArgs) (m : Nat) (s : TrainSample) :
    lengthOf (s.first + 1 + s.responseLength) args.qkvFormat (maxSeqLenOf args m) = .ok (cutLength args m s) := by
  rw [← s.totalLength_eq]
  unfold cutLength maxSeqLenOf
  cases args.qkvFormat with
  | thd => rfl
  | bshd => rfl

theorem Bounds.fits (ranks : 0 < n) (bounds : Bounds args m samples) {s : TrainSample} (mem : s ∈ samples) :
    s.first + s.responseLength ≤ 2 * n * chunkSizeOf n (cutLength args m s) := by
  have := s.totalLength_eq
  have := bounds s mem
  have := le_chunks ranks (cutLength args m s)
  omega

variable [AddCommMonoid α]

/-- **Every layout leaves a rank the part of each response that the format gives it.** -/
theorem responseTensors_eq (parallel : 1 < n) (supported : args.Supported) (nonempty : samples ≠ [])
    (bounds : Bounds args m samples) :
    ∃ labels : Fin n → List (List Label),
      (∀ rank, ∃ pad cuSeqlens, layTokens rank args (maxSeqLens args m samples.length) none (positions samples) =
        .ok (labels rank, pad, cuSeqlens)) ∧
      ∀ v : Label → α, responseTensors args (maxSeqLens args m samples.length) samples
          (fun rank => (labels rank).map (List.map v)) =
        .ok fun rank => samples.zipIdx.map fun p =>
          part n rank.val (chunkSizeOf n (cutLength args m p.1)) p.1.first p.1.responseLength (responseValues v p.1 p.2) := by
  cases gathered : args.allgatherCp with
  | false =>
    choose pads cuSeqlens laid using fun rank : Fin n => layTokens_positions rank (fun _ => Or.inr gathered) nonempty bounds
    refine ⟨_, fun rank => ⟨_, _, laid rank⟩, fun v => ?_⟩
    have run (rank : Fin n) := getResponses_labelRows rank (Or.inr gathered) (pads rank) bounds v id
    unfold responseTensors
    rw [collect_ok run, Py.ok_bind, gathered, if_neg Bool.false_ne_true]
    refine congrArg Except.ok (funext fun rank => ?_)
    rw [List.map_map, List.map_map]
    exact List.map_congr_left fun p _ => responsePart_labelAt rank.val v p.1 p.2
  | true =>
    have packed := supported.packed gathered
    have lens : maxSeqLens args m samples.length = none := by
      unfold maxSeqLens
      rw [packed]
    obtain ⟨width, pad, wide, whole, laid⟩ := layTokens_stream packed gathered nonempty (show 0 < n by omega)
    have fits : (samples.map (·.totalLength)).sum ≤ n * width := by
      rw [← length_positions, ← whole, List.length_append]
      omega
    rw [lens]
    refine ⟨_, fun rank => ⟨_, laid rank⟩, fun v => ?_⟩
    let row (rank : Fin n) : List α :=
      ((((positions samples).flatten ++ List.replicate pad none).drop (rank.val * width)).take width).map v
    have run (rank : Fin n) : getResponses rank args id [row rank] none samples =
        .ok (windowParts rank.val width (fun _ i t => v (some (i, t))) 0 0 samples) :=
      getResponses_stream rank packed gathered (by omega) whole v id
    have widths : (fun rank => (([row rank] : List (List α)).headD []).length) = fun _ => width := by
      funext rank
      have bound : (rank.val + 1) * width ≤ n * width := Nat.mul_le_mul_right width rank.isLt
      rw [Nat.succ_mul] at bound
      show (row rank).length = width
      rw [List.length_map, List.length_take, List.length_drop, whole]
      omega
    have cut := allgatherCpRedistribute_eq packed nonempty (fun _ i t => v (some (i, t))) wide fits m
    show responseTensors args none samples (fun rank => [row rank]) = _
    unfold responseTensors
    rw [collect_ok run, Py.ok_bind, gathered, if_pos rfl, widths, cut]
    exact congrArg Except.ok (funext fun rank => List.map_congr_left fun p _ =>
      responsePart_values rank.val p.1 p.2 fun _ _ => rfl)

/-- A gather that finds every response looks for each position where the format puts it. -/
theorem Reassembles.owner [Nontrivial α] (parallel : 1 < n) (bounds : Bounds args m samples)
    (reassembles : Reassembles α n args m samples) {s : TrainSample} (mem : s ∈ samples) {k : Nat}
    (inside : k < s.responseLength) :
    owner n (chunkSizeOf n (cutLength args m s)) (s.first + k) = owner n (chunkSizeOf n s.totalLength) (s.first + k) := by
  obtain ⟨labels, _, tensors⟩ := reassembles
  obtain ⟨a, nonzero⟩ := exists_ne (0 : α)
  obtain ⟨i, found⟩ := List.mem_iff_getElem?.1 mem
  rw [s.totalLength_eq]
  refine owner_of_allGather nonzero parallel (bounds.fits (by omega) mem) (fun xs whole => ?_) inside
  -- the values that make `xs` the response of sample `i`
  let v (label : Label) : α := label.elim 0 fun p => xs.getD (p.2 - s.first) 0
  have values : responseValues v s i = xs := by
    rw [← map_range_getD 0 xs, whole]
    refine List.map_congr_left fun k _ => ?_
    show xs.getD (s.first + k - s.first) 0 = _
    rw [Nat.add_sub_cancel_left]
  obtain ⟨_, _, gathered⟩ := tensors v
  obtain ⟨part, parts, whole', _⟩ := gathered i s found
  have same (rank : Fin n) : part rank = Span.pick (spans n rank.val (chunkSizeOf n (cutLength args m s)) s.first
      s.responseLength) xs := by
    have sliced := (parts rank).2
    rw [values, s.totalLength_eq, sliceLogProb_eq parallel rank whole (lengthOf_cutLength args m s),
      Except.ok.injEq] at sliced
    exact sliced.symm
  rw [values, s.totalLength_eq, funext same] at whole'
  exact whole'

/-- **The gathers find the responses exactly when every position of a response is on the
same rank by the length of the format as by the sample's own length.** -/
theorem reassembles_iff [Nontrivial α] (parallel : 1 < n) (supported : args.Supported) (nonempty : samples ≠ [])
    (bounds : Bounds args m samples) :
    Reassembles α n args m samples ↔ ∀ s ∈ samples, ∀ k < s.responseLength,
      owner n (chunkSizeOf n (cutLength args m s)) (s.first + k) = owner n (chunkSizeOf n s.totalLength) (s.first + k) := by
  refine ⟨fun reassembles s mem k inside => reassembles.owner parallel bounds mem inside, fun same => ?_⟩
  obtain ⟨labels, laid, tensors⟩ := responseTensors_eq (α := α) parallel supported nonempty bounds
  refine ⟨labels, laid, fun v => ⟨_, tensors v, fun i s found => ?_⟩⟩
  have mem := List.mem_of_getElem? found
  have fits := bounds.fits (show 0 < n by omega) mem
  have length := length_responseValues v s i
  have index : samples.zipIdx[i]? = some (s, i) := by
    rw [List.getElem?_zipIdx, found]
    simp
  refine ⟨fun rank => part n rank.val (chunkSizeOf n (cutLength args m s)) s.first s.responseLength
    (responseValues v s i), fun rank => ⟨?_, ?_⟩, ?_, fun rank => ?_⟩
  · rw [List.getElem?_map, index]
    rfl
  · rw [s.totalLength_eq]
    exact sliceLogProb_part rank length (lengthOf_cutLength args m s)
  · rw [s.totalLength_eq]
    refine allGather_part fits ?_ length
    rw [← s.totalLength_eq]
    exact same s mem
  · have fits' : s.first + s.responseLength ≤ 2 * n * chunkSizeOf n s.totalLength := by
      have := s.totalLength_eq
      have := le_chunks (show 0 < n by omega) s.totalLength
      omega
    have packed : lengthOf (s.first + 1 + s.responseLength) .thd none = .ok s.totalLength := by
      rw [← s.totalLength_eq]
      rfl
    have sliced := sliceLogProb_part rank length packed
    rw [← s.totalLength_eq] at sliced
    refine ⟨_, sliced, ?_⟩
    unfold part
    dsimp only
    rw [if_neg (by omega), if_neg (by omega), pick_spans_congr rank.isLt fits fits' (same s mem) length]

/-- Whatever the values at the positions of a gathered micro-batch are, the redistribution leaves
every rank the zigzag slice of each sample's response. -/
def Redistributes (α : Type) [AddCommMonoid α] (n : Nat) (padSize : ℕ+) (samples : List TrainSample) : Prop :=
  ∃ labels : Fin n → List (List Label),
    (∀ rank, ∃ pad cuSeqlens, layTokens rank ⟨.thd, true, padSize⟩ none none (positions samples) = .ok (labels rank, pad, cuSeqlens)) ∧
    ∀ v : Label → α, ∃ tensors : Fin n → List (List α),
      responseTensors ⟨.thd, true, padSize⟩ none samples (fun rank => (labels rank).map (List.map v)) = .ok tensors ∧
      ∀ rank, (tensors rank).length = samples.length ∧ ∀ (i : Nat) (s : TrainSample), samples[i]? = some s →
        ∃ value, (tensors rank)[i]? = some value ∧
          sliceLogProbWithCp rank (responseValues v s i) s.totalLength s.responseLength .thd none = .ok value

/-- **The redistribution turns contiguous slices into zigzag slices.** -/
theorem redistributes (parallel : 1 < n) (padSize : ℕ+) (nonempty : samples ≠ []) : Redistributes α n padSize samples := by
  have bounds : Bounds ⟨.thd, true, padSize⟩ 0 samples := fun _ _ => le_rfl
  have supported : LayoutArgs.Supported ⟨.thd, true, padSize⟩ := by
    intro format
    cases format
  obtain ⟨labels, laid, tensors⟩ := responseTensors_eq (α := α) parallel supported nonempty bounds
  refine ⟨labels, laid, fun v => ⟨_, tensors v, fun rank => ⟨?_, fun i s found => ?_⟩⟩⟩
  · rw [List.length_map, List.length_zipIdx]
  · have index : samples.zipIdx[i]? = some (s, i) := by
      rw [List.getElem?_zipIdx, found]
      simp
    have packed : lengthOf (s.first + 1 + s.responseLength) .thd none = .ok s.totalLength := by
      rw [← s.totalLength_eq]
      rfl
    have sliced := sliceLogProb_part rank (length_responseValues v s i) packed
    rw [← s.totalLength_eq] at sliced
    refine ⟨_, ?_, sliced⟩
    rw [List.getElem?_map, index]
    rfl

end Layouts

/-- The second of three samples has its response on both ranks. -/
theorem redistributes_three : Redistributes ℚ 2 (Nat.succPNat 1) [shortSample, shortSample, shortSample] :=
  redistributes (by omega) _ (List.cons_ne_nil _ _)

/-- The gathers find a packed micro-batch of a prompt of two tokens and a response of three. -/
theorem reassembles_iff_short : Reassembles ℚ 2 ⟨.thd, false, 8⟩ 0 [shortSample] ↔
    ∀ s ∈ [shortSample], ∀ k < s.responseLength, owner 2 (chunkSizeOf 2 (cutLength ⟨.thd, false, 8⟩ 0 s)) (s.first + k) =
      owner 2 (chunkSizeOf 2 s.totalLength) (s.first + k) :=
  reassembles_iff (by omega) (fun _ => rfl) (List.cons_ne_nil _ _) (fun _ _ => le_rfl)

/-- Padded to 128 tokens, its last two tokens are looked for on the other rank. -/
theorem reassembles_not_padded : ¬Reassembles ℚ 2 ⟨.bshd, false, 8⟩ 128 [shortSample] := by
  intro reassembles
  have bounds : Bounds ⟨.bshd, false, 8⟩ 128 [shortSample] := by
    intro s mem
    rw [List.mem_singleton.1 mem]
    decide
  have same := reassembles.owner (by omega) bounds (List.mem_singleton_self shortSample) (k := 1) (by decide)
  exact absurd same (by decide)

end SlimeBoard
