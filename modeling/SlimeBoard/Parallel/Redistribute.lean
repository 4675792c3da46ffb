import SlimeBoard.Parallel.Pairing

/-!
# From one contiguous chunk a rank to zigzag chunks

With `allgather_cp` the packed stream is cut into one contiguous chunk a rank.
`_allgather_cp_redistribute` puts the responses together again and cuts them in zigzag.
-/

namespace SlimeBoard

open Cp Collective

section Code

variable {α : Type}

/-- `torch.cat` of a list of vectors. -/
def torchCat (xss : List (List α)) : Py (List α) := if xss = [] then .error .runtimeError else .ok xss.flatten

/-- `x.split(lengths, dim=0)` -/
def torchSplit (lengths : List Nat) (x : List α) : Py (List (List α)) :=
  if lengths.sum = x.length then .ok (lengths.splitLengths x) else .error .runtimeError

/-- What a rank contributes to one response. -/
def fullResponse [Zero α] (chunkStart chunkEnd seqStart : Int) (value : List α) (totalLength responseLength : Nat) :
    Py (List α) := do
  let promptLength : Int := totalLength - responseLength
  let logitGlobalStart := seqStart + promptLength - 1
  let logitGlobalEnd := seqStart + totalLength - 1
  let first := max logitGlobalStart chunkStart
  let last := min logitGlobalEnd chunkEnd
  let fullResp := if last ≤ first then List.replicate responseLength 0
    else List.replicate (first - logitGlobalStart).toNat 0 ++
      padRight value 0 (responseLength - (last - logitGlobalStart))
  pyAssert (decide (fullResp.length = responseLength))
  return fullResp

/-- The first loop of `_allgather_cp_redistribute`. -/
def fullResponses [Zero α] (chunkStart chunkEnd : Int) : Int → List (List α) → List TrainSample → Py (List (List α))
  | seqStart, value :: values, s :: samples => do
    let full ← fullResponse chunkStart chunkEnd seqStart value s.totalLength s.responseLength
    let rest ← fullResponses chunkStart chunkEnd (seqStart + s.totalLength) values samples
    return full :: rest
  | _, _, _ => .ok []

/-- The second loop of `_allgather_cp_redistribute`, from sample `i` on. -/
def resliced {n : Nat} (rank : Fin n) (args : LayoutArgs) (maxSeqLens : Option (List Nat)) :
    Nat → List (List α) → List TrainSample → Py (List (List α))
  | i, fullResp :: fulls, s :: samples => do
    let maxSeqLen ← maxSeqLenAt maxSeqLens i
    let value ← sliceLogProbWithCp rank fullResp s.totalLength s.responseLength args.qkvFormat maxSeqLen
    let rest ← resliced rank args maxSeqLens (i + 1) fulls samples
    return value :: rest
  | _, _, _ => .ok []

/-- `_allgather_cp_redistribute` of one key, from the values of every rank to the values
of every rank. `logitsLocalLen` is `logits.size(1)`. -/
def allgatherCpRedistribute [AddCommMonoid α] {n : Nat} (args : LayoutArgs) (maxSeqLens : Option (List Nat))
    (samples : List TrainSample) (logitsLocalLen : Fin n → Nat) (values : Fin n → List (List α)) :
    Py (Fin n → List (List α)) := do
  let parts ← Collective.collect fun rank => do
    let chunkStart : Int := rank.val * logitsLocalLen rank
    let fulls ← fullResponses chunkStart (chunkStart + logitsLocalLen rank) 0 (values rank) samples
    torchCat fulls
  let allCat := allReduce (samples.map (·.responseLength)).sum parts
  Collective.collect fun rank => do
    let fulls ← torchSplit (samples.map (·.responseLength)) allCat
    resliced rank args maxSeqLens 0 fulls samples

end Code

namespace Cp

/-! ## The contiguous part of a response -/

/-- The part on rank `r` of a response whose logits begin at position `a` of the stream. -/
def window {α : Type} (r width a len : Nat) (xs : List α) : List α :=
  Span.pick (clipped a len (r * width, (r + 1) * width)) xs

theorem drop_take_drop {α : Type} (xs : List α) (a b c : Nat) :
    ((xs.drop a).take c).drop b = (xs.take (a + c)).drop (a + b) := by
  rw [List.take_drop, List.drop_drop]

/-- The part of the response that the bounds of `get_responses` leave. -/
theorem clipped_cases (a len start stop : Nat) :
    (clipped a len (start, stop) = [] ∧ min ((a + len : Nat) : Int) (stop : Int) ≤ max (a : Int) (start : Int)) ∨
      ∃ b c, b < c ∧ c ≤ len ∧ clipped a len (start, stop) = [(b, c)] ∧
        ¬min ((a + len : Nat) : Int) (stop : Int) ≤ max (a : Int) (start : Int) ∧
        max (a : Int) (start : Int) = (a + b : Nat) ∧ min ((a + len : Nat) : Int) (stop : Int) = (a + c : Nat) ∧
        start ≤ a + b ∧ a + c ≤ stop := by
  unfold clipped
  dsimp only
  by_cases inside : start - a < min stop (a + len) - a
  · refine Or.inr ⟨start - a, min stop (a + len) - a, inside, by omega, if_pos inside, ?_⟩
    omega
  · exact Or.inl ⟨if_neg inside, by omega⟩

section Chunk

variable {ρ : Type} {n : Nat} (rank : Fin n) {args : LayoutArgs} {s : TrainSample}

/-- **`get_responses` cuts out the part of a response in the rank's chunk of the stream.** -/
theorem responseChunk_window (gathered : args.allgatherCp = true) (parallel : n ≠ 1) (front : List ρ) {mine : List ρ} (back : List ρ)
    (whole : mine.length = s.totalLength) {width : Nat}
    (fits : (rank.val + 1) * width ≤ (front ++ (mine ++ back)).length) (maxSeqLen : Option Nat) (i : Nat) (stop : Int) :
    responseChunk rank args (((front ++ (mine ++ back)).drop (rank.val * width)).take width) maxSeqLen i stop
        front.length s =
      .ok ((window rank.val width (front.length + s.first) s.responseLength ((mine.drop s.first).take s.responseLength),
        window rank.val width (front.length + s.first) s.responseLength (s.tokens.drop s.promptLength)), stop) := by
  have total := s.totalLength_eq
  have prompt := s.promptLength_eq
  have tokens : s.tokens.length = s.totalLength := rfl
  have next : (rank.val + 1) * width = rank.val * width + width := Nat.succ_mul ..
  have width' : (((front ++ (mine ++ back)).drop (rank.val * width)).take width).length = width := by
    rw [List.length_take, List.length_drop]
    omega
  have start : (rank.val : Int) * width = (rank.val * width : Nat) := by push_cast; rfl
  have first : (front.length : Int) + (s.totalLength - s.responseLength) - 1 = (front.length + s.first : Nat) := by omega
  have last : (front.length : Int) + s.totalLength - 1 = (front.length + s.first + s.responseLength : Nat) := by omega
  have stop' : ((rank.val * width : Nat) : Int) + width = (rank.val * width + width : Nat) := by push_cast; rfl
  unfold responseChunk window
  dsimp only
  rw [if_neg parallel, if_pos gathered, width', start, first, last, stop', next]
  rcases clipped_cases (front.length + s.first) s.responseLength (rank.val * width) (rank.val * width + width) with
    ⟨none, empty⟩ | ⟨b, c, forward, bound, some, inside, start', stop', low, high⟩
  · rw [none, if_pos empty]
    rfl
  · rw [some, if_neg inside, start', stop', ← Nat.cast_sub low, ← Nat.cast_sub (by omega : rank.val * width ≤ _)]
    have rows : pySlice (((front ++ (mine ++ back)).drop (rank.val * width)).take width)
        (front.length + s.first + b - rank.val * width : Nat) (front.length + s.first + c - rank.val * width : Nat) =
        Span.pick [(b, c)] ((mine.drop s.first).take s.responseLength) := by
      calc pySlice (((front ++ (mine ++ back)).drop (rank.val * width)).take width)
            (front.length + s.first + b - rank.val * width : Nat) (front.length + s.first + c - rank.val * width : Nat)
        _ = ((front ++ (mine ++ back)).take (front.length + (s.first + c))).drop (front.length + (s.first + b)) := by
            have hi : rank.val * width + (front.length + s.first + c - rank.val * width) = front.length + (s.first + c) := by omega
            have lo : rank.val * width + (front.length + s.first + b - rank.val * width) = front.length + (s.first + b) := by omega
            rw [pySlice_nat, List.take_take, Nat.min_eq_left (by omega), drop_take_drop, hi, lo]
        _ = (mine.take (s.first + c)).drop (s.first + b) := by
            rw [List.take_length_add_append, List.drop_length_add_append, List.take_append_of_le_length (by omega)]
        _ = Span.pick [(b, c)] ((mine.drop s.first).take s.responseLength) := by
            rw [Span.pick_cons, Span.pick_nil, List.append_nil, List.take_take, Nat.min_eq_left bound, drop_take_drop]
    have words : pySlice s.tokens ((front.length + s.first + b : Nat) + 1 - front.length : Int)
        ((front.length + s.first + c : Nat) + 1 - front.length : Int) = Span.pick [(b, c)] (s.tokens.drop s.promptLength) := by
      rw [Span.pick_cons, Span.pick_nil, List.append_nil, drop_take_drop, ← pySlice_nat]
      congr 1
      · omega
      · omega
    have within : Span.Within 0 [(b, c)] s.responseLength := .cons (Nat.zero_le b) forward.le (.nil bound)
    rw [rows, words, assert_bind_ok]
    refine ⟨?_, rfl⟩
    rw [Span.length_pick within, Span.length_pick within]
    · rw [List.length_drop]
      omega
    · rw [List.length_take, List.length_drop]
      omega

/-- What `get_responses` yields on rank `r`, from sample `i` on, whose tokens begin at
position `start` of the stream. -/
def windowParts (r width : Nat) (g : TrainSample → Nat → Nat → ρ) : Nat → Nat → List TrainSample → List (List ρ × List Nat)
  | _, _, [] => []
  | i, start, s :: rest =>
    (window r width (start + s.first) s.responseLength (responseRows s (g s i)),
      window r width (start + s.first) s.responseLength (s.tokens.drop s.promptLength)) ::
        windowParts r width g (i + 1) (start + s.totalLength) rest

theorem responseRows_eq (s : TrainSample) (g : Nat → ρ) :
    (((List.range s.totalLength).map g).drop s.first).take s.responseLength = responseRows s g := by
  have total := s.totalLength_eq
  rw [List.take_drop, Span.window_range g (by omega), Nat.add_sub_cancel_left, responseRows, List.range_eq_range',
    shifted_rows, Nat.add_zero]

theorem responseChunks_window (gathered : args.allgatherCp = true) (parallel : n ≠ 1) (g : TrainSample → Nat → Nat → ρ)
    (back : List ρ) {width : Nat} {samples : List TrainSample} {i start : Nat} {front stream : List ρ}
    (begins : front.length = start)
    (laid : stream = front ++ ((samples.zipIdx i).flatMap (fun p => (List.range p.1.totalLength).map (g p.1 p.2)) ++ back))
    (fits : (rank.val + 1) * width ≤ stream.length) (stop : Int) :
    responseChunks rank args ((stream.drop (rank.val * width)).take width) none i stop start samples =
      .ok (windowParts rank.val width g i start samples) := by
  induction samples generalizing i start front stop with
  | nil => rfl
  | cons s rest ih =>
    have length : ((List.range s.totalLength).map (g s i)).length = s.totalLength := by
      rw [List.length_map, List.length_range]
    rw [List.zipIdx_cons, List.flatMap_cons, List.append_assoc] at laid
    have chunk := responseChunk_window rank gathered parallel front _ length (laid ▸ fits) none i stop
    rw [← laid, begins, responseRows_eq] at chunk
    rw [← List.append_assoc] at laid
    have tail : responseChunks rank args ((stream.drop (rank.val * width)).take width) none (i + 1) stop
        ((start + s.totalLength : Nat) : Int) rest = .ok (windowParts rank.val width g (i + 1) (start + s.totalLength) rest) :=
      ih (by rw [List.length_append, length, begins]) laid stop
    have found : maxSeqLenAt none i = .ok none := rfl
    rw [Nat.cast_add] at tail
    rw [responseChunks, found, Py.ok_bind, chunk, Py.ok_bind]
    dsimp only
    rw [tail]
    rfl

end Chunk

section Reduce

variable {α : Type}

/-- Rank `r` puts its window of a response between zeros. -/
theorem fullResponse_window [Zero α] (r : Nat) {width : Nat} (wide : 0 < width) (start : Nat) (s : TrainSample) (f : Nat → α) :
    fullResponse ((r : Int) * width) ((r : Int) * width + width) start
        (window r width (start + s.first) s.responseLength ((List.range s.responseLength).map f)) s.totalLength
        s.responseLength =
      .ok ((List.range s.responseLength).map fun k => if (start + s.first + k) / width = r then f k else 0) := by
  have total := s.totalLength_eq
  have begins : (r : Int) * width = (r * width : Nat) := by push_cast; rfl
  have ends : ((r * width : Nat) : Int) + width = (r * width + width : Nat) := by push_cast; rfl
  have first : (start : Int) + (s.totalLength - s.responseLength) - 1 = (start + s.first : Nat) := by omega
  have last : (start : Int) + s.totalLength - 1 = (start + s.first + s.responseLength : Nat) := by omega
  have next : (r + 1) * width = r * width + width := Nat.succ_mul ..
  have within := within_clipped (start + s.first) s.responseLength (r * width, r * width + width)
  have placed := Span.spread_pick within 0 f le_rfl
  have covers (k : Nat) (bound : k < s.responseLength) :
      Span.Covers (clipped (start + s.first) s.responseLength (r * width, r * width + width)) k ↔
        (start + s.first + k) / width = r := by
    rw [covers_clipped, ← next, mem_block_iff wide]
    exact and_iff_right bound
  have owned : (List.range' 0 (s.responseLength - 0)).map (fun k =>
      if Span.Covers (clipped (start + s.first) s.responseLength (r * width, r * width + width)) k then f k else 0) =
      (List.range s.responseLength).map fun k => if (start + s.first + k) / width = r then f k else 0 := by
    rw [Nat.sub_zero, ← List.range_eq_range']
    exact List.map_congr_left fun k mem => by simp only [covers k (List.mem_range.1 mem)]
  rw [owned] at placed
  unfold fullResponse window
  dsimp only
  rw [begins, ends, first, last, next, assert_bind_ok]
  rcases clipped_cases (start + s.first) s.responseLength (r * width) (r * width + width) with
    ⟨none, empty⟩ | ⟨b, c, forward, bound, some, inside, start', stop', _⟩
  · rw [none] at placed ⊢
    rw [if_pos empty, ← placed]
    exact ⟨List.length_replicate .., rfl⟩
  · rw [some] at placed ⊢
    have within : Span.Within 0 [(b, c)] s.responseLength := .cons (Nat.zero_le b) forward.le (.nil bound)
    have value : (Span.pick [(b, c)] ((List.range s.responseLength).map f)).length = c - b := by
      rw [Span.length_pick within (by rw [List.length_map, List.length_range])]
      rfl
    have left : (((start + s.first + b : Nat) : Int) - (start + s.first : Nat)).toNat = b := by omega
    have right : (s.responseLength : Int) - ((start + s.first + c : Nat) - (start + s.first : Nat)) =
        (s.responseLength - c : Nat) := by omega
    have whole : (((List.range s.responseLength).map fun k =>
        if (start + s.first + k) / width = r then f k else 0)).length = s.responseLength := by
      rw [List.length_map, List.length_range]
    have full : List.replicate b 0 ++ padRight (Span.pick [(b, c)] ((List.range s.responseLength).map f)) 0
        (s.responseLength - c : Nat) = (List.range s.responseLength).map fun k =>
          if (start + s.first + k) / width = r then f k else 0 := by
      rw [← placed, Span.spread, Span.spread, padRight, List.take_of_length_le (by omega), List.take_of_length_le (by omega)]
      rfl
    rw [if_neg inside, start', stop', left, right, full]
    exact ⟨whole, rfl⟩

/-- What rank `r` contributes to the responses from sample `i` on. -/
def ownParts [Zero α] (r width : Nat) (g : TrainSample → Nat → Nat → α) : Nat → Nat → List TrainSample → List (List α)
  | _, _, [] => []
  | i, start, s :: rest =>
    ((List.range s.responseLength).map fun k =>
      if (start + s.first + k) / width = r then g s i (s.first + k) else 0) ::
        ownParts r width g (i + 1) (start + s.totalLength) rest

theorem fullResponses_window [Zero α] (r : Nat) {width : Nat} (wide : 0 < width) (g : TrainSample → Nat → Nat → α)
    (i start : Nat) (samples : List TrainSample) :
    fullResponses ((r : Int) * width) ((r : Int) * width + width) start
        ((windowParts r width g i start samples).map (·.1)) samples = .ok (ownParts r width g i start samples) := by
  induction samples generalizing i start with
  | nil => rfl
  | cons s rest ih =>
    have next : (start : Int) + s.totalLength = (start + s.totalLength : Nat) := (Nat.cast_add ..).symm
    rw [windowParts, List.map_cons, fullResponses]
    dsimp only
    rw [responseRows, fullResponse_window r wide, Py.ok_bind, next, ih]
    rfl

/-- **The contributions add up to the responses.** -/
theorem ownParts_reduce [AddCommMonoid α] {n width : Nat} (wide : 0 < width) (g : TrainSample → Nat → Nat → α)
    (i start : Nat) {samples : List TrainSample} (fits : start + (samples.map (·.totalLength)).sum ≤ n * width) :
    allReduce (samples.map (·.responseLength)).sum (fun r : Fin n => (ownParts r.val width g i start samples).flatten) =
      ((samples.zipIdx i).map fun p => responseRows p.1 (g p.1 p.2)).flatten := by
  induction samples generalizing i start with
  | nil => rfl
  | cons s rest ih =>
    have total := s.totalLength_eq
    rw [List.map_cons, List.sum_cons] at fits
    have small : ∀ k < s.responseLength, (start + s.first + k) / width < n := by
      intro k bound
      rw [Nat.div_lt_iff_lt_mul wide]
      omega
    have mine := allReduce_owned _ small (fun k => g s i (s.first + k)) fun _ : Fin n => rfl
    rw [List.map_cons, List.sum_cons, List.zipIdx_cons, List.map_cons, List.flatten_cons,
      ← ih (i + 1) (start + s.totalLength) (by omega), responseRows, ← mine]
    exact allReduce_append _ _ fun r => by rw [List.length_map, List.length_range]

theorem splitLengths_flatten (xss : List (List α)) : (xss.map List.length).splitLengths xss.flatten = xss := by
  induction xss with
  | nil => rfl
  | cons xs xss ih => rw [List.map_cons, List.splitLengths_cons, List.flatten_cons, List.take_left, List.drop_left, ih]

end Reduce

section Whole

variable {α : Type} {n : Nat}

theorem resliced_eq (rank : Fin n) {args : LayoutArgs} (packed : args.qkvFormat = .thd)
    (g : TrainSample → Nat → Nat → α) (m i : Nat) (samples : List TrainSample) :
    resliced rank args none i ((samples.zipIdx i).map fun p => responseRows p.1 (g p.1 p.2)) samples =
      .ok ((samples.zipIdx i).map fun p => (responsePart args n rank.val m g p.1 p.2).1) := by
  induction samples generalizing i with
  | nil => rfl
  | cons s rest ih =>
    have found : maxSeqLenAt none i = .ok none := rfl
    have whole : (responseRows s (g s i)).length = s.responseLength := by
      rw [responseRows, List.length_map, List.length_range]
    have cut : lengthOf (s.first + 1 + s.responseLength) args.qkvFormat none = .ok s.totalLength := by
      rw [packed, s.totalLength_eq]
      rfl
    have same : cutLength args m s = s.totalLength := by
      unfold cutLength
      rw [packed]
    have sliced := sliceLogProb_part rank whole cut
    rw [← s.totalLength_eq] at sliced
    rw [List.zipIdx_cons, List.map_cons, List.map_cons, resliced, found, Py.ok_bind, sliced, Py.ok_bind, ih, Py.ok_bind,
      responsePart, same]
    rfl

/-- **The redistribution leaves the zigzag parts of the responses.** -/
theorem allgatherCpRedistribute_eq [AddCommMonoid α] {args : LayoutArgs} (packed : args.qkvFormat = .thd) {samples : List TrainSample}
    (nonempty : samples ≠ []) (g : TrainSample → Nat → Nat → α) {width : Nat} (wide : 0 < width)
    (fits : (samples.map (·.totalLength)).sum ≤ n * width) (m : Nat) :
    allgatherCpRedistribute args none samples (fun _ : Fin n => width)
        (fun r => (windowParts r.val width g 0 0 samples).map (·.1)) =
      .ok fun r => samples.zipIdx.map fun p => (responsePart args n r.val m g p.1 p.2).1 := by
  have padded (rank : Fin n) : (fullResponses ((rank.val : Int) * width) ((rank.val : Int) * width + width) 0
        ((windowParts rank.val width g 0 0 samples).map fun part => part.1) samples >>= torchCat) =
      .ok (ownParts rank.val width g 0 0 samples).flatten := by
    have full := fullResponses_window rank.val wide g 0 0 samples
    rw [Nat.cast_zero] at full
    rw [full, Py.ok_bind]
    obtain ⟨s, rest, rfl⟩ := List.exists_cons_of_ne_nil nonempty
    exact if_neg (List.cons_ne_nil _ _)
  have lengths : (samples.zipIdx.map fun p => responseRows p.1 (g p.1 p.2)).map List.length =
      samples.map (·.responseLength) := by
    rw [List.map_map, ← map_zipIdx_fst 0 TrainSample.responseLength]
    refine List.map_congr_left fun p _ => ?_
    rw [Function.comp_apply, responseRows, List.length_map, List.length_range]
  unfold allgatherCpRedistribute
  rw [collect_ok padded, Py.ok_bind, ownParts_reduce wide g 0 0 (by omega)]
  refine collect_ok fun rank => ?_
  rw [torchSplit, if_pos (by rw [List.length_flatten, lengths]), Py.ok_bind, ← lengths, splitLengths_flatten]
  exact resliced_eq rank packed g m 0 samples

theorem padded_length (padSize length : Nat) (positive : 0 < padSize) : ∃ k, length + padding padSize length = padSize * k := by
  have small := Nat.mod_lt length positive
  have division := Nat.div_add_mod length padSize
  unfold padding
  rcases Nat.eq_zero_or_pos (length % padSize) with even | odd
  · rw [even, Nat.sub_zero, Nat.mod_self]
    exact ⟨length / padSize, by omega⟩
  · rw [Nat.mod_eq_of_lt (by omega)]
    refine ⟨length / padSize + 1, ?_⟩
    rw [Nat.mul_succ]
    omega

/-- **With `allgather_cp` a rank gets its chunk of the padded stream.** -/
theorem layTokens_stream {args : LayoutArgs} (packed : args.qkvFormat = .thd) (gathered : args.allgatherCp = true)
    {samples : List TrainSample} (nonempty : samples ≠ []) (ranks : 0 < n) :
    ∃ width pad, 0 < width ∧ ((positions samples).flatten ++ List.replicate pad none).length = n * width ∧
      ∀ rank : Fin n, ∃ cuSeqlens, layTokens rank args none none (positions samples) =
        .ok ([((((positions samples).flatten ++ List.replicate pad none).drop (rank.val * width)).take width)],
          pad, cuSeqlens) := by
  have some : positions samples ≠ [] := by
    unfold positions
    simpa using nonempty
  have long := positions_pos nonempty
  obtain ⟨k, whole⟩ := padded_length (n * args.padSize) (positions samples).flatten.length
    (Nat.mul_pos ranks args.padSize.pos)
  rw [Nat.mul_assoc] at whole
  have wide : 0 < (args.padSize : Nat) * k := by
    rcases Nat.eq_zero_or_pos ((args.padSize : Nat) * k) with none | wide
    · rw [none, Nat.mul_zero] at whole
      omega
    · exact wide
  have length : ((positions samples).flatten ++
      List.replicate (padding (n * args.padSize) (positions samples).flatten.length) none).length = n * (args.padSize * k) := by
    rw [List.length_append, List.length_replicate, whole]
  refine ⟨args.padSize * k, _, wide, length, fun rank => ?_⟩
  unfold layTokens
  rw [if_neg some, packed]
  dsimp only
  rw [if_pos gathered, chunkOf_window rank _ wide length, Py.ok_bind]
  exact ⟨_, rfl⟩

/-- **`get_responses` finds the window of every response** in the rank's chunk. -/
theorem getResponses_stream (rank : Fin n) {args : LayoutArgs} (packed : args.qkvFormat = .thd)
    (gathered : args.allgatherCp = true) (parallel : n ≠ 1) {samples : List TrainSample} {width pad : Nat}
    (whole : ((positions samples).flatten ++ List.replicate pad none).length = n * width) {ρ : Type} (rows : Label → ρ)
    (scale : ρ → ρ) :
    getResponses rank args scale
        [((((positions samples).flatten ++ List.replicate pad none).drop (rank.val * width)).take width).map rows] none
        samples =
      .ok (windowParts rank.val width (fun _ i t => scale (rows (some (i, t)))) 0 0 samples) := by
  let value (label : Label) : ρ := scale (rows label)
  have laid : ((positions samples).flatten ++ List.replicate pad none).map value =
      [] ++ (samples.zipIdx.flatMap (fun p => (List.range p.1.totalLength).map fun t => value (some (p.2, t))) ++
        (List.replicate pad none).map value) := by
    unfold positions
    rw [List.map_append, ← List.flatMap_def, List.map_flatMap]
    simp only [List.map_map]
    rfl
  have fits : (rank.val + 1) * width ≤ (((positions samples).flatten ++ List.replicate pad none).map value).length := by
    rw [List.length_map, whole]
    exact Nat.mul_le_mul_right width rank.isLt
  have run := responseChunks_window rank gathered parallel (fun _ i t => value (some (i, t))) _ rfl laid fits 0
  have single (row : List ρ) : getResponses rank args scale [row] none samples =
      responseChunks rank args (row.map scale) none 0 0 0 samples := by
    unfold getResponses
    rw [packed]
    dsimp only
    rw [List.flatten_singleton]
    rfl
  rw [single, List.map_map, List.map_take, List.map_drop]
  exact run

end Whole

/-! ## A single rank -/

section Alone

variable {α : Type} {width : Nat} {samples : List TrainSample}

end Alone

end Cp

end SlimeBoard
