import SlimeBoard.Lib.Rows
import SlimeBoard.Parallel.Pairing

/-!
# Hugging Face attention on zigzag sequences

The layer gathers the hidden states of the context-parallel ranks, puts every segment of
`cu_seqlens` in the order of the sequence, runs the Hugging Face module on all of it and cuts its
own chunks out again. `get_batch` has cut the samples one by one.
-/

namespace SlimeBoard.HfAttention

open Cp Rows

section Code

variable {ρ : Type}

/-- `torch.cat` of sequences -/
def torchCat (parts : List (List ρ)) : Py (List ρ) := if parts = [] then .error .runtimeError else .ok parts.flatten

/-- `torch.chunk(xs, k)`: nothing is cut into `k` pieces. -/
def torchChunk (xs : List ρ) (k : Nat) : List (List ρ) :=
  if xs.length = 0 then List.replicate k [] else xs.toChunks ((xs.length + k - 1) / k)

/-- One turn of the loop over `cu_seqlens` before `hf_forward`. -/
def wholeTurn (hiddenStatesList : List (List ρ)) (cpSize start stop : Nat) : List (List ρ) :=
  let localStart := start / cpSize
  let localStop := stop / cpSize
  let seqlen := stop - start
  let chunkSize := seqlen / 2 / cpSize
  (hiddenStatesList.map fun h => pySlice h localStart (localStart + chunkSize : Nat)) ++
    (hiddenStatesList.map fun h => pySlice h (localStart + chunkSize : Nat) localStop).reverse

/-- One turn of the loop after `hf_forward`. -/
def outputTurn (cpRank cpSize : Nat) (output : List ρ) (start stop : Nat) : Py (List (List ρ)) := do
  let seq := pySlice output start stop
  let chunks := torchChunk seq (2 * cpSize)
  let first ← pyIndex chunks cpRank
  let second ← pyIndex chunks (2 * cpSize - 1 - cpRank)
  return [first, second]

variable {n m : Nat}

/-- The hidden states that `hf_forward` receives. -/
def assembled (hiddenStates : Fin n → List ρ) (cpRank : Fin n) (cuSeqlens : List Nat) : Py (List ρ) :=
  if 1 < n then
    torchCat ((cuSeqlens.zip cuSeqlens.tail).flatMap fun seg => wholeTurn (List.ofFn hiddenStates) n seg.1 seg.2)
  else .ok (hiddenStates cpRank)

/-- What a rank keeps of the output of `hf_forward`. -/
def recut (cpRank : Fin n) (output : List ρ) (cuSeqlens : List Nat) : Py (List ρ) :=
  if 1 < n then do
    let outputList ← (cuSeqlens.zip cuSeqlens.tail).mapM fun seg => outputTurn cpRank n output seg.1 seg.2
    torchCat outputList.flatten
  else .ok output

def gatherFromSequenceParallelRegion (parts : Fin m → List ρ) : List ρ := (List.ofFn parts).flatten

def scatterToSequenceParallelRegion (tpRank : Fin m) (xs : List ρ) : Py (List ρ) :=
  if xs.length % m = 0 then .ok (slice (xs.length / m) tpRank xs) else .error .assertionError

/-- `HuggingfaceAttention.forward` on a rank, for the hidden states of all ranks. -/
def forward (sequenceParallel : Bool) (hfForward : List ρ → List ρ) (cuSeqlens : Option (List Nat))
    (hiddenStates : Fin n → Fin m → List ρ) (cpRank : Fin n) (tpRank : Fin m) : Py (List ρ) :=
  match cuSeqlens with
  | none => .error .assertionError
  | some cuSeqlens => do
    let gathered (r : Fin n) :=
      if sequenceParallel then gatherFromSequenceParallelRegion (hiddenStates r) else hiddenStates r tpRank
    let whole ← assembled gathered cpRank cuSeqlens
    let output ← recut cpRank (hfForward whole) cuSeqlens
    if sequenceParallel then scatterToSequenceParallelRegion tpRank output else .ok output

end Code

/-- The parts of a sequence between the entries of `cu_seqlens`. -/
def segmentsOf {ρ : Type} (cuSeqlens : List Nat) (xs : List ρ) : List (List ρ) :=
  (cuSeqlens.zip cuSeqlens.tail).map fun seg => pySlice xs seg.1 seg.2

/-! ## Segments -/

/-- A segment in its `2 * n` chunks: the two that each rank holds. -/
structure Segment (n : Nat) (ρ : Type) where
  size : Nat
  first : Fin n → List ρ
  second : Fin n → List ρ
  first_length : ∀ r, (first r).length = size
  second_length : ∀ r, (second r).length = size

namespace Segment

variable {ρ : Type} {n : Nat}

/-- The rows of a rank. -/
def onRank (r : Fin n) (s : Segment n ρ) : List ρ := s.first r ++ s.second r

/-- The chunks in the order of the sequence. -/
def chunks (s : Segment n ρ) : List (List ρ) := List.ofFn s.first ++ (List.ofFn s.second).reverse

def whole (s : Segment n ρ) : List ρ := s.chunks.flatten

variable (s : Segment n ρ)

theorem onRank_length (r : Fin n) : (s.onRank r).length = 2 * s.size := by
  rw [onRank, List.length_append, s.first_length, s.second_length, Nat.two_mul]

theorem chunk_length : ∀ chunk ∈ s.chunks, chunk.length = s.size := by
  intro chunk mem
  rw [chunks, List.mem_append, List.mem_reverse, List.mem_ofFn, List.mem_ofFn] at mem
  obtain ⟨r, rfl⟩ | ⟨r, rfl⟩ := mem
  · exact s.first_length r
  · exact s.second_length r

theorem chunks_length : s.chunks.length = 2 * n := by
  rw [chunks, List.length_append, List.length_reverse, List.length_ofFn, List.length_ofFn, Nat.two_mul]

theorem whole_length : s.whole.length = 2 * n * s.size := by
  rw [whole, List.length_flatten, List.map_congr_left s.chunk_length, List.map_const', List.sum_replicate, s.chunks_length,
    smul_eq_mul]

theorem chunks_first (r : Fin n) : s.chunks[r.val]? = some (s.first r) := by
  rw [chunks, List.getElem?_append_left (by rw [List.length_ofFn]; exact r.isLt), List.getElem?_ofFn, dif_pos r.isLt]

theorem chunks_second (r : Fin n) : s.chunks[2 * n - 1 - r.val]? = some (s.second r) := by
  have lt := r.isLt
  have mirror : n - 1 - (2 * n - 1 - r.val - n) = r.val := by omega
  rw [chunks, List.getElem?_append_right (by rw [List.length_ofFn]; omega), List.length_ofFn,
    List.getElem?_reverse (by rw [List.length_ofFn]; omega), List.length_ofFn, mirror, List.getElem?_ofFn, dif_pos lt]

/-- A sequence of `2 * n` chunks as a segment. -/
def ofSeq (size : Nat) (seq : List ρ) (whole : seq.length = 2 * n * size) : Segment n ρ where
  size := size
  first r := slice size r.val seq
  second r := slice size (2 * n - 1 - r.val) seq
  first_length r := slice_length (by
    rw [whole]
    exact Nat.mul_le_mul_right size (by have := r.isLt; omega))
  second_length r := slice_length (by
    rw [whole]
    exact Nat.mul_le_mul_right size (by have := r.isLt; omega))

theorem ofSeq_whole {size : Nat} {seq : List ρ} (whole : seq.length = 2 * n * size) : (ofSeq size seq whole).whole = seq := by
  have ordered : (ofSeq size seq whole).chunks = (List.range (2 * n)).map fun j => slice size j seq := by
    apply List.ext_getElem?
    intro j
    by_cases early : j < n
    · rw [chunks_first _ ⟨j, early⟩, List.getElem?_map, List.getElem?_range (by omega)]
      rfl
    by_cases late : j < 2 * n
    · have mirror : 2 * n - 1 - (2 * n - 1 - j) = j := by omega
      have there := chunks_second (ofSeq size seq whole) ⟨2 * n - 1 - j, by omega⟩
      rw [mirror] at there
      rw [there, List.getElem?_map, List.getElem?_range late]
      exact congrArg (fun k => some (slice size k seq)) mirror
    · rw [List.getElem?_eq_none (by rw [chunks_length]; omega), List.getElem?_eq_none (by simp; omega)]
  rw [Segment.whole, ordered, ← List.flatMap_def, flatMap_slice, ← whole, List.take_length]

end Segment

/-! ## The loops over the segments -/

section Turns

variable {ρ : Type} {n : Nat}

/-- The bounds of the segments, from local lengths. -/
def turns (n : Nat) : Nat → List Nat → List (Nat × Nat)
  | _, [] => []
  | start, size :: sizes => (start * n, (start + size) * n) :: turns n (start + size) sizes

theorem zip_scanl (start : Nat) (sizes : List Nat) :
    (((sizes.scanl (· + ·) start).map (· * n)).zip ((sizes.scanl (· + ·) start).map (· * n)).tail) = turns n start sizes := by
  induction sizes generalizing start with
  | nil => rfl
  | cons size sizes ih =>
    rw [List.scanl_cons, List.map_cons, List.tail_cons, turns, ← ih (start + size)]
    cases sizes with
    | nil => rfl
    | cons next sizes => rw [List.scanl_cons, List.map_cons, List.tail_cons, List.zip_cons_cons]

/-- The local lengths. -/
def sizes (segs : List (Segment n ρ)) : List Nat := segs.map fun s => 2 * s.size

theorem pySlice_span (front xs back : List ρ) {a b : Nat} (start : a = front.length) (stop : b = front.length + xs.length) :
    pySlice (front ++ (xs ++ back)) (a : Nat) (b : Nat) = xs := by
  rw [pySlice_middle front xs back (a := 0) (b := xs.length) (by rw [start]; rfl) (by rw [stop]) le_rfl, List.take_length,
    List.drop_zero]

/-- The chunks of one segment, gathered from the ranks. -/
theorem wholeTurn_segment (ranks : 0 < n) (s : Segment n ρ) {a : Nat} (front back : Fin n → List ρ)
    (before : ∀ r, (front r).length = a) :
    wholeTurn (List.ofFn fun r => front r ++ (s.onRank r ++ back r)) n (a * n) ((a + 2 * s.size) * n) = s.chunks := by
  have seqlen : (a + 2 * s.size) * n - a * n = s.size * n * 2 := by
    rw [Nat.add_mul, Nat.add_sub_cancel_left, Nat.mul_assoc, Nat.mul_comm]
  have first (r : Fin n) : pySlice (front r ++ (s.onRank r ++ back r)) (a : Nat) (a + s.size : Nat) = s.first r := by
    rw [Segment.onRank, List.append_assoc]
    exact pySlice_span _ _ _ (before r).symm (by rw [before, s.first_length])
  have second (r : Fin n) :
      pySlice (front r ++ (s.onRank r ++ back r)) (a + s.size : Nat) (a + 2 * s.size : Nat) = s.second r := by
    rw [Segment.onRank, List.append_assoc, ← List.append_assoc]
    apply pySlice_span
    · rw [List.length_append, before, s.first_length]
    · rw [List.length_append, before, s.first_length, s.second_length]
      omega
  rw [wholeTurn, seqlen, Nat.mul_div_cancel _ Nat.two_pos, Nat.mul_div_cancel _ ranks, Nat.mul_div_cancel _ ranks,
    Nat.mul_div_cancel _ ranks, List.map_ofFn, List.map_ofFn, Segment.chunks]
  exact congrArg₂ (fun a b => List.ofFn a ++ (List.ofFn b).reverse) (funext first) (funext second)

/-- The loop before `hf_forward` gathers the chunks of all segments. -/
theorem wholeTurns (ranks : 0 < n) (segs : List (Segment n ρ)) {a : Nat} (front : Fin n → List ρ)
    (before : ∀ r, (front r).length = a) :
    (turns n a (sizes segs)).flatMap
      (fun seg => wholeTurn (List.ofFn fun r => front r ++ segs.flatMap (·.onRank r)) n seg.1 seg.2) =
      segs.flatMap (·.chunks) := by
  induction segs generalizing a front with
  | nil => rfl
  | cons s segs ih =>
    have here := wholeTurn_segment ranks s front (fun r => segs.flatMap (·.onRank r)) before
    have rest := ih (a := a + 2 * s.size) (fun r => front r ++ s.onRank r) (by
      intro r
      rw [List.length_append, before, s.onRank_length])
    simp only [List.append_assoc] at rest
    simp only [sizes, List.map_cons, turns, List.flatMap_cons] at rest ⊢
    rw [here, rest]

/-- The rank's chunks of one segment of the output. -/
theorem outputTurn_segment {s : Segment n ρ} (some : 0 < s.size) (r : Fin n) {a : Nat} (front back : List ρ)
    (before : front.length = a * n) :
    outputTurn r n (front ++ (s.whole ++ back)) (a * n) ((a + 2 * s.size) * n) = .ok [s.first r, s.second r] := by
  have lt := r.isLt
  have long : s.whole.length = 2 * n * s.size := s.whole_length
  have seq : pySlice (front ++ (s.whole ++ back)) (a * n : Nat) ((a + 2 * s.size) * n : Nat) = s.whole := by
    apply pySlice_span _ _ _ before.symm
    rw [before, long, Nat.add_mul]
    ring
  have size : (s.whole.length + 2 * n - 1) / (2 * n) = s.size := by
    rw [long, Nat.add_sub_assoc (by omega), Nat.mul_add_div (by omega), Nat.div_eq_of_lt (by omega), Nat.add_zero]
  have cut : torchChunk s.whole (2 * n) = s.chunks := by
    have nonempty : s.whole.length ≠ 0 := by
      rw [long]
      exact Nat.mul_ne_zero (by omega) some.ne'
    rw [torchChunk, if_neg nonempty, size]
    exact toChunks_flatten some s.chunk_length
  rw [outputTurn, seq, cut, pyIndex_ok_iff.2 (s.chunks_first r), Py.ok_bind, pyIndex_ok_iff.2 (s.chunks_second r), Py.ok_bind]
  rfl

theorem outputTurns (segs : List (Segment n ρ)) (some : ∀ s ∈ segs, 0 < s.size) (r : Fin n) {a : Nat} (front : List ρ)
    (before : front.length = a * n) :
    (turns n a (sizes segs)).mapM (fun seg => outputTurn r n (front ++ segs.flatMap (·.whole)) seg.1 seg.2) =
      .ok (segs.map fun s => [s.first r, s.second r]) := by
  induction segs generalizing a front with
  | nil => rfl
  | cons s segs ih =>
    have here := outputTurn_segment (some s (List.mem_cons_self ..)) r front (segs.flatMap (·.whole)) before
    have rest := ih (fun other mem => some other (List.mem_cons_of_mem _ mem)) (a := a + 2 * s.size) (front ++ s.whole) (by
      rw [List.length_append, before, s.whole_length]
      ring)
    simp only [List.append_assoc] at rest
    simp only [sizes, List.map_cons, turns, List.flatMap_cons, List.mapM_cons] at rest ⊢
    rw [here, Py.ok_bind, rest]
    rfl

/-- The segments of a sequence that is put together of segments. -/
theorem segments_turns (segs : List (Segment n ρ)) {a : Nat} (front : List ρ) (before : front.length = a * n) :
    (turns n a (sizes segs)).map (fun seg => pySlice (front ++ segs.flatMap (·.whole)) seg.1 seg.2) =
      segs.map (·.whole) := by
  induction segs generalizing a front with
  | nil => rfl
  | cons s segs ih =>
    have here : pySlice (front ++ (s.whole ++ segs.flatMap (·.whole))) (a * n : Nat) ((a + 2 * s.size) * n : Nat) =
        s.whole := by
      apply pySlice_span _ _ _ before.symm
      rw [before, s.whole_length, Nat.add_mul]
      ring
    have rest := ih (a := a + 2 * s.size) (front ++ s.whole) (by
      rw [List.length_append, before, s.whole_length]
      ring)
    simp only [List.append_assoc] at rest
    simp only [sizes, List.map_cons, turns, List.flatMap_cons] at rest ⊢
    rw [here, rest]

end Turns

/-! ## Every layout is one of segments -/

section Layouts

variable {ρ : Type} {n : Nat}

theorem exists_onRank (counts : List Nat) (rows : Fin n → List ρ) (long : ∀ r, (rows r).length = (counts.map (2 * ·)).sum) :
    ∃ segs : List (Segment n ρ), segs.map (·.size) = counts ∧ ∀ r, rows r = segs.flatMap (·.onRank r) := by
  induction counts generalizing rows with
  | nil => exact ⟨[], rfl, fun r => List.length_eq_zero_iff.1 (long r)⟩
  | cons c counts ih =>
    simp only [List.map_cons, List.sum_cons] at long
    have first (r : Fin n) : ((rows r).take c).length = c := by
      rw [List.length_take, long]
      omega
    have second (r : Fin n) : (((rows r).drop c).take c).length = c := by
      rw [List.length_take, List.length_drop, long]
      omega
    obtain ⟨segs, sizes, same⟩ := ih (fun r => ((rows r).drop c).drop c) (by
      intro r
      rw [List.length_drop, List.length_drop, long]
      omega)
    refine ⟨⟨c, fun r => (rows r).take c, fun r => ((rows r).drop c).take c, first, second⟩ :: segs, ?_, ?_⟩
    · rw [List.map_cons, sizes]
    · intro r
      rw [List.flatMap_cons, ← same, Segment.onRank, List.append_assoc, List.take_append_drop, List.take_append_drop]

theorem exists_whole (counts : List Nat) (seq : List ρ) (long : seq.length = (counts.map (2 * n * ·)).sum) :
    ∃ segs : List (Segment n ρ), segs.map (·.size) = counts ∧ seq = segs.flatMap (·.whole) := by
  induction counts generalizing seq with
  | nil => exact ⟨[], rfl, List.length_eq_zero_iff.1 long⟩
  | cons c counts ih =>
    rw [List.map_cons, List.sum_cons] at long
    have first : (seq.take (2 * n * c)).length = 2 * n * c := by
      rw [List.length_take, long]
      omega
    obtain ⟨segs, sizes, same⟩ := ih (seq.drop (2 * n * c)) (by rw [List.length_drop, long]; omega)
    refine ⟨.ofSeq c _ first :: segs, ?_, ?_⟩
    · rw [List.map_cons, sizes]
      rfl
    · rw [List.flatMap_cons, ← same, Segment.ofSeq_whole, List.take_append_drop]

theorem pySlice_chunk (s : Segment n ρ) {j : Nat} {chunk : List ρ} (here : s.chunks[j]? = some chunk) :
    pySlice s.whole (s.size * j : Nat) (s.size * (j + 1) : Nat) = chunk := by
  obtain ⟨lt, rfl⟩ := List.getElem?_eq_some_iff.1 here
  have width : s.size * (j + 1) - s.size * j = s.size := by rw [Nat.mul_succ, Nat.add_sub_cancel_left]
  rw [pySlice_nat, List.drop_take, width, Nat.mul_comm]
  exact slice_flatten s.chunk_length lt

/-- `slice_with_cp` gives a rank its rows of the segment that the padded tokens are. -/
theorem sliceWithCp_segment (parallel : 1 < n) (r : Fin n) (s : Segment n ρ) {tokens : List ρ} {v : ρ}
    (size : chunkSizeOf n tokens.length = s.size)
    (padded : padRight tokens v (2 * n * s.size - tokens.length) = s.whole) :
    sliceWithCp r tokens v .thd none = .ok (s.onRank r) := by
  have lt := r.isLt
  have mirror : 2 * n - r.val - 1 = 2 * n - 1 - r.val := by omega
  have mirror' : 2 * n - r.val = 2 * n - 1 - r.val + 1 := by omega
  have first := pySlice_chunk s (s.chunks_first r)
  have second := pySlice_chunk s (s.chunks_second r)
  unfold sliceWithCp
  rw [lengthOf, Py.ok_bind, if_neg (by omega)]
  dsimp only
  rw [size, padded, first, mirror, mirror', second]
  rfl

theorem chunkSizeOf_whole (ranks : 0 < n) (c : Nat) : chunkSizeOf n (2 * n * c) = c := by
  rw [chunkSizeOf, Nat.add_sub_assoc (by omega), Nat.mul_add_div (by omega), Nat.div_eq_of_lt (by omega), Nat.add_zero]

theorem padRight_zero (xs : List ρ) (v : ρ) : padRight xs v 0 = xs := by
  rw [padRight, Int.add_zero, Int.toNat_natCast, List.take_length, Int.toNat_zero, List.replicate_zero, List.append_nil]

theorem sliceWithCp_whole (parallel : 1 < n) (r : Fin n) (s : Segment n ρ) (v : ρ) :
    sliceWithCp r s.whole v .thd none = .ok (s.onRank r) := by
  apply sliceWithCp_segment parallel r s
  · rw [s.whole_length, chunkSizeOf_whole (by omega)]
  · rw [s.whole_length]
    push_cast
    rw [sub_self, padRight_zero]

/-- The tokens of a sample, padded to whole chunks. -/
def paddedTokens (n : Nat) (v : ρ) (tokens : List ρ) : List ρ :=
  if n = 1 then tokens
  else tokens ++ List.replicate (2 * n * chunkSizeOf n tokens.length - tokens.length) v

theorem padRight_nat (tokens : List ρ) (v : ρ) {size : Nat} (fits : tokens.length ≤ size) :
    padRight tokens v (size - tokens.length) = tokens ++ List.replicate (size - tokens.length) v := by
  have pad : ((size : Int) - tokens.length).toNat = size - tokens.length := by omega
  rw [padRight, pad, List.take_of_length_le (by omega)]

/-- The segment of a sample. -/
def sampleSegment (ranks : 1 < n) (v : ρ) (tokens : List ρ) : Segment n ρ :=
  .ofSeq (chunkSizeOf n tokens.length) (paddedTokens n v tokens) (by
    have fits := le_chunks (n := n) (by omega) tokens.length
    rw [paddedTokens, if_neg (by omega), List.length_append, List.length_replicate, Nat.add_sub_cancel' fits])

theorem sliceWithCp_sample (ranks : 1 < n) (r : Fin n) (v : ρ) (tokens : List ρ) :
    sliceWithCp r tokens v .thd none = .ok ((sampleSegment ranks v tokens).onRank r) := by
  apply sliceWithCp_segment ranks r _ rfl
  refine Eq.trans ?_ (Segment.ofSeq_whole _).symm
  rw [paddedTokens, if_neg (by omega)]
  have fits := le_chunks (n := n) (by omega) tokens.length
  have pad := padRight_nat tokens v fits
  push_cast at pad
  exact pad

/-- The segment of the padding. -/
def padSegment (n pad : Nat) (even : 2 ∣ pad) (v : ρ) : Segment n ρ :=
  .ofSeq (pad / 2) (List.replicate (n * pad) v) (by
    obtain ⟨half, rfl⟩ := even
    rw [List.length_replicate, Nat.mul_div_cancel_left _ Nat.two_pos]
    ring)

theorem slice_replicate {size k r j : Nat} (within : (r + 1) * k ≤ size) (same : j = k) (v : ρ) :
    slice k r (List.replicate size v) = List.replicate j v := by
  rw [Nat.succ_mul] at within
  rw [slice, List.drop_replicate, List.take_replicate, same]
  congr 1
  omega

theorem padSegment_onRank {pad : Nat} (even : 2 ∣ pad) (v : ρ) (r : Fin n) :
    (padSegment n pad even v).onRank r = List.replicate pad v := by
  obtain ⟨half, rfl⟩ := even
  have lt := r.isLt
  have within {j : Nat} (inside : j < 2 * n) : (j + 1) * half ≤ n * (2 * half) := by
    have := Nat.mul_le_mul_right half (Nat.succ_le_of_lt inside)
    linarith
  have size : 2 * half / 2 = half := Nat.mul_div_cancel_left _ Nat.two_pos
  rw [Segment.onRank, padSegment, Segment.ofSeq]
  dsimp only
  rw [size, slice_replicate (within (by omega)) rfl, slice_replicate (within (by omega)) rfl, List.replicate_append_replicate,
    Nat.two_mul]

/-- The segments of a micro-batch: its samples, and the padding if there is some. -/
def batchSegments (ranks : 1 < n) (v : ρ) (tokens : List (List ρ)) (pad : Nat) (even : 2 ∣ pad) : List (Segment n ρ) :=
  tokens.map (sampleSegment ranks v) ++ if pad ≠ 0 then [padSegment n pad even v] else []

theorem sizes_batchSegments (parallel : 1 < n) (v : ρ) (tokens : List (List ρ)) {pad : Nat} (even : 2 ∣ pad) :
    sizes (batchSegments parallel v tokens pad even) =
      (tokens.map fun t => 2 * chunkSizeOf n t.length) ++ if pad ≠ 0 then [pad] else [] := by
  rw [sizes, batchSegments, List.map_append, List.map_map]
  congr 1
  split
  · exact congrArg (fun k => [k]) (Nat.mul_div_cancel' even)
  · rfl

theorem batchSegments_pos (parallel : 1 < n) (v : ρ) {tokens : List (List ρ)} (some : ∀ t ∈ tokens, t ≠ []) {pad : Nat} (even : 2 ∣ pad) :
    ∀ s ∈ batchSegments parallel v tokens pad even, 0 < s.size := by
  intro s mem
  obtain sample | rest := List.mem_append.1 mem
  · obtain ⟨t, there, rfl⟩ := List.mem_map.1 sample
    have length := List.length_pos_of_ne_nil (some t there)
    exact Nat.div_pos (by omega) (by omega)
  · split at rest
    · rename_i padded
      obtain rfl := List.mem_singleton.1 rest
      exact Nat.div_pos (Nat.le_of_dvd (by omega) even) Nat.two_pos
    · cases rest

theorem batchSegments_whole (parallel : 1 < n) (v : ρ) (tokens : List (List ρ)) {pad : Nat} (even : 2 ∣ pad) :
    (batchSegments parallel v tokens pad even).map (·.whole) =
      tokens.map (paddedTokens n v) ++ if pad ≠ 0 then [List.replicate (n * pad) v] else [] := by
  rw [batchSegments, List.map_append, List.map_map]
  congr 1
  · exact List.map_congr_left fun t _ => Segment.ofSeq_whole _
  · split
    · exact congrArg (fun seq => [seq]) (Segment.ofSeq_whole _)
    · rfl

/-- What `get_batch` gives a rank, as segments. -/
theorem layTokens_segments (parallel : 1 < n) (r : Fin n) {args : LayoutArgs} (packed : args.qkvFormat = .thd)
    (zigzag : args.allgatherCp = false) {tokens : List (List ρ)} (some : tokens ≠ []) (v : ρ) {pad : Nat} (even : 2 ∣ pad)
    (fill : pad = padding args.padSize (tokens.map fun t => 2 * chunkSizeOf n t.length).sum) :
    layTokens r args none v tokens = .ok ([(batchSegments parallel v tokens pad even).flatMap (·.onRank r)], pad,
      .some (((sizes (batchSegments parallel v tokens pad even)).scanl (· + ·) 0).map (· * n))) := by
  have run : tokens.mapM (fun t => sliceWithCp r t v .thd none) = .ok (tokens.map fun t => (sampleSegment parallel v t).onRank r) :=
    mapM_ok _ fun t _ => sliceWithCp_sample parallel r v t
  have lengths : (tokens.map fun t => (sampleSegment parallel v t).onRank r).map List.length =
      tokens.map fun t => 2 * chunkSizeOf n t.length := by
    rw [List.map_map]
    exact List.map_congr_left fun t _ => Segment.onRank_length _ r
  have rows : (batchSegments parallel v tokens pad even).flatMap (·.onRank r) =
      (tokens.map fun t => (sampleSegment parallel v t).onRank r).flatten ++ List.replicate pad v := by
    rw [batchSegments, List.flatMap_append, List.flatMap_map, List.flatMap_def]
    congr 1
    split
    · rw [List.flatMap_singleton, padSegment_onRank]
    · rename_i none
      rw [not_not.1 none]
      rfl
  unfold layTokens
  rw [if_neg some, packed]
  dsimp only
  rw [zigzag, if_neg Bool.false_ne_true, run, Py.ok_bind, List.length_flatten, lengths, ← fill, ← sizes_batchSegments parallel v tokens even, ← rows]
  rfl

end Layouts

/-! ## The layer -/

section Layer

variable {n : Nat}

/-- What `slice_with_cp` gives a rank of a sequence of segments. -/
def sliced {ρ : Type} (r : Fin n) (v : ρ) (segments : List (List ρ)) : Py (List ρ) := do
  let slices ← segments.mapM fun t => sliceWithCp r t v .thd none
  return slices.flatten

/-- The layer and `get_batch` agree on where the rows are: the sequence is in the order of the padded
samples, the ranks get their own rows of any output, and with the identity nothing changes. -/
structure Undone (n m : Nat) (samples : List TrainSample) (pad : Nat) (cuSeqlens : List Nat) (rows : Fin n → List Nat) : Prop where
  tokens : ∀ r, ∃ whole, assembled rows r cuSeqlens = .ok whole ∧
    segmentsOf cuSeqlens whole =
      samples.map (fun s => paddedTokens n 0 s.tokens) ++ if pad ≠ 0 then [List.replicate (n * pad) 0] else []
  states : ∀ {ρ : Type} (hidden : Fin n → List ρ), (∀ r, (hidden r).length = (rows r).length) →
    ∃ whole, whole.length = cuSeqlens.getLastD 0 ∧ ∀ r v, assembled hidden r cuSeqlens = .ok whole ∧
      sliced r v (segmentsOf cuSeqlens whole) = .ok (hidden r)
  output : ∀ {ρ : Type} (whole : List ρ), whole.length = cuSeqlens.getLastD 0 → ∀ (r : Fin n) (v : ρ),
    ∃ own, recut r whole cuSeqlens = .ok own ∧ sliced r v (segmentsOf cuSeqlens whole) = .ok own
  identity : ∀ {ρ : Type} (sequenceParallel : Bool) (hidden : Fin n → Fin m → List ρ),
    (∀ r t, (hidden r t).length * (if sequenceParallel then m else 1) = (rows r).length) →
    ∀ r t, forward sequenceParallel id (some cuSeqlens) hidden r t = .ok (hidden r t)

/-- The `cu_seqlens` of segments. -/
def cuOf (segs : List (Segment n ρ)) : List Nat := ((sizes segs).scanl (· + ·) 0).map (· * n)

variable {ρ : Type}

theorem assembled_segments (parallel : 1 < n) {segs : List (Segment n ρ)} (some : segs ≠ []) (r : Fin n) :
    assembled (fun r => segs.flatMap (·.onRank r)) r (cuOf segs) = .ok (segs.flatMap (·.whole)) := by
  have gathered := wholeTurns (by omega) segs (a := 0) (fun _ => []) fun _ => rfl
  simp only [List.nil_append] at gathered
  have nonempty : segs.flatMap (·.chunks) ≠ [] := by
    obtain ⟨s, segs, rfl⟩ := List.exists_cons_of_ne_nil some
    intro none
    have length := s.chunks_length
    rw [List.flatMap_cons, List.append_eq_nil_iff] at none
    rw [none.1, List.length_nil] at length
    omega
  rw [assembled, if_pos parallel, cuOf, zip_scanl, gathered, torchCat, if_neg nonempty]
  congr 1
  rw [List.flatMap_def, List.flatten_flatten, List.map_map, List.flatMap_def]
  rfl

theorem recut_segments (parallel : 1 < n) {segs : List (Segment n ρ)} (some : segs ≠ []) (pos : ∀ s ∈ segs, 0 < s.size) (r : Fin n) :
    recut r (segs.flatMap (·.whole)) (cuOf segs) = .ok (segs.flatMap (·.onRank r)) := by
  have cut := outputTurns segs pos r (a := 0) [] (Nat.zero_mul n).symm
  simp only [List.nil_append] at cut
  have nonempty : (segs.map fun s => [s.first r, s.second r]).flatten ≠ [] := by
    obtain ⟨s, segs, rfl⟩ := List.exists_cons_of_ne_nil some
    exact List.cons_ne_nil _ _
  rw [recut, if_pos parallel, cuOf, zip_scanl, cut, Py.ok_bind, torchCat, if_neg nonempty, List.flatten_flatten, List.map_map,
    List.flatMap_def]
  congr 2
  refine List.map_congr_left fun s _ => ?_
  exact congrArg (s.first r ++ ·) (List.append_nil _)

theorem segmentsOf_segments (segs : List (Segment n ρ)) : segmentsOf (cuOf segs) (segs.flatMap (·.whole)) = segs.map (·.whole) := by
  have parts := segments_turns segs (a := 0) [] (Nat.zero_mul n).symm
  simp only [List.nil_append] at parts
  rw [segmentsOf, cuOf, zip_scanl, parts]

theorem sliced_segments (parallel : 1 < n) (segs : List (Segment n ρ)) (r : Fin n) (v : ρ) :
    sliced r v (segs.map (·.whole)) = .ok (segs.flatMap (·.onRank r)) := by
  have run : segs.mapM ((fun t => sliceWithCp r t v .thd none) ∘ fun s => s.whole) = .ok (segs.map fun s => s.onRank r) :=
    mapM_ok segs fun s _ => sliceWithCp_whole parallel r s v
  rw [sliced, List.mapM_map, run, Py.ok_bind, List.flatMap_def]
  rfl

theorem getLastD_scanl (n start : Nat) (counts : List Nat) :
    ((counts.scanl (· + ·) start).map (· * n)).getLastD 0 = (start + counts.sum) * n := by
  induction counts generalizing start with
  | nil => rfl
  | cons count counts ih =>
    rw [List.sum_cons, ← Nat.add_assoc, ← ih (start + count), List.scanl_cons, List.map_cons]
    cases counts with
    | nil => rfl
    | cons next counts => rw [List.scanl_cons, List.map_cons, List.getLastD_cons, List.getLastD_cons, List.getLastD_cons]

theorem flatMap_onRank_length (segs : List (Segment n ρ)) (r : Fin n) : (segs.flatMap (·.onRank r)).length = (sizes segs).sum := by
  rw [List.length_flatMap, sizes]
  exact congrArg List.sum (List.map_congr_left fun s _ => s.onRank_length r)

theorem cuOf_last (segs : List (Segment n ρ)) : (cuOf segs).getLastD 0 = ((segs.map (·.size)).map (2 * n * ·)).sum := by
  rw [cuOf, getLastD_scanl, Nat.zero_add, sizes, List.map_map]
  induction segs with
  | nil => exact Nat.zero_mul n
  | cons s segs ih =>
    rw [List.map_cons, List.map_cons, List.sum_cons, List.sum_cons, Nat.add_mul, ih, Function.comp_apply]
    ring

/-- `cu_seqlens` depends on the sizes only. -/
theorem cuOf_congr {σ : Type} {segs : List (Segment n ρ)} {segs' : List (Segment n σ)}
    (same : segs'.map (·.size) = segs.map (·.size)) : cuOf segs' = cuOf segs := by
  have doubled := congrArg (List.map (2 * ·)) same
  rw [List.map_map, List.map_map] at doubled
  rw [cuOf, cuOf]
  exact congrArg (fun counts => (counts.scanl (· + ·) 0).map (· * n)) doubled

/-- The two sequence-parallel regions undo each other. -/
theorem scatter_gather {m size : Nat} (parts : Fin m → List ρ) (same : ∀ t, (parts t).length = size) (t : Fin m) :
    scatterToSequenceParallelRegion t (gatherFromSequenceParallelRegion parts) = .ok (parts t) := by
  have lengths : ∀ part ∈ List.ofFn parts, part.length = size := by
    intro part mem
    obtain ⟨r, rfl⟩ := List.mem_ofFn.1 mem
    exact same r
  have long : (List.ofFn parts).flatten.length = m * size := by
    rw [List.length_flatten, List.map_congr_left lengths, List.map_const', List.sum_replicate, List.length_ofFn, smul_eq_mul]
  have pos : 0 < m := Nat.lt_of_le_of_lt (Nat.zero_le _) t.isLt
  rw [scatterToSequenceParallelRegion, gatherFromSequenceParallelRegion, long, Nat.mul_mod_right, if_pos rfl,
    Nat.mul_div_cancel_left _ pos, slice_flatten lengths (by rw [List.length_ofFn]; exact t.isLt), List.getElem_ofFn]

/-- The layer with the identity, from what it does between the two sequence-parallel regions. -/
theorem forward_identity {m count : Nat} {cuSeqlens : List Nat}
    (roundTrip : ∀ hidden : Fin n → List ρ, (∀ r, (hidden r).length = count) → ∀ r, ∃ whole,
      assembled hidden r cuSeqlens = .ok whole ∧ recut r whole cuSeqlens = .ok (hidden r))
    (sequenceParallel : Bool) (hidden : Fin n → Fin m → List ρ)
    (long : ∀ r t, (hidden r t).length * (if sequenceParallel then m else 1) = count) (r : Fin n) (t : Fin m) :
    forward sequenceParallel id (some cuSeqlens) hidden r t = .ok (hidden r t) := by
  have pos : 0 < m := Nat.lt_of_le_of_lt (Nat.zero_le _) t.isLt
  cases sequenceParallel with
  | false =>
    obtain ⟨whole, gathered, cut⟩ := roundTrip (fun r => hidden r t) (fun r => (Nat.mul_one _).symm.trans (long r t)) r
    simp only [forward, Bool.false_eq_true, if_false, gathered, Py.ok_bind, id_eq, cut]
  | true =>
    have same (r : Fin n) (t : Fin m) : (hidden r t).length = count / m := by
      rw [← long r t]
      exact (Nat.mul_div_cancel _ pos).symm
    have whole_length (r : Fin n) : (gatherFromSequenceParallelRegion (hidden r)).length = count := by
      have lengths : ∀ part ∈ List.ofFn (hidden r), part.length = count / m := by
        intro part mem
        obtain ⟨t, rfl⟩ := List.mem_ofFn.1 mem
        exact same r t
      rw [gatherFromSequenceParallelRegion, List.length_flatten, List.map_congr_left lengths, List.map_const', List.sum_replicate,
        List.length_ofFn, smul_eq_mul, Nat.mul_comm, ← same r t]
      exact long r t
    obtain ⟨whole, gathered, cut⟩ := roundTrip (fun r => gatherFromSequenceParallelRegion (hidden r)) whole_length r
    simp only [forward, if_true, gathered, Py.ok_bind, id_eq, cut]
    exact scatter_gather (hidden r) (same r) t

/-- The layer on more than one rank. -/
theorem undone_parallel (parallel : 1 < n) (m : Nat) {samples : List TrainSample} {pad : Nat} {segs : List (Segment n Nat)}
    (some : segs ≠ []) (pos : ∀ s ∈ segs, 0 < s.size)
    (parts : segs.map (·.whole) =
      samples.map (fun s => paddedTokens n 0 s.tokens) ++ if pad ≠ 0 then [List.replicate (n * pad) 0] else []) :
    Undone n m samples pad (cuOf segs) fun r => segs.flatMap (·.onRank r) := by
  have sized {ρ : Type} {segs' : List (Segment n ρ)} (same : segs'.map (·.size) = segs.map (·.size)) :
      segs' ≠ [] ∧ ∀ s ∈ segs', 0 < s.size := by
    constructor
    · rintro rfl
      exact some (List.map_eq_nil_iff.1 same.symm)
    · intro s mem
      have mem := List.mem_map_of_mem (f := fun s : Segment n ρ => s.size) mem
      rw [same] at mem
      obtain ⟨s', mem', size⟩ := List.mem_map.1 mem
      exact size ▸ pos s' mem'
  have onRanks {ρ : Type} (hidden : Fin n → List ρ) (long : ∀ r, (hidden r).length = (sizes segs).sum) :
      ∃ segs' : List (Segment n ρ), segs'.map (·.size) = segs.map (·.size) ∧ hidden = fun r => segs'.flatMap (·.onRank r) := by
    obtain ⟨segs', same, own⟩ := exists_onRank (segs.map (·.size)) hidden (by
      intro r
      rw [long, sizes, List.map_map]
      rfl)
    exact ⟨segs', same, funext own⟩
  constructor
  · intro r
    exact ⟨_, assembled_segments parallel some r, (segmentsOf_segments segs).trans parts⟩
  · intro ρ hidden long
    obtain ⟨segs', same, rfl⟩ := onRanks hidden fun r => (long r).trans (flatMap_onRank_length segs r)
    refine ⟨segs'.flatMap (·.whole), ?_, ?_⟩
    · rw [← cuOf_congr same, cuOf_last, List.length_flatMap, List.map_map]
      exact congrArg List.sum (List.map_congr_left fun s _ => s.whole_length)
    · intro r v
      rw [← cuOf_congr same, segmentsOf_segments]
      exact ⟨assembled_segments parallel (sized same).1 r, sliced_segments parallel segs' r v⟩
  · intro ρ whole long r v
    obtain ⟨segs', same, rfl⟩ := exists_whole (segs.map (·.size)) whole (long.trans (cuOf_last segs))
    rw [← cuOf_congr same, segmentsOf_segments]
    exact ⟨_, recut_segments parallel (sized same).1 (sized same).2 r, sliced_segments parallel segs' r v⟩
  · intro ρ sequenceParallel hidden long r t
    refine forward_identity ?_ sequenceParallel hidden (fun r t => (long r t).trans (flatMap_onRank_length segs r)) r t
    intro hidden long r
    obtain ⟨segs', same, rfl⟩ := onRanks hidden long
    rw [← cuOf_congr same]
    exact ⟨_, assembled_segments parallel (sized same).1 r, recut_segments parallel (sized same).1 (sized same).2 r⟩

/-! ### One rank -/

theorem exists_parts (counts : List Nat) (seq : List ρ) (long : seq.length = counts.sum) :
    ∃ parts : List (List ρ), parts.map List.length = counts ∧ seq = parts.flatten := by
  induction counts generalizing seq with
  | nil => exact ⟨[], rfl, List.length_eq_zero_iff.1 long⟩
  | cons count counts ih =>
    rw [List.sum_cons] at long
    obtain ⟨parts, lengths, same⟩ := ih (seq.drop count) (by rw [List.length_drop, long]; omega)
    refine ⟨seq.take count :: parts, ?_, ?_⟩
    · rw [List.map_cons, lengths, List.length_take, long]
      congr 1
      omega
    · rw [List.flatten_cons, ← same, List.take_append_drop]

theorem parts_turns (parts : List (List ρ)) {a : Nat} (front : List ρ) (before : front.length = a) :
    (turns 1 a (parts.map List.length)).map (fun seg => pySlice (front ++ parts.flatten) seg.1 seg.2) = parts := by
  induction parts generalizing a front with
  | nil => rfl
  | cons part parts ih =>
    have here : pySlice (front ++ (part ++ parts.flatten)) (a * 1 : Nat) ((a + part.length) * 1 : Nat) = part := by
      apply pySlice_span
      · rw [before, Nat.mul_one]
      · rw [before, Nat.mul_one]
    have rest := ih (a := a + part.length) (front ++ part) (by rw [List.length_append, before])
    simp only [List.append_assoc] at rest
    simp only [List.map_cons, turns, List.flatten_cons]
    rw [here, rest]

theorem segmentsOf_parts (parts : List (List ρ)) :
    segmentsOf (((parts.map List.length).scanl (· + ·) 0).map (· * 1)) parts.flatten = parts := by
  have cut := parts_turns parts (a := 0) [] rfl
  rw [segmentsOf, zip_scanl]
  exact cut

theorem sliced_parts (r : Fin 1) (v : ρ) (parts : List (List ρ)) : sliced r v parts = .ok parts.flatten := by
  have run : parts.mapM (fun t => sliceWithCp r t v .thd none) = .ok (parts.map id) := mapM_ok parts fun _ _ => rfl
  rw [sliced, run, List.map_id, Py.ok_bind]
  rfl

/-- The layer on one rank, where the sequence stays as it is. -/
theorem undone_one (m : Nat) {samples : List TrainSample} {pad : Nat} {parts : List (List Nat)}
    (same : parts = samples.map (·.tokens) ++ if pad ≠ 0 then [List.replicate (1 * pad) 0] else []) :
    Undone 1 m samples pad (((parts.map List.length).scanl (· + ·) 0).map (· * 1)) fun _ => parts.flatten := by
  have total : (((parts.map List.length).scanl (· + ·) 0).map (· * 1)).getLastD 0 = (parts.map List.length).sum := by
    rw [getLastD_scanl, Nat.zero_add, Nat.mul_one]
  have cut {ρ : Type} {whole : List ρ} (long : whole.length = (parts.map List.length).sum) (r : Fin 1) (v : ρ) :
      sliced r v (segmentsOf (((parts.map List.length).scanl (· + ·) 0).map (· * 1)) whole) = .ok whole := by
    obtain ⟨parts', lengths, rfl⟩ := exists_parts _ whole long
    rw [← lengths, segmentsOf_parts, sliced_parts]
  constructor
  · intro r
    refine ⟨parts.flatten, rfl, (segmentsOf_parts parts).trans (same.trans ?_)⟩
    rfl
  · intro ρ hidden long
    have flat : (hidden 0).length = (parts.map List.length).sum := (long 0).trans List.length_flatten
    refine ⟨hidden 0, flat.trans total.symm, fun r v => ?_⟩
    obtain rfl := Subsingleton.elim r 0
    exact ⟨rfl, cut flat 0 v⟩
  · intro ρ whole long r v
    exact ⟨whole, rfl, cut (long.trans total) r v⟩
  · intro ρ sequenceParallel hidden long r t
    exact forward_identity (fun hidden _ r => ⟨hidden r, rfl, rfl⟩) sequenceParallel hidden long r t

/-! ### The batches of `get_batch` -/

theorem getBatch_rows {r : Fin n} {args : LayoutArgs} (packed : args.qkvFormat = .thd) {samples : List TrainSample}
    {row mask : List Nat} {pad : Nat} {cuSeqlens cuSeqlens' : Option (List Nat)} (long : mask.length = row.length)
    (tokens : layTokens r args none 0 (samples.map (·.tokens)) = .ok ([row], pad, cuSeqlens))
    (masks : layTokens r args none 0 (samples.map (·.paddedMask)) = .ok ([mask], pad, cuSeqlens')) :
    getBatch r args none samples = .ok ⟨[row], cuSeqlens, [mask]⟩ := by
  have supported : args.Supported := fun padded => absurd (packed.symm.trans padded) (by decide)
  have equal : decide ([mask].map List.length = [row].map List.length) = true := by
    simp only [List.map_cons, List.map_nil, long, decide_true]
  rw [getBatch, tokens, Py.ok_bind]
  dsimp only
  rw [layMasks_eq r supported masks, Py.ok_bind, equal]
  rfl

theorem layTokens_one (r : Fin 1) {args : LayoutArgs} (packed : args.qkvFormat = .thd) (zigzag : args.allgatherCp = false)
    {tokens : List (List ρ)} (some : tokens ≠ []) (v : ρ) {pad : Nat} (fill : pad = padding args.padSize tokens.flatten.length) :
    layTokens r args none v tokens = .ok ([(tokens ++ if pad ≠ 0 then [List.replicate (1 * pad) v] else []).flatten], pad,
      .some ((((tokens ++ if pad ≠ 0 then [List.replicate (1 * pad) v] else []).map List.length).scanl (· + ·) 0).map (· * 1))) := by
  have run : tokens.mapM (fun t => sliceWithCp r t v .thd none) = .ok (tokens.map id) := mapM_ok tokens fun _ _ => rfl
  have rows : (tokens ++ if pad ≠ 0 then [List.replicate (1 * pad) v] else []).flatten = tokens.flatten ++ List.replicate pad v := by
    rw [List.flatten_append, Nat.one_mul]
    split
    · rw [List.flatten_singleton]
    · rename_i none
      rw [not_not.1 none]
      rfl
  have lengths : (tokens ++ if pad ≠ 0 then [List.replicate (1 * pad) v] else []).map List.length =
      tokens.map List.length ++ if pad ≠ 0 then [pad] else [] := by
    rw [List.map_append, Nat.one_mul]
    split
    · rw [List.map_singleton, List.length_replicate]
    · rfl
  unfold layTokens
  rw [if_neg some, packed]
  dsimp only
  rw [zigzag, if_neg Bool.false_ne_true, run, Py.ok_bind, List.map_id, ← fill, rows, lengths]
  rfl

theorem even_padding {padSize length : Nat} (even : 2 ∣ padSize) (whole : 2 ∣ length) : 2 ∣ padding padSize length := by
  rw [padding]
  have rest : 2 ∣ length % padSize := (Nat.dvd_mod_iff even).2 whole
  exact (Nat.dvd_mod_iff even).2 (Nat.dvd_sub even rest)

/-- **The layer undoes the zigzag layout** of every micro-batch of `get_batch`. -/
theorem zigzag_undone {n : Nat} (ranks : 0 < n) (m : Nat) {args : LayoutArgs} (packed : args.qkvFormat = .thd)
    (zigzag : args.allgatherCp = false) (even : 2 ∣ (args.padSize : Nat)) {samples : List TrainSample} (nonempty : samples ≠ []) :
    ∃ pad cuSeqlens rows, (∀ r : Fin n, ∃ masks, getBatch r args none samples = .ok ⟨[rows r], some cuSeqlens, masks⟩) ∧
      Undone n m samples pad cuSeqlens rows := by
  have some : samples.map (·.tokens) ≠ [] := mt List.map_eq_nil_iff.1 nonempty
  have some_masks : samples.map (·.paddedMask) ≠ [] := mt List.map_eq_nil_iff.1 nonempty
  have masked : (samples.map (·.paddedMask)).map List.length = (samples.map (·.tokens)).map List.length := by
    rw [List.map_map, List.map_map]
    exact List.map_congr_left fun s _ => paddedMask_length s
  obtain rfl | parallel := (Nat.succ_le_of_lt ranks).eq_or_lt
  · obtain ⟨pad, fill⟩ : ∃ pad, pad = padding args.padSize (samples.map (·.tokens)).flatten.length := ⟨_, rfl⟩
    have fill_masks : pad = padding args.padSize (samples.map (·.paddedMask)).flatten.length := by
      rw [fill, List.length_flatten, List.length_flatten, masked]
    refine ⟨pad, _, _, fun r => ⟨_, getBatch_rows packed ?_ (layTokens_one r packed zigzag some 0 fill)
      (layTokens_one r packed zigzag some_masks 0 fill_masks)⟩, undone_one m rfl⟩
    rw [List.length_flatten, List.length_flatten, List.map_append, List.map_append, masked]
  · obtain ⟨pad, fill⟩ : ∃ pad, pad = padding args.padSize ((samples.map (·.tokens)).map fun t => 2 * chunkSizeOf n t.length).sum :=
      ⟨_, rfl⟩
    have chunks {xs : List (List Nat)} (same : xs.map List.length = (samples.map (·.tokens)).map List.length) :
        (xs.map fun t => 2 * chunkSizeOf n t.length) = (samples.map (·.tokens)).map fun t => 2 * chunkSizeOf n t.length := by
      have counted := congrArg (List.map fun length => 2 * chunkSizeOf n length) same
      rwa [List.map_map, List.map_map] at counted
    have pad_even : 2 ∣ pad := by
      rw [fill]
      apply even_padding even
      apply List.dvd_sum
      intro count mem
      obtain ⟨t, -, rfl⟩ := List.mem_map.1 mem
      exact Nat.dvd_mul_right 2 _
    refine ⟨pad, cuOf (batchSegments parallel 0 (samples.map (·.tokens)) pad pad_even), _, fun r => ⟨_, getBatch_rows packed ?_
      (layTokens_segments parallel r packed zigzag some 0 pad_even fill)
      (layTokens_segments parallel r packed zigzag some_masks 0 pad_even (by rw [chunks masked, fill]))⟩,
      undone_parallel parallel m ?_ ?_ ?_⟩
    · rw [flatMap_onRank_length, flatMap_onRank_length, sizes_batchSegments, sizes_batchSegments, chunks masked]
    · exact List.append_ne_nil_of_left_ne_nil (mt List.map_eq_nil_iff.1 some) _
    · apply batchSegments_pos
      intro t mem
      obtain ⟨s, -, rfl⟩ := List.mem_map.1 mem
      exact List.ne_nil_of_length_pos (Nat.lt_of_le_of_lt (Nat.zero_le _) s.shorter)
    · rw [batchSegments_whole, List.map_map]
      rfl

theorem zigzag_undone_short : ∃ pad cuSeqlens rows,
    (∀ r : Fin 2, ∃ masks, getBatch r ⟨.thd, false, 8⟩ none [shortSample] = .ok ⟨[rows r], some cuSeqlens, masks⟩) ∧
      Undone 2 1 [shortSample] pad cuSeqlens rows :=
  zigzag_undone Nat.two_pos 1 rfl rfl ⟨4, rfl⟩ (List.cons_ne_nil _ _)

end Layer

end SlimeBoard.HfAttention
