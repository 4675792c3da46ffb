import SlimeBoard.Lib.Moments
import SlimeBoard.Train.Slices

/-!
# Whitening of the advantages

Each rank cuts the loss masks of its samples to its own tokens. The sums of the masked
advantages are reduced over the ranks of one context-parallel index; a rank with no
response token leaves the reduction out.
-/

namespace SlimeBoard

open Cp Moments

/-- A sample with a loss mask of zeros and ones. -/
structure WhitenSample extends MaskedSample where
  binary : ∀ m ∈ lossMask, m ≤ 1

section Code

/-- The part of the full mask at the tokens of a chunk, if there is one. -/
def localMaskParts (fullMask : List Nat) (promptLen : Int) (tokenOffset : Int × Int) : List (List Nat) :=
  let resS := max 0 (tokenOffset.1 - promptLen)
  let resE := max 0 (tokenOffset.2 - promptLen)
  if resS < resE then [pySlice fullMask resS resE] else []

def localMaskChunk {n : Nat} (rank : Fin n) (qkvFormat : QkvFormat) (maxSeqLen : Option Nat)
    (totalLen responseLen : Nat) (fullMask : List Nat) : Py (List Nat) := do
  let promptLen : Int := totalLen - responseLen
  let o ← getLogitsAndTokensOffsetWithCp rank totalLen responseLen qkvFormat maxSeqLen
  let parts := localMaskParts fullMask promptLen o.tokens.1 ++ localMaskParts fullMask promptLen o.tokens.2
  return parts.flatten

def allMasks {n : Nat} (rank : Fin n) (qkvFormat : QkvFormat) (maxSeqLens : Option (List Nat))
    (samples : List WhitenSample) : Py (List Nat) :=
  if n = 1 then torchCat (samples.map (·.lossMask))
  else do
    let maskChunks ← samples.zipIdx.mapM fun p => do
      let maxSeqLen ← maxSeqLenAt maxSeqLens p.2
      localMaskChunk rank qkvFormat maxSeqLen p.1.totalLength p.1.responseLength p.1.lossMask
    torchCat maskChunks

/-- The tensors that a rank gives to `distributed_masked_whiten`, if it calls it. -/
def whitenInput {n : Nat} (rank : Fin n) (qkvFormat : QkvFormat) (maxSeqLens : Option (List Nat))
    (samples : List WhitenSample) (advantages : List (List ℚ)) : Py (Option (List ℚ × List Nat)) := do
  let allAdvs ← torchCat advantages
  let allMasks ← allMasks rank qkvFormat maxSeqLens samples
  if 0 < allMasks.length then
    pyAssert (decide (allAdvs.length = allMasks.length))
    return some (allAdvs, allMasks)
  else return none

/-- `local_sum`, `local_sum_sq` and `local_mask_sum` -/
def localStats (values : List ℚ) (mask : List Nat) : ℚ × ℚ × ℚ :=
  ((List.zipWith (fun (v : ℚ) (m : Nat) => v * m) values mask).sum,
    (List.zipWith (fun (v : ℚ) (m : Nat) => v ^ 2 * m) values mask).sum, (mask.sum : Nat))

/-- The mean and the variance from the reduced sums. -/
def globalStats (stats : ℚ × ℚ × ℚ) : Py (ℚ × ℚ) :=
  let (globalSum, globalSumSq, globalMaskSum) := stats
  if globalMaskSum = 0 then .error .valueError
  else
    let globalMean := globalSum / globalMaskSum
    let globalMeanSq := globalSumSq / globalMaskSum
    let globalVar := globalMeanSq - globalMean ^ 2
    if 2 ≤ globalMaskSum then .ok (globalMean, globalVar * (globalMaskSum / (globalMaskSum - 1)))
    else .ok (globalMean, globalVar)

end Code

/-- A response token of a sample, which stands with its index in the batch. -/
abbrev Entry := (WhitenSample × Nat) × Nat

/-- The response tokens of a batch. -/
def entries (samples : List WhitenSample) : List Entry :=
  samples.zipIdx.flatMap fun p => (List.range p.1.responseLength).map fun k => (p, k)

def Entry.mask (e : Entry) : Nat := e.1.1.lossMask.getD e.2 0

/-- The advantages of the masked tokens of the whole batch, each token once. -/
def maskedAdvantages {dp : Nat} (batches : Fin dp → List WhitenSample) (adv : Fin dp → Nat → Nat → ℚ) : List ℚ :=
  (List.ofFn fun d => ((entries (batches d)).filter fun e => e.mask = 1).map fun e => adv d e.1.2 e.2).flatten

/-- What a rank gives to the reduction: `adv i k` is the advantage of token `k` of sample `i`. -/
def whitenRun {n : Nat} (rank : Fin n) (qkvFormat : QkvFormat) (samples : List WhitenSample) (adv : Nat → Nat → ℚ) :
    Py (Option (List ℚ × List Nat)) := do
  let maxSeqLens := maxSeqLensOf qkvFormat (samples.map fun s => s.maxSeqLen)
  let advantages ← samples.zipIdx.mapM fun p => do
    let maxSeqLen ← maxSeqLenAt maxSeqLens p.2
    sliceLogProbWithCp rank ((List.range p.1.responseLength).map (adv p.2)) p.1.totalLength p.1.responseLength
      qkvFormat maxSeqLen
  whitenInput rank qkvFormat maxSeqLens samples advantages

/-- Whatever the advantages are, no rank raises, and of the ranks that reduce together
either none takes part or all do and get the mean and the variance of the whole batch. -/
def Whitens {dp : Nat} (n : Nat) (qkvFormat : QkvFormat) (batches : Fin dp → List WhitenSample) : Prop :=
  ∀ (adv : Fin dp → Nat → Nat → ℚ) (rank : Fin n), ∃ inputs : Fin dp → Option (List ℚ × List Nat),
    (∀ d, whitenRun rank qkvFormat (batches d) (adv d) = .ok (inputs d)) ∧
    ((∀ d, inputs d = none) ∨
      ∃ tensors : Fin dp → List ℚ × List Nat, (∀ d, inputs d = some (tensors d)) ∧
        globalStats (∑ d, localStats (tensors d).1 (tensors d).2) =
          .ok (mean (maskedAdvantages batches adv), variance (maskedAdvantages batches adv)))

/-- Every data-parallel rank has a sample, and either none of them has a response token on
context-parallel rank `rank`, or each has one and all masked tokens are there. -/
def Gathered {dp n : Nat} (rank : Fin n) (qkvFormat : QkvFormat) (batches : Fin dp → List WhitenSample) : Prop :=
  (∀ d, batches d ≠ []) ∧
    ((∀ d, ∀ s ∈ batches d, ∀ k < s.responseLength, ¬s.Owns qkvFormat n rank.val k) ∨
      (∀ d, ∃ s ∈ batches d, ∃ k < s.responseLength, s.Owns qkvFormat n rank.val k) ∧
      (∃ d, ∃ s ∈ batches d, ∃ k < s.responseLength, s.lossMask.getD k 0 = 1) ∧
      ∀ d, ∀ s ∈ batches d, ∀ k < s.responseLength, s.lossMask.getD k 0 = 1 → s.Owns qkvFormat n rank.val k)

namespace Entry

/-- The rank has the entry. -/
def Owned (qkvFormat : QkvFormat) (n r : Nat) (e : Entry) : Prop := e.1.1.Owns qkvFormat n r e.2

instance (qkvFormat : QkvFormat) (n r : Nat) (e : Entry) : Decidable (e.Owned qkvFormat n r) :=
  inferInstanceAs (Decidable (MaskedSample.Owns ..))

theorem mask_le (e : Entry) : e.mask ≤ 1 := by
  unfold mask
  rw [List.getD_eq_getElem?_getD]
  cases found : e.1.1.lossMask[e.2]? with
  | none => exact Nat.zero_le 1
  | some m => exact e.1.1.binary m (List.mem_of_getElem? found)

end Entry

section Entries

theorem mem_entries {samples : List WhitenSample} {e : Entry} :
    e ∈ entries samples ↔ samples[e.1.2]? = some e.1.1 ∧ e.2 < e.1.1.responseLength := by
  unfold entries
  rw [List.mem_flatMap]
  constructor
  · rintro ⟨p, mem, here⟩
    obtain ⟨k, inside, rfl⟩ := List.mem_map.1 here
    exact ⟨List.mem_zipIdx_iff_getElem?.1 mem, List.mem_range.1 inside⟩
  · rintro ⟨found, inside⟩
    exact ⟨e.1, List.mem_zipIdx_iff_getElem?.2 found, List.mem_map.2 ⟨e.2, List.mem_range.2 inside, rfl⟩⟩

variable {n : Nat} (rank : Fin n) (qkvFormat : QkvFormat) (samples : List WhitenSample)

/-- The entries of a batch on a rank. -/
def ownedEntries : List Entry := (entries samples).filter fun e => e.Owned qkvFormat n rank.val

theorem ownedEntries_eq : ownedEntries rank qkvFormat samples =
    samples.zipIdx.flatMap fun p => (p.1.tokens qkvFormat n rank.val).map fun k => (p, k) := by
  unfold ownedEntries entries
  rw [List.filter_flatMap]
  refine List.flatMap_congr fun p _ => ?_
  rw [List.filter_map]
  rfl

theorem flatten_tokens {α : Type} (f : Entry → α) :
    (samples.zipIdx.map fun p => (p.1.tokens qkvFormat n rank.val).map fun k => f (p, k)).flatten =
      (ownedEntries rank qkvFormat samples).map f := by
  rw [ownedEntries_eq, List.map_flatMap, List.flatMap_def]
  refine congrArg List.flatten (List.map_congr_left fun p _ => ?_)
  rw [List.map_map]
  rfl

end Entries

section Run

variable {n : Nat} (rank : Fin n) (qkvFormat : QkvFormat)

theorem localMaskParts_half (r c first len : Nat) (second : Bool) (mask : List Nat) :
    (localMaskParts mask (first + 1) (half n r c first len second).2).flatten =
      Span.pick (clipped first len (chunk n r c second)) mask := by
  unfold half localMaskParts
  rcases clip_cases first len (chunk n r c second) with ⟨none, same⟩ | ⟨a, b, forward, bound, some, same⟩
  · rw [none, same]
    dsimp only
    rw [if_neg (by omega)]
    rfl
  · have start : max (0 : Int) ((first : Int) + a + 1 - (first + 1)) = a := by omega
    have stop : max (0 : Int) ((first : Int) + b + 1 - (first + 1)) = b := by omega
    rw [some, same]
    dsimp only
    rw [start, stop, if_pos (by omega), pySlice_nat, Span.pick_cons, Span.pick_nil]
    exact List.flatten_cons

theorem localMaskChunk_eq (parallel : 1 < n) (s : WhitenSample) :
    localMaskChunk rank qkvFormat (s.maxSeqLenOf qkvFormat) s.totalLength s.responseLength s.lossMask =
      .ok (s.part qkvFormat n rank.val s.lossMask) := by
  have cut := s.lengthOf_cutLength qkvFormat
  have prompt : ((s.first + 1 + s.responseLength : Nat) : Int) - s.responseLength = s.first + 1 := by omega
  unfold localMaskChunk MaskedSample.part Cp.part
  rw [s.totalLength_eq, getOffsets_eq parallel rank _ _ cut, Py.ok_bind, offsets_eq rank.isLt, if_neg (by omega)]
  dsimp only
  rw [prompt, List.flatten_append, localMaskParts_half, localMaskParts_half]
  refine congrArg Except.ok ?_
  unfold spans Span.pick
  rw [List.flatMap_append]

theorem torchCat_map {σ α : Type} {xs : List σ} (nonempty : xs ≠ []) (f : σ → List α) :
    torchCat (xs.map f) = .ok (xs.map f).flatten :=
  if_neg fun none => nonempty (List.map_eq_nil_iff.1 none)

variable {samples : List WhitenSample}

theorem allMasks_eq (nonempty : samples ≠ []) :
    allMasks rank qkvFormat (maxSeqLensOf qkvFormat (samples.map fun s => s.maxSeqLen)) samples =
      .ok ((ownedEntries rank qkvFormat samples).map Entry.mask) := by
  have masks : (samples.map fun s => s.part qkvFormat n rank.val s.lossMask).flatten =
      (ownedEntries rank qkvFormat samples).map Entry.mask := by
    rw [← flatten_tokens, ← map_zipIdx_fst 0 fun s : WhitenSample => s.part qkvFormat n rank.val s.lossMask]
    refine congrArg List.flatten (List.map_congr_left fun p _ => ?_)
    exact MaskedSample.part_eq rank qkvFormat _ 0 p.1.masked
  have ranks := rank.isLt
  unfold allMasks
  split
  · rename_i alone
    have whole : samples.map (fun s => s.part qkvFormat n rank.val s.lossMask) = samples.map (·.lossMask) :=
      List.map_congr_left fun s _ => if_pos alone
    rw [torchCat_map nonempty, ← whole, masks]
  · have chunked := mapM_padded WhitenSample.toMaskedSample qkvFormat samples
      (fun s _ maxSeqLen => localMaskChunk rank qkvFormat maxSeqLen s.totalLength s.responseLength s.lossMask) _
      fun s _ _ => localMaskChunk_eq rank qkvFormat (by omega) s
    rw [map_zipIdx_fst 0 fun s : WhitenSample => s.part qkvFormat n rank.val s.lossMask] at chunked
    refine Py.bind_eq_ok.2 ⟨_, chunked, ?_⟩
    rw [torchCat_map nonempty, masks]

/-- The advantages on the rank. -/
theorem slice_advantages (s : WhitenSample) (i : Nat) (adv : Nat → Nat → ℚ) :
    sliceLogProbWithCp rank ((List.range s.responseLength).map (adv i)) s.totalLength s.responseLength qkvFormat
        (s.maxSeqLenOf qkvFormat) = .ok ((s.tokens qkvFormat n rank.val).map (adv i)) := by
  have whole : ((List.range s.responseLength).map (adv i)).length = s.responseLength := by
    rw [List.length_map, List.length_range]
  have sliced := sliceLogProb_part rank whole (s.lengthOf_cutLength qkvFormat)
  rw [← s.totalLength_eq] at sliced
  rw [sliced]
  exact congrArg Except.ok (part_range rank.isLt (s.fits (Nat.zero_lt_of_lt rank.isLt) qkvFormat) (adv i))

/-- What a rank with the entries `es` gives to the reduction. -/
def inputOf (es : List Entry) (adv : Nat → Nat → ℚ) : Option (List ℚ × List Nat) :=
  if es = [] then none else some (es.map fun e => adv e.1.2 e.2, es.map Entry.mask)

theorem whitenRun_eq (nonempty : samples ≠ []) (adv : Nat → Nat → ℚ) :
    whitenRun rank qkvFormat samples adv = .ok (inputOf (ownedEntries rank qkvFormat samples) adv) := by
  have sliced := mapM_padded WhitenSample.toMaskedSample qkvFormat samples
    (fun s i maxSeqLen => sliceLogProbWithCp rank ((List.range s.responseLength).map (adv i)) s.totalLength
      s.responseLength qkvFormat maxSeqLen) _ fun s _ i => slice_advantages rank qkvFormat s i adv
  have indexed : samples.zipIdx ≠ [] := fun none => nonempty (List.zipIdx_eq_nil_iff.1 none)
  refine Py.bind_eq_ok.2 ⟨_, sliced, ?_⟩
  unfold whitenInput inputOf
  rw [torchCat_map indexed, Py.ok_bind, allMasks_eq rank qkvFormat nonempty, Py.ok_bind,
    flatten_tokens rank qkvFormat samples fun e => adv e.1.2 e.2, List.length_map, List.length_map]
  split
  · rename_i positive
    rw [decide_eq_true rfl, pyAssert_true, Py.ok_bind, if_neg (List.ne_nil_of_length_pos positive)]
    rfl
  · rename_i empty
    rw [if_pos (List.eq_nil_of_length_eq_zero (by omega))]
    rfl

theorem whitenRun_nil (adv : Nat → Nat → ℚ) : whitenRun rank qkvFormat [] adv = .error .runtimeError := rfl

end Run

section Statistics

theorem localStats_eq (es : List Entry) (f : Entry → ℚ) :
    localStats (es.map f) (es.map Entry.mask) =
      ((es.map fun e => f e * (e.mask : ℚ)).sum, (es.map fun e => f e ^ 2 * (e.mask : ℚ)).sum,
        (es.map fun e => 1 * (e.mask : ℚ)).sum) := by
  unfold localStats
  rw [List.zipWith_map, List.zipWith_self, List.zipWith_map, List.zipWith_self, Nat.cast_list_sum, List.map_map]
  simp only [one_mul]
  rfl

/-- If a rank has all masked entries, its masked sums are those of the batch. -/
theorem sum_masked (own : Entry → Prop) [DecidablePred own] (g : Entry → ℚ) {es : List Entry}
    (gathered : ∀ e ∈ es, e.mask = 1 → own e) :
    ((es.filter fun e => own e).map fun e => g e * (e.mask : ℚ)).sum = ((es.filter fun e => e.mask = 1).map g).sum := by
  induction es with
  | nil => rfl
  | cons e es ih =>
    have rest := ih fun e mem => gathered e (List.mem_cons_of_mem _ mem)
    have le := e.mask_le
    rw [List.filter_cons, List.filter_cons]
    by_cases masked : e.mask = 1
    · rw [decide_eq_true (gathered e (List.mem_cons_self ..) masked), decide_eq_true masked, if_pos rfl, if_pos rfl,
        List.map_cons, List.map_cons, List.sum_cons, List.sum_cons, rest, masked, Nat.cast_one, mul_one]
    · have zero : e.mask = 0 := by omega
      rw [decide_eq_false masked, if_neg Bool.false_ne_true]
      split
      · rw [List.map_cons, List.sum_cons, rest, zero, Nat.cast_zero, mul_zero, zero_add]
      · exact rest

theorem globalStats_eq {xs : List ℚ} (nonempty : xs ≠ []) :
    globalStats (xs.sum, (xs.map (· ^ 2)).sum, (xs.length : ℚ)) = .ok (mean xs, variance xs) := by
  have size : (xs.length : ℚ) ≠ 0 := Nat.cast_ne_zero.2 (Nat.ne_of_gt (List.length_pos_iff.2 nonempty))
  unfold globalStats
  dsimp only
  rw [if_neg size, variance_eq nonempty]
  simp only [Nat.ofNat_le_cast]
  split
  · rfl
  · rfl

theorem globalStats_ok {stats : ℚ × ℚ × ℚ} {values : ℚ × ℚ} (ok : globalStats stats = .ok values) :
    stats.2.2 ≠ 0 ∧ values.1 = stats.1 / stats.2.2 := by
  obtain ⟨total, squares, count⟩ := stats
  unfold globalStats at ok
  dsimp only at ok ⊢
  split at ok
  · cases ok
  · rename_i positive
    refine ⟨positive, ?_⟩
    split at ok
    · rw [← Except.ok.inj ok]
    · rw [← Except.ok.inj ok]

variable {dp : Nat} (batches : Fin dp → List WhitenSample) (adv : Fin dp → Nat → Nat → ℚ)

theorem sum_maskedAdvantages (f : ℚ → ℚ) : ((maskedAdvantages batches adv).map f).sum =
    ∑ d, (((entries (batches d)).filter fun e => e.mask = 1).map fun e => f (adv d e.1.2 e.2)).sum := by
  unfold maskedAdvantages
  rw [List.map_flatten, List.sum_flatten, List.map_map, List.map_ofFn, List.sum_ofFn]
  refine Finset.sum_congr rfl fun d _ => ?_
  rw [Function.comp_apply, Function.comp_apply, List.map_map]
  rfl

end Statistics

section Gathered

variable {dp n : Nat} {qkvFormat : QkvFormat} {batches : Fin dp → List WhitenSample}

theorem forall_entries {samples : List WhitenSample} {P : WhitenSample → Nat → Prop} :
    (∀ e ∈ entries samples, P e.1.1 e.2) ↔ ∀ s ∈ samples, ∀ k < s.responseLength, P s k := by
  constructor
  · intro all s mem k inside
    obtain ⟨i, found⟩ := List.mem_iff_getElem?.1 mem
    exact all ((s, i), k) (mem_entries.2 ⟨found, inside⟩)
  · intro all e mem
    obtain ⟨found, inside⟩ := mem_entries.1 mem
    exact all e.1.1 (List.mem_of_getElem? found) e.2 inside

theorem exists_entries {samples : List WhitenSample} {P : WhitenSample → Nat → Prop} :
    (∃ e ∈ entries samples, P e.1.1 e.2) ↔ ∃ s ∈ samples, ∃ k < s.responseLength, P s k := by
  have none : (∀ e ∈ entries samples, ¬P e.1.1 e.2) ↔ ∀ s ∈ samples, ∀ k < s.responseLength, ¬P s k :=
    forall_entries (P := fun s k => ¬P s k)
  rw [← not_iff_not]
  push Not
  exact none

theorem ownedEntries_nil_iff {rank : Fin n} {samples : List WhitenSample} :
    ownedEntries rank qkvFormat samples = [] ↔ ∀ s ∈ samples, ∀ k < s.responseLength, ¬s.Owns qkvFormat n rank.val k := by
  unfold ownedEntries
  rw [List.filter_eq_nil_iff, ← forall_entries (P := fun s k => ¬s.Owns qkvFormat n rank.val k)]
  exact forall₂_congr fun e _ => not_congr decide_eq_true_iff

/-- The sums of the ranks that reduce together. -/
def reduced (qkvFormat : QkvFormat) (batches : Fin dp → List WhitenSample) (rank : Fin n) (adv : Fin dp → Nat → Nat → ℚ) :
    ℚ × ℚ × ℚ :=
  ∑ d, localStats ((ownedEntries rank qkvFormat (batches d)).map fun e => adv d e.1.2 e.2)
    ((ownedEntries rank qkvFormat (batches d)).map Entry.mask)

theorem whitens_iff_entries : Whitens n qkvFormat batches ↔ ∀ (adv : Fin dp → Nat → Nat → ℚ) (rank : Fin n),
    (∀ d, batches d ≠ []) ∧
      ((∀ d, ownedEntries rank qkvFormat (batches d) = []) ∨
        (∀ d, ownedEntries rank qkvFormat (batches d) ≠ []) ∧
          globalStats (reduced qkvFormat batches rank adv) =
            .ok (mean (maskedAdvantages batches adv), variance (maskedAdvantages batches adv))) := by
  refine forall₂_congr fun adv rank => ?_
  constructor
  · rintro ⟨inputs, runs, group⟩
    have nonempty (d : Fin dp) : batches d ≠ [] := by
      intro none
      have run := runs d
      rw [none, whitenRun_nil] at run
      cases run
    have same (d : Fin dp) : inputs d = inputOf (ownedEntries rank qkvFormat (batches d)) (adv d) :=
      Except.ok.inj ((runs d).symm.trans (whitenRun_eq rank qkvFormat (nonempty d) (adv d)))
    refine ⟨nonempty, ?_⟩
    rcases group with out | ⟨tensors, all, stats⟩
    · refine Or.inl fun d => ?_
      have input := (same d).symm.trans (out d)
      unfold inputOf at input
      split at input
      · assumption
      · cases input
    · have each (d : Fin dp) : ownedEntries rank qkvFormat (batches d) ≠ [] ∧
          tensors d = ((ownedEntries rank qkvFormat (batches d)).map fun e => adv d e.1.2 e.2,
            (ownedEntries rank qkvFormat (batches d)).map Entry.mask) := by
        have input := (same d).symm.trans (all d)
        unfold inputOf at input
        split at input
        · cases input
        · rename_i some
          exact ⟨some, (Option.some.inj input).symm⟩
      refine Or.inr ⟨fun d => (each d).1, ?_⟩
      simp only [fun d => (each d).2] at stats
      exact stats
  · rintro ⟨nonempty, group⟩
    refine ⟨_, fun d => whitenRun_eq rank qkvFormat (nonempty d) (adv d), ?_⟩
    rcases group with out | ⟨all, stats⟩
    · exact Or.inl fun d => if_pos (out d)
    · exact Or.inr ⟨_, fun d => if_neg (all d), stats⟩

theorem reduced_eq (rank : Fin n) (adv : Fin dp → Nat → Nat → ℚ) :
    reduced qkvFormat batches rank adv =
      (∑ d, ((ownedEntries rank qkvFormat (batches d)).map fun e => adv d e.1.2 e.2 * (e.mask : ℚ)).sum,
        ∑ d, ((ownedEntries rank qkvFormat (batches d)).map fun e => adv d e.1.2 e.2 ^ 2 * (e.mask : ℚ)).sum,
        ∑ d, ((ownedEntries rank qkvFormat (batches d)).map fun e => 1 * (e.mask : ℚ)).sum) := by
  unfold reduced
  simp only [localStats_eq]
  rw [Prod.ext_iff, Prod.ext_iff, Prod.fst_sum, Prod.snd_sum, Prod.fst_sum, Prod.snd_sum]
  exact ⟨rfl, rfl, rfl⟩

/-- **A group that has all masked tokens reduces to the statistics of the batch.** -/
theorem Gathered.whitens {rank : Fin n} (gathered : Gathered rank qkvFormat batches) (adv : Fin dp → Nat → Nat → ℚ) :
    (∀ d, ownedEntries rank qkvFormat (batches d) = []) ∨
      (∀ d, ownedEntries rank qkvFormat (batches d) ≠ []) ∧
        globalStats (reduced qkvFormat batches rank adv) =
          .ok (mean (maskedAdvantages batches adv), variance (maskedAdvantages batches adv)) := by
  obtain ⟨_, out | ⟨all, ⟨d, found⟩, here⟩⟩ := gathered
  · exact Or.inl fun d => ownedEntries_nil_iff.2 (out d)
  refine Or.inr ⟨fun d none => ?_, ?_⟩
  · obtain ⟨s, mem, k, inside, owns⟩ := all d
    exact ownedEntries_nil_iff.1 none s mem k inside owns
  have sums (g : Fin dp → Entry → ℚ) : ∑ d, ((ownedEntries rank qkvFormat (batches d)).map fun e => g d e * (e.mask : ℚ)).sum =
      ∑ d, (((entries (batches d)).filter fun e => e.mask = 1).map (g d)).sum :=
    Finset.sum_congr rfl fun d _ => sum_masked (fun e => e.Owned qkvFormat n rank.val) (g d)
      ((forall_entries (P := fun s k => s.lossMask.getD k 0 = 1 → s.Owns qkvFormat n rank.val k)).2 (here d))
  have total := sum_maskedAdvantages batches adv fun x => x
  have squares := sum_maskedAdvantages batches adv (· ^ 2)
  have count := sum_maskedAdvantages batches adv fun _ => 1
  rw [List.map_id'] at total
  rw [List.map_const', List.sum_replicate, nsmul_one] at count
  have nonempty : maskedAdvantages batches adv ≠ [] := by
    obtain ⟨e, mem, masked⟩ := (exists_entries (P := fun s k => s.lossMask.getD k 0 = 1)).2 found
    unfold maskedAdvantages
    refine List.ne_nil_of_mem (List.mem_flatten.2 ⟨_, List.mem_ofFn.2 ⟨d, rfl⟩, List.mem_map.2 ⟨e, ?_, rfl⟩⟩)
    exact List.mem_filter.2 ⟨mem, decide_eq_true masked⟩
  rw [reduced_eq, sums fun d e => adv d e.1.2 e.2, sums fun d e => adv d e.1.2 e.2 ^ 2, sums fun _ _ => 1, ← total,
    ← squares, ← count]
  exact globalStats_eq nonempty

/-- 1 at one entry of rank `d₀`, 0 elsewhere. -/
def indicator (d₀ : Fin dp) (e₀ : Entry) (d : Fin dp) (i k : Nat) : ℚ := if d = d₀ ∧ i = e₀.1.2 ∧ k = e₀.2 then 1 else 0

theorem mean_indicator {d₀ : Fin dp} {e₀ : Entry} (mem : e₀ ∈ entries (batches d₀)) (masked : e₀.mask = 1) :
    mean (maskedAdvantages batches (indicator d₀ e₀)) ≠ 0 := by
  have some : (1 : ℚ) ∈ maskedAdvantages batches (indicator d₀ e₀) := by
    refine List.mem_flatten.2 ⟨_, List.mem_ofFn.2 ⟨d₀, rfl⟩, List.mem_map.2 ⟨e₀, ?_, if_pos ⟨rfl, rfl, rfl⟩⟩⟩
    exact List.mem_filter.2 ⟨mem, decide_eq_true masked⟩
  have nonneg : ∀ x ∈ maskedAdvantages batches (indicator d₀ e₀), 0 ≤ x := by
    intro x here
    obtain ⟨l, list, here⟩ := List.mem_flatten.1 here
    obtain ⟨d, rfl⟩ := List.mem_ofFn.1 list
    obtain ⟨e, _, rfl⟩ := List.mem_map.1 here
    unfold indicator
    split
    · exact zero_le_one
    · exact le_rfl
  have total := List.single_le_sum nonneg 1 some
  have length : 0 < (maskedAdvantages batches (indicator d₀ e₀)).length := List.length_pos_of_mem some
  exact div_ne_zero (by linarith) (Nat.cast_ne_zero.2 (Nat.ne_of_gt length))

/-- A token of another rank is not in the sums. -/
theorem reduced_indicator {rank : Fin n} {d₀ : Fin dp} {e₀ : Entry} (mem : e₀ ∈ entries (batches d₀))
    (other : ¬e₀.Owned qkvFormat n rank.val) : (reduced qkvFormat batches rank (indicator d₀ e₀)).1 = 0 := by
  rw [reduced_eq]
  dsimp only
  refine Finset.sum_eq_zero fun d _ => List.sum_eq_zero fun x here => ?_
  obtain ⟨e, owned, rfl⟩ := List.mem_map.1 here
  obtain ⟨inside, owns⟩ := List.mem_filter.1 owned
  have elsewhere : ¬(d = d₀ ∧ e.1.2 = e₀.1.2 ∧ e.2 = e₀.2) := by
    rintro ⟨rfl, index, token⟩
    have sample : e.1.1 = e₀.1.1 := Option.some.inj
      ((mem_entries.1 inside).1.symm.trans ((congrArg _ index).trans (mem_entries.1 mem).1))
    have same : e = e₀ := Prod.ext (Prod.ext sample index) token
    exact other (same ▸ of_decide_eq_true owns)
  rw [indicator, if_neg elsewhere, zero_mul]

theorem Whitens.gathered (whitens : Whitens n qkvFormat batches) (rank : Fin n) : Gathered rank qkvFormat batches := by
  have group := whitens_iff_entries.1 whitens
  obtain ⟨nonempty, out | ⟨all, stats⟩⟩ := group (fun _ _ _ => 0) rank
  · exact ⟨nonempty, Or.inl fun d => ownedEntries_nil_iff.1 (out d)⟩
  refine ⟨nonempty, Or.inr ⟨fun d => ?_, ?_, fun d => ?_⟩⟩
  · by_contra none
    push Not at none
    exact all d (ownedEntries_nil_iff.2 none)
  · have count := (globalStats_ok stats).1
    by_contra none
    push Not at none
    rw [reduced_eq] at count
    dsimp only at count
    refine count (Finset.sum_eq_zero fun d _ => List.sum_eq_zero fun x here => ?_)
    obtain ⟨e, owned, rfl⟩ := List.mem_map.1 here
    have unmasked : e.mask ≠ 1 := (forall_entries (P := fun s k => s.lossMask.getD k 0 ≠ 1)).2 (none d) e (List.mem_filter.1 owned).1
    have le := e.mask_le
    rw [show e.mask = 0 by omega, Nat.cast_zero, mul_zero]
  · rw [← forall_entries (P := fun s k => s.lossMask.getD k 0 = 1 → s.Owns qkvFormat n rank.val k)]
    intro e mem masked
    by_contra other
    obtain ⟨_, out | ⟨_, stats⟩⟩ := group (indicator d e) rank
    · exact all d (out d)
    · have total := (globalStats_ok stats).2
      rw [reduced_indicator mem other, zero_div] at total
      exact mean_indicator mem masked total

/-- **The statistics are those of the whole batch exactly when the ranks that reduce
together have all of its masked tokens or no token at all.** -/
theorem whitens_iff : Whitens n qkvFormat batches ↔ ∀ rank : Fin n, Gathered rank qkvFormat batches :=
  ⟨fun whitens rank => whitens.gathered rank,
    fun gathered => whitens_iff_entries.2 fun adv rank => ⟨(gathered rank).1, (gathered rank).whitens adv⟩⟩

/-- Four masked response tokens after a prompt of one. -/
def fourTokens : WhitenSample where
  totalLength := 5
  responseLength := 4
  maxSeqLen := 5
  lossMask := [1, 1, 1, 1]
  shorter := by decide
  padded := le_rfl
  masked := rfl
  binary := by decide

/-- Two context-parallel ranks have two of the four tokens each. -/
theorem not_whitens_fourTokens : ¬Whitens 2 .thd fun _ : Fin 1 => [fourTokens] := by
  intro whitens
  obtain ⟨_, out | ⟨_, _, all⟩⟩ := whitens.gathered 0
  · exact out 0 fourTokens (List.mem_singleton_self _) 0 (by decide) (by decide)
  · exact absurd (all 0 fourTokens (List.mem_singleton_self _) 2 (by decide) rfl) (by decide)

end Gathered

end SlimeBoard
