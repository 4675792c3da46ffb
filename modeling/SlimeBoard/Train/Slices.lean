import SlimeBoard.Parallel.Redistribute

/-!
# Packed responses on context-parallel ranks

A response tensor is one number a response token. In the packed format a rank has the
entries at the positions it owns, in order; without context parallelism it has them all.
-/

namespace SlimeBoard

open Cp Collective

namespace Cp

/-- The tokens of rank `r` in a response of length `len` whose logits begin at `first`. -/
def tokensOf (n r c first len : Nat) : List Nat := (List.range len).filter fun k => n = 1 ∨ owner n c (first + k) = r

section Part

variable {α : Type} {n c first len : Nat}

theorem part_range {r : Nat} (rank : r < n) (fits : first + len ≤ 2 * n * c) (f : Nat → α) :
    part n r c first len ((List.range len).map f) = (tokensOf n r c first len).map f := by
  unfold part tokensOf
  split
  · rename_i alone
    have all : (List.range len).filter (fun k => n = 1 ∨ owner n c (first + k) = r) = List.range len :=
      List.filter_eq_self.2 fun k _ => decide_eq_true (Or.inl alone)
    rw [all]
  · rename_i parallel
    rw [Span.pick_eq_filter (within_spans rank _ first len) _ le_rfl, Nat.sub_zero, ← List.range_eq_range']
    refine congrArg _ (List.filter_congr fun k mem => ?_)
    rw [decide_eq_decide, covers_spans rank fits (List.mem_range.1 mem)]
    exact (or_iff_right parallel).symm

/-- **The parts of a response sum to what the response sums to.** -/
theorem sum_tokensOf [AddCommMonoid α] (ranks : 0 < n) (fits : first + len ≤ 2 * n * c) (f : Nat → α) :
    ∑ r : Fin n, ((tokensOf n r.val c first len).map f).sum = ((List.range len).map f).sum := by
  let own (k : Nat) : Fin n := if inside : k < len then ⟨owner n c (first + k), owner_lt (by omega)⟩ else ⟨0, ranks⟩
  rw [← sum_owned own f (List.range len)]
  refine Finset.sum_congr rfl fun r _ => congrArg (fun ks => (List.map f ks).sum) (List.filter_congr fun k mem => ?_)
  have rank := r.isLt
  have inside := List.mem_range.1 mem
  have bound := owner_lt (show first + k < 2 * n * c by omega)
  rw [decide_eq_decide, Fin.ext_iff]
  simp only [own, dif_pos inside]
  omega

end Part

end Cp

/-- The lengths of a sample: a prompt and a response, neither empty. -/
structure Lengths where
  totalLength : Nat
  responseLength : Nat
  nonempty : 1 ≤ responseLength
  shorter : responseLength < totalLength

namespace Lengths

/-- The position of the first logits of the response. -/
def first (l : Lengths) : Nat := l.totalLength - l.responseLength - 1

theorem totalLength_eq (l : Lengths) : l.totalLength = l.first + 1 + l.responseLength := by
  have := l.shorter
  unfold first
  omega

/-- Rank `r` of `n` has the logits of response token `k`. -/
def Owns (l : Lengths) (n r k : Nat) : Prop := n = 1 ∨ owner n (chunkSizeOf n l.totalLength) (l.first + k) = r

instance (l : Lengths) (n r k : Nat) : Decidable (l.Owns n r k) := inferInstanceAs (Decidable (_ ∨ _))

theorem Owns.unique {l : Lengths} {n r r' k : Nat} (rank : r < n) (rank' : r' < n) (mine : l.Owns n r k)
    (yours : l.Owns n r' k) : r = r' := by
  rcases mine with alone | mine
  · omega
  · rcases yours with alone | yours
    · omega
    · rw [← mine, yours]

/-- The response tokens of rank `r`, in order. -/
def owned (l : Lengths) (n r : Nat) : List Nat := tokensOf n r (chunkSizeOf n l.totalLength) l.first l.responseLength

theorem mem_owned {l : Lengths} {n r k : Nat} : k ∈ l.owned n r ↔ k < l.responseLength ∧ l.Owns n r k := by
  unfold owned tokensOf
  rw [List.mem_filter, List.mem_range, decide_eq_true_iff]
  rfl

theorem owned_sorted (l : Lengths) (n r : Nat) : (l.owned n r).Pairwise (· < ·) := List.pairwise_lt_range.filter _

theorem owned_nodup (l : Lengths) (n r : Nat) : (l.owned n r).Nodup := (owned_sorted l n r).imp Nat.ne_of_lt

theorem fits (l : Lengths) {n : Nat} (ranks : 0 < n) :
    l.first + l.responseLength ≤ 2 * n * chunkSizeOf n l.totalLength := by
  have := l.totalLength_eq
  have := le_chunks ranks l.totalLength
  omega

/-- The part of a response tensor on rank `r` of `n`. -/
def part {α : Type} (l : Lengths) (n r : Nat) (xs : List α) : List α :=
  Cp.part n r (chunkSizeOf n l.totalLength) l.first l.responseLength xs

section Part

variable {α β : Type} (l : Lengths)

theorem part_range {n r : Nat} (rank : r < n) (f : Nat → α) :
    l.part n r ((List.range l.responseLength).map f) = (l.owned n r).map f :=
  Cp.part_range rank (l.fits (Nat.zero_lt_of_lt rank)) f

theorem part_map (n r : Nat) (f : α → β) (xs : List α) : l.part n r (xs.map f) = (l.part n r xs).map f :=
  Cp.part_map ..

theorem slice_eq {n : Nat} (rank : Fin n) {xs : List α} (whole : xs.length = l.responseLength) :
    sliceLogProbWithCp rank xs l.totalLength l.responseLength .thd none = .ok (l.part n rank.val xs) := by
  have packed : lengthOf (l.first + 1 + l.responseLength) .thd none = .ok l.totalLength := by
    rw [← l.totalLength_eq]
    rfl
  have sliced := sliceLogProb_part rank whole packed
  rwa [← l.totalLength_eq] at sliced

theorem gather_eq [AddCommMonoid α] {n : Nat} (ranks : 0 < n) {xs : List α} (whole : xs.length = l.responseLength) :
    allGatherWithCp (fun r : Fin n => l.part n r.val xs) l.totalLength l.responseLength = .ok fun _ => xs := by
  have gathered := allGather_part (c := chunkSizeOf n l.totalLength) (l.fits ranks)
    (fun _ _ => by rw [← l.totalLength_eq]) whole
  rwa [← l.totalLength_eq] at gathered

end Part

end Lengths

/-- A sample with the loss mask of its response, which may be empty. `maxSeqLen` is the
length to which the padded format brings the sample. -/
structure MaskedSample where
  totalLength : Nat
  responseLength : Nat
  maxSeqLen : Nat
  lossMask : List Nat
  shorter : responseLength < totalLength
  padded : totalLength ≤ maxSeqLen
  masked : lossMask.length = responseLength

namespace MaskedSample

/-- The position of the first logits of the response. -/
def first (s : MaskedSample) : Nat := s.totalLength - s.responseLength - 1

theorem totalLength_eq (s : MaskedSample) : s.totalLength = s.first + 1 + s.responseLength := by
  have := s.shorter
  unfold first
  omega

/-- The length that the format cuts into chunks. -/
def cutLength (s : MaskedSample) : QkvFormat → Nat
  | .thd => s.totalLength
  | .bshd => s.maxSeqLen

def maxSeqLenOf (s : MaskedSample) : QkvFormat → Option Nat
  | .thd => none
  | .bshd => some s.maxSeqLen

theorem lengthOf_cutLength (s : MaskedSample) (qkvFormat : QkvFormat) :
    lengthOf (s.first + 1 + s.responseLength) qkvFormat (s.maxSeqLenOf qkvFormat) = .ok (s.cutLength qkvFormat) := by
  rw [← s.totalLength_eq]
  cases qkvFormat with
  | thd => rfl
  | bshd => rfl

theorem fits (s : MaskedSample) {n : Nat} (ranks : 0 < n) (qkvFormat : QkvFormat) :
    s.first + s.responseLength ≤ 2 * n * chunkSizeOf n (s.cutLength qkvFormat) := by
  have total := s.totalLength_eq
  have long : s.totalLength ≤ s.cutLength qkvFormat := by
    cases qkvFormat with
    | thd => exact le_rfl
    | bshd => exact s.padded
  have chunks := le_chunks ranks (s.cutLength qkvFormat)
  omega

/-- Rank `r` of `n` has the logits of response token `k`. -/
def Owns (s : MaskedSample) (qkvFormat : QkvFormat) (n r k : Nat) : Prop :=
  n = 1 ∨ owner n (chunkSizeOf n (s.cutLength qkvFormat)) (s.first + k) = r

instance (s : MaskedSample) (qkvFormat : QkvFormat) (n r k : Nat) : Decidable (s.Owns qkvFormat n r k) :=
  inferInstanceAs (Decidable (_ ∨ _))

/-- The part of a tensor over the response on rank `r`. -/
def part {α : Type} (s : MaskedSample) (qkvFormat : QkvFormat) (n r : Nat) (xs : List α) : List α :=
  Cp.part n r (chunkSizeOf n (s.cutLength qkvFormat)) s.first s.responseLength xs

/-- The response tokens of rank `r`. -/
def tokens (s : MaskedSample) (qkvFormat : QkvFormat) (n r : Nat) : List Nat :=
  tokensOf n r (chunkSizeOf n (s.cutLength qkvFormat)) s.first s.responseLength

theorem part_eq {α : Type} {n : Nat} (rank : Fin n) (qkvFormat : QkvFormat) (s : MaskedSample) (fill : α) {xs : List α}
    (whole : xs.length = s.responseLength) :
    s.part qkvFormat n rank.val xs = (s.tokens qkvFormat n rank.val).map fun k => xs.getD k fill := by
  have fits := s.fits (Nat.zero_lt_of_lt rank.isLt) qkvFormat
  unfold part tokens
  rw [← part_range rank.isLt fits, ← whole, map_range_getD]

end MaskedSample

/-- `max_seq_lens` of a micro-batch, `None` in the packed format. -/
def maxSeqLensOf (qkvFormat : QkvFormat) (maxSeqLens : List Nat) : Option (List Nat) :=
  match qkvFormat with
  | .thd => none
  | .bshd => some maxSeqLens

section Loop

variable {σ α : Type} (base : σ → MaskedSample) (qkvFormat : QkvFormat) (samples : List σ)

theorem maxSeqLenAt_base {i : Nat} {s : σ} (found : samples[i]? = some s) :
    maxSeqLenAt (maxSeqLensOf qkvFormat (samples.map fun s => (base s).maxSeqLen)) i = .ok ((base s).maxSeqLenOf qkvFormat) := by
  cases qkvFormat with
  | thd => rfl
  | bshd =>
    simp only [maxSeqLensOf, maxSeqLenAt, List.getElem?_map, found, Option.map_some]
    rfl

/-- A loop over the samples that reads their `max_seq_lens`. -/
theorem mapM_padded (run : σ → Nat → Option Nat → Py α) (value : σ → Nat → α)
    (ok : ∀ s ∈ samples, ∀ i, run s i ((base s).maxSeqLenOf qkvFormat) = .ok (value s i)) :
    samples.zipIdx.mapM (fun p => do
      let maxSeqLen ← maxSeqLenAt (maxSeqLensOf qkvFormat (samples.map fun s => (base s).maxSeqLen)) p.2
      run p.1 p.2 maxSeqLen) = .ok (samples.zipIdx.map fun p => value p.1 p.2) := by
  refine mapM_ok _ fun p mem => ?_
  have found := List.mem_zipIdx_iff_getElem?.1 mem
  rw [maxSeqLenAt_base base qkvFormat samples found, Py.ok_bind]
  exact ok p.1 (List.mem_of_getElem? found) p.2

end Loop

end SlimeBoard
