import SlimeBoard.Lib.Collective
import SlimeBoard.Lib.Spans

/-!
# The zigzag layout of context parallelism

A sequence is padded to `2 * n` chunks. Rank `r` of `n` has chunk `r` and chunk
`2 * n - 1 - r`. The logits of a response stand one position before its tokens, so
they begin at the last position of the prompt.
-/

namespace SlimeBoard

inductive QkvFormat where
  | thd
  | bshd
  deriving DecidableEq, Repr

namespace Cp

/-- `(length + 2 * cp_size - 1) // (2 * cp_size)` -/
def chunkSizeOf (n length : Nat) : Nat := (length + 2 * n - 1) / (2 * n)

/-- The length that a format cuts into chunks. -/
def lengthOf (totalLength : Nat) : QkvFormat → Option Nat → Py Nat
  | .thd, _ => .ok totalLength
  | .bshd, some maxSeqLen => .ok maxSeqLen
  | .bshd, none => .error .assertionError

/-- The offsets of the two chunks of a rank, from the beginning of the prompt. -/
structure Offsets where
  chunkSize : Nat
  chunks : (Int × Int) × (Int × Int)
  logits : (Int × Int) × (Int × Int)
  tokens : (Int × Int) × (Int × Int)

/-- The logits of the response in a chunk, and their tokens. -/
def clip (promptLength totalLength : Int) (chunk : Int × Int) : (Int × Int) × (Int × Int) :=
  let logits := (max chunk.1 (promptLength - 1), min chunk.2 (totalLength - 1))
  if logits.1 < logits.2 then (logits, (logits.1 + 1, logits.2 + 1)) else ((0, 0), (0, 0))

/-- The offsets of rank `r` of `n`, for chunks of size `c`. -/
def offsets (n r c totalLength responseLength : Nat) : Offsets :=
  let promptLength : Int := totalLength - responseLength
  let chunk0 : Int × Int := (r * c, (r + 1) * c)
  let chunk1 : Int × Int := ((2 * n - r - 1) * c, (2 * n - r) * c)
  let (logits0, token0) := clip promptLength totalLength chunk0
  let (logits1, token1) := clip promptLength totalLength chunk1
  ⟨c, (chunk0, chunk1), (logits0, logits1), (token0, token1)⟩

end Cp

open Cp

def getLogitsAndTokensOffsetWithCp {n : Nat} (rank : Fin n) (totalLength responseLength : Nat) (qkvFormat : QkvFormat)
    (maxSeqLen : Option Nat) : Py Offsets := do
  pyAssert (decide (1 < n))
  let length ← lengthOf totalLength qkvFormat maxSeqLen
  return offsets n rank.val (chunkSizeOf n length) totalLength responseLength

namespace Cp

theorem getOffsets_eq {n : Nat} (parallel : 1 < n) (rank : Fin n) (totalLength responseLength : Nat) {qkvFormat : QkvFormat}
    {maxSeqLen : Option Nat} {length : Nat} (cut : lengthOf totalLength qkvFormat maxSeqLen = .ok length) :
    getLogitsAndTokensOffsetWithCp rank totalLength responseLength qkvFormat maxSeqLen =
      .ok (offsets n rank.val (chunkSizeOf n length) totalLength responseLength) := by
  unfold getLogitsAndTokensOffsetWithCp
  rw [decide_eq_true parallel, pyAssert_true, Py.ok_bind, cut, Py.ok_bind]
  rfl

/-- The chunks hold the sequence. -/
theorem le_chunks {n : Nat} (ranks : 0 < n) (length : Nat) : length ≤ 2 * n * chunkSizeOf n length := by
  have division := Nat.div_add_mod (length + 2 * n - 1) (2 * n)
  have small := Nat.mod_lt (length + 2 * n - 1) (show 0 < 2 * n by omega)
  unfold chunkSizeOf
  omega

/-! ## Who owns a position -/

/-- The rank that has position `t` in one of its two chunks of size `c`. -/
def owner (n c t : Nat) : Nat := if t / c < n then t / c else 2 * n - 1 - t / c

theorem owner_lt {n c t : Nat} (inside : t < 2 * n * c) : owner n c t < n := by
  have chunk : t / c < 2 * n := Nat.div_lt_of_lt_mul (by rwa [Nat.mul_comm])
  unfold owner
  split
  · assumption
  · omega

/-- The two chunks of a rank. -/
def chunk (n r c : Nat) : Bool → Span
  | false => (r * c, (r + 1) * c)
  | true => ((2 * n - r - 1) * c, (2 * n - r) * c)

theorem mem_block_iff {c t q : Nat} (size : 0 < c) : q * c ≤ t ∧ t < (q + 1) * c ↔ t / c = q := by
  rw [← Nat.le_div_iff_mul_le size, ← Nat.div_lt_iff_lt_mul size]
  omega

theorem mem_chunk {n c t r : Nat} (rank : r < n) (size : 0 < c) (second : Bool) :
    (chunk n r c second).1 ≤ t ∧ t < (chunk n r c second).2 ↔ t / c = if second then 2 * n - 1 - r else r := by
  cases second with
  | false => exact mem_block_iff size
  | true =>
    have mirrored : 2 * n - r = 2 * n - r - 1 + 1 := by omega
    unfold chunk
    dsimp only
    rw [mirrored, Nat.add_sub_cancel, mem_block_iff size, if_pos rfl]
    omega

theorem chunk_pos {n c t : Nat} (inside : t < 2 * n * c) : 0 < c := by
  rcases Nat.eq_zero_or_pos c with rfl | size
  · simp at inside
  · exact size

/-- **A position belongs to one rank.** -/
theorem mem_chunk_iff {n c t r : Nat} (rank : r < n) (inside : t < 2 * n * c) :
    ((chunk n r c false).1 ≤ t ∧ t < (chunk n r c false).2) ∨ ((chunk n r c true).1 ≤ t ∧ t < (chunk n r c true).2) ↔
      owner n c t = r := by
  have bound : t / c < 2 * n := Nat.div_lt_of_lt_mul (by rwa [Nat.mul_comm])
  rw [mem_chunk rank (chunk_pos inside), mem_chunk rank (chunk_pos inside), if_neg Bool.false_ne_true, if_pos rfl]
  unfold owner
  split
  · omega
  · omega

/-- **A position belongs to one chunk of one rank.** -/
theorem existsUnique_chunk {n c t : Nat} (inside : t < 2 * n * c) :
    ∃! p : Fin n × Bool, (chunk n p.1.val c p.2).1 ≤ t ∧ t < (chunk n p.1.val c p.2).2 := by
  have bound : t / c < 2 * n := Nat.div_lt_of_lt_mul (by rwa [Nat.mul_comm])
  refine ⟨(⟨owner n c t, owner_lt inside⟩, decide (n ≤ t / c)), ?_, ?_⟩
  · refine (mem_chunk (owner_lt inside) (chunk_pos inside) _).2 ?_
    show t / c = if decide (n ≤ t / c) = true then 2 * n - 1 - owner n c t else owner n c t
    unfold owner
    by_cases first : t / c < n
    · rw [if_pos first, if_neg (by simpa using first)]
    · rw [if_neg first, if_pos (by simpa using first)]
      omega
  · rintro ⟨r, second⟩ mem
    have index := (mem_chunk r.isLt (chunk_pos inside) _).1 mem
    have rank := r.isLt
    refine Prod.ext (Fin.ext ?_) ?_
    · show r.val = owner n c t
      unfold owner
      cases second
      · simp only [Bool.false_eq_true, if_false] at index
        rw [if_pos (by omega)]
        omega
      · simp only [if_true] at index
        rw [if_neg (by omega)]
        omega
    · show second = decide (n ≤ t / c)
      cases second
      · simp only [Bool.false_eq_true, if_false] at index
        exact (decide_eq_false (by omega)).symm
      · simp only [if_true] at index
        exact (decide_eq_true (by omega)).symm

theorem chunk_forward (n r c : Nat) (second : Bool) : (chunk n r c second).1 ≤ (chunk n r c second).2 := by
  cases second
  · exact Nat.mul_le_mul_right c (by omega)
  · exact Nat.mul_le_mul_right c (by omega)

theorem chunk_before {n r : Nat} (rank : r < n) (c : Nat) : (chunk n r c false).2 ≤ (chunk n r c true).1 :=
  Nat.mul_le_mul_right c (by omega)

/-! ## The spans of a response -/

/-- The part of a chunk in a response of length `len` whose logits begin at `first`. -/
def clipped (first len : Nat) (s : Span) : List Span :=
  let span := (s.1 - first, min s.2 (first + len) - first)
  if span.1 < span.2 then [span] else []

theorem covers_clipped {first len k : Nat} {s : Span} :
    Span.Covers (clipped first len s) k ↔ k < len ∧ s.1 ≤ first + k ∧ first + k < s.2 := by
  unfold clipped Span.Covers
  dsimp only
  split
  · simp only [List.mem_singleton, exists_eq_left]
    omega
  · simp only [List.not_mem_nil, false_and, exists_false, false_iff]
    omega

theorem within_clipped (first len : Nat) (s : Span) : Span.Within 0 (clipped first len s) len := by
  unfold clipped
  dsimp only
  split
  · exact .cons (by omega) (by omega) (.nil (by dsimp only; omega))
  · exact .nil (by omega)

/-- The response positions of rank `r`. -/
def spans (n r c first len : Nat) : List Span :=
  clipped first len (chunk n r c false) ++ clipped first len (chunk n r c true)

theorem covers_append {spans spans' : List Span} {k : Nat} :
    Span.Covers (spans ++ spans') k ↔ Span.Covers spans k ∨ Span.Covers spans' k := by
  simp only [Span.Covers, List.mem_append, or_and_right, exists_or]

theorem covers_spans {n r c first len k : Nat} (rank : r < n) (inside : first + len ≤ 2 * n * c) (bound : k < len) :
    Span.Covers (spans n r c first len) k ↔ owner n c (first + k) = r := by
  rw [spans, covers_append, covers_clipped, covers_clipped, ← mem_chunk_iff rank (show first + k < 2 * n * c by omega)]
  simp only [bound, true_and]

theorem within_spans {n r : Nat} (rank : r < n) (c first len : Nat) : Span.Within 0 (spans n r c first len) len := by
  have order := chunk_before rank c
  have forward := chunk_forward n r c true
  unfold spans clipped
  dsimp only
  split
  · split
    · refine .cons (by omega) (by omega) (.cons ?_ (by omega) (.nil ?_))
      · dsimp only
        omega
      · dsimp only
        omega
    · exact .cons (by omega) (by omega) (.nil (by dsimp only; omega))
  · split
    · exact .cons (by omega) (by omega) (.nil (by dsimp only; omega))
    · exact .nil (by omega)

end Cp

end SlimeBoard
