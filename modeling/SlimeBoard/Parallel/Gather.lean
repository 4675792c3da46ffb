import SlimeBoard.Parallel.Zigzag

/-!
# Slicing and gathering response tensors

`slice_log_prob_with_cp` leaves a rank its part of a response tensor.
`all_gather_with_cp` puts the parts between zeros and adds them up over the ranks. It
computes the offsets of the packed format, whatever format the parts were cut in.
-/

namespace SlimeBoard

open Cp Collective

section Code

variable {α : Type}

/-- `torch.zeros([len])` -/
def zeros [Zero α] (len : Int) : Py (List α) :=
  if len < 0 then .error .runtimeError else .ok (List.replicate len.toNat 0)

/-- The two chunks of a rank between zeros. -/
def fillChunks [Zero α] (logits : (Int × Int) × (Int × Int)) (promptLength totalLength : Int) (responseLength : Nat)
    (chunk0 chunk1 : List α) : Py (List α) :=
  if chunk0.length = 0 ∧ chunk1.length = 0 then zeros responseLength
  else if chunk0.length ≠ 0 ∧ chunk1.length = 0 then do
    let left ← zeros (logits.1.1 - (promptLength - 1))
    let right ← zeros (totalLength - 1 - logits.1.2)
    return left ++ chunk0 ++ right
  else if chunk0.length = 0 ∧ chunk1.length ≠ 0 then do
    let left ← zeros (logits.2.1 - (promptLength - 1))
    let right ← zeros (totalLength - 1 - logits.2.2)
    return left ++ chunk1 ++ right
  else do
    let left ← zeros (logits.1.1 - (promptLength - 1))
    let mid ← zeros (logits.2.1 - logits.1.2)
    let right ← zeros (totalLength - 1 - logits.2.2)
    return left ++ chunk0 ++ mid ++ chunk1 ++ right

/-- What a rank contributes to `all_gather_with_cp`. -/
def padChunks [Zero α] (o : Offsets) (tensor : List α) (totalLength responseLength : Nat) : Py (List α) := do
  let promptLength : Int := totalLength - responseLength
  let size0 := o.logits.1.2 - o.logits.1.1
  let chunk0 := pySlice tensor 0 size0
  let chunk1 := pySlice tensor size0 tensor.length
  pyAssert (decide ((chunk1.length : Int) = o.logits.2.2 - o.logits.2.1))
  let full ← fillChunks o.logits promptLength totalLength responseLength chunk0 chunk1
  pyAssert (decide (full.length = responseLength))
  return full

/-- `tensor` has the local tensor of every rank, and so has the result. -/
def allGatherWithCp [AddCommMonoid α] {n : Nat} (tensor : Fin n → List α) (totalLength responseLength : Nat) :
    Py (Fin n → List α) :=
  if n = 1 then .ok tensor
  else do
    let parts ← Collective.collect fun rank => do
      let o ← getLogitsAndTokensOffsetWithCp rank totalLength responseLength .thd none
      padChunks o (tensor rank) totalLength responseLength
    return fun _ => allReduce responseLength parts

def sliceLogProbWithCp {n : Nat} (rank : Fin n) (logProb : List α) (totalLength responseLength : Nat)
    (qkvFormat : QkvFormat) (maxTokenLen : Option Nat) : Py (List α) := do
  pyAssert (decide (logProb.length = responseLength))
  if n = 1 then return logProb
  else
    let promptLength : Int := totalLength - responseLength
    let o ← getLogitsAndTokensOffsetWithCp rank totalLength responseLength qkvFormat maxTokenLen
    let chunk1 := pySlice logProb (o.logits.1.1 - (promptLength - 1)) (o.logits.1.2 - (promptLength - 1))
    let chunk2 := pySlice logProb (o.logits.2.1 - (promptLength - 1)) (o.logits.2.2 - (promptLength - 1))
    return chunk1 ++ chunk2

end Code

namespace Cp

/-! ## Offsets and spans -/

/-- The logits of a chunk, by its span of the response: none, or those of the span. -/
theorem clip_cases (first len : Nat) (s : Span) :
    (clipped first len s = [] ∧ clip (first + 1) (first + 1 + len) (s.1, s.2) = ((0, 0), (0, 0))) ∨
      ∃ a b, a < b ∧ b ≤ len ∧ clipped first len s = [(a, b)] ∧
        clip (first + 1) (first + 1 + len) (s.1, s.2) =
          (((first : Int) + a, (first : Int) + b), ((first : Int) + a + 1, (first : Int) + b + 1)) := by
  unfold clip clipped
  dsimp only
  by_cases inside : s.1 - first < min s.2 (first + len) - first
  · refine Or.inr ⟨s.1 - first, min s.2 (first + len) - first, inside, by omega, if_pos inside, ?_⟩
    have start : max (s.1 : Int) (first + 1 - 1) = (first : Int) + (s.1 - first : Nat) := by omega
    have stop : min (s.2 : Int) (first + 1 + len - 1) = (first : Int) + (min s.2 (first + len) - first : Nat) := by omega
    rw [start, stop, if_pos (by omega)]
  · exact Or.inl ⟨if_neg inside, if_neg (by omega)⟩

/-- The logits and tokens of one chunk of rank `r`. -/
def half (n r c first len : Nat) (second : Bool) : (Int × Int) × (Int × Int) :=
  clip (first + 1) (first + 1 + len) ((chunk n r c second).1, (chunk n r c second).2)

theorem offsets_eq {n r : Nat} (rank : r < n) (c first len : Nat) :
    offsets n r c (first + 1 + len) len = ⟨c,
      (((chunk n r c false).1, (chunk n r c false).2), ((chunk n r c true).1, (chunk n r c true).2)),
      ((half n r c first len false).1, (half n r c first len true).1),
      ((half n r c first len false).2, (half n r c first len true).2)⟩ := by
  have total : ((first + 1 + len : Nat) : Int) = first + 1 + len := by omega
  have prompt : ((first : Int) + 1 + len) - len = first + 1 := by omega
  have mirror : (((2 * n - r - 1) * c : Nat) : Int) = (2 * n - r - 1) * c := by
    rw [Nat.cast_mul]
    congr 1
    omega
  have mirror' : (((2 * n - r) * c : Nat) : Int) = (2 * n - r) * c := by
    rw [Nat.cast_mul]
    congr 1
    omega
  have zig : ((r * c : Nat) : Int) = r * c := Nat.cast_mul ..
  have zig' : (((r + 1) * c : Nat) : Int) = (r + 1) * c := by rw [Nat.cast_mul, Nat.cast_add_one]
  unfold offsets
  simp only [total, prompt, half, chunk, mirror, mirror', zig, zig']

/-- A slice of the response, at the logits of a chunk. -/
theorem pySlice_half {α : Type} (n r c first len : Nat) (second : Bool) (xs : List α) :
    pySlice xs ((half n r c first len second).1.1 - first) ((half n r c first len second).1.2 - first) =
      Span.pick (clipped first len (chunk n r c second)) xs := by
  unfold half
  rcases clip_cases first len (chunk n r c second) with ⟨none, same⟩ | ⟨a, b, forward, bound, some, same⟩
  · rw [none, same]
    exact pySlice_self ..
  · rw [some, same]
    dsimp only
    rw [add_sub_cancel_left, add_sub_cancel_left, pySlice_nat, Span.pick_cons, Span.pick_nil, List.append_nil]

/-- The same slice, at the tokens of the chunk. -/
theorem pySlice_tokens {α : Type} (n r c first len : Nat) (second : Bool) (xs : List α) :
    pySlice xs ((half n r c first len second).2.1 - (first + 1)) ((half n r c first len second).2.2 - (first + 1)) =
      Span.pick (clipped first len (chunk n r c second)) xs := by
  unfold half
  rcases clip_cases first len (chunk n r c second) with ⟨none, same⟩ | ⟨a, b, forward, bound, some, same⟩
  · rw [none, same]
    exact pySlice_self ..
  · have start : (first : Int) + a + 1 - (first + 1) = a := by omega
    have stop : (first : Int) + b + 1 - (first + 1) = b := by omega
    rw [some, same]
    dsimp only
    rw [start, stop, pySlice_nat, Span.pick_cons, Span.pick_nil, List.append_nil]

theorem size_half (n r c first len : Nat) (second : Bool) :
    (half n r c first len second).1.2 - (half n r c first len second).1.1 =
      Span.size (clipped first len (chunk n r c second)) := by
  unfold half
  rcases clip_cases first len (chunk n r c second) with ⟨none, same⟩ | ⟨a, b, forward, bound, some, same⟩
  · rw [none, same]
    rfl
  · rw [some, same]
    simp only [Span.size, List.map_cons, List.map_nil, List.sum_cons, List.sum_nil]
    omega

/-- **A rank's slice of a response vector is its part of it.** -/
theorem sliceLogProb_eq {α : Type} {n : Nat} (parallel : 1 < n) (rank : Fin n) {xs : List α} {first len : Nat}
    (whole : xs.length = len) {qkvFormat : QkvFormat} {maxTokenLen : Option Nat} {length : Nat}
    (cut : lengthOf (first + 1 + len) qkvFormat maxTokenLen = .ok length) :
    sliceLogProbWithCp rank xs (first + 1 + len) len qkvFormat maxTokenLen =
      .ok (Span.pick (spans n rank.val (chunkSizeOf n length) first len) xs) := by
  have prompt : ((first + 1 + len : Nat) : Int) - len - 1 = first := by omega
  unfold sliceLogProbWithCp
  rw [decide_eq_true whole, pyAssert_true, Py.ok_bind, if_neg (by omega), getOffsets_eq parallel rank _ _ cut, Py.ok_bind,
    offsets_eq rank.isLt]
  dsimp only
  rw [prompt, pySlice_half, pySlice_half]
  refine congrArg Except.ok ?_
  unfold spans Span.pick
  rw [List.flatMap_append]

theorem zeros_nat {α : Type} [Zero α] {i : Int} {k : Nat} (same : i = k) : (zeros i : Py (List α)) = .ok (List.replicate k 0) := by
  rw [same, zeros, if_neg (by omega), Int.toNat_natCast]

theorem mapM_getElem? {α β : Type} {f : α → Py β} {xs : List α} {ys : List β} (done : xs.mapM f = .ok ys) {i : Nat} {x : α}
    (found : xs[i]? = some x) : ∃ y, ys[i]? = some y ∧ f x = .ok y := by
  induction xs generalizing ys i with
  | nil => cases found
  | cons x' xs ih =>
    rw [List.mapM_cons] at done
    obtain ⟨y, here, done⟩ := Py.bind_eq_ok.1 done
    obtain ⟨rest, tail, same⟩ := Py.bind_eq_ok.1 done
    rw [← Except.ok.inj same]
    cases i with
    | zero => exact ⟨y, rfl, Option.some.inj found ▸ here⟩
    | succ i => exact ih tail found

theorem assert_bind_ok {β : Type} {p : Prop} [Decidable p] {run : Py β} {y : β} :
    (do pyAssert (decide p); run) = .ok y ↔ p ∧ run = .ok y := by
  by_cases holds : p
  · rw [decide_eq_true holds, pyAssert_true, Py.ok_bind]
    exact ⟨fun h => ⟨holds, h⟩, fun h => h.2⟩
  · rw [decide_eq_false holds, pyAssert_false, Py.error_bind]
    exact ⟨fun h => (nomatch h), fun h => absurd h.1 holds⟩

section Fill

variable {α : Type} [Zero α] {logits : (Int × Int) × (Int × Int)} {first len a b a' b' : Nat} {chunk0 chunk1 : List α}

theorem fill_neither : fillChunks logits (first + 1) (first + 1 + len) len ([] : List α) [] = .ok (List.replicate len 0) := by
  unfold fillChunks
  rw [if_pos ⟨rfl, rfl⟩]
  exact zeros_nat rfl

theorem fill_first (span : logits.1 = ((first : Int) + a, (first : Int) + b)) (bound : b ≤ len) (some : chunk0 ≠ []) :
    fillChunks logits (first + 1) (first + 1 + len) len chunk0 [] =
      .ok (List.replicate a 0 ++ chunk0 ++ List.replicate (len - b) 0) := by
  have nonempty := List.length_pos_iff.2 some
  unfold fillChunks
  rw [if_neg (by omega), if_pos ⟨by omega, rfl⟩, span, zeros_nat (k := a) (by dsimp only; omega), Py.ok_bind,
    zeros_nat (k := len - b) (by dsimp only; omega)]
  rfl

theorem fill_second (span : logits.2 = ((first : Int) + a, (first : Int) + b)) (bound : b ≤ len) (some : chunk1 ≠ []) :
    fillChunks logits (first + 1) (first + 1 + len) len [] chunk1 =
      .ok (List.replicate a 0 ++ chunk1 ++ List.replicate (len - b) 0) := by
  have nonempty := List.length_pos_iff.2 some
  unfold fillChunks
  rw [if_neg (by omega), if_neg (by simp), if_pos ⟨rfl, by omega⟩, span, zeros_nat (k := a) (by dsimp only; omega),
    Py.ok_bind, zeros_nat (k := len - b) (by dsimp only; omega)]
  rfl

theorem fill_both (span : logits = (((first : Int) + a, (first : Int) + b), ((first : Int) + a', (first : Int) + b')))
    (order : b ≤ a') (bound : b' ≤ len) (some : chunk0 ≠ []) (some' : chunk1 ≠ []) :
    fillChunks logits (first + 1) (first + 1 + len) len chunk0 chunk1 =
      .ok (List.replicate a 0 ++ chunk0 ++ List.replicate (a' - b) 0 ++ chunk1 ++ List.replicate (len - b') 0) := by
  have nonempty := List.length_pos_iff.2 some
  have nonempty' := List.length_pos_iff.2 some'
  unfold fillChunks
  rw [if_neg (by omega), if_neg (by omega), if_neg (by omega), span, zeros_nat (k := a) (by dsimp only; omega),
    Py.ok_bind, zeros_nat (k := a' - b) (by dsimp only; omega), Py.ok_bind,
    zeros_nat (k := len - b') (by dsimp only; omega)]
  rfl

end Fill

theorem clipped_eq_nil {first len : Nat} {s : Span} (empty : Span.size (clipped first len s) = 0) : clipped first len s = [] := by
  unfold clipped at empty ⊢
  dsimp only at empty ⊢
  split
  · rename_i inside
    rw [if_pos inside] at empty
    simp only [Span.size, List.map_cons, List.map_nil, List.sum_cons, List.sum_nil] at empty
    omega
  · rfl

/-- The contribution of a rank, from its part. -/
theorem padChunks_eq {α : Type} [Zero α] {n r : Nat} (rank : r < n) (c first len : Nat) (tensor : List α) (full : List α) :
    padChunks (offsets n r c (first + 1 + len) len) tensor (first + 1 + len) len = .ok full ↔
      (tensor = [] ∧ full = List.replicate len 0 ∧ Span.size (clipped first len (chunk n r c true)) = 0) ∨
        (tensor.length = Span.size (spans n r c first len) ∧ full = Span.spread 0 0 (spans n r c first len) len tensor) := by
  have prompt : ((first + 1 + len : Nat) : Int) - len = first + 1 := by omega
  have total : ((first + 1 + len : Nat) : Int) = first + 1 + len := by omega
  have head : ∀ k : Nat, pySlice tensor 0 k = tensor.take k := by
    intro k
    rw [show (0 : Int) = (0 : Nat) from rfl, pySlice_nat, List.drop_zero]
  have tail : ∀ k : Nat, pySlice tensor k tensor.length = tensor.drop k := by
    intro k
    rw [pySlice_nat, List.take_length]
  have split : ∀ l₀ l₁ : Nat, ((tensor.drop l₀).length : Int) = l₁ ↔ tensor.length - l₀ = l₁ := by
    intro l₀ l₁
    rw [List.length_drop]
    omega
  have chunks : Span.size (spans n r c first len) =
      Span.size (clipped first len (chunk n r c false)) + Span.size (clipped first len (chunk n r c true)) := by
    unfold spans Span.size
    rw [List.map_append, List.sum_append]
  have order := chunk_before rank c
  unfold padChunks
  rw [offsets_eq rank]
  dsimp only
  rw [prompt, total, size_half, size_half, head, tail, assert_bind_ok, split, chunks]
  have checked : ∀ xs : List α, (do pyAssert (decide (xs.length = len)); return xs : Py (List α)) = .ok full ↔
      xs.length = len ∧ full = xs := by
    intro xs
    rw [assert_bind_ok]
    exact and_congr_right fun _ => ⟨fun h => (Except.ok.inj h).symm, fun h => congrArg Except.ok h.symm⟩
  rcases eq_or_ne tensor [] with rfl | some
  · rw [List.take_nil, List.drop_nil, fill_neither, Py.ok_bind, checked]
    simp only [List.length_nil, Nat.zero_sub, List.length_replicate, true_and]
    constructor
    · rintro ⟨empty, same⟩
      exact Or.inl ⟨same, empty.symm⟩
    · rintro (⟨same, empty⟩ | ⟨empty, same⟩)
      · exact ⟨empty.symm, same⟩
      · have none₀ := clipped_eq_nil (show Span.size (clipped first len (chunk n r c false)) = 0 by omega)
        have none₁ := clipped_eq_nil (show Span.size (clipped first len (chunk n r c true)) = 0 by omega)
        rw [spans, none₀, none₁] at same
        exact ⟨by omega, same⟩
  have positive := List.length_pos_iff.2 some
  have within := within_spans rank c first len
  rcases clip_cases first len (chunk n r c false) with ⟨none₀, same₀⟩ | ⟨a, b, forward, bound, some₀, same₀⟩
  · rcases clip_cases first len (chunk n r c true) with ⟨none₁, same₁⟩ | ⟨a', b', forward', bound', some₁, same₁⟩
    · simp only [spans, none₀, none₁, Span.size, List.map_nil, List.sum_nil, some, false_and, false_or]
      exact ⟨fun h => by omega, fun h => by omega⟩
    · simp only [half, spans, none₀, some₁, same₁, Span.size, List.map_nil, List.sum_nil, List.map_cons, List.sum_cons,
        some, false_and, false_or, List.take_zero, List.drop_zero, List.nil_append, Span.spread]
      rw [fill_second rfl bound' some, Py.ok_bind, checked]
      simp only [List.length_append, List.length_replicate, List.append_assoc, Nat.sub_zero]
      constructor
      · rintro ⟨length, _, same⟩
        refine ⟨by omega, ?_⟩
        rw [List.take_of_length_le (by omega)]
        exact same
      · rintro ⟨length, same⟩
        rw [List.take_of_length_le (by omega)] at same
        exact ⟨by omega, by omega, same⟩
  · rcases clip_cases first len (chunk n r c true) with ⟨none₁, same₁⟩ | ⟨a', b', forward', bound', some₁, same₁⟩
    · simp only [half, spans, some₀, same₀, none₁, Span.size, List.map_nil, List.sum_nil, List.map_cons, List.sum_cons,
        some, false_and, false_or, List.append_nil, Span.spread]
      constructor
      · rintro ⟨length, run⟩
        rw [List.drop_eq_nil_iff.2 (by omega), List.take_of_length_le (by omega), fill_first rfl bound some, Py.ok_bind,
          checked] at run
        obtain ⟨whole, same⟩ := run
        simp only [List.length_append, List.length_replicate] at whole
        refine ⟨by omega, ?_⟩
        rw [List.take_of_length_le (by omega), Nat.sub_zero, ← List.append_assoc]
        exact same
      · rintro ⟨length, same⟩
        rw [List.take_of_length_le (by omega), Nat.sub_zero, ← List.append_assoc] at same
        rw [List.drop_eq_nil_iff.2 (by omega), List.take_of_length_le (by omega), fill_first rfl bound some, Py.ok_bind,
          checked]
        refine ⟨by omega, ?_, same⟩
        simp only [List.length_append, List.length_replicate]
        omega
    · have order : b ≤ a' := by
        rw [spans, some₀, some₁] at within
        obtain _ | ⟨_, _, _ | ⟨order, _⟩⟩ := within
        exact order
      simp only [half, spans, some₀, same₀, some₁, same₁, Span.size, List.map_nil, List.sum_nil, List.map_cons,
        List.sum_cons, some, false_and, false_or, List.cons_append, List.nil_append, Span.spread]
      have placed (length : tensor.length = b - a + (b' - a' + 0)) :
          List.replicate a 0 ++ tensor.take (b - a) ++ List.replicate (a' - b) 0 ++ tensor.drop (b - a) ++
              List.replicate (len - b') 0 =
            List.replicate (a - 0) 0 ++ (tensor.take (b - a) ++ (List.replicate (a' - b) 0 ++
              ((tensor.drop (b - a)).take (b' - a') ++ List.replicate (len - b') 0))) := by
        have rest : (tensor.drop (b - a)).take (b' - a') = tensor.drop (b - a) :=
          List.take_of_length_le (by rw [List.length_drop]; omega)
        rw [rest]
        simp only [List.append_assoc, Nat.sub_zero]
      constructor
      · rintro ⟨length, run⟩
        have length : tensor.length = b - a + (b' - a' + 0) := by omega
        rw [fill_both rfl order bound' (List.ne_nil_of_length_pos (by rw [List.length_take]; omega))
          (List.ne_nil_of_length_pos (by rw [List.length_drop]; omega)), Py.ok_bind, checked] at run
        exact ⟨length, run.2.trans (placed length)⟩
      · rintro ⟨length, same⟩
        rw [fill_both rfl order bound' (List.ne_nil_of_length_pos (by rw [List.length_take]; omega))
          (List.ne_nil_of_length_pos (by rw [List.length_drop]; omega)), Py.ok_bind, checked]
        refine ⟨by omega, ?_, same.trans (placed length).symm⟩
        simp only [List.length_append, List.length_replicate, List.length_take, List.length_drop]
        omega

/-! ## Round trips -/

theorem map_range_getD {α : Type} (fill : α) (xs : List α) : (List.range xs.length).map (fun k => xs.getD k fill) = xs := by
  refine List.ext_getElem (by simp) fun k _ inside => ?_
  rw [List.getElem_map, List.getElem_range, List.getD_eq_getElem?_getD, List.getElem?_eq_getElem inside]
  rfl

section Owned

variable {n c c' first len : Nat}

/-- Equal owners, equal parts. -/
theorem pick_spans_congr {α : Type} {r : Nat} (rank : r < n) (fits : first + len ≤ 2 * n * c)
    (fits' : first + len ≤ 2 * n * c') (same : ∀ k < len, owner n c (first + k) = owner n c' (first + k)) {xs : List α}
    (whole : xs.length = len) : Span.pick (spans n r c first len) xs = Span.pick (spans n r c' first len) xs := by
  rcases xs with _ | ⟨x, rest⟩
  · rw [Span.pick_of_nil, Span.pick_of_nil]
  · rw [← map_range_getD x (x :: rest), whole, Span.pick_eq_filter (within_spans rank c first len) _ le_rfl,
      Span.pick_eq_filter (within_spans rank c' first len) _ le_rfl]
    refine congrArg _ (List.filter_congr fun k mem => ?_)
    have bound : k < len := by
      have := List.mem_range'_1.1 mem
      omega
    rw [decide_eq_decide, covers_spans rank fits bound, covers_spans rank fits' bound, same k bound]

/-- **The parts of a response vector add up to it**, if the gather looks for every
position where it was cut. -/
theorem allGather_pick {α : Type} [AddCommMonoid α] (parallel : 1 < n) (fits : first + len ≤ 2 * n * c)
    (same : ∀ k < len, owner n c (first + k) = owner n (chunkSizeOf n (first + 1 + len)) (first + k)) {xs : List α}
    (whole : xs.length = len) :
    allGatherWithCp (fun r : Fin n => Span.pick (spans n r.val c first len) xs) (first + 1 + len) len =
      .ok fun _ => xs := by
  have fits' : first + len ≤ 2 * n * chunkSizeOf n (first + 1 + len) := by
    have := le_chunks (show 0 < n by omega) (first + 1 + len)
    omega
  let f (k : Nat) : α := xs.getD k 0
  have values : xs = (List.range len).map f := by rw [← whole, map_range_getD]
  let part (r : Fin n) := (List.range len).map fun k =>
    if owner n (chunkSizeOf n (first + 1 + len)) (first + k) = r.val then f k else 0
  have padded (r : Fin n) : (do
      let o ← getLogitsAndTokensOffsetWithCp r (first + 1 + len) len .thd none
      padChunks o (Span.pick (spans n r.val c first len) xs) (first + 1 + len) len) = .ok (part r) := by
    have within := within_spans r.isLt (chunkSizeOf n (first + 1 + len)) first len
    rw [getOffsets_eq parallel r _ _ rfl, Py.ok_bind, padChunks_eq r.isLt, pick_spans_congr r.isLt fits fits' same whole]
    refine Or.inr ⟨Span.length_pick within whole.ge, ?_⟩
    rw [values, Span.spread_pick within 0 f le_rfl, Nat.sub_zero, ← List.range_eq_range']
    refine List.map_congr_left fun k mem => ?_
    have covers := covers_spans r.isLt fits' (List.mem_range.1 mem)
    simp only [covers]
  unfold allGatherWithCp
  rw [if_neg (by omega), collect_ok padded, Py.ok_bind]
  refine congrArg Except.ok (funext fun _ => ?_)
  have small : ∀ k < len, owner n (chunkSizeOf n (first + 1 + len)) (first + k) < n :=
    fun k bound => owner_lt (by omega)
  rw [allReduce_owned _ small f fun _ => rfl, ← values]

/-- **A gather that brings every vector back looks for every position where it was cut.** -/
theorem owner_of_allGather {α : Type} [AddCommMonoid α] {a : α} (nonzero : a ≠ 0) (parallel : 1 < n)
    (fits : first + len ≤ 2 * n * c)
    (gathers : ∀ xs : List α, xs.length = len →
      allGatherWithCp (fun r : Fin n => Span.pick (spans n r.val c first len) xs) (first + 1 + len) len = .ok fun _ => xs)
    {k : Nat} (inside : k < len) :
    owner n c (first + k) = owner n (chunkSizeOf n (first + 1 + len)) (first + k) := by
  have fits' : first + len ≤ 2 * n * chunkSizeOf n (first + 1 + len) := by
    have := le_chunks (show 0 < n by omega) (first + 1 + len)
    omega
  by_contra differ
  let x : List α := (List.range len).map fun j => if j = k then a else 0
  have gathered := gathers x (by rw [List.length_map, List.length_range])
  unfold allGatherWithCp at gathered
  rw [if_neg (by omega)] at gathered
  obtain ⟨parts, collected, sum⟩ := Py.bind_eq_ok.1 gathered
  -- no rank contributes anything to position `k`
  have zero (r : Fin n) : (parts r).getD k 0 = 0 := by
    have run := collect_ok_iff.1 collected r
    rw [getOffsets_eq parallel r _ _ rfl, Py.ok_bind, padChunks_eq r.isLt] at run
    rcases run with ⟨_, same, _⟩ | ⟨whole, same⟩
    · rw [same, List.getD_eq_getElem?_getD, List.getElem?_replicate, if_pos inside]
      rfl
    · by_cases sought : owner n (chunkSizeOf n (first + 1 + len)) (first + k) = r.val
      · have empty : ∀ y ∈ Span.pick (spans n r.val c first len) x, y = 0 := by
          intro y mem
          rw [Span.pick_eq_filter (within_spans r.isLt c first len) _ le_rfl] at mem
          obtain ⟨j, kept, rfl⟩ := List.mem_map.1 mem
          obtain ⟨range, covers⟩ := List.mem_filter.1 kept
          have bound : j < len := by
            have := List.mem_range'_1.1 range
            omega
          have own := (covers_spans r.isLt fits bound).1 (of_decide_eq_true covers)
          refine if_neg ?_
          rintro rfl
          exact differ (own.trans sought.symm)
        rw [same, List.getD_eq_getElem?_getD]
        cases found : (Span.spread 0 0 (spans n r.val (chunkSizeOf n (first + 1 + len)) first len) len
            (Span.pick (spans n r.val c first len) x))[k]? with
        | none => rfl
        | some y => exact (Span.mem_spread (List.mem_of_getElem? found)).elim id (empty y)
      · rw [same]
        refine Span.getD_spread (within_spans r.isLt _ first len) whole (Nat.zero_le k) ?_
        rw [covers_spans r.isLt fits' inside]
        exact sought
  have reduced : allReduce len parts = x := congrFun (Except.ok.inj sum) ⟨0, by omega⟩
  have entry := congrArg (fun xs => xs.getD k 0) reduced
  simp only [x, allReduce, getD_map_range _ inside, zero, Finset.sum_const_zero, if_true] at entry
  exact nonzero entry.symm

end Owned

/-- The part of a response vector on rank `r`, whole without context parallelism. -/
def part {α : Type} (n r c first len : Nat) (xs : List α) : List α :=
  if n = 1 then xs else Span.pick (spans n r c first len) xs

theorem part_one {α : Type} (r c first len : Nat) (xs : List α) : part 1 r c first len xs = xs := if_pos rfl

theorem part_map {α β : Type} (n r c first len : Nat) (f : α → β) (xs : List α) :
    part n r c first len (xs.map f) = (part n r c first len xs).map f := by
  unfold part
  split
  · rfl
  · exact Span.pick_map ..

theorem sliceLogProb_part {α : Type} {n : Nat} (rank : Fin n) {xs : List α} {first len : Nat} (whole : xs.length = len)
    {qkvFormat : QkvFormat} {maxTokenLen : Option Nat} {length : Nat}
    (cut : lengthOf (first + 1 + len) qkvFormat maxTokenLen = .ok length) :
    sliceLogProbWithCp rank xs (first + 1 + len) len qkvFormat maxTokenLen =
      .ok (part n rank.val (chunkSizeOf n length) first len xs) := by
  have ranks := rank.isLt
  unfold part
  split
  · rename_i alone
    unfold sliceLogProbWithCp
    rw [decide_eq_true whole, pyAssert_true, Py.ok_bind, if_pos alone]
    rfl
  · exact sliceLogProb_eq (by omega) rank whole cut

theorem allGather_part {α : Type} [AddCommMonoid α] {n c first len : Nat} (fits : first + len ≤ 2 * n * c)
    (same : ∀ k < len, owner n c (first + k) = owner n (chunkSizeOf n (first + 1 + len)) (first + k)) {xs : List α}
    (whole : xs.length = len) :
    allGatherWithCp (fun r : Fin n => part n r.val c first len xs) (first + 1 + len) len = .ok fun _ => xs := by
  unfold part
  by_cases alone : n = 1
  · simp only [alone, if_true]
    exact if_pos alone
  · simp only [alone, if_false]
    rcases Nat.lt_or_ge 1 n with parallel | _
    · exact allGather_pick parallel fits same whole
    · obtain rfl : n = 0 := by omega
      exact congrArg Except.ok (funext fun r => r.elim0)

/-- The range of the logits in one chunk. -/
def Offsets.logitsOf (o : Offsets) (second : Bool) : Int × Int := if second then o.logits.2 else o.logits.1

theorem mem_half_iff {n r c first len : Nat} {second : Bool} {t : Int} :
    (half n r c first len second).1.1 ≤ t ∧ t < (half n r c first len second).1.2 ↔
      ∃ k, k < len ∧ t = first + k ∧ (chunk n r c second).1 ≤ first + k ∧ first + k < (chunk n r c second).2 := by
  have covers (k : Nat) := @covers_clipped first len k (chunk n r c second)
  unfold half
  rcases clip_cases first len (chunk n r c second) with ⟨none, same⟩ | ⟨a, b, forward, bound, some, same⟩
  · rw [same]
    rw [none] at covers
    dsimp only
    constructor
    · intro h
      omega
    · rintro ⟨k, inside, _, mem⟩
      exact absurd ((covers k).2 ⟨inside, mem⟩) (Span.not_covers_nil k)
  · rw [same]
    rw [some] at covers
    simp only [Span.covers_cons, Span.not_covers_nil, or_false] at covers
    dsimp only
    constructor
    · rintro ⟨start, stop⟩
      obtain ⟨k, rfl⟩ : ∃ k : Nat, t = first + k := ⟨(t - first).toNat, by omega⟩
      have mem := (covers k).1 ⟨by omega, by omega⟩
      exact ⟨k, mem.1, rfl, mem.2⟩
    · rintro ⟨k, inside, rfl, mem⟩
      have := (covers k).2 ⟨inside, mem⟩
      omega

theorem logitsOf_offsets {n r : Nat} (rank : r < n) (c first len : Nat) (second : Bool) :
    (offsets n r c (first + 1 + len) len).logitsOf second = (half n r c first len second).1 := by
  rw [offsets_eq rank]
  cases second <;> rfl

end Cp

/-- **Zigzag slices of a packed response are disjoint, cover it, and gather to it.** -/
theorem zigzag_round_trip {α : Type} [AddCommMonoid α] {n : Nat} (parallel : 1 < n) {totalLength responseLength : Nat}
    (shorter : responseLength < totalLength) :
    ∃ o : Fin n → Offsets,
      (∀ rank, getLogitsAndTokensOffsetWithCp rank totalLength responseLength .thd none = .ok (o rank)) ∧
      (∀ t : Int, (totalLength : Int) - responseLength - 1 ≤ t ∧ t ≤ (totalLength : Int) - 2 →
        ∃! p : Fin n × Bool, ((o p.1).logitsOf p.2).1 ≤ t ∧ t < ((o p.1).logitsOf p.2).2) ∧
      (∀ (p : Fin n × Bool) (t : Int), ((o p.1).logitsOf p.2).1 ≤ t ∧ t < ((o p.1).logitsOf p.2).2 →
        (totalLength : Int) - responseLength - 1 ≤ t ∧ t ≤ (totalLength : Int) - 2) ∧
      ∀ x : List α, x.length = responseLength → ∃ part : Fin n → List α,
        (∀ rank, sliceLogProbWithCp rank x totalLength responseLength .thd none = .ok (part rank)) ∧
        allGatherWithCp part totalLength responseLength = .ok fun _ => x := by
  obtain ⟨first, rfl⟩ : ∃ first, totalLength = first + 1 + responseLength := ⟨totalLength - responseLength - 1, by omega⟩
  have fits := le_chunks (show 0 < n by omega) (first + 1 + responseLength)
  refine ⟨_, fun rank => getOffsets_eq parallel rank _ _ rfl, ?_, ?_, ?_⟩
  · intro t range
    obtain ⟨k, rfl⟩ : ∃ k : Nat, t = first + k := ⟨(t - first).toNat, by omega⟩
    have mem (p : Fin n × Bool) :
        ((offsets n p.1.val (chunkSizeOf n (first + 1 + responseLength)) (first + 1 + responseLength) responseLength).logitsOf
            p.2).1 ≤ (first : Int) + k ∧ (first : Int) + k <
          ((offsets n p.1.val (chunkSizeOf n (first + 1 + responseLength)) (first + 1 + responseLength)
            responseLength).logitsOf p.2).2 ↔
          (chunk n p.1.val (chunkSizeOf n (first + 1 + responseLength)) p.2).1 ≤ first + k ∧
            first + k < (chunk n p.1.val (chunkSizeOf n (first + 1 + responseLength)) p.2).2 := by
      rw [logitsOf_offsets p.1.isLt, mem_half_iff]
      constructor
      · rintro ⟨k', _, same, mem⟩
        rwa [show k = k' by omega]
      · exact fun mem => ⟨k, by omega, rfl, mem⟩
    simp only [mem]
    exact existsUnique_chunk (by omega)
  · intro p t mem
    rw [logitsOf_offsets p.1.isLt, mem_half_iff] at mem
    obtain ⟨k, inside, rfl, _⟩ := mem
    omega
  · intro x whole
    exact ⟨_, fun rank => sliceLogProb_eq parallel rank whole rfl, allGather_pick parallel (by omega) (fun _ _ => rfl) whole⟩

theorem zigzag_round_trip_short : ∃ o : Fin 2 → Offsets,
      (∀ rank, getLogitsAndTokensOffsetWithCp rank 5 3 .thd none = .ok (o rank)) ∧
      (∀ t : Int, ((5 : Nat) : Int) - (3 : Nat) - 1 ≤ t ∧ t ≤ ((5 : Nat) : Int) - 2 →
        ∃! p : Fin 2 × Bool, ((o p.1).logitsOf p.2).1 ≤ t ∧ t < ((o p.1).logitsOf p.2).2) ∧
      (∀ (p : Fin 2 × Bool) (t : Int), ((o p.1).logitsOf p.2).1 ≤ t ∧ t < ((o p.1).logitsOf p.2).2 →
        ((5 : Nat) : Int) - (3 : Nat) - 1 ≤ t ∧ t ≤ ((5 : Nat) : Int) - 2) ∧
      ∀ x : List Int, x.length = 3 → ∃ part : Fin 2 → List Int,
        (∀ rank, sliceLogProbWithCp rank x 5 3 .thd none = .ok (part rank)) ∧
        allGatherWithCp part 5 3 = .ok fun _ => x :=
  zigzag_round_trip (by omega) (by omega)

end SlimeBoard
