import SlimeBoard.Parallel.Batch

/-!
# Logits meet their tokens

The rows of logits are labelled by the sample and the position they come from. Whatever
is laid out in the layout of the tokens is the layout of the labels, read by label.
-/

namespace SlimeBoard

open Cp

section Natural

variable {α β : Type} {n : Nat} (rank : Fin n) (h : α → β)

theorem map_padRight (xs : List α) (v : α) (pad : Int) : (padRight xs v pad).map h = padRight (xs.map h) (h v) pad := by
  unfold padRight
  rw [List.map_append, List.map_take, List.map_replicate, List.length_map]

theorem sliceWithCp_map (tokens : List α) (v : α) (qkvFormat : QkvFormat) (maxSeqLen : Option Nat) :
    sliceWithCp rank (tokens.map h) (h v) qkvFormat maxSeqLen =
      (sliceWithCp rank tokens v qkvFormat maxSeqLen).map (List.map h) := by
  unfold sliceWithCp
  rw [List.length_map]
  cases lengthOf tokens.length qkvFormat maxSeqLen with
  | error e => rfl
  | ok length =>
    rw [Py.ok_bind, Py.ok_bind]
    split
    · cases qkvFormat with
      | thd => rfl
      | bshd => exact congrArg Except.ok (map_padRight h ..).symm
    · refine congrArg Except.ok ?_
      rw [List.map_append, ← pySlice_map, ← pySlice_map, map_padRight]

theorem mapM_map (f : List α → Py (List α)) (g : List β → Py (List β))
    (natural : ∀ xs, g (xs.map h) = (f xs).map (List.map h)) (xss : List (List α)) :
    (xss.map (List.map h)).mapM g = (xss.mapM f).map (List.map (List.map h)) := by
  induction xss with
  | nil => rfl
  | cons xs xss ih =>
    rw [List.map_cons, List.mapM_cons, List.mapM_cons, natural, ih]
    cases f xs with
    | error e => rfl
    | ok ys =>
      cases xss.mapM f with
      | error e => rfl
      | ok yss => rfl

theorem chunkOf_map (xs : List α) : chunkOf rank (xs.map h) = (chunkOf rank xs).map (List.map h) := by
  unfold chunkOf
  rw [List.length_map]
  dsimp only
  split
  · refine congrArg Except.ok ?_
    rw [List.map_take, List.map_drop]
  · rfl

theorem length_flatten_map (xss : List (List α)) : (xss.map (List.map h)).map List.length = xss.map List.length := by
  rw [List.map_map]
  exact List.map_congr_left fun xs _ => List.length_map ..

/-- **The layout does not look at the tokens.** -/
theorem layTokens_map (args : LayoutArgs) (maxSeqLens : Option (List Nat)) (v : α) (tokens : List (List α)) :
    layTokens rank args maxSeqLens (h v) (tokens.map (List.map h)) =
      (layTokens rank args maxSeqLens v tokens).map fun out => (out.1.map (List.map h), out.2) := by
  have slices (qkvFormat : QkvFormat) (maxSeqLen : Option Nat) :=
    mapM_map h (fun t => sliceWithCp rank t v qkvFormat maxSeqLen) (fun t => sliceWithCp rank t (h v) qkvFormat maxSeqLen)
      (fun t => sliceWithCp_map rank h t v qkvFormat maxSeqLen) tokens
  rcases eq_or_ne tokens [] with rfl | nonempty
  · rfl
  unfold layTokens
  rw [if_neg nonempty, if_neg (by simpa using nonempty)]
  cases args.qkvFormat with
  | bshd =>
    cases maxSeqLens with
    | none => rfl
    | some lens =>
      cases lens with
      | nil => rfl
      | cons maxSeqlen _ =>
        dsimp only
        have fits : (tokens.map (List.map h)).all (fun t => decide (t.length ≤ maxSeqlen)) =
            tokens.all fun t => decide (t.length ≤ maxSeqlen) := by
          rw [List.all_map]
          simp only [Function.comp_def, List.length_map]
        rw [fits, slices]
        cases pyAssert (tokens.all fun t => decide (t.length ≤ maxSeqlen)) with
        | error e => rfl
        | ok _ =>
          cases tokens.mapM fun t => sliceWithCp rank t v .bshd (some maxSeqlen) with
          | error e => rfl
          | ok rows => rfl
  | thd =>
    dsimp only
    split
    · rw [← List.map_flatten, List.length_map, length_flatten_map]
      have row (pad : Nat) : chunkOf rank (tokens.flatten.map h ++ List.replicate pad (h v)) =
          (chunkOf rank (tokens.flatten ++ List.replicate pad v)).map (List.map h) := by
        rw [← chunkOf_map, List.map_append, List.map_replicate]
      rw [row]
      cases chunkOf rank (tokens.flatten ++ List.replicate (padding (n * args.padSize) tokens.flatten.length) v) with
      | error e => rfl
      | ok row => rfl
    · rw [slices]
      cases tokens.mapM fun t => sliceWithCp rank t v .thd none with
      | error e => rfl
      | ok rows =>
        refine congrArg Except.ok ?_
        rw [← List.map_flatten, List.length_map, length_flatten_map]
        simp only [List.map_cons, List.map_nil, List.map_append, List.map_replicate]

end Natural

theorem chunkOf_window {α : Type} {n : Nat} (rank : Fin n) (xs : List α) {width : Nat} (wide : 0 < width) (whole : xs.length = n * width) :
    chunkOf rank xs = .ok ((xs.drop (rank.val * width)).take width) := by
  have ranks := rank.isLt
  have size : (xs.length + n - 1) / n = width := by
    rw [whole, Nat.add_sub_assoc (by omega), Nat.mul_add_div (by omega), Nat.div_eq_of_lt (by omega), Nat.add_zero]
  have inside : rank.val * width < xs.length := by
    rw [whole]
    exact Nat.mul_lt_mul_of_pos_right ranks wide
  unfold chunkOf
  dsimp only
  rw [size, if_pos inside]

/-- The masks are laid out like the tokens. -/
theorem layMasks_eq {n : Nat} (rank : Fin n) {args : LayoutArgs} (supported : args.Supported)
    {maxSeqLens : Option (List Nat)} {masks : List (List Nat)} {rows : List (List Nat)} {pad : Nat}
    {cuSeqlens : Option (List Nat)} (laid : layTokens rank args maxSeqLens 0 masks = .ok (rows, pad, cuSeqlens)) :
    layMasks rank args maxSeqLens pad masks = .ok rows := by
  unfold layTokens at laid
  split at laid
  · cases laid
  unfold layMasks
  cases format : args.qkvFormat with
  | bshd =>
    rw [format] at laid
    cases maxSeqLens with
    | none => cases laid
    | some lens =>
      cases lens with
      | nil => cases laid
      | cons maxSeqlen _ =>
        dsimp only at laid
        obtain ⟨_, _, laid⟩ := Py.bind_eq_ok.1 laid
        obtain ⟨rows', run, same⟩ := Py.bind_eq_ok.1 laid
        dsimp only
        rw [if_neg (by rw [supported format]; exact Bool.false_ne_true), ← (Prod.mk.inj (Except.ok.inj same)).1]
        exact run
  | thd =>
    rw [format] at laid
    dsimp only at laid ⊢
    split at laid
    · rename_i gathered
      obtain ⟨row, run, same⟩ := Py.bind_eq_ok.1 laid
      obtain ⟨sameRows, same⟩ := Prod.mk.inj (Except.ok.inj same)
      rw [(Prod.mk.inj same).1] at run
      rw [if_pos gathered, run, ← sameRows]
      rfl
    · rename_i zigzag
      obtain ⟨slices, run, same⟩ := Py.bind_eq_ok.1 laid
      obtain ⟨sameRows, same⟩ := Prod.mk.inj (Except.ok.inj same)
      rw [(Prod.mk.inj same).1] at sameRows
      rw [if_neg zigzag, run, ← sameRows]
      rfl

/-! ## The rows of a rank -/

section Rows

variable {ρ : Type}

theorem pySlice_middle (front xs back : List ρ) {a b : Nat} {i j : Int} (start : i = (front.length + a : Nat))
    (stop : j = (front.length + b : Nat)) (bound : b ≤ xs.length) :
    pySlice (front ++ (xs ++ back)) i j = (xs.take b).drop a := by
  rw [start, stop, pySlice_nat, List.take_length_add_append, List.drop_length_add_append, List.take_append_of_le_length bound]

/-- The rows on rank `r` of a sample that is cut as a sequence of length `length`. -/
def localRows (n r length : Nat) (g : Nat → ρ) : List ρ :=
  if n = 1 then (List.range length).map g
  else
    let c := chunkSizeOf n length
    (List.range' (chunk n r c false).1 c).map g ++ (List.range' (chunk n r c true).1 c).map g

theorem chunk_size {n r : Nat} (rank : r < n) (c : Nat) (second : Bool) :
    (chunk n r c second).2 = (chunk n r c second).1 + c := by
  cases second with
  | false => exact Nat.succ_mul r c
  | true =>
    show (2 * n - r) * c = (2 * n - r - 1) * c + c
    rw [← Nat.succ_mul]
    congr 1
    omega

theorem chunk_fits {n r : Nat} (rank : r < n) (c : Nat) (second : Bool) : (chunk n r c second).2 ≤ 2 * n * c := by
  cases second with
  | false => exact Nat.mul_le_mul_right c (by omega)
  | true => exact Nat.mul_le_mul_right c (by omega)

/-- The entries of `f`, padded with `v`. -/
def padded (totalLength : Nat) (f : Nat → ρ) (v : ρ) (t : Nat) : ρ := if t < totalLength then f t else v

theorem padRight_range {totalLength k : Nat} (fits : totalLength ≤ k) (f : Nat → ρ) (v : ρ) {pad : Int}
    (size : pad = (k : Int) - totalLength) :
    padRight ((List.range totalLength).map f) v pad = (List.range k).map (padded totalLength f v) := by
  have whole : (totalLength + pad).toNat = k := by omega
  unfold padRight
  rw [List.length_map, List.length_range, whole, List.take_of_length_le (by rw [List.length_map, List.length_range]; omega)]
  refine List.ext_getElem (by simp; omega) fun t _ bound => ?_
  rw [List.length_map, List.length_range] at bound
  rw [List.getElem_append, List.getElem_map, List.getElem_range, padded]
  split
  · rename_i early
    rw [List.length_map, List.length_range] at early
    rw [if_pos early, List.getElem_map, List.getElem_range]
  · rename_i late
    rw [List.length_map, List.length_range] at late
    rw [if_neg late, List.getElem_replicate]

/-- **`slice_with_cp` gives a rank the rows it owns.** -/
theorem sliceWithCp_range {n : Nat} (rank : Fin n) {totalLength length : Nat} (f : Nat → ρ) (v : ρ) {qkvFormat : QkvFormat}
    {maxSeqLen : Option Nat} (cut : lengthOf totalLength qkvFormat maxSeqLen = .ok length) (fits : totalLength ≤ length) :
    sliceWithCp rank ((List.range totalLength).map f) v qkvFormat maxSeqLen =
      .ok (localRows n rank.val length (padded totalLength f v)) := by
  have ranks := rank.isLt
  unfold sliceWithCp localRows
  rw [List.length_map, List.length_range, cut, Py.ok_bind]
  split
  · cases qkvFormat with
    | thd =>
      obtain rfl : totalLength = length := Except.ok.inj cut
      exact congrArg Except.ok (List.map_congr_left fun t mem => (if_pos (List.mem_range.1 mem)).symm)
    | bshd => exact congrArg Except.ok (padRight_range fits f v rfl)
  · let c := chunkSizeOf n length
    have bound : totalLength ≤ 2 * n * c := fits.trans (le_chunks (by omega) length)
    have window (second : Bool) : pySlice ((List.range (2 * n * c)).map (padded totalLength f v))
        ((chunk n rank.val c second).1 : Nat) ((chunk n rank.val c second).2 : Nat) =
        (List.range' (chunk n rank.val c second).1 c).map (padded totalLength f v) := by
      rw [pySlice_nat, Span.window_range _ (chunk_fits ranks c second), chunk_size ranks, Nat.add_sub_cancel_left]
    have zig : c * rank.val = (chunk n rank.val c false).1 := Nat.mul_comm ..
    have zig' : c * (rank.val + 1) = (chunk n rank.val c false).2 := Nat.mul_comm ..
    have mirror : c * (2 * n - rank.val - 1) = (chunk n rank.val c true).1 := Nat.mul_comm ..
    have mirror' : c * (2 * n - rank.val) = (chunk n rank.val c true).2 := Nat.mul_comm ..
    dsimp only
    rw [padRight_range bound f v (by push_cast; rfl), zig, zig', mirror, mirror', window, window]
    rfl

/-! ## The rows of a response -/

theorem rows_half {n r : Nat} (rank : r < n) (c first len : Nat) (second : Bool) (g : Nat → ρ) :
    pySlice ((List.range' (chunk n r c second).1 c).map g)
        ((half n r c first len second).1.1 - (chunk n r c second).1)
        ((half n r c first len second).1.2 - (chunk n r c second).1) =
      Span.pick (clipped first len (chunk n r c second)) ((List.range len).map fun k => g (first + k)) := by
  have covers (k : Nat) := @covers_clipped first len k (chunk n r c second)
  have size := chunk_size rank c second
  unfold half
  rcases clip_cases first len (chunk n r c second) with ⟨none, same⟩ | ⟨a, b, forward, bound, some, same⟩
  · rw [none, same]
    exact pySlice_self ..
  · rw [some] at covers
    simp only [Span.covers_cons, Span.not_covers_nil, or_false] at covers
    have start := (covers a).1 ⟨le_rfl, forward⟩
    have stop := (covers (b - 1)).1 ⟨by omega, by omega⟩
    rw [some, same]
    dsimp only
    rw [show (first : Int) + a - (chunk n r c second).1 = (first + a - (chunk n r c second).1 : Nat) by omega,
      show (first : Int) + b - (chunk n r c second).1 = (first + b - (chunk n r c second).1 : Nat) by omega,
      pySlice_nat, Span.pick_cons, Span.pick_nil, List.append_nil, Span.window_range _ bound, ← List.map_take,
      ← List.map_drop, List.take_range'_of_length_ge (by omega), List.drop_range', Nat.mul_one]
    have shifted : (List.range' a (b - a)).map (fun k => g (first + k)) = (List.range' (first + a) (b - a)).map g := by
      rw [← List.map_add_range', List.map_map]
      rfl
    rw [shifted]
    congr 2
    · omega
    · omega

theorem tokens_half (n r c first len : Nat) (second : Bool) (tokens : List Nat) :
    pySlice tokens (half n r c first len second).2.1 (half n r c first len second).2.2 =
      Span.pick (clipped first len (chunk n r c second)) (tokens.drop (first + 1)) := by
  unfold half
  rcases clip_cases first len (chunk n r c second) with ⟨none, same⟩ | ⟨a, b, forward, bound, some, same⟩
  · rw [none, same]
    exact pySlice_self ..
  · rw [some, same]
    dsimp only
    rw [show (first : Int) + a + 1 = (first + 1 + a : Nat) by omega, show (first : Int) + b + 1 = (first + 1 + b : Nat) by omega,
      pySlice_nat, Span.pick_cons, Span.pick_nil, List.append_nil, ← List.drop_drop, List.drop_take]
    congr 2
    omega

theorem pick_spans {α : Type} (n r c first len : Nat) (xs : List α) :
    Span.pick (spans n r c first len) xs =
      Span.pick (clipped first len (chunk n r c false)) xs ++ Span.pick (clipped first len (chunk n r c true)) xs := by
  unfold spans Span.pick
  rw [List.flatMap_append]

theorem length_localRows (n r length : Nat) (g : Nat → ρ) :
    (localRows n r length g).length = if n = 1 then length else 2 * chunkSizeOf n length := by
  unfold localRows
  split
  · rw [List.length_map, List.length_range]
  · dsimp only
    rw [List.length_append, List.length_map, List.length_map, List.length_range', List.length_range']
    omega

theorem localRows_map {σ : Type} (n r length : Nat) (g : Nat → ρ) (f : ρ → σ) :
    (localRows n r length g).map f = localRows n r length fun t => f (g t) := by
  unfold localRows
  split
  · rw [List.map_map]
    rfl
  · dsimp only
    rw [List.map_append, List.map_map, List.map_map]
    rfl

/-- Where `get_responses` looks for the rows of sample `i`, if `position` rows come
before it. -/
def Located (n : Nat) (qkvFormat : QkvFormat) (length i : Nat) (stop : Int) (position : Nat) : Prop :=
  if n = 1 ∧ qkvFormat = .bshd then position = length * i else stop = position

/-- The rows of the response of `s`, in order. -/
def responseRows (s : TrainSample) (g : Nat → ρ) : List ρ := (List.range s.responseLength).map fun k => g (s.first + k)

theorem shifted_rows (first : Nat) (g : Nat → ρ) (a m : Nat) :
    (List.range' a m).map (fun k => g (first + k)) = (List.range' (first + a) m).map g := by
  rw [← List.map_add_range', List.map_map]
  rfl

theorem last_tokens (s : TrainSample) :
    pySlice s.tokens (-(s.responseLength : Int)) s.tokens.length = s.tokens.drop s.promptLength := by
  have positive := s.nonempty
  have shorter := s.shorter
  have start : (-(s.responseLength : Int) + s.tokens.length).toNat = s.promptLength := by
    unfold TrainSample.promptLength TrainSample.totalLength
    omega
  unfold pySlice sliceBound
  rw [if_pos (by omega), start, if_neg (by omega), Int.toNat_natCast, Nat.min_self, List.take_length]

section Chunk

variable {n : Nat} (rank : Fin n) {args : LayoutArgs} {s : TrainSample} {maxSeqLen : Option Nat} {length : Nat}
  (cut : lengthOf s.totalLength args.qkvFormat maxSeqLen = .ok length) (fits : s.totalLength ≤ length)
  {front back : List ρ} {i : Nat} {stop : Int} (located : Located n args.qkvFormat length i stop front.length)
  (seqStart : Int) (g : Nat → ρ)

include cut located

include fits in
/-- Without context parallelism the response has the last rows of its sample. -/
theorem responseChunk_one (alone : n = 1) :
    responseChunk rank args (front ++ (localRows n rank.val length g ++ back)) maxSeqLen i stop seqStart s =
      .ok ((responseRows s g, s.tokens.drop s.promptLength), (front.length + s.totalLength : Nat)) := by
  have total := s.totalLength_eq
  have found : sampleEnd args.qkvFormat maxSeqLen i stop s.totalLength = .ok (front.length + s.totalLength : Nat) := by
    unfold Located at located
    cases format : args.qkvFormat with
    | thd =>
      rw [format, if_neg (by simp)] at located
      rw [located]
      rfl
    | bshd =>
      rw [format] at cut
      rw [if_pos ⟨alone, format⟩] at located
      cases maxSeqLen with
      | none => cases cut
      | some m =>
        obtain rfl : m = length := Except.ok.inj cut
        rw [located]
        push_cast
        rfl
  have rows : localRows n rank.val length g = (List.range length).map g := if_pos alone
  unfold responseChunk
  dsimp only
  rw [if_pos alone, found, Py.ok_bind, last_tokens]
  refine congrArg (fun xs => Except.ok ((xs, _), _)) ?_
  rw [rows, pySlice_middle (a := s.first) (b := s.first + s.responseLength) _ _ _ (by omega) (by omega)
    (by rw [List.length_map, List.length_range]; omega), Span.window_range _ (by omega), Nat.add_sub_cancel_left,
    responseRows, List.range_eq_range', shifted_rows, Nat.add_zero]

/-- With context parallelism it has the rows in the rank's two chunks. -/
theorem responseChunk_parallel (zigzag : args.allgatherCp = false) (parallel : 1 < n) :
    responseChunk rank args (front ++ (localRows n rank.val length g ++ back)) maxSeqLen i stop seqStart s =
      .ok ((Span.pick (spans n rank.val (chunkSizeOf n length) s.first s.responseLength) (responseRows s g),
        Span.pick (spans n rank.val (chunkSizeOf n length) s.first s.responseLength) (s.tokens.drop s.promptLength)),
        (front.length + 2 * chunkSizeOf n length : Nat)) := by
  have total := s.totalLength_eq
  have ranks := rank.isLt
  have start : stop = front.length := by
    unfold Located at located
    rwa [if_neg (by omega)] at located
  let c := chunkSizeOf n length
  let zig := (List.range' (chunk n rank.val c false).1 c).map g
  let zag := (List.range' (chunk n rank.val c true).1 c).map g
  have rows : localRows n rank.val length g = zig ++ zag := if_neg (by omega)
  have sizes : zig.length = c ∧ zag.length = c := by
    simp only [zig, zag, List.length_map, List.length_range', and_self]
  have first : pySlice (front ++ (localRows n rank.val length g ++ back)) stop (stop + c) = zig := by
    rw [rows, List.append_assoc, pySlice_middle (a := 0) (b := c) _ _ _ (by omega) (by omega) (by omega),
      List.take_of_length_le (by omega), List.drop_zero]
  have second : pySlice (front ++ (localRows n rank.val length g ++ back)) (stop + c) (stop + 2 * c) = zag := by
    rw [rows, List.append_assoc, ← List.append_assoc, pySlice_middle (a := 0) (b := c) _ _ _ (by simp; omega)
      (by simp; omega) (by omega), List.take_of_length_le (by omega), List.drop_zero]
  have within := within_spans ranks c s.first s.responseLength
  unfold responseChunk
  dsimp only
  rw [if_neg (by omega), if_neg (by rw [zigzag]; exact Bool.false_ne_true), getOffsets_eq parallel rank _ _ cut, Py.ok_bind,
    total, offsets_eq ranks]
  dsimp only
  rw [first, second, rows_half ranks, rows_half ranks, tokens_half, tokens_half]
  have rowsLength : (responseRows s g).length = s.responseLength := by
    rw [responseRows, List.length_map, List.length_range]
  have tokensLength : (s.tokens.drop s.promptLength).length = s.responseLength := by
    rw [List.length_drop, s.promptLength_eq]
    unfold TrainSample.totalLength at total
    omega
  have paired (second : Bool) :
      (Span.pick (clipped s.first s.responseLength (chunk n rank.val c second)) (responseRows s g)).length =
        (Span.pick (clipped s.first s.responseLength (chunk n rank.val c second)) (s.tokens.drop s.promptLength)).length := by
    rw [Span.length_pick (within_clipped ..) rowsLength.ge, Span.length_pick (within_clipped ..) tokensLength.ge]
  rw [assert_bind_ok, assert_bind_ok, ← s.promptLength_eq]
  refine ⟨paired false, paired true, ?_⟩
  rw [pick_spans, pick_spans, start]
  push_cast
  rfl

end Chunk

/-- **`get_responses` cuts out the rows and the tokens of the rank's part of a response.** -/
theorem responseChunk_eq {n : Nat} (rank : Fin n) {args : LayoutArgs} (zigzag : n = 1 ∨ args.allgatherCp = false) {s : TrainSample}
    {maxSeqLen : Option Nat} {length : Nat} (cut : lengthOf s.totalLength args.qkvFormat maxSeqLen = .ok length)
    (fits : s.totalLength ≤ length) {front : List ρ} (back : List ρ) {i : Nat} {stop : Int}
    (located : Located n args.qkvFormat length i stop front.length) (seqStart : Int) (g : Nat → ρ) :
    ∃ stop', responseChunk rank args (front ++ (localRows n rank.val length g ++ back)) maxSeqLen i stop seqStart s =
        .ok ((part n rank.val (chunkSizeOf n length) s.first s.responseLength (responseRows s g),
          part n rank.val (chunkSizeOf n length) s.first s.responseLength (s.tokens.drop s.promptLength)), stop') ∧
      ∀ length', (args.qkvFormat = .bshd → length' = length) →
        Located n args.qkvFormat length' (i + 1) stop' (front ++ localRows n rank.val length g).length := by
  have ranks := rank.isLt
  unfold part Located
  rw [List.length_append, length_localRows]
  by_cases alone : n = 1
  · rw [if_pos alone, if_pos alone, if_pos alone]
    refine ⟨_, responseChunk_one rank cut fits located seqStart g alone, ?_⟩
    intro length' same
    cases format : args.qkvFormat with
    | thd =>
      rw [format] at cut
      obtain rfl : s.totalLength = length := Except.ok.inj cut
      rw [if_neg (by simp)]
    | bshd =>
      unfold Located at located
      rw [if_pos ⟨alone, format⟩] at located
      rw [if_pos ⟨alone, rfl⟩, same format, located, Nat.mul_succ]
  · rw [if_neg alone, if_neg alone, if_neg alone]
    refine ⟨_, responseChunk_parallel rank cut located seqStart g (zigzag.resolve_left alone) (by omega), ?_⟩
    intro length' same
    rw [if_neg (fun h => alone h.1)]

/-! ## Whole micro-batches -/

/-- The length that sample `s` is cut by: its own, or the maximum `m` of the batch. -/
def cutLength (args : LayoutArgs) (m : Nat) (s : TrainSample) : Nat :=
  match args.qkvFormat with
  | .thd => s.totalLength
  | .bshd => m

/-- `max_seq_lens`, which only the padded format has -/
def maxSeqLens (args : LayoutArgs) (m count : Nat) : Option (List Nat) :=
  match args.qkvFormat with
  | .thd => none
  | .bshd => some (List.replicate count m)

/-- The maximum `m` of the batch is one, where it is used. -/
def Bounds (args : LayoutArgs) (m : Nat) (samples : List TrainSample) : Prop :=
  ∀ s ∈ samples, s.totalLength ≤ cutLength args m s

/-- What `get_responses` yields for sample `i` on rank `r`. -/
def responsePart (args : LayoutArgs) (n r m : Nat) (g : TrainSample → Nat → Nat → ρ) (s : TrainSample) (i : Nat) : List ρ × List Nat :=
  (part n r (chunkSizeOf n (cutLength args m s)) s.first s.responseLength (responseRows s (g s i)),
    part n r (chunkSizeOf n (cutLength args m s)) s.first s.responseLength (s.tokens.drop s.promptLength))

theorem responsePart_map {σ : Type} (args : LayoutArgs) (n r m : Nat) (g : TrainSample → Nat → Nat → ρ) (f : ρ → σ)
    (s : TrainSample) (i : Nat) : responsePart args n r m (fun s i t => f (g s i t)) s i =
      ((responsePart args n r m g s i).1.map f, (responsePart args n r m g s i).2) := by
  unfold responsePart responseRows
  rw [← part_map, List.map_map]
  rfl

theorem maxSeqLenAt_eq (args : LayoutArgs) (m : Nat) {count i : Nat} (inside : i < count) (s : TrainSample) :
    ∃ maxSeqLen, maxSeqLenAt (maxSeqLens args m count) i = .ok maxSeqLen ∧
      lengthOf s.totalLength args.qkvFormat maxSeqLen = .ok (cutLength args m s) := by
  unfold maxSeqLens cutLength
  cases args.qkvFormat with
  | thd => exact ⟨none, rfl, rfl⟩
  | bshd =>
    refine ⟨some m, ?_, rfl⟩
    simp only [maxSeqLenAt, List.getElem?_replicate, if_pos inside]

theorem responseChunks_eq {n : Nat} (rank : Fin n) {args : LayoutArgs} (zigzag : n = 1 ∨ args.allgatherCp = false) {m count : Nat}
    (g : TrainSample → Nat → Nat → ρ) (back : List ρ) {samples : List TrainSample} (bounds : Bounds args m samples) {i : Nat}
    (whole : i + samples.length = count) (stop seqStart : Int) (front : List ρ)
    (located : ∀ s ∈ samples.head?, Located n args.qkvFormat (cutLength args m s) i stop front.length) :
    responseChunks rank args
        (front ++ ((samples.zipIdx i).flatMap (fun p => localRows n rank.val (cutLength args m p.1) (g p.1 p.2)) ++ back))
        (maxSeqLens args m count) i stop seqStart samples =
      .ok ((samples.zipIdx i).map fun p => responsePart args n rank.val m g p.1 p.2) := by
  induction samples generalizing i front stop seqStart with
  | nil => rfl
  | cons s rest ih =>
    rw [List.length_cons] at whole
    obtain ⟨maxSeqLen, found, cut⟩ := maxSeqLenAt_eq args m (show i < count by omega) s
    obtain ⟨stop', run, next⟩ := responseChunk_eq rank zigzag cut (bounds s (List.mem_cons_self ..))
      (((rest.zipIdx (i + 1)).flatMap fun p => localRows n rank.val (cutLength args m p.1) (g p.1 p.2)) ++ back)
      (located s rfl) seqStart (g s i)
    have tail := ih (fun s mem => bounds s (List.mem_cons_of_mem _ mem)) (show i + 1 + rest.length = count by omega)
      stop' (seqStart + s.totalLength) (front ++ localRows n rank.val (cutLength args m s) (g s i)) ?_
    · rw [responseChunks, found, Py.ok_bind, List.zipIdx_cons, List.flatMap_cons, List.append_assoc, run, Py.ok_bind]
      rw [List.append_assoc] at tail
      dsimp only
      rw [tail]
      rfl
    · intro s' mem
      refine next _ fun format => ?_
      unfold cutLength
      rw [format]

end Rows

/-! ## Labels -/

/-- Where a row of logits comes from: a sample and a position, or the padding. -/
abbrev Label := Option (Nat × Nat)

/-- The labels of the tokens of a micro-batch. -/
def positions (samples : List TrainSample) : List (List Label) :=
  samples.zipIdx.map fun p => (List.range p.1.totalLength).map fun t => some (p.2, t)

/-- The entry that `xs` has for a label, 0 for the padding. -/
def readAt (xs : TrainSample → List Nat) (samples : List TrainSample) : Label → Nat
  | some (i, t) => (samples[i]?).elim 0 fun s => (xs s).getD t 0
  | none => 0

theorem positions_map (xs : TrainSample → List Nat) (samples : List TrainSample)
    (whole : ∀ s ∈ samples, (xs s).length = s.totalLength) :
    (positions samples).map (List.map (readAt xs samples)) = samples.map xs := by
  unfold positions
  rw [List.map_map, ← List.zipIdx_map_fst 0 samples, List.map_map, List.zipIdx_map_fst]
  refine List.map_congr_left fun p mem => ?_
  obtain ⟨s, i⟩ := p
  have found := List.mem_zipIdx_iff_getElem?.1 mem
  dsimp only at found
  show ((List.range s.totalLength).map fun t => some (i, t)).map (readAt xs samples) = xs s
  rw [List.map_map, ← whole s (List.mem_of_getElem? found)]
  refine (List.map_congr_left fun t _ => ?_).trans (map_range_getD 0 (xs s))
  show (samples[i]?).elim 0 _ = _
  rw [found]
  rfl

theorem paddedMask_length (s : TrainSample) : s.paddedMask.length = s.totalLength := by
  have total := s.totalLength_eq
  have prompt := s.promptLength_eq
  unfold TrainSample.paddedMask
  rw [List.length_append, List.length_append, List.length_replicate, s.masked, List.length_singleton]
  omega

/-- The mask at a position is that of the token after it. -/
theorem paddedMask_getD (s : TrainSample) (t : Nat) : s.paddedMask.getD t 0 = 1 ↔
    s.promptLength ≤ t + 1 ∧ t + 1 < s.totalLength ∧ s.lossMask[t + 1 - s.promptLength]? = some 1 := by
  have total := s.totalLength_eq
  have prompt := s.promptLength_eq
  have masked := s.masked
  unfold TrainSample.paddedMask
  rw [List.getD_eq_getElem?_getD, List.append_assoc, List.getElem?_append, List.length_replicate]
  split
  · rw [List.getElem?_replicate, if_pos (by assumption)]
    simp only [Option.getD_some, Nat.zero_ne_one, false_iff, not_and]
    omega
  · rw [List.getElem?_append]
    have index : t - (s.promptLength - 1) = t + 1 - s.promptLength := by omega
    rw [index]
    split
    · rename_i inside
      rw [List.getElem?_eq_getElem inside]
      simp only [Option.getD_some, Option.some.injEq]
      constructor
      · exact fun one => ⟨by omega, by omega, one⟩
      · exact fun h => h.2.2
    · rename_i outside
      have none : s.lossMask[t + 1 - s.promptLength]? = none := List.getElem?_eq_none (by omega)
      rw [none]
      constructor
      · intro one
        rw [List.getElem?_singleton] at one
        split at one
        · cases one
        · cases one
      · rintro ⟨_, _, one⟩
        cases one

/-! ## Pairs in position order -/

/-- The position of a label. -/
def Label.position : Label → Nat
  | some (_, t) => t
  | none => 0

/-- The pairs of a response, from those on the ranks, in the order of their positions. -/
def inPositionOrder (pairs : List (Label × Nat)) : List (Label × Nat) :=
  pairs.mergeSort fun p q => decide (p.1.position ≤ q.1.position)

theorem flatMap_owned {n : Nat} (key : Nat → Nat) {l : List Nat} (small : ∀ k ∈ l, key k < n) :
    ((List.finRange n).flatMap fun r => l.filter fun k => decide (key k = r.val)).Perm l := by
  rw [List.perm_iff_count]
  intro k
  have each (r : Fin n) : (l.filter fun k => decide (key k = r.val)).count k = if key k = r.val then l.count k else 0 := by
    split
    · rename_i own
      exact List.count_filter (decide_eq_true own)
    · rename_i foreign
      exact List.count_eq_zero.2 fun mem => foreign (of_decide_eq_true (List.mem_filter.1 mem).2)
  have total : (List.map (List.count k ∘ fun r : Fin n => l.filter fun k => decide (key k = r.val)) (List.finRange n)).sum =
      ∑ r : Fin n, if key k = r.val then l.count k else 0 := by
    rw [Fin.sum_univ_def]
    exact congrArg List.sum (List.map_congr_left fun r _ => each r)
  rw [List.count_flatMap, total]
  by_cases mem : k ∈ l
  · let own : Fin n := ⟨key k, small k mem⟩
    calc (∑ r : Fin n, if key k = r.val then l.count k else 0) = ∑ r, if own = r then l.count k else 0 :=
          Finset.sum_congr rfl fun r _ => by simp only [own, Fin.ext_iff]
      _ = l.count k := by rw [Finset.sum_ite_eq, if_pos (Finset.mem_univ _)]
  · rw [List.count_eq_zero.2 mem]
    simp

/-- **The parts of a list of pairs, put in order, are the list.** -/
theorem inPositionOrder_parts {n c first len : Nat} (ranks : 0 < n) (fits : first + len ≤ 2 * n * c) (i : Nat) (f : Nat → Nat) :
    inPositionOrder ((List.finRange n).flatMap fun r => part n r.val c first len
        ((List.range len).map fun k => ((some (i, first + k) : Label), f k))) =
      (List.range len).map fun k => (some (i, first + k), f k) := by
  let pair (k : Nat) : Label × Nat := (some (i, first + k), f k)
  have together : ((List.finRange n).flatMap fun r => part n r.val c first len ((List.range len).map pair)).Perm
      ((List.range len).map pair) := by
    unfold part
    by_cases alone : n = 1
    · subst alone
      simp only [if_true, List.finRange_succ, List.finRange_zero, List.map_nil, List.flatMap_cons, List.flatMap_nil,
        List.append_nil]
      exact List.Perm.refl _
    · simp only [alone, if_false]
      have owned (r : Fin n) : Span.pick (spans n r.val c first len) ((List.range len).map pair) =
          ((List.range len).filter fun k => decide (owner n c (first + k) = r.val)).map pair := by
        rw [Span.pick_eq_filter (within_spans r.isLt c first len) _ le_rfl, Nat.sub_zero, ← List.range_eq_range']
        refine congrArg _ (List.filter_congr fun k mem => ?_)
        rw [decide_eq_decide, covers_spans r.isLt fits (List.mem_range.1 mem)]
      simp only [owned]
      rw [← List.map_flatMap]
      refine (flatMap_owned _ fun k mem => ?_).map pair
      have := List.mem_range.1 mem
      exact owner_lt (by omega)
  have sorted : ((List.range len).map pair).Pairwise fun p q => decide (p.1.position ≤ q.1.position) = true := by
    rw [List.pairwise_map]
    refine List.pairwise_lt_range.imp fun {a b} less => ?_
    show decide (first + a ≤ first + b) = true
    exact decide_eq_true (by omega)
  have distinct : ∀ p q : Label × Nat, p ∈ (List.range len).map pair → q ∈ (List.range len).map pair →
      p.1.position ≤ q.1.position → q.1.position ≤ p.1.position → p = q := by
    intro p q memP memQ le ge
    obtain ⟨a, _, rfl⟩ := List.mem_map.1 memP
    obtain ⟨b, _, rfl⟩ := List.mem_map.1 memQ
    change first + a ≤ first + b at le
    change first + b ≤ first + a at ge
    rw [show a = b by omega]
  have same := (List.mergeSort_perm _ fun p q : Label × Nat => decide (p.1.position ≤ q.1.position)).trans together
  refine same.eq_of_pairwise (fun p q memP memQ le ge => ?_) (List.pairwise_mergeSort ?_ ?_ _) sorted
  · exact distinct p q (same.subset memP) memQ (of_decide_eq_true le) (of_decide_eq_true ge)
  · intro p q r le le'
    simp only [decide_eq_true_eq] at le le' ⊢
    omega
  · intro p q
    simp only [Bool.or_eq_true, decide_eq_true_eq]
    omega

/-! ## The packed zigzag layout -/

/-- The label at position `t` of sample `i`. -/
def labelAt (s : TrainSample) (i : Nat) : Nat → Label := padded s.totalLength (fun t => some (i, t)) none

/-- The labels of the rows of rank `r`, one after another or one sample a row. -/
def labelRows (args : LayoutArgs) (n r m pad : Nat) (samples : List TrainSample) : List (List Label) :=
  let rows := samples.zipIdx.map fun p => localRows n r (cutLength args m p.1) (labelAt p.1 p.2)
  match args.qkvFormat with
  | .thd => [rows.flatten ++ List.replicate pad none]
  | .bshd => rows

theorem map_zipIdx_fst {α β : Type} (i : Nat) (f : α → β) (xs : List α) : (xs.zipIdx i).map (fun p => f p.1) = xs.map f := by
  conv_rhs => rw [← List.zipIdx_map_fst i xs, List.map_map]
  rfl

theorem length_positions (samples : List TrainSample) :
    (positions samples).flatten.length = (samples.map (·.totalLength)).sum := by
  unfold positions
  rw [List.length_flatten, List.map_map, ← map_zipIdx_fst 0 TrainSample.totalLength]
  refine congrArg List.sum (List.map_congr_left fun p _ => ?_)
  rw [Function.comp_apply, List.length_map, List.length_range]

theorem positions_pos {samples : List TrainSample} (nonempty : samples ≠ []) : 0 < (positions samples).flatten.length := by
  obtain ⟨s, rest, rfl⟩ := List.exists_cons_of_ne_nil nonempty
  have := s.totalLength_eq
  rw [length_positions, List.map_cons, List.sum_cons]
  omega

theorem localRows_alone {args : LayoutArgs} (packed : args.qkvFormat = .thd) (m : Nat) (samples : List TrainSample) :
    samples.zipIdx.map (fun p => localRows 1 0 (cutLength args m p.1) (labelAt p.1 p.2)) = positions samples := by
  unfold positions cutLength
  rw [packed]
  refine List.map_congr_left fun p _ => ?_
  exact (if_pos rfl).trans (List.map_congr_left fun t mem => if_pos (List.mem_range.1 mem))

theorem layTokens_positions {n : Nat} (rank : Fin n) {args : LayoutArgs}
    (zigzag : args.qkvFormat = .thd → n = 1 ∨ args.allgatherCp = false) {m : Nat}
    {samples : List TrainSample} (nonempty : samples ≠ []) (bounds : Bounds args m samples) :
    ∃ pad cuSeqlens, layTokens rank args (maxSeqLens args m samples.length) none (positions samples) =
      .ok (labelRows args n rank.val m pad samples, pad, cuSeqlens) := by
  have slices (maxSeqLen : Option Nat)
      (cut : ∀ s ∈ samples, lengthOf s.totalLength args.qkvFormat maxSeqLen = .ok (cutLength args m s)) :
      (positions samples).mapM (fun t => sliceWithCp rank t none args.qkvFormat maxSeqLen) =
        .ok (samples.zipIdx.map fun p => localRows n rank.val (cutLength args m p.1) (labelAt p.1 p.2)) := by
    unfold positions
    rw [List.mapM_map]
    refine mapM_ok _ fun p mem => ?_
    have mem := List.mem_of_getElem? (List.mem_zipIdx_iff_getElem?.1 mem)
    exact sliceWithCp_range rank _ none (cut _ mem) (bounds _ mem)
  have some : positions samples ≠ [] := by
    unfold positions
    simpa using nonempty
  unfold layTokens labelRows maxSeqLens
  rw [if_neg some]
  cases format : args.qkvFormat with
  | thd =>
    have run := slices none fun s _ => by
      unfold cutLength
      rw [format]
      rfl
    rw [format] at run
    dsimp only
    by_cases gathered : args.allgatherCp = true
    · obtain rfl : n = 1 := (zigzag format).resolve_right (by simp [gathered])
      have long (pad : Nat) : 0 < ((positions samples).flatten ++ List.replicate pad (none : Label)).length := by
        have := positions_pos nonempty
        rw [List.length_append]
        omega
      rw [if_pos gathered, chunkOf_window rank _ (long _) (Nat.one_mul _).symm, Py.ok_bind, Fin.val_eq_zero rank, Nat.zero_mul,
        List.drop_zero, List.take_length, localRows_alone format]
      exact ⟨_, _, rfl⟩
    · rw [if_neg gathered, run, Py.ok_bind]
      exact ⟨_, _, rfl⟩
  | bshd =>
    have run := slices (Option.some m) fun s _ => by
      unfold cutLength
      rw [format]
      rfl
    rw [format] at run
    obtain ⟨s, rest, rfl⟩ := List.exists_cons_of_ne_nil nonempty
    have fits : ((positions (s :: rest)).all fun t => decide (t.length ≤ m)) = true := by
      unfold positions
      rw [List.all_map, List.all_eq_true]
      intro p mem
      have bound := bounds p.1 (List.mem_of_getElem? (List.mem_zipIdx_iff_getElem?.1 mem))
      unfold cutLength at bound
      rw [format] at bound
      simpa using bound
    rw [List.length_cons, List.replicate_succ]
    dsimp only
    rw [fits, pyAssert_true, Py.ok_bind, run, Py.ok_bind]
    exact ⟨0, _, rfl⟩

/-- The pairs of sample `i` in what `get_responses` yields. -/
def pairsOf (out : List (List Label × List Nat)) (i : Nat) : List (Label × Nat) :=
  (out[i]?).elim [] fun p => p.1.zip p.2

theorem tokens_range (s : TrainSample) :
    s.tokens.drop s.promptLength = (List.range s.responseLength).map fun k => s.tokens.getD (s.first + k + 1) 0 := by
  have total := s.totalLength_eq
  have prompt := s.promptLength_eq
  unfold TrainSample.totalLength at total
  refine List.ext_getElem ?_ fun k _ bound => ?_
  · rw [List.length_drop, List.length_map, List.length_range]
    omega
  · rw [List.length_map, List.length_range] at bound
    rw [List.getElem_drop, List.getElem_map, List.getElem_range, List.getD_eq_getElem?_getD,
      List.getElem?_eq_getElem (by omega), Option.getD_some]
    congr 1
    omega

theorem responseRows_labelAt (s : TrainSample) (i : Nat) :
    responseRows s (labelAt s i) = (List.range s.responseLength).map fun k => some (i, s.first + k) := by
  have total := s.totalLength_eq
  refine List.map_congr_left fun k mem => ?_
  have := List.mem_range.1 mem
  exact if_pos (by omega)

/-- **`get_batch` reads the labels of a layout**, for the tokens and for the masks. -/
theorem getBatch_eq {n : Nat} (rank : Fin n) {args : LayoutArgs} (supported : args.Supported) {maxSeqLens : Option (List Nat)}
    {samples : List TrainSample} {labels : List (List Label)} {pad : Nat} {cuSeqlens : Option (List Nat)}
    (laid : layTokens rank args maxSeqLens none (positions samples) = .ok (labels, pad, cuSeqlens)) :
    getBatch rank args maxSeqLens samples = .ok ⟨labels.map (List.map (readAt TrainSample.tokens samples)), cuSeqlens,
      labels.map (List.map (readAt TrainSample.paddedMask samples))⟩ := by
  have read (xs : TrainSample → List Nat) (whole : ∀ s ∈ samples, (xs s).length = s.totalLength) :
      layTokens rank args maxSeqLens 0 (samples.map xs) =
        .ok (labels.map (List.map (readAt xs samples)), pad, cuSeqlens) := by
    have natural := layTokens_map rank (readAt xs samples) args maxSeqLens none (positions samples)
    rw [laid, positions_map xs samples whole] at natural
    exact natural
  unfold getBatch
  rw [read _ fun _ _ => rfl, Py.ok_bind]
  dsimp only
  rw [layMasks_eq rank supported (read _ fun s _ => paddedMask_length s), Py.ok_bind, length_flatten_map, length_flatten_map,
    decide_eq_true rfl]
  rfl

/-- The mask row is 1 at the positions before a response token with mask 1. -/
theorem maskRow_iff (samples : List TrainSample) (labels : List Label) (k : Nat) :
    (labels.map (readAt TrainSample.paddedMask samples))[k]? = some 1 ↔
      ∃ (i t : Nat) (s : TrainSample), labels[k]? = some (some (i, t)) ∧ samples[i]? = some s ∧
        s.promptLength ≤ t + 1 ∧ t + 1 < s.totalLength ∧ s.lossMask[t + 1 - s.promptLength]? = some 1 := by
  rw [List.getElem?_map]
  constructor
  · intro one
    obtain ⟨label, found, read⟩ := Option.map_eq_some_iff.1 one
    cases label with
    | none => cases read
    | some place =>
      obtain ⟨i, t⟩ := place
      change (samples[i]?).elim 0 (fun s => s.paddedMask.getD t 0) = 1 at read
      cases sample : samples[i]? with
      | none =>
        rw [sample] at read
        cases read
      | some s =>
        rw [sample] at read
        exact ⟨i, t, s, found, sample, (paddedMask_getD s t).1 read⟩
  · rintro ⟨i, t, s, found, sample, holds⟩
    rw [found, Option.map_some]
    show some ((samples[i]?).elim 0 fun s => s.paddedMask.getD t 0) = some 1
    rw [sample]
    exact congrArg some ((paddedMask_getD s t).2 holds)

/-- **`get_responses` finds the part of every response** in the rows of a rank. -/
theorem getResponses_labelRows {n : Nat} (rank : Fin n) {args : LayoutArgs} (zigzag : n = 1 ∨ args.allgatherCp = false) {m : Nat}
    (pad : Nat) {samples : List TrainSample} (bounds : Bounds args m samples) {ρ : Type} (rows : Label → ρ) (scale : ρ → ρ) :
    getResponses rank args scale ((labelRows args n rank.val m pad samples).map (List.map rows))
        (maxSeqLens args m samples.length) samples =
      .ok ((samples.zipIdx.map fun p => responsePart args n rank.val m labelAt p.1 p.2).map fun p =>
        (p.1.map fun label => scale (rows label), p.2)) := by
  let value (label : Label) : ρ := scale (rows label)
  let g (s : TrainSample) (i t : Nat) : ρ := value (labelAt s i t)
  obtain ⟨back, laid⟩ : ∃ back, (((labelRows args n rank.val m pad samples).map (List.map rows)).flatten).map scale =
      [] ++ (samples.zipIdx.flatMap (fun p => localRows n rank.val (cutLength args m p.1) (g p.1 p.2)) ++ back) := by
    have flat : (samples.zipIdx.map fun p => localRows n rank.val (cutLength args m p.1) (labelAt p.1 p.2)).flatten.map
        value = samples.zipIdx.flatMap fun p => localRows n rank.val (cutLength args m p.1) (g p.1 p.2) := by
      rw [← List.flatMap_def, List.map_flatMap]
      simp only [localRows_map]
      rfl
    unfold labelRows
    rw [← List.map_flatten, List.map_map, ← flat]
    cases args.qkvFormat with
    | thd =>
      refine ⟨(List.replicate pad none).map value, ?_⟩
      dsimp only
      rw [List.flatten_singleton, List.map_append]
      rfl
    | bshd => exact ⟨[], (List.append_nil _).symm⟩
  have run := responseChunks_eq rank zigzag g back bounds (Nat.zero_add _) 0 0 [] ?_
  · have flattened : getResponses rank args scale ((labelRows args n rank.val m pad samples).map (List.map rows))
        (maxSeqLens args m samples.length) samples =
        responseChunks rank args ((((labelRows args n rank.val m pad samples).map (List.map rows)).flatten).map scale)
          (maxSeqLens args m samples.length) 0 0 0 samples := by
      unfold getResponses maxSeqLens labelRows
      cases args.qkvFormat with
      | thd => rfl
      | bshd => rfl
    rw [flattened, laid, run, List.map_map]
    refine congrArg Except.ok (List.map_congr_left fun p _ => ?_)
    exact responsePart_map args n rank.val m labelAt value p.1 p.2
  · intro s _
    unfold Located
    split
    · exact (Nat.mul_zero _).symm
    · rfl

/-- What a micro-batch and its logits have to do with each other on `n` ranks: the labels
of the rows are laid out as the tokens are, the masks are those of the next token, and
what `get_responses` yields over the ranks, in position order, is each position before a
response token with that token. -/
def LogitsMeetTokens (n : Nat) (args : LayoutArgs) (samples : List TrainSample) : Prop :=
  ∃ (labels : Fin n → List Label) (out : Fin n → List (List Label × List Nat)),
    (∀ rank, ∃ pad cuSeqlens masks,
      layTokens rank args none none (positions samples) = .ok ([labels rank], pad, cuSeqlens) ∧
      getBatch rank args none samples =
        .ok ⟨[(labels rank).map (readAt TrainSample.tokens samples)], cuSeqlens, [masks]⟩ ∧
      masks.length = (labels rank).length ∧
      ∀ k : Nat, masks[k]? = some 1 ↔ ∃ (i t : Nat) (s : TrainSample), (labels rank)[k]? = some (some (i, t)) ∧
        samples[i]? = some s ∧ s.promptLength ≤ t + 1 ∧ t + 1 < s.totalLength ∧
        s.lossMask[t + 1 - s.promptLength]? = some 1) ∧
    (∀ rank (ρ : Type) (rows : Label → ρ) (scale : ρ → ρ),
      getResponses rank args scale [(labels rank).map rows] none samples =
        .ok ((out rank).map fun p => (p.1.map fun label => scale (rows label), p.2))) ∧
    ∀ (i : Nat) (s : TrainSample), samples[i]? = some s →
      (∀ rank, ∃ p, (out rank)[i]? = some p ∧ p.1.length = p.2.length) ∧
      inPositionOrder ((List.finRange n).flatMap fun rank => pairsOf (out rank) i) =
        (List.range' (s.promptLength - 1) s.responseLength).map fun t => (some (i, t), s.tokens.getD (t + 1) 0)

/-- **Every logit row of a response meets the token after it, once over the ranks.** -/
theorem logits_meet_tokens {n : Nat} (ranks : 0 < n) {args : LayoutArgs} (packed : args.qkvFormat = .thd)
    (zigzag : args.allgatherCp = false) {samples : List TrainSample} (nonempty : samples ≠ []) :
    LogitsMeetTokens n args samples := by
  have bounds : Bounds args 0 samples := by
    intro s _
    unfold cutLength
    rw [packed]
  have lens : maxSeqLens args 0 samples.length = none := by
    unfold maxSeqLens
    rw [packed]
  choose pads cuSeqlens laid using fun rank : Fin n => layTokens_positions rank (fun _ => Or.inr zigzag) nonempty bounds
  have single (rank : Fin n) : ∃ row, labelRows args n rank.val 0 (pads rank) samples = [row] := by
    unfold labelRows
    rw [packed]
    exact ⟨_, rfl⟩
  choose labels row using single
  let out (rank : Fin n) := samples.zipIdx.map fun p => responsePart args n rank.val 0 labelAt p.1 p.2
  rw [lens] at laid
  simp only [row] at laid
  refine ⟨labels, out, ?_, ?_, ?_⟩
  · intro rank
    exact ⟨_, _, _, laid rank, getBatch_eq rank (fun _ => zigzag) (laid rank), List.length_map .., maskRow_iff samples _⟩
  · intro rank ρ rows scale
    have run := getResponses_labelRows rank (Or.inr zigzag) (pads rank) bounds rows scale
    rwa [row, lens] at run
  · intro i s found
    have index : samples.zipIdx[i]? = some (s, i) := by
      rw [List.getElem?_zipIdx, found]
      simp
    have yielded (rank : Fin n) : (out rank)[i]? = some (responsePart args n rank.val 0 labelAt s i) := by
      show (samples.zipIdx.map _)[i]? = _
      rw [List.getElem?_map, index]
      rfl
    have cut : cutLength args 0 s = s.totalLength := by
      unfold cutLength
      rw [packed]
    have fits := le_chunks ranks s.totalLength
    have total := s.totalLength_eq
    have pair (rank : Fin n) : responsePart args n rank.val 0 labelAt s i =
        (part n rank.val (chunkSizeOf n s.totalLength) s.first s.responseLength
            ((List.range s.responseLength).map fun k => some (i, s.first + k)),
          part n rank.val (chunkSizeOf n s.totalLength) s.first s.responseLength
            ((List.range s.responseLength).map fun k => s.tokens.getD (s.first + k + 1) 0)) := by
      unfold responsePart
      rw [cut, responseRows_labelAt, tokens_range]
    refine ⟨fun rank => ⟨_, yielded rank, ?_⟩, ?_⟩
    · rw [pair, part_map, part_map, List.length_map, List.length_map]
    · have zipped (rank : Fin n) : pairsOf (out rank) i = part n rank.val (chunkSizeOf n s.totalLength) s.first
          s.responseLength ((List.range s.responseLength).map fun k =>
            ((some (i, s.first + k) : Label), s.tokens.getD (s.first + k + 1) 0)) := by
        unfold pairsOf
        rw [yielded, Option.elim_some, pair, part_map, part_map, part_map, List.zip_map']
      simp only [zipped]
      rw [inPositionOrder_parts ranks (by omega) i fun k => s.tokens.getD (s.first + k + 1) 0, List.range_eq_range']
      have start : s.promptLength - 1 = s.first := rfl
      rw [start]
      exact shifted_rows s.first (fun t => ((some (i, t) : Label), s.tokens.getD (t + 1) 0)) 0 s.responseLength

/-- A prompt of two tokens and a response of three. -/
def shortSample : TrainSample := ⟨[7, 8, 9, 10, 11], 3, [1, 0, 1], by decide, by decide, rfl⟩

theorem logits_meet_tokens_short : LogitsMeetTokens 2 ⟨.thd, false, 8⟩ [shortSample] :=
  logits_meet_tokens (by omega) rfl rfl (List.cons_ne_nil _ _)

end SlimeBoard
