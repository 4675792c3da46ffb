import SlimeBoard.Parallel.ReplayRows

/-!
# The layouts whose rows match

The packed zigzag layout is the one that `fill_routing_replay` cuts. Another layout has the
same rows only for micro-batches that leave it no choice.
-/

namespace SlimeBoard

open Cp

/-- The length with `padding`. -/
def roundUp (padSize length : Nat) : Nat := length + padding padSize length

/-- The layouts and micro-batches for which the rows agree. -/
def ReplayLayout (n : Nat) (qkvFormat : QkvFormat) (allgatherCp : Bool) (padSize m : Nat) (samples : List TrainSample) : Prop :=
  match qkvFormat with
  | .thd => (n = 1 ∨ allgatherCp = false) ∨ (∀ s ∈ samples, s.totalLength = 2) ∧ 2 * samples.length ≤ padSize
  | .bshd => ∃ s, samples = [s] ∧
    if n = 1 then m = roundUp padSize s.totalLength
    else 2 * chunkSizeOf n m = roundUp padSize (2 * chunkSizeOf n s.totalLength) ∧
      (chunkSizeOf n m = chunkSizeOf n s.totalLength ∨ s.totalLength = 2)

section Padding

theorem padding_lt {padSize : Nat} (positive : 0 < padSize) (length : Nat) : padding padSize length < padSize :=
  Nat.mod_lt _ positive

theorem roundUp_small {padSize length : Nat} (some : 0 < length) (fits : length ≤ padSize) : roundUp padSize length = padSize := by
  unfold roundUp padding
  rcases Nat.lt_or_eq_of_le fits with less | rfl
  · rw [Nat.mod_eq_of_lt less, Nat.mod_eq_of_lt (by omega)]
    omega
  · rw [Nat.mod_self, Nat.sub_zero, Nat.mod_self, Nat.add_zero]

/-- A rank's part of a stream is as long as the rows of the zigzag layout only if these fill one pad. -/
theorem fits_of_width {n padSize length width : Nat} (parallel : 1 < n) (positive : 0 < padSize)
    (whole : roundUp (n * padSize) length = n * width) (same : width = roundUp padSize length) : length ≤ padSize := by
  by_contra long
  obtain ⟨k, blocks⟩ := padded_length padSize length positive
  have small := padding_lt (Nat.mul_pos (show 0 < n by omega) positive) length
  have width' : width = padSize * k := same.trans blocks
  have several : 2 ≤ k := by
    by_contra few
    have : padSize * k ≤ padSize * 1 := Nat.mul_le_mul_left _ (by omega)
    omega
  have upper : n * (padSize * k) < padSize * k + n * padSize := by
    unfold roundUp at whole
    rw [width'] at whole
    omega
  obtain ⟨a, rfl⟩ := Nat.exists_eq_add_of_le parallel
  obtain ⟨b, rfl⟩ := Nat.exists_eq_add_of_le several
  nlinarith [Nat.zero_le (padSize * a * b), Nat.zero_le (padSize * a), Nat.zero_le (padSize * b)]

end Padding

section Local

variable {α : Type} {n : Nat}

theorem chunkSizeOf_pos (ranks : 0 < n) {length : Nat} (some : 0 < length) : 0 < chunkSizeOf n length :=
  Nat.div_pos (by omega) (by omega)

theorem chunkSizeOf_mono (n : Nat) {length m : Nat} (fits : length ≤ m) : chunkSizeOf n length ≤ chunkSizeOf n m :=
  Nat.div_le_div_right (by omega)

theorem chunkSizeOf_two (parallel : 1 < n) : chunkSizeOf n 2 = 1 := by
  unfold chunkSizeOf
  rw [Nat.div_eq_iff (by omega)]
  omega

/-- A longer sequence has a token behind the first chunk that is not its last. -/
theorem chunkSizeOf_lt (parallel : 1 < n) {length : Nat} (long : 2 < length) : chunkSizeOf n length + 1 < length := by
  have small : chunkSizeOf n length ≤ length / (2 * n) + 1 := by
    unfold chunkSizeOf
    rw [← Nat.add_div_right _ (by omega)]
    exact Nat.div_le_div_right (by omega)
  have quarter : length / (2 * n) ≤ length / 4 := Nat.div_le_div_left (by omega) (by omega)
  omega

/-- The first row of a second chunk, on rank 0. -/
theorem localRows_second (parallel : 1 < n) {length : Nat} (some : 0 < length) (g : Nat → α) :
    (localRows n 0 length g)[chunkSizeOf n length]? = Option.some (g ((2 * n - 1) * chunkSizeOf n length)) := by
  have size := chunkSizeOf_pos (show 0 < n by omega) some
  unfold localRows
  rw [if_neg (by omega)]
  dsimp only
  rw [List.getElem?_append_right (by simp), List.length_map, List.length_range', Nat.sub_self, List.getElem?_map,
    List.getElem?_range' size]
  rfl

theorem localRows_first (parallel : 1 < n) {length k : Nat} (inside : k < chunkSizeOf n length) (g : Nat → α) :
    (localRows n 0 length g)[k]? = some (g k) := by
  unfold localRows
  rw [if_neg (by omega)]
  dsimp only
  rw [List.getElem?_append_left (by simpa using inside), List.getElem?_map, List.getElem?_range' inside]
  simp [chunk]

theorem mem_localRows {r length : Nat} {g : Nat → α} {x : α} (mem : x ∈ localRows n r length g) : ∃ t, x = g t := by
  have ids := localRows_map n r length (fun t => t) g
  rw [← ids] at mem
  obtain ⟨t, _, rfl⟩ := List.mem_map.1 mem
  exact ⟨t, rfl⟩

theorem forall₂_localRows {β : Type} {P : α → β → Prop} {f : Nat → α} {g : Nat → β} (pairs : ∀ t, P (f t) (g t)) (n r length : Nat) :
    List.Forall₂ P (localRows n r length f) (localRows n r length g) := by
  rw [← localRows_map n r length (fun t => t) f, ← localRows_map n r length (fun t => t) g, List.forall₂_map_left_iff,
    List.forall₂_map_right_iff]
  exact List.forall₂_same.2 fun t _ => pairs t

end Local

section Meets

variable {samples : List TrainSample}

theorem meets_none (row : ReplayRow) : Meets samples none row := fun _ _ _ label => nomatch label

theorem labelAt_eq {s : TrainSample} (i : Nat) {t : Nat} (inside : t < s.totalLength) : labelAt s i t = some (i, t) := if_pos inside

theorem labelAt_some {s : TrainSample} {i t : Nat} {place : Nat × Nat} (label : labelAt s i t = some place) : place = (i, t) := by
  unfold labelAt padded at label
  split at label
  · exact (Option.some.inj label).symm
  · cases label

theorem replayAt_inl {s : TrainSample} {i t : Nat} {place : Nat × Nat} (inl : replayAt s i t = .inl place) : place = (i, t) := by
  unfold replayAt at inl
  split at inl
  · exact (Sum.inl.inj inl).symm
  · cases inl

theorem meets_at {s : TrainSample} {i : Nat} (found : samples[i]? = some s) (t : Nat) :
    Meets samples (labelAt s i t) (replayAt s i t) := by
  intro i' t' s' label sample inner
  obtain ⟨rfl, rfl⟩ := Prod.mk.inj (labelAt_some label)
  obtain rfl := Option.some.inj (found.symm.trans sample)
  rw [replayAt, if_pos inner]

theorem forall₂_none {k : Nat} {rows : List ReplayRow} (length : rows.length = k) :
    List.Forall₂ (Meets samples) (List.replicate k none) rows := by
  refine List.forall₂_iff_get.2 ⟨by rw [List.length_replicate, length], fun r _ _ => ?_⟩
  rw [List.get_eq_getElem, List.getElem_replicate]
  exact meets_none _

theorem forall₂_flatMap {β γ δ : Type} {P : γ → δ → Prop} {l : List β} {f : β → List γ} {g : β → List δ}
    (each : ∀ x ∈ l, List.Forall₂ P (f x) (g x)) : List.Forall₂ P (l.flatMap f) (l.flatMap g) := by
  induction l with
  | nil => exact List.Forall₂.nil
  | cons x rest ih =>
    rw [List.flatMap_cons, List.flatMap_cons]
    exact List.rel_append (each x (List.mem_cons_self ..)) (ih fun y mem => each y (List.mem_cons_of_mem _ mem))

theorem flatMap_getElem? {α : Type} (row : List α) : ((List.range row.length).flatMap fun t => (row[t]?).toList) = row := by
  induction row with
  | nil => rfl
  | cons x row ih =>
    rw [List.length_cons, List.range_succ_eq_map, List.flatMap_cons, List.flatMap_map]
    exact congrArg (x :: ·) ih

theorem routerRows_single {α : Type} (row : List α) : routerRows [row] = row := by
  have cell (t : Nat) : [row].filterMap (·[t]?) = (row[t]?).toList := by
    rw [List.filterMap_cons, List.filterMap_nil]
    cases row[t]? <;> rfl
  unfold routerRows
  simp only [cell]
  exact flatMap_getElem? row

/-- The rows of the zigzag layout meet the rows of the experts. -/
theorem meets_zigzag (n r padSize : Nat) (samples : List TrainSample) :
    List.Forall₂ (Meets samples) ((samples.zipIdx.flatMap fun p => localRows n r p.1.totalLength (labelAt p.1 p.2)) ++
      List.replicate (padding padSize (samples.zipIdx.flatMap fun p => localRows n r p.1.totalLength (labelAt p.1 p.2)).length) none)
      (replayRows n r padSize samples) := by
  have slices : List.Forall₂ (Meets samples) (samples.zipIdx.flatMap fun p => localRows n r p.1.totalLength (labelAt p.1 p.2))
      (replaySlices n r samples) := by
    refine forall₂_flatMap fun p mem => ?_
    exact forall₂_localRows (meets_at (List.mem_zipIdx_iff_getElem?.1 mem)) n r p.1.totalLength
  rw [slices.length_eq]
  refine List.rel_append slices (forall₂_none ?_)
  rw [List.length_map, List.length_range]

end Meets

/-! ## The layouts, one by one -/

section Layouts

variable {n : Nat} {args : LayoutArgs} {samples : List TrainSample}

/-- The padding of the packed zigzag layout. -/
theorem layTokens_pad {α : Type} {rank : Fin n} (packed : args.qkvFormat = .thd) (zigzag : n = 1 ∨ args.allgatherCp = false)
    {maxSeqLens : Option (List Nat)} {v : α} {tokens rows : List (List α)} {pad : Nat} {cuSeqlens : Option (List Nat)}
    (laid : layTokens rank args maxSeqLens v tokens = .ok (rows, pad, cuSeqlens)) :
    ∃ row, rows = [row ++ List.replicate pad v] ∧ pad = padding args.padSize row.length := by
  unfold layTokens at laid
  split at laid
  · cases laid
  rw [packed] at laid
  dsimp only at laid
  split at laid
  · rename_i gathered
    obtain rfl : n = 1 := zigzag.resolve_right (by simp [gathered])
    obtain ⟨row, run, same⟩ := Py.bind_eq_ok.1 laid
    obtain ⟨rfl, sizes⟩ := Prod.mk.inj (Except.ok.inj same)
    obtain ⟨rfl, _⟩ := Prod.mk.inj sizes
    unfold chunkOf at run
    dsimp only at run
    split at run
    · obtain rfl := Except.ok.inj run
      refine ⟨tokens.flatten, ?_, by rw [Nat.one_mul]⟩
      rw [Fin.val_eq_zero rank, Nat.zero_mul, List.drop_zero, List.take_of_length_le (by simp)]
    · cases run
  · obtain ⟨slices, run, same⟩ := Py.bind_eq_ok.1 laid
    obtain ⟨rfl, sizes⟩ := Prod.mk.inj (Except.ok.inj same)
    obtain ⟨rfl, _⟩ := Prod.mk.inj sizes
    exact ⟨slices.flatten, rfl, rfl⟩

/-- The padding of the gathered stream. -/
theorem layTokens_pad_stream {α : Type} {rank : Fin n} (packed : args.qkvFormat = .thd) (gathered : args.allgatherCp = true)
    {maxSeqLens : Option (List Nat)} {v : α} {tokens rows : List (List α)} {pad : Nat} {cuSeqlens : Option (List Nat)}
    (laid : layTokens rank args maxSeqLens v tokens = .ok (rows, pad, cuSeqlens)) :
    pad = padding (n * args.padSize) tokens.flatten.length := by
  unfold layTokens at laid
  split at laid
  · cases laid
  rw [packed] at laid
  dsimp only at laid
  obtain ⟨row, run, same⟩ := Py.bind_eq_ok.1 laid
  exact (Prod.mk.inj (Prod.mk.inj (Except.ok.inj same)).2).1.symm

/-- **In the packed zigzag layout the rows meet.** -/
theorem meets_packed (packed : args.qkvFormat = .thd) (zigzag : n = 1 ∨ args.allgatherCp = false) (nonempty : samples ≠ [])
    (m : Nat) (rank : Fin n) : ∃ labels pad cuSeqlens,
      layTokens rank args (maxSeqLens args m samples.length) none (positions samples) = .ok (labels, pad, cuSeqlens) ∧
        List.Forall₂ (Meets samples) (routerRows labels) (replayRows n rank.val args.padSize samples) := by
  have bounds : Bounds args m samples := fun s _ => by
    unfold cutLength
    rw [packed]
  obtain ⟨pad, cuSeqlens, laid⟩ := layTokens_positions rank (fun _ => zigzag) nonempty bounds
  refine ⟨_, pad, cuSeqlens, laid, ?_⟩
  obtain ⟨row, rows, size⟩ := layTokens_pad packed zigzag laid
  unfold labelRows at rows ⊢
  rw [packed] at rows ⊢
  dsimp only at rows ⊢
  have row := List.append_cancel_right (List.cons.inj rows).1
  rw [routerRows_single, size, ← row, ← List.flatMap_def]
  have cut (s : TrainSample) : cutLength args m s = s.totalLength := by
    unfold cutLength
    rw [packed]
  simp only [cut]
  exact meets_zigzag n rank.val args.padSize samples

theorem length_zipIdx_flatMap {β : Type} {f : TrainSample × Nat → List β} {k : Nat} {front : List TrainSample}
    (each : ∀ p ∈ front.zipIdx, (f p).length = k) : (front.zipIdx.flatMap f).length = k * front.length := by
  rw [List.length_flatMap, List.map_congr_left each, List.map_const', List.sum_replicate, List.length_zipIdx, smul_eq_mul, Nat.mul_comm]

/-- A sample after others of one length. -/
theorem getElem?_zipIdx_flatMap {β : Type} {f : TrainSample × Nat → List β} {k j : Nat} {front rest : List TrainSample} {s : TrainSample}
    (each : ∀ p ∈ front.zipIdx, (f p).length = k) (inside : j < (f (s, front.length)).length) :
    ((front ++ s :: rest).zipIdx.flatMap f)[k * front.length + j]? = (f (s, front.length))[j]? := by
  rw [List.zipIdx_append, List.flatMap_append, List.getElem?_append_right (by rw [length_zipIdx_flatMap each]; omega),
    length_zipIdx_flatMap each, Nat.add_sub_cancel_left, List.zipIdx_cons, List.flatMap_cons, Nat.zero_add,
    List.getElem?_append_left inside]

theorem exists_first {β : Type} {p : β → Prop} {l : List β} (not : ¬∀ x ∈ l, p x) :
    ∃ front x rest, l = front ++ x :: rest ∧ (∀ y ∈ front, p y) ∧ ¬p x := by
  induction l with
  | nil => exact absurd (fun x mem => nomatch mem) not
  | cons x l ih =>
    by_cases here : p x
    · obtain ⟨front, y, rest, rfl, all, last⟩ := ih fun all => not (List.forall_mem_cons.2 ⟨here, all⟩)
      exact ⟨x :: front, y, rest, rfl, List.forall_mem_cons.2 ⟨here, all⟩, last⟩
    · exact ⟨[], x, l, rfl, List.forall_mem_nil _, here⟩

theorem zipIdx_pairs {front : List TrainSample} (pairs : ∀ s ∈ front, s.totalLength = 2) {p : TrainSample × Nat} (mem : p ∈ front.zipIdx) :
    p.1.totalLength = 2 := pairs p.1 (List.mem_of_getElem? (List.mem_zipIdx_iff_getElem?.1 mem))

theorem length_localRows_two (parallel : 1 < n) (r : Nat) {β : Type} (g : Nat → β) : (localRows n r 2 g).length = 2 := by
  rw [length_localRows, if_neg (by omega), chunkSizeOf_two parallel]

theorem length_replaySlices (parallel : 1 < n) (r : Nat) (pairs : ∀ s ∈ samples, s.totalLength = 2) :
    (replaySlices n r samples).length = 2 * samples.length := by
  refine length_zipIdx_flatMap fun p mem => ?_
  rw [zipIdx_pairs pairs mem]
  exact length_localRows_two parallel r _

theorem length_stream (pairs : ∀ s ∈ samples, s.totalLength = 2) : (positions samples).flatten.length = 2 * samples.length := by
  unfold positions
  rw [← List.flatMap_def]
  refine length_zipIdx_flatMap fun p mem => ?_
  rw [List.length_map, List.length_range, zipIdx_pairs pairs mem]

/-- A rank's chunk of the stream meets its rows only if every sample has two tokens. -/
theorem pairs_of_meets (parallel : 1 < n) {padSize width : Nat} {back : List Label}
    (meets : List.Forall₂ (Meets samples) (((positions samples).flatten ++ back).take width) (replayRows n 0 padSize samples)) :
    ∀ s ∈ samples, s.totalLength = 2 := by
  by_contra not
  obtain ⟨front, s, rest, rfl, pairs, long⟩ := exists_first not
  have total := s.totalLength_eq
  have response := s.nonempty
  have small := chunkSizeOf_lt parallel (show 2 < s.totalLength by omega)
  have size := chunkSizeOf_pos (show 0 < n by omega) (show 0 < s.totalLength by omega)
  have pairs := fun (p : TrainSample × Nat) (mem : p ∈ front.zipIdx) => zipIdx_pairs pairs mem
  have label : (positions (front ++ s :: rest)).flatten[2 * front.length + chunkSizeOf n s.totalLength]? =
      some (some (front.length, chunkSizeOf n s.totalLength)) := by
    unfold positions
    rw [← List.flatMap_def, getElem?_zipIdx_flatMap]
    · rw [List.getElem?_map, List.getElem?_range (show chunkSizeOf n s.totalLength < s.totalLength by omega)]
      rfl
    · intro p mem
      rw [List.length_map, List.length_range, pairs p mem]
    · rw [List.length_map, List.length_range]
      exact (Nat.lt_succ_self _).trans small
  have row : (replaySlices n 0 (front ++ s :: rest))[2 * front.length + chunkSizeOf n s.totalLength]? =
      some (replayAt s front.length ((2 * n - 1) * chunkSizeOf n s.totalLength)) := by
    unfold replaySlices
    rw [getElem?_zipIdx_flatMap]
    · exact localRows_second parallel (show 0 < s.totalLength by omega) _
    · intro p mem
      rw [pairs p mem]
      exact length_localRows_two parallel 0 _
    · rw [length_localRows, if_neg (by omega)]
      dsimp only
      omega
  obtain ⟨inside, row⟩ := List.getElem?_eq_some_iff.1 row
  have inY : 2 * front.length + chunkSizeOf n s.totalLength < (replayRows n 0 padSize (front ++ s :: rest)).length := by
    unfold replayRows
    rw [List.length_append]
    omega
  have inX := meets.length_eq ▸ inY
  obtain ⟨inS, label⟩ := List.getElem?_eq_some_iff.1 label
  have here := (List.forall₂_iff_get.1 meets).2 _ inX inY front.length (chunkSizeOf n s.totalLength) s
    (by rw [List.get_eq_getElem, List.getElem_take, List.getElem_append_left inS, label]) (by simp) (by omega)
  rw [List.get_eq_getElem] at here
  have here : (replaySlices n 0 (front ++ s :: rest))[2 * front.length + chunkSizeOf n s.totalLength] =
      .inl (front.length, chunkSizeOf n s.totalLength) := by
    rw [← here]
    exact (List.getElem_append_left inside).symm
  rw [row] at here
  have same := (Prod.mk.inj (replayAt_inl here)).2
  have far : 1 * chunkSizeOf n s.totalLength < (2 * n - 1) * chunkSizeOf n s.totalLength :=
    Nat.mul_lt_mul_of_pos_right (by omega) size
  omega

theorem length_replayRows (n r padSize : Nat) (samples : List TrainSample) :
    (replayRows n r padSize samples).length = roundUp padSize (replaySlices n r samples).length := by
  rw [replayRows, List.length_append, List.length_map, List.length_range]
  rfl

/-- The stream of samples of two tokens meets the rows of rank 0. -/
theorem meets_pairs (parallel : 1 < n) (pairs : ∀ s ∈ samples, s.totalLength = 2) :
    List.Forall₂ (Meets samples) (positions samples).flatten (replaySlices n 0 samples) := by
  unfold positions replaySlices
  rw [← List.flatMap_def]
  refine forall₂_flatMap fun p mem => ?_
  have found := List.mem_zipIdx_iff_getElem?.1 mem
  have two := zipIdx_pairs pairs mem
  refine List.forall₂_iff_get.2 ⟨?_, fun k inX inY i t s label sample inner => ?_⟩
  · rw [List.length_map, List.length_range, two, length_localRows_two parallel]
  · rw [List.get_eq_getElem, List.getElem_map, List.getElem_range] at label
    obtain ⟨rfl, rfl⟩ := Prod.mk.inj (Option.some.inj label)
    obtain rfl := Option.some.inj (found.symm.trans sample)
    have inner' : k + 1 < p.1.totalLength := inner
    obtain rfl : k = 0 := by omega
    have first := localRows_first (k := 0) parallel (chunkSizeOf_pos (by omega) (show 0 < p.1.totalLength by omega)) (replayAt p.1 p.2)
    obtain ⟨_, first⟩ := List.getElem?_eq_some_iff.1 first
    rw [List.get_eq_getElem, first, replayAt, if_pos inner]

/-- **Gathered, the rows meet only for samples of two tokens that fill at most one pad.** -/
theorem meets_gathered_iff (packed : args.qkvFormat = .thd) (gathered : args.allgatherCp = true) (parallel : 1 < n)
    (nonempty : samples ≠ []) (m : Nat) : (∀ rank : Fin n, ∃ labels pad cuSeqlens,
      layTokens rank args (maxSeqLens args m samples.length) none (positions samples) = .ok (labels, pad, cuSeqlens) ∧
        List.Forall₂ (Meets samples) (routerRows labels) (replayRows n rank.val args.padSize samples)) ↔
    (∀ s ∈ samples, s.totalLength = 2) ∧ 2 * samples.length ≤ args.padSize := by
  have unbounded : maxSeqLens args m samples.length = none := by
    unfold maxSeqLens
    rw [packed]
  obtain ⟨width, pad, wide, whole, laid⟩ := layTokens_stream packed gathered nonempty (show 0 < n by omega)
  obtain ⟨_, first⟩ := laid ⟨0, by omega⟩
  have size := layTokens_pad_stream packed gathered first
  rw [List.length_append, List.length_replicate, size] at whole
  have positive := args.padSize.pos
  rw [unbounded]
  constructor
  · intro meets
    obtain ⟨labels, _, _, laid', meets⟩ := meets ⟨0, by omega⟩
    obtain ⟨rfl, _⟩ := Prod.mk.inj (Except.ok.inj (first.symm.trans laid'))
    rw [routerRows_single, Nat.zero_mul, List.drop_zero] at meets
    have pairs := pairs_of_meets parallel meets
    refine ⟨pairs, ?_⟩
    have lengths := meets.length_eq
    rw [length_replayRows, length_replaySlices parallel 0 pairs, List.length_take, List.length_append, List.length_replicate, size,
      whole, Nat.min_eq_left (Nat.le_mul_of_pos_left _ (by omega))] at lengths
    rw [length_stream pairs] at whole
    exact fits_of_width parallel positive whole lengths
  · rintro ⟨pairs, fits⟩ rank
    have some := List.length_pos_iff.2 nonempty
    have stream := length_stream pairs
    have slices (r : Nat) := length_replaySlices parallel r pairs
    have whole' : n * (args.padSize : Nat) = n * width := by
      rw [← whole, stream]
      exact (roundUp_small (by omega) (fits.trans (Nat.le_mul_of_pos_left _ (by omega)))).symm
    obtain rfl : (args.padSize : Nat) = width := Nat.eq_of_mul_eq_mul_left (by omega) whole'
    have small := roundUp_small (show 0 < 2 * samples.length by omega) fits
    obtain ⟨cuSeqlens, run⟩ := laid rank
    refine ⟨_, pad, cuSeqlens, run, ?_⟩
    have next : (rank.val + 1) * (args.padSize : Nat) ≤ n * args.padSize := Nat.mul_le_mul_right _ rank.isLt
    rw [Nat.succ_mul] at next
    have total := length_replayRows n rank.val args.padSize samples
    rw [slices, small] at total
    rw [stream] at whole
    unfold roundUp at small
    rw [routerRows_single, size, stream]
    by_cases first' : rank.val = 0
    · rw [first', Nat.zero_mul, List.drop_zero, List.take_append, List.take_of_length_le (by omega), stream, List.take_replicate]
      unfold replayRows
      refine List.rel_append (meets_pairs parallel pairs) (forall₂_none ?_)
      rw [List.length_map, List.length_range, slices]
      omega
    · have beyond : 1 * (args.padSize : Nat) ≤ rank.val * args.padSize := Nat.mul_le_mul_right _ (by omega)
      rw [List.drop_append, List.drop_of_length_le (by omega), List.nil_append, stream, List.drop_replicate, List.take_replicate]
      refine forall₂_none ?_
      omega

theorem localRows_zero {β : Type} (ranks : 0 < n) {length : Nat} (long : 0 < length) (g : Nat → β) :
    (localRows n 0 length g)[0]? = some (g 0) := by
  by_cases alone : n = 1
  · unfold localRows
    rw [if_pos alone, List.getElem?_map, List.getElem?_range long]
    rfl
  · exact localRows_first (by omega) (chunkSizeOf_pos ranks long) g

theorem two_le_length_localRows {β : Type} (ranks : 0 < n) {length : Nat} (long : 2 ≤ length) (r : Nat) (g : Nat → β) :
    2 ≤ (localRows n r length g).length := by
  have size := chunkSizeOf_pos ranks (show 0 < length by omega)
  rw [length_localRows]
  split
  · exact long
  · omega

/-- The second row is that of the second sample. -/
theorem routerRows_second {β : Type} {row row' : List β} {rest : List (List β)} {x y : β} (first : row[0]? = some x)
    (second : row'[0]? = some y) : (routerRows (row :: row' :: rest))[1]? = some y := by
  cases row with
  | nil => cases first
  | cons x' row =>
    unfold routerRows
    rw [List.headD_cons, List.length_cons, List.range_succ_eq_map, List.flatMap_cons]
    simp only [List.filterMap_cons, List.getElem?_cons_zero, second]
    rfl

/-- The rows of a micro-batch of several samples do not meet in the padded layout. -/
theorem single_of_meets (ranks : 0 < n) {padSize m : Nat} {s s' : TrainSample} {rest : List TrainSample} (fits : s.totalLength ≤ m)
    {rows : List (List Label)} (meets : List.Forall₂ (Meets (s :: s' :: rest))
      (routerRows (localRows n 0 m (labelAt s 0) :: localRows n 0 m (labelAt s' 1) :: rows)) (replayRows n 0 padSize (s :: s' :: rest))) :
    False := by
  have total := s.totalLength_eq
  have total' := s'.totalLength_eq
  have response := s.nonempty
  have response' := s'.nonempty
  have second : (routerRows (localRows n 0 m (labelAt s 0) :: localRows n 0 m (labelAt s' 1) :: rows))[1]? = some (some (1, 0)) := by
    have first := localRows_zero ranks (show 0 < m by omega) (labelAt s' 1)
    rw [labelAt_eq _ (by omega)] at first
    exact routerRows_second (localRows_zero ranks (by omega) (labelAt s 0)) first
  have long := two_le_length_localRows ranks (show 2 ≤ s.totalLength by omega) 0 (replayAt s 0)
  have row : (replayRows n 0 padSize (s :: s' :: rest))[1]? = (localRows n 0 s.totalLength (replayAt s 0))[1]? := by
    unfold replayRows replaySlices
    rw [List.zipIdx_cons, List.flatMap_cons, List.append_assoc, List.getElem?_append_left (by dsimp only; omega)]
  obtain ⟨inX, second⟩ := List.getElem?_eq_some_iff.1 second
  have inY := meets.length_eq ▸ inX
  have here := (List.forall₂_iff_get.1 meets).2 1 inX inY 1 0 s' second rfl (by omega)
  rw [List.getElem?_eq_getElem inY, List.getElem?_eq_getElem (show 1 < _ from long)] at row
  obtain ⟨t, same⟩ := mem_localRows (List.getElem_mem (show 1 < _ from long))
  rw [List.get_eq_getElem, Option.some.inj row, same] at here
  have place := congrArg Prod.fst (replayAt_inl here)
  cases place

/-- Position 0 is on the first row of rank 0. -/
theorem localRows_start (parallel : 1 < n) {r m k : Nat} (rank : r < n) (size : 0 < chunkSizeOf n m)
    (found : (localRows n r m fun t => t)[k]? = some 0) : r = 0 ∧ k = 0 := by
  unfold localRows at found
  rw [if_neg (by omega), List.getElem?_append] at found
  rw [List.map_id', List.map_id', List.length_range'] at found
  split at found
  · rename_i early
    rw [List.getElem?_range' early] at found
    have place := Option.some.inj found
    have first : r * chunkSizeOf n m = 0 := by
      show (chunk n r (chunkSizeOf n m) false).1 = 0
      omega
    refine ⟨(Nat.mul_eq_zero.1 first).resolve_right (by omega), by omega⟩
  · obtain ⟨inside, place⟩ := List.getElem?_eq_some_iff.1 found
    rw [List.getElem_range'] at place
    have far : 1 * chunkSizeOf n m ≤ (2 * n - r - 1) * chunkSizeOf n m := Nat.mul_le_mul_right _ (by omega)
    have start : (chunk n r (chunkSizeOf n m) true).1 = (2 * n - r - 1) * chunkSizeOf n m := rfl
    omega

/-- A padded sample meets its rows only if the chunks are the same, or if there is one token to meet. -/
theorem meets_single_iff (ranks : 0 < n) {s : TrainSample} {padSize m : Nat} (fits : s.totalLength ≤ m) :
    (∀ rank : Fin n, List.Forall₂ (Meets [s]) (localRows n rank.val m (labelAt s 0)) (replayRows n rank.val padSize [s])) ↔
      if n = 1 then m = roundUp padSize s.totalLength
      else 2 * chunkSizeOf n m = roundUp padSize (2 * chunkSizeOf n s.totalLength) ∧
        (chunkSizeOf n m = chunkSizeOf n s.totalLength ∨ s.totalLength = 2) := by
  have total := s.totalLength_eq
  have response := s.nonempty
  have slices (r : Nat) : replaySlices n r [s] = localRows n r s.totalLength (replayAt s 0) := by
    unfold replaySlices
    rw [List.zipIdx_cons, List.zipIdx_nil, List.flatMap_cons, List.flatMap_nil, List.append_nil]
  have lengths (r : Nat) : (replayRows n r padSize [s]).length =
      roundUp padSize (if n = 1 then s.totalLength else 2 * chunkSizeOf n s.totalLength) := by
    rw [length_replayRows, slices, length_localRows]
  have meets (r : Nat) : List.Forall₂ (Meets [s]) (localRows n r s.totalLength (labelAt s 0)) (replaySlices n r [s]) := by
    rw [slices]
    exact forall₂_localRows (meets_at rfl) n r s.totalLength
  constructor
  · intro all
    have here := all ⟨0, ranks⟩
    have length := here.length_eq
    rw [lengths, length_localRows] at length
    by_cases alone : n = 1
    · rw [if_pos alone, if_pos alone] at length
      rwa [if_pos alone]
    · rw [if_neg alone, if_neg alone] at length
      rw [if_neg alone]
      refine ⟨length, ?_⟩
      by_contra apart
      obtain ⟨differ, long⟩ := not_or.1 apart
      have larger := chunkSizeOf_mono n fits
      have small := chunkSizeOf_lt (show 1 < n by omega) (show 2 < s.totalLength by omega)
      have size := chunkSizeOf_pos ranks (show 0 < s.totalLength by omega)
      have label := localRows_first (show 1 < n by omega) (show chunkSizeOf n s.totalLength < chunkSizeOf n m by omega) (labelAt s 0)
      have row := localRows_second (show 1 < n by omega) (show 0 < s.totalLength by omega) (replayAt s 0)
      rw [← slices] at row
      obtain ⟨inside, row⟩ := List.getElem?_eq_some_iff.1 row
      obtain ⟨inX, label⟩ := List.getElem?_eq_some_iff.1 label
      rw [labelAt_eq _ (by omega)] at label
      have inY := here.length_eq ▸ inX
      have met := (List.forall₂_iff_get.1 here).2 _ inX inY 0 (chunkSizeOf n s.totalLength) s label rfl (by omega)
      have met : (replaySlices n 0 [s])[chunkSizeOf n s.totalLength] = .inl (0, chunkSizeOf n s.totalLength) := by
        rw [← met]
        exact (List.getElem_append_left inside).symm
      rw [row] at met
      have same := (Prod.mk.inj (replayAt_inl met)).2
      have far : 1 * chunkSizeOf n s.totalLength < (2 * n - 1) * chunkSizeOf n s.totalLength :=
        Nat.mul_lt_mul_of_pos_right (by omega) size
      omega
  · intro sizes rank
    by_cases alone : n = 1
    · rw [if_pos alone] at sizes
      have more : localRows n rank.val m (labelAt s 0) =
          localRows n rank.val s.totalLength (labelAt s 0) ++ List.replicate (padding padSize s.totalLength) none := by
        unfold localRows
        rw [if_pos alone, if_pos alone, sizes, roundUp, List.range_add, List.map_append, List.map_map]
        refine congrArg _ (List.eq_replicate_iff.2 ⟨by rw [List.length_map, List.length_range], fun label mem => ?_⟩)
        obtain ⟨t, _, rfl⟩ := List.mem_map.1 mem
        exact if_neg (Nat.not_lt.2 (Nat.le_add_right ..))
      rw [more]
      refine List.rel_append (meets rank.val) (forall₂_none ?_)
      rw [List.length_map, List.length_range, slices, length_localRows, if_pos alone]
    · rw [if_neg alone] at sizes
      obtain ⟨sizes, same | two⟩ := sizes
      · have cut : localRows n rank.val m (labelAt s 0) = localRows n rank.val s.totalLength (labelAt s 0) := by
          unfold localRows
          rw [if_neg alone, if_neg alone, same]
        have none : padding padSize (replaySlices n rank.val [s]).length = 0 := by
          rw [slices, length_localRows, if_neg alone]
          rw [same, roundUp] at sizes
          omega
        unfold replayRows
        rw [cut, none, List.range_zero, List.map_nil, List.append_nil]
        exact meets rank.val
      · refine List.forall₂_iff_get.2 ⟨?_, fun k inX inY i t s' label sample inner => ?_⟩
        · rw [lengths, length_localRows, if_neg alone, if_neg alone, sizes]
        · obtain ⟨place, found, here⟩ : ∃ place, (localRows n rank.val m fun t => t)[k]? = some place ∧ labelAt s 0 place = some (i, t) := by
            have ids := localRows_map n rank.val m (fun t => t) (labelAt s 0)
            have label : (localRows n rank.val m (labelAt s 0))[k]? = some (some (i, t)) :=
              (List.getElem?_eq_getElem inX).trans (congrArg some label)
            rw [← ids, List.getElem?_map] at label
            exact Option.map_eq_some_iff.1 label
          obtain ⟨rfl, rfl⟩ := Prod.mk.inj (labelAt_some here)
          obtain rfl := Option.some.inj (show some s = some s' from sample)
          obtain rfl : t = 0 := by omega
          obtain ⟨first, rfl⟩ := localRows_start (by omega) rank.isLt (chunkSizeOf_pos ranks (by omega)) found
          have row : (replayRows n rank.val padSize [s])[0]? = some (replayAt s 0 0) := by
            rw [first]
            unfold replayRows
            rw [slices, List.getElem?_append_left (by have := two_le_length_localRows ranks two.ge 0 (replayAt s 0); omega)]
            exact localRows_zero ranks (by omega) _
          rw [replayAt, if_pos (by omega)] at row
          exact Option.some.inj ((List.getElem?_eq_getElem inY).symm.trans row)

/-- **In the padded layout the rows meet only for a micro-batch of one sample, cut alike.** -/
theorem meets_padded_iff (ranks : 0 < n) (allgatherCp : Bool) (padSize : ℕ+) {m : Nat} (nonempty : samples ≠ [])
    (fits : ∀ s ∈ samples, s.totalLength ≤ m) : (∀ rank : Fin n, ∃ labels pad cuSeqlens,
      layTokens rank ⟨.bshd, allgatherCp, padSize⟩ (maxSeqLens ⟨.bshd, allgatherCp, padSize⟩ m samples.length) none (positions samples) =
        .ok (labels, pad, cuSeqlens) ∧
        List.Forall₂ (Meets samples) (routerRows labels) (replayRows n rank.val padSize samples)) ↔
    ReplayLayout n .bshd allgatherCp padSize m samples := by
  have laid (rank : Fin n) : ∃ pad cuSeqlens,
      layTokens rank ⟨.bshd, allgatherCp, padSize⟩ (maxSeqLens ⟨.bshd, allgatherCp, padSize⟩ m samples.length) none (positions samples) =
        .ok (samples.zipIdx.map (fun p => localRows n rank.val m (labelAt p.1 p.2)), pad, cuSeqlens) :=
    have zigzag : n = 1 ∨ (⟨.bshd, false, padSize⟩ : LayoutArgs).allgatherCp = false := Or.inr rfl
    layTokens_positions rank (fun _ => zigzag) nonempty fits
  have reduced : (∀ rank : Fin n, ∃ labels pad cuSeqlens,
      layTokens rank ⟨.bshd, allgatherCp, padSize⟩ (maxSeqLens ⟨.bshd, allgatherCp, padSize⟩ m samples.length) none (positions samples) =
        .ok (labels, pad, cuSeqlens) ∧
        List.Forall₂ (Meets samples) (routerRows labels) (replayRows n rank.val padSize samples)) ↔
      ∀ rank : Fin n, List.Forall₂ (Meets samples) (routerRows (samples.zipIdx.map fun p => localRows n rank.val m (labelAt p.1 p.2)))
        (replayRows n rank.val padSize samples) := by
    constructor
    · intro meets rank
      obtain ⟨labels, _, _, laid', meets⟩ := meets rank
      obtain ⟨_, _, run⟩ := laid rank
      obtain ⟨rfl, _⟩ := Prod.mk.inj (Except.ok.inj (run.symm.trans laid'))
      exact meets
    · intro meets rank
      obtain ⟨pad, cuSeqlens, run⟩ := laid rank
      exact ⟨_, pad, cuSeqlens, run, meets rank⟩
  rw [reduced]
  obtain ⟨s, rest, rfl⟩ := List.exists_cons_of_ne_nil nonempty
  cases rest with
  | cons s' rest =>
    refine ⟨fun meets => (single_of_meets ranks (fits s (List.mem_cons_self ..)) (meets ⟨0, ranks⟩)).elim, fun ⟨_, single, _⟩ => ?_⟩
    cases single
  | nil =>
    have row (rank : Fin n) : routerRows ([s].zipIdx.map fun p => localRows n rank.val m (labelAt p.1 p.2)) =
        localRows n rank.val m (labelAt s 0) := routerRows_single _
    simp only [row]
    rw [meets_single_iff ranks (fits s (List.mem_cons_self ..))]
    refine ⟨fun sizes => ⟨s, rfl, sizes⟩, fun ⟨s', single, sizes⟩ => ?_⟩
    obtain rfl := (List.cons.inj single).1
    exact sizes

end Layouts

/-- **The rows of a micro-batch match in the packed zigzag layout, in the gathered one only if every
sample has two tokens and they fill at most one pad, and in the padded one only for one sample whose
chunks are cut alike and padded to the same length.** -/
theorem replay_rows_iff {numLayers topk numExperts n m : Nat} [NeZero numExperts] {tp : TensorParallel} {qkvFormat : QkvFormat}
    {allgatherCp : Bool} {samples : List TrainSample} (stage : Stage numLayers) (recorded : stage.layers ≠ []) (ids : 1 < numExperts)
    (choices : 0 < topk) (ranks : 0 < n) (nonempty : samples ≠ [])
    (fits : qkvFormat = .bshd → ∀ s ∈ samples, s.totalLength ≤ m) :
    RowsMatch topk numExperts stage n qkvFormat allgatherCp tp m samples ↔
      ReplayLayout n qkvFormat allgatherCp tp.padSize m samples := by
  rw [rowsMatch_iff_meets stage ids choices recorded nonempty]
  have divides {rank : Fin n} {labels : List (List Label)}
      (meets : List.Forall₂ (Meets samples) (routerRows labels) (replayRows n rank.val tp.padSize samples)) :
      Divides tp (routerRows labels) := by
    unfold Divides
    rw [meets.length_eq]
    exact replayRows_divides tp n rank.val samples
  have without : (∀ rank : Fin n, ∃ labels pad cuSeqlens,
      layTokens rank ⟨qkvFormat, allgatherCp, tp.padSize⟩ (maxSeqLens ⟨qkvFormat, allgatherCp, tp.padSize⟩ m samples.length) none
        (positions samples) = .ok (labels, pad, cuSeqlens) ∧ Divides tp (routerRows labels) ∧
      List.Forall₂ (Meets samples) (routerRows labels) (replayRows n rank.val tp.padSize samples)) ↔
      ∀ rank : Fin n, ∃ labels pad cuSeqlens,
      layTokens rank ⟨qkvFormat, allgatherCp, tp.padSize⟩ (maxSeqLens ⟨qkvFormat, allgatherCp, tp.padSize⟩ m samples.length) none
        (positions samples) = .ok (labels, pad, cuSeqlens) ∧
      List.Forall₂ (Meets samples) (routerRows labels) (replayRows n rank.val tp.padSize samples) :=
    forall_congr' fun rank => exists_congr fun labels => exists_congr fun pad => exists_congr fun cuSeqlens =>
      and_congr_right fun _ => ⟨And.right, fun meets => ⟨divides meets, meets⟩⟩
  rw [without]
  cases qkvFormat with
  | bshd => exact meets_padded_iff ranks allgatherCp tp.padSize nonempty (fits rfl)
  | thd =>
    by_cases zigzag : n = 1 ∨ allgatherCp = false
    · exact ⟨fun _ => Or.inl zigzag, fun _ rank => meets_packed rfl zigzag nonempty m rank⟩
    · obtain ⟨several, gathered⟩ := not_or.1 zigzag
      rw [meets_gathered_iff rfl (Bool.eq_true_of_not_eq_false gathered) (by omega) nonempty m]
      exact ⟨Or.inr, fun layout => layout.resolve_left zigzag⟩

/-! ## A gathered micro-batch -/

/-- One layer with experts. -/
def oneLayer : Stage 1 where
  moeLayerFreq := .int 1
  chunks := [(0, 1)]
  layers := [0]
  built := rfl
  inside := by decide

/-- Two tensor parallel ranks with sequence parallelism, and pads of four. -/
def twoTensorRanks : TensorParallel := ⟨Nat.succPNat 1, Nat.succPNat 1, true⟩

/-- A prompt of five tokens and a response of three. -/
def eightTokens : TrainSample := ⟨[1, 2, 3, 4, 5, 6, 7, 8], 3, [1, 1, 1], Nat.le_of_ble_eq_true rfl, Nat.le_of_ble_eq_true rfl, rfl⟩

theorem replay_rows_iff_eight : RowsMatch 1 3 oneLayer 2 .thd true twoTensorRanks 0 [eightTokens] ↔
    ReplayLayout 2 .thd true twoTensorRanks.padSize 0 [eightTokens] :=
  replay_rows_iff oneLayer (by decide) (by decide) (by decide) (by decide) (by decide) fun h => nomatch h

/-- With `allgather_cp` and two ranks, the rows have the experts of other tokens. -/
theorem not_rowsMatch_eight : ¬RowsMatch 1 3 oneLayer 2 .thd true twoTensorRanks 0 [eightTokens] := by
  rw [rowsMatch_iff_meets oneLayer (by decide) (by decide) (by decide) (by decide)]
  intro meets
  have all (rank : Fin 2) : ∃ labels pad cuSeqlens,
      layTokens rank ⟨.thd, true, twoTensorRanks.padSize⟩ (maxSeqLens ⟨.thd, true, twoTensorRanks.padSize⟩ 0 1) none
        (positions [eightTokens]) = .ok (labels, pad, cuSeqlens) ∧
      List.Forall₂ (Meets [eightTokens]) (routerRows labels) (replayRows 2 rank.val twoTensorRanks.padSize [eightTokens]) := by
    obtain ⟨labels, pad, cuSeqlens, laid, _, here⟩ := meets rank
    exact ⟨labels, pad, cuSeqlens, laid, here⟩
  have pairs := ((meets_gathered_iff rfl rfl (by decide) (by decide) 0).1 all).1
  exact absurd (pairs eightTokens (List.mem_singleton_self _)) (by decide)

end SlimeBoard
