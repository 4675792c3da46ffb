import Mathlib

/-!
# Slices, and lists cut along spans

`pySlice` is Python's `xs[a:b]`. A span is a half-open range of positions. `pick`
collects the parts of a list on some spans, `spread` puts collected parts back in
place and fills the rest with a default.
-/

section Slice

variable {α β : Type}

/-- The position that a bound of a slice names in a sequence of length `n`. -/
def sliceBound (n : Nat) (i : Int) : Nat := if i < 0 then (i + n).toNat else min i.toNat n

/-- `xs[a:b]` -/
def pySlice (xs : List α) (a b : Int) : List α := (xs.take (sliceBound xs.length b)).drop (sliceBound xs.length a)

theorem pySlice_self (xs : List α) (a : Int) : pySlice xs a a = [] := by
  unfold pySlice
  rw [List.drop_eq_nil_iff, List.length_take]
  omega

theorem pySlice_nat (xs : List α) (a b : Nat) : pySlice xs a b = (xs.take b).drop a := by
  unfold pySlice sliceBound
  rw [if_neg (by omega), if_neg (by omega), Int.toNat_natCast, Int.toNat_natCast,
    ← List.take_eq_take_min]
  by_cases inside : a ≤ xs.length
  · rw [Nat.min_eq_left inside]
  · rw [List.drop_eq_nil_iff.2, List.drop_eq_nil_iff.2]
    · rw [List.length_take]
      omega
    · rw [List.length_take]
      omega

theorem pySlice_map (f : α → β) (xs : List α) (a b : Int) : pySlice (xs.map f) a b = (pySlice xs a b).map f := by
  unfold pySlice
  rw [List.length_map, List.map_drop, List.map_take]

end Slice

/-! ## Spans -/

/-- A half-open range of positions. -/
abbrev Span := Nat × Nat

namespace Span

/-- Some span has position `k`. -/
def Covers (spans : List Span) (k : Nat) : Prop := ∃ s ∈ spans, s.1 ≤ k ∧ k < s.2

instance (spans : List Span) (k : Nat) : Decidable (Covers spans k) := by
  unfold Covers
  infer_instance

/-- The spans follow one another between `lo` and `hi`. -/
inductive Within : Nat → List Span → Nat → Prop where
  | nil {lo hi : Nat} : lo ≤ hi → Within lo [] hi
  | cons {lo hi : Nat} {s : Span} {rest : List Span} : lo ≤ s.1 → s.1 ≤ s.2 → Within s.2 rest hi →
      Within lo (s :: rest) hi

theorem Within.le {lo hi : Nat} {spans : List Span} (within : Within lo spans hi) : lo ≤ hi := by
  induction within with
  | nil le => exact le
  | cons start forward _ ih => omega

theorem covers_cons {s : Span} {rest : List Span} {k : Nat} :
    Covers (s :: rest) k ↔ (s.1 ≤ k ∧ k < s.2) ∨ Covers rest k := by
  simp [Covers]

theorem not_covers_nil (k : Nat) : ¬Covers [] k := by
  simp [Covers]

theorem Within.bounds {lo hi : Nat} {spans : List Span} (within : Within lo spans hi) {k : Nat} (covers : Covers spans k) :
    lo ≤ k ∧ k < hi := by
  induction within with
  | nil => exact absurd covers (not_covers_nil k)
  | cons start forward rest ih =>
    have := rest.le
    rcases covers_cons.1 covers with here | there
    · omega
    · have := ih there
      omega

/-- The number of positions. -/
def size (spans : List Span) : Nat := (spans.map fun s => s.2 - s.1).sum

section Lists

variable {α β : Type}

/-- The parts of `xs` on the spans. -/
def pick (spans : List Span) (xs : List α) : List α := spans.flatMap fun s => (xs.take s.2).drop s.1

/-- `ys` put on the spans from position `lo` on, with `fill` up to position `hi`. -/
def spread (fill : α) : Nat → List Span → Nat → List α → List α
  | lo, [], hi, _ => List.replicate (hi - lo) fill
  | lo, s :: rest, hi, ys =>
    List.replicate (s.1 - lo) fill ++ (ys.take (s.2 - s.1) ++ spread fill s.2 rest hi (ys.drop (s.2 - s.1)))

theorem pick_nil (xs : List α) : pick [] xs = [] := rfl

theorem pick_cons (s : Span) (rest : List Span) (xs : List α) :
    pick (s :: rest) xs = (xs.take s.2).drop s.1 ++ pick rest xs := rfl

theorem pick_of_nil (spans : List Span) : pick spans ([] : List α) = [] := by
  refine List.flatMap_eq_nil_iff.2 fun s _ => ?_
  rw [List.take_nil, List.drop_nil]

theorem pick_map (f : α → β) (spans : List Span) (xs : List α) : pick spans (xs.map f) = (pick spans xs).map f := by
  induction spans with
  | nil => rfl
  | cons s rest ih => rw [pick_cons, pick_cons, ih, List.map_append, List.map_drop, List.map_take]

theorem length_pick {lo hi : Nat} {spans : List Span} (within : Within lo spans hi) {xs : List α} (long : hi ≤ xs.length) :
    (pick spans xs).length = size spans := by
  induction within with
  | nil => rfl
  | cons start forward rest ih =>
    rename_i s rest'
    have := rest.le
    rw [pick_cons, List.length_append, ih long, List.length_drop, List.length_take, size, size, List.map_cons, List.sum_cons]
    omega

theorem range'_split {a b c : Nat} (ab : a ≤ b) (bc : b ≤ c) :
    List.range' a (c - a) = List.range' a (b - a) ++ List.range' b (c - b) := by
  have start : b = a + (b - a) := by omega
  rw [show c - a = (b - a) + (c - b) by omega, ← List.range'_append_1, ← start]

theorem window_range (f : Nat → α) {a b n : Nat} (long : b ≤ n) :
    (((List.range n).map f).take b).drop a = (List.range' a (b - a)).map f := by
  rw [← List.map_take, ← List.map_drop, List.take_range, Nat.min_eq_left long, List.range_eq_range', List.drop_range']
  congr 2
  omega

section Cons

variable {lo hi : Nat} {s : Span} {rest : List Span} {k : Nat}

theorem not_covers_before (within : Within s.2 rest hi) (forward : s.1 ≤ s.2) (mem : k ∈ List.range' lo (s.1 - lo)) :
    ¬Covers (s :: rest) k := by
  have before := List.mem_range'_1.1 mem
  rw [covers_cons, not_or]
  refine ⟨by omega, ?_⟩
  intro there
  have := (within.bounds there).1
  omega

theorem covers_here (mem : k ∈ List.range' s.1 (s.2 - s.1)) : Covers (s :: rest) k := by
  have inside := List.mem_range'_1.1 mem
  rw [covers_cons]
  exact Or.inl ⟨by omega, by omega⟩

theorem covers_after (mem : k ∈ List.range' s.2 (hi - s.2)) : Covers (s :: rest) k ↔ Covers rest k := by
  have after := List.mem_range'_1.1 mem
  rw [covers_cons]
  exact ⟨fun h => h.resolve_left (by omega), Or.inr⟩

end Cons

/-- Picking by position, whatever the spans are that have the positions. -/
theorem pick_eq_filter {lo hi : Nat} {spans : List Span} (within : Within lo spans hi) (f : Nat → α) {n : Nat}
    (long : hi ≤ n) :
    pick spans ((List.range n).map f) = ((List.range' lo (hi - lo)).filter fun k => decide (Covers spans k)).map f := by
  induction within with
  | nil =>
    rw [List.filter_eq_nil_iff.2]
    · rfl
    · intro k _
      simpa using not_covers_nil k
  | cons start forward rest ih =>
    have bound := rest.le
    rw [range'_split (start.trans forward) bound, range'_split start forward, List.filter_append, List.filter_append,
      List.filter_eq_nil_iff.2, List.filter_eq_self.2, List.nil_append, List.map_append]
    · rw [pick_cons, window_range f (bound.trans long), ih long]
      refine congrArg (_ ++ List.map f ·) (List.filter_congr fun k mem => ?_)
      rw [decide_eq_decide]
      exact (covers_after mem).symm
    · intro k mem
      exact decide_eq_true (covers_here mem)
    · intro k mem
      simpa using not_covers_before rest forward mem

/-- **What was picked goes back to its place.** -/
theorem spread_pick {lo hi : Nat} {spans : List Span} (within : Within lo spans hi) (fill : α) (f : Nat → α) {n : Nat}
    (long : hi ≤ n) :
    spread fill lo spans hi (pick spans ((List.range n).map f)) =
      (List.range' lo (hi - lo)).map fun k => if Covers spans k then f k else fill := by
  induction within with
  | nil =>
    rename_i lo hi _
    show List.replicate (hi - lo) fill = _
    refine (List.eq_replicate_iff.2 ⟨by simp, ?_⟩).symm
    intro x mem
    obtain ⟨k, _, rfl⟩ := List.mem_map.1 mem
    exact if_neg (not_covers_nil k)
  | cons start forward rest ih =>
    rename_i lo hi s rest'
    have bound := rest.le
    have before : (List.range' lo (s.1 - lo)).map (fun k => if Covers (s :: rest') k then f k else fill) =
        List.replicate (s.1 - lo) fill := by
      refine List.eq_replicate_iff.2 ⟨by simp, ?_⟩
      intro x mem
      obtain ⟨k, inside, rfl⟩ := List.mem_map.1 mem
      exact if_neg (not_covers_before rest forward inside)
    have here : (List.range' s.1 (s.2 - s.1)).map (fun k => if Covers (s :: rest') k then f k else fill) =
        (List.range' s.1 (s.2 - s.1)).map f :=
      List.map_congr_left fun k mem => if_pos (covers_here mem)
    have after : (List.range' s.2 (hi - s.2)).map (fun k => if Covers (s :: rest') k then f k else fill) =
        (List.range' s.2 (hi - s.2)).map fun k => if Covers rest' k then f k else fill :=
      List.map_congr_left fun k mem => by simp only [covers_after mem]
    have length : ((List.range' s.1 (s.2 - s.1)).map f).length = s.2 - s.1 := by
      rw [List.length_map, List.length_range']
    rw [range'_split (start.trans forward) bound, range'_split start forward, List.map_append, List.map_append, before, here,
      after, pick_cons, window_range f (bound.trans long), spread, List.take_left' length, List.drop_left' length, ih long,
      List.append_assoc]

theorem mem_spread {fill y : α} {lo hi : Nat} {spans : List Span} {ys : List α} (mem : y ∈ spread fill lo spans hi ys) :
    y = fill ∨ y ∈ ys := by
  induction spans generalizing lo ys with
  | nil => exact Or.inl (List.eq_of_mem_replicate mem)
  | cons s rest ih =>
    rcases List.mem_append.1 mem with before | mem
    · exact Or.inl (List.eq_of_mem_replicate before)
    · rcases List.mem_append.1 mem with here | after
      · exact Or.inr (List.mem_of_mem_take here)
      · exact (ih after).imp_right List.mem_of_mem_drop

/-- Nothing is put on a position without a span. -/
theorem getD_spread {fill : α} {lo hi : Nat} {spans : List Span} (within : Within lo spans hi) {ys : List α}
    (whole : ys.length = size spans) {k : Nat} (late : lo ≤ k) (outside : ¬Covers spans k) :
    (spread fill lo spans hi ys).getD (k - lo) fill = fill := by
  induction within generalizing ys with
  | nil =>
    rw [spread, List.getD_eq_getElem?_getD, List.getElem?_replicate]
    split
    · rfl
    · rfl
  | cons start forward rest ih =>
    rename_i lo hi s rest'
    rw [covers_cons, not_or] at outside
    rw [size, List.map_cons, List.sum_cons] at whole
    change ys.length = s.2 - s.1 + size rest' at whole
    rw [spread, List.getD_eq_getElem?_getD, List.getElem?_append, List.length_replicate]
    split
    · rename_i early
      rw [List.getElem?_replicate, if_pos early]
      rfl
    · rename_i later
      have after : s.2 ≤ k := by omega
      rw [List.getElem?_append_right (by rw [List.length_take]; omega), List.length_take]
      have index : k - lo - (s.1 - lo) - min (s.2 - s.1) ys.length = k - s.2 := by omega
      rw [index, ← List.getD_eq_getElem?_getD]
      exact ih (by rw [List.length_drop]; omega) after outside.2

end Lists

end Span
