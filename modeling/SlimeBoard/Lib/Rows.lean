import Mathlib

/-!
# Rows of a list

`xs.toChunks n` cuts a list into rows of `n`. The entry at `i` lies in row `i / n`, at place
`i % n`. Where entries have the same label exactly if they lie in the same row, a row is what
has one label.
-/

namespace Rows

variable {α β : Type}

theorem toChunks_go {n : Nat} (pos : 0 < n) (xs : List α) (row : Array α) (rows : Array (List α)) (short : row.size ≤ n) :
    List.toChunks.go n xs row rows =
      rows.toList ++ (row.toList ++ xs).take n :: ((row.toList ++ xs).drop n).toChunks n := by
  induction xs generalizing row rows with
  | nil =>
    have whole : row.toList.length ≤ n := short
    rw [List.toChunks.go, List.append_nil, List.take_of_length_le whole, List.drop_eq_nil_of_le whole, List.toChunks]
    exact Array.toList_push
  | cons x xs ih =>
    have one : (#[x] : Array α).size ≤ n := pos
    rw [List.toChunks.go]
    by_cases full : row.size = n
    · have length : row.toList.length = n := full
      have again : (x :: xs).toChunks n = (x :: xs).take n :: ((x :: xs).drop n).toChunks n := by
        have start : (x :: xs).toChunks n = List.toChunks.go n xs #[x] #[] := by
          obtain ⟨m, rfl⟩ := Nat.exists_eq_succ_of_ne_zero pos.ne'
          rfl
        rw [start, ih _ _ one]
        rfl
      rw [if_pos (beq_iff_eq.2 full), List.take_left' length, List.drop_left' length, again]
      refine (ih _ _ one).trans ?_
      rw [Array.toList_push, List.append_assoc]
      rfl
    · rw [if_neg (mt beq_iff_eq.1 full), ih _ _ (by rw [Array.size_push]; omega), Array.toList_push, List.append_assoc]
      rfl

/-- The first row, and the rows of the rest. -/
theorem toChunks_eq {n : Nat} (pos : 0 < n) {xs : List α} (some : xs ≠ []) :
    xs.toChunks n = xs.take n :: (xs.drop n).toChunks n := by
  obtain ⟨x, xs, rfl⟩ := List.exists_cons_of_ne_nil some
  obtain ⟨m, rfl⟩ := Nat.exists_eq_succ_of_ne_zero pos.ne'
  exact (toChunks_go pos xs #[x] #[] pos).trans rfl

theorem flatten_toChunks {n : Nat} (pos : 0 < n) (xs : List α) : (xs.toChunks n).flatten = xs := by
  induction h : xs.length using Nat.strong_induction_on generalizing xs with
  | _ _ ih =>
    subst h
    cases xs with
    | nil => rfl
    | cons x xs =>
      rw [toChunks_eq pos (List.cons_ne_nil x xs), List.flatten_cons, ih _ (by rw [List.length_drop, List.length_cons]; omega) _ rfl,
        List.take_append_drop]

/-- A list of whole rows. -/
theorem length_toChunks {n : Nat} (pos : 0 < n) {xs : List α} (whole : n ∣ xs.length) :
    ∀ row ∈ xs.toChunks n, row.length = n := by
  induction h : xs.length using Nat.strong_induction_on generalizing xs with
  | _ _ ih =>
    subst h
    cases xs with
    | nil => exact fun row mem => absurd mem List.not_mem_nil
    | cons x xs =>
      have long := Nat.le_of_dvd (Nat.succ_pos xs.length) whole
      intro row mem
      rw [toChunks_eq pos (List.cons_ne_nil x xs)] at mem
      obtain rfl | mem := List.mem_cons.1 mem
      · rw [List.length_take, List.length_cons, Nat.min_eq_left long]
      · have rest : n ∣ ((x :: xs).drop n).length := by
          rw [List.length_drop]
          exact Nat.dvd_sub whole (Nat.dvd_refl n)
        exact ih _ (by rw [List.length_drop, List.length_cons]; omega) rest rfl row mem

/-- The row of the entry at `i`. -/
def row (n : Nat) (xs : List α) (i : Nat) : List α := (xs.drop (i / n * n)).take n

theorem row_getElem? {n : Nat} (pos : 0 < n) (xs : List α) (i : Nat) : (row n xs i)[i % n]? = xs[i]? := by
  rw [row, List.getElem?_take_of_lt (Nat.mod_lt i pos), List.getElem?_drop, Nat.div_add_mod' i n]

/-- **A function of each row, entry by entry.** -/
theorem flatMap_getElem? {n : Nat} (pos : 0 < n) {f : List α → List β} (keeps : ∀ row, (f row).length = row.length)
    (xs : List α) (i : Nat) : ((xs.toChunks n).flatMap f)[i]? = (f (row n xs i))[i % n]? := by
  induction h : xs.length using Nat.strong_induction_on generalizing xs i with
  | _ _ ih =>
    subst h
    cases xs with
    | nil =>
      have none : f [] = [] := List.length_eq_zero_iff.1 (keeps [])
      simp [row, List.toChunks, none]
    | cons x xs =>
      have size : (f ((x :: xs).take n)).length = min n (x :: xs).length := by rw [keeps, List.length_take]
      rw [toChunks_eq pos (List.cons_ne_nil x xs), List.flatMap_cons]
      by_cases first : i < n
      · have here : i / n * n = 0 := by rw [Nat.div_eq_of_lt first, Nat.zero_mul]
        rw [row, here, List.drop_zero, Nat.mod_eq_of_lt first]
        by_cases within : i < (x :: xs).length
        · rw [List.getElem?_append_left (by omega)]
        · have nothing : (x :: xs).drop n = [] := List.drop_eq_nil_of_le (by omega)
          rw [nothing, List.toChunks, List.flatMap_nil, List.append_nil]
      · obtain ⟨j, rfl⟩ := Nat.exists_eq_add_of_le (Nat.le_of_not_lt first)
        have next : (n + j) / n * n = n + j / n * n := by rw [Nat.add_div_left j pos, Nat.succ_mul, Nat.add_comm]
        rw [row, next, ← List.drop_drop, Nat.add_mod_left]
        by_cases short : (x :: xs).length ≤ n
        · have nothing : (x :: xs).drop n = [] := List.drop_eq_nil_of_le short
          have none : f [] = [] := List.length_eq_zero_iff.1 (keeps [])
          rw [nothing, List.toChunks, List.flatMap_nil, List.append_nil, List.drop_nil, List.take_nil, none,
            List.getElem?_eq_none (by omega), List.getElem?_nil]
        · have later := ih _ (by rw [List.length_drop]; omega) ((x :: xs).drop n) j rfl
          rw [List.getElem?_append_right (by omega), size, Nat.min_eq_left (by omega), Nat.add_sub_cancel_left, later, row]

theorem div_eq_iff {n : Nat} (pos : 0 < n) (i j : Nat) : j / n = i ↔ i * n ≤ j ∧ j < i * n + n := by
  rw [← Nat.le_div_iff_mul_le pos, ← Nat.succ_mul, ← Nat.div_lt_iff_lt_mul pos]
  omega

theorem mem_row {n : Nat} (pos : 0 < n) {xs : List α} {i : Nat} {x : α} :
    x ∈ row n xs i ↔ ∃ j, j / n = i / n ∧ xs[j]? = some x := by
  rw [row, List.mem_iff_getElem?]
  constructor
  · rintro ⟨k, here⟩
    rw [List.getElem?_take, List.getElem?_drop] at here
    split at here
    · rename_i lt
      exact ⟨_, (div_eq_iff pos _ _).2 ⟨Nat.le_add_right .., Nat.add_lt_add_left lt _⟩, here⟩
    · cases here
  · rintro ⟨j, same, here⟩
    obtain ⟨start, stop⟩ := (div_eq_iff pos _ _).1 same
    refine ⟨j - i / n * n, ?_⟩
    rw [List.getElem?_take_of_lt (by omega), List.getElem?_drop, Nat.add_sub_cancel' start, here]

/-- What holds exactly on a span keeps the span. -/
theorem filter_span {p : α → Bool} {xs : List α} (start size : Nat)
    (holds : ∀ j x, xs[j]? = some x → (p x = true ↔ start ≤ j ∧ j < start + size)) :
    xs.filter p = (xs.drop start).take size := by
  have before : (xs.take start).filter p = [] := List.filter_eq_nil_iff.2 fun x mem yes => by
    obtain ⟨j, lt, rfl⟩ := List.mem_iff_getElem.1 mem
    rw [List.length_take] at lt
    have here := holds j _ (List.getElem?_eq_getElem (by omega))
    rw [List.getElem_take] at yes
    exact absurd (here.1 yes).1 (by omega)
  have inside : ((xs.drop start).take size).filter p = (xs.drop start).take size := List.filter_eq_self.2 fun x mem => by
    obtain ⟨j, lt, rfl⟩ := List.mem_iff_getElem.1 mem
    rw [List.length_take, List.length_drop] at lt
    rw [List.getElem_take, List.getElem_drop]
    exact (holds (start + j) _ (List.getElem?_eq_getElem (by omega))).2 ⟨by omega, by omega⟩
  have after : ((xs.drop start).drop size).filter p = [] := List.filter_eq_nil_iff.2 fun x mem yes => by
    obtain ⟨j, lt, rfl⟩ := List.mem_iff_getElem.1 mem
    rw [List.length_drop, List.length_drop] at lt
    rw [List.getElem_drop, List.getElem_drop] at yes
    exact absurd ((holds _ _ (List.getElem?_eq_getElem (by omega))).1 yes).2 (by omega)
  calc xs.filter p = (xs.take start ++ ((xs.drop start).take size ++ (xs.drop start).drop size)).filter p := by
        rw [List.take_append_drop, List.take_append_drop]
    _ = (xs.drop start).take size := by
        rw [List.filter_append, List.filter_append, before, inside, after, List.nil_append, List.append_nil]

/-- **The entries with the label of entry `i` are the row of `i`.** -/
theorem filter_zip [DecidableEq β] {n : Nat} (pos : 0 < n) {labels : List β} {xs : List α} (length : labels.length = xs.length)
    {i : Nat} {label : β} (same : ∀ j l, labels[j]? = some l → (l = label ↔ j / n = i / n)) :
    ((labels.zip xs).filter fun p => decide (p.1 = label)).map Prod.snd = row n xs i := by
  have span : (labels.zip xs).filter (fun p => decide (p.1 = label)) = ((labels.zip xs).drop (i / n * n)).take n :=
    filter_span _ _ fun j p here => by
      obtain ⟨here, _⟩ := List.getElem?_zip_eq_some.1 here
      rw [decide_eq_true_iff, same j p.1 here, div_eq_iff pos]
  rw [span, List.map_take, List.map_drop, List.map_snd_zip (by omega), row]

/-- The `r`-th slice of size `k`. -/
def slice (k r : Nat) (xs : List α) : List α := (xs.drop (r * k)).take k

/-- The slices in their order. -/
theorem flatMap_slice (k : Nat) (xs : List α) (n : Nat) :
    (List.range n).flatMap (fun r => slice k r xs) = xs.take (n * k) := by
  induction n with
  | zero => simp
  | succ n ih => rw [List.range_succ, List.flatMap_append, ih, Nat.succ_mul, List.take_add, List.flatMap_singleton, slice]

theorem slice_subset (k r : Nat) (xs : List α) : slice k r xs ⊆ xs := fun _ mem =>
  List.mem_of_mem_drop (List.mem_of_mem_take mem)

theorem slice_length {k r : Nat} {xs : List α} (within : (r + 1) * k ≤ xs.length) : (slice k r xs).length = k := by
  rw [Nat.succ_mul] at within
  rw [slice, List.length_take, List.length_drop]
  omega

/-- The pieces of a list that is put together of pieces of one size. -/
theorem slice_flatten {k r : Nat} {parts : List (List α)} (same : ∀ part ∈ parts, part.length = k) (lt : r < parts.length) :
    slice k r parts.flatten = parts[r] := by
  induction parts generalizing r with
  | nil => exact absurd lt (Nat.not_lt_zero r)
  | cons part parts ih =>
    have size := same part (List.mem_cons_self ..)
    rw [slice, List.flatten_cons]
    cases r with
    | zero => rw [Nat.zero_mul, List.drop_zero, List.take_left' size, List.getElem_cons_zero]
    | succ r =>
      rw [Nat.succ_mul, Nat.add_comm, ← List.drop_drop, List.drop_left' size, List.getElem_cons_succ]
      exact ih (fun other mem => same other (List.mem_cons_of_mem _ mem)) (Nat.lt_of_succ_lt_succ lt)

theorem toChunks_flatten {k : Nat} (pos : 0 < k) {parts : List (List α)} (same : ∀ part ∈ parts, part.length = k) :
    parts.flatten.toChunks k = parts := by
  induction parts with
  | nil => rfl
  | cons part parts ih =>
    have size := same part (List.mem_cons_self ..)
    have some : part ++ parts.flatten ≠ [] := by
      intro none
      rw [(List.append_eq_nil_iff.1 none).1, List.length_nil] at size
      omega
    rw [List.flatten_cons, toChunks_eq pos some, List.take_left' size, List.drop_left' size,
      ih fun other mem => same other (List.mem_cons_of_mem _ mem)]

end Rows
