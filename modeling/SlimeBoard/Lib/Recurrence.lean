import Mathlib

/-!
# Affine recurrences

An entry `(d, w)` takes a state `s` to `d + w * s`. `scan` lists the states of a forward
run. `back` lists the solution of `a t = d t + w t * a (t + 1)`, which a run over the
reversed entries computes. With one weight it is a discounted sum.
-/

namespace Recurrence

variable {K : Type} [CommRing K]

/-- The states after each entry, from state `s`. -/
def scan : K → List (K × K) → List K
  | _, [] => []
  | s, e :: es => (e.1 + e.2 * s) :: scan (e.1 + e.2 * s) es

/-- The last state. -/
def final (s : K) (es : List (K × K)) : K := es.foldl (fun s e => e.1 + e.2 * s) s

/-- The solution of the backward recurrence, 0 after the last entry. -/
def back : List (K × K) → List K
  | [] => []
  | e :: es => (e.1 + e.2 * (back es).headD 0) :: back es

/-- `d 0 + w * d 1 + w ^ 2 * d 2 + ...` -/
def discounted (w : K) : List K → K
  | [] => 0
  | d :: ds => d + w * discounted w ds

section Scan

theorem length_scan (s : K) (es : List (K × K)) : (scan s es).length = es.length := by
  induction es generalizing s with
  | nil => rfl
  | cons e es ih => rw [scan, List.length_cons, ih, List.length_cons]

theorem scan_append (s : K) (es es' : List (K × K)) : scan s (es ++ es') = scan s es ++ scan (final s es) es' := by
  induction es generalizing s with
  | nil => rfl
  | cons e es ih =>
    rw [List.cons_append, scan, scan, ih, List.cons_append]
    rfl

theorem final_append (s : K) (es es' : List (K × K)) : final s (es ++ es') = final (final s es) es' := List.foldl_append

theorem getLastD_scan (s : K) (es : List (K × K)) : (scan s es).getLastD s = final s es := by
  induction es generalizing s with
  | nil => rfl
  | cons e es ih =>
    rw [scan, List.getLastD_cons, ih]
    rfl

/-- A loop that collects its states. -/
theorem foldl_scan {ι : Type} (step : ι → K → K) (entry : ι → K × K)
    (affine : ∀ i s, step i s = (entry i).1 + (entry i).2 * s) (is : List ι) (s : K) (acc : List K) :
    is.foldl (fun p i => (step i p.1, p.2 ++ [step i p.1])) (s, acc) =
      (final s (is.map entry), acc ++ scan s (is.map entry)) := by
  induction is generalizing s acc with
  | nil => exact Prod.ext rfl (List.append_nil _).symm
  | cons i is ih =>
    rw [List.foldl_cons, ih, affine, List.map_cons, scan, List.append_assoc]
    rfl

theorem scan_map {L : Type} [CommRing L] (f : K →+* L) (s : K) (es : List (K × K)) :
    (scan s es).map f = scan (f s) (es.map fun e => (f e.1, f e.2)) := by
  induction es generalizing s with
  | nil => rfl
  | cons e es ih =>
    rw [List.map_cons, scan, scan, List.map_cons, ih, map_add, map_mul]

/-- **With one weight each state is a sum of powers of it.** -/
theorem getD_scan (w s : K) (ds : List K) {j : Nat} (inside : j < ds.length) :
    (scan s (ds.map fun d => (d, w))).getD j 0 =
      ∑ i ∈ Finset.range (j + 1), w ^ (j - i) * ds.getD i 0 + w ^ (j + 1) * s := by
  induction ds generalizing s j with
  | nil => exact absurd inside (Nat.not_lt_zero j)
  | cons d ds ih =>
    rw [List.map_cons, scan]
    cases j with
    | zero => simp
    | succ j =>
      rw [List.getD_cons_succ, ih _ (Nat.lt_of_succ_lt_succ inside), Finset.sum_range_succ' _ (j + 1)]
      simp only [List.getD_cons_succ, List.getD_cons_zero, Nat.add_sub_add_right, Nat.sub_zero]
      ring

end Scan

section Back

theorem length_back (es : List (K × K)) : (back es).length = es.length := by
  induction es with
  | nil => rfl
  | cons e es ih => rw [back, List.length_cons, ih, List.length_cons]

theorem headD_back (es : List (K × K)) : (back es).headD 0 = final 0 es.reverse := by
  induction es with
  | nil => rfl
  | cons e es ih =>
    rw [List.reverse_cons, final_append, ← ih]
    rfl

/-- **A run over the reversed entries is the backward solution, reversed.** -/
theorem reverse_scan (es : List (K × K)) : (scan 0 es.reverse).reverse = back es := by
  induction es with
  | nil => rfl
  | cons e es ih =>
    rw [List.reverse_cons, scan_append, List.reverse_append, ih, ← headD_back]
    rfl

theorem back_map {L : Type} [CommRing L] (f : K →+* L) (es : List (K × K)) :
    (back es).map f = back (es.map fun e => (f e.1, f e.2)) := by
  rw [← reverse_scan, List.map_reverse, scan_map, map_zero, List.map_reverse, reverse_scan]

theorem getD_back (es : List (K × K)) {t : Nat} (inside : t < es.length) :
    (back es).getD t 0 = (es.getD t (0, 0)).1 + (es.getD t (0, 0)).2 * (back es).getD (t + 1) 0 := by
  induction es generalizing t with
  | nil => exact absurd inside (Nat.not_lt_zero t)
  | cons e es ih =>
    rw [back]
    cases t with
    | zero =>
      rw [List.getD_cons_zero, List.getD_cons_zero, List.getD_cons_succ]
      cases back es with
      | nil => rfl
      | cons a as => rfl
    | succ t =>
      rw [List.getD_cons_succ, List.getD_cons_succ, List.getD_cons_succ]
      exact ih (Nat.lt_of_succ_lt_succ inside)

/-- Entries without an offset at the end change nothing before them. -/
theorem back_append (es : List (K × K)) {pad : List (K × K)} (zero : ∀ e ∈ pad, e.1 = 0) :
    back (es ++ pad) = back es ++ List.replicate pad.length 0 := by
  have padded : back pad = List.replicate pad.length 0 := by
    induction pad with
    | nil => rfl
    | cons e pad ih =>
      have rest := ih fun e mem => zero e (List.mem_cons_of_mem _ mem)
      have head : (List.replicate pad.length (0 : K)).headD 0 = 0 := by
        cases pad.length with
        | zero => rfl
        | succ k => rfl
      rw [back, rest, head, zero e (List.mem_cons_self ..), mul_zero, add_zero]
      rfl
  induction es with
  | nil => exact padded
  | cons e es ih =>
    have head : (back es ++ List.replicate pad.length (0 : K)).headD 0 = (back es).headD 0 := by
      cases back es with
      | nil =>
        cases pad.length with
        | zero => rfl
        | succ k => rfl
      | cons a as => rfl
    rw [List.cons_append, back, ih, head, back, List.cons_append]

/-- **Columns without an offset at the end of a table** change nothing before them. -/
theorem take_back_range {L T : Nat} (short : L ≤ T) {entry entry' : Nat → K × K} (same : ∀ t < L, entry t = entry' t)
    (zero : ∀ t, L ≤ t → (entry t).1 = 0) :
    (back ((List.range T).map entry)).take L = back ((List.range L).map entry') := by
  obtain ⟨k, rfl⟩ := Nat.exists_eq_add_of_le short
  rw [List.range_add, List.map_append, back_append, List.take_left']
  · refine congrArg back (List.map_congr_left fun t mem => ?_)
    exact same t (List.mem_range.1 mem)
  · rw [length_back, List.length_map, List.length_range]
  · intro e mem
    rw [List.map_map] at mem
    obtain ⟨t, _, rfl⟩ := List.mem_map.1 mem
    exact zero _ (Nat.le_add_right L t)

/-- A backward loop that writes its states into a vector. -/
theorem foldl_set (es : List (K × K)) {step : Nat → K → K}
    (affine : ∀ t < es.length, ∀ s, step t s = (es.getD t (0, 0)).1 + (es.getD t (0, 0)).2 * s) {m : Nat} (short : m ≤ es.length) :
    (List.range m).reverse.foldl (fun p t => (step t p.1, p.2.set t (step t p.1)))
      ((back (es.drop m)).headD 0, List.replicate m 0 ++ back (es.drop m)) = ((back es).headD 0, back es) := by
  induction m with
  | zero => rfl
  | succ m ih =>
    have here : back (es.drop m) = step m ((back (es.drop (m + 1))).headD 0) :: back (es.drop (m + 1)) := by
      rw [List.drop_eq_getElem_cons short, back, affine m short, List.getD_eq_getElem?_getD, List.getElem?_eq_getElem short]
      rfl
    have write (x : K) : (List.replicate (m + 1) 0 ++ back (es.drop (m + 1))).set m x =
        List.replicate m 0 ++ x :: back (es.drop (m + 1)) := by
      rw [List.replicate_succ', List.append_assoc, List.set_append_right _ _ (by rw [List.length_replicate]),
        List.length_replicate, Nat.sub_self]
      rfl
    rw [List.range_succ, List.reverse_append, List.reverse_singleton, List.singleton_append, List.foldl_cons, ← ih (by omega),
      here]
    dsimp only
    rw [write]
    rfl

end Back

section Discounted

theorem discounted_append (w : K) (ds ds' : List K) :
    discounted w (ds ++ ds') = discounted w ds + w ^ ds.length * discounted w ds' := by
  induction ds with
  | nil => simp [discounted]
  | cons d ds ih =>
    rw [List.cons_append, discounted, ih, discounted, List.length_cons]
    ring

theorem discounted_eq_sum (w : K) (ds : List K) :
    discounted w ds = ∑ k ∈ Finset.range ds.length, w ^ k * ds.getD k 0 := by
  induction ds with
  | nil => rfl
  | cons d ds ih =>
    rw [discounted, ih, List.length_cons, Finset.sum_range_succ', Finset.mul_sum, add_comm]
    refine congrArg₂ _ (Finset.sum_congr rfl fun k _ => ?_) ?_
    · rw [List.getD_cons_succ, pow_succ']
      ring
    · rw [pow_zero, one_mul, List.getD_cons_zero]

/-- **With one weight the backward solution is a discounted sum.** -/
theorem getD_back_const (w : K) (ds : List K) (t : Nat) :
    (back (ds.map fun d => (d, w))).getD t 0 = discounted w (ds.drop t) := by
  have head (ds : List K) : (back (ds.map fun d => (d, w))).headD 0 = discounted w ds := by
    induction ds with
    | nil => rfl
    | cons d ds ih =>
      rw [List.map_cons, back, discounted, ← ih]
      rfl
  induction ds generalizing t with
  | nil => simp [back, discounted]
  | cons d ds ih =>
    cases t with
    | zero =>
      rw [List.drop_zero, ← head, List.map_cons, back]
      rfl
    | succ t => rw [List.map_cons, back, List.getD_cons_succ, List.drop_succ_cons, ih]

end Discounted

end Recurrence
