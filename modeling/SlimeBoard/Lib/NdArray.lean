import SlimeBoard.Lib.PyDict
import SlimeBoard.Lib.Rows

/-!
# Arrays of any number of dimensions

An array is its shape and its entries in row-major order. A view keeps the entries; a transposition
of the dimensions after the first, a concatenation and a split along the second act on each block of
the first.
-/

structure NdArray (α : Type) where
  shape : List Nat
  data : List α
  size : data.length = shape.prod

namespace NdArray

open Rows

variable {α : Type}

theorem ext {t t' : NdArray α} (shape : t.shape = t'.shape) (data : t.data = t'.data) : t = t' := by
  cases t
  cases t'
  cases shape
  cases data
  rfl

/-! ## Blocks -/

theorem length_flatMap_range {f : Nat → List α} {n r : Nat} (size : ∀ k < n, (f k).length = r) :
    ((List.range n).flatMap f).length = n * r := by
  induction n with
  | zero => rw [Nat.zero_mul]; rfl
  | succ n ih =>
    rw [List.range_succ, List.flatMap_append, List.length_append, ih fun k lt => size k (lt.trans (Nat.lt_succ_self n)),
      List.flatMap_singleton, size n (Nat.lt_succ_self n), Nat.succ_mul]

theorem getElem?_flatMap_range {f : Nat → List α} {n r k m : Nat} (size : ∀ k < n, (f k).length = r) (lt : k < n) (lt' : m < r) :
    ((List.range n).flatMap f)[k * r + m]? = (f k)[m]? := by
  induction n with
  | zero => exact absurd lt (Nat.not_lt_zero k)
  | succ n ih =>
    have before := length_flatMap_range fun k lt => size k (Nat.lt_succ_of_lt lt)
    rw [List.range_succ, List.flatMap_append, List.flatMap_singleton]
    obtain less | same := Nat.lt_succ_iff_lt_or_eq.1 lt
    · have next : (k + 1) * r ≤ n * r := Nat.mul_le_mul_right r less
      rw [Nat.succ_mul] at next
      rw [List.getElem?_append_left (by rw [before]; omega)]
      exact ih (fun k lt => size k (Nat.lt_succ_of_lt lt)) less
    · subst same
      rw [List.getElem?_append_right (by rw [before]; omega), before, Nat.add_sub_cancel_left]

/-- A block of a list that is put together of blocks of one size. -/
theorem slice_flatMap_range {f : Nat → List α} {n r k : Nat} (size : ∀ k < n, (f k).length = r) (lt : k < n) :
    slice r k ((List.range n).flatMap f) = f k := by
  rw [List.flatMap_def, slice_flatten (r := k)]
  · rw [List.getElem_map, List.getElem_range]
  · intro part mem
    obtain ⟨j, there, rfl⟩ := List.mem_map.1 mem
    exact size j (List.mem_range.1 there)
  · rw [List.length_map, List.length_range]
    exact lt

theorem length_slice {r k n : Nat} {xs : List α} (size : xs.length = n * r) (lt : k < n) : (slice r k xs).length = r :=
  slice_length (size ▸ Nat.mul_le_mul_right r lt)

/-- The transpose of a `b` by `c` matrix of items of size `r`. -/
def transposeBlock (b c r : Nat) (xs : List α) : List α :=
  (List.range c).flatMap fun k => (List.range b).flatMap fun j => slice r (j * c + k) xs

theorem index_lt {b c j k : Nat} (lt : j < b) (lt' : k < c) : j * c + k < b * c := by
  have := Nat.mul_le_mul_right c (Nat.succ_le_of_lt lt)
  rw [Nat.succ_mul] at this
  omega

section Transpose

variable {b c r : Nat} {xs : List α} (size : xs.length = b * c * r)
include size

theorem length_column {k : Nat} (lt : k < c) : ((List.range b).flatMap fun j => slice r (j * c + k) xs).length = b * r :=
  length_flatMap_range fun _ lt' => length_slice size (index_lt lt' lt)

theorem length_transposeBlock : (transposeBlock b c r xs).length = c * b * r := by
  rw [transposeBlock, length_flatMap_range fun k lt => length_column size lt, Nat.mul_assoc]

theorem getElem?_transposeBlock {j k m : Nat} (hj : j < b) (hk : k < c) (hm : m < r) :
    (transposeBlock b c r xs)[(k * b + j) * r + m]? = xs[(j * c + k) * r + m]? := by
  have inner : j * r + m < b * r := index_lt hj hm
  have place : (k * b + j) * r + m = k * (b * r) + (j * r + m) := by ring
  rw [place, transposeBlock, getElem?_flatMap_range (fun k lt => length_column size lt) hk inner,
    getElem?_flatMap_range (fun _ lt' => length_slice size (index_lt lt' hk)) hj hm, slice,
    List.getElem?_take_of_lt hm, List.getElem?_drop]

/-- **Transposing twice** changes nothing. -/
theorem transposeBlock_transposeBlock : transposeBlock c b r (transposeBlock b c r xs) = xs := by
  have size' := length_transposeBlock size
  apply List.ext_getElem?
  intro i
  obtain lt | out := Nat.lt_or_ge i (b * c * r)
  · have hr : 0 < r := Nat.pos_of_ne_zero fun none => by rw [none, Nat.mul_zero] at lt; omega
    have row : i / r < b * c := (Nat.div_lt_iff_lt_mul hr).2 lt
    have hc : 0 < c := Nat.pos_of_ne_zero fun none => by rw [none, Nat.mul_zero] at row; exact absurd row (Nat.not_lt_zero _)
    have hj : i / r / c < b := (Nat.div_lt_iff_lt_mul hc).2 row
    have hk := Nat.mod_lt (i / r) hc
    have hm := Nat.mod_lt i hr
    have place : i = (i / r / c * c + i / r % c) * r + i % r := by rw [Nat.div_add_mod', Nat.div_add_mod']
    rw [place, getElem?_transposeBlock size' hk hj hm, getElem?_transposeBlock size hj hk hm]
  · rw [List.getElem?_eq_none (by rw [length_transposeBlock size']; exact out), List.getElem?_eq_none (size ▸ out)]

end Transpose

/-! ## Operations -/

/-- The shape that a `-1` leaves open is what the others leave of the size. -/
def resolve (size : Nat) (dims : List (Option Nat)) : Option (List Nat) :=
  let known := (dims.filterMap id).prod
  match dims.count none with
  | 0 => some (dims.filterMap id)
  | 1 => if known ≠ 0 ∧ known ∣ size then some (dims.map (·.getD (size / known))) else none
  | _ => none

theorem filterMap_known (known : List Nat) : (known.map some).filterMap id = known := by
  rw [List.filterMap_map, Function.id_comp]
  exact List.filterMap_some

theorem count_known (known : List Nat) : (known.map some).count none = 0 := by
  apply List.count_eq_zero.2
  intro mem
  obtain ⟨_, -, same⟩ := List.mem_map.1 mem
  cases same

theorem resolve_known (size : Nat) (shape : List Nat) : resolve size (shape.map some) = some shape := by
  rw [resolve, count_known, filterMap_known]
  rfl

/-- One open dimension takes what is left. -/
theorem resolve_open {size rest : Nat} {before after : List Nat} (known : before.prod * after.prod ≠ 0)
    (whole : size = before.prod * after.prod * rest) :
    resolve size (before.map some ++ none :: after.map some) = some (before ++ rest :: after) := by
  have one : (before.map some ++ none :: after.map some).count none = 1 := by
    rw [List.count_append, List.count_cons_self, count_known, count_known]
  have others : (before.map some ++ none :: after.map some).filterMap id = before ++ after := by
    rw [List.filterMap_append, filterMap_known, List.filterMap_cons_none rfl, filterMap_known]
  have left : size / (before.prod * after.prod) = rest := by rw [whole, Nat.mul_div_cancel_left _ (Nat.pos_of_ne_zero known)]
  rw [resolve, one, others, List.prod_append]
  rw [if_pos ⟨known, Dvd.intro _ whole.symm⟩, left, List.map_append, List.map_map, List.map_cons, List.map_map]
  simp only [Option.getD_none, Function.comp_def, Option.getD_some, List.map_id']

/-- `view` and `reshape`; `none` is `-1`. -/
def view (t : NdArray α) (dims : List (Option Nat)) : Py (NdArray α) :=
  match resolve t.data.length dims with
  | none => .error .runtimeError
  | some shape => if same : t.data.length = shape.prod then .ok ⟨shape, t.data, same⟩ else .error .runtimeError

theorem view_ok {t : NdArray α} {dims : List (Option Nat)} {shape : List Nat} (resolved : resolve t.data.length dims = some shape)
    (same : t.data.length = shape.prod) : t.view dims = .ok ⟨shape, t.data, same⟩ := by
  rw [view, resolved]
  exact dif_pos same

/-- A view with one open dimension. -/
theorem view_open {t : NdArray α} (before after : List Nat) (rest : Nat) (known : before.prod * after.prod ≠ 0)
    (whole : t.data.length = before.prod * after.prod * rest) :
    ∃ t', t.view (before.map some ++ none :: after.map some) = .ok t' ∧ t'.shape = before ++ rest :: after ∧ t'.data = t.data := by
  refine ⟨_, view_ok (resolve_open known whole) ?_, rfl, rfl⟩
  rw [whole, List.prod_append, List.prod_cons]
  ring

theorem view_known {t : NdArray α} (shape : List Nat) (whole : t.data.length = shape.prod) :
    ∃ t', t.view (shape.map some) = .ok t' ∧ t'.shape = shape ∧ t'.data = t.data :=
  ⟨_, view_ok (resolve_known _ shape) whole, rfl, rfl⟩

/-- `shape[i]` -/
def dim (t : NdArray α) (i : Nat) : Nat := t.shape.getD i 1

/-- `transpose(1, 2)` -/
def transpose12 (t : NdArray α) : Py (NdArray α) :=
  match same : t.shape with
  | a :: b :: c :: rest =>
    .ok {
      shape := a :: c :: b :: rest
      data := (List.range a).flatMap fun g => transposeBlock b c rest.prod (slice (b * c * rest.prod) g t.data)
      size := by
        have size : t.data.length = a * (b * c * rest.prod) := by
          rw [t.size, same]
          simp only [List.prod_cons, Nat.mul_assoc]
        rw [length_flatMap_range fun g lt => length_transposeBlock (length_slice size lt)]
        simp only [List.prod_cons, Nat.mul_assoc] }
  | _ => .error .indexError

theorem transpose12_ok {t : NdArray α} {a b c : Nat} {rest : List Nat} (shape : t.shape = a :: b :: c :: rest) :
    ∃ t', t.transpose12 = .ok t' ∧ t'.shape = a :: c :: b :: rest ∧
      t'.data = (List.range a).flatMap fun g => transposeBlock b c rest.prod (slice (b * c * rest.prod) g t.data) := by
  obtain ⟨_, data, size⟩ := t
  subst shape
  exact ⟨_, rfl, rfl, rfl⟩

/-- `flatten(1, 3)` -/
def flatten13 (t : NdArray α) : Py (NdArray α) :=
  match t.shape with
  | a :: b :: c :: d :: rest => t.view ((a :: b * c * d :: rest).map some)
  | _ => .error .indexError

theorem flatten13_ok {t : NdArray α} {a b c d : Nat} {rest : List Nat} (shape : t.shape = a :: b :: c :: d :: rest) :
    ∃ t', t.flatten13 = .ok t' ∧ t'.shape = a :: b * c * d :: rest ∧ t'.data = t.data := by
  have whole : t.data.length = (a :: b * c * d :: rest).prod := by
    rw [t.size, shape]
    simp only [List.prod_cons, Nat.mul_assoc]
  rw [flatten13, shape]
  exact view_known _ whole

/-- `flatten()` -/
def flatten (t : NdArray α) : NdArray α := ⟨[t.data.length], t.data, (Nat.mul_one _).symm⟩

theorem length_row {parts : List (NdArray α)} {a e g : Nat} (same : ∀ t ∈ parts, t.shape = [a, t.dim 1, e]) (lt : g < a) :
    (parts.flatMap fun t => slice (t.dim 1 * e) g t.data).length = (parts.map (·.dim 1)).sum * e := by
  induction parts with
  | nil => exact (Nat.zero_mul e).symm
  | cons t parts ih =>
    obtain ⟨head, rest⟩ := List.forall_mem_cons.1 same
    have size : t.data.length = a * (t.dim 1 * e) := by
      rw [t.size, head]
      simp only [List.prod_cons, List.prod_nil, Nat.mul_one]
    rw [List.flatMap_cons, List.length_append, ih rest, length_slice size lt, List.map_cons, List.sum_cons, Nat.add_mul]

/-- `torch.cat(parts, dim=1)` of arrays of three dimensions, the first and last of which are `a` and `e` -/
def cat1 (a e : Nat) (parts : List (NdArray α)) : Py (NdArray α) :=
  if same : ∀ t ∈ parts, t.shape = [a, t.dim 1, e] then
    .ok {
      shape := [a, (parts.map (·.dim 1)).sum, e]
      data := (List.range a).flatMap fun g => parts.flatMap fun t => slice (t.dim 1 * e) g t.data
      size := by
        rw [length_flatMap_range fun g lt => length_row same lt]
        simp only [List.prod_cons, List.prod_nil, Nat.mul_one] }
  else .error .runtimeError

theorem cat1_ok {a e : Nat} {parts : List (NdArray α)} (same : ∀ t ∈ parts, t.shape = [a, t.dim 1, e]) :
    ∃ t', cat1 a e parts = .ok t' ∧ t'.shape = [a, (parts.map (·.dim 1)).sum, e] ∧
      t'.data = (List.range a).flatMap fun g => parts.flatMap fun t => slice (t.dim 1 * e) g t.data :=
  ⟨_, dif_pos same, rfl, rfl⟩

/-- What a split takes of a row of `b` items of size `r`. -/
def span (offset size r : Nat) (row : List α) : List α := (row.drop (offset * r)).take (size * r)

theorem length_span {offset size b r : Nat} {row : List α} (within : offset + size ≤ b) (length : row.length = b * r) :
    (span offset size r row).length = size * r := by
  have := Nat.mul_le_mul_right r within
  rw [Nat.add_mul] at this
  rw [span, List.length_take, List.length_drop, length]
  omega

/-- The parts of a split, from an offset on. -/
def splitFrom (a b : Nat) (rest : List Nat) (data : List α) (size : data.length = a * (b * rest.prod)) :
    (offset : Nat) → (sizes : List Nat) → offset + sizes.sum = b → List (NdArray α)
  | _, [], _ => []
  | offset, s :: sizes, whole =>
    { shape := a :: s :: rest
      data := (List.range a).flatMap fun g => span offset s rest.prod (slice (b * rest.prod) g data)
      size := by
        rw [List.sum_cons] at whole
        rw [length_flatMap_range fun g lt => length_span (by omega) (length_slice size lt)]
        simp only [List.prod_cons] } ::
      splitFrom a b rest data size (offset + s) sizes (by rw [← whole, List.sum_cons, Nat.add_assoc])

/-- `torch.split(t, sizes, dim=1)` -/
def split1 (t : NdArray α) (sizes : List Nat) : Py (List (NdArray α)) :=
  match same : t.shape with
  | a :: b :: rest =>
    if whole : 0 + sizes.sum = b then
      .ok (splitFrom a b rest t.data (by rw [t.size, same]; simp only [List.prod_cons]) 0 sizes whole)
    else .error .runtimeError
  | _ => .error .indexError

theorem split1_ok {t : NdArray α} {a b : Nat} {rest sizes : List Nat} (shape : t.shape = a :: b :: rest) (whole : 0 + sizes.sum = b) :
    ∃ size, t.split1 sizes = .ok (splitFrom a b rest t.data size 0 sizes whole) := by
  obtain ⟨_, data, size⟩ := t
  subst shape
  exact ⟨_, dif_pos whole⟩

theorem split1_error {t : NdArray α} {a b : Nat} {rest sizes : List Nat} (shape : t.shape = a :: b :: rest) (part : sizes.sum ≠ b) :
    t.split1 sizes = .error .runtimeError := by
  obtain ⟨_, data, size⟩ := t
  subst shape
  exact dif_neg fun whole => part ((Nat.zero_add _).symm.trans whole)

/-- The parts of a split in three. -/
theorem split1_three {t : NdArray α} {a b s₁ s₂ s₃ : Nat} {rest : List Nat} (shape : t.shape = a :: b :: rest)
    (whole : s₁ + s₂ + s₃ = b) :
    ∃ t₁ t₂ t₃, t.split1 [s₁, s₂, s₃] = .ok [t₁, t₂, t₃] ∧
      t₁.data = ((List.range a).flatMap fun g => span 0 s₁ rest.prod (slice (b * rest.prod) g t.data)) ∧
      t₂.data = ((List.range a).flatMap fun g => span s₁ s₂ rest.prod (slice (b * rest.prod) g t.data)) ∧
      t₃.data = ((List.range a).flatMap fun g => span (s₁ + s₂) s₃ rest.prod (slice (b * rest.prod) g t.data)) := by
  have sum : 0 + [s₁, s₂, s₃].sum = b := by simp only [List.sum_cons, List.sum_nil]; omega
  obtain ⟨size, run⟩ := split1_ok shape sum
  refine ⟨_, _, _, run, rfl, ?_, ?_⟩
  · simp only [Nat.zero_add]
  · simp only [Nat.zero_add]

end NdArray
