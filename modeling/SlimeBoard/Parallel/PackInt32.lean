import SlimeBoard.Lib.BitFields
import SlimeBoard.Lib.PyDict

/-!
# Packing of quantized weights into words

`pack_to_int32` packs the entries of each row, as many as fit, into words of 32 bits. The fields are
shifted and added in wrapping arithmetic, and each is read back from its place.
-/

namespace SlimeBoard.PackInt32

open BitFields

/-- A tensor of two dimensions. -/
structure Tensor2 (α : Type) where
  rows : Nat
  cols : Nat
  entry : Matrix (Fin rows) (Fin cols) α

namespace Tensor2

variable {α β : Type}

def map (f : α → β) (t : Tensor2 α) : Tensor2 β := ⟨t.rows, t.cols, t.entry.map f⟩

/-- `t.transpose(0, 1)` -/
def transpose (t : Tensor2 α) : Tensor2 α := ⟨t.cols, t.rows, t.entry.transpose⟩

/-- `torch.nn.functional.pad`: zeros behind the columns, up to `cols` of them -/
def padTo (cols : Nat) (t : Tensor2 Int) : Tensor2 Int where
  rows := t.rows
  cols := cols
  entry := fun row col => if inside : col < t.cols then t.entry row ⟨col, inside⟩ else 0

def get? (t : Tensor2 α) (row col : Nat) : Option α :=
  if inside : row < t.rows ∧ col < t.cols then some (t.entry ⟨row, inside.1⟩ ⟨col, inside.2⟩) else none

theorem get?_of_lt {t : Tensor2 α} {row col : Nat} (hr : row < t.rows) (hc : col < t.cols) :
    t.get? row col = some (t.entry ⟨row, hr⟩ ⟨col, hc⟩) := dif_pos ⟨hr, hc⟩

theorem get?_eq_some {t : Tensor2 α} {row col : Nat} {x : α} :
    t.get? row col = some x ↔ ∃ (hr : row < t.rows) (hc : col < t.cols), t.entry ⟨row, hr⟩ ⟨col, hc⟩ = x := by
  unfold get?
  split
  · rename_i inside
    exact ⟨fun same => ⟨inside.1, inside.2, Option.some.inj same⟩, fun ⟨_, _, same⟩ => congrArg some same⟩
  · rename_i outside
    exact iff_of_false (by simp) fun ⟨hr, hc, _⟩ => outside ⟨hr, hc⟩

theorem get?_map (f : α → β) (t : Tensor2 α) (row col : Nat) : (t.map f).get? row col = (t.get? row col).map f := by
  by_cases inside : row < t.rows ∧ col < t.cols
  · rw [get?_of_lt inside.1 inside.2]
    exact dif_pos inside
  · have none : t.get? row col = none := dif_neg inside
    rw [none]
    exact dif_neg inside

end Tensor2

/-- The offset of the quantization. -/
def offset (numBits : Nat) (sym : Bool) : Int := if sym then 2 ^ (numBits - 1) else 0

/-- The tensor, turned if it is packed along its rows. -/
def along {α : Type} (packedDim : Nat) (t : Tensor2 α) : Tensor2 α := if packedDim = 0 then t.transpose else t

/-- The words of the padded rows: `view(rows, num_groups, pack_factor)`, the shifts and the sum. -/
def packRows (numBits packFactor numGroups : Nat) (value : Tensor2 Int) : Tensor2 (BitVec 32) :=
  let padded := value.padTo (numGroups * packFactor)
  { rows := value.rows
    cols := numGroups
    entry := fun row group =>
      let reshaped := (List.finRange packFactor).map fun k => BitVec.ofInt 32 (padded.entry row (finProdFinEquiv (group, k)))
      (reshaped.zipIdx.map fun field : BitVec 32 × Nat => (field.1 <<< (field.2 * numBits : Nat) : BitVec 32)).sum }

def packToInt32 (value : Tensor2 Int) (numBits packedDim : Nat) (sym : Bool) : Py (Tensor2 (BitVec 32)) :=
  if 8 < numBits then .error .valueError
  else if numBits < 1 then .error .valueError
  else
    -- a sum that leaves `int8` wraps as the conversion to `uint8` does
    let value := if sym then value.map fun v => (v + offset numBits sym) % 256 else value
    let packFactor := 32 / numBits
    let value := along packedDim value
    let numGroups := (value.cols + packFactor - 1) / packFactor
    .ok (along packedDim (packRows numBits packFactor numGroups value))

/-- The range of the quantized entries. -/
def InRange (numBits : Nat) (sym : Bool) (v : Int) : Prop :=
  if sym then -2 ^ (numBits - 1) ≤ v ∧ v ≤ 2 ^ (numBits - 1) - 1 else 0 ≤ v ∧ v < 2 ^ numBits

instance (numBits : Nat) (sym : Bool) (v : Int) : Decidable (InRange numBits sym v) := by
  unfold InRange
  infer_instance

/-- The words hold the entries of the rows, and nothing else. -/
structure Packs (numBits : Nat) (offset : Int) (value : Tensor2 Int) (packed : Tensor2 (BitVec 32)) : Prop where
  rows : packed.rows = value.rows
  cols : packed.cols = (value.cols + 32 / numBits - 1) / (32 / numBits)
  entries : ∀ (row col : Nat) (v : Int), value.get? row col = some v → ∃ word, packed.get? row (col / (32 / numBits)) = some word ∧
    (field numBits (col % (32 / numBits)) word : Int) = v + offset
  padding : ∀ (row group : Nat) (word : BitVec 32), packed.get? row group = some word → ∀ k < 32 / numBits,
    value.cols ≤ group * (32 / numBits) + k → field numBits k word = 0
  unused : ∀ (row group : Nat) (word : BitVec 32), packed.get? row group = some word → ∀ bit, 32 / numBits * numBits ≤ bit →
    word.getLsbD bit = false

section Rows

variable {numBits : Nat} {value : Tensor2 Int} {numGroups : Nat}

/-- The fields of a word. -/
def fields (packFactor numGroups : Nat) (value : Tensor2 Int) (row : Fin value.rows) (group : Fin numGroups) : List (BitVec 32) :=
  (List.finRange packFactor).map fun k =>
    BitVec.ofInt 32 ((value.padTo (numGroups * packFactor)).entry row (finProdFinEquiv (group, k)))

theorem length_fields {packFactor : Nat} (row : Fin value.rows) (group : Fin numGroups) :
    (fields packFactor numGroups value row group).length = packFactor := by
  rw [fields, List.length_map, List.length_finRange]

theorem fields_getElem? {packFactor k : Nat} (row : Fin value.rows) (group : Fin numGroups) (lt : k < packFactor) :
    (fields packFactor numGroups value row group)[k]? =
      some (BitVec.ofInt 32 ((value.get? row (group * packFactor + k)).getD 0)) := by
  have same : k + packFactor * group.1 = group.1 * packFactor + k := by rw [Nat.mul_comm, Nat.add_comm]
  have padded (col : Fin (numGroups * packFactor)) : (value.padTo (numGroups * packFactor)).entry row col =
      (value.get? row col).getD 0 := by
    rw [Tensor2.get?]
    by_cases inside : col.1 < value.cols
    · rw [dif_pos ⟨row.2, inside⟩]
      exact dif_pos inside
    · rw [dif_neg fun both => inside both.2]
      exact dif_neg inside
  rw [fields, List.getElem?_map, List.getElem?_eq_getElem (by rwa [List.length_finRange]), List.getElem_finRange,
    Option.map_some, padded, finProdFinEquiv_apply_val]
  simp only [Fin.val_cast, same]

/-- The entries are numbers of `numBits` bits. -/
def Unsigned (numBits : Nat) (value : Tensor2 Int) : Prop :=
  ∀ (row col : Nat) (v : Int), value.get? row col = some v → 0 ≤ v ∧ v < 2 ^ numBits

theorem toNat_ofInt {v : Int} (bits : numBits ≤ 8) (low : 0 ≤ v) (high : v < 2 ^ numBits) :
    ((BitVec.ofInt 32 v).toNat : Int) = v ∧ (BitVec.ofInt 32 v).toNat < 2 ^ numBits := by
  obtain ⟨n, rfl⟩ := Int.eq_ofNat_of_zero_le low
  have small : n < 2 ^ numBits := by exact_mod_cast high
  have word : 2 ^ numBits ≤ 2 ^ 32 := Nat.pow_le_pow_right Nat.two_pos (by omega)
  have number : (BitVec.ofInt 32 (n : Int)).toNat = n := by
    rw [BitVec.ofInt_natCast, BitVec.toNat_ofNat, Nat.mod_eq_of_lt (small.trans_le word)]
  exact ⟨congrArg Int.ofNat number, number.trans_lt small⟩

theorem getD_range (unsigned : Unsigned numBits value) (row col : Nat) :
    0 ≤ (value.get? row col).getD 0 ∧ (value.get? row col).getD 0 < 2 ^ numBits := by
  rcases here : value.get? row col with _ | v
  · exact ⟨Int.le_refl 0, Int.pow_pos (by decide)⟩
  · exact unsigned row col v here

theorem fields_small (bits : numBits ≤ 8) (unsigned : Unsigned numBits value) {packFactor : Nat} (row : Fin value.rows)
    (group : Fin numGroups) : ∀ f ∈ fields packFactor numGroups value row group, f.toNat < 2 ^ numBits := by
  intro f mem
  obtain ⟨k, lt, here⟩ := List.mem_iff_getElem.1 mem
  rw [length_fields] at lt
  have read := fields_getElem? row group lt
  rw [List.getElem?_eq_getElem (by rwa [length_fields]), here] at read
  rw [Option.some.inj read]
  obtain ⟨low, high⟩ := getD_range unsigned row (group * packFactor + k)
  exact (toNat_ofInt bits low high).2

theorem fields_fit {numBits : Nat} (row : Fin value.rows) (group : Fin numGroups) :
    (fields (32 / numBits) numGroups value row group).length * numBits ≤ 32 := by
  rw [length_fields]
  exact Nat.div_mul_le_self ..

theorem packRows_word {packFactor row group : Nat} {word : BitVec 32}
    (here : (packRows numBits packFactor numGroups value).get? row group = some word) :
    ∃ (hr : row < value.rows) (hg : group < numGroups),
      word = place numBits 0 (fields packFactor numGroups value ⟨row, hr⟩ ⟨group, hg⟩) := by
  obtain ⟨hr, hg, same⟩ := Tensor2.get?_eq_some.1 here
  exact ⟨hr, hg, same.symm⟩

/-- A field of a word is the entry in its place, or zero. -/
theorem field_packRows (bits : 1 ≤ numBits ∧ numBits ≤ 8) (unsigned : Unsigned numBits value) {row group k : Nat}
    {word : BitVec 32} (here : (packRows numBits (32 / numBits) numGroups value).get? row group = some word)
    (lt : k < 32 / numBits) : (field numBits k word : Int) = (value.get? row (group * (32 / numBits) + k)).getD 0 := by
  obtain ⟨hr, hg, rfl⟩ := packRows_word here
  obtain ⟨low, high⟩ := getD_range unsigned row (group * (32 / numBits) + k)
  rw [field_place bits.1 (fields_small bits.2 unsigned ⟨row, hr⟩ ⟨group, hg⟩) (fields_fit _ _)
    (fields_getElem? ⟨row, hr⟩ ⟨group, hg⟩ lt)]
  exact (toNat_ofInt bits.2 low high).1

/-- **The words of the rows hold their entries.** -/
theorem packs_rows (bits : 1 ≤ numBits ∧ numBits ≤ 8) (unsigned : Unsigned numBits value) :
    Packs numBits 0 value (packRows numBits (32 / numBits) ((value.cols + 32 / numBits - 1) / (32 / numBits)) value) := by
  have factor : 0 < 32 / numBits := Nat.div_pos (by omega) bits.1
  refine ⟨rfl, rfl, ?_, ?_, ?_⟩
  · intro row col v here
    obtain ⟨hr, hc, -⟩ := Tensor2.get?_eq_some.1 here
    have group : col / (32 / numBits) < (value.cols + 32 / numBits - 1) / (32 / numBits) := by
      rw [Nat.div_lt_iff_lt_mul factor, Nat.mul_comm]
      have whole := Nat.lt_mul_div_succ (value.cols + 32 / numBits - 1) factor
      rw [Nat.mul_succ] at whole
      omega
    have word := Tensor2.get?_of_lt (t := packRows numBits (32 / numBits) _ value) hr group
    refine ⟨_, word, ?_⟩
    rw [field_packRows bits unsigned word (Nat.mod_lt _ factor), Nat.div_add_mod', here, Int.add_zero]
    rfl
  · intro row group word here k lt beyond
    have zero := field_packRows bits unsigned here lt
    rw [Tensor2.get?, dif_neg fun inside => absurd inside.2 (Nat.not_lt.2 beyond)] at zero
    exact Int.ofNat.inj zero
  · intro row group word here bit above
    obtain ⟨hr, hg, rfl⟩ := packRows_word here
    apply place_unused bits.1 (fields_small bits.2 unsigned _ _) (fields_fit _ _)
    rwa [length_fields]

end Rows

/-! ## The offset and the dimension -/

section Offset

variable {numBits : Nat} {sym : Bool} {value : Tensor2 Int}

theorem get?_along {α : Type} (packedDim : Nat) (t : Tensor2 α) (row col : Nat) :
    (along packedDim t).get? row col = if packedDim = 0 then t.get? col row else t.get? row col := by
  unfold along
  split
  · rw [Tensor2.get?, Tensor2.get?]
    by_cases inside : col < t.rows ∧ row < t.cols
    · rw [dif_pos inside, dif_pos ⟨inside.2, inside.1⟩]
      rfl
    · rw [dif_neg inside, dif_neg fun both => inside ⟨both.2, both.1⟩]
  · rfl

theorem along_along {α : Type} (packedDim : Nat) (t : Tensor2 α) : along packedDim (along packedDim t) = t := by
  unfold along
  split
  · rfl
  · rfl

theorem offset_range (bits : 1 ≤ numBits ∧ numBits ≤ 8) {v : Int} (range : InRange numBits sym v) :
    0 ≤ v + offset numBits sym ∧ v + offset numBits sym < 2 ^ numBits := by
  obtain ⟨n, rfl⟩ := Nat.exists_eq_add_of_le' bits.1
  cases sym
  · rw [InRange, if_neg Bool.false_ne_true] at range
    rw [offset, if_neg Bool.false_ne_true, Int.add_zero]
    exact range
  · rw [InRange, if_pos rfl, Nat.add_sub_cancel] at range
    rw [offset, if_pos rfl, Nat.add_sub_cancel, Int.pow_succ]
    omega

/-- The tensor after the offset. -/
def shifted (numBits : Nat) (sym : Bool) (value : Tensor2 Int) : Tensor2 Int :=
  if sym then value.map fun v => (v + offset numBits sym) % 256 else value

theorem packToInt32_eq (bits : 1 ≤ numBits ∧ numBits ≤ 8) (packedDim : Nat) :
    packToInt32 value numBits packedDim sym = .ok (along packedDim (packRows numBits (32 / numBits)
      (((along packedDim (shifted numBits sym value)).cols + 32 / numBits - 1) / (32 / numBits))
      (along packedDim (shifted numBits sym value)))) := by
  rw [packToInt32, if_neg (by omega), if_neg (by omega)]
  rfl

theorem get?_shifted (bits : 1 ≤ numBits ∧ numBits ≤ 8) (range : ∀ row col, InRange numBits sym (value.entry row col))
    (row col : Nat) : (shifted numBits sym value).get? row col = (value.get? row col).map (· + offset numBits sym) := by
  cases sym
  · have same : (fun v : Int => v + offset numBits false) = id := funext Int.add_zero
    rw [shifted, if_neg Bool.false_ne_true, same, Option.map_id, id]
  · rw [shifted, if_pos rfl, Tensor2.get?_map]
    rcases here : value.get? row col with _ | v
    · rfl
    · obtain ⟨hr, hc, rfl⟩ := Tensor2.get?_eq_some.1 here
      obtain ⟨low, high⟩ := offset_range bits (range ⟨row, hr⟩ ⟨col, hc⟩)
      have byte : (2 : Int) ^ numBits ≤ 256 := by
        exact_mod_cast (Nat.pow_le_pow_right Nat.two_pos bits.2 : 2 ^ numBits ≤ 2 ^ 8)
      exact congrArg some (Int.emod_eq_of_lt low (high.trans_le byte))

theorem unsigned_shifted (bits : 1 ≤ numBits ∧ numBits ≤ 8) (range : ∀ row col, InRange numBits sym (value.entry row col))
    (packedDim : Nat) : Unsigned numBits (along packedDim (shifted numBits sym value)) := by
  have each (row col : Nat) (v : Int) (here : (shifted numBits sym value).get? row col = some v) : 0 ≤ v ∧ v < 2 ^ numBits := by
    rw [get?_shifted bits range] at here
    obtain ⟨u, entry, rfl⟩ := Option.map_eq_some_iff.1 here
    obtain ⟨hr, hc, rfl⟩ := Tensor2.get?_eq_some.1 entry
    exact offset_range bits (range ⟨row, hr⟩ ⟨col, hc⟩)
  intro row col v here
  rw [get?_along] at here
  split at here
  · exact each col row v here
  · exact each row col v here

/-- The shape does not change with the offset. -/
theorem shape_shifted (packedDim : Nat) :
    (along packedDim (shifted numBits sym value)).rows = (along packedDim value).rows ∧
      (along packedDim (shifted numBits sym value)).cols = (along packedDim value).cols := by
  unfold along shifted
  cases sym
  · exact ⟨rfl, rfl⟩
  · split
    · exact ⟨rfl, rfl⟩
    · exact ⟨rfl, rfl⟩

/-- **Whatever the entries, their number of bits and the dimension, the words hold the entries with their
offset, and zeros.** -/
theorem pack_to_int32_lossless (bits : 1 ≤ numBits ∧ numBits ≤ 8) (packedDim : Nat)
    (range : ∀ row col, InRange numBits sym (value.entry row col)) :
    ∃ packed, packToInt32 value numBits packedDim sym = .ok packed ∧
      Packs numBits (offset numBits sym) (along packedDim value) (along packedDim packed) := by
  obtain ⟨rows, cols⟩ := @shape_shifted numBits sym value packedDim
  have packs := packs_rows bits (unsigned_shifted bits range packedDim)
  refine ⟨_, packToInt32_eq bits packedDim, ?_⟩
  rw [along_along]
  refine ⟨packs.rows.trans rows, packs.cols.trans (by rw [cols]), ?_, ?_, packs.unused⟩
  · intro row col v here
    have moved : (along packedDim (shifted numBits sym value)).get? row col = some (v + offset numBits sym) := by
      rw [get?_along] at here ⊢
      rw [get?_shifted bits range, get?_shifted bits range]
      split at here
      · rw [if_pos ‹_›, here]
        rfl
      · rw [if_neg ‹_›, here]
        rfl
    obtain ⟨word, there, same⟩ := packs.entries row col _ moved
    exact ⟨word, there, same.trans (Int.add_zero _)⟩
  · intro row group word here k lt beyond
    exact packs.padding row group word here k lt (cols ▸ beyond)

/-- Three signed entries of four bits. -/
def threeEntries : Tensor2 Int := ⟨1, 3, fun _ col => [-8, 7, -1].getD col 0⟩

theorem threeEntries_range : ∀ row col, InRange 4 true (threeEntries.entry row col) := by
  show ∀ (row : Fin 1) (col : Fin 3), InRange 4 true ([-8, 7, -1].getD col 0)
  decide

theorem pack_to_int32_lossless_three : ∃ packed, packToInt32 threeEntries 4 1 true = .ok packed ∧
    Packs 4 (offset 4 true) (along 1 threeEntries) (along 1 packed) :=
  pack_to_int32_lossless (by decide) 1 threeEntries_range

end Offset

end SlimeBoard.PackInt32
