import Mathlib

/-!
# Fields of a machine word

Fields of one width are shifted to their places and added. As long as the word holds all of them nothing
is carried or lost: the word is the number with the fields as its digits, so a field is read back by
shifting and masking, and the bits above the last field are zero.
-/

namespace BitFields

variable {w width : Nat}

/-- The sum of the fields, the first of which has the place `start`. -/
def place (width start : Nat) (fields : List (BitVec w)) : BitVec w :=
  ((fields.zipIdx start).map fun field : BitVec w × Nat => (field.1 <<< (field.2 * width : Nat) : BitVec w)).sum

/-- The bits of the field in a place. -/
def field (width k : Nat) (word : BitVec w) : Nat := (word.extractLsb' (k * width) width).toNat

theorem place_cons (start : Nat) (f : BitVec w) (fields : List (BitVec w)) :
    place width start (f :: fields) = f <<< (start * width) + place width (start + 1) fields := by
  rw [place, List.zipIdx_cons, List.map_cons, List.sum_cons]
  rfl

section Digits

variable {fields : List (BitVec w)}

theorem digits_lt (small : ∀ f ∈ fields, f.toNat < 2 ^ width) : ∀ digit ∈ fields.map BitVec.toNat, digit < 2 ^ width := by
  intro digit mem
  obtain ⟨f, inside, rfl⟩ := List.mem_map.1 mem
  exact small f inside

theorem ofDigits_lt (wide : 0 < width) (small : ∀ f ∈ fields, f.toNat < 2 ^ width) :
    Nat.ofDigits (2 ^ width) (fields.map BitVec.toNat) < 2 ^ (fields.length * width) := by
  have bound := Nat.ofDigits_lt_base_pow_length (Nat.one_lt_two_pow wide.ne') (digits_lt small)
  rwa [List.length_map, ← Nat.pow_mul, Nat.mul_comm width] at bound

/-- **No field is carried into the next one.** -/
theorem toNat_place (wide : 0 < width) (small : ∀ f ∈ fields, f.toNat < 2 ^ width) {start : Nat}
    (fits : (start + fields.length) * width ≤ w) :
    (place width start fields).toNat = 2 ^ (start * width) * Nat.ofDigits (2 ^ width) (fields.map BitVec.toNat) := by
  induction fields generalizing start with
  | nil => simp [place]
  | cons f fields ih =>
    have tail : ∀ f ∈ fields, f.toNat < 2 ^ width := fun f mem => small f (List.mem_cons_of_mem _ mem)
    rw [List.length_cons] at fits
    have all := ofDigits_lt wide small
    have whole : 2 ^ (start * width) * Nat.ofDigits (2 ^ width) ((f :: fields).map BitVec.toNat) < 2 ^ w := by
      refine (Nat.mul_lt_mul_of_pos_left all (Nat.two_pow_pos _)).trans_le ?_
      rw [← Nat.pow_add, ← Nat.add_mul]
      exact Nat.pow_le_pow_right Nat.two_pos fits
    have split : 2 ^ (start * width) * Nat.ofDigits (2 ^ width) ((f :: fields).map BitVec.toNat) =
        f.toNat * 2 ^ (start * width) +
          2 ^ ((start + 1) * width) * Nat.ofDigits (2 ^ width) (fields.map BitVec.toNat) := by
      rw [List.map_cons, Nat.ofDigits_cons, Nat.mul_add, Nat.succ_mul, Nat.pow_add, Nat.mul_assoc, Nat.mul_comm f.toNat]
    have fits' : (start + 1 + fields.length) * width ≤ w := by
      rwa [Nat.add_assoc, Nat.add_comm 1]
    rw [place_cons, BitVec.toNat_add, BitVec.toNat_shiftLeft, Nat.shiftLeft_eq, ih tail fits', Nat.mod_add_mod, ← split]
    exact Nat.mod_eq_of_lt whole

/-- **A field is read back from its place.** -/
theorem field_place (wide : 0 < width) (small : ∀ f ∈ fields, f.toNat < 2 ^ width) (fits : fields.length * width ≤ w)
    {k : Nat} {f : BitVec w} (here : fields[k]? = some f) : field width k (place width 0 fields) = f.toNat := by
  have positive := Nat.two_pow_pos width
  have number : (place width 0 fields).toNat = Nat.ofDigits (2 ^ width) (fields.map BitVec.toNat) := by
    rw [toNat_place wide small (by rwa [Nat.zero_add]), Nat.zero_mul, Nat.pow_zero, Nat.one_mul]
  obtain ⟨lt, same⟩ := List.getElem?_eq_some_iff.1 here
  have tail : (fields.map BitVec.toNat).drop k = f.toNat :: (fields.map BitVec.toNat).drop (k + 1) := by
    rw [List.drop_eq_getElem_cons (by rwa [List.length_map]), List.getElem_map, same]
  rw [field, BitVec.extractLsb'_toNat, number, Nat.shiftRight_eq_div_pow, Nat.mul_comm k, Nat.pow_mul,
    Nat.ofDigits_div_pow_eq_ofDigits_drop k positive _ (digits_lt small), tail, Nat.ofDigits_cons, Nat.add_mul_mod_self_left]
  exact Nat.mod_eq_of_lt (small f (List.mem_of_getElem? here))

/-- The bits above the last field are zero. -/
theorem place_unused (wide : 0 < width) (small : ∀ f ∈ fields, f.toNat < 2 ^ width) (fits : fields.length * width ≤ w)
    {bit : Nat} (above : fields.length * width ≤ bit) : (place width 0 fields).getLsbD bit = false := by
  rw [← BitVec.testBit_toNat, toNat_place wide small (by rwa [Nat.zero_add]), Nat.zero_mul, Nat.pow_zero, Nat.one_mul]
  exact Nat.testBit_lt_two_pow ((ofDigits_lt wide small).trans_le (Nat.pow_le_pow_right Nat.two_pos above))

end Digits

end BitFields
