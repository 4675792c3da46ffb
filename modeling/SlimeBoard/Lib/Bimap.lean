import SlimeBoard.Lib.PyDict

/-!
# Two dictionaries that are inverse to each other

The invariant `Linked` of a pair of dictionaries that record the same one-to-one
relation from either side, and the updates that keep it.
-/

namespace Dict

variable {κ ν : Type} [DecidableEq κ] [DecidableEq ν]

/-- The two dictionaries record the same pairs. -/
def Linked (m : Dict κ ν) (n : Dict ν κ) : Prop := ∀ k v, m.lookup k = some v ↔ n.lookup v = some k

variable {m : Dict κ ν} {n : Dict ν κ}

theorem linked_empty : Linked (∅ : Dict κ ν) (∅ : Dict ν κ) := by
  intro k v
  simp

theorem Linked.symm (linked : Linked m n) : Linked n m := fun v k => (linked k v).symm

theorem Linked.inj (linked : Linked m n) {k k' : κ} {v : ν} (h : m.lookup k = some v)
    (h' : m.lookup k' = some v) : k = k' := by
  rw [linked] at h h'
  rw [h] at h'
  exact Option.some.inj h'

/-- A new pair, neither side of which is in use. -/
theorem Linked.insert (linked : Linked m n) {k : κ} {v : ν} (freeKey : m.lookup k = none)
    (freeValue : n.lookup v = none) : Linked (m.insert k v) (n.insert v k) := by
  intro a b
  rw [lookup_insert, lookup_insert]
  by_cases sameKey : a = k <;> by_cases sameValue : b = v
  · simp [sameKey, sameValue]
  · rw [if_pos sameKey, if_neg sameValue, ← linked, sameKey, freeKey]
    simp [Ne.symm sameValue]
  · rw [if_neg sameKey, if_pos sameValue, linked, sameValue, freeValue]
    simp [Ne.symm sameKey]
  · rw [if_neg sameKey, if_neg sameValue]
    exact linked a b

/-- Both sides of a pair are deleted. -/
theorem Linked.erase (linked : Linked m n) {k : κ} {v : ν} (pair : m.lookup k = some v) :
    Linked (m.erase k) (n.erase v) := by
  intro a b
  rw [lookup_erase, lookup_erase]
  by_cases sameKey : a = k <;> by_cases sameValue : b = v
  · simp [sameKey, sameValue]
  · rw [if_pos sameKey, if_neg sameValue, ← linked, sameKey, pair]
    simp [Ne.symm sameValue]
  · rw [if_neg sameKey, if_pos sameValue, linked, sameValue, (linked k v).1 pair]
    simp [Ne.symm sameKey]
  · rw [if_neg sameKey, if_neg sameValue]
    exact linked a b

/-- A value takes a new key that is not in use; overwriting its side is enough. -/
theorem Linked.move (linked : Linked m n) {k k' : κ} {v : ν} (pair : m.lookup k = some v)
    (free : m.lookup k' = none) : Linked ((m.erase k).insert k' v) (n.insert v k') := by
  have differ : k' ≠ k := by
    intro same
    rw [same, pair] at free
    cases free
  have moved := (linked.erase pair).insert (k := k') (v := v)
    (by rw [lookup_erase, if_neg differ, free]) (by rw [lookup_erase, if_pos rfl])
  intro a b
  rw [moved a b, lookup_insert, lookup_insert, lookup_erase]
  split
  · rfl
  · rfl

/-- A value takes the key of another, which is deleted. -/
theorem Linked.capture (linked : Linked m n) {k k' : κ} {v v' : ν} (pair : m.lookup k = some v)
    (pair' : m.lookup k' = some v') (differ : k ≠ k') :
    Linked ((m.erase k).insert k' v) ((n.insert v k').erase v') := by
  have values : v ≠ v' := by
    intro same
    rw [same] at pair
    exact differ (linked.inj pair pair')
  have erased := linked.erase pair'
  have there : (m.erase k').lookup k = some v := by rw [lookup_erase, if_neg differ, pair]
  have free : (m.erase k').lookup k' = none := by rw [lookup_erase, if_pos rfl]
  have moved := erased.move there free
  intro a b
  have left : ((m.erase k).insert k' v).lookup a = (((m.erase k').erase k).insert k' v).lookup a := by
    simp only [lookup_insert, lookup_erase]
    split
    · rfl
    · rfl
  have right : ((n.insert v k').erase v').lookup b = ((n.erase v').insert v k').lookup b := by
    simp only [lookup_insert, lookup_erase]
    by_cases sameValue : b = v
    · rw [sameValue, if_neg values, if_pos rfl, if_pos rfl]
    · rw [if_neg sameValue, if_neg sameValue]
  rw [left, right]
  exact moved a b

end Dict
