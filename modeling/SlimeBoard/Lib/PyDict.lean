import Mathlib

/-!
# Python dictionaries and the exceptions they raise

A dictionary is an association list without duplicate keys. Reading or deleting
an absent key raises `KeyError`; `in`, `.get` and assignment never raise.
-/

/-- The exceptions the modelled code can raise. `diverges` stands for a loop that
has used up the turns the model grants it. -/
inductive PyError where
  | keyError
  | assertionError
  | indexError
  | typeError
  | valueError
  | runtimeError
  | diverges
  deriving DecidableEq, Repr

abbrev Py := Except PyError

theorem Py.ok_bind {α β : Type} (a : α) (f : α → Py β) : (Except.ok a >>= f) = f a := rfl

theorem Py.error_bind {α β : Type} (e : PyError) (f : α → Py β) : (Except.error e >>= f) = .error e := rfl

/-- A run that succeeds, step by step. -/
theorem Py.bind_eq_ok {α β : Type} {x : Py α} {f : α → Py β} {b : β} :
    (x >>= f) = .ok b ↔ ∃ a, x = .ok a ∧ f a = .ok b := by
  cases x with
  | error e => exact ⟨fun h => (nomatch h), fun ⟨_, h, _⟩ => (nomatch h)⟩
  | ok a => exact ⟨fun h => ⟨a, rfl, h⟩, fun ⟨_, same, h⟩ => by rwa [Except.ok.inj same]⟩

theorem mapM_ok {α β : Type} {f : α → Py β} {g : α → β} (xs : List α) (ok : ∀ x ∈ xs, f x = .ok (g x)) :
    xs.mapM f = .ok (xs.map g) := by
  induction xs with
  | nil => rfl
  | cons x xs ih =>
    rw [List.mapM_cons, ok x (List.mem_cons_self ..), Py.ok_bind, ih fun y mem => ok y (List.mem_cons_of_mem _ mem)]
    rfl

theorem mapM_forall₂ {α β : Type} {f : α → Py β} {xs : List α} {ys : List β} :
    xs.mapM f = .ok ys ↔ List.Forall₂ (fun x y => f x = .ok y) xs ys := by
  induction xs generalizing ys with
  | nil =>
    rw [List.mapM_nil, List.forall₂_nil_left_iff]
    exact ⟨fun same => (Except.ok.inj same).symm, fun same => same ▸ rfl⟩
  | cons x xs ih =>
    rw [List.mapM_cons, Py.bind_eq_ok, List.forall₂_cons_left_iff]
    constructor
    · rintro ⟨y, head, tail⟩
      obtain ⟨rest, tail, same⟩ := Py.bind_eq_ok.1 tail
      exact ⟨y, rest, head, ih.1 tail, (Except.ok.inj same).symm⟩
    · rintro ⟨y, rest, head, tail, rfl⟩
      exact ⟨y, head, Py.bind_eq_ok.2 ⟨rest, ih.2 tail, rfl⟩⟩

/-- `assert p` -/
def pyAssert (p : Bool) : Py Unit := if p then .ok () else .error .assertionError

@[simp] theorem pyAssert_true : pyAssert true = .ok () := rfl

@[simp] theorem pyAssert_false : pyAssert false = .error .assertionError := rfl

/-- `xs[i]` -/
def pyIndex {α : Type} (xs : List α) (i : Nat) : Py α :=
  match xs[i]? with
  | some x => .ok x
  | none => .error .indexError

theorem pyIndex_ok_iff {α : Type} {xs : List α} {i : Nat} {x : α} : pyIndex xs i = .ok x ↔ xs[i]? = some x := by
  unfold pyIndex
  cases xs[i]? <;> simp

/-- A dictionary from `κ` to `ν`. -/
abbrev Dict (κ ν : Type) := AList (fun _ : κ => ν)

namespace Dict

variable {κ ν : Type} [DecidableEq κ]

/-- `d[k]` -/
def get (d : Dict κ ν) (k : κ) : Py ν :=
  match d.lookup k with
  | some v => .ok v
  | none => .error .keyError

/-- `del d[k]` -/
def del (d : Dict κ ν) (k : κ) : Py (Dict κ ν) :=
  if k ∈ d then .ok (d.erase k) else .error .keyError

theorem get_eq {d : Dict κ ν} {k : κ} {v : ν} (h : d.lookup k = some v) : d.get k = .ok v := by
  simp only [get, h]

theorem get_ok_iff {d : Dict κ ν} {k : κ} {v : ν} : d.get k = .ok v ↔ d.lookup k = some v := by
  unfold get
  cases d.lookup k <;> simp

theorem mem_of_lookup {d : Dict κ ν} {k : κ} {v : ν} (h : d.lookup k = some v) : k ∈ d :=
  AList.lookup_isSome.1 (by simp [h])

theorem del_eq {d : Dict κ ν} {k : κ} (h : k ∈ d) : d.del k = .ok (d.erase k) := by
  simp only [del, if_pos h]

theorem lookup_insert (d : Dict κ ν) (k x : κ) (v : ν) :
    (d.insert k v).lookup x = if x = k then some v else d.lookup x := by
  split
  · rename_i same; subst same; exact AList.lookup_insert d
  · rename_i differ; exact AList.lookup_insert_ne differ

theorem lookup_erase (d : Dict κ ν) (k x : κ) :
    (d.erase k).lookup x = if x = k then none else d.lookup x := by
  split
  · rename_i same; subst same; exact AList.lookup_erase x d
  · rename_i differ; exact AList.lookup_erase_ne differ

theorem mem_keys_iff {d : Dict κ ν} {k : κ} : k ∈ d.keys ↔ ∃ v, d.lookup k = some v := by
  rw [← AList.mem_keys, ← AList.lookup_isSome, Option.isSome_iff_exists]

end Dict
