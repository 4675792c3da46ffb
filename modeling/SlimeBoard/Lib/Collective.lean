import SlimeBoard.Lib.PyDict

/-!
# Collectives over ranks

A collective runs once on every rank of a group. If one rank raises before it, no rank
gets past it. An all-reduce adds up vectors of one length.
-/

namespace Collective

section Collect

variable {α : Type}

/-- Every rank runs; the group goes on only if none raises. -/
def collect : {n : Nat} → (Fin n → Py α) → Py (Fin n → α)
  | 0, _ => .ok Fin.elim0
  | _ + 1, run => do
    let first ← run 0
    let rest ← collect fun r => run r.succ
    return Fin.cons first rest

theorem collect_ok {n : Nat} {run : Fin n → Py α} {values : Fin n → α} (ok : ∀ r, run r = .ok (values r)) :
    collect run = .ok values := by
  induction n with
  | zero => exact congrArg Except.ok (funext fun r => r.elim0)
  | succ n ih =>
    have rest : collect (fun r => run (Fin.succ r)) = .ok fun r => values (Fin.succ r) := ih fun r => ok r.succ
    rw [collect, ok 0, Py.ok_bind, rest, Py.ok_bind]
    refine congrArg Except.ok (funext fun r => ?_)
    cases r using Fin.cases with
    | zero => rfl
    | succ r => rfl

theorem collect_ok_iff {n : Nat} {run : Fin n → Py α} {values : Fin n → α} :
    collect run = .ok values ↔ ∀ r, run r = .ok (values r) := by
  refine ⟨fun done => ?_, collect_ok⟩
  by_cases all : ∀ r, ∃ v, run r = .ok v
  · choose values' ok using all
    rw [collect_ok ok, Except.ok.injEq] at done
    rw [← done]
    exact ok
  · exfalso
    push Not at all
    obtain ⟨r, fails⟩ := all
    induction n with
    | zero => exact r.elim0
    | succ n ih =>
      rw [collect] at done
      cases first : run 0 with
      | error e =>
        rw [first] at done
        cases done
      | ok v =>
        rw [first, Py.ok_bind] at done
        cases rest : collect fun r => run r.succ with
        | error e =>
          rw [rest] at done
          cases done
        | ok vs =>
          cases r using Fin.cases with
          | zero => exact fails v first
          | succ r => exact ih rest r fails

/-- Ranks that all run the same. -/
theorem collect_const {n : Nat} (ranks : 0 < n) (run : Py α) : collect (fun _ : Fin n => run) = run.map fun a _ => a := by
  cases run with
  | ok a => exact collect_ok fun _ => rfl
  | error e =>
    obtain ⟨n, rfl⟩ := Nat.exists_eq_succ_of_ne_zero ranks.ne'
    rfl

theorem collect_map {β : Type} {n : Nat} (run : Fin n → Py α) (f : Fin n → α → β) :
    (collect fun r => (run r).map (f r)) = (collect run).map fun values r => f r (values r) := by
  induction n with
  | zero => exact congrArg Except.ok (funext fun r => r.elim0)
  | succ n ih =>
    rw [collect, collect, ih]
    cases run 0 with
    | error e => rfl
    | ok a =>
      cases collect fun r => run r.succ with
      | error e => rfl
      | ok as =>
        refine congrArg Except.ok (funext fun r => ?_)
        cases r using Fin.cases with
        | zero => rfl
        | succ r => rfl

end Collect

section Reduce

variable {α : Type} [AddCommMonoid α] {n : Nat}

/-- The sum over the ranks of vectors of length `len`. -/
def allReduce (len : Nat) (parts : Fin n → List α) : List α :=
  (List.range len).map fun k => ∑ r, (parts r).getD k 0

theorem getD_map_range (f : Nat → α) {k len : Nat} (inside : k < len) : ((List.range len).map f).getD k 0 = f k := by
  rw [List.getD_eq_getElem?_getD, List.getElem?_map, List.getElem?_range inside]
  rfl

/-- **If every position is one rank's own, and the others have 0 there, the sum is the
whole vector.** -/
theorem allReduce_owned {len : Nat} (owner : Nat → Nat) (small : ∀ k < len, owner k < n) (f : Nat → α)
    {parts : Fin n → List α} (owned : ∀ r, parts r = (List.range len).map fun k => if owner k = r.val then f k else 0) :
    allReduce len parts = (List.range len).map f := by
  refine List.map_congr_left fun k mem => ?_
  have inside := List.mem_range.1 mem
  let own : Fin n := ⟨owner k, small k inside⟩
  calc ∑ r, (parts r).getD k 0 = ∑ r, if own = r then f k else 0 :=
        Finset.sum_congr rfl fun r _ => by
          rw [owned r, getD_map_range _ inside]
          simp only [own, Fin.ext_iff]
    _ = f k := by rw [Finset.sum_ite_eq, if_pos (Finset.mem_univ _)]

theorem allReduce_append {a : Nat} (b : Nat) {front : Fin n → List α} (back : Fin n → List α)
    (length : ∀ r, (front r).length = a) :
    allReduce (a + b) (fun r => front r ++ back r) = allReduce a front ++ allReduce b back := by
  unfold allReduce
  rw [List.range_add, List.map_append, List.map_map]
  refine congrArg₂ _ (List.map_congr_left fun k mem => ?_) (List.map_congr_left fun k _ => ?_)
  · have inside := List.mem_range.1 mem
    refine Finset.sum_congr rfl fun r _ => ?_
    rw [List.getD_append _ _ _ _ (by rwa [length r])]
  · refine Finset.sum_congr rfl fun r _ => ?_
    show (front r ++ back r).getD (a + k) 0 = (back r).getD k 0
    rw [List.getD_append_right _ _ _ _ (by rw [length r]; omega), length r, Nat.add_sub_cancel_left]

/-- **A sum over the entries of all ranks counts every entry once**, if each has one owner. -/
theorem sum_owned {ι : Type} (owner : ι → Fin n) (f : ι → α) (entries : List ι) :
    ∑ r, ((entries.filter fun k => owner k = r).map f).sum = (entries.map f).sum := by
  induction entries with
  | nil => exact Finset.sum_const_zero
  | cons k entries ih =>
    have head (r : Fin n) : (((k :: entries).filter fun k => owner k = r).map f).sum =
        (if owner k = r then f k else 0) + ((entries.filter fun k => owner k = r).map f).sum := by
      by_cases mine : owner k = r
      · rw [List.filter_cons, decide_eq_true mine, if_pos rfl, List.map_cons, List.sum_cons, if_pos mine]
      · rw [List.filter_cons, decide_eq_false mine, if_neg Bool.false_ne_true, if_neg mine, zero_add]
    rw [Finset.sum_congr rfl fun r _ => head r, Finset.sum_add_distrib, Finset.sum_ite_eq, if_pos (Finset.mem_univ _), ih,
      List.map_cons, List.sum_cons]

end Reduce

end Collective
