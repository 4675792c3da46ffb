import Mathlib

/-!
# Groups of items

A dictionary of lists, in the order of the first item of each key, as a program builds it that
puts every item under its own key.
-/

/-- Lists of items under their keys. -/
structure Groups {κ α : Type} (key : α → κ) where
  entries : List (κ × List α)
  nodup : (entries.map Prod.fst).Nodup
  own : ∀ entry ∈ entries, ∀ a ∈ entry.2, key a = entry.1

namespace Groups

variable {κ α : Type} {key : α → κ}

def empty : Groups key := ⟨[], List.nodup_nil, fun _ mem => absurd mem List.not_mem_nil⟩

theorem ext {groups groups' : Groups key} (same : groups.entries = groups'.entries) : groups = groups' := by
  cases groups
  cases groups'
  cases same
  rfl

/-- The number of items. -/
def size (groups : Groups key) : Nat := (groups.entries.map fun entry => entry.2.length).sum

/-- The entries that a test keeps. -/
def filter (keep : κ × List α → Bool) (groups : Groups key) : Groups key where
  entries := groups.entries.filter keep
  nodup := groups.nodup.sublist (List.Sublist.map _ List.filter_sublist)
  own := fun entry mem => groups.own entry (List.mem_filter.1 mem).1

section Push

variable [DecidableEq κ]

/-- The entries after an item, at the end of its group or as a new one. -/
def pushEntry (k : κ) (a : α) : List (κ × List α) → List (κ × List α)
  | [] => [(k, [a])]
  | entry :: entries => if entry.1 = k then (k, entry.2 ++ [a]) :: entries else entry :: pushEntry k a entries

theorem mem_keys_pushEntry {k x : κ} {a : α} {entries : List (κ × List α)} :
    x ∈ (pushEntry k a entries).map Prod.fst ↔ x = k ∨ x ∈ entries.map Prod.fst := by
  induction entries with
  | nil => exact List.mem_singleton.trans (by simp)
  | cons entry entries ih =>
    rw [pushEntry]
    split
    · rename_i same
      simp [same]
    · rw [List.map_cons, List.mem_cons, ih, List.map_cons, List.mem_cons]
      exact or_left_comm

theorem forall_pushEntry {p : α → Prop} {k : κ} {a : α} {entries : List (κ × List α)} (new : p a)
    (old : ∀ entry ∈ entries, ∀ b ∈ entry.2, p b) : ∀ entry ∈ pushEntry k a entries, ∀ b ∈ entry.2, p b := by
  induction entries with
  | nil =>
    intro entry mem b there
    obtain rfl := List.mem_singleton.1 mem
    rwa [List.mem_singleton.1 there]
  | cons entry entries ih =>
    obtain ⟨head, rest⟩ := List.forall_mem_cons.1 old
    rw [pushEntry]
    split
    · refine List.forall_mem_cons.2 ⟨fun b there => ?_, rest⟩
      obtain mem | last := List.mem_append.1 there
      · exact head b mem
      · rwa [List.mem_singleton.1 last]
    · exact List.forall_mem_cons.2 ⟨head, ih rest⟩

theorem nodup_pushEntry {k : κ} {a : α} {entries : List (κ × List α)} (nodup : (entries.map Prod.fst).Nodup) :
    ((pushEntry k a entries).map Prod.fst).Nodup := by
  induction entries with
  | nil => exact List.nodup_singleton k
  | cons entry entries ih =>
    obtain ⟨fresh, rest⟩ := List.nodup_cons.1 nodup
    rw [pushEntry]
    split
    · rename_i same
      rw [List.map_cons, List.nodup_cons]
      exact ⟨same ▸ fresh, rest⟩
    · rename_i other
      rw [List.map_cons, List.nodup_cons, mem_keys_pushEntry]
      refine ⟨?_, ih rest⟩
      rintro (same | mem)
      · exact other same
      · exact fresh mem

theorem own_pushEntry {a : α} {entries : List (κ × List α)} (own : ∀ entry ∈ entries, ∀ a ∈ entry.2, key a = entry.1) :
    ∀ entry ∈ pushEntry (key a) a entries, ∀ b ∈ entry.2, key b = entry.1 := by
  induction entries with
  | nil =>
    intro entry mem b there
    obtain rfl := List.mem_singleton.1 mem
    obtain rfl := List.mem_singleton.1 there
    rfl
  | cons entry entries ih =>
    obtain ⟨head, rest⟩ := List.forall_mem_cons.1 own
    rw [pushEntry]
    split
    · rename_i same
      refine List.forall_mem_cons.2 ⟨fun b there => ?_, rest⟩
      obtain old | new := List.mem_append.1 there
      · exact (head b old).trans same
      · rw [List.mem_singleton.1 new]
    · exact List.forall_mem_cons.2 ⟨head, ih rest⟩

/-- `d[key] = [a]` or `d[key].append(a)` -/
def push (a : α) (groups : Groups key) : Groups key where
  entries := pushEntry (key a) a groups.entries
  nodup := nodup_pushEntry groups.nodup
  own := own_pushEntry groups.own

/-- `d.pop(k)` -/
def pop (k : κ) (groups : Groups key) : Groups key := groups.filter fun entry => decide (entry.1 ≠ k)

def membersOf (k : κ) : List (κ × List α) → List α
  | [] => []
  | entry :: entries => if entry.1 = k then entry.2 else membersOf k entries

/-- The items under a key. -/
def members (k : κ) (groups : Groups key) : List α := membersOf k groups.entries

theorem size_push (a : α) (groups : Groups key) : (groups.push a).size = groups.size + 1 := by
  have count : ∀ entries : List (κ × List α), ((pushEntry (key a) a entries).map fun entry => entry.2.length).sum =
      (entries.map fun entry => entry.2.length).sum + 1 := by
    intro entries
    induction entries with
    | nil => rfl
    | cons entry entries ih =>
      rw [pushEntry]
      split
      · rw [List.map_cons, List.sum_cons, List.map_cons, List.sum_cons, List.length_append, List.length_singleton]
        omega
      · rw [List.map_cons, List.sum_cons, ih, List.map_cons, List.sum_cons, Nat.add_assoc]
  exact count groups.entries

theorem members_push (k : κ) (a : α) (groups : Groups key) :
    (groups.push a).members k = if key a = k then groups.members k ++ [a] else groups.members k := by
  have look : ∀ entries : List (κ × List α), membersOf k (pushEntry (key a) a entries) =
      if key a = k then membersOf k entries ++ [a] else membersOf k entries := by
    intro entries
    induction entries with
    | nil => rfl
    | cons entry entries ih =>
      rw [pushEntry]
      by_cases same : entry.1 = key a
      · rw [if_pos same, membersOf, membersOf, same]
        split <;> rfl
      · rw [if_neg same, membersOf, membersOf, ih]
        by_cases here : entry.1 = k
        · rw [if_pos here, if_neg fun there => same (here.trans there.symm), if_pos here]
        · rw [if_neg here, if_neg here]
  exact look groups.entries

theorem membersOf_eq_nil {k : κ} {entries : List (κ × List α)} (fresh : k ∉ entries.map Prod.fst) : membersOf k entries = [] := by
  induction entries with
  | nil => rfl
  | cons entry entries ih =>
    rw [List.map_cons, List.mem_cons, not_or] at fresh
    rw [membersOf, if_neg (Ne.symm fresh.1), ih fresh.2]

/-- The items of a key among the kept ones. -/
theorem members_filter (k : κ) (keep : κ × List α → Bool) (groups : Groups key) :
    (groups.filter keep).members k = if keep (k, groups.members k) then groups.members k else [] := by
  have look : ∀ entries : List (κ × List α), (entries.map Prod.fst).Nodup → membersOf k (entries.filter keep) =
      if keep (k, membersOf k entries) then membersOf k entries else [] := by
    intro entries nodup
    induction entries with
    | nil => exact (ite_self []).symm
    | cons entry entries ih =>
      obtain ⟨fresh, rest⟩ := List.nodup_cons.1 nodup
      rw [List.filter_cons, membersOf]
      by_cases here : entry.1 = k
      · subst here
        rw [if_pos rfl]
        split
        · rw [membersOf, if_pos rfl]
        · refine membersOf_eq_nil fun mem => fresh ?_
          exact (List.filter_sublist.map _).subset mem
      · rw [if_neg here, ← ih rest]
        split
        · rw [membersOf, if_neg here]
        · rfl
  exact look groups.entries groups.nodup

/-- The items of a key, among all items. -/
theorem filter_items (k : κ) (groups : Groups key) :
    (groups.entries.flatMap Prod.snd).filter (fun a => decide (key a = k)) = groups.members k := by
  have look : ∀ entries : List (κ × List α), (entries.map Prod.fst).Nodup → (∀ entry ∈ entries, ∀ a ∈ entry.2, key a = entry.1) →
      (entries.flatMap Prod.snd).filter (fun a => decide (key a = k)) = membersOf k entries := by
    intro entries nodup own
    induction entries with
    | nil => rfl
    | cons entry entries ih =>
      obtain ⟨fresh, nodup⟩ := List.nodup_cons.1 nodup
      obtain ⟨head, own⟩ := List.forall_mem_cons.1 own
      rw [List.flatMap_cons, List.filter_append, ih nodup own, membersOf]
      by_cases here : entry.1 = k
      · rw [if_pos here, membersOf_eq_nil (here ▸ fresh), List.append_nil, List.filter_eq_self]
        intro a mem
        exact decide_eq_true ((head a mem).trans here)
      · rw [if_neg here, List.filter_eq_nil_iff.2, List.nil_append]
        intro a mem
        rw [decide_eq_true_iff, head a mem]
        exact here
  exact look groups.entries groups.nodup groups.own

theorem entries_foldl_pop (popped : List (κ × List α)) (groups : Groups key) :
    (popped.foldl (fun left entry => left.pop entry.1) groups).entries =
      groups.entries.filter fun entry => decide (entry.1 ∉ popped.map Prod.fst) := by
  induction popped generalizing groups with
  | nil => exact (List.filter_eq_self.2 fun entry _ => decide_eq_true List.not_mem_nil).symm
  | cons first popped ih =>
    rw [List.foldl_cons, ih, pop, filter, List.filter_filter]
    refine List.filter_congr fun entry _ => ?_
    rw [← Bool.decide_and, decide_eq_decide, List.map_cons, List.mem_cons, not_or, and_comm]

/-- Popping some of the entries, one after the other. -/
theorem foldl_pop (keep : κ × List α → Bool) (groups : Groups key) :
    (groups.entries.filter keep).foldl (fun left entry => left.pop entry.1) groups = groups.filter fun entry => !keep entry := by
  apply ext
  rw [entries_foldl_pop, filter]
  refine List.filter_congr fun entry mem => ?_
  rw [Bool.eq_iff_iff, decide_eq_true_iff, Bool.not_eq_true', ← Bool.not_eq_true, not_iff_not, List.mem_map]
  constructor
  · rintro ⟨other, there, same⟩
    obtain ⟨there, kept⟩ := List.mem_filter.1 there
    rwa [← List.inj_on_of_nodup_map groups.nodup there mem same]
  · exact fun kept => ⟨entry, List.mem_filter.2 ⟨mem, kept⟩, rfl⟩

end Push

end Groups
