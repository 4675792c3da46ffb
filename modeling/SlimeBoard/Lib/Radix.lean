import Mathlib

/-!
# Radix tries of sequences

A node of the trie is a dictionary from a non-empty label to a child node, in
insertion order; it is represented as the forest of its entries. `addGraph`
inserts a sequence, splitting a label where the sequence leaves it. The trie is
read element by element: `paths` lists every element path from the root, also
those that end inside a label, and `visits` walks the paths as long as the
elements are free.
-/

namespace Radix

/-- A trie node as the forest of its entries `label ↦ child`. -/
inductive Trie (α : Type) where
  | empty
  | entry (key : List α) (sub rest : Trie α)
  deriving DecidableEq, Repr

variable {α : Type}

section Insertion

variable [DecidableEq α]

/-- Length of the longest common prefix. -/
def lcp : List α → List α → Nat
  | a :: as, b :: bs => if a = b then lcp as bs + 1 else 0
  | _, _ => 0

/-- `graph[key] = node`: in place for a present key, at the end otherwise. -/
def Trie.assign : Trie α → List α → Trie α → Trie α
  | .empty, key, node => .entry key node .empty
  | .entry k sub rest, key, node =>
    if k = key then .entry k node rest else .entry k sub (rest.assign key node)

/-- Insert a sequence into a trie. -/
def Trie.addGraph : Trie α → List α → Trie α
  | .empty, seq => if seq = [] then .empty else .entry seq .empty .empty
  | .entry key sub rest, seq =>
    let common := lcp key seq
    if common = 0 then .entry key sub (rest.addGraph seq)
    else if common = key.length then .entry key (sub.addGraph (seq.drop common)) rest
    else if common = seq.length then
      rest.assign seq (.entry (key.drop common) sub .empty)
    else
      rest.assign (key.take common)
        (.entry (key.drop common) sub (.entry (seq.drop common) .empty .empty))

end Insertion

/-- Every element path from the root. -/
def Trie.paths : Trie α → List (List α)
  | .empty => []
  | .entry key sub rest => key.inits.tail ++ sub.paths.map (key ++ ·) ++ rest.paths

/-- Every element of the trie, as often as it occurs. -/
def Trie.elements : Trie α → List α
  | .empty => []
  | .entry key sub rest => key ++ sub.elements ++ rest.elements

/-- The labels of the root's entries. -/
def Trie.keys : Trie α → List (List α)
  | .empty => []
  | .entry key _ rest => key :: rest.keys

/-- Labels are non-empty and sibling labels start with different elements. -/
def Trie.Branching : Trie α → Prop
  | .empty => True
  | .entry key sub rest =>
    key ≠ [] ∧ (∀ k ∈ rest.keys, k.head? ≠ key.head?) ∧ sub.Branching ∧ rest.Branching

/-! ## Common prefixes -/

section Lcp

variable [DecidableEq α]

theorem lcp_le_left (xs ys : List α) : lcp xs ys ≤ xs.length := by
  induction xs generalizing ys with
  | nil => simp [lcp]
  | cons x xs ih =>
    cases ys with
    | nil => simp [lcp]
    | cons y ys =>
      rw [lcp]
      split
      · have := ih ys; simp; omega
      · omega

theorem take_lcp (xs ys : List α) : xs.take (lcp xs ys) = ys.take (lcp xs ys) := by
  induction xs generalizing ys with
  | nil => simp [lcp]
  | cons x xs ih =>
    cases ys with
    | nil => simp [lcp]
    | cons y ys =>
      rw [lcp]
      split
      · rename_i same; subst same; simp [ih ys]
      · simp

theorem lcp_le_right (xs ys : List α) : lcp xs ys ≤ ys.length := by
  have same := congrArg List.length (take_lcp xs ys)
  have left := lcp_le_left xs ys
  simp only [List.length_take] at same
  omega

theorem lcp_eq_zero {xs ys : List α} (hx : xs ≠ []) (h : lcp xs ys = 0) :
    ys.head? ≠ xs.head? := by
  cases xs with
  | nil => exact absurd rfl hx
  | cons x xs =>
    cases ys with
    | nil => simp
    | cons y ys =>
      rw [lcp] at h
      split at h
      · omega
      · rename_i differ; simpa [eq_comm] using differ

theorem head_eq_of_lcp {xs ys : List α} (h : lcp xs ys ≠ 0) : xs.head? = ys.head? := by
  cases xs with
  | nil => simp [lcp] at h
  | cons x xs =>
    cases ys with
    | nil => simp [lcp] at h
    | cons y ys =>
      rw [lcp] at h
      split at h
      · rename_i same; simp [same]
      · exact absurd rfl h

/-- The common prefix is the longest one. -/
theorem lcp_maximal (xs ys : List α) (hx : lcp xs ys ≠ xs.length) :
    (ys.drop (lcp xs ys)).head? ≠ (xs.drop (lcp xs ys)).head? := by
  induction xs generalizing ys with
  | nil => simp [lcp] at hx
  | cons x xs ih =>
    cases ys with
    | nil => simp [lcp]
    | cons y ys =>
      rw [lcp] at hx ⊢
      split at hx
      · rename_i same
        rw [if_pos same, List.drop_succ_cons, List.drop_succ_cons]
        exact ih ys (by simpa using hx)
      · rename_i differ
        rw [if_neg differ]
        simpa [eq_comm] using differ

end Lcp

/-! ## Paths -/

/-- `π` is a non-empty prefix of `seq`. -/
def Starts (π seq : List α) : Prop := π ≠ [] ∧ π <+: seq

theorem not_starts_nil {π : List α} : ¬ Starts π [] :=
  fun h => h.1 (List.prefix_nil.1 h.2)

/-- The prefixes of a concatenation are those of the front and the extended ones. -/
theorem starts_append {front tail π : List α} :
    Starts π (front ++ tail) ↔ Starts π front ∨ ∃ ρ, Starts ρ tail ∧ π = front ++ ρ := by
  constructor
  · rintro ⟨nonempty, pre⟩
    rcases List.prefix_or_prefix_of_prefix pre (List.prefix_append front tail) with short | ⟨ρ, rfl⟩
    · exact Or.inl ⟨nonempty, short⟩
    · rcases eq_or_ne ρ [] with rfl | more
      · exact Or.inl ⟨nonempty, by simp⟩
      · exact Or.inr ⟨ρ, ⟨more, (List.prefix_append_right_inj front).1 pre⟩, rfl⟩
  · rintro (⟨nonempty, pre⟩ | ⟨ρ, ⟨more, pre⟩, rfl⟩)
    · exact ⟨nonempty, pre.trans (List.prefix_append _ _)⟩
    · exact ⟨List.append_ne_nil_of_right_ne_nil _ more, (List.prefix_append_right_inj front).2 pre⟩

theorem mem_inits_tail {key π : List α} : π ∈ key.inits.tail ↔ Starts π key := by
  cases key with
  | nil => simp [not_starts_nil]
  | cons x xs =>
    rw [show x :: xs = [x] ++ xs from rfl, starts_append]
    simp only [List.cons_append, List.nil_append, List.inits_cons, List.tail_cons, List.mem_map,
      List.mem_inits]
    constructor
    · rintro ⟨ρ, pre, rfl⟩
      rcases eq_or_ne ρ [] with rfl | more
      · exact Or.inl ⟨by simp, List.prefix_refl _⟩
      · exact Or.inr ⟨ρ, ⟨more, pre⟩, rfl⟩
    · rintro (⟨nonempty, pre⟩ | ⟨ρ, ⟨_, pre⟩, rfl⟩)
      · refine ⟨[], List.nil_prefix, ?_⟩
        rcases List.prefix_cons_iff.1 pre with h | ⟨t, rfl, ht⟩
        · exact absurd h nonempty
        · rw [List.prefix_nil.1 ht]
      · exact ⟨ρ, pre, rfl⟩

@[simp] theorem paths_empty : (Trie.empty : Trie α).paths = [] := rfl

theorem mem_paths_entry {key π : List α} {sub rest : Trie α} :
    π ∈ (Trie.entry key sub rest).paths ↔
      Starts π key ∨ (∃ ρ ∈ sub.paths, π = key ++ ρ) ∨ π ∈ rest.paths := by
  simp only [Trie.paths, List.mem_append, mem_inits_tail, List.mem_map, or_assoc, eq_comm]

theorem mem_paths_leaf {key π : List α} :
    π ∈ (Trie.entry key .empty .empty).paths ↔ Starts π key := by
  simp [mem_paths_entry]

theorem Trie.paths_ne_nil {t : Trie α} : ∀ π ∈ t.paths, π ≠ [] := by
  induction t with
  | empty => simp
  | entry key sub rest ihs ihr =>
    intro π mem
    rcases mem_paths_entry.1 mem with starts | ⟨ρ, hρ, rfl⟩ | mem
    · exact starts.1
    · exact List.append_ne_nil_of_right_ne_nil _ (ihs ρ hρ)
    · exact ihr π mem

/-- A key that shares its head with the entry is absent from the siblings. -/
theorem absent_of_head {key seq : List α} {sub rest : Trie α}
    (branching : (Trie.entry key sub rest).Branching) (same : seq.head? = key.head?) :
    seq ∉ rest.keys :=
  fun mem => branching.2.1 seq mem same

theorem head_take {xs : List α} {n : Nat} (h : n ≠ 0) : (xs.take n).head? = xs.head? := by
  cases n with
  | zero => exact absurd rfl h
  | succ n => cases xs <;> simp

/-- Splitting a label keeps its paths and adds those of the new sibling. -/
theorem mem_paths_split {front tail π : List α} {sub more : Trie α} :
    (Starts π front ∨ ∃ ρ ∈ (Trie.entry tail sub more).paths, π = front ++ ρ) ↔
      (Starts π (front ++ tail) ∨ ∃ ρ ∈ sub.paths, π = front ++ tail ++ ρ) ∨
        Starts π front ∨ ∃ ρ ∈ more.paths, π = front ++ ρ := by
  rw [starts_append]
  constructor
  · rintro (h | ⟨ρ, mem, rfl⟩)
    · exact Or.inr (Or.inl h)
    · rcases mem_paths_entry.1 mem with h | ⟨σ, h, rfl⟩ | h
      · exact Or.inl (Or.inl (Or.inr ⟨ρ, h, rfl⟩))
      · exact Or.inl (Or.inr ⟨σ, h, (List.append_assoc _ _ _).symm⟩)
      · exact Or.inr (Or.inr ⟨ρ, h, rfl⟩)
  · rintro (((h | ⟨ρ, h, rfl⟩) | ⟨ρ, h, rfl⟩) | (h | ⟨ρ, h, rfl⟩))
    · exact Or.inl h
    · exact Or.inr ⟨ρ, mem_paths_entry.2 (Or.inl h), rfl⟩
    · exact Or.inr ⟨tail ++ ρ, mem_paths_entry.2 (Or.inr (Or.inl ⟨ρ, h, rfl⟩)), List.append_assoc _ _ _⟩
    · exact Or.inl h
    · exact Or.inr ⟨ρ, mem_paths_entry.2 (Or.inr (Or.inr h)), rfl⟩

section Insertion

variable [DecidableEq α]

/-- Assigning an absent key adds its label and the paths below it. -/
theorem mem_paths_assign {t node : Trie α} {key π : List α} (absent : key ∉ t.keys) :
    π ∈ (t.assign key node).paths ↔
      π ∈ t.paths ∨ Starts π key ∨ ∃ ρ ∈ node.paths, π = key ++ ρ := by
  induction t with
  | empty => simp [Trie.assign, mem_paths_entry]
  | entry k sub rest _ ih =>
    have differ : k ≠ key := fun same => absent (by simp [Trie.keys, same])
    have absent' : key ∉ rest.keys := fun mem => absent (by simp [Trie.keys, mem])
    rw [Trie.assign, if_neg differ, mem_paths_entry, mem_paths_entry, ih absent']
    simp only [or_assoc]

theorem keys_assign {t node : Trie α} {key k : List α} (mem : k ∈ (t.assign key node).keys) :
    k = key ∨ k ∈ t.keys := by
  induction t with
  | empty => simpa [Trie.assign, Trie.keys] using mem
  | entry k' sub rest _ ih =>
    rw [Trie.assign] at mem
    split at mem
    · exact Or.inr mem
    · rcases List.mem_cons.1 mem with same | mem
      · exact Or.inr (by simp [Trie.keys, same])
      · rcases ih mem with same | mem
        · exact Or.inl same
        · exact Or.inr (List.mem_cons_of_mem _ mem)

/-- **Insertion adds exactly the non-empty prefixes of the sequence.** -/
theorem mem_paths_addGraph {t : Trie α} (branching : t.Branching) {seq π : List α} :
    π ∈ (t.addGraph seq).paths ↔ π ∈ t.paths ∨ Starts π seq := by
  induction t generalizing seq π with
  | empty =>
    rw [Trie.addGraph]
    split
    · rename_i none; simp [none, not_starts_nil]
    · simp [mem_paths_entry]
  | entry key sub rest ihs ihr =>
    obtain ⟨_, _, subB, restB⟩ := id branching
    rw [Trie.addGraph]
    have take := take_lcp key seq
    have split := List.take_append_drop (lcp key seq) seq
    have splitKey := List.take_append_drop (lcp key seq) key
    split
    · rw [mem_paths_entry, mem_paths_entry, ihr restB]
      simp only [or_assoc]
    · rename_i common
      have head := head_eq_of_lcp common
      split
      · -- the whole label is a prefix of the sequence: insert the rest below it
        rename_i whole
        rw [← take, whole, List.take_length] at split
        conv_rhs => rw [← split]
        rw [mem_paths_entry, mem_paths_entry, starts_append, whole]
        simp only [ihs subB, or_and_right, exists_or]
        grind
      · split
        · -- the sequence ends inside the label
          rename_i ends
          rw [take, ends, List.take_length] at splitKey
          rw [mem_paths_assign (absent_of_head branching head.symm), mem_paths_split, ends, splitKey,
            mem_paths_entry]
          simp only [paths_empty, List.not_mem_nil, false_and, exists_false, or_false]
          grind
        · -- both leave the common prefix
          have absent : key.take (lcp key seq) ∉ rest.keys :=
            absent_of_head branching (head_take common)
          rw [mem_paths_assign absent, mem_paths_split, splitKey, mem_paths_entry]
          simp only [mem_paths_leaf]
          conv_rhs => rw [← split, ← take, starts_append]
          grind

theorem head_addGraph {t : Trie α} {seq k : List α} (mem : k ∈ (t.addGraph seq).keys) :
    k.head? = seq.head? ∨ k ∈ t.keys := by
  induction t with
  | empty =>
    rw [Trie.addGraph] at mem
    split at mem
    · exact Or.inr mem
    · exact Or.inl (by rw [List.mem_singleton.1 mem])
  | entry key sub rest _ ih =>
    rw [Trie.addGraph] at mem
    split at mem
    · rcases List.mem_cons.1 mem with rfl | mem
      · exact Or.inr (List.mem_cons_self ..)
      · exact (ih mem).imp_right (List.mem_cons_of_mem _)
    · rename_i common
      split at mem
      · exact Or.inr mem
      · have head := head_eq_of_lcp common
        split at mem <;> rcases keys_assign mem with rfl | mem
        · exact Or.inl rfl
        · exact Or.inr (List.mem_cons_of_mem _ mem)
        · exact Or.inl ((head_take common).trans head)
        · exact Or.inr (List.mem_cons_of_mem _ mem)

theorem branching_assign {t node : Trie α} {key : List α} (branching : t.Branching)
    (nodeB : node.Branching) (nonempty : key ≠ []) (fresh : ∀ k ∈ t.keys, k.head? ≠ key.head?) :
    (t.assign key node).Branching := by
  induction t with
  | empty => exact ⟨nonempty, by simp [Trie.keys], nodeB, trivial⟩
  | entry k sub rest _ ih =>
    obtain ⟨hk, heads, subB, restB⟩ := branching
    have differ : k.head? ≠ key.head? := fresh k (List.mem_cons_self ..)
    rw [Trie.assign, if_neg fun same => differ (by rw [same])]
    refine ⟨hk, ?_, subB, ih restB fun k' mem => fresh k' (List.mem_cons_of_mem _ mem)⟩
    intro k' mem
    rcases keys_assign mem with rfl | mem
    · exact differ.symm
    · exact heads k' mem

/-- Insertion keeps labels non-empty and siblings different at the head. -/
theorem branching_addGraph {t : Trie α} (branching : t.Branching) (seq : List α) :
    (t.addGraph seq).Branching := by
  induction t generalizing seq with
  | empty =>
    rw [Trie.addGraph]
    split
    · trivial
    · rename_i nonempty
      exact ⟨nonempty, by simp [Trie.keys], trivial, trivial⟩
  | entry key sub rest ihs ihr =>
    obtain ⟨nonempty, heads, subB, restB⟩ := branching
    rw [Trie.addGraph]
    split
    · rename_i none
      refine ⟨nonempty, ?_, subB, ihr restB seq⟩
      intro k mem
      rcases head_addGraph mem with same | mem
      · rw [same]; exact lcp_eq_zero nonempty none
      · exact heads k mem
    · rename_i common
      have head := head_eq_of_lcp common
      split
      · exact ⟨nonempty, heads, ihs subB _, restB⟩
      · rename_i partly
        have left := lcp_le_left key seq
        have rest_ne : key.drop (lcp key seq) ≠ [] := by
          rw [Ne, List.drop_eq_nil_iff]; omega
        split
        · rename_i ends
          refine branching_assign restB ⟨rest_ne, by simp [Trie.keys], subB, trivial⟩ ?_ ?_
          · rintro rfl; exact common (by simpa using ends)
          · rw [← head]; exact heads
        · rename_i leaves
          have right := lcp_le_right key seq
          have tail_ne : seq.drop (lcp key seq) ≠ [] := by
            rw [Ne, List.drop_eq_nil_iff]; omega
          refine branching_assign restB ⟨rest_ne, ?_, subB, tail_ne, by simp [Trie.keys], trivial, trivial⟩
            ?_ ?_
          · simpa [Trie.keys] using lcp_maximal key seq partly
          · rw [Ne, List.take_eq_nil_iff]; tauto
          · rw [head_take common]; exact heads

/-- A trie filled from the empty one is branching, and its paths are the
non-empty prefixes of the inserted sequences. -/
theorem foldl_addGraph (seqs : List (List α)) {t : Trie α} (branching : t.Branching) :
    (seqs.foldl Trie.addGraph t).Branching ∧
      ∀ π, π ∈ (seqs.foldl Trie.addGraph t).paths ↔ π ∈ t.paths ∨ ∃ seq ∈ seqs, Starts π seq := by
  induction seqs generalizing t with
  | nil => exact ⟨branching, by simp⟩
  | cons seq seqs ih =>
    obtain ⟨next, paths⟩ := ih (branching_addGraph branching seq)
    refine ⟨next, fun π => ?_⟩
    rw [List.foldl_cons, paths, mem_paths_addGraph branching]
    simp only [List.mem_cons, exists_eq_or_imp, or_assoc]

end Insertion

/-! ## Walking the free elements -/

section Visits

variable (free : α → Bool)

/-- Elements of a label reached from `prev`, each with its predecessor; the walk
stops at the first element that is not free. -/
def walk (prev : α) : List α → List (α × α)
  | [] => []
  | x :: xs => (x, prev) :: if free x then walk x xs else []

/-- Elements of a trie reached from `prev`, each with its predecessor. -/
def Trie.visits (prev : α) : Trie α → List (α × α)
  | .empty => []
  | .entry key sub rest =>
    walk free prev key ++ (if key.all free then sub.visits (key.getLastD prev) else []) ++
      rest.visits prev

variable {free}

theorem mem_walk {prev q r : α} {key : List α} :
    (q, r) ∈ walk free prev key ↔
      ∃ ρ, ρ ++ [q] <+: key ∧ (∀ x ∈ ρ, free x = true) ∧ r = ρ.getLastD prev := by
  induction key generalizing prev with
  | nil => simp [walk]
  | cons x xs ih =>
    rw [walk, List.mem_cons]
    constructor
    · rintro (same | mem)
      · cases same
        exact ⟨[], by simp, by simp, rfl⟩
      · split at mem
        · rename_i hx
          obtain ⟨ρ, pre, frees, rfl⟩ := ih.1 mem
          refine ⟨x :: ρ, by simpa using pre, by simpa [hx] using frees, ?_⟩
          cases ρ <;> simp [List.getLastD]
        · cases mem
    · rintro ⟨ρ, pre, frees, rfl⟩
      cases ρ with
      | nil =>
        obtain rfl : q = x := by simpa using pre
        exact Or.inl rfl
      | cons y ρ =>
        rw [List.cons_append, List.cons_prefix_cons] at pre
        obtain ⟨rfl, pre⟩ := pre
        rw [if_pos (frees y (List.mem_cons_self ..))]
        refine Or.inr (ih.2 ⟨ρ, pre, fun z mem => frees z (List.mem_cons_of_mem _ mem), ?_⟩)
        cases ρ <;> simp [List.getLastD]

theorem getLastD_append (front back : List α) (d : α) :
    (front ++ back).getLastD d = back.getLastD (front.getLastD d) := by
  rcases List.eq_nil_or_concat back with rfl | ⟨back, x, rfl⟩
  · simp
  · simp [← List.append_assoc]

/-- **The walk visits exactly the ends of the paths whose inner elements are free.** -/
theorem mem_visits {t : Trie α} {prev q r : α} :
    (q, r) ∈ t.visits free prev ↔
      ∃ ρ, ρ ++ [q] ∈ t.paths ∧ (∀ x ∈ ρ, free x = true) ∧ r = ρ.getLastD prev := by
  induction t generalizing prev r with
  | empty => simp [Trie.visits]
  | entry key sub rest ihs ihr =>
    simp only [Trie.visits, List.mem_append, mem_walk, ihr, mem_paths_entry]
    constructor
    · rintro ((⟨ρ, pre, frees, rfl⟩ | mem) | ⟨ρ, mem, frees, rfl⟩)
      · exact ⟨ρ, Or.inl ⟨by simp, pre⟩, frees, rfl⟩
      · split at mem
        · rename_i all
          obtain ⟨σ, below, frees, rfl⟩ := ihs.1 mem
          refine ⟨key ++ σ, Or.inr (Or.inl ⟨_, below, List.append_assoc _ _ _⟩), ?_,
            (getLastD_append _ _ _).symm⟩
          intro x hx
          rcases List.mem_append.1 hx with hx | hx
          · exact List.all_eq_true.1 all x hx
          · exact frees x hx
        · cases mem
      · exact ⟨ρ, Or.inr (Or.inr mem), frees, rfl⟩
    · rintro ⟨ρ, ⟨_, pre⟩ | ⟨σ', mem, same⟩ | mem, frees, rfl⟩
      · exact Or.inl (Or.inl ⟨ρ, pre, frees, rfl⟩)
      · rcases List.eq_nil_or_concat σ' with rfl | ⟨σ, x, rfl⟩
        · exact absurd rfl (Trie.paths_ne_nil [] mem)
        · rw [List.concat_eq_append] at mem same
          rw [← List.append_assoc] at same
          obtain ⟨rfl, last⟩ := List.append_inj' same rfl
          obtain rfl : q = x := by simpa using last
          have all : key.all free = true :=
            List.all_eq_true.2 fun x hx => frees x (List.mem_append_left _ hx)
          rw [if_pos all]
          exact Or.inl (Or.inr (ihs.2 ⟨σ, mem, fun x hx => frees x (List.mem_append_right _ hx),
            getLastD_append _ _ _⟩))
      · exact Or.inr ⟨ρ, mem, frees, rfl⟩

theorem walk_sublist (prev : α) (key : List α) : ((walk free prev key).map Prod.fst).Sublist key := by
  induction key generalizing prev with
  | nil => exact List.Sublist.slnil
  | cons x xs ih =>
    rw [walk]
    split
    · exact (ih x).cons_cons x
    · exact (List.nil_sublist xs).cons_cons x

/-- No element is visited more often than it occurs in the trie. -/
theorem visits_sublist (t : Trie α) (prev : α) :
    ((t.visits free prev).map Prod.fst).Sublist t.elements := by
  induction t generalizing prev with
  | empty => exact List.Sublist.slnil
  | entry key sub rest ihs ihr =>
    simp only [Trie.visits, Trie.elements, List.map_append]
    refine ((walk_sublist prev key).append ?_).append (ihr prev)
    split
    · exact ihs _
    · exact List.nil_sublist _

end Visits

/-! ## The paths of a walk -/

section Reached

variable (free : α → Bool)

/-- The prefixes of a label at whose ends a walk arrives. -/
def reach : List α → List (List α)
  | [] => []
  | x :: xs => [x] :: if free x then (reach xs).map (x :: ·) else []

/-- The element paths at whose ends a walk of the trie arrives. -/
def Trie.reached : Trie α → List (List α)
  | .empty => []
  | .entry key sub rest =>
    reach free key ++ (if key.all free then sub.reached.map (key ++ ·) else []) ++ rest.reached

variable {free}

theorem mem_reach {key π : List α} : π ∈ reach free key ↔ Starts π key ∧ ∀ x ∈ π.dropLast, free x = true := by
  induction key generalizing π with
  | nil =>
    rw [reach]
    exact iff_of_false List.not_mem_nil fun h => not_starts_nil h.1
  | cons x xs ih =>
    rw [reach, List.mem_cons]
    cases π with
    | nil =>
      refine iff_of_false ?_ fun h => h.1.1 rfl
      rintro (same | mem)
      · cases same
      · split at mem
        · obtain ⟨ρ, -, same⟩ := List.mem_map.1 mem
          cases same
        · cases mem
    | cons y ρ =>
      have starts : Starts (y :: ρ) (x :: xs) ↔ y = x ∧ ρ <+: xs := by
        rw [Starts, List.cons_prefix_cons]
        exact and_iff_right (List.cons_ne_nil _ _)
      rw [starts]
      rcases eq_or_ne ρ [] with rfl | more
      · constructor
        · rintro (same | mem)
          · exact ⟨⟨(List.cons.inj same).1, List.nil_prefix⟩, fun z mem => absurd mem List.not_mem_nil⟩
          · split at mem
            · obtain ⟨ρ, below, same⟩ := List.mem_map.1 mem
              obtain ⟨-, rfl⟩ := List.cons.inj same
              exact absurd rfl (ih.1 below).1.1
            · cases mem
        · rintro ⟨⟨rfl, -⟩, -⟩
          exact Or.inl rfl
      · rw [List.dropLast_cons_of_ne_nil more, List.forall_mem_cons]
        constructor
        · rintro (same | mem)
          · exact absurd (List.cons.inj same).2 more
          · split at mem
            · rename_i here
              obtain ⟨ρ, below, same⟩ := List.mem_map.1 mem
              obtain ⟨rfl, rfl⟩ := List.cons.inj same
              exact ⟨⟨rfl, (ih.1 below).1.2⟩, here, (ih.1 below).2⟩
            · cases mem
        · rintro ⟨⟨rfl, pre⟩, here, frees⟩
          rw [if_pos here]
          exact Or.inr (List.mem_map_of_mem (ih.2 ⟨⟨more, pre⟩, frees⟩))

/-- **A walk arrives at the end of each path whose inner elements are free.** -/
theorem mem_reached {t : Trie α} {π : List α} :
    π ∈ t.reached free ↔ π ∈ t.paths ∧ ∀ x ∈ π.dropLast, free x = true := by
  induction t generalizing π with
  | empty => exact iff_of_false List.not_mem_nil fun h => absurd h.1 List.not_mem_nil
  | entry key sub rest ihs ihr =>
    have below (ρ : List α) (nonempty : ρ ≠ []) :
        (∀ x ∈ (key ++ ρ).dropLast, free x = true) ↔ key.all free = true ∧ ∀ x ∈ ρ.dropLast, free x = true := by
      rw [List.dropLast_append_of_ne_nil nonempty, List.forall_mem_append, List.all_eq_true]
    rw [Trie.reached, List.mem_append, List.mem_append, mem_reach, ihr, mem_paths_entry, or_assoc, or_and_right, or_and_right]
    refine or_congr_right (or_congr_left ?_)
    constructor
    · intro mem
      split at mem
      · rename_i all
        obtain ⟨ρ, under, rfl⟩ := List.mem_map.1 mem
        obtain ⟨path, frees⟩ := ihs.1 under
        exact ⟨⟨ρ, path, rfl⟩, (below ρ (Trie.paths_ne_nil ρ path)).2 ⟨all, frees⟩⟩
      · cases mem
    · rintro ⟨⟨ρ, mem, rfl⟩, frees⟩
      obtain ⟨all, frees⟩ := (below ρ (Trie.paths_ne_nil ρ mem)).1 frees
      rw [if_pos all]
      exact List.mem_map_of_mem (ihs.2 ⟨mem, frees⟩)

theorem nodup_reach (key : List α) : (reach free key).Nodup := by
  induction key with
  | nil => exact List.nodup_nil
  | cons x xs ih =>
    rw [reach, List.nodup_cons]
    split
    · refine ⟨?_, ih.map (List.cons_injective)⟩
      intro mem
      obtain ⟨ρ, mem, same⟩ := List.mem_map.1 mem
      obtain ⟨-, rfl⟩ := List.cons.inj same
      exact (mem_reach.1 mem).1.1 rfl
    · exact ⟨List.not_mem_nil, List.nodup_nil⟩

/-- A path below an entry starts as the label does. -/
theorem head_of_mem_paths {t : Trie α} (branching : t.Branching) {π : List α} (mem : π ∈ t.paths) :
    ∃ key ∈ t.keys, π.head? = key.head? := by
  induction t with
  | empty => exact absurd mem List.not_mem_nil
  | entry key sub rest _ ihr =>
    obtain ⟨nonempty, -, -, restB⟩ := branching
    obtain starts | ⟨ρ, -, rfl⟩ | later := mem_paths_entry.1 mem
    · refine ⟨key, List.mem_cons_self .., ?_⟩
      obtain ⟨more, rfl⟩ := starts.2
      exact (List.head?_append_of_ne_nil _ starts.1).symm
    · exact ⟨key, List.mem_cons_self .., List.head?_append_of_ne_nil _ nonempty⟩
    · obtain ⟨k, mem, same⟩ := ihr restB later
      exact ⟨k, List.mem_cons_of_mem _ mem, same⟩

/-- **A walk of a branching trie takes no path twice.** -/
theorem nodup_reached {t : Trie α} (branching : t.Branching) : (t.reached free).Nodup := by
  induction t with
  | empty => exact List.nodup_nil
  | entry key sub rest ihs ihr =>
    obtain ⟨nonempty, heads, subB, restB⟩ := id branching
    rw [Trie.reached, List.nodup_append, List.nodup_append]
    refine ⟨⟨nodup_reach key, ?_, ?_⟩, ihr restB, ?_⟩
    · split
      · exact (ihs subB).map fun ρ ρ' same => List.append_cancel_left same
      · exact List.nodup_nil
    · -- a path inside the label is shorter than one below it
      rintro π inside _ mem rfl
      split at mem
      · obtain ⟨ρ, below, rfl⟩ := List.mem_map.1 mem
        have short := (mem_reach.1 inside).1.2.length_le
        have long := List.length_pos_iff.2 (Trie.paths_ne_nil ρ (mem_reached.1 below).1)
        rw [List.length_append] at short
        omega
      · cases mem
    · rintro π here _ later rfl
      have first : π.head? = key.head? := by
        rcases List.mem_append.1 here with inside | below
        · obtain ⟨starts, -⟩ := mem_reach.1 inside
          obtain ⟨more, rfl⟩ := starts.2
          exact (List.head?_append_of_ne_nil _ starts.1).symm
        · split at below
          · obtain ⟨ρ, -, rfl⟩ := List.mem_map.1 below
            exact List.head?_append_of_ne_nil _ nonempty
          · cases below
      obtain ⟨k, mem, same⟩ := head_of_mem_paths restB (mem_reached.1 later).1
      exact heads k mem (same.symm.trans first)

end Reached

end Radix
