import Mathlib

/-!
# Forests of path segments

A radix tree is kept as its nodes: a node is the path from the root to its end, together with the
length of the path to its parent. The positions between the two are the cells of the node. In a forest
every cell belongs to one node only, and the parent of every node is there.
-/

namespace Segments

variable {α : Type}

/-- A node: its path, and where the path of its parent ends. -/
structure Seg (α : Type) where
  path : List α
  start : Nat

/-- The positions that belong to a node, as paths from the root. -/
def Seg.cells (s : Seg α) : List (List α) :=
  (List.range' s.start (s.path.length - s.start)).map fun i => s.path.take (i + 1)

def cells (segs : List (Seg α)) : List (List α) := segs.flatMap Seg.cells

structure Forest (segs : List (Seg α)) : Prop where
  lt : ∀ s ∈ segs, s.start < s.path.length
  parent : ∀ s ∈ segs, s.start = 0 ∨ ∃ t ∈ segs, t.path = s.path.take s.start
  nodup : (cells segs).Nodup

variable {s t : Seg α} {segs : List (Seg α)} {q r : List α}

theorem mem_cells_seg : q ∈ s.cells ↔ q <+: s.path ∧ s.start < q.length := by
  simp only [Seg.cells, List.mem_map, List.mem_range'_1]
  constructor
  · rintro ⟨i, ⟨ge, lt⟩, rfl⟩
    refine ⟨List.take_prefix .., ?_⟩
    rw [List.length_take]
    omega
  · rintro ⟨pre, lt⟩
    have le := pre.length_le
    refine ⟨q.length - 1, ⟨by omega, by omega⟩, ?_⟩
    rw [show q.length - 1 + 1 = q.length by omega]
    exact (List.prefix_iff_eq_take.1 pre).symm

theorem mem_cells : q ∈ cells segs ↔ ∃ s ∈ segs, q <+: s.path ∧ s.start < q.length := by
  simp only [cells, List.mem_flatMap, mem_cells_seg]

theorem length_cells_seg : s.cells.length = s.path.length - s.start := by
  rw [Seg.cells, List.length_map, List.length_range']

namespace Forest

variable (forest : Forest segs)
include forest

/-- A cell belongs to one node. -/
theorem unique (hs : s ∈ segs) (ht : t ∈ segs) (qs : q <+: s.path) (ls : s.start < q.length) (qt : q <+: t.path)
    (lt : t.start < q.length) : s = t := by
  by_contra apart
  have disjoint := (List.nodup_flatMap.1 forest.nodup).2
  have : Std.Symm (Function.onFun List.Disjoint (Seg.cells : Seg α → List (List α))) := ⟨fun _ _ h => h.symm⟩
  exact disjoint.forall hs ht apart (mem_cells_seg.2 ⟨qs, ls⟩) (mem_cells_seg.2 ⟨qt, lt⟩)

theorem nodup_paths : (segs.map Seg.path).Nodup := by
  rw [List.Nodup, List.pairwise_map]
  refine (List.nodup_flatMap.1 forest.nodup).2.imp_of_mem fun {s t} hs ht disjoint same => ?_
  refine disjoint (mem_cells_seg.2 ⟨List.prefix_refl _, forest.lt s hs⟩) (mem_cells_seg.2 ⟨?_, ?_⟩)
  · exact same ▸ List.prefix_refl _
  · exact same ▸ forest.lt t ht

theorem unique_path (hs : s ∈ segs) (ht : t ∈ segs) (same : s.path = t.path) : s = t :=
  forest.unique hs ht (List.prefix_refl _) (forest.lt s hs) (same ▸ List.prefix_refl _) (same ▸ forest.lt t ht)

/-- The cells on the way to a node belong to nodes on the way. -/
theorem chain (hs : s ∈ segs) (pre : q <+: s.path) (ne : q ≠ []) :
    ∃ t ∈ segs, t.path <+: s.path ∧ q <+: t.path ∧ t.start < q.length := by
  induction len : s.path.length using Nat.strong_induction_on generalizing s with
  | _ n ih =>
    subst len
    by_cases here : s.start < q.length
    · exact ⟨s, hs, List.prefix_refl _, pre, here⟩
    · obtain zero | ⟨t, ht, path⟩ := forest.parent s hs
      · have := List.length_pos_iff.2 ne
        omega
      · have lt := forest.lt s hs
        have up : t.path <+: s.path := path ▸ List.take_prefix ..
        have shorter : t.path.length < s.path.length := by
          rw [path, List.length_take]
          omega
        have inside : q <+: t.path := by
          rw [path]
          exact List.prefix_take_iff.2 ⟨pre, by omega⟩
        obtain ⟨u, hu, uUp, rest⟩ := ih _ shorter ht inside rfl
        exact ⟨u, hu, uUp.trans up, rest⟩

/-- A node on the way to another ends before the other starts. -/
theorem between (hs : s ∈ segs) (ht : t ∈ segs) (up : t.path <+: s.path) (ne : t ≠ s) : t.path.length ≤ s.start := by
  by_contra after
  exact ne (forest.unique ht hs (List.prefix_refl _) (forest.lt t ht) up (by omega))

/-- Cells are closed under prefixes. -/
theorem closed (mem : q ∈ cells segs) (pre : r <+: q) (ne : r ≠ []) : r ∈ cells segs := by
  obtain ⟨s, hs, qs, _⟩ := mem_cells.1 mem
  obtain ⟨t, ht, _, rest⟩ := forest.chain hs (pre.trans qs) ne
  exact mem_cells.2 ⟨t, ht, rest⟩

/-- After a node, or at the root, a cell starts a child. -/
theorem child_of_cell {x : α} (node : q = [] ∨ ∃ s ∈ segs, s.path = q) (mem : q ++ [x] ∈ cells segs) :
    ∃ s ∈ segs, s.start = q.length ∧ q ++ [x] <+: s.path := by
  obtain ⟨s, hs, pre, lt⟩ := mem_cells.1 mem
  refine ⟨s, hs, ?_, pre⟩
  rw [List.length_append, List.length_singleton] at lt
  by_contra apart
  obtain rfl | ⟨t, ht, rfl⟩ := node
  · exact apart (by rw [List.length_nil] at *; omega)
  · have same := forest.unique hs ht ((List.prefix_append ..).trans pre) (by omega) (List.prefix_refl _) (forest.lt t ht)
    subst same
    have := pre.length_le
    rw [List.length_append, List.length_singleton] at this
    omega

/-- A new node below a node or the root. -/
theorem append {key : List α} {x : α} (node : q = [] ∨ ∃ s ∈ segs, s.path = q) (head : key.head? = some x)
    (absent : q ++ [x] ∉ cells segs) : Forest (segs ++ [⟨q ++ key, q.length⟩]) := by
  obtain ⟨rest, rfl⟩ : ∃ rest, key = x :: rest := List.head?_eq_some_iff.1 head
  refine ⟨?_, ?_, ?_⟩
  · intro s mem
    obtain mem | mem := List.mem_append.1 mem
    · exact forest.lt s mem
    · obtain rfl := List.mem_singleton.1 mem
      show q.length < (q ++ x :: rest).length
      rw [List.length_append, List.length_cons]
      omega
  · intro s mem
    obtain mem | mem := List.mem_append.1 mem
    · exact (forest.parent s mem).imp id fun ⟨t, ht, same⟩ => ⟨t, List.mem_append_left _ ht, same⟩
    · obtain rfl := List.mem_singleton.1 mem
      refine node.imp (fun nil => by rw [nil]; rfl) fun ⟨t, ht, same⟩ => ⟨t, List.mem_append_left _ ht, ?_⟩
      rw [same]
      exact (List.take_left ..).symm
  · have own : (Seg.cells ⟨q ++ x :: rest, q.length⟩).Nodup := by
      refine List.Nodup.map_on (fun i memI j memJ same => ?_) List.nodup_range'
      have := congrArg List.length same
      rw [List.length_take, List.length_take] at this
      rw [List.mem_range'_1] at memI memJ
      dsimp only at this memI memJ
      omega
    rw [cells, List.flatMap_append, List.flatMap_singleton]
    refine forest.nodup.append own fun c old new => absent (forest.closed old ?_ (by simp))
    obtain ⟨pre, lt⟩ := mem_cells_seg.1 new
    refine List.prefix_of_prefix_length_le ?_ pre ?_
    · exact ⟨rest, by rw [List.append_assoc]; rfl⟩
    · rw [List.length_append, List.length_singleton]
      exact lt

/-- A node without children can go. -/
theorem remove [DecidableEq α] {x : List α} (leaf : ∀ s ∈ segs, s.start ≠ 0 → s.path.take s.start ≠ x) :
    Forest (segs.filter (·.path ≠ x)) := by
  refine ⟨fun s mem => forest.lt s (List.mem_of_mem_filter mem), fun s mem => ?_, ?_⟩
  · have hs := List.mem_of_mem_filter mem
    by_cases zero : s.start = 0
    · exact .inl zero
    · obtain zero' | ⟨t, ht, same⟩ := forest.parent s hs
      · exact absurd zero' zero
      · refine .inr ⟨t, List.mem_filter.2 ⟨ht, decide_eq_true ?_⟩, same⟩
        rw [same]
        exact leaf s hs zero
  · exact forest.nodup.sublist (List.filter_sublist.flatMap _)

end Forest

/-! ## Splitting a node -/

/-- The upper and the lower part of a node, split after `k` of its cells. -/
def Seg.split (s : Seg α) (k : Nat) : List (Seg α) := [⟨s.path.take (s.start + k), s.start⟩, ⟨s.path, s.start + k⟩]

theorem cells_split {k : Nat} (lt : s.start + k ≤ s.path.length) : (s.split k).flatMap Seg.cells = s.cells := by
  have upper : (s.path.take (s.start + k)).length - s.start = k := by
    rw [List.length_take]
    omega
  have count : s.path.length - s.start = k + (s.path.length - (s.start + k)) := by omega
  simp only [Seg.split, List.flatMap_cons, List.flatMap_nil, List.append_nil, Seg.cells, upper]
  rw [count, ← List.range'_append_1, List.map_append]
  refine congrArg (· ++ _) (List.map_congr_left fun i mem => ?_)
  rw [List.mem_range'_1] at mem
  rw [List.take_take, Nat.min_eq_left (by omega)]

/-- The nodes after one of them is split. -/
def splitAt [DecidableEq α] (segs : List (Seg α)) (path : List α) (k : Nat) : List (Seg α) :=
  segs.flatMap fun s => if s.path = path then s.split k else [s]

theorem mem_splitAt [DecidableEq α] {path : List α} {k : Nat} :
    t ∈ splitAt segs path k ↔ ∃ s ∈ segs, if s.path = path then t ∈ s.split k else t = s := by
  rw [splitAt, List.mem_flatMap]
  refine exists_congr fun s => and_congr_right fun _ => ?_
  split
  · rfl
  · exact List.mem_singleton

section Split

variable [DecidableEq α] (forest : Forest segs) (hs : s ∈ segs) {k : Nat}
include forest hs

theorem Forest.mem_splitAt : t ∈ splitAt segs s.path k ↔ t ∈ s.split k ∨ t ∈ segs ∧ t.path ≠ s.path := by
  rw [Segments.mem_splitAt]
  constructor
  · rintro ⟨u, hu, mem⟩
    by_cases same : u.path = s.path
    · rw [if_pos same, forest.unique_path hu hs same] at mem
      exact .inl mem
    · rw [if_neg same] at mem
      exact .inr ⟨mem ▸ hu, mem ▸ same⟩
  · rintro (mem | ⟨mem, apart⟩)
    · exact ⟨s, hs, by rwa [if_pos rfl]⟩
    · exact ⟨t, mem, by rw [if_neg apart]⟩

/-- A split keeps the cells. -/
theorem Forest.cells_splitAt (lt : s.start + k < s.path.length) : cells (splitAt segs s.path k) = cells segs := by
  unfold cells splitAt
  rw [List.flatMap_assoc]
  refine List.flatMap_congr fun t ht => ?_
  by_cases same : t.path = s.path
  · obtain rfl := forest.unique_path ht hs same
    rw [if_pos rfl]
    exact cells_split lt.le
  · rw [if_neg same, List.flatMap_singleton]

theorem Forest.path_splitAt {u : Seg α} (hu : u ∈ segs) : ∃ t ∈ splitAt segs s.path k, t.path = u.path := by
  by_cases same : u.path = s.path
  · refine ⟨⟨s.path, s.start + k⟩, (forest.mem_splitAt hs).2 (.inl ?_), same.symm⟩
    exact List.mem_cons_of_mem _ (List.mem_singleton_self _)
  · exact ⟨u, (forest.mem_splitAt hs).2 (.inr ⟨hu, same⟩), rfl⟩

theorem Forest.splitAt (pos : 0 < k) (lt : s.start + k < s.path.length) : Forest (splitAt segs s.path k) := by
  have upper : (s.path.take (s.start + k)).length = s.start + k := by
    rw [List.length_take]
    omega
  refine ⟨fun t ht => ?_, fun t ht => ?_, forest.cells_splitAt hs lt ▸ forest.nodup⟩
  · obtain mem | ⟨mem, _⟩ := (forest.mem_splitAt hs).1 ht
    · simp only [Seg.split, List.mem_cons, List.not_mem_nil, or_false] at mem
      obtain rfl | rfl := mem
      · show s.start < (s.path.take (s.start + k)).length
        omega
      · exact lt
    · exact forest.lt t mem
  · obtain mem | ⟨mem, _⟩ := (forest.mem_splitAt hs).1 ht
    · simp only [Seg.split, List.mem_cons, List.not_mem_nil, or_false] at mem
      obtain rfl | rfl := mem
      · refine (forest.parent s hs).imp id fun ⟨u, hu, same⟩ => ?_
        obtain ⟨t, ht, path⟩ := forest.path_splitAt hs (k := k) hu
        refine ⟨t, ht, ?_⟩
        rw [path, same, List.take_take, Nat.min_eq_left (Nat.le_add_right ..)]
      · exact .inr ⟨_, (forest.mem_splitAt hs).2 (.inl (List.mem_cons_self ..)), rfl⟩
    · refine (forest.parent t mem).imp id fun ⟨u, hu, same⟩ => ?_
      obtain ⟨t', ht', path⟩ := forest.path_splitAt hs (k := k) hu
      exact ⟨t', ht', path.trans same⟩

end Split

end Segments
