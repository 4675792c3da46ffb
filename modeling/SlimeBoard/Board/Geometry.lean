import SlimeBoard.Board.Squares

/-!
# Facts about the movement tables

The straight paths from a square are the sections of the railway lines that
start there, read in either direction (`mem_straight`); symmetry and rotation of
the straight moves follow from the list of lines. The neighbour tables are
finite, so their facts are Boolean checks over all squares, evaluated once.
-/

namespace SlimeBoard

open Radix

/-! ## Straight paths -/

namespace Straight

/-- Everything `add_seqs` inserts, as pairs of a square and a sequence. -/
def insertions (seqs : List (List Pos)) : List (Pos × List Pos) :=
  seqs.flatMap fun seq => seq.zipIdx.flatMap fun entry =>
    [(entry.1, (seq.take entry.2).reverse), (entry.1, seq.drop (entry.2 + 1))]

theorem addSeqs_eq (graph : Pos → Trie Pos) (seqs : List (List Pos)) :
    addSeqs graph seqs = (insertions seqs).foldl (fun graph ins => addTo graph ins.1 ins.2) graph := by
  simp only [addSeqs, insertions, List.foldl_flatMap]
  rfl

/-- Insertions at other squares do not matter. -/
theorem foldl_addTo (ins : List (Pos × List Pos)) (graph : Pos → Trie Pos) (pos : Pos) :
    ins.foldl (fun graph ins => addTo graph ins.1 ins.2) graph pos =
      ((ins.filter (fun i => i.1 = pos)).map Prod.snd).foldl Trie.addGraph (graph pos) := by
  induction ins generalizing graph with
  | nil => rfl
  | cons i ins ih =>
    rw [List.foldl_cons, ih]
    by_cases same : i.1 = pos
    · simp [addTo, same]
    · simp [addTo, same, Ne.symm same]

end Straight

theorem infix_iff_drop {l π : List Pos} {pos : Pos} :
    pos :: π <:+: l ↔ ∃ i, l[i]? = some pos ∧ π <+: l.drop (i + 1) := by
  constructor
  · rintro ⟨u, v, rfl⟩
    refine ⟨u.length, by simp, ?_⟩
    have split : u ++ pos :: π ++ v = (u ++ [pos]) ++ (π ++ v) := by simp
    rw [split, List.drop_left' (by simp)]
    exact List.prefix_append π v
  · rintro ⟨i, found, v, tail⟩
    obtain ⟨bound, found⟩ := List.getElem?_eq_some_iff.1 found
    refine ⟨l.take i, v, ?_⟩
    rw [List.append_assoc, List.cons_append, tail, ← found, List.getElem_cons_drop,
      List.take_append_drop]

theorem infix_reverse_iff_take {l π : List Pos} {pos : Pos} :
    pos :: π <:+: l.reverse ↔ ∃ i, l[i]? = some pos ∧ π <+: (l.take i).reverse := by
  rw [← List.reverse_infix, List.reverse_reverse, List.reverse_cons]
  constructor
  · rintro ⟨u, v, rfl⟩
    refine ⟨(u ++ π.reverse).length, by simp, ?_⟩
    rw [List.append_assoc, List.append_assoc, ← List.append_assoc u, List.take_left']
    · simp
    · rfl
  · rintro ⟨i, found, v, tail⟩
    obtain ⟨bound, found⟩ := List.getElem?_eq_some_iff.1 found
    refine ⟨v.reverse, l.drop (i + 1), ?_⟩
    have front := congrArg List.reverse tail
    rw [List.reverse_reverse, List.reverse_append] at front
    rw [← List.append_assoc, front, List.append_assoc, List.singleton_append, ← found,
      List.getElem_cons_drop, List.take_append_drop]

/-- **The straight paths are the sections of the lines, in either direction.** -/
theorem mem_straight {pos : Pos} {π : List Pos} :
    π ∈ (POS2STRAIGHT pos).paths ↔
      π ≠ [] ∧ ∃ l ∈ railLines, pos :: π <:+: l ∨ pos :: π <:+: l.reverse := by
  rw [POS2STRAIGHT, Straight.addSeqs_eq, Straight.foldl_addTo, (foldl_addGraph _ (by trivial)).2]
  simp only [paths_empty, List.not_mem_nil, false_or, List.mem_map, List.mem_filter,
    Straight.insertions, List.mem_flatMap, Starts]
  constructor
  · rintro ⟨seq, ⟨⟨a, seq'⟩, ⟨⟨l, mem, ⟨b, i⟩, found, cases⟩, same⟩, rfl⟩, nonempty, pre⟩
    rw [List.mem_zipIdx_iff_getElem?] at found
    simp only [List.mem_cons, Prod.mk.injEq, List.not_mem_nil, or_false, decide_eq_true_eq]
      at found cases same
    subst same
    refine ⟨nonempty, l, mem, ?_⟩
    rcases cases with ⟨rfl, rfl⟩ | ⟨rfl, rfl⟩
    · exact Or.inr (infix_reverse_iff_take.2 ⟨i, found, pre⟩)
    · exact Or.inl (infix_iff_drop.2 ⟨i, found, pre⟩)
  · rintro ⟨nonempty, l, mem, part | part⟩
    · obtain ⟨i, found, pre⟩ := infix_iff_drop.1 part
      refine ⟨_, ⟨(pos, l.drop (i + 1)), ⟨⟨l, mem, (pos, i), ?_, by simp⟩, by simp⟩, rfl⟩, nonempty, pre⟩
      rwa [List.mem_zipIdx_iff_getElem?]
    · obtain ⟨i, found, pre⟩ := infix_reverse_iff_take.1 part
      refine ⟨_, ⟨(pos, (l.take i).reverse), ⟨⟨l, mem, (pos, i), ?_, by simp⟩, by simp⟩, rfl⟩, nonempty, pre⟩
      rwa [List.mem_zipIdx_iff_getElem?]

/-- A straight path can be walked back. -/
theorem straight_symm {pos d : Pos} {ρ : List Pos} (h : ρ ++ [d] ∈ (POS2STRAIGHT pos).paths) :
    ρ.reverse ++ [pos] ∈ (POS2STRAIGHT d).paths := by
  obtain ⟨_, l, mem, h⟩ := mem_straight.1 h
  refine mem_straight.2 ⟨by simp, l, mem, ?_⟩
  have flip : d :: (ρ.reverse ++ [pos]) = (pos :: (ρ ++ [d])).reverse := by simp
  rw [flip]
  rcases h with h | h
  · exact Or.inr (List.reverse_infix.2 h)
  · exact Or.inl (by rw [← List.reverse_infix, List.reverse_reverse]; exact h)

/-- Paths are closed under non-empty prefixes. -/
theorem straight_prefixes {pos : Pos} {π ρ : List Pos} (h : ρ ∈ (POS2STRAIGHT pos).paths)
    (nonempty : π ≠ []) (pre : π <+: ρ) : π ∈ (POS2STRAIGHT pos).paths := by
  obtain ⟨_, l, mem, h⟩ := mem_straight.1 h
  have shorter : pos :: π <:+: pos :: ρ := ((List.prefix_cons_inj pos).2 pre).isInfix
  exact mem_straight.2 ⟨nonempty, l, mem, h.imp shorter.trans shorter.trans⟩

theorem railLines_nodup : ∀ l ∈ railLines, l.Nodup := by decide +kernel

/-- A straight path meets no square twice and does not return to its start. -/
theorem straight_nodup {pos : Pos} {π : List Pos} (h : π ∈ (POS2STRAIGHT pos).paths) :
    (pos :: π).Nodup := by
  obtain ⟨_, l, mem, h⟩ := mem_straight.1 h
  have nodup := railLines_nodup l mem
  rcases h with h | h
  · exact nodup.sublist h.sublist
  · exact (List.nodup_reverse.2 nodup).sublist h.sublist

theorem railLines_transform : ∀ l ∈ railLines,
    l.map transformPos ∈ railLines ∨ (l.map transformPos).reverse ∈ railLines := by
  decide +kernel

/-- The straight lines are invariant under the rotation. -/
theorem straight_transform {pos : Pos} {π : List Pos} (h : π ∈ (POS2STRAIGHT pos).paths) :
    π.map transformPos ∈ (POS2STRAIGHT (transformPos pos)).paths := by
  obtain ⟨nonempty, l, mem, h⟩ := mem_straight.1 h
  refine mem_straight.2 ⟨by simpa using nonempty, ?_⟩
  rw [← List.map_cons]
  have turned : (pos :: π).map transformPos <:+: l.map transformPos ∨
      (pos :: π).map transformPos <:+: (l.map transformPos).reverse := by
    rw [← List.map_reverse]
    exact h.imp (fun h => h.map transformPos) (fun h => h.map transformPos)
  rcases railLines_transform l mem with mem | mem
  · exact ⟨_, mem, turned⟩
  · refine ⟨_, mem, ?_⟩
    rw [List.reverse_reverse]
    exact turned.symm

/-! ## Finite checks -/

/-- A Boolean check on every square. -/
def allSquares (check : Pos → Bool) : Bool := (List.finRange 129).all check

theorem of_allSquares {check : Pos → Bool} (h : allSquares check = true) (pos : Pos) :
    check pos = true :=
  List.all_eq_true.1 h pos (List.mem_finRange pos)

/-- The squares next to `pos` off the railway. -/
def nearby (pos : Pos) : List Pos := POS2PLAIN pos ++ POS2CAMP pos ++ POS2FLAG pos

/-- The squares `get_moves` inspects next to `pos` for influenced pieces. -/
def nearbyBack (pos : Pos) : List Pos := POS2PLAIN pos ++ POS2CAMP pos ++ FLAG2POS pos

/-- What holds around every square: the straight squares and the neighbours are
pairwise different and differ from the square; the railway stays on the railway
and the neighbours of a railway square are off it; whoever looks at a square from
nearby is seen from it; only the camp table leads into camps; and nothing leads
out of a headquarters. -/
def squareCheck (pos : Pos) : Bool :=
  decide (pos :: ((POS2STRAIGHT pos).elements ++ nearby pos)).Nodup &&
  (POS2ANY pos).all (fun d => !(POS2ANY d).isEmpty) &&
  ((POS2ANY pos).isEmpty || (nearby pos).all (fun d => (POS2ANY d).isEmpty)) &&
  (nearby pos).all (fun d => (nearbyBack d).contains pos) &&
  ((POS2STRAIGHT pos).elements ++ POS2ANY pos ++ POS2PLAIN pos ++ POS2FLAG pos).all
    (fun d => !camps.contains d) &&
  (!headquarters.contains pos ||
    (POS2STRAIGHT pos).elements.isEmpty && (POS2ANY pos).isEmpty && (nearby pos).isEmpty)

/-- The neighbour tables are invariant under the rotation. -/
def transformCheck (pos : Pos) : Bool :=
  (POS2PLAIN pos).all (fun d => (POS2PLAIN (transformPos pos)).contains (transformPos d)) &&
  (POS2CAMP pos).all (fun d => (POS2CAMP (transformPos pos)).contains (transformPos d)) &&
  (POS2FLAG pos).all (fun d => (POS2FLAG (transformPos pos)).contains (transformPos d)) &&
  (POS2ANY pos).all (fun d => (POS2ANY (transformPos pos)).contains (transformPos d))

theorem squareCheck_all : allSquares squareCheck = true := by decide +kernel

theorem transformCheck_all : allSquares transformCheck = true := by decide +kernel

theorem square_facts (pos : Pos) :
    (pos :: ((POS2STRAIGHT pos).elements ++ nearby pos)).Nodup ∧
    (∀ d ∈ POS2ANY pos, POS2ANY d ≠ []) ∧
    (POS2ANY pos = [] ∨ ∀ d ∈ nearby pos, POS2ANY d = []) ∧
    (∀ d ∈ nearby pos, pos ∈ nearbyBack d) ∧
    (∀ d ∈ (POS2STRAIGHT pos).elements ++ POS2ANY pos ++ POS2PLAIN pos ++ POS2FLAG pos, d ∉ camps) ∧
    (pos ∉ headquarters ∨
      (POS2STRAIGHT pos).elements = [] ∧ POS2ANY pos = [] ∧ nearby pos = []) := by
  have := of_allSquares squareCheck_all pos
  simpa only [squareCheck, Bool.and_eq_true, Bool.or_eq_true, decide_eq_true_eq, List.all_eq_true,
    List.isEmpty_iff, Bool.not_eq_true', List.isEmpty_eq_false_iff, List.contains_iff_mem,
    List.contains_eq_mem, decide_eq_false_iff_not, and_assoc] using this

theorem transform_facts (pos : Pos) :
    (∀ d ∈ POS2PLAIN pos, transformPos d ∈ POS2PLAIN (transformPos pos)) ∧
    (∀ d ∈ POS2CAMP pos, transformPos d ∈ POS2CAMP (transformPos pos)) ∧
    (∀ d ∈ POS2FLAG pos, transformPos d ∈ POS2FLAG (transformPos pos)) ∧
    (∀ d ∈ POS2ANY pos, transformPos d ∈ POS2ANY (transformPos pos)) := by
  have := of_allSquares transformCheck_all pos
  simpa only [transformCheck, Bool.and_eq_true, List.all_eq_true, List.contains_iff_mem,
    and_assoc] using this

end SlimeBoard
