import SlimeBoard.Board.Traverse

/-!
# The straight lines as tries

`add_graph` fills a trie with the lines that leave a square, `traverse_dfs` walks it. The trie holds the
prefixes of the lines and nothing else, and the walk takes each prefix once, as far as the first
occupied square.
-/

namespace SlimeBoard.RailTrie

open Radix

variable {α σ : Type}

section Loops

variable (free : α → Bool) (body : σ → List α → σ)

/-- The inner loop of `traverse_dfs` with `body` for what it does at the square at the end of a path. -/
def pathLoop (taken : List α) : List α → σ → σ × Option (List α)
  | [], acc => (acc, some taken)
  | pos :: path, acc =>
    if free pos then pathLoop (taken ++ [pos]) path (body acc (taken ++ [pos]))
    else (body acc (taken ++ [pos]), none)

/-- The loops of `traverse_dfs`. -/
def dfsLoop : Trie α → List α → σ → σ
  | .empty, _, acc => acc
  | .entry path subtree rest, taken, acc =>
    match pathLoop free body taken path acc with
    | (acc, some further) => dfsLoop rest taken (dfsLoop subtree further acc)
    | (acc, none) => dfsLoop rest taken acc

end Loops

/-- The paths at whose ends the loops run their body, in order. -/
def dfsLog (free : α → Bool) (graph : Trie α) : List (List α) := dfsLoop free (fun log path => log ++ [path]) graph [] []

/-- The trie has the prefixes of the sequences. -/
structure Holds (seqs : List (List α)) (trie : Trie α) : Prop where
  paths : ∀ path, path ∈ trie.paths ↔ ∃ seq ∈ seqs, path ≠ [] ∧ path <+: seq
  branching : trie.Branching

/-- Each prefix is visited once, if no square before its last is occupied. -/
structure Visits (seqs : List (List α)) (free : α → Bool) (log : List (List α)) : Prop where
  once : log.Nodup
  reached : ∀ path, path ∈ log ↔ (∃ seq ∈ seqs, path ≠ [] ∧ path <+: seq) ∧ ∀ pos ∈ path.dropLast, free pos = true

section Loops

variable {free : α → Bool} {body : σ → List α → σ}

theorem pathLoop_eq (taken path : List α) (acc : σ) :
    pathLoop free body taken path acc =
      (((reach free path).map (taken ++ ·)).foldl body acc, if path.all free then some (taken ++ path) else none) := by
  induction path generalizing taken acc with
  | nil =>
    rw [pathLoop, reach, List.append_nil]
    rfl
  | cons pos path ih =>
    rw [pathLoop, reach, List.map_cons, List.foldl_cons, List.all_cons]
    by_cases here : free pos = true
    · have shift (ρ : List α) : taken ++ [pos] ++ ρ = taken ++ pos :: ρ := List.append_assoc ..
      rw [if_pos here, if_pos here, ih, here, Bool.true_and, List.map_map, shift]
      exact congrArg (Prod.mk · _) (congrArg (List.foldl body _ ·) (List.map_congr_left fun ρ _ => shift ρ))
    · rw [if_neg here, if_neg here, Bool.not_eq_true _ |>.mp here]
      rfl

theorem dfsLoop_eq (graph : Trie α) (taken : List α) (acc : σ) :
    dfsLoop free body graph taken acc = ((graph.reached free).map (taken ++ ·)).foldl body acc := by
  induction graph generalizing taken acc with
  | empty => rfl
  | entry path subtree rest ihs ihr =>
    rw [dfsLoop, pathLoop_eq, Trie.reached, List.map_append, List.map_append, List.foldl_append, List.foldl_append]
    by_cases all : path.all free = true
    · have shift : (fun ρ => taken ++ path ++ ρ) = (taken ++ ·) ∘ (path ++ ·) := funext fun ρ => List.append_assoc ..
      rw [if_pos all, if_pos all, List.map_map, ← shift]
      dsimp only
      rw [ihr, ihs]
    · rw [if_neg all, if_neg all]
      exact ihr ..

theorem dfsLog_eq (graph : Trie α) : dfsLog free graph = graph.reached free := by
  have append (paths log : List (List α)) : paths.foldl (fun log path => log ++ [path]) log = log ++ paths := by
    induction paths generalizing log with
    | nil => exact (List.append_nil log).symm
    | cons path paths ih => rw [List.foldl_cons, ih, List.append_assoc, List.singleton_append]
  rw [dfsLog, dfsLoop_eq, append]
  simp

end Loops

/-! ## The search along the lines -/

/-- What `traverse_dfs` does at the end of a path. -/
def visitEnd (pos2piece : Dict Pos Piece) (startPos : Pos) (acc : Traversal) (path : List Pos) : Traversal :=
  acc.visit pos2piece (attacks (pos2piece.lookup startPos)) (path.getLastD startPos) (path.dropLast.getLastD startPos)

section Search

variable {pos2piece : Dict Pos Piece} {startPos : Pos}

theorem walkPath_eq_pathLoop (taken path : List Pos) (acc : Traversal) :
    walkPath pos2piece (attacks (pos2piece.lookup startPos)) (taken.getLastD startPos) path acc =
      ((pathLoop (isFree pos2piece) (visitEnd pos2piece startPos) taken path acc).1,
        (pathLoop (isFree pos2piece) (visitEnd pos2piece startPos) taken path acc).2.map (·.getLastD startPos)) := by
  induction path generalizing taken acc with
  | nil => rfl
  | cons pos path ih =>
    have last : (taken ++ [pos]).getLastD startPos = pos := by simp
    have visit : visitEnd pos2piece startPos acc (taken ++ [pos]) =
        acc.visit pos2piece (attacks (pos2piece.lookup startPos)) pos (taken.getLastD startPos) := by
      rw [visitEnd, last, List.dropLast_concat]
    rw [walkPath, pathLoop, visit]
    split
    · have next := ih (taken ++ [pos]) (acc.visit pos2piece (attacks (pos2piece.lookup startPos)) pos (taken.getLastD startPos))
      rw [last] at next
      exact next
    · rfl

theorem dfs_eq_dfsLoop (graph : Trie Pos) (taken : List Pos) (acc : Traversal) :
    dfs pos2piece (attacks (pos2piece.lookup startPos)) graph (taken.getLastD startPos) acc =
      dfsLoop (isFree pos2piece) (visitEnd pos2piece startPos) graph taken acc := by
  induction graph generalizing taken acc with
  | empty => rfl
  | entry path subtree rest ihs ihr =>
    rw [dfs, dfsLoop, walkPath_eq_pathLoop]
    rcases pathLoop (isFree pos2piece) (visitEnd pos2piece startPos) taken path acc with ⟨acc, _ | further⟩
    · exact ihr taken acc
    · dsimp only [Option.map_some]
      rw [ihs, ihr]

end Search

theorem visits_of_holds {seqs : List (List α)} {trie : Trie α} (holds : Holds seqs trie) (free : α → Bool) :
    Visits seqs free (dfsLog free trie) where
  once := by
    rw [dfsLog_eq]
    exact nodup_reached holds.branching
  reached := fun path => by rw [dfsLog_eq, mem_reached, holds.paths]

section Insertion

variable [DecidableEq α]

theorem holds_addGraph (seqs : List (List α)) : Holds seqs (seqs.foldl Trie.addGraph .empty) := by
  obtain ⟨branching, paths⟩ := foldl_addGraph seqs (t := .empty) trivial
  refine ⟨fun path => ?_, branching⟩
  rw [paths, paths_empty]
  exact or_iff_right List.not_mem_nil

/-- **Whatever sequences are inserted in whatever order, the trie has their prefixes and the search visits
each prefix once, as far as the first occupied square.** -/
theorem rail_trie_exact (seqs : List (List α)) :
    Holds seqs (seqs.foldl Trie.addGraph .empty) ∧
    (∀ seqs' : List (List α), seqs'.Perm seqs → ∀ path,
      path ∈ (seqs'.foldl Trie.addGraph .empty).paths ↔ path ∈ (seqs.foldl Trie.addGraph .empty).paths) ∧
    (∀ free : α → Bool, Visits seqs free (dfsLog free (seqs.foldl Trie.addGraph .empty))) ∧
    ∀ (pos2piece : Dict Pos Piece) (startPos : Pos) (graph : Pos → Trie Pos), traverseDfs pos2piece startPos graph =
      dfsLoop (isFree pos2piece) (visitEnd pos2piece startPos) (graph startPos) [] .empty := by
  refine ⟨holds_addGraph seqs, ?_, visits_of_holds (holds_addGraph seqs), ?_⟩
  · intro seqs' perm path
    rw [(holds_addGraph seqs').paths, (holds_addGraph seqs).paths]
    simp only [perm.mem_iff]
  · intro pos2piece startPos graph
    exact dfs_eq_dfsLoop (graph startPos) [] .empty

end Insertion

end SlimeBoard.RailTrie
