import SlimeBoard.Rollout.RadixCache

/-!
# The tree of the radix cache

Every operation of the radix cache keeps the tree sound: each cached token sequence is held by one node,
the sizes count the unlocked and the locked tokens, the evictable leaves are the unlocked nodes without
children, and a node is locked by the references below it.
-/

namespace SlimeBoard.RadixCache

open Segments

variable {α β : Type}

/-! ## What a cache holds -/

/-- The token sequences that end in a node, with the value of the last token. -/
def TreeNode.entries (node : TreeNode α β) : List (List α × β) := node.seg.cells.zip node.value

namespace Cache

variable (c : Cache α β)

def segs : List (Seg α) := c.nodes.map TreeNode.seg

def entries : List (List α × β) := c.nodes.flatMap TreeNode.entries

def values : List β := c.nodes.flatMap TreeNode.value

/-- The values of the prefixes of a path. -/
def Along (path : List α) (values : List β) : Prop :=
  values.length = path.length ∧ ∀ i v, values[i]? = some v → (path.take (i + 1), v) ∈ c.entries

/-- A path that refers to a node or the root. -/
def IsNode (path : List α) : Prop := path = [] ∨ ∃ node ∈ c.nodes, node.path = path

def IsLeaf (path : List α) : Prop :=
  ∃ node ∈ c.nodes, node.path = path ∧ node.lockRef = 0 ∧ ∀ child ∈ c.nodes, child.parent ≠ path

/-- The tokens of the nodes whose lock count is as given. -/
def sizeOf (p : Nat → Bool) : Nat := (c.nodes.map fun node => if p node.lockRef then node.key.length else 0).sum

/-- The tree without its set of leaves. -/
structure Sized : Prop where
  forest : Forest c.segs
  filled : ∀ node ∈ c.nodes, node.value.length = node.path.length - node.start
  evictable : c.evictableSize = c.sizeOf (· == 0)
  protect : c.protectedSize = c.sizeOf (· != 0)
  once : c.evictableLeaves.Nodup

structure Sound : Prop extends Sized c where
  leaves : ∀ path, path ∈ c.evictableLeaves ↔ c.IsLeaf path

/-- The locks count the references that are held at or below a node. -/
structure Locked [DecidableEq α] (held : List (List α)) : Prop where
  locks : ∀ node ∈ c.nodes, node.lockRef = held.countP fun path => node.path <+: path
  handles : ∀ path ∈ held, c.IsNode path

variable {c}

theorem reset_sound : (reset : Cache α β).Sound where
  forest := ⟨nofun, nofun, List.nodup_nil⟩
  filled := nofun
  evictable := rfl
  protect := rfl
  once := List.nodup_nil
  leaves _ := ⟨nofun, fun ⟨_, mem, _⟩ => nomatch mem⟩

theorem mem_segs {node : TreeNode α β} (mem : node ∈ c.nodes) : node.seg ∈ c.segs := List.mem_map_of_mem mem

theorem isNode_iff {path : List α} : c.IsNode path ↔ path = [] ∨ ∃ s ∈ c.segs, s.path = path := by
  unfold IsNode segs
  simp only [List.mem_map, exists_exists_and_eq_and]
  rfl

end Cache

section Node

variable {node : TreeNode α β} {q : List α} {v : β}

theorem TreeNode.mem_entries (filled : node.value.length = node.path.length - node.start) :
    (q, v) ∈ node.entries ↔ ∃ j, node.value[j]? = some v ∧ node.path.take (node.start + j + 1) = q := by
  unfold entries Seg.cells seg
  rw [List.mem_iff_getElem?]
  refine exists_congr fun j => ?_
  rw [List.getElem?_zip_eq_some, List.getElem?_map]
  constructor
  · rintro ⟨cell, here⟩
    obtain ⟨i, at', rfl⟩ := Option.map_eq_some_iff.1 cell
    obtain ⟨lt, rfl⟩ := List.getElem?_eq_some_iff.1 at'
    rw [List.getElem_range', one_mul]
    exact ⟨here, rfl⟩
  · rintro ⟨here, rfl⟩
    refine ⟨?_, here⟩
    have lt : j < node.value.length := (List.getElem?_eq_some_iff.1 here).1
    rw [List.getElem?_range' (filled ▸ lt), Option.map_some, one_mul]

theorem TreeNode.entries_fst (filled : node.value.length = node.path.length - node.start) :
    node.entries.map Prod.fst = node.seg.cells := by
  refine List.map_fst_zip ?_
  rw [length_cells_seg, filled]
  exact le_rfl

theorem TreeNode.entries_snd (filled : node.value.length = node.path.length - node.start) :
    node.entries.map Prod.snd = node.value := by
  refine List.map_snd_zip ?_
  rw [length_cells_seg, filled]
  exact le_rfl

theorem TreeNode.key_length : node.key.length = node.path.length - node.start := List.length_drop

end Node

namespace Cache

section Sized

variable {c : Cache α β} (sized : c.Sized)
include sized

theorem Sized.entries_fst : c.entries.map Prod.fst = cells c.segs := by
  unfold entries cells segs
  rw [List.map_flatMap, List.flatMap_map]
  exact List.flatMap_congr fun node mem => TreeNode.entries_fst (sized.filled node mem)

theorem Sized.entries_snd : c.entries.map Prod.snd = c.values := by
  unfold entries values
  rw [List.map_flatMap]
  exact List.flatMap_congr fun node mem => TreeNode.entries_snd (sized.filled node mem)

theorem Sized.nodup_paths : (c.nodes.map TreeNode.path).Nodup := by
  have nodup := sized.forest.nodup_paths
  unfold segs at nodup
  rwa [List.map_map] at nodup

theorem Sized.unique {n m : TreeNode α β} (hn : n ∈ c.nodes) (hm : m ∈ c.nodes) (same : n.path = m.path) : n = m :=
  List.inj_on_of_nodup_map sized.nodup_paths hn hm same

theorem Sized.lt {node : TreeNode α β} (mem : node ∈ c.nodes) : node.start < node.path.length :=
  sized.forest.lt _ (mem_segs mem)

theorem Sized.parent_length {node : TreeNode α β} (mem : node ∈ c.nodes) : node.parent.length = node.start := by
  rw [TreeNode.parent, List.length_take]
  exact Nat.min_eq_left (sized.lt mem).le

theorem Sized.parent_isNode {node : TreeNode α β} (mem : node ∈ c.nodes) : c.IsNode node.parent := by
  obtain zero | ⟨t, ht, same⟩ := sized.forest.parent _ (mem_segs mem)
  · refine .inl ?_
    have zero : node.start = 0 := zero
    rw [TreeNode.parent, zero, List.take_zero]
  · exact isNode_iff.2 (.inr ⟨t, ht, same⟩)

/-- The entries are a partial function. -/
theorem Sized.functional {q : List α} {v w : β} (hv : (q, v) ∈ c.entries) (hw : (q, w) ∈ c.entries) : v = w := by
  have nodup : (c.entries.map Prod.fst).Nodup := sized.entries_fst ▸ sized.forest.nodup
  exact congrArg Prod.snd (List.inj_on_of_nodup_map nodup hv hw rfl)

end Sized

/-! ## The set of leaves -/

variable [DecidableEq α]

section Leaves

variable {c : Cache α β} {path : List α}

theorem Sized.find_eq (sized : c.Sized) {node : TreeNode α β} (mem : node ∈ c.nodes) : c.find node.path = some node := by
  unfold find
  cases found : c.nodes.find? (·.path = node.path) with
  | none =>
    have := List.find?_eq_none.1 found node mem
    exact absurd (decide_eq_true rfl) this
  | some m =>
    have here := List.find?_some found
    rw [decide_eq_true_eq] at here
    rw [sized.unique (List.mem_of_find?_eq_some found) mem here]

theorem of_find {node : TreeNode α β} (found : c.find path = some node) : node ∈ c.nodes ∧ node.path = path := by
  unfold find at found
  have here := List.find?_some found
  rw [decide_eq_true_eq] at here
  exact ⟨List.mem_of_find?_eq_some found, here⟩

theorem find_eq_none : c.find path = none ↔ ∀ node ∈ c.nodes, node.path ≠ path := by
  unfold find
  rw [List.find?_eq_none]
  simp only [decide_eq_true_eq, ne_eq]

theorem updateLeafStatus_nodes : (c.updateLeafStatus path).nodes = c.nodes := by
  unfold updateLeafStatus
  split
  · rfl
  · split
    · rfl
    · split <;> rfl

theorem updateLeafStatus_sizes : (c.updateLeafStatus path).evictableSize = c.evictableSize ∧
    (c.updateLeafStatus path).protectedSize = c.protectedSize := by
  unfold updateLeafStatus
  split
  · exact ⟨rfl, rfl⟩
  · split
    · exact ⟨rfl, rfl⟩
    · split <;> exact ⟨rfl, rfl⟩

theorem updateLeafStatus_once (once : c.evictableLeaves.Nodup) : (c.updateLeafStatus path).evictableLeaves.Nodup := by
  unfold updateLeafStatus
  split
  · exact once.erase _
  · split
    · exact once.erase _
    · split
      · exact once
      · next absent => exact List.nodup_append.2 ⟨once, List.nodup_singleton _, fun a mem b here => by
          obtain rfl := List.mem_singleton.1 here
          exact fun same => absent (same ▸ mem)⟩

/-- The status of one node is set right and the others are kept. -/
theorem mem_updateLeafStatus (once : c.evictableLeaves.Nodup) (unique : (c.nodes.map TreeNode.path).Nodup) (q : List α) :
    q ∈ (c.updateLeafStatus path).evictableLeaves ↔ if q = path then c.IsLeaf path else q ∈ c.evictableLeaves := by
  have erased (leaf : ¬c.IsLeaf path) : q ∈ c.evictableLeaves.erase path ↔ if q = path then c.IsLeaf path else q ∈ c.evictableLeaves := by
    rw [once.mem_erase_iff]
    split
    · next same => exact ⟨fun h => absurd same h.1, fun h => absurd h leaf⟩
    · next apart => exact ⟨And.right, fun h => ⟨apart, h⟩⟩
  unfold updateLeafStatus
  split
  · next none =>
    exact erased fun ⟨node, mem, same, _⟩ => find_eq_none.1 none node mem same
  · next node found =>
    obtain ⟨mem, rfl⟩ := of_find found
    split
    · next busy =>
      refine erased fun ⟨node', mem', same, zero, bare⟩ => ?_
      rw [List.inj_on_of_nodup_map unique mem' mem same] at zero
      obtain locked | parent := busy
      · omega
      · exact parent (List.filter_eq_nil_iff.2 fun child here eq => bare child here (of_decide_eq_true eq))
    · next idle =>
      have leaf : c.IsLeaf node.path := by
        refine ⟨node, mem, rfl, ?_, fun child here same => ?_⟩
        · exact Nat.eq_zero_of_not_pos fun locked => idle (.inl locked)
        · refine idle (.inr (List.ne_nil_of_mem (a := child) ?_))
          exact List.mem_filter.2 ⟨here, decide_eq_true same⟩
      split
      · next present =>
        split
        · next same => exact ⟨fun _ => leaf, fun _ => same ▸ present⟩
        · rfl
      · rw [List.mem_append, List.mem_singleton]
        split
        · next same => exact ⟨fun _ => leaf, fun _ => .inr same⟩
        · next apart => exact or_iff_left apart

omit [DecidableEq α] in
theorem isLeaf_congr {c' : Cache α β} (same : c'.nodes = c.nodes) : c'.IsLeaf path ↔ c.IsLeaf path := by
  unfold IsLeaf
  rw [same]

theorem Sized.updateLeafStatus (sized : c.Sized) (path : List α) : (c.updateLeafStatus path).Sized := by
  have nodes : (c.updateLeafStatus path).nodes = c.nodes := updateLeafStatus_nodes
  obtain ⟨evictable, protect⟩ : (c.updateLeafStatus path).evictableSize = c.evictableSize ∧
      (c.updateLeafStatus path).protectedSize = c.protectedSize := updateLeafStatus_sizes
  refine ⟨?_, ?_, ?_, ?_, updateLeafStatus_once sized.once⟩
  · unfold segs
    rw [nodes]
    exact sized.forest
  · rw [nodes]
    exact sized.filled
  · unfold sizeOf
    rw [evictable, nodes]
    exact sized.evictable
  · unfold sizeOf
    rw [protect, nodes]
    exact sized.protect

/-- Refreshing one node makes a tree sound whose other leaves are right. -/
theorem Sized.refresh (sized : c.Sized) (others : ∀ q, q ≠ path → (q ∈ c.evictableLeaves ↔ c.IsLeaf q)) :
    (c.updateLeafStatus path).Sound := by
  refine ⟨sized.updateLeafStatus path, fun q => ?_⟩
  · rw [mem_updateLeafStatus sized.once sized.nodup_paths, isLeaf_congr updateLeafStatus_nodes]
    split
    · next same => rw [same]
    · next apart => exact others q apart

end Leaves

/-! ## Splitting a node -/

section Split

variable {c : Cache α β} {child : TreeNode α β} {k : Nat}

theorem mem_splitNode (sized : c.Sized) (mem : child ∈ c.nodes) {m : TreeNode α β} :
    m ∈ (c.splitNode child k).nodes ↔
      m = { child with path := child.path.take (child.start + k), value := child.value.take k } ∨
      m = { child with start := child.start + k, value := child.value.drop k } ∨ m ∈ c.nodes ∧ m ≠ child := by
  unfold splitNode
  rw [List.mem_flatMap]
  constructor
  · rintro ⟨node, here, into⟩
    by_cases same : node.path = child.path
    · obtain rfl := sized.unique here mem same
      rw [if_pos rfl] at into
      simp only [List.mem_cons, List.not_mem_nil, or_false] at into
      exact into.imp id .inl
    · rw [if_neg same] at into
      obtain rfl := List.mem_singleton.1 into
      exact .inr (.inr ⟨here, fun eq => same (eq ▸ rfl)⟩)
  · rintro (rfl | rfl | ⟨here, apart⟩)
    · exact ⟨child, mem, by rw [if_pos rfl]; exact List.mem_cons_self ..⟩
    · exact ⟨child, mem, by rw [if_pos rfl]; exact List.mem_cons_of_mem _ (List.mem_singleton_self _)⟩
    · exact ⟨m, here, by rw [if_neg fun same => apart (sized.unique here mem same)]; exact List.mem_singleton_self _⟩

theorem segs_splitNode : (c.splitNode child k).segs = splitAt c.segs child.path k := by
  unfold segs splitNode splitAt
  rw [List.map_flatMap, List.flatMap_map]
  refine List.flatMap_congr fun node _ => ?_
  show List.map TreeNode.seg (if node.path = child.path then _ else _) = if node.path = child.path then _ else _
  split <;> rfl

theorem entries_splitNode (sized : c.Sized) (mem : child ∈ c.nodes) (lt : k < child.key.length) :
    (c.splitNode child k).entries = c.entries := by
  unfold entries splitNode
  rw [List.flatMap_assoc]
  refine List.flatMap_congr fun node here => ?_
  by_cases same : node.path = child.path
  · obtain rfl := sized.unique here mem same
    rw [TreeNode.key_length] at lt
    have whole := cells_split (s := node.seg) (k := k) (show node.start + k ≤ node.path.length by omega)
    rw [Seg.split, List.flatMap_cons, List.flatMap_singleton] at whole
    rw [if_pos rfl, List.flatMap_cons, List.flatMap_singleton]
    unfold TreeNode.entries
    rw [← whole]
    conv_rhs => rw [← List.take_append_drop k node.value]
    refine (List.zip_append ?_).symm
    rw [length_cells_seg, List.length_take, sized.filled node here]
    show (node.path.take (node.start + k)).length - node.start = _
    rw [List.length_take]
    omega
  · rw [if_neg same, List.flatMap_singleton]

theorem sizeOf_splitNode (sized : c.Sized) (mem : child ∈ c.nodes) (lt : k < child.key.length) (p : Nat → Bool) :
    (c.splitNode child k).sizeOf p = c.sizeOf p := by
  unfold sizeOf splitNode
  rw [List.map_flatMap, List.flatMap_def, List.sum_flatten, List.map_map]
  refine congrArg List.sum (List.map_congr_left fun node here => ?_)
  by_cases same : node.path = child.path
  · obtain rfl := sized.unique here mem same
    rw [TreeNode.key_length] at lt
    simp only [Function.comp_apply, if_pos, List.map_cons, List.map_nil, List.sum_cons, List.sum_nil, TreeNode.key_length, List.length_take]
    split <;> omega
  · simp only [Function.comp_apply, if_neg same, List.map_cons, List.map_nil, List.sum_cons, List.sum_nil, Nat.add_zero]

omit [DecidableEq α] in
/-- No node ends inside another. -/
theorem Sized.end_apart (sized : c.Sized) (mem : child ∈ c.nodes) {node : TreeNode α β} (here : node ∈ c.nodes)
    (pre : node.path <+: child.path) (lt : child.start < node.path.length) : node = child := by
  refine sized.unique here mem ?_
  exact congrArg Seg.path (sized.forest.unique (mem_segs here) (mem_segs mem) (List.prefix_refl _) (sized.lt here) pre lt)

theorem isNode_splitNode (sized : c.Sized) (mem : child ∈ c.nodes) {path : List α} (node : c.IsNode path) :
    (c.splitNode child k).IsNode path := by
  rw [isNode_iff, segs_splitNode]
  refine (isNode_iff.1 node).imp id fun ⟨s, hs, same⟩ => ?_
  obtain ⟨t, ht, path⟩ := sized.forest.path_splitAt (mem_segs mem) (k := k) hs
  exact ⟨t, ht, path.trans same⟩

variable (sound : c.Sound) (mem : child ∈ c.nodes) (pos : 0 < k) (lt : k < child.key.length)
include sound mem pos lt

theorem isLeaf_splitNode (path : List α) : (c.splitNode child k).IsLeaf path ↔ c.IsLeaf path := by
  have sized := sound.toSized
  rw [TreeNode.key_length] at lt
  have upper : (child.path.take (child.start + k)).take child.start = child.parent := by
    rw [List.take_take, Nat.min_eq_left (Nat.le_add_right ..)]
    rfl
  have length : (child.path.take (child.start + k)).length = child.start + k := by
    rw [List.length_take]
    omega
  constructor
  · rintro ⟨m, into, rfl, zero, bare⟩
    have above := bare _ ((mem_splitNode (k := k) sized mem).2 (.inl rfl))
    have below := bare _ ((mem_splitNode (k := k) sized mem).2 (.inr (.inl rfl)))
    obtain rfl | rfl | ⟨here, apart⟩ := (mem_splitNode sized mem).1 into
    · exact absurd rfl below
    · refine ⟨child, mem, rfl, zero, fun m here same => ?_⟩
      by_cases own : m = child
      · have same : m.parent = child.path := same
        have := sized.parent_length here
        rw [same, own] at this
        omega
      · exact bare m ((mem_splitNode sized mem).2 (.inr (.inr ⟨here, own⟩))) same
    · refine ⟨m, here, rfl, zero, fun m' here' same => ?_⟩
      by_cases own : m' = child
      · exact above (upper.trans (own ▸ same))
      · exact bare m' ((mem_splitNode sized mem).2 (.inr (.inr ⟨here', own⟩))) same
  · rintro ⟨node, here, rfl, zero, bare⟩
    by_cases own : node = child
    · subst own
      refine ⟨_, (mem_splitNode (k := k) sized mem).2 (.inr (.inl rfl)), rfl, zero, fun m into => ?_⟩
      obtain rfl | rfl | ⟨here', _⟩ := (mem_splitNode sized mem).1 into
      · exact fun same => bare node mem (upper.symm.trans same)
      · intro same
        have := congrArg List.length (show node.path.take (node.start + k) = node.path from same)
        omega
      · exact bare m here'
    · refine ⟨node, (mem_splitNode sized mem).2 (.inr (.inr ⟨here, own⟩)), rfl, zero, fun m into => ?_⟩
      obtain rfl | rfl | ⟨here', _⟩ := (mem_splitNode sized mem).1 into
      · exact fun same => bare child mem (upper.symm.trans same)
      · intro same
        have same : child.path.take (child.start + k) = node.path := same
        refine own (sized.end_apart mem here (same ▸ List.take_prefix ..) ?_)
        rw [← same, length]
        omega
      · exact bare m here'

theorem splitNode_sound : (c.splitNode child k).Sound := by
  have sized := sound.toSized
  have inner : child.start + k < child.path.length := by
    rw [TreeNode.key_length] at lt
    omega
  have forest := sized.forest.splitAt (mem_segs mem) pos inner
  refine ⟨⟨segs_splitNode (c := c) ▸ forest, fun m into => ?_, ?_, ?_, sized.once⟩, fun path => ?_⟩
  · have filled := sized.filled child mem
    obtain rfl | rfl | ⟨here, _⟩ := (mem_splitNode sized mem).1 into
    · simp only [List.length_take]
      omega
    · simp only [List.length_drop]
      omega
    · exact sized.filled m here
  · rw [sizeOf_splitNode sized mem lt]
    exact sized.evictable
  · rw [sizeOf_splitNode sized mem lt]
    exact sized.protect
  · exact (sound.leaves path).trans (isLeaf_splitNode sound mem pos lt path).symm

/-- The new node inherits the locks of the child: no reference ends between the two. -/
theorem splitNode_locked {held : List (List α)} (locked : c.Locked held) : (c.splitNode child k).Locked held := by
  have sized := sound.toSized
  refine ⟨fun m into => ?_, fun path here => isNode_splitNode sized mem (locked.handles path here)⟩
  obtain rfl | rfl | ⟨here, _⟩ := (mem_splitNode sized mem).1 into
  · rw [TreeNode.key_length] at lt
    have ne : child.path.take (child.start + k) ≠ [] := by
      refine List.ne_nil_of_length_pos ?_
      rw [List.length_take]
      omega
    refine (locked.locks child mem).trans (List.countP_congr fun path here => ?_)
    simp only [decide_eq_true_eq]
    refine ⟨fun below => (List.take_prefix ..).trans below, fun below => ?_⟩
    obtain rfl | ⟨m, hm, rfl⟩ := locked.handles path here
    · exact absurd (List.prefix_nil.1 below) ne
    · obtain ⟨t, ht, up, pre, after⟩ := sized.forest.chain (mem_segs hm) below ne
      have same := sized.forest.unique ht (mem_segs mem) pre after (List.take_prefix ..) (by
        show child.start < (child.path.take (child.start + k)).length
        rw [List.length_take]
        omega)
      rw [same] at up
      exact up
  · exact locked.locks child mem
  · exact locked.locks m here

end Split

/-! ## Walking down -/

section Walk

variable {c : Cache α β} {path : List α} {x : α}

theorem Sized.of_childAt (sized : c.Sized) {child : TreeNode α β} (found : c.childAt path x = some child) :
    child ∈ c.nodes ∧ child.start = path.length ∧ child.path = path ++ child.key ∧ child.key.head? = some x := by
  unfold childAt at found
  have mem := List.mem_of_find?_eq_some found
  have here := List.find?_some found
  rw [decide_eq_true_eq] at here
  obtain ⟨parent, head⟩ := here
  refine ⟨mem, ?_, ?_, head⟩
  · rw [← parent, sized.parent_length mem]
  · rw [← parent]
    exact (List.take_append_drop ..).symm

theorem Sized.childAt_none (sized : c.Sized) (node : c.IsNode path) (none : c.childAt path x = none) :
    path ++ [x] ∉ cells c.segs := by
  intro mem
  obtain ⟨s, hs, start, rest, here⟩ := sized.forest.child_of_cell (isNode_iff.1 node) mem
  obtain ⟨child, hc, rfl⟩ := List.mem_map.1 hs
  have path' : child.path = path ++ (x :: rest) := by
    rw [← List.singleton_append, ← List.append_assoc]
    exact here.symm
  have start : child.start = path.length := start
  have absent := List.find?_eq_none.1 none child hc
  refine absurd (decide_eq_true ⟨?_, ?_⟩) absent
  · rw [TreeNode.parent, start, path', List.take_left]
  · rw [TreeNode.key, start, path', List.drop_left]
    rfl

omit [DecidableEq α] in
/-- The values down to a point in a child. -/
theorem Along.child {values : List β} (along : c.Along path values) (sized : c.Sized) {child : TreeNode α β} (mem : child ∈ c.nodes)
    (start : child.start = path.length) (below : child.path = path ++ child.key) {k : Nat} (le : k ≤ child.key.length) :
    c.Along (child.path.take (child.start + k)) (values ++ child.value.take k) := by
  have filled := sized.filled child mem
  rw [← TreeNode.key_length] at filled
  have length : child.path.length = child.start + child.key.length := by
    rw [start]
    conv_lhs => rw [below]
    exact List.length_append
  refine ⟨?_, fun i v here => ?_⟩
  · rw [List.length_append, List.length_take, List.length_take, along.1]
    omega
  · have bound := (List.getElem?_eq_some_iff.1 here).1
    rw [List.length_append, List.length_take] at bound
    rw [List.take_take, Nat.min_eq_left (by rw [along.1] at bound; omega)]
    by_cases lt : i < values.length
    · rw [List.getElem?_append_left lt] at here
      have old := along.2 i v here
      rw [along.1] at lt
      rwa [below, List.take_append_of_le_length (by omega)]
    · rw [List.getElem?_append_right (by omega), List.getElem?_take] at here
      split at here
      · refine List.mem_flatMap.2 ⟨child, mem, (TreeNode.mem_entries (sized.filled child mem)).2 ⟨i - values.length, here, ?_⟩⟩
        rw [along.1, start]
        rw [along.1] at lt
        rw [show path.length + (i - path.length) + 1 = i + 1 by omega]
      · exact nomatch here

/-- Below a point inside a node there is only the rest of the node. -/
theorem Sized.inside (sized : c.Sized) {child : TreeNode α β} (mem : child ∈ c.nodes) {k : Nat} (pos : 0 < k)
    (lt : k < child.key.length) {y : α} (cell : child.path.take (child.start + k) ++ [y] ∈ cells c.segs) :
    child.path.take (child.start + k) ++ [y] <+: child.path := by
  rw [TreeNode.key_length] at lt
  have length : (child.path.take (child.start + k)).length = child.start + k := by
    rw [List.length_take]
    omega
  obtain ⟨t, ht, pre, after⟩ := mem_cells.1 cell
  rw [List.length_append, List.length_singleton, length] at after
  by_cases through : t.start < child.start + k
  · have same := sized.forest.unique ht (mem_segs mem) ((List.prefix_append ..).trans pre) (by omega) (List.take_prefix ..) (by
      show child.start < _
      omega)
    rw [same] at pre
    exact pre
  · obtain zero | ⟨u, hu, same⟩ := sized.forest.parent t ht
    · omega
    · obtain ⟨node, here, rfl⟩ := List.mem_map.1 hu
      have ends : node.path = child.path.take (child.start + k) := by
        have start : t.start = child.start + k := by omega
        have upTo := List.prefix_iff_eq_take.1 ((List.prefix_append _ [y]).trans pre)
        rw [length] at upTo
        rw [upTo, ← start]
        exact same
      have own := sized.end_apart mem here (ends ▸ List.take_prefix ..) (by rw [ends]; omega)
      have := congrArg List.length ends
      rw [own] at this
      omega

omit [DecidableEq α] in
theorem head_of_next {a b : List α} {k : Nat} {y : α} (pre : a ++ b.take k ++ [y] <+: a ++ b) : (b.drop k).head? = some y := by
  rw [List.append_assoc, List.prefix_append_right_inj] at pre
  conv at pre => rhs; rw [← List.take_append_drop k b]
  obtain ⟨rest, here⟩ := (List.prefix_append_right_inj _).1 pre
  rw [← here]
  rfl

/-- A child that is found shares some of its key. -/
theorem lcp_child {child : TreeNode α β} (rest : List α) (head : child.key.head? = some x) :
    0 < Radix.lcp child.key (x :: rest) ∧ Radix.lcp child.key (x :: rest) ≤ child.key.length ∧
      child.key.take (Radix.lcp child.key (x :: rest)) = (x :: rest).take (Radix.lcp child.key (x :: rest)) := by
  refine ⟨Nat.pos_of_ne_zero fun zero => ?_, Radix.lcp_le_left .., Radix.take_lcp ..⟩
  have ne : child.key ≠ [] := by
    intro nil
    rw [nil] at head
    exact nomatch head
  exact Radix.lcp_eq_zero ne zero head.symm

omit [DecidableEq α] in
theorem below_take {child : TreeNode α β} (start : child.start = path.length) (below : child.path = path ++ child.key) (k : Nat) :
    child.path.take (child.start + k) = path ++ child.key.take k := by
  conv_lhs => rw [below, start, List.take_length_add_append]

/-- Where a walk down a key has come to. -/
structure Reached (held : List (List α)) (c c' : Cache α β) (full node : List α) : Prop where
  sound : c'.Sound
  locked : c'.Locked held
  entries : c'.entries = c.entries
  isNode : c'.IsNode node
  pre : node <+: full
  stop : ∀ y, node ++ [y] <+: full → node ++ [y] ∉ cells c.segs

variable {held : List (List α)}

theorem matchLoop_spec {fuel : Nat} {key : List α} {value : List β} (sound : c.Sound) (locked : c.Locked held) (node : c.IsNode path)
    (along : c.Along path value) (enough : key.length < fuel) :
    ∃ value' node' c', matchLoop fuel c path key value = .ok (value', node', c') ∧ Reached held c c' (path ++ key) node' ∧
      c'.Along node' value' := by
  induction fuel generalizing path key value with
  | zero => omega
  | succ fuel ih =>
    cases key with
    | nil =>
      refine ⟨value, path, c, rfl, ⟨sound, locked, rfl, node, List.prefix_append .., fun y pre => ?_⟩, along⟩
      have := pre.length_le
      rw [List.append_nil, List.length_append, List.length_singleton] at this
      omega
    | cons x rest =>
      unfold matchLoop
      cases found : c.childAt path x with
      | none =>
        simp only [found]
        refine ⟨value, path, c, rfl, ⟨sound, locked, rfl, node, List.prefix_append .., fun y pre => ?_⟩, along⟩
        obtain ⟨tail, here⟩ := (List.prefix_append_right_inj path).1 pre
        obtain rfl : y = x := (List.cons.inj here).1
        exact sound.childAt_none node found
      | some child =>
        obtain ⟨mem, start, below, head⟩ := sound.of_childAt found
        obtain ⟨pos, le, takes⟩ := lcp_child rest head
        simp only [found]
        generalize lenK : Radix.lcp child.key (x :: rest) = k at pos le takes ⊢
        have split := below_take start below k
        split
        · next lt =>
          refine ⟨_, _, _, rfl, ⟨splitNode_sound sound mem pos lt, splitNode_locked sound mem pos lt locked,
            entries_splitNode sound.toSized mem lt, .inr ⟨_, (mem_splitNode sound.toSized mem).2 (.inl rfl), rfl⟩, ?_, ?_⟩, ?_⟩
          · rw [split, takes]
            exact (List.prefix_append_right_inj path).2 (List.take_prefix ..)
          · intro y pre cell
            have inside := sound.inside mem pos lt cell
            rw [split] at inside pre
            rw [below] at inside
            rw [takes] at pre
            have maximal := Radix.lcp_maximal child.key (x :: rest) (lenK.symm ▸ lt.ne)
            rw [lenK] at maximal
            exact maximal ((head_of_next pre).trans (head_of_next inside).symm)
          · have along := along.child sound.toSized mem start below le
            unfold Along
            rw [entries_splitNode sound.toSized mem lt]
            exact along
        · next full =>
          obtain rfl : k = child.key.length := by omega
          have whole : path ++ x :: rest = child.path ++ (x :: rest).drop child.key.length := by
            rw [List.take_length] at takes
            conv_lhs => rw [← List.take_append_drop child.key.length (x :: rest), ← takes, ← List.append_assoc, ← below]
          have filled := sound.filled child mem
          have down := along.child sound.toSized mem start below le
          rw [split, List.take_length, ← below, List.take_of_length_le (by rw [filled, TreeNode.key_length])] at down
          rw [whole]
          refine ih (.inr ⟨child, mem, rfl⟩) down ?_
          rw [List.length_drop]
          rw [List.length_cons] at enough ⊢
          omega

/-- **Matching** a sequence finds its longest prefix that is cached. -/
theorem matchPrefix_spec (key : List α) (sound : c.Sound) (locked : c.Locked held) :
    ∃ value node c', c.matchPrefix key = .ok (value, node, c') ∧ Reached held c c' key node ∧ c'.Along node value := by
  have root : c.Along [] ([] : List β) := ⟨rfl, fun i v here => nomatch here⟩
  obtain ⟨value, node, c', run, reached, along⟩ := matchLoop_spec sound locked (.inl rfl) root (Nat.lt_succ_self key.length)
  rw [List.nil_append] at reached
  unfold matchPrefix
  split
  · next nil =>
    subst nil
    refine ⟨[], [], c, rfl, ⟨sound, locked, rfl, .inl rfl, List.prefix_refl _, fun y pre => ?_⟩, root⟩
    have := pre.length_le
    rw [List.length_append, List.length_singleton, List.length_nil] at this
    omega
  · exact ⟨value, node, c', run, reached, along⟩

/-- A match goes as far as there are cells. -/
theorem Reached.length_ge {c' : Cache α β} {full node : List α} (reached : Reached held c c' full node) {n : Nat}
    (cells : ∀ i < n, full.take (i + 1) ∈ cells c.segs) (le : n ≤ full.length) : n ≤ node.length := by
  by_contra lt
  obtain ⟨rest, same⟩ := reached.pre
  cases rest with
  | nil =>
    rw [List.append_nil] at same
    rw [same] at lt
    omega
  | cons y rest =>
    have next : node ++ [y] <+: full := ⟨rest, by rw [List.append_assoc, List.singleton_append, same]⟩
    refine reached.stop y next ?_
    have take : full.take (node.length + 1) = node ++ [y] := by
      have upTo := List.prefix_iff_eq_take.1 next
      rw [List.length_append, List.length_singleton] at upTo
      exact upTo.symm
    rw [← take]
    exact cells node.length (by omega)

/-- A node is found whole. -/
theorem Reached.all {c' : Cache α β} {full node : List α} (reached : Reached held c c' full node) (sound : c.Sound)
    (isNode : c.IsNode full) :
    node = full := by
  refine reached.pre.eq_of_length_le (reached.length_ge (fun i lt => ?_) le_rfl)
  obtain rfl | ⟨m, mem, rfl⟩ := isNode
  · exact absurd lt (Nat.not_lt_zero i)
  · refine sound.forest.closed (mem_cells.2 ⟨m.seg, mem_segs mem, List.prefix_refl _, sound.lt mem⟩) (List.take_prefix ..) ?_
    refine List.ne_nil_of_length_pos ?_
    rw [List.length_take]
    omega

end Walk

/-! ## Adding a node -/

section AddNode

variable {c : Cache α β} {node key : List α} {value : List β} {x : α}

theorem addNode_nodes : (c.addNode node key value).nodes = c.nodes ++ [⟨node ++ key, node.length, value, 0⟩] := by
  unfold addNode
  rw [updateLeafStatus_nodes, updateLeafStatus_nodes]

theorem addNode_entries :
    (c.addNode node key value).entries = c.entries ++ (Seg.cells ⟨node ++ key, node.length⟩).zip value := by
  unfold entries
  rw [addNode_nodes, List.flatMap_append, List.flatMap_singleton]
  rfl

theorem addNode_isNode {path : List α} (isNode : c.IsNode path) : (c.addNode node key value).IsNode path := by
  refine isNode.imp id fun ⟨m, mem, same⟩ => ⟨m, ?_, same⟩
  rw [addNode_nodes]
  exact List.mem_append_left _ mem

variable (sound : c.Sound) (isNode : c.IsNode node) (head : key.head? = some x) (absent : node ++ [x] ∉ cells c.segs)
include sound isNode head absent

theorem addNode_sound (filled : value.length = key.length) : (c.addNode node key value).Sound := by
  let c' : Cache α β := { c with
    nodes := c.nodes ++ [⟨node ++ key, node.length, value, 0⟩]
    evictableSize := c.evictableSize + key.length }
  have forest := sound.forest.append (isNode_iff.1 isNode) head absent
  have sized : c'.Sized := by
    refine ⟨?_, fun m mem => ?_, ?_, ?_, sound.once⟩
    · unfold segs
      rw [List.map_append]
      exact forest
    · obtain old | new := List.mem_append.1 mem
      · exact sound.filled m old
      · obtain rfl := List.mem_singleton.1 new
        show value.length = (node ++ key).length - node.length
        rw [List.length_append, filled]
        omega
    · unfold sizeOf
      rw [List.map_append, List.sum_append]
      show c.evictableSize + key.length = _
      rw [sound.evictable]
      simp only [sizeOf, TreeNode.key, List.map_cons, List.map_nil, List.sum_cons, List.sum_nil, List.drop_left, beq_self_eq_true, if_true]
      omega
    · unfold sizeOf
      rw [List.map_append, List.sum_append]
      exact sound.protect
  refine (sized.updateLeafStatus node).refresh fun q apart => ?_
  rw [mem_updateLeafStatus sized.once sized.nodup_paths, isLeaf_congr updateLeafStatus_nodes]
  split
  · next same => rw [same]
  · next other =>
    refine (sound.leaves q).trans ⟨fun ⟨m, mem, same, zero, bare⟩ => ?_, fun ⟨m, mem, same, zero, bare⟩ => ?_⟩
    · refine ⟨m, List.mem_append_left _ mem, same, zero, fun child into => ?_⟩
      obtain old | new := List.mem_append.1 into
      · exact bare child old
      · obtain rfl := List.mem_singleton.1 new
        rw [TreeNode.parent, List.take_left]
        exact Ne.symm other
    · refine ⟨m, ?_, same, zero, fun child old => bare child (List.mem_append_left _ old)⟩
      obtain old | new := List.mem_append.1 mem
      · exact old
      · obtain rfl := List.mem_singleton.1 new
        exact absurd same.symm apart

omit isNode in
theorem addNode_locked {held : List (List α)} (locked : c.Locked held) : (c.addNode node key value).Locked held := by
  refine ⟨fun m mem => ?_, fun path here => addNode_isNode (locked.handles path here)⟩
  rw [addNode_nodes] at mem
  obtain old | new := List.mem_append.1 mem
  · exact locked.locks m old
  · obtain rfl := List.mem_singleton.1 new
    refine (List.countP_eq_zero.2 fun path here below => ?_).symm
    have below : node ++ key <+: path := of_decide_eq_true below
    obtain ⟨rest, rfl⟩ := List.head?_eq_some_iff.1 head
    have up : node ++ [x] <+: path := ((List.prefix_append_right_inj node).2 ⟨rest, rfl⟩).trans below
    obtain rfl | ⟨t, ht, rfl⟩ := locked.handles path here
    · have := up.length_le
      rw [List.length_append, List.length_singleton, List.length_nil] at this
      omega
    · refine absent (sound.forest.closed (mem_cells.2 ⟨t.seg, mem_segs ht, List.prefix_refl _, sound.lt ht⟩) up ?_)
      exact List.append_ne_nil_of_right_ne_nil _ (List.cons_ne_nil _ _)

end AddNode

/-! ## Inserting -/

section Insert

variable {c : Cache α β} {held : List (List α)}

/-- An insert adds the part of the sequence that is not there, as one node. -/
structure Inserted (held : List (List α)) (c c' : Cache α β) (full : List α) (start : Nat) (added : List β) : Prop where
  sound : c'.Sound
  locked : c'.Locked held
  entries : c'.entries = c.entries ++ (Seg.cells ⟨full, start⟩).zip added
  kept : ∀ path, c.IsNode path → c'.IsNode path
  isNode : c'.IsNode full

omit [DecidableEq α] in
theorem take_lcp_append {path : List α} {child : TreeNode α β} {key : List α} {k : Nat} (start : child.start = path.length)
    (below : child.path = path ++ child.key) (takes : child.key.take k = key.take k) :
    child.path.take (child.start + k) ++ key.drop k = path ++ key := by
  rw [below_take start below k, takes, List.append_assoc, List.take_append_drop]

theorem insertLoop_spec {fuel : Nat} {path key : List α} {value : List β} (total : Nat) (sound : c.Sound) (locked : c.Locked held)
    (node : c.IsNode path) (filled : value.length = key.length) (enough : key.length < fuel) :
    ∃ matched c', insertLoop fuel c path key value total = .ok (total + matched, c') ∧ matched ≤ key.length ∧
      Inserted held c c' (path ++ key) (path.length + matched) (value.drop matched) := by
  induction fuel generalizing c path key value total with
  | zero => omega
  | succ fuel ih =>
    cases key with
    | nil =>
      refine ⟨0, c, rfl, le_rfl, sound, locked, ?_, fun _ => id, ?_⟩
      · rw [List.eq_nil_of_length_eq_zero filled, List.drop_nil, List.zip_nil_right, List.append_nil]
      · rwa [List.append_nil]
    | cons x rest =>
      unfold insertLoop
      cases found : c.childAt path x with
      | none =>
        simp only [found]
        have absent := sound.childAt_none node found
        refine ⟨0, _, rfl, Nat.zero_le _, addNode_sound sound node rfl absent filled, addNode_locked sound rfl absent locked,
          addNode_entries, fun _ => addNode_isNode, .inr ⟨⟨path ++ x :: rest, path.length, value, 0⟩, ?_, rfl⟩⟩
        rw [addNode_nodes]
        exact List.mem_append_right _ (List.mem_singleton_self _)
      | some child =>
        obtain ⟨mem, start, below, head⟩ := sound.of_childAt found
        obtain ⟨pos, le, takes⟩ := lcp_child rest head
        have le' := Radix.lcp_le_right child.key (x :: rest)
        simp only [found]
        generalize Radix.lcp child.key (x :: rest) = k at pos le le' takes ⊢
        have whole := take_lcp_append start below takes
        have filled' : (value.drop k).length = ((x :: rest).drop k).length := by
          rw [List.length_drop, List.length_drop, filled]
        have enough' : ((x :: rest).drop k).length < fuel := by
          rw [List.length_drop]
          omega
        have upper : (child.path.take (child.start + k)).length = path.length + k := by
          rw [below_take start below k, List.length_append, List.length_take, Nat.min_eq_left le]
        split
        · next lt =>
          obtain ⟨matched, c', run, bound, done⟩ := ih (total + k) (splitNode_sound sound mem pos lt) (splitNode_locked sound mem pos lt locked)
            (.inr ⟨_, (mem_splitNode sound.toSized mem).2 (.inl rfl), rfl⟩) filled' enough'
          rw [List.length_drop] at bound
          refine ⟨k + matched, c', by rw [run, Nat.add_assoc], by omega, done.sound, done.locked, ?_, fun p isNode => ?_, ?_⟩
          · rw [done.entries, entries_splitNode sound.toSized mem lt, whole, List.drop_drop, upper, Nat.add_assoc]
          · exact done.kept p (isNode_splitNode sound.toSized mem isNode)
          · exact whole ▸ done.isNode
        · next full =>
          obtain rfl : k = child.key.length := by omega
          have all : child.path.take (child.start + child.key.length) = child.path := by
            rw [below_take start below, List.take_length, ← below]
          rw [all] at whole upper
          obtain ⟨matched, c', run, bound, done⟩ := ih (total + child.key.length) sound locked
            (.inr ⟨child, mem, rfl⟩) filled' enough'
          rw [List.length_drop] at bound
          refine ⟨child.key.length + matched, c', by rw [run, Nat.add_assoc], by omega, done.sound, done.locked, ?_, done.kept, ?_⟩
          · rw [done.entries, whole, List.drop_drop, upper, Nat.add_assoc]
          · exact whole ▸ done.isNode

/-- **Inserting** a sequence of tokens with a value each. -/
theorem insert_spec {key : List α} {value : List β} (sound : c.Sound) (locked : c.Locked held) (filled : value.length = key.length) :
    ∃ matched c', c.insert key value = .ok (matched, c') ∧ matched ≤ key.length ∧
      Inserted held c c' key matched (value.drop matched) := by
  obtain ⟨matched, c', run, bound, done⟩ := insertLoop_spec 0 sound locked (.inl rfl) filled (Nat.lt_succ_self _)
  rw [Nat.zero_add] at run
  rw [List.nil_append, List.length_nil, Nat.zero_add] at done
  exact ⟨matched, c', run, bound, done⟩

end Insert

/-! ## Locks -/

section Locks

variable {c : Cache α β} {path : List α}

/-- The nodes after the locks of those that `p` selects change. -/
def relock (c : Cache α β) (p : List α → Bool) (change : Nat → Nat) : List (TreeNode α β) :=
  c.nodes.map fun n => if p n.path then { n with lockRef := change n.lockRef } else n

omit [DecidableEq α] in
theorem Sized.split_nodes (sized : c.Sized) {node : TreeNode α β} (mem : node ∈ c.nodes) :
    ∃ a b, c.nodes = a ++ node :: b ∧ (∀ n ∈ a, n.path ≠ node.path) ∧ ∀ n ∈ b, n.path ≠ node.path := by
  obtain ⟨a, b, eq⟩ := List.append_of_mem mem
  have nodup := sized.nodup_paths
  rw [eq, List.map_append, List.map_cons, List.nodup_append, List.nodup_cons] at nodup
  obtain ⟨_, ⟨absent, _⟩, apart⟩ := nodup
  refine ⟨a, b, eq, fun n hn same => ?_, fun n hn same => ?_⟩
  · exact apart n.path (List.mem_map_of_mem hn) node.path (List.mem_cons_self ..) same
  · exact absent (same ▸ List.mem_map_of_mem hn)

omit [DecidableEq α] in
/-- Every value is either evictable or protected. -/
theorem sizeOf_add (filled : ∀ node ∈ c.nodes, node.value.length = node.path.length - node.start) :
    c.sizeOf (· == 0) + c.sizeOf (· != 0) = c.values.length := by
  unfold sizeOf values
  rw [List.length_flatMap, ← List.sum_map_add]
  refine congrArg List.sum (List.map_congr_left fun node mem => ?_)
  rw [filled node mem, TreeNode.key_length]
  by_cases zero : node.lockRef = 0
  · simp only [zero, beq_self_eq_true, bne_self_eq_false, if_true, Bool.false_eq_true, if_false, Nat.add_zero]
  · simp only [beq_iff_eq, bne_iff_ne, ne_eq, zero, not_false_eq_true, if_true, if_false, Nat.zero_add]

omit [DecidableEq α] in
theorem Sized.sizes (sized : c.Sized) : c.evictableSize + c.protectedSize = c.values.length := by
  rw [sized.evictable, sized.protect, ← sizeOf_add sized.filled, Nat.cast_add]

/-- How the share of a node among the unlocked tokens changes with its lock. -/
def Balanced (edge : Nat) (sign : Int) (change : Nat → Nat) : Prop :=
  ∀ l, (if change l = 0 then 1 else 0 : Int) = (if l = 0 then 1 else 0) + if l = edge then sign else 0

theorem balanced_inc : Balanced 0 (-1) (· + 1) := by
  intro l
  cases l <;> rfl

theorem balanced_dec : Balanced 1 1 (· - 1) := by
  intro l
  dsimp only
  split_ifs <;> omega

/-- The tree with the lock of one node changed. -/
def lockOne (c : Cache α β) (path : List α) (change : Nat → Nat) (size : Int) : Cache α β :=
  ⟨c.relock (· = path) change, c.evictableSize + size, c.protectedSize - size, c.evictableLeaves⟩

omit [DecidableEq α] in
theorem mem_relock {p : List α → Bool} {change : Nat → Nat} {m : TreeNode α β} :
    m ∈ c.relock p change ↔ ∃ n ∈ c.nodes, (if p n.path then { n with lockRef := change n.lockRef } else n) = m := List.mem_map

omit [DecidableEq α] in
theorem relock_keeps {γ : Type} {p : List α → Bool} {change : Nat → Nat} (f : TreeNode α β → γ)
    (same : ∀ n l, f { n with lockRef := l } = f n) : (c.relock p change).map f = c.nodes.map f := by
  unfold relock
  rw [List.map_map]
  refine List.map_congr_left fun n _ => ?_
  rw [Function.comp_apply]
  split
  · exact same n _
  · rfl

variable {edge : Nat} {sign : Int} {change : Nat → Nat} {node : TreeNode α β} {size : Int}

theorem lockOne_evictable (balanced : Balanced edge sign change) (sound : c.Sound) (mem : node ∈ c.nodes)
    (sizeIs : size = if node.lockRef = edge then sign * node.key.length else 0) :
    ((c.lockOne node.path change size).sizeOf (· == 0) : Int) = c.sizeOf (· == 0) + size := by
  obtain ⟨a, b, eq, before, after⟩ := sound.split_nodes mem
  have keep (l : List (TreeNode α β)) (apart : ∀ n ∈ l, n.path ≠ node.path) :
      (l.map fun n => if decide (n.path = node.path) then { n with lockRef := change n.lockRef } else n) = l := by
    conv_rhs => rw [← List.map_id l]
    refine List.map_congr_left fun n mem => ?_
    rw [if_neg (by rw [decide_eq_true_eq]; exact apart n mem)]
    rfl
  have nodes : (c.lockOne node.path change size).nodes = a ++ { node with lockRef := change node.lockRef } :: b := by
    unfold lockOne relock
    rw [eq, List.map_append, List.map_cons, keep a before, keep b after, if_pos (decide_eq_true rfl)]
  have share := congrArg (· * (node.key.length : Int)) (balanced node.lockRef)
  unfold sizeOf
  rw [eq, nodes, sizeIs]
  simp only [List.map_append, List.map_cons, List.sum_append, List.sum_cons, beq_iff_eq, Nat.cast_add]
  simp only [add_mul, ite_mul, one_mul, zero_mul] at share
  simp only [TreeNode.key] at share ⊢
  push_cast
  rw [share]
  ring

theorem lockOne_nodes : (c.lockOne path change size).nodes = c.relock (· = path) change := rfl

theorem lockOne_values : (c.lockOne path change size).values = c.values := by
  unfold values
  rw [List.flatMap_def, List.flatMap_def, lockOne_nodes]
  exact congrArg List.flatten (relock_keeps TreeNode.value fun _ _ => rfl)

theorem lockOne_isLeaf {q : List α} (apart : q ≠ path) : (c.lockOne path change size).IsLeaf q ↔ c.IsLeaf q := by
  constructor
  · rintro ⟨m, mem, same, zero, bare⟩
    rw [lockOne_nodes] at mem bare
    obtain ⟨n, hn, rfl⟩ := mem_relock.1 mem
    have other : n.path ≠ path := by
      intro eq
      rw [if_pos (decide_eq_true eq)] at same
      exact apart (same.symm.trans eq)
    rw [if_neg (by rwa [decide_eq_true_eq])] at same zero
    refine ⟨n, hn, same, zero, fun child here parent => ?_⟩
    refine bare _ (mem_relock.2 ⟨child, here, rfl⟩) ?_
    split <;> exact parent
  · rintro ⟨n, hn, same, zero, bare⟩
    refine ⟨n, ?_, same, zero, fun child here => ?_⟩
    · rw [lockOne_nodes]
      refine mem_relock.2 ⟨n, hn, if_neg ?_⟩
      rw [decide_eq_true_eq, same]
      exact apart
    · rw [lockOne_nodes] at here
      obtain ⟨n', hn', rfl⟩ := mem_relock.1 here
      split <;> exact bare n' hn'

/-- One node on the way changes its lock. -/
theorem lockOne_sound (balanced : Balanced edge sign change) (sound : c.Sound) (mem : node ∈ c.nodes)
    (sizeIs : size = if node.lockRef = edge then sign * node.key.length else 0) :
    ((c.lockOne node.path change size).updateLeafStatus node.path).Sound := by
  have evictable := lockOne_evictable balanced sound mem sizeIs
  have filled : ∀ m ∈ c.relock (· = node.path) change, m.value.length = m.path.length - m.start := by
    intro m into
    obtain ⟨n, hn, rfl⟩ := mem_relock.1 into
    split <;> exact sound.filled n hn
  have segs : (c.lockOne node.path change size).segs = c.segs := by
    unfold segs
    rw [lockOne_nodes]
    exact relock_keeps TreeNode.seg fun _ _ => rfl
  have sized : (c.lockOne node.path change size).Sized := by
    refine ⟨segs ▸ sound.forest, filled, ?_, ?_, sound.once⟩
    · rw [evictable, ← sound.evictable]
      rfl
    · have before := sizeOf_add sound.filled
      have after := sizeOf_add (c := c.lockOne node.path change size) filled
      rw [lockOne_values] at after
      show c.protectedSize - size = _
      rw [sound.protect]
      omega
  exact sized.refresh fun q apart => (sound.leaves q).trans (lockOne_isLeaf apart).symm

end Locks

section LockLoop

variable {c : Cache α β} {path : List α} {edge : Nat} {sign : Int} {change : Nat → Nat}

/-- What the locks leave alone. -/
structure Relocked (c c' : Cache α β) (p : List α → Bool) (change : Nat → Nat) : Prop where
  sound : c'.Sound
  nodes : c'.nodes = c.relock p change

namespace Relocked

variable {c' : Cache α β} {p : List α → Bool} (done : Relocked c c' p change)
include done

omit [DecidableEq α]

theorem segs : c'.segs = c.segs := by
  unfold Cache.segs
  rw [done.nodes]
  exact relock_keeps TreeNode.seg fun _ _ => rfl

theorem entries : c'.entries = c.entries := by
  unfold Cache.entries
  rw [List.flatMap_def, List.flatMap_def, done.nodes]
  exact congrArg List.flatten (relock_keeps TreeNode.entries fun _ _ => rfl)

theorem isNode {q : List α} : c'.IsNode q ↔ c.IsNode q := by
  rw [isNode_iff, isNode_iff, done.segs]

end Relocked

/-- The nodes on the way to a node are the node and those on the way to its parent. -/
theorem Sized.on_way (sized : c.Sized) {node n : TreeNode α β} (mem : node ∈ c.nodes) (hn : n ∈ c.nodes) :
    n.path <+: node.path ↔ n.path = node.path ∨ n.path <+: node.parent := by
  constructor
  · intro pre
    by_cases same : n.path = node.path
    · exact .inl same
    · have apart : n.seg ≠ node.seg := fun eq => same (congrArg Seg.path eq)
      have above := sized.forest.between (mem_segs mem) (mem_segs hn) pre apart
      exact .inr (List.prefix_take_iff.2 ⟨pre, above⟩)
  · rintro (same | pre)
    · exact same ▸ List.prefix_refl _
    · exact pre.trans (List.take_prefix ..)

theorem lockLoop_nil (fuel : Nat) (delta : Int) : lockLoop edge sign change fuel c [] delta = .ok (delta, c) := by
  unfold lockLoop
  rfl

theorem Sized.lockLoop_node (edge : Nat) (sign : Int) (change : Nat → Nat) (sized : c.Sized) {node : TreeNode α β}
    (mem : node ∈ c.nodes) (fuel : Nat) (delta : Int) :
    ∃ size, (size = if node.lockRef = edge then sign * node.key.length else 0) ∧
      lockLoop edge sign change (fuel + 1) c node.path delta =
        lockLoop edge sign change fuel ((c.lockOne node.path change size).updateLeafStatus node.path) node.parent (delta + size) := by
  refine ⟨_, rfl, ?_⟩
  have found := sized.find_eq mem
  obtain ⟨x, rest, eq⟩ := List.exists_cons_of_length_pos (Nat.zero_lt_of_lt (sized.lt mem))
  conv_lhs => unfold lockLoop
  rw [eq] at found ⊢
  simp only [found, lockOne, relock, decide_eq_true_eq]

/-- Locking a node and then the way to its parent locks the way to the node. -/
theorem Sized.relock_way (sized : c.Sized) {c₁ : Cache α β} {node : TreeNode α β} (mem : node ∈ c.nodes)
    (nodes : c₁.nodes = c.relock (· = node.path) change) :
    c₁.relock (· <+: node.parent) change = c.relock (· <+: node.path) change := by
  unfold relock
  rw [nodes, relock, List.map_map]
  refine List.map_congr_left fun n hn => ?_
  have way := sized.on_way mem hn
  simp only [Function.comp_apply, decide_eq_true_eq]
  by_cases same : n.path = node.path
  · have above : ¬n.path <+: node.parent := by
      intro pre
      have := pre.length_le
      rw [same, sized.parent_length mem] at this
      have := sized.lt mem
      omega
    rw [if_pos same, if_neg above, if_pos (way.2 (.inl same))]
  · rw [if_neg same]
    by_cases above : n.path <+: node.parent
    · rw [if_pos above, if_pos (way.2 (.inr above))]
    · rw [if_neg above, if_neg fun pre => (way.1 pre).elim same above]

theorem Sound.relocked_root (sound : c.Sound) : Relocked c c (· <+: []) change := by
  refine ⟨sound, ?_⟩
  conv_lhs => rw [← List.map_id c.nodes]
  refine List.map_congr_left fun n hn => ?_
  rw [if_neg]
  · rfl
  · rw [decide_eq_true_eq, List.prefix_nil]
    exact List.ne_nil_of_length_pos (Nat.zero_lt_of_lt (sound.lt hn))

/-- A walk up to the root changes the locks of the nodes on the way. -/
theorem lockLoop_spec (balanced : Balanced edge sign change) {fuel : Nat} (delta : Int) (sound : c.Sound) (isNode : c.IsNode path)
    (enough : path.length ≤ fuel) :
    ∃ delta' c', lockLoop edge sign change fuel c path delta = .ok (delta', c') ∧ Relocked c c' (· <+: path) change := by
  induction fuel generalizing c path delta with
  | zero =>
    obtain rfl := List.eq_nil_of_length_eq_zero (Nat.le_zero.1 enough)
    exact ⟨delta, c, lockLoop_nil .., sound.relocked_root⟩
  | succ fuel ih =>
    obtain rfl | ⟨node, mem, rfl⟩ := isNode
    · exact ⟨delta, c, lockLoop_nil .., sound.relocked_root⟩
    · obtain ⟨size, sizeIs, run⟩ := sound.lockLoop_node edge sign change mem fuel delta
      have one : Relocked c ((c.lockOne node.path change size).updateLeafStatus node.path) (· = node.path) change :=
        ⟨lockOne_sound balanced sound mem sizeIs, updateLeafStatus_nodes⟩
      have shorter : node.parent.length ≤ fuel := by
        rw [sound.parent_length mem]
        have := sound.lt mem
        omega
      obtain ⟨delta', c', rest, done⟩ := ih (delta + size) one.sound (one.isNode.2 (sound.parent_isNode mem)) shorter
      exact ⟨delta', c', run.trans rest, done.sound, done.nodes.trans (sound.relock_way mem one.nodes)⟩

variable {held : List (List α)}

omit [DecidableEq α] in
theorem Locked.perm [DecidableEq α] {held' : List (List α)} (locked : c.Locked held) (same : held.Perm held') : c.Locked held' :=
  ⟨fun node mem => (locked.locks node mem).trans (same.countP_eq _), fun path here => locked.handles path (same.mem_iff.2 here)⟩

/-- **`inc_lock_ref`** takes a reference. -/
theorem incLockRef_spec (sound : c.Sound) (locked : c.Locked held) (isNode : c.IsNode path) :
    ∃ delta c', c.incLockRef path = .ok (delta, c') ∧ Relocked c c' (· <+: path) (· + 1) ∧ c'.Locked (path :: held) := by
  obtain ⟨delta, c', run, done⟩ := lockLoop_spec balanced_inc 0 sound isNode le_rfl
  refine ⟨delta, c', run, done, fun m into => ?_, fun q here => ?_⟩
  · rw [done.nodes] at into
    obtain ⟨n, hn, rfl⟩ := mem_relock.1 into
    have old := locked.locks n hn
    rw [List.countP_cons]
    split
    · exact congrArg (· + 1) old
    · exact old
  · rw [done.isNode]
    obtain rfl | here := List.mem_cons.1 here
    · exact isNode
    · exact locked.handles q here

/-- **`dec_lock_ref`** gives a reference back. -/
theorem decLockRef_spec (sound : c.Sound) (locked : c.Locked (path :: held)) :
    ∃ delta c', c.decLockRef path = .ok (delta, c') ∧ Relocked c c' (· <+: path) (· - 1) ∧ c'.Locked held := by
  have isNode := locked.handles path (List.mem_cons_self ..)
  obtain ⟨delta, c', run, done⟩ := lockLoop_spec balanced_dec 0 sound isNode le_rfl
  refine ⟨delta, c', run, done, fun m into => ?_, fun q here => ?_⟩
  · rw [done.nodes] at into
    obtain ⟨n, hn, rfl⟩ := mem_relock.1 into
    have old := locked.locks n hn
    rw [List.countP_cons] at old
    split
    · next below =>
      simp only [below, if_true] at old
      simp only [old, Nat.add_sub_cancel]
    · next apart => simpa only [apart, Bool.false_eq_true, if_false, Nat.add_zero] using old
  · rw [done.isNode]
    exact locked.handles q (List.mem_cons_of_mem _ here)

end LockLoop

/-! ## Eviction -/

section Evict

variable {c : Cache α β} {held : List (List α)}

/-- Below a node without locks there is a leaf without locks. -/
theorem Locked.leaf (locked : c.Locked held) (sound : c.Sound) {node : TreeNode α β} (mem : node ∈ c.nodes)
    (zero : node.lockRef = 0) : c.evictableLeaves ≠ [] := by
  have some : node ∈ c.nodes.filter (·.lockRef = 0) := List.mem_filter.2 ⟨mem, decide_eq_true zero⟩
  cases deepest : (c.nodes.filter (·.lockRef = 0)).argmax (·.path.length) with
  | none => exact absurd (List.argmax_eq_none.1 deepest) (List.ne_nil_of_mem some)
  | some top =>
    obtain ⟨here, free⟩ := List.mem_filter.1 (List.argmax_mem deepest)
    refine List.ne_nil_of_mem ((sound.leaves top.path).2 ⟨top, here, rfl, of_decide_eq_true free, fun child into below => ?_⟩)
    -- a child of the deepest one has no locks either
    have above : top.path <+: child.path := below ▸ List.take_prefix ..
    have free' : child.lockRef = 0 := by
      have le : child.lockRef ≤ top.lockRef := by
        rw [locked.locks child into, locked.locks top here]
        refine List.countP_mono_left fun path _ pre => decide_eq_true ?_
        exact above.trans (of_decide_eq_true pre)
      rw [of_decide_eq_true free] at le
      exact Nat.le_zero.1 le
    have le := List.le_of_mem_argmax (List.mem_filter.2 ⟨into, decide_eq_true free'⟩) deepest
    have lt := sound.lt into
    have := congrArg List.length below
    rw [sound.parent_length into] at this
    omega

/-- Without leaves there is nothing to evict. -/
theorem Locked.nothing_evictable (locked : c.Locked held) (sound : c.Sound) (none : c.evictableLeaves = []) : c.evictableSize = 0 := by
  rw [sound.evictable]
  refine Int.natCast_eq_zero.2 (List.sum_eq_zero fun n mem => ?_)
  obtain ⟨node, here, rfl⟩ := List.mem_map.1 mem
  refine if_neg fun zero => ?_
  exact locked.leaf sound here (beq_iff_eq.1 zero) none

/-- What an eviction does. -/
structure Evicted (held : List (List α)) (c c' : Cache α β) (freed : List β) : Prop where
  sound : c'.Sound
  locked : c'.Locked held
  nodes : c'.nodes.Sublist c.nodes
  values : c.values.Perm (freed ++ c'.values)
  evictable : c.evictableSize = freed.length + c'.evictableSize

theorem deleteLeaf_nodes {node : TreeNode α β} : (c.deleteLeaf node).nodes = c.nodes.filter (·.path ≠ node.path) := by
  unfold deleteLeaf
  rw [updateLeafStatus_nodes]

/-- The tree without a leaf, before its parent is looked at. -/
def pruned (c : Cache α β) (node : TreeNode α β) : Cache α β :=
  ⟨c.nodes.filter (·.path ≠ node.path), c.evictableSize - node.key.length, c.protectedSize, c.evictableLeaves.erase node.path⟩

section Pruned

variable {node : TreeNode α β} (sound : c.Sound) (mem : node ∈ c.nodes) (zero : node.lockRef = 0)
  (bare : ∀ child ∈ c.nodes, child.parent ≠ node.path)
include sound mem

theorem Sound.filter_eq : ∃ a b, c.nodes = a ++ node :: b ∧ (c.pruned node).nodes = a ++ b := by
  obtain ⟨a, b, eq, before, after⟩ := sound.split_nodes mem
  refine ⟨a, b, eq, ?_⟩
  show List.filter (fun n => decide (n.path ≠ node.path)) c.nodes = a ++ b
  rw [eq, List.filter_append, List.filter_cons_of_neg (by simp only [ne_eq, not_true_eq_false, decide_false, Bool.false_eq_true, not_false_eq_true]),
    List.filter_eq_self.2 fun n hn => decide_eq_true (before n hn),
    List.filter_eq_self.2 fun n hn => decide_eq_true (after n hn)]

theorem pruned_sizeOf (p : Nat → Bool) :
    c.sizeOf p = (c.pruned node).sizeOf p + if p node.lockRef then node.key.length else 0 := by
  obtain ⟨a, b, eq, rest⟩ := sound.filter_eq mem
  unfold sizeOf
  rw [eq, rest]
  simp only [List.map_append, List.map_cons, List.sum_append, List.sum_cons]
  omega

theorem pruned_values : c.values.Perm (node.value ++ (c.pruned node).values) := by
  obtain ⟨a, b, eq, rest⟩ := sound.filter_eq mem
  unfold values
  rw [eq, rest, List.flatMap_append, List.flatMap_cons, List.flatMap_append, ← List.append_assoc, ← List.append_assoc]
  exact List.perm_append_comm.append_right _

include zero bare

theorem pruned_sized : (c.pruned node).Sized := by
  have evictable := pruned_sizeOf sound mem (· == 0)
  have protect := pruned_sizeOf sound mem (· != 0)
  simp only [zero, beq_self_eq_true, bne_self_eq_false, if_true, Bool.false_eq_true, if_false] at evictable protect
  have segs : (c.pruned node).segs = c.segs.filter (·.path ≠ node.path) := by
    unfold Cache.segs pruned
    rw [List.filter_map]
    rfl
  refine ⟨?_, fun m into => sound.filled m (List.mem_of_mem_filter into), ?_, ?_, sound.once.erase _⟩
  · rw [segs]
    refine sound.forest.remove fun s hs _ => ?_
    obtain ⟨child, here, rfl⟩ := List.mem_map.1 hs
    exact bare child here
  · show c.evictableSize - node.key.length = _
    rw [sound.evictable]
    omega
  · show c.protectedSize = _
    rw [sound.protect]
    omega

omit zero bare in
theorem pruned_isLeaf {q : List α} (apart : q ≠ node.parent) : q ∈ (c.pruned node).evictableLeaves ↔ (c.pruned node).IsLeaf q := by
  refine (sound.once.mem_erase_iff.trans (and_congr_right fun _ => sound.leaves q)).trans ⟨?_, ?_⟩
  · rintro ⟨ne, m, hm, rfl, free, below⟩
    refine ⟨m, List.mem_filter.2 ⟨hm, decide_eq_true ne⟩, rfl, free, fun child into => below child (List.mem_of_mem_filter into)⟩
  · rintro ⟨m, hm, rfl, free, below⟩
    obtain ⟨here, ne⟩ := List.mem_filter.1 hm
    refine ⟨of_decide_eq_true ne, m, here, rfl, free, fun child into same => ?_⟩
    by_cases own : child.path = node.path
    · rw [sound.unique into mem own] at same
      exact apart same.symm
    · exact below child (List.mem_filter.2 ⟨into, decide_eq_true own⟩) same

end Pruned

/-- A leaf that is deleted gives its values back. -/
theorem deleteLeaf_evicted (sound : c.Sound) (locked : c.Locked held) {node : TreeNode α β} (mem : node ∈ c.nodes)
    (leaf : c.IsLeaf node.path) : Evicted held c (c.deleteLeaf node) node.value := by
  obtain ⟨m, hm, same, zero, bare⟩ := leaf
  obtain rfl := sound.unique hm mem same
  have nodes : (c.deleteLeaf m).nodes = _ := deleteLeaf_nodes
  have sized := pruned_sized sound mem zero bare
  have values := pruned_values sound mem
  have kept : (c.deleteLeaf m).values = (c.pruned m).values := by
    unfold Cache.values
    rw [nodes]
    rfl
  refine ⟨sized.refresh fun q apart => pruned_isLeaf sound mem apart, ⟨fun n into => ?_, fun path here => ?_⟩, ?_, ?_, ?_⟩
  · rw [nodes] at into
    exact locked.locks n (List.mem_of_mem_filter into)
  · refine (locked.handles path here).imp id fun ⟨n, hn, eq⟩ => ⟨n, ?_, eq⟩
    rw [nodes]
    refine List.mem_filter.2 ⟨hn, decide_eq_true fun own => ?_⟩
    have count := (locked.locks m mem).symm.trans zero
    refine List.countP_eq_zero.1 count path here (decide_eq_true ?_)
    rw [← own, eq]
  · rw [nodes]
    exact List.filter_sublist
  · rw [kept]
    exact values
  · have size : (c.deleteLeaf m).evictableSize = c.evictableSize - m.key.length := updateLeafStatus_sizes.1
    rw [size, sound.filled m mem, TreeNode.key_length]
    omega

theorem Evicted.trans {c₁ c₂ : Cache α β} {a b : List β} (one : Evicted held c c₁ a) (two : Evicted held c₁ c₂ b) :
    Evicted held c c₂ (a ++ b) := by
  refine ⟨two.sound, two.locked, two.nodes.trans one.nodes, ?_, ?_⟩
  · rw [List.append_assoc]
    exact one.values.trans (two.values.append_left a)
  · rw [one.evictable, two.evictable, List.length_append]
    push_cast
    ring

theorem Sized.isBare_iff (sized : c.Sized) {path : List α} : c.isBare path = true ↔ c.IsLeaf path := by
  have children : c.children path = [] ↔ ∀ child ∈ c.nodes, child.parent ≠ path := by
    unfold children
    rw [List.filter_eq_nil_iff]
    simp only [decide_eq_true_eq, ne_eq]
  unfold isBare
  split
  · next none => exact ⟨nofun, fun ⟨node, mem, same, _⟩ => absurd same (find_eq_none.1 none node mem)⟩
  · next node found =>
    obtain ⟨mem, rfl⟩ := of_find found
    rw [Bool.and_eq_true, List.isEmpty_iff, beq_iff_eq, children]
    constructor
    · exact fun ⟨bare, zero⟩ => ⟨node, mem, rfl, zero, bare⟩
    · rintro ⟨m, hm, same, zero, bare⟩
      exact ⟨bare, sized.unique hm mem same ▸ zero⟩

/-- The heap goes on holding the leaves when one is deleted. -/
theorem heap_step {heap : List (List α)} (sound : c.Sound) (once : heap.Nodup) (leaves : ∀ path, path ∈ heap ↔ c.IsLeaf path)
    {x : TreeNode α β} (mem : x ∈ c.nodes) {c' : Cache α β} (nodes : c'.nodes = (c.pruned x).nodes) (sized : c'.Sized) :
    (heap.erase x.path ++ if c'.isBare x.parent then [x.parent] else []).Nodup ∧
      ∀ path, path ∈ heap.erase x.path ++ (if c'.isBare x.parent then [x.parent] else []) ↔ c'.IsLeaf path := by
  have parent : x.parent ∉ heap.erase x.path := by
    intro into
    obtain ⟨_, _, _, _, bare⟩ := (leaves x.parent).1 (List.mem_of_mem_erase into)
    exact bare x mem rfl
  refine ⟨List.nodup_append.2 ⟨once.erase _, ?_, ?_⟩, fun path => ?_⟩
  · split
    · exact List.nodup_singleton _
    · exact List.nodup_nil
  · intro p hp q hq same
    split at hq
    · rw [List.mem_singleton] at hq
      exact parent (hq ▸ same ▸ hp)
    · exact nomatch hq
  · rw [List.mem_append, isLeaf_congr nodes]
    by_cases own : path = x.parent
    · subst own
      rw [or_iff_right parent, ← isLeaf_congr nodes, ← sized.isBare_iff]
      split
      · next bare => exact ⟨fun _ => bare, fun _ => List.mem_singleton_self _⟩
      · next busy => exact ⟨nofun, fun bare => absurd bare busy⟩
    · have apart : path ∉ if c'.isBare x.parent = true then [x.parent] else [] := by
        split
        · rwa [List.mem_singleton]
        · exact List.not_mem_nil
      rw [or_iff_left apart, ← pruned_isLeaf sound mem own]
      refine once.mem_erase_iff.trans (Iff.trans ?_ sound.once.mem_erase_iff.symm)
      rw [leaves, sound.leaves]

theorem evictLoop_spec (pick : Nat → Nat) (numTokens : Nat) {fuel : Nat} {heap : List (List α)} (numEvicted : Nat) (freed : List β)
    (sound : c.Sound) (locked : c.Locked held) (once : heap.Nodup) (leaves : ∀ path, path ∈ heap ↔ c.IsLeaf path)
    (enough : c.nodes.length < fuel) :
    ∃ more c', evictLoop pick numTokens fuel c heap numEvicted freed = .ok (numEvicted + more.length, freed ++ more, c') ∧
      Evicted held c c' more ∧ (numTokens ≤ numEvicted + more.length ∨ c'.evictableSize = 0) := by
  have still : Evicted held c c [] := ⟨sound, locked, List.Sublist.refl _, .refl _, by rw [List.length_nil, Nat.cast_zero, zero_add]⟩
  induction fuel generalizing c heap numEvicted freed with
  | zero => omega
  | succ fuel ih =>
    unfold evictLoop
    split
    · next less =>
      cases at' : heap[pick fuel % heap.length]? with
      | none =>
        have none : heap = [] := by
          by_contra ne
          have pos := List.length_pos_iff.2 ne
          exact absurd (Nat.mod_lt _ pos) (Nat.not_lt.2 (List.getElem?_eq_none_iff.1 at'))
        have empty : c.evictableLeaves = [] := by
          refine List.eq_nil_iff_forall_not_mem.2 fun path mem => ?_
          have := (leaves path).2 ((sound.leaves path).1 mem)
          rw [none] at this
          exact nomatch this
        refine ⟨[], c, ?_, still, .inr (locked.nothing_evictable sound empty)⟩
        simp only [List.append_nil, List.length_nil, Nat.add_zero]
      | some path =>
        have here := List.mem_of_getElem? at'
        have leaf := (leaves path).1 here
        obtain ⟨x, mem, rfl, _⟩ := leaf
        have done := deleteLeaf_evicted sound locked mem ((leaves x.path).1 here)
        have nodes : (c.deleteLeaf x).nodes = (c.pruned x).nodes := deleteLeaf_nodes
        obtain ⟨once', leaves'⟩ := heap_step sound once leaves mem nodes done.sound.toSized
        have fewer : (c.deleteLeaf x).nodes.length < fuel := by
          obtain ⟨a, b, eq, rest⟩ := sound.filter_eq mem
          rw [nodes, rest]
          rw [eq] at enough
          simp only [List.length_append, List.length_cons] at enough ⊢
          omega
        simp only [sound.find_eq mem]
        obtain ⟨more, c', run, rest, stop⟩ := ih (numEvicted + x.value.length) (freed ++ x.value) done.sound done.locked
          once' leaves' fewer
          ⟨done.sound, done.locked, List.Sublist.refl _, .refl _, by rw [List.length_nil, Nat.cast_zero, zero_add]⟩
        refine ⟨x.value ++ more, c', ?_, done.trans rest, ?_⟩
        · rw [run, List.append_assoc, List.length_append, Nat.add_assoc]
        · rwa [List.length_append, ← Nat.add_assoc]
    · next enough =>
      refine ⟨[], c, ?_, still, .inl ?_⟩
      · simp only [List.append_nil, List.length_nil, Nat.add_zero]
      · rw [List.length_nil]
        omega

/-- **Eviction** stops when it has the tokens it was asked for or nothing can go. -/
theorem evict_spec (pick : Nat → Nat) (numTokens : Nat) (sound : c.Sound) (locked : c.Locked held) :
    ∃ freed c', c.evict pick numTokens = .ok (freed.length, freed, c') ∧ Evicted held c c' freed ∧
      (numTokens ≤ freed.length ∨ c'.evictableSize = 0) := by
  obtain ⟨freed, c', run, done, stop⟩ := evictLoop_spec pick numTokens 0 [] sound locked sound.once sound.leaves
    (Nat.lt_succ_self _)
  rw [Nat.zero_add] at run stop
  exact ⟨freed, c', run, done, stop⟩

end Evict

/-! ## What an operation keeps -/

section Keep

variable {c c' : Cache α β} {path : List α} {values : List β}

omit [DecidableEq α] in
theorem values_eq (sized : c.Sized) (sized' : c'.Sized) (same : c'.entries = c.entries) : c'.values = c.values := by
  rw [← sized.entries_snd, ← sized'.entries_snd, same]

omit [DecidableEq α] in
theorem Along.mono (along : c.Along path values) (sub : ∀ e ∈ c.entries, e ∈ c'.entries) : c'.Along path values :=
  ⟨along.1, fun i v here => sub _ (along.2 i v here)⟩

omit [DecidableEq α] in
/-- A sequence has one value at each place. -/
theorem Along.take_eq {path' : List α} {values' : List β} (along : c.Along path values) (further : c.Along path' values') (sized : c.Sized)
    (pre : path <+: path') : values'.take path.length = values := by
  refine List.ext_getElem? fun i => ?_
  rw [List.getElem?_take]
  split
  · next lt =>
    have bound := pre.length_le
    have inside : i < values.length := by rwa [along.1]
    have inside' : i < values'.length := by
      rw [further.1]
      omega
    have here : values[i]? = some values[i] := List.getElem?_eq_getElem inside
    have there : values'[i]? = some values'[i] := List.getElem?_eq_getElem inside'
    rw [here, there]
    refine congrArg some (sized.functional (further.2 i _ there) ?_)
    have cut : path'.take (i + 1) = path.take (i + 1) := by
      conv_rhs => rw [List.prefix_iff_eq_take.1 pre, List.take_take, Nat.min_eq_left (by omega)]
    rw [cut]
    exact along.2 i _ here
  · next ge => exact (List.getElem?_eq_none (by rw [along.1]; omega)).symm

/-- What a tree holds after a sequence may have been added. -/
structure Grown (c c' : Cache α β) (key : List α) (added : List β) : Prop where
  old : ∀ e ∈ c.entries, e ∈ c'.entries
  new : ∀ e ∈ c'.entries, e ∈ c.entries ∨ ∃ i, e.1 = key.take (i + 1) ∧ added[i]? = some e.2

omit [DecidableEq α] in
theorem Grown.then_same {key : List α} {added : List β} {c₁ : Cache α β} (grown : Grown c c₁ key added) (same : c'.entries = c₁.entries) :
    Grown c c' key added := by
  refine ⟨?_, ?_⟩
  · rw [same]
    exact grown.old
  · rw [same]
    exact grown.new

variable {held : List (List α)}

/-- The prefix of a node that is held stays where it is. -/
theorem Along.keep (along : c.Along path values) (sized : c.Sized) (sound : c'.Sound) (locked : c'.Locked held) (mem : path ∈ held)
    (sub : ∀ e ∈ c'.entries, e ∈ c.entries) : c'.Along path values := by
  refine ⟨along.1, fun i v here => ?_⟩
  have bound := (List.getElem?_eq_some_iff.1 here).1
  rw [along.1] at bound
  obtain rfl | ⟨node, into, rfl⟩ := locked.handles path mem
  · exact absurd bound (Nat.not_lt_zero _)
  · have cell : node.path.take (i + 1) ∈ cells c'.segs := by
      refine sound.forest.closed (mem_cells.2 ⟨node.seg, mem_segs into, List.prefix_refl _, sound.lt into⟩) (List.take_prefix ..) ?_
      refine List.ne_nil_of_length_pos ?_
      rw [List.length_take]
      omega
    rw [← sound.entries_fst] at cell
    obtain ⟨⟨q, w⟩, entry, eq⟩ := List.mem_map.1 cell
    obtain rfl : q = node.path.take (i + 1) := eq
    rwa [sized.functional (along.2 i v here) (sub _ entry)]

theorem Evicted.protectedSize {freed : List β} (done : Evicted held c c' freed) (sized : c.Sized) :
    c'.protectedSize = c.protectedSize := by
  have values := done.values.length_eq
  rw [List.length_append] at values
  have before := sized.sizes
  have after := done.sound.sizes
  have evictable := done.evictable
  omega

theorem Evicted.entries_sub {freed : List β} (done : Evicted held c c' freed) : ∀ e ∈ c'.entries, e ∈ c.entries := by
  intro e mem
  obtain ⟨node, into, here⟩ := List.mem_flatMap.1 mem
  exact List.mem_flatMap.2 ⟨node, done.nodes.subset into, here⟩

variable {full : List α} {start : Nat} {added : List β}

theorem Inserted.values_eq (done : Inserted held c c' full start added) (sized : c.Sized) (length : added.length = full.length - start) :
    c'.values = c.values ++ added := by
  rw [← sized.entries_snd, ← done.sound.entries_snd, done.entries, List.map_append]
  refine congrArg (_ ++ ·) (List.map_snd_zip ?_)
  rw [length_cells_seg, length]

theorem Inserted.grown {value : List β} (done : Inserted held c c' full start (value.drop start)) (length : value.length = full.length) :
    Grown c c' full value := by
  refine ⟨fun e mem => ?_, fun e mem => ?_⟩
  · rw [done.entries]
    exact List.mem_append_left _ mem
  · rw [done.entries] at mem
    refine (List.mem_append.1 mem).imp_right fun new => ?_
    have filled : (value.drop start).length = full.length - start := by
      rw [List.length_drop, length]
    have new : (e.1, e.2) ∈ (⟨full, start, value.drop start, 0⟩ : TreeNode α β).entries := new
    obtain ⟨j, here, path⟩ := (TreeNode.mem_entries filled).1 new
    rw [List.getElem?_drop] at here
    exact ⟨start + j, path.symm, here⟩

/-- What was there is not added again. -/
theorem Inserted.start_ge (done : Inserted held c c' full start added) (sized : c.Sized) (length : added.length = full.length - start)
    (lt : start < full.length) :
    full.take (start + 1) ∉ cells c.segs := by
  have nodup := done.sound.forest.nodup
  rw [← done.sound.entries_fst, done.entries, List.map_append, sized.entries_fst, List.map_fst_zip (by rw [length_cells_seg, length])]
    at nodup
  intro old
  refine (List.nodup_append.1 nodup).2.2 _ old _ (mem_cells_seg.2 ⟨List.take_prefix .., ?_⟩) rfl
  rw [List.length_take]
  exact lt_min (Nat.lt_succ_self start) lt

/-- A sequence that is held is not added again. -/
theorem Inserted.ge (done : Inserted held c c' full start added) (sized : c.Sized) (length : added.length = full.length - start)
    (along : c.Along path values) (pre : path <+: full) : path.length ≤ start := by
  by_contra short
  have cut : full.take (start + 1) = path.take (start + 1) := by
    conv_rhs => rw [List.prefix_iff_eq_take.1 pre, List.take_take, Nat.min_eq_left (by omega)]
  have bound := pre.length_le
  refine done.start_ge sized length (by omega) ?_
  rw [cut, ← sized.entries_fst]
  have inside : start < values.length := by
    rw [along.1]
    omega
  exact List.mem_map.2 ⟨_, along.2 start _ (List.getElem?_eq_getElem inside), rfl⟩

end Keep

end Cache

end SlimeBoard.RadixCache
