import SlimeBoard.Lib.PyDict
import SlimeBoard.Lib.Rows

/-!
# Balancing sequence lengths

`karmarkar_karp` merges the two states of largest spread until one is left, the large sets of one
with the small sets of the other. Its sets are a partition of the indices; with at least as many
items as sets none is empty, and no two differ by more than the longest item.
-/

namespace SlimeBoard.SeqlenBalancing

/-- `Set`: pairs of an index and a length, and the sum of the lengths. -/
structure SeqSet where
  sum : Nat
  items : List (Nat × Nat)
  summed : sum = (items.map Prod.snd).sum

namespace SeqSet

/-- `Set()` -/
def empty : SeqSet := ⟨0, [], rfl⟩

def add (s : SeqSet) (idx val : Nat) : SeqSet where
  sum := s.sum + val
  items := s.items ++ [(idx, val)]
  summed := by rw [List.map_append, List.sum_append, ← s.summed]; rfl

def merge (s other : SeqSet) : SeqSet := other.items.foldl (fun s item => s.add item.1 item.2) s

/-- What `__lt__` compares, in this order. -/
def key (s : SeqSet) : ℕ ×ₗ ℕ ×ₗ List (ℕ ×ₗ ℕ) := toLex (s.sum, toLex (s.items.length, s.items.map toLex))

end SeqSet

/-- `sorted(sets, reverse=True)` -/
def sortedReverse (sets : List SeqSet) : List SeqSet := sets.insertionSort fun a b => b.key ≤ a.key

/-- `State`: `k` sets in decreasing order. -/
structure State (k : Nat) where
  sets : List SeqSet
  size : sets.length = k
  decreasing : sets.Pairwise fun a b => b.key ≤ a.key

theorem length_sortedReverse (sets : List SeqSet) : (sortedReverse sets).length = sets.length :=
  List.length_insertionSort ..

theorem perm_sortedReverse (sets : List SeqSet) : (sortedReverse sets).Perm sets := List.perm_insertionSort ..

theorem pairwise_sortedReverse (sets : List SeqSet) : (sortedReverse sets).Pairwise fun a b => b.key ≤ a.key := by
  have total : Std.Total (fun a b : SeqSet => b.key ≤ a.key) := ⟨fun a b => le_total b.key a.key⟩
  have trans : IsTrans SeqSet (fun a b => b.key ≤ a.key) := ⟨fun a b c first second => second.trans first⟩
  exact List.pairwise_insertionSort _ sets

namespace State

variable {k : Nat}

/-- `State(items, k)` -/
def ofItems (items : List (Nat × Nat)) (k : Nat) : Py (State k) := do
  pyAssert (items.length == 1 || items.length == k)
  if fits : items.length ≤ k then
    let sets := items.map (fun item => SeqSet.empty.add item.1 item.2) ++ List.replicate (k - items.length) SeqSet.empty
    .ok {
      sets := sortedReverse sets
      size := by
        rw [length_sortedReverse, List.length_append, List.length_map, List.length_replicate]
        omega
      decreasing := pairwise_sortedReverse sets }
  else .error .indexError

def merge (s other : State k) : State k where
  sets := sortedReverse (s.sets.zipWith SeqSet.merge other.sets.reverse)
  size := by
    rw [length_sortedReverse, List.length_zipWith, List.length_reverse, s.size, other.size, Nat.min_self]
  decreasing := pairwise_sortedReverse _

/-- `sets[0]` -/
def largest (s : State k) : SeqSet := s.sets.headD .empty

def spread (s : State k) : Nat := s.largest.sum - (s.sets.getLastD .empty).sum

/-- `__lt__` -/
def lt (s other : State k) : Prop :=
  other.spread < s.spread ∨ s.spread = other.spread ∧ other.largest.key < s.largest.key

instance (s other : State k) : Decidable (s.lt other) := by
  unfold lt
  infer_instance

def getPartitions (s : State k) : List (List Nat) := s.sets.map fun set => set.items.map Prod.fst

end State

/-- `heapq.heappop`: the least of the states. No two of them are equal, since their largest sets have different items. -/
def heappop {k : Nat} : List (State k) → Option (State k × List (State k))
  | [] => none
  | s :: rest =>
    match heappop rest with
    | none => some (s, [])
    | some (least, others) => if least.lt s then some (least, s :: others) else some (s, least :: others)

/-- `while len(states_pq) > 1`, at most `fuel` turns. -/
def mergeStates {k : Nat} : Nat → List (State k) → List (State k)
  | 0, statesPq => statesPq
  | fuel + 1, statesPq =>
    match heappop statesPq with
    | none => statesPq
    | some (state0, rest) =>
      match heappop rest with
      | none => statesPq
      | some (state1, rest) => mergeStates fuel (state0.merge state1 :: rest)

/-- `sorted([(seqlen, i) for i, seqlen in enumerate(seqlen_list)])`, as pairs of index and length -/
def sortedSeqlens (seqlenList : List Nat) : List (Nat × Nat) :=
  (seqlenList.zipIdx.map Prod.swap).insertionSort fun a b => toLex (a.2, a.1) ≤ toLex (b.2, b.1)

def karmarkarKarp (seqlenList : List Nat) (kPartitions : Nat) (equalSize : Bool) : Py (List (List Nat)) := do
  let sortedSeqlenList := sortedSeqlens seqlenList
  let statesPq ← if equalSize then do
      if kPartitions = 0 then .error .valueError
      pyAssert (seqlenList.length % kPartitions == 0)
      (sortedSeqlenList.toChunks kPartitions).mapM fun items => State.ofItems items kPartitions
    else sortedSeqlenList.mapM fun item => State.ofItems [item] kPartitions
  let finalState ← pyIndex (mergeStates statesPq.length statesPq) 0
  let partitions := finalState.getPartitions
  if equalSize then
    pyAssert (partitions.all fun partition => partition.length * kPartitions == seqlenList.length)
  return partitions

def checkAndSortPartitions (seqlenList : List Nat) (kPartitions : Nat) (partitions : List (List Nat)) : Py (List (List Nat)) := do
  pyAssert (partitions.length == kPartitions)
  pyAssert (partitions.all fun partition => decide (0 < partition.length))
  pyAssert (decide (partitions.flatten.toFinset = Finset.range seqlenList.length))
  return partitions.map fun partition => partition.insertionSort (· ≤ ·)

def getSeqlenBalancedPartitions (seqlenList : List Nat) (kPartitions : Nat) (equalSize : Bool) : Py (List (List Nat)) := do
  pyAssert (decide (kPartitions ≤ seqlenList.length))
  let partitions ← karmarkarKarp seqlenList kPartitions equalSize
  checkAndSortPartitions seqlenList kPartitions partitions

/-! ## Merging sets -/

theorem SeqSet.foldl_add (items : List (Nat × Nat)) (s : SeqSet) :
    (items.foldl (fun s item => s.add item.1 item.2) s).items = s.items ++ items := by
  induction items generalizing s with
  | nil => exact (List.append_nil _).symm
  | cons item items ih =>
    rw [List.foldl_cons, ih]
    exact List.append_assoc _ [item] items

@[simp] theorem SeqSet.items_merge (s other : SeqSet) : (s.merge other).items = s.items ++ other.items :=
  SeqSet.foldl_add other.items s

@[simp] theorem SeqSet.sum_merge (s other : SeqSet) : (s.merge other).sum = s.sum + other.sum := by
  rw [SeqSet.summed, SeqSet.items_merge, List.map_append, List.sum_append, ← SeqSet.summed, ← SeqSet.summed]

theorem SeqSet.sum_le {a b : SeqSet} (le : b.key ≤ a.key) : b.sum ≤ a.sum := by
  obtain lt | ⟨same, -⟩ := Prod.Lex.le_iff.1 le
  · exact lt.le
  · exact same.le

/-- After an empty set come empty sets. -/
theorem SeqSet.items_eq_nil {a b : SeqSet} (le : b.key ≤ a.key) (none : a.items = []) : b.items = [] := by
  have zero : a.sum = 0 := by rw [a.summed, none]; rfl
  have length : a.items.length = 0 := by rw [none]; rfl
  obtain lt | ⟨-, rest⟩ := Prod.Lex.le_iff.1 le
  · exact absurd (show b.sum < a.sum from lt) (by omega)
  · obtain lt | ⟨same, -⟩ := Prod.Lex.le_iff.1 rest
    · exact absurd (show b.items.length < a.items.length from lt) (by omega)
    · exact List.length_eq_zero_iff.1 ((show b.items.length = a.items.length from same).trans length)

namespace State

variable {k : Nat}

def items (s : State k) : List (Nat × Nat) := s.sets.flatMap (·.items)

theorem perm_zip_merge (sets others : List SeqSet) (same : sets.length = others.length) :
    ((sets.zipWith SeqSet.merge others).flatMap (·.items)).Perm (sets.flatMap (·.items) ++ others.flatMap (·.items)) := by
  induction sets generalizing others with
  | nil =>
    obtain rfl := List.length_eq_zero_iff.1 same.symm
    exact .refl _
  | cons set sets ih =>
    cases others with
    | nil => cases same
    | cons other others =>
      have rest := ih others (Nat.succ.inj same)
      simp only [List.zipWith_cons_cons, List.flatMap_cons, SeqSet.items_merge, List.append_assoc]
      apply List.Perm.append_left
      refine (List.Perm.append_left _ rest).trans ?_
      exact List.perm_append_comm_assoc ..

theorem items_merge (s other : State k) : (s.merge other).items.Perm (s.items ++ other.items) := by
  refine ((perm_sortedReverse _).flatMap_right _).trans ?_
  refine (perm_zip_merge _ _ (by rw [List.length_reverse, s.size, other.size])).trans ?_
  exact List.Perm.append_left _ ((List.reverse_perm _).flatMap_right _)

/-- The sets differ by at most `bound`. -/
def Within (bound : Nat) (s : State k) : Prop := ∀ x ∈ s.sets, ∀ y ∈ s.sets, x.sum ≤ y.sum + bound

theorem sum_antitone (s : State k) {i j : Nat} {x y : SeqSet} (le : i ≤ j) (first : s.sets[i]? = some x)
    (second : s.sets[j]? = some y) : y.sum ≤ x.sum := by
  obtain ⟨lt, rfl⟩ := List.getElem?_eq_some_iff.1 first
  obtain ⟨lt', rfl⟩ := List.getElem?_eq_some_iff.1 second
  obtain rfl | less := le.eq_or_lt
  · exact le_rfl
  · exact SeqSet.sum_le (List.pairwise_iff_getElem.1 s.decreasing i j lt lt' less)

theorem getElem?_zip_merge (s other : State k) {i : Nat} {z : SeqSet}
    (found : (s.sets.zipWith SeqSet.merge other.sets.reverse)[i]? = some z) :
    i < k ∧ ∃ x y, s.sets[i]? = some x ∧ other.sets[k - 1 - i]? = some y ∧ z = x.merge y := by
  rw [List.getElem?_zipWith] at found
  obtain ⟨lt, -⟩ : i < s.sets.length ∧ True := by
    refine ⟨?_, trivial⟩
    by_contra out
    rw [List.getElem?_eq_none (Nat.le_of_not_lt out)] at found
    cases found
  have inside : i < other.sets.length := by rw [other.size, ← s.size]; exact lt
  rw [List.getElem?_reverse inside, other.size] at found
  have mirror : k - 1 - i < other.sets.length := by rw [other.size] at inside ⊢; omega
  rw [List.getElem?_eq_getElem lt, List.getElem?_eq_getElem mirror] at found
  refine ⟨s.size ▸ lt, _, _, List.getElem?_eq_getElem lt, List.getElem?_eq_getElem mirror, ?_⟩
  exact (Option.some.inj found).symm

/-- **Merging large sets with small ones** does not widen the difference. -/
theorem Within.merge {bound : Nat} {s other : State k} (hs : s.Within bound) (ho : other.Within bound) :
    (s.merge other).Within bound := by
  intro z mem z' mem'
  obtain ⟨i, found⟩ := List.mem_iff_getElem?.1 ((perm_sortedReverse _).subset mem)
  obtain ⟨j, found'⟩ := List.mem_iff_getElem?.1 ((perm_sortedReverse _).subset mem')
  obtain ⟨hi, x, y, sx, oy, rfl⟩ := getElem?_zip_merge s other found
  obtain ⟨hj, x', y', sx', oy', rfl⟩ := getElem?_zip_merge s other found'
  rw [SeqSet.sum_merge, SeqSet.sum_merge]
  have apart := hs x (List.mem_of_getElem? sx) x' (List.mem_of_getElem? sx')
  have apart' := ho y (List.mem_of_getElem? oy) y' (List.mem_of_getElem? oy')
  obtain le | le := Nat.le_total i j
  · -- the mirrored set of the other state is the smaller one
    have small := other.sum_antitone (Nat.sub_le_sub_left le (k - 1)) oy' oy
    omega
  · have small := s.sum_antitone le sx' sx
    omega

/-- Whether a set is empty. -/
def isEmpty (x : SeqSet) : Bool := x.items.isEmpty

/-- The number of sets that are not empty. -/
def filled (s : State k) : Nat := k - (s.sets.filter isEmpty).length

/-- The empty sets are the last ones. -/
theorem empty_iff (s : State k) {i : Nat} {x : SeqSet} (found : s.sets[i]? = some x) : isEmpty x = true ↔ s.filled ≤ i := by
  obtain ⟨first, bound, split⟩ : ∃ first ≤ k, ∀ (i : Nat) (x : SeqSet), s.sets[i]? = some x → (isEmpty x = true ↔ first ≤ i) := by
    by_cases some : ∃ i : Nat, ∃ x, s.sets[i]? = some x ∧ isEmpty x = true
    · classical
      have least := Nat.find_spec some
      obtain ⟨x, here, none⟩ := least
      obtain ⟨lt, rfl⟩ := List.getElem?_eq_some_iff.1 here
      refine ⟨Nat.find some, lt.le.trans s.size.le, fun i y found => ⟨fun empty => Nat.find_min' some ⟨y, found, empty⟩, ?_⟩⟩
      intro le
      obtain rfl | less := le.eq_or_lt
      · rw [here] at found
        obtain rfl := Option.some.inj found
        exact none
      · obtain ⟨lt', rfl⟩ := List.getElem?_eq_some_iff.1 found
        have le := List.pairwise_iff_getElem.1 s.decreasing _ i lt lt' less
        exact List.isEmpty_iff.2 (SeqSet.items_eq_nil le (List.isEmpty_iff.1 none))
    · push Not at some
      refine ⟨k, le_rfl, fun i x found => ⟨fun empty => absurd empty (some i x found), ?_⟩⟩
      intro le
      obtain ⟨lt, -⟩ := List.getElem?_eq_some_iff.1 found
      rw [s.size] at lt
      omega
  have count : s.sets.filter isEmpty = (s.sets.drop first).take (k - first) := by
    apply Rows.filter_span
    intro i x found
    obtain ⟨lt, -⟩ := List.getElem?_eq_some_iff.1 found
    rw [s.size] at lt
    rw [split i x found]
    omega
  have filled : s.filled = first := by
    rw [State.filled, count, List.length_take, List.length_drop, s.size, Nat.min_self]
    omega
  rw [filled]
  exact split i x found

theorem filled_le (s : State k) : s.filled ≤ k := Nat.sub_le ..

/-- Merging fills as many sets as there are to fill. -/
theorem filled_merge (s other : State k) : (s.merge other).filled = min k (s.filled + other.filled) := by
  have count : ((s.sets.zipWith SeqSet.merge other.sets.reverse).filter isEmpty).length = k - other.filled - s.filled := by
    rw [Rows.filter_span s.filled (k - other.filled - s.filled), List.length_take, List.length_drop, List.length_zipWith,
      List.length_reverse, s.size, other.size, Nat.min_self]
    · omega
    · intro i z found
      obtain ⟨lt, x, y, sx, oy, rfl⟩ := getElem?_zip_merge s other found
      have first := s.empty_iff sx
      have second := other.empty_iff oy
      rw [isEmpty, List.isEmpty_iff] at first second ⊢
      rw [SeqSet.items_merge, List.append_eq_nil_iff, first, second]
      omega
  have sorted : ((s.merge other).sets.filter isEmpty).length = k - other.filled - s.filled :=
    ((perm_sortedReverse _).filter _).length_eq.trans count
  have := s.filled_le
  rw [filled, sorted]
  omega

end State

/-! ## The loop -/

section Loop

variable {k : Nat}

theorem heappop_some {states : List (State k)} (some : states ≠ []) :
    ∃ s rest, heappop states = .some (s, rest) ∧ states.Perm (s :: rest) := by
  induction states with
  | nil => exact absurd rfl some
  | cons t states ih =>
    cases states with
    | nil => exact ⟨t, [], rfl, .refl _⟩
    | cons u states =>
      obtain ⟨s, rest, popped, perm⟩ := ih (List.cons_ne_nil u states)
      rw [heappop, popped]
      dsimp only
      split
      · exact ⟨s, t :: rest, rfl, (perm.cons t).trans (.swap s t rest)⟩
      · exact ⟨t, s :: rest, rfl, perm.cons t⟩

/-- **The rule of the loop**: what holds of the states whatever their order, and after merging two, holds of the last. -/
theorem mergeStates_spec {Inv : List (State k) → Prop} (perm : ∀ {states states'}, states.Perm states' → Inv states → Inv states')
    (merges : ∀ a b rest, Inv (a :: b :: rest) → Inv (a.merge b :: rest)) {fuel : Nat} {states : List (State k)}
    (some : states ≠ []) (enough : states.length ≤ fuel) (inv : Inv states) :
    ∃ s, mergeStates fuel states = [s] ∧ Inv [s] := by
  induction fuel generalizing states with
  | zero => exact absurd (List.length_eq_zero_iff.1 (Nat.le_zero.1 enough)) some
  | succ fuel ih =>
    obtain ⟨a, rest, first, reordered⟩ := heappop_some some
    rw [mergeStates, first]
    dsimp only
    cases rest with
    | nil =>
      obtain rfl := List.perm_singleton.1 reordered
      exact ⟨a, rfl, inv⟩
    | cons t rest =>
      obtain ⟨b, rest', second, reordered'⟩ := heappop_some (List.cons_ne_nil t rest)
      rw [second]
      have both : states.Perm (a :: b :: rest') := reordered.trans (reordered'.cons a)
      apply ih (List.cons_ne_nil _ _)
      · have length := both.length_eq
        simp only [List.length_cons] at length ⊢
        omega
      · exact merges a b rest' (perm both inv)

/-- What the loop leaves of the items `all`, when every state has the property `P`. -/
theorem mergeStates_last {P : State k → Prop} (merges : ∀ a b, P a → P b → P (a.merge b)) {m : Nat} (few : m ≤ k)
    {all : List (Nat × Nat)} {states : List (State k)} (some : states ≠ []) (items : (states.flatMap State.items).Perm all)
    (each : ∀ s ∈ states, P s) (fill : m ≤ (states.map State.filled).sum) :
    ∃ s, mergeStates states.length states = [s] ∧ s.items.Perm all ∧ P s ∧ m ≤ s.filled := by
  let Inv (states : List (State k)) : Prop :=
    (states.flatMap State.items).Perm all ∧ (∀ s ∈ states, P s) ∧ m ≤ (states.map State.filled).sum
  have perm {states states' : List (State k)} (perm : states.Perm states') : Inv states → Inv states' := by
    rintro ⟨items, each, fill⟩
    refine ⟨(perm.flatMap_right _).symm.trans items, fun s mem => each s (perm.symm.subset mem), ?_⟩
    rwa [← (perm.map State.filled).sum_eq]
  have step (a b : State k) (rest : List (State k)) : Inv (a :: b :: rest) → Inv (a.merge b :: rest) := by
    rintro ⟨items, each, fill⟩
    simp only [Inv, List.forall_mem_cons, List.flatMap_cons, List.map_cons, List.sum_cons] at items each fill ⊢
    refine ⟨?_, ⟨merges a b each.1 each.2.1, each.2.2⟩, ?_⟩
    · refine ((State.items_merge a b).append_right _).trans ?_
      rw [List.append_assoc]
      exact items
    · rw [State.filled_merge]
      omega
  obtain ⟨s, last, items, each, fill⟩ := mergeStates_spec perm step some le_rfl ⟨items, each, fill⟩
  rw [List.flatMap_singleton] at items
  rw [List.map_singleton, List.sum_singleton] at fill
  exact ⟨s, last, items, each s (List.mem_singleton_self s), fill⟩

end Loop

/-! ## The first states -/

section Start

variable {k : Nat}

theorem ofItems_spec {items : List (Nat × Nat)} (count : items.length = 1 ∨ items.length = k) (pos : 0 < k) :
    ∃ s : State k, State.ofItems items k = .ok s ∧
      s.sets.Perm (items.map (fun item => SeqSet.empty.add item.1 item.2) ++ List.replicate (k - items.length) SeqSet.empty) := by
  have fits : items.length ≤ k := by omega
  have asserted : (items.length == 1 || items.length == k) = true := by
    rw [Bool.or_eq_true, beq_iff_eq, beq_iff_eq]
    exact count
  rw [State.ofItems, asserted, pyAssert_true, Py.ok_bind, dif_pos fits]
  exact ⟨_, rfl, perm_sortedReverse _⟩

variable {s : State k} {items : List (Nat × Nat)}
  (sets : s.sets.Perm (items.map (fun item => SeqSet.empty.add item.1 item.2) ++ List.replicate (k - items.length) SeqSet.empty))
include sets

theorem items_first : s.items.Perm items := by
  refine (sets.flatMap_right _).trans ?_
  have none : (List.replicate (k - items.length) SeqSet.empty).flatMap (·.items) = [] := by
    apply List.flatMap_eq_nil_iff.2
    intro x mem
    rw [List.eq_of_mem_replicate mem]
    rfl
  rw [List.flatMap_append, none, List.append_nil, List.flatMap_map]
  exact .of_eq (List.flatMap_singleton' items)

theorem filled_first (fits : items.length ≤ k) : s.filled = items.length := by
  have none : (items.map fun item => SeqSet.empty.add item.1 item.2).filter State.isEmpty = [] := by
    apply List.filter_eq_nil_iff.2
    intro x mem
    obtain ⟨item, -, rfl⟩ := List.mem_map.1 mem
    exact Bool.false_ne_true
  have all : (List.replicate (k - items.length) SeqSet.empty).filter State.isEmpty = List.replicate (k - items.length) SeqSet.empty := by
    apply List.filter_eq_self.2
    intro x mem
    rw [List.eq_of_mem_replicate mem]
    rfl
  rw [State.filled, (sets.filter _).length_eq, List.filter_append, none, all, List.nil_append, List.length_replicate]
  omega

theorem mem_first {x : SeqSet} (mem : x ∈ s.sets) : (∃ item ∈ items, x = SeqSet.empty.add item.1 item.2) ∨ x = SeqSet.empty := by
  obtain single | rest := List.mem_append.1 (sets.subset mem)
  · obtain ⟨item, there, rfl⟩ := List.mem_map.1 single
    exact .inl ⟨item, there, rfl⟩
  · exact .inr (List.eq_of_mem_replicate rest)

theorem within_first {bound : Nat} (short : ∀ item ∈ items, item.2 ≤ bound) : s.Within bound := by
  intro x mem y _
  have small : x.sum ≤ bound := by
    obtain ⟨item, there, rfl⟩ | rfl := mem_first sets mem
    · exact (Nat.zero_add _).le.trans (short item there)
    · exact Nat.zero_le _
  omega

end Start

/-- All sets have equally many items. -/
def State.Even {k : Nat} (s : State k) : Prop := ∀ x ∈ s.sets, ∀ y ∈ s.sets, x.items.length = y.items.length

theorem State.Even.merge {k : Nat} {s other : State k} (hs : s.Even) (ho : other.Even) : (s.merge other).Even := by
  intro z mem z' mem'
  obtain ⟨i, found⟩ := List.mem_iff_getElem?.1 ((perm_sortedReverse _).subset mem)
  obtain ⟨j, found'⟩ := List.mem_iff_getElem?.1 ((perm_sortedReverse _).subset mem')
  obtain ⟨-, x, y, sx, oy, rfl⟩ := State.getElem?_zip_merge s other found
  obtain ⟨-, x', y', sx', oy', rfl⟩ := State.getElem?_zip_merge s other found'
  rw [SeqSet.items_merge, SeqSet.items_merge, List.length_append, List.length_append,
    hs x (List.mem_of_getElem? sx) x' (List.mem_of_getElem? sx'), ho y (List.mem_of_getElem? oy) y' (List.mem_of_getElem? oy')]

/-! ## The partitions -/

section Partitions

variable {k : Nat}

theorem exists_mapM {α β : Type} {f : α → Py β} {Q : α → β → Prop} (xs : List α) (ok : ∀ x ∈ xs, ∃ y, f x = .ok y ∧ Q x y) :
    ∃ ys, xs.mapM f = .ok ys ∧ List.Forall₂ Q xs ys := by
  induction xs with
  | nil => exact ⟨[], rfl, .nil⟩
  | cons x xs ih =>
    obtain ⟨⟨y, head, holds⟩, rest⟩ := List.forall_mem_cons.1 ok
    obtain ⟨ys, tail, all⟩ := ih rest
    refine ⟨y :: ys, ?_, .cons holds all⟩
    rw [List.mapM_cons, head, Py.ok_bind, tail]
    rfl

/-- The states that are made of rows of items, one for each row. -/
theorem states_spec {P : State k → Prop} {rows : List (List (Nat × Nat))} (pos : 0 < k)
    (count : ∀ row ∈ rows, row.length = 1 ∨ row.length = k)
    (first : ∀ row ∈ rows, ∀ s : State k, s.sets.Perm (row.map (fun item => SeqSet.empty.add item.1 item.2) ++
      List.replicate (k - row.length) SeqSet.empty) → P s) :
    ∃ states : List (State k), rows.mapM (fun items => State.ofItems items k) = .ok states ∧ states.length = rows.length ∧
      (states.flatMap State.items).Perm rows.flatten ∧ (∀ s ∈ states, P s) ∧ (states.map State.filled).sum = rows.flatten.length := by
  obtain ⟨states, run, all⟩ := exists_mapM rows (f := fun items => State.ofItems items k)
    fun row mem => ofItems_spec (count row mem) pos
  refine ⟨states, run, all.length_eq.symm, ?_⟩
  clear run
  induction all with
  | nil => exact ⟨.refl _, fun s mem => absurd mem List.not_mem_nil, rfl⟩
  | @cons row s rows states sets _ ih =>
    obtain ⟨length, count⟩ := List.forall_mem_cons.1 count
    obtain ⟨here, first⟩ := List.forall_mem_cons.1 first
    obtain ⟨items, each, fill⟩ := ih count first
    refine ⟨(items_first sets).append items, List.forall_mem_cons.2 ⟨here s sets, each⟩, ?_⟩
    rw [List.map_cons, List.sum_cons, fill, filled_first sets (by omega), List.flatten_cons, List.length_append]

theorem perm_sortedSeqlens (seqlenList : List Nat) : (sortedSeqlens seqlenList).Perm (seqlenList.zipIdx.map Prod.swap) :=
  List.perm_insertionSort ..

theorem length_sortedSeqlens (seqlenList : List Nat) : (sortedSeqlens seqlenList).length = seqlenList.length := by
  rw [(perm_sortedSeqlens seqlenList).length_eq, List.length_map, List.length_zipIdx]

theorem mem_sortedSeqlens {seqlenList : List Nat} {item : Nat × Nat} (mem : item ∈ sortedSeqlens seqlenList) :
    seqlenList[item.1]? = some item.2 := by
  obtain ⟨entry, there, rfl⟩ := List.mem_map.1 ((perm_sortedSeqlens seqlenList).subset mem)
  exact List.mem_zipIdx_iff_getElem?.1 there

/-- The rows of items that the states are made of. -/
def itemRows (seqlenList : List Nat) (k : Nat) (equalSize : Bool) : List (List (Nat × Nat)) :=
  if equalSize then (sortedSeqlens seqlenList).toChunks k else (sortedSeqlens seqlenList).map fun item => [item]

theorem flatten_itemRows (seqlenList : List Nat) (pos : 0 < k) (equalSize : Bool) :
    (itemRows seqlenList k equalSize).flatten = sortedSeqlens seqlenList := by
  rw [itemRows]
  split
  · exact Rows.flatten_toChunks pos _
  · exact List.flatMap_singleton' _

theorem State.Even.length {s : State k} (even : s.Even) : ∀ x ∈ s.sets, x.items.length * k = s.items.length := by
  intro x mem
  have same : s.sets.map (fun y => y.items.length) = s.sets.map fun _ => x.items.length :=
    List.map_congr_left fun y hy => even y hy x mem
  rw [State.items, List.length_flatMap, same, List.map_const', List.sum_replicate, s.size, smul_eq_mul, Nat.mul_comm]

/-- **`karmarkar_karp` finds a state of all items**, filled, within the longest item, and even where it has to be. -/
theorem karmarkarKarp_spec {seqlenList : List Nat} {equalSize : Bool} (pos : 0 < k) (enough : k ≤ seqlenList.length)
    (whole : equalSize = true → k ∣ seqlenList.length) :
    ∃ s : State k, karmarkarKarp seqlenList k equalSize = .ok s.getPartitions ∧ s.items.Perm (sortedSeqlens seqlenList) ∧
      (∀ bound, (∀ length ∈ seqlenList, length ≤ bound) → s.Within bound) ∧ (equalSize = true → s.Even) ∧ s.filled = k := by
  have flatten := flatten_itemRows seqlenList pos equalSize
  have count : ∀ row ∈ itemRows seqlenList k equalSize, row.length = 1 ∨ row.length = k := by
    intro row mem
    rw [itemRows] at mem
    split at mem
    · rename_i equal
      right
      apply Rows.length_toChunks pos _ row mem
      rw [length_sortedSeqlens]
      exact whole equal
    · obtain ⟨item, -, rfl⟩ := List.mem_map.1 mem
      exact .inl rfl
  have first : ∀ row ∈ itemRows seqlenList k equalSize, ∀ s : State k,
      s.sets.Perm (row.map (fun item => SeqSet.empty.add item.1 item.2) ++ List.replicate (k - row.length) SeqSet.empty) →
      (∀ bound, (∀ length ∈ seqlenList, length ≤ bound) → s.Within bound) ∧ (equalSize = true → s.Even) := by
    intro row mem s sets
    refine ⟨fun bound short => within_first sets fun item there => ?_, fun equal => ?_⟩
    · have there := List.mem_flatten.2 ⟨row, mem, there⟩
      rw [flatten] at there
      exact short _ (List.mem_of_getElem? (mem_sortedSeqlens there))
    · rw [itemRows, if_pos equal] at mem
      have length := Rows.length_toChunks pos (by rw [length_sortedSeqlens]; exact whole equal) row mem
      rw [length, Nat.sub_self, List.replicate_zero, List.append_nil] at sets
      have one : ∀ x ∈ s.sets, x.items.length = 1 := by
        intro x mem
        obtain ⟨item, -, rfl⟩ := List.mem_map.1 (sets.subset mem)
        rfl
      intro x hx y hy
      rw [one x hx, one y hy]
  obtain ⟨states, run, many, items, each, fill⟩ := states_spec pos count first
  rw [flatten] at items fill
  rw [length_sortedSeqlens] at fill
  have some : states ≠ [] := by
    rintro rfl
    have none : 0 = seqlenList.length := fill
    omega
  obtain ⟨s, last, items, each, fill⟩ := mergeStates_last
    (fun a b ha hb => ⟨fun bound short => (ha.1 bound short).merge (hb.1 bound short),
      fun equal => (ha.2 equal).merge (hb.2 equal)⟩) le_rfl some items each (enough.trans fill.ge)
  refine ⟨s, ?_, items, each.1, each.2, le_antisymm s.filled_le fill⟩
  rw [karmarkarKarp]
  cases equalSize with
  | false =>
    rw [itemRows, if_neg Bool.false_ne_true, List.mapM_map] at run
    change (sortedSeqlens seqlenList).mapM (fun item => State.ofItems [item] k) = _ at run
    simp only [Bool.false_eq_true, if_false, run, Py.ok_bind, last]
    rfl
  | true =>
    rw [itemRows, if_pos rfl] at run
    have divides : (seqlenList.length % k == 0) = true := beq_iff_eq.2 (Nat.mod_eq_zero_of_dvd (whole rfl))
    have even : (s.getPartitions.all fun partition => partition.length * k == seqlenList.length) = true := by
      apply List.all_eq_true.2
      intro partition mem
      obtain ⟨x, there, rfl⟩ := List.mem_map.1 mem
      have length := (each.2 rfl).length x there
      rw [items.length_eq, length_sortedSeqlens] at length
      rw [List.length_map, beq_iff_eq]
      exact length
    have final : pyIndex [s] 0 = .ok s := rfl
    simp only [if_true, if_neg pos.ne', divides, pyAssert_true, Py.ok_bind, run, last, final, even]
    rfl

/-- The total length of the items of a partition. -/
def totalOf (seqlenList : List Nat) (partition : List Nat) : Nat := (partition.map fun i => seqlenList.getD i 0).sum

/-- What `get_seqlen_balanced_partitions` returns. -/
structure Balanced (seqlenList : List Nat) (k : Nat) (equalSize : Bool) (partitions : List (List Nat)) : Prop where
  count : partitions.length = k
  nonempty : ∀ p ∈ partitions, p ≠ []
  increasing : ∀ p ∈ partitions, p.Pairwise (· < ·)
  perm : partitions.flatten.Perm (List.range seqlenList.length)
  within : ∀ bound, (∀ length ∈ seqlenList, length ≤ bound) →
    ∀ p ∈ partitions, ∀ q ∈ partitions, totalOf seqlenList p ≤ totalOf seqlenList q + bound
  even : equalSize = true → ∀ p ∈ partitions, p.length * k = seqlenList.length

theorem perm_getPartitions {seqlenList : List Nat} {s : State k} (items : s.items.Perm (sortedSeqlens seqlenList)) :
    s.getPartitions.flatten.Perm (List.range seqlenList.length) := by
  have flat : s.getPartitions.flatten = s.items.map Prod.fst := by
    rw [State.getPartitions, State.items, List.map_flatMap, List.flatMap_def]
  rw [flat]
  refine (items.map Prod.fst).trans (((perm_sortedSeqlens seqlenList).map Prod.fst).trans ?_)
  rw [List.map_map, List.range_eq_range']
  exact .of_eq (List.zipIdx_map_snd 0 seqlenList)

theorem perm_sorted_flatten (partitions : List (List Nat)) :
    (partitions.map fun p => p.insertionSort (· ≤ ·)).flatten.Perm partitions.flatten := by
  induction partitions with
  | nil => exact .refl _
  | cons p partitions ih =>
    rw [List.map_cons, List.flatten_cons, List.flatten_cons]
    exact (List.perm_insertionSort _ p).append ih

theorem totalOf_perm (seqlenList : List Nat) {p q : List Nat} (perm : p.Perm q) : totalOf seqlenList p = totalOf seqlenList q :=
  (perm.map _).sum_eq

theorem sum_eq_totalOf {seqlenList : List Nat} {s : State k} (items : s.items.Perm (sortedSeqlens seqlenList)) {x : SeqSet}
    (mem : x ∈ s.sets) : x.sum = totalOf seqlenList (x.items.map Prod.fst) := by
  rw [x.summed, totalOf, List.map_map]
  congr 1
  apply List.map_congr_left
  intro item there
  have found := mem_sortedSeqlens (items.subset (List.mem_flatMap.2 ⟨x, mem, there⟩))
  rw [Function.comp_apply, List.getD_eq_getElem?_getD, found]
  rfl

/-- **`get_seqlen_balanced_partitions` succeeds** where there are enough items, and balances them. -/
theorem getSeqlenBalancedPartitions_spec {seqlenList : List Nat} {equalSize : Bool} (pos : 0 < k) (enough : k ≤ seqlenList.length)
    (whole : equalSize = true → k ∣ seqlenList.length) :
    ∃ partitions, getSeqlenBalancedPartitions seqlenList k equalSize = .ok partitions ∧ Balanced seqlenList k equalSize partitions := by
  obtain ⟨s, run, items, within, even, fill⟩ := karmarkarKarp_spec pos enough whole
  have perm := perm_getPartitions items
  have filled : ∀ x ∈ s.sets, x.items ≠ [] := by
    intro x mem none
    obtain ⟨i, found⟩ := List.mem_iff_getElem?.1 mem
    have late := (s.empty_iff found).1 (List.isEmpty_iff.2 none)
    obtain ⟨lt, -⟩ := List.getElem?_eq_some_iff.1 found
    rw [s.size] at lt
    omega
  have counted : (s.getPartitions.length == k) = true := by rw [State.getPartitions, List.length_map, s.size, beq_self_eq_true]
  have nonempty : (s.getPartitions.all fun partition => decide (0 < partition.length)) = true := by
    apply List.all_eq_true.2
    intro partition mem
    obtain ⟨x, there, rfl⟩ := List.mem_map.1 mem
    rw [decide_eq_true_iff, List.length_map]
    exact List.length_pos_of_ne_nil (filled x there)
  have seen : decide (s.getPartitions.flatten.toFinset = Finset.range seqlenList.length) = true := by
    rw [decide_eq_true_iff, List.toFinset_eq_of_perm _ _ perm, List.toFinset_range]
  refine ⟨s.getPartitions.map fun p => p.insertionSort (· ≤ ·), ?_, ?_⟩
  · rw [getSeqlenBalancedPartitions, decide_eq_true enough, pyAssert_true, Py.ok_bind, run, Py.ok_bind, checkAndSortPartitions,
      counted, pyAssert_true, Py.ok_bind, nonempty, pyAssert_true, Py.ok_bind, seen]
    rfl
  · have each {p : List Nat} (mem : p ∈ s.getPartitions.map fun p => p.insertionSort (· ≤ ·)) :
        ∃ x ∈ s.sets, p.Perm (x.items.map Prod.fst) ∧ p.Pairwise (· ≤ ·) := by
      obtain ⟨q, there, rfl⟩ := List.mem_map.1 mem
      obtain ⟨x, here, rfl⟩ := List.mem_map.1 there
      exact ⟨x, here, List.perm_insertionSort .., List.pairwise_insertionSort ..⟩
    constructor
    · rw [List.length_map, State.getPartitions, List.length_map, s.size]
    · rintro p mem rfl
      obtain ⟨x, there, same, -⟩ := each mem
      exact filled x there (List.map_eq_nil_iff.1 same.nil_eq.symm)
    · intro p mem
      obtain ⟨x, there, same, sorted⟩ := each mem
      have all := ((perm_sorted_flatten _).trans perm).nodup_iff.2 List.nodup_range
      have nodup : p.Nodup := (List.nodup_flatten.1 all).1 p mem
      exact (sorted.and nodup).imp fun pair => lt_of_le_of_ne pair.1 pair.2
    · exact (perm_sorted_flatten _).trans perm
    · intro bound short p hp q hq
      obtain ⟨x, hx, same, -⟩ := each hp
      obtain ⟨y, hy, same', -⟩ := each hq
      rw [totalOf_perm seqlenList same, totalOf_perm seqlenList same', ← sum_eq_totalOf items hx, ← sum_eq_totalOf items hy]
      exact within bound short x hx y hy
    · intro equal p mem
      obtain ⟨x, there, same, -⟩ := each mem
      rw [same.length_eq, List.length_map, (even equal).length x there, items.length_eq, length_sortedSeqlens]

end Partitions

end SlimeBoard.SeqlenBalancing
