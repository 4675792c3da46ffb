import SlimeBoard.Rollout.KvPool
import SlimeBoard.Rollout.RadixTree

/-!
# Where the KV slots are

In every state that the scheduler reaches a slot is in one place: free, in the radix cache, or owned by
one running request.
-/

namespace SlimeBoard.KvPool

open RadixCache RadixCache.Cache Segments

/-! ## The allocator -/

namespace Allocator

variable (a : Allocator)

/-- The free slots, those of an open free group included. -/
def owned : List Nat := a.freePages ++ a.releasePages ++ if a.isNotInFreeGroup then [] else a.freeGroup

/-- Without sorting nothing is set aside. -/
def Direct : Prop := a.needSort = false → a.releasePages = []

variable {a}

theorem mergeAndSortFree_owned : a.mergeAndSortFree.owned.Perm a.owned := by
  unfold mergeAndSortFree
  split
  · unfold owned
    dsimp only
    rw [List.append_nil]
    exact (List.mergeSort_perm _ _).append_right _
  · exact .refl _

theorem mergeAndSortFree_available : a.mergeAndSortFree.freePages.length = a.availableSize := by
  unfold mergeAndSortFree availableSize
  split
  · dsimp only
    rw [List.length_mergeSort, List.length_append]
  · omega

/-- What an operation of the allocator leaves as it is. -/
structure Same (a b : Allocator) : Prop where
  size : b.size = a.size
  needSort : b.needSort = a.needSort
  group : b.isNotInFreeGroup = a.isNotInFreeGroup

theorem mergeAndSortFree_same : Same a a.mergeAndSortFree := by
  unfold mergeAndSortFree
  split <;> exact ⟨rfl, rfl, rfl⟩

/-- The allocator that `alloc` takes the slots from. -/
theorem alloc_from (direct : a.Direct) (needSize : Nat) :
    ∃ b : Allocator, Same a b ∧ b.Direct ∧ b.owned.Perm a.owned ∧ (needSize ≤ b.freePages.length ↔ needSize ≤ a.availableSize) ∧
      a.alloc needSize = if needSize > b.freePages.length then none
        else some (b.freePages.take needSize, { b with freePages := b.freePages.drop needSize }) := by
  unfold alloc
  split
  · next sort =>
    refine ⟨a.mergeAndSortFree, mergeAndSortFree_same, ?_, mergeAndSortFree_owned, ?_, rfl⟩
    · intro no
      rw [mergeAndSortFree_same.needSort] at no
      rw [no] at sort
      exact absurd sort.1 Bool.false_ne_true
    · rw [mergeAndSortFree_available]
  · next keep =>
    refine ⟨a, ⟨rfl, rfl, rfl⟩, direct, .refl _, ?_, rfl⟩
    unfold availableSize
    cases sorts : a.needSort with
    | true =>
      have enough : needSize ≤ a.freePages.length := Nat.le_of_not_lt fun short => keep ⟨sorts, short⟩
      omega
    | false =>
      rw [direct sorts, List.length_nil, Nat.add_zero]

theorem alloc_isSome (direct : a.Direct) (needSize : Nat) : (a.alloc needSize).isSome ↔ needSize ≤ a.availableSize := by
  obtain ⟨b, _, _, _, enough, run⟩ := alloc_from direct needSize
  rw [run, ← enough]
  split
  · exact ⟨nofun, fun le => by omega⟩
  · exact ⟨fun _ => by omega, fun _ => rfl⟩

theorem alloc_spec (direct : a.Direct) {needSize : Nat} {out : List Nat × Allocator} (some : a.alloc needSize = some out) :
    out.1.length = needSize ∧ a.owned.Perm (out.1 ++ out.2.owned) ∧ Same a out.2 ∧ out.2.Direct := by
  obtain ⟨b, same, direct', perm, _, run⟩ := alloc_from direct needSize
  rw [run] at some
  split at some
  · exact nomatch some
  · next enough =>
    obtain rfl := Option.some.inj some
    refine ⟨?_, ?_, ⟨same.size, same.needSort, same.group⟩, direct'⟩
    · rw [List.length_take]
      omega
    · refine perm.symm.trans (List.Perm.of_eq ?_)
      unfold owned
      dsimp only
      rw [← List.append_assoc, ← List.append_assoc, List.take_append_drop]

theorem free_same (slots : List Nat) : Same a (a.free slots) := by
  unfold free
  split
  · exact ⟨rfl, rfl, rfl⟩
  · split
    · split <;> exact ⟨rfl, rfl, rfl⟩
    · exact ⟨rfl, rfl, rfl⟩

theorem free_direct (direct : a.Direct) (slots : List Nat) : (a.free slots).Direct := by
  unfold free
  split
  · exact direct
  · split
    · split
      · next sorts => exact fun no => absurd (sorts.symm.trans no) Bool.false_ne_true.symm
      · exact direct
    · exact direct

theorem free_owned (slots : List Nat) : (a.free slots).owned.Perm (a.owned ++ slots) := by
  unfold free
  split
  · next none =>
    rw [List.eq_nil_of_length_eq_zero none, List.append_nil]
  · split
    · next outside =>
      split
      · unfold owned
        simp only [outside, if_true, List.append_nil, List.append_assoc]
        exact .refl _
      · unfold owned
        simp only [outside, if_true, List.append_nil, List.append_assoc]
        exact List.perm_append_comm.append_left _
    · next inside =>
      unfold owned
      simp only [inside, Bool.false_eq_true, if_false, List.append_assoc]
      exact .refl _

theorem owned_length (outside : a.isNotInFreeGroup = true) : a.owned.length = a.availableSize := by
  unfold owned availableSize
  rw [outside, if_pos rfl, List.append_nil, List.length_append]

theorem freeGroupBegin_owned (outside : a.isNotInFreeGroup = true) : a.freeGroupBegin.owned = a.owned := by
  unfold freeGroupBegin owned
  simp only [outside, Bool.false_eq_true, if_false, if_true]

theorem freeGroupEnd_owned (inside : a.isNotInFreeGroup = false) : a.freeGroupEnd.owned.Perm a.owned := by
  have opened : (⟨a.size, a.needSort, a.freePages, a.releasePages, true, a.freeGroup⟩ : Allocator).owned ++ a.freeGroup = a.owned := by
    unfold owned
    simp only [inside, Bool.false_eq_true, if_false, if_true, List.append_nil]
  unfold freeGroupEnd
  dsimp only
  split
  · exact (free_owned _).trans (List.Perm.of_eq opened)
  · next none =>
    rw [not_not.1 none, List.append_nil] at opened
    exact List.Perm.of_eq opened

theorem freeGroupEnd_direct (direct : a.Direct) : a.freeGroupEnd.Direct ∧ a.freeGroupEnd.size = a.size := by
  unfold freeGroupEnd
  dsimp only
  split
  · exact ⟨free_direct (a := ⟨a.size, a.needSort, a.freePages, a.releasePages, true, a.freeGroup⟩) direct _, (free_same _).size⟩
  · exact ⟨direct, rfl⟩

end Allocator

/-! ## The pool -/

section Pool

variable {ε τ : Type} [DecidableEq ε] [DecidableEq τ]

/-- Every slot is free, in the cache or among the given ones, and the cache counts the given references. -/
structure Pool.Ok (size : Nat) (held : List (List (ε × τ))) (slots : List Nat) (pool : Pool ε τ) : Prop where
  sound : pool.tree.Sound
  locked : pool.tree.Locked held
  direct : pool.allocator.Direct
  sized : pool.allocator.size = size
  conserved : (pool.allocator.owned ++ pool.tree.values ++ slots).Perm (List.range' 1 size)

variable {size : Nat} {held : List (List (ε × τ))} {slots : List Nat} {pool pool' : Pool ε τ}

theorem Pool.Ok.perm {held' : List (List (ε × τ))} {slots' : List Nat} (ok : pool.Ok size held slots) (sameHeld : held.Perm held')
    (sameSlots : slots.Perm slots') : pool.Ok size held' slots' :=
  ⟨ok.sound, ok.locked.perm sameHeld, ok.direct, ok.sized, (sameSlots.symm.append_left _).trans ok.conserved⟩

/-- **No slot is lost** from the sizes that the memory check adds up. -/
theorem Pool.Ok.total (ok : pool.Ok size held slots) (outside : pool.allocator.isNotInFreeGroup = true) :
    pool.allocator.availableSize + pool.tree.evictableSize + pool.tree.protectedSize + slots.length = size := by
  have count := ok.conserved.length_eq
  rw [List.length_append, List.length_append, List.length_range', Allocator.owned_length outside] at count
  have sizes := ok.sound.sizes
  omega

theorem Pool.Ok.seat (ok : pool.Ok size held slots) (rows : ReqToTokenPool) :
    Pool.Ok size held slots { pool with reqToTokenPool := rows } :=
  ⟨ok.sound, ok.locked, ok.direct, ok.sized, ok.conserved⟩

/-- What an eviction leaves to the requests. -/
structure Shrunk (pool pool' : Pool ε τ) : Prop where
  rows : pool'.reqToTokenPool = pool.reqToTokenPool
  sub : ∀ e ∈ pool'.tree.entries, e ∈ pool.tree.entries
  protect : pool'.tree.protectedSize = pool.tree.protectedSize
  group : pool'.allocator.isNotInFreeGroup = pool.allocator.isNotInFreeGroup

theorem evictFromTreeCache_spec (ok : pool.Ok size held slots) (pick : Nat → Nat) (numTokens : Nat) :
    ∃ pool', pool.evictFromTreeCache pick numTokens = .ok pool' ∧ pool'.Ok size held slots ∧ Shrunk pool pool' ∧
      (pool.allocator.isNotInFreeGroup = true → numTokens ≤ pool'.allocator.availableSize ∨ pool'.tree.evictableSize = 0) := by
  unfold Pool.evictFromTreeCache
  split
  · next short =>
    obtain ⟨freed, tree, run, done, stop⟩ := evict_spec pick numTokens ok.sound ok.locked
    have owned := Allocator.free_owned (a := pool.allocator) freed
    have same := Allocator.free_same (a := pool.allocator) freed
    rw [run, Py.ok_bind]
    refine ⟨_, rfl, ⟨done.sound, done.locked, Allocator.free_direct ok.direct freed, same.size.trans ok.sized, ?_⟩, ?_, fun outside => ?_⟩
    · refine List.Perm.trans ?_ ok.conserved
      refine List.Perm.append_right _ (((owned.append_right _).trans ?_).trans (done.values.symm.append_left _))
      rw [List.append_assoc]
    · exact ⟨rfl, done.entries_sub, done.protectedSize ok.sound.toSized, same.group⟩
    · refine stop.imp_left fun enough => ?_
      have free := owned.length_eq
      rw [Allocator.owned_length (same.group.trans outside), List.length_append] at free
      dsimp only
      omega
  · next enough => exact ⟨pool, rfl, ok, ⟨rfl, fun _ => id, rfl, rfl⟩, fun _ => .inl (Nat.le_of_not_lt enough)⟩

/-- **New slots** come from the free ones. -/
theorem allocTokenSlots_spec (ok : pool.Ok size held slots) (pick : Nat → Nat) (numTokens : Nat) {result : List Nat × Pool ε τ}
    (run : pool.allocTokenSlots pick numTokens = .ok result) :
    result.1.length = numTokens ∧ result.2.Ok size held (result.1 ++ slots) ∧ Shrunk pool result.2 := by
  obtain ⟨pool', evicted, ok', shrunk, _⟩ := evictFromTreeCache_spec ok pick numTokens
  unfold Pool.allocTokenSlots at run
  rw [evicted, Py.ok_bind] at run
  split at run
  · exact nomatch run
  · next out some =>
    obtain rfl := Except.ok.inj run
    obtain ⟨length, perm, same, direct⟩ := Allocator.alloc_spec ok'.direct some
    refine ⟨length, ⟨ok'.sound, ok'.locked, direct, same.size.trans ok'.sized, ?_⟩, shrunk.rows, shrunk.sub, shrunk.protect,
      same.group.trans shrunk.group⟩
    refine List.Perm.trans ?_ ok'.conserved
    dsimp only
    refine List.perm_iff_count.2 fun slot => ?_
    have count := List.perm_iff_count.1 perm slot
    simp only [List.count_append] at count ⊢
    omega

/-- **Slots for `n` tokens** are found exactly if so many are free or can be evicted. -/
theorem allocTokenSlots_isOk (ok : pool.Ok size held slots) (outside : pool.allocator.isNotInFreeGroup = true) (pick : Nat → Nat)
    (numTokens : Nat) :
    (∃ result, pool.allocTokenSlots pick numTokens = .ok result) ↔
      (numTokens : Int) ≤ pool.allocator.availableSize + pool.tree.evictableSize := by
  obtain ⟨pool', evicted, ok', shrunk, stop⟩ := evictFromTreeCache_spec ok pick numTokens
  have enough := Allocator.alloc_isSome ok'.direct numTokens
  have before := ok.total outside
  have after := ok'.total (shrunk.group.trans outside)
  have protect := shrunk.protect
  have evictable : 0 ≤ pool'.tree.evictableSize := by
    rw [ok'.sound.evictable]
    exact Int.natCast_nonneg _
  have within : (numTokens : Int) ≤ pool.allocator.availableSize + pool.tree.evictableSize ↔ numTokens ≤ pool'.allocator.availableSize := by
    have stop := stop outside
    omega
  unfold Pool.allocTokenSlots
  rw [evicted, Py.ok_bind, within, ← enough]
  cases some : pool'.allocator.alloc numTokens with
  | none => exact iff_of_false (fun ⟨_, run⟩ => nomatch run) Bool.false_ne_true
  | some out => exact iff_of_true ⟨_, rfl⟩ rfl

/-! ## Requests -/

variable {req : Req ε τ} {tokenIds : List τ} {kvIndices : List Nat}

omit [DecidableEq ε] [DecidableEq τ] in
theorem Req.radixKey_length : (req.radixKey tokenIds).length = tokenIds.length := List.length_map _

/-- What the cache leaves as it is when it takes slots over. -/
structure Pool.Same (pool pool' : Pool ε τ) : Prop where
  group : pool'.allocator.isNotInFreeGroup = pool.allocator.isNotInFreeGroup
  rows : pool'.reqToTokenPool = pool.reqToTokenPool

/-- The cache takes over the slots of a sequence, less those up to its longest prefix that is there. -/
theorem insertReq_spec (along : pool.tree.Along req.lastNode req.prefixIndices)
    (pre : kvIndices = [] ∨ req.lastNode <+: req.radixKey tokenIds) (protect : req.lastNode.length = req.cacheProtectedLen)
    (length : kvIndices.length = tokenIds.length)
    (ok : pool.Ok size held (kvIndices.drop req.cacheProtectedLen ++ slots)) :
    ∃ pool' matched, pool.insertReq req tokenIds kvIndices = .ok pool' ∧ pool'.Ok size held slots ∧ pool.Same pool' ∧
      Inserted held pool.tree pool'.tree (req.radixKey tokenIds) matched (kvIndices.drop matched) ∧
      Grown pool.tree pool'.tree (req.radixKey tokenIds) kvIndices := by
  have filled : kvIndices.length = (req.radixKey tokenIds).length := length.trans Req.radixKey_length.symm
  obtain ⟨matched, tree, run, bound, done⟩ := insert_spec ok.sound ok.locked filled
  have rest : (kvIndices.drop matched).length = (req.radixKey tokenIds).length - matched := by
    rw [List.length_drop, filled]
  have values := done.values_eq ok.sound.toSized rest
  have same := Allocator.free_same (a := pool.allocator) ((kvIndices.take matched).drop req.cacheProtectedLen)
  have owned := Allocator.free_owned (a := pool.allocator) ((kvIndices.take matched).drop req.cacheProtectedLen)
  have whole : (kvIndices.take matched).drop req.cacheProtectedLen ++ kvIndices.drop matched = kvIndices.drop req.cacheProtectedLen := by
    obtain rfl | pre := pre
    · simp only [List.take_nil, List.drop_nil, List.append_nil]
    · have ge := done.ge ok.sound.toSized rest along pre
      rw [protect] at ge
      conv_rhs => rw [← List.take_append_drop matched kvIndices]
      refine (List.drop_append_of_le_length ?_).symm
      rw [List.length_take]
      omega
  refine ⟨{ pool with allocator := pool.allocator.free ((kvIndices.take matched).drop req.cacheProtectedLen), tree }, matched, ?_,
    ⟨done.sound, done.locked, Allocator.free_direct ok.direct _, same.size.trans ok.sized, ?_⟩, ⟨same.group, rfl⟩, done,
    done.grown filled⟩
  · unfold Pool.insertReq
    rw [run]
    rfl
  · refine List.Perm.trans (List.perm_iff_count.2 fun slot => ?_) ok.conserved
    have count := List.perm_iff_count.1 owned slot
    have parts := congrArg (List.count slot) whole
    dsimp only
    rw [values]
    simp only [List.count_append] at count parts ⊢
    omega

/-- A match moves nothing. -/
theorem Pool.Ok.matched (ok : pool.Ok size held slots) {key node : List (ε × τ)} {tree : Cache (ε × τ) Nat}
    (reached : Cache.Reached held pool.tree tree key node) : Pool.Ok size held slots { pool with tree } := by
  refine ⟨reached.sound, reached.locked, ok.direct, ok.sized, ?_⟩
  rw [values_eq ok.sound.toSized reached.sound.toSized reached.entries]
  exact ok.conserved

theorem Pool.Ok.relocked (ok : pool.Ok size held slots) {held' : List (List (ε × τ))} {tree : Cache (ε × τ) Nat}
    {p : List (ε × τ) → Bool} {change : Nat → Nat} (relocked : Relocked pool.tree tree p change) (locked : tree.Locked held') :
    Pool.Ok size held' slots { pool with tree } := by
  refine ⟨relocked.sound, locked, ok.direct, ok.sized, ?_⟩
  rw [values_eq ok.sound.toSized relocked.sound.toSized relocked.entries]
  exact ok.conserved

end Pool

/-! ## What a request keeps -/

section Req

variable {ε τ : Type}

/-- The slots that are the request's own: `req_to_token[cache_protected_len : kv_allocated_len]`. -/
def Req.owned (req : Req ε τ) : List Nat := (req.reqToToken.take req.kvAllocatedLen).drop req.cacheProtectedLen

/-- The tokens whose keys and values are computed, and their slots. -/
def Req.committedKey (req : Req ε τ) : List (ε × τ) := req.radixKey (req.knownIds.take req.kvCommittedLen)

def Req.committedSlots (req : Req ε τ) : List Nat := req.reqToToken.take req.kvCommittedLen

/-- A request that waits holds nothing. -/
structure Req.Waiting (req : Req ε τ) : Prop where
  committed : req.kvCommittedLen = 0
  allocated : req.kvAllocatedLen = 0
  committedFreed : req.kvCommittedFreed = false
  overallocatedFreed : req.kvOverallocatedFreed = false
  future : req.future = none

/-- A request that runs holds the longest prefix of it that was cached, and slots of its own. -/
structure Req.Running (tree : Cache (ε × τ) Nat) (req : Req ε τ) : Prop where
  node : req.lastNode = req.radixKey (req.allIds.take req.cacheProtectedLen)
  protect : req.cacheProtectedLen ≤ req.fillIds.length
  fill : req.fillIds <+: req.allIds
  along : tree.Along req.lastNode req.prefixIndices
  allocated : req.kvAllocatedLen = req.kvCommittedLen
  committedFreed : req.kvCommittedFreed = false
  overallocatedFreed : req.kvOverallocatedFreed = false
  row : req.kvCommittedLen = 0 ∨ req.cacheProtectedLen ≤ req.kvCommittedLen ∧ req.kvCommittedLen ≤ req.reqToToken.length ∧
    req.reqToToken.take req.cacheProtectedLen = req.prefixIndices
  known : req.kvCommittedLen ≤ req.knownIds.length
  future : ∀ token, req.future = some token → req.kvCommittedLen = req.allIds.length + 1

variable {tree tree' : Cache (ε × τ) Nat} {req : Req ε τ}

namespace Req.Running

theorem mono (running : req.Running tree) (along : tree.Along req.lastNode req.prefixIndices → tree'.Along req.lastNode req.prefixIndices) :
    req.Running tree' := { running with along := along running.along }

theorem protect_all (running : req.Running tree) : req.cacheProtectedLen ≤ req.allIds.length :=
  running.protect.trans running.fill.length_le

theorem node_length (running : req.Running tree) : req.lastNode.length = req.cacheProtectedLen := by
  rw [running.node, Req.radixKey_length, List.length_take]
  exact Nat.min_eq_left running.protect_all

theorem prefix_length (running : req.Running tree) : req.prefixIndices.length = req.cacheProtectedLen :=
  running.along.1.trans running.node_length

/-- A request without an unknown token has committed only tokens that are there. -/
theorem committed_le (running : req.Running tree) (processed : req.future = none) : req.kvCommittedLen ≤ req.allIds.length := by
  have known := running.known
  rwa [Req.knownIds, processed, Option.toList_none, List.append_nil] at known

theorem node_below (running : req.Running tree) {n : Nat} (le : req.cacheProtectedLen ≤ n) :
    req.lastNode <+: req.radixKey (req.allIds.take n) := by
  rw [running.node]
  exact ((List.take_prefix_take_left (l := req.allIds) le)).map _

theorem owned_length (running : req.Running tree) : req.owned.length = req.kvAllocatedLen - req.cacheProtectedLen := by
  unfold Req.owned
  rw [List.length_drop, List.length_take]
  have row := running.row
  have allocated := running.allocated
  omega

end Req.Running

theorem pyAssert_eq_ok {p : Bool} (run : pyAssert p = .ok ()) : p = true := by
  cases p with
  | true => rfl
  | false => cases run

/-! ## Releasing a request -/

variable [DecidableEq ε] [DecidableEq τ] {size : Nat} {held : List (List (ε × τ))} {slots : List Nat} {pool : Pool ε τ}

omit [DecidableEq ε] [DecidableEq τ] in
/-- The slots of the committed tokens up to the `n`-th, and the others. -/
theorem Req.Running.owned_split (running : req.Running tree) {n : Nat} (le : n ≤ req.kvCommittedLen)
    (ge : req.kvCommittedLen = 0 ∨ req.cacheProtectedLen ≤ n) :
    (req.reqToToken.take n).drop req.cacheProtectedLen ++ (req.reqToToken.take req.kvCommittedLen).drop n = req.owned := by
  unfold Req.owned
  rw [running.allocated]
  obtain zero | ge := ge
  · obtain rfl : n = 0 := by omega
    rw [zero, List.take_zero, List.drop_nil, List.drop_nil, List.append_nil]
  · obtain zero | ⟨_, within, _⟩ := running.row
    · obtain rfl : n = 0 := by omega
      rw [zero, List.take_zero, List.drop_nil, List.drop_nil, List.append_nil]
    · have cut : req.reqToToken.take n = (req.reqToToken.take req.kvCommittedLen).take n := by
        rw [List.take_take, Nat.min_eq_left le]
      conv_rhs => rw [← List.take_append_drop n (req.reqToToken.take req.kvCommittedLen)]
      rw [cut]
      refine (List.drop_append_of_le_length ?_).symm
      rw [List.length_take, List.length_take]
      omega

/-- What the release of a request does to the pool. -/
structure Released (size : Nat) (held : List (List (ε × τ))) (slots : List Nat) (pool pool' : Pool ε τ) (key : List (ε × τ))
    (kv : List Nat) :
    Prop where
  ok : pool'.Ok size held slots
  group : pool'.allocator.isNotInFreeGroup = pool.allocator.isNotInFreeGroup
  grown : Grown pool.tree pool'.tree key kv

theorem keepOrFree_spec (running : req.Running pool.tree) (processed : req.future = none) (isInsert : Bool)
    (ok : pool.Ok size held (req.owned ++ slots)) :
    ∃ pool', pool.keepOrFree req (req.allIds.take req.kvCommittedLen) (req.reqToToken.take req.kvCommittedLen) isInsert = .ok pool' ∧
      Released size held slots pool pool' req.committedKey req.committedSlots ∧ pool'.reqToTokenPool = pool.reqToTokenPool := by
  have known : req.committedKey = req.radixKey (req.allIds.take req.kvCommittedLen) := by
    rw [Req.committedKey, Req.knownIds, processed, Option.toList_none, List.append_nil]
  have owned : req.owned = (req.reqToToken.take req.kvCommittedLen).drop req.cacheProtectedLen := by
    unfold Req.owned
    rw [running.allocated]
  rw [owned] at ok
  unfold Pool.keepOrFree
  split
  · have length : (req.reqToToken.take req.kvCommittedLen).length = (req.allIds.take req.kvCommittedLen).length := by
      have le := running.committed_le processed
      have row := running.row
      rw [List.length_take, List.length_take]
      omega
    have pre : req.reqToToken.take req.kvCommittedLen = [] ∨ req.lastNode <+: req.radixKey (req.allIds.take req.kvCommittedLen) := by
      refine running.row.imp (fun zero => ?_) fun ⟨le, _⟩ => running.node_below le
      rw [zero, List.take_zero]
    obtain ⟨pool', matched, run, ok', same, _, grown⟩ := insertReq_spec running.along pre running.node_length length ok
    exact ⟨pool', run, ⟨ok', same.group, known ▸ grown⟩, same.rows⟩
  · refine ⟨_, rfl, ⟨⟨ok.sound, ok.locked, Allocator.free_direct ok.direct _, (Allocator.free_same _).size.trans ok.sized, ?_⟩,
      (Allocator.free_same _).group, fun e => id, fun e => .inl⟩, rfl⟩
    refine List.Perm.trans (List.perm_iff_count.2 fun slot => ?_) ok.conserved
    have count := List.perm_iff_count.1 (Allocator.free_owned (a := pool.allocator)
      ((req.reqToToken.take req.kvCommittedLen).drop req.cacheProtectedLen)) slot
    show List.count slot ((pool.allocator.free _).owned ++ pool.tree.values ++ slots) = _
    simp only [List.count_append] at count ⊢
    omega

/-- **A request with a row is released** without an assertion failing. -/
theorem releaseKvCache_spec (running : req.Running pool.tree) (processed : req.future = none) (isInsert : Bool)
    (ok : pool.Ok size (req.lastNode :: held) (req.owned ++ slots)) {index : Nat} (row : req.reqPoolIdx = some index) :
    ∃ pool', pool.releaseKvCache req isInsert =
        .ok (pool', { req with reqPoolIdx := none, kvCommittedFreed := true, kvOverallocatedFreed := true }) ∧
      Released size held slots pool pool' req.committedKey req.committedSlots ∧
      pool'.reqToTokenPool = ⟨pool.reqToTokenPool.size, pool.reqToTokenPool.freeSlots ++ [index]⟩ := by
  obtain ⟨pool₁, run, done, same⟩ := keepOrFree_spec running processed isInsert ok
  obtain ⟨delta, tree', unlock, relocked, locked⟩ := decLockRef_spec done.ok.sound done.ok.locked
  have length : (req.allIds.take req.kvCommittedLen).length = req.kvCommittedLen := by
    rw [List.length_take]
    exact Nat.min_eq_left (running.committed_le processed)
  refine ⟨{ pool₁ with
    tree := tree'
    reqToTokenPool := ⟨pool.reqToTokenPool.size, pool.reqToTokenPool.freeSlots ++ [index]⟩ }, ?_,
    ⟨(done.ok.relocked relocked locked).seat _, done.group, done.grown.then_same relocked.entries⟩, rfl⟩
  unfold Pool.releaseKvCache Pool.cacheFinishedReq ReqToTokenPool.free
  simp only [running.committedFreed, running.overallocatedFreed, running.allocated, length, run, unlock, pyAssert, Py.ok_bind, Bool.not_false,
    if_true, beq_self_eq_true, row, Option.isSome_some, same]

theorem releaseKvCache_row {isInsert : Bool} {result : Pool ε τ × Req ε τ} (run : pool.releaseKvCache req isInsert = .ok result) :
    req.reqPoolIdx.isSome := by
  obtain ⟨_, check, -⟩ := Py.bind_eq_ok.1 run
  exact pyAssert_eq_ok check

/-! ## Stashing a request -/

/-- Overwriting a part of a row that ends before its end. -/
theorem write_eq {row values : List Nat} {start : Nat} (le : start ≤ values.length) (same : row.take start = values.take start) :
    write row start (values.drop start) = values ++ row.drop values.length := by
  unfold write
  rw [same, List.take_append_drop, List.length_drop, Nat.add_sub_cancel' le]

omit [DecidableEq ε] [DecidableEq τ] in
/-- The tokens that go into the cache when a request is stashed. -/
theorem Req.Running.stashed_ids (running : req.Running tree) {n : Nat} (nIs : n = min req.kvCommittedLen req.fillIds.length) :
    (if req.kvCommittedLen < req.fillIds.length then req.fillIds.take req.kvCommittedLen else req.fillIds) = req.allIds.take n := by
  rw [List.prefix_iff_eq_take.1 running.fill, List.length_take, Nat.min_eq_left running.fill.length_le]
  split
  · rw [List.take_take, nIs]
  · rw [nIs, Nat.min_eq_right (by omega)]

omit [DecidableEq ε] [DecidableEq τ] in
/-- The row of a request with slots of the cache that begin with the request's. -/
theorem Req.Running.stashed_row (running : req.Running tree) {indices : List Nat} (some : req.kvCommittedLen ≠ 0)
    (le : req.cacheProtectedLen ≤ indices.length) (shared : indices.take req.cacheProtectedLen = req.prefixIndices) :
    write req.reqToToken req.cacheProtectedLen (indices.drop req.cacheProtectedLen) = indices ++ req.reqToToken.drop indices.length := by
  obtain zero | ⟨_, _, same⟩ := running.row
  · exact absurd zero some
  · exact write_eq le (same.trans shared.symm)

omit [DecidableEq ε] [DecidableEq τ] in
/-- A part of the committed tokens adds nothing that the whole would not add. -/
theorem Req.grown_committed {n : Nat} (le : n ≤ req.kvCommittedLen) (within : n ≤ req.allIds.length)
    (grown : Grown tree tree' (req.radixKey (req.allIds.take n)) (req.reqToToken.take n)) :
    Grown tree tree' req.committedKey req.committedSlots := by
  refine ⟨grown.old, fun e mem => (grown.new e mem).imp_right ?_⟩
  rintro ⟨i, path, here⟩
  rw [List.getElem?_take] at here
  split at here
  · next lt =>
    refine ⟨i, path.trans ?_, ?_⟩
    · unfold Req.committedKey Req.radixKey Req.knownIds
      rw [← List.map_take, ← List.map_take, List.take_take, List.take_take, Nat.min_eq_left (by omega), Nat.min_eq_left (by omega),
        List.take_append_of_le_length (by omega)]
    · rw [Req.committedSlots, List.getElem?_take, if_pos (by omega)]
      exact here
  · exact absurd here.symm (Option.some_ne_none _)

/-- How a request comes back from the cache. -/
structure Stashed (req req' : Req ε τ) : Prop where
  rest : req' = { req with
    reqToToken := req'.reqToToken
    cacheProtectedLen := req'.cacheProtectedLen
    prefixIndices := req'.prefixIndices
    lastNode := req'.lastNode }
  row : req'.reqToToken.take req.kvCommittedLen = req'.prefixIndices ++ (req.reqToToken.take req.kvCommittedLen).drop req'.cacheProtectedLen

/-- **A request with a row is stashed** without an assertion failing, and goes on with the slots of the cache. -/
theorem cacheUnfinishedReq_spec (running : req.Running pool.tree) (ok : pool.Ok size (req.lastNode :: held) (req.owned ++ slots))
    (row : req.reqPoolIdx.isSome) :
    ∃ pool' req', pool.cacheUnfinishedReq req = .ok (pool', req') ∧ pool'.Ok size (req'.lastNode :: held) (req'.owned ++ slots) ∧
      pool.Same pool' ∧ req'.Running pool'.tree ∧ Stashed req req' ∧
      Grown pool.tree pool'.tree req.committedKey req.committedSlots := by
  obtain ⟨index, seat⟩ := Option.isSome_iff_exists.1 row
  have rowIndex : req.rowIndex = .ok index := by
    unfold Req.rowIndex
    rw [seat]
  obtain ⟨n, nIs⟩ : ∃ n, n = min req.kvCommittedLen req.fillIds.length := ⟨_, rfl⟩
  have within := running.fill.length_le
  have tokens := running.stashed_ids nIs
  have count : (req.allIds.take n).length = n := by
    rw [List.length_take]
    omega
  have enough : n ≤ req.reqToToken.length := by
    have row := running.row
    omega
  have ge : req.kvCommittedLen = 0 ∨ req.cacheProtectedLen ≤ n := by
    have row := running.row
    have protect := running.protect
    omega
  have length : (req.reqToToken.take n).length = (req.allIds.take n).length := by
    rw [count, List.length_take]
    omega
  have pre : req.reqToToken.take n = [] ∨ req.lastNode <+: req.radixKey (req.allIds.take n) := by
    refine ge.imp (fun zero => ?_) fun le => running.node_below le
    obtain rfl : n = 0 := by omega
    rfl
  rw [← running.owned_split (n := n) (by omega) ge, List.append_assoc] at ok
  obtain ⟨pool₁, matched, insert, ok₁, same, inserted, grown⟩ := insertReq_spec running.along pre running.node_length length ok
  obtain ⟨newIndices, node, tree₂, found, reached, along⟩ := matchPrefix_spec (req.radixKey (req.allIds.take n)) ok₁.sound ok₁.locked
  obtain rfl := reached.all ok₁.sound inserted.isNode
  obtain ⟨_, tree₃, unlock, relocked₃, locked₃⟩ := decLockRef_spec reached.sound reached.locked
  obtain ⟨_, tree₄, lock, relocked₄, locked₄⟩ := incLockRef_spec relocked₃.sound locked₃ (relocked₃.isNode.2 reached.isNode)
  have entries : tree₄.entries = pool₁.tree.entries := relocked₄.entries.trans (relocked₃.entries.trans reached.entries)
  have size' : newIndices.length = n := by
    rw [along.1, Req.radixKey_length, count]
  have along₄ : tree₄.Along (req.radixKey (req.allIds.take n)) newIndices := along.mono fun e mem => by
    rwa [relocked₄.entries, relocked₃.entries]
  have row : req.kvCommittedLen ≠ 0 → write req.reqToToken req.cacheProtectedLen (newIndices.drop req.cacheProtectedLen) =
      newIndices ++ req.reqToToken.drop n := by
    intro some
    have le := ge.resolve_left some
    have shared := (running.along.mono grown.old).take_eq (along₄.mono fun e mem => entries ▸ mem) ok₁.sound.toSized
      (running.node_below le)
    rw [running.node_length] at shared
    rw [running.stashed_row some (by omega) shared, size']
  have cut : (write req.reqToToken req.cacheProtectedLen (newIndices.drop req.cacheProtectedLen)).take req.kvCommittedLen =
      newIndices ++ (req.reqToToken.take req.kvCommittedLen).drop n := by
    by_cases zero : req.kvCommittedLen = 0
    · obtain rfl : newIndices = [] := List.eq_nil_of_length_eq_zero (by omega)
      rw [zero, List.take_zero, List.take_zero, List.drop_nil, List.append_nil]
    · rw [row zero, List.take_append, size', List.take_of_length_le (by omega), List.drop_take]
  refine ⟨{ pool₁ with tree := tree₄ }, { req with
    reqToToken := write req.reqToToken req.cacheProtectedLen (newIndices.drop req.cacheProtectedLen)
    cacheProtectedLen := n
    prefixIndices := newIndices
    lastNode := req.radixKey (req.allIds.take n) }, ?_, ?_, ⟨same.group, same.rows⟩, ?_, ⟨rfl, ?_⟩, ?_⟩
  · unfold Pool.cacheUnfinishedReq
    simp only [tokens, count, insert, found, rowIndex, unlock, lock, Py.ok_bind, pyAssert, size', beq_self_eq_true, if_true, List.length_take,
      Nat.min_eq_left enough, lt_irrefl, if_false]
  · refine (((ok₁.matched reached).relocked relocked₃ locked₃).relocked relocked₄ locked₄).perm (.refl _) (List.Perm.append_right _ ?_)
    unfold Req.owned
    dsimp only
    rw [running.allocated, cut, ← size', List.drop_left]
  · refine ⟨rfl, show n ≤ req.fillIds.length by omega, running.fill, along₄, running.allocated, running.committedFreed,
      running.overallocatedFreed, ?_, running.known, running.future⟩
    by_cases zero : req.kvCommittedLen = 0
    · exact .inl zero
    · obtain empty | ⟨_, bound, _⟩ := running.row
      · exact absurd empty zero
      · refine .inr ⟨by dsimp only; omega, ?_, ?_⟩
        · rw [row zero, List.length_append, List.length_drop]
          dsimp only
          omega
        · dsimp only
          rw [row zero, ← size', List.take_left]
  · exact cut
  · exact (Req.grown_committed (by omega) (by omega) grown).then_same entries

theorem cacheUnfinishedReq_row {result : Pool ε τ × Req ε τ} (run : pool.cacheUnfinishedReq req = .ok result) :
    req.reqPoolIdx.isSome := by
  obtain ⟨_, -, run⟩ := Py.bind_eq_ok.1 run
  obtain ⟨_, -, run⟩ := Py.bind_eq_ok.1 run
  obtain ⟨_, -, run⟩ := Py.bind_eq_ok.1 run
  obtain ⟨_, row, -⟩ := Py.bind_eq_ok.1 run
  unfold Req.rowIndex at row
  split at row
  · cases row
  · next seat =>
    rw [seat]
    rfl

/-! ## Admitting a request -/

omit [DecidableEq ε] [DecidableEq τ] in
theorem Req.owned_nil (allocated : req.kvAllocatedLen = 0) : req.owned = [] := by
  unfold Req.owned
  rw [allocated, List.take_zero, List.drop_nil]

/-- The rest of a request after its prefix is looked up or cut to a chunk. -/
structure Rescheduled (req req' : Req ε τ) : Prop where
  rest : req' = { req with
    fillIds := req'.fillIds
    prefixIndices := req'.prefixIndices
    lastNode := req'.lastNode
    cacheProtectedLen := req'.cacheProtectedLen
    extendInputLen := req'.extendInputLen }

/-- The input of a request is what its prefix leaves of the tokens it is to fill. -/
def Req.Measured (req : Req ε τ) : Prop := req.fillIds.length - req.prefixIndices.length = req.extendInputLen

/-- A waiting request finds its longest cached prefix. -/
theorem initNextRoundInput_spec (waiting : req.Waiting) (ok : pool.Ok size held slots) :
    ∃ tree' req', pool.initNextRoundInput req = .ok ({ pool with tree := tree' }, req') ∧ Pool.Ok size held slots { pool with tree := tree' } ∧
      tree'.entries = pool.tree.entries ∧ tree'.IsNode req'.lastNode ∧ req'.Running tree' ∧ Rescheduled req req' ∧ req'.Measured := by
  unfold Pool.initNextRoundInput
  dsimp only
  generalize (max (if req.returnLogprob ∧ req.logprobStartLen ≥ 0 then min ((req.allIds.length : Int) - 1) req.logprobStartLen
    else (req.allIds.length : Int) - 1) 0).toNat = n
  obtain ⟨indices, node, tree', found, reached, along⟩ := matchPrefix_spec (req.radixKey (req.allIds.take n)) ok.sound ok.locked
  have bound := reached.pre.length_le
  rw [Req.radixKey_length, List.length_take] at bound
  have nodeIs : node = req.radixKey (req.allIds.take indices.length) := by
    have upTo := List.prefix_iff_eq_take.1 reached.pre
    unfold Req.radixKey at upTo ⊢
    rw [along.1]
    conv_lhs => rw [upTo, ← List.map_take, List.take_take, Nat.min_eq_left (by omega)]
  refine ⟨tree', { req with
    fillIds := req.allIds
    prefixIndices := indices
    lastNode := node
    cacheProtectedLen := indices.length
    extendInputLen := req.allIds.length - indices.length }, ?_, ok.matched reached, reached.entries, reached.isNode, ?_, ⟨rfl⟩, rfl⟩
  · rw [found, Py.ok_bind]
  · refine ⟨nodeIs, ?_, List.prefix_refl _, along, waiting.allocated.trans waiting.committed.symm, waiting.committedFreed,
      waiting.overallocatedFreed, .inl waiting.committed, waiting.committed ▸ Nat.zero_le _, ?_⟩
    · show indices.length ≤ req.allIds.length
      rw [along.1]
      omega
    · intro token some
      exact nomatch waiting.future.symm.trans some

/-- A request that is admitted locks its prefix. -/
theorem reqIncLockRef_spec (running : req.Running pool.tree) (isNode : pool.tree.IsNode req.lastNode) (ok : pool.Ok size held slots) :
    ∃ tree', pool.reqIncLockRef req = .ok (some ({ pool with tree := tree' }, req)) ∧
      Pool.Ok size (req.lastNode :: held) slots { pool with tree := tree' } ∧ tree'.entries = pool.tree.entries ∧ req.Running tree' := by
  obtain ⟨delta, tree', lock, relocked, locked⟩ := incLockRef_spec ok.sound ok.locked isNode
  refine ⟨tree', ?_, ok.relocked relocked locked, relocked.entries, running.mono fun along => along.mono fun e mem => ?_⟩
  · unfold Pool.reqIncLockRef
    rw [lock, Py.ok_bind]
  · rwa [relocked.entries]

omit [DecidableEq ε] [DecidableEq τ] in
/-- Cutting the input of a request to a chunk. -/
theorem Req.Running.cut (running : req.Running tree) (n : Nat) {fillIds : List τ} (fill : fillIds <+: req.allIds)
    (long : req.cacheProtectedLen ≤ fillIds.length) :
    Req.Running tree { req with extendInputLen := n, fillIds := fillIds.take (req.prefixIndices.length + n) } := by
  refine { running with protect := ?_, fill := (List.take_prefix ..).trans fill }
  show req.cacheProtectedLen ≤ (fillIds.take (req.prefixIndices.length + n)).length
  rw [List.length_take, running.prefix_length]
  omega

theorem addOneReq_spec (running : req.Running pool.tree) (isNode : pool.tree.IsNode req.lastNode) (measured : req.Measured)
    (ok : pool.Ok size held slots) (remChunkTokens : Option Nat) :
    ∃ added, pool.addOneReq req remChunkTokens = .ok added ∧ ∀ result, added = some result →
      ∃ tree', result.1 = { pool with tree := tree' } ∧ Pool.Ok size (result.2.lastNode :: held) slots result.1 ∧
        tree'.entries = pool.tree.entries ∧ result.2.Running tree' ∧ Rescheduled req result.2 ∧ result.2.Measured := by
  have lock {req' : Req ε τ} (running' : req'.Running pool.tree) (isNode' : pool.tree.IsNode req'.lastNode) (rest : Rescheduled req req')
      (measured' : req'.Measured) : ∃ added, pool.reqIncLockRef req' = .ok added ∧ ∀ result, added = some result →
      ∃ tree', result.1 = { pool with tree := tree' } ∧ Pool.Ok size (result.2.lastNode :: held) slots result.1 ∧
        tree'.entries = pool.tree.entries ∧ result.2.Running tree' ∧ Rescheduled req result.2 ∧ result.2.Measured := by
    obtain ⟨tree', run, ok', entries, running''⟩ := reqIncLockRef_spec running' isNode' ok
    refine ⟨_, run, fun result same => ?_⟩
    obtain rfl := Option.some.inj same
    exact ⟨tree', rfl, ok', entries, running'', rest, measured'⟩
  unfold Pool.addOneReq
  cases remChunkTokens with
  | none => exact lock running isNode ⟨rfl⟩ measured
  | some truncLen =>
    dsimp only
    split
    · exact lock running isNode ⟨rfl⟩ measured
    · next long =>
      split
      · exact ⟨none, rfl, nofun⟩
      · have cut := running.cut truncLen running.fill running.protect
        refine lock cut isNode ⟨rfl⟩ ?_
        unfold Req.Measured at measured ⊢
        dsimp only
        rw [List.length_take]
        omega

omit [DecidableEq ε] [DecidableEq τ] in
theorem addChunkedReq_spec (running : req.Running tree) (remTokens : Nat) :
    (addChunkedReq req remTokens).Running tree ∧ Rescheduled req (addChunkedReq req remTokens) ∧
    (addChunkedReq req remTokens).Measured := by
  have all := running.protect_all
  have cut := running.cut (min (req.allIds.length - req.prefixIndices.length) remTokens) (List.prefix_refl _) all
  refine ⟨cut, ⟨rfl⟩, ?_⟩
  unfold Req.Measured addChunkedReq
  dsimp only
  rw [List.length_take, running.prefix_length]
  omega

/-! ## New rows -/

/-- What a row changes of a request. -/
def Seated (req req' : Req ε τ) : Prop := ∃ reqPoolIdx, req' = { req with reqPoolIdx }

omit [DecidableEq ε] [DecidableEq τ] in
theorem select_seated (selectIndex : List Nat) (reqs : List (Req ε τ)) :
    List.Forall₂ Seated reqs (ReqToTokenPool.select selectIndex reqs) := by
  induction reqs generalizing selectIndex with
  | nil => exact .nil
  | cons req reqs ih =>
    rw [ReqToTokenPool.select]
    split
    · exact .cons ⟨req.reqPoolIdx, rfl⟩ (ih selectIndex)
    · exact .cons ⟨_, rfl⟩ (ih selectIndex.tail)

/-- The requests without a row. -/
def rowless (reqs : List (Req ε τ)) : Nat := reqs.length - (reqs.filter fun req => req.reqPoolIdx.isSome).length

/-- Whether `alloc` has a row for each request of a batch: the chunked request alone has one, and there are enough for the others. -/
structure Seatable (rows : ReqToTokenPool) (reqs : List (Req ε τ)) : Prop where
  single : (reqs.filter fun req => req.reqPoolIdx.isSome).length ≤ 1
  continued : ∀ req ∈ reqs, req.reqPoolIdx.isSome → 0 < req.isChunked ∨ 0 < req.kvCommittedLen
  enough : rowless reqs ≤ rows.freeSlots.length

omit [DecidableEq ε] [DecidableEq τ] in
/-- **A batch gets its rows** exactly if it can be seated. -/
theorem allocReqSlots_eq_ok {reqs : List (Req ε τ)} {result : List (Req ε τ) × Pool ε τ} :
    pool.allocReqSlots reqs = .ok result ↔ Seatable pool.reqToTokenPool reqs ∧
      result.1 = ReqToTokenPool.select (pool.reqToTokenPool.freeSlots.take (rowless reqs)) reqs ∧
      result.2 = { pool with
        reqToTokenPool := ⟨pool.reqToTokenPool.size, pool.reqToTokenPool.freeSlots.drop (rowless reqs)⟩ } := by
  have held : ((reqs.filter fun req => req.reqPoolIdx.isSome).all fun req => decide (req.isChunked > 0 ∨ req.kvCommittedLen > 0)) = true ↔
      ∀ req ∈ reqs, req.reqPoolIdx.isSome → 0 < req.isChunked ∨ 0 < req.kvCommittedLen := by
    simp only [List.all_eq_true, List.mem_filter, decide_eq_true_eq, and_imp, gt_iff_lt]
  have seatable : Seatable pool.reqToTokenPool reqs ↔ (reqs.filter fun req => req.reqPoolIdx.isSome).length ≤ 1 ∧
      ((reqs.filter fun req => req.reqPoolIdx.isSome).all fun req => decide (req.isChunked > 0 ∨ req.kvCommittedLen > 0)) = true ∧
      rowless reqs ≤ pool.reqToTokenPool.freeSlots.length :=
    ⟨fun ok => ⟨ok.single, held.2 ok.continued, ok.enough⟩, fun ok => ⟨ok.1, held.1 ok.2.1, ok.2.2⟩⟩
  rw [seatable]
  unfold Pool.allocReqSlots ReqToTokenPool.alloc rowless
  dsimp only
  generalize ((reqs.filter fun req => req.reqPoolIdx.isSome).all fun req => decide (req.isChunked > 0 ∨ req.kvCommittedLen > 0)) = continued
  generalize (reqs.filter fun req => req.reqPoolIdx.isSome).length = chunked
  by_cases single : chunked ≤ 1
  · rw [decide_eq_true single, pyAssert_true, Py.ok_bind]
    cases continued with
    | false => exact iff_of_false (fun run => (by cases run)) fun ok => absurd ok.1.2.1 Bool.false_ne_true
    | true =>
      rw [pyAssert_true, Py.ok_bind]
      split
      · next short => exact iff_of_false (fun run => (by cases run)) fun ok => absurd ok.1.2.2 (by omega)
      · next enough =>
        constructor
        · intro run
          rw [← Except.ok.inj run]
          exact ⟨⟨single, rfl, by omega⟩, rfl, rfl⟩
        · rintro ⟨-, first, second⟩
          rw [show result = (result.1, result.2) from rfl, first, second]
          rfl
  · rw [decide_eq_false single]
    exact iff_of_false (fun run => (by cases run)) fun ok => absurd ok.1.1 single

omit [DecidableEq ε] [DecidableEq τ] in
theorem Seatable.allocReqSlots {reqs : List (Req ε τ)} (seatable : Seatable pool.reqToTokenPool reqs) :
    pool.allocReqSlots reqs = .ok (ReqToTokenPool.select (pool.reqToTokenPool.freeSlots.take (rowless reqs)) reqs,
      { pool with reqToTokenPool := ⟨pool.reqToTokenPool.size, pool.reqToTokenPool.freeSlots.drop (rowless reqs)⟩ }) :=
  allocReqSlots_eq_ok.2 ⟨seatable, rfl, rfl⟩

/-! ## New slots -/

/-- A request may be extended when it has no slots of its own and its input is measured. -/
structure Req.Ready (req : Req ε τ) : Prop where
  stashed : req.kvCommittedLen ≤ req.cacheProtectedLen
  measured : req.Measured

/-- What an extend makes of a request. -/
structure Extended (req req' : Req ε τ) : Prop where
  rest : req' = { req with
    reqToToken := req'.reqToToken
    kvCommittedLen := req.fillIds.length
    kvAllocatedLen := req.fillIds.length }
  row : req'.reqToToken.take req.fillIds.length = req.prefixIndices ++ req'.owned
  length : req'.owned.length = req.fillIds.length - req.prefixIndices.length

omit [DecidableEq ε] [DecidableEq τ] in
/-- The new slots are handed out in turn. -/
theorem writeCacheIndices_spec {batch : List (Req ε τ)} (running : ∀ req ∈ batch, req.Running tree) (ready : ∀ req ∈ batch, req.Ready)
    {out : List Nat} (length : out.length = (batch.map fun req => (req.fillIds.drop req.prefixIndices.length).length).sum) :
    List.Forall₂ Extended batch (writeCacheIndices out batch) ∧ (writeCacheIndices out batch).flatMap Req.owned = out := by
  induction batch generalizing out with
  | nil => exact ⟨.nil, (List.eq_nil_of_length_eq_zero length).symm⟩
  | cons req batch ih =>
    have own := running req (List.mem_cons_self ..)
    have size := (ready req (List.mem_cons_self ..)).measured
    unfold Req.Measured at size
    rw [List.map_cons, List.sum_cons, List.length_drop, size] at length
    have pre := own.prefix_length
    have protect := own.protect
    obtain ⟨rest, all⟩ := ih (fun r mem => running r (List.mem_cons_of_mem _ mem)) (fun r mem => ready r (List.mem_cons_of_mem _ mem))
      (show (out.drop req.extendInputLen).length = _ by rw [List.length_drop]; omega)
    have count : (out.take req.extendInputLen).length = req.fillIds.length - req.prefixIndices.length := by
      rw [List.length_take]
      omega
    have row : (write (write req.reqToToken 0 req.prefixIndices) req.prefixIndices.length (out.take req.extendInputLen)).take
        req.fillIds.length = req.prefixIndices ++ out.take req.extendInputLen := by
      unfold write
      rw [List.take_zero, List.nil_append, List.take_left, List.take_append_of_le_length]
      · refine List.take_of_length_le ?_
        rw [List.length_append]
        omega
      · rw [List.length_append]
        omega
    have owned : Req.owned { req with
        reqToToken := write (write req.reqToToken 0 req.prefixIndices) req.prefixIndices.length (out.take req.extendInputLen)
        kvCommittedLen := req.fillIds.length
        kvAllocatedLen := req.fillIds.length } = out.take req.extendInputLen := by
      unfold Req.owned
      dsimp only
      rw [row, ← pre, List.drop_left]
    rw [writeCacheIndices, List.flatMap_cons, all, owned, List.take_append_drop]
    refine ⟨.cons ⟨rfl, ?_, ?_⟩ rest, rfl⟩
    · rw [owned]
      exact row
    · rw [owned]
      exact count

omit [DecidableEq ε] [DecidableEq τ] in
theorem Req.Running.processed (running : req.Running tree) (stashed : req.kvCommittedLen ≤ req.cacheProtectedLen) : req.future = none := by
  cases unknown : req.future with
  | none => rfl
  | some token =>
    have committed := running.future token unknown
    have all := running.protect_all
    omega

omit [DecidableEq ε] [DecidableEq τ] in
theorem Extended.running {req' : Req ε τ} (extended : Extended req req') (running : req.Running tree) (ready : req.Ready) :
    req'.Running tree := by
  have processed := running.processed ready.stashed
  have row := extended.row
  have length := extended.length
  have protect := running.protect
  have pre := running.prefix_length
  have total := congrArg List.length row
  rw [extended.rest] at row length total ⊢
  rw [List.length_take, List.length_append] at total
  refine ⟨running.node, protect, running.fill, running.along, rfl, running.committedFreed, running.overallocatedFreed, .inr ⟨protect, ?_, ?_⟩,
    ?_, fun token some => ?_⟩
  · dsimp only at total length ⊢
    omega
  · dsimp only at row ⊢
    have cut := congrArg (List.take req.cacheProtectedLen) row
    rw [List.take_take, Nat.min_eq_left protect, ← pre, List.take_left] at cut
    rwa [pre] at cut
  · show req.fillIds.length ≤ (req.allIds ++ req.future.toList).length
    rw [List.length_append]
    exact Nat.le_add_right_of_le running.fill.length_le
  · exact nomatch processed.symm.trans some

/-- What a decode makes of a request. -/
structure Decoded (req req' : Req ε τ) (loc : Nat) : Prop where
  rest : req' = { req with
    reqToToken := req'.reqToToken
    kvCommittedLen := req.kvCommittedLen + 1
    kvAllocatedLen := req.kvAllocatedLen + 1 }
  row : req'.reqToToken.take (req.kvCommittedLen + 1) = req.reqToToken.take req.kvCommittedLen ++ [loc]

omit [DecidableEq ε] [DecidableEq τ] in
theorem decoded_of_row (req : Req ε τ) (row : req.kvCommittedLen ≤ req.reqToToken.length) (loc : Nat) :
    Decoded req (writeDecodeIndex req loc) loc := by
  refine ⟨rfl, ?_⟩
  unfold writeDecodeIndex write
  have length : (req.reqToToken.take req.kvCommittedLen ++ [loc]).length = req.kvCommittedLen + 1 := by
    rw [List.length_append, List.length_take, List.length_singleton]
    omega
  dsimp only
  rw [← length, List.take_left]

omit [DecidableEq ε] [DecidableEq τ] in
/-- A decode has a token to feed. -/
theorem Req.Fed.spec {fed : Req ε τ} (feed : req.Fed fed) (running : req.Running tree) (processed : req.future = none) :
    ∃ future, fed = { req with future } ∧ req.kvCommittedLen < (req.allIds ++ future.toList).length ∧
      ∀ token, future = some token → req.kvCommittedLen = req.allIds.length := by
  have committed := running.committed_le processed
  unfold Req.Fed at feed
  split at feed
  · next less =>
    subst feed
    refine ⟨none, ?_, ?_, nofun⟩
    · rw [← processed]
    · rwa [Option.toList_none, List.append_nil]
  · obtain ⟨token, rfl⟩ := feed
    refine ⟨some token, rfl, ?_, fun _ _ => by omega⟩
    rw [Option.toList_some, List.length_append, List.length_singleton]
    omega

omit [DecidableEq ε] [DecidableEq τ] in
theorem Decoded.running {future : Option τ} {req' : Req ε τ} {loc : Nat} (decoded : Decoded { req with future } req' loc)
    (running : req.Running tree) (extended : 0 < req.kvCommittedLen) (fed : req.kvCommittedLen < (req.allIds ++ future.toList).length)
    (all : ∀ token, future = some token → req.kvCommittedLen = req.allIds.length) : req'.Running tree := by
  obtain zero | ⟨protect, within, pre⟩ := running.row
  · omega
  · have row := decoded.row
    have cut := congrArg (List.take req.cacheProtectedLen) row
    have total := congrArg List.length row
    dsimp only at cut total
    rw [List.length_take, List.length_append, List.length_take, List.length_singleton] at total
    rw [List.take_take, Nat.min_eq_left (by omega), List.take_append_of_le_length (by rw [List.length_take]; omega), List.take_take,
      Nat.min_eq_left protect, pre] at cut
    rw [decoded.rest]
    refine ⟨running.node, running.protect, running.fill, running.along, congrArg (· + 1) running.allocated, running.committedFreed,
      running.overallocatedFreed, .inr ⟨Nat.le_succ_of_le protect, ?_, cut⟩, fed, fun token some => ?_⟩
    · dsimp only
      omega
    · exact congrArg (· + 1) (all token some)

omit [DecidableEq ε] [DecidableEq τ] in
theorem Decoded.owned {future : Option τ} {req' : Req ε τ} {loc : Nat} (decoded : Decoded { req with future } req' loc)
    (running : req.Running tree) (extended : 0 < req.kvCommittedLen) : req'.owned = req.owned ++ [loc] := by
  obtain zero | ⟨protect, within, _⟩ := running.row
  · omega
  · have row := decoded.row
    unfold Req.owned
    rw [decoded.rest]
    dsimp only at row ⊢
    rw [running.allocated, row, List.drop_append_of_le_length]
    rw [List.length_take]
    omega

end Req

end SlimeBoard.KvPool
