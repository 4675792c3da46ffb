import SlimeBoard.Rollout.KvSlots

/-!
# Runs of the scheduler over the KV slots

In every state that the scheduler reaches no slot is lost or shared, and a running request reads the keys
and values that its own tokens alone would have given, whoever computed them.
-/

namespace SlimeBoard.KvPool

open Memo RadixCache RadixCache.Cache

variable {ε τ K : Type}

/-! ## What is right -/

section Right

variable {layer : List K → ε × τ → K} {memory : Nat → K} {tree tree' : Cache (ε × τ) Nat} {req req' : Req ε τ}

/-- The slots of the cache hold what computing their sequences gives. -/
def TreeRight (layer : List K → ε × τ → K) (memory : Nat → K) (tree : Cache (ε × τ) Nat) : Prop :=
  ∀ e ∈ tree.entries, (compute layer e.1).getLast? = some (memory e.2)

/-- The slots of a request hold what computing its tokens gives. -/
def ReqRight (layer : List K → ε × τ → K) (memory : Nat → K) (req : Req ε τ) : Prop :=
  req.committedSlots.map memory = compute layer req.committedKey

theorem TreeRight.along (right : TreeRight layer memory tree) {path : List (ε × τ)} {values : List Nat} (along : tree.Along path values) :
    values.map memory = compute layer path := by
  refine List.ext_getElem? fun i => ?_
  rw [List.getElem?_map]
  cases here : values[i]? with
  | none =>
    rw [List.getElem?_eq_none_iff, along.1] at here
    rw [Option.map_none, List.getElem?_eq_none]
    rwa [compute_length]
  | some v =>
    have lt := (List.getElem?_eq_some_iff.1 here).1
    rw [along.1] at lt
    rw [Option.map_some, ← getLast?_compute lt]
    exact (right _ (along.2 i v here)).symm

theorem TreeRight.grown (right : TreeRight layer memory tree) (reqRight : ReqRight layer memory req)
    (grown : Grown tree tree' req.committedKey req.committedSlots) : TreeRight layer memory tree' := by
  intro e mem
  obtain old | ⟨i, path, here⟩ := grown.new e mem
  · exact right e old
  · have value := congrArg (·[i]?) reqRight
    rw [List.getElem?_map, here, Option.map_some] at value
    have lt : i < req.committedKey.length := by
      have := (List.getElem?_eq_some_iff.1 value.symm).1
      rwa [compute_length] at this
    rw [path, getLast?_compute lt, value]

theorem TreeRight.frame (right : TreeRight layer memory tree) (sized : tree.Sized) {memory' : Nat → K}
    (same : ∀ slot ∈ tree.values, memory' slot = memory slot) : TreeRight layer memory' tree := by
  intro e mem
  rw [right e mem, same]
  rw [← sized.entries_snd]
  exact List.mem_map_of_mem mem

theorem ReqRight.stashed (right : ReqRight layer memory req) (treeRight : TreeRight layer memory tree') (running : req'.Running tree')
    (stashed : Stashed req req') : ReqRight layer memory req' := by
  have rest := stashed.rest
  have row := stashed.row
  have known : req'.committedKey = req.committedKey := by
    rw [rest]
    rfl
  have committed : req'.kvCommittedLen = req.kvCommittedLen := by rw [rest]
  have pre := running.prefix_length
  have protect := running.protect_all
  have within := congrArg List.length row
  rw [List.length_append, List.length_take] at within
  unfold ReqRight at right ⊢
  rw [known, Req.committedSlots, committed, row, List.map_append, List.map_drop]
  show _ ++ (req.committedSlots.map memory).drop _ = _
  rw [right, treeRight.along running.along]
  conv_rhs => rw [← List.take_append_drop req'.cacheProtectedLen (compute layer req.committedKey)]
  rw [compute_take, running.node, ← known, Req.committedKey]
  unfold Req.radixKey Req.knownIds
  rw [← List.map_take, List.take_take, Nat.min_eq_left (by omega), List.take_append_of_le_length protect]

theorem Req.Running.prefix_reads (running : req.Running tree) (sized : tree.Sized) {slot : Nat} (mem : slot ∈ req.prefixIndices) :
    slot ∈ tree.values := by
  obtain ⟨i, here⟩ := List.mem_iff_getElem?.1 mem
  rw [← sized.entries_snd]
  exact List.mem_map.2 ⟨_, running.along.2 i slot here, rfl⟩

/-- The slots that a request reads are in the cache or its own. -/
theorem Req.Running.reads (running : req.Running tree) (sized : tree.Sized) {slot : Nat} (mem : slot ∈ req.committedSlots) :
    slot ∈ tree.values ∨ slot ∈ req.owned := by
  obtain zero | ⟨le, _, same⟩ := running.row
  · rw [Req.committedSlots, zero, List.take_zero] at mem
    exact absurd mem List.not_mem_nil
  · unfold Req.committedSlots at mem
    rw [← List.take_append_drop req.cacheProtectedLen (req.reqToToken.take req.kvCommittedLen), List.take_take, Nat.min_eq_left le, same] at mem
    refine (List.mem_append.1 mem).imp (running.prefix_reads sized) fun own => ?_
    rwa [Req.owned, running.allocated]

end Right

/-! ## The steps of the scheduler -/

section Steps

variable [DecidableEq ε] [DecidableEq τ] {layer : List K → ε × τ → K} {size : Nat} {s t : State ε τ K}

/-- **The invariant**: a slot is in one place, the tree is locked by the running requests, and each of them
reads what it would have computed. -/
structure Kept (layer : List K → ε × τ → K) (size : Nat) (s : State ε τ K) : Prop where
  pool : s.pool.Ok size (s.running.map Req.lastNode) (s.running.flatMap Req.owned)
  running : ∀ req ∈ s.running, req.Running s.pool.tree
  waiting : ∀ req ∈ s.waiting, req.Waiting
  tree : TreeRight layer s.memory s.pool.tree
  right : ∀ req ∈ s.running, ReqRight layer s.memory req

theorem kept_init (maxNumReqs size : Nat) (needSort : Bool) (memory : Nat → K) :
    Kept layer size (State.init maxNumReqs size needSort memory : State ε τ K) := by
  refine ⟨⟨reset_sound, ⟨nofun, nofun⟩, fun _ => rfl, rfl, ?_⟩, nofun, nofun, nofun, nofun⟩
  show (List.range' 1 size ++ [] ++ [] ++ [] ++ []).Perm _
  simp only [List.append_nil]
  exact .refl _

theorem Kept.turn (kept : Kept layer size s) {batch rest : List (Req ε τ)} (turn : s.running.Perm (batch ++ rest)) :
    Kept layer size { s with running := batch ++ rest } :=
  ⟨kept.pool.perm (turn.map _) (turn.flatMap_right _), fun req mem => kept.running req (turn.mem_iff.2 mem), kept.waiting, kept.tree,
    fun req mem => kept.right req (turn.mem_iff.2 mem)⟩

theorem Kept.wait (kept : Kept layer size s) {waiting : List (Req ε τ)} (idle : ∀ req ∈ waiting, req.Waiting) :
    Kept layer size { s with waiting } :=
  ⟨kept.pool, kept.running, idle, kept.tree, kept.right⟩

/-- The tree may be split at any time. -/
theorem Kept.same_entries (kept : Kept layer size s) {pool : Pool ε τ}
    (ok : pool.Ok size (s.running.map Req.lastNode) (s.running.flatMap Req.owned)) (entries : pool.tree.entries = s.pool.tree.entries) :
    Kept layer size { s with pool } := by
  refine ⟨ok, fun req mem => (kept.running req mem).mono fun along => along.mono fun e here => ?_, kept.waiting, fun e mem => ?_, kept.right⟩
  · rwa [entries]
  · exact kept.tree e (entries ▸ mem)

theorem Kept.lookup (kept : Kept layer size s) {key : List (ε × τ)} {found : List Nat × List (ε × τ) × Cache (ε × τ) Nat}
    (run : s.pool.tree.matchPrefix key = .ok found) : Kept layer size { s with pool := { s.pool with tree := found.2.2 } } := by
  obtain ⟨value, node, tree', run', reached, _⟩ := matchPrefix_spec key kept.pool.sound kept.pool.locked
  obtain rfl := Except.ok.inj (run'.symm.trans run)
  exact kept.same_entries (kept.pool.matched reached) reached.entries

theorem Kept.passOver (kept : Kept layer size s) {req : Req ε τ} {waiting : List (Req ε τ)} (turn : s.waiting.Perm (req :: waiting))
    {matched : Pool ε τ × Req ε τ} (init : s.pool.initNextRoundInput req = .ok matched) :
    Kept layer size { s with pool := matched.1, waiting := matched.2 :: waiting } := by
  have idle := kept.waiting req (turn.mem_iff.2 (List.mem_cons_self ..))
  obtain ⟨tree', req', run, ok, entries, _, _, rest, _⟩ := initNextRoundInput_spec idle kept.pool
  obtain rfl := Except.ok.inj (run.symm.trans init)
  refine (kept.same_entries ok entries).wait fun r mem => ?_
  obtain rfl | mem := List.mem_cons.1 mem
  · rw [rest.rest]
    exact ⟨idle.committed, idle.allocated, idle.committedFreed, idle.overallocatedFreed, idle.future⟩
  · exact kept.waiting r (turn.mem_iff.2 (List.mem_cons_of_mem _ mem))

theorem Kept.addReq (kept : Kept layer size s) {req : Req ε τ} {waiting : List (Req ε τ)} (turn : s.waiting.Perm (req :: waiting))
    {remChunkTokens : Option Nat} {matched added : Pool ε τ × Req ε τ} (init : s.pool.initNextRoundInput req = .ok matched)
    (add : matched.1.addOneReq matched.2 remChunkTokens = .ok (some added)) :
    Kept layer size { s with pool := added.1, waiting, running := added.2 :: s.running } := by
  have idle := kept.waiting req (turn.mem_iff.2 (List.mem_cons_self ..))
  obtain ⟨tree', req', run, ok, entries, isNode, running, rest, measured⟩ := initNextRoundInput_spec idle kept.pool
  obtain rfl := Except.ok.inj (run.symm.trans init)
  obtain ⟨_, run, spec⟩ := addOneReq_spec running isNode measured ok remChunkTokens
  obtain rfl := Except.ok.inj (run.symm.trans add)
  obtain ⟨tree'', pool, ok', entries', running', rest', _⟩ := spec added rfl
  have committed : added.2.kvCommittedLen = 0 := by
    rw [rest'.rest, rest.rest]
    exact idle.committed
  have owned : added.2.owned = [] := Req.owned_nil (running'.allocated.trans committed)
  have all : added.1.tree.entries = s.pool.tree.entries := by
    rw [pool]
    exact entries'.trans entries
  refine ⟨ok'.perm (.refl _) (List.Perm.of_eq ?_), fun r mem => ?_, fun r mem => ?_, fun e mem => ?_, fun r mem => ?_⟩
  · rw [List.flatMap_cons, owned, List.nil_append]
  · obtain rfl | mem := List.mem_cons.1 mem
    · rwa [pool]
    · refine (kept.running r mem).mono fun along => along.mono fun e here => ?_
      rwa [all]
  · exact kept.waiting r (turn.mem_iff.2 (List.mem_cons_of_mem _ mem))
  · exact kept.tree e (all ▸ mem)
  · obtain rfl | mem := List.mem_cons.1 mem
    · unfold ReqRight Req.committedSlots Req.committedKey
      rw [committed, List.take_zero, List.take_zero]
      rfl
    · exact kept.right r mem

/-- The others keep what they have when a request changes alone. -/
theorem Kept.change (kept : Kept layer size s) {req req' : Req ε τ} {rest : List (Req ε τ)} (turn : s.running.Perm (req :: rest))
    (owned : req'.owned = req.owned) (node : req'.lastNode = req.lastNode) (running : req'.Running s.pool.tree)
    (right : ReqRight layer s.memory req') : Kept layer size { s with running := req' :: rest } := by
  have turned := kept.turn (show s.running.Perm ([req] ++ _) from turn)
  refine ⟨turned.pool.perm (List.Perm.of_eq ?_) (List.Perm.of_eq ?_), fun r mem => ?_, kept.waiting, kept.tree, fun r mem => ?_⟩
  · show req.lastNode :: rest.map Req.lastNode = req'.lastNode :: rest.map Req.lastNode
    rw [node]
  · show req.owned ++ rest.flatMap Req.owned = req'.owned ++ rest.flatMap Req.owned
    rw [owned]
  · obtain rfl | mem := List.mem_cons.1 mem
    · exact running
    · exact turned.running r (List.mem_cons_of_mem _ mem)
  · obtain rfl | mem := List.mem_cons.1 mem
    · exact right
    · exact turned.right r (List.mem_cons_of_mem _ mem)

theorem Kept.resume (kept : Kept layer size s) {req : Req ε τ} {rest : List (Req ε τ)} (turn : s.running.Perm (req :: rest))
    (remTokens : Nat) : Kept layer size { s with running := addChunkedReq req remTokens :: rest } := by
  have mem := turn.mem_iff.2 (List.mem_cons_self ..)
  exact kept.change turn rfl rfl (addChunkedReq_spec (kept.running req mem) remTokens).1 (kept.right req mem)

theorem Kept.chunk (kept : Kept layer size s) {req : Req ε τ} {rest : List (Req ε τ)} (turn : s.running.Perm (req :: rest))
    (isChunked : Nat) : Kept layer size { s with running := { req with isChunked } :: rest } := by
  have mem := turn.mem_iff.2 (List.mem_cons_self ..)
  exact kept.change turn rfl rfl { kept.running req mem with } (kept.right req mem)

theorem Kept.sample (kept : Kept layer size s) {req : Req ε τ} {rest : List (Req ε τ)} (turn : s.running.Perm (req :: rest)) (token : τ)
    (same : ∀ t, req.future = some t → t = token) :
    Kept layer size { s with running := { req with outputIds := req.outputIds ++ [token], future := none } :: rest } := by
  have mem := turn.mem_iff.2 (List.mem_cons_self ..)
  have running := kept.running req mem
  obtain ⟨req', reqIs⟩ : ∃ req', req' = { req with outputIds := req.outputIds ++ [token], future := none } := ⟨_, rfl⟩
  have all : req'.allIds = req.allIds ++ [token] := by
    rw [reqIs]
    exact (List.append_assoc ..).symm
  have known : req'.knownIds.take req.kvCommittedLen = req.knownIds.take req.kvCommittedLen := by
    have none : req'.knownIds = req'.allIds := by
      rw [reqIs]
      exact List.append_nil _
    rw [none, all]
    unfold Req.knownIds
    cases unknown : req.future with
    | none =>
      rw [Option.toList_none, List.append_nil, List.take_append_of_le_length (running.committed_le unknown)]
    | some t => rw [same t unknown, Option.toList_some]
  rw [← reqIs]
  refine kept.change turn (reqIs ▸ rfl) (reqIs ▸ rfl) ?_ ?_
  · have within : req.kvCommittedLen ≤ req.allIds.length + 1 := by
      have := running.known
      rw [Req.knownIds, List.length_append] at this
      have := Option.length_toList_le (o := req.future)
      omega
    have node : req'.lastNode = req'.radixKey (req'.allIds.take req'.cacheProtectedLen) := by
      rw [all, reqIs]
      dsimp only
      rw [List.take_append_of_le_length running.protect_all]
      exact running.node
    have fill : req'.fillIds <+: req'.allIds := by
      rw [all, reqIs]
      exact running.fill.trans (List.prefix_append ..)
    have long : req'.kvCommittedLen ≤ req'.knownIds.length := by
      rw [Req.knownIds, all, reqIs, List.length_append, List.length_append, List.length_singleton]
      exact Nat.le_add_right_of_le within
    rw [reqIs] at node fill long ⊢
    exact ⟨node, running.protect, fill, running.along, running.allocated, running.committedFreed, running.overallocatedFreed, running.row,
      long, fun t here => absurd here.symm (Option.some_ne_none t)⟩
  · have right := kept.right req mem
    unfold ReqRight Req.committedKey at right ⊢
    rw [← known] at right
    rw [reqIs] at right ⊢
    exact right

/-- A tree that has grown by what a request had computed. -/
theorem Kept.others_grown (kept : Kept layer size s) {req : Req ε τ} {rest : List (Req ε τ)} (turn : s.running.Perm (req :: rest))
    {tree' : Cache (ε × τ) Nat} (grown : Grown s.pool.tree tree' req.committedKey req.committedSlots) :
    TreeRight layer s.memory tree' ∧ ∀ r ∈ rest, r.Running tree' ∧ ReqRight layer s.memory r := by
  have mem := turn.mem_iff.2 (List.mem_cons_self ..)
  refine ⟨kept.tree.grown (kept.right req mem) grown, fun r mem => ?_⟩
  have mem := turn.mem_iff.2 (List.mem_cons_of_mem req mem)
  exact ⟨(kept.running r mem).mono fun along => along.mono grown.old, kept.right r mem⟩

theorem Kept.stash (kept : Kept layer size s) {req : Req ε τ} {rest : List (Req ε τ)} (turn : s.running.Perm (req :: rest))
    {result : Pool ε τ × Req ε τ} (run : s.pool.cacheUnfinishedReq req = .ok result) :
    Kept layer size { s with pool := result.1, running := result.2 :: rest } := by
  have mem := turn.mem_iff.2 (List.mem_cons_self ..)
  have turned := kept.turn (show s.running.Perm ([req] ++ _) from turn)
  obtain ⟨pool', req', run', ok, _, running, stashed, grown⟩ := cacheUnfinishedReq_spec (kept.running req mem) turned.pool
    (cacheUnfinishedReq_row run)
  obtain rfl := Except.ok.inj (run'.symm.trans run)
  obtain ⟨tree, others⟩ := kept.others_grown turn grown
  refine ⟨ok, fun r mem => ?_, kept.waiting, tree, fun r mem' => ?_⟩
  · obtain rfl | mem := List.mem_cons.1 mem
    · exact running
    · exact (others r mem).1
  · obtain rfl | mem' := List.mem_cons.1 mem'
    · exact (kept.right req mem).stashed tree running stashed
    · exact (others r mem').2

theorem Kept.finish (kept : Kept layer size s) {req : Req ε τ} {rest : List (Req ε τ)} (turn : s.running.Perm (req :: rest))
    (processed : req.future = none) {isInsert : Bool} {result : Pool ε τ × Req ε τ}
    (run : s.pool.releaseKvCache req isInsert = .ok result) :
    Kept layer size { s with pool := result.1, running := rest } ∧
      result.2 = { req with reqPoolIdx := none, kvCommittedFreed := true, kvOverallocatedFreed := true } := by
  have mem := turn.mem_iff.2 (List.mem_cons_self ..)
  have turned := kept.turn (show s.running.Perm ([req] ++ _) from turn)
  obtain ⟨index, row⟩ := Option.isSome_iff_exists.1 (releaseKvCache_row run)
  obtain ⟨pool', run', released, -⟩ := releaseKvCache_spec (kept.running req mem) processed isInsert turned.pool row
  obtain rfl := Except.ok.inj (run'.symm.trans run)
  obtain ⟨tree, others⟩ := kept.others_grown turn released.grown
  exact ⟨⟨released.ok, fun r mem => (others r mem).1, kept.waiting, tree, fun r mem => (others r mem).2⟩, rfl⟩

theorem Kept.evict (kept : Kept layer size s) {pick : Nat → Nat} {numTokens : Nat} {pool : Pool ε τ}
    (run : s.pool.evictFromTreeCache pick numTokens = .ok pool) : Kept layer size { s with pool } := by
  obtain ⟨pool', run', ok, shrunk, _⟩ := evictFromTreeCache_spec kept.pool pick numTokens
  obtain rfl := Except.ok.inj (run'.symm.trans run)
  refine ⟨ok, fun r mem => (kept.running r mem).mono fun along => ?_, kept.waiting, fun e mem => kept.tree e (shrunk.sub e mem), kept.right⟩
  exact along.keep kept.pool.sound.toSized ok.sound ok.locked (List.mem_map_of_mem mem) shrunk.sub

theorem Kept.retract (kept : Kept layer size s) {req : Req ε τ} {rest : List (Req ε τ)} (turn : s.running.Perm (req :: rest))
    (processed : req.future = none) {pick : Nat → Nat} {numTokens : Nat} {result : Pool ε τ × Req ε τ} {pool : Pool ε τ}
    (run : s.pool.releaseKvCache req false = .ok result) (evict : result.1.evictFromTreeCache pick numTokens = .ok pool) :
    Kept layer size { s with pool, waiting := result.2.resetForRetract :: s.waiting, running := rest } := by
  obtain ⟨released, back⟩ := kept.finish turn processed run
  refine (released.evict evict).wait fun r mem => ?_
  obtain rfl | mem := List.mem_cons.1 mem
  · rw [back]
    exact ⟨rfl, rfl, rfl, rfl, processed⟩
  · exact kept.waiting r mem

theorem Kept.allocator (kept : Kept layer size s) {a : Allocator} (direct : a.Direct) (sized : a.size = s.pool.allocator.size)
    (owned : a.owned.Perm s.pool.allocator.owned) : Kept layer size { s with pool := { s.pool with allocator := a } } := by
  refine ⟨⟨kept.pool.sound, kept.pool.locked, direct, sized.trans kept.pool.sized, ?_⟩, kept.running, kept.waiting, kept.tree, kept.right⟩
  exact ((owned.append_right _).append_right _).trans kept.pool.conserved

/-! ### Extends and decodes -/

/-- What the requests have and what new slots are taken for. -/
structure Allocated (layer : List K → ε × τ → K) (size : Nat) (s : State ε τ K) (batch rest : List (Req ε τ)) (pool : Pool ε τ)
    (out : List Nat) :
    Prop where
  ok : pool.Ok size ((batch ++ rest).map Req.lastNode) (out ++ (batch ++ rest).flatMap Req.owned)
  running : ∀ req ∈ batch ++ rest, req.Running pool.tree
  tree : TreeRight layer s.memory pool.tree
  right : ∀ req ∈ batch ++ rest, ReqRight layer s.memory req
  nodup : out.Nodup
  cached : ∀ slot ∈ pool.tree.values, slot ∉ out
  owned : ∀ req ∈ batch ++ rest, ∀ slot ∈ req.owned, slot ∉ out

theorem Kept.allocated (kept : Kept layer size s) {batch rest : List (Req ε τ)} (turn : s.running.Perm (batch ++ rest)) {pick : Nat → Nat}
    {numTokens : Nat} {result : List Nat × Pool ε τ} (run : s.pool.allocTokenSlots pick numTokens = .ok result) :
    result.1.length = numTokens ∧ Allocated layer size s batch rest result.2 result.1 := by
  have turned := kept.turn turn
  obtain ⟨length, ok, shrunk⟩ := allocTokenSlots_spec turned.pool pick numTokens run
  have nodup := ok.conserved.nodup_iff.2 List.nodup_range'
  rw [List.nodup_append] at nodup
  obtain ⟨_, nodup, apart⟩ := nodup
  rw [List.nodup_append] at nodup
  obtain ⟨nodup, _, other⟩ := nodup
  refine ⟨length, ok, fun r mem => ?_, fun e mem => kept.tree e (shrunk.sub e mem), turned.right, nodup, fun slot mem into => ?_,
    fun r mem slot own into => ?_⟩
  · refine (turned.running r mem).mono fun along => ?_
    exact along.keep kept.pool.sound.toSized ok.sound ok.locked (List.mem_map_of_mem mem) shrunk.sub
  · exact apart slot (List.mem_append_right _ mem) slot (List.mem_append_left _ into) rfl
  · exact other slot into slot (List.mem_flatMap.2 ⟨r, mem, own⟩) rfl

/-- A batch whose passes write to the new slots only. -/
theorem Allocated.kept {batch rest : List (Req ε τ)} {pool : Pool ε τ} {out : List Nat}
    (allocated : Allocated layer size s batch rest pool out)
    (waiting : ∀ req ∈ s.waiting, req.Waiting) {batch' : List (Req ε τ)} {memory : Nat → K}
    (nodes : batch'.map Req.lastNode = batch.map Req.lastNode)
    (owned : (batch'.flatMap Req.owned).Perm (out ++ batch.flatMap Req.owned)) (running : ∀ req ∈ batch', req.Running pool.tree)
    (right : ∀ req ∈ batch', ReqRight layer memory req) (frame : ∀ slot, slot ∉ out → memory slot = s.memory slot) :
    Kept layer size { s with pool, running := batch' ++ rest, memory } := by
  refine ⟨allocated.ok.perm (List.Perm.of_eq ?_) ?_, fun r mem => ?_, waiting, ?_, fun r mem => ?_⟩
  · rw [List.map_append, List.map_append, nodes]
  · rw [List.flatMap_append, List.flatMap_append, ← List.append_assoc]
    exact owned.symm.append_right _
  · exact (List.mem_append.1 mem).elim (running r) fun mem => allocated.running r (List.mem_append_right _ mem)
  · exact allocated.tree.frame allocated.ok.sound.toSized fun slot mem => frame slot (allocated.cached slot mem)
  · obtain mem | mem := List.mem_append.1 mem
    · exact right r mem
    · have mem := List.mem_append_right batch mem
      refine Eq.trans (List.map_congr_left fun slot here => frame slot ?_) (allocated.right r mem)
      obtain cached | own := (allocated.running r mem).reads allocated.ok.sound.toSized here
      · exact allocated.cached slot cached
      · exact allocated.owned r mem slot own

theorem forall₂_mem_right {α β : Type} {R : α → β → Prop} {xs : List α} {ys : List β} (all : List.Forall₂ R xs ys)
    {y : β} (mem : y ∈ ys) : ∃ x ∈ xs, R x y := by
  induction all with
  | nil => exact nomatch mem
  | cons head _ ih =>
    obtain rfl | mem := List.mem_cons.1 mem
    · exact ⟨_, List.mem_cons_self .., head⟩
    · obtain ⟨x, here, related⟩ := ih mem
      exact ⟨x, List.mem_cons_of_mem _ here, related⟩

theorem map_eq_of_forall₂ {α β γ : Type} {R : α → β → Prop} {g : α → γ} {h : β → γ} {xs : List α} {ys : List β}
    (all : List.Forall₂ R xs ys) (same : ∀ x y, R x y → h y = g x) : ys.map h = xs.map g := by
  induction all with
  | nil => rfl
  | cons head _ ih => rw [List.map_cons, List.map_cons, same _ _ head, ih]

omit [DecidableEq ε] [DecidableEq τ] in
/-- The pass of an extended request. -/
theorem Extended.pass {req req' : Req ε τ} (extended : Extended req req') {tree : Cache (ε × τ) Nat} (running : req'.Running tree)
    {memory memory' : Nat → K} (right : TreeRight layer memory tree) (nodup : req'.owned.Nodup)
    (apart : ∀ slot ∈ req'.prefixIndices, slot ∉ req'.owned) (same : req'.prefixIndices.map memory' = req'.prefixIndices.map memory) :
    (req'.prefixIndices ++ req'.owned).map (Req.forwardExtend layer memory' req') = compute layer req'.committedKey ∧
      ∀ slot, slot ∉ req'.owned → Req.forwardExtend layer memory' req' slot = memory' slot := by
  have row : req'.reqToToken.take req'.fillIds.length = req'.prefixIndices ++ req'.owned := by
    have row := extended.row
    rw [extended.rest] at row ⊢
    exact row
  have length : req'.owned.length = req'.fillIds.length - req'.prefixIndices.length := by
    have length := extended.length
    rw [extended.rest] at length ⊢
    exact length
  have committed : req'.kvCommittedLen = req'.fillIds.length := by rw [extended.rest]
  have whole : req'.reqToToken = req'.prefixIndices ++ req'.owned ++ req'.reqToToken.drop req'.fillIds.length := by
    rw [← row, List.take_append_drop]
  have count : req'.owned.length = (req'.radixKey (req'.fillIds.drop req'.prefixIndices.length)).length := by
    rw [Req.radixKey_length, List.length_drop, length]
  have key : req'.lastNode ++ req'.radixKey (req'.fillIds.drop req'.prefixIndices.length) = req'.committedKey := by
    have protect := running.protect
    have fill := List.prefix_iff_eq_take.1 running.fill
    have pre : req'.allIds.take req'.cacheProtectedLen = req'.fillIds.take req'.cacheProtectedLen := by
      conv_rhs => rw [fill, List.take_take, Nat.min_eq_left protect]
    rw [running.node, running.prefix_length, pre, Req.committedKey, committed, Req.knownIds,
      List.take_append_of_le_length running.fill.length_le, ← fill]
    unfold Req.radixKey
    rw [← List.map_append, List.take_append_drop]
  have done := forward_spec (req'.reqToToken.drop req'.fillIds.length) count nodup apart (same.trans (right.along running.along))
  rw [← whole, key] at done
  exact done

/-- A batch that has its rows gets its slots, and its passes run. -/
theorem Kept.fill (kept : Kept layer size s) {batch rest : List (Req ε τ)} (turn : s.running.Perm (batch ++ rest))
    (stashed : ∀ req ∈ batch, req.kvCommittedLen ≤ req.cacheProtectedLen) {pick : Nat → Nat} {out : List Nat × Pool ε τ}
    (alloc : s.pool.allocTokenSlots pick (batch.map fun req => (req.fillIds.drop req.prefixIndices.length).length).sum = .ok out)
    (check : pyAssert (batch.all fun req => req.fillIds.length - req.prefixIndices.length == req.extendInputLen) = .ok ()) :
    Kept layer size { s with
      pool := out.2
      running := writeCacheIndices out.1 batch ++ rest
      memory := (writeCacheIndices out.1 batch).foldl (Req.forwardExtend layer) s.memory } := by
  obtain ⟨length, allocated⟩ := kept.allocated turn alloc
  have ready : ∀ req ∈ batch, req.Ready := fun req mem =>
    ⟨stashed req mem, beq_iff_eq.1 (List.all_eq_true.1 (pyAssert_eq_ok check) req mem)⟩
  have before (req : Req ε τ) (mem : req ∈ batch) := allocated.running req (List.mem_append_left _ mem)
  obtain ⟨all, outs⟩ := writeCacheIndices_spec before ready length
  generalize writeCacheIndices out.1 batch = batch' at all outs ⊢
  have none : batch.flatMap Req.owned = [] := by
    refine List.flatMap_eq_nil_iff.2 fun req mem => List.eq_nil_of_length_eq_zero ?_
    rw [(before req mem).owned_length, (before req mem).allocated]
    exact Nat.sub_eq_zero_of_le (stashed req mem)
  have running : ∀ req' ∈ batch', req'.Running out.2.tree := by
    intro req' mem
    obtain ⟨req, here, extended⟩ := forall₂_mem_right all mem
    exact extended.running (before req here) (ready req here)
  have fresh {req' : Req ε τ} (mem : req' ∈ batch') {slot : Nat} (here : slot ∈ req'.prefixIndices) : slot ∉ batch'.flatMap Req.owned := by
    rw [outs]
    exact allocated.cached slot ((running req' mem).prefix_reads allocated.ok.sound.toSized here)
  have nodup := allocated.nodup
  rw [← outs] at nodup
  obtain ⟨done, frame⟩ := foldl_forward (Req.forwardExtend layer) Req.prefixIndices Req.owned
    (fun req => compute layer req.committedKey) s.memory
    (fun req' mem memory' same => by
      obtain ⟨req, here, extended⟩ := forall₂_mem_right all mem
      refine extended.pass (running req' mem) allocated.tree ((List.nodup_flatMap.1 nodup).1 req' mem) (fun slot own into => ?_) same
      exact fresh mem own (List.mem_flatMap.2 ⟨req', mem, into⟩))
    nodup fun req' mem slot own => fresh mem own
  rw [outs] at frame
  refine allocated.kept kept.waiting ?_ ?_ running (fun req' mem => ?_) frame
  · exact map_eq_of_forall₂ all fun req req' extended => by rw [extended.rest]
  · rw [none, List.append_nil, outs]
  · obtain ⟨req, here, extended⟩ := forall₂_mem_right all mem
    have row := extended.row
    rw [ReqRight, Req.committedSlots, ← done req' mem]
    rw [extended.rest] at row ⊢
    rw [row]

/-- A row does not matter to what a request has. -/
theorem Kept.seated (kept : Kept layer size s) {batch batch' rest : List (Req ε τ)} (turn : s.running.Perm (batch ++ rest))
    (all : List.Forall₂ Seated batch batch') (rows : ReqToTokenPool) :
    Kept layer size { s with pool := { s.pool with reqToTokenPool := rows }, running := batch' ++ rest } := by
  have turned := kept.turn turn
  have nodes : batch'.map Req.lastNode = batch.map Req.lastNode := map_eq_of_forall₂ all fun req req' seated => by
    obtain ⟨index, rfl⟩ := seated
    rfl
  have owned : batch'.map Req.owned = batch.map Req.owned := map_eq_of_forall₂ all fun req req' seated => by
    obtain ⟨index, rfl⟩ := seated
    rfl
  refine ⟨(turned.pool.perm (List.Perm.of_eq ?_) (List.Perm.of_eq ?_)).seat rows, fun r mem => ?_, kept.waiting, kept.tree, fun r mem => ?_⟩
  · rw [List.map_append, List.map_append, nodes]
  · rw [List.flatMap_append, List.flatMap_append, List.flatMap_def (l := batch), List.flatMap_def (l := batch'), owned]
  · obtain mem | mem := List.mem_append.1 mem
    · obtain ⟨req, here, index, rfl⟩ := forall₂_mem_right all mem
      exact { turned.running req (List.mem_append_left _ here) with }
    · exact turned.running r (List.mem_append_right _ mem)
  · obtain mem | mem := List.mem_append.1 mem
    · obtain ⟨req, here, index, rfl⟩ := forall₂_mem_right all mem
      exact turned.right req (List.mem_append_left _ here)
    · exact turned.right r (List.mem_append_right _ mem)

theorem Kept.extend (kept : Kept layer size s) {batch rest : List (Req ε τ)} (turn : s.running.Perm (batch ++ rest))
    (stashed : ∀ req ∈ batch, req.kvCommittedLen ≤ req.cacheProtectedLen) {pick : Nat → Nat} {result : Pool ε τ × List (Req ε τ)}
    (run : prepareForExtend s.pool pick batch = .ok result) :
    Kept layer size { s with
      pool := result.1, running := result.2 ++ rest, memory := result.2.foldl (Req.forwardExtend layer) s.memory } := by
  obtain ⟨⟨batch', pool⟩, sit, run⟩ := Py.bind_eq_ok.1 run
  obtain ⟨out, alloc, run⟩ := Py.bind_eq_ok.1 run
  obtain ⟨_, check, run⟩ := Py.bind_eq_ok.1 run
  obtain rfl := Except.ok.inj run
  obtain ⟨-, rfl, rfl⟩ := allocReqSlots_eq_ok.1 sit
  have all := select_seated (s.pool.reqToTokenPool.freeSlots.take (rowless batch)) batch
  have lengths := map_eq_of_forall₂ all (g := fun req => (req.fillIds.drop req.prefixIndices.length).length)
    (h := fun req => (req.fillIds.drop req.prefixIndices.length).length) fun req req' seated => by
      obtain ⟨index, rfl⟩ := seated
      rfl
  rw [← lengths] at alloc
  refine (kept.seated turn all _).fill (.refl _) (fun req mem => ?_) alloc check
  obtain ⟨req, here, index, rfl⟩ := forall₂_mem_right all mem
  exact stashed req here

/-- A decode of a request, whose token may be unknown to the host. -/
def DecodedFrom (req req' : Req ε τ) : Prop :=
  ∃ future loc, req.kvCommittedLen < (req.allIds ++ future.toList).length ∧
    (∀ token, future = some token → req.kvCommittedLen = req.allIds.length) ∧ Decoded { req with future } req' loc

/-- The slot of the last committed token, and those before it. -/
def Req.lastSlot (req : Req ε τ) : List Nat := req.committedSlots.drop (req.kvCommittedLen - 1)

def Req.earlierSlots (req : Req ε τ) : List Nat := req.committedSlots.take (req.kvCommittedLen - 1)

section Decode

omit [DecidableEq ε] [DecidableEq τ]

variable {tree : Cache (ε × τ) Nat} {req req' : Req ε τ}

theorem Req.Running.committed_within (running : req.Running tree) : req.kvCommittedLen ≤ req.reqToToken.length := by
  have row := running.row
  omega

theorem Decoded.slots {future : Option τ} {loc : Nat} (decoded : Decoded { req with future } req' loc) (running : req.Running tree) :
    req'.earlierSlots = req.committedSlots ∧ req'.lastSlot = [loc] ∧ req'.committedSlots = req.committedSlots ++ [loc] := by
  have within := running.committed_within
  have length : (req.reqToToken.take req.kvCommittedLen).length = req.kvCommittedLen := by
    rw [List.length_take, Nat.min_eq_left within]
  have row := decoded.row
  unfold Req.earlierSlots Req.lastSlot Req.committedSlots
  rw [decoded.rest]
  dsimp only at row ⊢
  rw [row, Nat.add_sub_cancel]
  conv_lhs => rw [← length]
  refine ⟨?_, ?_, rfl⟩
  · rw [length, List.take_append_of_le_length length.ge, List.take_take, Nat.min_self]
  · exact List.drop_left' length

theorem decodeBatch_spec {batch fed : List (Req ε τ)} (feed : List.Forall₂ Req.Fed batch fed)
    (before : ∀ req ∈ batch, req.Running tree ∧ 0 < req.kvCommittedLen ∧ req.future = none) {out : List Nat}
    (length : out.length = fed.length) :
    List.Forall₂ DecodedFrom batch (List.zipWith writeDecodeIndex fed out) ∧
      (List.zipWith writeDecodeIndex fed out).flatMap Req.lastSlot = out ∧
      ((List.zipWith writeDecodeIndex fed out).flatMap Req.owned).Perm (out ++ batch.flatMap Req.owned) := by
  induction feed generalizing out with
  | nil =>
    obtain rfl := List.eq_nil_of_length_eq_zero length
    exact ⟨.nil, rfl, .refl _⟩
  | @cons req _ batch _ head _ ih =>
    obtain ⟨loc, out, rfl⟩ := List.exists_cons_of_length_eq_add_one length
    obtain ⟨running, extended, processed⟩ := before _ (List.mem_cons_self ..)
    obtain ⟨future, rfl, fed, all⟩ := head.spec running processed
    have decoded := decoded_of_row { req with future } running.committed_within loc
    obtain ⟨rest, lasts, owned⟩ := ih (fun r mem => before r (List.mem_cons_of_mem _ mem)) (Nat.succ.inj length)
    rw [List.zipWith_cons_cons, List.flatMap_cons, List.flatMap_cons, List.flatMap_cons, lasts, (decoded.slots running).2.1,
      decoded.owned running extended]
    refine ⟨.cons ⟨future, loc, fed, all, decoded⟩ rest, rfl, ?_⟩
    refine List.perm_iff_count.2 fun slot => ?_
    have count := List.perm_iff_count.1 owned slot
    simp only [List.count_append, List.count_cons, List.count_nil] at count ⊢
    omega

/-- The pass of a decoded request. -/
theorem DecodedFrom.pass {layer : List K → ε × τ → K} {memory memory' : Nat → K} (decoded : DecodedFrom req req')
    (running : req.Running tree)
    (processed : req.future = none) (right : ReqRight layer memory req) (apart : ∀ slot ∈ req.committedSlots, slot ∉ req'.lastSlot)
    (same : req'.earlierSlots.map memory' = req'.earlierSlots.map memory) :
    (req'.earlierSlots ++ req'.lastSlot).map (Req.forwardDecode layer memory' req') = compute layer req'.committedKey ∧
      ∀ slot, slot ∉ req'.lastSlot → Req.forwardDecode layer memory' req' slot = memory' slot := by
  obtain ⟨future, loc, fed, _, decoded⟩ := decoded
  obtain ⟨earlier, last, all⟩ := decoded.slots running
  have within := running.committed_within
  have committed : req'.kvCommittedLen = req.kvCommittedLen + 1 := by rw [decoded.rest]
  have known : req'.knownIds = req.allIds ++ future.toList := by
    rw [decoded.rest]
    rfl
  have le := running.committed_le processed
  have before : req.committedKey = req'.radixKey (req'.knownIds.take req.kvCommittedLen) := by
    rw [known, Req.committedKey, Req.knownIds, processed, Option.toList_none, List.append_nil, List.take_append_of_le_length le, decoded.rest]
    rfl
  have key : req.committedKey ++ req'.radixKey ((req'.knownIds.drop req.kvCommittedLen).take 1) = req'.committedKey := by
    rw [before, Req.committedKey, committed, List.take_add]
    exact List.map_append.symm
  have length : req.committedSlots.length = req.kvCommittedLen := by
    rw [Req.committedSlots, List.length_take, Nat.min_eq_left within]
  have whole : req'.reqToToken = req.committedSlots ++ [loc] ++ req'.reqToToken.drop req'.kvCommittedLen := by
    rw [← all, Req.committedSlots, List.take_append_drop]
  have count : [loc].length = (req'.radixKey ((req'.knownIds.drop req.kvCommittedLen).take 1)).length := by
    rw [Req.radixKey_length, List.length_take, List.length_drop, known, List.length_singleton]
    omega
  rw [earlier] at same
  rw [last] at apart
  have done := forward_spec (req'.reqToToken.drop req'.kvCommittedLen) count (List.nodup_singleton loc) apart (same.trans right)
  rw [← whole, key, length] at done
  unfold Req.forwardDecode
  rw [earlier, last, committed, Nat.add_sub_cancel]
  exact done

end Decode

theorem Kept.decode (kept : Kept layer size s) {batch fed rest : List (Req ε τ)} (turn : s.running.Perm (batch ++ rest))
    (extended : ∀ req ∈ batch, 0 < req.kvCommittedLen ∧ req.future = none) (feed : List.Forall₂ Req.Fed batch fed) {pick : Nat → Nat}
    {result : Pool ε τ × List (Req ε τ)} (run : prepareForDecode s.pool pick fed = .ok result) :
    Kept layer size { s with
      pool := result.1, running := result.2 ++ rest, memory := result.2.foldl (Req.forwardDecode layer) s.memory } := by
  obtain ⟨out, alloc, run⟩ := Py.bind_eq_ok.1 run
  obtain rfl := Except.ok.inj run
  obtain ⟨length, allocated⟩ := kept.allocated turn alloc
  have before (req : Req ε τ) (mem : req ∈ batch) := allocated.running req (List.mem_append_left _ mem)
  obtain ⟨all, lasts, owned⟩ := decodeBatch_spec feed (fun req mem => ⟨before req mem, extended req mem⟩) length
  dsimp only
  generalize List.zipWith writeDecodeIndex fed out.1 = batch' at all lasts owned ⊢
  have fresh {req : Req ε τ} (mem : req ∈ batch) {slot : Nat} (here : slot ∈ req.committedSlots) : slot ∉ batch'.flatMap Req.lastSlot := by
    rw [lasts]
    obtain cached | own := (before req mem).reads allocated.ok.sound.toSized here
    · exact allocated.cached slot cached
    · exact allocated.owned req (List.mem_append_left _ mem) slot own
  have nodup := allocated.nodup
  rw [← lasts] at nodup
  obtain ⟨done, frame⟩ := foldl_forward (Req.forwardDecode layer) Req.earlierSlots Req.lastSlot
    (fun req => compute layer req.committedKey) s.memory
    (fun req' mem memory' same => by
      obtain ⟨req, here, decoded⟩ := forall₂_mem_right all mem
      refine decoded.pass (before req here) (extended req here).2 (allocated.right req (List.mem_append_left _ here)) (fun slot own into => ?_)
        same
      exact fresh here own (List.mem_flatMap.2 ⟨req', mem, into⟩))
    nodup fun req' mem slot own => by
      obtain ⟨req, here, _, _, _, _, decoded⟩ := forall₂_mem_right all mem
      rw [(decoded.slots (before req here)).1] at own
      exact fresh here own
  rw [lasts] at frame
  refine allocated.kept kept.waiting ?_ owned (fun req' mem => ?_) (fun req' mem => ?_) frame
  · exact map_eq_of_forall₂ all fun req req' ⟨_, _, _, _, decoded⟩ => by rw [decoded.rest]
  · obtain ⟨req, here, _, _, fed, known, decoded⟩ := forall₂_mem_right all mem
    exact decoded.running (before req here) (extended req here).1 fed known
  · obtain ⟨req, here, _, _, _, _, decoded⟩ := forall₂_mem_right all mem
    obtain ⟨earlier, last, slots⟩ := decoded.slots (before req here)
    rw [ReqRight, ← done req' mem, earlier, last, slots]

/-- Every step keeps the invariant. -/
theorem Kept.step (kept : Kept layer size s) (step : Step layer s t) : Kept layer size t := by
  cases step with
  | arrive =>
    refine kept.wait fun r mem => ?_
    obtain rfl | mem := List.mem_cons.1 mem
    · exact ⟨rfl, rfl, rfl, rfl, rfl⟩
    · exact kept.waiting r mem
  | lookup key run => exact kept.lookup run
  | passOver turn init => exact kept.passOver turn init
  | addReq turn _ init add => exact kept.addReq turn init add
  | extend turn stashed _ run => exact kept.extend turn stashed run
  | decode turn extended feed _ run => exact kept.decode turn extended feed run
  | sample turn token same => exact kept.sample turn token same
  | stash turn run => exact kept.stash turn run
  | chunk turn => exact kept.chunk turn _
  | chunkDone turn chunked => exact kept.chunk turn _
  | resume turn remTokens => exact kept.resume turn remTokens
  | finish turn processed _ run => exact (kept.finish turn processed run).1
  | retract turn processed _ _ run evict => exact kept.retract turn processed run evict
  | freeGroupBegin outside =>
    exact kept.allocator kept.pool.direct rfl (List.Perm.of_eq (Allocator.freeGroupBegin_owned outside))
  | freeGroupEnd inside =>
    obtain ⟨direct, sized⟩ := Allocator.freeGroupEnd_direct kept.pool.direct
    exact kept.allocator direct sized (Allocator.freeGroupEnd_owned inside)

theorem Reachable.kept {needSort : Bool} (reached : Reachable layer size needSort s) : Kept layer size s := by
  induction reached with
  | init maxNumReqs memory => exact kept_init maxNumReqs size needSort memory
  | step _ step ih => exact ih.step step

/-! ## A shared prefix -/

def sumLayer (kv : List Nat) (x : Unit × Nat) : Nat := kv.sum + x.2

/-- A request that finishes. -/
def sharedReq : Req Unit Nat :=
  { Req.new [7, 8] () false 0 with
    reqPoolIdx := some 0, fillIds := [7, 8], extendInputLen := 2, kvCommittedLen := 2, kvAllocatedLen := 2, reqToToken := [1, 2] }

/-- A request that starts with the same tokens. -/
def sharingReq : Req Unit Nat :=
  { Req.new [7, 8, 9] () false 0 with
    reqPoolIdx := some 1, fillIds := [7, 8, 9], prefixIndices := [1, 2], lastNode := [((), 7), ((), 8)], cacheProtectedLen := 2, extendInputLen := 1,
    kvCommittedLen := 3, kvAllocatedLen := 3, reqToToken := [1, 2, 3] }

def sharingState : State Unit Nat Nat where
  pool := ⟨⟨2, [0]⟩, ⟨4, false, [4], [], true, []⟩, ⟨[⟨[((), 7), ((), 8)], 0, [1, 2], 1⟩], 0, 2, []⟩⟩
  waiting := []
  running := [sharingReq]
  memory := Req.forwardExtend sumLayer (Req.forwardExtend sumLayer (fun _ => 0) sharedReq) sharingReq

theorem sharing_reachable : Reachable sumLayer 4 false sharingState := by
  have start : Reachable sumLayer 4 false (State.init 2 4 false fun _ => 0) := .init ..
  have admitted := (start.step (.arrive _ [7, 8] () false 0)).step (.addReq _ (.refl _) none rfl rfl)
  have extended := admitted.step (.extend _ (.of_eq (List.append_nil _).symm) (by decide) id rfl)
  have finished := extended.step (.finish _ (.refl _) rfl true rfl)
  have again := (finished.step (.arrive _ [7, 8, 9] () false 0)).step (.addReq _ (.refl _) none rfl rfl)
  have shared := again.step (.extend _ (.of_eq (List.append_nil _).symm) (by decide) id rfl)
  exact shared

/-! ## What holds in every state -/

/-- One running request and the others. -/
theorem Kept.single (kept : Kept layer size s) {req : Req ε τ} (mem : req ∈ s.running) :
    ∃ rest, s.running.Perm (req :: rest) ∧ s.pool.Ok size (req.lastNode :: rest.map Req.lastNode) (req.owned ++ rest.flatMap Req.owned) := by
  obtain ⟨a, b, eq⟩ := List.append_of_mem mem
  have turn : s.running.Perm (req :: (a ++ b)) := eq ▸ List.perm_middle
  exact ⟨a ++ b, turn, (kept.turn (show s.running.Perm ([req] ++ _) from turn)).pool⟩

theorem Kept.uncached (kept : Kept layer size s) (extended : ∀ req ∈ s.running, req.cacheProtectedLen ≤ req.kvAllocatedLen) :
    getBatchUncachedSize s.running = .ok ((s.running.flatMap Req.owned).length : Int) := by
  have flags : (s.running.all fun req => req.kvCommittedFreed == req.kvOverallocatedFreed) = true := by
    refine List.all_eq_true.2 fun req mem => ?_
    rw [(kept.running req mem).committedFreed, (kept.running req mem).overallocatedFreed]
    rfl
  have each : (s.running.map fun req => if req.kvCommittedFreed then 0 else (req.kvAllocatedLen : Int) - req.cacheProtectedLen) =
      (s.running.map fun req => req.owned.length).map Nat.cast := by
    rw [List.map_map]
    refine List.map_congr_left fun req mem => ?_
    have le := extended req mem
    rw [Function.comp_apply, (kept.running req mem).committedFreed, (kept.running req mem).owned_length]
    simp only [Bool.false_eq_true, if_false]
    exact (Nat.cast_sub le).symm
  unfold getBatchUncachedSize
  rw [flags, pyAssert_true, Py.ok_bind, each, List.length_flatMap, Nat.cast_list_sum]

/-- **No slot is lost or shared**: it is free, in the cache, or owned by one running request. A node of the
cache is locked by the running requests below it, and the checks of the memory find no leak. -/
theorem slots_conserved {needSort : Bool} (reached : Reachable layer size needSort s) :
    (s.pool.allocator.owned ++ s.pool.tree.values ++ s.running.flatMap Req.owned).Perm (List.range' 1 size) ∧
      (∀ node ∈ s.pool.tree.nodes, node.lockRef = s.running.countP fun req => node.path <+: req.lastNode) ∧
      (s.pool.allocator.isNotInFreeGroup = true →
        ((∀ req ∈ s.running, req.cacheProtectedLen ≤ req.kvAllocatedLen) → selfCheckDuringBusy s.pool s.running = .ok ()) ∧
          (s.running = [] → checkRadixCacheMemory s.pool = false)) := by
  have kept := reached.kept
  refine ⟨kept.pool.conserved, fun node mem => ?_, fun outside => ⟨fun extended => ?_, fun idle => ?_⟩⟩
  · rw [kept.pool.locked.locks node mem, List.countP_map]
    rfl
  · have total := kept.pool.total outside
    have sized := kept.pool.sized
    unfold selfCheckDuringBusy
    rw [kept.uncached extended, Py.ok_bind, sized, ← total, beq_self_eq_true]
    rfl
  · have total := kept.pool.total outside
    rw [idle, List.flatMap_nil, List.length_nil, Nat.cast_zero, add_zero] at total
    have sized := kept.pool.sized
    unfold checkRadixCacheMemory
    rw [bne_eq_false_iff_eq, sized]
    omega

/-- Slot 4 is free, the shared ones are in the cache in one node that the request locks, and the check finds them all. -/
theorem slots_conserved_sharing : ([4] ++ [1, 2] ++ [3]).Perm (List.range' 1 4) ∧
    (∀ node ∈ sharingState.pool.tree.nodes, node.lockRef = 1) ∧ selfCheckDuringBusy sharingState.pool sharingState.running = .ok () := by
  obtain ⟨conserved, locks, checks⟩ := slots_conserved sharing_reachable
  refine ⟨conserved, fun node mem => ?_, (checks rfl).1 (by decide)⟩
  have lock := locks node mem
  obtain rfl := List.mem_singleton.1 mem
  rw [lock]
  rfl

/-- **Sharing is invisible**: what a running request reads for its tokens, and what it was given for its
prefix, is what computing its own tokens from the start gives; so is what the cache keeps. -/
theorem reads_own_tokens {needSort : Bool} (reached : Reachable layer size needSort s) :
    (∀ req ∈ s.running,
      (req.reqToToken.take req.kvCommittedLen).map s.memory = compute layer (req.radixKey (req.knownIds.take req.kvCommittedLen)) ∧
        req.prefixIndices.map s.memory = compute layer (req.radixKey (req.allIds.take req.cacheProtectedLen))) ∧
      ∀ e ∈ s.pool.tree.entries, (compute layer e.1).getLast? = some (s.memory e.2) := by
  have kept := reached.kept
  refine ⟨fun req mem => ⟨kept.right req mem, ?_⟩, kept.tree⟩
  rw [← (kept.running req mem).node]
  exact kept.tree.along (kept.running req mem).along

theorem reads_own_tokens_sharing :
    [1, 2, 3].map sharingState.memory = compute sumLayer [((), 7), ((), 8), ((), 9)] ∧
      [1, 2].map sharingState.memory = compute sumLayer [((), 7), ((), 8)] := by
  obtain ⟨tokens, pre⟩ := (reads_own_tokens sharing_reachable).1 sharingReq (List.mem_singleton_self _)
  exact ⟨tokens, pre⟩

end Steps

end SlimeBoard.KvPool
