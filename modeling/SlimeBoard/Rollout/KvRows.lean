import SlimeBoard.Rollout.KvRuns

/-!
# The rows of the requests

A row is free, or one running request has it, and a request that has been extended has one. So a step
raises for want of rows or slots only.
-/

namespace SlimeBoard.KvPool

open Memo RadixCache RadixCache.Cache

variable {ε τ K : Type}

/-! ## Where the rows are -/

section Rows

variable {rows rows' : ReqToTokenPool} {waiting running rest : List (Req ε τ)} {req req' : Req ε τ}

/-- **A row is free, or one running request has it**; a request that has been extended has one, one that waits has none. -/
structure Housed (rows : ReqToTokenPool) (waiting running : List (Req ε τ)) : Prop where
  rows : (rows.freeSlots ++ running.filterMap Req.reqPoolIdx).Perm (List.range rows.size)
  running : ∀ req ∈ running, 0 < req.kvCommittedLen → req.reqPoolIdx.isSome
  waiting : ∀ req ∈ waiting, req.reqPoolIdx = none

theorem housed_init (maxNumReqs : Nat) : Housed (.clear maxNumReqs) ([] : List (Req ε τ)) [] := by
  refine ⟨?_, nofun, nofun⟩
  rw [List.filterMap_nil, List.append_nil]
  exact .refl _

namespace Housed

variable (housed : Housed rows waiting running)

include housed

theorem turn (turn : running.Perm rest) : Housed rows waiting rest :=
  ⟨((turn.symm.filterMap _).append_left _).trans housed.rows, fun r mem => housed.running r (turn.mem_iff.2 mem), housed.waiting⟩

theorem wait {waiting' : List (Req ε τ)} (none : ∀ req ∈ waiting', req.reqPoolIdx = none) : Housed rows waiting' running :=
  ⟨housed.rows, housed.running, none⟩

/-- A request is admitted, without a row. -/
theorem enter (row : req.reqPoolIdx = none) (committed : req.kvCommittedLen = 0) : Housed rows waiting (req :: running) := by
  refine ⟨?_, fun r mem some => ?_, housed.waiting⟩
  · rw [List.filterMap_cons_none row]
    exact housed.rows
  · obtain rfl | mem := List.mem_cons.1 mem
    · omega
    · exact housed.running r mem some

/-- A request changes alone. -/
theorem alone (turn : running.Perm (req :: rest)) (row : req'.reqPoolIdx = req.reqPoolIdx)
    (committed : req'.kvCommittedLen = req.kvCommittedLen) : Housed rows waiting (req' :: rest) := by
  obtain ⟨perm, running, waiting⟩ := housed.turn turn
  refine ⟨?_, fun r mem some => ?_, waiting⟩
  · have same : (req' :: rest).filterMap Req.reqPoolIdx = (req :: rest).filterMap Req.reqPoolIdx := by
      rw [List.filterMap_cons, List.filterMap_cons, row]
    rwa [same]
  · obtain rfl | mem := List.mem_cons.1 mem
    · rw [row]
      exact running req (List.mem_cons_self ..) (committed ▸ some)
    · exact running r (List.mem_cons_of_mem _ mem) some

/-- A request gives its row back. -/
theorem leave (turn : running.Perm (req :: rest)) {index : Nat} (row : req.reqPoolIdx = some index) :
    Housed ⟨rows.size, rows.freeSlots ++ [index]⟩ waiting rest := by
  obtain ⟨perm, running, waiting⟩ := housed.turn turn
  refine ⟨?_, fun r mem => running r (List.mem_cons_of_mem _ mem), waiting⟩
  rw [List.filterMap_cons_some row] at perm
  rw [List.append_assoc]
  exact perm

/-- The requests of a batch have rows of their own, old or new ones. -/
theorem batch {batch batch' : List (Req ε τ)} (turn : running.Perm (batch ++ rest)) (size : rows'.size = rows.size)
    (moved : (rows'.freeSlots ++ batch'.filterMap Req.reqPoolIdx).Perm (rows.freeSlots ++ batch.filterMap Req.reqPoolIdx))
    (seated : ∀ req ∈ batch', req.reqPoolIdx.isSome) : Housed rows' waiting (batch' ++ rest) := by
  obtain ⟨perm, running, waiting⟩ := housed.turn turn
  refine ⟨?_, fun r mem some => ?_, waiting⟩
  · rw [List.filterMap_append, ← List.append_assoc] at perm ⊢
    rw [size]
    exact (moved.append_right _).trans perm
  · obtain mem | mem := List.mem_append.1 mem
    · exact seated r mem
    · exact running r (List.mem_append_right _ mem) some

end Housed

/-! ### What the batches do -/

theorem rowless_cons_some (row : req.reqPoolIdx.isSome) (reqs : List (Req ε τ)) : rowless (req :: reqs) = rowless reqs := by
  have kept : (req :: reqs).filter (fun req => req.reqPoolIdx.isSome) = req :: reqs.filter fun req => req.reqPoolIdx.isSome :=
    List.filter_cons_of_pos (p := fun req : Req ε τ => req.reqPoolIdx.isSome) row
  rw [rowless, kept, List.length_cons, List.length_cons, Nat.add_sub_add_right, rowless]

theorem rowless_cons_none (row : ¬req.reqPoolIdx.isSome) (reqs : List (Req ε τ)) : rowless (req :: reqs) = rowless reqs + 1 := by
  have le := List.length_filter_le (fun req : Req ε τ => req.reqPoolIdx.isSome) reqs
  have kept : (req :: reqs).filter (fun req => req.reqPoolIdx.isSome) = reqs.filter fun req => req.reqPoolIdx.isSome :=
    List.filter_cons_of_neg (p := fun req : Req ε τ => req.reqPoolIdx.isSome) row
  rw [rowless, kept, List.length_cons, rowless]
  omega

/-- **Every request of a batch gets a row**, and the new rows are the given ones. -/
theorem select_spec (selectIndex : List Nat) (reqs : List (Req ε τ)) (length : selectIndex.length = rowless reqs) :
    ((ReqToTokenPool.select selectIndex reqs).filterMap Req.reqPoolIdx).Perm (selectIndex ++ reqs.filterMap Req.reqPoolIdx) ∧
      ∀ req ∈ ReqToTokenPool.select selectIndex reqs, req.reqPoolIdx.isSome := by
  induction reqs generalizing selectIndex with
  | nil =>
    obtain rfl := List.eq_nil_of_length_eq_zero length
    exact ⟨.refl _, nofun⟩
  | cons req reqs ih =>
    rw [ReqToTokenPool.select]
    split
    · next row =>
      obtain ⟨index, seat⟩ := Option.isSome_iff_exists.1 row
      obtain ⟨perm, seated⟩ := ih selectIndex (length.trans (rowless_cons_some row reqs))
      refine ⟨?_, List.forall_mem_cons.2 ⟨row, seated⟩⟩
      rw [List.filterMap_cons_some seat, List.filterMap_cons_some seat]
      exact (perm.cons index).trans List.perm_middle.symm
    · next row =>
      obtain ⟨index, others, rfl⟩ := List.exists_cons_of_length_eq_add_one (length.trans (rowless_cons_none row reqs))
      obtain ⟨perm, seated⟩ := ih others (Nat.succ.inj (length.trans (rowless_cons_none row reqs)))
      rw [Option.not_isSome_iff_eq_none] at row
      refine ⟨?_, List.forall_mem_cons.2 ⟨rfl, seated⟩⟩
      rw [List.filterMap_cons_none row]
      exact perm.cons index

theorem writeCacheIndices_rows (out : List Nat) (reqs : List (Req ε τ)) :
    (writeCacheIndices out reqs).map Req.reqPoolIdx = reqs.map Req.reqPoolIdx := by
  induction reqs generalizing out with
  | nil => rfl
  | cons req reqs ih => rw [writeCacheIndices, List.map_cons, List.map_cons, ih]

theorem writeDecodeIndex_rows {batch fed : List (Req ε τ)} (feed : List.Forall₂ Req.Fed batch fed) {out : List Nat}
    (length : out.length = fed.length) : (List.zipWith writeDecodeIndex fed out).map Req.reqPoolIdx = batch.map Req.reqPoolIdx := by
  induction feed generalizing out with
  | nil => rfl
  | @cons req req' batch fed head _ ih =>
    obtain ⟨loc, out, rfl⟩ := List.exists_cons_of_length_eq_add_one length
    have row : req'.reqPoolIdx = req.reqPoolIdx := by
      unfold Req.Fed at head
      split at head
      · rw [head]
      · obtain ⟨token, rfl⟩ := head
        rfl
    rw [List.zipWith_cons_cons, List.map_cons, List.map_cons, ih (Nat.succ.inj length), ← row]
    rfl

theorem rows_of_map {xs ys : List (Req ε τ)} (same : xs.map Req.reqPoolIdx = ys.map Req.reqPoolIdx) :
    xs.filterMap Req.reqPoolIdx = ys.filterMap Req.reqPoolIdx ∧
      ((∀ req ∈ ys, req.reqPoolIdx.isSome) → ∀ req ∈ xs, req.reqPoolIdx.isSome) := by
  constructor
  · have both := congrArg (List.filterMap id) same
    rwa [List.filterMap_map, List.filterMap_map] at both
  · intro seated req mem
    have there : req.reqPoolIdx ∈ ys.map Req.reqPoolIdx := same ▸ List.mem_map_of_mem mem
    obtain ⟨other, here, row⟩ := List.mem_map.1 there
    rw [← row]
    exact seated other here

end Rows

/-! ## The steps of the scheduler -/

section Steps

variable [DecidableEq ε] [DecidableEq τ] {layer : List K → ε × τ → K} {size : Nat} {s t : State ε τ K}

theorem Housed.extend (kept : Kept layer size s) (housed : Housed s.pool.reqToTokenPool s.waiting s.running)
    {batch rest : List (Req ε τ)} (turn : s.running.Perm (batch ++ rest)) {pick : Nat → Nat} {result : Pool ε τ × List (Req ε τ)}
    (run : prepareForExtend s.pool pick batch = .ok result) :
    Housed result.1.reqToTokenPool s.waiting (result.2 ++ rest) := by
  obtain ⟨⟨batch', pool⟩, sit, run⟩ := Py.bind_eq_ok.1 run
  obtain ⟨out, alloc, run⟩ := Py.bind_eq_ok.1 run
  obtain ⟨_, -, run⟩ := Py.bind_eq_ok.1 run
  obtain rfl := Except.ok.inj run
  obtain ⟨seatable, rfl, rfl⟩ := allocReqSlots_eq_ok.1 sit
  have enough := seatable.enough
  obtain ⟨-, -, shrunk⟩ := allocTokenSlots_spec (kept.pool.seat _) pick _ alloc
  obtain ⟨perm, seated⟩ := select_spec (s.pool.reqToTokenPool.freeSlots.take (rowless batch)) batch (by
    rw [List.length_take]
    omega)
  obtain ⟨same, all⟩ := rows_of_map (writeCacheIndices_rows out.1
    (ReqToTokenPool.select (s.pool.reqToTokenPool.freeSlots.take (rowless batch)) batch))
  refine housed.batch turn ?_ ?_ (all seated)
  · rw [shrunk.rows]
  · rw [same, shrunk.rows]
    refine ((perm.append_left _).trans (List.perm_append_comm_assoc ..)).trans (List.Perm.of_eq ?_)
    rw [← List.append_assoc, List.take_append_drop]

theorem Housed.decode (kept : Kept layer size s) (housed : Housed s.pool.reqToTokenPool s.waiting s.running)
    {batch fed rest : List (Req ε τ)} (turn : s.running.Perm (batch ++ rest))
    (extended : ∀ req ∈ batch, 0 < req.kvCommittedLen ∧ req.future = none) (feed : List.Forall₂ Req.Fed batch fed) {pick : Nat → Nat}
    {result : Pool ε τ × List (Req ε τ)} (run : prepareForDecode s.pool pick fed = .ok result) :
    Housed result.1.reqToTokenPool s.waiting (result.2 ++ rest) := by
  obtain ⟨out, alloc, run⟩ := Py.bind_eq_ok.1 run
  obtain rfl := Except.ok.inj run
  obtain ⟨length, -, shrunk⟩ := allocTokenSlots_spec kept.pool pick _ alloc
  obtain ⟨same, all⟩ := rows_of_map (writeDecodeIndex_rows feed length)
  refine housed.batch turn ?_ ?_ (all fun req mem => ?_)
  · rw [shrunk.rows]
  · rw [same, shrunk.rows]
  · exact housed.running req (turn.mem_iff.2 (List.mem_append_left _ mem)) (extended req mem).1

/-- A request that is released gives its row back. -/
theorem Housed.finish (kept : Kept layer size s) (housed : Housed s.pool.reqToTokenPool s.waiting s.running) {req : Req ε τ}
    {rest : List (Req ε τ)} (turn : s.running.Perm (req :: rest)) (processed : req.future = none) {isInsert : Bool}
    {result : Pool ε τ × Req ε τ} (run : s.pool.releaseKvCache req isInsert = .ok result) :
    Housed result.1.reqToTokenPool s.waiting rest ∧ result.2.reqPoolIdx = none := by
  have mem := turn.mem_iff.2 (List.mem_cons_self ..)
  have turned := kept.turn (show s.running.Perm ([req] ++ _) from turn)
  obtain ⟨index, row⟩ := Option.isSome_iff_exists.1 (releaseKvCache_row run)
  obtain ⟨pool', run', -, rows⟩ := releaseKvCache_spec (kept.running req mem) processed isInsert turned.pool row
  obtain rfl := Except.ok.inj (run'.symm.trans run)
  refine ⟨?_, rfl⟩
  dsimp only
  rw [rows]
  exact housed.leave turn row

/-- Every step keeps the rows. -/
theorem Housed.step (kept : Kept layer size s) (housed : Housed s.pool.reqToTokenPool s.waiting s.running) (step : Step layer s t) :
    Housed t.pool.reqToTokenPool t.waiting t.running := by
  cases step with
  | arrive => exact housed.wait (List.forall_mem_cons.2 ⟨rfl, housed.waiting⟩)
  | lookup key run => exact housed
  | @passOver req waiting turn matched init =>
    have idle := kept.waiting req (turn.mem_iff.2 (List.mem_cons_self ..))
    obtain ⟨tree', req', run, -, -, -, -, rest, -⟩ := initNextRoundInput_spec idle kept.pool
    obtain rfl := Except.ok.inj (run.symm.trans init)
    refine housed.wait (List.forall_mem_cons.2 ⟨?_, fun r mem => ?_⟩)
    · rw [rest.rest]
      exact housed.waiting req (turn.mem_iff.2 (List.mem_cons_self ..))
    · exact housed.waiting r (turn.mem_iff.2 (List.mem_cons_of_mem _ mem))
  | @addReq req waiting turn remChunkTokens matched added init add =>
    have idle := kept.waiting req (turn.mem_iff.2 (List.mem_cons_self ..))
    obtain ⟨tree', req', run, ok, -, isNode, running, rest, measured⟩ := initNextRoundInput_spec idle kept.pool
    obtain rfl := Except.ok.inj (run.symm.trans init)
    obtain ⟨_, run, spec⟩ := addOneReq_spec running isNode measured ok remChunkTokens
    obtain rfl := Except.ok.inj (run.symm.trans add)
    obtain ⟨tree'', pool, -, -, -, rest', -⟩ := spec added rfl
    have waits := housed.wait fun r mem => housed.waiting r (turn.mem_iff.2 (List.mem_cons_of_mem req mem))
    dsimp only
    rw [pool]
    refine waits.enter ?_ ?_
    · rw [rest'.rest, rest.rest]
      exact housed.waiting req (turn.mem_iff.2 (List.mem_cons_self ..))
    · rw [rest'.rest, rest.rest]
      exact idle.committed
  | extend turn stashed pick run => exact housed.extend kept turn run
  | decode turn extended feed pick run => exact housed.decode kept turn extended feed run
  | sample turn token same => exact housed.alone turn rfl rfl
  | @stash req rest turn result run =>
    have mem := turn.mem_iff.2 (List.mem_cons_self ..)
    have turned := kept.turn (show s.running.Perm ([req] ++ _) from turn)
    obtain ⟨pool', req', run', -, same, -, stashed, -⟩ :=
      cacheUnfinishedReq_spec (kept.running req mem) turned.pool (cacheUnfinishedReq_row run)
    obtain rfl := Except.ok.inj (run'.symm.trans run)
    dsimp only
    rw [same.rows]
    refine housed.alone turn ?_ ?_
    · rw [stashed.rest]
    · rw [stashed.rest]
  | chunk turn => exact housed.alone turn rfl rfl
  | chunkDone turn chunked => exact housed.alone turn rfl rfl
  | resume turn remTokens => exact housed.alone turn rfl rfl
  | finish turn processed isInsert run => exact (housed.finish kept turn processed run).1
  | retract turn processed pick numTokens run evict =>
    obtain ⟨released, -⟩ := kept.finish turn processed run
    obtain ⟨left, row⟩ := housed.finish kept turn processed run
    obtain ⟨pool', run', -, shrunk, -⟩ := evictFromTreeCache_spec released.pool pick numTokens
    obtain rfl := Except.ok.inj (run'.symm.trans evict)
    dsimp only
    rw [shrunk.rows]
    exact left.wait (List.forall_mem_cons.2 ⟨row, housed.waiting⟩)
  | freeGroupBegin outside => exact housed
  | freeGroupEnd inside => exact housed

/-- **In every state that the scheduler reaches a row is free, or one running request has it.** -/
theorem Reachable.housed {needSort : Bool} (reached : Reachable layer size needSort s) :
    Housed s.pool.reqToTokenPool s.waiting s.running := by
  induction reached with
  | init maxNumReqs memory => exact housed_init maxNumReqs
  | step before step ih => exact ih.step before.kept step

/-! ## What raises -/

/-- An extend gets its rows and slots exactly if there are enough, and the lengths are as they were measured. -/
theorem prepareForExtend_isOk {pool : Pool ε τ} {held : List (List (ε × τ))} {slots : List Nat} (ok : pool.Ok size held slots)
    (outside : pool.allocator.isNotInFreeGroup = true) (pick : Nat → Nat) (batch : List (Req ε τ)) :
    (∃ result, prepareForExtend pool pick batch = .ok result) ↔
      Seatable pool.reqToTokenPool batch ∧
        ((batch.map fun req => (req.fillIds.drop req.prefixIndices.length).length).sum : Nat) ≤
          pool.allocator.availableSize + pool.tree.evictableSize ∧
        ∀ req ∈ batch, req.fillIds.length - req.prefixIndices.length = req.extendInputLen := by
  -- the rows change nothing of the slots
  have enough := allocTokenSlots_isOk
    (ok.seat ⟨pool.reqToTokenPool.size, pool.reqToTokenPool.freeSlots.drop (rowless batch)⟩) outside pick
    (batch.map fun req => (req.fillIds.drop req.prefixIndices.length).length).sum
  have checks := map_eq_of_forall₂ (select_seated (pool.reqToTokenPool.freeSlots.take (rowless batch)) batch)
    (g := fun req => req.fillIds.length - req.prefixIndices.length == req.extendInputLen)
    (h := fun req => req.fillIds.length - req.prefixIndices.length == req.extendInputLen) fun req req' seated => by
      obtain ⟨index, rfl⟩ := seated
      rfl
  have measured : ((ReqToTokenPool.select (pool.reqToTokenPool.freeSlots.take (rowless batch)) batch).all
      fun req => req.fillIds.length - req.prefixIndices.length == req.extendInputLen) = true ↔
      ∀ req ∈ batch, req.fillIds.length - req.prefixIndices.length = req.extendInputLen := by
    have same := congrArg (fun bs => bs.all id) checks
    simp only [List.all_map] at same
    refine (Bool.eq_iff_iff.1 same).trans ?_
    simp only [List.all_eq_true, Function.comp_apply, id_eq, beq_iff_eq]
  rw [← measured]
  constructor
  · rintro ⟨result, run⟩
    obtain ⟨⟨batch', pool⟩, sit, run⟩ := Py.bind_eq_ok.1 run
    obtain ⟨out, alloc, run⟩ := Py.bind_eq_ok.1 run
    obtain ⟨_, check, -⟩ := Py.bind_eq_ok.1 run
    obtain ⟨seatable, rfl, rfl⟩ := allocReqSlots_eq_ok.1 sit
    exact ⟨seatable, enough.1 ⟨out, alloc⟩, pyAssert_eq_ok check⟩
  · rintro ⟨seatable, fits, measured⟩
    obtain ⟨out, alloc⟩ := enough.2 fits
    refine ⟨(out.2, writeCacheIndices out.1 (ReqToTokenPool.select (pool.reqToTokenPool.freeSlots.take (rowless batch)) batch)),
      Py.bind_eq_ok.2 ⟨_, seatable.allocReqSlots, Py.bind_eq_ok.2 ⟨out, alloc, ?_⟩⟩⟩
    rw [measured]
    rfl

/-- A decode gets its slots exactly if there are enough. -/
theorem prepareForDecode_isOk {pool : Pool ε τ} {held : List (List (ε × τ))} {slots : List Nat} (ok : pool.Ok size held slots)
    (outside : pool.allocator.isNotInFreeGroup = true) (pick : Nat → Nat) (batch : List (Req ε τ)) :
    (∃ result, prepareForDecode pool pick batch = .ok result) ↔
      (batch.length : Int) ≤ pool.allocator.availableSize + pool.tree.evictableSize := by
  rw [← allocTokenSlots_isOk ok outside pick batch.length]
  constructor
  · rintro ⟨result, run⟩
    obtain ⟨out, alloc, _⟩ := Py.bind_eq_ok.1 run
    exact ⟨out, alloc⟩
  · rintro ⟨out, alloc⟩
    exact ⟨_, Py.bind_eq_ok.2 ⟨out, alloc, rfl⟩⟩

/-- **A step raises for want of rows or slots only.** A waiting request can be admitted, and evicting works; a running
request can be stashed or released exactly if it has a row, which it has once it was extended. A batch is extended exactly
if there are rows for it and so many slots are free or can be evicted, and decoded exactly if there are the slots. -/
theorem steps_succeed {needSort : Bool} (reached : Reachable layer size needSort s) :
    (∀ req ∈ s.waiting, ∀ remChunkTokens, ∃ matched added,
      s.pool.initNextRoundInput req = .ok matched ∧ matched.1.addOneReq matched.2 remChunkTokens = .ok added) ∧
      (∀ req ∈ s.running, (0 < req.kvCommittedLen → req.reqPoolIdx.isSome) ∧
        ((∃ result, s.pool.cacheUnfinishedReq req = .ok result) ↔ req.reqPoolIdx.isSome) ∧
        (req.future = none → ∀ isInsert, (∃ result, s.pool.releaseKvCache req isInsert = .ok result) ↔ req.reqPoolIdx.isSome)) ∧
      (s.pool.reqToTokenPool.freeSlots ++ s.running.filterMap Req.reqPoolIdx).Perm (List.range s.pool.reqToTokenPool.size) ∧
      (∀ pick numTokens, ∃ pool, s.pool.evictFromTreeCache pick numTokens = .ok pool) ∧
      (s.pool.allocator.isNotInFreeGroup = true → ∀ pick (batch : List (Req ε τ)),
        ((∃ result, prepareForExtend s.pool pick batch = .ok result) ↔
          Seatable s.pool.reqToTokenPool batch ∧
            ((batch.map fun req => (req.fillIds.drop req.prefixIndices.length).length).sum : Nat) ≤
              s.pool.allocator.availableSize + s.pool.tree.evictableSize ∧
            ∀ req ∈ batch, req.fillIds.length - req.prefixIndices.length = req.extendInputLen) ∧
          ((∃ result, prepareForDecode s.pool pick batch = .ok result) ↔
            (batch.length : Int) ≤ s.pool.allocator.availableSize + s.pool.tree.evictableSize)) := by
  have kept := reached.kept
  have housed := reached.housed
  refine ⟨fun req mem remChunkTokens => ?_, fun req mem => ⟨housed.running req mem, ?_, fun processed isInsert => ?_⟩, housed.rows,
    fun pick numTokens => ?_, fun outside pick batch => ⟨?_, ?_⟩⟩
  · obtain ⟨tree', req', run, ok, _, isNode, running, _, measured⟩ := initNextRoundInput_spec (kept.waiting req mem) kept.pool
    obtain ⟨added, run', _⟩ := addOneReq_spec running isNode measured ok remChunkTokens
    exact ⟨_, added, run, run'⟩
  · obtain ⟨rest, turn, ok⟩ := kept.single mem
    constructor
    · rintro ⟨result, run⟩
      exact cacheUnfinishedReq_row run
    · intro row
      obtain ⟨pool', req', run, _⟩ := cacheUnfinishedReq_spec (kept.running req mem) ok row
      exact ⟨_, run⟩
  · obtain ⟨rest, turn, ok⟩ := kept.single mem
    constructor
    · rintro ⟨result, run⟩
      exact releaseKvCache_row run
    · intro row
      obtain ⟨index, row⟩ := Option.isSome_iff_exists.1 row
      obtain ⟨pool', run, _⟩ := releaseKvCache_spec (kept.running req mem) processed isInsert ok row
      exact ⟨_, run⟩
  · obtain ⟨pool, run, _⟩ := evictFromTreeCache_spec kept.pool pick numTokens
    exact ⟨pool, run⟩
  · exact prepareForExtend_isOk kept.pool outside pick batch
  · exact prepareForDecode_isOk kept.pool outside pick batch

/-- A request of one token. -/
def shortReq : Req Unit Nat := { Req.new [5] () false 0 with fillIds := [5], extendInputLen := 1 }

/-- The sharing request can be stashed and released; one row is left, so one more request is extended, but not two. -/
theorem steps_succeed_sharing :
    (∃ result, sharingState.pool.cacheUnfinishedReq sharingReq = .ok result) ∧
      (∃ result, sharingState.pool.releaseKvCache sharingReq true = .ok result) ∧
      (∃ result, prepareForExtend sharingState.pool id [shortReq] = .ok result) ∧
      ¬∃ result, prepareForExtend sharingState.pool id [shortReq, shortReq] = .ok result := by
  obtain ⟨-, running, -, -, batches⟩ := steps_succeed sharing_reachable
  obtain ⟨row, stash, release⟩ := running sharingReq (List.mem_singleton_self _)
  refine ⟨stash.2 (row (by decide)), (release rfl true).2 (row (by decide)), ?_, ?_⟩
  · exact (batches rfl id [shortReq]).1.2 ⟨⟨by decide, by decide, by decide⟩, by decide, by decide⟩
  · intro extended
    exact absurd ((batches rfl id [shortReq, shortReq]).1.1 extended).1.enough (by decide)

end Steps

end SlimeBoard.KvPool
