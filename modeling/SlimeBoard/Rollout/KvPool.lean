import SlimeBoard.Lib.Memo
import SlimeBoard.Rollout.RadixCache

/-!
# The KV slots of a serving engine

A slot holds the keys and values of one token. It is free, or in the radix cache, or a running request
owns it; the row of a request lists the slots of its tokens. A request that is admitted shares the slots
of its longest cached prefix and locks them; an extend or a decode gives it new slots, for which the cache
is evicted if there are too few. When a request is stashed or has finished, its slots go to the cache,
less those of tokens that are there already.

Pages have one token, and the rows are as long as the requests need; there is no host cache, no Mamba state, no diffusion
model and no speculative decoding.
-/

namespace SlimeBoard.KvPool

open Memo RadixCache

/-! ## The allocator -/

/-- `TokenToKVPoolAllocator`; the tensors of the free group are concatenated. -/
structure Allocator where
  size : Nat
  needSort : Bool
  freePages : List Nat
  releasePages : List Nat
  isNotInFreeGroup : Bool
  freeGroup : List Nat

namespace Allocator

/-- Slot 0 is for padding. -/
def clear (size : Nat) (needSort : Bool) : Allocator := ⟨size, needSort, List.range' 1 size, [], true, []⟩

variable (a : Allocator)

def availableSize : Nat := a.freePages.length + a.releasePages.length

def mergeAndSortFree : Allocator :=
  if a.releasePages.length > 0 then
    { a with freePages := (a.freePages ++ a.releasePages).mergeSort, releasePages := [] }
  else a

def alloc (needSize : Nat) : Option (List Nat × Allocator) :=
  let a := if a.needSort ∧ needSize > a.freePages.length then a.mergeAndSortFree else a
  if needSize > a.freePages.length then none
  else some (a.freePages.take needSize, { a with freePages := a.freePages.drop needSize })

def free (freeIndex : List Nat) : Allocator :=
  if freeIndex.length = 0 then a
  else if a.isNotInFreeGroup then
    if a.needSort then { a with releasePages := a.releasePages ++ freeIndex }
    else { a with freePages := a.freePages ++ freeIndex }
  else { a with freeGroup := a.freeGroup ++ freeIndex }

def freeGroupBegin : Allocator := { a with isNotInFreeGroup := false, freeGroup := [] }

def freeGroupEnd : Allocator :=
  let a : Allocator := { a with isNotInFreeGroup := true }
  if a.freeGroup ≠ [] then a.free a.freeGroup else a

end Allocator

/-! ## Requests -/

/-- A request. A row of `req_to_token_pool` is one request's, so that its contents `reqToToken` are here. With overlap
scheduling a decode is launched before the token it feeds is known on the host; `future` is that token. The root stands for
no `last_node`. -/
structure Req (ε τ : Type) where
  reqPoolIdx : Option Nat
  isChunked : Nat
  originInputIds : List τ
  outputIds : List τ
  extraKey : ε
  returnLogprob : Bool
  logprobStartLen : Int
  fillIds : List τ
  prefixIndices : List Nat
  lastNode : List (ε × τ)
  cacheProtectedLen : Nat
  extendInputLen : Nat
  kvCommittedLen : Nat
  kvAllocatedLen : Nat
  kvCommittedFreed : Bool
  kvOverallocatedFreed : Bool
  reqToToken : List Nat
  future : Option τ

variable {ε τ K : Type}

namespace Req

def new (originInputIds : List τ) (extraKey : ε) (returnLogprob : Bool) (logprobStartLen : Int) : Req ε τ where
  reqPoolIdx := none
  isChunked := 0
  originInputIds
  outputIds := []
  extraKey
  returnLogprob
  logprobStartLen
  fillIds := []
  prefixIndices := []
  lastNode := []
  cacheProtectedLen := 0
  extendInputLen := 0
  kvCommittedLen := 0
  kvAllocatedLen := 0
  kvCommittedFreed := false
  kvOverallocatedFreed := false
  reqToToken := []
  future := none

variable (req : Req ε τ)

/-- `origin_input_ids + output_ids` -/
def allIds : List τ := req.originInputIds ++ req.outputIds

/-- `RadixKey(token_ids, extra_key)` -/
def radixKey (tokenIds : List τ) : List (ε × τ) := tokenIds.map (req.extraKey, ·)

/-- `reset_for_retract` -/
def resetForRetract : Req ε τ :=
  { req with
    prefixIndices := []
    lastNode := []
    extendInputLen := 0
    isChunked := 0
    kvAllocatedLen := 0
    kvCommittedLen := 0
    kvCommittedFreed := false
    kvOverallocatedFreed := false }

end Req

/-- `row[start : start + len(values)] = values` -/
def write (row : List Nat) (start : Nat) (values : List Nat) : List Nat :=
  row.take start ++ values ++ row.drop (start + values.length)

/-! ## The rows -/

/-- `ReqToTokenPool` -/
structure ReqToTokenPool where
  size : Nat
  freeSlots : List Nat

namespace ReqToTokenPool

def clear (size : Nat) : ReqToTokenPool := ⟨size, List.range size⟩

/-- The loop of `alloc`: a request without a row takes the next index. -/
def select : List Nat → List (Req ε τ) → List (Req ε τ)
  | _, [] => []
  | selectIndex, req :: reqs =>
    if req.reqPoolIdx.isSome then req :: select selectIndex reqs
    else { req with reqPoolIdx := selectIndex.head? } :: select selectIndex.tail reqs

variable (rows : ReqToTokenPool)

def alloc (reqs : List (Req ε τ)) : Py (Option (List (Req ε τ) × ReqToTokenPool)) := do
  let chunked := reqs.filter fun req => req.reqPoolIdx.isSome
  pyAssert (decide (chunked.length ≤ 1))
  pyAssert (chunked.all fun req => decide (req.isChunked > 0 ∨ req.kvCommittedLen > 0))
  let needSize := reqs.length - chunked.length
  if needSize > rows.freeSlots.length then .ok none
  else .ok (some (select (rows.freeSlots.take needSize) reqs, { rows with freeSlots := rows.freeSlots.drop needSize }))

def free (req : Req ε τ) : Py (Req ε τ × ReqToTokenPool) :=
  match req.reqPoolIdx with
  | none => .error .assertionError
  | some reqPoolIdx => .ok ({ req with reqPoolIdx := none }, { rows with freeSlots := rows.freeSlots ++ [reqPoolIdx] })

end ReqToTokenPool

/-- The row that a write goes to; writing to none raises. -/
def Req.rowIndex (req : Req ε τ) : Py Nat :=
  match req.reqPoolIdx with
  | none => .error .runtimeError
  | some reqPoolIdx => .ok reqPoolIdx

/-! ## The pools and the cache -/

structure Pool (ε τ : Type) where
  reqToTokenPool : ReqToTokenPool
  allocator : Allocator
  tree : Cache (ε × τ) Nat

namespace Pool

variable [DecidableEq ε] [DecidableEq τ] (pool : Pool ε τ)

def free (freeIndex : List Nat) : Pool ε τ := { pool with allocator := pool.allocator.free freeIndex }

/-- `evict_from_tree_cache` -/
def evictFromTreeCache (pick : Nat → Nat) (numTokens : Nat) : Py (Pool ε τ) :=
  if pool.allocator.availableSize < numTokens then do
    let result ← pool.tree.evict pick numTokens
    .ok { pool with allocator := pool.allocator.free result.2.1, tree := result.2.2 }
  else .ok pool

/-- `alloc_token_slots` -/
def allocTokenSlots (pick : Nat → Nat) (numTokens : Nat) : Py (List Nat × Pool ε τ) := do
  let pool ← pool.evictFromTreeCache pick numTokens
  match pool.allocator.alloc numTokens with
  | none => .error .runtimeError
  | some outCacheLoc => .ok (outCacheLoc.1, { pool with allocator := outCacheLoc.2 })

/-- The cache takes the slots of the tokens it has not; the others were duplicates. -/
def insertReq (req : Req ε τ) (tokenIds : List τ) (kvIndices : List Nat) : Py (Pool ε τ) := do
  let result ← pool.tree.insert (req.radixKey tokenIds) kvIndices
  .ok { pool with allocator := pool.allocator.free ((kvIndices.take result.1).drop req.cacheProtectedLen), tree := result.2 }

/-- The slots of a finished request go to the cache or back to the allocator. -/
def keepOrFree (req : Req ε τ) (tokenIds : List τ) (kvIndices : List Nat) (isInsert : Bool) : Py (Pool ε τ) :=
  if isInsert then pool.insertReq req tokenIds kvIndices
  else .ok (pool.free (kvIndices.drop req.cacheProtectedLen))

/-- `cache_finished_req`, with `pop_committed_kv_cache` -/
def cacheFinishedReq (req : Req ε τ) (isInsert : Bool) : Py (Pool ε τ × Req ε τ) := do
  pyAssert (!req.kvCommittedFreed)
  let tokenIds := req.allIds.take req.kvCommittedLen
  let kvIndices := req.reqToToken.take tokenIds.length
  let pool ← pool.keepOrFree req tokenIds kvIndices isInsert
  let unlocked ← pool.tree.decLockRef req.lastNode
  .ok ({ pool with tree := unlocked.2 }, { req with kvCommittedFreed := true })

/-- `release_kv_cache`, with `pop_overallocated_kv_cache` -/
def releaseKvCache (req : Req ε τ) (isInsert : Bool) : Py (Pool ε τ × Req ε τ) := do
  -- `tree_cache.supports_mamba()` is false
  pyAssert req.reqPoolIdx.isSome
  let released ← pool.cacheFinishedReq req isInsert
  pyAssert (!released.2.kvOverallocatedFreed)
  pyAssert (released.2.kvCommittedLen == released.2.kvAllocatedLen)
  let freed ← released.1.reqToTokenPool.free { released.2 with kvOverallocatedFreed := true }
  .ok ({ released.1 with reqToTokenPool := freed.2 }, freed.1)

/-- `cache_unfinished_req` -/
def cacheUnfinishedReq (req : Req ε τ) : Py (Pool ε τ × Req ε τ) := do
  let tokenIds := if req.kvCommittedLen < req.fillIds.length then req.fillIds.take req.kvCommittedLen else req.fillIds
  let kvIndices := req.reqToToken.take tokenIds.length
  let pool ← pool.insertReq req tokenIds kvIndices
  let found ← pool.tree.matchPrefix (req.radixKey tokenIds)
  pyAssert (found.1.length == tokenIds.length)
  let _ ← req.rowIndex
  let unlocked ← found.2.2.decLockRef req.lastNode
  let locked ← unlocked.2.incLockRef found.2.1
  .ok ({ pool with tree := locked.2 }, { req with
    reqToToken := write req.reqToToken req.cacheProtectedLen (found.1.drop req.cacheProtectedLen)
    cacheProtectedLen := found.1.length
    prefixIndices := if found.1.length < kvIndices.length then found.1 ++ kvIndices.drop found.1.length else found.1
    lastNode := found.2.1 })

/-- `init_next_round_input` -/
def initNextRoundInput (req : Req ε τ) : Py (Pool ε τ × Req ε τ) := do
  let fillIds := req.allIds
  let maxPrefixLen : Int := fillIds.length - 1
  let maxPrefixLen := if req.returnLogprob ∧ req.logprobStartLen ≥ 0 then min maxPrefixLen req.logprobStartLen else maxPrefixLen
  let tokenIds := fillIds.take (max maxPrefixLen 0).toNat
  let found ← pool.tree.matchPrefix (req.radixKey tokenIds)
  .ok ({ pool with tree := found.2.2 }, { req with
    fillIds
    prefixIndices := found.1
    lastNode := found.2.1
    cacheProtectedLen := found.1.length
    extendInputLen := fillIds.length - found.1.length })

/-- `alloc_req_slots`: the requests with their rows -/
def allocReqSlots (reqs : List (Req ε τ)) : Py (List (Req ε τ) × Pool ε τ) := do
  let reqPoolIndices ← pool.reqToTokenPool.alloc reqs
  match reqPoolIndices with
  | none => .error .runtimeError
  | some allocated => .ok (allocated.1, { pool with reqToTokenPool := allocated.2 })

/-- `_req_inc_lock_ref` -/
def reqIncLockRef (req : Req ε τ) : Py (Option (Pool ε τ × Req ε τ)) := do
  let locked ← pool.tree.incLockRef req.lastNode
  .ok (some ({ pool with tree := locked.2 }, req))

/-- The end of `add_one_req`: the input may be cut to a chunk, and the prefix is locked. -/
def addOneReq (req : Req ε τ) (remChunkTokens : Option Nat) : Py (Option (Pool ε τ × Req ε τ)) :=
  match remChunkTokens with
  | none => pool.reqIncLockRef req
  | some truncLen =>
    if req.extendInputLen ≤ truncLen then pool.reqIncLockRef req
    else if truncLen = 0 then .ok none
    else pool.reqIncLockRef { req with
      extendInputLen := truncLen, fillIds := req.fillIds.take (req.prefixIndices.length + truncLen) }

end Pool

/-- `init_next_round_input` without the cache and `add_chunked_req`: the next chunk of a request. -/
def addChunkedReq (req : Req ε τ) (remTokens : Nat) : Req ε τ :=
  let fillIds := req.allIds
  let extendInputLen := min (fillIds.length - req.prefixIndices.length) remTokens
  { req with fillIds := fillIds.take (req.prefixIndices.length + extendInputLen), extendInputLen }

/-- `write_cache_indices`, and the lengths that `prepare_for_extend` sets -/
def writeCacheIndices : List Nat → List (Req ε τ) → List (Req ε τ)
  | _, [] => []
  | outCacheLoc, req :: reqs =>
    let row := write req.reqToToken 0 req.prefixIndices
    { req with
      reqToToken := write row req.prefixIndices.length (outCacheLoc.take req.extendInputLen)
      kvCommittedLen := req.fillIds.length
      kvAllocatedLen := req.fillIds.length } :: writeCacheIndices (outCacheLoc.drop req.extendInputLen) reqs

/-- `prepare_for_extend` with `alloc_for_extend` -/
def prepareForExtend [DecidableEq ε] [DecidableEq τ] (pool : Pool ε τ) (pick : Nat → Nat) (reqs : List (Req ε τ)) :
    Py (Pool ε τ × List (Req ε τ)) := do
  let extendNumTokens := (reqs.map fun req => (req.fillIds.drop req.prefixIndices.length).length).sum
  let seated ← pool.allocReqSlots reqs
  let allocated ← seated.2.allocTokenSlots pick extendNumTokens
  pyAssert (seated.1.all fun req => req.fillIds.length - req.prefixIndices.length == req.extendInputLen)
  .ok (allocated.2, writeCacheIndices allocated.1 seated.1)

/-- The row of a request after `alloc_for_decode`, and the lengths that `prepare_for_decode` sets. -/
def writeDecodeIndex (req : Req ε τ) (loc : Nat) : Req ε τ :=
  { req with
    reqToToken := write req.reqToToken req.kvCommittedLen [loc]
    kvCommittedLen := req.kvCommittedLen + 1
    kvAllocatedLen := req.kvAllocatedLen + 1 }

/-- `prepare_for_decode` with `alloc_for_decode` -/
def prepareForDecode [DecidableEq ε] [DecidableEq τ] (pool : Pool ε τ) (pick : Nat → Nat) (reqs : List (Req ε τ)) :
    Py (Pool ε τ × List (Req ε τ)) := do
  let allocated ← pool.allocTokenSlots pick reqs.length
  .ok (allocated.2, List.zipWith writeDecodeIndex reqs allocated.1)

/-! ## The memory check -/

/-- `_get_batch_uncached_size` -/
def getBatchUncachedSize (reqs : List (Req ε τ)) : Py Int := do
  pyAssert (reqs.all fun req => req.kvCommittedFreed == req.kvOverallocatedFreed)
  .ok (reqs.map fun req => if req.kvCommittedFreed then 0 else (req.kvAllocatedLen : Int) - req.cacheProtectedLen).sum

/-- `self_check_during_busy` -/
def selfCheckDuringBusy (pool : Pool ε τ) (reqs : List (Req ε τ)) : Py Unit := do
  let uncachedSize ← getBatchUncachedSize reqs
  pyAssert (pool.allocator.availableSize + pool.tree.evictableSize + pool.tree.protectedSize + uncachedSize == pool.allocator.size)

/-- `_check_radix_cache_memory` -/
def checkRadixCacheMemory (pool : Pool ε τ) : Bool :=
  pool.allocator.availableSize + pool.tree.evictableSize != pool.allocator.size - pool.tree.protectedSize

/-! ## Runs -/

/-- The tokens of a request, with the one that the host does not know yet. -/
def Req.knownIds (req : Req ε τ) : List τ := req.allIds ++ req.future.toList

/-- The new tokens of an extend are those of `fill_ids` after the prefix. -/
def Req.forwardExtend (layer : List K → ε × τ → K) (memory : Nat → K) (req : Req ε τ) : Nat → K :=
  forward layer req.reqToToken (req.radixKey (req.fillIds.drop req.prefixIndices.length)) req.prefixIndices.length memory

/-- The new token of a decode is the last that is committed. -/
def Req.forwardDecode (layer : List K → ε × τ → K) (memory : Nat → K) (req : Req ε τ) : Nat → K :=
  let start := req.kvCommittedLen - 1
  forward layer req.reqToToken (req.radixKey ((req.knownIds.drop start).take 1)) start memory

structure State (ε τ K : Type) where
  pool : Pool ε τ
  waiting : List (Req ε τ)
  running : List (Req ε τ)
  memory : Nat → K

def State.init (maxNumReqs size : Nat) (needSort : Bool) (memory : Nat → K) : State ε τ K :=
  ⟨⟨.clear maxNumReqs, .clear size needSort, .reset⟩, [], [], memory⟩

/-- A decode feeds the last token, which the device may know before the host. -/
def Req.Fed (req fed : Req ε τ) : Prop :=
  if req.kvCommittedLen < req.allIds.length then fed = req else ∃ token, fed = { req with future := some token }

/-- The steps of the scheduler. -/
inductive Step [DecidableEq ε] [DecidableEq τ] (layer : List K → ε × τ → K) : State ε τ K → State ε τ K → Prop
  | arrive (s : State ε τ K) (originInputIds : List τ) (extraKey : ε) (returnLogprob : Bool) (logprobStartLen : Int) :
      Step layer s { s with waiting := .new originInputIds extraKey returnLogprob logprobStartLen :: s.waiting }
  /-- the priority of a waiting request is asked for -/
  | lookup (s : State ε τ K) (key : List (ε × τ)) {found : List Nat × List (ε × τ) × Cache (ε × τ) Nat}
      (run : s.pool.tree.matchPrefix key = .ok found) : Step layer s { s with pool := { s.pool with tree := found.2.2 } }
  /-- a waiting request has no chance yet -/
  | passOver (s : State ε τ K) {req : Req ε τ} {waiting : List (Req ε τ)} (turn : s.waiting.Perm (req :: waiting))
      {matched : Pool ε τ × Req ε τ} (init : s.pool.initNextRoundInput req = .ok matched) :
      Step layer s { s with pool := matched.1, waiting := matched.2 :: waiting }
  | addReq (s : State ε τ K) {req : Req ε τ} {waiting : List (Req ε τ)} (turn : s.waiting.Perm (req :: waiting))
      (remChunkTokens : Option Nat) {matched added : Pool ε τ × Req ε τ} (init : s.pool.initNextRoundInput req = .ok matched)
      (add : matched.1.addOneReq matched.2 remChunkTokens = .ok (some added)) :
      Step layer s { s with pool := added.1, waiting, running := added.2 :: s.running }
  | extend (s : State ε τ K) {batch rest : List (Req ε τ)} (turn : s.running.Perm (batch ++ rest))
      (stashed : ∀ req ∈ batch, req.kvCommittedLen ≤ req.cacheProtectedLen) (pick : Nat → Nat) {result : Pool ε τ × List (Req ε τ)}
      (run : prepareForExtend s.pool pick batch = .ok result) :
      Step layer s { s with
        pool := result.1
        running := result.2 ++ rest
        memory := result.2.foldl (Req.forwardExtend layer) s.memory }
  | decode (s : State ε τ K) {batch fed rest : List (Req ε τ)} (turn : s.running.Perm (batch ++ rest))
      (extended : ∀ req ∈ batch, 0 < req.kvCommittedLen ∧ req.future = none) (feed : List.Forall₂ Req.Fed batch fed) (pick : Nat → Nat)
      {result : Pool ε τ × List (Req ε τ)} (run : prepareForDecode s.pool pick fed = .ok result) :
      Step layer s { s with
        pool := result.1
        running := result.2 ++ rest
        memory := result.2.foldl (Req.forwardDecode layer) s.memory }
  /-- the result of a step is processed: it is the token that the next one was fed, if there is a next one -/
  | sample (s : State ε τ K) {req : Req ε τ} {rest : List (Req ε τ)} (turn : s.running.Perm (req :: rest)) (token : τ)
      (same : ∀ t, req.future = some t → t = token) :
      Step layer s { s with running := { req with outputIds := req.outputIds ++ [token], future := none } :: rest }
  | stash (s : State ε τ K) {req : Req ε τ} {rest : List (Req ε τ)} (turn : s.running.Perm (req :: rest))
      {result : Pool ε τ × Req ε τ} (run : s.pool.cacheUnfinishedReq req = .ok result) :
      Step layer s { s with pool := result.1, running := result.2 :: rest }
  /-- the scheduler counts a chunk of the request before it runs, and the result of the chunk is processed -/
  | chunk (s : State ε τ K) {req : Req ε τ} {rest : List (Req ε τ)} (turn : s.running.Perm (req :: rest)) :
      Step layer s { s with running := { req with isChunked := req.isChunked + 1 } :: rest }
  | chunkDone (s : State ε τ K) {req : Req ε τ} {rest : List (Req ε τ)} (turn : s.running.Perm (req :: rest)) (chunked : 0 < req.isChunked) :
      Step layer s { s with running := { req with isChunked := req.isChunked - 1 } :: rest }
  | resume (s : State ε τ K) {req : Req ε τ} {rest : List (Req ε τ)} (turn : s.running.Perm (req :: rest)) (remTokens : Nat) :
      Step layer s { s with running := addChunkedReq req remTokens :: rest }
  | finish (s : State ε τ K) {req : Req ε τ} {rest : List (Req ε τ)} (turn : s.running.Perm (req :: rest)) (processed : req.future = none)
      (isInsert : Bool) {result : Pool ε τ × Req ε τ} (run : s.pool.releaseKvCache req isInsert = .ok result) :
      Step layer s { s with pool := result.1, running := rest }
  | retract (s : State ε τ K) {req : Req ε τ} {rest : List (Req ε τ)} (turn : s.running.Perm (req :: rest)) (processed : req.future = none)
      (pick : Nat → Nat) (numTokens : Nat) {result : Pool ε τ × Req ε τ} {pool : Pool ε τ}
      (run : s.pool.releaseKvCache req false = .ok result) (evict : result.1.evictFromTreeCache pick numTokens = .ok pool) :
      Step layer s { s with pool, waiting := result.2.resetForRetract :: s.waiting, running := rest }
  | freeGroupBegin (s : State ε τ K) (outside : s.pool.allocator.isNotInFreeGroup = true) :
      Step layer s { s with pool := { s.pool with allocator := s.pool.allocator.freeGroupBegin } }
  | freeGroupEnd (s : State ε τ K) (inside : s.pool.allocator.isNotInFreeGroup = false) :
      Step layer s { s with pool := { s.pool with allocator := s.pool.allocator.freeGroupEnd } }

inductive Reachable [DecidableEq ε] [DecidableEq τ] (layer : List K → ε × τ → K) (size : Nat) (needSort : Bool) : State ε τ K → Prop
  | init (maxNumReqs : Nat) (memory : Nat → K) : Reachable layer size needSort (.init maxNumReqs size needSort memory)
  | step {s t : State ε τ K} (before : Reachable layer size needSort s) (step : Step layer s t) : Reachable layer size needSort t

end SlimeBoard.KvPool
