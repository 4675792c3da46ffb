import SlimeBoard.Lib.Fleet

/-!
# The update of the weights of engines that share the GPUs

Engines whose GPUs are among those of the training ranks get the weights as handles from the
rank at their first GPU; the other engines get them by broadcast from one rank. Rank 0 pauses and
flushes the engines before, and continues them after.
-/

namespace SlimeBoard.TensorUpdate

open Fleet

/-- The engines of `connect_rollout_engines`, numbered, with what it is told of their GPUs. -/
structure RolloutEngines where
  nums : Nat
  gpuCounts : Option (List Nat)
  gpuOffsets : Option (List Nat)
  counted : ∀ counts ∈ gpuCounts, counts.length = nums
  placed : ∀ offsets ∈ gpuOffsets, offsets.length = nums

structure Args where
  actorNumNodes : Nat
  actorNumGpusPerNode : Nat
  rolloutNumGpusPerEngine : Nat
  /-- `quantization_config["quant_method"]` is `compressed-tensors` -/
  compressedTensors : Bool
  /-- `FlattenedTensorBucket.supports_multi_dtypes` -/
  supportsMultiDtypes : Bool

/-- The remote calls on an engine. `τ` is the type of named tensors. -/
inductive Call (τ : Type) where
  | pauseGeneration
  | flushCache
  | postProcessWeights (restoreWeightsBeforeLoad postProcessQuantization : Bool)
  | updateWeightsFromTensor (tensors : List τ)
  | updateWeightsFromDistributed (tensors : List τ)
  | continueGeneration
  deriving DecidableEq

/-- The tensors that a call loads. -/
def Call.loaded {τ : Type} : Call τ → Option (List τ)
  | .updateWeightsFromTensor tensors => some tensors
  | .updateWeightsFromDistributed tensors => some tensors
  | _ => none

/-- The offsets of engines without gaps. -/
def packedOffsets : Nat → List Nat → List Nat
  | _, [] => []
  | offset, c :: counts => offset :: packedOffsets (offset + c) counts

section Connect

variable (args : Args) (engines : RolloutEngines)

def engineGpuCounts : List Nat := engines.gpuCounts.getD (List.replicate engines.nums args.rolloutNumGpusPerEngine)

def engineGpuOffsets : List Nat := engines.gpuOffsets.getD (packedOffsets 0 (engineGpuCounts args engines))

/-- The engines before the first whose GPUs go beyond those of the actor. -/
def colocateEngineNums : Nat :=
  (((engineGpuOffsets args engines).zip (engineGpuCounts args engines)).takeWhile fun p =>
    decide (p.1 + p.2 ≤ args.actorNumNodes * args.actorNumGpusPerNode)).length

def useDistribute : Bool := decide (engines.nums > colocateEngineNums args engines)

/-- `self.rollout_engines` -/
def rolloutEngines : List Nat :=
  if useDistribute args engines then (List.range engines.nums).take (colocateEngineNums args engines) else List.range engines.nums

/-- `self.distributed_rollout_engines` -/
def distributedRolloutEngines : List Nat :=
  if useDistribute args engines then (List.range engines.nums).drop (colocateEngineNums args engines) else []

/-- The first GPU of an engine. -/
def gpuOffset (i : Nat) : Nat := (engineGpuOffsets args engines).getD i 0

/-- `rank` is on a GPU of engine `i`. -/
def onGpus (rank i : Nat) : Bool :=
  decide (gpuOffset args engines i ≤ rank ∧ rank < gpuOffset args engines i + (engineGpuCounts args engines).getD i 0)

/-- The engine whose gather group a rank joins: the last one that has its GPU. -/
def ipcGatherGroup (rank : Nat) : Option Nat :=
  (List.range (colocateEngineNums args engines)).foldl (fun group i => if onGpus args engines rank i then some i else group) none

/-- `self._ipc_engine` -/
def ipcEngine (rank : Nat) : Option Nat :=
  (rolloutEngines args engines).foldl (fun engine i => if onGpus args engines rank i then some i else engine) none

end Connect

section Update

variable {τ δ : Type} [DecidableEq δ] (dtype : τ → δ)

/-- `converted_named_tensors_by_dtypes[dtype].append((name, tensor))`, with the list there if it is new -/
def appendByDtype : List (δ × List τ) → τ → List (δ × List τ)
  | [], tensor => [(dtype tensor, [tensor])]
  | (d, tensors) :: rest, tensor =>
    if d = dtype tensor then (d, tensors ++ [tensor]) :: rest else (d, tensors) :: appendByDtype rest tensor

variable (args : Args) (engines : RolloutEngines)

/-- The tensors that a chunk is sent in. -/
def convertedByDtypes (chunk : List τ) : List (List τ) :=
  if args.supportsMultiDtypes then [chunk] else (chunk.foldl (appendByDtype dtype) []).map Prod.snd

/-- The calls of `_send_to_colocated_engine` on `rank`. -/
def sendToColocatedEngine (rank : Nat) (chunk : List τ) : List (Nat × Call τ) :=
  match ipcGatherGroup args engines rank, ipcEngine args engines rank with
  | some i, some engine =>
    if rank = gpuOffset args engines i then
      (convertedByDtypes dtype args chunk).map fun tensors => (engine, .updateWeightsFromTensor tensors)
    else []
  | _, _ => []

variable {worldSize : Nat} (distributedSrcRank : Fin worldSize)

/-- The calls of `_send_hf_params` on `rank`. -/
def sendHfParams (rank : Fin worldSize) (chunk : List τ) : List (Nat × Call τ) :=
  sendToColocatedEngine dtype args engines rank chunk ++
    if useDistribute args engines ∧ rank = distributedSrcRank then
      (distributedRolloutEngines args engines).map fun engine => (engine, .updateWeightsFromDistributed chunk)
    else []

/-- `if rank == 0: ray.get([engine.….remote() for engine in self.rollout_engines])` -/
def onRankZero (rank : Fin worldSize) (call : Call τ) : List (Instr (Fin worldSize) Nat (Call τ)) :=
  [.issue (if rank.val = 0 then (rolloutEngines args engines).map fun engine => (engine, call) else []), .get]

/-- `dist.barrier(group=get_gloo_group())` -/
def barrier : Instr (Fin worldSize) Nat (Call τ) := .sync (List.finRange worldSize)

/-- What comes before the first barrier. -/
def quiesce (rank : Fin worldSize) : List (Instr (Fin worldSize) Nat (Call τ)) :=
  onRankZero args engines rank .pauseGeneration ++ onRankZero args engines rank .flushCache ++
    if args.compressedTensors then onRankZero args engines rank (.postProcessWeights true false) else []

/-- One turn of the loop over the chunks: the gather of the handles, and the calls. -/
def sendChunk (rank : Fin worldSize) (chunk : List τ) : List (Instr (Fin worldSize) Nat (Call τ)) :=
  [.sync ((List.finRange worldSize).filter fun other =>
      (ipcGatherGroup args engines rank).any fun i => onGpus args engines other i),
    .issue (sendHfParams dtype args engines distributedSrcRank rank chunk), .get]

/-- What comes after the last chunk. -/
def resume (rank : Fin worldSize) : List (Instr (Fin worldSize) Nat (Call τ)) :=
  (if args.compressedTensors then onRankZero args engines rank (.postProcessWeights false true) else []) ++
    onRankZero args engines rank .continueGeneration ++ [barrier]

/-- `update_weights` on `rank` -/
def updateWeights (chunks : List (List τ)) (rank : Fin worldSize) : List (Instr (Fin worldSize) Nat (Call τ)) :=
  quiesce args engines rank ++
    barrier :: (chunks.flatMap (sendChunk dtype args engines distributedSrcRank rank) ++ barrier :: resume args engines rank)

end Update

section Spec

variable {τ : Type} {ρ : Type}

/-- The tensors that engine `e` has loaded, call by call. -/
def loads (e : Nat) (log : List (Event ρ Nat (Call τ))) : List (List τ) :=
  (log.filter fun ev => decide (ev.kind = .done ∧ ev.worker = e)).filterMap fun ev => ev.call.loaded

/-- The calls load the chunks in their order, each of their tensors once. -/
def Receives (chunks loads : List (List τ)) : Prop :=
  ∃ parts : List (List (List τ)), parts.flatten = loads ∧ List.Forall₂ (fun chunk part => part.flatten.Perm chunk) chunks parts

/-- A call that loads tensors is issued to engine `e`, or done. -/
def Loaded (e : Nat) (log : List (Event ρ Nat (Call τ))) : Prop := ∃ ev ∈ log, ev.worker = e ∧ ev.call.loaded ≠ none

/-- What should hold of an engine that receives chunks, at any time of the update. -/
structure Quiesced (chunks : List (List τ)) (log : List (Event ρ Nat (Call τ))) (e : Nat) : Prop where
  /-- paused and flushed before the first call that loads -/
  before : ∀ front ev back, log = front ++ ev :: back → ev.worker = e → ev.call.loaded ≠ none →
    (∃ r, ⟨.done, r, e, .pauseGeneration⟩ ∈ front) ∧ ∃ r, ⟨.done, r, e, .flushCache⟩ ∈ front
  /-- no chunk out of order or twice -/
  ordered : ∃ all, Receives chunks all ∧ loads e log <+: all
  /-- continued when every engine has loaded every chunk -/
  after : ∀ front ev back, log = front ++ ev :: back → ev.worker = e → ev.call = .continueGeneration →
    ∀ e', Loaded e' log → Receives chunks (loads e' front)

end Spec

section Placement

variable {args : Args} {engines : RolloutEngines}

theorem length_packedOffsets (offset : Nat) (counts : List Nat) : (packedOffsets offset counts).length = counts.length := by
  induction counts generalizing offset with
  | nil => rfl
  | cons c counts ih => rw [packedOffsets, List.length_cons, List.length_cons, ih]

theorem length_engineGpuCounts : (engineGpuCounts args engines).length = engines.nums := by
  unfold engineGpuCounts
  cases given : engines.gpuCounts with
  | none => exact List.length_replicate ..
  | some counts => exact engines.counted counts given

theorem colocateEngineNums_le : colocateEngineNums args engines ≤ engines.nums := by
  refine Nat.le_trans (List.takeWhile_prefix _).length_le ?_
  rw [List.length_zip, length_engineGpuCounts]
  exact Nat.min_le_right ..

theorem rolloutEngines_eq : rolloutEngines args engines = List.range (colocateEngineNums args engines) := by
  have small : colocateEngineNums args engines ≤ engines.nums := colocateEngineNums_le
  unfold rolloutEngines useDistribute
  split
  · rw [List.take_range, Nat.min_eq_left small]
  · rename_i whole
    rw [decide_eq_true_iff, Nat.not_lt] at whole
    rw [Nat.le_antisymm whole small]

theorem ipcEngine_eq (rank : Nat) : ipcEngine args engines rank = ipcGatherGroup args engines rank := by
  rw [ipcEngine, rolloutEngines_eq, ipcGatherGroup]

theorem ipcGatherGroup_mem {rank i : Nat} (joins : ipcGatherGroup args engines rank = some i) :
    i < colocateEngineNums args engines := by
  have last (is : List Nat) (group : Option Nat)
      (joins : is.foldl (fun group i => if onGpus args engines rank i then some i else group) group = some i) : i ∈ is ∨ group = some i := by
    induction is generalizing group with
    | nil => exact Or.inr joins
    | cons j is ih =>
      rcases ih _ joins with later | now
      · exact Or.inl (List.mem_cons_of_mem _ later)
      · dsimp only at now
        split at now
        · exact Or.inl (Option.some.inj now ▸ List.mem_cons_self ..)
        · exact Or.inr now
  rcases last _ _ joins with mem | none
  · exact List.mem_range.1 mem
  · cases none

theorem distributed_ge {e : Nat} (mem : e ∈ distributedRolloutEngines args engines) : colocateEngineNums args engines ≤ e := by
  unfold distributedRolloutEngines at mem
  split at mem
  · rw [List.range_eq_range', List.drop_range', List.mem_range'] at mem
    obtain ⟨i, _, rfl⟩ := mem
    omega
  · cases mem

end Placement

section Chunks

variable {τ δ : Type} [DecidableEq δ] {dtype : τ → δ} {args : Args}

theorem appendByDtype_perm (byDtype : List (δ × List τ)) (tensor : τ) :
    ((appendByDtype dtype byDtype tensor).map Prod.snd).flatten.Perm ((byDtype.map Prod.snd).flatten ++ [tensor]) := by
  induction byDtype with
  | nil => exact .refl _
  | cons entry rest ih =>
    rw [appendByDtype]
    split
    · simp only [List.map_cons, List.flatten_cons, List.append_assoc]
      exact List.perm_append_comm.append_left _
    · simp only [List.map_cons, List.flatten_cons, List.append_assoc]
      exact ih.append_left _

/-- The tensors of a chunk are sent once. -/
theorem convertedByDtypes_perm (chunk : List τ) : (convertedByDtypes dtype args chunk).flatten.Perm chunk := by
  have loop (byDtype : List (δ × List τ)) (rest : List τ) :
      ((rest.foldl (appendByDtype dtype) byDtype).map Prod.snd).flatten.Perm ((byDtype.map Prod.snd).flatten ++ rest) := by
    induction rest generalizing byDtype with
    | nil =>
      rw [List.foldl_nil, List.append_nil]
    | cons tensor rest ih =>
      rw [List.foldl_cons, List.append_cons]
      exact (ih _).trans ((appendByDtype_perm byDtype tensor).append_right rest)
  unfold convertedByDtypes
  split
  · simp
  · exact loop [] chunk

end Chunks

section Program

variable {τ δ : Type} [DecidableEq δ] {dtype : τ → δ} {args : Args} {engines : RolloutEngines} {worldSize : Nat}
  {distributedSrcRank : Fin worldSize} {chunks : List (List τ)}

theorem mem_onRankZero {rank : Fin worldSize} {call : Call τ} {calls : List (Nat × Call τ)}
    (mem : Instr.issue calls ∈ onRankZero args engines rank call) {item : Nat × Call τ} (inside : item ∈ calls) :
    item.2 = call ∧ item.1 ∈ rolloutEngines args engines := by
  rcases List.mem_cons.1 mem with same | mem
  · obtain rfl := Instr.issue.inj same
    split at inside
    · obtain ⟨e, here, rfl⟩ := List.mem_map.1 inside
      exact ⟨rfl, here⟩
    · cases inside
  · cases List.mem_singleton.1 mem

/-- The calls before the chunks load nothing and continue nothing. -/
theorem mem_quiesce {rank : Fin worldSize} {calls : List (Nat × Call τ)} (mem : Instr.issue calls ∈ quiesce args engines rank)
    {item : Nat × Call τ} (inside : item ∈ calls) :
    item.2.loaded = none ∧ item.2 ≠ .continueGeneration ∧ item.1 ∈ rolloutEngines args engines := by
  rw [quiesce, List.mem_append, List.mem_append] at mem
  rcases mem with (mem | mem) | mem
  · obtain ⟨same, here⟩ := mem_onRankZero mem inside
    rw [same]
    exact ⟨rfl, nofun, here⟩
  · obtain ⟨same, here⟩ := mem_onRankZero mem inside
    rw [same]
    exact ⟨rfl, nofun, here⟩
  · split at mem
    · obtain ⟨same, here⟩ := mem_onRankZero mem inside
      rw [same]
      exact ⟨rfl, nofun, here⟩
    · cases mem

/-- The calls after the chunks load nothing, and pause nothing. -/
theorem mem_resume {rank : Fin worldSize} {calls : List (Nat × Call τ)} (mem : Instr.issue calls ∈ resume args engines rank)
    {item : Nat × Call τ} (inside : item ∈ calls) : item.2.loaded = none ∧ item.1 ∈ rolloutEngines args engines := by
  rw [resume, List.mem_append, List.mem_append] at mem
  rcases mem with (mem | mem) | mem
  · split at mem
    · obtain ⟨same, here⟩ := mem_onRankZero mem inside
      rw [same]
      exact ⟨rfl, here⟩
    · cases mem
  · obtain ⟨same, here⟩ := mem_onRankZero mem inside
    rw [same]
    exact ⟨rfl, here⟩
  · cases List.mem_singleton.1 mem

/-- A call for a chunk is a handle from the rank at the engine's first GPU, or from the source of the broadcasts. -/
theorem mem_sendHfParams {rank : Fin worldSize} {chunk : List τ} {item : Nat × Call τ} :
    item ∈ sendHfParams dtype args engines distributedSrcRank rank chunk ↔
      (ipcGatherGroup args engines rank = some item.1 ∧ rank.val = gpuOffset args engines item.1 ∧
          ∃ tensors ∈ convertedByDtypes dtype args chunk, item.2 = .updateWeightsFromTensor tensors) ∨
        (rank = distributedSrcRank ∧ item.1 ∈ distributedRolloutEngines args engines ∧ item.2 = .updateWeightsFromDistributed chunk) := by
  rw [sendHfParams, List.mem_append, sendToColocatedEngine, ipcEngine_eq]
  refine or_congr ?_ ?_
  · cases joins : ipcGatherGroup args engines rank with
    | none => simp
    | some i =>
      dsimp only
      split
      · rename_i first
        constructor
        · intro mem
          obtain ⟨tensors, here, rfl⟩ := List.mem_map.1 mem
          exact ⟨rfl, first, tensors, here, rfl⟩
        · rintro ⟨same, _, tensors, here, call⟩
          obtain rfl := Option.some.inj same
          exact List.mem_map.2 ⟨tensors, here, Prod.ext rfl call.symm⟩
      · rename_i other
        refine iff_of_false (List.not_mem_nil) ?_
        rintro ⟨same, first, _⟩
        obtain rfl := Option.some.inj same
        exact other first
  · by_cases source : rank = distributedSrcRank
    · by_cases distributes : useDistribute args engines = true
      · rw [if_pos ⟨distributes, source⟩]
        constructor
        · intro mem
          obtain ⟨e, here, rfl⟩ := List.mem_map.1 mem
          exact ⟨source, here, rfl⟩
        · rintro ⟨_, here, call⟩
          exact List.mem_map.2 ⟨item.1, here, Prod.ext rfl call.symm⟩
      · rw [if_neg fun both => distributes both.1, distributedRolloutEngines, if_neg distributes]
        simp
    · rw [if_neg fun both => source both.2]
      simp [source]

/-- One rank sends the chunks to an engine. -/
theorem one_source {rank rank' : Fin worldSize} {chunk chunk' : List τ} {item item' : Nat × Call τ}
    (mem : item ∈ sendHfParams dtype args engines distributedSrcRank rank chunk)
    (mem' : item' ∈ sendHfParams dtype args engines distributedSrcRank rank' chunk') (same : item.1 = item'.1) : rank = rank' := by
  rcases mem_sendHfParams.1 mem with ⟨joins, first, _⟩ | ⟨source, far, _⟩
  · rcases mem_sendHfParams.1 mem' with ⟨_, first', _⟩ | ⟨_, far, _⟩
    · exact Fin.ext (first.trans (same ▸ first'.symm))
    · exact absurd (ipcGatherGroup_mem joins) (Nat.not_lt.2 (same ▸ distributed_ge far))
  · rcases mem_sendHfParams.1 mem' with ⟨joins, _⟩ | ⟨source', _⟩
    · exact absurd (ipcGatherGroup_mem joins) (Nat.not_lt.2 (same ▸ distributed_ge far))
    · exact source.trans source'.symm

/-- The tensors in the calls of a list to engine `e`. -/
def loadsOf (e : Nat) (calls : List (Nat × Call τ)) : List (List τ) := (toWorker e calls).filterMap Call.loaded

theorem loadsOf_append (e : Nat) (calls more : List (Nat × Call τ)) : loadsOf e (calls ++ more) = loadsOf e calls ++ loadsOf e more := by
  rw [loadsOf, toWorker_append, List.filterMap_append, loadsOf, loadsOf]

theorem loadsOf_nil {e : Nat} {calls : List (Nat × Call τ)} (none : ∀ c, (e, c) ∈ calls → c.loaded = none) : loadsOf e calls = [] :=
  List.filterMap_eq_nil_iff.2 fun c mem => none c (mem_toWorker.1 mem)

theorem toWorker_map {e : Nat} {es : List Nat} (distinct : es.Nodup) (mem : e ∈ es) (c : Call τ) :
    toWorker e (es.map fun e => (e, c)) = [c] := by
  obtain ⟨front, back, rfl⟩ := List.append_of_mem mem
  obtain ⟨_, rest, apart⟩ := List.nodup_append.1 distinct
  have none (others : List Nat) (absent : e ∉ others) : toWorker e (others.map fun e => (e, c)) = [] :=
    List.eq_nil_iff_forall_not_mem.2 fun c' mem => by
      obtain ⟨e', here, same⟩ := List.mem_map.1 (mem_toWorker.1 mem)
      exact absent ((Prod.mk.inj same).1 ▸ here)
  have one : toWorker e [(e, c)] = [c] := by simp [toWorker]
  rw [List.map_append, List.map_cons, List.append_cons, toWorker_append, toWorker_append, one,
    none front fun here => apart e here e (List.mem_cons_self ..) rfl, none back (List.nodup_cons.1 rest).1]
  rfl

theorem distributed_nodup : (distributedRolloutEngines args engines).Nodup := by
  unfold distributedRolloutEngines
  split
  · exact List.nodup_range.drop
  · exact List.nodup_nil

/-- A rank that sends an engine anything sends it every chunk. -/
theorem loadsOf_sendHfParams {rank : Fin worldSize} {chunk : List τ} {item : Nat × Call τ}
    (mem : item ∈ sendHfParams dtype args engines distributedSrcRank rank chunk) (other : List τ) :
    (loadsOf item.1 (sendHfParams dtype args engines distributedSrcRank rank other)).flatten.Perm other := by
  obtain ⟨e, c⟩ := item
  rw [sendHfParams, loadsOf_append]
  rcases mem_sendHfParams.1 mem with ⟨joins, first, _⟩ | ⟨rfl, far, _⟩
  · have near := ipcGatherGroup_mem joins
    have rest : loadsOf e (if useDistribute args engines ∧ rank = distributedSrcRank then
        (distributedRolloutEngines args engines).map fun engine => (engine, .updateWeightsFromDistributed other) else []) = [] :=
      loadsOf_nil fun c' here => by
        split at here
        · obtain ⟨e', far, same⟩ := List.mem_map.1 here
          exact absurd near (Nat.not_lt.2 ((Prod.mk.inj same).1 ▸ distributed_ge far))
        · cases here
    have own : loadsOf e (sendToColocatedEngine dtype args engines rank other) = convertedByDtypes dtype args other := by
      rw [sendToColocatedEngine, ipcEngine_eq, joins]
      dsimp only at first ⊢
      rw [if_pos first, loadsOf, toWorker, List.filter_eq_self.2 fun call here => ?_, List.map_map, List.filterMap_map]
      · exact List.filterMap_some
      · obtain ⟨tensors, _, rfl⟩ := List.mem_map.1 here
        exact decide_eq_true rfl
    rw [rest, List.append_nil, own]
    exact convertedByDtypes_perm other
  · have own : loadsOf e (sendToColocatedEngine dtype args engines rank other) = [] := loadsOf_nil fun c' here => by
      have sent := mem_sendHfParams.1 (List.mem_append_left _ here : (e, c') ∈ sendHfParams dtype args engines rank rank other)
      rcases sent with ⟨joins, _⟩ | ⟨_, _, rfl⟩
      · exact absurd (ipcGatherGroup_mem joins) (Nat.not_lt.2 (distributed_ge far))
      · rw [sendToColocatedEngine] at here
        split at here
        · split at here
          · obtain ⟨_, _, same⟩ := List.mem_map.1 here
            cases (Prod.mk.inj same).2
          · cases here
        · cases here
    have distributes : useDistribute args engines = true := by
      by_contra off
      rw [distributedRolloutEngines, if_neg off] at far
      cases far
    rw [own, if_pos ⟨distributes, rfl⟩, loadsOf, toWorker_map distributed_nodup far]
    simp [Call.loaded]

/-- What a rank loads into an engine altogether. -/
theorem receives_all {rank : Fin worldSize} {chunk : List τ} {item : Nat × Call τ}
    (mem : item ∈ sendHfParams dtype args engines distributedSrcRank rank chunk) :
    Receives chunks (chunks.flatMap fun chunk => loadsOf item.1 (sendHfParams dtype args engines distributedSrcRank rank chunk)) := by
  refine ⟨chunks.map fun chunk => loadsOf item.1 (sendHfParams dtype args engines distributedSrcRank rank chunk), rfl, ?_⟩
  rw [List.forall₂_map_right_iff, List.forall₂_same]
  exact fun other _ => loadsOf_sendHfParams mem other

/-- The program of a rank up to the second barrier. -/
def untilSent (dtype : τ → δ) (args : Args) (engines : RolloutEngines) (distributedSrcRank : Fin worldSize) (chunks : List (List τ))
    (rank : Fin worldSize) : List (Instr (Fin worldSize) Nat (Call τ)) :=
  quiesce args engines rank ++ barrier :: chunks.flatMap (sendChunk dtype args engines distributedSrcRank rank)

theorem updateWeights_quiesced (rank : Fin worldSize) : updateWeights dtype args engines distributedSrcRank chunks rank =
    quiesce args engines rank ++
      barrier :: (chunks.flatMap (sendChunk dtype args engines distributedSrcRank rank) ++ barrier :: resume args engines rank) := rfl

theorem updateWeights_sent (rank : Fin worldSize) : updateWeights dtype args engines distributedSrcRank chunks rank =
    untilSent dtype args engines distributedSrcRank chunks rank ++ barrier :: resume args engines rank := by
  rw [updateWeights, untilSent, List.append_assoc, List.cons_append]

theorem quiesce_length (rank : Fin worldSize) : 4 ≤ (@quiesce τ args engines worldSize rank).length := by
  rw [quiesce, List.length_append]
  exact Nat.le_add_right 4 _

/-- The ranks have their barriers at the same places. -/
theorem untilSent_length (rank other : Fin worldSize) : (untilSent dtype args engines distributedSrcRank chunks rank).length =
    (untilSent dtype args engines distributedSrcRank chunks other).length := by
  have quiesces : (@quiesce τ args engines worldSize rank).length = (@quiesce τ args engines worldSize other).length := by
    unfold quiesce
    split
    · rfl
    · rfl
  rw [untilSent, untilSent, List.length_append, List.length_append, quiesces, List.length_cons, List.length_cons, List.length_flatMap,
    List.length_flatMap]
  rfl

/-- A call that loads is one for a chunk, after the first barrier. -/
theorem load_call {rank : Fin worldSize} {k : Nat} {calls : List (Nat × Call τ)}
    (here : (updateWeights dtype args engines distributedSrcRank chunks rank)[k]? = some (.issue calls)) {item : Nat × Call τ}
    (inside : item ∈ calls) (loads : item.2.loaded ≠ none) :
    (@quiesce τ args engines worldSize rank).length < k ∧
      ∃ chunk ∈ chunks, item ∈ sendHfParams dtype args engines distributedSrcRank rank chunk := by
  have absent : Instr.issue calls ∉ quiesce args engines rank := fun mem => loads (mem_quiesce mem inside).1
  refine ⟨lt_of_split (updateWeights_quiesced rank) here absent nofun, ?_⟩
  have mem := List.mem_of_getElem? here
  rw [updateWeights, List.mem_append, List.mem_cons, List.mem_append, List.mem_cons] at mem
  rcases mem with early | same | mem | same | late
  · exact absurd early absent
  · cases same
  · obtain ⟨chunk, within, mem⟩ := List.mem_flatMap.1 mem
    rw [sendChunk, List.mem_cons, List.mem_cons, List.mem_singleton] at mem
    rcases mem with same | same | same
    · cases same
    · obtain rfl := Instr.issue.inj same
      exact ⟨chunk, within, inside⟩
    · cases same
  · cases same
  · exact absurd (mem_resume late inside).1 loads

/-- The engines are continued after the second barrier. -/
theorem continue_call {rank : Fin worldSize} {k : Nat} {calls : List (Nat × Call τ)}
    (here : (updateWeights dtype args engines distributedSrcRank chunks rank)[k]? = some (.issue calls)) {item : Nat × Call τ}
    (inside : item ∈ calls) (continues : item.2 = .continueGeneration) :
    (untilSent dtype args engines distributedSrcRank chunks rank).length < k := by
  refine lt_of_split (updateWeights_sent rank) here (fun mem => ?_) nofun
  rw [untilSent, List.mem_append, List.mem_cons] at mem
  rcases mem with early | same | mem
  · exact (mem_quiesce early inside).2.1 continues
  · cases same
  · obtain ⟨chunk, _, mem⟩ := List.mem_flatMap.1 mem
    rw [sendChunk, List.mem_cons, List.mem_cons, List.mem_singleton] at mem
    rcases mem with same | same | same
    · cases same
    · obtain rfl := Instr.issue.inj same
      rcases mem_sendHfParams.1 inside with ⟨_, _, tensors, _, call⟩ | ⟨_, _, call⟩
      · cases continues.symm.trans call
      · cases continues.symm.trans call
    · cases same

theorem loadsOf_silent {e : Nat} {instrs : List (Instr (Fin worldSize) Nat (Call τ))}
    (silent : ∀ calls, .issue calls ∈ instrs → ∀ item ∈ calls, item.2.loaded = none) : loadsOf e (instrs.flatMap Instr.calls) = [] :=
  loadsOf_nil fun c mem => by
    obtain ⟨instr, here, inside⟩ := List.mem_flatMap.1 mem
    cases instr with
    | issue calls => exact silent calls here _ inside
    | get => cases inside
    | sync members => cases inside

/-- The calls of the turns for some chunks load the chunks. -/
theorem loadsOf_chunks (e : Nat) (rank : Fin worldSize) (chunks : List (List τ)) :
    loadsOf e ((chunks.flatMap (sendChunk dtype args engines distributedSrcRank rank)).flatMap Instr.calls) =
      chunks.flatMap fun chunk => loadsOf e (sendHfParams dtype args engines distributedSrcRank rank chunk) := by
  induction chunks with
  | nil => rfl
  | cons chunk chunks ih =>
    have turn : (sendChunk dtype args engines distributedSrcRank rank chunk).flatMap Instr.calls =
        sendHfParams dtype args engines distributedSrcRank rank chunk := by
      simp [sendChunk, Instr.calls]
    rw [List.flatMap_cons, List.flatMap_append, loadsOf_append, ih, turn, List.flatMap_cons]

theorem loadsOf_untilSent (e : Nat) (rank : Fin worldSize) :
    loadsOf e ((untilSent dtype args engines distributedSrcRank chunks rank).flatMap Instr.calls) =
      chunks.flatMap fun chunk => loadsOf e (sendHfParams dtype args engines distributedSrcRank rank chunk) := by
  have before : loadsOf e ((@quiesce τ args engines worldSize rank).flatMap Instr.calls) = [] :=
    loadsOf_silent fun calls mem item inside => (mem_quiesce mem inside).1
  rw [untilSent, List.flatMap_append, loadsOf_append, before, List.flatMap_cons, ← loadsOf_chunks]
  rfl

theorem loadsOf_updateWeights (e : Nat) (rank : Fin worldSize) :
    loadsOf e ((updateWeights dtype args engines distributedSrcRank chunks rank).flatMap Instr.calls) =
      chunks.flatMap fun chunk => loadsOf e (sendHfParams dtype args engines distributedSrcRank rank chunk) := by
  have after : loadsOf e ((@resume τ args engines worldSize rank).flatMap Instr.calls) = [] :=
    loadsOf_silent fun calls mem item inside => (mem_resume mem inside).1
  rw [updateWeights_sent, List.flatMap_append, loadsOf_append, loadsOf_untilSent, List.flatMap_cons, loadsOf_append, after]
  simp [barrier, Instr.calls, loadsOf, toWorker]

end Program

section Run

variable {τ δ : Type} [DecidableEq δ] {dtype : τ → δ} {args : Args} {engines : RolloutEngines} {worldSize : Nat}
  {distributedSrcRank : Fin worldSize} {chunks : List (List τ)} {s : State (Fin worldSize) Nat (Call τ)}

/-- A rank that is at the second barrier has waited for the calls of every chunk. -/
theorem sent_done (holds : Holds (updateWeights dtype args engines distributedSrcRank chunks) s) {rank : Fin worldSize}
    (some : chunks ≠ []) (sent : (untilSent dtype args engines distributedSrcRank chunks rank).length ≤ s.pc rank) (e : Nat) :
    toWorker e ((untilSent dtype args engines distributedSrcRank chunks rank).flatMap Instr.calls) <+: doneBy rank e s.log := by
  obtain ⟨front, last, rfl⟩ := (List.eq_nil_or_concat' chunks).resolve_left some
  -- the wait that ends the last turn
  let left := untilSent dtype args engines distributedSrcRank front rank ++
    (sendChunk dtype args engines distributedSrcRank rank last).take 2
  have whole : untilSent dtype args engines distributedSrcRank (front ++ [last]) rank = left ++ [.get] := by
    simp [left, untilSent, sendChunk]
  have split : updateWeights dtype args engines distributedSrcRank (front ++ [last]) rank =
      left ++ .get :: barrier :: resume args engines rank := by
    rw [updateWeights_sent, whole, List.append_assoc]
    rfl
  have lt : left.length < s.pc rank := by
    rw [whole, List.length_append] at sent
    exact sent
  have got := holds.got rank _ lt (getElem?_split split) e
  have calls : left.flatMap Instr.calls = (untilSent dtype args engines distributedSrcRank (front ++ [last]) rank).flatMap Instr.calls := by
    rw [whole]
    exact (List.flatMap_append.trans (List.append_nil _)).symm
  rwa [sent_split split, calls] at got

theorem all_loaded (holds : Holds (updateWeights dtype args engines distributedSrcRank chunks) s) {rank : Fin worldSize}
    (sent : (untilSent dtype args engines distributedSrcRank chunks rank).length ≤ s.pc rank) (e : Nat) :
    (chunks.flatMap fun chunk => loadsOf e (sendHfParams dtype args engines distributedSrcRank rank chunk)) <+:
      (doneBy rank e s.log).filterMap Call.loaded := by
  by_cases none : chunks = []
  · rw [none]
    exact List.nil_prefix
  · rw [← loadsOf_untilSent]
    exact (sent_done holds none sent e).filterMap _

/-- No rank has loaded more than all. -/
theorem loaded_within (holds : Holds (updateWeights dtype args engines distributedSrcRank chunks) s) (rank : Fin worldSize) (e : Nat) :
    (doneBy rank e s.log).filterMap Call.loaded <+:
      chunks.flatMap fun chunk => loadsOf e (sendHfParams dtype args engines distributedSrcRank rank chunk) := by
  have done : doneBy rank e s.log <+: toWorker e (sent (updateWeights dtype args engines distributedSrcRank chunks) rank (s.pc rank)) :=
    holds.fifo rank e ▸ List.prefix_append ..
  have some : toWorker e (sent (updateWeights dtype args engines distributedSrcRank chunks) rank (s.pc rank)) <+:
      toWorker e ((updateWeights dtype args engines distributedSrcRank chunks rank).flatMap Instr.calls) := by
    have cut := List.take_append_drop (s.pc rank) (updateWeights dtype args engines distributedSrcRank chunks rank)
    conv_rhs => rw [← cut, List.flatMap_append, toWorker_append]
    exact List.prefix_append ..
  rw [← loadsOf_updateWeights]
  exact (done.trans some).filterMap _

/-- The loads of an engine are those of its one source. -/
theorem loads_eq (holds : Holds (updateWeights dtype args engines distributedSrcRank chunks) s) {rank : Fin worldSize} {chunk : List τ}
    {item : Nat × Call τ} (mem : item ∈ sendHfParams dtype args engines distributedSrcRank rank chunk)
    {front : List (Event (Fin worldSize) Nat (Call τ))} (early : front <+: s.log) :
    loads item.1 front = (doneBy rank item.1 front).filterMap Call.loaded := by
  rw [loads, doneBy, List.filterMap_map, List.filterMap_filter, List.filterMap_filter]
  refine List.filterMap_congr fun ev here => ?_
  cases loaded : ev.call.loaded with
  | none => simp [loaded]
  | some tensors =>
    have own : ev.worker = item.1 → ev.rank = rank := fun same => by
      obtain ⟨k, calls, _, issued, inside⟩ := holds.called ev (early.subset here)
      obtain ⟨_, other, _, sent⟩ := load_call issued inside (by rw [loaded]; exact Option.some_ne_none _)
      exact one_source sent mem same
    by_cases mine : ev.worker = item.1
    · simp [mine, own mine, loaded]
    · simp [mine]

theorem loads_early {e : Nat} {front log : List (Event (Fin worldSize) Nat (Call τ))} (early : front <+: log) :
    loads e front <+: loads e log := (early.filter _).filterMap _

/-- What rank 0 has waited for before the first barrier is done. -/
theorem quiesced_done (holds : Holds (updateWeights dtype args engines distributedSrcRank chunks) s) {rank : Fin worldSize}
    (sent : (@quiesce τ args engines worldSize rank).length < s.pc rank) {e : Nat} (near : e ∈ rolloutEngines args engines) :
    (∃ r, ⟨.done, r, e, .pauseGeneration⟩ ∈ s.log) ∧ ∃ r, ⟨.done, r, e, .flushCache⟩ ∈ s.log := by
  let zero : Fin worldSize := ⟨0, rank.pos⟩
  have met : (@quiesce τ args engines worldSize rank).length ≤ s.pc zero :=
    holds.met rank _ sent _ (getElem?_split (updateWeights_quiesced rank)) zero (List.mem_finRange zero)
  have long : 4 ≤ (@quiesce τ args engines worldSize rank).length := quiesce_length rank
  have first (call : Call τ) (left right : List (Instr (Fin worldSize) Nat (Call τ)))
      (split : updateWeights dtype args engines distributedSrcRank chunks zero = left ++ .get :: right) (short : left.length < 4)
      (issued : (e, call) ∈ left.flatMap Instr.calls) : ∃ r, ⟨.done, r, e, call⟩ ∈ s.log := by
    have got := holds.got zero left.length (by omega) (getElem?_split split) e
    rw [sent_split split] at got
    exact ⟨zero, mem_doneBy.1 (got.subset (mem_toWorker.2 issued))⟩
  have calls (call : Call τ) : (e, call) ∈ (rolloutEngines args engines).map fun engine => (engine, call) := List.mem_map_of_mem near
  refine ⟨first .pauseGeneration [.issue _] _ rfl (Nat.lt_of_sub_eq_succ rfl) (List.mem_append_left _ (calls _)), ?_⟩
  refine first .flushCache [.issue _, .get, .issue _] _ rfl (Nat.lt_of_sub_eq_succ rfl) ?_
  exact List.mem_append_right _ (List.mem_append_right _ (List.mem_append_left _ (calls _)))

/-- **Engines on the GPUs of the training ranks are quiesced.** -/
theorem quiesced (run : Reaches (updateWeights dtype args engines distributedSrcRank chunks) start s)
    (near : distributedRolloutEngines args engines = []) (e : Nat) (some : Loaded e s.log) : Quiesced chunks s.log e := by
  have holds := holds_of_reaches run
  have source {e' : Nat} (loaded : Loaded e' s.log) :
      ∃ rank, ∃ chunk item, item.1 = e' ∧ item ∈ sendHfParams dtype args engines distributedSrcRank rank chunk := by
    obtain ⟨ev, mem, rfl, loads⟩ := loaded
    obtain ⟨k, calls, _, issued, inside⟩ := holds.called ev mem
    obtain ⟨_, chunk, _, sent⟩ := load_call issued inside loads
    exact ⟨ev.rank, chunk, _, rfl, sent⟩
  constructor
  · intro front ev back split same loads
    have found := preceded (Q := fun log (_ : Fin worldSize) e (c : Call τ) => c.loaded ≠ none →
        (∃ r, ⟨.done, r, e, .pauseGeneration⟩ ∈ log) ∧ ∃ r, ⟨.done, r, e, .flushCache⟩ ∈ log)
      (fun log more r e c old loads => (old loads).imp (fun ⟨r, mem⟩ => ⟨r, List.mem_append_left _ mem⟩) fun ⟨r, mem⟩ =>
        ⟨r, List.mem_append_left _ mem⟩)
      (fun s holds r k calls issued le call inside loads => by
        obtain ⟨after, chunk, _, sent⟩ := load_call issued inside loads
        refine quiesced_done holds (Nat.lt_of_lt_of_le after le) ?_
        rcases mem_sendHfParams.1 sent with ⟨joins, _⟩ | ⟨_, far, _⟩
        · rw [rolloutEngines_eq]
          exact List.mem_range.2 (ipcGatherGroup_mem joins)
        · rw [near] at far
          cases far) run front ev back split loads
    rwa [same] at found
  · obtain ⟨rank, chunk, item, rfl, sent⟩ := source some
    refine ⟨_, receives_all sent, ?_⟩
    rw [loads_eq holds sent (List.prefix_refl _)]
    exact loaded_within holds rank item.1
  · intro front ev back split same continues e' loaded
    obtain ⟨rank, chunk, item, rfl, sent⟩ := source loaded
    have early : front <+: s.log := split ▸ List.prefix_append ..
    have all := preceded (Q := fun log (_ : Fin worldSize) _ (c : Call τ) => c = .continueGeneration →
        (chunks.flatMap fun chunk => loadsOf item.1 (sendHfParams dtype args engines distributedSrcRank rank chunk)) <+:
          (doneBy rank item.1 log).filterMap Call.loaded)
      (fun log more r e c old continues => (old continues).trans (by
        rw [doneBy_append, List.filterMap_append]
        exact List.prefix_append ..))
      (fun s holds r k calls issued le call inside continues => by
        have after := Nat.lt_of_lt_of_le (continue_call issued inside continues) le
        refine all_loaded holds ?_ item.1
        have met := holds.met r _ after _ (getElem?_split (updateWeights_sent r)) rank (List.mem_finRange rank)
        exact Nat.le_trans (Nat.le_of_eq (untilSent_length rank r)) met) run front ev back split continues
    rw [← loads_eq holds sent early] at all
    have bound := (loads_early early).trans ((loads_eq holds sent (List.prefix_refl _)).symm ▸ loaded_within holds rank item.1)
    rw [bound.eq_of_length_le all.length_le]
    exact receives_all sent

/-- A call that loads nothing is on an engine of `self.rollout_engines`. -/
theorem silent_call (holds : Holds (updateWeights dtype args engines distributedSrcRank chunks) s)
    {ev : Event (Fin worldSize) Nat (Call τ)} (mem : ev ∈ s.log) (silent : ev.call.loaded = none) :
    ev.worker ∈ rolloutEngines args engines := by
  obtain ⟨k, calls, _, issued, inside⟩ := holds.called ev mem
  have here := List.mem_of_getElem? issued
  rw [updateWeights, List.mem_append, List.mem_cons, List.mem_append, List.mem_cons] at here
  rcases here with early | same | here | same | late
  · exact (mem_quiesce early inside).2.2
  · cases same
  · obtain ⟨chunk, _, here⟩ := List.mem_flatMap.1 here
    rw [sendChunk, List.mem_cons, List.mem_cons, List.mem_singleton] at here
    rcases here with same | same | same
    · cases same
    · obtain rfl := Instr.issue.inj same
      rcases mem_sendHfParams.1 inside with ⟨_, _, tensors, _, call⟩ | ⟨_, _, call⟩
      · cases (congrArg Call.loaded call).symm.trans silent
      · cases (congrArg Call.loaded call).symm.trans silent
    · cases same
  · cases same
  · exact (mem_resume late inside).2

/-- An engine that gets its chunks by broadcast is not paused. -/
theorem not_quiesced (holds : Holds (updateWeights dtype args engines distributedSrcRank chunks) s) {e : Nat}
    (far : e ∈ distributedRolloutEngines args engines) (some : Loaded e s.log) : ¬Quiesced chunks s.log e := by
  rintro ⟨before, _, _⟩
  obtain ⟨ev, mem, same, loads⟩ := some
  obtain ⟨front, back, split⟩ := List.append_of_mem mem
  obtain ⟨⟨r, paused⟩, _⟩ := before front ev back split same loads
  have near := silent_call holds (split ▸ List.mem_append_left _ paused) rfl
  rw [rolloutEngines_eq, List.mem_range] at near
  exact absurd near (Nat.not_lt.2 (distributed_ge far))

/-- Every rank is at the end of its program. -/
def Finished (program : Fin worldSize → List (Instr (Fin worldSize) Nat (Call τ))) (s : State (Fin worldSize) Nat (Call τ)) : Prop :=
  ∀ rank, s.pc rank = (program rank).length

theorem Finished.sent (finished : Finished (updateWeights dtype args engines distributedSrcRank chunks) s) (rank : Fin worldSize) :
    (untilSent dtype args engines distributedSrcRank chunks rank).length ≤ s.pc rank := by
  rw [finished, updateWeights_sent, List.length_append]
  exact Nat.le_add_right ..

theorem Finished.broadcast (finished : Finished (updateWeights dtype args engines distributedSrcRank chunks) s)
    (holds : Holds (updateWeights dtype args engines distributedSrcRank chunks) s) {e : Nat}
    (far : e ∈ distributedRolloutEngines args engines) (some : chunks ≠ []) : Loaded e s.log := by
  obtain ⟨chunk, rest, rfl⟩ := List.exists_cons_of_ne_nil some
  have sent : (e, Call.updateWeightsFromDistributed chunk) ∈ sendHfParams dtype args engines distributedSrcRank distributedSrcRank chunk :=
    mem_sendHfParams.2 (Or.inr ⟨rfl, far, rfl⟩)
  have issued : (e, Call.updateWeightsFromDistributed chunk) ∈
      (untilSent dtype args engines distributedSrcRank (chunk :: rest) distributedSrcRank).flatMap Instr.calls := by
    refine List.mem_flatMap.2 ⟨.issue _, ?_, sent⟩
    exact List.mem_append_right _ (List.mem_cons_of_mem _ (List.mem_flatMap.2 ⟨chunk, List.mem_cons_self ..,
      List.mem_cons_of_mem _ (List.mem_cons_self ..)⟩))
  have done := (sent_done holds some (finished.sent distributedSrcRank) e).subset (mem_toWorker.2 issued)
  exact ⟨_, mem_doneBy.1 done, rfl, nofun⟩

/-- The GPUs of every engine are among those of the training ranks. -/
def AllColocated (args : Args) (engines : RolloutEngines) : Prop :=
  ∀ i < engines.nums, gpuOffset args engines i + (engineGpuCounts args engines).getD i 0 ≤ args.actorNumNodes * args.actorNumGpusPerNode

theorem length_engineGpuOffsets : (engineGpuOffsets args engines).length = engines.nums := by
  unfold engineGpuOffsets
  cases given : engines.gpuOffsets with
  | none => exact (length_packedOffsets ..).trans length_engineGpuCounts
  | some offsets => exact engines.placed offsets given

theorem distributed_eq_nil : distributedRolloutEngines args engines = [] ↔ AllColocated args engines := by
  have few : distributedRolloutEngines args engines = [] ↔ engines.nums ≤ colocateEngineNums args engines := by
    unfold distributedRolloutEngines useDistribute
    split
    · rw [List.drop_eq_nil_iff, List.length_range]
    · rename_i whole
      rw [decide_eq_true_iff, Nat.not_lt] at whole
      exact iff_of_true rfl whole
  have size : ((engineGpuOffsets args engines).zip (engineGpuCounts args engines)).length = engines.nums := by
    rw [List.length_zip, length_engineGpuOffsets, length_engineGpuCounts, Nat.min_self]
  have place (i : Nat) (lt : i < engines.nums) : ((engineGpuOffsets args engines).zip (engineGpuCounts args engines))[i]? =
      some (gpuOffset args engines i, (engineGpuCounts args engines).getD i 0) := by
    refine List.getElem?_zip_eq_some.2 ⟨?_, ?_⟩
    · rw [gpuOffset, List.getD_eq_getElem?_getD, List.getElem?_eq_getElem (length_engineGpuOffsets.symm ▸ lt), Option.getD_some]
    · rw [List.getD_eq_getElem?_getD, List.getElem?_eq_getElem (length_engineGpuCounts.symm ▸ lt), Option.getD_some]
  rw [few, colocateEngineNums, ← size]
  constructor
  · intro all i lt
    have same := (List.takeWhile_prefix _).eq_of_length_le all
    exact of_decide_eq_true (List.takeWhile_eq_self_iff.1 same _ (List.mem_of_getElem? (place i lt)))
  · intro near
    rw [List.takeWhile_eq_self_iff.2 fun p mem => ?_]
    obtain ⟨i, here⟩ := List.mem_iff_getElem?.1 mem
    have lt : i < engines.nums := size ▸ (List.getElem?_eq_some_iff.1 here).1
    rw [place i lt] at here
    rw [← Option.some.inj here]
    exact decide_eq_true (near i lt)

/-- **Engines on the GPUs of the training ranks are quiesced at all times, and a whole update quiesces every
engine that it reaches if and only if all engines are on these GPUs, or there is nothing to send.** -/
theorem quiesces_iff (run : Reaches (updateWeights dtype args engines distributedSrcRank chunks) start s) :
    (AllColocated args engines ∨ chunks = [] → ∀ e, Loaded e s.log → Quiesced chunks s.log e) ∧
      (Finished (updateWeights dtype args engines distributedSrcRank chunks) s →
        ((∀ e, Loaded e s.log → Quiesced chunks s.log e ∧ Receives chunks (loads e s.log)) ↔
          AllColocated args engines ∨ chunks = [])) := by
  have holds := holds_of_reaches run
  have safe (near : AllColocated args engines ∨ chunks = []) (e : Nat) (some : Loaded e s.log) : Quiesced chunks s.log e := by
    rcases near with near | rfl
    · exact quiesced run (distributed_eq_nil.2 near) e some
    · obtain ⟨ev, mem, _, loads⟩ := some
      obtain ⟨k, calls, _, issued, inside⟩ := holds.called ev mem
      obtain ⟨_, chunk, none, _⟩ := load_call issued inside loads
      cases none
  refine ⟨safe, fun finished => ⟨fun quiesces => ?_, fun near e some => ⟨safe near e some, ?_⟩⟩⟩
  · by_contra neither
    obtain ⟨far, some⟩ := not_or.1 neither
    obtain ⟨e, mem⟩ := List.exists_mem_of_ne_nil _ (mt distributed_eq_nil.1 far)
    have loaded := finished.broadcast holds mem some
    exact not_quiesced holds mem loaded (quiesces e loaded).1
  · obtain ⟨ev, mem, rfl, loads⟩ := some
    obtain ⟨k, calls, _, issued, inside⟩ := holds.called ev mem
    obtain ⟨_, chunk, _, sent⟩ := load_call issued inside loads
    have all := all_loaded holds (finished.sent ev.rank) ev.worker
    rw [loads_eq holds sent (List.prefix_refl _), (loaded_within holds ev.rank ev.worker).eq_of_length_le all.length_le]
    exact receives_all sent

end Run

/-- One training rank on one GPU. -/
def oneGpu : Args := ⟨1, 1, 1, false, false⟩

/-- One engine of one GPU. -/
def oneEngine (gpu : Nat) : RolloutEngines where
  nums := 1
  gpuCounts := some [1]
  gpuOffsets := some [gpu]
  counted := fun _ same => Option.some.inj same ▸ rfl
  placed := fun _ same => Option.some.inj same ▸ rfl

/-- One chunk of two tensors, which are their own types. -/
def oneRank (gpu : Nat) : Fin 1 → List (Instr (Fin 1) Nat (Call Nat)) :=
  updateWeights id oneGpu (oneEngine gpu) ⟨0, Nat.one_pos⟩ [[7, 8]]

/-- The moves of a whole update: the engine is paused and flushed, gets two calls, and is continued. -/
def wholeUpdate : List (Move (Fin 1)) :=
  let r : Fin 1 := ⟨0, Nat.one_pos⟩
  [.advance r, .run r, .advance r, .advance r, .run r, .advance r, .advance r, .advance r, .advance r, .run r, .run r, .advance r,
    .advance r, .advance r, .run r, .advance r, .advance r]

theorem quiesces_iff_one : ∃ s, Reaches (oneRank 0) start s ∧ Finished (oneRank 0) s ∧
    (AllColocated oneGpu (oneEngine 0) ∨ [[7, 8]] = ([] : List (List Nat)) → ∀ e, Loaded e s.log → Quiesced [[7, 8]] s.log e) ∧
      (Finished (oneRank 0) s → ((∀ e, Loaded e s.log → Quiesced [[7, 8]] s.log e ∧ Receives [[7, 8]] (loads e s.log)) ↔
        AllColocated oneGpu (oneEngine 0) ∨ [[7, 8]] = ([] : List (List Nat)))) := by
  have played : play (oneRank 0) start wholeUpdate = some ((play (oneRank 0) start wholeUpdate).get rfl) := rfl
  have run := play_reaches played
  refine ⟨_, run, fun rank => ?_, quiesces_iff run⟩
  obtain rfl : rank = ⟨0, Nat.one_pos⟩ := Subsingleton.elim _ _
  rfl

/-- An engine on the next GPU gets a chunk without a pause. -/
theorem not_quiesced_one : ∃ s, Reaches (oneRank 1) start s ∧ Loaded 0 s.log ∧ ¬Quiesced [[7, 8]] s.log 0 := by
  let moves : List (Move (Fin 1)) := List.replicate 7 (.advance ⟨0, Nat.one_pos⟩)
  have played : play (oneRank 1) start moves = some ((play (oneRank 1) start moves).get rfl) := rfl
  have run := play_reaches played
  have loaded : Loaded 0 ((play (oneRank 1) start moves).get rfl).log :=
    ⟨⟨.issued, ⟨0, Nat.one_pos⟩, 0, .updateWeightsFromDistributed [7, 8]⟩, List.mem_cons_self .., rfl, nofun⟩
  exact ⟨_, run, loaded, not_quiesced (holds_of_reaches run) (List.mem_cons_self ..) loaded⟩

end SlimeBoard.TensorUpdate
