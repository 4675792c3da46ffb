import SlimeBoard.Rollout.Sample

/-!
# From rollouts to training payloads

The rollout manager flattens and trims the samples of a rollout, dumps them if asked to,
converts them to training data, and splits these by data parallel rank. With a dump to
load, the samples come from the dump instead.
-/

namespace SlimeBoard

open SlimeTypes (Value SampleDict)

/-- Lists in lists, `depth` deep. -/
def NestedList (α : Type) : Nat → Type
  | 0 => α
  | depth + 1 => List (NestedList α depth)

/-- `while isinstance(data[0], list): data = list(itertools.chain.from_iterable(data))` -/
def flattenData {α : Type} : (depth : Nat) → List (NestedList α depth) → Py (List α)
  | 0, data => if data.isEmpty then .error .indexError else .ok data
  | depth + 1, data => if data.isEmpty then .error .indexError else flattenData depth (List.flatten data)

structure ManagerArgs (Obj : Type) where
  rewardKey : Option String
  advantageEstimator : String
  rewardsNormalization : Bool
  grpoStdNormalization : Bool
  nSamplesPerPrompt : ℕ+
  rolloutBatchSize : Nat
  globalBatchSize : ℕ+
  /-- `train_parallel_config["dp_size"]` -/
  dpSize : ℕ+
  useDynamicGlobalBatchSize : Bool
  disableRolloutTrimSamples : Bool
  debugRolloutOnly : Bool
  balanceData : Bool
  customRewardPostProcess : Option (List (SlimeTypes.Sample Obj) → Py (List (Value Obj) × List (Value Obj)))
  customConvertSamplesToTrainData : Option (List (SlimeTypes.Sample Obj) → Py (Dict String (List (Value Obj))))
  /-- `std` of a tensor -/
  std : List ℚ → ℚ
  /-- `get_seqlen_balanced_partitions`, with `equal_size` -/
  seqlenBalancedPartitions : List Nat → Nat → Py (List (List Nat))

mutual

/-- The elements and the shape of `torch.tensor(value, dtype=torch.float)`. -/
def floatTensor {Obj : Type} : Value Obj → Py (List ℚ × List Nat)
  | .int i => .ok ([(i : ℚ)], [])
  | .float q => .ok ([q], [])
  | .list values => do
    let parts ← floatTensors values
    match parts with
    | [] => return ([], [0])
    | (_, shape) :: _ =>
      if parts.all fun part => decide (part.2 = shape) then return (parts.flatMap (·.1), parts.length :: shape)
      else .error .valueError
  | _ => .error .typeError

def floatTensors {Obj : Type} : List (Value Obj) → Py (List (List ℚ × List Nat))
  | [] => .ok []
  | value :: rest => do
    let part ← floatTensor value
    let parts ← floatTensors rest
    return part :: parts

end

section Code

variable {Obj : Type} (args : ManagerArgs Obj)

def computeDynamicGlobalBatchSize (numSamples : Nat) : Nat :=
  let dynamicGbs := numSamples / args.dpSize * args.dpSize
  if dynamicGbs = 0 then args.dpSize else dynamicGbs

/-- Where the samples of a rollout come from. -/
inductive RolloutInput (Obj : Type) where
  | loadDebugRolloutData (samples : List (SampleDict Obj))
  | generated (depth : Nat) (data : List (NestedList (SlimeTypes.Sample Obj) depth))

/-- `_get_rollout_data`, with the value of `_dynamic_global_batch_size` before and after, if it has one -/
def getRolloutData (dynamicGlobalBatchSize : Option Nat) : RolloutInput Obj → Py (List (SlimeTypes.Sample Obj)) × Option Nat
  | .loadDebugRolloutData samples => (samples.mapM SlimeTypes.Sample.fromDict, dynamicGlobalBatchSize)
  | .generated depth data =>
    match flattenData depth data with
    | .error e => (.error e, dynamicGlobalBatchSize)
    | .ok data =>
      if args.disableRolloutTrimSamples = false ∧ args.debugRolloutOnly = false then
        let dynamicGlobalBatchSize :=
          if args.useDynamicGlobalBatchSize then some (computeDynamicGlobalBatchSize args data.length) else dynamicGlobalBatchSize
        let globalBatchSize :=
          if args.useDynamicGlobalBatchSize then computeDynamicGlobalBatchSize args data.length else args.globalBatchSize
        if data.length % globalBatchSize ≠ 0 then
          let trimLen := data.length / globalBatchSize * globalBatchSize
          if trimLen = 0 then (.error .valueError, dynamicGlobalBatchSize) else (.ok (data.take trimLen), dynamicGlobalBatchSize)
        else (.ok data, dynamicGlobalBatchSize)
      else (.ok data, dynamicGlobalBatchSize)

/-- The samples that `_save_debug_rollout_data` writes. -/
def saveDebugRolloutData (data : List (SlimeTypes.Sample Obj)) : List (SampleDict Obj) := data.map SlimeTypes.Sample.toDict

/-- The normalization of one row of rewards. -/
def normalizeRow (row : List ℚ) : List ℚ :=
  let mean := row.sum / row.length
  let rewards := row.map (· - mean)
  if args.advantageEstimator ∈ ["grpo", "gspo"] ∧ args.grpoStdNormalization then
    rewards.map (· / (args.std rewards + 1 / 1000000))
  else rewards

def postProcessRewards (samples : List (SlimeTypes.Sample Obj)) : Py (List (Value Obj) × List (Value Obj)) :=
  match args.customRewardPostProcess with
  | some f => f samples
  | none => do
    let rawRewards ← samples.mapM (·.getRewardValue args.rewardKey)
    if args.advantageEstimator ∈ ["grpo", "gspo", "reinforce_plus_plus_baseline"] ∧ args.rewardsNormalization then
      let (rewards, shape) ← floatTensor (Value.list rawRewards)
      let last := shape.getLastD 0
      if last = args.nSamplesPerPrompt * args.rolloutBatchSize then
        return (rawRewards, ((rewards.toChunks args.nSamplesPerPrompt).flatMap (normalizeRow args)).map .float)
      else if last = 0 then .error .runtimeError
      else return (rawRewards, ((rewards.toChunks last).flatMap (normalizeRow args)).map .float)
    else return (rawRewards, rawRewards)

/-- The loss mask that training gets for a sample. -/
def trainLossMask (s : SlimeTypes.Sample Obj) : Py (Value Obj) := do
  let lossMask := s.lossMask.getD (List.replicate s.responseLength 1)
  pyAssert (decide (lossMask.length = s.responseLength))
  return .ints (if s.removeSample then List.replicate s.responseLength 0 else lossMask)

/-- A column of the samples' metadata, if the first sample has the key. -/
def metadataColumn (key : String) (first : SlimeTypes.Sample Obj) (samples : List (SlimeTypes.Sample Obj))
    (trainData : Dict String (List (Value Obj))) : Py (Dict String (List (Value Obj))) :=
  if key ∈ first.metadata then do
    let column ← samples.mapM fun s => s.metadata.get key
    return trainData.insert key column
  else .ok trainData

/-- A column that is there on a condition. -/
def columnIf (given : Bool) (key : String) (column : List (Value Obj)) (trainData : Dict String (List (Value Obj))) :
    Dict String (List (Value Obj)) :=
  if given then trainData.insert key column else trainData

def convertSamplesToTrainData (samples : List (SlimeTypes.Sample Obj)) : Py (Dict String (List (Value Obj))) :=
  match args.customConvertSamplesToTrainData with
  | some f => f samples
  | none => do
    let (rawRewards, rewards) ← postProcessRewards args samples
    pyAssert (decide (rawRewards.length = samples.length))
    pyAssert (decide (rewards.length = samples.length))
    let trainData : Dict String (List (Value Obj)) := AList.singleton "tokens" (samples.map fun s => .ints s.tokens)
    let trainData := trainData.insert "response_lengths" (samples.map fun s => .int s.responseLength)
    let trainData := trainData.insert "rewards" rewards
    let trainData := trainData.insert "raw_reward" rawRewards
    let trainData := trainData.insert "truncated" (samples.map fun s => .int (if s.status = .truncated then 1 else 0))
    let trainData := trainData.insert "sample_indices" (samples.map fun s => .ofOption .int s.index)
    let lossMasks ← samples.mapM trainLossMask
    let trainData := trainData.insert "loss_masks" lossMasks
    match samples with
    | [] => .error .indexError
    | first :: _ =>
      let trainData ← metadataColumn "raw_reward" first samples trainData
      let trainData ← metadataColumn "round_number" first samples trainData
      let trainData := columnIf first.rolloutLogProbs.isSome "rollout_log_probs"
        (samples.map fun s => .ofOption .floats s.rolloutLogProbs) trainData
      let trainData := columnIf first.logitsMasks.isSome "logits_masks"
        (samples.map fun s => .ofOption (fun masks => .list (masks.map .ints)) s.logitsMasks) trainData
      let trainData := columnIf (!first.rolloutRoutedExperts.isNull) "rollout_routed_experts"
        (samples.map (·.rolloutRoutedExperts)) trainData
      let trainData := columnIf (!first.trainMetadata.isNull) "metadata" (samples.map (·.trainMetadata)) trainData
      let trainData := columnIf (samples.any fun s => !s.multimodalTrainInputs.isNull) "multimodal_train_inputs"
        (samples.map (·.multimodalTrainInputs)) trainData
      return columnIf first.teacherLogProbs.isSome "teacher_log_probs"
        (samples.map fun s => .ofOption .floats s.teacherLogProbs) trainData

/-- The keys of which a rank gets its partition. -/
def splitKeys : List String :=
  ["tokens", "multimodal_train_inputs", "response_lengths", "rewards", "truncated", "loss_masks", "round_number",
    "sample_indices", "rollout_log_probs", "rollout_routed_experts", "prompt", "teacher_log_probs"]

/-- The keys that are split at the train side. -/
def wholeKeys : List String := ["raw_reward", "total_lengths", "logits_masks"]

def addSplit (data : Dict String (List (Value Obj))) (partition : List Nat) (payload : Dict String (Value Obj)) (key : String) :
    Py (Dict String (Value Obj)) :=
  match data.lookup key with
  | none => .ok payload
  | some column => do
    let val ← partition.mapM (pyIndex column)
    return payload.insert key (.list val)

def addWhole (data : Dict String (List (Value Obj))) (payload : Dict String (Value Obj)) (key : String) : Dict String (Value Obj) :=
  match data.lookup key with
  | none => payload
  | some column => payload.insert key (.list column)

/-- What a rank gets of the data. -/
def rankData (data : Dict String (List (Value Obj))) (partition : List Nat) : Py (Dict String (Value Obj)) := do
  let payload : Dict String (Value Obj) := AList.singleton "partition" (.ints (partition.map fun j => (j : Int)))
  let payload ← splitKeys.foldlM (addSplit data partition) payload
  return wholeKeys.foldl (addWhole data) payload

/-- The payload of a rank. -/
def withGlobalBatchSize (dynamicGlobalBatchSize : Option Nat) (payload : Dict String (Value Obj)) : Dict String (Value Obj) :=
  match dynamicGlobalBatchSize with
  | none => payload
  | some size => payload.insert "dynamic_global_batch_size" (.int size)

def partitionsOf (totalLengths : List Nat) : Py (List (List Nat)) :=
  if args.balanceData then args.seqlenBalancedPartitions totalLengths args.dpSize
  else
    .ok ((List.range args.dpSize).map fun i =>
      List.range' i ((totalLengths.length + args.dpSize - 1 - i) / args.dpSize) args.dpSize)

def splitTrainDataByDp (dynamicGlobalBatchSize : Option Nat) (data : Dict String (List (Value Obj))) :
    Py (List (Dict String (Value Obj))) := do
  let tokens ← data.get "tokens"
  let totalLengths ← tokens.mapM Value.len
  let data := data.insert "total_lengths" (totalLengths.map fun n => .int n)
  let partitions ← partitionsOf args totalLengths
  (List.range args.dpSize).mapM fun i => do
    let partition ← pyIndex partitions i
    let payload ← rankData data partition
    return withGlobalBatchSize dynamicGlobalBatchSize payload

/-- What `generate` makes of the samples. With `debug_rollout_only` it returns nothing. -/
def trainPayloads (dynamicGlobalBatchSize : Option Nat) (data : List (SlimeTypes.Sample Obj)) :
    Py (Option (List (Dict String (Value Obj)))) :=
  if args.debugRolloutOnly then .ok none
  else do
    let trainData ← convertSamplesToTrainData args data
    let payloads ← splitTrainDataByDp args dynamicGlobalBatchSize trainData
    return some payloads

/-- What `generate` dumps and returns. -/
structure Generated (Obj : Type) where
  dump : List (SampleDict Obj)
  payloads : Py (Option (List (Dict String (Value Obj))))

/-- `RolloutManager.generate`, with `_dynamic_global_batch_size` before and after -/
def RolloutManager.generate (dynamicGlobalBatchSize : Option Nat) (input : RolloutInput Obj) : Py (Generated Obj) × Option Nat :=
  let (data, dynamicGlobalBatchSize) := getRolloutData args dynamicGlobalBatchSize input
  (do
    let data ← data
    return {
      dump := saveDebugRolloutData data
      payloads := trainPayloads args dynamicGlobalBatchSize data },
    dynamicGlobalBatchSize)

/-- `_dynamic_global_batch_size` after some rollouts of a new manager. -/
def dynamicSizeAfter (inputs : List (RolloutInput Obj)) : Option Nat :=
  inputs.foldl (fun size input => (RolloutManager.generate args size input).2) none

/-- Rollouts set `_dynamic_global_batch_size`. -/
def ManagerArgs.SetsBatchSize : Prop :=
  args.useDynamicGlobalBatchSize = true ∧ args.disableRolloutTrimSamples = false ∧ args.debugRolloutOnly = false

end Code

section Replay

variable {Obj : Type} {args : ManagerArgs Obj}

/-! ## The batch size -/

theorem size_loads (dumps : List (List (SampleDict Obj))) : dynamicSizeAfter args (dumps.map .loadDebugRolloutData) = none := by
  unfold dynamicSizeAfter
  rw [List.foldl_map]
  induction dumps with
  | nil => rfl
  | cons dump rest ih => exact ih

theorem size_unset (unset : ¬args.SetsBatchSize) (size : Option Nat) (input : RolloutInput Obj) :
    (RolloutManager.generate args size input).2 = size := by
  show (getRolloutData args size input).2 = size
  cases input with
  | loadDebugRolloutData dump => rfl
  | generated depth data =>
    rw [getRolloutData]
    split
    · rfl
    · split
      · rename_i trims
        have off : args.useDynamicGlobalBatchSize = false := by
          by_contra on
          exact unset ⟨Bool.eq_true_of_not_eq_false on, trims⟩
        simp only [off, Bool.false_eq_true, if_false]
        split
        · split
          · rfl
          · rfl
        · rfl
      · rfl

theorem sizeAfter_unset (unset : ¬args.SetsBatchSize) (inputs : List (RolloutInput Obj)) : dynamicSizeAfter args inputs = none := by
  unfold dynamicSizeAfter
  induction inputs with
  | nil => rfl
  | cons input rest ih => rw [List.foldl_cons, size_unset unset, ih]

/-- A rollout that is trimmed to a derived batch size sets it. -/
theorem size_set (sets : args.SetsBatchSize) {size : Option Nat} {depth : Nat} {data : List (NestedList (SlimeTypes.Sample Obj) depth)}
    {samples : List (SlimeTypes.Sample Obj)} (got : (getRolloutData args size (.generated depth data)).1 = .ok samples) :
    ∃ g, (getRolloutData args size (.generated depth data)).2 = some g := by
  obtain ⟨dynamic, trims⟩ := sets
  rw [getRolloutData] at got ⊢
  split at got
  · cases got
  · simp only [if_pos trims, dynamic, if_true] at got ⊢
    split
    · split
      · exact ⟨_, rfl⟩
      · exact ⟨_, rfl⟩
    · exact ⟨_, rfl⟩

/-! ## The payloads -/

theorem addSplit_lookup {data : Dict String (List (Value Obj))} {partition : List Nat} {payload payload' : Dict String (Value Obj)}
    {key other : String} (differ : other ≠ key) (ok : addSplit data partition payload key = .ok payload') :
    payload'.lookup other = payload.lookup other := by
  unfold addSplit at ok
  split at ok
  · rw [Except.ok.inj ok]
  · rename_i column _
    cases rows : partition.mapM (pyIndex column) with
    | error e =>
      rw [rows] at ok
      cases ok
    | ok val =>
      rw [rows] at ok
      rw [← Except.ok.inj ok, Dict.lookup_insert, if_neg differ]

theorem addSplits_lookup {data : Dict String (List (Value Obj))} {partition : List Nat} {keys : List String}
    {payload payload' : Dict String (Value Obj)} {other : String} (differ : other ∉ keys)
    (ok : keys.foldlM (addSplit data partition) payload = .ok payload') : payload'.lookup other = payload.lookup other := by
  induction keys generalizing payload with
  | nil => rw [Except.ok.inj ok]
  | cons key rest ih =>
    rw [List.foldlM_cons] at ok
    obtain ⟨notKey, notRest⟩ := not_or.1 (mt List.mem_cons.2 differ)
    cases step : addSplit data partition payload key with
    | error e =>
      rw [step] at ok
      cases ok
    | ok mid =>
      rw [step] at ok
      rw [ih notRest ok, addSplit_lookup notKey step]

theorem addWholes_lookup {data : Dict String (List (Value Obj))} {keys : List String} {payload : Dict String (Value Obj)}
    {other : String} (differ : other ∉ keys) : (keys.foldl (addWhole data) payload).lookup other = payload.lookup other := by
  induction keys generalizing payload with
  | nil => rfl
  | cons key rest ih =>
    obtain ⟨notKey, notRest⟩ := not_or.1 (mt List.mem_cons.2 differ)
    rw [List.foldl_cons, ih notRest, addWhole]
    split
    · rfl
    · rw [Dict.lookup_insert, if_neg notKey]

/-- The data of a rank has no batch size. -/
theorem rankData_lookup {data : Dict String (List (Value Obj))} {partition : List Nat} {payload : Dict String (Value Obj)}
    (ok : rankData data partition = .ok payload) : payload.lookup "dynamic_global_batch_size" = none := by
  unfold rankData at ok
  cases columns : splitKeys.foldlM (addSplit data partition) (AList.singleton "partition" (.ints (partition.map fun j => (j : Int)))) with
  | error e =>
    dsimp only at ok
    rw [columns] at ok
    cases ok
  | ok mid =>
    dsimp only at ok
    rw [columns] at ok
    rw [← Except.ok.inj ok, addWholes_lookup (by decide), addSplits_lookup (by decide) columns]
    rfl

/-- If the ranks with a batch size get what the ranks without one get, there are no ranks. -/
theorem mapM_withSize {α : Type} {f : α → Py (Dict String (Value Obj))} (without : ∀ a payload, f a = .ok payload →
    payload.lookup "dynamic_global_batch_size" = none) (size : Nat) {l : List α} {payloads : List (Dict String (Value Obj))}
    (sized : (l.mapM fun a => do
      let payload ← f a
      return withGlobalBatchSize (some size) payload) = .ok payloads)
    (plain : (l.mapM fun a => do
      let payload ← f a
      return withGlobalBatchSize none payload) = .ok payloads) : l = [] := by
  cases l with
  | nil => rfl
  | cons a rest =>
    rw [List.mapM_cons] at sized plain
    cases first : f a with
    | error e =>
      rw [first] at plain
      cases plain
    | ok payload =>
      rw [first, Py.ok_bind] at sized plain
      cases tails : rest.mapM fun a => do
          let payload ← f a
          return withGlobalBatchSize (some size) payload with
      | error e =>
        rw [tails] at sized
        cases sized
      | ok back =>
        cases tails' : rest.mapM fun a => do
            let payload ← f a
            return withGlobalBatchSize none payload with
        | error e =>
          rw [tails'] at plain
          cases plain
        | ok back' =>
          rw [tails] at sized
          rw [tails'] at plain
          have head : payload.insert "dynamic_global_batch_size" (.int size) = payload :=
            (List.cons.inj (Except.ok.inj (sized.trans plain.symm))).1
          have found := congrArg (AList.lookup "dynamic_global_batch_size") head
          rw [Dict.lookup_insert, if_pos rfl, without a payload first] at found
          cases found

theorem split_size {size : Nat} {data : Dict String (List (Value Obj))} {rows : List (Dict String (Value Obj))}
    (sized : splitTrainDataByDp args (some size) data = .ok rows) : splitTrainDataByDp args none data ≠ .ok rows := by
  intro plain
  unfold splitTrainDataByDp at sized plain
  obtain ⟨tokens, here, sized⟩ := Py.bind_eq_ok.1 sized
  rw [here, Py.ok_bind] at plain
  obtain ⟨lengths, counted, sized⟩ := Py.bind_eq_ok.1 sized
  rw [counted, Py.ok_bind] at plain
  obtain ⟨partitions, cut, sized⟩ := Py.bind_eq_ok.1 sized
  rw [cut, Py.ok_bind] at plain
  simp only [← bind_assoc] at sized plain
  have noRanks := mapM_withSize (fun i payload ok => ?_) size sized plain
  · exact absurd (List.range_eq_nil.1 noRanks) args.dpSize.pos.ne'
  · obtain ⟨partition, _, ok⟩ := Py.bind_eq_ok.1 ok
    exact rankData_lookup ok

/-- The payloads with a batch size are not those without one. -/
theorem trainPayloads_size {size : Nat} {data : List (SlimeTypes.Sample Obj)} {payloads : List (Dict String (Value Obj))}
    (sized : trainPayloads args (some size) data = .ok (some payloads)) : trainPayloads args none data ≠ .ok (some payloads) := by
  intro plain
  unfold trainPayloads at sized plain
  split at sized
  · cases sized
  · rename_i trains
    rw [if_neg trains] at plain
    obtain ⟨trainData, converted, sized⟩ := Py.bind_eq_ok.1 sized
    rw [converted, Py.ok_bind] at plain
    obtain ⟨rows, cut, same⟩ := Py.bind_eq_ok.1 sized
    obtain ⟨rows', cut', same'⟩ := Py.bind_eq_ok.1 plain
    have equal : rows = rows' := Option.some.inj (Except.ok.inj (same.trans same'.symm))
    exact split_size cut (equal ▸ cut')

section Run

variable {earlier : List (RolloutInput Obj)} {depth : Nat} {data : List (NestedList (SlimeTypes.Sample Obj) depth)}
  {dump : List (SampleDict Obj)} {payloads : List (Dict String (Value Obj))}

/-- A run makes its payloads of the samples that it dumps, and its replay makes them of the same samples. -/
theorem replay_samples (loads : List (List (SampleDict Obj)))
    (live : (RolloutManager.generate args (dynamicSizeAfter args earlier) (.generated depth data)).1 = .ok ⟨dump, .ok (some payloads)⟩) :
    ∃ samples, (getRolloutData args (dynamicSizeAfter args earlier) (.generated depth data)).1 = .ok samples ∧
      trainPayloads args (getRolloutData args (dynamicSizeAfter args earlier) (.generated depth data)).2 samples = .ok (some payloads) ∧
      (RolloutManager.generate args (dynamicSizeAfter args (loads.map .loadDebugRolloutData)) (.loadDebugRolloutData dump)).1 =
        .ok ⟨dump, trainPayloads args none samples⟩ := by
  unfold RolloutManager.generate at live
  obtain ⟨samples, got, same⟩ := Py.bind_eq_ok.1 live
  obtain ⟨saved, paid⟩ := Generated.mk.inj (Except.ok.inj same)
  refine ⟨samples, got, paid, ?_⟩
  unfold RolloutManager.generate getRolloutData
  dsimp only
  rw [size_loads, ← saved, saveDebugRolloutData, SlimeTypes.Sample.mapM_fromDict_toDict]
  rfl

theorem not_replays (loads : List (List (SampleDict Obj)))
    (live : (RolloutManager.generate args (dynamicSizeAfter args earlier) (.generated depth data)).1 = .ok ⟨dump, .ok (some payloads)⟩)
    (sets : args.SetsBatchSize) :
    (RolloutManager.generate args (dynamicSizeAfter args (loads.map .loadDebugRolloutData)) (.loadDebugRolloutData dump)).1 ≠
      .ok ⟨dump, .ok (some payloads)⟩ := by
  obtain ⟨samples, got, paid, replay⟩ := replay_samples loads live
  obtain ⟨size, set⟩ := size_set sets got
  rw [set] at paid
  rw [replay]
  intro same
  exact trainPayloads_size paid (Generated.mk.inj (Except.ok.inj same)).2

/-- **The replay of a dump yields the payloads of the run that wrote it if and only if the
run does not set a batch size of its own.** -/
theorem replays_iff (loads : List (List (SampleDict Obj)))
    (live : (RolloutManager.generate args (dynamicSizeAfter args earlier) (.generated depth data)).1 = .ok ⟨dump, .ok (some payloads)⟩) :
    (RolloutManager.generate args (dynamicSizeAfter args (loads.map .loadDebugRolloutData)) (.loadDebugRolloutData dump)).1 =
        .ok ⟨dump, .ok (some payloads)⟩ ↔ ¬args.SetsBatchSize := by
  refine ⟨fun same sets => not_replays loads live sets same, fun unset => ?_⟩
  obtain ⟨samples, _, paid, replay⟩ := replay_samples loads live
  have kept := size_unset unset (dynamicSizeAfter args earlier) (.generated depth data)
  rw [sizeAfter_unset unset] at kept paid
  have kept : (getRolloutData args none (.generated depth data)).2 = none := kept
  rw [kept] at paid
  rw [replay, paid]

end Run

end Replay

/-- Two ranks, and a batch size of four if it is not derived from the rollout. -/
def twoRanks (derived : Bool) : ManagerArgs Unit where
  rewardKey := none
  advantageEstimator := "grpo"
  rewardsNormalization := false
  grpoStdNormalization := false
  nSamplesPerPrompt := Nat.succPNat 1
  rolloutBatchSize := 2
  globalBatchSize := Nat.succPNat 3
  dpSize := Nat.succPNat 1
  useDynamicGlobalBatchSize := derived
  disableRolloutTrimSamples := false
  debugRolloutOnly := false
  balanceData := false
  customRewardPostProcess := none
  customConvertSamplesToTrainData := none
  std _ := 0
  seqlenBalancedPartitions _ _ := .error .valueError

/-- Two groups of two samples. -/
def twoGroups : List (NestedList (SlimeTypes.Sample Unit) 1) :=
  [[SlimeTypes.shortAnswer 0, SlimeTypes.shortAnswer 1], [SlimeTypes.shortAnswer 2, SlimeTypes.shortAnswer 3]]

theorem replays_iff_two : ∃ dump payloads,
    (RolloutManager.generate (twoRanks false) (dynamicSizeAfter (twoRanks false) []) (.loadDebugRolloutData dump)).1 =
      .ok ⟨dump, .ok (some payloads)⟩ ↔ ¬(twoRanks false).SetsBatchSize :=
  ⟨_, _, @replays_iff Unit (twoRanks false) [] 1 twoGroups _ _ [] rfl⟩

theorem not_replays_two : ∃ dump payloads,
    (RolloutManager.generate (twoRanks true) (dynamicSizeAfter (twoRanks true) []) (.generated 1 twoGroups)).1 =
        .ok ⟨dump, .ok (some payloads)⟩ ∧
      (RolloutManager.generate (twoRanks true) (dynamicSizeAfter (twoRanks true) []) (.loadDebugRolloutData dump)).1 ≠
        .ok ⟨dump, .ok (some payloads)⟩ := by
  obtain ⟨dump, payloads, live⟩ : ∃ dump payloads,
      (RolloutManager.generate (twoRanks true) (dynamicSizeAfter (twoRanks true) []) (.generated 1 twoGroups)).1 =
        .ok ⟨dump, .ok (some payloads)⟩ := ⟨_, _, rfl⟩
  exact ⟨dump, payloads, live, not_replays [] live ⟨rfl, rfl, rfl⟩⟩

end SlimeBoard
