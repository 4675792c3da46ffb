import SlimeBoard.Rollout.TrainData
import SlimeBoard.Train.SeqlenBalancing

/-!
# Data of a data-parallel rank

`_split_train_data_by_dp` gives each rank the columns of its partition and some columns
whole, to be split at the train side. `process_rollout_data` takes the payload of a rank
apart and splits the total lengths.
-/

namespace SlimeBoard

open SlimeTypes (Value)

section Code

variable {Obj : Type}

/-- The elements that `for x in value` goes through. -/
def elements : Value Obj → Py (List (Value Obj))
  | .list values => .ok values
  | _ => .error .typeError

/-- `values[i]`, counted from the end if `i` is negative -/
def elementAt (values : List (Value Obj)) : Value Obj → Py (Value Obj)
  | .int (.ofNat i) => pyIndex values i
  | .int (.negSucc i) => if i < values.length then pyIndex values (values.length - (i + 1)) else .error .indexError
  | _ => .error .typeError

def processRolloutData (rolloutDataRef : List (Dict String (Value Obj))) (dpRank dpSize : Nat) : Py (Dict String (Value Obj)) := do
  pyAssert (decide (rolloutDataRef.length = dpSize))
  let rolloutData ← pyIndex rolloutDataRef dpRank
  let partition ← rolloutData.get "partition"
  let rolloutData ← rolloutData.del "partition"
  let totalLengths ← rolloutData.get "total_lengths"
  let indices ← elements partition
  let lengths ← indices.mapM fun i => do
    let values ← elements totalLengths
    elementAt values i
  return rolloutData.insert "total_lengths" (.list lengths)

/-- The per-sample fields that the trainer fetches for its micro-batches. -/
def fetchedKeys : List String :=
  ["tokens", "loss_masks", "total_lengths", "response_lengths", "rewards", "rollout_log_probs", "teacher_log_probs",
    "logits_masks", "multimodal_train_inputs", "rollout_routed_experts"]

/-- The manager balances with `get_seqlen_balanced_partitions`. -/
def ManagerArgs.balancing (args : ManagerArgs Obj) : ManagerArgs Obj :=
  { args with
    seqlenBalancedPartitions := fun seqlenList kPartitions =>
      SeqlenBalancing.getSeqlenBalancedPartitions seqlenList kPartitions true }

end Code

/-- The training data of some samples, an entry for each in every column. -/
structure TrainBatch (Obj : Type) where
  data : Dict String (List (Value Obj))
  tokens : List (List Int)
  found : data.lookup "tokens" = some (tokens.map .ints)
  nonempty : tokens ≠ []
  whole : ∀ key column, data.lookup key = some column → column.length = tokens.length

namespace TrainBatch

variable {Obj : Type} (batch : TrainBatch Obj)

/-- A column of the batch. -/
def column (key : String) : Option (List (Value Obj)) :=
  if key = "total_lengths" then some (batch.tokens.map fun t => .int t.length) else batch.data.lookup key

/-- The entries of a column at the indices of a partition. -/
def entriesAt (partition : List Nat) (column : List (Value Obj)) : Value Obj := .list (partition.map fun j => column.getD j .null)

/-- The partitions have equal sizes and each sample once, and entry `k` of a field on a rank is the sample's at `partition[k]`. -/
def RanksAligned (args : ManagerArgs Obj) (dynamicGlobalBatchSize : Option Nat) : Prop :=
  ∃ (payloads : List (Dict String (Value Obj))) (partitions : List (List Nat)),
    splitTrainDataByDp args dynamicGlobalBatchSize batch.data = .ok payloads ∧ partitions.length = args.dpSize ∧
    partitions.flatten.Perm (List.range batch.tokens.length) ∧ (∀ p ∈ partitions, p.length * args.dpSize = batch.tokens.length) ∧
    ∀ r p, partitions[r]? = some p → ∃ payload rolloutData, payloads[r]? = some payload ∧
      payload.lookup "partition" = some (.ints (p.map Int.ofNat)) ∧
      processRolloutData payloads r args.dpSize = .ok rolloutData ∧
      ∀ key ∈ fetchedKeys, rolloutData.lookup key = (batch.column key).map (entriesAt p)

end TrainBatch

/-! ## The partitions -/

section Partitions

/-- What both ways to cut a batch have in common. -/
structure EvenCut (size d : Nat) (partitions : List (List Nat)) : Prop where
  count : partitions.length = d
  increasing : ∀ p ∈ partitions, p.Pairwise (· < ·)
  perm : partitions.flatten.Perm (List.range size)
  even : ∀ p ∈ partitions, p.length * d = size

namespace EvenCut

variable {size d : Nat} {partitions : List (List Nat)}

theorem lt_size (cut : EvenCut size d partitions) {p : List Nat} (mem : p ∈ partitions) {j : Nat} (here : j ∈ p) : j < size :=
  List.mem_range.1 (cut.perm.subset (List.mem_flatten.2 ⟨p, mem, here⟩))

/-- The only partition has the samples in their order. -/
theorem single {p : List Nat} (cut : EvenCut size 1 [p]) : p = List.range size := by
  have perm := cut.perm
  rw [List.flatten_cons, List.flatten_nil, List.append_nil] at perm
  exact perm.eq_of_pairwise (fun a b _ _ lt gt => absurd lt (Nat.lt_asymm gt))
    (cut.increasing p (List.mem_singleton_self p)) List.pairwise_lt_range

end EvenCut

/-- The partition of a rank has a sample of every row of `d`. -/
theorem strided_eq {d m i : Nat} (rank : i < d) :
    List.range' i ((d * m + d - 1 - i) / d) d = (List.range m).map fun k => i + d * k := by
  have count : (d * m + d - 1 - i) / d = m := by
    have split : d * m + d - 1 - i = (d - 1 - i) + d * m := by omega
    rw [split, Nat.add_mul_div_left _ _ (Nat.zero_lt_of_lt rank), Nat.div_eq_of_lt (by omega), Nat.zero_add]
  rw [count]
  apply List.ext_getElem?
  intro k
  rcases Nat.lt_or_ge k m with inside | outside
  · rw [List.getElem?_range' inside, List.getElem?_map, List.getElem?_range inside]
    rfl
  · rw [List.getElem?_eq_none, List.getElem?_eq_none]
    · rwa [List.length_map, List.length_range]
    · rwa [List.length_range']

theorem strided_cut {d m : Nat} (pos : 0 < d) :
    EvenCut (d * m) d ((List.range d).map fun i => List.range' i ((d * m + d - 1 - i) / d) d) := by
  have rows : ((List.range d).map fun i => List.range' i ((d * m + d - 1 - i) / d) d) =
      (List.range d).map fun i => (List.range m).map fun k => i + d * k :=
    List.map_congr_left fun i mem => strided_eq (List.mem_range.1 mem)
  rw [rows]
  have place {i k : Nat} (rank : i < d) : (i + d * k) % d = i := by rw [Nat.add_mul_mod_self_left, Nat.mod_eq_of_lt rank]
  have each {i : Nat} : ((List.range m).map fun k => i + d * k).Pairwise (· < ·) :=
    List.pairwise_map.2 (List.pairwise_lt_range.imp fun lt => Nat.add_lt_add_left (Nat.mul_lt_mul_of_pos_left lt pos) i)
  constructor
  · rw [List.length_map, List.length_range]
  · intro p mem
    obtain ⟨i, _, rfl⟩ := List.mem_map.1 mem
    exact each
  · refine (List.perm_ext_iff_of_nodup ?_ List.nodup_range).2 fun j => ?_
    · refine List.nodup_flatten.2 ⟨fun p mem => ?_, ?_⟩
      · obtain ⟨i, _, rfl⟩ := List.mem_map.1 mem
        exact each.imp Nat.ne_of_lt
      · refine List.pairwise_map.2 (List.Pairwise.imp_of_mem ?_ List.nodup_range)
        intro i i' rank rank' differ j here there
        obtain ⟨k, _, rfl⟩ := List.mem_map.1 here
        obtain ⟨k', _, same⟩ := List.mem_map.1 there
        have := congrArg (· % d) same
        simp only [place (List.mem_range.1 rank), place (List.mem_range.1 rank')] at this
        exact differ this.symm
    · simp only [List.mem_flatten, List.mem_map, List.mem_range]
      constructor
      · rintro ⟨_, ⟨i, rank, rfl⟩, here⟩
        obtain ⟨k, inside, rfl⟩ := List.mem_map.1 here
        have := Nat.mul_le_mul_left d (List.mem_range.1 inside)
        rw [Nat.mul_succ] at this
        omega
      · intro inside
        refine ⟨_, ⟨j % d, Nat.mod_lt j pos, rfl⟩, List.mem_map.2 ⟨j / d, List.mem_range.2 ?_, Nat.mod_add_div j d⟩⟩
        exact Nat.div_lt_of_lt_mul inside
  · intro p mem
    obtain ⟨i, _, rfl⟩ := List.mem_map.1 mem
    rw [List.length_map, List.length_range, Nat.mul_comm]

/-- **Both ways to cut a batch** give each rank as many samples. -/
theorem partitionsOf_spec {Obj : Type} (args : ManagerArgs Obj) {totalLengths : List Nat} (some : totalLengths ≠ [])
    (divides : (args.dpSize : Nat) ∣ totalLengths.length) :
    ∃ partitions, partitionsOf args.balancing totalLengths = .ok partitions ∧
      EvenCut totalLengths.length args.dpSize partitions := by
  have pos := args.dpSize.pos
  unfold partitionsOf
  split
  · have enough := Nat.le_of_dvd (List.length_pos_iff.2 some) divides
    obtain ⟨partitions, run, balanced⟩ := @SeqlenBalancing.getSeqlenBalancedPartitions_spec args.dpSize totalLengths true pos
      enough fun _ => divides
    exact ⟨partitions, run, balanced.count, balanced.increasing, balanced.perm, balanced.even rfl⟩
  · obtain ⟨m, whole⟩ := divides
    rw [whole]
    exact ⟨_, rfl, strided_cut pos⟩

end Partitions

/-! ## The payloads -/

section Payloads

variable {Obj : Type} {data : Dict String (List (Value Obj))} {size : Nat} {p : List Nat}

theorem mapM_index {column : List (Value Obj)} (whole : column.length = size) (inside : ∀ j ∈ p, j < size) :
    p.mapM (pyIndex column) = .ok (p.map fun j => column.getD j .null) := by
  refine mapM_ok p fun j mem => pyIndex_ok_iff.2 ?_
  rw [List.getD_eq_getElem?_getD, List.getElem?_eq_getElem (whole ▸ inside j mem)]
  rfl

/-- The loop over the split keys sets each to the entries of the partition. -/
theorem addSplits_ok (whole : ∀ key column, data.lookup key = some column → column.length = size) (inside : ∀ j ∈ p, j < size)
    (keys : List String) (payload : Dict String (Value Obj)) : ∃ payload', keys.foldlM (addSplit data p) payload = .ok payload' ∧
      ∀ key ∈ keys, payload.lookup key = none → payload'.lookup key = (data.lookup key).map (TrainBatch.entriesAt p) := by
  induction keys using List.reverseRecOn with
  | nil => exact ⟨payload, rfl, fun key mem => absurd mem List.not_mem_nil⟩
  | append_singleton keys last ih =>
    obtain ⟨mid, run, spec⟩ := ih
    rw [List.foldlM_append, run, Py.ok_bind]
    cases found : data.lookup last with
    | none =>
      refine ⟨mid, ?_, fun key mem fresh => ?_⟩
      · rw [List.foldlM_cons, addSplit, found]
        rfl
      · by_cases earlier : key ∈ keys
        · exact spec key earlier fresh
        · rcases List.mem_append.1 mem with before | same
          · exact absurd before earlier
          · rw [List.mem_singleton.1 same] at earlier fresh ⊢
            rw [addSplits_lookup earlier run, fresh, found]
            rfl
    | some column =>
      refine ⟨mid.insert last (TrainBatch.entriesAt p column), ?_, fun key mem fresh => ?_⟩
      · rw [List.foldlM_cons, addSplit, found]
        dsimp only
        rw [mapM_index (whole last column found) inside]
        rfl
      · rw [Dict.lookup_insert]
        split
        · rename_i same
          rw [same, found]
          rfl
        · rename_i differ
          rcases List.mem_append.1 mem with before | same
          · exact spec key before fresh
          · exact absurd (List.mem_singleton.1 same) differ

/-- The loop over the other keys sets each to the whole column. -/
theorem addWholes_ok (keys : List String) (payload : Dict String (Value Obj)) {key : String} (mem : key ∈ keys)
    (fresh : payload.lookup key = none) : (keys.foldl (addWhole data) payload).lookup key = (data.lookup key).map .list := by
  induction keys using List.reverseRecOn with
  | nil => exact absurd mem List.not_mem_nil
  | append_singleton keys last ih =>
    rw [List.foldl_append, List.foldl_cons, List.foldl_nil, addWhole]
    by_cases same : key = last
    · subst same
      split
      · rename_i absent
        by_cases earlier : key ∈ keys
        · exact ih earlier
        · rw [addWholes_lookup earlier, fresh, absent]
          rfl
      · rename_i column found
        rw [Dict.lookup_insert, if_pos rfl, found]
        rfl
    · have before : key ∈ keys := (List.mem_append.1 mem).resolve_right fun here => same (List.mem_singleton.1 here)
      split
      · exact ih before
      · rw [Dict.lookup_insert, if_neg same]
        exact ih before

/-- The payload of a rank with partition `p`. -/
structure IsPayload (data : Dict String (List (Value Obj))) (p : List Nat) (payload : Dict String (Value Obj)) : Prop where
  partition : payload.lookup "partition" = some (.ints (p.map Int.ofNat))
  split : ∀ key ∈ splitKeys, payload.lookup key = (data.lookup key).map (TrainBatch.entriesAt p)
  sent : ∀ key ∈ wholeKeys, payload.lookup key = (data.lookup key).map .list

theorem rankData_ok (whole : ∀ key column, data.lookup key = some column → column.length = size) (inside : ∀ j ∈ p, j < size)
    (dynamicGlobalBatchSize : Option Nat) :
    ∃ payload, (do
      let payload ← rankData data p
      return withGlobalBatchSize dynamicGlobalBatchSize payload) = .ok payload ∧ IsPayload data p payload := by
  let first : Dict String (Value Obj) := AList.singleton "partition" (.ints (p.map fun j => (j : Int)))
  obtain ⟨mid, run, spec⟩ := addSplits_ok whole inside splitKeys first
  have empty {key : String} (differ : key ≠ "partition") : first.lookup key = none :=
    AList.lookup_eq_none.2 fun mem => differ (by simpa [first, AList.singleton, AList.mem_keys, AList.keys] using mem)
  have sized {payload : Dict String (Value Obj)} {key : String} (differ : key ≠ "dynamic_global_batch_size") :
      (withGlobalBatchSize dynamicGlobalBatchSize payload).lookup key = payload.lookup key := by
    unfold withGlobalBatchSize
    split
    · rfl
    · rw [Dict.lookup_insert, if_neg differ]
  refine ⟨withGlobalBatchSize dynamicGlobalBatchSize (wholeKeys.foldl (addWhole data) mid), ?_, ?_, fun key mem => ?_, fun key mem => ?_⟩
  · unfold rankData
    dsimp only
    rw [run]
    rfl
  · have same : (p.map fun j => (j : Int)) = p.map Int.ofNat := by
      rw [List.map_id']
      exact (List.map_eq_flatMap (f := Int.ofNat) (l := p)).symm
    rw [sized (by decide), addWholes_lookup (by decide), addSplits_lookup (by decide) run, ← same]
    rfl
  · obtain ⟨notSize, notWhole, notPartition⟩ := (by decide : ∀ key ∈ splitKeys,
      key ≠ "dynamic_global_batch_size" ∧ key ∉ wholeKeys ∧ key ≠ "partition") key mem
    rw [sized notSize, addWholes_lookup notWhole, spec key mem (empty notPartition)]
  · obtain ⟨notSize, notSplit, notPartition⟩ := (by decide : ∀ key ∈ wholeKeys,
      key ≠ "dynamic_global_batch_size" ∧ key ∉ splitKeys ∧ key ≠ "partition") key mem
    rw [sized notSize]
    exact addWholes_ok wholeKeys mid mem ((addSplits_lookup notSplit run).trans (empty notPartition))

/-- `process_rollout_data` of the payload of a rank. -/
theorem processRolloutData_ok {payloads : List (Dict String (Value Obj))} {payload : Dict String (Value Obj)} {r d : Nat}
    (ranks : payloads.length = d) (here : payloads[r]? = some payload) (isPayload : IsPayload data p payload)
    {lengths : List Int} (found : data.lookup "total_lengths" = some (lengths.map .int)) (inside : ∀ j ∈ p, j < lengths.length) :
    ∃ rolloutData, processRolloutData payloads r d = .ok rolloutData ∧
      rolloutData.lookup "total_lengths" = some (TrainBatch.entriesAt p (lengths.map .int)) ∧
      ∀ key, key ≠ "partition" → key ≠ "total_lengths" → rolloutData.lookup key = payload.lookup key := by
  have taken : payload.lookup "partition" = some (.list ((p.map Int.ofNat).map .int)) := isPayload.partition
  have lengthsSent : (payload.erase "partition").lookup "total_lengths" = some (.list (lengths.map .int)) := by
    rw [Dict.lookup_erase, if_neg (by decide), isPayload.sent "total_lengths" (by decide), found]
    rfl
  have entries : ((p.map Int.ofNat).map (Value.int : Int → Value Obj)).mapM (fun i => do
      let values ← elements (.list (lengths.map .int))
      elementAt values i) = .ok (p.map fun j => (lengths.map Value.int).getD j .null) := by
    rw [List.mapM_map, List.mapM_map]
    exact mapM_index (List.length_map _) inside
  refine ⟨(payload.erase "partition").insert "total_lengths" (TrainBatch.entriesAt p (lengths.map .int)), ?_, ?_, ?_⟩
  · unfold processRolloutData
    rw [decide_eq_true ranks, pyAssert_true, Py.ok_bind, pyIndex_ok_iff.2 here, Py.ok_bind, Dict.get_eq taken, Py.ok_bind,
      Dict.del_eq (Dict.mem_of_lookup taken), Py.ok_bind, Dict.get_eq lengthsSent, Py.ok_bind]
    have indices : elements (.list ((p.map Int.ofNat).map (Value.int : Int → Value Obj))) = .ok ((p.map Int.ofNat).map .int) := rfl
    rw [indices, Py.ok_bind, entries]
    rfl
  · rw [Dict.lookup_insert, if_pos rfl]
  · intro key notPartition notLengths
    rw [Dict.lookup_insert, if_neg notLengths, Dict.lookup_erase, if_neg notPartition]

end Payloads

section Ranks

variable {Obj : Type} (args : ManagerArgs Obj) (dynamicGlobalBatchSize : Option Nat) (batch : TrainBatch Obj)

/-- The data with the total lengths. -/
def TrainBatch.withLengths : Dict String (List (Value Obj)) :=
  batch.data.insert "total_lengths" ((batch.tokens.map fun t => (t.length : Int)).map .int)

theorem TrainBatch.lookup_withLengths (key : String) : batch.withLengths.lookup key = batch.column key := by
  rw [withLengths, Dict.lookup_insert, column, List.map_map]
  rfl

theorem TrainBatch.whole_withLengths {key : String} {column : List (Value Obj)} (found : batch.withLengths.lookup key = some column) :
    column.length = batch.tokens.length := by
  rw [withLengths, Dict.lookup_insert] at found
  split at found
  · rw [← Option.some.inj found, List.length_map, List.length_map]
  · exact batch.whole key column found

/-- What the ranks get, and what the trainer makes of it: all but one field is split. -/
theorem ranks_spec (divides : (args.dpSize : Nat) ∣ batch.tokens.length) : ∃ payloads partitions,
    splitTrainDataByDp args.balancing dynamicGlobalBatchSize batch.data = .ok payloads ∧
    EvenCut batch.tokens.length args.dpSize partitions ∧
    ∀ r p, partitions[r]? = some p → ∃ payload rolloutData, payloads[r]? = some payload ∧
      payload.lookup "partition" = some (.ints (p.map Int.ofNat)) ∧
      processRolloutData payloads r args.dpSize = .ok rolloutData ∧
      rolloutData.lookup "logits_masks" = (batch.column "logits_masks").map .list ∧
      ∀ key ∈ fetchedKeys, key ≠ "logits_masks" → rolloutData.lookup key = (batch.column key).map (TrainBatch.entriesAt p) := by
  have counted : (batch.tokens.map (Value.ints : List Int → Value Obj)).mapM Value.len = .ok (batch.tokens.map List.length) := by
    rw [List.mapM_map]
    refine mapM_ok _ fun t _ => ?_
    rw [Function.comp_apply, Value.ints, Value.len, List.length_map]
  have some : batch.tokens.map List.length ≠ [] := mt List.map_eq_nil_iff.1 batch.nonempty
  have size : (batch.tokens.map List.length).length = batch.tokens.length := List.length_map _
  obtain ⟨partitions, run, cut⟩ := partitionsOf_spec args some (size ▸ divides)
  rw [size] at cut
  have each : ∀ i ∈ List.range args.dpSize, ∃ payload, (do
      let partition ← pyIndex partitions i
      let payload ← rankData batch.withLengths partition
      return withGlobalBatchSize dynamicGlobalBatchSize payload) = .ok payload ∧
        ∀ p, partitions[i]? = Option.some p → IsPayload batch.withLengths p payload := by
    intro i mem
    have inside : i < partitions.length := cut.count ▸ List.mem_range.1 mem
    have here : partitions[i]? = Option.some partitions[i] := List.getElem?_eq_getElem inside
    obtain ⟨payload, ok, isPayload⟩ := rankData_ok (fun key column => batch.whole_withLengths)
      (fun j => cut.lt_size (List.getElem_mem inside)) dynamicGlobalBatchSize
    refine ⟨payload, ?_, fun p found => ?_⟩
    · rw [pyIndex_ok_iff.2 here, Py.ok_bind]
      exact ok
    · rw [here] at found
      exact Option.some.inj found ▸ isPayload
  obtain ⟨payloads, ok, all⟩ := SeqlenBalancing.exists_mapM _ each
  have ranks : payloads.length = args.dpSize := by rw [← all.length_eq, List.length_range]
  refine ⟨payloads, partitions, ?_, cut, fun r p found => ?_⟩
  · unfold splitTrainDataByDp
    rw [Dict.get_eq batch.found, Py.ok_bind, counted, Py.ok_bind]
    dsimp only
    rw [run, Py.ok_bind]
    have lengths : ((batch.tokens.map List.length).map fun n : Nat => (Value.int n : Value Obj)) =
        (batch.tokens.map fun t => (t.length : Int)).map .int := by
      rw [List.map_map, List.map_map]
      rfl
    rw [lengths]
    exact ok
  · have inside : r < (args.dpSize : Nat) := by
      rw [← cut.count]
      exact (List.getElem?_eq_some_iff.1 found).1
    obtain ⟨payload, here, isPayload⟩ : ∃ payload, payloads[r]? = Option.some payload ∧ IsPayload batch.withLengths p payload := by
      have bound : r < payloads.length := ranks ▸ inside
      refine ⟨payloads[r], List.getElem?_eq_getElem bound, ?_⟩
      have pair := all.get (i := r) (by rwa [List.length_range]) bound
      simp only [List.get_eq_getElem, List.getElem_range] at pair
      exact pair p found
    have lengthsFound : batch.withLengths.lookup "total_lengths" =
        Option.some ((batch.tokens.map fun t => (t.length : Int)).map .int) := by
      rw [TrainBatch.withLengths, Dict.lookup_insert, if_pos rfl]
    obtain ⟨rolloutData, processed, cutLengths, rest⟩ := processRolloutData_ok ranks here isPayload lengthsFound (by
      intro j mem
      rw [List.length_map]
      exact cut.lt_size (List.mem_of_getElem? found) mem)
    refine ⟨payload, rolloutData, here, isPayload.partition, processed, ?_, fun key mem differ => ?_⟩
    · rw [rest _ (by decide) (by decide), isPayload.sent _ (by decide), batch.lookup_withLengths]
    · by_cases total : key = "total_lengths"
      · rw [total, cutLengths, ← batch.lookup_withLengths, lengthsFound]
        rfl
      · have split : key ∈ splitKeys ∧ key ≠ "partition" := by
          revert key
          decide
        rw [rest key split.2 total, isPayload.split key split.1, batch.lookup_withLengths]

variable {args dynamicGlobalBatchSize batch}

/-- Each rank has all the logits masks. -/
theorem alone_of_masked (divides : (args.dpSize : Nat) ∣ batch.tokens.length)
    (aligned : batch.RanksAligned args.balancing dynamicGlobalBatchSize) {column : List (Value Obj)}
    (found : batch.data.lookup "logits_masks" = some column) : (args.dpSize : Nat) = 1 := by
  obtain ⟨payloads, partitions, run, cut, spec⟩ := ranks_spec args dynamicGlobalBatchSize batch divides
  obtain ⟨payloads', partitions', run', count, perm, even, each⟩ := aligned
  obtain rfl : payloads = payloads' := Except.ok.inj (run.symm.trans run')
  have first : 0 < partitions.length := cut.count ▸ args.dpSize.pos
  have first' : 0 < partitions'.length := count ▸ args.dpSize.pos
  obtain ⟨_, rolloutData, _, _, processed, sent, _⟩ := spec 0 _ (List.getElem?_eq_getElem first)
  obtain ⟨_, rolloutData', _, _, processed', fields⟩ := each 0 _ (List.getElem?_eq_getElem first')
  obtain rfl : rolloutData = rolloutData' := Except.ok.inj (processed.symm.trans processed')
  have split := fields "logits_masks" (by decide)
  have masks : batch.column "logits_masks" = some column := (if_neg (by decide)).trans found
  rw [sent, masks] at split
  have same := congrArg List.length (Value.list.inj (Option.some.inj split))
  rw [List.length_map, batch.whole _ _ found] at same
  have size := even _ (List.getElem_mem first')
  rw [← same] at size
  exact Nat.eq_of_mul_eq_mul_left (List.length_pos_iff.2 batch.nonempty) (size.trans (Nat.mul_one _).symm)

/-- **The data of the ranks is aligned exactly if there is one rank or there are no logits masks.** -/
theorem ranks_aligned_iff (divides : (args.dpSize : Nat) ∣ batch.tokens.length) :
    batch.RanksAligned args.balancing dynamicGlobalBatchSize ↔
      (args.dpSize : Nat) = 1 ∨ batch.data.lookup "logits_masks" = none := by
  constructor
  · intro aligned
    cases found : batch.data.lookup "logits_masks" with
    | none => exact Or.inr rfl
    | some column => exact Or.inl (alone_of_masked divides aligned found)
  · intro clean
    obtain ⟨payloads, partitions, run, cut, spec⟩ := ranks_spec args dynamicGlobalBatchSize batch divides
    refine ⟨payloads, partitions, run, cut.count, cut.perm, cut.even, fun r p found => ?_⟩
    obtain ⟨payload, rolloutData, here, partition, processed, sent, fields⟩ := spec r p found
    refine ⟨payload, rolloutData, here, partition, processed, fun key mem => ?_⟩
    by_cases masked : key = "logits_masks"
    · have masks : batch.column "logits_masks" = batch.data.lookup "logits_masks" := if_neg (by decide)
      rw [masked, sent, masks]
      cases given : batch.data.lookup "logits_masks" with
      | none => rfl
      | some column =>
        -- the only rank has the samples in their order
        have one : (args.dpSize : Nat) = 1 := clean.resolve_right (by rw [given]; exact Option.some_ne_none column)
        rw [one] at cut
        obtain ⟨q, rfl⟩ := List.length_eq_one_iff.1 cut.count
        obtain rfl : p = q := List.mem_singleton.1 (List.mem_of_getElem? found)
        have back : (List.range column.length).map (fun j => column.getD j .null) = column := by
          apply List.ext_getElem (by rw [List.length_map, List.length_range])
          intro k _ inside
          rw [List.getElem_map, List.getElem_range, List.getD_eq_getElem?_getD, List.getElem?_eq_getElem inside]
          rfl
        refine congrArg (fun values => some (Value.list values)) ?_
        rw [cut.single, ← batch.whole _ _ given, back]
    · exact fields key mem masked

/-- Two samples of one token each, with a logits mask each. -/
def twoMasked : TrainBatch Unit where
  data := (AList.singleton "tokens" [.ints [1], .ints [2]]).insert "logits_masks" [.list [.ints [3]], .list [.ints [4]]]
  tokens := [[1], [2]]
  found := rfl
  nonempty := by decide
  whole := by
    intro key column found
    rw [Dict.lookup_insert] at found
    split at found
    · rw [← Option.some.inj found]
      rfl
    · have mem := Dict.mem_of_lookup found
      have same : key = "tokens" := by simpa [AList.singleton, ← AList.mem_keys, AList.keys] using mem
      rw [same] at found
      rw [← Option.some.inj found]
      rfl

theorem ranks_aligned_iff_two : twoMasked.RanksAligned (twoRanks false).balancing none ↔
    ((twoRanks false).dpSize : Nat) = 1 ∨ twoMasked.data.lookup "logits_masks" = none :=
  ranks_aligned_iff (by decide)

/-- Rank 1 has the logits mask of the other sample in front. -/
theorem not_ranks_aligned_two : ¬ twoMasked.RanksAligned (twoRanks false).balancing none := fun aligned =>
  absurd (alone_of_masked (by decide) aligned rfl) (by decide)

end Ranks

end SlimeBoard
