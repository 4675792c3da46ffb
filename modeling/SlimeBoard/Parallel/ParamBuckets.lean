import SlimeBoard.Lib.Buckets
import SlimeBoard.Parallel.ParamInfos

/-!
# Buckets of parameters

`_get_megatron_local_param_info_buckets` cuts the infos of a rank where their gathered sizes exceed the
buffer, and the weights are exchanged bucket by bucket. All ranks cut in the same places, since the
sizes of a parameter on the ranks agree.
-/

namespace SlimeBoard

namespace ParamInfos

open Broadcast

variable {δ τ : Type} {pp ep rest : Nat}

/-- `param_size`, the size of the gathered parameter -/
def paramSize (tpSize expertTpSize : Nat) (info : ParamInfo δ) : Nat :=
  info.size * if isExpert info.name then expertTpSize else tpSize

/-- `_get_megatron_local_param_info_buckets` on all ranks. -/
def getMegatronLocalParamInfoBuckets [DecidableEq δ] (mtpNumLayers : Option Nat) (tpSize expertTpSize updateWeightBufferSize : Nat)
    (grid : Grid pp ep rest) (named : World pp ep rest (List (Name × Param δ τ))) :
    Py (World pp ep rest (List (List (ParamInfo δ)))) := do
  let infos ← getMegatronLocalParamInfos mtpNumLayers grid named
  return fun p e r =>
    Buckets.cut (fun size => decide (updateWeightBufferSize < size)) (paramSize tpSize expertTpSize) (infos p e r)

/-- Bucket `k` of every rank. -/
def bucketAt (buckets : World pp ep rest (List (List (ParamInfo δ)))) (k : Nat) : World pp ep rest (List (ParamInfo δ)) :=
  fun p e r => (buckets p e r).getD k []

/-- How often the loop over the buckets turns, on the rank with most of them. -/
def rounds (buckets : World pp ep rest (List (List (ParamInfo δ)))) : Nat :=
  Finset.univ.sup fun place : Fin pp × Fin ep × Fin rest => (buckets place.1 place.2.1 place.2.2).length

/-- The loop of `get_hf_weight_chunks` on all ranks, up to the gather over the tensor ranks. -/
def getWeightChunks (grid : Grid pp ep rest) (buckets : World pp ep rest (List (List (ParamInfo δ))))
    (weights : World pp ep rest (Dict Name τ)) : Py (List (World pp ep rest (List (ParamInfo δ × FullParam τ)))) :=
  (List.range (rounds buckets)).mapM fun k => getMegatronFullParams grid (bucketAt buckets k) weights

/-! ## Sizes -/

/-- Every info has the size of its shape. -/
def Sized (bytes : δ → Nat) (infos : Infos δ) : Prop :=
  ∀ name info, infos.lookup name = some info → info.size = info.shape.prod * bytes info.dtype

section Sizes

variable {bytes : δ → Nat} {infos : Infos δ} {name : Name} {info : ParamInfo δ}

theorem Sized.insert (sized : Sized bytes infos) (size : info.size = info.shape.prod * bytes info.dtype) :
    Sized bytes (infos.insert name info) := by
  intro other info' here
  rw [Dict.lookup_insert] at here
  split at here
  · cases here
    exact size
  · exact sized other info' here

theorem sized_own (rank : Nat) {named : List (Name × Param δ τ)}
    (elements : ∀ {name param}, (held named).lookup name = some param → param.elementSize = bytes param.dtype) :
    Sized bytes (ownInfos rank named) := by
  intro name info here
  rw [lookup_ownInfos] at here
  obtain ⟨param, mine, rfl⟩ := Option.map_eq_some_iff.1 here
  exact congrArg (param.shape.prod * ·) (elements mine)

theorem sized_items (sized : Sized bytes infos) {item : Name × ParamInfo δ} (mem : item ∈ items infos) :
    item.2.size = item.2.shape.prod * bytes item.2.dtype := sized item.1 item.2 (mem_items.1 mem)

theorem addPipeline_sized {mtpNumLayers : Option Nat} {src : Nat} {item : Name × ParamInfo δ} {after : Infos δ}
    (sized : Sized bytes infos) (size : item.2.size = item.2.shape.prod * bytes item.2.dtype)
    (run : addPipeline mtpNumLayers src infos item = .ok after) : Sized bytes after := by
  unfold addPipeline at run
  split at run
  · obtain ⟨_, -, rest⟩ := Py.bind_eq_ok.1 run
    split at rest
    · cases rest
      exact sized.insert size
    · cases rest
      exact sized
  · cases run
    exact sized.insert size

/-- What every turn of a loop keeps the loop keeps. -/
theorem foldlM_keeps {α β : Type} {f : β → α → Py β} {P : β → Prop} (xs : List α) {b after : β} (start : P b)
    (turn : ∀ x ∈ xs, ∀ b b', P b → f b x = .ok b' → P b') (run : xs.foldlM f b = .ok after) : P after := by
  induction xs generalizing b with
  | nil =>
    cases run
    exact start
  | cons x xs ih =>
    rw [List.foldlM_cons] at run
    obtain ⟨b', first, rest⟩ := Py.bind_eq_ok.1 run
    obtain ⟨here, later⟩ := List.forall_mem_cons.1 turn
    exact ih (here b b' start first) later rest

theorem mergePipeline_sized {mtpNumLayers : Option Nat} {ppSize rank : Nat} {gathered : List (Nat × Infos δ)} {after : Infos δ}
    (sized : Sized bytes infos) (others : ∀ member ∈ gathered, Sized bytes member.2)
    (run : mergePipeline mtpNumLayers ppSize rank gathered infos = .ok after) : Sized bytes after := by
  unfold mergePipeline at run
  split at run
  · refine foldlM_keeps gathered sized (fun member mem before after sized run => ?_) run
    split at run
    · cases run
      exact sized
    · exact foldlM_keeps _ sized (fun item listed before after sized run =>
        addPipeline_sized sized (sized_items (others member mem) listed) run) run
  · cases run
    exact sized

theorem addExpert_sized {src : Nat} {item : Name × ParamInfo δ} (sized : Sized bytes infos)
    (size : item.2.size = item.2.shape.prod * bytes item.2.dtype) : Sized bytes (addExpert src infos item) := by
  unfold addExpert
  split
  · exact sized
  · exact sized.insert size

theorem mergeExpert_sized {epSize : Nat} {gathered : List (Nat × Infos δ)} (sized : Sized bytes infos)
    (others : ∀ member ∈ gathered, Sized bytes member.2) : Sized bytes (mergeExpert epSize gathered infos) := by
  unfold mergeExpert
  split
  · refine List.foldlRecOn gathered _ sized fun before sized member mem => ?_
    refine List.foldlRecOn (items member.2) _ sized fun before sized item listed => ?_
    exact addExpert_sized sized (sized_items (others member mem) listed)
  · exact sized

end Sizes

section Cut

variable {grid : Grid pp ep rest} {set : ParamSet pp ep rest δ τ} {bytes : δ → Nat}
  {infos : World pp ep rest (List (ParamInfo δ))}

theorem everyRank_each {α : Type} {run : World pp ep rest (Py α)} {values : World pp ep rest α} (done : everyRank run = .ok values)
    (p : Fin pp) (e : Fin ep) (r : Fin rest) : run p e r = .ok (values p e r) := by
  have stage := Collective.collect_ok_iff.1 done p
  have expert := Collective.collect_ok_iff.1 stage e
  exact Collective.collect_ok_iff.1 expert r

/-- The infos that the ranks exchange have the sizes of their shapes. -/
theorem getMegatronLocalParamInfos_sized [DecidableEq δ] {mtpNumLayers : Option Nat}
    (elements : ∀ {p e r name param}, (held (set.named p e r)).lookup name = some param → param.elementSize = bytes param.dtype)
    (run : getMegatronLocalParamInfos mtpNumLayers grid set.named = .ok infos) (p : Fin pp) (e : Fin ep) (r : Fin rest) :
    ∀ info ∈ infos p e r, info.size = info.shape.prod * bytes info.dtype := by
  unfold getMegatronLocalParamInfos at run
  obtain ⟨stages, exchanged, rest⟩ := Py.bind_eq_ok.1 run
  obtain ⟨_, -, same⟩ := Py.bind_eq_ok.1 rest
  cases same
  have own (p : Fin pp) (e : Fin ep) (r : Fin _) : Sized bytes (ownInfos (grid.rank p e r) (set.named p e r)) := sized_own _ elements
  have stage (p : Fin pp) (e : Fin ep) (r : Fin _) : Sized bytes (stages p e r) := by
    refine mergePipeline_sized (own p e r) (fun member mem => ?_) (everyRank_each exchanged p e r)
    obtain ⟨q, rfl⟩ := List.mem_ofFn.1 mem
    exact own q e r
  have merged : Sized bytes (mergeExpert ep (List.ofFn fun e' => (grid.rank p e' r, stages p e' r)) (stages p e r)) := by
    refine mergeExpert_sized (stage p e r) fun member mem => ?_
    obtain ⟨e', rfl⟩ := List.mem_ofFn.1 mem
    exact stage p e' r
  intro info mem
  obtain ⟨name, here⟩ := ParamSet.mem_sortedInfos.1 mem
  exact merged name info here

/-- The gathered sizes agree on the ranks. -/
theorem Aligned.sizes (aligned : Aligned grid set infos)
    (sized : ∀ p e r, ∀ info ∈ infos p e r, info.size = info.shape.prod * bytes info.dtype) (tpSize expertTpSize : Nat)
    (p p' : Fin pp) (e e' : Fin ep) (r r' : Fin rest) :
    (infos p e r).map (paramSize tpSize expertTpSize) = (infos p' e' r').map (paramSize tpSize expertTpSize) := by
  refine map_congr_of_names (aligned.names ..) fun i info info' here there => ?_
  obtain ⟨q, e₀, param, traced⟩ := aligned.traced (List.mem_of_getElem? here)
  obtain ⟨q', e₁, param', traced'⟩ := aligned.traced (List.mem_of_getElem? there)
  obtain ⟨info'', again, name⟩ := aligned.same_name here p' e' r'
  cases there.symm.trans again
  have owner := traced'.owner.holds
  rw [name] at owner
  obtain ⟨dtype, shape⟩ := set.uniform traced.owner.holds owner
  have size : info.size = info'.size := by
    rw [sized p e r info (List.mem_of_getElem? here), sized p' e' r' info' (List.mem_of_getElem? there), traced.shape, traced'.shape,
      traced.dtype, traced'.dtype, dtype, shape]
  rw [paramSize, paramSize, size, name]

/-- The buckets of the ranks: the same names on all of them, each once, in buckets that fit in the buffer
or have one parameter, none of which has room for the next parameter. -/
structure Bucketed (set : ParamSet pp ep rest δ τ) (tpSize expertTpSize updateWeightBufferSize : Nat)
    (buckets : World pp ep rest (List (List (ParamInfo δ)))) : Prop where
  agreed : ∀ p e r p' e' r', (buckets p e r).map (List.map ParamInfo.name) = (buckets p' e' r').map (List.map ParamInfo.name)
  sorted : ∀ p e r, ((buckets p e r).flatten.map ParamInfo.name).Pairwise (· < ·)
  complete : ∀ p e r name, name ∈ (buckets p e r).flatten.map ParamInfo.name ↔ ∃ p e r, name ∈ held (set.named p e r)
  fits : ∀ p e r, ∀ bucket ∈ buckets p e r,
    (bucket.map (paramSize tpSize expertTpSize)).sum ≤ updateWeightBufferSize ∨ bucket.length = 1
  full : ∀ p e r, (buckets p e r).IsChain fun first second => ∃ info, second.head? = some info ∧
    updateWeightBufferSize < (first.map (paramSize tpSize expertTpSize)).sum + paramSize tpSize expertTpSize info

/-- A bucket of lists that are cut alike. -/
theorem Aligned.bucket {buckets : World pp ep rest (List (List (ParamInfo δ)))} (aligned : Aligned grid set infos)
    (flatten : ∀ p e r, (buckets p e r).flatten = infos p e r)
    (agreed : ∀ p e r p' e' r', (buckets p e r).map (List.map ParamInfo.name) = (buckets p' e' r').map (List.map ParamInfo.name))
    (k : Nat) : Aligned grid set (bucketAt buckets k) := by
  have names (p : Fin pp) (e : Fin ep) (r : Fin rest) :
      (bucketAt buckets k p e r).map ParamInfo.name = ((buckets p e r).map (List.map ParamInfo.name)).getD k [] := by
    rw [bucketAt, List.getD_eq_getElem?_getD, List.getD_eq_getElem?_getD, List.getElem?_map]
    cases (buckets p e r)[k]? <;> rfl
  refine ⟨fun p e r p' e' r' => by rw [names, names, agreed p e r p' e' r'], fun {p e r info} mem => ?_⟩
  apply aligned.traced
  rw [← flatten p e r]
  unfold bucketAt at mem
  rw [List.getD_eq_getElem?_getD] at mem
  cases here : (buckets p e r)[k]? with
  | none =>
    rw [here] at mem
    cases mem
  | some bucket =>
    rw [here] at mem
    exact List.mem_flatten.2 ⟨bucket, List.mem_of_getElem? here, mem⟩

/-- **The exchange of the parameters, bucket by bucket**, on any grid. All ranks cut their infos in the same
places, and the broadcasts of each bucket agree and bring every rank the owner's shards. -/
theorem buckets_distributed [DecidableEq δ] (grid : Grid pp ep rest) (set : ParamSet pp ep rest δ τ) (mtpNumLayers : Option Nat)
    (allowed : mtpNumLayers.isSome ∨ set.Unduplicated) (bytes : δ → Nat)
    (elements : ∀ {p e r name param}, (held (set.named p e r)).lookup name = some param → param.elementSize = bytes param.dtype)
    (tpSize expertTpSize updateWeightBufferSize : Nat) :
    ∃ buckets chunks,
      getMegatronLocalParamInfoBuckets mtpNumLayers tpSize expertTpSize updateWeightBufferSize grid set.named = .ok buckets ∧
      Bucketed set tpSize expertTpSize updateWeightBufferSize buckets ∧
      getWeightChunks grid buckets (fun p e r => localWeights (set.named p e r)) = .ok chunks ∧
      chunks.length = rounds buckets ∧ (∀ p e r, (buckets p e r).length = rounds buckets) ∧
      ∀ k full, chunks[k]? = some full → ∃ params received, Distributed grid set (bucketAt buckets k) params received full := by
  obtain ⟨infos, done, aligned, names⟩ := getMegatronLocalParamInfos_spec grid allowed
  have sizes := aligned.sizes (getMegatronLocalParamInfos_sized elements done) tpSize expertTpSize
  let buckets : World pp ep rest (List (List (ParamInfo δ))) := fun p e r =>
    Buckets.cut (fun size => decide (updateWeightBufferSize < size)) (paramSize tpSize expertTpSize) (infos p e r)
  have placed (p : Fin pp) (e : Fin ep) (r : Fin rest) := Buckets.cut_placed (fun size => decide (updateWeightBufferSize < size))
    (paramSize tpSize expertTpSize) (decide_eq_false (Nat.not_lt_zero _)) (infos p e r)
  have flatten (p : Fin pp) (e : Fin ep) (r : Fin rest) : (buckets p e r).flatten = infos p e r := (placed p e r).flatten
  have agreed (p : Fin pp) (e : Fin ep) (r : Fin rest) (p' : Fin pp) (e' : Fin ep) (r' : Fin rest) :
      (buckets p e r).map (List.map ParamInfo.name) = (buckets p' e' r').map (List.map ParamInfo.name) := by
    refine List.eq_iff_flatten_eq.2 ⟨?_, ?_⟩
    · rw [← List.map_flatten, ← List.map_flatten, flatten, flatten, aligned.names p e r p' e' r']
    · have lengths := Buckets.cut_lengths (fun size => decide (updateWeightBufferSize < size)) (sizes p p' e e' r r')
      simpa only [List.map_map, Function.comp_def, List.length_map] using lengths
  have count (p : Fin pp) (e : Fin ep) (r : Fin rest) : (buckets p e r).length = rounds buckets := by
    refine le_antisymm (Finset.le_sup (f := fun place : Fin pp × Fin ep × Fin rest => (buckets place.1 place.2.1 place.2.2).length)
      (Finset.mem_univ (p, e, r))) (Finset.sup_le fun place _ => ?_)
    have same := congrArg List.length (agreed place.1 place.2.1 place.2.2 p e r)
    rw [List.length_map, List.length_map] at same
    exact same.le
  choose params received full distributed using fun k => (aligned.bucket flatten agreed k).distributed
  refine ⟨buckets, (List.range (rounds buckets)).map full, ?_, ⟨agreed, ?_, ?_, ?_, ?_⟩, ?_, ?_, count, ?_⟩
  · exact Py.bind_eq_ok.2 ⟨infos, done, rfl⟩
  · intro p e r
    rw [flatten]
    exact (names p e r).1
  · intro p e r
    rw [flatten]
    exact (names p e r).2
  · intro p e r bucket mem
    refine ((placed p e r).fits bucket mem).imp (fun small => ?_) id
    exact Nat.le_of_not_lt (of_decide_eq_false small)
  · intro p e r
    refine (placed p e r).full.imp fun first second => ?_
    rintro ⟨info, head, big⟩
    exact ⟨info, head, of_decide_eq_true big⟩
  · exact mapM_ok _ fun k _ => (distributed k).done
  · rw [List.length_map, List.length_range]
  · intro k chunk here
    rw [List.getElem?_map] at here
    obtain ⟨k', listed, rfl⟩ := Option.map_eq_some_iff.1 here
    obtain ⟨inside, same⟩ := List.getElem?_eq_some_iff.1 listed
    rw [List.getElem_range] at same
    exact same ▸ ⟨_, _, distributed k⟩

theorem buckets_distributed_small : ∃ buckets chunks,
    getMegatronLocalParamInfoBuckets (some 1) 2 1 100 smallGrid smallSet.named = .ok buckets ∧ Bucketed smallSet 2 1 100 buckets ∧
      getWeightChunks smallGrid buckets (fun p e r => localWeights (smallSet.named p e r)) = .ok chunks := by
  obtain ⟨buckets, chunks, done, bucketed, run, -⟩ := buckets_distributed smallGrid smallSet (some 1) (.inl rfl) (fun _ => 2)
    (fun {p e r name param} here => by rw [((lookup_smallNamed (r := r)).1 here).2]; rfl) 2 1 100
  exact ⟨buckets, chunks, done, bucketed, run⟩

end Cut

end ParamInfos

end SlimeBoard
