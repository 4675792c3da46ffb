import SlimeBoard.Lib.Broadcast
import SlimeBoard.Lib.Collective
import SlimeBoard.Parallel.ConvertToHf

/-!
# Parameter infos and the broadcasts over pipeline and expert ranks

`_get_megatron_local_param_infos` collects on every rank what is known of all parameters: its own
ones, those of the other pipeline stages, those of the other expert slices. Every info names a rank
to read the parameter from, and `_get_megatron_full_params` broadcasts by it, first in the pipeline
groups, then in the expert groups. The gather over the tensor ranks that follows is not modelled
here.
-/

namespace SlimeBoard

namespace ParamInfos

open Broadcast

variable {δ τ α : Type}

/-- One value for each pipeline, expert and remaining coordinate. -/
abbrev World (pp ep rest : Nat) (α : Type) := Fin pp → Fin ep → Fin rest → α

variable {pp ep rest : Nat}

/-- The global ranks. The ranks that differ in one coordinate form a group. -/
structure Grid (pp ep rest : Nat) where
  rank : World pp ep rest Nat
  distinct : ∀ {p p' e e' r r'}, rank p e r = rank p' e' r' → p = p' ∧ e = e' ∧ r = r'

namespace Grid

variable (grid : Grid pp ep rest)

/-- `mpu.get_pipeline_model_parallel_group()` -/
def pipelineGroup (e : Fin ep) (r : Fin rest) : List Nat := List.ofFn fun p => grid.rank p e r

/-- `mpu.get_expert_model_parallel_group()` -/
def expertGroup (p : Fin pp) (r : Fin rest) : List Nat := List.ofFn fun e => grid.rank p e r

variable {grid} {p p' : Fin pp} {e e' : Fin ep} {r r' : Fin rest}

theorem mem_pipelineGroup : grid.rank p e r ∈ grid.pipelineGroup e' r' ↔ e = e' ∧ r = r' := by
  rw [pipelineGroup, List.mem_ofFn]
  constructor
  · rintro ⟨_, same⟩
    obtain ⟨-, coordinates⟩ := grid.distinct same
    exact coordinates.imp Eq.symm Eq.symm
  · rintro ⟨rfl, rfl⟩
    exact ⟨p, rfl⟩

theorem mem_expertGroup : grid.rank p e r ∈ grid.expertGroup p' r' ↔ p = p' ∧ r = r' := by
  rw [expertGroup, List.mem_ofFn]
  constructor
  · rintro ⟨_, same⟩
    obtain ⟨stage, -, rest⟩ := grid.distinct same
    exact ⟨stage.symm, rest.symm⟩
  · rintro ⟨rfl, rfl⟩
    exact ⟨e, rfl⟩

end Grid

/-- Every rank runs; they go on only if none raises. -/
def everyRank (run : World pp ep rest (Py α)) : Py (World pp ep rest α) :=
  Collective.collect fun p => Collective.collect fun e => Collective.collect fun r => run p e r

/-- `dist.all_gather_object` over the world -/
def gatherWorld (values : World pp ep rest α) : List α :=
  (List.finRange pp).flatMap fun p => (List.finRange ep).flatMap fun e => (List.finRange rest).map fun r => values p e r

/-- A parameter or buffer, with the attributes that it may lack. -/
structure Param (δ τ : Type) where
  dtype : δ
  shape : List Nat
  elementSize : Nat
  tensorModelParallel : Option Bool
  partitionDim : Option Int
  partitionStride : Option Int
  parallelMode : Option Name
  data : τ

structure Attrs where
  tensorModelParallel : Bool
  partitionDim : Int
  partitionStride : Int
  parallelMode : Option Name
  deriving DecidableEq

structure ParamInfo (δ : Type) where
  name : Name
  dtype : δ
  shape : List Nat
  attrs : Attrs
  size : Nat
  srcRank : Nat

/-- `ParamInfo(name=name, …, src_rank=rank)` -/
def infoOf (rank : Nat) (name : Name) (param : Param δ τ) : ParamInfo δ where
  name := name
  dtype := param.dtype
  shape := param.shape
  attrs :=
    { tensorModelParallel := param.tensorModelParallel.getD false
      partitionDim := param.partitionDim.getD (-1)
      partitionStride := param.partitionStride.getD 1
      parallelMode := param.parallelMode }
  size := param.shape.prod * param.elementSize
  srcRank := rank

/-- `".experts." in name` -/
def isExpert (name : Name) : Bool := Converters.named ".experts." name

abbrev Infos (δ : Type) := Dict Name (ParamInfo δ)

/-- `d.items()` -/
def items (infos : Infos δ) : List (Name × ParamInfo δ) := infos.entries.map fun entry => (entry.1, entry.2)

/-- The infos of a rank's own parameters. -/
def ownInfos (rank : Nat) (named : List (Name × Param δ τ)) : Infos δ :=
  named.foldl (fun infos item => infos.insert item.1 (infoOf rank item.1 item.2)) ∅

/-- An info of another pipeline stage. Of two infos with one name the one of the lower rank stays. -/
def addPipeline (mtpNumLayers : Option Nat) (srcRank : Nat) (infos : Infos δ) (item : Name × ParamInfo δ) : Py (Infos δ) :=
  match infos.lookup item.1 with
  | some oldInfo => do
    pyAssert mtpNumLayers.isSome
    if srcRank < oldInfo.srcRank then return infos.insert item.1 item.2 else return infos
  | none => .ok (infos.insert item.1 item.2)

/-- The loop over what the pipeline group gathered. -/
def mergePipeline (mtpNumLayers : Option Nat) (ppSize rank : Nat) (gathered : List (Nat × Infos δ)) (infos : Infos δ) :
    Py (Infos δ) :=
  if 1 < ppSize then
    gathered.foldlM (fun infos member =>
      if member.1 = rank then .ok infos else (items member.2).foldlM (addPipeline mtpNumLayers member.1) infos) infos
  else .ok infos

/-- An info of another expert slice is read from the member of the expert group that has it. -/
def addExpert (srcRank : Nat) (infos : Infos δ) (item : Name × ParamInfo δ) : Infos δ :=
  if item.1 ∈ infos then infos else infos.insert item.1 { item.2 with srcRank := srcRank }

/-- The loop over what the expert group gathered. -/
def mergeExpert (epSize : Nat) (gathered : List (Nat × Infos δ)) (infos : Infos δ) : Infos δ :=
  if 1 < epSize then
    gathered.foldl (fun infos member => (items member.2).foldl (addExpert member.1) infos) infos
  else infos

/-- `sorted(param_infos.values(), key=lambda info: info.name)` -/
def sortedInfos (infos : Infos δ) : List (ParamInfo δ) :=
  ((items infos).map Prod.snd).mergeSort fun a b => decide (a.name ≤ b.name)

/-- The check that every rank has the same infos. -/
def checkInfos [DecidableEq δ] (allInfos : List (List (ParamInfo δ))) (infos : List (ParamInfo δ)) : Py Unit :=
  infos.zipIdx.forM fun entry => allInfos.forM fun other => do
    let info ← pyIndex other entry.2
    pyAssert (info.name = entry.1.name)
    pyAssert (info.shape = entry.1.shape)
    pyAssert (info.dtype = entry.1.dtype)

/-- `_get_megatron_local_param_infos` on all ranks, each with its `named_params_and_buffers`. -/
def getMegatronLocalParamInfos [DecidableEq δ] (mtpNumLayers : Option Nat) (grid : Grid pp ep rest)
    (named : World pp ep rest (List (Name × Param δ τ))) : Py (World pp ep rest (List (ParamInfo δ))) := do
  let own : World pp ep rest (Infos δ) := fun p e r => ownInfos (grid.rank p e r) (named p e r)
  let stages ← everyRank fun p e r =>
    mergePipeline mtpNumLayers pp (grid.rank p e r) (List.ofFn fun q => (grid.rank q e r, own q e r)) (own p e r)
  let infos : World pp ep rest (List (ParamInfo δ)) := fun p e r =>
    sortedInfos (mergeExpert ep (List.ofFn fun e' => (grid.rank p e' r, stages p e' r)) (stages p e r))
  let _ ← everyRank fun p e r => checkInfos (gatherWorld infos) (infos p e r)
  return infos

/-- The backup of a rank's own parameters, `megatron_local_weights`. -/
def localWeights (named : List (Name × Param δ τ)) : Dict Name τ :=
  named.foldl (fun weights item => weights.insert item.1 item.2.data) ∅

/-- The tensors before the broadcasts: `torch.empty` but for the parameters that are read here. -/
def initParams (rank : Nat) (weights : Dict Name τ) (infos : List (ParamInfo δ)) : Py (List (Option τ)) :=
  infos.mapM fun info => if rank = info.srcRank then (weights.get info.name).map some else .ok none

/-- The broadcasts of a rank in its pipeline group. -/
def pipelineCalls (ppSize : Nat) (group : List Nat) (infos : List (ParamInfo δ)) : List Call :=
  if 1 < ppSize then issue (fun info => if info.srcRank ∈ group then some info.srcRank else none) infos else []

/-- The broadcasts of a rank in its expert group. -/
def expertCalls (epSize rank : Nat) (group : List Nat) (infos : List (ParamInfo δ)) : List Call :=
  if 1 < epSize then
    issue (fun info => if isExpert info.name then some (if info.srcRank ∈ group then info.srcRank else rank) else none) infos
  else []

section Stages

variable (grid : Grid pp ep rest) (infos : World pp ep rest (List (ParamInfo δ)))

/-- The broadcasts of the members of a pipeline group. -/
def pipelineGroupCalls (e : Fin ep) (r : Fin rest) (p : Fin pp) : List Call :=
  pipelineCalls pp (grid.pipelineGroup e r) (infos p e r)

/-- The broadcasts of the members of an expert group. -/
def expertGroupCalls (p : Fin pp) (r : Fin rest) (e : Fin ep) : List Call :=
  expertCalls ep (grid.rank p e r) (grid.expertGroup p r) (infos p e r)

/-- `broadcast params across pp ranks` -/
def pipelineStage (params : World pp ep rest (List (Option τ))) : Py (World pp ep rest (List (Option τ))) := do
  let after ← Collective.collect fun e => Collective.collect fun r =>
    runGroup (fun p => grid.rank p e r) (pipelineGroupCalls grid infos e r) fun p => params p e r
  return fun p e r => after e r p

/-- `broadcast params across ep ranks` -/
def expertStage (params : World pp ep rest (List (Option τ))) : Py (World pp ep rest (List (Option τ))) := do
  let after ← Collective.collect fun p => Collective.collect fun r =>
    runGroup (fun e => grid.rank p e r) (expertGroupCalls grid infos p r) fun e => params p e r
  return fun p e r => after p r e

/-- A tensor with the attributes that are set on it. -/
structure FullParam (τ : Type) where
  data : Option τ
  attrs : Attrs

/-- `_get_megatron_full_params` on all ranks, up to the gather over the tensor ranks. -/
def getMegatronFullParams (weights : World pp ep rest (Dict Name τ)) : Py (World pp ep rest (List (ParamInfo δ × FullParam τ))) := do
  let params ← everyRank fun p e r => initParams (grid.rank p e r) (weights p e r) (infos p e r)
  let params ← pipelineStage grid infos params
  let params ← expertStage grid infos params
  return fun p e r => List.zipWith (fun info data => (info, ⟨data, info.attrs⟩)) (infos p e r) (params p e r)

end Stages

section Merge

variable {infos own : Infos δ} {name : Name} {info : ParamInfo δ}

theorem mem_items : (name, info) ∈ items infos ↔ infos.lookup name = some info := by
  rw [← Option.mem_def, AList.mem_lookup_iff, items, List.mem_map]
  constructor
  · rintro ⟨⟨_, _⟩, mem, same⟩
    cases same
    exact mem
  · exact fun mem => ⟨⟨name, info⟩, mem, rfl⟩

theorem items_names (infos : Infos δ) : (items infos).map Prod.fst = infos.keys := by
  rw [items, List.map_map, AList.keys, List.keys]
  rfl

/-- The infos are the best of what was seen. -/
structure Best (seen : List (Name × ParamInfo δ)) (infos : Infos δ) : Prop where
  taken : ∀ {name info}, infos.lookup name = some info → (name, info) ∈ seen
  least : ∀ {name info}, (name, info) ∈ seen → ∃ best, infos.lookup name = some best ∧ best.srcRank ≤ info.srcRank

theorem best_items (infos : Infos δ) : Best (items infos) infos :=
  ⟨mem_items.2, fun mem => ⟨_, mem_items.1 mem, le_rfl⟩⟩

/-- An info that is inserted in the place of a worse one or of none. -/
theorem Best.insert {seen : List (Name × ParamInfo δ)} (best : Best seen infos)
    (better : ∀ old, infos.lookup name = some old → info.srcRank ≤ old.srcRank) :
    Best (seen ++ [(name, info)]) (infos.insert name info) := by
  refine ⟨fun {name' info'} here => ?_, fun {name' info'} mem => ?_⟩
  · rw [Dict.lookup_insert] at here
    split at here
    · rename_i same
      cases here
      exact List.mem_append_right _ (same ▸ List.mem_singleton_self _)
    · exact List.mem_append_left _ (best.taken here)
  · rw [Dict.lookup_insert]
    split
    · rename_i same
      subst same
      refine ⟨info, rfl, ?_⟩
      rcases List.mem_append.1 mem with before | now
      · obtain ⟨old, there, le⟩ := best.least before
        exact (better old there).trans le
      · cases List.mem_singleton.1 now
        exact le_rfl
    · rename_i differ
      rcases List.mem_append.1 mem with before | now
      · exact best.least before
      · cases List.mem_singleton.1 now
        exact absurd rfl differ

/-- An info that is passed over for a better one. -/
theorem Best.keep {seen : List (Name × ParamInfo δ)} {old : ParamInfo δ} (best : Best seen infos)
    (there : infos.lookup name = some old) (worse : old.srcRank ≤ info.srcRank) : Best (seen ++ [(name, info)]) infos := by
  refine ⟨fun here => List.mem_append_left _ (best.taken here), fun {name' info'} mem => ?_⟩
  rcases List.mem_append.1 mem with before | now
  · exact best.least before
  · cases List.mem_singleton.1 now
    exact ⟨old, there, worse⟩

theorem addPipeline_best {mtpNumLayers : Option Nat} {srcRank : Nat} {seen : List (Name × ParamInfo δ)}
    {item : Name × ParamInfo δ} (best : Best seen infos) (src : item.2.srcRank = srcRank)
    (allowed : mtpNumLayers.isSome ∨ item.1 ∉ seen.map Prod.fst) :
    ∃ after, addPipeline mtpNumLayers srcRank infos item = .ok after ∧ Best (seen ++ [item]) after := by
  unfold addPipeline
  cases there : infos.lookup item.1 with
  | none => exact ⟨_, rfl, best.insert fun old here => nomatch there.symm.trans here⟩
  | some old =>
    have mtp : mtpNumLayers.isSome = true := by
      refine allowed.resolve_right fun absent => absent ?_
      exact List.mem_map.2 ⟨_, best.taken there, rfl⟩
    dsimp only
    rw [mtp, pyAssert_true, Py.ok_bind]
    split
    · rename_i lower
      refine ⟨_, rfl, best.insert fun old' here => ?_⟩
      cases there.symm.trans here
      exact src ▸ lower.le
    · rename_i higher
      exact ⟨_, rfl, best.keep there (src ▸ not_lt.1 higher)⟩

theorem addStage_best {mtpNumLayers : Option Nat} {srcRank : Nat} {seen stage : List (Name × ParamInfo δ)}
    (best : Best seen infos) (src : ∀ item ∈ stage, item.2.srcRank = srcRank)
    (allowed : mtpNumLayers.isSome ∨ ((seen ++ stage).map Prod.fst).Nodup) :
    ∃ after, stage.foldlM (addPipeline mtpNumLayers srcRank) infos = .ok after ∧ Best (seen ++ stage) after := by
  induction stage generalizing infos seen with
  | nil => exact ⟨infos, rfl, (List.append_nil seen).symm ▸ best⟩
  | cons item stage ih =>
    rw [List.append_cons] at allowed ⊢
    have fresh (once : (((seen ++ [item]) ++ stage).map Prod.fst).Nodup) : item.1 ∉ seen.map Prod.fst := by
      rw [List.map_append, List.map_append, List.append_assoc] at once
      exact fun mem => List.disjoint_of_nodup_append once mem (List.mem_append_left _ (List.mem_singleton_self _))
    obtain ⟨mid, step, best⟩ := addPipeline_best best (src item (List.mem_cons_self ..)) (allowed.imp id fresh)
    obtain ⟨after, rest, best⟩ := ih best (fun other mem => src other (List.mem_cons_of_mem _ mem)) allowed
    exact ⟨after, by rw [List.foldlM_cons, step, Py.ok_bind, rest], best⟩

/-- The loop over the other members of the pipeline group. -/
theorem addStages_best {mtpNumLayers : Option Nat} {rank : Nat} {seen : List (Name × ParamInfo δ)}
    {gathered : List (Nat × Infos δ)} (best : Best seen infos)
    (src : ∀ member ∈ gathered, ∀ item ∈ items member.2, item.2.srcRank = member.1)
    (allowed : mtpNumLayers.isSome ∨
      ((seen ++ (gathered.filter fun member => member.1 ≠ rank).flatMap fun member => items member.2).map Prod.fst).Nodup) :
    ∃ after, gathered.foldlM (fun infos member =>
        if member.1 = rank then .ok infos else (items member.2).foldlM (addPipeline mtpNumLayers member.1) infos) infos =
          .ok after ∧
      Best (seen ++ (gathered.filter fun member => member.1 ≠ rank).flatMap fun member => items member.2) after := by
  induction gathered generalizing infos seen with
  | nil => exact ⟨infos, rfl, (List.append_nil seen).symm ▸ best⟩
  | cons member gathered ih =>
    have later : ∀ other ∈ gathered, ∀ item ∈ items other.2, item.2.srcRank = other.1 := fun other mem =>
      src other (List.mem_cons_of_mem _ mem)
    rw [List.foldlM_cons]
    by_cases me : member.1 = rank
    · rw [List.filter_cons_of_neg (by simpa using me)] at allowed ⊢
      rw [if_pos me, Py.ok_bind]
      exact ih best later allowed
    · rw [List.filter_cons_of_pos (by simpa using me), List.flatMap_cons, ← List.append_assoc] at allowed ⊢
      have first : mtpNumLayers.isSome ∨ ((seen ++ items member.2).map Prod.fst).Nodup := by
        refine allowed.imp id fun once => ?_
        rw [List.map_append] at once
        exact once.of_append_left
      obtain ⟨mid, step, best⟩ := addStage_best best (src member (List.mem_cons_self ..)) first
      obtain ⟨after, rest, best⟩ := ih best later allowed
      exact ⟨after, by rw [if_neg me, step, Py.ok_bind, rest], best⟩

/-- The infos after the expert group: a rank keeps its own ones, and has one for every name that was seen. -/
structure Grown (own : Infos δ) (seen : List (Nat × Name × ParamInfo δ)) (infos : Infos δ) : Prop where
  kept : ∀ {name info}, own.lookup name = some info → infos.lookup name = some info
  found : ∀ {name info}, infos.lookup name = some info → own.lookup name = some info ∨
    own.lookup name = none ∧ ∃ src other, (src, name, other) ∈ seen ∧ info = { other with srcRank := src }
  all : ∀ {src name other}, (src, name, other) ∈ seen → ∃ info, infos.lookup name = some info

theorem addExpert_grown {seen : List (Nat × Name × ParamInfo δ)} (grown : Grown own seen infos) (src : Nat)
    (item : Name × ParamInfo δ) : Grown own (seen ++ [(src, item)]) (addExpert src infos item) := by
  unfold addExpert
  split
  · rename_i known
    refine ⟨grown.kept, fun here => ?_, fun mem => ?_⟩
    · refine (grown.found here).imp id fun ⟨absent, src, other, mem, same⟩ => ?_
      exact ⟨absent, src, other, List.mem_append_left _ mem, same⟩
    · rcases List.mem_append.1 mem with before | now
      · exact grown.all before
      · cases List.mem_singleton.1 now
        exact Option.isSome_iff_exists.1 (AList.lookup_isSome.2 known)
  · rename_i unknown
    have free : infos.lookup item.1 = none := AList.lookup_eq_none.2 unknown
    refine ⟨fun {name info} here => ?_, fun {name info} here => ?_, fun {src' name other} mem => ?_⟩
    · rw [Dict.lookup_insert, if_neg, grown.kept here]
      intro same
      rw [← same, grown.kept here] at free
      cases free
    · rw [Dict.lookup_insert] at here
      split at here
      · rename_i same
        cases here
        subst same
        refine .inr ⟨?_, src, item.2, List.mem_append_right _ (List.mem_singleton_self _), rfl⟩
        cases mine : own.lookup item.1 with
        | none => rfl
        | some info => cases (grown.kept mine).symm.trans free
      · refine (grown.found here).imp id fun ⟨absent, src, other, mem, same⟩ => ?_
        exact ⟨absent, src, other, List.mem_append_left _ mem, same⟩
    · rw [Dict.lookup_insert]
      split
      · exact ⟨_, rfl⟩
      · rename_i differ
        rcases List.mem_append.1 mem with before | now
        · exact grown.all before
        · cases List.mem_singleton.1 now
          exact absurd rfl differ

/-- The loop over the members of the expert group. -/
theorem addExperts_grown {seen : List (Nat × Name × ParamInfo δ)} (grown : Grown own seen infos)
    (entries : List (Nat × Name × ParamInfo δ)) :
    Grown own (seen ++ entries) (entries.foldl (fun infos entry => addExpert entry.1 infos entry.2) infos) := by
  induction entries generalizing infos seen with
  | nil => exact (List.append_nil seen).symm ▸ grown
  | cons entry entries ih =>
    rw [List.append_cons]
    exact ih (addExpert_grown grown entry.1 entry.2)

theorem mergeExpert_grown (gathered : List (Nat × Infos δ)) (own : Infos δ) :
    Grown own (gathered.flatMap fun member => (items member.2).map (Prod.mk member.1))
      (gathered.foldl (fun infos member => (items member.2).foldl (addExpert member.1) infos) own) := by
  have start : Grown own [] own := ⟨id, .inl, fun mem => absurd mem List.not_mem_nil⟩
  have grown := addExperts_grown start (gathered.flatMap fun member => (items member.2).map (Prod.mk member.1))
  simpa only [List.nil_append, List.foldl_flatMap, List.foldl_map] using grown

end Merge

/-- The parameters of a rank by their names. -/
def held (named : List (Name × Param δ τ)) : Dict Name (Param δ τ) :=
  named.foldl (fun params item => params.insert item.1 item.2) ∅

theorem lookup_insertAll {ν : Type} (f : Name → Param δ τ → ν) (named : List (Name × Param δ τ)) {infos : Dict Name ν}
    {params : Dict Name (Param δ τ)} (agree : ∀ name, infos.lookup name = (params.lookup name).map (f name)) (name : Name) :
    (named.foldl (fun infos item => infos.insert item.1 (f item.1 item.2)) infos).lookup name =
      ((named.foldl (fun params item => params.insert item.1 item.2) params).lookup name).map (f name) := by
  induction named generalizing infos params with
  | nil => exact agree name
  | cons item named ih =>
    refine ih fun other => ?_
    rw [Dict.lookup_insert, Dict.lookup_insert]
    split
    · rename_i same
      rw [same]
      rfl
    · exact agree other

theorem lookup_ownInfos (rank : Nat) (named : List (Name × Param δ τ)) (name : Name) :
    (ownInfos rank named).lookup name = ((held named).lookup name).map (infoOf rank name) := by
  apply lookup_insertAll (infoOf rank)
  exact fun _ => rfl

theorem lookup_localWeights (named : List (Name × Param δ τ)) (name : Name) :
    (localWeights named).lookup name = ((held named).lookup name).map Param.data := by
  apply lookup_insertAll fun _ => Param.data
  exact fun _ => rfl

/-- The parameters of all ranks: a stage has its dense parameters at every expert coordinate, an
expert parameter belongs to one coordinate, and a name has one type and one shape. -/
structure ParamSet (pp ep rest : Nat) (δ τ : Type) where
  named : World pp ep rest (List (Name × Param δ τ))
  replicated : ∀ {name p e r} r', name ∈ held (named p e r) → name ∈ held (named p e r')
  dense : ∀ {name p e r} e', isExpert name = false → name ∈ held (named p e r) → name ∈ held (named p e' r)
  slice : ∀ {name p p' e e' r r'}, isExpert name = true → name ∈ held (named p e r) → name ∈ held (named p' e' r') → e = e'
  uniform : ∀ {name param param' p e r p' e' r'}, (held (named p e r)).lookup name = some param →
    (held (named p' e' r')).lookup name = some param' → param.dtype = param'.dtype ∧ param.shape = param'.shape

namespace ParamSet

/-- No name is on two pipeline stages. -/
def Unduplicated (set : ParamSet pp ep rest δ τ) : Prop :=
  ∀ {name p q e r}, name ∈ held (set.named p e r) → name ∈ held (set.named q e r) → p = q

variable (grid : Grid pp ep rest) (set : ParamSet pp ep rest δ τ)

/-- The own infos of a rank. -/
def own (p : Fin pp) (e : Fin ep) (r : Fin rest) : Infos δ := ownInfos (grid.rank p e r) (set.named p e r)

/-- The rank that a parameter is read from: of the stages with it, the one with the lowest rank. -/
structure IsOwner (q : Fin pp) (e : Fin ep) (r : Fin rest) (name : Name) (param : Param δ τ) : Prop where
  holds : (held (set.named q e r)).lookup name = some param
  lowest : ∀ {q'}, name ∈ held (set.named q' e r) → grid.rank q e r ≤ grid.rank q' e r

/-- What a rank knows of a parameter. The source is the owner if that is in the rank's own pipeline
group, and else the member of the expert group with the owner's expert coordinate. -/
structure Traced (p : Fin pp) (e : Fin ep) (r : Fin rest) (q : Fin pp) (e₀ : Fin ep) (param : Param δ τ) (info : ParamInfo δ) :
    Prop where
  owner : set.IsOwner grid q e₀ r info.name param
  dense : isExpert info.name = false → e₀ = e
  dtype : info.dtype = param.dtype
  shape : info.shape = param.shape
  src : info.srcRank = if e₀ = e then grid.rank q e r else grid.rank p e₀ r

variable {grid set} {p p' q q' : Fin pp} {e e' e₀ e₁ : Fin ep} {r r' : Fin rest} {name : Name} {param param' : Param δ τ}
  {info info' : ParamInfo δ} {infos : Infos δ}

theorem lookup_own : (set.own grid p e r).lookup name = some info ↔
    ∃ param, (held (set.named p e r)).lookup name = some param ∧ info = infoOf (grid.rank p e r) name param := by
  rw [own, lookup_ownInfos, Option.map_eq_some_iff]
  exact exists_congr fun param => and_congr Iff.rfl eq_comm

theorem mem_names_own : name ∈ (items (set.own grid p e r)).map Prod.fst ↔ name ∈ held (set.named p e r) := by
  rw [items_names, AList.mem_keys.symm, ← AList.lookup_isSome, ← AList.lookup_isSome, own, lookup_ownInfos, Option.isSome_map]

theorem IsOwner.mem (owner : set.IsOwner grid q e r name param) : name ∈ held (set.named q e r) :=
  Dict.mem_of_lookup owner.holds

theorem IsOwner.unique (owner : set.IsOwner grid q e r name param) (other : set.IsOwner grid q' e r name param') :
    q = q' ∧ param = param' := by
  have same := le_antisymm (owner.lowest other.mem) (other.lowest owner.mem)
  obtain ⟨rfl, -, -⟩ := grid.distinct same
  exact ⟨rfl, Option.some.inj (owner.holds.symm.trans other.holds)⟩

/-- Ranks with one remaining coordinate trace a parameter to one owner, a dense one within an expert
coordinate. -/
theorem Traced.transfer (traced : set.Traced grid p e r q e₀ param info) (other : set.Traced grid p' e' r q' e₁ param' info')
    (same : info'.name = info.name) (within : isExpert info.name = true ∨ e' = e) :
    set.Traced grid p' e' r q e₀ param info' := by
  have coordinate : e₁ = e₀ := by
    by_cases expert : isExpert info.name = true
    · exact set.slice (same ▸ expert) other.owner.mem (same ▸ traced.owner.mem)
    · have plain : isExpert info.name = false := eq_false_of_ne_true expert
      rw [other.dense (same ▸ plain), traced.dense plain]
      exact within.resolve_left expert
  subst coordinate
  have mine := traced.owner
  rw [← same] at mine
  obtain ⟨rfl, rfl⟩ := other.owner.unique mine
  exact other

/-- The infos of a pipeline group: one for every name of the group, from its owner. -/
structure StageInfos (grid : Grid pp ep rest) (set : ParamSet pp ep rest δ τ) (e : Fin ep) (r : Fin rest) (infos : Infos δ) :
    Prop where
  sound : ∀ {name info}, infos.lookup name = some info →
    ∃ q param, set.IsOwner grid q e r name param ∧ info = infoOf (grid.rank q e r) name param
  complete : ∀ {name q}, name ∈ held (set.named q e r) → ∃ info, infos.lookup name = some info

theorem stageInfos_of_best {seen : List (Name × ParamInfo δ)} (best : Best seen infos)
    (members : ∀ {name info}, (name, info) ∈ seen ↔ ∃ q, (set.own grid q e r).lookup name = some info) :
    StageInfos grid set e r infos := by
  have complete {name : Name} {q : Fin pp} (mem : name ∈ held (set.named q e r)) :
      ∃ best, infos.lookup name = some best ∧ best.srcRank ≤ grid.rank q e r := by
    obtain ⟨param, here⟩ := Option.isSome_iff_exists.1 (AList.lookup_isSome.2 mem)
    exact best.least (members.2 ⟨q, lookup_own.2 ⟨param, here, rfl⟩⟩)
  refine ⟨fun here => ?_, fun mem => (complete mem).imp fun _ => And.left⟩
  obtain ⟨q, mine⟩ := members.1 (best.taken here)
  obtain ⟨param, holds, same⟩ := lookup_own.1 mine
  refine ⟨q, param, ⟨holds, fun mem => ?_⟩, same⟩
  obtain ⟨best, there, le⟩ := complete mem
  cases here.symm.trans there
  rw [same] at le
  exact le

theorem items_own_once (unduplicated : set.Unduplicated) :
    ((items (set.own grid p e r) ++ ((List.ofFn fun q => (grid.rank q e r, set.own grid q e r)).filter
      fun member => member.1 ≠ grid.rank p e r).flatMap fun member => items member.2).map Prod.fst).Nodup := by
  have nodup (q : Fin pp) : ((items (set.own grid q e r)).map Prod.fst).Nodup := by
    rw [items_names]
    exact AList.keys_nodup _
  rw [List.map_append, List.map_flatMap, List.nodup_append', List.nodup_flatMap]
  refine ⟨nodup p, ⟨fun member mem => ?_, ?_⟩, fun name mine others => ?_⟩
  · obtain ⟨q, rfl⟩ := List.mem_ofFn.1 (List.mem_of_mem_filter mem)
    exact nodup q
  · refine List.Pairwise.filter _ (List.pairwise_ofFn.2 fun q q' lt name here there => ?_)
    exact lt.ne (unduplicated (mem_names_own.1 here) (mem_names_own.1 there))
  · obtain ⟨member, mem, there⟩ := List.mem_flatMap.1 others
    obtain ⟨listed, other⟩ := List.mem_filter.1 mem
    obtain ⟨q, rfl⟩ := List.mem_ofFn.1 listed
    cases unduplicated (mem_names_own.1 mine) (mem_names_own.1 there)
    exact of_decide_eq_true other rfl

/-- **The exchange in a pipeline group.** -/
theorem mergePipeline_spec (grid : Grid pp ep rest) {mtpNumLayers : Option Nat}
    (allowed : mtpNumLayers.isSome ∨ set.Unduplicated) (p : Fin pp) (e : Fin ep) (r : Fin rest) :
    ∃ infos, mergePipeline mtpNumLayers pp (grid.rank p e r) (List.ofFn fun q => (grid.rank q e r, set.own grid q e r))
      (set.own grid p e r) = .ok infos ∧ StageInfos grid set e r infos := by
  unfold mergePipeline
  split
  · have src : ∀ member ∈ List.ofFn fun q => (grid.rank q e r, set.own grid q e r),
        ∀ item ∈ items member.2, item.2.srcRank = member.1 := by
      rintro member mem ⟨name, info⟩ listed
      obtain ⟨q, rfl⟩ := List.mem_ofFn.1 mem
      obtain ⟨param, -, same⟩ := lookup_own.1 (mem_items.1 listed)
      exact congrArg ParamInfo.srcRank same
    obtain ⟨after, done, best⟩ := addStages_best (best_items (set.own grid p e r)) src (allowed.imp id items_own_once)
    refine ⟨after, done, stageInfos_of_best best fun {name info} => ?_⟩
    rw [List.mem_append, mem_items, List.mem_flatMap]
    constructor
    · rintro (mine | ⟨member, mem, there⟩)
      · exact ⟨p, mine⟩
      · obtain ⟨q, rfl⟩ := List.mem_ofFn.1 (List.mem_of_mem_filter mem)
        exact ⟨q, mem_items.1 there⟩
    · rintro ⟨q, there⟩
      by_cases me : grid.rank q e r = grid.rank p e r
      · obtain ⟨rfl, -, -⟩ := grid.distinct me
        exact .inl there
      · exact .inr ⟨(grid.rank q e r, set.own grid q e r),
          List.mem_filter.2 ⟨List.mem_ofFn.2 ⟨q, rfl⟩, decide_eq_true me⟩, mem_items.2 there⟩
  · rename_i single
    refine ⟨_, rfl, stageInfos_of_best (best_items _) fun {name info} => ?_⟩
    rw [mem_items]
    refine ⟨fun here => ⟨p, here⟩, fun ⟨q, here⟩ => ?_⟩
    obtain rfl : q = p := Fin.ext (by omega)
    exact here

/-- The infos of a rank: one for every name of the ranks with its remaining coordinate. -/
structure RankInfos (grid : Grid pp ep rest) (set : ParamSet pp ep rest δ τ) (p : Fin pp) (e : Fin ep) (r : Fin rest)
    (infos : Infos δ) : Prop where
  sound : ∀ {name info}, infos.lookup name = some info → info.name = name ∧ ∃ q e₀ param, set.Traced grid p e r q e₀ param info
  complete : ∀ {name q e'}, name ∈ held (set.named q e' r) → ∃ info, infos.lookup name = some info

theorem StageInfos.traced (stage : StageInfos grid set e r infos) (p : Fin pp) (here : infos.lookup name = some info) :
    info.name = name ∧ ∃ q e₀ param, set.Traced grid p e r q e₀ param info := by
  obtain ⟨q, param, owner, rfl⟩ := stage.sound here
  exact ⟨rfl, q, e, param, owner, fun _ => rfl, rfl, rfl, (if_pos rfl).symm⟩

/-- **The exchange in an expert group.** -/
theorem mergeExpert_spec {stages : Fin ep → Infos δ} (spec : ∀ e, StageInfos grid set e r (stages e)) (p : Fin pp) (e : Fin ep) :
    RankInfos grid set p e r (mergeExpert ep (List.ofFn fun e' => (grid.rank p e' r, stages e')) (stages e)) := by
  unfold mergeExpert
  split
  · have grown := mergeExpert_grown (List.ofFn fun e' => (grid.rank p e' r, stages e')) (stages e)
    refine ⟨fun here => ?_, fun {name q e'} mem => ?_⟩
    · rcases grown.found here with mine | ⟨absent, src, other, seen, rfl⟩
      · exact (spec e).traced p mine
      · obtain ⟨member, listed, there⟩ := List.mem_flatMap.1 seen
        obtain ⟨e', rfl⟩ := List.mem_ofFn.1 listed
        obtain ⟨item, mem, same⟩ := List.mem_map.1 there
        cases same
        obtain ⟨q, param, owner, rfl⟩ := (spec e').sound (mem_items.1 mem)
        have elsewhere : e' ≠ e := by
          rintro rfl
          cases absent.symm.trans (mem_items.1 mem)
        refine ⟨rfl, q, e', param, owner, fun dense => ?_, rfl, rfl, (if_neg elsewhere).symm⟩
        obtain ⟨info, mine⟩ := (spec e).complete (set.dense e dense owner.mem)
        cases absent.symm.trans mine
    · obtain ⟨other, there⟩ := (spec e').complete mem
      exact grown.all (List.mem_flatMap.2 ⟨(grid.rank p e' r, stages e'), List.mem_ofFn.2 ⟨e', rfl⟩,
        List.mem_map.2 ⟨_, mem_items.2 there, rfl⟩⟩)
  · rename_i single
    refine ⟨(spec e).traced p, fun {name q e'} mem => ?_⟩
    obtain rfl : e' = e := Fin.ext (by omega)
    exact (spec e').complete mem

theorem Traced.src_self (traced : set.Traced grid p e r q e₀ param info) :
    grid.rank p e r = info.srcRank ↔ e₀ = e ∧ q = p := by
  rw [traced.src]
  split
  · rename_i same
    constructor
    · exact fun here => ⟨same, (grid.distinct here).1.symm⟩
    · rintro ⟨-, rfl⟩
      rfl
  · rename_i differ
    exact ⟨fun here => absurd (grid.distinct here).2.1.symm differ, fun here => absurd here.1 differ⟩

/-- The pipeline stage broadcasts a parameter exactly in the groups at its owner's expert coordinate. -/
theorem Traced.pipeline_source (traced : set.Traced grid p e r q e₀ param info) :
    (if info.srcRank ∈ grid.pipelineGroup e r then some info.srcRank else none) =
      if e₀ = e then some (grid.rank q e r) else none := by
  rw [traced.src]
  by_cases same : e₀ = e
  · rw [if_pos same, if_pos same, if_pos (Grid.mem_pipelineGroup.2 ⟨rfl, rfl⟩)]
  · rw [if_neg same, if_neg same, if_neg fun here => same (Grid.mem_pipelineGroup.1 here).1]

/-- In the expert stage all members of the group name the one at the owner's expert coordinate. -/
theorem Traced.expert_source (traced : set.Traced grid p e r q e₀ param info) :
    (if info.srcRank ∈ grid.expertGroup p r then info.srcRank else grid.rank p e r) = grid.rank p e₀ r := by
  rw [traced.src]
  by_cases same : e₀ = e
  · subst same
    rw [if_pos rfl]
    split
    · rename_i member
      rw [(Grid.mem_expertGroup.1 member).1]
    · rfl
  · rw [if_neg same, if_pos (Grid.mem_expertGroup.2 ⟨rfl, rfl⟩)]

/-- The data that a parameter has to end with on a rank: the owner's, of the same pipeline group for a
dense parameter. -/
def Shard (grid : Grid pp ep rest) (set : ParamSet pp ep rest δ τ) (e : Fin ep) (r : Fin rest) (name : Name) (data : τ) : Prop :=
  ∃ q e₀ param, set.IsOwner grid q e₀ r name param ∧ (isExpert name = false → e₀ = e) ∧ param.data = data

theorem Traced.shard (traced : set.Traced grid p e r q e₀ param info) : set.Shard grid e r info.name param.data :=
  ⟨q, e₀, param, traced.owner, traced.dense, rfl⟩

theorem Shard.unique {data data' : τ} (shard : set.Shard grid e r name data) (other : set.Shard grid e r name data') :
    data = data' := by
  obtain ⟨q, e₀, param, owner, dense, rfl⟩ := shard
  obtain ⟨q', e₁, param', owner', dense', rfl⟩ := other
  have coordinate : e₀ = e₁ := by
    by_cases expert : isExpert name = true
    · exact set.slice expert owner.mem owner'.mem
    · rw [dense (eq_false_of_ne_true expert), dense' (eq_false_of_ne_true expert)]
  subst coordinate
  rw [(owner.unique owner').2]

theorem mem_sortedInfos : info ∈ sortedInfos infos ↔ ∃ name, infos.lookup name = some info := by
  rw [sortedInfos, List.mem_mergeSort, List.mem_map]
  constructor
  · rintro ⟨⟨name, info⟩, mem, rfl⟩
    exact ⟨name, mem_items.1 mem⟩
  · exact fun ⟨name, here⟩ => ⟨(name, info), mem_items.2 here, rfl⟩

theorem RankInfos.names_sorted (spec : RankInfos grid set p e r infos) :
    ((sortedInfos infos).map ParamInfo.name).Pairwise (· < ·) := by
  have sorted : ((sortedInfos infos).map ParamInfo.name).Pairwise (· ≤ ·) := by
    rw [List.pairwise_map]
    refine (List.pairwise_mergeSort (fun a b c ab bc => ?_) (fun a b => ?_) _).imp of_decide_eq_true
    · exact decide_eq_true ((of_decide_eq_true ab).trans (of_decide_eq_true bc))
    · rw [← Bool.decide_or, decide_eq_true_iff]
      exact le_total a.name b.name
  have once : ((sortedInfos infos).map ParamInfo.name).Nodup := by
    have perm := (List.mergeSort_perm ((items infos).map Prod.snd) fun a b => decide (a.name ≤ b.name)).map ParamInfo.name
    refine perm.nodup_iff.2 ?_
    have keys : ((items infos).map Prod.snd).map ParamInfo.name = (items infos).map Prod.fst := by
      rw [List.map_map]
      exact List.map_congr_left fun item mem => (spec.sound (mem_items.1 mem)).1
    rw [keys, items_names]
    exact infos.keys_nodup
  exact (sorted.and once).imp fun both => lt_of_le_of_ne both.1 both.2

theorem RankInfos.mem_names (spec : RankInfos grid set p e r infos) :
    name ∈ (sortedInfos infos).map ParamInfo.name ↔ ∃ p e r, name ∈ held (set.named p e r) := by
  rw [List.mem_map]
  constructor
  · rintro ⟨info, mem, rfl⟩
    obtain ⟨name, here⟩ := mem_sortedInfos.1 mem
    obtain ⟨-, q, e₀, param, traced⟩ := spec.sound here
    exact ⟨q, e₀, r, traced.owner.mem⟩
  · rintro ⟨q, e', r', mem⟩
    obtain ⟨info, here⟩ := spec.complete (set.replicated r mem)
    exact ⟨info, mem_sortedInfos.2 ⟨name, here⟩, (spec.sound here).1⟩

end ParamSet

open ParamSet

variable {grid : Grid pp ep rest} {set : ParamSet pp ep rest δ τ}

theorem everyRank_ok {run : World pp ep rest (Py α)} {values : World pp ep rest α} (ok : ∀ p e r, run p e r = .ok (values p e r)) :
    everyRank run = .ok values :=
  Collective.collect_ok fun p => Collective.collect_ok fun e => Collective.collect_ok fun r => ok p e r

theorem mem_gatherWorld {values : World pp ep rest α} {value : α} :
    value ∈ gatherWorld values ↔ ∃ p e r, values p e r = value := by
  simp only [gatherWorld, List.mem_flatMap, List.mem_map, List.mem_finRange, true_and]

theorem forM_ok {f : α → Py Unit} {xs : List α} (ok : ∀ x ∈ xs, f x = .ok ()) : xs.forM f = .ok () := by
  induction xs with
  | nil => rfl
  | cons x xs ih =>
    exact Py.bind_eq_ok.2 ⟨(), ok x (List.mem_cons_self ..), ih fun y mem => ok y (List.mem_cons_of_mem _ mem)⟩

/-- All ranks have infos of the same names in the same order, each traced to its owner. -/
structure Aligned (grid : Grid pp ep rest) (set : ParamSet pp ep rest δ τ) (infos : World pp ep rest (List (ParamInfo δ))) : Prop where
  names : ∀ p e r p' e' r', (infos p e r).map ParamInfo.name = (infos p' e' r').map ParamInfo.name
  traced : ∀ {p e r info}, info ∈ infos p e r → ∃ q e₀ param, set.Traced grid p e r q e₀ param info

namespace Aligned

variable {infos : World pp ep rest (List (ParamInfo δ))} {p p' q : Fin pp} {e e' e₀ : Fin ep} {r r' : Fin rest} {i : Nat}
  {info : ParamInfo δ} {param : Param δ τ}

theorem same_name (aligned : Aligned grid set infos) (here : (infos p e r)[i]? = some info) (p' : Fin pp) (e' : Fin ep)
    (r' : Fin rest) : ∃ info', (infos p' e' r')[i]? = some info' ∧ info'.name = info.name := by
  have listed : ((infos p' e' r').map ParamInfo.name)[i]? = some info.name := by
    rw [aligned.names p' e' r' p e r, List.getElem?_map, here]
    rfl
  rw [List.getElem?_map] at listed
  exact Option.map_eq_some_iff.1 listed

/-- The info of the same parameter on another rank. -/
theorem peer (aligned : Aligned grid set infos) (here : (infos p e r)[i]? = some info)
    (traced : set.Traced grid p e r q e₀ param info) (p' : Fin pp) (e' : Fin ep) (within : isExpert info.name = true ∨ e' = e) :
    ∃ info', (infos p' e' r)[i]? = some info' ∧ info'.name = info.name ∧ set.Traced grid p' e' r q e₀ param info' := by
  obtain ⟨info', there, same⟩ := aligned.same_name here p' e' r
  obtain ⟨q', e₁, param', other⟩ := aligned.traced (List.mem_of_getElem? there)
  exact ⟨info', there, same, traced.transfer other same within⟩

theorem check [DecidableEq δ] (aligned : Aligned grid set infos) (p : Fin pp) (e : Fin ep) (r : Fin rest) :
    checkInfos (gatherWorld infos) (infos p e r) = .ok () := by
  refine forM_ok fun entry mem => forM_ok fun other gathered => ?_
  obtain ⟨p', e', r', rfl⟩ := mem_gatherWorld.1 gathered
  have here := List.mem_zipIdx_iff_getElem?.1 mem
  obtain ⟨info', there, same⟩ := aligned.same_name here p' e' r'
  obtain ⟨q, e₀, param, traced⟩ := aligned.traced (List.mem_of_getElem? here)
  obtain ⟨q', e₁, param', other⟩ := aligned.traced (List.mem_of_getElem? there)
  have holds := other.owner.holds
  rw [same] at holds
  obtain ⟨dtype, shape⟩ := set.uniform holds traced.owner.holds
  have sameShape : info'.shape = entry.1.shape := by rw [other.shape, traced.shape, shape]
  have sameDtype : info'.dtype = entry.1.dtype := by rw [other.dtype, traced.dtype, dtype]
  rw [pyIndex_ok_iff.2 there, Py.ok_bind, decide_eq_true same, decide_eq_true sameShape, decide_eq_true sameDtype]
  rfl

end Aligned

/-- **The infos of all ranks.** -/
theorem getMegatronLocalParamInfos_spec [DecidableEq δ] (grid : Grid pp ep rest) {mtpNumLayers : Option Nat}
    (allowed : mtpNumLayers.isSome ∨ set.Unduplicated) :
    ∃ infos, getMegatronLocalParamInfos mtpNumLayers grid set.named = .ok infos ∧ Aligned grid set infos ∧
      ∀ p e r, ((infos p e r).map ParamInfo.name).Pairwise (· < ·) ∧
        ∀ name, name ∈ (infos p e r).map ParamInfo.name ↔ ∃ p e r, name ∈ held (set.named p e r) := by
  choose stages exchanged spec using mergePipeline_spec grid allowed
  have ranks (p : Fin pp) (e : Fin ep) (r : Fin rest) := mergeExpert_spec (fun e' => spec p e' r) p e
  let infos : World pp ep rest (List (ParamInfo δ)) := fun p e r =>
    sortedInfos (mergeExpert ep (List.ofFn fun e' => (grid.rank p e' r, stages p e' r)) (stages p e r))
  have sorted (p : Fin pp) (e : Fin ep) (r : Fin rest) : ((infos p e r).map ParamInfo.name).Pairwise (· < ·) :=
    (ranks p e r).names_sorted
  have listed (p : Fin pp) (e : Fin ep) (r : Fin rest) (name : Name) :
      name ∈ (infos p e r).map ParamInfo.name ↔ ∃ p e r, name ∈ held (set.named p e r) := (ranks p e r).mem_names
  have aligned : Aligned grid set infos := by
    refine ⟨fun p e r p' e' r' => ?_, fun {p e r info} mem => ?_⟩
    · exact (sorted p e r).eq_of_mem_iff (sorted p' e' r') fun name => (listed p e r name).trans (listed p' e' r' name).symm
    · obtain ⟨name, here⟩ := mem_sortedInfos.1 mem
      exact ((ranks p e r).sound here).2
  refine ⟨infos, ?_, aligned, fun p e r => ⟨sorted p e r, listed p e r⟩⟩
  unfold getMegatronLocalParamInfos
  refine Py.bind_eq_ok.2 ⟨stages, everyRank_ok exchanged, ?_⟩
  exact Py.bind_eq_ok.2 ⟨_, everyRank_ok aligned.check, rfl⟩

theorem map_congr_of_names {β : Type} {f f' : ParamInfo δ → β} {xs ys : List (ParamInfo δ)}
    (names : xs.map ParamInfo.name = ys.map ParamInfo.name)
    (same : ∀ (i : Nat) info info', xs[i]? = some info → ys[i]? = some info' → f info = f' info') : xs.map f = ys.map f' := by
  have lengths : xs.length = ys.length := by simpa only [List.length_map] using congrArg List.length names
  refine List.ext_getElem (by rw [List.length_map, List.length_map, lengths]) fun i inX inY => ?_
  rw [List.length_map] at inX inY
  rw [List.getElem_map, List.getElem_map]
  exact same i _ _ (List.getElem?_eq_getElem inX) (List.getElem?_eq_getElem inY)

section Stages

variable {infos : World pp ep rest (List (ParamInfo δ))}

/-- What `initParams` leaves on a rank. -/
def initial (grid : Grid pp ep rest) (set : ParamSet pp ep rest δ τ) (infos : World pp ep rest (List (ParamInfo δ)))
    (p : Fin pp) (e : Fin ep) (r : Fin rest) : List (Option τ) :=
  (infos p e r).map fun info =>
    if grid.rank p e r = info.srcRank then (localWeights (set.named p e r)).lookup info.name else none

theorem initParams_eq (aligned : Aligned grid set infos) (p : Fin pp) (e : Fin ep) (r : Fin rest) :
    initParams (grid.rank p e r) (localWeights (set.named p e r)) (infos p e r) = .ok (initial grid set infos p e r) := by
  refine mapM_ok _ fun info mem => ?_
  obtain ⟨q, e₀, param, traced⟩ := aligned.traced mem
  split
  · rename_i here
    obtain ⟨rfl, rfl⟩ := traced.src_self.1 here
    have found : (localWeights (set.named q e₀ r)).lookup info.name = some param.data := by
      rw [lookup_localWeights, traced.owner.holds]
      rfl
    rw [Dict.get_eq found, found]
    rfl
  · rfl

theorem length_initial (p : Fin pp) (e : Fin ep) (r : Fin rest) : (initial grid set infos p e r).length = (infos p e r).length :=
  List.length_map ..

theorem initial_owner {q : Fin pp} {e : Fin ep} {r : Fin rest} {i : Nat} {info : ParamInfo δ} {param : Param δ τ}
    (here : (infos q e r)[i]? = some info) (traced : set.Traced grid q e r q e param info) :
    (initial grid set infos q e r)[i]? = some (some param.data) := by
  rw [initial, List.getElem?_map, here, Option.map_some, if_pos (traced.src_self.2 ⟨rfl, rfl⟩), lookup_localWeights,
    traced.owner.holds]
  rfl

/-- The value of a buffer is the owner's shard, on every rank of a pipeline group. -/
def PipelineGood (grid : Grid pp ep rest) (set : ParamSet pp ep rest δ τ) (infos : World pp ep rest (List (ParamInfo δ)))
    (e : Fin ep) (r : Fin rest) (i : Nat) (data : τ) : Prop :=
  ∃ name, (∀ p, ((infos p e r).map ParamInfo.name)[i]? = some name) ∧ set.Shard grid e r name data

/-- The value of a buffer is the owner's shard, on every rank of an expert group. -/
def ExpertGood (grid : Grid pp ep rest) (set : ParamSet pp ep rest δ τ) (infos : World pp ep rest (List (ParamInfo δ)))
    (p : Fin pp) (r : Fin rest) (i : Nat) (data : τ) : Prop :=
  ∃ name, ∀ e, ((infos p e r).map ParamInfo.name)[i]? = some name ∧ set.Shard grid e r name data

variable {p : Fin pp} {e : Fin ep} {r : Fin rest} {call : Call}

theorem mem_pipelineGroupCalls : call ∈ pipelineGroupCalls grid infos e r p ↔
    1 < pp ∧ ∃ info, (infos p e r)[call.index]? = some info ∧
      (if info.srcRank ∈ grid.pipelineGroup e r then some info.srcRank else none) = some call.src := by
  unfold pipelineGroupCalls pipelineCalls
  split
  · rename_i several
    rw [mem_issue]
    exact (and_iff_right several).symm
  · rename_i single
    exact ⟨fun mem => absurd mem List.not_mem_nil, fun both => absurd both.1 single⟩

theorem mem_expertGroupCalls : call ∈ expertGroupCalls grid infos p r e ↔
    1 < ep ∧ ∃ info, (infos p e r)[call.index]? = some info ∧ isExpert info.name = true ∧
      (if info.srcRank ∈ grid.expertGroup p r then info.srcRank else grid.rank p e r) = call.src := by
  unfold expertGroupCalls expertCalls
  split
  · rename_i several
    rw [mem_issue, and_iff_right several]
    refine exists_congr fun info => and_congr Iff.rfl ?_
    by_cases expert : isExpert info.name = true
    · rw [if_pos expert, Option.some_inj, and_iff_right expert]
    · rw [if_neg expert]
      exact ⟨(nomatch ·), fun both => absurd both.1 expert⟩
  · rename_i single
    exact ⟨fun mem => absurd mem List.not_mem_nil, fun both => absurd both.1 single⟩

/-- **The pipeline groups are ready.** -/
theorem pipeline_ready (aligned : Aligned grid set infos) (e : Fin ep) (r : Fin rest) :
    Ready (fun p => grid.rank p e r) (pipelineGroupCalls grid infos e r) (fun p => initial grid set infos p e r)
      (PipelineGood grid set infos e r) := by
  refine ⟨fun p p' => ?_, fun p => ?_, fun p call mem p' => ?_, fun p call mem => ?_⟩
  · unfold pipelineGroupCalls pipelineCalls
    split
    · refine issue_congr (map_congr_of_names (aligned.names ..) fun i info info' here there => ?_)
      obtain ⟨q, e₀, param, traced⟩ := aligned.traced (List.mem_of_getElem? here)
      obtain ⟨info'', there', -, other⟩ := aligned.peer here traced p' e (.inr rfl)
      cases there.symm.trans there'
      rw [traced.pipeline_source, other.pipeline_source]
    · rfl
  · unfold pipelineGroupCalls pipelineCalls
    split
    · exact issue_once
    · exact List.nodup_nil
  · obtain ⟨-, info, here, -⟩ := mem_pipelineGroupCalls.1 mem
    obtain ⟨info', there, -⟩ := aligned.same_name here p' e r
    rw [length_initial]
    exact (List.getElem?_eq_some_iff.1 there).1
  · obtain ⟨-, info, here, src⟩ := mem_pipelineGroupCalls.1 mem
    obtain ⟨q, e₀, param, traced⟩ := aligned.traced (List.mem_of_getElem? here)
    rw [traced.pipeline_source] at src
    split at src
    · rename_i same
      subst same
      obtain ⟨info', there, name, other⟩ := aligned.peer here traced q e₀ (.inr rfl)
      refine ⟨q, param.data, Option.some.inj src, initial_owner there other, info.name, fun p' => ?_, traced.shard⟩
      rw [aligned.names p' e₀ r p e₀ r, List.getElem?_map, here]
      rfl
    · cases src

/-- **The pipeline stage** gives a parameter to all ranks at its owner's expert coordinate. -/
theorem pipelineStage_spec (aligned : Aligned grid set infos) :
    ∃ params, pipelineStage grid infos (initial grid set infos) = .ok params ∧
      (∀ p e r, (params p e r).length = (infos p e r).length) ∧
      ∀ p e r q (i : Nat) info param, (infos p e r)[i]? = some info → set.Traced grid p e r q e param info →
        (params p e r)[i]? = some (some param.data) := by
  have ranks (e : Fin ep) (r : Fin rest) := (pipeline_ready aligned e r).run fun p p' same => (grid.distinct same).1
  choose after done lengths sent others using ranks
  refine ⟨fun p e r => after e r p, ?_, fun p e r => ?_, fun p e r q i info param here traced => ?_⟩
  · refine Py.bind_eq_ok.2 ⟨after, ?_, rfl⟩
    exact Collective.collect_ok fun e => Collective.collect_ok fun r => done e r
  · rw [lengths, length_initial]
  · by_cases several : 1 < pp
    · have source := traced.pipeline_source
      rw [if_pos rfl] at source
      have mem : ⟨i, grid.rank q e r⟩ ∈ pipelineGroupCalls grid infos e r p :=
        mem_pipelineGroupCalls.2 ⟨several, info, here, source⟩
      obtain ⟨value, received, name, named, shard⟩ := sent e r p _ mem
      have same := named p
      rw [List.getElem?_map, here] at same
      cases Option.some.inj same
      rw [received, traced.shard.unique shard]
    · obtain rfl : q = p := Fin.ext (by omega)
      rw [others e r q i fun call mem => absurd (mem_pipelineGroupCalls.1 mem).1 several]
      exact initial_owner here traced

variable {params : World pp ep rest (List (Option τ))}

/-- **The expert groups are ready** when the pipeline stage is done. -/
theorem expert_ready (aligned : Aligned grid set infos) (lengths : ∀ p e r, (params p e r).length = (infos p e r).length)
    (filled : ∀ p e r q (i : Nat) info param, (infos p e r)[i]? = some info → set.Traced grid p e r q e param info →
      (params p e r)[i]? = some (some param.data)) (p : Fin pp) (r : Fin rest) :
    Ready (fun e => grid.rank p e r) (expertGroupCalls grid infos p r) (fun e => params p e r)
      (ExpertGood grid set infos p r) := by
  refine ⟨fun e e' => ?_, fun e => ?_, fun e call mem e' => ?_, fun e call mem => ?_⟩
  · unfold expertGroupCalls expertCalls
    split
    · refine issue_congr (map_congr_of_names (aligned.names ..) fun i info info' here there => ?_)
      obtain ⟨info'', there', name⟩ := aligned.same_name here p e' r
      cases there.symm.trans there'
      by_cases expert : isExpert info.name = true
      · obtain ⟨q, e₀, param, traced⟩ := aligned.traced (List.mem_of_getElem? here)
        obtain ⟨info'', there', -, other⟩ := aligned.peer here traced p e' (.inl expert)
        cases there.symm.trans there'
        rw [name, traced.expert_source, other.expert_source]
      · rw [name, if_neg expert, if_neg expert]
    · rfl
  · unfold expertGroupCalls expertCalls
    split
    · exact issue_once
    · exact List.nodup_nil
  · obtain ⟨-, info, here, -⟩ := mem_expertGroupCalls.1 mem
    obtain ⟨info', there, -⟩ := aligned.same_name here p e' r
    rw [lengths]
    exact (List.getElem?_eq_some_iff.1 there).1
  · obtain ⟨-, info, here, expert, src⟩ := mem_expertGroupCalls.1 mem
    obtain ⟨q, e₀, param, traced⟩ := aligned.traced (List.mem_of_getElem? here)
    rw [traced.expert_source] at src
    obtain ⟨info', there, name, other⟩ := aligned.peer here traced p e₀ (.inl expert)
    refine ⟨e₀, param.data, src, filled p e₀ r q _ info' param there other, info.name, fun e' => ⟨?_, ?_⟩⟩
    · rw [aligned.names p e' r p e r, List.getElem?_map, here]
      rfl
    · obtain ⟨info'', -, name, other⟩ := aligned.peer here traced p e' (.inl expert)
      exact name ▸ other.shard

/-- **The expert stage** gives every parameter to the ranks at the other expert coordinates. -/
theorem expertStage_spec (aligned : Aligned grid set infos) (lengths : ∀ p e r, (params p e r).length = (infos p e r).length)
    (filled : ∀ p e r q (i : Nat) info param, (infos p e r)[i]? = some info → set.Traced grid p e r q e param info →
      (params p e r)[i]? = some (some param.data)) :
    ∃ last, expertStage grid infos params = .ok last ∧
      ∀ p e r (i : Nat) info, (infos p e r)[i]? = some info →
        ∃ data, (last p e r)[i]? = some (some data) ∧ set.Shard grid e r info.name data := by
  have ranks (p : Fin pp) (r : Fin rest) := (expert_ready aligned lengths filled p r).run fun e e' same => (grid.distinct same).2.1
  choose after done _ sent others using ranks
  refine ⟨fun p e r => after p r e, ?_, fun p e r i info here => ?_⟩
  · refine Py.bind_eq_ok.2 ⟨after, ?_, rfl⟩
    exact Collective.collect_ok fun p => Collective.collect_ok fun r => done p r
  · obtain ⟨q, e₀, param, traced⟩ := aligned.traced (List.mem_of_getElem? here)
    by_cases moved : 1 < ep ∧ isExpert info.name = true
    · have mem : ⟨i, grid.rank p e₀ r⟩ ∈ expertGroupCalls grid infos p r e :=
        mem_expertGroupCalls.2 ⟨moved.1, info, here, moved.2, traced.expert_source⟩
      obtain ⟨value, received, name, good⟩ := sent p r e _ mem
      obtain ⟨named, shard⟩ := good e
      rw [List.getElem?_map, here] at named
      cases Option.some.inj named
      exact ⟨value, received, shard⟩
    · -- the rank is at the owner's expert coordinate, and no broadcast touches the buffer
      have coordinate : e₀ = e := by
        by_cases several : 1 < ep
        · exact traced.dense (eq_false_of_ne_true fun expert => moved ⟨several, expert⟩)
        · exact Fin.ext (by omega)
      subst coordinate
      refine ⟨param.data, ?_, traced.shard⟩
      rw [others p r e₀ i]
      · exact filled p e₀ r q i info param here traced
      · rintro call mem rfl
        obtain ⟨several, info', there, expert, -⟩ := mem_expertGroupCalls.1 mem
        cases here.symm.trans there
        exact moved ⟨several, expert⟩

end Stages

/-- The broadcasts of a list of infos: the members of each group agree, every source is a member that
holds the owner's shard when it sends, and every rank ends with the owner's shard of each parameter. -/
structure Distributed (grid : Grid pp ep rest) (set : ParamSet pp ep rest δ τ) (infos : World pp ep rest (List (ParamInfo δ)))
    (params received : World pp ep rest (List (Option τ))) (full : World pp ep rest (List (ParamInfo δ × FullParam τ))) : Prop where
  init : (everyRank fun p e r => initParams (grid.rank p e r) (localWeights (set.named p e r)) (infos p e r)) = .ok params
  pipeline : ∀ e r, Agreed (fun p => grid.rank p e r) (pipelineGroupCalls grid infos e r) (fun p => params p e r)
    (PipelineGood grid set infos e r)
  stage : pipelineStage grid infos params = .ok received
  expert : ∀ p r, Agreed (fun e => grid.rank p e r) (expertGroupCalls grid infos p r) (fun e => received p e r)
    (ExpertGood grid set infos p r)
  done : getMegatronFullParams grid infos (fun p e r => localWeights (set.named p e r)) = .ok full
  shards : ∀ p e r (i : Nat) info, (infos p e r)[i]? = some info →
    ∃ data, (full p e r)[i]? = some (info, ⟨some data, info.attrs⟩) ∧ set.Shard grid e r info.name data

theorem Aligned.distributed {infos : World pp ep rest (List (ParamInfo δ))} (aligned : Aligned grid set infos) :
    ∃ params received full, Distributed grid set infos params received full := by
  have init := everyRank_ok (initParams_eq aligned)
  obtain ⟨received, stage, lengths, filled⟩ := pipelineStage_spec aligned
  obtain ⟨last, expert, shards⟩ := expertStage_spec aligned lengths filled
  let full : World pp ep rest (List (ParamInfo δ × FullParam τ)) := fun p e r =>
    List.zipWith (fun info data => (info, ⟨data, info.attrs⟩)) (infos p e r) (last p e r)
  refine ⟨_, received, full, init, fun e r => (pipeline_ready aligned e r).agreed fun p p' same => (grid.distinct same).1,
    stage, fun p r => (expert_ready aligned lengths filled p r).agreed fun e e' same => (grid.distinct same).2.1, ?_, ?_⟩
  · exact Py.bind_eq_ok.2 ⟨_, init, Py.bind_eq_ok.2 ⟨received, stage, Py.bind_eq_ok.2 ⟨last, expert, rfl⟩⟩⟩
  · intro p e r i info here
    obtain ⟨data, there, shard⟩ := shards p e r i info here
    refine ⟨data, ?_, shard⟩
    rw [List.getElem?_zipWith, here, there]

/-- **The exchange of the infos and the broadcasts by them**, on any grid. All ranks have the same names,
sorted and complete; any part of the list, such as a bucket, is broadcast from the owners to all. -/
theorem params_distributed [DecidableEq δ] (grid : Grid pp ep rest) (set : ParamSet pp ep rest δ τ) (mtpNumLayers : Option Nat)
    (allowed : mtpNumLayers.isSome ∨ set.Unduplicated) :
    ∃ infos, getMegatronLocalParamInfos mtpNumLayers grid set.named = .ok infos ∧
      (∀ p e r, ((infos p e r).map ParamInfo.name).Pairwise (· < ·) ∧
        ∀ name, name ∈ (infos p e r).map ParamInfo.name ↔ ∃ p e r, name ∈ held (set.named p e r)) ∧
      (∀ p e r p' e' r', (infos p e r).map ParamInfo.name = (infos p' e' r').map ParamInfo.name) ∧
      (∃ params received full, Distributed grid set infos params received full) ∧
      ∀ start stop, ∃ params received full,
        Distributed grid set (fun p e r => ((infos p e r).take stop).drop start) params received full := by
  obtain ⟨infos, done, aligned, names⟩ := getMegatronLocalParamInfos_spec grid allowed
  refine ⟨infos, done, names, aligned.names, aligned.distributed, fun start stop => Aligned.distributed ⟨?_, ?_⟩⟩
  · intro p e r p' e' r'
    rw [List.map_drop, List.map_take, aligned.names p e r p' e' r', List.map_drop, List.map_take]
  · exact fun mem => aligned.traced (List.mem_of_mem_take (List.mem_of_mem_drop mem))

/-! An embedding that both stages have, and one expert for each expert coordinate. -/

def smallGrid : Grid 2 2 1 where
  rank p e _ := 2 * p.val + e.val
  distinct {p p' e e' r r'} same := by
    refine ⟨Fin.ext ?_, Fin.ext ?_, Fin.ext ?_⟩ <;> omega

def embedding : Name := "module.module.embedding.word_embeddings.weight".toList

def expertName (e : Fin 2) : Name :=
  "module.module.mtp.layers.0.mlp.experts.linear_fc1.weight".toList ++ [if e.val < 1 then '0' else '1']

def smallParam (p e : Fin 2) : Param Nat (Fin 2 × Fin 2) where
  dtype := 16
  shape := [6, 5]
  elementSize := 2
  tensorModelParallel := none
  partitionDim := none
  partitionStride := none
  parallelMode := none
  data := (p, e)

def smallNamed : World 2 2 1 (List (Name × Param Nat (Fin 2 × Fin 2))) := fun p e _ =>
  [(embedding, smallParam p e), (expertName e, smallParam p e)]

theorem lookup_smallNamed {p e : Fin 2} {r : Fin 1} {name : Name} {param : Param Nat (Fin 2 × Fin 2)} :
    (held (smallNamed p e r)).lookup name = some param ↔ (name = embedding ∨ name = expertName e) ∧ param = smallParam p e := by
  simp only [held, smallNamed, List.foldl_cons, List.foldl_nil, Dict.lookup_insert]
  split
  · rename_i expert
    rw [Option.some_inj, and_iff_right (Or.inr expert), eq_comm]
  · rename_i other
    split
    · rename_i dense
      rw [Option.some_inj, and_iff_right (Or.inl dense), eq_comm]
    · rename_i another
      exact ⟨(nomatch ·), fun both => absurd both.1 (not_or.2 ⟨another, other⟩)⟩

theorem mem_smallNamed {p e : Fin 2} {r : Fin 1} {name : Name} :
    name ∈ held (smallNamed p e r) ↔ name = embedding ∨ name = expertName e := by
  rw [← AList.lookup_isSome, Option.isSome_iff_exists]
  exact ⟨fun ⟨_, here⟩ => (lookup_smallNamed.1 here).1, fun known => ⟨_, lookup_smallNamed.2 ⟨known, rfl⟩⟩⟩

theorem embedding_dense : isExpert embedding = false := by decide +kernel

theorem expertName_expert (e : Fin 2) : isExpert (expertName e) = true := by
  revert e
  decide +kernel

theorem expertName_injective {e e' : Fin 2} : expertName e = expertName e' → e = e' := by
  revert e e'
  decide +kernel

def smallSet : ParamSet 2 2 1 Nat (Fin 2 × Fin 2) where
  named := smallNamed
  replicated _ mem := mem_smallNamed.2 (mem_smallNamed.1 mem)
  dense e' plain mem := by
    refine mem_smallNamed.2 ((mem_smallNamed.1 mem).imp id fun same => ?_)
    rw [same, expertName_expert] at plain
    cases plain
  slice expert here there := by
    rcases mem_smallNamed.1 here with rfl | rfl
    · rw [embedding_dense] at expert
      cases expert
    · rcases mem_smallNamed.1 there with same | same
      · rw [same, embedding_dense] at expert
        cases expert
      · exact expertName_injective same
  uniform here there := by
    rw [(lookup_smallNamed.1 here).2, (lookup_smallNamed.1 there).2]
    exact ⟨rfl, rfl⟩

theorem params_distributed_small :
    ∃ infos, getMegatronLocalParamInfos (some 1) smallGrid smallSet.named = .ok infos ∧
      ∃ params received full, Distributed smallGrid smallSet infos params received full := by
  obtain ⟨infos, done, _, _, distributed, _⟩ := params_distributed smallGrid smallSet (some 1) (.inl rfl)
  exact ⟨infos, done, distributed⟩

end ParamInfos

end SlimeBoard
