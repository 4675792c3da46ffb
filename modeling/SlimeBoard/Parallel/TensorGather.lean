import SlimeBoard.Lib.Rows
import SlimeBoard.Parallel.ConvertToHf

/-!
# Gathering tensor-parallel parameters

`all_gather_param` and `all_gather_params_async` put the shards of a parameter together: the name
decides over which group, whether the halves of each shard are taken apart, and along which
dimension the parts are joined. Megatron's layouts say what the shards are.
-/

namespace SlimeBoard.TensorGather

open Converters Rows

/-- A tensor of one dimension, or of two as its rows. -/
inductive Tensor (α : Type) where
  | vector (entries : List α)
  | matrix (rows : List (List α))
  deriving DecidableEq

namespace Tensor

variable {α : Type}

/-- The rows are equally long. -/
def Rectangular : Tensor α → Prop
  | vector _ => True
  | matrix rows => ∀ row ∈ rows, ∀ other ∈ rows, row.length = other.length

/-- `shape[0]` -/
def shape0 : Tensor α → Nat
  | vector entries => entries.length
  | matrix rows => rows.length

/-- What a function of the list along dimension 0 makes of the tensor. -/
def along0 (f : (β : Type) → List β → List β) : Tensor α → Tensor α
  | vector entries => vector (f _ entries)
  | matrix rows => matrix (f _ rows)

/-- The pieces of `chunk(2)`: of size `⌈n / 2⌉`, so that one row is one piece; nothing is two pieces. -/
def halves {β : Type} (xs : List β) : List (List β) :=
  if xs.length = 0 then [xs, xs]
  else if xs.length = 1 then [xs]
  else [xs.take ((xs.length + 1) / 2), xs.drop ((xs.length + 1) / 2)]

/-- `chunk(2, dim=0)` -/
def chunk2 : Tensor α → List (Tensor α)
  | vector entries => (halves entries).map vector
  | matrix rows => (halves rows).map matrix

def entries? : Tensor α → Option (List α)
  | vector entries => some entries
  | matrix _ => none

def rows? : Tensor α → Option (List (List α))
  | vector _ => none
  | matrix rows => some rows

/-- `torch.cat(partitions, dim=0)` of matrices -/
def catRows (partitions : List (List (List α))) : Py (Tensor α) :=
  if ∀ row ∈ partitions.flatten, ∀ other ∈ partitions.flatten, row.length = other.length then
    .ok (matrix partitions.flatten)
  else .error .runtimeError

/-- `torch.cat(partitions, dim=1)` of matrices -/
def catColumns (partitions : List (List (List α))) (height : Nat) : Py (Tensor α) :=
  if ∀ rows ∈ partitions, rows.length = height then
    .ok (matrix ((List.range height).map fun i => partitions.flatMap fun rows => rows[i]?.getD []))
  else .error .runtimeError

/-- `torch.cat(partitions, dim)` -/
def cat : List (Tensor α) → Nat → Py (Tensor α)
  | [], _ => .error .runtimeError
  | vector entries :: rest, dim =>
    match rest.mapM entries? with
    | none => .error .runtimeError
    | some more => if dim = 0 then .ok (vector (entries ++ more.flatten)) else .error .indexError
  | matrix rows :: rest, dim =>
    match rest.mapM rows? with
    | none => .error .runtimeError
    | some more =>
      if dim = 0 then catRows (rows :: more)
      else if dim = 1 then catColumns (rows :: more) rows.length
      else .error .indexError

end Tensor

/-- The process groups of regular and of expert tensor parallelism. -/
inductive Group where
  | tensorModelParallel
  | expertTensorParallel
  deriving DecidableEq

/-- A parameter on a rank. Megatron sets the attributes of tensor parallelism on every parameter. -/
structure Param (α : Type) where
  tensorModelParallel : Bool
  /-- `parallel_mode == "duplicated"` -/
  duplicated : Bool
  partitionDim : Option Nat
  partitionStride : Nat
  data : Tensor α
  /-- the data on the ranks of a group, which `dist.all_gather` returns -/
  partitions : Group → List (Tensor α)

section Code

variable {α : Type}

/-- The group of a sharded parameter. -/
def tpGroup (name : Name) : Group :=
  if named ".experts." name then .expertTensorParallel else .tensorModelParallel

/-- The first halves of the partitions, and then the second halves. -/
def rechunk (paramPartitions : List (Tensor α)) : Py (List (Tensor α)) := do
  let gates ← paramPartitions.mapM fun p => pyIndex p.chunk2 0
  let ups ← paramPartitions.mapM fun p => pyIndex p.chunk2 1
  .ok (gates ++ ups)

/-- What both functions do with the gathered partitions. -/
def joinPartitions (name : Name) (paramPartitions : List (Tensor α)) (partitionDim : Nat) : Py (Tensor α) := do
  let paramPartitions ← if named "linear_fc1.weight" name then rechunk paramPartitions else .ok paramPartitions
  let partitionDim := if named "linear_fc2.weight" name && partitionDim == 0 then 1 else partitionDim
  Tensor.cat paramPartitions partitionDim

/-- `all_gather_param(name, param)` -/
def allGatherParam (name : Name) (param : Param α) : Py (Tensor α) :=
  if named "expert_bias" name then .ok param.data
  else if !param.tensorModelParallel || param.duplicated then .ok param.data
  else do
    let paramPartitions := param.partitions (tpGroup name)
    pyAssert (param.partitionStride == 1)
    match param.partitionDim with
    | some partitionDim => joinPartitions name paramPartitions partitionDim
    | none => .error .typeError

/-- An entry of `gather_tasks`. -/
inductive GatherTask (α : Type) where
  | direct (param : Tensor α)
  | gather (name : Name) (paramPartitions : List (Tensor α)) (partitionDim : Option Nat)

/-- One turn of the first loop of `all_gather_params_async`. -/
def startGather (name : Name) (param : Param α) : GatherTask α :=
  if named "expert_bias" name then .direct param.data
  else if !param.tensorModelParallel || param.duplicated then .direct param.data
  else .gather name (param.partitions (tpGroup name)) param.partitionDim

/-- One turn of the last loop, after every handle is waited for. -/
def finishGather : GatherTask α → Py (Tensor α)
  | .direct param => .ok param
  | .gather name paramPartitions partitionDim =>
    match partitionDim with
    | some partitionDim => joinPartitions name paramPartitions partitionDim
    | none => .error .assertionError

/-- `all_gather_params_async(param_infos_and_params)` -/
def allGatherParamsAsync (paramInfosAndParams : List (Name × Param α)) : Py (List (Tensor α)) := do
  let gatherTasks := paramInfosAndParams.map fun entry => startGather entry.1 entry.2
  gatherTasks.mapM finishGather

end Code

/-- How Megatron cuts a parameter. -/
inductive Layout where
  /-- along dimension 0 -/
  | column
  /-- the gate half and the up half, each along dimension 0 -/
  | gated
  /-- along dimension 1 -/
  | row
  deriving DecidableEq

section Shards

variable {α : Type}

/-- What rank `r` of `n` holds of the whole parameter, in slices of size `k`. -/
def shard (layout : Layout) (n k r : Nat) : Tensor α → Tensor α :=
  match layout with
  | .column => Tensor.along0 fun _ xs => slice k r xs
  | .gated => Tensor.along0 fun _ xs => slice k r xs ++ slice k (n + r) xs
  | .row => fun
    | .vector entries => .vector entries
    | .matrix rows => .matrix (rows.map (slice k r))

/-- The whole parameter has `n` slices of size `k`, the gated one in each half. -/
def Fits (n k : Nat) (whole : Tensor α) : Layout → Prop
  | .column => whole.Rectangular ∧ whole.shape0 = n * k
  | .gated => whole.Rectangular ∧ whole.shape0 = (n + n) * k
  | .row => ∃ rows, whole = .matrix rows ∧ ∀ row ∈ rows, row.length = n * k

/-- The sharded parameters of the supported models, where `linear_fc1` is gated. Grouped experts say that
`linear_fc2.weight` is cut on dimension 0. -/
def Megatron (name : Name) (partitionDim : Nat) : Layout → Prop
  | .column => partitionDim = 0 ∧ ¬named "linear_fc1.weight" name ∧ ¬named "linear_fc2.weight" name
  | .gated => partitionDim = 0 ∧ (named "linear_fc1.weight" name ∨ named "linear_fc1.bias" name) ∧
      ¬named "linear_fc2.weight" name
  | .row => (partitionDim = 1 ∨ partitionDim = 0 ∧ named "linear_fc2.weight" name) ∧ ¬named "linear_fc1.weight" name

/-- The parameter on a rank of the group over which Megatron cuts `whole`: the expert group for the parameters
of the submodule `experts`. -/
structure Sharded (name : Name) (layout : Layout) (partitionDim n k : Nat) (whole : Tensor α) (group : Group)
    (param : Param α) : Prop where
  experts : group = .expertTensorParallel ↔ named ".experts." name
  notExpertBias : ¬named "expert_bias" name
  parallel : param.tensorModelParallel = true
  single : param.duplicated = false
  dim : param.partitionDim = some partitionDim
  stride : param.partitionStride = 1
  own : param.data ∈ param.partitions group
  shards : param.partitions group = (List.range n).map fun r => shard layout n k r whole

/-- Both functions return the whole parameter, alone and in a batch, and any conversion to Hugging Face
starts from it. -/
structure Gathered (name : Name) (param : Param α) (whole : Tensor α) : Prop where
  one : allGatherParam name param = .ok whole
  batch : ∀ front back before after, allGatherParamsAsync front = .ok before → allGatherParamsAsync back = .ok after →
    allGatherParamsAsync (front ++ (name, param) :: back) = .ok (before ++ whole :: after)
  converted : ∀ {β : Type} (convert : Tensor α → Py β), (allGatherParam name param >>= convert) = convert whole

/-- Every parameter with these shards is put together again. -/
def Reconstructs (α : Type) (name : Name) (layout : Layout) (partitionDim n k : Nat) : Prop :=
  ∀ (whole : Tensor α) (group : Group) (param : Param α), Fits n k whole layout →
    Sharded name layout partitionDim n k whole group param → Gathered name param whole

/-- With one rank, or with nothing to cut, the shards are the two halves. -/
theorem flatMap_slice_pair {β : Type} {n k : Nat} (few : n = 1 ∨ k = 0) (xs : List β) (size : xs.length = (n + n) * k) :
    ((List.range n).flatMap fun r => slice k r xs ++ slice k (n + r) xs) = xs := by
  obtain rfl | rfl := few
  · have slices := flatMap_slice k xs (1 + 1)
    rw [← size, List.take_length] at slices
    simpa only [List.range_succ, List.range_zero, List.nil_append, List.cons_append, List.flatMap_cons, List.flatMap_nil,
      List.append_nil, List.append_assoc] using slices
  · obtain rfl := List.length_eq_zero_iff.1 (size.trans (Nat.mul_zero _))
    simp [slice]

theorem mapM_some {ι β γ : Type} {g : β → Option γ} {f : ι → β} {h : ι → γ} (is : List ι)
    (some : ∀ i, g (f i) = some (h i)) :
    (is.map f).mapM g = .some (is.map h) := by
  induction is with
  | nil => rfl
  | cons i is ih => rw [List.map_cons, List.mapM_cons, some i, ih]; rfl

/-- Parts of one tensor along dimension 0, joined along dimension 0. -/
theorem cat_along0 {ι : Type} {is : List ι} (some : is ≠ []) {f : ι → (β : Type) → List β → List β}
    (within : ∀ i β (xs : List β), f i β xs ⊆ xs) {whole : Tensor α} (rectangular : whole.Rectangular) :
    Tensor.cat (is.map fun i => whole.along0 (f i)) 0 = .ok (whole.along0 fun β xs => is.flatMap fun i => f i β xs) := by
  obtain ⟨i, is, rfl⟩ := List.exists_cons_of_ne_nil some
  cases whole with
  | vector entries =>
    have rest := mapM_some (g := Tensor.entries?) (f := fun i => .vector (f i α entries)) (h := fun i => f i α entries) is
      fun i => rfl
    simp only [List.map_cons, Tensor.along0, Tensor.cat, rest, if_pos, List.flatMap_cons]
    rfl
  | matrix rows =>
    have rest := mapM_some (g := Tensor.rows?) (f := fun i => .matrix (f i (List α) rows)) (h := fun i => f i (List α) rows) is
      fun i => rfl
    have same : (f i (List α) rows :: is.map fun i => f i (List α) rows).flatten ⊆ rows := by
      intro row mem
      obtain ⟨part, part_mem, mem⟩ := List.mem_flatten.1 mem
      obtain ⟨j, -, rfl⟩ := List.mem_map.1 (show part ∈ (i :: is).map fun i => f i (List α) rows from part_mem)
      exact within j _ rows mem
    simp only [List.map_cons, Tensor.along0, Tensor.cat, rest, if_pos, Tensor.catRows]
    rw [if_pos fun row mem other other_mem => rectangular row (same mem) other (same other_mem)]
    rfl

/-- The slices of the rows, joined along dimension 1. -/
theorem cat_slices {n k : Nat} (pos : 0 < n) {rows : List (List α)} (wide : ∀ row ∈ rows, row.length = n * k) :
    Tensor.cat ((List.range n).map fun r => .matrix (rows.map (slice k r))) 1 = .ok (.matrix rows) := by
  obtain ⟨m, rfl⟩ := Nat.exists_eq_succ_of_ne_zero pos.ne'
  have rest := mapM_some (g := Tensor.rows?) (f := fun r => Tensor.matrix (rows.map (slice k (r + 1))))
    (h := fun r => rows.map (slice k (r + 1))) (List.range m) fun r => rfl
  have all : (rows.map (slice k 0) :: (List.range m).map fun r => rows.map (slice k (r + 1))) =
      (List.range (m + 1)).map fun r => rows.map (slice k r) := by
    rw [List.range_succ_eq_map, List.map_cons, List.map_map]
    rfl
  rw [List.range_succ_eq_map, List.map_cons, List.map_map]
  simp only [Function.comp_def, Tensor.cat, Nat.succ_eq_add_one, rest, if_neg Nat.one_ne_zero, if_pos, Tensor.catColumns, all]
  rw [if_pos fun part mem => by
    obtain ⟨r, -, rfl⟩ := List.mem_map.1 mem
    simp only [List.length_map]]
  congr 2
  apply List.ext_getElem (by simp only [List.length_map, List.length_range])
  intro i _ lt
  have row := wide rows[i] (List.getElem_mem lt)
  have here : ((List.range (m + 1)).flatMap fun r => slice k r rows[i]) = rows[i] := by
    rw [flatMap_slice, ← row, List.take_length]
  simp only [List.getElem_map, List.getElem_range, List.flatMap_map, List.getElem?_map, List.getElem?_eq_getElem lt,
    Option.map_some, Option.getD_some, here]

theorem halves_append {β : Type} {xs ys : List β} (same : xs.length = ys.length) : Tensor.halves (xs ++ ys) = [xs, ys] := by
  rw [Tensor.halves, List.length_append, ← same]
  by_cases none : xs.length = 0
  · obtain rfl := List.length_eq_zero_iff.1 none
    obtain rfl := List.length_eq_zero_iff.1 (same.symm.trans none)
    rfl
  · have half : (xs.length + xs.length + 1) / 2 = xs.length := by omega
    rw [if_neg (by omega), if_neg (by omega), half, List.take_left, List.drop_left]

theorem chunk2_append {whole : Tensor α} {f g : (β : Type) → List β → List β}
    (same : ∀ β (xs : List β), xs.length = whole.shape0 → (f β xs).length = (g β xs).length) :
    (whole.along0 fun β xs => f β xs ++ g β xs).chunk2 = [whole.along0 f, whole.along0 g] := by
  cases whole with
  | vector entries =>
    simp only [Tensor.along0, Tensor.chunk2, halves_append (same α entries rfl), List.map_cons, List.map_nil]
  | matrix rows => simp only [Tensor.along0, Tensor.chunk2, halves_append (same _ rows rfl), List.map_cons, List.map_nil]

/-- The shards of a gated parameter, rechunked, are the slices of the whole in their order. -/
theorem rechunk_shards {n k : Nat} {whole : Tensor α} (size : whole.shape0 = (n + n) * k) :
    rechunk ((List.range n).map fun r => shard .gated n k r whole) =
      .ok ((List.range (n + n)).map fun r => shard .column n k r whole) := by
  have chunks : ∀ r ∈ List.range n, (shard .gated n k r whole).chunk2 =
      [shard .column n k r whole, shard .column n k (n + r) whole] := by
    intro r mem
    have lt := List.mem_range.1 mem
    apply chunk2_append
    intro β xs length
    rw [slice_length, slice_length] <;>
      · rw [length, size]
        exact Nat.mul_le_mul_right k (by omega)
  have gates : ((List.range n).map fun r => shard .gated n k r whole).mapM (fun p => pyIndex p.chunk2 0) =
      .ok ((List.range n).map fun r => shard .column n k r whole) := by
    rw [List.mapM_map]
    exact mapM_ok _ fun r mem => by rw [Function.comp_apply, chunks r mem]; rfl
  have ups : ((List.range n).map fun r => shard .gated n k r whole).mapM (fun p => pyIndex p.chunk2 1) =
      .ok ((List.range n).map fun r => shard .column n k (n + r) whole) := by
    rw [List.mapM_map]
    exact mapM_ok _ fun r mem => by rw [Function.comp_apply, chunks r mem]; rfl
  rw [rechunk, gates, Py.ok_bind, ups, Py.ok_bind, List.range_add, List.map_append, List.map_map]
  rfl

theorem cat_columns {n k : Nat} (pos : 0 < n) {whole : Tensor α} (rectangular : whole.Rectangular) (size : whole.shape0 = n * k)
    (m : Nat) : Tensor.cat ((List.range n).map fun r => shard .column m k r whole) 0 = .ok whole := by
  have some : List.range n ≠ [] := by rw [Ne, List.range_eq_nil]; omega
  refine (cat_along0 some (fun r β xs => slice_subset k r xs) rectangular).trans ?_
  cases whole with
  | vector entries => rw [Tensor.along0, flatMap_slice, ← size, Tensor.shape0, List.take_length]
  | matrix rows => rw [Tensor.along0, flatMap_slice, ← size, Tensor.shape0, List.take_length]

/-- The shards of a gated parameter, joined as they are. -/
theorem cat_gated {n k : Nat} (pos : 0 < n) {whole : Tensor α} (rectangular : whole.Rectangular) :
    Tensor.cat ((List.range n).map fun r => shard .gated n k r whole) 0 =
      .ok (whole.along0 fun _ xs => (List.range n).flatMap fun r => slice k r xs ++ slice k (n + r) xs) := by
  have some : List.range n ≠ [] := by rw [Ne, List.range_eq_nil]; omega
  exact cat_along0 some (fun r β xs => List.append_subset.2 ⟨slice_subset k r xs, slice_subset k (n + r) xs⟩) rectangular

theorem named_false {word : String} {name : Name} (absent : ¬named word name) : named word name = false :=
  Bool.not_eq_true _ ▸ absent

/-- What is joined of the shards. -/
theorem joinPartitions_shards {name : Name} {layout : Layout} {partitionDim n k : Nat} (megatron : Megatron name partitionDim layout)
    (pos : 0 < n) {whole : Tensor α} (fits : Fits n k whole layout)
    (right : layout = .gated → ¬named "linear_fc1.weight" name → n = 1 ∨ k = 0) :
    joinPartitions name ((List.range n).map fun r => shard layout n k r whole) partitionDim = .ok whole := by
  cases layout with
  | column =>
    obtain ⟨rfl, notFc1, notFc2⟩ := megatron
    obtain ⟨rectangular, size⟩ := fits
    rw [joinPartitions, if_neg notFc1, Py.ok_bind, named_false notFc2]
    exact cat_columns pos rectangular size n
  | gated =>
    obtain ⟨rfl, -, notFc2⟩ := megatron
    obtain ⟨rectangular, size⟩ := fits
    rw [joinPartitions, named_false notFc2]
    by_cases fc1 : named "linear_fc1.weight" name
    · rw [if_pos fc1, rechunk_shards size, Py.ok_bind]
      exact cat_columns (by omega) rectangular size n
    · have few := right rfl fc1
      rw [if_neg fc1, Py.ok_bind]
      refine (cat_gated pos rectangular).trans ?_
      cases whole with
      | vector entries => rw [Tensor.along0, flatMap_slice_pair few entries size]
      | matrix rows => rw [Tensor.along0, flatMap_slice_pair few rows size]
  | row =>
    obtain ⟨dim, notFc1⟩ := megatron
    obtain ⟨rows, rfl, wide⟩ := fits
    have turned : (if (named "linear_fc2.weight" name && partitionDim == 0) = true then 1 else partitionDim) = 1 := by
      obtain rfl | ⟨rfl, fc2⟩ := dim
      · exact ite_self _
      · rw [fc2]; rfl
    rw [joinPartitions, if_neg notFc1, Py.ok_bind]
    simp only [turned]
    exact cat_slices pos wide

/-- The biases of a gated layer, joined without taking the halves of the shards apart. -/
theorem joinPartitions_bias {name : Name} {n k : Nat} {a b : α} (ne : a ≠ b) (megatron : Megatron name 0 .gated)
    (notWeight : ¬named "linear_fc1.weight" name) (two : 2 ≤ n) (some : 0 < k) :
    joinPartitions name ((List.range n).map fun r =>
      shard .gated n k r (.vector (List.replicate (n * k) a ++ List.replicate (n * k) b))) 0 ≠
      .ok (.vector (List.replicate (n * k) a ++ List.replicate (n * k) b)) := by
  obtain ⟨-, -, notFc2⟩ := megatron
  rw [joinPartitions, named_false notFc2, if_neg notWeight, Py.ok_bind]
  intro same
  have rectangular : (Tensor.vector (List.replicate (n * k) a ++ List.replicate (n * k) b)).Rectangular := trivial
  have joined := (cat_gated (k := k) (by omega) rectangular).symm.trans same
  have entries := congrArg (·[k]?) (Tensor.vector.inj (Except.ok.inj joined))
  dsimp only at entries
  -- after the first slice of the gate half comes the first slice of the up half
  obtain ⟨m, rfl⟩ := Nat.exists_eq_add_of_le' two
  have long : k + k ≤ (m + 2) * k := by
    rw [Nat.add_mul, Nat.two_mul]
    exact Nat.le_add_left ..
  have first : (slice k 0 (List.replicate ((m + 2) * k) a ++ List.replicate ((m + 2) * k) b)).length = k := by
    apply slice_length
    rw [List.length_append, List.length_replicate, Nat.zero_add, Nat.one_mul]
    omega
  have up : (slice k (m + 2 + 0) (List.replicate ((m + 2) * k) a ++ List.replicate ((m + 2) * k) b))[0]? = .some b := by
    rw [slice, List.getElem?_take_of_lt some, List.getElem?_drop, List.getElem?_append_right (by simp), List.length_replicate,
      Nat.add_zero, Nat.add_sub_cancel_left, List.getElem?_replicate_of_lt (by omega)]
  have gate : (List.replicate ((m + 2) * k) a ++ List.replicate ((m + 2) * k) b)[k]? = .some a := by
    rw [List.getElem?_append_left (by rw [List.length_replicate]; omega), List.getElem?_replicate_of_lt (by omega)]
  rw [List.range_succ_eq_map, List.flatMap_cons, List.append_assoc, List.getElem?_append_right first.le, first, Nat.sub_self,
    List.getElem?_append_left (List.getElem?_eq_some_iff.1 up).1, up, gate] at entries
  exact ne (Option.some.inj entries).symm

theorem tpGroup_sharded {name : Name} {layout : Layout} {partitionDim n k : Nat} {whole : Tensor α} {group : Group}
    {param : Param α} (sharded : Sharded name layout partitionDim n k whole group param) : tpGroup name = group := by
  rw [tpGroup]
  split
  · rename_i expert
    exact (sharded.experts.2 expert).symm
  · rename_i notExpert
    cases group with
    | tensorModelParallel => rfl
    | expertTensorParallel => exact absurd (sharded.experts.1 rfl) notExpert

/-- The two functions treat a sharded parameter alike. -/
theorem allGatherParam_sharded {name : Name} {layout : Layout} {partitionDim n k : Nat} {whole : Tensor α} {group : Group}
    {param : Param α} (sharded : Sharded name layout partitionDim n k whole group param) :
    allGatherParam name param =
      joinPartitions name ((List.range n).map fun r => shard layout n k r whole) partitionDim := by
  rw [allGatherParam, if_neg sharded.notExpertBias, sharded.parallel, sharded.single, if_neg (by decide), sharded.stride,
    sharded.dim, tpGroup_sharded sharded, sharded.shards]
  rfl

theorem finishGather_sharded {name : Name} {layout : Layout} {partitionDim n k : Nat} {whole : Tensor α} {group : Group}
    {param : Param α} (sharded : Sharded name layout partitionDim n k whole group param) :
    finishGather (startGather name param) = allGatherParam name param := by
  rw [allGatherParam_sharded sharded, startGather, if_neg sharded.notExpertBias, sharded.parallel, sharded.single,
    if_neg (by decide), sharded.dim, tpGroup_sharded sharded,
    sharded.shards, finishGather]

theorem allGatherParamsAsync_eq (batch : List (Name × Param α)) :
    allGatherParamsAsync batch = batch.mapM fun entry => finishGather (startGather entry.1 entry.2) := by
  rw [allGatherParamsAsync, List.mapM_map]
  rfl

/-- A batch gathers each of its parameters. -/
theorem allGatherParamsAsync_append {front back : List (Name × Param α)} {before after : List (Tensor α)}
    (front_ok : allGatherParamsAsync front = .ok before) (back_ok : allGatherParamsAsync back = .ok after) {name : Name}
    {param : Param α} {whole : Tensor α} (one : finishGather (startGather name param) = .ok whole) :
    allGatherParamsAsync (front ++ (name, param) :: back) = .ok (before ++ whole :: after) := by
  rw [allGatherParamsAsync_eq, mapM_forall₂] at front_ok back_ok
  rw [allGatherParamsAsync_eq, mapM_forall₂]
  apply List.rel_append front_ok
  exact .cons one back_ok

/-- The parameter on the first of the ranks that hold the shards. -/
def onRank0 (layout : Layout) (partitionDim n k : Nat) (whole : Tensor α) : Param α where
  tensorModelParallel := true
  duplicated := false
  partitionDim := some partitionDim
  partitionStride := 1
  data := shard layout n k 0 whole
  partitions := fun _ => (List.range n).map fun r => shard layout n k r whole

theorem onRank0_sharded {name : Name} (notExpertBias : ¬named "expert_bias" name) (layout : Layout) (partitionDim : Nat)
    {n : Nat} (pos : 0 < n) (k : Nat) (whole : Tensor α) :
    Sharded name layout partitionDim n k whole (tpGroup name) (onRank0 layout partitionDim n k whole) where
  experts := by
    rw [tpGroup]
    split <;> simp_all
  notExpertBias := notExpertBias
  parallel := rfl
  single := rfl
  dim := rfl
  stride := rfl
  own := List.mem_map.2 ⟨0, List.mem_range.2 pos, rfl⟩
  shards := rfl

/-- **The gather gives back the whole parameter, except for the biases of gated layers that are cut.** -/
theorem reconstructs_iff [Nontrivial α] {name : Name} {layout : Layout} {partitionDim n : Nat} (k : Nat)
    (notExpertBias : ¬named "expert_bias" name) (megatron : Megatron name partitionDim layout) (pos : 0 < n) :
    Reconstructs α name layout partitionDim n k ↔
      (layout = .gated → ¬named "linear_fc1.weight" name → n = 1 ∨ k = 0) := by
  constructor
  · rintro all rfl notWeight
    by_contra cut
    obtain ⟨a, b, ne⟩ := exists_pair_ne α
    obtain ⟨rfl, -⟩ := id megatron
    apply joinPartitions_bias ne megatron notWeight (n := n) (k := k) (by omega) (by omega)
    have sharded := onRank0_sharded notExpertBias .gated 0 pos k
      (.vector (List.replicate (n * k) a ++ List.replicate (n * k) b))
    rw [← allGatherParam_sharded sharded]
    refine (all (.vector _) _ _ ⟨trivial, ?_⟩ sharded).one
    rw [Tensor.shape0, List.length_append, List.length_replicate, List.length_replicate, Nat.add_mul]
  · intro right whole group param fits sharded
    have one : allGatherParam name param = .ok whole := by
      rw [allGatherParam_sharded sharded]
      exact joinPartitions_shards megatron pos fits right
    refine ⟨one, ?_, ?_⟩
    · intro front back before after front_ok back_ok
      exact allGatherParamsAsync_append front_ok back_ok ((finishGather_sharded sharded).trans one)
    · intro β convert
      rw [one, Py.ok_bind]

end Shards

def expertBias : Name := "module.module.decoder.layers.0.mlp.experts.linear_fc1.bias0".toList

theorem expertBias_named : ¬named "expert_bias" expertBias ∧ ¬named "linear_fc1.weight" expertBias ∧
    named "linear_fc1.bias" expertBias ∧ ¬named "linear_fc2.weight" expertBias := by decide +kernel

theorem reconstructs_iff_two :
    Reconstructs Nat expertBias .gated 0 2 1 ↔
      (Layout.gated = .gated → ¬named "linear_fc1.weight" expertBias → 2 = 1 ∨ 1 = 0) :=
  reconstructs_iff 1 expertBias_named.1 ⟨rfl, .inr expertBias_named.2.2.1, expertBias_named.2.2.2⟩ Nat.two_pos

/-- Gate bias 0, 1 and up bias 2, 3 on two ranks come back as 0, 2, 1, 3. -/
theorem not_reconstructs_two :
    Fits 2 1 (.vector [0, 1, 2, 3]) .gated ∧
      Sharded expertBias .gated 0 2 1 (.vector [0, 1, 2, 3]) (tpGroup expertBias) (onRank0 .gated 0 2 1 (.vector [0, 1, 2, 3])) ∧
      allGatherParam expertBias (onRank0 .gated 0 2 1 (.vector [0, 1, 2, 3])) = .ok (.vector [0, 2, 1, 3]) ∧
      allGatherParamsAsync [(expertBias, onRank0 .gated 0 2 1 (.vector [0, 1, 2, 3]))] = .ok [.vector [0, 2, 1, 3]] := by
  have sharded := onRank0_sharded expertBias_named.1 .gated 0 Nat.two_pos 1 (.vector [0, 1, 2, 3])
  have joined : allGatherParam expertBias (onRank0 .gated 0 2 1 (.vector [0, 1, 2, 3])) = .ok (.vector [0, 2, 1, 3]) := by
    rw [allGatherParam_sharded sharded, joinPartitions, if_neg expertBias_named.2.1, named_false expertBias_named.2.2.2]
    rfl
  refine ⟨⟨trivial, rfl⟩, sharded, joined, ?_⟩
  have alone := finishGather_sharded sharded
  rw [joined] at alone
  exact allGatherParamsAsync_append (rfl : allGatherParamsAsync [] = .ok []) (rfl : allGatherParamsAsync [] = .ok []) alone

end SlimeBoard.TensorGather
