import SlimeBoard.Lib.NdArray

/-!
# Attention with gated queries

The bridge fuses the query, gate, key and value projections of a layer, group by group of key-value
heads; the converters take them apart again for the rollout engines. In the Hugging Face tensor every
query head is followed by its gate, in the fused one the queries of a group come before the gates.
-/

namespace SlimeBoard.GatedQkv

open NdArray Rows

/-- What the bridge reads of the configuration of the model, and the converter of the arguments. -/
structure Config where
  numAttentionHeads : Nat
  numKeyValueHeads : Nat
  hiddenSize : Nat
  headDim : Option Nat
  heads_pos : 0 < numAttentionHeads
  groups_pos : 0 < numKeyValueHeads
  hidden_pos : 0 < hiddenSize
  divides : numKeyValueHeads ∣ numAttentionHeads

/-- `head_dim`, or `kv_channels` -/
def Config.head (config : Config) : Nat := config.headDim.getD (config.hiddenSize / config.numAttentionHeads)

/-- `num_querys_per_group`, or `value_num_per_group` -/
def Config.querysPerGroup (config : Config) : Nat := config.numAttentionHeads / config.numKeyValueHeads

/-- `self_attention.linear_qkv.weight` or `self_attention.linear_qkv.bias` -/
inductive Kind where
  | weight
  | bias
  deriving DecidableEq

def Kind.suffix : Kind → String
  | weight => "weight"
  | bias => "bias"

variable {α : Type}

/-- `_weight_to_mcore_format` of both bridges, for `linear_qkv` -/
def weightToMcoreFormat (config : Config) (kind : Kind) (q k v : NdArray α) : Py (NdArray α) := do
  let groupDim := config.head * config.numAttentionHeads / config.numKeyValueHeads
  -- a division by zero raises
  if 2 * groupDim = 0 then .error .valueError
  let realNumKeyValueHeads := q.dim 0 / (2 * groupDim)
  let q ← q.view [some realNumKeyValueHeads, some config.querysPerGroup, some 2, some config.head, none]
  let q ← q.transpose12
  let q ← q.flatten13
  let k ← k.view [some realNumKeyValueHeads, some config.head, none]
  let v ← v.view [some realNumKeyValueHeads, some config.head, none]
  let qgkv ← cat1 (q.dim 0) (q.dim 2) [q, k, v]
  match kind with
  | .weight => qgkv.view [none, some config.hiddenSize]
  | .bias => qgkv.view [none]

/-- The branches for `linear_qkv` of `convert_qwen3_next_to_hf` and `convert_qwen3_5_to_hf`, which differ in `layer`. -/
def convertQkvToHf (layer : String) (config : Config) (kind : Kind) (param : NdArray α) : Py (List (String × NdArray α)) := do
  let parts ← match kind with
    | .weight => do
      let param ← param.view [some config.numKeyValueHeads, none, some config.head, some config.hiddenSize]
      match ← param.split1 [2 * config.querysPerGroup, 1, 1] with
      | [qParam, kParam, vParam] => do
        let qParam ← qParam.view
          [some config.numKeyValueHeads, some 2, some config.querysPerGroup, some config.head, some config.hiddenSize]
        let qParam ← qParam.transpose12
        let qParam ← qParam.view [none, some config.hiddenSize]
        let kParam ← kParam.view [none, some config.hiddenSize]
        let vParam ← vParam.view [none, some config.hiddenSize]
        pure [qParam, kParam, vParam]
      | _ => .error .valueError
    | .bias => do
      let param ← param.view [some config.numKeyValueHeads, none]
      match ← param.split1 [config.querysPerGroup * config.head, config.head, config.head] with
      | [qBias, kBias, vBias] => pure [qBias.flatten, kBias.flatten, vBias.flatten]
      | _ => .error .valueError
  return (["q", "k", "v"].map fun proj => layer ++ ".self_attn." ++ proj ++ "_proj." ++ kind.suffix).zip parts

def convertQwen3NextToHf (layerIdx : Nat) : Config → Kind → NdArray α → Py (List (String × NdArray α)) :=
  convertQkvToHf ("model.layers." ++ toString layerIdx)

def convertQwen35ToHf (layerIdx : Nat) : Config → Kind → NdArray α → Py (List (String × NdArray α)) :=
  convertQkvToHf ("model.language_model.layers." ++ toString layerIdx)

/-- The entries of a row: of a weight, or one of a bias. -/
def Config.width (config : Config) : Kind → Nat
  | .weight => config.hiddenSize
  | .bias => 1

def Config.shapeOf (config : Config) (rows : Nat) : Kind → List Nat
  | .weight => [rows, config.hiddenSize]
  | .bias => [rows]

/-! ## Fusing -/

section Fuse

variable {config : Config} {kind : Kind} {q k v : NdArray α}

theorem heads_eq (config : Config) : config.numAttentionHeads = config.numKeyValueHeads * config.querysPerGroup :=
  (Nat.mul_div_cancel' config.divides).symm

theorem querysPerGroup_pos (config : Config) : 0 < config.querysPerGroup :=
  Nat.div_pos (Nat.le_of_dvd config.heads_pos config.divides) config.groups_pos

/-- A group of the fused tensor: the queries, their gates, the keys and the values. -/
def fusedGroup (config : Config) (kind : Kind) (q k v : List α) (g : Nat) : List α :=
  transposeBlock config.querysPerGroup 2 (config.head * config.width kind)
      (slice (config.querysPerGroup * 2 * (config.head * config.width kind)) g q) ++
    (slice (config.head * config.width kind) g k ++ slice (config.head * config.width kind) g v)

theorem width_pos (config : Config) (kind : Kind) : 0 < config.width kind := by
  cases kind with
  | weight => exact config.hidden_pos
  | bias => exact Nat.one_pos

theorem size_of {t : NdArray α} {rows : Nat} (shape : t.shape = config.shapeOf rows kind) :
    t.dim 0 = rows ∧ t.data.length = rows * config.width kind := by
  rw [dim, t.size, shape]
  cases kind with
  | weight => exact ⟨rfl, congrArg _ (Nat.mul_one _)⟩
  | bias => exact ⟨rfl, rfl⟩

/-- The last view of the bridge. -/
theorem view_fused {t : NdArray α} {rows : Nat} (size : t.data.length = rows * config.width kind) :
    ∃ fused, (match kind with
        | .weight => t.view [none, some config.hiddenSize]
        | .bias => t.view [none]) = .ok fused ∧ fused.shape = config.shapeOf rows kind ∧ fused.data = t.data := by
  cases kind with
  | weight =>
    obtain ⟨fused, run, shape, data⟩ := view_open [] [config.hiddenSize] rows
      (by simpa using config.hidden_pos.ne') (by rw [size, Nat.mul_comm]; simp [Config.width])
    exact ⟨fused, run, shape, data⟩
  | bias =>
    obtain ⟨fused, run, shape, data⟩ := view_open [] [] rows (by simp) (by rw [size, Nat.mul_comm]; simp [Config.width])
    exact ⟨fused, run, shape, data⟩

theorem weightToMcoreFormat_ok (head : 0 < config.head)
    (hq : q.shape = config.shapeOf (2 * config.numAttentionHeads * config.head) kind)
    (hk : k.shape = config.shapeOf (config.numKeyValueHeads * config.head) kind)
    (hv : v.shape = config.shapeOf (config.numKeyValueHeads * config.head) kind) :
    ∃ fused, weightToMcoreFormat config kind q k v = .ok fused ∧
      fused.shape = config.shapeOf (config.numKeyValueHeads * ((2 * config.querysPerGroup + 2) * config.head)) kind ∧
      fused.data = (List.range config.numKeyValueHeads).flatMap (fusedGroup config kind q.data k.data v.data) := by
  obtain ⟨rows, sizeQ⟩ := size_of hq
  obtain ⟨-, sizeK⟩ := size_of hk
  obtain ⟨-, sizeV⟩ := size_of hv
  have width := width_pos config kind
  have groups := config.groups_pos
  have querys := querysPerGroup_pos config
  have groupDim : config.head * config.numAttentionHeads / config.numKeyValueHeads = config.head * config.querysPerGroup :=
    Nat.mul_div_assoc _ config.divides
  have some : 2 * (config.head * config.querysPerGroup) ≠ 0 := by positivity
  have real : q.dim 0 / (2 * (config.head * config.querysPerGroup)) = config.numKeyValueHeads := by
    rw [rows, heads_eq]
    apply Nat.div_eq_of_eq_mul_left (by positivity)
    ring
  rw [heads_eq] at sizeQ
  rw [weightToMcoreFormat, groupDim, if_neg some]
  dsimp only
  rw [real]
  have group : fusedGroup config kind q.data k.data v.data = fun g =>
    transposeBlock config.querysPerGroup 2 (config.head * config.width kind)
        (slice (config.querysPerGroup * 2 * (config.head * config.width kind)) g q.data) ++
      (slice (config.head * config.width kind) g k.data ++ slice (config.head * config.width kind) g v.data) := rfl
  rw [group]
  have last {t : NdArray α} := @view_fused α config kind t (config.numKeyValueHeads * ((2 * config.querysPerGroup + 2) * config.head))
  generalize config.width kind = w at *
  generalize config.numKeyValueHeads = G at *
  generalize config.querysPerGroup = n at *
  generalize config.head = d at *
  obtain ⟨q₁, run₁, shape₁, data₁⟩ := @view_open _ q [G, n, 2, d] [] w
    (by simp only [List.prod_cons, List.prod_nil]; positivity) (by rw [sizeQ]; simp only [List.prod_cons, List.prod_nil]; ring)
  obtain ⟨q₂, run₂, shape₂, data₂⟩ := transpose12_ok shape₁
  obtain ⟨q₃, run₃, shape₃, data₃⟩ := flatten13_ok shape₂
  obtain ⟨k₁, run₄, shape₄, data₄⟩ := @view_open _ k [G, d] [] w
    (by simp only [List.prod_cons, List.prod_nil]; positivity) (by rw [sizeK]; simp only [List.prod_cons, List.prod_nil]; ring)
  obtain ⟨v₁, run₅, shape₅, data₅⟩ := @view_open _ v [G, d] [] w
    (by simp only [List.prod_cons, List.prod_nil]; positivity) (by rw [sizeV]; simp only [List.prod_cons, List.prod_nil]; ring)
  have dims : q₃.dim 0 = G ∧ q₃.dim 1 = 2 * n * d ∧ q₃.dim 2 = w := by
    rw [dim, dim, dim, shape₃]
    exact ⟨rfl, rfl, rfl⟩
  have width₁ : k₁.dim 1 = d ∧ v₁.dim 1 = d := by
    rw [dim, dim, shape₄, shape₅]
    exact ⟨rfl, rfl⟩
  obtain ⟨qgkv, run₆, shape₆, data₆⟩ := @cat1_ok _ G w [q₃, k₁, v₁] (by simp [shape₃, shape₄, shape₅, dims, width₁])
  have size : qgkv.data.length = G * ((2 * n + 2) * d) * w := by
    rw [qgkv.size, shape₆]
    simp [dims, width₁]
    ring
  obtain ⟨fused, run₇, shape₇, data₇⟩ := last size
  refine ⟨fused, ?_, shape₇, ?_⟩
  · have open₁ : q.view [Option.some G, Option.some n, Option.some 2, Option.some d, none] = .ok q₁ := run₁
    have open₂ : k.view [Option.some G, Option.some d, none] = .ok k₁ := run₄
    have open₃ : v.view [Option.some G, Option.some d, none] = .ok v₁ := run₅
    rw [open₁, Py.ok_bind, run₂, Py.ok_bind, run₃, Py.ok_bind, open₂, Py.ok_bind, open₃, Py.ok_bind, dims.1, dims.2.2, run₆, Py.ok_bind]
    exact run₇
  · rw [data₇, data₆]
    refine List.flatMap_congr fun g mem => ?_
    rw [List.flatMap_cons, List.flatMap_cons, List.flatMap_singleton, dims.2.1, width₁.1, width₁.2, data₄, data₅, data₃, data₂, data₁]
    have items : ([d].append [w]).prod = d * w := congrArg _ (Nat.mul_one w)
    have block : 2 * n * d * w = 2 * n * (d * w) := Nat.mul_assoc ..
    have sizeQ' : q.data.length = G * (n * 2 * (d * w)) := by rw [sizeQ]; ring
    rw [items, block, slice_flatMap_range (fun g lt => length_transposeBlock (length_slice sizeQ' lt)) (List.mem_range.1 mem)]

end Fuse

/-! ## Taking apart -/

section Split

variable {config : Config} {q k v : NdArray α}

theorem length_fusedGroup {kind : Kind} {q k v : List α} {g : Nat}
    (sizeQ : q.length = config.numKeyValueHeads * (config.querysPerGroup * 2 * (config.head * config.width kind)))
    (sizeK : k.length = config.numKeyValueHeads * (config.head * config.width kind))
    (sizeV : v.length = config.numKeyValueHeads * (config.head * config.width kind)) (lt : g < config.numKeyValueHeads) :
    (fusedGroup config kind q k v g).length = (2 * config.querysPerGroup + 1 + 1) * (config.head * config.width kind) := by
  rw [fusedGroup, List.length_append, List.length_append, length_transposeBlock (length_slice sizeQ lt), length_slice sizeK lt,
    length_slice sizeV lt]
  ring

/-- The three parts of a group. -/
theorem span_three {xs ys zs : List α} {n r : Nat} (hx : xs.length = n * r) (hy : ys.length = r) (hz : zs.length = r) :
    span 0 n r (xs ++ (ys ++ zs)) = xs ∧ span n 1 r (xs ++ (ys ++ zs)) = ys ∧ span (n + 1) 1 r (xs ++ (ys ++ zs)) = zs := by
  refine ⟨?_, ?_, ?_⟩
  · rw [span, Nat.zero_mul, List.drop_zero, List.take_left' hx]
  · rw [span, List.drop_left' hx, Nat.one_mul, List.take_left' hy]
  · rw [span, Nat.add_mul, Nat.one_mul, ← List.drop_drop, List.drop_left' hx, List.drop_left' hy, ← hz, List.take_length]

theorem blocks_whole {G r : Nat} {xs : List α} (size : xs.length = G * r) : (List.range G).flatMap (fun g => slice r g xs) = xs := by
  rw [flatMap_slice, ← size, List.take_length]

/-- A part in the shape of a weight. -/
theorem view_weight {t t' : NdArray α} {rows : Nat} (shape : t'.shape = config.shapeOf rows .weight) (data : t.data = t'.data) :
    t.view [none, some config.hiddenSize] = .ok t' := by
  have size := (size_of shape).2
  obtain ⟨fused, run, shape', data'⟩ := @view_fused α config .weight t rows (data ▸ size)
  rw [ext (shape.trans shape'.symm) (data.symm.trans data'.symm)]
  exact run

theorem convertQkvToHf_weight (layer : String) (head : 0 < config.head) {fused : NdArray α}
    (hq : q.shape = config.shapeOf (2 * config.numAttentionHeads * config.head) .weight)
    (hk : k.shape = config.shapeOf (config.numKeyValueHeads * config.head) .weight)
    (hv : v.shape = config.shapeOf (config.numKeyValueHeads * config.head) .weight)
    (data : fused.data = (List.range config.numKeyValueHeads).flatMap (fusedGroup config .weight q.data k.data v.data)) :
    convertQkvToHf layer config .weight fused =
      .ok [(layer ++ ".self_attn." ++ "q" ++ "_proj." ++ "weight", q), (layer ++ ".self_attn." ++ "k" ++ "_proj." ++ "weight", k),
        (layer ++ ".self_attn." ++ "v" ++ "_proj." ++ "weight", v)] := by
  have querys := querysPerGroup_pos config
  have sizeQ : q.data.length = config.numKeyValueHeads * (config.querysPerGroup * 2 * (config.head * config.hiddenSize)) := by
    rw [(size_of hq).2, heads_eq, Config.width]
    ring
  have sizeK : k.data.length = config.numKeyValueHeads * (config.head * config.hiddenSize) :=
    (size_of hk).2.trans (Nat.mul_assoc ..)
  have sizeV : v.data.length = config.numKeyValueHeads * (config.head * config.hiddenSize) :=
    (size_of hv).2.trans (Nat.mul_assoc ..)
  have groups : ∀ g < config.numKeyValueHeads, (fusedGroup config .weight q.data k.data v.data g).length =
      (2 * config.querysPerGroup + 1 + 1) * (config.head * config.hiddenSize) := fun g lt => length_fusedGroup sizeQ sizeK sizeV lt
  have sizeF : fused.data.length = config.numKeyValueHeads * ((2 * config.querysPerGroup + 1 + 1) * (config.head * config.hiddenSize)) := by
    rw [data, length_flatMap_range groups]
  have items : [config.head, config.hiddenSize].prod = config.head * config.hiddenSize := congrArg _ (Nat.mul_one _)
  have known : [config.numKeyValueHeads].prod * [config.head, config.hiddenSize].prod ≠ 0 := by
    have := config.groups_pos
    have := config.hidden_pos
    simp only [List.prod_cons, List.prod_nil]
    positivity
  obtain ⟨param, run₁, shape₁, data₁⟩ := @view_open _ fused [config.numKeyValueHeads] [config.head, config.hiddenSize]
    (2 * config.querysPerGroup + 1 + 1) known (by rw [sizeF, items, List.prod_singleton]; ring)
  obtain ⟨q₁, k₁, v₁, run₂, dataQ, dataK, dataV⟩ := split1_three shape₁
    (show 2 * config.querysPerGroup + 1 + 1 = 2 * config.querysPerGroup + 1 + 1 from rfl)
  -- each group of the fused tensor is cut where it was joined
  have cut : ∀ g ∈ List.range config.numKeyValueHeads,
      slice ((2 * config.querysPerGroup + 1 + 1) * [config.head, config.hiddenSize].prod) g param.data =
        fusedGroup config .weight q.data k.data v.data g := by
    intro g mem
    rw [data₁, data, items, slice_flatMap_range groups (List.mem_range.1 mem)]
  have three : ∀ g ∈ List.range config.numKeyValueHeads, _ := fun g mem =>
    span_three (length_transposeBlock (length_slice sizeQ (List.mem_range.1 mem))) (length_slice sizeK (List.mem_range.1 mem))
      (length_slice sizeV (List.mem_range.1 mem))
  have partQ : q₁.data = (List.range config.numKeyValueHeads).flatMap fun g =>
      transposeBlock config.querysPerGroup 2 (config.head * config.hiddenSize)
        (slice (config.querysPerGroup * 2 * (config.head * config.hiddenSize)) g q.data) := by
    rw [dataQ]
    refine List.flatMap_congr fun g mem => ?_
    rw [cut g mem, items]
    exact (three g mem).1
  have partK : k₁.data = k.data := by
    rw [dataK, ← blocks_whole sizeK]
    refine List.flatMap_congr fun g mem => ?_
    rw [cut g mem, items]
    exact (three g mem).2.1
  have partV : v₁.data = v.data := by
    rw [dataV, ← blocks_whole sizeV]
    refine List.flatMap_congr fun g mem => ?_
    rw [cut g mem, items]
    exact (three g mem).2.2
  have sizeT := fun g (lt : g < config.numKeyValueHeads) => length_transposeBlock (length_slice sizeQ lt)
  obtain ⟨q₂, run₃, shape₃, data₃⟩ := @view_known _ q₁
    [config.numKeyValueHeads, 2, config.querysPerGroup, config.head, config.hiddenSize] (by
      rw [partQ, length_flatMap_range sizeT]
      simp only [List.prod_cons, List.prod_nil, Nat.mul_one, Nat.mul_assoc])
  obtain ⟨q₃, run₄, shape₄, data₄⟩ := transpose12_ok shape₃
  have back : q₃.data = q.data := by
    rw [data₄, data₃, partQ, items]
    refine Eq.trans (List.flatMap_congr fun g mem => ?_) (blocks_whole sizeQ)
    rw [slice_flatMap_range sizeT (List.mem_range.1 mem),
      transposeBlock_transposeBlock (length_slice sizeQ (List.mem_range.1 mem))]
  have open₁ : fused.view [some config.numKeyValueHeads, none, some config.head, some config.hiddenSize] = .ok param := run₁
  have open₂ : q₁.view [some config.numKeyValueHeads, some 2, some config.querysPerGroup, some config.head,
      some config.hiddenSize] = .ok q₂ := run₃
  rw [convertQkvToHf, open₁, Py.ok_bind, run₂, Py.ok_bind]
  dsimp only
  rw [open₂, Py.ok_bind, run₄, Py.ok_bind, view_weight hq back, Py.ok_bind, view_weight hk partK, Py.ok_bind,
    view_weight hv partV, Py.ok_bind]
  rfl

/-- **The bias has no room for the gates**: the split sizes are those of the queries alone. -/
theorem convertQkvToHf_bias (layer : String) (head : 0 < config.head) {fused : NdArray α}
    (shape : fused.shape = config.shapeOf (config.numKeyValueHeads * ((2 * config.querysPerGroup + 2) * config.head)) .bias) :
    convertQkvToHf layer config .bias fused = .error .runtimeError := by
  have querys := querysPerGroup_pos config
  have groups := config.groups_pos
  obtain ⟨param, run, shape₁, -⟩ := @view_open _ fused [config.numKeyValueHeads] [] ((2 * config.querysPerGroup + 2) * config.head)
    (by simp only [List.prod_cons, List.prod_nil]; positivity) (by
      rw [fused.size, shape]
      simp only [Config.shapeOf, List.prod_cons, List.prod_nil, Nat.mul_one])
  have few : [config.querysPerGroup * config.head, config.head, config.head].sum ≠ (2 * config.querysPerGroup + 2) * config.head := by
    have gates : 0 < config.querysPerGroup * config.head := Nat.mul_pos querys head
    simp only [List.sum_cons, List.sum_nil]
    rw [Nat.add_mul, Nat.mul_assoc]
    omega
  have opened : fused.view [some config.numKeyValueHeads, none] = .ok param := run
  rw [convertQkvToHf, opened, Py.ok_bind, split1_error shape₁ few]
  rfl

end Split

/-- The tensors of a layer, fused by the bridge and taken apart by a converter, are what they were. -/
def RoundTrips (convert : Config → Kind → NdArray α → Py (List (String × NdArray α))) (layer : String) (config : Config) (kind : Kind)
    (q k v : NdArray α) : Prop :=
  (do
    let fused ← weightToMcoreFormat config kind q k v
    convert config kind fused) =
    .ok [(layer ++ ".self_attn." ++ "q" ++ "_proj." ++ kind.suffix, q), (layer ++ ".self_attn." ++ "k" ++ "_proj." ++ kind.suffix, k),
      (layer ++ ".self_attn." ++ "v" ++ "_proj." ++ kind.suffix, v)]

theorem roundTrips_iff (layer : String) {config : Config} {kind : Kind} {q k v : NdArray α} (head : 0 < config.head)
    (hq : q.shape = config.shapeOf (2 * config.numAttentionHeads * config.head) kind)
    (hk : k.shape = config.shapeOf (config.numKeyValueHeads * config.head) kind)
    (hv : v.shape = config.shapeOf (config.numKeyValueHeads * config.head) kind) :
    RoundTrips (convertQkvToHf layer) layer config kind q k v ↔ kind = .weight := by
  obtain ⟨fused, run, shape, data⟩ := weightToMcoreFormat_ok head hq hk hv
  rw [RoundTrips, run, Py.ok_bind]
  cases kind with
  | weight => exact iff_of_true (convertQkvToHf_weight layer head hq hk hv data) rfl
  | bias =>
    rw [convertQkvToHf_bias layer head shape]
    exact iff_of_false (fun same => nomatch same) (fun same => nomatch same)

/-- **The gated projections survive the round trip** through both bridges if and only if they are weights. -/
theorem gated_round_trip_iff (layerIdx : Nat) {config : Config} {kind : Kind} {q k v : NdArray α} (head : 0 < config.head)
    (hq : q.shape = config.shapeOf (2 * config.numAttentionHeads * config.head) kind)
    (hk : k.shape = config.shapeOf (config.numKeyValueHeads * config.head) kind)
    (hv : v.shape = config.shapeOf (config.numKeyValueHeads * config.head) kind) :
    (RoundTrips (convertQwen3NextToHf layerIdx) ("model.layers." ++ toString layerIdx) config kind q k v ↔ kind = .weight) ∧
      (RoundTrips (convertQwen35ToHf layerIdx) ("model.language_model.layers." ++ toString layerIdx) config kind q k v ↔
        kind = .weight) :=
  ⟨roundTrips_iff _ head hq hk hv, roundTrips_iff _ head hq hk hv⟩

/-- Two heads in one group, with heads of one entry. -/
def smallConfig : Config := ⟨2, 1, 1, some 1, Nat.two_pos, Nat.one_pos, Nat.one_pos, Nat.one_dvd 2⟩

def columnOf (entries : List Nat) : NdArray Nat := ⟨[entries.length, 1], entries, by simp⟩

def vectorOf (entries : List Nat) : NdArray Nat := ⟨[entries.length], entries, by simp⟩

theorem gated_round_trip_iff_small :
    (RoundTrips (convertQwen3NextToHf 0) ("model.layers." ++ toString 0) smallConfig .weight (columnOf [1, 2, 3, 4]) (columnOf [5])
        (columnOf [6]) ↔ Kind.weight = .weight) ∧
      (RoundTrips (convertQwen35ToHf 0) ("model.language_model.layers." ++ toString 0) smallConfig .weight (columnOf [1, 2, 3, 4])
        (columnOf [5]) (columnOf [6]) ↔ Kind.weight = .weight) :=
  gated_round_trip_iff 0 Nat.one_pos rfl rfl rfl

/-- The fused bias has two queries, two gates, a key and a value; the converter splits it into two, one and one. -/
theorem bias_not_converted :
    ¬RoundTrips (convertQwen3NextToHf 0) ("model.layers." ++ toString 0) smallConfig .bias (vectorOf [1, 2, 3, 4]) (vectorOf [5])
      (vectorOf [6]) := by
  intro same
  have bias := (@roundTrips_iff Nat _ smallConfig .bias _ _ _ Nat.one_pos rfl rfl rfl).1 same
  cases bias

end SlimeBoard.GatedQkv
