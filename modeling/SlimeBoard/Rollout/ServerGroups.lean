import Mathlib

/-!
# The GPU slots of the rollout engines

`start_rollout_servers` gives every server group a range of GPU slots. `start_engines` places the
processes of a group one after the other in it, and `engine_gpu_offsets` tells the trainer where the
engines are; an engine that spans nodes is several processes.
-/

namespace SlimeBoard.ServerGroups

inductive WorkerType where
  | regular
  | prefill
  | decode
  | placeholder
  | encoder
  deriving DecidableEq

structure ServerGroupConfig where
  workerType : WorkerType
  numGpus : Nat
  numGpusPerEngine : Nat
  some_gpus : 0 < numGpus
  -- with none the group divides by zero
  some_each : 0 < numGpusPerEngine

structure ServerGroup where
  workerType : WorkerType
  /-- the length of `all_engines`, the processes of the group -/
  size : Nat
  numGpusPerEngine : Nat
  rankOffset : Nat
  gpuOffset : Nat

section Code

variable (numGpusPerNode : Nat)

/-- `num_gpu_per_engine_local`, of a process -/
def numGpuPerEngineLocal (numGpusPerEngine : Nat) : Nat := min numGpusPerEngine numGpusPerNode

def numEngines (config : ServerGroupConfig) : Nat :=
  config.numGpus / numGpuPerEngineLocal numGpusPerNode config.numGpusPerEngine

/-- `_make_group`, with the offsets as they are before it -/
def makeGroup (engineOffset gpuOffset : Nat) (config : ServerGroupConfig) : ServerGroup where
  workerType := config.workerType
  size := if config.workerType = .placeholder then 0 else numEngines numGpusPerNode config
  numGpusPerEngine := config.numGpusPerEngine
  rankOffset := engineOffset
  gpuOffset := gpuOffset

def makeGroups (engineOffset gpuOffset : Nat) : List ServerGroupConfig → List ServerGroup
  | [] => []
  | config :: configs =>
    makeGroup numGpusPerNode engineOffset gpuOffset config ::
      makeGroups (engineOffset + numEngines numGpusPerNode config) (gpuOffset + config.numGpus) configs

namespace ServerGroup

def nodesPerEngine (group : ServerGroup) : Nat := max 1 (group.numGpusPerEngine / numGpusPerNode)

/-- `all_engines[:: nodes_per_engine]`, as indices into `all_engines` -/
def engines (group : ServerGroup) : List Nat :=
  (List.range ((group.size + group.nodesPerEngine numGpusPerNode - 1) / group.nodesPerEngine numGpusPerNode)).map
    (· * group.nodesPerEngine numGpusPerNode)

/-- The `gpu_index` of each process that `start_engines` creates. -/
def gpuIndices (group : ServerGroup) : List Nat :=
  (List.range group.size).map fun i => group.gpuOffset + i * numGpuPerEngineLocal numGpusPerNode group.numGpusPerEngine

/-- The part of `engine_gpu_counts` for a group. -/
def engineGpuCounts (group : ServerGroup) : List Nat := (group.engines numGpusPerNode).map fun _ => group.numGpusPerEngine

/-- The part of `engine_gpu_offsets` for a group. -/
def engineGpuOffsets (group : ServerGroup) : List Nat :=
  (List.range (group.engines numGpusPerNode).length).map fun j => group.gpuOffset + j * group.numGpusPerEngine

end ServerGroup

def engineGpuCounts (groups : List ServerGroup) : List Nat := groups.flatMap (·.engineGpuCounts numGpusPerNode)

def engineGpuOffsets (groups : List ServerGroup) : List Nat := groups.flatMap (·.engineGpuOffsets numGpusPerNode)

/-! ## The layout -/

/-- The engines of a group are where they are reported to be. -/
structure GroupLayout (config : ServerGroupConfig) (group : ServerGroup) : Prop where
  placed : ∀ j i offset : Nat, (group.engines numGpusPerNode)[j]? = some i → (group.engineGpuOffsets numGpusPerNode)[j]? = some offset →
    (group.gpuIndices numGpusPerNode)[i]? = some offset
  /-- The processes of engine `j` are those of index `j * nodes_per_engine` and the next ones. -/
  slots : ∀ j offset count : Nat, (group.engineGpuOffsets numGpusPerNode)[j]? = some offset →
    (group.engineGpuCounts numGpusPerNode)[j]? = some count → ∀ slot, offset ≤ slot ∧ slot < offset + count ↔
      ∃ i first : Nat, i / group.nodesPerEngine numGpusPerNode = j ∧ (group.gpuIndices numGpusPerNode)[i]? = some first ∧
        first ≤ slot ∧ slot < first + numGpuPerEngineLocal numGpusPerNode group.numGpusPerEngine
  inside : ∀ j offset count : Nat, (group.engineGpuOffsets numGpusPerNode)[j]? = some offset →
    (group.engineGpuCounts numGpusPerNode)[j]? = some count →
      group.gpuOffset ≤ offset ∧ offset + count ≤ group.gpuOffset + config.numGpus

structure SlotLayout (configs : List ServerGroupConfig) (groups : List ServerGroup) : Prop where
  each : List.Forall₂ (GroupLayout numGpusPerNode) configs groups
  disjoint : ((engineGpuOffsets numGpusPerNode groups).zip (engineGpuCounts numGpusPerNode groups)).Pairwise
    fun a b => a.1 + a.2 ≤ b.1 ∨ b.1 + b.2 ≤ a.1

/-- The engines fit on a node, or fill whole nodes and their group whole engines. -/
def Divides (config : ServerGroupConfig) : Prop :=
  config.workerType = .placeholder ∨ config.numGpusPerEngine ≤ numGpusPerNode ∨ config.numGpus < numGpusPerNode ∨
    (numGpusPerNode ∣ config.numGpusPerEngine ∧ config.numGpusPerEngine / numGpusPerNode ∣ config.numGpus / numGpusPerNode)

instance (config : ServerGroupConfig) : Decidable (Divides numGpusPerNode config) :=
  inferInstanceAs (Decidable (_ ∨ _))

end Code

variable {numGpusPerNode : Nat}

section Group

variable {config : ServerGroupConfig} {group : ServerGroup}

theorem nodesPerEngine_pos (group : ServerGroup) : 0 < group.nodesPerEngine numGpusPerNode :=
  Nat.lt_of_lt_of_le Nat.one_pos (Nat.le_max_left ..)

/-- The number of engines, the last of which may lack processes. -/
theorem lt_length_engines {j : Nat} :
    j < (group.engines numGpusPerNode).length ↔ j * group.nodesPerEngine numGpusPerNode < group.size := by
  have pos := @nodesPerEngine_pos numGpusPerNode group
  rw [ServerGroup.engines, List.length_map, List.length_range, Nat.lt_div_iff_mul_lt pos]
  omega

theorem engines_getElem? {j i : Nat} : (group.engines numGpusPerNode)[j]? = some i ↔
    j * group.nodesPerEngine numGpusPerNode < group.size ∧ i = j * group.nodesPerEngine numGpusPerNode := by
  rw [← lt_length_engines, List.getElem?_eq_some_iff]
  constructor
  · rintro ⟨lt, same⟩
    refine ⟨lt, ?_⟩
    rw [← same]
    simp only [ServerGroup.engines, List.getElem_map, List.getElem_range]
  · rintro ⟨lt, rfl⟩
    refine ⟨lt, ?_⟩
    simp only [ServerGroup.engines, List.getElem_map, List.getElem_range]

theorem gpuIndices_getElem? {i first : Nat} : (group.gpuIndices numGpusPerNode)[i]? = some first ↔
    i < group.size ∧ first = group.gpuOffset + i * numGpuPerEngineLocal numGpusPerNode group.numGpusPerEngine := by
  rw [ServerGroup.gpuIndices, List.getElem?_eq_some_iff]
  simp only [List.length_map, List.length_range, List.getElem_map, List.getElem_range, exists_prop, eq_comm]

theorem engineGpuOffsets_getElem? {j offset : Nat} : (group.engineGpuOffsets numGpusPerNode)[j]? = some offset ↔
    j * group.nodesPerEngine numGpusPerNode < group.size ∧ offset = group.gpuOffset + j * group.numGpusPerEngine := by
  rw [← lt_length_engines, ServerGroup.engineGpuOffsets, List.getElem?_eq_some_iff]
  simp only [List.length_map, List.length_range, List.getElem_map, List.getElem_range, exists_prop, eq_comm]

theorem engineGpuCounts_getElem? {j count : Nat} : (group.engineGpuCounts numGpusPerNode)[j]? = some count ↔
    j * group.nodesPerEngine numGpusPerNode < group.size ∧ count = group.numGpusPerEngine := by
  rw [← lt_length_engines, ServerGroup.engineGpuCounts, List.getElem?_eq_some_iff]
  simp only [List.length_map, List.getElem_map, exists_prop, eq_comm]

/-- A group without processes has no engines to misplace. -/
theorem layout_empty (none : group.size = 0) : GroupLayout numGpusPerNode config group where
  placed := fun j i offset here => absurd (engines_getElem?.1 here).1 (by omega)
  slots := fun j offset count here => absurd (engineGpuOffsets_getElem?.1 here).1 (by omega)
  inside := fun j offset count here => absurd (engineGpuOffsets_getElem?.1 here).1 (by omega)

/-- **Whole engines of whole processes** are where they are reported to be. -/
theorem layout_whole {engines : Nat} (pos : 0 < numGpuPerEngineLocal numGpusPerNode group.numGpusPerEngine)
    (whole : group.numGpusPerEngine =
      group.nodesPerEngine numGpusPerNode * numGpuPerEngineLocal numGpusPerNode group.numGpusPerEngine)
    (size : group.size = engines * group.nodesPerEngine numGpusPerNode)
    (fits : group.size * numGpuPerEngineLocal numGpusPerNode group.numGpusPerEngine ≤ config.numGpus) :
    GroupLayout numGpusPerNode config group := by
  have nodes := @nodesPerEngine_pos numGpusPerNode group
  have start (j : Nat) : j * group.numGpusPerEngine =
      j * group.nodesPerEngine numGpusPerNode * numGpuPerEngineLocal numGpusPerNode group.numGpusPerEngine := by
    rw [Nat.mul_assoc, ← whole]
  have room {j : Nat} (lt : j * group.nodesPerEngine numGpusPerNode < group.size) :
      (j + 1) * group.nodesPerEngine numGpusPerNode ≤ group.size := by
    rw [size] at lt ⊢
    exact Nat.mul_le_mul_right _ (Nat.lt_of_mul_lt_mul_right lt)
  constructor
  · intro j i offset here reported
    obtain ⟨lt, rfl⟩ := engines_getElem?.1 here
    obtain ⟨-, rfl⟩ := engineGpuOffsets_getElem?.1 reported
    exact gpuIndices_getElem?.2 ⟨lt, congrArg _ (start j)⟩
  · intro j offset count reported counted slot
    obtain ⟨lt, rfl⟩ := engineGpuOffsets_getElem?.1 reported
    obtain ⟨-, rfl⟩ := engineGpuCounts_getElem?.1 counted
    have next := start (j + 1)
    rw [Nat.succ_mul] at next
    have last := room lt
    rw [start j] at next ⊢
    simp only [gpuIndices_getElem?]
    generalize numGpuPerEngineLocal numGpusPerNode group.numGpusPerEngine = l at *
    generalize group.nodesPerEngine numGpusPerNode = n at *
    constructor
    · rintro ⟨after, before⟩
      have low : j * n ≤ (slot - group.gpuOffset) / l := (Nat.le_div_iff_mul_le pos).2 (by omega)
      have high : (slot - group.gpuOffset) / l < (j + 1) * n := (Nat.div_lt_iff_lt_mul pos).2 (by omega)
      refine ⟨(slot - group.gpuOffset) / l, _, ?_, ⟨high.trans_le last, rfl⟩, ?_, ?_⟩
      · exact Nat.div_eq_of_lt_le low high
      · have := Nat.div_mul_le_self (slot - group.gpuOffset) l
        omega
      · have := Nat.lt_div_mul_add (a := slot - group.gpuOffset) pos
        omega
    · rintro ⟨i, first, rfl, ⟨inside, rfl⟩, after, before⟩
      have low : i / n * n * l ≤ i * l := Nat.mul_le_mul_right _ (Nat.div_mul_le_self i n)
      have high : (i + 1) * l ≤ (i / n + 1) * n * l := by
        apply Nat.mul_le_mul_right
        rw [Nat.succ_mul]
        exact Nat.lt_div_mul_add nodes
      rw [Nat.succ_mul] at high
      omega
  · intro j offset count reported counted
    obtain ⟨lt, rfl⟩ := engineGpuOffsets_getElem?.1 reported
    obtain ⟨-, rfl⟩ := engineGpuCounts_getElem?.1 counted
    have next := start (j + 1)
    have last := Nat.mul_le_mul_right (numGpuPerEngineLocal numGpusPerNode group.numGpusPerEngine) (room lt)
    rw [Nat.succ_mul] at next
    omega

/-- The last engine is where it is reported to be only if it is whole, and fills its nodes. -/
theorem whole_of_layout (some : 0 < group.size)
    (least : group.nodesPerEngine numGpusPerNode * numGpuPerEngineLocal numGpusPerNode group.numGpusPerEngine ≤
      group.numGpusPerEngine)
    (pos : 0 < numGpuPerEngineLocal numGpusPerNode group.numGpusPerEngine) (layout : GroupLayout numGpusPerNode config group) :
    group.numGpusPerEngine = group.nodesPerEngine numGpusPerNode * numGpuPerEngineLocal numGpusPerNode group.numGpusPerEngine ∧
      group.nodesPerEngine numGpusPerNode ∣ group.size := by
  have nodes := @nodesPerEngine_pos numGpusPerNode group
  -- the last slot of the last engine
  have lt : (group.size - 1) / group.nodesPerEngine numGpusPerNode * group.nodesPerEngine numGpusPerNode < group.size :=
    (Nat.div_mul_le_self ..).trans_lt (by omega)
  have last := (layout.slots _ _ _ (engineGpuOffsets_getElem?.2 ⟨lt, rfl⟩) (engineGpuCounts_getElem?.2 ⟨lt, rfl⟩)
    (group.gpuOffset + (group.size - 1) / group.nodesPerEngine numGpusPerNode * group.numGpusPerEngine + group.numGpusPerEngine - 1)).1
  simp only [gpuIndices_getElem?] at last
  have final : group.size - 1 < (group.size - 1) / group.nodesPerEngine numGpusPerNode * group.nodesPerEngine numGpusPerNode +
      group.nodesPerEngine numGpusPerNode := Nat.lt_div_mul_add nodes
  generalize (group.size - 1) / group.nodesPerEngine numGpusPerNode = j at last lt final
  generalize numGpuPerEngineLocal numGpusPerNode group.numGpusPerEngine = l at *
  generalize group.nodesPerEngine numGpusPerNode = n at *
  have room : 0 < group.numGpusPerEngine := (Nat.mul_pos nodes pos).trans_le least
  obtain ⟨i, first, own, ⟨inside, rfl⟩, -, before⟩ := last ⟨by omega, by omega⟩
  have high : i + 1 ≤ (j + 1) * n := by
    rw [← own, Nat.succ_mul]
    exact Nat.lt_div_mul_add nodes
  have reach : (j + 1) * group.numGpusPerEngine ≤ (i + 1) * l := by
    rw [Nat.succ_mul, Nat.succ_mul]
    omega
  have fill : (j + 1) * (n * l) ≤ (j + 1) * group.numGpusPerEngine := Nat.mul_le_mul_left _ least
  have top : (i + 1) * l ≤ (j + 1) * (n * l) := by
    rw [← Nat.mul_assoc]
    exact Nat.mul_le_mul_right _ high
  have same : (j + 1) * group.numGpusPerEngine = (j + 1) * (n * l) := le_antisymm (reach.trans top) fill
  refine ⟨Nat.eq_of_mul_eq_mul_left (Nat.succ_pos j) same, j + 1, ?_⟩
  have all : (j + 1) * n * l ≤ (i + 1) * l := by
    rw [Nat.mul_assoc]
    exact fill.trans reach
  have count : (j + 1) * n ≤ i + 1 := Nat.le_of_mul_le_mul_right all pos
  rw [Nat.mul_comm n]
  rw [Nat.succ_mul] at count ⊢
  omega

end Group

/-! ## The groups -/

theorem groupLayout_iff (node : 0 < numGpusPerNode) {engineOffset gpuOffset : Nat} {config : ServerGroupConfig} :
    GroupLayout numGpusPerNode config (makeGroup numGpusPerNode engineOffset gpuOffset config) ↔ Divides numGpusPerNode config := by
  have each := config.some_each
  by_cases placeholder : config.workerType = .placeholder
  · exact iff_of_true (layout_empty (if_pos placeholder)) (.inl placeholder)
  have size : (makeGroup numGpusPerNode engineOffset gpuOffset config).size = numEngines numGpusPerNode config := if_neg placeholder
  obtain small | large := Nat.lt_or_ge numGpusPerNode config.numGpusPerEngine |>.symm
  · -- one process is one engine
    refine iff_of_true ?_ (.inr (.inl small))
    have process : numGpuPerEngineLocal numGpusPerNode config.numGpusPerEngine = config.numGpusPerEngine := Nat.min_eq_left small
    have one : (makeGroup numGpusPerNode engineOffset gpuOffset config).nodesPerEngine numGpusPerNode = 1 := by
      apply Nat.max_eq_left
      exact (Nat.div_le_div_right small).trans (Nat.div_self node).le
    apply layout_whole
    · exact process.symm ▸ each
    · rw [one, Nat.one_mul]
      exact process.symm
    · rw [one, Nat.mul_one]
    · rw [size, numEngines]
      exact Nat.div_mul_le_self ..
  · have process : numGpuPerEngineLocal numGpusPerNode config.numGpusPerEngine = numGpusPerNode := Nat.min_eq_right large.le
    have nodes : (makeGroup numGpusPerNode engineOffset gpuOffset config).nodesPerEngine numGpusPerNode =
        config.numGpusPerEngine / numGpusPerNode := Nat.max_eq_right (Nat.div_pos large.le node)
    rw [numEngines, process] at size
    constructor
    · intro layout
      obtain few | some := Nat.lt_or_ge config.numGpus numGpusPerNode
      · exact .inr (.inr (.inl few))
      · obtain ⟨fill, divides⟩ := whole_of_layout (size ▸ Nat.div_pos some node)
          (by rw [nodes]; exact process.symm ▸ Nat.div_mul_le_self ..) (process.symm ▸ node) layout
        rw [size, nodes] at divides
        rw [nodes] at fill
        refine .inr (.inr (.inr ⟨?_, divides⟩))
        exact Dvd.intro_left _ (fill.trans (congrArg _ process)).symm
    · rintro (none | small | few | ⟨fill, divides⟩)
      · exact absurd none placeholder
      · omega
      · exact layout_empty (size.trans (Nat.div_eq_of_lt few))
      · obtain ⟨engines, count⟩ := divides
        apply layout_whole
        · exact process.symm ▸ node
        · rw [nodes]
          exact (Nat.div_mul_cancel fill).symm.trans (congrArg _ process.symm)
        · rw [size, nodes, count, Nat.mul_comm]
        · rw [size]
          exact (congrArg _ process).trans_le (Nat.div_mul_le_self ..)

theorem each_iff (node : 0 < numGpusPerNode) (configs : List ServerGroupConfig) (engineOffset gpuOffset : Nat) :
    List.Forall₂ (GroupLayout numGpusPerNode) configs (makeGroups numGpusPerNode engineOffset gpuOffset configs) ↔
      ∀ config ∈ configs, Divides numGpusPerNode config := by
  induction configs generalizing engineOffset gpuOffset with
  | nil => exact iff_of_true .nil fun config mem => absurd mem List.not_mem_nil
  | cons config configs ih => rw [makeGroups, List.forall₂_cons, groupLayout_iff node, ih, List.forall_mem_cons]

/-- The slots of the engines of a group: where they start and how many they are. -/
def slotsOf (numGpusPerNode : Nat) (group : ServerGroup) : List (Nat × Nat) :=
  (group.engineGpuOffsets numGpusPerNode).zip (group.engineGpuCounts numGpusPerNode)

theorem length_offsets (group : ServerGroup) :
    (group.engineGpuOffsets numGpusPerNode).length = (group.engineGpuCounts numGpusPerNode).length := by
  rw [ServerGroup.engineGpuOffsets, ServerGroup.engineGpuCounts, List.length_map, List.length_map, List.length_range]

theorem zip_offsets (groups : List ServerGroup) :
    (engineGpuOffsets numGpusPerNode groups).zip (engineGpuCounts numGpusPerNode groups) =
      groups.flatMap (slotsOf numGpusPerNode) := by
  induction groups with
  | nil => rfl
  | cons group groups ih =>
    rw [engineGpuOffsets, engineGpuCounts, List.flatMap_cons, List.flatMap_cons, List.zip_append (length_offsets group),
      List.flatMap_cons, ← ih]
    rfl

theorem mem_slotsOf {group : ServerGroup} {slots : Nat × Nat} (mem : slots ∈ slotsOf numGpusPerNode group) :
    ∃ j : Nat, (group.engineGpuOffsets numGpusPerNode)[j]? = some slots.1 ∧ (group.engineGpuCounts numGpusPerNode)[j]? = some slots.2 := by
  obtain ⟨j, found⟩ := List.mem_iff_getElem?.1 mem
  obtain ⟨first, second⟩ := List.getElem?_zip_eq_some.1 found
  exact ⟨j, first, second⟩

theorem slotsOf_pairwise (group : ServerGroup) : (slotsOf numGpusPerNode group).Pairwise fun a b => a.1 + a.2 ≤ b.1 := by
  apply List.pairwise_iff_getElem.2
  intro i j lt lt' less
  have first := List.getElem?_zip_eq_some.1 (List.getElem?_eq_getElem lt)
  have second := List.getElem?_zip_eq_some.1 (List.getElem?_eq_getElem lt')
  rw [(engineGpuOffsets_getElem?.1 first.1).2, (engineGpuCounts_getElem?.1 first.2).2, (engineGpuOffsets_getElem?.1 second.1).2]
  have next : (i + 1) * group.numGpusPerEngine ≤ j * group.numGpusPerEngine := Nat.mul_le_mul_right _ less
  rw [Nat.succ_mul] at next
  omega

/-- Groups one after the other, with their engines inside, have disjoint engines. -/
theorem slots_pairwise {configs : List ServerGroupConfig} {engineOffset gpuOffset : Nat}
    (each : List.Forall₂ (GroupLayout numGpusPerNode) configs (makeGroups numGpusPerNode engineOffset gpuOffset configs)) :
    ((makeGroups numGpusPerNode engineOffset gpuOffset configs).flatMap (slotsOf numGpusPerNode)).Pairwise
        (fun a b => a.1 + a.2 ≤ b.1) ∧
      ∀ a ∈ (makeGroups numGpusPerNode engineOffset gpuOffset configs).flatMap (slotsOf numGpusPerNode), gpuOffset ≤ a.1 := by
  induction configs generalizing engineOffset gpuOffset with
  | nil => exact ⟨.nil, fun a mem => absurd mem List.not_mem_nil⟩
  | cons config configs ih =>
    rw [makeGroups] at each ⊢
    obtain ⟨here, rest⟩ := List.forall₂_cons.1 each
    obtain ⟨apart, low⟩ := ih rest
    have bounds : ∀ a ∈ slotsOf numGpusPerNode (makeGroup numGpusPerNode engineOffset gpuOffset config),
        gpuOffset ≤ a.1 ∧ a.1 + a.2 ≤ gpuOffset + config.numGpus := by
      intro a mem
      obtain ⟨j, offset, count⟩ := mem_slotsOf mem
      exact here.inside j _ _ offset count
    rw [List.flatMap_cons]
    constructor
    · refine List.pairwise_append.2 ⟨slotsOf_pairwise _, apart, fun a mem b mem' => ?_⟩
      exact (bounds a mem).2.trans (low b mem')
    · intro a mem
      obtain first | later := List.mem_append.1 mem
      · exact (bounds a first).1
      · exact (Nat.le_add_right ..).trans (low a later)

/-- **The slot layout** is the reported one if and only if in every group that starts engines an engine fits on a node, or
fills whole nodes and the group whole engines. -/
theorem slot_layout_iff (node : 0 < numGpusPerNode) (engineOffset gpuOffset : Nat) (configs : List ServerGroupConfig) :
    SlotLayout numGpusPerNode configs (makeGroups numGpusPerNode engineOffset gpuOffset configs) ↔
      ∀ config ∈ configs, Divides numGpusPerNode config := by
  rw [← each_iff node configs engineOffset gpuOffset]
  constructor
  · exact fun layout => layout.each
  · intro each
    refine ⟨each, ?_⟩
    rw [zip_offsets]
    exact (slots_pairwise each).1.imp .inl

def twoOfTwelve : ServerGroupConfig := ⟨.regular, 24, 12, Nat.succ_pos 23, Nat.succ_pos 11⟩

/-- Two engines on a node, a gap of four slots, and two engines of two nodes each. -/
def threeGroups : List ServerGroupConfig :=
  [⟨.prefill, 8, 4, Nat.succ_pos 7, Nat.succ_pos 3⟩, ⟨.placeholder, 4, 4, Nat.succ_pos 3, Nat.succ_pos 3⟩,
    ⟨.decode, 32, 16, Nat.succ_pos 31, Nat.succ_pos 15⟩]

theorem slot_layout_iff_eight : SlotLayout 8 threeGroups (makeGroups 8 0 0 threeGroups) ∧
    engineGpuOffsets 8 (makeGroups 8 0 0 threeGroups) = [0, 4, 12, 28] ∧
    engineGpuCounts 8 (makeGroups 8 0 0 threeGroups) = [4, 4, 16, 16] :=
  ⟨(slot_layout_iff (Nat.succ_pos 7) 0 0 threeGroups).2 (by decide), by decide, by decide⟩

/-- Engines of 12 GPUs on nodes of 8: the second is placed at slot 8 and reported at slot 12. -/
theorem not_slotLayout_twelve : ¬SlotLayout 8 [twoOfTwelve] (makeGroups 8 0 0 [twoOfTwelve]) := by
  intro layout
  obtain ⟨here, -⟩ := List.forall₂_cons.1 layout.each
  have placed := here.placed 1 1 12 (by decide) (by decide)
  exact absurd placed (by decide)

end SlimeBoard.ServerGroups
