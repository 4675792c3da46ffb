import SlimeBoard.Lib.PyDict
import SlimeBoard.Rollout.ServerGroups

/-!
# The ports of the rollout engines

`start_rollout_servers` starts the server groups of each model one after the other. Each start asks the
nodes of its engines for free ports, from a cursor for each node that the group counts for itself. The
largest cursor goes to the next group of the model. A probe does not know of ports that were handed out
and are not bound yet.
-/

namespace SlimeBoard.PortAllocation

open ServerGroups

structure Args where
  numGpusPerNode : Nat
  sglangDpSize : Nat
  patch : Bool
  -- with none the code divides by zero
  some_gpus : 0 < numGpusPerNode

structure ModelConfig where
  serverGroups : List ServerGroupConfig

/-- The keys of `addr_and_ports` that name a port. -/
inductive Key where
  | port
  | ncclPort
  | disaggregationBootstrapPort
  | distInitAddr
  deriving DecidableEq

/-- A call of the free-port probe: for which start of a group, which rank and which key. -/
structure Call where
  launch : Nat
  rank : Nat
  key : Key
  deriving DecidableEq

/-- What `addr_and_ports` holds for a key. -/
structure Entry where
  call : Call
  /-- the rank of the engine that was asked; the address is that of its node -/
  host : Nat
  /-- the first port -/
  port : Nat

/-- The exceptions that end a run. -/
inductive Failure where
  | assertionError
  | unboundLocalError
  | indexError
  deriving DecidableEq

abbrev AddrAndPorts := Dict (Nat × Key) Entry

section Code

variable (args : Args)

/-- The number of consecutive ports of a key. -/
def consecutive : Key → Nat
  | .distInitAddr => 30 + args.sglangDpSize
  | _ => 1

/-- The port after the last one. -/
def Entry.stop (entry : Entry) : Nat := entry.port + consecutive args entry.call.key

def numEnginesPerNode (group : ServerGroup) : Nat := max 1 (args.numGpusPerNode / group.numGpusPerEngine)

def portKeys (workerType : WorkerType) : List Key :=
  [.port, .ncclPort] ++ if workerType = .prefill then [.disaggregationBootstrapPort] else []

/-- The calls of `get_port` for the node of an engine, in order. -/
def nodeCalls (launch : Nat) (group : ServerGroup) (rank numEnginesOnThisNode : Nat) : List Call :=
  ((List.range numEnginesOnThisNode).flatMap fun i => (portKeys group.workerType).map fun key => ⟨launch, rank + i, key⟩) ++
    if args.numGpusPerNode < group.numGpusPerEngine then
      -- the first node of the engine has the address of all its nodes
      if (rank - group.rankOffset) % (group.numGpusPerEngine / args.numGpusPerNode) = 0 then [⟨launch, rank, .distInitAddr⟩]
      else []
    else (List.range numEnginesOnThisNode).map fun i => ⟨launch, rank + i, .distInitAddr⟩

/-- The ranks that get the port of a call. -/
def ranks (group : ServerGroup) (call : Call) : List Nat :=
  if call.key = .distInitAddr ∧ args.numGpusPerNode < group.numGpusPerEngine then
    (List.range (group.numGpusPerEngine / args.numGpusPerNode)).map (call.rank + ·)
  else [call.rank]

/-- `addr_and_ports[rank][key] = ..`, for each rank that gets the port -/
def assign (group : ServerGroup) (addrAndPorts : AddrAndPorts) (entry : Entry) : AddrAndPorts :=
  (ranks args group entry.call).foldl (fun addrAndPorts rank => addrAndPorts.insert (rank, entry.call.key) entry) addrAndPorts

/-- The state of `_allocate_rollout_engine_addr_and_ports_normal`. -/
structure Allocation where
  addrAndPorts : AddrAndPorts
  nodePortCursor : Dict Nat Nat
  visitedNodes : List Nat

variable (probe : Call → Nat → Nat)

/-- The closure `port` of a node: each call goes on from the port after the last one. -/
def getPorts (host : Nat) : Nat → List Call → List Entry × Nat
  | startPort, [] => ([], startPort)
  | startPort, call :: calls =>
    let port := probe call startPort
    let rest := getPorts host (port + consecutive args call.key) calls
    (⟨call, host, port⟩ :: rest.1, rest.2)

/-- The loop body, for the engine of a rank. -/
def allocateNode (launch : Nat) (group : ServerGroup) (basePort : Nat) (state : Allocation) (rank : Nat) : Allocation :=
  let localRank := rank - group.rankOffset
  let nodeIndex := localRank / numEnginesPerNode args group
  if nodeIndex ∈ state.visitedNodes then state
  else
    let numEnginesOnThisNode := numEnginesPerNode args group - localRank % numEnginesPerNode args group
    let ports := getPorts args probe rank ((state.nodePortCursor.lookup nodeIndex).getD basePort)
      (nodeCalls args launch group rank numEnginesOnThisNode)
    { addrAndPorts := ports.1.foldl (assign args group) state.addrAndPorts
      nodePortCursor := state.nodePortCursor.insert nodeIndex ports.2
      visitedNodes := nodeIndex :: state.visitedNodes }

def allocateNodes (launch : Nat) (group : ServerGroup) (basePort : Nat) (rolloutEngines : List Nat) : Allocation :=
  rolloutEngines.foldl (allocateNode args probe launch group basePort) ⟨∅, ∅, []⟩

def allocateRolloutEngineAddrAndPortsNormal (launch : Nat) (group : ServerGroup) (rolloutEngines : List Nat) (basePort : Nat) :
    Except Failure (AddrAndPorts × Dict Nat Nat) :=
  let state := allocateNodes args probe launch group basePort rolloutEngines
  if ∀ rank ∈ rolloutEngines, ∀ key ∈ [Key.port, .ncclPort, .distInitAddr], (rank, key) ∈ state.addrAndPorts then
    .ok (state.addrAndPorts, state.nodePortCursor)
  else .error .assertionError

def basePort (portCursors : Dict Nat Nat) : Nat :=
  if args.patch then 17000 else ((portCursors.entries.map (·.2)).max?).getD 15000

def startEngines (launch : Nat) (group : ServerGroup) (portCursors : Dict Nat Nat) :
    Except Failure (AddrAndPorts × Dict Nat Nat) :=
  if group.size = 0 then .ok (∅, portCursors)
  else allocateRolloutEngineAddrAndPortsNormal args probe launch group ((List.range group.size).map (group.rankOffset + ·))
    (basePort args portCursors)

/-- A group that was started. -/
structure Started where
  model : Nat
  group : ServerGroup
  addrAndPorts : AddrAndPorts

/-- The groups of a model, in the order they are started. -/
def startGroups (model : Nat) : Nat → Dict Nat Nat → List ServerGroup → List Started × Option Failure
  | _, _, [] => ([], none)
  | launch, portCursors, group :: groups =>
    match startEngines args probe launch group portCursors with
    | .error failure => ([], some failure)
    | .ok (addrAndPorts, portCursors) =>
      let rest := startGroups model (launch + 1) portCursors groups
      (⟨model, group, addrAndPorts⟩ :: rest.1, rest.2)

end Code

namespace ModelConfig

def hasEncoderDisaggregation (config : ModelConfig) : Bool := config.serverGroups.any (·.workerType = .encoder)

/-- The groups in the order they are made and started: encoders first. -/
def ordered (config : ModelConfig) : List ServerGroupConfig :=
  if config.hasEncoderDisaggregation then
    config.serverGroups.filter (·.workerType = .encoder) ++ config.serverGroups.filter (·.workerType ≠ .encoder)
  else config.serverGroups

/-- The increments of `engine_offset` and `gpu_offset`. -/
def engines (args : Args) (config : ModelConfig) : Nat := (config.serverGroups.map (numEngines args.numGpusPerNode)).sum

def totalNumGpus (config : ModelConfig) : Nat := (config.serverGroups.map (·.numGpus)).sum

end ModelConfig

section Code

variable (args : Args)

/-- `args.engine_addr = ..`, on the group that the loop variable holds -/
def engineAddr (config : ModelConfig) (group : Option ServerGroup) : Option Failure :=
  if config.hasEncoderDisaggregation then none
  else match group with
    | none => some .unboundLocalError
    | some group => if (group.engines args.numGpusPerNode)[0]?.isSome then none else some .indexError

variable (probe : Call → Nat → Nat)

/-- The loop over the models, on the number of groups started and the offsets; `group` is the last value of
the loop variable. -/
def startModels : Nat → Nat → Nat → Nat → Option ServerGroup → List ModelConfig → List Started × Option Failure
  | _, _, _, _, _, [] => ([], none)
  | model, launch, engineOffset, gpuOffset, group, config :: configs =>
    let groups := makeGroups args.numGpusPerNode engineOffset gpuOffset config.ordered
    let started := startGroups args probe model launch ∅ groups
    let group := groups.getLast? <|> group
    match started.2 <|> engineAddr args config group with
    | some failure => (started.1, some failure)
    | none =>
      let rest := startModels (model + 1) (launch + groups.length) (engineOffset + config.engines args)
        (gpuOffset + config.totalNumGpus) group configs
      (started.1 ++ rest.1, rest.2)

def startRolloutServers (models : List ModelConfig) : List Started × Option Failure :=
  startModels args probe 0 0 0 0 none models

end Code

/-! ## The property -/

section Property

variable (args : Args)

/-- The GPU slot of process `i` of a group. -/
def slot (group : ServerGroup) (i : Nat) : Nat :=
  group.gpuOffset + i * numGpuPerEngineLocal args.numGpusPerNode group.numGpusPerEngine

/-- Process `i` of a group binds the ports of an entry. The ports at `dist_init_addr` are bound by the
first process of an engine. -/
structure Binds (started : Started) (i : Nat) (entry : Entry) : Prop where
  process : i < started.group.size
  rank : entry.call.rank = started.group.rankOffset + i
  assigned : started.addrAndPorts.lookup (started.group.rankOffset + i, entry.call.key) = some entry

variable {ν : Type} (place : Nat → ν)

/-- The engines have their keys, and no port of a node is bound twice. `place` is the node of a slot. -/
structure CollisionFree (run : List Started × Option Failure) : Prop where
  asserted : run.2 ≠ some .assertionError
  keys : ∀ started ∈ run.1, ∀ i < started.group.size, ∀ key ∈ portKeys started.group.workerType ++ [.distInitAddr],
    (started.group.rankOffset + i, key) ∈ started.addrAndPorts
  disjoint : ∀ started ∈ run.1, ∀ started' ∈ run.1, ∀ (i i' : Nat) (entry entry' : Entry),
    Binds started i entry → Binds started' i' entry' →
    place (slot args started.group i) = place (slot args started'.group i') → entry.call ≠ entry'.call →
    entry.stop args ≤ entry'.port ∨ entry'.stop args ≤ entry.port

/-- A probe goes forward, and knows the servers that were waited for: those of the models before, and
the encoders before. -/
structure Lawful (models : List ModelConfig) (probe : Call → Nat → Nat) : Prop where
  forward : ∀ call startPort, startPort ≤ probe call startPort
  listening : ∀ (launch launch' : Nat) (started started' : Started),
    (startRolloutServers args probe models).1[launch]? = some started →
    (startRolloutServers args probe models).1[launch']? = some started' →
    launch' < launch → started'.model < started.model ∨ started'.group.workerType = .encoder →
    ∀ (key : Nat × Key) (entry : Entry) (i' : Nat) (entry' : Entry), started.addrAndPorts.lookup key = some entry →
      Binds started' i' entry' → entry'.call.key = .port →
      place (slot args started.group (entry.host - started.group.rankOffset)) = place (slot args started'.group i') →
      ¬(entry.port ≤ entry'.port ∧ entry'.port < entry.stop args)

/-- The groups that are started, with their models. -/
def planModels : Nat → Nat → Nat → Option ServerGroup → List ModelConfig → List (Nat × ServerGroup)
  | _, _, _, _, [] => []
  | model, engineOffset, gpuOffset, group, config :: configs =>
    let groups := makeGroups args.numGpusPerNode engineOffset gpuOffset config.ordered
    let group := groups.getLast? <|> group
    groups.map (model, ·) ++
      match engineAddr args config group with
      | some _ => []
      | none => planModels (model + 1) (engineOffset + config.engines args) (gpuOffset + config.totalNumGpus) group configs

/-- Two processes on a node are of one model, and of one of the nodes that their group counts; processes of
two groups share a node only without `patch`. -/
def Separate (plan : List (Nat × ServerGroup)) : Prop :=
  ∀ (launch launch' model model' : Nat) (group group' : ServerGroup) (i i' : Nat),
    plan[launch]? = some (model, group) → plan[launch']? = some (model', group') → i < group.size → i' < group'.size →
    place (slot args group i) = place (slot args group' i') →
    model = model' ∧ (launch = launch' → i / numEnginesPerNode args group = i' / numEnginesPerNode args group') ∧
      (launch ≠ launch' → args.patch = false)

end Property

/-! ## The ports of a node -/

section Node

variable {args : Args} {probe : Call → Nat → Nat} {host : Nat}

theorem calls_getPorts (startPort : Nat) (calls : List Call) :
    (getPorts args probe host startPort calls).1.map Entry.call = calls := by
  induction calls generalizing startPort with
  | nil => rfl
  | cons call calls ih => rw [getPorts, List.map_cons, ih]

theorem mem_calls {startPort : Nat} {calls : List Call} {entry : Entry}
    (mem : entry ∈ (getPorts args probe host startPort calls).1) : entry.call ∈ calls := by
  rw [← @calls_getPorts args probe host startPort calls]
  exact List.mem_map_of_mem mem

/-- **The ports of a node follow one another.** -/
theorem getPorts_follow (forward : ∀ call startPort, startPort ≤ probe call startPort) (startPort : Nat) (calls : List Call) :
    startPort ≤ (getPorts args probe host startPort calls).2 ∧
      (∀ entry ∈ (getPorts args probe host startPort calls).1, startPort ≤ entry.port ∧
        entry.stop args ≤ (getPorts args probe host startPort calls).2) ∧
      (getPorts args probe host startPort calls).1.Pairwise fun entry entry' => entry.stop args ≤ entry'.port := by
  induction calls generalizing startPort with
  | nil => exact ⟨Nat.le_refl _, fun entry mem => absurd mem List.not_mem_nil, List.Pairwise.nil⟩
  | cons call calls ih =>
    have start := forward call startPort
    obtain ⟨reach, bounds, follow⟩ := ih (probe call startPort + consecutive args call.key)
    rw [getPorts]
    dsimp only
    refine ⟨by omega, ?_, List.pairwise_cons.2 ⟨fun entry mem => (bounds entry mem).1, follow⟩⟩
    intro entry mem
    rcases List.mem_cons.1 mem with rfl | mem
    · exact ⟨start, reach⟩
    · have := bounds entry mem
      exact ⟨by omega, this.2⟩

/-- Entries of a node for different calls do not overlap. -/
theorem getPorts_disjoint (forward : ∀ call startPort, startPort ≤ probe call startPort) {startPort : Nat} {calls : List Call}
    {entry entry' : Entry} (mem : entry ∈ (getPorts args probe host startPort calls).1)
    (mem' : entry' ∈ (getPorts args probe host startPort calls).1) (differ : entry.call ≠ entry'.call) :
    entry.stop args ≤ entry'.port ∨ entry'.stop args ≤ entry.port := by
  obtain ⟨-, -, follow⟩ := @getPorts_follow args probe host forward startPort calls
  obtain ⟨a, ha, rfl⟩ := List.mem_iff_getElem.1 mem
  obtain ⟨b, hb, rfl⟩ := List.mem_iff_getElem.1 mem'
  rcases Nat.lt_trichotomy a b with before | same | after
  · exact Or.inl (List.pairwise_iff_getElem.1 follow a b ha hb before)
  · subst same
    exact absurd rfl differ
  · exact Or.inr (List.pairwise_iff_getElem.1 follow b a hb ha after)

end Node

/-! ## The nodes of a group -/

section Assign

variable {args : Args} {group : ServerGroup}

theorem lookup_assign (addrAndPorts : AddrAndPorts) (entry : Entry) (rank : Nat) (key : Key) :
    (assign args group addrAndPorts entry).lookup (rank, key) =
      if key = entry.call.key ∧ rank ∈ ranks args group entry.call then some entry else addrAndPorts.lookup (rank, key) := by
  unfold assign
  generalize ranks args group entry.call = all
  induction all generalizing addrAndPorts with
  | nil => rw [if_neg fun h => List.not_mem_nil h.2, List.foldl_nil]
  | cons first all ih =>
    rw [List.foldl_cons, ih, Dict.lookup_insert]
    by_cases here : (rank, key) = (first, entry.call.key)
    · rw [if_pos here]
      obtain ⟨rfl, rfl⟩ := Prod.mk.inj here
      rw [ite_self]
      exact (if_pos ⟨rfl, List.mem_cons_self ..⟩).symm
    · rw [if_neg here]
      refine if_congr ⟨fun h => ⟨h.1, List.mem_cons_of_mem _ h.2⟩, ?_⟩ rfl rfl
      rintro ⟨rfl, mem⟩
      rcases List.mem_cons.1 mem with rfl | mem
      · exact absurd rfl here
      · exact ⟨rfl, mem⟩

/-- What is assigned is one of the entries, to one of its ranks. -/
theorem assign_sound {addrAndPorts : AddrAndPorts} {entries : List Entry} {rank : Nat} {key : Key} {entry : Entry}
    (here : (entries.foldl (assign args group) addrAndPorts).lookup (rank, key) = some entry) :
    (entry ∈ entries ∧ key = entry.call.key ∧ rank ∈ ranks args group entry.call) ∨
      addrAndPorts.lookup (rank, key) = some entry := by
  induction entries generalizing addrAndPorts with
  | nil => exact Or.inr here
  | cons first entries ih =>
    rw [List.foldl_cons] at here
    rcases ih here with ⟨mem, own⟩ | before
    · exact Or.inl ⟨List.mem_cons_of_mem _ mem, own⟩
    · rw [lookup_assign] at before
      split at before
      · obtain rfl := Option.some.inj before
        exact Or.inl ⟨List.mem_cons_self .., ‹_›⟩
      · exact Or.inr before

/-- The ranks of the entries have their keys, and those that had one keep it. -/
theorem assign_complete {addrAndPorts : AddrAndPorts} {entries : List Entry} {rank : Nat} {key : Key}
    (has : (∃ entry ∈ entries, key = entry.call.key ∧ rank ∈ ranks args group entry.call) ∨ (rank, key) ∈ addrAndPorts) :
    (rank, key) ∈ entries.foldl (assign args group) addrAndPorts := by
  induction entries generalizing addrAndPorts with
  | nil =>
    obtain ⟨entry, mem, -⟩ | before := has
    · exact absurd mem List.not_mem_nil
    · exact before
  | cons first entries ih =>
    rw [List.foldl_cons]
    have now (h : (key = first.call.key ∧ rank ∈ ranks args group first.call) ∨ (rank, key) ∈ addrAndPorts) :
        (rank, key) ∈ assign args group addrAndPorts first := by
      rw [← AList.lookup_isSome, lookup_assign]
      split
      · rfl
      · exact AList.lookup_isSome.2 (h.resolve_left ‹_›)
    rcases has with ⟨entry, mem, own⟩ | before
    · rcases List.mem_cons.1 mem with rfl | mem
      · exact ih (Or.inr (now (Or.inl own)))
      · exact ih (Or.inl ⟨entry, mem, own⟩)
    · exact ih (Or.inr (now (Or.inr before)))

end Assign

section Group

variable (args : Args) (probe : Call → Nat → Nat) (launch : Nat) (group : ServerGroup) (basePort : Nat)

/-- The calls for the node of index `v`. -/
def callsOf (v : Nat) : List Call :=
  nodeCalls args launch group (group.rankOffset + v * numEnginesPerNode args group) (numEnginesPerNode args group)

/-- The ports of the node of index `v`. -/
def portsOf (v : Nat) : List Entry × Nat :=
  getPorts args probe (group.rankOffset + v * numEnginesPerNode args group) basePort (callsOf args launch group v)

/-- The state of the loop after the first `n` engines. -/
structure Allocated (n : Nat) (state : Allocation) : Prop where
  visited : ∀ v, v ∈ state.visitedNodes ↔ v * numEnginesPerNode args group < n
  cursor : ∀ v c, state.nodePortCursor.lookup v = some c ↔
    v * numEnginesPerNode args group < n ∧ c = (portsOf args probe launch group basePort v).2
  sound : ∀ rank key entry, state.addrAndPorts.lookup (rank, key) = some entry →
    key = entry.call.key ∧ rank ∈ ranks args group entry.call ∧
      ∃ v, v * numEnginesPerNode args group < n ∧ entry ∈ (portsOf args probe launch group basePort v).1
  complete : ∀ v, v * numEnginesPerNode args group < n → ∀ call ∈ callsOf args launch group v,
    ∀ rank ∈ ranks args group call, (rank, call.key) ∈ state.addrAndPorts

end Group

section Group

variable {args : Args} {probe : Call → Nat → Nat} {launch : Nat} {group : ServerGroup} {basePort : Nat}

theorem numEnginesPerNode_pos : 0 < numEnginesPerNode args group := Nat.lt_of_lt_of_le Nat.one_pos (Nat.le_max_left ..)

theorem Allocated.step {n : Nat} {state : Allocation} (done : Allocated args probe launch group basePort n state) :
    Allocated args probe launch group basePort (n + 1)
      (allocateNode args probe launch group basePort state (group.rankOffset + n)) := by
  have pos := @numEnginesPerNode_pos args group
  unfold allocateNode
  dsimp only
  rw [Nat.add_sub_cancel_left]
  by_cases old : n / numEnginesPerNode args group * numEnginesPerNode args group < n
  · -- the node of the engine has its ports
    have same (v : Nat) : v * numEnginesPerNode args group < n + 1 ↔ v * numEnginesPerNode args group < n := by
      refine ⟨fun lt => Nat.lt_of_le_of_ne (Nat.le_of_lt_succ lt) ?_, Nat.lt_succ_of_lt⟩
      rintro rfl
      rw [Nat.mul_div_cancel _ pos] at old
      exact absurd old (Nat.lt_irrefl _)
    rw [if_pos ((done.visited _).2 old)]
    constructor
    · simpa only [same] using done.visited
    · simpa only [same] using done.cursor
    · simpa only [same] using done.sound
    · simpa only [same] using done.complete
  · rw [if_neg fun visited => old ((done.visited _).1 visited)]
    have first : n = n / numEnginesPerNode args group * numEnginesPerNode args group :=
      Nat.le_antisymm (Nat.not_lt.1 old) (Nat.div_mul_le_self ..)
    generalize n / numEnginesPerNode args group = v at first old
    subst first
    have here : (state.nodePortCursor.lookup v).getD basePort = basePort := by
      rcases cursor : state.nodePortCursor.lookup v with _ | c
      · rfl
      · exact absurd ((done.cursor v c).1 cursor).1 old
    have now : getPorts args probe (group.rankOffset + v * numEnginesPerNode args group)
        ((state.nodePortCursor.lookup v).getD basePort)
        (nodeCalls args launch group (group.rankOffset + v * numEnginesPerNode args group)
          (numEnginesPerNode args group - v * numEnginesPerNode args group % numEnginesPerNode args group)) =
        portsOf args probe launch group basePort v := by
      rw [here, Nat.mul_mod_left, Nat.sub_zero]
      rfl
    have next (v' : Nat) : v' * numEnginesPerNode args group < v * numEnginesPerNode args group + 1 ↔
        v' = v ∨ v' * numEnginesPerNode args group < v * numEnginesPerNode args group := by
      rw [Nat.lt_succ_iff, Nat.mul_le_mul_right_iff pos, Nat.mul_lt_mul_right pos]
      omega
    rw [now]
    constructor
    · intro v'
      rw [List.mem_cons, done.visited, next]
    · intro v' c
      rw [Dict.lookup_insert, next]
      split
      · subst ‹v' = v›
        exact ⟨fun same => ⟨Or.inl rfl, (Option.some.inj same).symm⟩, fun h => congrArg some h.2.symm⟩
      · rw [done.cursor, or_iff_right ‹_›]
    · intro rank key entry found
      rcases assign_sound found with ⟨mem, own⟩ | before
      · exact ⟨own.1, own.2, v, (next v).2 (Or.inl rfl), mem⟩
      · obtain ⟨same, own, v', lt, mem⟩ := done.sound rank key entry before
        exact ⟨same, own, v', (next v').2 (Or.inr lt), mem⟩
    · intro v' lt call mem rank own
      apply assign_complete
      rcases (next v').1 lt with rfl | lt
      · rw [← calls_getPorts  basePort (callsOf args launch group v')] at mem
        obtain ⟨entry, mem, rfl⟩ := List.mem_map.1 mem
        exact Or.inl ⟨entry, mem, rfl, own⟩
      · exact Or.inr (done.complete v' lt call mem rank own)

/-- **The loop over the engines of a group.** -/
theorem allocated (n : Nat) : Allocated args probe launch group basePort n
    (allocateNodes args probe launch group basePort ((List.range n).map (group.rankOffset + ·))) := by
  induction n with
  | zero =>
    constructor
    · intro v
      exact iff_of_false List.not_mem_nil (Nat.not_lt_zero _)
    · intro v c
      exact iff_of_false (by rintro ⟨⟩) fun h => Nat.not_lt_zero _ h.1
    · rintro rank key entry ⟨⟩
    · intro v lt
      exact absurd lt (Nat.not_lt_zero _)
  | succ n ih =>
    rw [List.range_succ, List.map_append, allocateNodes, List.foldl_append]
    exact ih.step

theorem ranks_single {call : Call} (own : call.key ≠ .distInitAddr ∨ group.numGpusPerEngine ≤ args.numGpusPerNode) :
    ranks args group call = [call.rank] := by
  refine if_neg ?_
  rintro ⟨dist, large⟩
  rcases own with other | small
  · exact other dist
  · exact absurd large (Nat.not_lt.2 small)

theorem not_dist_of_portKeys {workerType : WorkerType} {key : Key} (mem : key ∈ portKeys workerType) : key ≠ .distInitAddr := by
  rintro rfl
  rw [portKeys] at mem
  split at mem
  · revert mem
    decide
  · revert mem
    decide

/-- An engine that spans nodes is alone on each of them. -/
theorem numEnginesPerNode_of_lt (large : args.numGpusPerNode < group.numGpusPerEngine) : numEnginesPerNode args group = 1 := by
  rw [numEnginesPerNode, Nat.div_eq_of_lt large]
  rfl

/-- **Every engine of a group gets its keys.** -/
theorem has_keys {i : Nat} (lt : i < group.size) {key : Key} (mem : key ∈ portKeys group.workerType ++ [.distInitAddr]) :
    (group.rankOffset + i, key) ∈ (allocateNodes args probe launch group basePort
      ((List.range group.size).map (group.rankOffset + ·))).addrAndPorts := by
  have done := @allocated args probe launch group basePort group.size
  have pos := @numEnginesPerNode_pos args group
  have split : i / numEnginesPerNode args group * numEnginesPerNode args group + i % numEnginesPerNode args group = i :=
    Nat.div_add_mod' ..
  have node : i / numEnginesPerNode args group * numEnginesPerNode args group < group.size :=
    (Nat.div_mul_le_self ..).trans_lt lt
  have inside := List.mem_range.2 (Nat.mod_lt i pos)
  have rank : group.rankOffset + i / numEnginesPerNode args group * numEnginesPerNode args group +
      i % numEnginesPerNode args group = group.rankOffset + i := by rw [Nat.add_assoc, split]
  rcases List.mem_append.1 mem with port | dist
  · refine done.complete _ node ⟨launch, group.rankOffset + i, key⟩ ?_ _ ?_
    · refine List.mem_append_left _ (List.mem_flatMap.2 ⟨_, inside, ?_⟩)
      rw [rank]
      exact List.mem_map_of_mem port
    · rw [ranks_single (Or.inl (not_dist_of_portKeys port))]
      exact List.mem_singleton_self _
  · obtain rfl := List.mem_singleton.1 dist
    rcases Nat.lt_or_ge args.numGpusPerNode group.numGpusPerEngine with large | small
    · -- the address is that of the first node of the engine
      have nodes : 0 < group.numGpusPerEngine / args.numGpusPerNode := Nat.div_pos large.le args.some_gpus
      have one := numEnginesPerNode_of_lt large
      have whole := Nat.div_add_mod' i (group.numGpusPerEngine / args.numGpusPerNode)
      have part := Nat.mod_lt i nodes
      generalize head : i / (group.numGpusPerEngine / args.numGpusPerNode) *
        (group.numGpusPerEngine / args.numGpusPerNode) = v at whole
      refine done.complete v (by rw [one]; omega) ⟨launch, group.rankOffset + v, .distInitAddr⟩ ?_ _ ?_
      · rw [callsOf, one, Nat.mul_one, nodeCalls, if_pos large, Nat.add_sub_cancel_left, ← head, Nat.mul_mod_left, if_pos rfl]
        exact List.mem_append_right _ (List.mem_singleton_self _)
      · rw [ranks, if_pos ⟨rfl, large⟩]
        refine List.mem_map.2 ⟨i % (group.numGpusPerEngine / args.numGpusPerNode), List.mem_range.2 part, ?_⟩
        show group.rankOffset + v + _ = _
        omega
    · refine done.complete _ node ⟨launch, group.rankOffset + i, .distInitAddr⟩ ?_ _ ?_
      · rw [callsOf, nodeCalls, if_neg (Nat.not_lt.2 small)]
        refine List.mem_append_right _ (List.mem_map.2 ⟨_, inside, ?_⟩)
        rw [rank]
      · rw [ranks_single (Or.inr small)]
        exact List.mem_singleton_self _

end Group

/-! ## The groups of a model -/

section Groups

variable {args : Args} {probe : Call → Nat → Nat}

/-- What a group is started with. -/
def allocation (args : Args) (probe : Call → Nat → Nat) (launch : Nat) (group : ServerGroup) (basePort : Nat) : Allocation :=
  allocateNodes args probe launch group basePort ((List.range group.size).map (group.rankOffset + ·))

/-- The base port of the next group. -/
def nextBase (args : Args) (probe : Call → Nat → Nat) (launch : Nat) (group : ServerGroup) (base : Nat) : Nat :=
  if group.size = 0 then base else basePort args (allocation args probe launch group base).nodePortCursor

theorem startEngines_ok (launch : Nat) (group : ServerGroup) (portCursors : Dict Nat Nat) :
    ∃ portCursors', startEngines args probe launch group portCursors =
        .ok ((allocation args probe launch group (basePort args portCursors)).addrAndPorts, portCursors') ∧
      basePort args portCursors' = nextBase args probe launch group (basePort args portCursors) := by
  unfold startEngines nextBase
  by_cases none : group.size = 0
  · rw [if_pos none, if_pos none]
    refine ⟨portCursors, ?_, rfl⟩
    rw [allocation, none]
    rfl
  · rw [if_neg none, if_neg none, allocateRolloutEngineAddrAndPortsNormal]
    refine ⟨_, if_pos ?_, rfl⟩
    intro rank engine key mem
    obtain ⟨i, inside, rfl⟩ := List.mem_map.1 engine
    refine has_keys (List.mem_range.1 inside) ?_
    rw [portKeys]
    simp only [List.mem_cons, List.not_mem_nil, or_false] at mem
    rcases mem with rfl | rfl | rfl
    · simp
    · simp
    · simp

/-- The groups that start before a group of the same model decide its base port. -/
def baseOf (args : Args) (probe : Call → Nat → Nat) (plan : List (Nat × ServerGroup)) : Nat → Nat
  | 0 => basePort args ∅
  | launch + 1 =>
    match plan[launch]?, plan[launch + 1]? with
    | some (model, group), some (model', _) =>
      if model = model' then nextBase args probe launch group (baseOf args probe plan launch) else basePort args ∅
    | _, _ => basePort args ∅

theorem baseOf_same {plan : List (Nat × ServerGroup)} {launch model : Nat} {group group' : ServerGroup}
    (here : plan[launch]? = some (model, group)) (next : plan[launch + 1]? = some (model, group')) :
    baseOf args probe plan (launch + 1) = nextBase args probe launch group (baseOf args probe plan launch) := by
  rw [baseOf, here, next]
  exact if_pos rfl

theorem baseOf_fresh {plan : List (Nat × ServerGroup)} {launch model : Nat} {group : ServerGroup}
    (here : plan[launch]? = some (model, group))
    (first : ∀ launch' model' group', launch' < launch → plan[launch']? = some (model', group') → model' ≠ model) :
    baseOf args probe plan launch = basePort args ∅ := by
  cases launch with
  | zero => rfl
  | succ launch =>
    rw [baseOf, here]
    rcases before : plan[launch]? with _ | ⟨model', group'⟩
    · rfl
    · exact if_neg (first launch model' group' (Nat.lt_succ_self _) before)

/-- The groups of a model are started with their base ports. -/
theorem startGroups_eq {plan : List (Nat × ServerGroup)} {model : Nat} (groups : List ServerGroup) {launch : Nat}
    {portCursors : Dict Nat Nat} {rest : List (Nat × ServerGroup)} (here : plan.drop launch = groups.map (model, ·) ++ rest)
    (base : groups ≠ [] → basePort args portCursors = baseOf args probe plan launch) :
    startGroups args probe model launch portCursors groups = (groups.mapIdx fun k group =>
      ⟨model, group, (allocation args probe (launch + k) group (baseOf args probe plan (launch + k))).addrAndPorts⟩, none) := by
  induction groups generalizing launch portCursors with
  | nil => rfl
  | cons group groups ih =>
    have own : basePort args portCursors = baseOf args probe plan launch := base (List.cons_ne_nil _ _)
    have first : plan[launch]? = some (model, group) := by
      rw [← List.head?_drop, here]
      rfl
    have later : plan.drop (launch + 1) = groups.map (model, ·) ++ rest := by
      rw [← List.drop_drop, here]
      rfl
    obtain ⟨portCursors', started, next⟩ := @startEngines_ok args probe launch group portCursors
    rw [own] at started next
    have follow := @ih (launch + 1) portCursors' later (by
      intro more
      obtain ⟨group', groups', rfl⟩ := List.exists_cons_of_ne_nil more
      have second : plan[launch + 1]? = some (model, group') := by
        rw [← List.head?_drop, later]
        rfl
      rw [next, baseOf_same first second])
    rw [startGroups, started]
    dsimp only
    rw [follow, List.mapIdx_cons]
    refine congrArg (fun all => (_ :: all, none)) (congrArg (List.mapIdx · groups) (funext fun k => ?_))
    rw [Nat.add_assoc, Nat.add_comm 1]

end Groups

section Models

variable {args : Args} {probe : Call → Nat → Nat}

/-- The models of the plan are counted up. -/
theorem le_model {configs : List ModelConfig} {model engineOffset gpuOffset : Nat} {group : Option ServerGroup}
    {entry : Nat × ServerGroup} (mem : entry ∈ planModels args model engineOffset gpuOffset group configs) :
    model ≤ entry.1 := by
  induction configs generalizing model engineOffset gpuOffset group with
  | nil => exact absurd mem List.not_mem_nil
  | cons config configs ih =>
    rw [planModels] at mem
    rcases List.mem_append.1 mem with here | later
    · obtain ⟨group, -, rfl⟩ := List.mem_map.1 here
      exact Nat.le_refl _
    · split at later
      · exact absurd later List.not_mem_nil
      · exact Nat.le_of_succ_le (ih later)

theorem sorted_plan (configs : List ModelConfig) (model engineOffset gpuOffset : Nat) (group : Option ServerGroup) :
    (planModels args model engineOffset gpuOffset group configs).Pairwise fun a b => a.1 ≤ b.1 := by
  induction configs generalizing model engineOffset gpuOffset group with
  | nil => exact List.Pairwise.nil
  | cons config configs ih =>
    rw [planModels]
    rw [List.pairwise_append]
    refine ⟨?_, ?_, ?_⟩
    · rw [List.pairwise_map]
      exact List.pairwise_of_forall fun _ _ => Nat.le_refl _
    · split
      · exact List.Pairwise.nil
      · exact ih _ _ _ _
    · intro entry here entry' later
      obtain ⟨group, -, rfl⟩ := List.mem_map.1 here
      split at later
      · exact absurd later List.not_mem_nil
      · exact Nat.le_of_succ_le (le_model later)

theorem engineAddr_ne (config : ModelConfig) (group : Option ServerGroup) :
    engineAddr args config group ≠ some .assertionError := by
  unfold engineAddr
  split
  · rintro ⟨⟩
  · split
    · rintro ⟨⟩
    · split
      · rintro ⟨⟩
      · rintro ⟨⟩

theorem mapIdx_map {α β γ : Type} (f : α → β) (g : Nat → β → γ) (xs : List α) :
    (xs.map f).mapIdx g = xs.mapIdx fun k x => g k (f x) := by
  apply List.ext_getElem?
  intro k
  simp only [List.getElem?_mapIdx, List.getElem?_map, Option.map_map]
  rfl

/-- **The groups of the plan are started with their base ports.** -/
theorem startModels_eq {plan : List (Nat × ServerGroup)} (configs : List ModelConfig)
    {model launch engineOffset gpuOffset : Nat} {group : Option ServerGroup}
    (here : plan.drop launch = planModels args model engineOffset gpuOffset group configs)
    (before : ∀ launch' model' group', launch' < launch → plan[launch']? = some (model', group') → model' < model) :
    (startModels args probe model launch engineOffset gpuOffset group configs).1 =
        (planModels args model engineOffset gpuOffset group configs).mapIdx (fun k entry => ⟨entry.1, entry.2,
          (allocation args probe (launch + k) entry.2 (baseOf args probe plan (launch + k))).addrAndPorts⟩) ∧
      (startModels args probe model launch engineOffset gpuOffset group configs).2 ≠ some .assertionError := by
  induction configs generalizing model launch engineOffset gpuOffset group with
  | nil => exact ⟨rfl, by rintro ⟨⟩⟩
  | cons config configs ih =>
    rw [planModels] at here ⊢
    rw [startModels]
    dsimp only at here ⊢
    generalize makeGroups args.numGpusPerNode engineOffset gpuOffset config.ordered = groups at here ⊢
    have base : groups ≠ [] → basePort args ∅ = baseOf args probe plan launch := by
      intro more
      obtain ⟨first, groups', rfl⟩ := List.exists_cons_of_ne_nil more
      refine (@baseOf_fresh args probe plan launch model first ?_ ?_).symm
      · rw [← List.head?_drop, here]
        rfl
      · intro launch' model' group' lt there
        exact (before launch' model' group' lt there).ne
    have passed (failure : Option Failure) : (none <|> failure) = failure := rfl
    rw [startGroups_eq groups here base, passed, List.mapIdx_append, mapIdx_map]
    generalize (groups.getLast? <|> group) = last at here ⊢
    rcases failed : engineAddr args config last with _ | failure
    · rw [failed] at here
      dsimp only at here ⊢
      have rest : plan.drop (launch + groups.length) = planModels args (model + 1) (engineOffset + config.engines args)
          (gpuOffset + config.totalNumGpus) last configs := by
        rw [← List.drop_drop, here, List.drop_left' (List.length_map _)]
      obtain ⟨started, asserted⟩ := ih rest (by
        intro launch' model' group' lt there
        rcases Nat.lt_or_ge launch' launch with old | new
        · exact Nat.lt_succ_of_lt (before launch' model' group' old there)
        · have own : (plan.drop launch)[launch' - launch]? = some (model', group') := by
            rw [List.getElem?_drop, Nat.add_sub_cancel' new]
            exact there
          rw [here, List.getElem?_append_left (by rw [List.length_map]; omega), List.getElem?_map] at own
          obtain ⟨group, -, same⟩ := Option.map_eq_some_iff.1 own
          rw [← (Prod.mk.inj same).1]
          exact Nat.lt_succ_self _)
      refine ⟨?_, asserted⟩
      rw [started]
      refine congrArg (_ ++ ·) (congrArg (List.mapIdx · _) (funext fun k => ?_))
      rw [List.length_map, Nat.add_assoc, Nat.add_comm k]
    · exact ⟨(List.append_nil _).symm, fun same => engineAddr_ne config last (failed.trans same)⟩

/-- The groups that a run starts. -/
def plan (args : Args) (models : List ModelConfig) : List (Nat × ServerGroup) := planModels args 0 0 0 none models

theorem started_iff {models : List ModelConfig} {launch : Nat} {started : Started} :
    (startRolloutServers args probe models).1[launch]? = some started ↔
      (plan args models)[launch]? = some (started.model, started.group) ∧ started.addrAndPorts =
        (allocation args probe launch started.group (baseOf args probe (plan args models) launch)).addrAndPorts := by
  obtain ⟨run, -⟩ := @startModels_eq args probe (plan args models) models 0 0 0 0 none rfl
    fun launch' model' group' lt => absurd lt (Nat.not_lt_zero _)
  rw [startRolloutServers, run, List.getElem?_mapIdx, Option.map_eq_some_iff]
  constructor
  · rintro ⟨entry, here, rfl⟩
    exact ⟨here, by rw [Nat.zero_add]⟩
  · rintro ⟨here, same⟩
    refine ⟨_, here, ?_⟩
    rw [Nat.zero_add, ← same]

end Models

/-! ## Processes of one model -/

section Cursors

variable {args : Args} {portCursors : Dict Nat Nat} {v c : Nat}

theorem le_basePort (patched : args.patch = false) (here : portCursors.lookup v = some c) : c ≤ basePort args portCursors := by
  rw [basePort, if_neg (by rw [patched]; exact Bool.false_ne_true)]
  apply List.le_max?_getD_of_mem
  exact List.mem_map.2 ⟨⟨v, c⟩, AList.mem_lookup_iff.1 here, rfl⟩

/-- The base port is one of the cursors. -/
theorem basePort_mem (patched : args.patch = false) (here : portCursors.lookup v = some c) :
    ∃ v', portCursors.lookup v' = some (basePort args portCursors) := by
  rw [basePort, if_neg (by rw [patched]; exact Bool.false_ne_true)]
  have some := List.isSome_max?_of_mem (List.mem_map_of_mem (f := fun entry : (_ : Nat) × Nat => entry.2) (AList.mem_lookup_iff.1 here))
  obtain ⟨most, largest⟩ := Option.isSome_iff_exists.1 some
  obtain ⟨⟨v', c'⟩, mem, rfl⟩ := List.mem_map.1 (List.max?_mem largest)
  rw [largest]
  exact ⟨v', AList.mem_lookup_iff.2 mem⟩

end Cursors

section Ordered

variable {args : Args} {probe : Call → Nat → Nat} (forward : ∀ call startPort, startPort ≤ probe call startPort)
  {launch : Nat} {group : ServerGroup} {base : Nat}

theorem mem_portsOf {key : Nat × Key} {entry : Entry}
    (here : (allocation args probe launch group base).addrAndPorts.lookup key = some entry) :
    ∃ v, v * numEnginesPerNode args group < group.size ∧ entry ∈ (portsOf args probe launch group base v).1 := by
  obtain ⟨-, -, inside⟩ := (@allocated args probe launch group base group.size).sound key.1 key.2 entry here
  exact inside

include forward in
theorem base_le_port {key : Nat × Key} {entry : Entry}
    (here : (allocation args probe launch group base).addrAndPorts.lookup key = some entry) : base ≤ entry.port := by
  obtain ⟨v, -, mem⟩ := mem_portsOf here
  exact ((getPorts_follow forward base _).2.1 entry mem).1

include forward in
/-- The next group starts behind all ports of this one. -/
theorem stop_le_nextBase (patched : args.patch = false) {key : Nat × Key} {entry : Entry}
    (here : (allocation args probe launch group base).addrAndPorts.lookup key = some entry) :
    entry.stop args ≤ nextBase args probe launch group base := by
  obtain ⟨v, lt, mem⟩ := mem_portsOf here
  have cursor := ((@allocated args probe launch group base group.size).cursor v _).2 ⟨lt, rfl⟩
  rw [nextBase, if_neg (by omega)]
  exact ((getPorts_follow forward base _).2.1 entry mem).2.trans (le_basePort patched cursor)

include forward in
theorem base_le_nextBase (patched : args.patch = false) : base ≤ nextBase args probe launch group base := by
  unfold nextBase
  split
  · exact Nat.le_refl _
  · have cursor := ((@allocated args probe launch group base group.size).cursor 0 _).2 ⟨by omega, rfl⟩
    exact (getPorts_follow forward base _).1.trans (le_basePort patched cursor)

/-- The groups of a model are not interrupted. -/
theorem between_model {models : List ModelConfig} {launch launch' model : Nat} {group group' : ServerGroup}
    (before : launch < launch') (here : (plan args models)[launch]? = some (model, group))
    (there : (plan args models)[launch' + 1]? = some (model, group')) :
    ∃ between, (plan args models)[launch']? = some (model, between) := by
  have counted : (plan args models).Pairwise fun a b => a.1 ≤ b.1 := sorted_plan models 0 0 0 none
  have sorted := List.pairwise_iff_getElem.1 counted
  obtain ⟨inside, here⟩ := List.getElem?_eq_some_iff.1 here
  obtain ⟨inside', there⟩ := List.getElem?_eq_some_iff.1 there
  have low := sorted launch launch' inside (Nat.lt_of_succ_lt inside') before
  have high := sorted launch' (launch' + 1) (Nat.lt_of_succ_lt inside') inside' (Nat.lt_succ_self _)
  rw [here] at low
  rw [there] at high
  refine ⟨((plan args models)[launch']).2, List.getElem?_eq_some_iff.2 ⟨Nat.lt_of_succ_lt inside', ?_⟩⟩
  exact Prod.ext (Nat.le_antisymm high low) rfl

include forward in
/-- **The groups of a model follow one another.** -/
theorem stop_le_baseOf (patched : args.patch = false) {models : List ModelConfig} {launch launch' model : Nat}
    {group group' : ServerGroup} (before : launch < launch') (here : (plan args models)[launch]? = some (model, group))
    (there : (plan args models)[launch']? = some (model, group')) {key : Nat × Key} {entry : Entry}
    (own : (allocation args probe launch group (baseOf args probe (plan args models) launch)).addrAndPorts.lookup key =
      some entry) : entry.stop args ≤ baseOf args probe (plan args models) launch' := by
  induction launch', before using Nat.le_induction generalizing group' with
  | base =>
    rw [baseOf_same here there]
    exact stop_le_nextBase forward patched own
  | succ launch' before ih =>
    obtain ⟨between, middle⟩ := between_model before here there
    rw [baseOf_same middle there]
    exact (ih middle).trans (base_le_nextBase forward patched)

end Ordered

section Separate

variable {args : Args} {probe : Call → Nat → Nat} {launch : Nat} {group : ServerGroup} {base v : Nat}

theorem rank_of_mem_callsOf {call : Call} (mem : call ∈ callsOf args launch group v) : call.launch = launch ∧
    ∃ i < numEnginesPerNode args group, call.rank = group.rankOffset + v * numEnginesPerNode args group + i := by
  have pos := @numEnginesPerNode_pos args group
  rcases List.mem_append.1 mem with port | dist
  · obtain ⟨i, inside, port⟩ := List.mem_flatMap.1 port
    obtain ⟨key, -, rfl⟩ := List.mem_map.1 port
    exact ⟨rfl, i, List.mem_range.1 inside, rfl⟩
  · split at dist
    · split at dist
      · obtain rfl := List.mem_singleton.1 dist
        exact ⟨rfl, 0, pos, rfl⟩
      · exact absurd dist List.not_mem_nil
    · obtain ⟨i, inside, rfl⟩ := List.mem_map.1 dist
      exact ⟨rfl, i, List.mem_range.1 inside, rfl⟩

/-- The ports of a process are ports of its node. -/
theorem mem_portsOf_process {i : Nat} {key : Nat × Key} {entry : Entry}
    (here : (allocation args probe launch group base).addrAndPorts.lookup key = some entry)
    (rank : entry.call.rank = group.rankOffset + i) :
    entry.call.launch = launch ∧ i / numEnginesPerNode args group * numEnginesPerNode args group < group.size ∧
      entry ∈ (portsOf args probe launch group base (i / numEnginesPerNode args group)).1 := by
  obtain ⟨v, lt, mem⟩ := mem_portsOf here
  obtain ⟨own, k, inside, same⟩ := rank_of_mem_callsOf (mem_calls mem)
  have node : i / numEnginesPerNode args group = v := by
    apply Nat.div_eq_of_lt_le
    · omega
    · rw [Nat.succ_mul]
      omega
  rw [node]
  exact ⟨own, lt, mem⟩

variable {ν : Type} {place : Nat → ν} {models : List ModelConfig}

/-- **Whatever the probe finds, separate processes get different ports.** -/
theorem collisionFree_of_separate (forward : ∀ call startPort, startPort ≤ probe call startPort)
    (separate : Separate args place (plan args models)) :
    CollisionFree args place (startRolloutServers args probe models) := by
  refine ⟨?_, ?_, ?_⟩
  · exact (@startModels_eq args probe (plan args models) models 0 0 0 0 none rfl
      fun launch' model' group' lt => absurd lt (Nat.not_lt_zero _)).2
  · intro started mem i lt key own
    obtain ⟨launch, here⟩ := List.mem_iff_getElem?.1 mem
    rw [(started_iff.1 here).2]
    exact has_keys lt own
  · intro started mem started' mem' i i' entry entry' binds binds' near differ
    obtain ⟨launch, here⟩ := List.mem_iff_getElem?.1 mem
    obtain ⟨launch', here'⟩ := List.mem_iff_getElem?.1 mem'
    obtain ⟨planned, ports⟩ := started_iff.1 here
    obtain ⟨planned', ports'⟩ := started_iff.1 here'
    obtain ⟨model, node, groups⟩ := separate launch launch' _ _ _ _ i i' planned planned' binds.process binds'.process near
    have assigned := binds.assigned
    have assigned' := binds'.assigned
    rw [ports] at assigned
    rw [ports'] at assigned'
    rw [← model] at planned'
    rcases Nat.lt_trichotomy launch launch' with before | same | after
    · exact Or.inl ((stop_le_baseOf forward (groups before.ne) before planned planned' assigned).trans
        (base_le_port forward assigned'))
    · subst same
      obtain rfl : started = started' := Option.some.inj (here.symm.trans here')
      obtain ⟨-, -, inside⟩ := mem_portsOf_process assigned binds.rank
      obtain ⟨-, -, inside'⟩ := mem_portsOf_process assigned' binds'.rank
      rw [node rfl] at inside
      exact getPorts_disjoint forward inside inside' differ
    · exact Or.inr ((stop_le_baseOf forward (groups after.ne') after planned' planned assigned').trans
        (base_le_port forward assigned))

end Separate

/-! ## A probe that meets -/

section Meeting

variable (args : Args) (models : List ModelConfig)

/-- More ports than a node of a group gets. -/
def width : Nat := (args.numGpusPerNode + 1) * (33 + args.sglangDpSize)

/-- Where the ports of a start lie, before the meeting port and after it. -/
def low (launch : Nat) : Nat := 17000 + width args * launch

/-- The port where two calls meet. -/
def meet : Nat := low args (plan args models).length + 1

def high (launch : Nat) : Nat := meet args models + 1 + width args * launch

/-- Special calls meet; the others keep to the range of their start. -/
def meeting (special : Call → Bool) (call : Call) (startPort : Nat) : Nat :=
  if startPort < meet args models then
    if special call then meet args models else max startPort (low args call.launch)
  else max startPort (high args models call.launch)

/-- Where the ports of an entry lie. -/
def InBand (special : Call → Bool) (launch : Nat) (entry : Entry) : Prop :=
  (low args launch ≤ entry.port ∧ entry.stop args ≤ low args (launch + 1)) ∨
    (high args models launch ≤ entry.port ∧ entry.stop args ≤ high args models (launch + 1)) ∨
    (entry.port = meet args models ∧ special entry.call = true)

/-- The ports of all calls. -/
def total (calls : List Call) : Nat := (calls.map fun call => consecutive args call.key).sum

variable {args models}

theorem low_succ (launch : Nat) : low args (launch + 1) = low args launch + width args := by
  rw [low, low, Nat.mul_succ, Nat.add_assoc]

theorem high_succ (launch : Nat) : high args models (launch + 1) = high args models launch + width args := by
  rw [high, high, Nat.mul_succ]
  exact (Nat.add_assoc ..).symm

theorem low_mono {launch launch' : Nat} (le : launch ≤ launch') : low args launch ≤ low args launch' :=
  Nat.add_le_add_left (Nat.mul_le_mul_left _ le) _

theorem high_mono {launch launch' : Nat} (le : launch ≤ launch') : high args models launch ≤ high args models launch' :=
  Nat.add_le_add_left (Nat.mul_le_mul_left _ le) _

theorem low_lt_meet {launch : Nat} (lt : launch < (plan args models).length) : low args (launch + 1) < meet args models :=
  Nat.lt_succ_of_le (low_mono lt)

theorem meet_lt_high (launch : Nat) : meet args models < high args models launch := Nat.lt_add_right _ (Nat.lt_succ_self _)

theorem forward_meeting (special : Call → Bool) (call : Call) (startPort : Nat) :
    startPort ≤ meeting args models special call startPort := by
  unfold meeting
  split
  · split
    · omega
    · exact Nat.le_max_left ..
  · exact Nat.le_max_left ..

variable {special : Call → Bool} (nccl : ∀ call, special call = true → call.key = .ncclPort)

include nccl in
/-- **The ports of a node lie in the range of its start**, unless it has a special call. -/
theorem getPorts_band {launch host used startPort : Nat} {calls : List Call} (inside : launch < (plan args models).length)
    (own : ∀ call ∈ calls, call.launch = launch)
    (start : startPort ≤ low args launch + used ∨ (meet args models < startPort ∧ startPort ≤ high args models launch + used))
    (fits : used + total args calls ≤ width args) :
    (∀ entry ∈ (getPorts args (meeting args models special) host startPort calls).1, InBand args models special launch entry) ∧
      ((getPorts args (meeting args models special) host startPort calls).2 ≤ low args launch + used + total args calls ∨
        (meet args models < (getPorts args (meeting args models special) host startPort calls).2 ∧
          (getPorts args (meeting args models special) host startPort calls).2 ≤
            high args models launch + used + total args calls ∧
          (meet args models < startPort ∨ ∃ call ∈ calls, special call = true))) := by
  induction calls generalizing startPort used with
  | nil =>
    refine ⟨fun entry mem => absurd mem List.not_mem_nil, ?_⟩
    rcases start with low | high
    · exact Or.inl low
    · exact Or.inr ⟨high.1, high.2, Or.inl high.1⟩
  | cons call calls ih =>
    have more : total args (call :: calls) = consecutive args call.key + total args calls := List.sum_cons
    have before := low_lt_meet inside
    have after := @meet_lt_high args models launch
    have wide := @low_succ args launch
    have wide' := @high_succ args models launch
    have rest : ∀ call ∈ calls, call.launch = launch := fun call mem => own call (List.mem_cons_of_mem _ mem)
    have here := own call (List.mem_cons_self ..)
    rw [getPorts]
    dsimp only
    rw [more] at fits ⊢
    rcases start with early | ⟨past, late⟩
    · have less : startPort < meet args models := by omega
      by_cases meets : special call = true
      · -- the port of a special call
        have port : meeting args models special call startPort = meet args models := by
          rw [meeting, if_pos less, if_pos meets]
        have one : consecutive args call.key = 1 := by rw [nccl call meets]; rfl
        rw [one] at fits ⊢
        rw [port]
        obtain ⟨bands, reach⟩ := @ih (used + 1) (meet args models + 1) rest (Or.inr ⟨Nat.lt_succ_self _, by omega⟩) (by omega)
        refine ⟨?_, Or.inr ?_⟩
        · intro entry mem
          rcases List.mem_cons.1 mem with rfl | mem
          · exact Or.inr (Or.inr ⟨rfl, meets⟩)
          · exact bands entry mem
        · have follow := (@getPorts_follow args _ host (@forward_meeting args models special) (meet args models + 1) calls).1
          rcases reach with low | ⟨beyond, high, -⟩
          · omega
          · exact ⟨beyond, by omega, Or.inr ⟨call, List.mem_cons_self .., meets⟩⟩
      · have port : meeting args models special call startPort = max startPort (low args launch) := by
          rw [meeting, if_pos less, if_neg meets, here]
        rw [port]
        obtain ⟨bands, reach⟩ := @ih (used + consecutive args call.key)
          (max startPort (low args launch) + consecutive args call.key) rest (Or.inl (by omega)) (by omega)
        refine ⟨?_, ?_⟩
        · intro entry mem
          rcases List.mem_cons.1 mem with rfl | mem
          · refine Or.inl ⟨Nat.le_max_right .., ?_⟩
            show max startPort (low args launch) + consecutive args call.key ≤ low args (launch + 1)
            omega
          · exact bands entry mem
        · rcases reach with low | ⟨beyond, high, past | ⟨call', mem, meets⟩⟩
          · exact Or.inl (by omega)
          · omega
          · exact Or.inr ⟨beyond, by omega, Or.inr ⟨call', List.mem_cons_of_mem _ mem, meets⟩⟩
    · have port : meeting args models special call startPort = max startPort (high args models launch) := by
        rw [meeting, if_neg (by omega), here]
      rw [port]
      obtain ⟨bands, reach⟩ := @ih (used + consecutive args call.key)
        (max startPort (high args models launch) + consecutive args call.key) rest (Or.inr (by omega)) (by omega)
      refine ⟨?_, Or.inr ?_⟩
      · intro entry mem
        rcases List.mem_cons.1 mem with rfl | mem
        · refine Or.inr (Or.inl ⟨Nat.le_max_right .., ?_⟩)
          show max startPort (high args models launch) + consecutive args call.key ≤ high args models (launch + 1)
          omega
        · exact bands entry mem
      · have follow := (@getPorts_follow args _ host (@forward_meeting args models special)
          (max startPort (high args models launch) + consecutive args call.key) calls).1
        rcases reach with low | ⟨beyond, high, -⟩
        · omega
        · exact ⟨beyond, by omega, Or.inl past⟩

/-- The first special call of a node gets the meeting port. -/
theorem port_of_special {launch host used startPort : Nat} {calls : List Call} (inside : launch < (plan args models).length)
    (own : ∀ call ∈ calls, call.launch = launch) (start : startPort ≤ low args launch + used)
    (fits : used + total args calls ≤ width args) (distinct : calls.Nodup) {x : Call} (meets : special x = true)
    (only : ∀ call ∈ calls, special call = true → call = x) {entry : Entry} (named : entry.call = x)
    (mem : entry ∈ (getPorts args (meeting args models special) host startPort calls).1) : entry.port = meet args models := by
  induction calls generalizing startPort used with
  | nil => exact absurd mem List.not_mem_nil
  | cons call calls ih =>
    have more : total args (call :: calls) = consecutive args call.key + total args calls := List.sum_cons
    have before := low_lt_meet inside
    have wide := @low_succ args launch
    have less : startPort < meet args models := by omega
    obtain ⟨fresh, distinct⟩ := List.nodup_cons.1 distinct
    by_cases here : special call = true
    · obtain rfl := only call (List.mem_cons_self ..) here
      rcases List.mem_cons.1 mem with rfl | later
      · exact (if_pos less).trans (if_pos here)
      · exact absurd (named ▸ mem_calls later) fresh
    · have port : meeting args models special call startPort = max startPort (low args launch) := by
        rw [meeting, if_pos less, if_neg here, own call (List.mem_cons_self ..)]
      rw [getPorts, port] at mem
      rcases List.mem_cons.1 mem with rfl | later
      · exact absurd ((congrArg special named).trans meets) here
      · exact @ih (used + consecutive args call.key) _ (fun call mem => own call (List.mem_cons_of_mem _ mem)) (by omega)
          (by omega) distinct (fun call mem => only call (List.mem_cons_of_mem _ mem)) later

section Calls

variable {launch v : Nat} {group : ServerGroup}

theorem total_append (calls calls' : List Call) : total args (calls ++ calls') = total args calls + total args calls' := by
  rw [total, List.map_append, List.sum_append]
  rfl

theorem total_le {calls : List Call} {most : Nat} (each : ∀ call ∈ calls, consecutive args call.key ≤ most) :
    total args calls ≤ calls.length * most := by
  rw [total, ← @List.length_map _ _ calls fun call => consecutive args call.key]
  refine List.sum_le_card_nsmul _ most ?_
  intro count mem
  obtain ⟨call, inside, rfl⟩ := List.mem_map.1 mem
  exact each call inside

theorem length_portKeys (workerType : WorkerType) : (portKeys workerType).length ≤ 3 := by
  unfold portKeys
  split <;> decide

theorem consecutive_of_portKeys {workerType : WorkerType} {key : Key} (mem : key ∈ portKeys workerType) :
    consecutive args key = 1 := by
  cases key with
  | distInitAddr => exact absurd rfl (not_dist_of_portKeys mem)
  | port => rfl
  | ncclPort => rfl
  | disaggregationBootstrapPort => rfl

theorem consecutive_le (key : Key) : consecutive args key ≤ 30 + args.sglangDpSize := by
  unfold consecutive
  split
  · exact Nat.le_refl _
  · omega

theorem total_callsOf : total args (callsOf args launch group v) ≤ width args := by
  have pos := @numEnginesPerNode_pos args group
  have few : numEnginesPerNode args group ≤ args.numGpusPerNode + 1 := by
    have := Nat.div_le_self args.numGpusPerNode group.numGpusPerEngine
    rw [numEnginesPerNode]
    omega
  have ports : total args ((List.range (numEnginesPerNode args group)).flatMap fun i => (portKeys group.workerType).map fun key =>
      ⟨launch, group.rankOffset + v * numEnginesPerNode args group + i, key⟩) ≤ numEnginesPerNode args group * 3 := by
    have one : ∀ call ∈ (List.range (numEnginesPerNode args group)).flatMap fun i => (portKeys group.workerType).map fun key =>
        (⟨launch, group.rankOffset + v * numEnginesPerNode args group + i, key⟩ : Call), consecutive args call.key ≤ 1 := by
      intro call mem
      obtain ⟨i, -, mem⟩ := List.mem_flatMap.1 mem
      obtain ⟨key, own, rfl⟩ := List.mem_map.1 mem
      exact (consecutive_of_portKeys own).le
    refine (total_le one).trans ?_
    rw [Nat.mul_one, List.length_flatMap]
    simp only [List.length_map]
    rw [List.map_const', List.sum_replicate, List.length_range, smul_eq_mul]
    exact Nat.mul_le_mul_left _ (length_portKeys _)
  have dists : ∀ calls : List Call, calls.length ≤ numEnginesPerNode args group →
      total args calls ≤ numEnginesPerNode args group * (30 + args.sglangDpSize) := by
    intro calls short
    exact (total_le fun call _ => consecutive_le call.key).trans (Nat.mul_le_mul_right _ short)
  have all : numEnginesPerNode args group * 3 + numEnginesPerNode args group * (30 + args.sglangDpSize) ≤ width args := by
    rw [← Nat.mul_add, ← Nat.add_assoc]
    exact Nat.mul_le_mul_right _ few
  rw [callsOf, nodeCalls, total_append]
  refine (Nat.add_le_add ports (dists _ ?_)).trans all
  split
  · split
    · exact pos
    · exact Nat.zero_le _
  · rw [List.length_map, List.length_range]

theorem nodup_callsOf : (callsOf args launch group v).Nodup := by
  rw [callsOf, nodeCalls, List.nodup_append]
  refine ⟨?_, ?_, ?_⟩
  · rw [List.nodup_flatMap]
    refine ⟨?_, ?_⟩
    · intro i _
      refine List.Nodup.map ?_ ?_
      · intro key key' same
        exact (Call.mk.inj same).2.2
      · unfold portKeys
        split <;> decide
    · refine List.nodup_range.imp ?_
      intro i i' differ call here there
      obtain ⟨key, -, rfl⟩ := List.mem_map.1 here
      obtain ⟨key', -, same⟩ := List.mem_map.1 there
      exact differ (Nat.add_left_cancel (Call.mk.inj same).2.1).symm
  · split
    · split
      · exact List.nodup_singleton _
      · exact List.nodup_nil
    · refine List.Nodup.map ?_ List.nodup_range
      intro i i' same
      exact Nat.add_left_cancel (Call.mk.inj same).2.1
  · rintro call port call' dist rfl
    obtain ⟨i, -, port⟩ := List.mem_flatMap.1 port
    obtain ⟨key, own, rfl⟩ := List.mem_map.1 port
    refine not_dist_of_portKeys own ?_
    split at dist
    · split at dist
      · exact (Call.mk.inj (List.mem_singleton.1 dist)).2.2
      · exact absurd dist List.not_mem_nil
    · obtain ⟨i', -, same⟩ := List.mem_map.1 dist
      exact (Call.mk.inj same).2.2.symm

end Calls

theorem basePort_empty (launch : Nat) : basePort args ∅ ≤ low args launch := by
  rw [basePort, low]
  split
  · exact Nat.le_add_right ..
  · exact Nat.le_add_right_of_le (by decide)

theorem basePort_patched (patched : args.patch = true) (portCursors : Dict Nat Nat) : basePort args portCursors = 17000 :=
  if_pos patched

theorem baseOf_other {probe : Call → Nat → Nat} {plan : List (Nat × ServerGroup)} {launch model model' : Nat} {group group' : ServerGroup}
    (here : plan[launch]? = some (model, group)) (next : plan[launch + 1]? = some (model', group')) (differ : model ≠ model') :
    baseOf args probe plan (launch + 1) = basePort args ∅ := by
  rw [baseOf, here, next]
  exact if_neg differ

include nccl in
theorem portsOf_band {launch base v : Nat} {group : ServerGroup} (inside : launch < (plan args models).length)
    (start : base ≤ low args launch ∨ (meet args models < base ∧ base ≤ high args models launch)) :
    (∀ entry ∈ (portsOf args (meeting args models special) launch group base v).1, InBand args models special launch entry) ∧
      ((portsOf args (meeting args models special) launch group base v).2 ≤ low args (launch + 1) ∨
        (meet args models < (portsOf args (meeting args models special) launch group base v).2 ∧
          (portsOf args (meeting args models special) launch group base v).2 ≤ high args models (launch + 1) ∧
          (meet args models < base ∨ ∃ call ∈ callsOf args launch group v, special call = true))) := by
  have few := @total_callsOf args launch v group
  have wide := @low_succ args launch
  have wide' := @high_succ args models launch
  obtain ⟨bands, reach⟩ := @getPorts_band args models special nccl launch
    (group.rankOffset + v * numEnginesPerNode args group) 0 base (callsOf args launch group v) inside
    (fun call mem => (rank_of_mem_callsOf mem).1) start (by rw [Nat.zero_add]; exact few)
  rw [portsOf]
  refine ⟨bands, ?_⟩
  rcases reach with early | ⟨past, late, why⟩
  · exact Or.inl (by omega)
  · exact Or.inr ⟨past, by omega, why⟩

include nccl in
/-- **The base port lies before the meeting port** until a group of the same model has a special call. -/
theorem baseOf_band (launch : Nat) {model : Nat} {group : ServerGroup} (here : (plan args models)[launch]? = some (model, group)) :
    baseOf args (meeting args models special) (plan args models) launch ≤ low args launch ∨
      (args.patch = false ∧ meet args models < baseOf args (meeting args models special) (plan args models) launch ∧
        baseOf args (meeting args models special) (plan args models) launch ≤ high args models launch ∧
        ∃ call group', special call = true ∧ call.launch < launch ∧ (plan args models)[call.launch]? = some (model, group')) := by
  induction launch generalizing model group with
  | zero => exact Or.inl (basePort_empty 0)
  | succ launch ih =>
    obtain ⟨inside, -⟩ := List.getElem?_eq_some_iff.1 here
    have inside' := Nat.lt_of_succ_lt inside
    obtain ⟨⟨model', group'⟩, before⟩ : ∃ entry, (plan args models)[launch]? = some entry :=
      ⟨_, List.getElem?_eq_getElem inside'⟩
    by_cases same : model' = model
    · subst same
      have wide := @low_succ args launch
      have wide' := @high_succ args models launch
      rw [baseOf_same before here]
      unfold nextBase
      split
      · rcases ih before with early | ⟨patched, past, late, call, group', meets, old, there⟩
        · exact Or.inl (by omega)
        · exact Or.inr ⟨patched, past, by omega, call, group', meets, Nat.lt_succ_of_lt old, there⟩
      · rename_i some
        rcases patched : args.patch with _ | _
        · have done := @allocated args (meeting args models special) launch group'
            (baseOf args (meeting args models special) (plan args models) launch) group'.size
          obtain ⟨v, cursor⟩ := basePort_mem patched ((done.cursor 0 _).2 ⟨by omega, rfl⟩)
          obtain ⟨-, reached⟩ := (done.cursor v _).1 cursor
          have start := (ih before).imp_right fun late => And.intro late.2.1 late.2.2.1
          obtain ⟨-, reach⟩ := @portsOf_band args models special nccl launch _ v group' inside' start
          rw [allocation, reached]
          rcases reach with early | ⟨past, late, sooner | ⟨call, mem, meets⟩⟩
          · exact Or.inl early
          · rcases ih before with early | ⟨-, -, -, call, group', meets, old, there⟩
            · have := low_lt_meet inside'
              omega
            · exact Or.inr ⟨rfl, past, late, call, group', meets, Nat.lt_succ_of_lt old, there⟩
          · refine Or.inr ⟨rfl, past, late, call, group', meets, ?_, ?_⟩
            · rw [(rank_of_mem_callsOf mem).1]
              exact Nat.lt_succ_self _
            · rw [(rank_of_mem_callsOf mem).1]
              exact before
        · rw [basePort_patched patched]
          exact Or.inl (Nat.le_add_right ..)
    · rw [baseOf_other before here same]
      exact Or.inl (basePort_empty _)

include nccl in
theorem band_of_started {launch : Nat} {started : Started}
    (here : (startRolloutServers args (meeting args models special) models).1[launch]? = some started) {key : Nat × Key}
    {entry : Entry} (own : started.addrAndPorts.lookup key = some entry) :
    launch < (plan args models).length ∧ InBand args models special launch entry := by
  obtain ⟨planned, ports⟩ := started_iff.1 here
  obtain ⟨inside, -⟩ := List.getElem?_eq_some_iff.1 planned
  rw [ports] at own
  obtain ⟨v, -, mem⟩ := mem_portsOf own
  have start := (baseOf_band nccl launch planned).imp_right fun late => And.intro late.2.1 late.2.2.1
  exact ⟨inside, (portsOf_band nccl inside start).1 entry mem⟩

theorem stop_special {entry : Entry} (nccl : ∀ call, special call = true → call.key = .ncclPort)
    (meets : special entry.call = true) : entry.stop args = entry.port + 1 := by
  rw [Entry.stop, nccl entry.call meets]
  rfl

variable {ν : Type} {place : Nat → ν}

include nccl in
/-- **The probe knows the servers that listen**: the ranges of the starts do not meet but in the special calls. -/
theorem lawful_meeting : Lawful args place models (meeting args models special) where
  forward := forward_meeting special
  listening := by
    rintro launch launch' started started' here here' before - key entry i' entry' own binds port - ⟨le, lt⟩
    obtain ⟨inside, band⟩ := band_of_started nccl here own
    obtain ⟨inside', band'⟩ := band_of_started nccl here' binds.assigned
    have lows : low args (launch' + 1) ≤ low args launch := low_mono before
    have highs : high args models (launch' + 1) ≤ high args models launch := high_mono before
    have reach := low_lt_meet inside
    have reach' := low_lt_meet inside'
    have past := @meet_lt_high args models launch
    have past' := @meet_lt_high args models launch'
    have server : entry'.stop args = entry'.port + 1 := by
      rw [Entry.stop, port]
      rfl
    rcases band' with ⟨start', stop'⟩ | ⟨start', stop'⟩ | ⟨-, meets'⟩
    · rcases band with ⟨start, stop⟩ | ⟨start, stop⟩ | ⟨start, meets⟩
      · omega
      · omega
      · omega
    · rcases band with ⟨start, stop⟩ | ⟨start, stop⟩ | ⟨start, meets⟩
      · omega
      · omega
      · have := @stop_special args special entry nccl meets
        omega
    · rw [nccl _ meets'] at port
      cases port

include nccl in
/-- One of two processes that are not separate binds the meeting port. -/
theorem binds_meet {launch launch' model model' : Nat} {group group' : ServerGroup} {i i' : Nat}
    (here : (plan args models)[launch]? = some (model, group)) (here' : (plan args models)[launch']? = some (model', group'))
    (lt : i < group.size)
    (apart : ¬(model = model' ∧ (launch = launch' → i / numEnginesPerNode args group = i' / numEnginesPerNode args group') ∧
      (launch ≠ launch' → args.patch = false)))
    (only : ∀ call, special call = true ↔
      call = ⟨launch, group.rankOffset + i, .ncclPort⟩ ∨ call = ⟨launch', group'.rankOffset + i', .ncclPort⟩) :
    ∃ started entry, (startRolloutServers args (meeting args models special) models).1[launch]? = some started ∧
      started.group = group ∧ Binds started i entry ∧ entry.call = ⟨launch, group.rankOffset + i, .ncclPort⟩ ∧
      entry.port = meet args models := by
  have pos := @numEnginesPerNode_pos args group
  obtain ⟨inside, -⟩ := List.getElem?_eq_some_iff.1 here
  -- no special call comes before in the lineage of the base port
  have start : baseOf args (meeting args models special) (plan args models) launch ≤ low args launch := by
    rcases baseOf_band nccl launch here with early | ⟨patched, -, -, call, between, meets, before, there⟩
    · exact early
    · rcases (only call).1 meets with rfl | rfl
      · exact absurd before (Nat.lt_irrefl _)
      · have same := here'.symm.trans there
        refine absurd ⟨(Prod.mk.inj (Option.some.inj same)).1.symm, ?_, fun _ => patched⟩ apart
        rintro rfl
        exact absurd before (Nat.lt_irrefl _)
  have has := @has_keys args (meeting args models special) launch group
    (baseOf args (meeting args models special) (plan args models) launch) i lt .ncclPort (by rw [portKeys]; simp)
  obtain ⟨entry, found⟩ := Option.isSome_iff_exists.1 (AList.lookup_isSome.2 has)
  obtain ⟨key, rank, -⟩ := (@allocated args (meeting args models special) launch group
    (baseOf args (meeting args models special) (plan args models) launch) group.size).sound _ _ _ found
  rw [ranks_single (Or.inl (by rw [← key]; decide)), List.mem_singleton] at rank
  obtain ⟨own, -, mem⟩ := mem_portsOf_process found rank.symm
  have named : entry.call = ⟨launch, group.rankOffset + i, .ncclPort⟩ := by
    rcases call : entry.call with ⟨launch₀, rank₀, key₀⟩
    rw [call] at own rank key
    exact congr (congrArg₂ Call.mk own rank.symm) key.symm
  refine ⟨⟨model, group, _⟩, entry, started_iff.2 ⟨here, rfl⟩, rfl, ⟨lt, rank.symm, by rw [← key]; exact found⟩, named, ?_⟩
  have fits : 0 + total args (callsOf args launch group (i / numEnginesPerNode args group)) ≤ width args := by
    rw [Nat.zero_add]
    exact total_callsOf
  refine port_of_special inside (fun call mem => (rank_of_mem_callsOf mem).1) start fits nodup_callsOf
    ((only _).2 (Or.inl rfl)) ?_ named mem
  -- the other call is one of another node
  intro call mem meets
  rcases (only call).1 meets with same | rfl
  · exact same
  · obtain ⟨rfl, k, short, rank'⟩ := rank_of_mem_callsOf mem
    obtain ⟨rfl, rfl⟩ := Prod.mk.inj (Option.some.inj (here.symm.trans here'))
    refine absurd ⟨rfl, fun _ => ?_, fun differ => absurd rfl differ⟩ apart
    refine (Nat.div_eq_of_lt_le ?_ ?_).symm
    · dsimp only at rank'
      omega
    · dsimp only at rank'
      rw [Nat.succ_mul]
      omega

end Meeting

/-! ## The ports of a run -/

section Run

variable {args : Args} {models : List ModelConfig} {ν : Type} {place : Nat → ν}

/-- If two processes are not separate, a probe hands one port to both. -/
theorem separate_of_free
    (free : ∀ probe, Lawful args place models probe → CollisionFree args place (startRolloutServers args probe models)) :
    Separate args place (plan args models) := by
  intro launch launch' model model' group group' i i' here here' lt lt' near
  by_contra apart
  let special (call : Call) : Bool :=
    decide (call = ⟨launch, group.rankOffset + i, .ncclPort⟩ ∨ call = ⟨launch', group'.rankOffset + i', .ncclPort⟩)
  have only (call : Call) : special call = true ↔
      call = ⟨launch, group.rankOffset + i, .ncclPort⟩ ∨ call = ⟨launch', group'.rankOffset + i', .ncclPort⟩ := decide_eq_true_iff
  have nccl (call : Call) (meets : special call = true) : call.key = .ncclPort := by
    rcases (only call).1 meets with rfl | rfl
    · rfl
    · rfl
  have apart' : ¬(model' = model ∧ (launch' = launch → i' / numEnginesPerNode args group' = i / numEnginesPerNode args group) ∧
      (launch' ≠ launch → args.patch = false)) := by
    rintro ⟨same, node, groups⟩
    exact apart ⟨same.symm, fun same => (node same.symm).symm, fun differ => groups differ.symm⟩
  obtain ⟨started, entry, run, rfl, binds, named, port⟩ := binds_meet nccl here here' lt apart only
  obtain ⟨started', entry', run', rfl, binds', named', port'⟩ :=
    binds_meet nccl here' here lt' apart' fun call => (only call).trans or_comm
  have differ : entry.call ≠ entry'.call := by
    rw [named, named']
    intro same
    obtain ⟨rfl, rank, -⟩ := Call.mk.inj same
    obtain ⟨rfl, group⟩ := Prod.mk.inj (Option.some.inj (here.symm.trans here'))
    rw [← group] at rank
    obtain rfl := Nat.add_left_cancel rank
    rw [group] at apart
    exact apart ⟨rfl, fun _ => rfl, fun differ => absurd rfl differ⟩
  have collision := (free _ (lawful_meeting nccl)).disjoint started (List.mem_of_getElem? run) started' (List.mem_of_getElem? run')
    i i' entry entry' binds binds' near differ
  rw [stop_special nccl ((only _).2 (Or.inl named)), stop_special nccl ((only _).2 (Or.inr named'))] at collision
  omega

/-- **Whatever the probe finds, no port of a node is handed out twice if and only if the processes on a
node are separate.** -/
theorem collision_free_iff (args : Args) (models : List ModelConfig) (place : Nat → ν) :
    (∀ probe, Lawful args place models probe → CollisionFree args place (startRolloutServers args probe models)) ↔
      Separate args place (plan args models) :=
  ⟨separate_of_free, fun separate _ lawful => collisionFree_of_separate lawful.forward separate⟩

/-- Nodes of eight GPUs. -/
def eightGpus : Args := ⟨8, 1, false, by decide⟩

def fourGpus : ModelConfig := ⟨[⟨.regular, 4, 4, by decide, by decide⟩]⟩

/-- Two models on one node may get one port. -/
theorem models_collide : ¬∀ probe, Lawful eightGpus (· / 8) [fourGpus, fourGpus] probe →
    CollisionFree eightGpus (· / 8) (startRolloutServers eightGpus probe [fourGpus, fourGpus]) := by
  intro free
  have separate := separate_of_free free 0 1 0 1 _ _ 0 0 rfl rfl (by decide) (by decide) (by decide)
  exact absurd separate.1 (by decide)

end Run

end SlimeBoard.PortAllocation
