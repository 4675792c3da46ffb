import SlimeBoard.Rollout.DataSource

/-!
# The epochs of a data source

The prompts that a data source hands out run through its dataset once an epoch, in the order
of the epoch. A request that crosses the end of an epoch goes on in the next one, but in no
epoch after that.
-/

namespace SlimeBoard

section Code

variable {P : Type} [Inhabited P] (args : DataSourceArgs P) (permuter : Permuter)

/-- What successive requests return, and the data source after them. -/
def requestSamples : List Nat → RolloutDataSource P → List (List (Group P)) × RolloutDataSource P
  | [], s => ([], s)
  | numSamples :: rest, s =>
    let (samples, s) := s.getSamples args permuter numSamples
    let (more, s) := requestSamples rest s
    (samples :: more, s)

/-- No request goes beyond the epoch after the one it begins in. -/
def WithinNextEpoch (length : Nat) : List Nat → RolloutDataSource P → Prop
  | [], _ => True
  | numSamples :: rest, s =>
    s.sampleOffset + numSamples ≤ 2 * length ∧ WithinNextEpoch length rest (s.getSamples args permuter numSamples).2

end Code

/-- Groups of `n` samples of each prompt, numbered from `groupIndex` on. -/
def numbered {P : Type} (n groupIndex : Nat) (prompts : List P) : List (Group P) :=
  (prompts.zipIdx groupIndex).map fun p => (List.range n).map fun j => ⟨some p.2, some (p.2 * n + j), p.1⟩

/-- Every request returns as many groups as it asked for. The groups are numbered consecutively, and
their prompts run through whole epochs, in some order each, and a part of the last one. -/
structure CoversEpochs {P : Type} (args : DataSourceArgs P) (prompts : List P) (requests : List Nat) (results : List (List (Group P)))
    (s : RolloutDataSource P) : Prop where
  counts : results.map List.length = requests
  offset : s.sampleOffset ≤ prompts.length
  groupIndex : s.sampleGroupIndex = requests.sum
  index : s.sampleIndex = requests.sum * args.nSamplesPerPrompt
  stream : ∃ orders : Nat → List P, (∀ e, (orders e).Perm prompts) ∧ results.flatten =
    numbered args.nSamplesPerPrompt 0 ((List.range s.epochId).flatMap orders ++ (orders s.epochId).take s.sampleOffset)

section Epochs

variable {P : Type} {args : DataSourceArgs P} {permuter : Permuter}

theorem numberGroups_eq (n groupIndex : Nat) (prompts : List P) :
    numberGroups n groupIndex (groupIndex * n) prompts = numbered n groupIndex prompts := by
  induction prompts generalizing groupIndex with
  | nil => rfl
  | cons prompt rest ih =>
    unfold numbered
    rw [numberGroups, ← Nat.succ_mul, ih (groupIndex + 1), List.zipIdx_cons, List.map_cons]
    rfl

theorem numbered_append (n groupIndex : Nat) (prompts prompts' : List P) :
    numbered n groupIndex (prompts ++ prompts') = numbered n groupIndex prompts ++ numbered n (groupIndex + prompts.length) prompts' := by
  unfold numbered
  rw [List.zipIdx_append, List.map_append]

/-- The prompts in the order of an epoch. -/
def epochOrder (args : DataSourceArgs P) (permuter : Permuter) (prompts : List P) (e : Nat) : List P :=
  (shuffleIfAsked args permuter e (.new prompts args.rolloutSeed)).samples

theorem epochOrder_perm (args : DataSourceArgs P) (permuter : Permuter) (prompts : List P) (e : Nat) :
    (epochOrder args permuter prompts e).Perm prompts := by
  have perm := (shuffleIfAsked args permuter e (.new prompts args.rolloutSeed)).isPerm
  have origin : (shuffleIfAsked args permuter e (.new prompts args.rolloutSeed)).originSamples = prompts := by
    unfold shuffleIfAsked
    split
    · exact (Dataset.shuffle_other permuter (Dataset.new_epochId prompts _ e)).1
    · rfl
  rwa [origin] at perm

variable [Inhabited P] {prompts : List P}

/-- The prompts that a request draws, and where it leaves off. -/
theorem drawPrompts_order (stored : args.rolloutGlobalDataset = true) (data : args.promptData = some prompts)
    {s : RolloutDataSource P} (synced : s.Synced args permuter) (numSamples : Nat) :
    if s.sampleOffset + numSamples ≤ prompts.length then
      (s.drawPrompts args permuter numSamples).1 =
          ((epochOrder args permuter prompts s.epochId).drop s.sampleOffset).take numSamples ∧
        (s.drawPrompts args permuter numSamples).2.epochId = s.epochId ∧
        (s.drawPrompts args permuter numSamples).2.sampleOffset = s.sampleOffset + numSamples
    else
      (s.drawPrompts args permuter numSamples).1 = (epochOrder args permuter prompts s.epochId).drop s.sampleOffset ++
          (epochOrder args permuter prompts (s.epochId + 1)).take (numSamples - (prompts.length - s.sampleOffset)) ∧
        (s.drawPrompts args permuter numSamples).2.epochId = s.epochId + 1 ∧
        (s.drawPrompts args permuter numSamples).2.sampleOffset = numSamples - (prompts.length - s.sampleOffset) := by
  have known : s.dataset = some (shuffleIfAsked args permuter s.epochId (.new prompts args.rolloutSeed)) := by
    rw [show s.dataset = _ from synced, stored, data]
    rfl
  have length : (shuffleIfAsked args permuter s.epochId (.new prompts args.rolloutSeed)).samples.length = prompts.length :=
    (epochOrder_perm args permuter prompts s.epochId).length_eq
  unfold RolloutDataSource.drawPrompts epochOrder
  rw [known]
  dsimp only
  rw [length, shuffleIfAsked_twice, List.length_drop, length]
  split
  · exact ⟨rfl, rfl, rfl⟩
  · exact ⟨rfl, rfl, rfl⟩

/-- What has been drawn so far: `count` prompts, through `epochId` epochs and a part of the next. -/
structure Drawn (args : DataSourceArgs P) (permuter : Permuter) (prompts : List P) (drawn : List (Group P))
    (s : RolloutDataSource P) : Prop where
  synced : s.Synced args permuter
  offset : s.sampleOffset ≤ prompts.length
  groupIndex : s.sampleGroupIndex = drawn.length
  index : s.sampleIndex = drawn.length * args.nSamplesPerPrompt
  stream : drawn = numbered args.nSamplesPerPrompt 0
    ((List.range s.epochId).flatMap (epochOrder args permuter prompts) ++ (epochOrder args permuter prompts s.epochId).take s.sampleOffset)

omit [Inhabited P] in
theorem drawn_new (args : DataSourceArgs P) (permuter : Permuter) (prompts : List P) :
    Drawn args permuter prompts [] (.new args permuter) where
  synced := RolloutDataSource.synced_new args permuter
  offset := Nat.zero_le _
  groupIndex := rfl
  index := (Nat.zero_mul _).symm
  stream := rfl

omit [Inhabited P] in
theorem length_numbered {n groupIndex : Nat} {prompts : List P} : (numbered n groupIndex prompts).length = prompts.length := by
  rw [numbered, List.length_map, List.length_zipIdx]

/-- **A request within the next epoch is met, and any other is not.** -/
theorem Drawn.getSamples (stored : args.rolloutGlobalDataset = true) (data : args.promptData = some prompts) {drawn : List (Group P)}
    {s : RolloutDataSource P} (so : Drawn args permuter prompts drawn s) (numSamples : Nat) :
    ((s.getSamples args permuter numSamples).1.length = numSamples ↔ s.sampleOffset + numSamples ≤ 2 * prompts.length) ∧
      (s.sampleOffset + numSamples ≤ 2 * prompts.length → Drawn args permuter prompts (drawn ++ (s.getSamples args permuter numSamples).1)
        (s.getSamples args permuter numSamples).2) := by
  have order (e : Nat) := (epochOrder_perm args permuter prompts e).length_eq
  have offset := so.offset
  have total := so.groupIndex
  have groups := (s.getSamples_eq args permuter numSamples).1
  rw [so.index, ← total, numberGroups_eq] at groups
  have drawnLength : drawn.length = ((List.range s.epochId).flatMap (epochOrder args permuter prompts) ++
      (epochOrder args permuter prompts s.epochId).take s.sampleOffset).length := by
    conv_lhs => rw [so.stream]
    exact length_numbered
  have next {stream : List P} (grown : (List.range s.epochId).flatMap (epochOrder args permuter prompts) ++
      (epochOrder args permuter prompts s.epochId).take s.sampleOffset ++ (s.drawPrompts args permuter numSamples).1 = stream) :
      drawn ++ (s.getSamples args permuter numSamples).1 = numbered args.nSamplesPerPrompt 0 stream := by
    rw [groups, total, drawnLength, ← grown, numbered_append, ← so.stream, Nat.zero_add]
  have count : (s.getSamples args permuter numSamples).1.length = (s.drawPrompts args permuter numSamples).1.length := by
    rw [groups, length_numbered]
  have indices := s.drawPrompts_indices args permuter numSamples
  have groupIndex : (s.getSamples args permuter numSamples).2.sampleGroupIndex =
      (drawn ++ (s.getSamples args permuter numSamples).1).length := by
    rw [(s.getSamples_eq args permuter numSamples).2, total, List.length_append, count]
  have index : (s.getSamples args permuter numSamples).2.sampleIndex =
      (drawn ++ (s.getSamples args permuter numSamples).1).length * args.nSamplesPerPrompt := by
    rw [List.length_append, count, Nat.add_mul, ← so.index, ← indices.2, Nat.mul_comm (List.length _)]
    rfl
  have drawnPrompts := drawPrompts_order stored data so.synced numSamples
  split at drawnPrompts
  · rename_i fits
    obtain ⟨prompts', epoch, offset'⟩ := drawnPrompts
    have all : (s.drawPrompts args permuter numSamples).1.length = numSamples := by
      rw [prompts', List.length_take, List.length_drop, order]
      omega
    refine ⟨⟨fun _ => by omega, fun _ => count.trans all⟩, fun _ => ⟨so.synced.getSamples numSamples, ?_, groupIndex, index, ?_⟩⟩
    · exact offset'.trans_le fits
    · refine (next ?_).trans (congrArg _ (congrArg₂ _ (congrArg _ (congrArg _ epoch.symm)) (congrArg₂ _ offset'.symm (congrArg _ epoch.symm))))
      rw [prompts', List.append_assoc, List.take_add]
  · rename_i beyond
    obtain ⟨prompts', epoch, offset'⟩ := drawnPrompts
    have some : (s.drawPrompts args permuter numSamples).1.length =
        prompts.length - s.sampleOffset + min (numSamples - (prompts.length - s.sampleOffset)) prompts.length := by
      rw [prompts', List.length_append, List.length_drop, List.length_take, order, order]
    refine ⟨⟨fun met => by omega, fun within => by omega⟩, fun within => ⟨so.synced.getSamples numSamples, ?_, groupIndex, index, ?_⟩⟩
    · refine offset'.trans_le ?_
      omega
    · refine (next ?_).trans (congrArg _ (congrArg₂ _ (congrArg _ (congrArg _ epoch.symm)) (congrArg₂ _ offset'.symm (congrArg _ epoch.symm))))
      rw [prompts', ← List.append_assoc, List.append_assoc _ (List.take _ _), List.take_append_drop, List.range_succ, List.flatMap_append]
      simp

/-- What successive requests return while each is within the next epoch. -/
theorem Drawn.requestSamples (stored : args.rolloutGlobalDataset = true) (data : args.promptData = some prompts) {drawn : List (Group P)}
    {s : RolloutDataSource P} (so : Drawn args permuter prompts drawn s) (requests : List Nat) :
    ((requestSamples args permuter requests s).1.map List.length = requests ↔
        WithinNextEpoch args permuter prompts.length requests s) ∧
      (WithinNextEpoch args permuter prompts.length requests s →
        Drawn args permuter prompts (drawn ++ (requestSamples args permuter requests s).1.flatten)
          (requestSamples args permuter requests s).2) := by
  induction requests generalizing drawn s with
  | nil =>
    refine ⟨⟨fun _ => trivial, fun _ => rfl⟩, fun _ => ?_⟩
    rw [SlimeBoard.requestSamples, List.flatten_nil, List.append_nil]
    exact so
  | cons numSamples rest ih =>
    obtain ⟨met, next⟩ := so.getSamples stored data numSamples
    rw [SlimeBoard.requestSamples, WithinNextEpoch]
    dsimp only
    rw [List.map_cons, List.flatten_cons, ← List.append_assoc]
    constructor
    · constructor
      · intro counts
        obtain ⟨count, counts⟩ := List.cons.inj counts
        have within := met.1 count
        exact ⟨within, (ih (next within)).1.1 counts⟩
      · rintro ⟨within, later⟩
        rw [met.2 within, (ih (next within)).1.2 later]
    · rintro ⟨within, later⟩
      exact (ih (next within)).2 later

/-- **A data source covers its epochs if and only if no request goes beyond the next epoch.** -/
theorem covers_epochs_iff (stored : args.rolloutGlobalDataset = true) (data : args.promptData = some prompts) (requests : List Nat) :
    CoversEpochs args prompts requests (requestSamples args permuter requests (.new args permuter)).1
        (requestSamples args permuter requests (.new args permuter)).2 ↔
      WithinNextEpoch args permuter prompts.length requests (.new args permuter) := by
  obtain ⟨met, next⟩ := (drawn_new args permuter prompts).requestSamples stored data requests
  refine ⟨fun covers => met.1 covers.counts, fun within => ?_⟩
  have so := next within
  have counts := met.2 within
  rw [List.nil_append] at so
  have total := so.groupIndex
  rw [List.length_flatten, counts] at total
  refine ⟨counts, so.offset, total, ?_, epochOrder args permuter prompts, epochOrder_perm args permuter prompts, so.stream⟩
  rw [so.index, ← so.groupIndex, total]

end Epochs

/-- Two requests, the second of which crosses the end of an epoch. -/
theorem covers_epochs_iff_two : CoversEpochs twoPrompts [10, 20] [1, 3]
      (requestSamples twoPrompts reversed [1, 3] (.new twoPrompts reversed)).1
      (requestSamples twoPrompts reversed [1, 3] (.new twoPrompts reversed)).2 ↔
    WithinNextEpoch twoPrompts reversed 2 [1, 3] (.new twoPrompts reversed) :=
  covers_epochs_iff rfl rfl [1, 3]

/-- A request for five of two prompts returns four, and leaves the offset at three. -/
theorem not_coversEpochs_two : ¬CoversEpochs twoPrompts [10, 20] [5] (requestSamples twoPrompts reversed [5] (.new twoPrompts reversed)).1
    (requestSamples twoPrompts reversed [5] (.new twoPrompts reversed)).2 :=
  fun covers => absurd covers.counts (by decide)

end SlimeBoard
