import SlimeBoard.Lib.PyDict

/-!
# The data source of the rollouts

`RolloutDataSource` draws prompts from a dataset that is shuffled anew in each epoch, and
numbers the samples that it makes of them. `RolloutDataSourceWithBuffer` first hands out
the groups that were given back to it. Its state is saved and loaded by the methods of the
former.
-/

namespace SlimeBoard

/-- `random.shuffle` of `range(n)` after `random.seed(seed)`. -/
structure Permuter where
  permutation : (seed : Int) → (n : Nat) → List Nat
  isPerm : ∀ seed n, (permutation seed n).Perm (List.range n)

theorem filterMap_getElem?_range {α : Type} (xs : List α) : (List.range xs.length).filterMap (xs[·]?) = xs := by
  have all : (List.range xs.length).map (xs[·]?) = xs.map some := by
    refine List.ext_getElem (by simp) fun i _ _ => ?_
    simp
  have joined := congrArg (List.filterMap id) all
  rwa [List.filterMap_map, List.filterMap_map, Function.id_comp, Function.id_comp, List.filterMap_some] at joined

theorem Permuter.pick_perm (permuter : Permuter) (seed : Int) {α : Type} (xs : List α) {n : Nat} (whole : n = xs.length) :
    ((permuter.permutation seed n).filterMap (xs[·]?)).Perm xs := by
  have shuffled := (permuter.isPerm seed n).filterMap (xs[·]?)
  rw [whole, filterMap_getElem?_range] at shuffled
  rwa [whole]

/-- The samples are those of the file, in the order of the epoch. -/
@[ext] structure Dataset (P : Type) where
  originSamples : List P
  samples : List P
  epochId : Int
  seed : Int
  isPerm : samples.Perm originSamples

namespace Dataset

variable {P : Type}

/-- `Dataset(...)`, for the samples read from the file. -/
def new (originSamples : List P) (seed : Int) : Dataset P := ⟨originSamples, originSamples, -1, seed, .refl _⟩

def shuffle (permuter : Permuter) (newEpochId : Nat) (d : Dataset P) : Dataset P :=
  if d.epochId = newEpochId then d
  else
    { d with
      samples := (permuter.permutation (d.seed + newEpochId) d.samples.length).filterMap (d.originSamples[·]?)
      epochId := newEpochId
      isPerm := permuter.pick_perm _ _ d.isPerm.length_eq }

theorem length_samples (d : Dataset P) : d.samples.length = d.originSamples.length := d.isPerm.length_eq

/-- What a shuffle for another epoch leaves. -/
theorem shuffle_other (permuter : Permuter) {e : Nat} {d : Dataset P} (other : d.epochId ≠ e) :
    (d.shuffle permuter e).originSamples = d.originSamples ∧
      (d.shuffle permuter e).samples =
        (permuter.permutation (d.seed + e) d.originSamples.length).filterMap (d.originSamples[·]?) ∧
      (d.shuffle permuter e).epochId = e ∧ (d.shuffle permuter e).seed = d.seed := by
  unfold shuffle
  rw [if_neg other, ← d.length_samples]
  exact ⟨rfl, rfl, rfl, rfl⟩

theorem new_epochId (prompts : List P) (seed : Int) (e : Nat) : (new prompts seed).epochId ≠ e := by
  show (-1 : Int) ≠ e
  omega

/-- A shuffle does not depend on the epochs before. -/
theorem shuffle_shuffle (permuter : Permuter) (e e' : Nat) (prompts : List P) (seed : Int) :
    ((new prompts seed).shuffle permuter e).shuffle permuter e' = (new prompts seed).shuffle permuter e' := by
  obtain ⟨origin, _, epoch, seeded⟩ := shuffle_other permuter (new_epochId prompts seed e)
  obtain ⟨origin₁, samples₁, epoch₁, seeded₁⟩ := shuffle_other permuter (new_epochId prompts seed e')
  by_cases same : e = e'
  · rw [← same, shuffle, if_pos epoch]
  · have other : ((new prompts seed).shuffle permuter e).epochId ≠ e' := by omega
    obtain ⟨origin₂, samples₂, epoch₂, seeded₂⟩ := shuffle_other permuter other
    apply Dataset.ext
    · rw [origin₂, origin, origin₁]
    · rw [samples₂, origin, seeded, samples₁]
    · rw [epoch₂, epoch₁]
    · rw [seeded₂, seeded, seeded₁]

theorem length_shuffle (permuter : Permuter) (e : Nat) (d : Dataset P) :
    (d.shuffle permuter e).samples.length = d.samples.length := by
  rw [length_samples, length_samples]
  unfold shuffle
  split
  · rfl
  · rfl

end Dataset

/-- A sample as the data source makes it of a prompt. `P` stands for all its other fields. -/
structure DrawnSample (P : Type) where
  groupIndex : Option Nat
  index : Option Nat
  prompt : P
  deriving DecidableEq

abbrev Group (P : Type) := List (DrawnSample P)

structure DataSourceArgs (P : Type) where
  rolloutGlobalDataset : Bool
  /-- the samples read from `prompt_data`, if there is one -/
  promptData : Option (List P)
  rolloutShuffle : Bool
  rolloutSeed : Int
  nSamplesPerPrompt : ℕ+

structure RolloutDataSource (P : Type) where
  dataset : Option (Dataset P)
  epochId : Nat
  sampleGroupIndex : Nat
  sampleIndex : Nat
  sampleOffset : Nat
  metadata : Dict String String

structure StateDict where
  sampleOffset : Nat
  epochId : Nat
  sampleGroupIndex : Nat
  sampleIndex : Nat
  metadata : Dict String String

structure RolloutDataSourceWithBuffer (P : Type) extends RolloutDataSource P where
  buffer : List (Group P)

section Code

variable {P : Type} [Inhabited P] (args : DataSourceArgs P) (permuter : Permuter)

/-- `if self.args.rollout_shuffle: self.dataset.shuffle(epoch_id)` -/
def shuffleIfAsked (epochId : Nat) (d : Dataset P) : Dataset P :=
  if args.rolloutShuffle then d.shuffle permuter epochId else d

def RolloutDataSource.new : RolloutDataSource P where
  dataset :=
    if args.rolloutGlobalDataset then
      args.promptData.map fun prompts => shuffleIfAsked args permuter 0 (.new prompts args.rolloutSeed)
    else none
  epochId := 0
  sampleGroupIndex := 0
  sampleIndex := 0
  sampleOffset := 0
  metadata := ∅

/-- The samples of one prompt. -/
def numberGroup (n groupIndex index : Nat) (prompt : P) : Group P :=
  (List.range n).map fun j => ⟨some groupIndex, some (index + j), prompt⟩

/-- The loop over `prompt_samples`. -/
def numberGroups (n : Nat) : (groupIndex index : Nat) → List P → List (Group P)
  | _, _, [] => []
  | groupIndex, index, prompt :: rest =>
    numberGroup n groupIndex index prompt :: numberGroups n (groupIndex + 1) (index + n) rest

namespace RolloutDataSource

/-- The prompts of `get_samples`. A prompt without a dataset is `Sample()`. -/
def drawPrompts (numSamples : Nat) (s : RolloutDataSource P) : List P × RolloutDataSource P :=
  match s.dataset with
  | none => (List.replicate numSamples default, s)
  | some d =>
    if s.sampleOffset + numSamples ≤ d.samples.length then
      ((d.samples.drop s.sampleOffset).take numSamples, { s with sampleOffset := s.sampleOffset + numSamples })
    else
      let promptSamples := d.samples.drop s.sampleOffset
      let numSamples := numSamples - promptSamples.length
      let d := shuffleIfAsked args permuter (s.epochId + 1) d
      (promptSamples ++ d.samples.take numSamples,
        { s with dataset := some d, epochId := s.epochId + 1, sampleOffset := numSamples })

def getSamples (numSamples : Nat) (s : RolloutDataSource P) : List (Group P) × RolloutDataSource P :=
  let (promptSamples, s) := s.drawPrompts args permuter numSamples
  (numberGroups args.nSamplesPerPrompt s.sampleGroupIndex s.sampleIndex promptSamples,
    { s with
      sampleGroupIndex := s.sampleGroupIndex + promptSamples.length
      sampleIndex := s.sampleIndex + args.nSamplesPerPrompt * promptSamples.length })

/-- What `save` writes, if anything. -/
def save (s : RolloutDataSource P) : Option StateDict :=
  if args.rolloutGlobalDataset then
    some ⟨s.sampleOffset, s.epochId, s.sampleGroupIndex, s.sampleIndex, s.metadata⟩
  else none

/-- `load`, of what `save` wrote -/
def load (written : Option StateDict) (s : RolloutDataSource P) : RolloutDataSource P :=
  match written with
  | none => s
  | some dict =>
    if args.rolloutGlobalDataset then
      { dataset := s.dataset.map (shuffleIfAsked args permuter dict.epochId)
        epochId := dict.epochId
        sampleGroupIndex := dict.sampleGroupIndex
        sampleIndex := dict.sampleIndex
        sampleOffset := dict.sampleOffset
        metadata := dict.metadata }
    else s

end RolloutDataSource

def popFirst (buffer : List (Group P)) (numSamples : Nat) : List (Group P) × List (Group P) :=
  let numToPop := min buffer.length numSamples
  (buffer.take numToPop, buffer.drop numToPop)

namespace RolloutDataSourceWithBuffer

def new : RolloutDataSourceWithBuffer P := { RolloutDataSource.new args permuter with buffer := [] }

def getSamplesFromBuffer (numSamples : Nat) (s : RolloutDataSourceWithBuffer P) :
    List (Group P) × RolloutDataSourceWithBuffer P :=
  if s.buffer.length = 0 ∨ numSamples = 0 then ([], s)
  else
    let (samples, buffer) := popFirst s.buffer numSamples
    (samples, { s with buffer })

def getSamples (numSamples : Nat) (s : RolloutDataSourceWithBuffer P) :
    List (Group P) × RolloutDataSourceWithBuffer P :=
  let (samples, s) := s.getSamplesFromBuffer numSamples
  let numSamples := numSamples - samples.length
  if numSamples = 0 then (samples, s)
  else
    let (more, base) := s.toRolloutDataSource.getSamples args permuter numSamples
    (samples ++ more, { base with buffer := s.buffer })

/-- The groups before one of a wrong length are added. -/
def addSamples : List (Group P) → RolloutDataSourceWithBuffer P → Py Unit × RolloutDataSourceWithBuffer P
  | [], s => (.ok (), s)
  | group :: rest, s =>
    if group.length = args.nSamplesPerPrompt then addSamples rest { s with buffer := s.buffer ++ [group] }
    else (.error .assertionError, s)

/-- A new data source that loads what this one saves. -/
def resume (s : RolloutDataSourceWithBuffer P) : RolloutDataSourceWithBuffer P :=
  { (new args permuter).toRolloutDataSource.load args permuter (s.save args) with buffer := (new args permuter).buffer }

end RolloutDataSourceWithBuffer

/-- A call of a method of the data source. -/
inductive SourceCall (P : Type) where
  | getSamples (numSamples : Nat)
  | addSamples (samples : List (Group P))

def SourceCall.run (s : RolloutDataSourceWithBuffer P) : SourceCall P → Py (List (Group P)) × RolloutDataSourceWithBuffer P
  | .getSamples numSamples =>
    let (samples, s) := s.getSamples args permuter numSamples
    (.ok samples, s)
  | .addSamples samples =>
    let (added, s) := s.addSamples args samples
    (added.map fun _ => [], s)

/-- What the calls return, and the state after them. -/
def runCalls : List (SourceCall P) → RolloutDataSourceWithBuffer P → List (Py (List (Group P))) × RolloutDataSourceWithBuffer P
  | [], s => ([], s)
  | call :: rest, s =>
    let (result, s) := call.run args permuter s
    let (results, s) := runCalls rest s
    (result :: results, s)

/-- Whatever is called next, a data source resumed after the calls `done` returns what
the one that goes on returns. -/
def ResumesAfter (done : List (SourceCall P)) : Prop :=
  ∀ rest,
    let s := (runCalls args permuter done (.new args permuter)).2
    (runCalls args permuter rest (s.resume args permuter)).1 = (runCalls args permuter rest s).1

end Code

section Draws

variable {P : Type} {args : DataSourceArgs P} {permuter : Permuter}

theorem shuffleIfAsked_twice (e e' : Nat) (prompts : List P) (seed : Int) :
    shuffleIfAsked args permuter e' (shuffleIfAsked args permuter e (.new prompts seed)) =
      shuffleIfAsked args permuter e' (.new prompts seed) := by
  unfold shuffleIfAsked
  split
  · exact Dataset.shuffle_shuffle ..
  · rfl

theorem length_shuffleIfAsked (args : DataSourceArgs P) (permuter : Permuter) (e : Nat) (d : Dataset P) :
    (shuffleIfAsked args permuter e d).samples.length = d.samples.length := by
  unfold shuffleIfAsked
  split
  · exact Dataset.length_shuffle ..
  · rfl

theorem numberGroup_inj {n g g' i i' : Nat} {p p' : P} (positive : 0 < n) (same : numberGroup n g i p = numberGroup n g' i' p') :
    g = g' := by
  obtain ⟨n, rfl⟩ : ∃ k, n = k + 1 := ⟨n - 1, by omega⟩
  unfold numberGroup at same
  rw [List.range_succ_eq_map, List.map_cons, List.map_cons] at same
  obtain ⟨head, _⟩ := List.cons.inj same
  rw [DrawnSample.mk.injEq] at head
  exact Option.some.inj head.1

namespace RolloutDataSource

/-- The dataset is shuffled for the epoch. -/
def Synced (args : DataSourceArgs P) (permuter : Permuter) (s : RolloutDataSource P) : Prop :=
  s.dataset =
    if args.rolloutGlobalDataset then
      args.promptData.map fun prompts => shuffleIfAsked args permuter s.epochId (.new prompts args.rolloutSeed)
    else none

/-- There are prompts to draw. -/
def Stocked (s : RolloutDataSource P) : Prop := ∀ d, s.dataset = some d → d.samples ≠ []

theorem synced_new (args : DataSourceArgs P) (permuter : Permuter) : (RolloutDataSource.new args permuter).Synced args permuter := rfl

variable [Inhabited P]

theorem Synced.drawPrompts {s : RolloutDataSource P} (synced : s.Synced args permuter) (numSamples : Nat) :
    (s.drawPrompts args permuter numSamples).2.Synced args permuter := by
  unfold RolloutDataSource.drawPrompts
  cases known : s.dataset with
  | none => exact synced
  | some d =>
    dsimp only
    split
    · exact known ▸ synced
    · unfold Synced at synced ⊢
      rw [known] at synced
      cases global : args.rolloutGlobalDataset with
      | false =>
        rw [global, if_neg Bool.false_ne_true] at synced
        cases synced
      | true =>
        cases data : args.promptData with
        | none =>
          rw [data, global] at synced
          cases synced
        | some prompts =>
          rw [data, global] at synced
          obtain rfl : d = _ := Option.some.inj synced
          exact congrArg some (shuffleIfAsked_twice ..)

theorem Synced.getSamples {s : RolloutDataSource P} (synced : s.Synced args permuter) (numSamples : Nat) :
    (s.getSamples args permuter numSamples).2.Synced args permuter := synced.drawPrompts numSamples

theorem Stocked.drawPrompts {s : RolloutDataSource P} (stocked : s.Stocked) (numSamples : Nat) :
    (s.drawPrompts args permuter numSamples).2.Stocked := by
  unfold RolloutDataSource.drawPrompts
  cases known : s.dataset with
  | none => exact stocked
  | some d =>
    dsimp only
    split
    · exact known ▸ stocked
    · intro d' same
      obtain rfl : _ = d' := Option.some.inj same
      have whole := length_shuffleIfAsked args permuter (s.epochId + 1) d
      exact List.ne_nil_of_length_pos (whole ▸ List.length_pos_iff.2 (stocked d known))

/-- Something is drawn, and no more than is asked for. -/
theorem Stocked.length_draw (args : DataSourceArgs P) (permuter : Permuter) {s : RolloutDataSource P} (stocked : s.Stocked)
    {numSamples : Nat} (asked : 0 < numSamples) :
    0 < (s.drawPrompts args permuter numSamples).1.length ∧
      (s.drawPrompts args permuter numSamples).1.length ≤ numSamples := by
  unfold RolloutDataSource.drawPrompts
  cases known : s.dataset with
  | none => simpa using asked
  | some d =>
    have filled := List.length_pos_iff.2 (stocked d known)
    have whole := length_shuffleIfAsked args permuter (s.epochId + 1) d
    dsimp only
    split
    · rw [List.length_take, List.length_drop]
      omega
    · rw [List.length_append, List.length_take, List.length_drop, whole]
      omega

theorem drawPrompts_empty {s : RolloutDataSource P} {d : Dataset P} (known : s.dataset = some d) (empty : d.samples = [])
    (numSamples : Nat) : (s.drawPrompts args permuter numSamples).1 = [] := by
  have whole := length_shuffleIfAsked args permuter (s.epochId + 1) d
  rw [empty] at whole
  unfold drawPrompts
  rw [known]
  dsimp only
  split
  · rw [empty, List.drop_nil, List.take_nil]
  · rw [empty, List.eq_nil_of_length_eq_zero whole, List.drop_nil, List.take_nil]
    rfl

theorem drawPrompts_indices (args : DataSourceArgs P) (permuter : Permuter) (s : RolloutDataSource P) (numSamples : Nat) :
    (s.drawPrompts args permuter numSamples).2.sampleGroupIndex = s.sampleGroupIndex ∧
      (s.drawPrompts args permuter numSamples).2.sampleIndex = s.sampleIndex := by
  unfold drawPrompts
  cases s.dataset with
  | none => exact ⟨rfl, rfl⟩
  | some d =>
    dsimp only
    split
    · exact ⟨rfl, rfl⟩
    · exact ⟨rfl, rfl⟩

theorem getSamples_eq (args : DataSourceArgs P) (permuter : Permuter) (s : RolloutDataSource P) (numSamples : Nat) :
    (s.getSamples args permuter numSamples).1 =
        numberGroups args.nSamplesPerPrompt s.sampleGroupIndex s.sampleIndex (s.drawPrompts args permuter numSamples).1 ∧
      (s.getSamples args permuter numSamples).2.sampleGroupIndex =
        s.sampleGroupIndex + (s.drawPrompts args permuter numSamples).1.length := by
  obtain ⟨groups, samples⟩ := s.drawPrompts_indices args permuter numSamples
  unfold getSamples
  dsimp only
  rw [groups, samples]
  exact ⟨rfl, rfl⟩

end RolloutDataSource

namespace RolloutDataSourceWithBuffer

theorem addSamples_base (samples : List (Group P)) (s : RolloutDataSourceWithBuffer P) :
    (s.addSamples args samples).2.toRolloutDataSource = s.toRolloutDataSource := by
  induction samples generalizing s with
  | nil => rfl
  | cons group rest ih =>
    rw [addSamples]
    split
    · exact ih _
    · rfl

theorem getSamplesFromBuffer_base (numSamples : Nat) (s : RolloutDataSourceWithBuffer P) :
    (s.getSamplesFromBuffer numSamples).2.toRolloutDataSource = s.toRolloutDataSource := by
  unfold getSamplesFromBuffer
  split
  · rfl
  · rfl

/-- **A resumed data source differs in the buffer only.** -/
theorem resume_eq (stored : args.rolloutGlobalDataset = true) {s : RolloutDataSourceWithBuffer P} (synced : s.Synced args permuter) :
    s.resume args permuter = { s with buffer := [] } := by
  unfold resume RolloutDataSource.save new RolloutDataSource.new RolloutDataSource.load
  simp only [stored, if_true]
  unfold RolloutDataSource.Synced at synced
  rw [if_pos stored] at synced
  congr 2
  rw [synced, Option.map_map]
  exact congrFun (congrArg _ (funext fun prompts => shuffleIfAsked_twice ..)) _

variable [Inhabited P]

theorem synced_run {s : RolloutDataSourceWithBuffer P} (synced : s.Synced args permuter) (call : SourceCall P) :
    (call.run args permuter s).2.Synced args permuter := by
  cases call with
  | addSamples samples =>
    show (s.addSamples args samples).2.toRolloutDataSource.Synced args permuter
    rwa [addSamples_base]
  | getSamples numSamples =>
    show (s.getSamples args permuter numSamples).2.Synced args permuter
    have popped := getSamplesFromBuffer_base numSamples s
    unfold getSamples
    dsimp only
    split
    · rwa [popped]
    · dsimp only
      rw [popped]
      exact synced.getSamples _

theorem synced_runCalls {s : RolloutDataSourceWithBuffer P} (synced : s.Synced args permuter) (calls : List (SourceCall P)) :
    (runCalls args permuter calls s).2.Synced args permuter := by
  induction calls generalizing s with
  | nil => exact synced
  | cons call rest ih => exact ih (synced_run synced call)

/-- `get_samples(1)`, `count` times -/
def draws (count : Nat) : List (SourceCall P) := List.replicate count (.getSamples 1)

theorem run_buffered {s : RolloutDataSourceWithBuffer P} {group : Group P} {buffer : List (Group P)} (held : s.buffer = group :: buffer) :
    SourceCall.run args permuter s (.getSamples 1) = (.ok [group], { s with buffer }) := by
  simp [SourceCall.run, getSamples, getSamplesFromBuffer, popFirst, held]

/-- Buffered groups come out one by one. -/
theorem draws_buffered (count : Nat) (buffer : List (Group P)) (s : RolloutDataSourceWithBuffer P) :
    (runCalls args permuter (draws (buffer.length + count)) { s with buffer }).1 =
      buffer.map (fun group => .ok [group]) ++ (runCalls args permuter (draws count) { s with buffer := [] }).1 := by
  induction buffer with
  | nil => rw [List.length_nil, Nat.zero_add, List.map_nil, List.nil_append]
  | cons group buffer ih =>
    have size : (group :: buffer).length + count = buffer.length + count + 1 := by
      rw [List.length_cons]
      omega
    rw [size, draws, List.replicate_succ, runCalls, run_buffered rfl]
    exact congrArg (_ :: ·) ih

theorem run_fresh (args : DataSourceArgs P) (permuter : Permuter) {s : RolloutDataSourceWithBuffer P} (stocked : s.Stocked)
    (drained : s.buffer = []) :
    ∃ p s', SourceCall.run args permuter s (.getSamples 1) =
        (.ok [numberGroup args.nSamplesPerPrompt s.sampleGroupIndex s.sampleIndex p], s') ∧
      s'.Stocked ∧ s'.buffer = [] ∧ s'.sampleGroupIndex = s.sampleGroupIndex + 1 := by
  have size := stocked.length_draw args permuter Nat.one_pos
  obtain ⟨p, single⟩ := List.length_eq_one_iff.1 (Nat.le_antisymm size.2 size.1)
  obtain ⟨groups, next⟩ := s.getSamples_eq args permuter 1
  have popped : s.getSamplesFromBuffer 1 = ([], s) := by
    rw [getSamplesFromBuffer, if_pos (Or.inl (by rw [drained]; rfl))]
  have ran : s.getSamples args permuter 1 =
      ([numberGroup args.nSamplesPerPrompt s.sampleGroupIndex s.sampleIndex p],
        { s.toRolloutDataSource.getSamples args permuter 1 |>.2 with buffer := [] }) := by
    unfold getSamples
    rw [popped]
    dsimp only
    rw [List.length_nil, Nat.sub_zero, if_neg Nat.one_ne_zero, drained, groups, single]
    rfl
  refine ⟨p, { s.toRolloutDataSource.getSamples args permuter 1 |>.2 with buffer := [] }, ?_, stocked.drawPrompts 1, rfl, ?_⟩
  · unfold SourceCall.run
    dsimp only
    rw [ran]
  · rw [single] at next
    exact next

/-- Groups that are not buffered are numbered on. -/
theorem draws_fresh (args : DataSourceArgs P) (permuter : Permuter) {s : RolloutDataSourceWithBuffer P} (stocked : s.Stocked)
    (drained : s.buffer = []) {count j : Nat}
    (inside : j < count) : ∃ i p, (runCalls args permuter (draws count) s).1[j]? =
      some (.ok [numberGroup args.nSamplesPerPrompt (s.sampleGroupIndex + j) i p]) := by
  induction j generalizing s count with
  | zero =>
    obtain ⟨count, rfl⟩ : ∃ k, count = k + 1 := ⟨count - 1, by omega⟩
    obtain ⟨p, s', ran, _⟩ := run_fresh args permuter stocked drained
    exact ⟨_, p, by rw [draws, List.replicate_succ, runCalls, ran]; rfl⟩
  | succ j ih =>
    obtain ⟨count, rfl⟩ : ∃ k, count = k + 1 := ⟨count - 1, by omega⟩
    obtain ⟨p, s', ran, stocked', drained', next⟩ := run_fresh args permuter stocked drained
    obtain ⟨i, q, found⟩ := ih stocked' drained' (show j < count by omega)
    have number : s.sampleGroupIndex + (j + 1) = s'.sampleGroupIndex + j := by omega
    refine ⟨i, q, ?_⟩
    rw [draws, List.replicate_succ, runCalls, ran, number]
    exact found

/-- Without prompts nothing is drawn. -/
theorem draw_empty {s : RolloutDataSourceWithBuffer P} {d : Dataset P} (known : s.dataset = some d) (empty : d.samples = [])
    (drained : s.buffer = []) : (runCalls args permuter (draws 1) s).1 = [.ok []] := by
  have popped : s.getSamplesFromBuffer 1 = ([], s) := by
    rw [getSamplesFromBuffer, if_pos (Or.inl (by rw [drained]; rfl))]
  have ran : (s.getSamples args permuter 1).1 = [] := by
    unfold getSamples
    rw [popped]
    dsimp only
    rw [List.length_nil, Nat.sub_zero, if_neg Nat.one_ne_zero, (s.getSamples_eq args permuter 1).1,
      RolloutDataSource.drawPrompts_empty known empty]
    rfl
  show [Except.ok (s.getSamples args permuter 1).1] = _
  rw [ran]

end RolloutDataSourceWithBuffer

open RolloutDataSourceWithBuffer in
/-- **A resumed data source goes on like the saved one if and only if no group was
buffered at the save.** -/
theorem resumes_after_iff [Inhabited P] (stored : args.rolloutGlobalDataset = true) (done : List (SourceCall P)) :
    ResumesAfter args permuter done ↔ (runCalls args permuter done (.new args permuter)).2.buffer = [] := by
  unfold ResumesAfter
  have synced := synced_runCalls (s := .new args permuter) (RolloutDataSource.synced_new args permuter) done
  generalize (runCalls args permuter done (.new args permuter)).2 = s at *
  dsimp only
  rw [resume_eq stored synced]
  constructor
  · intro same
    by_contra buffered
    have filled := List.length_pos_iff.2 buffered
    have saved (count : Nat) : (runCalls args permuter (draws (s.buffer.length + count)) s).1 = _ :=
      draws_buffered count s.buffer s
    by_cases stocked : s.Stocked
    · -- the draw after the buffered groups has the first number, and a later one
      have drawn := same (draws (s.buffer.length + 1))
      obtain ⟨i, p, late⟩ := draws_fresh args permuter (s := { s with buffer := [] }) stocked rfl (Nat.lt_succ_self s.buffer.length)
      obtain ⟨i', p', first⟩ := draws_fresh args permuter (s := { s with buffer := [] }) stocked rfl Nat.one_pos
      rw [drawn, saved, List.getElem?_append_right (by rw [List.length_map]), List.length_map, Nat.sub_self, first] at late
      have number := numberGroup_inj args.nSamplesPerPrompt.pos (List.cons.inj (Except.ok.inj (Option.some.inj late))).1
      dsimp only at number
      omega
    · obtain ⟨d, known, empty⟩ : ∃ d, s.dataset = some d ∧ d.samples = [] := by
        unfold RolloutDataSource.Stocked at stocked
        push Not at stocked
        exact stocked
      obtain ⟨group, buffer, held⟩ := List.exists_cons_of_ne_nil buffered
      have first : (runCalls args permuter (draws 1) s).1 = [.ok [group]] := by
        rw [draws, List.replicate_one, runCalls, run_buffered held]
        rfl
      have drawn := same (draws 1)
      rw [first, draw_empty (s := { s with buffer := [] }) known empty rfl] at drawn
      cases (List.cons.inj drawn).1
  · intro drained rest
    rw [← drained]

end Draws

def reversed : Permuter where
  permutation _ n := (List.range n).reverse
  isPerm _ _ := List.reverse_perm _

def twoPrompts : DataSourceArgs Nat where
  rolloutGlobalDataset := true
  promptData := some [10, 20]
  rolloutShuffle := true
  rolloutSeed := 42
  nSamplesPerPrompt := Nat.succPNat 0

theorem resumes_after_iff_two : ResumesAfter twoPrompts reversed [.getSamples 3] ↔
    (runCalls twoPrompts reversed [.getSamples 3] (.new twoPrompts reversed)).2.buffer = [] :=
  resumes_after_iff rfl _

/-- The group that was given back before the save is lost. -/
theorem not_resumesAfter_two : ¬ResumesAfter twoPrompts reversed [.getSamples 1, .addSamples [[⟨some 0, some 0, 20⟩]]] := by
  intro same
  exact absurd (same [.getSamples 1]) (by decide)

end SlimeBoard
