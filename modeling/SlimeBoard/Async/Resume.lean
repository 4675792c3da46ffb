import SlimeBoard.Async.Pipeline
import SlimeBoard.Rollout.DataSource

/-!
# Resuming asynchronous training

The rollout manager executes the calls of the training loop in the order in which they are
submitted. When the data source is saved after a rollout, the next rollout has been
submitted already, so it has drawn its prompts.
-/

namespace SlimeBoard

open Futures RolloutDataSourceWithBuffer

/-- What the rollout function does with the data source: `requests` draws of
`over_sampling_batch_size` prompts, after which the groups that were aborted are given
back. Their samples have the numbers that they were drawn with. -/
structure RolloutFn (P : Type) where
  overSamplingBatchSize : ℕ+
  requests : Nat → ℕ+
  aborted : Nat → List (Group P) → List (Group P)
  fromDrawn : ∀ rolloutId drawn, ∀ group ∈ aborted rolloutId drawn,
    ∃ group' ∈ drawn, group.map (·.groupIndex) = group'.map (·.groupIndex)

/-- The state of the rollout manager, with the groups that each rollout has drawn and the
state of the data source that was saved after it. -/
structure RolloutManager (P : Type) where
  source : RolloutDataSourceWithBuffer P
  draws : Nat → Option (List (Group P))
  saved : Nat → Option (Option StateDict)

section Code

variable {P : Type} [Inhabited P] (args : AsyncArgs) (sourceArgs : DataSourceArgs P) (permuter : Permuter) (rollout : RolloutFn P)

/-- The draws of `generate_rollout_async`. -/
def drawGroups : (requests : Nat) → RolloutDataSourceWithBuffer P → List (Group P) × RolloutDataSourceWithBuffer P
  | 0, s => ([], s)
  | requests + 1, s =>
    let (samples, s) := s.getSamples sourceArgs permuter rollout.overSamplingBatchSize
    let (more, s) := drawGroups requests s
    (samples ++ more, s)

def generateRollout (rolloutId : Nat) (s : RolloutDataSourceWithBuffer P) :
    List (Group P) × RolloutDataSourceWithBuffer P :=
  let (drawn, s) := drawGroups sourceArgs permuter rollout (rollout.requests rolloutId) s
  (drawn, (s.addSamples sourceArgs (rollout.aborted rolloutId drawn)).2)

/-- `create_training_models` loads the data source. -/
def RolloutManager.start (loaded : Option StateDict) : RolloutManager P where
  source := { RolloutDataSource.load sourceArgs permuter loaded (.new sourceArgs permuter) with buffer := [] }
  draws _ := none
  saved _ := none

def RolloutManager.exec (m : RolloutManager P) : Act Nat Work → RolloutManager P
  | .submit rolloutId =>
    let (drawn, source) := generateRollout sourceArgs permuter rollout rolloutId m.source
    { m with source, draws := Function.update m.draws rolloutId (some drawn) }
  | .act (.saveData rolloutId) =>
    { m with saved := Function.update m.saved rolloutId (some (m.source.save sourceArgs)) }
  | _ => m

/-- A run of `train_async` from a data source that was loaded. -/
def managerRun (loaded : Option StateDict) : RolloutManager P :=
  (trainAsync args).foldl (.exec sourceArgs permuter rollout) (.start sourceArgs permuter loaded)

/-- A run that is started after rollout `rolloutId` draws from what was saved after it what
the run that goes on draws. -/
def ResumesRollouts (loaded : Option StateDict) (rolloutId : Nat) (written : Option StateDict) : Prop :=
  ∀ later, rolloutId < later → ∀ drawn, (managerRun args sourceArgs permuter rollout loaded).draws later = some drawn →
    (managerRun { args with startRolloutId := rolloutId + 1 } sourceArgs permuter rollout written).draws later = some drawn

end Code

/-! ## What the program submits before it saves -/

/-- After the calls `submitted`, no call is submitted twice, and a save after a rollout
comes when the next one, if there is one, is submitted. -/
def Early (numRollout : Nat) : List Nat → List (Act Nat Work) → Prop
  | _, [] => True
  | submitted, .submit i :: rest => i ∉ submitted ∧ Early numRollout (i :: submitted) rest
  | submitted, .act (.saveData r) :: rest =>
    (r < numRollout ∧ (r + 1 < numRollout → r + 1 ∈ submitted)) ∧ Early numRollout submitted rest
  | submitted, _ :: rest => Early numRollout submitted rest

section Program

variable {args : AsyncArgs} {numRollout : Nat} {submitted : List Nat} {rest : List (Act Nat Work)}

theorem early_get {future : Option Nat} :
    Early numRollout submitted (getIfAny future ++ rest) ↔ Early numRollout submitted rest := by
  cases future with
  | none => exact Iff.rfl
  | some i => exact Iff.rfl

theorem early_submit {i : Nat} :
    Early numRollout submitted ([.submit i] ++ rest) ↔ i ∉ submitted ∧ Early numRollout (i :: submitted) rest := Iff.rfl

theorem early_work {work : List Work}
    (saves : ∀ r, .saveData r ∈ work → r < numRollout ∧ (r + 1 < numRollout → r + 1 ∈ submitted)) :
    Early numRollout submitted (work.map .act ++ rest) ↔ Early numRollout submitted rest := by
  induction work with
  | nil => exact Iff.rfl
  | cons w work ih =>
    have tail := ih fun r mem => saves r (List.mem_cons_of_mem _ mem)
    cases w with
    | saveData r => exact (and_iff_right (saves r (List.mem_cons_self ..))).trans tail
    | _ => exact tail

theorem early_loop {turns rolloutId : Nat} {next curr : Option Nat} (left : rolloutId + turns = args.numRollout)
    (before : ∀ i ∈ submitted, i ≤ rolloutId) :
    Early args.numRollout submitted (trainLoop args turns rolloutId next curr ++ [.act .dispose]) := by
  induction turns generalizing rolloutId next curr submitted with
  | zero => exact trivial
  | succ turns ih =>
    have saves {submitted : List Nat} (early : rolloutId + 1 < args.numRollout → rolloutId + 1 ∈ submitted) (r : Nat)
        (mem : .saveData r ∈ trainWork args rolloutId (next.or curr) ++ saveWork args rolloutId) :
        r < args.numRollout ∧ (r + 1 < args.numRollout → r + 1 ∈ submitted) := by
      rcases List.mem_append.1 mem with train | save
      · obtain ⟨_, same⟩ := mem_trainWork args train
        cases same
      · rcases mem_saveWork args save with ⟨_, _, same⟩ | same
        · cases same
        · cases same
          exact ⟨by omega, early⟩
    have eval {submitted : List Nat} (r : Nat) (mem : .saveData r ∈ evalWork args rolloutId) :
        r < args.numRollout ∧ (r + 1 < args.numRollout → r + 1 ∈ submitted) := by
      cases mem_evalWork args mem
    have update {submitted : List Nat} (r : Nat) (mem : .saveData r ∈ updateWork args ++ evalWork args rolloutId) :
        r < args.numRollout ∧ (r + 1 < args.numRollout → r + 1 ∈ submitted) := by
      rcases List.mem_append.1 mem with here | here
      · cases mem_updateWork args here
      · cases mem_evalWork args here
    rw [trainLoop]
    by_cases more : rolloutId + 1 < args.numRollout
    · have fresh : rolloutId + 1 ∉ submitted := fun mem => absurd (before _ mem) (by omega)
      have later : ∀ i ∈ (rolloutId + 1) :: submitted, i ≤ rolloutId + 1 := fun i mem => by
        rcases List.mem_cons.1 mem with rfl | mem
        · exact le_rfl
        · exact (before i mem).trans (Nat.le_succ _)
      have early : rolloutId + 1 < args.numRollout → rolloutId + 1 ∈ (rolloutId + 1) :: submitted :=
        fun _ => List.mem_cons_self ..
      simp only [if_pos more]
      split
      · simp only [List.append_assoc]
        rw [early_get, early_submit, early_work (saves early), early_get, early_work update]
        exact ⟨fresh, ih (by omega) later⟩
      · simp only [List.append_assoc]
        rw [early_get, early_submit, early_work (saves early), early_work eval]
        exact ⟨fresh, ih (by omega) later⟩
    · have later : ∀ i ∈ submitted, i ≤ rolloutId + 1 := fun i mem => (before i mem).trans (Nat.le_succ _)
      simp only [if_neg more]
      split
      · simp only [List.append_assoc, List.nil_append]
        rw [early_get, early_work (saves fun h => absurd h more), early_get, early_work update]
        exact ih (by omega) later
      · simp only [List.append_assoc, List.nil_append]
        rw [early_get, early_work (saves fun h => absurd h more), early_work eval]
        exact ih (by omega) later

theorem early_trainAsync (started : args.startRolloutId < args.numRollout) : Early args.numRollout [] (trainAsync args) := by
  unfold trainAsync
  simp only [List.append_assoc]
  rw [early_work fun r mem => by cases mem_updateWork args mem]
  refine ⟨List.not_mem_nil, early_loop (by omega) fun i mem => ?_⟩
  exact (List.mem_singleton.1 mem).le

end Program

/-! ## The numbers of the groups -/

/-- The numbers of the groups are below `bound`. -/
def Below {P : Type} (bound : Nat) (groups : List (Group P)) : Prop :=
  ∀ group ∈ groups, ∀ number ∈ group.map (·.groupIndex), ∃ i < bound, number = some i

/-- The buffered groups have been drawn before. -/
def Numbered {P : Type} (s : RolloutDataSourceWithBuffer P) : Prop := Below s.sampleGroupIndex s.buffer

section Numbers

variable {P : Type}

theorem Below.mono {a b : Nat} {groups : List (Group P)} (below : Below a groups) (le : a ≤ b) : Below b groups := by
  intro group mem number here
  obtain ⟨i, lt, same⟩ := below group mem number here
  exact ⟨i, lt.trans_le le, same⟩

theorem Below.append {bound : Nat} {front back : List (Group P)} (first : Below bound front) (second : Below bound back) :
    Below bound (front ++ back) :=
  fun group mem => (List.mem_append.1 mem).elim (first group) (second group)

theorem below_numberGroups (n groupIndex index : Nat) (prompts : List P) :
    Below (groupIndex + prompts.length) (numberGroups n groupIndex index prompts) := by
  induction prompts generalizing groupIndex index with
  | nil => exact fun group mem => by cases mem
  | cons prompt rest ih =>
    intro group mem number here
    rw [List.length_cons]
    rcases List.mem_cons.1 mem with rfl | mem
    · obtain ⟨sample, inside, rfl⟩ := List.mem_map.1 here
      obtain ⟨j, _, rfl⟩ := List.mem_map.1 inside
      exact ⟨groupIndex, by omega, rfl⟩
    · obtain ⟨i, lt, same⟩ := ih (groupIndex + 1) (index + n) group mem number here
      exact ⟨i, by omega, same⟩

variable {sourceArgs : DataSourceArgs P}

theorem mem_addSamples {samples : List (Group P)} {s : RolloutDataSourceWithBuffer P} {group : Group P}
    (mem : group ∈ (s.addSamples sourceArgs samples).2.buffer) : group ∈ s.buffer ∨ group ∈ samples := by
  induction samples generalizing s with
  | nil => exact Or.inl mem
  | cons head rest ih =>
    rw [addSamples] at mem
    split at mem
    · rcases ih mem with held | later
      · rcases List.mem_append.1 held with before | same
        · exact Or.inl before
        · exact Or.inr (List.mem_singleton.1 same ▸ List.mem_cons_self ..)
      · exact Or.inr (List.mem_cons_of_mem _ later)
    · exact Or.inl mem

variable [Inhabited P] {permuter : Permuter} {rollout : RolloutFn P}

theorem Numbered.getSamples (sourceArgs : DataSourceArgs P) (permuter : Permuter) {s : RolloutDataSourceWithBuffer P}
    (numbered : Numbered s) (numSamples : Nat) :
    Numbered (s.getSamples sourceArgs permuter numSamples).2 ∧
      Below (s.getSamples sourceArgs permuter numSamples).2.sampleGroupIndex (s.getSamples sourceArgs permuter numSamples).1 ∧
      s.sampleGroupIndex ≤ (s.getSamples sourceArgs permuter numSamples).2.sampleGroupIndex := by
  obtain ⟨popped, kept, front, back⟩ : ∃ popped, ∃ kept, s.getSamplesFromBuffer numSamples = (popped, { s with buffer := kept }) ∧
      s.buffer = popped ++ kept := by
    unfold getSamplesFromBuffer popFirst
    split
    · exact ⟨[], s.buffer, rfl, rfl⟩
    · exact ⟨_, _, rfl, (List.take_append_drop ..).symm⟩
  have taken : Below s.sampleGroupIndex popped := fun group mem => numbered group (back ▸ List.mem_append_left _ mem)
  have stays : Below s.sampleGroupIndex kept := fun group mem => numbered group (back ▸ List.mem_append_right _ mem)
  unfold RolloutDataSourceWithBuffer.getSamples
  rw [front]
  dsimp only
  split
  · exact ⟨stays, taken, le_rfl⟩
  · dsimp only
    obtain ⟨groups, next⟩ := s.toRolloutDataSource.getSamples_eq sourceArgs permuter (numSamples - popped.length)
    have grows : s.sampleGroupIndex ≤
        (s.toRolloutDataSource.getSamples sourceArgs permuter (numSamples - popped.length)).2.sampleGroupIndex := by
      rw [next]
      exact Nat.le_add_right ..
    refine ⟨stays.mono grows, (taken.mono grows).append ?_, grows⟩
    rw [groups, next]
    exact below_numberGroups _ _ _ _

theorem Numbered.drawGroups (sourceArgs : DataSourceArgs P) (permuter : Permuter) (rollout : RolloutFn P)
    {s : RolloutDataSourceWithBuffer P} (numbered : Numbered s) (requests : Nat) :
    Numbered (SlimeBoard.drawGroups sourceArgs permuter rollout requests s).2 ∧
      Below (SlimeBoard.drawGroups sourceArgs permuter rollout requests s).2.sampleGroupIndex
        (SlimeBoard.drawGroups sourceArgs permuter rollout requests s).1 ∧
      s.sampleGroupIndex ≤ (SlimeBoard.drawGroups sourceArgs permuter rollout requests s).2.sampleGroupIndex := by
  induction requests generalizing s with
  | zero => exact ⟨numbered, (fun group mem => by cases mem), le_rfl⟩
  | succ requests ih =>
    obtain ⟨next, drawn, grows⟩ := numbered.getSamples sourceArgs permuter rollout.overSamplingBatchSize
    obtain ⟨last, more, grows'⟩ := ih next
    exact ⟨last, (drawn.mono grows').append more, grows.trans grows'⟩

/-- **What a rollout draws is numbered below what comes after it.** -/
theorem Numbered.generateRollout (sourceArgs : DataSourceArgs P) (permuter : Permuter) (rollout : RolloutFn P)
    {s : RolloutDataSourceWithBuffer P} (numbered : Numbered s) (rolloutId : Nat) :
    Numbered (SlimeBoard.generateRollout sourceArgs permuter rollout rolloutId s).2 ∧
      Below (SlimeBoard.generateRollout sourceArgs permuter rollout rolloutId s).2.sampleGroupIndex
        (SlimeBoard.generateRollout sourceArgs permuter rollout rolloutId s).1 ∧
      s.sampleGroupIndex ≤ (SlimeBoard.generateRollout sourceArgs permuter rollout rolloutId s).2.sampleGroupIndex := by
  obtain ⟨next, drawn, grows⟩ := numbered.drawGroups sourceArgs permuter rollout (rollout.requests rolloutId)
  unfold SlimeBoard.generateRollout
  dsimp only
  unfold Numbered
  rw [addSamples_base]
  refine ⟨fun group mem number here => ?_, drawn, grows⟩
  rcases mem_addSamples mem with held | given
  · exact next group held number here
  · obtain ⟨group', from', same⟩ := rollout.fromDrawn _ _ group given
    rw [same] at here
    exact drawn group' from' number here

/-- A rollout on a data source without buffered groups draws the group with the next number first. -/
theorem generateRollout_fresh (rollout : RolloutFn P) {s : RolloutDataSourceWithBuffer P} (stocked : s.Stocked)
    (drained : s.buffer = []) (rolloutId : Nat) :
    ∃ i p rest, (generateRollout sourceArgs permuter rollout rolloutId s).1 =
      numberGroup sourceArgs.nSamplesPerPrompt s.sampleGroupIndex i p :: rest := by
  obtain ⟨requests, more⟩ : ∃ k, (rollout.requests rolloutId : Nat) = k + 1 := ⟨_, (PNat.natPred_add_one _).symm⟩
  have size := stocked.length_draw sourceArgs permuter rollout.overSamplingBatchSize.pos
  obtain ⟨p, prompts, drawn⟩ := List.exists_cons_of_length_pos size.1
  have popped : s.getSamplesFromBuffer rollout.overSamplingBatchSize = ([], s) := by
    rw [getSamplesFromBuffer, if_pos (Or.inl (by rw [drained]; rfl))]
  have first : (s.getSamples sourceArgs permuter rollout.overSamplingBatchSize).1 =
      numberGroups sourceArgs.nSamplesPerPrompt s.sampleGroupIndex s.sampleIndex (p :: prompts) := by
    unfold RolloutDataSourceWithBuffer.getSamples
    rw [popped]
    dsimp only
    rw [List.length_nil, Nat.sub_zero, if_neg rollout.overSamplingBatchSize.pos.ne',
      (s.toRolloutDataSource.getSamples_eq sourceArgs permuter _).1, drawn]
    rfl
  unfold generateRollout
  rw [more, drawGroups]
  dsimp only
  rw [first]
  exact ⟨_, p, _, rfl⟩

end Numbers

section Prompts

variable {P : Type} {sourceArgs : DataSourceArgs P} {permuter : Permuter}

theorem synced_start (stored : sourceArgs.rolloutGlobalDataset = true) (loaded : Option StateDict) :
    (RolloutManager.start sourceArgs permuter loaded).source.Synced sourceArgs permuter := by
  cases loaded with
  | none => exact RolloutDataSource.synced_new ..
  | some dict =>
    show RolloutDataSource.Synced _ _ (RolloutDataSource.load sourceArgs permuter (some dict) _)
    unfold RolloutDataSource.load RolloutDataSource.new RolloutDataSource.Synced
    simp only [stored, if_true, Option.map_map]
    exact congrFun (congrArg _ (funext fun prompts => shuffleIfAsked_twice ..)) _

theorem stocked_of_synced {s : RolloutDataSource P} (synced : s.Synced sourceArgs permuter) (prompts : sourceArgs.promptData ≠ some []) :
    s.Stocked := by
  intro d known empty
  rw [RolloutDataSource.Synced, known] at synced
  split at synced
  · obtain ⟨front, data, rfl⟩ := Option.map_eq_some_iff.1 synced.symm
    have whole := length_shuffleIfAsked sourceArgs permuter s.epochId (.new front sourceArgs.rolloutSeed)
    rw [empty] at whole
    exact prompts (data.trans (congrArg some (List.eq_nil_of_length_eq_zero whole.symm)))
  · cases synced

/-- A data source without prompts. -/
structure Exhausted (sourceArgs : DataSourceArgs P) (permuter : Permuter) (s : RolloutDataSourceWithBuffer P) : Prop where
  synced : s.Synced sourceArgs permuter
  drained : s.buffer = []

theorem Exhausted.dataset (stored : sourceArgs.rolloutGlobalDataset = true) (none : sourceArgs.promptData = some [])
    {s : RolloutDataSourceWithBuffer P} (exhausted : Exhausted sourceArgs permuter s) :
    ∃ d, s.dataset = some d ∧ d.samples = [] := by
  have synced := exhausted.synced
  rw [RolloutDataSource.Synced, if_pos stored, none] at synced
  have whole := length_shuffleIfAsked sourceArgs permuter s.epochId (.new [] sourceArgs.rolloutSeed)
  exact ⟨_, synced, List.eq_nil_of_length_eq_zero whole⟩

end Prompts

section Runs

variable {P : Type} [Inhabited P] {sourceArgs : DataSourceArgs P} {permuter : Permuter} {rollout : RolloutFn P}

/-- What is known of the manager when the rollouts `submitted` have been submitted: a data
source that was saved numbers on from groups that the next rollout has drawn already. -/
structure RolloutManager.Ahead (numRollout : Nat) (submitted : List Nat) (m : RolloutManager P) : Prop where
  numbered : Numbered m.source
  drawn : ∀ i ∈ submitted, ∃ groups, m.draws i = some groups ∧ Below m.source.sampleGroupIndex groups
  range : ∀ r written, m.saved r = some written → r < numRollout
  saved : ∀ r written, m.saved r = some written → r + 1 < numRollout → r + 1 ∈ submitted ∧
    ∃ dict groups, written = some dict ∧ m.draws (r + 1) = some groups ∧ Below dict.sampleGroupIndex groups

theorem RolloutManager.Ahead.run (stored : sourceArgs.rolloutGlobalDataset = true) {numRollout : Nat} {submitted : List Nat}
    {m : RolloutManager P} {program : List (Act Nat Work)} (ahead : m.Ahead numRollout submitted)
    (early : Early numRollout submitted program) :
    ∃ submitted', (program.foldl (.exec sourceArgs permuter rollout) m).Ahead numRollout submitted' := by
  induction program generalizing m submitted with
  | nil => exact ⟨submitted, ahead⟩
  | cons a rest ih =>
    obtain ⟨numbered, drawn, range, saved⟩ := ahead
    cases a with
    | submit i =>
      obtain ⟨fresh, early⟩ := early
      obtain ⟨next, below, grows⟩ := numbered.generateRollout sourceArgs permuter rollout i
      refine ih ⟨next, fun j mem => ?_, range, fun r written here more => ?_⟩ early
      · rcases List.mem_cons.1 mem with rfl | mem
        · exact ⟨_, Function.update_self .., below⟩
        · obtain ⟨groups, held, old⟩ := drawn j mem
          have other : j ≠ i := fun same => fresh (same ▸ mem)
          exact ⟨groups, (Function.update_of_ne other ..).trans held, old.mono grows⟩
      · obtain ⟨mem, dict, groups, same, held, old⟩ := saved r written here more
        have other : r + 1 ≠ i := fun same => fresh (same ▸ mem)
        exact ⟨List.mem_cons_of_mem _ mem, dict, groups, same, (Function.update_of_ne other ..).trans held, old⟩
    | get i => exact ih ⟨numbered, drawn, range, saved⟩ early
    | act w =>
      cases w with
      | saveData r =>
        obtain ⟨⟨inside, next⟩, early⟩ := early
        refine ih ⟨numbered, drawn, fun r' written here => ?_, fun r' written here more => ?_⟩ early
        · by_cases same : r' = r
          · exact same ▸ inside
          · exact range r' written ((Function.update_of_ne same ..).symm.trans here)
        by_cases same : r' = r
        · rw [same] at here more ⊢
          obtain ⟨groups, held, below⟩ := drawn (r + 1) (next more)
          have here : Function.update m.saved r (some (m.source.save sourceArgs)) r = some written := here
          rw [Function.update_self, RolloutDataSource.save, if_pos stored] at here
          exact ⟨next more, _, groups, (Option.some.inj here).symm, held, below⟩
        · exact saved r' written ((Function.update_of_ne same ..).symm.trans here) more
      | _ => exact ih ⟨numbered, drawn, range, saved⟩ early

/-- What has been drawn for a rollout stays. -/
theorem draws_stay {numRollout : Nat} {submitted : List Nat} {m : RolloutManager P} {program : List (Act Nat Work)}
    (early : Early numRollout submitted program) {i : Nat} (mem : i ∈ submitted) :
    (program.foldl (.exec sourceArgs permuter rollout) m).draws i = m.draws i := by
  induction program generalizing m submitted with
  | nil => rfl
  | cons a rest ih =>
    cases a with
    | submit j =>
      obtain ⟨fresh, early⟩ := early
      have other : i ≠ j := fun same => fresh (same ▸ mem)
      exact (ih early (List.mem_cons_of_mem _ mem)).trans (Function.update_of_ne other ..)
    | get j => exact ih early mem
    | act w =>
      cases w with
      | saveData r => exact ih early.2 mem
      | _ => exact ih early mem

/-- A rollout has draws if and only if it is submitted. -/
theorem draws_isSome {m : RolloutManager P} {program : List (Act Nat Work)} {i : Nat} :
    ((program.foldl (.exec sourceArgs permuter rollout) m).draws i).isSome ↔ (m.draws i).isSome ∨ i ∈ generated program := by
  induction program generalizing m with
  | nil => exact (or_iff_left List.not_mem_nil).symm
  | cons a rest ih =>
    rw [List.foldl_cons, ih]
    cases a with
    | submit j =>
      show (Function.update m.draws j _ i).isSome ∨ _ ↔ _ ∨ i ∈ j :: generated rest
      by_cases same : i = j
      · rw [same, Function.update_self]
        exact iff_of_true (Or.inl rfl) (Or.inr (List.mem_cons_self ..))
      · rw [Function.update_of_ne same, List.mem_cons, or_iff_right same]
    | get j => exact Iff.rfl
    | act w =>
      cases w with
      | _ => exact Iff.rfl

section Exhausted

variable (stored : sourceArgs.rolloutGlobalDataset = true) (none : sourceArgs.promptData = some [])

include stored none

theorem Exhausted.getSamples {s : RolloutDataSourceWithBuffer P} (exhausted : Exhausted sourceArgs permuter s) (numSamples : Nat) :
    (s.getSamples sourceArgs permuter numSamples).1 = [] ∧
      Exhausted sourceArgs permuter (s.getSamples sourceArgs permuter numSamples).2 := by
  obtain ⟨d, known, empty⟩ := exhausted.dataset stored none
  have popped : s.getSamplesFromBuffer numSamples = ([], s) := by
    rw [getSamplesFromBuffer, if_pos (Or.inl (by rw [exhausted.drained]; rfl))]
  unfold RolloutDataSourceWithBuffer.getSamples
  rw [popped]
  dsimp only
  split
  · exact ⟨rfl, exhausted⟩
  · dsimp only
    rw [(s.toRolloutDataSource.getSamples_eq sourceArgs permuter _).1, RolloutDataSource.drawPrompts_empty known empty]
    exact ⟨rfl, exhausted.synced.getSamples _, exhausted.drained⟩

theorem Exhausted.drawGroups (rollout : RolloutFn P) {s : RolloutDataSourceWithBuffer P}
    (exhausted : Exhausted sourceArgs permuter s) (requests : Nat) :
    (SlimeBoard.drawGroups sourceArgs permuter rollout requests s).1 = [] ∧
      Exhausted sourceArgs permuter (SlimeBoard.drawGroups sourceArgs permuter rollout requests s).2 := by
  induction requests generalizing s with
  | zero => exact ⟨rfl, exhausted⟩
  | succ requests ih =>
    obtain ⟨drawn, next⟩ := exhausted.getSamples stored none rollout.overSamplingBatchSize
    obtain ⟨more, last⟩ := ih next
    rw [SlimeBoard.drawGroups]
    dsimp only
    rw [drawn, more]
    exact ⟨rfl, last⟩

theorem Exhausted.generateRollout (rollout : RolloutFn P) {s : RolloutDataSourceWithBuffer P}
    (exhausted : Exhausted sourceArgs permuter s) (rolloutId : Nat) :
    (SlimeBoard.generateRollout sourceArgs permuter rollout rolloutId s).1 = [] ∧
      Exhausted sourceArgs permuter (SlimeBoard.generateRollout sourceArgs permuter rollout rolloutId s).2 := by
  obtain ⟨drawn, next⟩ := exhausted.drawGroups stored none rollout (rollout.requests rolloutId)
  unfold SlimeBoard.generateRollout
  dsimp only
  rw [drawn]
  have given : rollout.aborted rolloutId [] = [] := by
    refine List.eq_nil_iff_forall_not_mem.2 fun group mem => ?_
    obtain ⟨group', from', _⟩ := rollout.fromDrawn rolloutId [] group mem
    cases from'
  rw [given]
  exact ⟨rfl, next⟩

/-- Without prompts the rollouts draw nothing. -/
theorem Exhausted.run {m : RolloutManager P} {program : List (Act Nat Work)} (exhausted : Exhausted sourceArgs permuter m.source)
    (empty : ∀ i groups, m.draws i = some groups → groups = []) {i : Nat} {groups : List (Group P)}
    (drawn : (program.foldl (.exec sourceArgs permuter rollout) m).draws i = some groups) : groups = [] := by
  induction program generalizing m with
  | nil => exact empty i groups drawn
  | cons a rest ih =>
    cases a with
    | submit j =>
      obtain ⟨nothing, next⟩ := exhausted.generateRollout stored none rollout j
      refine ih next (fun k more here => ?_) drawn
      have here : Function.update m.draws j (some (SlimeBoard.generateRollout sourceArgs permuter rollout j m.source).1) k =
        some more := here
      by_cases same : k = j
      · rw [same, Function.update_self, nothing] at here
        exact (Option.some.inj here).symm
      · rw [Function.update_of_ne same] at here
        exact empty k more here
    | get j => exact ih exhausted empty drawn
    | act w =>
      cases w with
      | saveData r =>
        refine ih ?_ ?_ drawn
        · exact exhausted
        · exact empty
      | _ => exact ih exhausted empty drawn

end Exhausted

/-- The draws of the first rollout. -/
theorem draws_first {args : AsyncArgs} (started : args.startRolloutId < args.numRollout) (loaded : Option StateDict) :
    (managerRun args sourceArgs permuter rollout loaded).draws args.startRolloutId =
      some (generateRollout sourceArgs permuter rollout args.startRolloutId (RolloutManager.start sourceArgs permuter loaded).source).1 := by
  have early := early_trainAsync started
  have idle (m : RolloutManager P) : ((updateWork args).map .act).foldl (.exec sourceArgs permuter rollout) m = m := by
    unfold updateWork
    split
    · rfl
    · rfl
  unfold trainAsync at early
  unfold managerRun trainAsync
  simp only [List.append_assoc] at early ⊢
  rw [early_work (fun r mem => by cases mem_updateWork args mem), early_submit] at early
  rw [List.foldl_append, idle, List.foldl_append]
  exact (draws_stay early.2 (List.mem_singleton_self _)).trans (Function.update_self ..)

/-- **A restarted run draws what the run that goes on draws if and only if it was saved after
the last rollout or there are no prompts.** -/
theorem resumes_rollouts_iff {args : AsyncArgs} (started : args.startRolloutId < args.numRollout)
    (stored : sourceArgs.rolloutGlobalDataset = true) (loaded : Option StateDict) {rolloutId : Nat} {written : Option StateDict}
    (saved : (managerRun args sourceArgs permuter rollout loaded).saved rolloutId = some written) :
    ResumesRollouts args sourceArgs permuter rollout loaded rolloutId written ↔
      rolloutId + 1 = args.numRollout ∨ sourceArgs.promptData = some [] := by
  obtain ⟨submitted, ahead⟩ : ∃ submitted, (managerRun args sourceArgs permuter rollout loaded).Ahead args.numRollout submitted := by
    refine RolloutManager.Ahead.run stored ⟨?_, ?_, ?_, ?_⟩ (early_trainAsync started)
    · exact fun group mem => by cases mem
    · exact fun i mem => by cases mem
    · exact fun r written here => by cases here
    · exact fun r written here => by cases here
  have inside := ahead.range rolloutId written saved
  have submits {args : AsyncArgs} (started : args.startRolloutId < args.numRollout) (loaded : Option StateDict) (i : Nat) :
      ((managerRun args sourceArgs permuter rollout loaded).draws i).isSome ↔ args.startRolloutId ≤ i ∧ i < args.numRollout := by
    unfold managerRun
    rw [draws_isSome, generated_trainAsync started, List.mem_range'_1, or_iff_right (by exact Bool.false_ne_true)]
    omega
  constructor
  · intro resumes
    by_contra other
    obtain ⟨notLast, prompts⟩ := not_or.1 other
    have more : rolloutId + 1 < args.numRollout := by omega
    obtain ⟨_, dict, groups, rfl, drawn, below⟩ := ahead.saved rolloutId written saved more
    have again := resumes (rolloutId + 1) (Nat.lt_succ_self _) groups drawn
    have first := (draws_first (show _ < AsyncArgs.numRollout { args with startRolloutId := rolloutId + 1 } from more) (some dict)).symm.trans again
    have number : (RolloutManager.start sourceArgs permuter (some dict)).source.sampleGroupIndex = dict.sampleGroupIndex := by
      unfold RolloutManager.start RolloutDataSource.load
      simp only [stored, if_true]
    obtain ⟨i, p, rest, head⟩ := generateRollout_fresh rollout
      (stocked_of_synced (synced_start stored (some dict)) prompts) rfl (rolloutId + 1)
    rw [number] at head
    -- the next number is not below itself
    obtain ⟨j, smaller, same⟩ := below (numberGroup sourceArgs.nSamplesPerPrompt dict.sampleGroupIndex i p)
      (by rw [← Option.some.inj first, head]; exact List.mem_cons_self ..) (some dict.sampleGroupIndex)
      (List.mem_map.2 ⟨_, List.mem_map_of_mem (List.mem_range.2 sourceArgs.nSamplesPerPrompt.pos), rfl⟩)
    rw [Option.some.inj same] at smaller
    exact lt_irrefl _ smaller
  · rintro (last | none)
    · intro later after drawn here
      have range := ((submits started loaded later).1 (by rw [here]; rfl)).2
      omega
    · intro later after drawn here
      have range := ((submits started loaded later).1 (by rw [here]; rfl)).2
      have nothing (loaded : Option StateDict) : Exhausted sourceArgs permuter (RolloutManager.start sourceArgs permuter loaded).source :=
        ⟨synced_start stored loaded, rfl⟩
      have again := (submits (show _ < AsyncArgs.numRollout { args with startRolloutId := rolloutId + 1 } from by
        show rolloutId + 1 < args.numRollout
        omega) written later).2 ⟨after, range⟩
      obtain ⟨groups, there⟩ := Option.isSome_iff_exists.1 again
      rw [there, (nothing loaded).run stored none (fun i groups here => by cases here) here,
        (nothing written).run stored none (fun i groups here => by cases here) there]

end Runs

/-- Each rollout draws one prompt. -/
def drawOne : RolloutFn Nat where
  overSamplingBatchSize := Nat.succPNat 0
  requests _ := Nat.succPNat 0
  aborted _ _ := []
  fromDrawn := fun _ _ _ mem => by cases mem

theorem resumes_rollouts_iff_three :
    ResumesRollouts threeRollouts twoPrompts reversed drawOne none 2 (some ⟨1, 1, 3, 3, ∅⟩) ↔
      2 + 1 = 3 ∨ twoPrompts.promptData = some [] :=
  resumes_rollouts_iff (by decide) rfl none rfl

/-- What is saved after the first rollout has the draw of the second. -/
theorem not_resumesRollouts_three :
    ∃ written, (managerRun threeRollouts twoPrompts reversed drawOne none).saved 0 = some written ∧
      ¬ResumesRollouts threeRollouts twoPrompts reversed drawOne none 0 written := by
  refine ⟨some ⟨2, 0, 2, 2, ∅⟩, rfl, fun resumes => ?_⟩
  have second := resumes 1 (by decide) [[⟨some 1, some 1, 10⟩]] rfl
  exact absurd second (by decide)

end SlimeBoard
