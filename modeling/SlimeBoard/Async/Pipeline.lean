import SlimeBoard.Lib.Futures

/-!
# The asynchronous training loop

`train_async` has one rollout generated while it trains on the one before. It waits for a
rollout at the head of its turn, or at the end of the turn before if the weights are to be
updated then.
-/

namespace SlimeBoard

open Futures

inductive Model where
  | actor
  | critic
  deriving DecidableEq, Repr

/-- The work of the training loop between its calls of `generate`. The data that a model
trains on is named by the call that generated it. -/
inductive Work where
  | updateWeights
  | asyncTrain (model : Model) (rolloutId : Nat) (rolloutData : Option Nat)
  | saveModel (model : Model) (rolloutId : Nat) (forceSync : Bool)
  | saveData (rolloutId : Nat)
  | eval (rolloutId : Nat)
  | dispose
  deriving DecidableEq, Repr

structure AsyncArgs where
  startRolloutId : Nat
  numRollout : Nat
  updateWeightsInterval : ℕ+
  saveInterval : Option ℕ+
  evalInterval : Option ℕ+
  numRolloutPerEpoch : Option ℕ+
  useCritic : Bool
  criticTrainOnly : Bool
  numCriticOnlySteps : Nat
  rolloutGlobalDataset : Bool

def shouldRunPeriodicAction (rolloutId : Nat) (interval numRolloutPerEpoch : Option ℕ+) (numRollout : Option Nat) : Bool :=
  match interval with
  | none => false
  | some interval =>
    if numRollout = some (rolloutId + 1) then true
    else
      let step := rolloutId + 1
      step % interval = 0 ||
        match numRolloutPerEpoch with
        | none => false
        | some perEpoch => step % perEpoch = 0

section Code

variable (args : AsyncArgs)

def trainWork (rolloutId : Nat) (curr : Option Nat) : List Work :=
  if args.useCritic then
    .asyncTrain .critic rolloutId curr ::
      if args.numCriticOnlySteps ≤ rolloutId ∧ args.criticTrainOnly = false then [.asyncTrain .actor rolloutId curr] else []
  else [.asyncTrain .actor rolloutId curr]

def saveWork (rolloutId : Nat) : List Work :=
  if shouldRunPeriodicAction rolloutId args.saveInterval args.numRolloutPerEpoch (some args.numRollout) then
    let forceSync := decide (rolloutId + 1 = args.numRollout)
    (if args.criticTrainOnly then [] else [.saveModel .actor rolloutId forceSync]) ++
      (if args.useCritic then [.saveModel .critic rolloutId forceSync] else []) ++
      (if args.rolloutGlobalDataset then [.saveData rolloutId] else [])
  else []

def evalWork (rolloutId : Nat) : List Work :=
  if shouldRunPeriodicAction rolloutId args.evalInterval args.numRolloutPerEpoch none then [.eval rolloutId] else []

def updateWork : List Work := if args.criticTrainOnly then [] else [.updateWeights]

/-- `ray.get(x)` if there is one -/
def getIfAny (future : Option Nat) : List (Act Nat Work) := future.toList.map .get

/-- Weights are updated at the end of turn `rolloutId`. -/
def updateDue (rolloutId : Nat) : Prop := (rolloutId + 1) % args.updateWeightsInterval = 0

instance (rolloutId : Nat) : Decidable (updateDue args rolloutId) := inferInstanceAs (Decidable (_ = _))

/-- The loop from turn `rolloutId` on, for `turns` turns. `next` and `curr` stand for
`rollout_data_next_future` and `rollout_data_curr_ref`. -/
def trainLoop : (turns rolloutId : Nat) → (next curr : Option Nat) → List (Act Nat Work)
  | 0, _, _, _ => []
  | turns + 1, rolloutId, next, curr =>
    let curr := next.or curr
    let early : List (Act Nat Work) := if rolloutId + 1 < args.numRollout then [.submit (rolloutId + 1)] else []
    let next' := if rolloutId + 1 < args.numRollout then some (rolloutId + 1) else next
    let work := trainWork args rolloutId curr ++ saveWork args rolloutId
    if updateDue args rolloutId then
      -- the next rollout is waited for before the weights change
      getIfAny next ++ early ++ work.map .act ++ getIfAny next' ++ (updateWork args ++ evalWork args rolloutId).map .act ++
        trainLoop turns (rolloutId + 1) none next'
    else
      getIfAny next ++ early ++ work.map .act ++ (evalWork args rolloutId).map .act ++
        trainLoop turns (rolloutId + 1) next' curr

def trainAsync : List (Act Nat Work) :=
  (updateWork args).map .act ++ [.submit args.startRolloutId] ++
    trainLoop args (args.numRollout - args.startRolloutId) args.startRolloutId (some args.startRolloutId) none ++
    [.act .dispose]

end Code

/-- The rollouts that a model is handed, with their data. -/
def trained (model : Model) (program : List (Act Nat Work)) : List (Nat × Option Nat) :=
  program.filterMap fun
    | .act (.asyncTrain model' rolloutId data) => if model' = model then some (rolloutId, data) else none
    | _ => none

/-- The calls of `generate` that a program submits. -/
def generated (program : List (Act Nat Work)) : List Nat :=
  program.filterMap fun
    | .submit rolloutId => some rolloutId
    | _ => none

/-- The model trains on rollout `rolloutId`. -/
def trains (args : AsyncArgs) : Model → Nat → Prop
  | .actor, rolloutId => args.useCritic = false ∨ args.numCriticOnlySteps ≤ rolloutId ∧ args.criticTrainOnly = false
  | .critic, _ => args.useCritic = true

instance (args : AsyncArgs) (model : Model) (rolloutId : Nat) : Decidable (trains args model rolloutId) := by
  cases model
  · exact inferInstanceAs (Decidable (_ ∨ _))
  · exact inferInstanceAs (Decidable (_ = _))

section Loop

variable (args : AsyncArgs)

theorem trained_append (model : Model) (p q : List (Act Nat Work)) : trained model (p ++ q) = trained model p ++ trained model q :=
  List.filterMap_append

theorem generated_append (p q : List (Act Nat Work)) : generated (p ++ q) = generated p ++ generated q :=
  List.filterMap_append

theorem generated_work (work : List Work) : generated (work.map .act) = [] := by
  unfold generated
  rw [List.filterMap_map]
  exact List.filterMap_eq_nil_iff.2 fun _ _ => rfl

theorem generated_get (future : Option Nat) : generated (getIfAny future) = [] := by
  cases future with
  | none => rfl
  | some i => rfl

theorem trained_get (model : Model) (future : Option Nat) : trained model (getIfAny future) = [] := by
  cases future with
  | none => rfl
  | some i => rfl

theorem trained_work (model : Model) (rolloutId : Nat) (curr : Option Nat) :
    trained model ((trainWork args rolloutId curr).map .act) =
      if trains args model rolloutId then [(rolloutId, curr)] else [] := by
  unfold trainWork trained
  cases critic : args.useCritic with
  | false =>
    cases model with
    | actor =>
      rw [if_pos (show trains args .actor rolloutId from Or.inl critic)]
      rfl
    | critic =>
      have idle : ¬trains args .critic rolloutId := fun h => Bool.false_ne_true (critic.symm.trans h)
      rw [if_neg idle]
      rfl
  | true =>
    have actor : trains args .actor rolloutId ↔ args.numCriticOnlySteps ≤ rolloutId ∧ args.criticTrainOnly = false :=
      or_iff_right fun h => Bool.false_ne_true (h.symm.trans critic)
    cases model with
    | actor =>
      by_cases due : args.numCriticOnlySteps ≤ rolloutId ∧ args.criticTrainOnly = false
      · rw [if_pos (actor.2 due), if_pos rfl, if_pos due]
        rfl
      · rw [if_neg fun h => due (actor.1 h), if_pos rfl, if_neg due]
        rfl
    | critic =>
      rw [if_pos (show trains args .critic rolloutId from critic), if_pos rfl]
      split
      · rfl
      · rfl

/-- Work that no model trains in. -/
theorem trained_idle (model : Model) {work : List Work} (idle : ∀ w ∈ work, ∀ m r d, w ≠ .asyncTrain m r d) :
    trained model (work.map .act) = [] := by
  unfold trained
  rw [List.filterMap_map]
  refine List.filterMap_eq_nil_iff.2 fun w mem => ?_
  cases w with
  | asyncTrain m r d => exact absurd rfl (idle _ mem m r d)
  | _ => rfl

theorem mem_saveWork {w : Work} {rolloutId : Nat} (mem : w ∈ saveWork args rolloutId) :
    (∃ model forceSync, w = .saveModel model rolloutId forceSync) ∨ w = .saveData rolloutId := by
  unfold saveWork at mem
  split at mem
  · rcases List.mem_append.1 mem with front | data
    · rcases List.mem_append.1 front with actor | critic
      · split at actor
        · cases actor
        · exact Or.inl ⟨_, _, List.mem_singleton.1 actor⟩
      · split at critic
        · exact Or.inl ⟨_, _, List.mem_singleton.1 critic⟩
        · cases critic
    · split at data
      · exact Or.inr (List.mem_singleton.1 data)
      · cases data
  · cases mem

theorem mem_evalWork {w : Work} {rolloutId : Nat} (mem : w ∈ evalWork args rolloutId) : w = .eval rolloutId := by
  unfold evalWork at mem
  split at mem
  · exact List.mem_singleton.1 mem
  · cases mem

theorem mem_updateWork {w : Work} (mem : w ∈ updateWork args) : w = .updateWeights := by
  unfold updateWork at mem
  split at mem
  · cases mem
  · exact List.mem_singleton.1 mem

theorem mem_trainWork {w : Work} {rolloutId : Nat} {curr : Option Nat} (mem : w ∈ trainWork args rolloutId curr) :
    ∃ model, w = .asyncTrain model rolloutId curr := by
  unfold trainWork at mem
  split at mem
  · rcases List.mem_cons.1 mem with same | mem
    · exact ⟨_, same⟩
    · split at mem
      · exact ⟨_, List.mem_singleton.1 mem⟩
      · cases mem
  · exact ⟨_, List.mem_singleton.1 mem⟩

theorem trained_save (model : Model) (rolloutId : Nat) : trained model ((saveWork args rolloutId).map .act) = [] := by
  refine trained_idle model fun w mem m r d same => ?_
  rcases mem_saveWork args mem with ⟨_, _, rfl⟩ | rfl
  · cases same
  · cases same

theorem trained_eval (model : Model) (rolloutId : Nat) : trained model ((evalWork args rolloutId).map .act) = [] := by
  refine trained_idle model fun w mem m r d same => ?_
  rw [mem_evalWork args mem] at same
  cases same

theorem trained_update (model : Model) : trained model ((updateWork args).map .act) = [] := by
  refine trained_idle model fun w mem m r d same => ?_
  rw [mem_updateWork args mem] at same
  cases same

/-- **The loop hands over the rollouts in order**, each with its own data. -/
theorem trained_loop (model : Model) {turns rolloutId : Nat} {next curr : Option Nat} (left : rolloutId + turns = args.numRollout)
    (head : 0 < turns → next.or curr = some rolloutId) :
    trained model (trainLoop args turns rolloutId next curr) =
      ((List.range' rolloutId turns).filter fun r => trains args model r).map fun r => (r, some r) := by
  induction turns generalizing rolloutId next curr with
  | zero => rfl
  | succ turns ih =>
    have early : ∀ b : Prop, [Decidable b] →
        trained model (if b then [.submit (rolloutId + 1)] else ([] : List (Act Nat Work))) = [] := by
      intro b _
      split
      · rfl
      · rfl
    have here : ((List.range' rolloutId (turns + 1)).filter fun r => trains args model r).map (fun r => (r, some r)) =
        (if trains args model rolloutId then [(rolloutId, some rolloutId)] else []) ++
          ((List.range' (rolloutId + 1) turns).filter fun r => trains args model r).map fun r => (r, some r) := by
      rw [List.range'_succ, List.filter_cons]
      by_cases mine : trains args model rolloutId
      · rw [decide_eq_true mine, if_pos rfl, if_pos mine]
        rfl
      · rw [decide_eq_false mine, if_neg Bool.false_ne_true, if_neg mine]
        rfl
    have following : 0 < turns → (if rolloutId + 1 < args.numRollout then some (rolloutId + 1) else next) = some (rolloutId + 1) :=
      fun more => if_pos (by omega)
    rw [here, trainLoop]
    split
    · simp only [trained_append, trained_get, early, List.map_append, trained_work, trained_save, trained_update, trained_eval,
        List.nil_append, List.append_nil, head (Nat.succ_pos turns)]
      exact congrArg _ (ih (by omega) following)
    · simp only [trained_append, trained_get, early, List.map_append, trained_work, trained_save, trained_eval,
        List.nil_append, List.append_nil, head (Nat.succ_pos turns)]
      exact congrArg _ (ih (by omega) fun more => by rw [following more]; rfl)

/-- **The loop submits the rollouts after its first, in order.** -/
theorem generated_loop {turns rolloutId : Nat} {next curr : Option Nat} (left : rolloutId + turns = args.numRollout) :
    generated (trainLoop args turns rolloutId next curr) = List.range' (rolloutId + 1) (turns - 1) := by
  induction turns generalizing rolloutId next curr with
  | zero => rfl
  | succ turns ih =>
    have early : generated (if rolloutId + 1 < args.numRollout then [.submit (rolloutId + 1)] else ([] : List (Act Nat Work))) ++
        List.range' (rolloutId + 1 + 1) (turns - 1) = List.range' (rolloutId + 1) turns := by
      cases turns with
      | zero => rw [if_neg (by omega)]; rfl
      | succ turns => rw [if_pos (by omega), List.range'_succ]; rfl
    rw [trainLoop]
    split
    · simp only [generated_append, generated_get, generated_work, List.nil_append, List.append_nil]
      rw [ih (by omega)]
      exact early
    · simp only [generated_append, generated_get, generated_work, List.nil_append, List.append_nil]
      rw [ih (by omega)]
      exact early

/-- An update of the weights needs all calls to be finished. -/
def IsUpdate (w : Work) : Prop := w = .updateWeights

variable {submitted pending : List Nat} {rest : List (Act Nat Work)}

theorem checked_work {work : List Work} (quiet : .updateWeights ∈ work → pending = []) :
    Checked IsUpdate submitted pending (work.map .act ++ rest) ↔ Checked IsUpdate submitted pending rest := by
  induction work with
  | nil => exact Iff.rfl
  | cons w work ih =>
    have head : IsUpdate w → pending = [] := fun same => quiet (same ▸ List.mem_cons_self ..)
    have tail := ih fun mem => quiet (List.mem_cons_of_mem _ mem)
    exact ⟨fun h => tail.1 h.2, fun h => ⟨head, tail.2 h⟩⟩

theorem checked_get {next : Option Nat} (known : ∀ i, next = some i → i ∈ submitted) (single : ∀ j ∈ pending, next = some j) :
    Checked IsUpdate submitted pending (getIfAny next ++ rest) ↔ Checked IsUpdate submitted [] rest := by
  cases next with
  | none =>
    have none : pending = [] := List.eq_nil_iff_forall_not_mem.2 fun j mem => by cases single j mem
    rw [none]
    exact Iff.rfl
  | some i =>
    have filtered : pending.filter (· ≠ i) = [] :=
      List.filter_eq_nil_iff.2 fun j mem => by simp [Option.some.inj (single j mem)]
    show i ∈ submitted ∧ Checked IsUpdate submitted (pending.filter (· ≠ i)) rest ↔ _
    rw [filtered]
    exact and_iff_right (known i rfl)

theorem checked_submit {i : Nat} :
    Checked IsUpdate submitted pending ([.submit i] ++ rest) ↔ Checked IsUpdate (i :: submitted) (i :: pending) rest := Iff.rfl

/-- **The loop passes the check**: at the head of a turn the only call not waited for is `next`. -/
theorem checked_loop {turns rolloutId : Nat} {next curr : Option Nat} (left : rolloutId + turns = args.numRollout)
    (known : ∀ i, next = some i → i ∈ submitted) (single : ∀ j ∈ pending, next = some j) (last : turns = 0 → pending = []) :
    Checked IsUpdate submitted pending (trainLoop args turns rolloutId next curr ++ [.act .dispose]) := by
  induction turns generalizing rolloutId next curr submitted pending with
  | zero =>
    rw [last rfl]
    exact ⟨fun _ => rfl, rfl⟩
  | succ turns ih =>
    have quiet : .updateWeights ∉ trainWork args rolloutId (next.or curr) ++ saveWork args rolloutId := by
      intro mem
      rcases List.mem_append.1 mem with train | save
      · obtain ⟨_, same⟩ := mem_trainWork args train
        cases same
      · rcases mem_saveWork args save with ⟨_, _, same⟩ | same
        · cases same
        · cases same
    rw [trainLoop]
    by_cases more : rolloutId + 1 < args.numRollout
    · simp only [if_pos more]
      split
      · simp only [List.append_assoc]
        rw [checked_get known single]
        rw [checked_submit, checked_work fun mem => absurd mem quiet, checked_get (fun i same => Option.some.inj same ▸ List.mem_cons_self ..)
          (fun j mem => congrArg some (List.mem_singleton.1 mem).symm), checked_work fun _ => rfl]
        exact ih (by omega) (fun i same => by cases same) (fun j mem => by cases mem) fun _ => rfl
      · simp only [List.append_assoc]
        rw [checked_get known single]
        rw [checked_submit, checked_work fun mem => absurd mem quiet, checked_work fun mem => by cases mem_evalWork args mem]
        exact ih (by omega) (fun i same => Option.some.inj same ▸ List.mem_cons_self ..)
          (fun j mem => congrArg some (List.mem_singleton.1 mem).symm) fun none => absurd left (by omega)
    · simp only [if_neg more]
      split
      · simp only [List.append_assoc, List.nil_append]
        rw [checked_get known single, checked_work fun mem => absurd mem quiet, checked_get known (fun j mem => by cases mem),
          checked_work fun _ => rfl]
        exact ih (by omega) (fun i same => by cases same) (fun j mem => by cases mem) fun _ => rfl
      · simp only [List.append_assoc, List.nil_append]
        rw [checked_get known single, checked_work fun mem => absurd mem quiet,
          checked_work fun mem => by cases mem_evalWork args mem]
        exact ih (by omega) known (fun j mem => by cases mem) fun _ => rfl

end Loop

section Run

variable {args : AsyncArgs}

theorem checked_trainAsync (started : args.startRolloutId < args.numRollout) : Checked IsUpdate [] [] (trainAsync args) := by
  unfold trainAsync
  simp only [List.append_assoc]
  rw [checked_work fun _ => rfl]
  exact checked_loop args (by omega) (fun i same => Option.some.inj same ▸ List.mem_cons_self ..)
    (fun j mem => congrArg some (List.mem_singleton.1 mem).symm) fun none => absurd none (by omega)

/-- The rollouts are submitted in order. -/
theorem generated_trainAsync (started : args.startRolloutId < args.numRollout) :
    generated (trainAsync args) = List.range' args.startRolloutId (args.numRollout - args.startRolloutId) := by
  have size : args.numRollout - args.startRolloutId = args.numRollout - args.startRolloutId - 1 + 1 := by omega
  unfold trainAsync
  rw [generated_append, generated_append, generated_append, generated_work, generated_loop args (by omega), size,
    List.range'_succ, Nat.add_sub_cancel]
  exact List.append_nil _

/-- **Each model is handed its rollouts once and in order, each with the data generated for
it; every call of `generate` is waited for, none runs while the weights are updated, and
the loop is never stuck, whenever the calls finish.** -/
theorem train_async_in_order (started : args.startRolloutId < args.numRollout) :
    (∀ model, trained model (trainAsync args) =
      ((List.range' args.startRolloutId (args.numRollout - args.startRolloutId)).filter fun r => trains args model r).map
        fun r => (r, some r)) ∧
    (∀ rolloutId, ∃ model, trains args model rolloutId) ∧
    generated (trainAsync args) = List.range' args.startRolloutId (args.numRollout - args.startRolloutId) ∧
    ∀ s, Reaches (Sys.start (trainAsync args)) s →
      (∀ rest, s.todo = .act .updateWeights :: rest → ∀ i ∈ s.submitted, i ∈ s.finished) ∧
      (s.todo = [] → ∀ i ∈ s.submitted, i ∈ s.consumed) ∧ (s.todo ≠ [] → ∃ s', Step s s') := by
  have checked := checked_trainAsync started
  refine ⟨fun model => ?_, fun rolloutId => ?_, ?_, fun s run => ⟨fun rest next => ?_, ?_, ?_⟩⟩
  · unfold trainAsync
    rw [trained_append, trained_append, trained_append, trained_update,
      trained_loop args model (by omega) fun _ => rfl]
    exact List.append_nil _
  · cases critic : args.useCritic with
    | false => exact ⟨.actor, Or.inl critic⟩
    | true => exact ⟨.critic, critic⟩
  · exact generated_trainAsync started
  · exact quiet_finished checked run next rfl
  · exact all_consumed checked run
  · exact not_stuck checked run

/-- Three rollouts, with an update after the second. -/
def threeRollouts : AsyncArgs where
  startRolloutId := 0
  numRollout := 3
  updateWeightsInterval := 2
  saveInterval := some 1
  evalInterval := none
  numRolloutPerEpoch := none
  useCritic := false
  criticTrainOnly := false
  numCriticOnlySteps := 0
  rolloutGlobalDataset := true

theorem train_async_in_order_three : generated (trainAsync threeRollouts) = [0, 1, 2] ∧
    ∀ s, Reaches (Sys.start (trainAsync threeRollouts)) s →
      (∀ rest, s.todo = .act .updateWeights :: rest → ∀ i ∈ s.submitted, i ∈ s.finished) ∧
        (s.todo = [] → ∀ i ∈ s.submitted, i ∈ s.consumed) ∧ (s.todo ≠ [] → ∃ s', Step s s') :=
  (@train_async_in_order threeRollouts (by decide)).2.2

end Run

end SlimeBoard
