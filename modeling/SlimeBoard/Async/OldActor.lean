import SlimeBoard.Async.Pipeline

/-!
# The old actor

With `keep_old_actor` the trainer computes the old log-probs with a backup of the weights.
If the weights are updated after every rollout, the backup passes through a queue of two,
as the rollout trained on next was generated before the update. With a longer interval
there is no queue.
-/

namespace SlimeBoard

open Futures

/-- The weights of the trainer and of the rollout engines. `model` is what the model holds,
`actor`, `oldActor` and `rolloutActor` are its backups, and `heldBy` gives the weights that
the engines held when a rollout was submitted. -/
structure Trainer (W : Type) where
  model : W
  actor : W
  oldActor : W
  rolloutActor : Option W
  engines : W
  heldBy : Nat → Option W

namespace Trainer

variable {W : Type} (args : AsyncArgs)

/-- `init` with `keep_old_actor`: `old_actor` is loaded from the checkpoint of the actor. -/
def init (loaded launched : W) : Trainer W :=
  ⟨loaded, loaded, loaded, if (args.updateWeightsInterval : Nat) = 1 then some loaded else none, launched, fun _ => none⟩

def updateWeights (t : Trainer W) : Trainer W :=
  if (args.updateWeightsInterval : Nat) = 1 then
    -- `rolloutActor` is set from the start
    { t with engines := t.actor, oldActor := t.rolloutActor.getD t.oldActor, rolloutActor := some t.model }
  else { t with engines := t.actor, oldActor := t.model }

def switchToOldActor (t : Trainer W) : Trainer W := { t with model := t.oldActor }

def switchToActor (t : Trainer W) : Trainer W := { t with model := t.actor }

def trainActor (train : Nat → W → W) (rolloutId : Nat) (t : Trainer W) : Trainer W :=
  let t := t.switchToOldActor.switchToActor
  let model := train rolloutId t.model
  { t with model := model, actor := model }

/-- The weights after an action of the training loop. -/
def exec (train : Nat → W → W) (t : Trainer W) : Act Nat Work → Trainer W
  | .submit rolloutId => { t with heldBy := Function.update t.heldBy rolloutId (some t.engines) }
  | .act .updateWeights => t.updateWeights args
  | .act (.asyncTrain .actor rolloutId _) => t.trainActor train rolloutId
  | _ => t

end Trainer

/-- Whatever training makes of the weights and whenever the calls finish: the engines keep
the weights of a rollout until it is generated, and the trainer switches to these. -/
def TracksPolicy (args : AsyncArgs) : Prop :=
  ∀ (W : Type) (loaded launched : W) (train : Nat → W → W) (s : Sys Nat Work) (done : List (Act Nat Work)),
    Reaches (Sys.start (trainAsync args)) s → trainAsync args = done ++ s.todo →
    let t := done.foldl (Trainer.exec args train) (Trainer.init args loaded launched)
    (∀ r ∈ s.submitted, r ∉ s.finished → t.heldBy r = some t.engines) ∧
      ∀ r data rest, s.todo = .act (.asyncTrain .actor r data) :: rest → t.heldBy r = some t.oldActor

section Runs

variable {W : Type} {args : AsyncArgs} {train : Nat → W → W}

/-- No update comes while a rollout is generated. -/
theorem held_running {program : List (Act Nat Work)} (checked : Checked IsUpdate [] [] program) (t : Trainer W)
    {s : Sys Nat Work} (run : Reaches (Sys.start program) s) {done : List (Act Nat Work)} (split : program = done ++ s.todo)
    {r : Nat} (submitted : r ∈ s.submitted) (running : r ∉ s.finished) :
    (done.foldl (Trainer.exec args train) t).heldBy r = some (done.foldl (Trainer.exec args train) t).engines := by
  induction run generalizing done with
  | refl => cases submitted
  | @tail s s' before step ih =>
    have last {a : Act Nat Work} {rest : List (Act Nat Work)} (next : s.todo = a :: rest) (split : program = done ++ rest) :
        ∃ front, done = front ++ [a] ∧ program = front ++ s.todo := by
      obtain ⟨pre, whole⟩ := todo_suffix before
      rw [next, List.append_cons] at whole
      exact ⟨pre, List.append_cancel_right (split.symm.trans whole), by rw [next, List.append_cons]; exact whole⟩
    cases step with
    | finish i mem fresh => exact ih split submitted fun here => running (List.mem_cons_of_mem _ here)
    | submit i rest next =>
      obtain ⟨front, rfl, earlier⟩ := last next split
      rw [List.foldl_append]
      by_cases same : r = i
      · rw [same]
        exact Function.update_self ..
      · have here := ih earlier ((List.mem_cons.1 submitted).resolve_left same) running
        exact (Function.update_of_ne same ..).trans here
    | get i rest next mem =>
      obtain ⟨front, rfl, earlier⟩ := last next split
      rw [List.foldl_append]
      exact ih earlier submitted running
    | act b rest next =>
      obtain ⟨front, rfl, earlier⟩ := last next split
      rw [List.foldl_append]
      cases b with
      | updateWeights => exact absurd (quiet_finished checked before next rfl r submitted) running
      | asyncTrain model rolloutId data =>
        cases model with
        | actor => exact ih earlier submitted running
        | critic => exact ih earlier submitted running
      | _ => exact ih earlier submitted running

end Runs

/-- At each turn of the actor in a program, from the weights `t`, the trainer switches to
the weights of the rollout. -/
def TracksFrom {W : Type} (args : AsyncArgs) (train : Nat → W → W) : Trainer W → List (Act Nat Work) → Prop
  | _, [] => True
  | t, a :: rest =>
    (∀ r data, a = .act (.asyncTrain .actor r data) → t.heldBy r = some t.oldActor) ∧ TracksFrom args train (t.exec args train a) rest

/-- One turn of the loop on the weights. -/
def Trainer.turn {W : Type} (args : AsyncArgs) (train : Nat → W → W) (r : Nat) (t : Trainer W) : Trainer W :=
  let t := if r + 1 < args.numRollout then t.exec args train (.submit (r + 1)) else t
  let t := if trains args .actor r then t.trainActor train r else t
  if updateDue args r ∧ args.criticTrainOnly = false then t.updateWeights args else t

/-- Turns `r` to `r + turns - 1` of the loop. -/
def TracksLoop {W : Type} (args : AsyncArgs) (train : Nat → W → W) : (turns r : Nat) → Trainer W → Prop
  | 0, _, _ => True
  | turns + 1, r, t =>
    (trains args .actor r → t.heldBy r = some t.oldActor) ∧ TracksLoop args train turns (r + 1) (t.turn args train r)

section Program

variable {W : Type} {args : AsyncArgs} {train : Nat → W → W}

theorem tracksFrom_iff {t : Trainer W} {program : List (Act Nat Work)} : TracksFrom args train t program ↔
    ∀ done rest r data, program = done ++ .act (.asyncTrain .actor r data) :: rest →
      (done.foldl (Trainer.exec args train) t).heldBy r = some (done.foldl (Trainer.exec args train) t).oldActor := by
  induction program generalizing t with
  | nil =>
    refine ⟨fun _ done rest r data split => ?_, fun _ => trivial⟩
    cases done with
    | nil => cases split
    | cons a done => cases split
  | cons a program ih =>
    constructor
    · rintro ⟨head, tail⟩ done rest r data split
      cases done with
      | nil =>
        obtain ⟨rfl, _⟩ := List.cons.inj split
        exact head r data rfl
      | cons a' done =>
        obtain ⟨rfl, later⟩ := List.cons.inj split
        exact ih.1 tail done rest r data later
    · intro all
      refine ⟨fun r data same => ?_, ih.2 fun done rest r data split => ?_⟩
      · rw [same] at all
        exact all [] program r data rfl
      · exact all (a :: done) rest r data (congrArg _ split)

theorem tracksFrom_append {t : Trainer W} {p q : List (Act Nat Work)} :
    TracksFrom args train t (p ++ q) ↔
      TracksFrom args train t p ∧ TracksFrom args train (p.foldl (Trainer.exec args train) t) q := by
  induction p generalizing t with
  | nil => exact (and_iff_right trivial).symm
  | cons a p ih =>
    rw [List.cons_append, TracksFrom, TracksFrom, ih, List.foldl_cons, and_assoc]

/-- Actions that leave the weights as they are. -/
theorem tracks_idle {t : Trainer W} {p q : List (Act Nat Work)} (idle : ∀ a ∈ p, ∀ t : Trainer W, t.exec args train a = t)
    (untrained : ∀ a ∈ p, ∀ r data, a ≠ .act (.asyncTrain .actor r data)) :
    TracksFrom args train t (p ++ q) ↔ TracksFrom args train t q := by
  induction p with
  | nil => exact Iff.rfl
  | cons a p ih =>
    have tail := ih (fun b mem => idle b (List.mem_cons_of_mem _ mem)) fun b mem => untrained b (List.mem_cons_of_mem _ mem)
    rw [List.cons_append, TracksFrom, idle a (List.mem_cons_self ..) t, tail]
    exact and_iff_right fun r data same => absurd same (untrained a (List.mem_cons_self ..) r data)

theorem tracks_get {t : Trainer W} {future : Option Nat} {q : List (Act Nat Work)} :
    TracksFrom args train t (getIfAny future ++ q) ↔ TracksFrom args train t q := by
  refine tracks_idle (fun a mem t => ?_) fun a mem r data same => ?_
  · obtain ⟨i, _, rfl⟩ := List.mem_map.1 mem
    rfl
  · obtain ⟨i, _, rfl⟩ := List.mem_map.1 mem
    cases same

theorem tracks_save {t : Trainer W} {r : Nat} {q : List (Act Nat Work)} :
    TracksFrom args train t ((saveWork args r).map .act ++ q) ↔ TracksFrom args train t q := by
  refine tracks_idle (fun a mem t => ?_) fun a mem r data same => ?_
  · obtain ⟨w, work, rfl⟩ := List.mem_map.1 mem
    rcases mem_saveWork args work with ⟨_, _, rfl⟩ | rfl
    · rfl
    · rfl
  · obtain ⟨w, work, rfl⟩ := List.mem_map.1 mem
    rcases mem_saveWork args work with ⟨_, _, rfl⟩ | rfl
    · cases same
    · cases same

theorem tracks_eval {t : Trainer W} {r : Nat} {q : List (Act Nat Work)} :
    TracksFrom args train t ((evalWork args r).map .act ++ q) ↔ TracksFrom args train t q := by
  refine tracks_idle (fun a mem t => ?_) fun a mem r data same => ?_
  · obtain ⟨w, work, rfl⟩ := List.mem_map.1 mem
    rw [mem_evalWork args work]
    rfl
  · obtain ⟨w, work, rfl⟩ := List.mem_map.1 mem
    rw [mem_evalWork args work] at same
    cases same

theorem tracks_update {t : Trainer W} {q : List (Act Nat Work)} :
    TracksFrom args train t ((updateWork args).map .act ++ q) ↔
      TracksFrom args train (if args.criticTrainOnly = false then t.updateWeights args else t) q := by
  unfold updateWork
  cases args.criticTrainOnly with
  | true => exact Iff.rfl
  | false => exact and_iff_right fun r data same => by cases same

theorem tracks_train {t : Trainer W} {r : Nat} {curr : Option Nat} {q : List (Act Nat Work)} :
    TracksFrom args train t ((trainWork args r curr).map .act ++ q) ↔
      (trains args .actor r → t.heldBy r = some t.oldActor) ∧
        TracksFrom args train (if trains args .actor r then t.trainActor train r else t) q := by
  have actor {t : Trainer W} : TracksFrom args train t (.act (.asyncTrain .actor r curr) :: q) ↔
      t.heldBy r = some t.oldActor ∧ TracksFrom args train (t.trainActor train r) q := by
    refine and_congr_left' ⟨fun h => h r curr rfl, fun h r' data same => ?_⟩
    obtain ⟨rfl, rfl⟩ : r = r' ∧ curr = data := by
      cases same
      exact ⟨rfl, rfl⟩
    exact h
  have critic {t : Trainer W} {q : List (Act Nat Work)} :
      TracksFrom args train t (.act (.asyncTrain .critic r curr) :: q) ↔ TracksFrom args train t q :=
    and_iff_right fun r data same => by cases same
  unfold trainWork
  cases mode : args.useCritic with
  | false =>
    have mine : trains args .actor r := Or.inl mode
    rw [if_neg Bool.false_ne_true, if_pos mine, forall_prop_of_true mine]
    exact actor
  | true =>
    have mine : trains args .actor r ↔ args.numCriticOnlySteps ≤ r ∧ args.criticTrainOnly = false :=
      or_iff_right fun h => Bool.false_ne_true (h.symm.trans mode)
    rw [if_pos rfl]
    by_cases due : args.numCriticOnlySteps ≤ r ∧ args.criticTrainOnly = false
    · rw [if_pos due, if_pos (mine.2 due), forall_prop_of_true (mine.2 due)]
      exact critic.trans actor
    · rw [if_neg due, if_neg fun h => due (mine.1 h)]
      exact critic.trans (and_iff_right fun h => absurd (mine.1 h) due).symm

/-- **A turn of the loop, on the weights.** -/
theorem tracks_loop {t : Trainer W} {turns r : Nat} {next curr : Option Nat} :
    TracksFrom args train t (trainLoop args turns r next curr) ↔ TracksLoop args train turns r t := by
  induction turns generalizing t r next curr with
  | zero => exact Iff.rfl
  | succ turns ih =>
    have submit {t : Trainer W} {i : Nat} {q : List (Act Nat Work)} :
        TracksFrom args train t ([.submit i] ++ q) ↔ TracksFrom args train (t.exec args train (.submit i)) q :=
      and_iff_right fun r data same => by cases same
    have held {t : Trainer W} : (t.exec args train (.submit (r + 1))).heldBy r = t.heldBy r :=
      Function.update_of_ne (Nat.ne_of_lt (Nat.lt_succ_self r)) ..
    have kept {t : Trainer W} : (t.exec args train (.submit (r + 1))).oldActor = t.oldActor := rfl
    rw [trainLoop, TracksLoop, Trainer.turn]
    by_cases more : r + 1 < args.numRollout
    · simp only [if_pos more]
      split
      · rename_i due
        simp only [List.append_assoc, List.map_append]
        rw [tracks_get, submit, tracks_train, tracks_save, tracks_get, tracks_update, tracks_eval, ih, held, kept]
        simp only [due, true_and]
      · rename_i due
        simp only [List.append_assoc, List.map_append]
        rw [tracks_get, submit, tracks_train, tracks_save, tracks_eval, ih, held, kept]
        simp only [due, false_and, if_false]
    · simp only [if_neg more]
      split
      · rename_i due
        simp only [List.append_assoc, List.map_append, List.nil_append]
        rw [tracks_get, tracks_train, tracks_save, tracks_get, tracks_update, tracks_eval, ih]
        simp only [due, true_and]
      · rename_i due
        simp only [List.append_assoc, List.map_append, List.nil_append]
        rw [tracks_get, tracks_train, tracks_save, tracks_eval, ih]
        simp only [due, false_and, if_false]

end Program

/-- The weights before the loop: pushed to the engines, and the first rollout submitted. -/
def Trainer.begin {W : Type} (args : AsyncArgs) (loaded launched : W) : Trainer W :=
  let t := Trainer.init args loaded launched
  let t := if args.criticTrainOnly = false then t.updateWeights args else t
  { t with heldBy := Function.update t.heldBy args.startRolloutId (some t.engines) }

theorem tracksPolicy_iff {args : AsyncArgs} (started : args.startRolloutId < args.numRollout) : TracksPolicy args ↔
    ∀ (W : Type) (loaded launched : W) (train : Nat → W → W),
      TracksLoop args train (args.numRollout - args.startRolloutId) args.startRolloutId (Trainer.begin args loaded launched) := by
  have checked := checked_trainAsync started
  have program {W : Type} (loaded launched : W) (train : Nat → W → W) :
      TracksFrom args train (Trainer.init args loaded launched) (trainAsync args) ↔
        TracksLoop args train (args.numRollout - args.startRolloutId) args.startRolloutId
          (Trainer.begin args loaded launched) := by
    have submit {t : Trainer W} {i : Nat} {q : List (Act Nat Work)} :
        TracksFrom args train t ([.submit i] ++ q) ↔ TracksFrom args train (t.exec args train (.submit i)) q :=
      and_iff_right fun r data same => by cases same
    have dispose {t : Trainer W} {q : List (Act Nat Work)} :
        TracksFrom args train t (q ++ [.act .dispose]) ↔ TracksFrom args train t q := by
      rw [tracksFrom_append]
      exact and_iff_left ⟨(fun r data same => by cases same), trivial⟩
    unfold trainAsync
    rw [dispose, List.append_assoc, tracks_update, submit, tracks_loop]
    rfl
  refine forall_congr' fun W => forall_congr' fun loaded => forall_congr' fun launched => forall_congr' fun train => ?_
  rw [← program, tracksFrom_iff]
  constructor
  · intro tracks done rest r data split
    obtain ⟨s, run, todo⟩ := reaches_split checked done split
    exact (tracks s done run (todo ▸ split)).2 r data rest todo
  · intro all s done run split
    refine ⟨fun r submitted running => held_running checked _ run split submitted running, fun r data rest next => ?_⟩
    rw [next] at split
    exact all done rest r data split

/-- If an update comes right before the actor trains on rollout `r`, the actor has not
trained on the rollout before. -/
def QueuedUpdates (args : AsyncArgs) : Prop :=
  (args.updateWeightsInterval : Nat) = 1 ∨
    ∀ r, args.startRolloutId ≤ r → r + 1 < args.numRollout → updateDue args r → trains args .actor (r + 1) → ¬trains args .actor r

/-- What holds at the head of turn `r`, if there are updates. -/
structure Trainer.Head {W : Type} (args : AsyncArgs) (r : Nat) (t : Trainer W) : Prop where
  model : t.model = t.actor
  queue : (args.updateWeightsInterval : Nat) = 1 → t.rolloutActor = some t.engines ∧ t.engines = t.actor
  kept : (args.updateWeightsInterval : Nat) ≠ 1 → t.oldActor = t.engines
  fresh : (∀ j, args.startRolloutId ≤ j → j < r → ¬trains args .actor j) → t.engines = t.actor
  held : r < args.numRollout → trains args .actor r → t.heldBy r = some t.oldActor

section Turns

variable {W : Type} {args : AsyncArgs} {train : Nat → W → W}

theorem trains_later {j r : Nat} (later : j ≤ r) (mine : trains args .actor j) : trains args .actor r :=
  mine.imp_right fun h => ⟨h.1.trans later, h.2⟩

theorem updateDue_one (one : (args.updateWeightsInterval : Nat) = 1) (r : Nat) : updateDue args r := by
  unfold updateDue
  rw [one]
  exact Nat.mod_one _

/-- What a turn does: it submits the next rollout, trains, and updates the weights if that is due. -/
theorem turn_cases (args : AsyncArgs) (train : Nat → W → W) (t : Trainer W) (r : Nat) (model : t.model = t.actor) :
    ∃ held w, (t.turn args train r =
        let t := { t with model := w, actor := w, heldBy := held }
        if updateDue args r ∧ args.criticTrainOnly = false then t.updateWeights args else t) ∧
      (r + 1 < args.numRollout → held (r + 1) = some t.engines) ∧
      w = if trains args .actor r then train r t.actor else t.actor := by
  obtain ⟨held, submitted, next⟩ : ∃ held, (if r + 1 < args.numRollout then t.exec args train (.submit (r + 1)) else t) =
      { t with heldBy := held } ∧ (r + 1 < args.numRollout → held (r + 1) = some t.engines) := by
    by_cases more : r + 1 < args.numRollout
    · rw [if_pos more]
      exact ⟨_, rfl, fun _ => Function.update_self ..⟩
    · rw [if_neg more]
      exact ⟨_, rfl, fun h => absurd h more⟩
  unfold Trainer.turn
  dsimp only
  rw [submitted]
  refine ⟨held, _, ?_, next, rfl⟩
  by_cases mine : trains args .actor r
  · rw [if_pos mine, if_pos mine]
    rfl
  · obtain ⟨m, a, o, ro, e, h⟩ := t
    obtain rfl : m = a := model
    rw [if_neg mine, if_neg mine]

theorem Trainer.Head.turn (queued : QueuedUpdates args) (updates : args.criticTrainOnly = false) {r : Nat}
    (begun : args.startRolloutId ≤ r) {t : Trainer W} (head : t.Head args r) : (t.turn args train r).Head args (r + 1) := by
  obtain ⟨model, queue, kept, fresh, _⟩ := head
  obtain ⟨held, w, turn, next, trained⟩ := turn_cases args train t r model
  have early (idle : ∀ j, args.startRolloutId ≤ j → j < r + 1 → ¬trains args .actor j) : t.engines = t.actor ∧ w = t.actor :=
    ⟨fresh fun j low high => idle j low (Nat.lt_succ_of_lt high),
      trained.trans (if_neg (idle r begun (Nat.lt_succ_self r)))⟩
  rw [turn]
  dsimp only
  by_cases one : (args.updateWeightsInterval : Nat) = 1
  · rw [if_pos ⟨updateDue_one one r, updates⟩, Trainer.updateWeights, if_pos one]
    obtain ⟨pushed, same⟩ := queue one
    refine ⟨rfl, fun _ => ⟨rfl, rfl⟩, fun h => absurd one h, fun _ => rfl, fun more _ => ?_⟩
    show held (r + 1) = some (t.rolloutActor.getD t.oldActor)
    rw [next more, pushed, Option.getD_some]
  · by_cases due : updateDue args r
    · rw [if_pos ⟨due, updates⟩, Trainer.updateWeights, if_neg one]
      refine ⟨rfl, fun h => absurd h one, fun _ => rfl, fun _ => rfl, fun more mine => ?_⟩
      have idle := (queued.resolve_left one) r begun more due mine
      obtain ⟨same, here⟩ := early fun j _ high h => idle (trains_later (Nat.lt_succ_iff.1 high) h)
      show held (r + 1) = some w
      rw [next more, here, same]
    · rw [if_neg fun h => due h.1]
      refine ⟨rfl, fun h => absurd h one, fun _ => kept one, fun idle => ?_, fun more _ => ?_⟩
      · obtain ⟨same, here⟩ := early idle
        exact same.trans here.symm
      · show held (r + 1) = some t.oldActor
        rw [next more, kept one]

theorem Trainer.Head.tracks (queued : QueuedUpdates args) (updates : args.criticTrainOnly = false) {turns r : Nat}
    (begun : args.startRolloutId ≤ r) (left : r + turns = args.numRollout) {t : Trainer W} (head : t.Head args r) :
    TracksLoop args train turns r t := by
  induction turns generalizing r t with
  | zero => trivial
  | succ turns ih =>
    exact ⟨fun mine => head.held (by omega) mine, ih (by omega) (by omega) (head.turn queued updates begun)⟩

theorem begin_head (updates : args.criticTrainOnly = false) (loaded launched : W) :
    (Trainer.begin args loaded launched).Head args args.startRolloutId := by
  unfold Trainer.begin Trainer.init Trainer.updateWeights
  simp only [if_pos updates]
  by_cases one : (args.updateWeightsInterval : Nat) = 1
  · simp only [if_pos one]
    refine ⟨rfl, fun _ => ⟨rfl, rfl⟩, fun h => absurd one h, fun _ => rfl, fun _ _ => ?_⟩
    simp only [Function.update_self, Option.getD_some]
  · simp only [if_neg one]
    refine ⟨rfl, fun h => absurd h one, fun _ => rfl, fun _ => rfl, fun _ _ => ?_⟩
    simp only [Function.update_self]

/-- Without updates the actor does not train. -/
theorem tracks_critic (valid : args.criticTrainOnly = true → args.useCritic = true) (only : args.criticTrainOnly = true)
    {turns r : Nat} {t : Trainer W} : TracksLoop args train turns r t := by
  have idle (r : Nat) : ¬trains args .actor r := by
    rintro (mode | ⟨_, mode⟩)
    · exact Bool.false_ne_true (mode.symm.trans (valid only))
    · exact Bool.false_ne_true (mode.symm.trans only)
  induction turns generalizing r t with
  | zero => trivial
  | succ turns ih => exact ⟨fun mine => absurd mine (idle r), ih⟩

/-- Weights that count the turns of the actor: the engines never have later ones. -/
theorem tracks_queued (updates : args.criticTrainOnly = false) (slow : (args.updateWeightsInterval : Nat) ≠ 1) {r₀ turns r : Nat}
    (more : r₀ + 1 < args.numRollout) (due : updateDue args r₀) (mine : trains args .actor (r₀ + 1)) (left : r + turns = args.numRollout)
    (before : r ≤ r₀) {t : Trainer ℕ} (model : t.model = t.actor) (older : t.engines ≤ t.actor)
    (tracks : TracksLoop args (fun _ w => w + 1) turns r t) : ¬trains args .actor r₀ := by
  induction turns generalizing r t with
  | zero => omega
  | succ turns ih =>
    obtain ⟨_, tail⟩ := tracks
    obtain ⟨held, w, turn, next, trained⟩ := turn_cases args (fun _ w => w + 1) t r model
    have grows : t.actor ≤ w := by
      rw [trained]
      split
      · exact Nat.le_succ _
      · exact le_rfl
    rcases Nat.eq_or_lt_of_le before with rfl | earlier
    · intro trains
      obtain ⟨turns, rfl⟩ : ∃ k, turns = k + 1 := ⟨turns - 1, by omega⟩
      have entry := tail.1 mine
      rw [turn, if_pos ⟨due, updates⟩, Trainer.updateWeights, if_neg slow] at entry
      have same : held (r + 1) = some w := entry
      rw [next more, Option.some.injEq, trained, if_pos trains] at same
      omega
    · refine ih (by omega) earlier ?_ ?_ tail
      · rw [turn]
        dsimp only
        split
        · rw [Trainer.updateWeights, if_neg slow]
        · rfl
      · rw [turn]
        dsimp only
        split
        · rw [Trainer.updateWeights, if_neg slow]
        · exact older.trans grows

end Turns

/-- **When the old actor is the policy that generated the rollout.** -/
theorem keep_old_actor_iff {args : AsyncArgs} (started : args.startRolloutId < args.numRollout)
    (valid : args.criticTrainOnly = true → args.useCritic = true) : TracksPolicy args ↔ QueuedUpdates args := by
  rw [tracksPolicy_iff started]
  cases updates : args.criticTrainOnly with
  | true =>
    refine iff_of_true (fun W loaded launched train => tracks_critic valid updates) (Or.inr fun r _ _ _ mine => ?_)
    rcases mine with mode | ⟨_, mode⟩
    · exact absurd (mode.symm.trans (valid updates)) Bool.false_ne_true
    · exact absurd (mode.symm.trans updates) Bool.false_ne_true
  | false =>
    constructor
    · intro tracks
      by_cases one : (args.updateWeightsInterval : Nat) = 1
      · exact Or.inl one
      · refine Or.inr fun r begun more due mine => ?_
        have head : (Trainer.begin args (0 : ℕ) 0).Head args args.startRolloutId := begin_head updates 0 0
        exact tracks_queued updates one more due mine (by omega) begun head.model
          (head.fresh fun j low high => absurd low (by omega)).le (tracks ℕ 0 0 fun _ w => w + 1)
    · intro queued W loaded launched train
      exact (begin_head updates loaded launched).tracks queued updates le_rfl (by omega)

theorem keep_old_actor_iff_three : TracksPolicy threeRollouts ↔ QueuedUpdates threeRollouts :=
  keep_old_actor_iff (by decide) (by decide)

/-- The third rollout is generated before the update that its old actor is taken from. -/
theorem not_tracksPolicy_three : ¬TracksPolicy threeRollouts := by
  rw [tracksPolicy_iff (by decide)]
  intro tracks
  have third := (tracks ℕ 0 0 fun _ w => w + 1).2.2.1 (Or.inl rfl)
  exact absurd (Option.some.inj third) (by decide)

end SlimeBoard
