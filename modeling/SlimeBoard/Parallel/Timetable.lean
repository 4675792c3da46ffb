import SlimeBoard.Parallel.Schedules

/-!
# The timetable of a pipeline rank

The forward tensor of microbatch `k` passes from rank `r` to the next one at time `r + 2k`, its gradient
comes back at `2(p - 1) - r + 2k`. A rank that follows the 1F1B schedule posts its operations at these
times.
-/

namespace SlimeBoard.Schedules

open Rendezvous

variable {β τ ω χ γ : Type} {stage : Stage β τ ω χ γ} {config : Config} {place : Place}

/-- What a rank computes for each microbatch. -/
structure Plan (stage : Stage β τ ω χ γ) (config : Config) (place : Place) where
  batch : Nat → β
  more : List β
  input : Nat → Option τ
  output : Nat → ω
  outputGrad : Nat → Option τ
  numTokens : Nat → Nat
  losses : Nat → List χ
  inside : place.rank < place.size
  computes : ∀ k, forwardStepCalcLoss stage place.numMicrobatches place.isLastStage
    (stage.forward (place.checkpoint config k) (checkFirstValStep config.firstValStep config.forwardOnly (k == 0)) k (batch k)
      (input k)) = (output k, numTokens k, losses k)
  input_isSome : ∀ k, (input k).isSome = !place.isFirstStage
  outputGrad_isSome : ∀ k, (outputGrad k).isSome = !place.isLastStage

namespace Place

variable (place)

theorem numWarmup_le : place.numWarmup ≤ place.numMicrobatches := Nat.min_le_right ..

theorem numWarmup_add : place.numWarmup + place.numRemaining = place.numMicrobatches :=
  Nat.add_sub_of_le place.numWarmup_le

theorem numWarmup_lt (inside : place.rank < place.size) : place.rank + place.numWarmup < place.size := by
  unfold numWarmup
  omega

/-- A rank with a steady phase has warmed up in full. -/
theorem numWarmup_full (inside : place.rank < place.size) (more : 0 < place.numRemaining) :
    place.rank + place.numWarmup + 1 = place.size := by
  unfold numRemaining at more
  unfold numWarmup at *
  omega

end Place

/-! ## Entries -/

/-- The entry of an exchange with the neighbours, and no entry at the end of the pipeline. -/
def table (absent : Bool) (time : Nat) (sendPrev sendNext recvPrev recvNext : Option τ) : List (Entry Port τ) :=
  if absent then [] else [⟨time, Port.pick sendPrev sendNext, Port.pick recvPrev recvNext⟩]

/-- What `table` has at one of its sides. -/
def stamp (absent : Bool) (time : Nat) (x : Option τ) : List (Nat × τ) :=
  if absent then [] else (x.map (time, ·)).toList

section Table

variable {absent : Bool} {time : Nat} {sendPrev sendNext recvPrev recvNext : Option τ}

theorem sent_prev_table : stamped (·.send .prev) (table absent time sendPrev sendNext recvPrev recvNext) =
    stamp absent time sendPrev := by
  cases absent <;> cases sendPrev <;> rfl

theorem sent_next_table : stamped (·.send .next) (table absent time sendPrev sendNext recvPrev recvNext) =
    stamp absent time sendNext := by
  cases absent <;> cases sendNext <;> rfl

theorem taken_prev_table : stamped (·.recv .prev) (table absent time sendPrev sendNext recvPrev recvNext) =
    stamp absent time recvPrev := by
  cases absent <;> cases recvPrev <;> rfl

theorem taken_next_table : stamped (·.recv .next) (table absent time sendPrev sendNext recvPrev recvNext) =
    stamp absent time recvNext := by
  cases absent <;> cases recvNext <;> rfl

theorem stamp_none : stamp absent time (none : Option τ) = [] := by
  cases absent <;> rfl

variable {lo hi : Nat}

theorem communicate_plays (lower : lo ≤ time) (upper : time < hi) :
    Plays lo (communicate sendNext sendPrev recvPrev.isSome recvNext.isSome)
      [⟨time, Port.pick sendPrev sendNext, Port.pick recvPrev recvNext⟩] (recvPrev, recvNext) hi := by
  have posted : Port.pick recvPrev.isSome recvNext.isSome = fun q => (Port.pick recvPrev recvNext q).isSome := by
    funext q
    cases q <;> rfl
  unfold communicate
  rw [posted]
  exact Plays.comm (e := ⟨time, Port.pick sendPrev sendNext, Port.pick recvPrev recvNext⟩) lower (.done upper)

/-- All communication of the schedule has this shape. -/
theorem exchange_plays {α : Type} {absent' r : α} {f : Option τ × Option τ → α} {prev next : Bool} (le : lo ≤ hi)
    (window : absent = false → lo ≤ time ∧ time < hi) (away : absent = true → absent' = r)
    (here : absent = false → recvPrev.isSome = prev ∧ recvNext.isSome = next ∧ f (recvPrev, recvNext) = r) :
    Plays lo (if absent then pure absent' else do
        let got ← communicate sendNext sendPrev prev next
        pure (f got))
      (table absent time sendPrev sendNext recvPrev recvNext) r hi := by
  cases absent with
  | true =>
    rw [← away rfl]
    exact .done le
  | false =>
    obtain ⟨rfl, rfl, rfl⟩ := here rfl
    obtain ⟨lower, upper⟩ := window rfl
    exact (communicate_plays lower upper).bind (.done le_rfl)

variable {isFirstStage isLastStage : Bool} {x g : Option τ} {y : τ}

theorem none_of_isSome {absent : Bool} (some : x.isSome = !absent) (away : absent = true) : none = x := by
  rw [away] at some
  exact (Option.isNone_iff_eq_none.1 (Option.isSome_eq_false_iff.1 some)).symm

theorem some_of_isSome {absent : Bool} (some : x.isSome = !absent) (here : absent = false) : x.isSome = true := by
  rw [some, here]
  rfl

theorem recvForward_plays (some : x.isSome = !isFirstStage) (le : lo ≤ hi)
    (window : isFirstStage = false → lo ≤ time ∧ time < hi) :
    Plays lo (recvForward isFirstStage) (table isFirstStage time none none x none) x hi :=
  exchange_plays le window (none_of_isSome some) fun here => ⟨some_of_isSome some here, rfl, rfl⟩

theorem recvBackward_plays (some : g.isSome = !isLastStage) (le : lo ≤ hi)
    (window : isLastStage = false → lo ≤ time ∧ time < hi) :
    Plays lo (recvBackward isLastStage) (table isLastStage time none none none g) g hi :=
  exchange_plays le window (none_of_isSome some) fun here => ⟨rfl, some_of_isSome some here, rfl⟩

theorem sendForward_plays (le : lo ≤ hi) (window : isLastStage = false → lo ≤ time ∧ time < hi) :
    Plays lo (sendForward y isLastStage) (table isLastStage time none (some y) none none) () hi :=
  exchange_plays le window (fun _ => rfl) fun _ => ⟨rfl, rfl, rfl⟩

theorem sendBackward_plays (le : lo ≤ hi) (window : isFirstStage = false → lo ≤ time ∧ time < hi) :
    Plays lo (sendBackward g isFirstStage) (table isFirstStage time g none none none) () hi :=
  exchange_plays le window (fun _ => rfl) fun _ => ⟨rfl, rfl, rfl⟩

theorem sendForwardRecvBackward_plays (some : g.isSome = !isLastStage) (le : lo ≤ hi)
    (window : isLastStage = false → lo ≤ time ∧ time < hi) :
    Plays lo (sendForwardRecvBackward y isLastStage) (table isLastStage time none (.some y) none g) g hi :=
  exchange_plays le window (none_of_isSome some) fun here => ⟨rfl, some_of_isSome some here, rfl⟩

theorem sendBackwardRecvForward_plays (some : x.isSome = !isFirstStage) (le : lo ≤ hi)
    (window : isFirstStage = false → lo ≤ time ∧ time < hi) :
    Plays lo (sendBackwardRecvForward g isFirstStage) (table isFirstStage time g none x none) x hi :=
  exchange_plays le window (none_of_isSome some) fun here => ⟨some_of_isSome some here, rfl, rfl⟩

end Table

/-! ## The local variables -/

namespace Plan

variable (plan : Plan stage config place)

def inputGrad (k : Nat) : Option τ := (plan.input k).map fun x => stage.inputGrad x (plan.output k) (plan.outputGrad k)

/-- The grad reductions are enabled for the last backward step. -/
def enabled (_ : Plan stage config place) : Bool := !config.gradSyncFunc || place.rank == 0

/-- The local variables after `a` forward and `b` backward steps. -/
def locals (a b : Nat) : Locals β τ ω χ γ :=
  { dataIterator := (List.range' a (place.numMicrobatches - a)).map plan.batch ++ plan.more
    inputTensors := if config.forwardOnly then [] else (List.range' b (a - b)).map plan.input
    outputTensors := if config.forwardOnly then [] else (List.range' b (a - b)).map plan.output
    forwardDataStore := (List.range a).flatMap plan.losses
    totalNumTokens := ((List.range a).map plan.numTokens).sum
    noSync := !(plan.enabled && b == place.numMicrobatches)
    grads := (List.range b).map fun k =>
      (stage.paramGrad (plan.input k) (plan.output k) (plan.outputGrad k), plan.enabled && k + 1 == place.numMicrobatches)
    gradSyncs := 0 }

/-- The local variables after a forward step, with its tensors not stored yet. -/
def stepped (a b : Nat) : Locals β τ ω χ γ :=
  { plan.locals (a + 1) b with
    inputTensors := (plan.locals a b).inputTensors, outputTensors := (plan.locals a b).outputTensors }

/-- The local variables with the oldest tensors popped and the grad reductions as given. -/
def popped (a b : Nat) (noSync : Bool) : Locals β τ ω χ γ :=
  { plan.locals a b with
    noSync := noSync, inputTensors := (plan.locals a (b + 1)).inputTensors, outputTensors := (plan.locals a (b + 1)).outputTensors }

variable {a b : Nat}

theorem forwardStep_noSync (lt : a < place.numMicrobatches) (b : Nat) (noSync : Bool) :
    ∃ s : Locals β τ ω χ γ,
      forwardStep (τ := τ) stage place.numMicrobatches (plan.input a) (place.checkpoint config a)
        (checkFirstValStep config.firstValStep config.forwardOnly (a == 0)) a place.isLastStage
        { plan.locals a b with noSync := noSync } = .done (plan.output a, plan.numTokens a, s) ∧
      { s with totalNumTokens := s.totalNumTokens + plan.numTokens a } = { plan.stepped a b with noSync := noSync } := by
  have iterator : (plan.locals a b).dataIterator =
      plan.batch a :: ((List.range' (a + 1) (place.numMicrobatches - (a + 1))).map plan.batch ++ plan.more) := by
    have count : place.numMicrobatches - a = place.numMicrobatches - (a + 1) + 1 := by omega
    show (List.range' a (place.numMicrobatches - a)).map plan.batch ++ plan.more = _
    rw [count, List.range'_succ, List.map_cons, List.cons_append]
  refine ⟨{ plan.locals a b with
    noSync := noSync
    dataIterator := (List.range' (a + 1) (place.numMicrobatches - (a + 1))).map plan.batch ++ plan.more
    forwardDataStore := (plan.locals a b).forwardDataStore ++ plan.losses a }, ?_, ?_⟩
  · unfold forwardStep
    dsimp only
    rw [iterator]
    simp only [plan.computes]
  · unfold stepped
    simp only [locals, List.range_succ, List.flatMap_append, List.flatMap_singleton, List.map_append, List.map_singleton,
      List.sum_append, List.sum_singleton]

theorem forwardStep_locals (lt : a < place.numMicrobatches) (b : Nat) :
    ∃ s : Locals β τ ω χ γ,
      forwardStep (τ := τ) stage place.numMicrobatches (plan.input a) (place.checkpoint config a)
        (checkFirstValStep config.firstValStep config.forwardOnly (a == 0)) a place.isLastStage (plan.locals a b) =
        .done (plan.output a, plan.numTokens a, s) ∧
      { s with totalNumTokens := s.totalNumTokens + plan.numTokens a } = plan.stepped a b :=
  plan.forwardStep_noSync lt b (plan.locals a b).noSync

theorem locals_noSync (lt : b < place.numMicrobatches) (a : Nat) : (plan.locals a b).noSync = true := by
  show (!(plan.enabled && b == place.numMicrobatches)) = true
  rw [beq_false_of_ne lt.ne, Bool.and_false]
  rfl

theorem enableGradSync_eq {s : Locals β τ ω χ γ} (closed : s.noSync = true) (c : Bool) :
    (if c then enableGradSync config place s else s) = { s with noSync := !(plan.enabled && c) } := by
  have same : s = { s with noSync := true } := by rw [← closed]
  cases c with
  | false =>
    rw [Bool.and_false]
    exact same
  | true =>
    unfold enableGradSync enabled
    rw [if_pos rfl, Bool.and_true]
    split
    · next on =>
      rw [on]
      rfl
    · next off =>
      rw [Bool.eq_false_iff.2 off]
      exact same

variable {plan}

theorem stepped_forwardOnly (only : config.forwardOnly = true) : plan.stepped a b = plan.locals (a + 1) b := by
  unfold stepped
  simp only [locals, only, if_true]

/-- The tensors of a forward step go to the end of the lists. -/
theorem stepped_push (train : config.forwardOnly = false) (le : b ≤ a) :
    { plan.stepped a b with
      inputTensors := (plan.stepped a b).inputTensors ++ [plan.input a],
      outputTensors := (plan.stepped a b).outputTensors ++ [plan.output a] } = plan.locals (a + 1) b := by
  have count : a + 1 - b = a - b + 1 := by omega
  have last : b + (a - b) = a := by omega
  unfold stepped
  simp only [locals, train, Bool.false_eq_true, if_false, count, List.range'_concat, one_mul, last, List.map_append, List.map_singleton]

theorem popTensors_locals (train : config.forwardOnly = false) (lt : b < a) (noSync : Bool) :
    popTensors (τ := τ) { plan.locals a b with noSync := noSync } = .done (plan.input b, plan.output b, plan.popped a b noSync) := by
  have count : a - b = a - (b + 1) + 1 := by omega
  simp only [popTensors, popped, locals, train, Bool.false_eq_true, if_false, count, List.range'_succ, List.map_cons]

theorem backwardStep_locals :
    backwardStep stage (plan.input b) (plan.output b) (plan.outputGrad b)
      (plan.popped a b !(plan.enabled && b + 1 == place.numMicrobatches)) = (plan.inputGrad b, plan.locals a (b + 1)) := by
  simp only [backwardStep, popped, locals, inputGrad, List.range_succ, List.map_append, List.map_singleton, Bool.not_not]

/-! ## The loops -/

section Loops

variable (plan)

def recvF (k : Nat) : List (Entry Port τ) := table place.isFirstStage (place.rank - 1 + 2 * k) none none (plan.input k) none

def sendF (k : Nat) : List (Entry Port τ) :=
  table place.isLastStage (place.rank + 2 * k) none (some (stage.tensor (plan.output k))) none none

def exchangeNext (k j : Nat) : List (Entry Port τ) :=
  table place.isLastStage (place.rank + 2 * k) none (some (stage.tensor (plan.output k))) none (plan.outputGrad j)

/-- The time at which the gradient of the output of microbatch `j` comes in. -/
def backTime (_ : Plan stage config place) (j : Nat) : Nat := 2 * (place.size - 1) - place.rank + 2 * j

def recvB (j : Nat) : List (Entry Port τ) := table place.isLastStage (plan.backTime j) none none none (plan.outputGrad j)

def sendB (j : Nat) : List (Entry Port τ) := table place.isFirstStage (plan.backTime j + 1) (plan.inputGrad j) none none none

def exchangePrev (j k : Nat) : List (Entry Port τ) :=
  table place.isFirstStage (plan.backTime j + 1) (plan.inputGrad j) none (plan.input k) none

def steadyTable (i : Nat) : List (Entry Port τ) :=
  plan.exchangeNext (i + place.numWarmup) i ++
    if i + 1 = place.numRemaining then plan.sendB i else plan.exchangePrev i (i + 1 + place.numWarmup)

def forwardTable (i : Nat) : List (Entry Port τ) :=
  plan.sendF (i + place.numWarmup) ++ if i + 1 = place.numRemaining then [] else plan.recvF (i + 1 + place.numWarmup)

def cooldownTable (i : Nat) : List (Entry Port τ) :=
  plan.recvB (i + place.numRemaining) ++ plan.sendB (i + place.numRemaining)

/-- Everything a rank sends and receives. -/
def timetable : List (Entry Port τ) :=
  ((List.range place.numWarmup).flatMap fun i => plan.recvF i ++ plan.sendF i) ++
    (if 0 < place.numRemaining then plan.recvF place.numWarmup else []) ++
    if config.forwardOnly then (List.range place.numRemaining).flatMap plan.forwardTable
    else (List.range place.numRemaining).flatMap plan.steadyTable ++ (List.range place.numWarmup).flatMap plan.cooldownTable

variable {plan} {i : Nat}

omit plan in
theorem rank_pos (notFirst : place.isFirstStage = false) : 0 < place.rank :=
  Nat.pos_of_ne_zero (ne_of_beq_false notFirst)

theorem warmupStep_plays (lt : i < place.numWarmup) :
    Plays (place.rank + 2 * i - 1) (warmupStep stage config place i (plan.locals i 0)) (plan.recvF i ++ plan.sendF i)
      (plan.locals (i + 1) 0) (place.rank + 2 * (i + 1) - 1) := by
  have received : Plays (place.rank + 2 * i - 1) (recvForward (τ := τ) place.isFirstStage) (plan.recvF i) (plan.input i)
      (place.rank + 2 * i) :=
    recvForward_plays (plan.input_isSome i) (by omega) fun notFirst => by
      have := rank_pos notFirst
      omega
  have sent : Plays (place.rank + 2 * i) (sendForward (stage.tensor (plan.output i)) place.isLastStage) (plan.sendF i) ()
      (place.rank + 2 * (i + 1) - 1) :=
    sendForward_plays (by omega) fun _ => by omega
  obtain ⟨s, run, counted⟩ := plan.forwardStep_locals (lt.trans_le place.numWarmup_le) 0
  unfold warmupStep
  refine received.bind ?_
  rw [run]
  refine sent.finish (congrArg Proc.done ?_)
  cases only : config.forwardOnly with
  | true => exact counted.trans (stepped_forwardOnly only)
  | false =>
    exact (congrArg (fun s : Locals β τ ω χ γ => { s with
      inputTensors := s.inputTensors ++ [plan.input i], outputTensors := s.outputTensors ++ [plan.output i] }) counted).trans
      (stepped_push only (Nat.zero_le i))

/-- The input tensor at the start of a turn of the steady loop. -/
def steadyInput (plan : Plan stage config place) (i : Nat) : Option τ :=
  if i < place.numRemaining then plan.input (i + place.numWarmup)
  else if config.forwardOnly ∧ i ≠ 0 then plan.input (i - 1 + place.numWarmup) else none

theorem firstStep : (i == 0 && place.numWarmup == 0) = (i + place.numWarmup == 0) := by
  rw [Bool.eq_iff_iff, Bool.and_eq_true, beq_iff_eq, beq_iff_eq, beq_iff_eq]
  omega

theorem forwardTurn_plays (only : config.forwardOnly = true) (lt : i < place.numRemaining) :
    Plays (place.rank + 2 * (i + place.numWarmup))
      (steadyStep stage config place i (plan.steadyInput i, plan.locals (i + place.numWarmup) 0)) (plan.forwardTable i)
      (plan.steadyInput (i + 1), plan.locals (i + 1 + place.numWarmup) 0)
      (place.rank + 2 * (i + 1 + place.numWarmup)) := by
  have total := place.numWarmup_add
  have sent : Plays (place.rank + 2 * (i + place.numWarmup))
      (sendForward (stage.tensor (plan.output (i + place.numWarmup))) place.isLastStage) (plan.sendF (i + place.numWarmup)) ()
      (place.rank + 2 * (i + place.numWarmup) + 1) :=
    sendForward_plays (by omega) fun _ => by omega
  obtain ⟨s, run, counted⟩ := plan.forwardStep_locals (show i + place.numWarmup < _ by omega) 0
  rw [only] at run
  rw [stepped_forwardOnly only] at counted
  have here : plan.steadyInput i = plan.input (i + place.numWarmup) := if_pos lt
  have next : i + place.numWarmup + 1 = i + 1 + place.numWarmup := by omega
  rw [next] at counted
  unfold steadyStep forwardTable
  simp only [firstStep, here, only, run, Proc.done_bind, if_true]
  refine sent.bind ?_
  by_cases last : i + 1 = place.numRemaining
  · have lastIteration : (i == place.numRemaining - 1) = true := by
      rw [beq_iff_eq]
      omega
    have stays : plan.steadyInput (i + 1) = plan.input (i + place.numWarmup) := by
      unfold steadyInput
      rw [if_neg (by omega), if_pos ⟨only, by omega⟩, Nat.add_sub_cancel]
    rw [if_pos last, stays, ← counted, if_pos lastIteration]
    exact .done (by omega)
  · have lastIteration : (i == place.numRemaining - 1) = false := by
      rw [beq_eq_false_iff_ne]
      omega
    have moves : plan.steadyInput (i + 1) = plan.input (i + 1 + place.numWarmup) := if_pos (by omega)
    have received : Plays (place.rank + 2 * (i + place.numWarmup) + 1) (recvForward (τ := τ) place.isFirstStage)
        (plan.recvF (i + 1 + place.numWarmup)) (plan.input (i + 1 + place.numWarmup))
        (place.rank + 2 * (i + 1 + place.numWarmup)) :=
      recvForward_plays (plan.input_isSome _) (by omega) fun notFirst => by
        have := rank_pos notFirst
        omega
    rw [if_neg last, moves, lastIteration]
    refine received.finish ?_
    rw [← counted]
    rfl

theorem steadyTurn_plays (train : config.forwardOnly = false) (lt : i < place.numRemaining) :
    Plays (place.rank + 2 * (i + place.numWarmup))
      (steadyStep stage config place i (plan.steadyInput i, plan.locals (i + place.numWarmup) i)) (plan.steadyTable i)
      (plan.steadyInput (i + 1), plan.locals (i + 1 + place.numWarmup) (i + 1))
      (place.rank + 2 * (i + 1 + place.numWarmup)) := by
  have total := place.numWarmup_add
  have full := place.numWarmup_full plan.inside (by omega)
  have exchanged : Plays (place.rank + 2 * (i + place.numWarmup))
      (sendForwardRecvBackward (stage.tensor (plan.output (i + place.numWarmup))) place.isLastStage)
      (plan.exchangeNext (i + place.numWarmup) i) (plan.outputGrad i) (place.rank + 2 * (i + place.numWarmup) + 1) :=
    sendForwardRecvBackward_plays (plan.outputGrad_isSome i) (by omega) fun _ => by omega
  have here : plan.steadyInput i = plan.input (i + place.numWarmup) := if_pos lt
  have next : i + place.numWarmup + 1 = i + 1 + place.numWarmup := by omega
  obtain ⟨s, run, counted⟩ := plan.forwardStep_locals (show i + place.numWarmup < _ by omega) i
  rw [train] at run
  have pushed : ({ s with
      inputTensors := s.inputTensors ++ [plan.input (i + place.numWarmup)]
      outputTensors := s.outputTensors ++ [plan.output (i + place.numWarmup)]
      totalNumTokens := s.totalNumTokens + plan.numTokens (i + place.numWarmup) } : Locals β τ ω χ γ) =
        plan.locals (i + 1 + place.numWarmup) i := by
    rw [← next]
    exact (congrArg (fun s : Locals β τ ω χ γ => { s with
      inputTensors := s.inputTensors ++ [plan.input (i + place.numWarmup)]
      outputTensors := s.outputTensors ++ [plan.output (i + place.numWarmup)] }) counted).trans
      (stepped_push train (Nat.le_add_right ..))
  have pop : popTensors (τ := τ) (plan.locals (i + 1 + place.numWarmup) i) =
      .done (plan.input i, plan.output i, plan.popped (i + 1 + place.numWarmup) i true) := by
    rw [← popTensors_locals train (by omega), ← plan.locals_noSync (show i < _ by omega) (i + 1 + place.numWarmup)]
  have ends : (place.numWarmup == 0 && i == place.numRemaining - 1) = (i + 1 == place.numMicrobatches) := by
    rw [Bool.eq_iff_iff, Bool.and_eq_true, beq_iff_eq, beq_iff_eq, beq_iff_eq]
    omega
  have enable : (if (place.numWarmup == 0 && i == place.numRemaining - 1) = true then
      enableGradSync config place (plan.popped (i + 1 + place.numWarmup) i true)
      else plan.popped (i + 1 + place.numWarmup) i true) =
      plan.popped (i + 1 + place.numWarmup) i !(plan.enabled && i + 1 == place.numMicrobatches) := by
    rw [ends]
    exact plan.enableGradSync_eq rfl _
  unfold steadyStep steadyTable
  simp only [firstStep, here, train, run, Proc.done_bind, Bool.false_eq_true, if_false]
  refine exchanged.bind ?_
  rw [pushed, pop]
  simp only [Proc.done_bind, enable, backwardStep_locals]
  by_cases last : i + 1 = place.numRemaining
  · have lastIteration : (i == place.numRemaining - 1) = true := by
      rw [beq_iff_eq]
      omega
    have gone : plan.steadyInput (i + 1) = none := by
      unfold steadyInput
      rw [if_neg (by omega), if_neg (by rw [train]; exact fun h => (nomatch h.1))]
    have sent : Plays (place.rank + 2 * (i + place.numWarmup) + 1) (sendBackward (plan.inputGrad i) place.isFirstStage)
        (plan.sendB i) () (place.rank + 2 * (i + 1 + place.numWarmup)) :=
      sendBackward_plays (by omega) fun notFirst => by
        have := rank_pos notFirst
        unfold backTime
        omega
    rw [if_pos last, gone, if_pos lastIteration]
    exact sent.finish rfl
  · have lastIteration : (i == place.numRemaining - 1) = false := by
      rw [beq_eq_false_iff_ne]
      omega
    have moves : plan.steadyInput (i + 1) = plan.input (i + 1 + place.numWarmup) := if_pos (by omega)
    have exchanged' : Plays (place.rank + 2 * (i + place.numWarmup) + 1)
        (sendBackwardRecvForward (plan.inputGrad i) place.isFirstStage) (plan.exchangePrev i (i + 1 + place.numWarmup))
        (plan.input (i + 1 + place.numWarmup)) (place.rank + 2 * (i + 1 + place.numWarmup)) :=
      sendBackwardRecvForward_plays (plan.input_isSome _) (by omega) fun notFirst => by
        have := rank_pos notFirst
        unfold backTime
        omega
    rw [if_neg last, moves, lastIteration]
    exact exchanged'.finish rfl

theorem cooldownStep_plays (train : config.forwardOnly = false) (lt : i < place.numWarmup) :
    Plays (plan.backTime (i + place.numRemaining))
      (cooldownStep stage config place i (plan.locals place.numMicrobatches (i + place.numRemaining))) (plan.cooldownTable i)
      (plan.locals place.numMicrobatches (i + 1 + place.numRemaining)) (plan.backTime (i + 1 + place.numRemaining)) := by
  have total := place.numWarmup_add
  have received : Plays (plan.backTime (i + place.numRemaining)) (recvBackward (τ := τ) place.isLastStage)
      (plan.recvB (i + place.numRemaining)) (plan.outputGrad (i + place.numRemaining))
      (plan.backTime (i + place.numRemaining) + 1) :=
    recvBackward_plays (plan.outputGrad_isSome _) (by omega) fun _ => by omega
  have sent : Plays (plan.backTime (i + place.numRemaining) + 1)
      (sendBackward (plan.inputGrad (i + place.numRemaining)) place.isFirstStage) (plan.sendB (i + place.numRemaining)) ()
      (plan.backTime (i + 1 + place.numRemaining)) :=
    sendBackward_plays (by unfold backTime; omega) fun _ => by
      unfold backTime
      omega
  have ends : (i == place.numWarmup - 1) = (i + place.numRemaining + 1 == place.numMicrobatches) := by
    rw [Bool.eq_iff_iff, beq_iff_eq, beq_iff_eq]
    omega
  have next : i + place.numRemaining + 1 = i + 1 + place.numRemaining := by omega
  unfold cooldownStep cooldownTable
  have inside : i + place.numRemaining < place.numMicrobatches := by omega
  simp only [plan.enableGradSync_eq (plan.locals_noSync inside _), ends, popTensors_locals train inside, Proc.done_bind]
  refine received.bind ?_
  simp only [backwardStep_locals]
  rw [next]
  exact sent.finish rfl

/-- What a rank has computed in the end. -/
def result (plan : Plan stage config place) : Locals β τ ω χ γ :=
  if config.forwardOnly then plan.locals place.numMicrobatches 0
  else launchRemaining config (plan.locals place.numMicrobatches place.numMicrobatches)

theorem locals_start (pos : 0 < place.numMicrobatches) :
    plan.locals 0 0 = .start ((List.range place.numMicrobatches).map plan.batch ++ plan.more) := by
  have closed := plan.locals_noSync pos 0
  simp only [locals] at closed
  simp only [locals, closed, Locals.start, Nat.sub_zero, List.range'_zero, List.map_nil, ite_self,
    List.flatMap_nil, List.sum_nil, List.range_eq_range']

/-- **A rank that follows the 1F1B schedule follows its timetable.** -/
theorem schedule_plays (plan : Plan stage config place) (pos : 0 < place.numMicrobatches) :
    Plays 0 (forwardBackwardPipeliningWithoutInterleaving stage config place
        ((List.range place.numMicrobatches).map plan.batch ++ plan.more))
      plan.timetable plan.result (place.rank + 2 * place.numMicrobatches + plan.backTime place.numMicrobatches) := by
  have total := place.numWarmup_add
  have early := place.numWarmup_lt plan.inside
  have full := place.numWarmup_full plan.inside
  have warmup := Plays.loop (fun i => plan.locals i 0) (fun i => place.rank + 2 * i - 1)
    (fun i => plan.recvF i ++ plan.sendF i) (n := place.numWarmup) fun i lt => warmupStep_plays lt
  have first : Plays (place.rank + 2 * place.numWarmup - 1) (recvFirst place)
      (if 0 < place.numRemaining then plan.recvF place.numWarmup else []) (plan.steadyInput 0)
      (place.rank + 2 * place.numWarmup) := by
    unfold recvFirst
    by_cases steady : 0 < place.numRemaining
    · have here : plan.steadyInput 0 = plan.input place.numWarmup := by
        rw [steadyInput, if_pos steady, Nat.zero_add]
      rw [if_pos steady, if_pos steady, here]
      refine recvForward_plays (plan.input_isSome _) (by omega) fun notFirst => ?_
      have := rank_pos notFirst
      omega
    · have here : plan.steadyInput 0 = none := by
        rw [steadyInput, if_neg steady, if_neg fun h => h.2 rfl]
      rw [if_neg steady, if_neg steady, here]
      exact .done (by omega)
  unfold forwardBackwardPipeliningWithoutInterleaving timetable
  rw [← locals_start pos, List.append_assoc]
  refine (warmup.mono (Nat.zero_le _) le_rfl).bind (first.bind ?_)
  cases only : config.forwardOnly with
  | true =>
    have steady := Plays.loop (fun i => (plan.steadyInput i, plan.locals (i + place.numWarmup) 0))
      (fun i => place.rank + 2 * (i + place.numWarmup)) plan.forwardTable (n := place.numRemaining)
      fun i lt => forwardTurn_plays only lt
    rw [Nat.zero_add] at steady
    refine (steady.finish ?_).mono le_rfl (by omega)
    rw [result, if_pos only, Nat.add_comm place.numRemaining, total]
    rfl
  | false =>
    have steady := Plays.loop (fun i => (plan.steadyInput i, plan.locals (i + place.numWarmup) i))
      (fun i => place.rank + 2 * (i + place.numWarmup)) plan.steadyTable (n := place.numRemaining)
      fun i lt => steadyTurn_plays only lt
    have cooldown := Plays.loop (fun i => plan.locals place.numMicrobatches (i + place.numRemaining))
      (fun i => plan.backTime (i + place.numRemaining)) plan.cooldownTable (n := place.numWarmup)
      fun i lt => cooldownStep_plays only lt
    have later : place.rank + 2 * (place.numRemaining + place.numWarmup) ≤ plan.backTime place.numRemaining := by
      unfold backTime
      omega
    rw [Nat.zero_add] at steady
    rw [Nat.zero_add, total] at cooldown
    rw [Nat.add_comm place.numRemaining, total] at steady later
    have finished : plan.result = launchRemaining config (plan.locals place.numMicrobatches place.numMicrobatches) := by
      rw [result, only]
      rfl
    have cooled := (cooldown.mono later le_rfl).finish (f := fun s => pure (launchRemaining config s)) rfl
    rw [finished]
    exact steady.bind (cooled.mono le_rfl (Nat.le_add_left ..))

end Loops

/-! ## The two directions -/

section Directions

variable (plan)

def forwardSent (k : Nat) : List (Nat × τ) :=
  stamp place.isLastStage (place.rank + 2 * k) (some (stage.tensor (plan.output k)))

def forwardTaken (k : Nat) : List (Nat × τ) := stamp place.isFirstStage (place.rank - 1 + 2 * k) (plan.input k)

def backwardSent (j : Nat) : List (Nat × τ) := stamp place.isFirstStage (plan.backTime j + 1) (plan.inputGrad j)

def backwardTaken (j : Nat) : List (Nat × τ) := stamp place.isLastStage (plan.backTime j) (plan.outputGrad j)

omit plan in
theorem flatMap_range_add {δ : Type} (g : Nat → List δ) (a b : Nat) :
    (List.range (a + b)).flatMap g = (List.range a).flatMap g ++ (List.range b).flatMap fun i => g (i + a) := by
  rw [List.range_add, List.flatMap_append, List.flatMap_map]
  simp only [Nat.add_comm a]

omit plan in
/-- The first element is handled before the loop, and every turn but the last handles the next one. -/
theorem flatMap_range_ahead {δ : Type} (g : Nat → List δ) (n : Nat) :
    ((if 0 < n then g 0 else []) ++ (List.range n).flatMap fun i => if i + 1 = n then [] else g (i + 1)) =
      (List.range n).flatMap g := by
  cases n with
  | zero => rfl
  | succ n =>
    have inner : ((List.range n).flatMap fun i => if i + 1 = n + 1 then [] else g (i + 1)) =
        (List.range n).flatMap fun i => g (i + 1) := by
      refine List.flatMap_congr fun i mem => if_neg ?_
      have := List.mem_range.1 mem
      omega
    rw [if_pos (Nat.succ_pos n), List.range_succ, List.flatMap_append, inner, List.flatMap_singleton, if_pos rfl, List.append_nil,
      ← List.range_succ, List.range_succ_eq_map, List.flatMap_cons, List.flatMap_map]

theorem stamped_timetable (side : Entry Port τ → Option τ) :
    stamped side plan.timetable =
      ((List.range place.numWarmup).flatMap fun i => stamped side (plan.recvF i) ++ stamped side (plan.sendF i)) ++
        (if 0 < place.numRemaining then stamped side (plan.recvF place.numWarmup) else []) ++
        if config.forwardOnly then (List.range place.numRemaining).flatMap fun i => stamped side (plan.sendF (i + place.numWarmup)) ++
          if i + 1 = place.numRemaining then [] else stamped side (plan.recvF (i + 1 + place.numWarmup))
        else ((List.range place.numRemaining).flatMap fun i => stamped side (plan.exchangeNext (i + place.numWarmup) i) ++
            if i + 1 = place.numRemaining then stamped side (plan.sendB i)
            else stamped side (plan.exchangePrev i (i + 1 + place.numWarmup))) ++
          (List.range place.numWarmup).flatMap fun i =>
            stamped side (plan.recvB (i + place.numRemaining)) ++ stamped side (plan.sendB (i + place.numRemaining)) := by
  have nothing : stamped side ([] : List (Entry Port τ)) = [] := rfl
  simp only [timetable, forwardTable, steadyTable, cooldownTable, stamped_append, stamped_flatMap, apply_ite (stamped side), nothing]

omit plan in
theorem flatMap_nothing {δ ε : Type} (l : List δ) : (l.flatMap fun _ => ([] : List ε)) = [] :=
  List.flatMap_eq_nil_iff.2 fun _ _ => rfl

/-- In the steady phase the gradient of microbatch `i` comes in when the output of a later one goes out. -/
theorem exchangeNext_time {i : Nat} (lt : i < place.numRemaining) :
    place.rank + 2 * (i + place.numWarmup) = plan.backTime i := by
  have full := place.numWarmup_full plan.inside (by omega)
  unfold backTime
  omega

theorem exchangePrev_time {i : Nat} (lt : i < place.numRemaining) (x : Option τ) :
    stamp place.isFirstStage (plan.backTime i + 1) x = stamp place.isFirstStage (place.rank - 1 + 2 * (i + 1 + place.numWarmup)) x := by
  cases notFirst : place.isFirstStage with
  | true => rfl
  | false =>
    have pos := rank_pos notFirst
    have same : plan.backTime i + 1 = place.rank - 1 + 2 * (i + 1 + place.numWarmup) := by
      rw [← plan.exchangeNext_time lt]
      omega
    rw [same]

theorem sent_next : sent .next plan.timetable = (List.range place.numMicrobatches).flatMap plan.forwardSent := by
  unfold sent
  rw [stamped_timetable, ← place.numWarmup_add, flatMap_range_add]
  simp only [recvF, sendF, exchangeNext, sendB, exchangePrev, recvB, sent_next_table, stamp_none, List.nil_append, List.append_nil,
    ite_self, flatMap_nothing]
  rfl

theorem taken_prev : taken .prev plan.timetable = (List.range place.numMicrobatches).flatMap plan.forwardTaken := by
  have ahead := flatMap_range_ahead (fun i => plan.forwardTaken (i + place.numWarmup)) place.numRemaining
  rw [Nat.zero_add] at ahead
  unfold taken
  rw [stamped_timetable, ← place.numWarmup_add, flatMap_range_add, ← ahead, List.append_assoc]
  simp only [recvF, sendF, exchangeNext, sendB, exchangePrev, recvB, taken_prev_table, stamp_none, List.nil_append, List.append_nil,
    flatMap_nothing]
  congr 2
  cases config.forwardOnly with
  | true => rfl
  | false =>
    refine List.flatMap_congr fun i mem => ?_
    rw [plan.exchangePrev_time (List.mem_range.1 mem)]
    rfl

theorem sent_prev : sent .prev plan.timetable =
    if config.forwardOnly then [] else (List.range place.numMicrobatches).flatMap plan.backwardSent := by
  unfold sent
  rw [stamped_timetable, ← place.numWarmup_add, Nat.add_comm, flatMap_range_add]
  simp only [recvF, sendF, exchangeNext, sendB, exchangePrev, recvB, sent_prev_table, stamp_none, List.nil_append, List.append_nil,
    ite_self, flatMap_nothing]
  rfl

theorem taken_next : taken .next plan.timetable =
    if config.forwardOnly then [] else (List.range place.numMicrobatches).flatMap plan.backwardTaken := by
  unfold taken
  rw [stamped_timetable, ← place.numWarmup_add, Nat.add_comm, flatMap_range_add]
  simp only [recvF, sendF, exchangeNext, sendB, exchangePrev, recvB, taken_next_table, stamp_none, List.nil_append, List.append_nil,
    ite_self, flatMap_nothing]
  cases config.forwardOnly with
  | true => rfl
  | false =>
    refine congrArg (· ++ _) (List.flatMap_congr fun i mem => ?_)
    rw [plan.exchangeNext_time (List.mem_range.1 mem)]
    rfl

end Directions

end Plan

end SlimeBoard.Schedules
