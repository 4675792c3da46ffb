import SlimeBoard.Lib.Rendezvous

/-!
# The 1F1B pipeline schedule

The ranks of a pipeline hold a stage of the model each. A rank runs some forward steps to warm up, then
a forward and a backward step in turn, then the backward steps that are left. It sends the output of a
forward step to the next rank and the gradient of its input to the previous one. Every run of the ranks
ends, and the stages have computed what the whole model computes without a pipeline. The tensors have fixed
shapes, so that no shapes are exchanged.
-/

namespace SlimeBoard.Schedules

open Rendezvous

variable {β τ ω χ γ : Type}

/-- A pipeline rank has a wire to the previous rank and one to the next. -/
inductive Port where
  | prev
  | next
  deriving DecidableEq

instance : Fintype Port := ⟨{.prev, .next}, fun q => by cases q <;> decide⟩

def Port.pick {α : Type} (prev next : α) : Port → α
  | .prev => prev
  | .next => next

/-- The neighbours `(rank + 1) % world_size` and `(rank - 1) % world_size`. -/
def wire {p : Nat} [NeZero p] : Fin p × Port → Fin p × Port
  | (rank, .next) => (rank + 1, .prev)
  | (rank, .prev) => (rank - 1, .next)

theorem wire_wire {p : Nat} [NeZero p] : Function.Involutive (wire (p := p)) := by
  rintro ⟨rank, _ | _⟩
  · exact Prod.ext (sub_add_cancel rank 1) rfl
  · exact Prod.ext (add_sub_cancel_right rank 1) rfl

def wires {p : Nat} [NeZero p] : Equiv.Perm (Fin p × Port) := wire_wire.toPerm

/-! ## Communication -/

def communicate (tensorSendNext tensorSendPrev : Option τ) (recvPrev recvNext : Bool) : Proc Port τ (Option τ × Option τ) :=
  .comm (Port.pick tensorSendPrev tensorSendNext) (Port.pick recvPrev recvNext) fun got => .done (got .prev, got .next)

def recvForward (isFirstStage : Bool) : Proc Port τ (Option τ) :=
  if isFirstStage then pure none else do
    let got ← communicate none none true false
    pure got.1

def recvBackward (isLastStage : Bool) : Proc Port τ (Option τ) :=
  if isLastStage then pure none else do
    let got ← communicate none none false true
    pure got.2

def sendForward (outputTensor : τ) (isLastStage : Bool) : Proc Port τ Unit :=
  if isLastStage then pure () else do
    let _ ← communicate (some outputTensor) none false false
    pure ()

def sendBackward (inputTensorGrad : Option τ) (isFirstStage : Bool) : Proc Port τ Unit :=
  if isFirstStage then pure () else do
    let _ ← communicate none inputTensorGrad false false
    pure ()

def sendForwardRecvBackward (outputTensor : τ) (isLastStage : Bool) : Proc Port τ (Option τ) :=
  if isLastStage then pure none else do
    let got ← communicate (some outputTensor) none false true
    pure got.2

def sendBackwardRecvForward (inputTensorGrad : Option τ) (isFirstStage : Bool) : Proc Port τ (Option τ) :=
  if isFirstStage then pure none else do
    let got ← communicate none inputTensorGrad true false
    pure got.1

/-! ## One forward and one backward step -/

/-- A stage of the model: the forward step of a microbatch (which activations to checkpoint, is it the
first one, its number, its data, the input tensor), and the gradients of its input and parameters.
An output `ω` stands for the output tensor with its graph; `lossFunc` is the loss at the last stage,
scaled by the number of microbatches, with the number of tokens and the loss to report. -/
structure Stage (β τ ω χ γ : Type) where
  forward : Option Bool → Bool → Nat → β → Option τ → ω
  lossFunc : Nat → ω → ω × Nat × χ
  tensor : ω → τ
  inputGrad : τ → ω → Option τ → τ
  paramGrad : Option τ → ω → Option τ → γ

structure Config where
  forwardOnly : Bool
  firstValStep : Option Bool
  /-- `num_microbatches_with_partial_activation_checkpoints` -/
  partialCheckpoints : Option Nat
  /-- `grad_sync_func` is given -/
  gradSyncFunc : Bool

/-- The local variables of a rank. A gradient is stored with whether its reduction was enabled. -/
@[ext]
structure Locals (β τ ω χ γ : Type) where
  dataIterator : List β
  inputTensors : List (Option τ)
  outputTensors : List ω
  forwardDataStore : List χ
  totalNumTokens : Nat
  /-- `no_sync_context is not None` -/
  noSync : Bool
  grads : List (γ × Bool)
  /-- the calls of `grad_sync_func` -/
  gradSyncs : Nat

def Locals.start (data : List β) : Locals β τ ω χ γ :=
  { dataIterator := data, inputTensors := [], outputTensors := [], forwardDataStore := [], totalNumTokens := 0,
    noSync := true, grads := [], gradSyncs := 0 }

def checkFirstValStep (firstValStep : Option Bool) (forwardOnly cond : Bool) : Bool :=
  match firstValStep with
  | some v => if forwardOnly then v && cond else cond
  | none => cond

/-- The loss at the last stage; other stages only pass their output on. -/
def forwardStepCalcLoss (stage : Stage β τ ω χ γ) (numMicrobatches : Nat) (isLastStage : Bool) (output : ω) : ω × Nat × List χ :=
  if isLastStage then
    let (output, numTokens, loss) := stage.lossFunc numMicrobatches output
    (output, numTokens, [loss])
  else (output, 0, [])

/-- A forward step takes the next microbatch from the iterator. -/
def forwardStep (stage : Stage β τ ω χ γ) (numMicrobatches : Nat) (inputTensor : Option τ) (checkpoint : Option Bool)
    (isFirst : Bool) (current : Nat) (isLastStage : Bool) (s : Locals β τ ω χ γ) :
    Proc Port τ (ω × Nat × Locals β τ ω χ γ) :=
  match s.dataIterator with
  | [] => .raise
  | batch :: rest =>
    let (output, numTokens, losses) := forwardStepCalcLoss stage numMicrobatches isLastStage
      (stage.forward checkpoint isFirst current batch inputTensor)
    .done (output, numTokens, { s with dataIterator := rest, forwardDataStore := s.forwardDataStore ++ losses })

/-- A backward step accumulates the gradients of the parameters and returns the gradient of the input. -/
def backwardStep (stage : Stage β τ ω χ γ) (inputTensor : Option τ) (outputTensor : ω) (outputTensorGrad : Option τ)
    (s : Locals β τ ω χ γ) : Option τ × Locals β τ ω χ γ :=
  (inputTensor.map fun x => stage.inputGrad x outputTensor outputTensorGrad,
    { s with grads := s.grads ++ [(stage.paramGrad inputTensor outputTensor outputTensorGrad, !s.noSync)] })

/-! ## The schedule of a rank -/

/-- A rank of a pipeline and the number of microbatches it runs. -/
structure Place where
  rank : Nat
  size : Nat
  numMicrobatches : Nat

namespace Place

variable (place : Place)

def isFirstStage : Bool := place.rank == 0

def isLastStage : Bool := place.rank == place.size - 1

def numWarmup : Nat := min (place.size - place.rank - 1) place.numMicrobatches

def numRemaining : Nat := place.numMicrobatches - place.numWarmup

/-- `checkpoint_activations_microbatch` of a microbatch -/
def checkpoint (config : Config) (k : Nat) : Option Bool :=
  config.partialCheckpoints.map fun n => k % (place.numWarmup + 1) ≥ n

end Place

variable (stage : Stage β τ ω χ γ) (config : Config) (place : Place)

/-- A turn of the warmup loop. -/
def warmupStep (i : Nat) (s : Locals β τ ω χ γ) : Proc Port τ (Locals β τ ω χ γ) := do
  let inputTensor ← recvForward place.isFirstStage
  let (outputTensor, numTokens, s) ← forwardStep stage place.numMicrobatches inputTensor (place.checkpoint config i)
    (checkFirstValStep config.firstValStep config.forwardOnly (i == 0)) i place.isLastStage s
  sendForward (stage.tensor outputTensor) place.isLastStage
  let s := { s with totalNumTokens := s.totalNumTokens + numTokens }
  pure (if config.forwardOnly then s else
    { s with inputTensors := s.inputTensors ++ [inputTensor], outputTensors := s.outputTensors ++ [outputTensor] })

/-- `enable_grad_sync`, under the guard of its two calls in the loops -/
def enableGradSync (s : Locals β τ ω χ γ) : Locals β τ ω χ γ :=
  if !config.gradSyncFunc || place.rank == 0 then { s with noSync := false } else s

/-- Pop the oldest input and output from the start of the lists. -/
def popTensors (s : Locals β τ ω χ γ) : Proc Port τ (Option τ × ω × Locals β τ ω χ γ) :=
  match s.inputTensors, s.outputTensors with
  | inputTensor :: inputTensors, outputTensor :: outputTensors =>
    .done (inputTensor, outputTensor, { s with inputTensors := inputTensors, outputTensors := outputTensors })
  | _, _ => .raise

/-- A turn of the steady loop; the first component is the input tensor of the turn. -/
def steadyStep (i : Nat) (turn : Option τ × Locals β τ ω χ γ) : Proc Port τ (Option τ × Locals β τ ω χ γ) := do
  let (inputTensor, s) := turn
  let lastIteration := i == place.numRemaining - 1
  let (outputTensor, numTokens, s) ← forwardStep stage place.numMicrobatches inputTensor
    (place.checkpoint config (i + place.numWarmup))
    (checkFirstValStep config.firstValStep config.forwardOnly (i == 0 && place.numWarmup == 0)) (i + place.numWarmup)
    place.isLastStage s
  let s := { s with totalNumTokens := s.totalNumTokens + numTokens }
  if config.forwardOnly then do
    sendForward (stage.tensor outputTensor) place.isLastStage
    if lastIteration then pure (inputTensor, s) else do
      let inputTensor ← recvForward place.isFirstStage
      pure (inputTensor, s)
  else do
    let outputTensorGrad ← sendForwardRecvBackward (stage.tensor outputTensor) place.isLastStage
    let s := { s with inputTensors := s.inputTensors ++ [inputTensor], outputTensors := s.outputTensors ++ [outputTensor] }
    let (inputTensor, outputTensor, s) ← popTensors s
    let s := if place.numWarmup == 0 && lastIteration then enableGradSync config place s else s
    let (inputTensorGrad, s) := backwardStep stage inputTensor outputTensor outputTensorGrad s
    if lastIteration then do
      sendBackward inputTensorGrad place.isFirstStage
      pure (none, s)
    else do
      let inputTensor ← sendBackwardRecvForward inputTensorGrad place.isFirstStage
      pure (inputTensor, s)

/-- A turn of the cooldown loop. -/
def cooldownStep (i : Nat) (s : Locals β τ ω χ γ) : Proc Port τ (Locals β τ ω χ γ) := do
  let s := if i == place.numWarmup - 1 then enableGradSync config place s else s
  let (inputTensor, outputTensor, s) ← popTensors s
  let outputTensorGrad ← recvBackward place.isLastStage
  let (inputTensorGrad, s) := backwardStep stage inputTensor outputTensor outputTensorGrad s
  sendBackward inputTensorGrad place.isFirstStage
  pure s

/-- Launch the grad reductions that are left. -/
def launchRemaining (s : Locals β τ ω χ γ) : Locals β τ ω χ γ :=
  if s.noSync then
    { s with noSync := false, gradSyncs := if config.gradSyncFunc then s.gradSyncs + 1 else s.gradSyncs }
  else s

/-- Before the steady loop a rank receives its first input tensor. -/
def recvFirst : Proc Port τ (Option τ) := if place.numRemaining > 0 then recvForward place.isFirstStage else pure none

def forwardBackwardPipeliningWithoutInterleaving (data : List β) : Proc Port τ (Locals β τ ω χ γ) := do
  let s ← Proc.loop (warmupStep stage config place) (.start data) place.numWarmup
  let inputTensor ← recvFirst place
  let turn ← Proc.loop (steadyStep stage config place) (inputTensor, s) place.numRemaining
  if config.forwardOnly then pure turn.2 else do
    let s ← Proc.loop (cooldownStep stage config place) turn.2 place.numWarmup
    pure (launchRemaining config s)

/-! ## Without a pipeline -/

/-- A forward step and, in training, its backward step. -/
def plainStep (numMicrobatches : Nat) (cond : Nat → Bool) (i : Nat) (s : Locals β τ ω χ γ) :
    Proc Port τ (Locals β τ ω χ γ) := do
  let (outputTensor, numTokens, s) ← forwardStep stage numMicrobatches none none
    (checkFirstValStep config.firstValStep config.forwardOnly (cond i)) i true s
  let s := { s with totalNumTokens := s.totalNumTokens + numTokens }
  pure (if config.forwardOnly then s else (backwardStep stage none outputTensor none s).2)

/-- All microbatches but the last run inside `no_sync_func`. -/
def forwardBackwardNoPipelining (numMicrobatches : Nat) (data : List β) : Proc Port τ (Locals β τ ω χ γ) := do
  let s ← Proc.loop (plainStep stage config numMicrobatches (· == 0)) (.start data) (numMicrobatches - 1)
  plainStep stage config numMicrobatches (fun _ => numMicrobatches == 1) (numMicrobatches - 1) { s with noSync := false }

end SlimeBoard.Schedules
