import SlimeBoard.Rollout.Sample

/-!
# Generation of a sample

A call of `generate_and_rm` asks the engine for the rest of a response, and adds the reply to
the sample. An aborted sample is resumed by a later call. Whether there is something to
resume is read off the text of the response, and not off its tokens.
-/

namespace SlimeBoard.Generate

open SlimeTypes

variable {Obj : Type}

/-- The arguments that generation reads. -/
structure Args where
  ciTest : Bool
  useRolloutRoutingReplay : Bool
  partialRollout : Bool
  maskOffpolicyInPartialRollout : Bool
  groupRm : Bool
  sglangSpeculativeAlgorithm : Bool
  consistentHashing : Bool
  customGenerateFunctionPath : Option String
  rolloutMaxResponseLen : Nat

/-- What is called from other packages: the tokenizer and the processor, with the encodings of images
and of routed experts, the custom functions and the reward model. -/
structure Environment (Obj : Type) where
  encode : Value Obj → List Int
  processor : Option (Value Obj → Value Obj → List Int × Value Obj)
  encodeImage : Value Obj → Value Obj
  decodeRoutedExperts : String → Int → Py (Value Obj)
  loadFunction : String → Sample Obj → Int → Py (Sample Obj)
  asyncRm : Sample Obj → Value Obj

structure MetaInfo where
  /-- the log-prob and the id of each new token -/
  outputTokenLogprobs : Option (List (ℚ × Int))
  routedExperts : Option String
  counts : Dict String Int
  weightVersion : Option String
  finishReason : String

structure Output where
  text : String
  metaInfo : MetaInfo

def Output.newTokens (output : Output) : List (ℚ × Int) := output.metaInfo.outputTokenLogprobs.getD []

inductive Input (Obj : Type) where
  | inputIds (ids : List Int)
  | text (prompt : Value Obj)

structure Payload (Obj : Type) where
  maxNewTokens : Int
  returnRoutedExperts : Bool
  imageData : Option (List (Value Obj))
  input : Input Obj
  routingKey : Option String

section Code

variable (args : Args) (environment : Environment Obj)

/-- `value.get(key)` of a dictionary -/
def getEntry (key : String) : Value Obj → Option (Value Obj)
  | .dict entries => entries.lookup key
  | _ => none

def truthy : Value Obj → Bool
  | .null => false
  | .int i => i != 0
  | .float q => q != 0
  | .str s => s != ""
  | .list values => !values.isEmpty
  | .dict entries => !entries.isEmpty
  | .obj _ => true

def isStr : Value Obj → Bool
  | .str _ => true
  | _ => false

/-- `any(v is not None for v in multimodal_inputs.values())` -/
def anyInput : Value Obj → Bool
  | .dict entries => entries.any fun entry => !entry.2.isNull
  | _ => false

def hasImages (multimodalInputs : Value Obj) : Bool := ((getEntry "images" multimodalInputs).map truthy).getD false

def images (multimodalInputs : Value Obj) : List (Value Obj) :=
  match getEntry "images" multimodalInputs with
  | some (.list images) => images
  | _ => []

def SpecInfo.add (info : SpecInfo) (metaInfo : MetaInfo) : SpecInfo where
  specAcceptTokenNum := info.specAcceptTokenNum + (metaInfo.counts.lookup "spec_accept_token_num").getD 0
  specDraftTokenNum := info.specDraftTokenNum + (metaInfo.counts.lookup "spec_draft_token_num").getD 0
  specVerifyCt := info.specVerifyCt + (metaInfo.counts.lookup "spec_verify_ct").getD 0
  completionTokenNum := info.completionTokenNum + (metaInfo.counts.lookup "completion_tokens").getD 0

def PrefixCacheInfo.add (info : PrefixCacheInfo) (metaInfo : MetaInfo) : PrefixCacheInfo where
  cachedTokens := info.cachedTokens + (metaInfo.counts.lookup "cached_tokens").getD 0
  totalPromptTokens := info.totalPromptTokens + (metaInfo.counts.lookup "prompt_tokens").getD 0

/-- `match meta_info["finish_reason"]["type"]` -/
def finishStatus (status : Status) (finishReason : String) : Status :=
  if finishReason = "length" then .truncated
  else if finishReason = "abort" then .aborted
  else if finishReason = "stop" then .completed
  else status

def updateFromMetaInfo (sample : Sample Obj) (metaInfo : MetaInfo) : Sample Obj :=
  { sample with
    specInfo := if args.sglangSpeculativeAlgorithm then SpecInfo.add sample.specInfo metaInfo else sample.specInfo
    prefixCacheInfo := PrefixCacheInfo.add sample.prefixCacheInfo metaInfo
    weightVersions := sample.weightVersions ++ metaInfo.weightVersion.toList
    status := finishStatus sample.status metaInfo.finishReason }

/-- The prompt's ids, and the sample with what the processor makes of its other inputs. -/
def encodePrompt (sample : Sample Obj) : Sample Obj × List Int :=
  match environment.processor with
  | some processor =>
    if anyInput sample.multimodalInputs then
      ({ sample with multimodalTrainInputs := (processor sample.prompt sample.multimodalInputs).2 },
        (processor sample.prompt sample.multimodalInputs).1)
    else (sample, environment.encode sample.prompt)
  | none => (sample, environment.encode sample.prompt)

/-- `sampling_params["max_new_tokens"]`, less what the response has -/
def maxNewTokens (sample : Sample Obj) (promptIds : List Int) (samplingParams : Int) : Int :=
  if sample.response ≠ "" then samplingParams - (sample.tokens.length - promptIds.length) else samplingParams

def engineInput (sample : Sample Obj) (promptIds : List Int) : Input Obj :=
  if sample.response ≠ "" then .inputIds sample.tokens
  else if hasImages sample.multimodalInputs then .text sample.prompt
  else .inputIds promptIds

/-- `if not sample.tokens: sample.tokens = prompt_ids`, at a first turn -/
def startTokens (sample : Sample Obj) (promptIds : List Int) : Sample Obj :=
  if sample.response = "" ∧ sample.tokens = [] then { sample with tokens := promptIds } else sample

def payload (sample : Sample Obj) (promptIds : List Int) (budget : Int) : Payload Obj where
  maxNewTokens := budget
  returnRoutedExperts := args.useRolloutRoutingReplay
  imageData :=
    if hasImages sample.multimodalInputs then some ((images sample.multimodalInputs).map environment.encodeImage) else none
  input := engineInput sample promptIds
  routingKey := if args.consistentHashing then sample.sessionId.filter (· ≠ "") else none

def addRoutedExperts (sample : Sample Obj) (metaInfo : MetaInfo) : Py (Sample Obj) :=
  match metaInfo.routedExperts with
  | none => return sample
  | some data => do
    let experts ← environment.decodeRoutedExperts data (sample.tokens.length - 1)
    return { sample with rolloutRoutedExperts := experts }

/-- The sample with the engine's reply. -/
def addOutput (sample : Sample Obj) (output : Output) : Py (Sample Obj) := do
  pyAssert (sample.lossMask.isNone || (args.partialRollout && args.maskOffpolicyInPartialRollout))
  let sample ← addRoutedExperts environment { sample with
    tokens := sample.tokens ++ output.newTokens.map Prod.snd
    responseLength := sample.responseLength + output.newTokens.length
    response := sample.response ++ output.text
    lossMask := sample.lossMask.map (· ++ List.replicate output.newTokens.length 1)
    rolloutLogProbs := some (sample.rolloutLogProbs.getD [] ++ output.newTokens.map Prod.fst) } output.metaInfo
  return updateFromMetaInfo args sample output.metaInfo

/-- `generate`, where the engine replies `output` if it is asked: what it is asked, and the sample. -/
def generate (output : Output) (sample : Sample Obj) (samplingParams : Int) : Py (Option (Payload Obj) × Sample Obj) := do
  pyAssert (!args.ciTest || isStr sample.prompt)
  pyAssert (decide (sample.status = .pending) || decide (sample.status = .aborted))
  let encoded := encodePrompt environment sample
  let sample := encoded.1
  let promptIds := encoded.2
  let budget := maxNewTokens sample promptIds samplingParams
  pyAssert (decide (budget ≥ 0))
  if budget = 0 then return (none, { sample with status := .truncated })
  let asked := payload args environment sample promptIds budget
  let sample ← addOutput args environment (startTokens sample promptIds) output
  return (some asked, sample)

/-- `sample.loss_mask = [0] * sample.response_length` -/
def maskOffpolicy (sample : Sample Obj) : Sample Obj :=
  if args.partialRollout && args.maskOffpolicyInPartialRollout && decide (sample.responseLength > 0) then
    { sample with lossMask := some (List.replicate sample.responseLength 0) }
  else sample

/-- The reward of a sample, unless it is given in a group or there is one. -/
def addReward (sample : Sample Obj) : Sample Obj :=
  if args.groupRm || decide (sample.status = .aborted) || !sample.reward.isNull then sample
  else { sample with reward := environment.asyncRm sample }

/-- A call: whether generation has been aborted when it is the sample's turn, and else the engine's reply. -/
structure Call where
  aborted : Bool
  output : Output

/-- A sample that is not generated again. -/
def isFinished (sample : Sample Obj) : Bool := decide (sample.status = .completed) || decide (sample.status = .truncated)

/-- `generate_and_rm` -/
def generateAndRm (call : Call) (sample : Sample Obj) (samplingParams : Int) : Py (Option (Payload Obj) × Sample Obj) :=
  let sample := maskOffpolicy args sample
  if isFinished sample then do
    pyAssert (args.groupRm || !sample.reward.isNull)
    return (none, sample)
  else if call.aborted then return (none, { sample with status := .aborted })
  else
    match sample.generateFunctionPath.filter (· ≠ "") <|> args.customGenerateFunctionPath with
    | some path => do
      let sample ← environment.loadFunction path sample samplingParams
      return (none, addReward args environment sample)
    | none => do
      let generated ← generate args environment call.output sample samplingParams
      return (generated.1, addReward args environment generated.2)

end Code

/-! ## One call -/

section Call

variable {args : Args} {environment : Environment Obj}

/-- A sample of text that the code's own `generate` is for. -/
structure IsText (args : Args) (sample : Sample Obj) : Prop where
  noInputs : sample.multimodalInputs = .null
  noFunction : sample.generateFunctionPath = none
  noCustom : args.customGenerateFunctionPath = none

/-- What every call leaves as it is. -/
structure SameSample (before after : Sample Obj) : Prop where
  prompt : after.prompt = before.prompt
  multimodalInputs : after.multimodalInputs = before.multimodalInputs
  generateFunctionPath : after.generateFunctionPath = before.generateFunctionPath

/-- A call that does not ask the engine. -/
structure Silent (args : Args) (before after : Sample Obj) : Prop extends SameSample before after where
  tokens : after.tokens = before.tokens
  responseLength : after.responseLength = before.responseLength
  response : after.response = before.response
  rolloutLogProbs : after.rolloutLogProbs = before.rolloutLogProbs
  lossMask : after.lossMask = (maskOffpolicy args before).lossMask

/-- A call that asks the engine for at most `budget` tokens, and what it makes of the reply. -/
structure Asked (args : Args) (promptIds : List Int) (samplingParams : Int) (output : Output) (before : Sample Obj)
    (asked : Payload Obj) (after : Sample Obj) : Prop extends SameSample before after where
  budget : asked.maxNewTokens = maxNewTokens before promptIds samplingParams
  positive : 0 < asked.maxNewTokens
  input : asked.input = engineInput before promptIds
  tokens : after.tokens = (startTokens before promptIds).tokens ++ output.newTokens.map Prod.snd
  responseLength : after.responseLength = before.responseLength + output.newTokens.length
  response : after.response = before.response ++ output.text
  rolloutLogProbs : after.rolloutLogProbs = some (before.rolloutLogProbs.getD [] ++ output.newTokens.map Prod.fst)
  lossMask : after.lossMask = (maskOffpolicy args before).lossMask.map (· ++ List.replicate output.newTokens.length 1)

theorem maskOffpolicy_eq (args : Args) (sample : Sample Obj) :
    maskOffpolicy args sample = { sample with lossMask := (maskOffpolicy args sample).lossMask } := by
  unfold maskOffpolicy
  split <;> rfl

theorem addReward_eq (args : Args) (environment : Environment Obj) (sample : Sample Obj) :
    addReward args environment sample = { sample with reward := (addReward args environment sample).reward } := by
  unfold addReward
  split <;> rfl

theorem addOutput_ok {sample after : Sample Obj} {output : Output} (ok : addOutput args environment sample output = .ok after) :
    ∃ experts, after = updateFromMetaInfo args { sample with
      tokens := sample.tokens ++ output.newTokens.map Prod.snd
      responseLength := sample.responseLength + output.newTokens.length
      response := sample.response ++ output.text
      lossMask := sample.lossMask.map (· ++ List.replicate output.newTokens.length 1)
      rolloutLogProbs := some (sample.rolloutLogProbs.getD [] ++ output.newTokens.map Prod.fst)
      rolloutRoutedExperts := experts } output.metaInfo := by
  unfold addOutput at ok
  obtain ⟨_, _, ok⟩ := Py.bind_eq_ok.1 ok
  obtain ⟨added, routed, ok⟩ := Py.bind_eq_ok.1 ok
  have ok := Except.ok.inj ok
  unfold addRoutedExperts at routed
  split at routed
  · have routed := Except.ok.inj routed
    exact ⟨_, by rw [← ok, ← routed]⟩
  · obtain ⟨experts, _, routed⟩ := Py.bind_eq_ok.1 routed
    have routed := Except.ok.inj routed
    exact ⟨experts, by rw [← ok, ← routed]⟩

/-- `generate` of a text sample. -/
theorem generate_ok {output : Output} {sample after : Sample Obj} {samplingParams : Int} {asked : Option (Payload Obj)}
    (noInputs : sample.multimodalInputs = .null)
    (ok : generate args environment output sample samplingParams = .ok (asked, after)) :
    (asked = none ∧ after = { sample with status := .truncated }) ∨
      ∃ p, asked = some p ∧ p.maxNewTokens = maxNewTokens sample (environment.encode sample.prompt) samplingParams ∧
        0 < p.maxNewTokens ∧ p.input = engineInput sample (environment.encode sample.prompt) ∧
        addOutput args environment (startTokens sample (environment.encode sample.prompt)) output = .ok after := by
  have encoded : encodePrompt environment sample = (sample, environment.encode sample.prompt) := by
    unfold encodePrompt
    rw [noInputs]
    cases environment.processor <;> rfl
  unfold generate at ok
  obtain ⟨_, _, ok⟩ := Py.bind_eq_ok.1 ok
  obtain ⟨_, _, ok⟩ := Py.bind_eq_ok.1 ok
  rw [encoded] at ok
  obtain ⟨_, enough, ok⟩ := Py.bind_eq_ok.1 ok
  have enough : maxNewTokens sample (environment.encode sample.prompt) samplingParams ≥ 0 := by
    by_contra less
    rw [decide_eq_false less] at enough
    cases enough
  dsimp only at ok
  split at ok
  · obtain ⟨rfl, rfl⟩ := Prod.mk.inj (Except.ok.inj ok)
    exact Or.inl ⟨rfl, rfl⟩
  · rename_i some
    obtain ⟨added, replied, ok⟩ := Py.bind_eq_ok.1 ok
    obtain ⟨rfl, rfl⟩ := Prod.mk.inj (Except.ok.inj ok)
    exact Or.inr ⟨_, rfl, rfl, lt_of_le_of_ne enough (Ne.symm some), rfl, replied⟩

theorem startTokens_eq (sample : Sample Obj) (promptIds : List Int) :
    startTokens sample promptIds = { sample with tokens := (startTokens sample promptIds).tokens } := by
  unfold startTokens
  split <;> rfl

theorem startTokens_mask (sample : Sample Obj) (promptIds : List Int) (mask : Option (List Int)) :
    (startTokens { sample with lossMask := mask } promptIds).tokens = (startTokens sample promptIds).tokens := by
  unfold startTokens
  dsimp only
  split <;> rfl

/-- A sample whose generation a call goes on with, if it gets so far. -/
def GoesOn (call : Call) (sample : Sample Obj) : Prop := isFinished sample = false ∧ call.aborted = false

/-- **What a call does to a text sample.** -/
theorem generateAndRm_cases {call : Call} {sample after : Sample Obj} {samplingParams : Int} {asked : Option (Payload Obj)}
    (text : IsText args sample) (ok : generateAndRm args environment call sample samplingParams = .ok (asked, after)) :
    (asked = none ∧ Silent args sample after) ∨
      ∃ p, asked = some p ∧ GoesOn call sample ∧
        Asked args (environment.encode sample.prompt) samplingParams call.output sample p after := by
  have masked := maskOffpolicy_eq args sample
  have finished : isFinished (maskOffpolicy args sample) = isFinished sample := by rw [masked]; rfl
  unfold generateAndRm at ok
  dsimp only at ok
  rw [finished] at ok
  split at ok
  · obtain ⟨_, _, ok⟩ := Py.bind_eq_ok.1 ok
    obtain ⟨rfl, rfl⟩ := Prod.mk.inj (Except.ok.inj ok)
    refine Or.inl ⟨rfl, ?_⟩
    rw [masked]
    exact { prompt := rfl, multimodalInputs := rfl, generateFunctionPath := rfl, tokens := rfl, responseLength := rfl,
            response := rfl, rolloutLogProbs := rfl, lossMask := rfl }
  · rename_i goesOn
    split at ok
    · obtain ⟨rfl, rfl⟩ := Prod.mk.inj (Except.ok.inj ok)
      refine Or.inl ⟨rfl, ?_⟩
      rw [masked]
      exact { prompt := rfl, multimodalInputs := rfl, generateFunctionPath := rfl, tokens := rfl, responseLength := rfl,
              response := rfl, rolloutLogProbs := rfl, lossMask := rfl }
    · rename_i going
      have noFunction : ((maskOffpolicy args sample).generateFunctionPath.filter (· ≠ "") <|>
          args.customGenerateFunctionPath) = none := by
        rw [masked, text.noFunction, text.noCustom]
        rfl
      rw [noFunction] at ok
      obtain ⟨⟨asked', generated⟩, ran, ok⟩ := Py.bind_eq_ok.1 ok
      obtain ⟨rfl, rfl⟩ := Prod.mk.inj (Except.ok.inj ok)
      have noInputs : (maskOffpolicy args sample).multimodalInputs = .null := by rw [masked]; exact text.noInputs
      rw [addReward_eq]
      obtain ⟨rfl, rfl⟩ | ⟨p, rfl, budget, positive, input, replied⟩ := generate_ok noInputs ran
      · refine Or.inl ⟨rfl, ?_⟩
        rw [masked]
        exact { prompt := rfl, multimodalInputs := rfl, generateFunctionPath := rfl, tokens := rfl, responseLength := rfl,
                response := rfl, rolloutLogProbs := rfl, lossMask := rfl }
      · obtain ⟨experts, rfl⟩ := addOutput_ok replied
        refine Or.inr ⟨p, rfl, ⟨Bool.eq_false_iff.2 goesOn, Bool.eq_false_iff.2 going⟩, ?_⟩
        have started : (startTokens (maskOffpolicy args sample) (environment.encode sample.prompt)).tokens =
            (startTokens sample (environment.encode sample.prompt)).tokens := by
          rw [masked, startTokens_mask]
        rw [startTokens_eq]
        rw [masked] at budget input started ⊢
        rw [started]
        exact { prompt := rfl, multimodalInputs := rfl, generateFunctionPath := rfl, budget, positive, input, tokens := rfl,
                responseLength := rfl, response := rfl, rolloutLogProbs := rfl, lossMask := rfl }

end Call

/-! ## The calls on one sample -/

/-- A call, with the sample before and after it and what the engine was asked. -/
structure Moment (Obj : Type) where
  call : Call
  before : Sample Obj
  asked : Option (Payload Obj)
  after : Sample Obj

/-- The calls on a sample, each with `sampling_params` of its own. -/
def generateCalls (args : Args) (environment : Environment Obj) : List Call → Sample Obj → Py (List (Moment Obj))
  | [], _ => return []
  | call :: calls, sample => do
    let generated ← generateAndRm args environment call sample args.rolloutMaxResponseLen
    let moments ← generateCalls args environment calls generated.2
    return ⟨call, sample, generated.1, generated.2⟩ :: moments

/-- The new tokens of a call, none if the engine was not asked. -/
def Moment.newTokens (m : Moment Obj) : List (ℚ × Int) := if m.asked.isSome then m.call.output.newTokens else []

def returned (moments : List (Moment Obj)) : List (ℚ × Int) := moments.flatMap Moment.newTokens

/-- Whether the engine has been asked. -/
def started (moments : List (Moment Obj)) : Bool := moments.any fun m => m.asked.isSome

/-- The replies are no longer than they were asked to be. -/
def Respects (moments : List (Moment Obj)) : Prop :=
  ∀ m ∈ moments, ∀ p, m.asked = some p → (m.call.output.newTokens.length : Int) ≤ p.maxNewTokens

/-- A sample of text, as the data source has it. -/
structure Fresh (args : Args) (sample : Sample Obj) : Prop extends IsText args sample where
  noTokens : sample.tokens = []
  noResponse : sample.response = ""
  noLength : sample.responseLength = 0
  noLossMask : sample.lossMask = none
  noLogProbs : sample.rolloutLogProbs = none

/-- The books of a sample after calls that returned `new`. -/
structure Kept (promptIds : List Int) (asked : Bool) (new : List (ℚ × Int)) (sample : Sample Obj) : Prop where
  tokens : sample.tokens = if asked then promptIds ++ new.map Prod.snd else []
  responseLength : sample.responseLength = new.length
  rolloutLogProbs : sample.rolloutLogProbs = if asked then some (new.map Prod.fst) else none
  lossMask : ∀ mask, sample.lossMask = some mask → mask.length = new.length

/-- If the call gets to ask the engine, a response without text has no tokens. -/
def HasText (m : Moment Obj) : Prop := GoesOn m.call m.before → m.before.response = "" → m.before.responseLength = 0

section Run

variable {args : Args} {environment : Environment Obj}

/-- What holds of the sample after the calls `done` on `sample`. -/
structure Books (args : Args) (promptIds : List Int) (prompt : Value Obj) (done : List (Moment Obj)) (sample : Sample Obj) : Prop
    extends IsText args sample, Kept promptIds (started done) (returned done) sample where
  prompt : sample.prompt = prompt
  idle : started done = false → sample.response = ""
  within : Respects done → (returned done).length ≤ args.rolloutMaxResponseLen

theorem returned_snoc (done : List (Moment Obj)) (m : Moment Obj) : returned (done ++ [m]) = returned done ++ m.newTokens := by
  simp [returned]

theorem started_snoc (done : List (Moment Obj)) (m : Moment Obj) : started (done ++ [m]) = (started done || m.asked.isSome) := by
  simp [started]

theorem returned_idle {done : List (Moment Obj)} (idle : started done = false) : returned done = [] := by
  refine List.flatMap_eq_nil_iff.2 fun m mem => ?_
  have silent := List.any_eq_false.1 idle m mem
  unfold Moment.newTokens
  rw [if_neg silent]

theorem maskOffpolicy_length {promptIds : List Int} {asked : Bool} {new : List (ℚ × Int)} {sample : Sample Obj}
    (kept : Kept promptIds asked new sample) (mask : List Int) (some : (maskOffpolicy args sample).lossMask = some mask) :
    mask.length = new.length := by
  unfold maskOffpolicy at some
  split at some
  · obtain rfl := Option.some.inj some
    rw [List.length_replicate, kept.responseLength]
  · exact kept.lossMask mask some

theorem startTokens_tokens (sample : Sample Obj) (promptIds : List Int) : (startTokens sample promptIds).tokens =
    if sample.response = "" ∧ sample.tokens = [] then promptIds else sample.tokens := by
  unfold startTokens
  split <;> rfl

/-- What the engine is asked, where a response without text has no tokens. -/
theorem Books.asked {promptIds : List Int} {prompt : Value Obj} {done : List (Moment Obj)} {sample : Sample Obj}
    (books : Books args promptIds prompt done sample) (text : sample.response = "" → sample.responseLength = 0) :
    (startTokens sample promptIds).tokens = promptIds ++ (returned done).map Prod.snd ∧
      engineInput sample promptIds = .inputIds (if started done then sample.tokens else promptIds) ∧
      maxNewTokens sample promptIds args.rolloutMaxResponseLen = args.rolloutMaxResponseLen - (returned done).length := by
  have tokens := books.tokens
  have noImages : hasImages sample.multimodalInputs = false := by rw [books.noInputs]; rfl
  rw [startTokens_tokens]
  unfold engineInput maxNewTokens
  rw [noImages]
  by_cases empty : sample.response = ""
  · have none : returned done = [] := List.length_eq_zero_iff.1 (by rw [← books.responseLength, text empty])
    rw [none, List.map_nil, List.append_nil] at tokens ⊢
    rw [if_neg (not_not.2 empty), if_neg (not_not.2 empty), if_neg Bool.false_ne_true, tokens]
    refine ⟨?_, ?_, by simp⟩
    · cases started done with
      | true => simp
      | false => simp [empty]
    · cases started done <;> rfl
  · have active : started done = true := by
      by_contra idle
      exact empty (books.idle (Bool.eq_false_iff.2 idle))
    rw [active, if_pos rfl] at tokens
    rw [if_pos empty, if_pos empty, if_neg fun h => empty h.1, active, if_pos rfl, tokens]
    refine ⟨rfl, rfl, ?_⟩
    simp

/-- The assertion on `max_new_tokens` holds if the replies were no longer than asked. -/
theorem Books.maxNewTokens_nonneg {promptIds : List Int} {prompt : Value Obj} {done : List (Moment Obj)} {sample : Sample Obj}
    (books : Books args promptIds prompt done sample) (text : sample.response = "" → sample.responseLength = 0)
    (respects : Respects done) : 0 ≤ maxNewTokens sample promptIds args.rolloutMaxResponseLen := by
  have within := books.within respects
  rw [(books.asked text).2.2]
  omega

/-- **One call keeps the books.** -/
theorem Books.call {done : List (Moment Obj)} {sample after : Sample Obj} {call : Call}
    {asked : Option (Payload Obj)} {prompt : Value Obj} (books : Books args (environment.encode prompt) prompt done sample)
    (ok : generateAndRm args environment call sample args.rolloutMaxResponseLen = .ok (asked, after))
    (text : HasText ⟨call, sample, asked, after⟩) :
    (∀ p, asked = some p → p.input = .inputIds (if started done then sample.tokens else environment.encode prompt)) ∧
      Books args (environment.encode prompt) prompt (done ++ [⟨call, sample, asked, after⟩]) after := by
  obtain ⟨rfl, silent⟩ | ⟨p, rfl, goesOn, reply⟩ := generateAndRm_cases books.toIsText ok
  · refine ⟨fun p same => (nomatch same), ?_⟩
    have same : returned (done ++ [⟨call, sample, none, after⟩]) = returned done := by
      rw [returned_snoc]
      exact List.append_nil _
    have asked : started (done ++ [⟨call, sample, none, after⟩]) = started done := by
      rw [started_snoc]
      exact Bool.or_false _
    exact {
      noInputs := silent.multimodalInputs.trans books.noInputs
      noFunction := silent.generateFunctionPath.trans books.noFunction
      noCustom := books.noCustom
      tokens := by rw [same, asked, silent.tokens, books.tokens]
      responseLength := by rw [same, silent.responseLength, books.responseLength]
      rolloutLogProbs := by rw [same, asked, silent.rolloutLogProbs, books.rolloutLogProbs]
      lossMask := fun mask some => by
        rw [same]
        rw [silent.lossMask] at some
        exact maskOffpolicy_length books.toKept mask some
      prompt := silent.prompt.trans books.prompt
      idle := fun idle => by rw [silent.response, books.idle (by rwa [asked] at idle)]
      within := fun respects => by
        rw [same]
        exact books.within fun m mem => respects m (List.mem_append_left _ mem) }
  · have text := text goesOn
    rw [books.prompt] at reply
    obtain ⟨start, input, budget⟩ := books.asked text
    refine ⟨fun q same => ?_, ?_⟩
    · obtain rfl := Option.some.inj same
      rw [reply.input, input]
    · have new : returned (done ++ [⟨call, sample, some p, after⟩]) = returned done ++ call.output.newTokens := returned_snoc _ _
      have asked : started (done ++ [⟨call, sample, some p, after⟩]) = true := by
        rw [started_snoc]
        exact Bool.or_true _
      have logProbs : sample.rolloutLogProbs.getD [] = (returned done).map Prod.fst := by
        rw [books.rolloutLogProbs]
        cases idle : started done with
        | true => rfl
        | false => rw [returned_idle idle]; rfl
      exact {
        noInputs := reply.multimodalInputs.trans books.noInputs
        noFunction := reply.generateFunctionPath.trans books.noFunction
        noCustom := books.noCustom
        tokens := by rw [asked, if_pos rfl, new, reply.tokens, start, List.map_append, List.append_assoc]
        responseLength := by rw [new, reply.responseLength, books.responseLength, List.length_append]
        rolloutLogProbs := by rw [asked, if_pos rfl, new, reply.rolloutLogProbs, logProbs, List.map_append]
        lossMask := fun mask some => by
          rw [reply.lossMask] at some
          obtain ⟨front, had, rfl⟩ := Option.map_eq_some_iff.1 some
          rw [new, List.length_append, List.length_append, List.length_replicate, maskOffpolicy_length books.toKept front had]
        prompt := reply.prompt.trans books.prompt
        idle := fun idle => absurd (idle.symm.trans asked) Bool.false_ne_true
        within := fun respects => by
          have short := respects _ (List.mem_append_right _ (List.mem_singleton_self _)) p rfl
          rw [reply.budget, budget] at short
          dsimp only at short
          rw [new, List.length_append]
          omega }

/-- **The books are kept at every moment of a run.** -/
theorem Books.calls {done moments : List (Moment Obj)} {calls : List Call} {sample : Sample Obj} {prompt : Value Obj}
    (books : Books args (environment.encode prompt) prompt done sample)
    (run : generateCalls args environment calls sample = .ok moments) (text : ∀ m ∈ moments, HasText m) :
    ∀ front m rest, moments = front ++ m :: rest →
      (∀ p, m.asked = some p → p.input = .inputIds (if started (done ++ front) then m.before.tokens else environment.encode prompt)) ∧
      Books args (environment.encode prompt) prompt (done ++ front ++ [m]) m.after := by
  induction calls generalizing done moments sample with
  | nil =>
    obtain rfl := Except.ok.inj run
    intro front m rest split
    cases front <;> cases split
  | cons call calls ih =>
    obtain ⟨⟨asked, after⟩, ok, run⟩ := Py.bind_eq_ok.1 run
    obtain ⟨moments', later, run⟩ := Py.bind_eq_ok.1 run
    obtain rfl := Except.ok.inj run
    obtain ⟨input, next⟩ := books.call ok (text _ (List.mem_cons_self ..))
    intro front m rest split
    cases front with
    | nil =>
      obtain ⟨rfl, -⟩ := List.cons.inj split
      rw [List.append_nil]
      exact ⟨input, next⟩
    | cons first front =>
      obtain ⟨rfl, below⟩ := List.cons.inj split
      have here := ih next later (fun m mem => text m (List.mem_cons_of_mem _ mem)) front m rest below
      rwa [List.append_assoc done, List.singleton_append] at here

theorem Fresh.books {sample : Sample Obj} (fresh : Fresh args sample) (promptIds : List Int) :
    Books args promptIds sample.prompt [] sample where
  toIsText := fresh.toIsText
  tokens := fresh.noTokens
  responseLength := fresh.noLength
  rolloutLogProbs := fresh.noLogProbs
  lossMask := fun mask some => by rw [fresh.noLossMask] at some; cases some
  prompt := rfl
  idle := fun _ => fresh.noResponse
  within := fun _ => Nat.zero_le _

end Run

/-- A reply of tokens of one log-prob. -/
def reply (tokens : List Int) (text finishReason : String) : Call :=
  ⟨false, text, some (tokens.map fun token => (-1, token)), none, ∅, none, finishReason⟩

end SlimeBoard.Generate
