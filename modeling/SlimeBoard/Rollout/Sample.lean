import SlimeBoard.Lib.PyDict

/-!
# Samples

`Sample` of `types.py`, and the dictionaries that it is dumped to and loaded from.
-/

namespace SlimeBoard.SlimeTypes

/-- A Python value. `Obj` is the type of the arrays and other objects that are only passed on. -/
inductive Value (Obj : Type) where
  | null
  | int (i : Int)
  | float (q : ℚ)
  | str (s : String)
  | list (values : List (Value Obj))
  | dict (entries : List (String × Value Obj))
  | obj (o : Obj)

namespace Value

variable {Obj : Type}

def ints (l : List Int) : Value Obj := .list (l.map .int)

def floats (l : List ℚ) : Value Obj := .list (l.map .float)

def ofOption {α : Type} (f : α → Value Obj) : Option α → Value Obj
  | none => .null
  | some a => f a

def isNull : Value Obj → Bool
  | .null => true
  | _ => false

/-- `len(value)` -/
def len : Value Obj → Py Nat
  | .list values => .ok values.length
  | .dict entries => .ok entries.length
  | .str s => .ok s.length
  | _ => .error .typeError

/-- `value[key]` -/
def item (key : String) : Value Obj → Py (Value Obj)
  | .dict entries =>
    match entries.lookup key with
    | some value => .ok value
    | none => .error .keyError
  | _ => .error .typeError

end Value

inductive Status where
  | pending
  | completed
  | truncated
  | aborted
  | failed
  deriving DecidableEq, Repr

/-- `status.value` -/
def Status.value : Status → String
  | .pending => "pending"
  | .completed => "completed"
  | .truncated => "truncated"
  | .aborted => "aborted"
  | .failed => "failed"

/-- `Sample.Status(value)` -/
def Status.ofValue (value : String) : Py Status :=
  if value = "pending" then .ok .pending
  else if value = "completed" then .ok .completed
  else if value = "truncated" then .ok .truncated
  else if value = "aborted" then .ok .aborted
  else if value = "failed" then .ok .failed
  else .error .valueError

theorem Status.ofValue_value (s : Status) : Status.ofValue s.value = .ok s := by
  cases s <;> rfl

structure SpecInfo where
  specAcceptTokenNum : Int
  specDraftTokenNum : Int
  specVerifyCt : Int
  completionTokenNum : Int

namespace SpecInfo

def toDict (info : SpecInfo) : Dict String Int :=
  (((AList.singleton "spec_accept_token_num" info.specAcceptTokenNum).insert "spec_draft_token_num" info.specDraftTokenNum).insert
    "spec_verify_ct" info.specVerifyCt).insert "completion_token_num" info.completionTokenNum

def fromDict (data : Dict String Int) : SpecInfo where
  specAcceptTokenNum := (data.lookup "spec_accept_token_num").getD 0
  specDraftTokenNum := (data.lookup "spec_draft_token_num").getD 0
  specVerifyCt := (data.lookup "spec_verify_ct").getD 0
  completionTokenNum := (data.lookup "completion_token_num").getD 0

theorem fromDict_toDict (info : SpecInfo) : fromDict info.toDict = info := rfl

end SpecInfo

structure PrefixCacheInfo where
  cachedTokens : Int
  totalPromptTokens : Int

namespace PrefixCacheInfo

def toDict (info : PrefixCacheInfo) : Dict String Int :=
  (AList.singleton "cached_tokens" info.cachedTokens).insert "total_prompt_tokens" info.totalPromptTokens

def fromDict (data : Dict String Int) : PrefixCacheInfo where
  cachedTokens := (data.lookup "cached_tokens").getD 0
  totalPromptTokens := (data.lookup "total_prompt_tokens").getD 0

theorem fromDict_toDict (info : PrefixCacheInfo) : fromDict info.toDict = info := rfl

end PrefixCacheInfo

/-- The fields that a dictionary of a sample has as they are. -/
structure SampleFields (Obj : Type) where
  groupIndex : Option Int
  index : Option Int
  prompt : Value Obj
  tokens : List Int
  multimodalInputs : Value Obj
  multimodalTrainInputs : Value Obj
  response : String
  responseLength : Nat
  label : Option String
  reward : Value Obj
  lossMask : Option (List Int)
  weightVersions : List String
  rolloutLogProbs : Option (List ℚ)
  rolloutRoutedExperts : Value Obj
  removeSample : Bool
  teacherLogProbs : Option (List ℚ)
  logitsMasks : Option (List (List Int))
  metadata : Dict String (Value Obj)
  generateFunctionPath : Option String
  trainMetadata : Value Obj
  sessionId : Option String
  nonGenerationTime : ℚ
  /-- attributes that are not fields -/
  others : Dict String (Value Obj)

structure Sample (Obj : Type) extends SampleFields Obj where
  status : Status
  specInfo : SpecInfo
  prefixCacheInfo : PrefixCacheInfo

/-- What `to_dict` makes of a sample. -/
structure SampleDict (Obj : Type) extends SampleFields Obj where
  status : String
  specInfo : Option (Dict String Int)
  prefixCacheInfo : Option (Dict String Int)

namespace Sample

variable {Obj : Type}

def toDict (s : Sample Obj) : SampleDict Obj where
  toSampleFields := s.toSampleFields
  status := s.status.value
  specInfo := some s.specInfo.toDict
  prefixCacheInfo := some s.prefixCacheInfo.toDict

def fromDict (data : SampleDict Obj) : Py (Sample Obj) := do
  let status ← Status.ofValue data.status
  return {
    toSampleFields := data.toSampleFields
    status
    specInfo := .fromDict (data.specInfo.getD ∅)
    prefixCacheInfo := .fromDict (data.prefixCacheInfo.getD ∅) }

/-- **A sample is loaded as it was dumped.** -/
theorem fromDict_toDict (s : Sample Obj) : fromDict s.toDict = .ok s := by
  unfold fromDict toDict
  rw [Status.ofValue_value, Py.ok_bind]
  simp only [Option.getD_some, SpecInfo.fromDict_toDict, PrefixCacheInfo.fromDict_toDict]
  rfl

theorem mapM_fromDict_toDict (samples : List (Sample Obj)) : (samples.map toDict).mapM fromDict = .ok samples := by
  induction samples with
  | nil => rfl
  | cons s rest ih =>
    rw [List.map_cons, List.mapM_cons, fromDict_toDict, Py.ok_bind, ih, Py.ok_bind]
    rfl

/-- `get_reward_value`, for `args.reward_key`, where the empty string is no key -/
def getRewardValue (rewardKey : Option String) (s : Sample Obj) : Py (Value Obj) :=
  match rewardKey with
  | none => .ok s.reward
  | some key => if key = "" then .ok s.reward else s.reward.item key

end Sample

/-- A prompt of one token and a response of one. -/
def shortAnswer (index : Nat) : Sample Unit where
  groupIndex := some (index / 2)
  index := some index
  prompt := .str "a"
  tokens := [1, 2]
  multimodalInputs := .null
  multimodalTrainInputs := .null
  response := "b"
  responseLength := 1
  label := none
  reward := .int 1
  lossMask := none
  weightVersions := []
  rolloutLogProbs := none
  rolloutRoutedExperts := .null
  removeSample := false
  teacherLogProbs := none
  logitsMasks := none
  metadata := ∅
  generateFunctionPath := none
  trainMetadata := .null
  sessionId := none
  nonGenerationTime := 0
  others := ∅
  status := .completed
  specInfo := ⟨0, 0, 0, 0⟩
  prefixCacheInfo := ⟨0, 0⟩

end SlimeBoard.SlimeTypes
