import SlimeBoard.Lib.Groups
import SlimeBoard.Lib.PyDict

/-!
# The rollout buffer

Written items go under their instance twice: into the pending data, which a read takes whole
groups out of, and into the copies that the statistics are made of, which only a successful
`get_rollout_data` empties.
-/

namespace SlimeBoard.RolloutBuffer

structure Item (ι π : Type) where
  instanceId : ι
  /-- absent if the item has no reward -/
  reward : Option ℚ
  payload : π

structure MetaInfo where
  totalSamples : Nat
  numGroups : Nat
  avgGroupSize : ℚ
  avgReward : ℚ

/-- What a read returns; no `meta_info` if there was nothing to read. -/
structure Output (ι π : Type) where
  data : List (Item ι π)
  metaInfo : Option MetaInfo

variable {ι π : Type} [DecidableEq ι]

/-- `s["reward"]` -/
def rewardOf (item : Item ι π) : Py ℚ :=
  match item.reward with
  | some reward => .ok reward
  | none => .error .keyError

/-- `BufferQueue` -/
structure BufferQueue (ι π : Type) where
  data : Groups (@Item.instanceId ι π)
  tempData : Groups (@Item.instanceId ι π)

namespace BufferQueue

def append (item : Item ι π) (queue : BufferQueue ι π) : BufferQueue ι π where
  data := queue.data.push item
  tempData := queue.tempData.push item

end BufferQueue

def defaultIsValidGroup (groupData : ι × List (Item ι π)) (minValidGroupSize : Nat) : Bool :=
  decide (minValidGroupSize ≤ groupData.2.length)

/-- The loop of the statistics: the number of samples and the rewards of a group. -/
def addGroup (totals : Nat × List ℚ) (entry : ι × List (Item ι π)) : Py (Nat × List ℚ) := do
  let groupRewards ← entry.2.mapM rewardOf
  return (totals.1 + entry.2.length, totals.2 ++ groupRewards)

def defaultGetGroupDataMetaInfo (tempData : Groups (@Item.instanceId ι π)) : Py MetaInfo :=
  if tempData.entries.isEmpty then .ok ⟨0, 0, 0, 0⟩
  else do
    let (totalSamples, allRewards) ← tempData.entries.foldlM addGroup (0, [])
    let numGroups := tempData.entries.length
    return {
      totalSamples := totalSamples
      numGroups := numGroups
      avgGroupSize := totalSamples / numGroups
      avgReward := if allRewards.isEmpty then 0 else allRewards.sum / allRewards.length }

namespace BufferQueue

variable (groupSize : Nat)

/-- `_get_valid_groups_with_timeout`: no group times out or finishes in it. -/
def validGroups (queue : BufferQueue ι π) : List (ι × List (Item ι π)) :=
  queue.data.entries.filter fun groupData => defaultIsValidGroup groupData groupSize

/-- `__len__` -/
def len (queue : BufferQueue ι π) : Nat := ((queue.validGroups groupSize).map fun group => group.2.length).sum

def get (queue : BufferQueue ι π) : Py (Output ι π × BufferQueue ι π) := do
  let metaInfo ← defaultGetGroupDataMetaInfo queue.tempData
  let valid := queue.validGroups groupSize
  let (data, left) := valid.foldl (fun (st : List (Item ι π) × Groups Item.instanceId) group => (st.1 ++ group.2, st.2.pop group.1))
    ([], queue.data)
  return (⟨data, some metaInfo⟩, { queue with data := left })

end BufferQueue

structure Buffer (ι π : Type) where
  queue : BufferQueue ι π
  totalWritten : Nat
  totalRead : Nat

namespace Buffer

def start : Buffer ι π := ⟨⟨.empty, .empty⟩, 0, 0⟩

def write (item : Item ι π) (buffer : Buffer ι π) : Buffer ι π :=
  { buffer with queue := buffer.queue.append item, totalWritten := buffer.totalWritten + 1 }

variable (groupSize : Nat)

def read (buffer : Buffer ι π) : Py (Output ι π × Buffer ι π) :=
  if buffer.queue.len groupSize = 0 then .ok (⟨[], none⟩, buffer)
  else do
    let (result, queue) ← buffer.queue.get groupSize
    return (result, { buffer with queue := queue, totalRead := buffer.totalRead + result.data.length })

/-- `get_rollout_data`: whether it succeeded, and the data of the response. -/
def getRolloutData (buffer : Buffer ι π) : Py ((Bool × Output ι π) × Buffer ι π) := do
  let (items, buffer) ← buffer.read groupSize
  if items.data.isEmpty then return ((false, items), buffer)
  else return ((true, items), { buffer with queue := { buffer.queue with tempData := .empty } })

end Buffer

/-- A call of the buffer. -/
inductive Call (ι π : Type) where
  | write (item : Item ι π)
  | read
  | getRolloutData

/-- What a call answers. A call that raises leaves the buffer as it was. -/
inductive Answer (ι π : Type) where
  | written (item : Item ι π)
  | output (output : Output ι π)
  | response (success : Bool) (output : Output ι π)
  | raised (error : PyError)

def step (groupSize : Nat) (buffer : Buffer ι π) : Call ι π → Answer ι π × Buffer ι π
  | .write item => (.written item, buffer.write item)
  | .read =>
    match buffer.read groupSize with
    | .ok (output, buffer') => (.output output, buffer')
    | .error e => (.raised e, buffer)
  | .getRolloutData =>
    match buffer.getRolloutData groupSize with
    | .ok ((success, output), buffer') => (.response success output, buffer')
    | .error e => (.raised e, buffer)

/-- The calls one after the other, with their answers. -/
def run (groupSize : Nat) (buffer : Buffer ι π) : List (Call ι π) → List (Answer ι π) × Buffer ι π
  | [] => ([], buffer)
  | call :: calls =>
    let (answer, buffer) := step groupSize buffer call
    let (answers, buffer) := run groupSize buffer calls
    (answer :: answers, buffer)

/-! ## One read -/

section Read

variable {groupSize : Nat}

/-- The items of the groups that are large enough. -/
def wholeGroups (groupSize : Nat) (queue : BufferQueue ι π) : List (Item ι π) :=
  (queue.data.entries.filter fun group => decide (groupSize ≤ group.2.length)).flatMap Prod.snd

/-- What stays pending after a read. -/
def pendingAfter (groupSize : Nat) (queue : BufferQueue ι π) : Groups (@Item.instanceId ι π) :=
  queue.data.filter fun group => !decide (groupSize ≤ group.2.length)

theorem foldl_get (valid : List (ι × List (Item ι π))) (data : List (Item ι π)) (left : Groups (@Item.instanceId ι π)) :
    valid.foldl (fun (st : List (Item ι π) × Groups Item.instanceId) group => (st.1 ++ group.2, st.2.pop group.1)) (data, left) =
      (data ++ valid.flatMap Prod.snd, valid.foldl (fun left group => left.pop group.1) left) := by
  induction valid generalizing data left with
  | nil => rw [List.flatMap_nil, List.append_nil]; rfl
  | cons group valid ih => rw [List.foldl_cons, ih, List.flatMap_cons, List.append_assoc]; rfl

theorem get_eq (queue : BufferQueue ι π) :
    queue.get groupSize = do
      let metaInfo ← defaultGetGroupDataMetaInfo queue.tempData
      return (⟨wholeGroups groupSize queue, some metaInfo⟩, { queue with data := pendingAfter groupSize queue }) := by
  rw [BufferQueue.get]
  dsimp only
  rw [foldl_get, List.nil_append, BufferQueue.validGroups, Groups.foldl_pop]
  rfl

omit [DecidableEq ι] in
/-- An empty read finds no group that is large enough. -/
theorem len_eq_zero (pos : 0 < groupSize) {queue : BufferQueue ι π} (zero : queue.len groupSize = 0) :
    queue.data.entries.filter (fun group => decide (groupSize ≤ group.2.length)) = [] := by
  by_contra some
  obtain ⟨group, mem⟩ := List.exists_mem_of_ne_nil _ some
  have short : group.2.length ≤ 0 := zero ▸ List.le_sum_of_mem (List.mem_map_of_mem (f := fun group => group.2.length) mem)
  have long := of_decide_eq_true (List.mem_filter.1 mem).2
  omega

/-- **A read** takes the groups that are large enough, whole, and leaves the others. -/
theorem read_spec (pos : 0 < groupSize) {buffer buffer' : Buffer ι π} {output : Output ι π}
    (ok : buffer.read groupSize = .ok (output, buffer')) :
    output.data = wholeGroups groupSize buffer.queue ∧ buffer'.queue.data = pendingAfter groupSize buffer.queue ∧
      buffer'.queue.tempData = buffer.queue.tempData ∧
      (output.data ≠ [] → ∃ metaInfo, output.metaInfo = some metaInfo ∧
        defaultGetGroupDataMetaInfo buffer.queue.tempData = .ok metaInfo) := by
  rw [Buffer.read] at ok
  split at ok
  · rename_i zero
    obtain ⟨rfl, rfl⟩ := Prod.mk.inj (Except.ok.inj ok)
    have none := len_eq_zero pos zero
    refine ⟨?_, ?_, rfl, fun some => absurd rfl some⟩
    · rw [wholeGroups, none]
      rfl
    · apply Groups.ext
      refine (List.filter_eq_self.2 fun group mem => ?_).symm
      have out := List.filter_eq_nil_iff.1 none group mem
      rw [Bool.not_eq_true] at out
      rw [out]
      rfl
  · rw [get_eq] at ok
    obtain ⟨⟨result, queue⟩, got, ok⟩ := Py.bind_eq_ok.1 ok
    obtain ⟨metaInfo, computed, same⟩ := Py.bind_eq_ok.1 got
    obtain ⟨rfl, rfl⟩ := Prod.mk.inj (Except.ok.inj same)
    obtain ⟨rfl, rfl⟩ := Prod.mk.inj (Except.ok.inj ok)
    exact ⟨rfl, rfl, rfl, fun _ => ⟨metaInfo, rfl, computed⟩⟩

end Read

/-! ## Runs -/

/-- The item that a call writes. -/
def Call.items : Call ι π → List (Item ι π)
  | .write item => [item]
  | _ => []

/-- The items that an answer returns from the queue. -/
def Answer.items : Answer ι π → List (Item ι π)
  | .output result => result.data
  | .response _ result => result.data
  | _ => []

/-- The items written since the last successful response. -/
def writtenSince (count : Nat) : Answer ι π → Nat
  | .written _ => count + 1
  | .response true _ => 0
  | _ => count

section Runs

variable {groupSize : Nat}

/-- A read moves the items of an instance from the queue to its answer. -/
theorem members_pending (k : ι) (queue : BufferQueue ι π) :
    queue.data.members k =
      (wholeGroups groupSize queue).filter (fun item => decide (item.instanceId = k)) ++ (pendingAfter groupSize queue).members k := by
  have taken := Groups.filter_items k (queue.data.filter fun group => decide (groupSize ≤ group.2.length))
  rw [Groups.members_filter] at taken
  rw [wholeGroups, pendingAfter, Groups.members_filter]
  refine Eq.trans ?_ (congrArg (· ++ _) taken.symm)
  by_cases large : groupSize ≤ (queue.data.members k).length
  · simp only [decide_eq_true large, if_true, Bool.not_true, Bool.false_eq_true, if_false, List.append_nil]
  · simp only [decide_eq_false large, Bool.false_eq_true, if_false, Bool.not_false, if_true, List.nil_append]

theorem getRolloutData_ok {buffer buffer' : Buffer ι π} {success : Bool} {output : Output ι π}
    (ok : buffer.getRolloutData groupSize = .ok ((success, output), buffer')) :
    ∃ read, buffer.read groupSize = .ok (output, read) ∧ buffer'.queue.data = read.queue.data ∧ success = !output.data.isEmpty ∧
      buffer'.queue.tempData = if success then .empty else read.queue.tempData := by
  obtain ⟨⟨items, read⟩, run, ok⟩ := Py.bind_eq_ok.1 ok
  dsimp only at ok
  split at ok
  · rename_i none
    obtain ⟨same, rfl⟩ := Prod.mk.inj (Except.ok.inj ok)
    obtain ⟨rfl, rfl⟩ := Prod.mk.inj same
    exact ⟨read, run, rfl, by rw [none]; rfl, rfl⟩
  · rename_i some
    obtain ⟨same, rfl⟩ := Prod.mk.inj (Except.ok.inj ok)
    obtain ⟨rfl, rfl⟩ := Prod.mk.inj same
    exact ⟨read, run, rfl, by rw [Bool.not_eq_true] at some; rw [some]; rfl, rfl⟩

/-- **A step keeps the items of an instance**, in their order. -/
theorem step_conserves (pos : 0 < groupSize) (buffer : Buffer ι π) (call : Call ι π) (k : ι) :
    buffer.queue.data.members k ++ call.items.filter (fun item => decide (item.instanceId = k)) =
      (step groupSize buffer call).1.items.filter (fun item => decide (item.instanceId = k)) ++
        (step groupSize buffer call).2.queue.data.members k := by
  cases call with
  | write item =>
    change _ = [] ++ (buffer.queue.data.push item).members k
    rw [Groups.members_push, Call.items, List.filter_singleton, List.nil_append]
    by_cases own : item.instanceId = k
    · rw [if_pos own, decide_eq_true own, cond_true]
    · rw [if_neg own, decide_eq_false own, cond_false, List.append_nil]
  | read =>
    change buffer.queue.data.members k ++ [].filter _ = _
    rw [List.filter_nil, List.append_nil, step]
    cases ok : buffer.read groupSize with
    | error e => rfl
    | ok result =>
      obtain ⟨data, left, -⟩ := read_spec pos ok
      change _ = result.1.data.filter _ ++ result.2.queue.data.members k
      rw [data, left]
      exact members_pending k buffer.queue
  | getRolloutData =>
    change buffer.queue.data.members k ++ [].filter _ = _
    rw [List.filter_nil, List.append_nil, step]
    cases ok : buffer.getRolloutData groupSize with
    | error e => rfl
    | ok result =>
      obtain ⟨read, ok, same, -⟩ := getRolloutData_ok ok
      obtain ⟨data, left, -⟩ := read_spec pos ok
      change _ = result.1.2.data.filter _ ++ result.2.queue.data.members k
      rw [data, same, left]
      exact members_pending k buffer.queue

theorem run_conserves (pos : 0 < groupSize) (calls : List (Call ι π)) (buffer : Buffer ι π) (k : ι) :
    buffer.queue.data.members k ++ (calls.flatMap Call.items).filter (fun item => decide (item.instanceId = k)) =
      ((run groupSize buffer calls).1.flatMap Answer.items).filter (fun item => decide (item.instanceId = k)) ++
        (run groupSize buffer calls).2.queue.data.members k := by
  induction calls generalizing buffer with
  | nil => exact List.append_nil _
  | cons call calls ih =>
    rw [List.flatMap_cons, List.filter_append, ← List.append_assoc, step_conserves pos, List.append_assoc, ih, run]
    rw [List.flatMap_cons, List.filter_append, List.append_assoc]

omit [DecidableEq ι] in
theorem foldlM_addGroup {entries : List (ι × List (Item ι π))} {totals totals' : Nat × List ℚ}
    (ok : entries.foldlM addGroup totals = .ok totals') :
    totals'.1 = totals.1 + (entries.map fun entry => entry.2.length).sum := by
  induction entries generalizing totals with
  | nil => rw [Except.ok.inj ok]; rfl
  | cons entry entries ih =>
    rw [List.foldlM_cons] at ok
    obtain ⟨next, one, rest⟩ := Py.bind_eq_ok.1 ok
    obtain ⟨groupRewards, -, same⟩ := Py.bind_eq_ok.1 one
    rw [ih rest, ← Except.ok.inj same, List.map_cons, List.sum_cons]
    exact Nat.add_assoc ..

omit [DecidableEq ι] in
theorem totalSamples_eq {tempData : Groups (@Item.instanceId ι π)} {metaInfo : MetaInfo}
    (ok : defaultGetGroupDataMetaInfo tempData = .ok metaInfo) : metaInfo.totalSamples = tempData.size := by
  rw [defaultGetGroupDataMetaInfo] at ok
  split at ok
  · rename_i none
    rw [← Except.ok.inj ok, Groups.size, List.isEmpty_iff.1 none]
    rfl
  · obtain ⟨totals, run, ok⟩ := Py.bind_eq_ok.1 ok
    rw [← Except.ok.inj ok]
    exact (foldlM_addGroup run).trans (Nat.zero_add _)

/-- The statistics count what was written since the last successful response. -/
theorem step_counts (pos : 0 < groupSize) (buffer : Buffer ι π) {call : Call ι π} (served : call ≠ .read) :
    (step groupSize buffer call).2.queue.tempData.size =
      writtenSince buffer.queue.tempData.size (step groupSize buffer call).1 := by
  cases call with
  | write item => exact Groups.size_push item buffer.queue.tempData
  | read => exact absurd rfl served
  | getRolloutData =>
    rw [step]
    cases ok : buffer.getRolloutData groupSize with
    | error e => rfl
    | ok result =>
      obtain ⟨⟨success, output⟩, buffer'⟩ := result
      obtain ⟨read, ok, -, -, temp⟩ := getRolloutData_ok ok
      obtain ⟨-, -, same, -⟩ := read_spec pos ok
      change buffer'.queue.tempData.size = writtenSince _ (.response success output)
      rw [temp]
      cases success with
      | true => rfl
      | false => exact congrArg Groups.size same

theorem run_counts (pos : 0 < groupSize) (calls : List (Call ι π)) (served : .read ∉ calls) (buffer : Buffer ι π) :
    (run groupSize buffer calls).2.queue.tempData.size =
      (run groupSize buffer calls).1.foldl writtenSince buffer.queue.tempData.size := by
  induction calls generalizing buffer with
  | nil => rfl
  | cons call calls ih =>
    rw [List.mem_cons, not_or] at served
    rw [run]
    dsimp only
    rw [ih served.2, List.foldl_cons, step_counts pos buffer (Ne.symm served.1)]

/-! ## Reads that succeed -/

/-- Items that all have a reward. -/
def Rewarded (items : List (Item ι π)) : Prop := ∀ item ∈ items, item.reward.isSome

omit [DecidableEq ι] in
theorem rewardOf_ok {item : Item ι π} (rewarded : item.reward.isSome) : rewardOf item = .ok (item.reward.getD 0) := by
  obtain ⟨reward, found⟩ := Option.isSome_iff_exists.1 rewarded
  rw [rewardOf, found]
  rfl

omit [DecidableEq ι] in
theorem addGroup_ok {entry : ι × List (Item ι π)} (rewarded : Rewarded entry.2) (totals : Nat × List ℚ) :
    ∃ totals', addGroup totals entry = .ok totals' := by
  rw [addGroup, mapM_ok entry.2 fun item mem => rewardOf_ok (rewarded item mem)]
  exact ⟨_, rfl⟩

omit [DecidableEq ι] in
/-- The statistics raise only on an item without a reward. -/
theorem defaultGetGroupDataMetaInfo_ok {tempData : Groups (@Item.instanceId ι π)}
    (rewarded : ∀ entry ∈ tempData.entries, Rewarded entry.2) :
    ∃ metaInfo, defaultGetGroupDataMetaInfo tempData = .ok metaInfo := by
  have loop : ∀ (entries : List (ι × List (Item ι π))) (totals : Nat × List ℚ), (∀ entry ∈ entries, Rewarded entry.2) →
      ∃ totals', entries.foldlM addGroup totals = .ok totals' := by
    intro entries
    induction entries with
    | nil => exact fun totals _ => ⟨totals, rfl⟩
    | cons entry entries ih =>
      intro totals rewarded
      obtain ⟨head, rest⟩ := List.forall_mem_cons.1 rewarded
      obtain ⟨next, one⟩ := addGroup_ok head totals
      rw [List.foldlM_cons, one]
      exact ih next rest
  rw [defaultGetGroupDataMetaInfo]
  split
  · exact ⟨_, rfl⟩
  · obtain ⟨totals, run⟩ := loop tempData.entries (0, []) rewarded
    rw [run]
    exact ⟨_, rfl⟩

/-- The copies that the statistics are made of all have a reward. -/
def Buffer.Counted (buffer : Buffer ι π) : Prop := ∀ entry ∈ buffer.queue.tempData.entries, Rewarded entry.2

theorem read_ok (groupSize : Nat) {buffer : Buffer ι π} (counted : buffer.Counted) :
    ∃ output buffer', buffer.read groupSize = .ok (output, buffer') := by
  rw [Buffer.read]
  split
  · exact ⟨_, _, rfl⟩
  · obtain ⟨metaInfo, computed⟩ := defaultGetGroupDataMetaInfo_ok counted
    rw [get_eq, computed]
    exact ⟨_, _, rfl⟩

theorem getRolloutData_total (groupSize : Nat) {buffer : Buffer ι π} (counted : buffer.Counted) :
    ∃ success output buffer', buffer.getRolloutData groupSize = .ok ((success, output), buffer') := by
  obtain ⟨output, read, ok⟩ := read_ok groupSize counted
  rw [Buffer.getRolloutData, ok, Py.ok_bind]
  dsimp only
  split
  · exact ⟨_, _, _, rfl⟩
  · exact ⟨_, _, _, rfl⟩

theorem step_counted (pos : 0 < groupSize) {buffer : Buffer ι π} (counted : buffer.Counted) {call : Call ι π}
    (rewarded : Rewarded call.items) : (step groupSize buffer call).2.Counted := by
  cases call with
  | write item => exact Groups.forall_pushEntry (rewarded item (List.mem_singleton_self item)) counted
  | read =>
    rw [step]
    cases ok : buffer.read groupSize with
    | error e => exact counted
    | ok result =>
      obtain ⟨-, -, same, -⟩ := read_spec pos ok
      change ∀ entry ∈ result.2.queue.tempData.entries, _
      rw [same]
      exact counted
  | getRolloutData =>
    rw [step]
    cases ok : buffer.getRolloutData groupSize with
    | error e => exact counted
    | ok result =>
      obtain ⟨read, ok, -, -, temp⟩ := getRolloutData_ok ok
      obtain ⟨-, -, same, -⟩ := read_spec pos ok
      change ∀ entry ∈ result.2.queue.tempData.entries, _
      rw [temp]
      split
      · exact fun entry mem => absurd mem List.not_mem_nil
      · rw [same]
        exact counted

theorem run_counted (pos : 0 < groupSize) (calls : List (Call ι π)) {buffer : Buffer ι π} (counted : buffer.Counted)
    (rewarded : Rewarded (calls.flatMap Call.items)) : (run groupSize buffer calls).2.Counted := by
  induction calls generalizing buffer with
  | nil => exact counted
  | cons call calls ih =>
    rw [List.flatMap_cons] at rewarded
    apply ih
    · apply step_counted pos counted
      exact fun item mem => rewarded item (List.mem_append_left _ mem)
    · exact fun item mem => rewarded item (List.mem_append_right _ mem)

end Runs

/-- What a read answers and leaves: the groups of at least `group_size` items, whole, and the others. -/
def TakesWhole (groupSize : Nat) (buffer : Buffer ι π) (output : Output ι π) (buffer' : Buffer ι π) : Prop :=
  output.data = (buffer.queue.data.entries.filter fun group => decide (groupSize ≤ group.2.length)).flatMap Prod.snd ∧
    buffer'.queue.data.entries = buffer.queue.data.entries.filter fun group => !decide (groupSize ≤ group.2.length)

/-- **The buffer conserves what is written**, instance by instance and in order. Whatever the calls before, a read and a
`get_rollout_data` answer with the groups of at least `group_size` items, and they do answer if every written item has a
reward; a response is a success if there is such a group, and reports then as many samples as were written since the
success before. -/
theorem buffer_conserves {groupSize : Nat} (pos : 0 < groupSize) (calls : List (Call ι π)) {answers : List (Answer ι π)}
    {buffer : Buffer ι π} (after : run groupSize .start calls = (answers, buffer)) :
    (∀ k, (calls.flatMap Call.items).filter (fun item => decide (item.instanceId = k)) =
        (answers.flatMap Answer.items).filter (fun item => decide (item.instanceId = k)) ++ buffer.queue.data.members k) ∧
      (∀ output buffer', buffer.read groupSize = .ok (output, buffer') → TakesWhole groupSize buffer output buffer') ∧
      (∀ success output buffer', buffer.getRolloutData groupSize = .ok ((success, output), buffer') →
        TakesWhole groupSize buffer output buffer' ∧ success = !output.data.isEmpty ∧
          (success = true → .read ∉ calls →
            ∃ metaInfo, output.metaInfo = some metaInfo ∧ metaInfo.totalSamples = answers.foldl writtenSince 0)) ∧
      ((∀ item ∈ calls.flatMap Call.items, item.reward.isSome) →
        (∃ output buffer', buffer.read groupSize = .ok (output, buffer')) ∧
          ∃ success output buffer', buffer.getRolloutData groupSize = .ok ((success, output), buffer')) := by
  have left : answers = (run groupSize .start calls).1 := by rw [after]
  have right : buffer = (run groupSize .start calls).2 := by rw [after]
  refine ⟨fun k => ?_, fun output buffer' ok => ?_, fun success output buffer' ok => ?_, fun rewarded => ?_⟩
  · rw [left, right]
    exact run_conserves pos calls .start k
  · obtain ⟨data, rest, -⟩ := read_spec pos ok
    exact ⟨data, congrArg Groups.entries rest⟩
  · obtain ⟨read, ok, same, some, -⟩ := getRolloutData_ok ok
    obtain ⟨data, rest, -, computed⟩ := read_spec pos ok
    refine ⟨⟨data, congrArg Groups.entries (same.trans rest)⟩, some, fun succeeded served => ?_⟩
    obtain ⟨metaInfo, found, run⟩ := computed fun none => by rw [none, succeeded] at some; cases some
    refine ⟨metaInfo, found, ?_⟩
    rw [totalSamples_eq run, left, right, run_counts pos calls served]
    rfl
  · have counted : buffer.Counted := by
      rw [right]
      exact run_counted pos calls (fun entry mem => absurd mem List.not_mem_nil) rewarded
    exact ⟨read_ok groupSize counted, getRolloutData_total groupSize counted⟩

/-- Two samples of one instance, and one of another between them. -/
def threeWrites : List (Call Nat String) :=
  [.write ⟨7, some 1, "a"⟩, .write ⟨8, some 0, "b"⟩, .write ⟨7, some 0, "c"⟩]

/-- The two samples of the instance are read together, with the three written ones counted; the other one stays. -/
theorem buffer_conserves_three :
    ∃ success output buffer', (run 2 .start threeWrites).2.getRolloutData 2 = .ok ((success, output), buffer') ∧ success = true ∧
      output.data.map Item.payload = ["a", "c"] ∧ buffer'.queue.data.entries.map Prod.fst = [8] ∧
      ∃ metaInfo, output.metaInfo = some metaInfo ∧ metaInfo.totalSamples = 3 := by
  obtain ⟨-, -, response, answers⟩ := buffer_conserves Nat.two_pos threeWrites rfl
  obtain ⟨-, success, output, buffer', ok⟩ := answers (by decide)
  obtain ⟨⟨data, rest⟩, some, total⟩ := response success output buffer' ok
  have succeeded : success = true := by
    rw [some, data]
    rfl
  refine ⟨success, output, buffer', ok, succeeded, ?_, ?_, ?_⟩
  · rw [data]
    rfl
  · rw [rest]
    rfl
  · exact total succeeded (by simp [threeWrites])

end SlimeBoard.RolloutBuffer
