import SlimeBoard.Rollout.Sample

/-!
# Asynchronous collection of a rollout

`generate_rollout_async` keeps enough generation tasks pending to reach its target, takes
the groups of the tasks that finish, in whatever order and bunches they do, and replaces
those that the dynamic filter drops. When the target is reached, it aborts the tasks that
are still pending.
-/

namespace SlimeBoard

open SlimeTypes (Value)

/-- A group as the data source makes it: `n` samples, of which the first has an index. -/
structure SourceGroup (Obj : Type) (n : Nat) where
  samples : List (SlimeTypes.Sample Obj)
  size : samples.length = n
  index : Int
  first : samples.head?.bind (·.index) = some index

/-- A generation task: its number, in the order of submission, and its group. -/
abbrev GenerateTask (Obj : Type) (n : Nat) := Nat × SourceGroup Obj n

structure GenerateState (Obj : Type) (n : Nat) where
  remainingBatchSize : Int
  pendings : List (GenerateTask Obj n)
  aborted : Bool

/-- `reset` -/
def GenerateState.reset (Obj : Type) (n : Nat) : GenerateState Obj n := ⟨0, [], false⟩

/-- The variables of `generate_rollout_async` and of `abort`, with the requests to the data
source and the tasks so far. -/
structure Collect (Obj : Type) (n : Nat) extends GenerateState Obj n where
  data : List (GenerateTask Obj n)
  allData : List (GenerateTask Obj n)
  requests : Nat
  submitted : Nat
  abortedSamples : List (GenerateTask Obj n)

/-- What a rollout depends on: the groups that the data source returns at each request, what
generation makes of the group of a task, and whether the dynamic filter keeps it. -/
structure CollectEnv (Obj : Type) (n : Nat) where
  source : Nat → List (SourceGroup Obj n)
  nonempty : ∀ request, source request ≠ []
  outcome : Nat → SourceGroup Obj n → SourceGroup Obj n
  keep : Nat → Bool
  rolloutBatchSize : ℕ+
  partialRollout : Bool
  rolloutId : Int

def CollectEnv.targetDataSize {Obj : Type} {n : Nat} (env : CollectEnv Obj n) : Nat := env.rolloutBatchSize

/-- The generation tasks of the first requests. -/
def CollectEnv.tasks {Obj : Type} {n : Nat} (env : CollectEnv Obj n) : Nat → List (GenerateTask Obj n)
  | 0 => []
  | request + 1 => env.tasks request ++ (env.source request).zipIdx.map fun p => ((env.tasks request).length + p.2, p.1)

namespace Collect

variable {Obj : Type} {n : Nat}

def start (Obj : Type) (n : Nat) : Collect Obj n :=
  { GenerateState.reset Obj n with data := [], allData := [], requests := 0, submitted := 0, abortedSamples := [] }

/-- `submit_generate_tasks` -/
def submitGenerateTasks (samples : List (SourceGroup Obj n)) (s : Collect Obj n) : Collect Obj n :=
  { s with
    pendings := s.pendings ++ samples.zipIdx.map fun p => (s.submitted + p.2, p.1)
    remainingBatchSize := s.remainingBatchSize + samples.length
    requests := s.requests + 1
    submitted := s.submitted + samples.length }

variable (env : CollectEnv Obj n)

/-- `task.result()` -/
def taskResult (task : GenerateTask Obj n) : GenerateTask Obj n := (task.1, env.outcome task.1 task.2)

/-- The body of the loop over `done`. -/
def complete (s : Collect Obj n) (task : GenerateTask Obj n) : Collect Obj n :=
  let group := taskResult env task
  let s := { s with allData := s.allData ++ [group] }
  if env.keep task.1 = false then { s with remainingBatchSize := s.remainingBatchSize - 1 }
  else if s.data.length < env.targetDataSize then { s with data := s.data ++ [group] }
  else s

end Collect

/-- A group that is handed back remembers the rollout in which it was started. -/
def markStart {Obj : Type} {n : Nat} (rolloutId : Int) (g : SourceGroup Obj n) : SourceGroup Obj n where
  samples := g.samples.map fun sample =>
    if sample.response ≠ "" ∧ "start_rollout_id" ∉ sample.metadata then
      { sample with metadata := sample.metadata.insert "start_rollout_id" (.int rolloutId) }
    else sample
  size := by rw [List.length_map, g.size]
  index := g.index
  first := by
    have first := g.first
    cases samples : g.samples with
    | nil =>
      rw [samples] at first
      cases first
    | cons sample rest =>
      rw [samples] at first
      rw [List.map_cons, List.head?_cons, Option.bind_some, ← first]
      split
      · rfl
      · rfl

namespace Collect

variable {Obj : Type} {n : Nat} (env : CollectEnv Obj n)

/-- A group that `abort` collects. -/
def partialResult (task : GenerateTask Obj n) : GenerateTask Obj n :=
  ((taskResult env task).1, markStart env.rolloutId (taskResult env task).2)

/-- One step: a request of the inner loop, a wait of the main loop for some tasks to finish,
the call of `abort`, or a wait of `abort`. -/
inductive Step : Collect Obj n → Collect Obj n → Prop where
  | request (s : Collect Obj n) (running : s.aborted = false) (short : s.data.length < env.targetDataSize)
      (room : s.remainingBatchSize < env.targetDataSize) : Step s (s.submitGenerateTasks (env.source s.requests))
  | wait (s : Collect Obj n) (done rest : List (GenerateTask Obj n)) (running : s.aborted = false)
      (short : s.data.length < env.targetDataSize) (full : ¬s.remainingBatchSize < env.targetDataSize)
      (parts : s.pendings.Perm (done ++ rest)) (finished : done ≠ []) :
      Step s (done.foldl (complete env) { s with pendings := rest })
  | abort (s : Collect Obj n) (running : s.aborted = false) (reached : ¬s.data.length < env.targetDataSize) :
      Step s { s with aborted := true }
  | drain (s : Collect Obj n) (done rest : List (GenerateTask Obj n)) (aborting : s.aborted = true)
      (more : s.pendings ≠ []) (parts : s.pendings.Perm (done ++ rest)) (finished : done ≠ []) :
      Step s { s with
        pendings := rest
        abortedSamples :=
          if env.partialRollout then
            s.abortedSamples ++ done.map (partialResult env)
          else s.abortedSamples }

abbrev Reaches : Collect Obj n → Collect Obj n → Prop := Relation.ReflTransGen (Step env)

/-- The main loop waits. -/
def Waits (s : Collect Obj n) : Prop :=
  s.aborted = false ∧ s.data.length < env.targetDataSize ∧ ¬s.remainingBatchSize < env.targetDataSize

/-- `abort` is called. -/
def TargetReached (s : Collect Obj n) : Prop := s.aborted = false ∧ ¬s.data.length < env.targetDataSize

/-- `abort` has returned. -/
def Finished (s : Collect Obj n) : Prop := s.aborted = true ∧ s.pendings = []

/-- What `generate_rollout_async` returns, and the state that it leaves. -/
def finish (s : Collect Obj n) : Py ((List (GenerateTask Obj n) × List (GenerateTask Obj n)) × GenerateState Obj n) := do
  pyAssert (decide (s.data.length = env.targetDataSize))
  return ((s.data.mergeSort fun a b => decide (a.2.index ≤ b.2.index), s.abortedSamples), .reset Obj n)

/-! ## The main loop -/

/-- What holds in the main loop while the tasks `left` have finished and are not taken yet. -/
structure Loop (left : List (GenerateTask Obj n)) (s : Collect Obj n) : Prop where
  remaining : s.remainingBatchSize = left.length + s.pendings.length + (s.allData.filter fun task => env.keep task.1).length
  kept : s.data = (s.allData.filter fun task => env.keep task.1).take env.targetDataSize
  counted : s.submitted = (env.tasks s.requests).length
  tasks : ∃ finished, s.allData = finished.map (taskResult env) ∧
    (left ++ s.pendings ++ finished).Perm (env.tasks s.requests)
  fresh : s.abortedSamples = []

variable {env} {s : Collect Obj n} {left : List (GenerateTask Obj n)}

theorem loop_start : Loop env [] (start Obj n) := ⟨rfl, List.take_nil.symm, rfl, ⟨[], rfl, .refl _⟩, rfl⟩

theorem tasks_numbers (request : Nat) : (env.tasks request).map Prod.fst = List.range (env.tasks request).length := by
  induction request with
  | zero => rfl
  | succ request ih =>
    have new : ((env.source request).zipIdx.map fun p => ((env.tasks request).length + p.2, p.1)).map Prod.fst =
        (List.range (env.source request).length).map ((env.tasks request).length + ·) := by
      rw [List.map_map, List.range_eq_range', ← List.zipIdx_map_snd 0 (env.source request), List.map_map]
      rfl
    rw [CollectEnv.tasks, List.map_append, ih, new, List.length_append, List.length_map, List.length_zipIdx, List.range_add]

/-- Before the target is reached, all groups that the filter keeps are in the data. -/
theorem Loop.kept_eq (loop : Loop env left s) (short : s.data.length < env.targetDataSize) :
    (s.allData.filter fun task => env.keep task.1) = s.data := by
  have kept := loop.kept
  rw [kept, List.length_take] at short
  rw [kept, List.take_of_length_le (by omega)]

theorem Loop.request (loop : Loop env [] s) : Loop env [] (s.submitGenerateTasks (env.source s.requests)) := by
  obtain ⟨remaining, kept, counted, ⟨finished, taken, tasks⟩, fresh⟩ := loop
  refine ⟨?_, kept, ?_, ⟨finished, taken, ?_⟩, fresh⟩
  · show s.remainingBatchSize + (env.source s.requests).length = _
    rw [remaining]
    simp only [submitGenerateTasks, List.length_nil, List.length_append, List.length_map, List.length_zipIdx]
    omega
  · show s.submitted + (env.source s.requests).length = (env.tasks (s.requests + 1)).length
    rw [CollectEnv.tasks, counted, List.length_append, List.length_map, List.length_zipIdx]
  · show ([] ++ (s.pendings ++ _) ++ finished).Perm (env.tasks (s.requests + 1))
    rw [CollectEnv.tasks, counted, List.nil_append, List.append_assoc]
    rw [List.nil_append] at tasks
    refine (List.perm_append_comm.append_left _).trans ?_
    rw [← List.append_assoc]
    exact tasks.append_right _

theorem Loop.complete {task : GenerateTask Obj n} (loop : Loop env (task :: left) s) : Loop env left (s.complete env task) := by
  obtain ⟨remaining, kept, counted, ⟨finished, taken, tasks⟩, fresh⟩ := loop
  have moved : ∃ finished, s.allData ++ [taskResult env task] = finished.map (taskResult env) ∧
      (left ++ s.pendings ++ finished).Perm (env.tasks s.requests) := by
    refine ⟨finished ++ [task], ?_, ?_⟩
    · rw [taken, List.map_append, List.map_singleton]
    · rw [← List.append_assoc]
      exact List.perm_append_comm.trans tasks
  have size := congrArg List.length kept
  rw [List.length_take] at size
  rw [List.length_cons] at remaining
  unfold Collect.complete
  dsimp only
  cases keeps : env.keep task.1 with
  | false =>
    have same : ((s.allData ++ [taskResult env task]).filter fun task => env.keep task.1) =
        s.allData.filter fun task => env.keep task.1 := by
      rw [List.filter_append, List.filter_cons_of_neg (by rw [taskResult, keeps]; exact Bool.false_ne_true), List.filter_nil,
        List.append_nil]
    rw [if_pos rfl]
    refine ⟨?_, ?_, counted, moved, fresh⟩
    · dsimp only
      rw [same]
      omega
    · dsimp only
      rw [same, kept]
  | true =>
    have more : ((s.allData ++ [taskResult env task]).filter fun task => env.keep task.1) =
        (s.allData.filter fun task => env.keep task.1) ++ [taskResult env task] := by
      rw [List.filter_append, List.filter_cons_of_pos (by rw [taskResult, keeps]), List.filter_nil]
    rw [if_neg (by decide)]
    split
    · rename_i short
      refine ⟨?_, ?_, counted, moved, fresh⟩
      · dsimp only
        rw [more, List.length_append, List.length_singleton]
        omega
      · dsimp only
        rw [more, kept, List.take_of_length_le (by omega), List.take_of_length_le]
        rw [List.length_append, List.length_singleton]
        omega
    · rename_i full
      refine ⟨?_, ?_, counted, moved, fresh⟩
      · dsimp only
        rw [more, List.length_append, List.length_singleton]
        omega
      · dsimp only
        rw [more, List.take_append_of_le_length (by omega), kept]

theorem Loop.completeAll (loop : Loop env left s) : Loop env [] (left.foldl (Collect.complete env) s) := by
  induction left generalizing s with
  | nil => exact loop
  | cons task rest ih => exact ih loop.complete

/-- The tasks that have finished are taken out of the pending ones. -/
theorem Loop.takeOut {done rest : List (GenerateTask Obj n)} (loop : Loop env [] s) (parts : s.pendings.Perm (done ++ rest)) :
    Loop env done { s with pendings := rest } := by
  obtain ⟨remaining, kept, counted, ⟨finished, taken, tasks⟩, fresh⟩ := loop
  refine ⟨?_, kept, counted, ⟨finished, taken, ?_⟩, fresh⟩
  · have size := parts.length_eq
    rw [List.length_append] at size
    rw [List.length_nil] at remaining
    dsimp only
    omega
  · refine List.Perm.trans ?_ tasks
    rw [List.nil_append]
    exact parts.symm.append_right finished

theorem foldl_complete_aborted (done : List (GenerateTask Obj n)) (s : Collect Obj n) :
    (done.foldl (Collect.complete env) s).aborted = s.aborted := by
  induction done generalizing s with
  | nil => rfl
  | cons task rest ih =>
    rw [List.foldl_cons, ih]
    unfold Collect.complete
    dsimp only
    split
    · rfl
    · split
      · rfl
      · rfl

/-! ## The tasks that are aborted -/

variable (env) in
/-- What `abort` has made of the state `s₀` in which it was called. -/
structure Drained (s₀ s : Collect Obj n) : Prop where
  aborting : s.aborted = true
  data : s.data = s₀.data
  collected : env.partialRollout = true →
    (s.abortedSamples ++ s.pendings.map (partialResult env)).Perm (s₀.pendings.map (partialResult env))

theorem Drained.step {s₀ s' : Collect Obj n} (drained : Drained env s₀ s) (step : Step env s s') : Drained env s₀ s' := by
  obtain ⟨aborting, data, collected⟩ := drained
  cases step with
  | request running => exact absurd (running.symm.trans aborting) Bool.false_ne_true
  | wait done rest running => exact absurd (running.symm.trans aborting) Bool.false_ne_true
  | abort running => exact absurd (running.symm.trans aborting) Bool.false_ne_true
  | drain done rest _ more parts finished =>
    refine ⟨aborting, data, fun partials => ?_⟩
    have moved : (s.abortedSamples ++ done.map (partialResult env) ++ rest.map (partialResult env)).Perm
        (s.abortedSamples ++ s.pendings.map (partialResult env)) := by
      rw [List.append_assoc, ← List.map_append]
      exact (parts.symm.map _).append_left _
    dsimp only
    rw [if_pos partials]
    exact moved.trans (collected partials)

/-- **A run is in the main loop, or has left it in a state where the target was reached.** -/
theorem reaches_cases (run : Reaches env (start Obj n) s) :
    s.aborted = false ∧ Loop env [] s ∨
      ∃ s₀, Reaches env (start Obj n) s₀ ∧ s₀.TargetReached env ∧ Loop env [] s₀ ∧ Reaches env s₀ s ∧ Drained env s₀ s := by
  induction run with
  | refl => exact Or.inl ⟨rfl, loop_start⟩
  | @tail s s' before step ih =>
    rcases ih with ⟨running, loop⟩ | ⟨s₀, reached, target, loop, after, drained⟩
    · cases step with
      | request => exact Or.inl ⟨running, loop.request⟩
      | wait done rest _ short full parts finished =>
        exact Or.inl ⟨(foldl_complete_aborted ..).trans running, (loop.takeOut parts).completeAll⟩
      | abort _ reached =>
        refine Or.inr ⟨s, before, ⟨running, reached⟩, loop, .single (.abort s running reached), rfl, rfl, fun _ => ?_⟩
        rw [loop.fresh]
        exact .refl _
      | drain done rest aborting => exact absurd (running.symm.trans aborting) Bool.false_ne_true
    · exact Or.inr ⟨s₀, reached, target, loop, after.tail step, drained.step step⟩

/-- The inner loop ends: each request brings a group. -/
theorem fill (running : s.aborted = false) (short : s.data.length < env.targetDataSize) :
    ∃ s', Reaches env s s' ∧ s'.Waits env ∧ s'.data = s.data := by
  obtain ⟨room, gap⟩ : ∃ room : Nat, env.targetDataSize ≤ s.remainingBatchSize + room :=
    ⟨(env.targetDataSize - s.remainingBatchSize).toNat, by omega⟩
  induction room generalizing s with
  | zero => exact ⟨s, .refl, ⟨running, short, by omega⟩, rfl⟩
  | succ room ih =>
    by_cases full : s.remainingBatchSize < env.targetDataSize
    · have positive := List.length_pos_iff.2 (env.nonempty s.requests)
      have next : (s.submitGenerateTasks (env.source s.requests)).remainingBatchSize =
          s.remainingBatchSize + (env.source s.requests).length := rfl
      obtain ⟨s', run, waits, same⟩ := ih (s := s.submitGenerateTasks (env.source s.requests)) running short (by omega)
      exact ⟨s', .head (.request s running short full) run, waits, same⟩
    · exact ⟨s, .refl, ⟨running, short, full⟩, rfl⟩

theorem Loop.pending (loop : Loop env [] s) (waits : s.Waits env) :
    s.pendings ≠ [] ∧ s.remainingBatchSize = s.pendings.length + s.data.length := by
  obtain ⟨_, short, full⟩ := waits
  have remaining := loop.remaining
  rw [loop.kept_eq short, List.length_nil] at remaining
  refine ⟨List.ne_nil_of_length_pos ?_, ?_⟩
  · omega
  · omega

/-- The data is a part of the groups that finished and that the filter keeps. -/
theorem Loop.sublist (loop : Loop env [] s) : s.data.Sublist (s.allData.filter fun task => env.keep task.1) := by
  rw [loop.kept]
  exact List.take_sublist ..

/-- The data is made of tasks that have finished. -/
theorem Loop.results (loop : Loop env [] s) : ∃ finished kept : List (GenerateTask Obj n),
    (s.pendings ++ finished).Perm (env.tasks s.requests) ∧ kept.Sublist finished ∧ s.data = kept.map (taskResult env) := by
  obtain ⟨finished, taken, tasks⟩ := loop.tasks
  have part := loop.sublist.trans List.filter_sublist
  rw [taken] at part
  obtain ⟨kept, part, same⟩ := List.sublist_map_iff.1 part
  exact ⟨finished, kept, tasks, part, same⟩

/-- Every task is pending or has finished once. -/
theorem Loop.numbers (loop : Loop env [] s) : ((s.pendings ++ s.allData).map Prod.fst).Nodup := by
  obtain ⟨finished, taken, tasks⟩ := loop.tasks
  have once := (tasks.map Prod.fst).nodup_iff.2 ((tasks_numbers _).symm ▸ List.nodup_range)
  rw [List.nil_append, List.map_append] at once
  rw [taken, List.map_append, List.map_map]
  exact once

/-- What is returned when the target is reached. -/
theorem Loop.returned (loop : Loop env [] s) (reached : ¬s.data.length < env.targetDataSize) :
    s.data.length = env.targetDataSize ∧ (s.data.map Prod.fst).Nodup ∧ (∀ task ∈ s.data, env.keep task.1 = true) ∧
      (s.pendings.map Prod.fst).Nodup ∧ ∀ task ∈ s.data, task.1 ∉ s.pendings.map Prod.fst := by
  have size := congrArg List.length loop.kept
  rw [List.length_take] at size
  have part := loop.sublist.trans List.filter_sublist
  have numbers := loop.numbers
  rw [List.map_append] at numbers
  obtain ⟨pending, finished, apart⟩ := List.nodup_append.1 numbers
  refine ⟨by omega, finished.sublist (part.map Prod.fst), fun task mem => ?_, pending, fun task mem here => ?_⟩
  · exact (List.mem_filter.1 (loop.sublist.subset mem)).2
  · exact apart task.1 here task.1 (List.mem_map_of_mem (part.subset mem)) rfl

/-- **The rollout is collected, whatever finishes when and whatever the filter keeps.** What is
returned are results of tasks that finished, and what is handed back are the tasks that were
pending when the target was reached. -/
theorem generate_rollout_async_collects (run : Reaches env (start Obj n) s) :
    (s.Waits env → s.pendings ≠ [] ∧ s.remainingBatchSize = s.pendings.length + s.data.length) ∧
    (s.aborted = false → s.data.length < env.targetDataSize → ∃ s', Reaches env s s' ∧ s'.Waits env ∧ s'.data = s.data) ∧
    (¬s.Finished → ∃ s', Step env s s') ∧
    (s.Finished → ∃ s₀, Reaches env (start Obj n) s₀ ∧ s₀.TargetReached env ∧ Reaches env s₀ s ∧
      ∃ samples aborted, s.finish env = .ok ((samples, aborted), .reset Obj n) ∧ samples.length = env.targetDataSize ∧
        (samples.map Prod.fst).Nodup ∧ (∀ task ∈ samples, env.keep task.1 = true) ∧
        (∃ finished kept : List (GenerateTask Obj n), (s₀.pendings ++ finished).Perm (env.tasks s₀.requests) ∧
          kept.Sublist finished ∧ samples.Perm (kept.map (taskResult env))) ∧
        (env.partialRollout = true → aborted.Perm (s₀.pendings.map (partialResult env)) ∧
          (aborted.map Prod.fst).Perm (s₀.pendings.map Prod.fst) ∧ (aborted.map Prod.fst).Nodup ∧
          ∀ task ∈ samples, task.1 ∉ aborted.map Prod.fst)) := by
  refine ⟨fun waits => ?_, fill, fun more => ?_, fun finished => ?_⟩
  · rcases reaches_cases run with ⟨_, loop⟩ | ⟨_, _, _, _, _, drained⟩
    · exact loop.pending waits
    · exact absurd (waits.1.symm.trans drained.aborting) Bool.false_ne_true
  · rcases reaches_cases run with ⟨running, loop⟩ | ⟨_, _, _, _, _, drained⟩
    · by_cases short : s.data.length < env.targetDataSize
      · by_cases room : s.remainingBatchSize < env.targetDataSize
        · exact ⟨_, .request s running short room⟩
        · have pending := (loop.pending ⟨running, short, room⟩).1
          exact ⟨_, .wait s s.pendings [] running short room (by rw [List.append_nil]) pending⟩
      · exact ⟨_, .abort s running short⟩
    · have pending : s.pendings ≠ [] := fun none => more ⟨drained.aborting, none⟩
      exact ⟨_, .drain s s.pendings [] drained.aborting pending (by rw [List.append_nil]) pending⟩
  · obtain ⟨aborting, none⟩ := finished
    rcases reaches_cases run with ⟨running, _⟩ | ⟨s₀, before, target, loop, after, drained⟩
    · exact absurd (running.symm.trans aborting) Bool.false_ne_true
    · obtain ⟨size, nodup, kept, apart⟩ := loop.returned target.2
      have same := drained.data
      have sorted := List.mergeSort_perm s.data fun a b => decide (a.2.index ≤ b.2.index)
      refine ⟨s₀, before, target, after, s.data.mergeSort fun a b => decide (a.2.index ≤ b.2.index), s.abortedSamples,
        ?_, ?_, ?_, ?_, ?_, fun partials => ?_⟩
      · unfold finish
        rw [decide_eq_true (same ▸ size)]
        rfl
      · rw [sorted.length_eq, same, size]
      · rw [(sorted.map Prod.fst).nodup_iff, same]
        exact nodup
      · intro task mem
        exact kept task (same ▸ sorted.mem_iff.1 mem)
      · obtain ⟨finished, kept, tasks, part, results⟩ := loop.results
        exact ⟨finished, kept, tasks, part, sorted.trans (.of_eq (same.trans results))⟩
      · have collected := drained.collected partials
        rw [none, List.map_nil, List.append_nil] at collected
        have numbers : (s.abortedSamples.map Prod.fst).Perm (s₀.pendings.map Prod.fst) := by
          have numbers := collected.map Prod.fst
          rw [List.map_map] at numbers
          exact numbers
        refine ⟨collected, numbers, numbers.nodup_iff.2 apart.1, fun task mem here => ?_⟩
        exact apart.2 task (same ▸ sorted.mem_iff.1 mem) (numbers.mem_iff.1 here)

/-- A group of one sample. -/
def single (index : Nat) : SourceGroup Unit 1 := ⟨[SlimeTypes.shortAnswer index], rfl, index, rfl⟩

/-- Two groups at a request, one group to collect. -/
def twoAtATime : CollectEnv Unit 1 where
  source request := [single (2 * request), single (2 * request + 1)]
  nonempty _ := List.cons_ne_nil _ _
  outcome _ group := group
  keep _ := true
  rolloutBatchSize := Nat.succPNat 0
  partialRollout := true
  rolloutId := 0

/-- The first task finishes, the second is aborted. -/
theorem reaches_two : ∃ s : Collect Unit 1, Reaches twoAtATime (start Unit 1) s ∧ s.Finished := by
  let requested : Collect Unit 1 := (start Unit 1).submitGenerateTasks (twoAtATime.source 0)
  let collected : Collect Unit 1 := [(0, single 0)].foldl (complete twoAtATime) { requested with pendings := [(1, single 1)] }
  have request : Step twoAtATime (start Unit 1) requested := .request _ rfl Nat.one_pos (by decide)
  have wait : Step twoAtATime requested collected := .wait _ _ _ rfl Nat.one_pos (by decide) (.refl _) (List.cons_ne_nil _ _)
  have abort : Step twoAtATime collected { collected with aborted := true } := .abort _ rfl (by decide)
  exact ⟨_, .tail (.tail (.tail (.single request) wait) abort)
    (.drain _ [(1, single 1)] [] rfl (List.cons_ne_nil _ _) (.refl _) (List.cons_ne_nil _ _)), rfl, rfl⟩

theorem collects_two : ∃ s s₀ : Collect Unit 1, s.Finished ∧ ∃ samples aborted,
    s.finish twoAtATime = .ok ((samples, aborted), .reset Unit 1) ∧ samples.length = 1 ∧
      aborted.Perm (s₀.pendings.map (partialResult twoAtATime)) ∧ ∀ task ∈ samples, task.1 ∉ aborted.map Prod.fst := by
  obtain ⟨s, run, finished⟩ := reaches_two
  obtain ⟨s₀, _, _, _, samples, aborted, returned, size, _, _, _, collected⟩ :=
    (generate_rollout_async_collects run).2.2.2 finished
  obtain ⟨handed, _, _, apart⟩ := collected rfl
  exact ⟨s, s₀, finished, samples, aborted, returned, size, handed, apart⟩

end Collect

end SlimeBoard
