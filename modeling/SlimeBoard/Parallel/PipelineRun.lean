import SlimeBoard.Parallel.Timetable

/-!
# Runs of a pipeline

The ranks of a pipeline meet no deadlock, whatever the order in which their operations complete, and the
stages end with the losses and gradients of the whole model.
-/

namespace SlimeBoard.Schedules

open Rendezvous

variable {β τ ω χ γ : Type}

/-! ## The whole model -/

section Whole

variable (stages : Nat → Stage β τ ω χ γ)

/-- The input tensors of the stages in a forward step of the whole model. -/
def inputs (checkpoint : Option Bool) (isFirst : Bool) (current : Nat) (row : Nat → β) (x : Option τ) : Nat → Option τ
  | 0 => x
  | r + 1 => some ((stages r).tensor
      ((stages r).forward checkpoint isFirst current (row r) (inputs checkpoint isFirst current row x r)))

/-- The input tensor of a stage among the outputs of the stages. -/
def inputOf (x : Option τ) (o : Nat → ω) : Nat → Option τ
  | 0 => x
  | r + 1 => some ((stages r).tensor (o r))

/-- The gradient of the output of the stage that is `d` stages before the last. -/
def outputGradOf (size : Nat) (x : Option τ) (o : Nat → ω) (g : Option τ) : Nat → Option τ
  | 0 => g
  | d + 1 => (inputOf stages x o (size - 1 - d)).map fun y =>
      (stages (size - 1 - d)).inputGrad y (o (size - 1 - d)) (outputGradOf size x o g d)

/-- The model that runs all stages in turn. -/
def whole (size : Nat) : Stage (Nat → β) τ (Nat → ω) χ (Nat → γ) where
  forward checkpoint isFirst current row x r :=
    (stages r).forward checkpoint isFirst current (row r) (inputs stages checkpoint isFirst current row x r)
  lossFunc m o :=
    let (output, numTokens, loss) := (stages (size - 1)).lossFunc m (o (size - 1))
    (Function.update o (size - 1) output, numTokens, loss)
  tensor o := (stages (size - 1)).tensor (o (size - 1))
  inputGrad x o g := (stages 0).inputGrad x (o 0) (outputGradOf stages size (some x) o g (size - 1))
  paramGrad x o g r := (stages r).paramGrad (inputOf stages x o r) (o r) (outputGradOf stages size x o g (size - 1 - r))

end Whole

/-! ## A model without a pipeline -/

section Plain

variable {stage : Stage β τ ω χ γ} {config : Config} {m : Nat} (plan : Plan stage config ⟨0, 1, m⟩)

theorem plain_input (k : Nat) : plan.input k = none := (none_of_isSome (plan.input_isSome k) rfl).symm

theorem plain_outputGrad (k : Nat) : plan.outputGrad k = none := (none_of_isSome (plan.outputGrad_isSome k) rfl).symm

variable (unchecked : config.partialCheckpoints = none) {i : Nat} {c : Nat → Bool} (first : c i = (i == 0))
include unchecked first

theorem plainStep_eq (lt : i < m) (b : Nat) (noSync : Bool) :
    plainStep stage config m c i { plan.locals i b with noSync := noSync } =
      (.done (if config.forwardOnly then { plan.stepped i b with noSync := noSync }
        else (backwardStep stage (plan.input i) (plan.output i) (plan.outputGrad i)
          { plan.stepped i b with noSync := noSync }).2) : Proc Port τ _) := by
  obtain ⟨s, run, counted⟩ := plan.forwardStep_noSync lt b noSync
  have none' : Place.checkpoint ⟨0, 1, m⟩ config i = none := by
    rw [Place.checkpoint, unchecked]
    rfl
  rw [plain_input, none', ← first] at run
  unfold plainStep
  rw [plain_input, plain_outputGrad, ← counted]
  exact (congrArg (· >>= _) run).trans rfl

theorem plainStep_train (train : config.forwardOnly = false) (lt : i < m) :
    plainStep stage config m c i { plan.locals i i with noSync := !(i + 1 == m) } =
      (.done (plan.locals (i + 1) (i + 1)) : Proc Port τ _) := by
  have popped : { plan.stepped i i with noSync := !(i + 1 == m) } = plan.popped (i + 1) i !(plan.enabled && i + 1 == m) := by
    have enabled : plan.enabled = true := Bool.or_true _
    unfold Plan.stepped Plan.popped
    simp only [Plan.locals, Nat.sub_self, List.range'_zero, List.map_nil, ite_self, enabled, Bool.true_and]
  rw [plainStep_eq plan unchecked first lt, train, popped]
  exact congrArg Proc.done (congrArg Prod.snd plan.backwardStep_locals)

theorem plainStep_forward (only : config.forwardOnly = true) (lt : i < m) (noSync : Bool) :
    plainStep stage config m c i { plan.locals i 0 with noSync := noSync } =
      (.done { plan.locals (i + 1) 0 with noSync := noSync } : Proc Port τ _) := by
  rw [plainStep_eq plan unchecked first lt, if_pos only, Plan.stepped_forwardOnly only]

omit first in
/-- All microbatches of a model without a pipeline, one after the other. -/
theorem noPipelining_eq (pos : 0 < m) :
    forwardBackwardNoPipelining stage config m ((List.range m).map plan.batch ++ plan.more) =
      (.done (if config.forwardOnly then { plan.locals m 0 with noSync := false } else plan.locals m m) : Proc Port τ _) := by
  have last : (m == 1) = (m - 1 == 0) := by
    rw [Bool.eq_iff_iff, beq_iff_eq, beq_iff_eq]
    omega
  have count : m - 1 + 1 = m := by omega
  unfold forwardBackwardNoPipelining
  rw [← plan.locals_start pos]
  cases only : config.forwardOnly with
  | true =>
    have loop : Proc.loop (plainStep stage config m (· == 0)) (plan.locals 0 0) (m - 1) =
        (.done (plan.locals (m - 1) 0) : Proc Port τ _) := by
      refine Proc.loop_done (fun i => plan.locals i 0) fun i lt => ?_
      have closed : ∀ a, plan.locals a 0 = { plan.locals a 0 with noSync := true } := fun a => by
        rw [← plan.locals_noSync pos a]
      have step := plainStep_forward plan (i := i) unchecked (c := (· == 0)) rfl only (by omega) true
      rwa [← closed, ← closed] at step
    rw [loop, Proc.done_bind]
    have step := plainStep_forward plan unchecked (c := fun _ => m == 1) last only (by omega) false
    rwa [count] at step
  | false =>
    have loop : Proc.loop (plainStep stage config m (· == 0)) (plan.locals 0 0) (m - 1) =
        (.done (plan.locals (m - 1) (m - 1)) : Proc Port τ _) := by
      refine Proc.loop_done (fun i => plan.locals i i) fun i lt => ?_
      have closed : plan.locals i i = { plan.locals i i with noSync := !(i + 1 == m) } := by
        rw [beq_false_of_ne (show i + 1 ≠ m by omega), Bool.not_false, ← plan.locals_noSync (show i < m by omega) i]
      rw [closed]
      exact plainStep_train plan unchecked rfl only (by omega)
    rw [loop, Proc.done_bind]
    have step := plainStep_train plan unchecked (c := fun _ => m == 1) last only (by omega)
    rwa [count, beq_self_eq_true] at step

end Plain

/-! ## The stages of a model -/

section Stages

variable (stages : Nat → Stage β τ ω χ γ) (config : Config) (p m : Nat) (row : Nat → Nat → β)

/-- The outputs of the stages for a microbatch, before the loss. -/
def rawOutputs (k : Nat) : Nat → ω :=
  (whole stages p).forward none (checkFirstValStep config.firstValStep config.forwardOnly (k == 0)) k (row k) none

/-- The loss of a microbatch, with the outputs of the stages it leaves behind. -/
def lossOf (k : Nat) : (Nat → ω) × Nat × χ := (whole stages p).lossFunc m (rawOutputs stages config p row k)

/-- The whole model as a single stage. -/
def plainPlan (more : List (Nat → β)) : Plan (whole stages p) { config with partialCheckpoints := none } ⟨0, 1, m⟩ where
  batch := row
  more := more
  input _ := none
  output k := (lossOf stages config p m row k).1
  outputGrad _ := none
  numTokens k := (lossOf stages config p m row k).2.1
  losses k := [(lossOf stages config p m row k).2.2]
  inside := Nat.one_pos
  computes _ := rfl
  input_isSome _ := rfl
  outputGrad_isSome _ := rfl

variable {stages config p m row}

theorem output_of_ne {r k : Nat} (notLast : r ≠ p - 1) : (lossOf stages config p m row k).1 r = rawOutputs stages config p row k r :=
  Function.update_of_ne notLast _ _

theorem output_last {k : Nat} : (lossOf stages config p m row k).1 (p - 1) =
    ((stages (p - 1)).lossFunc m (rawOutputs stages config p row k (p - 1))).1 :=
  Function.update_self (p - 1) _ _

theorem inputOf_output {r k : Nat} (lt : r < p) :
    inputOf stages none (lossOf stages config p m row k).1 r =
      inputs stages none (checkFirstValStep config.firstValStep config.forwardOnly (k == 0)) k (row k) none r := by
  cases r with
  | zero => rfl
  | succ r =>
    show some _ = some _
    rw [output_of_ne (by omega)]
    rfl

theorem stage_computes (recompute : ∀ r c first k b x, (stages r).forward c first k b x = (stages r).forward none first k b x)
    {r : Nat} (lt : r < p) (k : Nat) :
    forwardStepCalcLoss (stages r) m (r == p - 1)
      ((stages r).forward (Place.checkpoint ⟨r, p, m⟩ config k)
        (checkFirstValStep config.firstValStep config.forwardOnly (k == 0)) k (row k r)
        (inputOf stages none (lossOf stages config p m row k).1 r)) =
      ((lossOf stages config p m row k).1 r, if r == p - 1 then (lossOf stages config p m row k).2.1 else 0,
        if r == p - 1 then [(lossOf stages config p m row k).2.2] else []) := by
  rw [recompute, inputOf_output lt]
  show forwardStepCalcLoss (stages r) m (r == p - 1) (rawOutputs stages config p row k r) = _
  cases last : r == p - 1 with
  | true =>
    obtain rfl := beq_iff_eq.1 last
    rw [output_last]
    rfl
  | false =>
    rw [output_of_ne (ne_of_beq_false last)]
    rfl

variable (config m row)

/-- What a stage of the model computes in a pipeline. -/
def stagePlan (recompute : ∀ r c first k b x, (stages r).forward c first k b x = (stages r).forward none first k b x)
    (rest : Nat → List β) (r : Fin p) : Plan (stages r) config ⟨r, p, m⟩ where
  batch k := row k r
  more := rest r
  input k := inputOf stages none (lossOf stages config p m row k).1 r
  output k := (lossOf stages config p m row k).1 r
  outputGrad k := outputGradOf stages p none (lossOf stages config p m row k).1 none (p - 1 - r)
  numTokens k := if r.val == p - 1 then (lossOf stages config p m row k).2.1 else 0
  losses k := if r.val == p - 1 then [(lossOf stages config p m row k).2.2] else []
  inside := r.isLt
  computes := stage_computes recompute r.isLt
  input_isSome k := by
    show _ = !(r.val == 0)
    cases r.val <;> rfl
  outputGrad_isSome k := by
    show _ = !(r.val == p - 1)
    have lt := r.isLt
    cases here : p - 1 - r.val with
    | zero =>
      rw [show r.val = p - 1 by omega, beq_self_eq_true]
      rfl
    | succ d =>
      rw [beq_false_of_ne (show r.val ≠ p - 1 by omega), outputGradOf, Option.isSome_map]
      cases before : p - 1 - d with
      | zero => omega
      | succ _ => rfl

variable {config m row}
variable {recompute : ∀ r c first k b x, (stages r).forward c first k b x = (stages r).forward none first k b x}
  {rest : Nat → List β}

theorem forward_agree {i j : Fin p} (next : j.val = i.val + 1) (k : Nat) :
    (stagePlan config m row recompute rest i).forwardSent k =
      (stagePlan config m row recompute rest j).forwardTaken k := by
  have lt := j.isLt
  have notLast : Place.isLastStage ⟨i, p, m⟩ = false := beq_false_of_ne (show i.val ≠ p - 1 by omega)
  have notFirst : Place.isFirstStage ⟨j, p, m⟩ = false := beq_false_of_ne (show j.val ≠ 0 by omega)
  unfold Plan.forwardSent Plan.forwardTaken
  rw [notLast, notFirst]
  simp only [stagePlan, next, Nat.add_sub_cancel]
  rfl

theorem backward_agree {i j : Fin p} (next : j.val = i.val + 1) (k : Nat) :
    (stagePlan config m row recompute rest j).backwardSent k =
      (stagePlan config m row recompute rest i).backwardTaken k := by
  have lt := j.isLt
  have notLast : Place.isLastStage ⟨i, p, m⟩ = false := beq_false_of_ne (show i.val ≠ p - 1 by omega)
  have notFirst : Place.isFirstStage ⟨j, p, m⟩ = false := beq_false_of_ne (show j.val ≠ 0 by omega)
  have time : 2 * (p - 1) - (i.val + 1) + 2 * k + 1 = 2 * (p - 1) - i.val + 2 * k := by omega
  have depth : p - 1 - i.val = p - 1 - (i.val + 1) + 1 := by omega
  have here : p - 1 - (p - 1 - (i.val + 1)) = i.val + 1 := by omega
  unfold Plan.backwardSent Plan.backwardTaken Plan.backTime Plan.inputGrad
  rw [notLast, notFirst]
  simp only [stagePlan, next, time, depth, outputGradOf, here]

/-- At the ends of the pipeline nothing passes. -/
theorem stagePlan_ends (r : Fin p) (k : Nat) :
    (r.val = p - 1 → (stagePlan config m row recompute rest r).forwardSent k = [] ∧
      (stagePlan config m row recompute rest r).backwardTaken k = []) ∧
    (r.val = 0 → (stagePlan config m row recompute rest r).forwardTaken k = [] ∧
      (stagePlan config m row recompute rest r).backwardSent k = []) := by
  constructor
  · intro last
    have isLast : Place.isLastStage ⟨r, p, m⟩ = true := beq_iff_eq.2 last
    unfold Plan.forwardSent Plan.backwardTaken
    rw [isLast]
    exact ⟨rfl, rfl⟩
  · intro first
    have isFirst : Place.isFirstStage ⟨r, p, m⟩ = true := beq_iff_eq.2 first
    unfold Plan.forwardTaken Plan.backwardSent
    rw [isFirst]
    exact ⟨rfl, rfl⟩

/-- The next rank comes one later, or the pipeline ends and starts here. -/
theorem next_rank [NeZero p] (r : Fin p) : (r + 1).val = r.val + 1 ∨ r.val = p - 1 ∧ (r + 1).val = 0 := by
  have lt := r.isLt
  have value : (r + 1).val = (r.val + 1) % p := by
    rw [Fin.val_add, Fin.val_one', Nat.add_mod_mod]
  by_cases last : r.val = p - 1
  · refine .inr ⟨last, ?_⟩
    rw [value, show r.val + 1 = p by omega, Nat.mod_self]
  · refine .inl ?_
    rw [value, Nat.mod_eq_of_lt (by omega)]

/-- Neighbours exchange the same tensors at the same times. -/
theorem stagePlan_agree [NeZero p] : Agree wires fun r : Fin p => (stagePlan config m row recompute rest r).timetable := by
  have forward : ∀ r : Fin p, ∀ k, (stagePlan config m row recompute rest r).forwardSent k =
      (stagePlan config m row recompute rest (r + 1)).forwardTaken k := by
    intro r k
    obtain next | ⟨last, first⟩ := next_rank r
    · exact forward_agree next k
    · rw [((stagePlan_ends r k).1 last).1, ((stagePlan_ends (r + 1) k).2 first).1]
  have backward : ∀ r : Fin p, ∀ k, (stagePlan config m row recompute rest (r + 1)).backwardSent k =
      (stagePlan config m row recompute rest r).backwardTaken k := by
    intro r k
    obtain next | ⟨last, first⟩ := next_rank r
    · exact backward_agree next k
    · rw [((stagePlan_ends r k).1 last).2, ((stagePlan_ends (r + 1) k).2 first).2]
  rintro r (_ | _)
  · obtain ⟨r, rfl⟩ : ∃ r', r = r' + 1 := ⟨r - 1, (sub_add_cancel r 1).symm⟩
    have here : wires (r + 1, Port.prev) = (r, Port.next) := Prod.ext (add_sub_cancel_right r 1) rfl
    rw [here, Plan.sent_prev, Plan.taken_next]
    refine ite_congr rfl (fun _ => rfl) fun _ => List.flatMap_congr fun k _ => backward r k
  · have here : wires (r, Port.next) = (r + 1, Port.prev) := rfl
    rw [here, Plan.sent_next, Plan.taken_prev]
    exact List.flatMap_congr fun k _ => forward r k

/-! ## The outcome -/

/-- A rank of a pipeline has its share of what a model without a pipeline computes: the last rank has the
losses, every rank the gradients of its stage, and the reductions of the gradients are enabled for the
last backward step or launched by one call of `grad_sync_func`. -/
structure Shares (config : Config) (place : Place) (rest : List β) (plain : Locals (Nat → β) τ (Nat → ω) χ (Nat → γ))
    (o : Locals β τ ω χ γ) : Prop where
  dataIterator : o.dataIterator = rest
  inputTensors : o.inputTensors = []
  outputTensors : o.outputTensors = []
  forwardDataStore : o.forwardDataStore = if place.isLastStage then plain.forwardDataStore else []
  totalNumTokens : o.totalNumTokens = if place.isLastStage then plain.totalNumTokens else 0
  grads : o.grads = plain.grads.map fun g => (g.1 place.rank, g.2 && (!config.gradSyncFunc || place.rank == 0))
  gradSyncs : o.gradSyncs = if !config.forwardOnly && config.gradSyncFunc && place.rank != 0 then 1 else 0

theorem flatMap_share {δ ε : Type} (last : Bool) (f : δ → List ε) (l : List δ) :
    (l.flatMap fun k => if last then f k else []) = if last then l.flatMap f else [] := by
  cases last with
  | true => rfl
  | false => exact List.flatMap_eq_nil_iff.2 fun _ _ => rfl

theorem sum_share {δ : Type} (last : Bool) (f : δ → Nat) (l : List δ) :
    (l.map fun k => if last then f k else 0).sum = if last then (l.map f).sum else 0 := by
  cases last with
  | true => rfl
  | false =>
    refine List.sum_eq_zero fun x mem => ?_
    obtain ⟨_, _, rfl⟩ := List.mem_map.1 mem
    rfl

/-- Launching the reductions that are left touches nothing else. -/
theorem launchRemaining_eq (s : Locals β τ ω χ γ) :
    launchRemaining config s =
      { s with noSync := false, gradSyncs := if s.noSync && config.gradSyncFunc then s.gradSyncs + 1 else s.gradSyncs } := by
  unfold launchRemaining
  cases launched : s.noSync with
  | true => rfl
  | false =>
    show s = { s with noSync := false }
    rw [← launched]

theorem result_shares [NeZero p] (r : Fin p) (more : List (Nat → β)) :
    Shares config ⟨r, p, m⟩ (rest r)
      (if config.forwardOnly then { (plainPlan stages config p m row more).locals m 0 with noSync := false }
        else (plainPlan stages config p m row more).locals m m)
      (stagePlan config m row recompute rest r).result := by
  unfold Plan.result
  by_cases only : config.forwardOnly = true
  · rw [if_pos only, if_pos only]
    refine ⟨?_, if_pos only, if_pos only, flatMap_share _ _ _, sum_share _ _ _, rfl, ?_⟩
    · simp only [Plan.locals, Nat.sub_self, List.range'_zero, List.map_nil, List.nil_append, stagePlan]
    · rw [only]
      rfl
  · have train : config.forwardOnly = false := Bool.not_eq_true _ ▸ only
    have empty : ∀ {δ : Type} (f : Nat → δ), (if config.forwardOnly = true then [] else (List.range' m (m - m)).map f) = [] := by
      intro δ f
      rw [Nat.sub_self]
      exact ite_self _
    rw [if_neg only, if_neg only, launchRemaining_eq]
    refine ⟨?_, empty _, empty _, flatMap_share _ _ _, sum_share _ _ _, ?_, ?_⟩
    · simp only [Plan.locals, Nat.sub_self, List.range'_zero, List.map_nil, List.nil_append, stagePlan]
    · simp only [Plan.locals, List.map_map]
      refine List.map_congr_left fun k _ => ?_
      have enabled : (plainPlan stages config p m row more).enabled = true := Bool.or_true _
      rw [Function.comp_apply, enabled, Bool.true_and, Bool.and_comm]
      rfl
    · have left : ((stagePlan config m row recompute rest r).locals m m).noSync = (config.gradSyncFunc && r.val != 0) := by
        show (!((!config.gradSyncFunc || r.val == 0) && m == m)) = _
        rw [beq_self_eq_true, Bool.and_true, Bool.not_or, Bool.not_not]
        rfl
      have same : ∀ a b : Bool, (a && b && a) = (!false && a && b) := by decide
      rw [left, train]
      exact congrArg (fun b : Bool => if b then 1 else 0) (same config.gradSyncFunc (r.val != 0))

end Stages

/-- **The 1F1B schedule computes what the model computes without a pipeline.** In every order of the
operations of the ranks the run ends, and it ends only when every rank has its share. -/
theorem pipelining_eq_no_pipelining {p m : Nat} [NeZero p] (pos : 0 < m) (stages : Nat → Stage β τ ω χ γ) (config : Config)
    (recompute : ∀ r c first k b x, (stages r).forward c first k b x = (stages r).forward none first k b x)
    (row : Nat → Nat → β) (more : List (Nat → β)) (rest : Nat → List β) :
    ∃ plain bound, forwardBackwardNoPipelining (whole stages p) config m ((List.range m).map row ++ more) =
        (.done plain : Proc Port τ _) ∧
      ∀ n (s : Fin p → Rank Port τ (Locals β τ ω χ γ)),
        Steps wires n (fun r => (forwardBackwardPipeliningWithoutInterleaving (stages r) config ⟨r, p, m⟩
          ((List.range m).map (fun k => row k r) ++ rest r)).start) s →
        n ≤ bound ∧ ((∃ s', Step wires s s') ∨ ∀ r, ∃ o, s r = .done o ∧ Shares config ⟨r, p, m⟩ (rest r) plain o) := by
  refine ⟨_, total fun r : Fin p => (stagePlan config m row recompute rest r).timetable,
    noPipelining_eq (plainPlan stages config p m row more) rfl pos, fun n s run => ?_⟩
  obtain ⟨bound, ends⟩ := run_finishes (fun r => (stagePlan config m row recompute rest r).schedule_plays pos) stagePlan_agree run
  exact ⟨bound, ends.imp id fun done r => ⟨_, done r, result_shares r more⟩⟩

/-- A stage that adds its data to its input. -/
def adder : Stage Nat Nat Nat Nat Nat where
  forward _ _ _ b x := b + x.getD 0
  lossFunc _ o := (o, 1, o)
  tensor o := o
  inputGrad x _ g := x + g.getD 1
  paramGrad x o g := x.getD 0 + o + g.getD 1

/-- Three microbatches in a pipeline of three adders. -/
theorem pipelining_eq_no_pipelining_adders :
    ∃ bound, ∀ n (s : Fin 3 → Rank Port Nat (Locals Nat Nat Nat Nat Nat)),
      Steps wires n (fun r => (forwardBackwardPipeliningWithoutInterleaving adder ⟨false, none, some 1, false⟩ ⟨r, 3, 3⟩
        ([1, 2, 3] ++ [])).start) s →
      n ≤ bound ∧ ((∃ s', Step wires s s') ∨ ∀ r, ∃ o, s r = .done o ∧
        o.forwardDataStore = (if r.val == 2 then [3, 6, 9] else []) ∧
        o.grads = if r.val == 0 then [(5, false), (9, false), (13, true)] else [(6, false), (11, false), (16, true)]) := by
  obtain ⟨plain, bound, plainly, runs⟩ := pipelining_eq_no_pipelining (p := 3) (m := 3) (by decide) (fun _ => adder)
    ⟨false, none, some 1, false⟩ (fun _ _ _ _ _ _ => rfl) (fun k _ => k + 1) [] (fun _ => [])
  obtain rfl := Proc.done.inj plainly
  refine ⟨bound, fun n s run => ?_⟩
  obtain ⟨short, ends⟩ := runs n s run
  refine ⟨short, ends.imp id fun done r => ?_⟩
  obtain ⟨o, here, shares⟩ := done r
  refine ⟨o, here, shares.forwardDataStore, shares.grads.trans ?_⟩
  fin_cases r <;> rfl

end SlimeBoard.Schedules
