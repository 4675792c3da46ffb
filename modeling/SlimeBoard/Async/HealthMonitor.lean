import SlimeBoard.Lib.History

/-!
# The health monitor of the rollout engines

A thread waits, checks the engines one after another and kills those that fail, while the controller
pauses and resumes it through an event and a flag. The thread tests them and acts later: a check that
fails after `pause` still kills, and a `resume` during a wait or a round starts checks without a wait.
Where these do not happen, the monitor is quiet while it is paused and waits after every resume.
-/

namespace SlimeBoard.HealthMonitor

open History

variable {ε : Type}

/-- Where the thread is. A round knows the engines that it has still to check, with their numbers. -/
inductive Pc (ε : Type) where
  | loop
  | pausedLoop
  | pausedLoopStop
  | pausedWait
  | afterPaused
  | needTest
  | beginWait
  | firstWait
  | pausedDuring
  | clearNeed
  | roundPause
  | roundStop
  | enumerate
  | engineLoop (rest : List (Option ε × Nat))
  | enginePause (engine : Option ε × Nat) (rest : List (Option ε × Nat))
  | checkEngine (engine : Option ε × Nat) (rest : List (Option ε × Nat))
  | awaiting (rolloutEngineId : Nat) (rest : List (Option ε × Nat))
  | killing (indices : List Nat) (rest : List (Option ε × Nat))
  | intervalWait
  | done

/-- The monitor with its server group. `resuming` stands between the two assignments of `resume`
that the thread reads. -/
structure State (ε : Type) where
  stopEvent : Bool
  pauseEvent : Bool
  needFirstWait : Bool
  isCheckingEnabled : Bool
  resuming : Bool
  nodesPerEngine : Nat
  allEngines : List (Option ε)
  thread : Pc ε

inductive Event where
  | paused
  | resumed
  | waitBegan
  | waitEnded
  | checked (rolloutEngineId : Nat)
  | killed (index : Nat)
  deriving DecidableEq

/-- The controller's calls, and a step of the thread with the outcome of a remote call. -/
inductive Action where
  | pause
  | resumeBegin
  | resumeEnd
  | thread (outcome : Bool)

/-- `start`: the monitor is paused until it is resumed. -/
def start (nodesPerEngine : Nat) (allEngines : List (Option ε)) : State ε where
  stopEvent := false
  pauseEvent := true
  needFirstWait := true
  isCheckingEnabled := false
  resuming := false
  nodesPerEngine := nodesPerEngine
  allEngines := allEngines
  thread := .loop

/-- `enumerate(self._server_group.engines)`: the engines of node 0 with their numbers. -/
def State.engines (s : State ε) : List (Option ε × Nat) :=
  ((s.allEngines.zipIdx.filter fun engine => engine.2 % s.nodesPerEngine = 0).map Prod.fst).zipIdx

/-- The indices of `_kill_engine`. -/
def State.engineIndices (s : State ε) (rolloutEngineId : Nat) : List Nat :=
  List.range' (rolloutEngineId * s.nodesPerEngine) s.nodesPerEngine

def State.goto (s : State ε) (pc : Pc ε) : State ε := { s with thread := pc }

/-- One step of `_health_monitor_loop`, `_run_health_checks`, `_check_engine_health` or `_kill_engine`. A
wait ends when the stop event is set or the time is over. `outcome` says whether a check passes, and
whether the calls that kill an engine succeed. -/
def threadStep (s : State ε) (outcome : Bool) : Option (State ε × List Event) :=
  match s.thread with
  | .loop => some (s.goto (if s.stopEvent then .done else .pausedLoop), [])
  | .pausedLoop => some (s.goto (if s.pauseEvent then .pausedLoopStop else .afterPaused), [])
  | .pausedLoopStop => some (s.goto (if s.stopEvent then .afterPaused else .pausedWait), [])
  | .pausedWait => some (s.goto .pausedLoop, [])
  | .afterPaused => some (s.goto (if s.stopEvent then .done else .needTest), [])
  | .needTest => some (s.goto (if s.needFirstWait then .beginWait else .roundPause), [])
  | .beginWait => some (s.goto .firstWait, [.waitBegan])
  | .firstWait => if s.stopEvent then some (s.goto .done, []) else some (s.goto .pausedDuring, [.waitEnded])
  | .pausedDuring => some (s.goto (if s.pauseEvent then .loop else .clearNeed), [])
  | .clearNeed => some ({ s with needFirstWait := false }.goto .roundPause, [])
  | .roundPause => some (s.goto (if s.pauseEvent then .intervalWait else .roundStop), [])
  | .roundStop => some (s.goto (if s.stopEvent then .intervalWait else .enumerate), [])
  | .enumerate => some (s.goto (.engineLoop s.engines), [])
  | .engineLoop [] => some (s.goto .intervalWait, [])
  | .engineLoop (engine :: rest) => some (s.goto (if s.stopEvent then .intervalWait else .enginePause engine rest), [])
  | .enginePause engine rest => some (s.goto (if s.pauseEvent then .intervalWait else .checkEngine engine rest), [])
  | .checkEngine (none, _) rest => some (s.goto (.engineLoop rest), [])
  | .checkEngine (some _, rolloutEngineId) rest => some (s.goto (.awaiting rolloutEngineId rest), [.checked rolloutEngineId])
  | .awaiting rolloutEngineId rest =>
    some (s.goto (if outcome then .engineLoop rest else .killing (s.engineIndices rolloutEngineId) rest), [])
  | .killing [] rest => some (s.goto (.engineLoop rest), [])
  | .killing (i :: indices) rest =>
    match s.allEngines[i]? with
    -- the index error ends the thread
    | none => some (s.goto .done, [])
    | some engine =>
      some ({ s with allEngines := s.allEngines.set i none }.goto (.killing indices rest),
        if engine.isSome && outcome then [.killed i] else [])
  | .intervalWait => some (s.goto (if s.stopEvent then .done else .loop), [])
  | .done => none

/-- A step of the controller or of the thread. The controller makes one call at a time. -/
def step (s : State ε) : Action → Option (State ε × List Event)
  | .pause => if s.resuming then none else some ({ s with pauseEvent := true, isCheckingEnabled := false }, [.paused])
  | .resumeBegin => if s.resuming then none else some ({ s with needFirstWait := true, resuming := true }, [])
  | .resumeEnd =>
    if s.resuming then
      some ({ s with pauseEvent := false, isCheckingEnabled := true, resuming := false }, [.resumed])
    else none
  | .thread outcome => threadStep s outcome

/-! ## What a pause and a resume promise -/

/-- The last call of the controller that returned is `pause`. -/
def IsPaused : List Event → Prop := Since (fun e _ => e = .paused) (· ≠ .resumed)

/-- A first wait has begun after the last resume. -/
def Began : List Event → Prop := Since (fun e _ => e = .waitBegan) (· ≠ .resumed)

/-- A first wait that began after the last resume has passed in full. -/
def Waited : List Event → Prop := Since (fun e h => e = .waitEnded ∧ Began h) (· ≠ .resumed)

/-- No engine is killed between a pause and the next resume. -/
def Quiet : List Event → Prop := AtEach (fun e => ∃ i, e = .killed i) fun h => ¬IsPaused h

/-- After a resume no check is issued before a full first wait. -/
def Patient : List Event → Prop := AtEach (fun e => ∃ i, e = .checked i) fun h => .resumed ∈ h → Waited h

/-- The thread issues no check before it tests again whether it needs a first wait. -/
def Pc.Settled : Pc ε → Prop
  | .loop | .pausedLoop | .pausedLoopStop | .pausedWait | .afterPaused | .needTest | .beginWait | .intervalWait | .done =>
    True
  | .engineLoop rest | .awaiting _ rest | .killing _ rest => ∀ engine ∈ rest, engine.1 = none
  | .enginePause engine rest | .checkEngine engine rest => engine.1 = none ∧ ∀ engine ∈ rest, engine.1 = none
  | .firstWait | .pausedDuring | .clearNeed | .roundPause | .roundStop | .enumerate => False

/-- The thread waits for the result of a check. -/
def Pc.Awaiting : Pc ε → Prop
  | .awaiting _ _ => True
  | _ => False

/-- The thread is killing an engine. -/
def Pc.Killing : Pc ε → Prop
  | .killing _ _ => True
  | _ => False

/-- The steps that do not go wrong: `pause` is not called while an engine is being killed, no check
fails between a pause and a resume, and when `resume` returns the thread is yet to test the flag, which
is still set. -/
def Careful (s : State ε) : Action → Prop
  | .pause => ¬s.thread.Killing
  | .resumeBegin => True
  | .resumeEnd => s.thread.Settled ∧ s.needFirstWait = true
  | .thread outcome => s.thread.Awaiting → outcome = false → s.pauseEvent = false

instance (pc : Pc ε) : Decidable pc.Settled := by
  cases pc <;> unfold Pc.Settled <;> infer_instance

instance (pc : Pc ε) : Decidable pc.Awaiting := by
  cases pc <;> unfold Pc.Awaiting <;> infer_instance

instance (pc : Pc ε) : Decidable pc.Killing := by
  cases pc <;> unfold Pc.Killing <;> infer_instance

instance (s : State ε) (a : Action) : Decidable (Careful s a) := by
  cases a <;> unfold Careful <;> infer_instance

/-! ## The invariant -/

/-- A check that is issued now is issued after a full first wait. -/
def Ready (h : List Event) : Prop := .resumed ∈ h → Waited h

/-- What the history has where the thread is: a thread that may issue a check has waited since the last
resume, or it will test the flag first. -/
def Phase (s : State ε) (h : List Event) : Prop :=
  match s.thread with
  | .beginWait => s.needFirstWait = true
  | .firstWait => s.needFirstWait = true ∧ Began h
  | .pausedDuring | .clearNeed => s.needFirstWait = true ∧ Waited h
  | pc => Ready h ∨ pc.Settled ∧ s.needFirstWait = true

structure Inv (s : State ε) (h : List Event) : Prop where
  quiet : Quiet h
  patient : Patient h
  paused : IsPaused h → s.pauseEvent = true
  killing : s.thread.Killing → s.pauseEvent = false
  phase : Phase s h

variable {s s' : State ε} {h events : List Event} {outcome : Bool} {pc pc' : Pc ε}

theorem inv_start (nodesPerEngine : Nat) (allEngines : List (Option ε)) : Inv (start nodesPerEngine allEngines) [] where
  quiet := trivial
  patient := trivial
  paused := False.elim
  killing := False.elim
  phase := .inr ⟨trivial, rfl⟩

/-- Once waited, waited until the next resume. -/
theorem Ready.append (others : .resumed ∉ events) (ready : Ready h) : Ready (events ++ h) := by
  intro mem
  have since := ready ((List.mem_append.1 mem).resolve_left others)
  exact since_keep (fun e here same => others (same ▸ here)) since

theorem isPaused_append (others : .paused ∉ events) (paused : IsPaused (events ++ h)) : IsPaused h := by
  induction events with
  | nil => exact paused
  | cons e events ih =>
    rcases paused with rfl | ⟨_, paused⟩
    · exact absurd (List.mem_cons_self ..) others
    · exact ih (fun mem => others (List.mem_cons_of_mem _ mem)) paused

/-- A step of the thread that emits nothing. -/
theorem Inv.goto (inv : Inv s h) (phase : Phase (s.goto pc) h) (calm : pc.Killing → s.pauseEvent = false) :
    Inv (s.goto pc) h where
  quiet := inv.quiet
  patient := inv.patient
  paused := inv.paused
  killing := calm
  phase := phase

theorem Inv.branch {test : Bool} (yes : test = true → Inv (s.goto pc) h) (no : test = false → Inv (s.goto pc') h) :
    Inv (s.goto (if test then pc else pc')) h := by
  cases test with
  | true => exact yes rfl
  | false => exact no rfl

/-- **A step of the thread keeps the invariant, if no check fails while the monitor is paused.** -/
theorem inv_thread (inv : Inv s h) (careful : Careful s (.thread outcome))
    (run : threadStep s outcome = some (s', events)) : Inv s' (events ++ h) := by
  have phase := inv.phase
  unfold Phase at phase
  unfold threadStep at run
  cases thread : s.thread with
  | loop =>
    rw [thread] at run phase
    cases run
    exact .branch (fun _ => inv.goto phase False.elim) (fun _ => inv.goto phase False.elim)
  | pausedLoop =>
    rw [thread] at run phase
    cases run
    exact .branch (fun _ => inv.goto phase False.elim) (fun _ => inv.goto phase False.elim)
  | pausedLoopStop =>
    rw [thread] at run phase
    cases run
    exact .branch (fun _ => inv.goto phase False.elim) (fun _ => inv.goto phase False.elim)
  | pausedWait =>
    rw [thread] at run phase
    cases run
    exact inv.goto phase False.elim
  | afterPaused =>
    rw [thread] at run phase
    cases run
    exact .branch (fun _ => inv.goto phase False.elim) (fun _ => inv.goto phase False.elim)
  | needTest =>
    rw [thread] at run phase
    cases run
    refine .branch (fun need => inv.goto need False.elim) (fun waived => inv.goto (.inl ?_) False.elim)
    rcases phase with ready | ⟨-, need⟩
    · exact ready
    · exact absurd (need.symm.trans waived) Bool.noConfusion
  | beginWait =>
    rw [thread] at run phase
    cases run
    exact {
      quiet := ⟨fun ⟨_, same⟩ => Event.noConfusion same, inv.quiet⟩
      patient := ⟨fun ⟨_, same⟩ => Event.noConfusion same, inv.patient⟩
      paused := fun paused => inv.paused (isPaused_append (by simp) paused)
      killing := False.elim
      phase := ⟨phase, .inl rfl⟩ }
  | firstWait =>
    rw [thread] at run phase
    dsimp only at run
    split at run
    · cases run
      exact inv.goto (.inr ⟨trivial, phase.1⟩) False.elim
    · cases run
      exact {
        quiet := ⟨fun ⟨_, same⟩ => Event.noConfusion same, inv.quiet⟩
        patient := ⟨fun ⟨_, same⟩ => Event.noConfusion same, inv.patient⟩
        paused := fun paused => inv.paused (isPaused_append (by simp) paused)
        killing := False.elim
        phase := ⟨phase.1, .inl ⟨rfl, phase.2⟩⟩ }
  | pausedDuring =>
    rw [thread] at run phase
    cases run
    exact .branch (fun _ => inv.goto (.inr ⟨trivial, phase.1⟩) False.elim) (fun _ => inv.goto phase False.elim)
  | clearNeed =>
    rw [thread] at run phase
    cases run
    exact ⟨inv.quiet, inv.patient, inv.paused, False.elim, .inl fun _ => phase.2⟩
  | roundPause =>
    rw [thread] at run phase
    cases run
    have ready : Ready h := phase.resolve_right fun settled => settled.1
    exact .branch (fun _ => inv.goto (.inl ready) False.elim) (fun _ => inv.goto (.inl ready) False.elim)
  | roundStop =>
    rw [thread] at run phase
    cases run
    have ready : Ready h := phase.resolve_right fun settled => settled.1
    exact .branch (fun _ => inv.goto (.inl ready) False.elim) (fun _ => inv.goto (.inl ready) False.elim)
  | enumerate =>
    rw [thread] at run phase
    cases run
    have ready : Ready h := phase.resolve_right fun settled => settled.1
    exact inv.goto (.inl ready) False.elim
  | engineLoop rest =>
    rw [thread] at run phase
    cases rest with
    | nil =>
      cases run
      exact inv.goto (phase.imp_right fun settled => ⟨trivial, settled.2⟩) False.elim
    | cons engine rest =>
      cases run
      refine .branch (fun _ => inv.goto (phase.imp_right fun settled => ⟨trivial, settled.2⟩) False.elim)
        (fun _ => inv.goto (phase.imp_right fun settled => ⟨?_, settled.2⟩) False.elim)
      exact List.forall_mem_cons.1 settled.1
  | enginePause engine rest =>
    rw [thread] at run phase
    cases run
    exact .branch (fun _ => inv.goto (phase.imp_right fun settled => ⟨trivial, settled.2⟩) False.elim)
      (fun _ => inv.goto phase False.elim)
  | checkEngine engine rest =>
    rw [thread] at run phase
    obtain ⟨engine, id⟩ := engine
    cases engine with
    | none =>
      cases run
      exact inv.goto (phase.imp_right fun settled => ⟨settled.1.2, settled.2⟩) False.elim
    | some engine =>
      cases run
      have ready : Ready h := phase.resolve_right fun settled => Option.some_ne_none engine settled.1.1
      exact {
        quiet := ⟨fun ⟨_, same⟩ => Event.noConfusion same, inv.quiet⟩
        patient := ⟨fun _ => ready, inv.patient⟩
        paused := fun paused => inv.paused (isPaused_append (by simp) paused)
        killing := False.elim
        phase := .inl (ready.append (by simp)) }
  | awaiting id rest =>
    rw [thread] at run phase
    cases run
    rw [Careful, thread] at careful
    exact .branch (fun _ => inv.goto phase False.elim) (fun failed => inv.goto phase fun _ => careful trivial failed)
  | killing indices rest =>
    have running := inv.killing
    rw [thread] at run phase running
    cases indices with
    | nil =>
      cases run
      exact inv.goto phase False.elim
    | cons i indices =>
      dsimp only at run
      split at run
      · cases run
        exact inv.goto (phase.imp_right fun settled => ⟨trivial, settled.2⟩) False.elim
      · cases run
        have free : s.pauseEvent = false := running trivial
        have unpaused : ¬IsPaused h := fun paused => Bool.noConfusion (free.symm.trans (inv.paused paused))
        split
        · exact {
            quiet := ⟨fun _ => unpaused, inv.quiet⟩
            patient := ⟨fun ⟨_, same⟩ => Event.noConfusion same, inv.patient⟩
            paused := fun paused => absurd (isPaused_append (by simp) paused) unpaused
            killing := fun _ => free
            phase := phase.imp_left fun ready => ready.append (by simp) }
        · exact ⟨inv.quiet, inv.patient, inv.paused, fun _ => free, phase⟩
  | intervalWait =>
    rw [thread] at run phase
    cases run
    exact .branch (fun _ => inv.goto phase False.elim) (fun _ => inv.goto phase False.elim)
  | done =>
    rw [thread] at run
    cases run

/-- A call of the controller keeps what the history has where the thread is, up to the resume. -/
theorem Phase.controller (phase : Phase s h) (same : s'.thread = s.thread)
    (need : s.needFirstWait = true → s'.needFirstWait = true) (others : .resumed ∉ events) : Phase s' (events ++ h) := by
  have kept : ∀ e ∈ events, e ≠ .resumed := fun e mem same => others (same ▸ mem)
  unfold Phase at phase ⊢
  rw [same]
  split at phase
  · exact need phase
  · exact ⟨need phase.1, since_keep kept phase.2⟩
  · exact ⟨need phase.1, since_keep kept phase.2⟩
  · exact ⟨need phase.1, since_keep kept phase.2⟩
  · exact phase.imp (fun ready => ready.append others) fun settled => ⟨settled.1, need settled.2⟩

/-- Where the thread will test the flag, a set flag is enough. -/
theorem phase_of_settled (settled : s.thread.Settled) (need : s.needFirstWait = true) : Phase s h := by
  unfold Phase
  cases thread : s.thread with
  | beginWait => exact need
  | firstWait | pausedDuring | clearNeed =>
    rw [thread] at settled
    exact settled.elim
  | _ => exact .inr ⟨thread ▸ settled, need⟩

theorem inv_step (inv : Inv s h) {a : Action} (careful : Careful s a) (run : step s a = some (s', events)) :
    Inv s' (events ++ h) := by
  cases a with
  | pause =>
    unfold step at run
    dsimp only at run
    split at run
    · cases run
    · cases run
      exact {
        quiet := ⟨fun ⟨_, same⟩ => Event.noConfusion same, inv.quiet⟩
        patient := ⟨fun ⟨_, same⟩ => Event.noConfusion same, inv.patient⟩
        paused := fun _ => rfl
        killing := fun killing => absurd killing careful
        phase := inv.phase.controller rfl id (by simp) }
  | resumeBegin =>
    unfold step at run
    dsimp only at run
    split at run
    · cases run
    · cases run
      exact ⟨inv.quiet, inv.patient, inv.paused, inv.killing, inv.phase.controller rfl (fun _ => rfl) (by simp)⟩
  | resumeEnd =>
    unfold step at run
    dsimp only at run
    split at run
    · cases run
      exact {
        quiet := ⟨fun ⟨_, same⟩ => Event.noConfusion same, inv.quiet⟩
        patient := ⟨fun ⟨_, same⟩ => Event.noConfusion same, inv.patient⟩
        paused := fun paused => by
          rcases paused with same | ⟨other, _⟩
          · cases same
          · exact absurd rfl other
        killing := fun _ => rfl
        phase := phase_of_settled careful.1 careful.2 }
    · cases run
  | thread outcome => exact inv_thread inv careful run

/-- The states a monitor starts in. -/
def Starts (s : State ε) : Prop := ∃ nodesPerEngine allEngines, s = start nodesPerEngine allEngines

theorem inv_reach (reach : Reach Starts step Careful s h) : Inv s h := by
  refine reach.invariant ?_ fun s h a s' events inv careful run => inv_step inv careful run
  rintro s ⟨nodesPerEngine, allEngines, rfl⟩
  exact inv_start nodesPerEngine allEngines

/-- **In every run of careful steps the monitor kills nothing while it is paused, and it checks nothing
after a resume before it has waited.** -/
theorem monitor_honours_pause (reach : Reach Starts step Careful s h) : Quiet h ∧ Patient h :=
  ⟨(inv_reach reach).quiet, (inv_reach reach).patient⟩

/-- The calls of a run in which the thread comes to wait for a check of the first engine. -/
def toCheck : List Action := [.resumeBegin, .resumeEnd] ++ List.replicate 14 (.thread true)

/-- A resume, a first wait and a check that fails. -/
theorem monitor_honours_pause_failed :
    Quiet [.killed 0, .checked 0, .waitEnded, .waitBegan, .resumed] ∧
      Patient [.killed 0, .checked 0, .waitEnded, .waitBegan, .resumed] := by
  have begun : Reach Starts step Careful (start 1 [some ()]) [] := .start ⟨1, [some ()], rfl⟩
  have along : Along step Careful (start 1 [some ()]) (toCheck ++ [.thread false, .thread true]) := by decide
  exact monitor_honours_pause (reach_of_run begun along rfl)

/-- A check that fails after a pause kills the engine, and a resume during a first wait is not waited for. -/
theorem pause_not_honoured :
    (∃ (s : State Unit) (h : List Event), Reach Starts step (fun _ _ => True) s h ∧ ¬Quiet h) ∧
      ∃ (s : State Unit) (h : List Event), Reach Starts step (fun _ _ => True) s h ∧ ¬Patient h := by
  have begun : Reach Starts step (fun _ _ => True) (start 1 [some ()]) [] := .start ⟨1, [some ()], rfl⟩
  constructor
  · have runs : (run step (start 1 [some ()]) [] (toCheck ++ [.pause, .thread false, .thread true])).map Prod.snd =
      some [.killed 0, .paused, .checked 0, .waitEnded, .waitBegan, .resumed] := rfl
    obtain ⟨⟨s, h⟩, runs, rfl⟩ := Option.map_eq_some_iff.1 runs
    exact ⟨s, _, reach_of_run begun (along_true _ _) runs, fun quiet => quiet.1 ⟨0, rfl⟩ (.inl rfl)⟩
  · have runs : (run step (start 1 [some ()]) [] ([.resumeBegin, .resumeEnd] ++ List.replicate 5 (.thread true) ++
        [.resumeBegin, .resumeEnd] ++ List.replicate 9 (.thread true))).map Prod.snd =
      some [.checked 0, .waitEnded, .resumed, .waitBegan, .resumed] := rfl
    obtain ⟨⟨s, h⟩, runs, rfl⟩ := Option.map_eq_some_iff.1 runs
    refine ⟨s, _, reach_of_run begun (along_true _ _) runs, fun patient => ?_⟩
    have waited := patient.1 ⟨0, rfl⟩ (by simp)
    simp [Waited, Began, Since] at waited

end SlimeBoard.HealthMonitor
