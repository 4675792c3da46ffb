import Mathlib

/-!
# Ranks that call remote workers

Ranks run their programs side by side. A rank issues calls to workers, waits for the calls it
has issued, and meets other ranks at points of its program. A worker runs the calls of a rank in
the order in which they were issued, at any time.
-/

namespace Fleet

variable {ρ ε γ : Type}

/-- An instruction of the program of a rank. -/
inductive Instr (ρ ε γ : Type) where
  | issue (calls : List (ε × γ))
  | get
  | sync (members : List ρ)

inductive Kind where
  | issued
  | done
  deriving DecidableEq, Repr

structure Event (ρ ε γ : Type) where
  kind : Kind
  rank : ρ
  worker : ε
  call : γ
  deriving DecidableEq

/-- How far each rank is in its program, its calls that are not done, and what happened. -/
structure State (ρ ε γ : Type) where
  pc : ρ → Nat
  flight : ρ → List (ε × γ)
  log : List (Event ρ ε γ)

def start : State ρ ε γ := ⟨fun _ => 0, fun _ => [], []⟩

def issuedEvents (r : ρ) (calls : List (ε × γ)) : List (Event ρ ε γ) := calls.map fun call => ⟨.issued, r, call.1, call.2⟩

variable [DecidableEq ρ]

inductive Step (program : ρ → List (Instr ρ ε γ)) : State ρ ε γ → State ρ ε γ → Prop where
  | issue (s : State ρ ε γ) (r : ρ) (calls : List (ε × γ)) (here : (program r)[s.pc r]? = some (.issue calls)) :
      Step program s
        ⟨Function.update s.pc r (s.pc r + 1), Function.update s.flight r (s.flight r ++ calls), s.log ++ issuedEvents r calls⟩
  | get (s : State ρ ε γ) (r : ρ) (here : (program r)[s.pc r]? = some .get) (none : s.flight r = []) :
      Step program s ⟨Function.update s.pc r (s.pc r + 1), s.flight, s.log⟩
  | sync (s : State ρ ε γ) (r : ρ) (members : List ρ) (here : (program r)[s.pc r]? = some (.sync members))
      (met : ∀ m ∈ members, s.pc r ≤ s.pc m) : Step program s ⟨Function.update s.pc r (s.pc r + 1), s.flight, s.log⟩
  | run (s : State ρ ε γ) (r : ρ) (front back : List (ε × γ)) (e : ε) (c : γ) (here : s.flight r = front ++ (e, c) :: back)
      (first : ∀ call ∈ front, call.1 ≠ e) :
      Step program s ⟨s.pc, Function.update s.flight r (front ++ back), s.log ++ [⟨.done, r, e, c⟩]⟩

/-- The states that the ranks reach. -/
abbrev Reaches (program : ρ → List (Instr ρ ε γ)) : State ρ ε γ → State ρ ε γ → Prop := Relation.ReflTransGen (Step program)

/-- The calls of an instruction. -/
def Instr.calls : Instr ρ ε γ → List (ε × γ)
  | .issue calls => calls
  | _ => []

/-- The calls of the first `k` instructions of a rank. -/
def sent (program : ρ → List (Instr ρ ε γ)) (r : ρ) (k : Nat) : List (ε × γ) := ((program r).take k).flatMap Instr.calls

variable [DecidableEq ε]

/-- The calls to a worker. -/
def toWorker (e : ε) (calls : List (ε × γ)) : List γ := (calls.filter fun call => decide (call.1 = e)).map Prod.snd

/-- The calls of rank `r` to worker `e` that are done. -/
def doneBy (r : ρ) (e : ε) (log : List (Event ρ ε γ)) : List γ :=
  (log.filter fun ev => decide (ev.kind = .done ∧ ev.rank = r ∧ ev.worker = e)).map Event.call

omit [DecidableEq ρ] in
theorem toWorker_append (e : ε) (calls more : List (ε × γ)) : toWorker e (calls ++ more) = toWorker e calls ++ toWorker e more := by
  rw [toWorker, List.filter_append, List.map_append, toWorker, toWorker]

omit [DecidableEq ρ] in
theorem mem_toWorker {e : ε} {c : γ} {calls : List (ε × γ)} : c ∈ toWorker e calls ↔ (e, c) ∈ calls := by
  unfold toWorker
  constructor
  · intro mem
    obtain ⟨⟨e', c'⟩, kept, rfl⟩ := List.mem_map.1 mem
    obtain ⟨here, same⟩ := List.mem_filter.1 kept
    obtain rfl := of_decide_eq_true same
    exact here
  · exact fun mem => List.mem_map.2 ⟨_, List.mem_filter.2 ⟨mem, decide_eq_true rfl⟩, rfl⟩

theorem doneBy_append (r : ρ) (e : ε) (log more : List (Event ρ ε γ)) :
    doneBy r e (log ++ more) = doneBy r e log ++ doneBy r e more := by
  rw [doneBy, List.filter_append, List.map_append, doneBy, doneBy]

theorem mem_doneBy {r : ρ} {e : ε} {c : γ} {log : List (Event ρ ε γ)} : c ∈ doneBy r e log ↔ ⟨.done, r, e, c⟩ ∈ log := by
  unfold doneBy
  constructor
  · intro mem
    obtain ⟨⟨kind, r', e', c'⟩, kept, rfl⟩ := List.mem_map.1 mem
    obtain ⟨here, same⟩ := List.mem_filter.1 kept
    obtain ⟨rfl, rfl, rfl⟩ := of_decide_eq_true same
    exact here
  · exact fun mem => List.mem_map.2 ⟨_, List.mem_filter.2 ⟨mem, decide_eq_true ⟨rfl, rfl, rfl⟩⟩, rfl⟩

theorem doneBy_issuedEvents (r r' : ρ) (e : ε) (calls : List (ε × γ)) : doneBy r e (issuedEvents r' calls) = [] := by
  refine List.map_eq_nil_iff.2 (List.filter_eq_nil_iff.2 fun ev mem done => ?_)
  obtain ⟨call, _, rfl⟩ := List.mem_map.1 mem
  cases (of_decide_eq_true done).1

omit [DecidableEq ρ] [DecidableEq ε] in
theorem sent_succ {program : ρ → List (Instr ρ ε γ)} {r : ρ} {k : Nat} {instr : Instr ρ ε γ} (here : (program r)[k]? = some instr) :
    sent program r (k + 1) = sent program r k ++ instr.calls := by
  rw [sent, List.take_add_one, here, List.flatMap_append, sent]
  simp only [Option.toList_some, List.flatMap_cons, List.flatMap_nil, List.append_nil]

section Split

variable {program : ρ → List (Instr ρ ε γ)} {r : ρ} {left right : List (Instr ρ ε γ)} {instr : Instr ρ ε γ}

omit [DecidableEq ρ] [DecidableEq ε] in
theorem getElem?_split (split : program r = left ++ instr :: right) : (program r)[left.length]? = some instr := by
  rw [split, List.getElem?_append_right (Nat.le_refl _), Nat.sub_self, List.getElem?_cons_zero]

omit [DecidableEq ρ] [DecidableEq ε] in
theorem sent_split (split : program r = left ++ right) : sent program r left.length = left.flatMap Instr.calls := by
  rw [sent, split, List.take_left]

omit [DecidableEq ρ] [DecidableEq ε] in
/-- What is not before a point is after it. -/
theorem lt_of_split (split : program r = left ++ instr :: right) {k : Nat} {other : Instr ρ ε γ}
    (here : (program r)[k]? = some other) (absent : other ∉ left) (differ : other ≠ instr) : left.length < k := by
  by_contra early
  rcases Nat.lt_or_eq_of_le (Nat.le_of_not_lt early) with before | rfl
  · rw [split, List.getElem?_append_left before] at here
    exact absent (List.mem_of_getElem? here)
  · rw [getElem?_split split] at here
    exact differ (Option.some.inj here).symm

end Split

/-- What holds in every state reached. -/
structure Holds (program : ρ → List (Instr ρ ε γ)) (s : State ρ ε γ) : Prop where
  fifo : ∀ r e, doneBy r e s.log ++ toWorker e (s.flight r) = toWorker e (sent program r (s.pc r))
  got : ∀ r k, k < s.pc r → (program r)[k]? = some .get → ∀ e, toWorker e (sent program r k) <+: doneBy r e s.log
  met : ∀ r k, k < s.pc r → ∀ members, (program r)[k]? = some (.sync members) → ∀ m ∈ members, k ≤ s.pc m
  called : ∀ ev ∈ s.log, ∃ k calls, k < s.pc ev.rank ∧ (program ev.rank)[k]? = some (.issue calls) ∧ (ev.worker, ev.call) ∈ calls
  flying : ∀ r, ∀ call ∈ s.flight r, ∃ k calls, k < s.pc r ∧ (program r)[k]? = some (.issue calls) ∧ call ∈ calls

variable {program : ρ → List (Instr ρ ε γ)} {s s' : State ρ ε γ}

omit [DecidableEq ε] in
theorem lt_update {pc : ρ → Nat} {r r' : ρ} {k : Nat} :
    k < Function.update pc r (pc r + 1) r' ↔ k < pc r' ∨ r' = r ∧ k = pc r := by
  by_cases same : r' = r
  · subst same
    rw [Function.update_self, eq_self, true_and]
    omega
  · rw [Function.update_of_ne same]
    simp [same]

omit [DecidableEq ε] in
theorem le_update {pc : ρ → Nat} (r m : ρ) : pc m ≤ Function.update pc r (pc r + 1) m := by
  by_cases same : m = r
  · subst same
    rw [Function.update_self]
    omega
  · rw [Function.update_of_ne same]

theorem holds_start : Holds program start where
  fifo := fun _ _ => rfl
  got := fun _ _ lt => (nomatch lt)
  met := fun _ _ lt => (nomatch lt)
  called := fun _ mem => (nomatch mem)
  flying := fun _ _ mem => (nomatch mem)

/-- A rank goes on without a call. -/
theorem Holds.advance (holds : Holds program s) (r : ρ) {instr : Instr ρ ε γ} (here : (program r)[s.pc r]? = some instr)
    (silent : instr.calls = []) (got : instr = .get → s.flight r = [])
    (met : ∀ members, instr = .sync members → ∀ m ∈ members, s.pc r ≤ s.pc m) :
    Holds program ⟨Function.update s.pc r (s.pc r + 1), s.flight, s.log⟩ where
  fifo := fun r' e => by
    by_cases same : r' = r
    · subst same
      dsimp only
      rw [Function.update_self, sent_succ here, silent, List.append_nil, holds.fifo]
    · dsimp only
      rw [Function.update_of_ne same, holds.fifo]
  got := fun r' k lt isGet e => by
    rcases lt_update.1 lt with early | ⟨rfl, rfl⟩
    · exact holds.got r' k early isGet e
    · have none := got (Option.some.inj (here.symm.trans isGet))
      have all := holds.fifo r' e
      rw [none] at all
      rw [← all, toWorker, List.filter_nil, List.map_nil, List.append_nil]
  met := fun r' k lt members isSync m mem => by
    refine Nat.le_trans ?_ (le_update r m)
    rcases lt_update.1 lt with early | ⟨rfl, rfl⟩
    · exact holds.met r' k early members isSync m mem
    · exact met members (Option.some.inj (here.symm.trans isSync)) m mem
  called := fun ev mem => by
    obtain ⟨k, calls, lt, rest⟩ := holds.called ev mem
    exact ⟨k, calls, lt_update.2 (Or.inl lt), rest⟩
  flying := fun r' call mem => by
    obtain ⟨k, calls, lt, rest⟩ := holds.flying r' call mem
    exact ⟨k, calls, lt_update.2 (Or.inl lt), rest⟩

theorem Holds.issue (holds : Holds program s) (r : ρ) {calls : List (ε × γ)} (here : (program r)[s.pc r]? = some (.issue calls)) :
    Holds program
      ⟨Function.update s.pc r (s.pc r + 1), Function.update s.flight r (s.flight r ++ calls), s.log ++ issuedEvents r calls⟩ where
  fifo := fun r' e => by
    dsimp only
    rw [doneBy_append, doneBy_issuedEvents, List.append_nil]
    by_cases same : r' = r
    · subst same
      rw [Function.update_self, Function.update_self, sent_succ here, toWorker_append, toWorker_append, ← List.append_assoc,
        holds.fifo]
      rfl
    · rw [Function.update_of_ne same, Function.update_of_ne same, holds.fifo]
  got := fun r' k lt isGet e => by
    dsimp only
    rw [doneBy_append, doneBy_issuedEvents, List.append_nil]
    rcases lt_update.1 lt with early | ⟨rfl, rfl⟩
    · exact holds.got r' k early isGet e
    · cases Option.some.inj (here.symm.trans isGet)
  met := fun r' k lt members isSync m mem => by
    refine Nat.le_trans ?_ (le_update r m)
    rcases lt_update.1 lt with early | ⟨rfl, rfl⟩
    · exact holds.met r' k early members isSync m mem
    · cases Option.some.inj (here.symm.trans isSync)
  called := fun ev mem => by
    rcases List.mem_append.1 mem with old | new
    · obtain ⟨k, calls, lt, rest⟩ := holds.called ev old
      exact ⟨k, calls, lt_update.2 (Or.inl lt), rest⟩
    · obtain ⟨call, inside, rfl⟩ := List.mem_map.1 new
      exact ⟨s.pc r, calls, lt_update.2 (Or.inr ⟨rfl, rfl⟩), here, inside⟩
  flying := fun r' call mem => by
    dsimp only at mem
    by_cases same : r' = r
    · subst same
      rw [Function.update_self] at mem
      rcases List.mem_append.1 mem with old | new
      · obtain ⟨k, calls, lt, rest⟩ := holds.flying r' call old
        exact ⟨k, calls, lt_update.2 (Or.inl lt), rest⟩
      · exact ⟨s.pc r', calls, lt_update.2 (Or.inr ⟨rfl, rfl⟩), here, new⟩
    · rw [Function.update_of_ne same] at mem
      obtain ⟨k, calls, lt, rest⟩ := holds.flying r' call mem
      exact ⟨k, calls, lt_update.2 (Or.inl lt), rest⟩

theorem doneBy_done (r r' : ρ) (e e' : ε) (c : γ) :
    doneBy r' e' [⟨.done, r, e, c⟩] = if r = r' ∧ e = e' then [c] else [] := by
  unfold doneBy
  split
  · rename_i same
    rw [List.filter_cons_of_pos (by simpa using same)]
    rfl
  · rename_i differ
    rw [List.filter_cons_of_neg (by simpa using differ)]
    rfl

theorem Holds.run (holds : Holds program s) (r : ρ) {front back : List (ε × γ)} {e : ε} {c : γ}
    (here : s.flight r = front ++ (e, c) :: back) (first : ∀ call ∈ front, call.1 ≠ e) :
    Holds program ⟨s.pc, Function.update s.flight r (front ++ back), s.log ++ [⟨.done, r, e, c⟩]⟩ where
  fifo := fun r' e' => by
    dsimp only
    rw [doneBy_append, doneBy_done, ← holds.fifo, List.append_assoc]
    congr 1
    by_cases same : r = r'
    · subst same
      rw [Function.update_self, here, List.append_cons, toWorker_append, toWorker_append, toWorker_append, List.append_assoc]
      by_cases mine : e = e'
      · subst mine
        have none : toWorker e front = [] := List.map_eq_nil_iff.2 (List.filter_eq_nil_iff.2 fun call mem eq =>
          first call mem (of_decide_eq_true eq))
        have one : toWorker e [(e, c)] = [c] := by simp [toWorker]
        rw [if_pos ⟨rfl, rfl⟩, none, one]
        rfl
      · have none : toWorker e' [(e, c)] = [] := by simp [toWorker, mine]
        rw [if_neg fun both => mine both.2, none]
        rfl
    · rw [if_neg fun both => same both.1, Function.update_of_ne (Ne.symm same), List.nil_append]
  got := fun r' k lt isGet e' => by
    dsimp only
    rw [doneBy_append]
    exact (holds.got r' k lt isGet e').trans (List.prefix_append ..)
  met := holds.met
  called := fun ev mem => by
    rcases List.mem_append.1 mem with old | new
    · exact holds.called ev old
    · obtain rfl := List.mem_singleton.1 new
      exact holds.flying r (e, c) (by rw [here]; exact List.mem_append_right _ (List.mem_cons_self ..))
  flying := fun r' call mem => by
    dsimp only at mem
    by_cases same : r' = r
    · subst same
      rw [Function.update_self] at mem
      refine holds.flying r' call ?_
      rw [here]
      exact (List.mem_append.1 mem).elim (List.mem_append_left _) fun late =>
        List.mem_append_right _ (List.mem_cons_of_mem _ late)
    · rw [Function.update_of_ne same] at mem
      exact holds.flying r' call mem

theorem Holds.step (holds : Holds program s) (step : Step program s s') : Holds program s' := by
  cases step with
  | issue r calls here => exact holds.issue r here
  | get r here none => exact holds.advance r here rfl (fun _ => none) fun members same => nomatch same
  | sync r members here met =>
    refine holds.advance r here rfl (fun same => nomatch same) fun others same => ?_
    obtain rfl := Instr.sync.inj same
    exact met
  | run r front back e c here first => exact holds.run r here first

theorem holds_of_reaches (run : Reaches program start s) : Holds program s := by
  induction run with
  | refl => exact holds_start
  | tail _ step ih => exact ih.step step

/-- **What every call finds done when its rank comes to it, every event of the run has before it.** -/
theorem preceded {Q : List (Event ρ ε γ) → ρ → ε → γ → Prop} (mono : ∀ log more r e c, Q log r e c → Q (log ++ more) r e c)
    (finds : ∀ s, Holds program s → ∀ r k calls, (program r)[k]? = some (.issue calls) → k ≤ s.pc r →
      ∀ call ∈ calls, Q s.log r call.1 call.2)
    (run : Reaches program start s) : ∀ front ev back, s.log = front ++ ev :: back → Q front ev.rank ev.worker ev.call := by
  have append {log : List (Event ρ ε γ)} (new : List (Event ρ ε γ))
      (old : ∀ front ev back, log = front ++ ev :: back → Q front ev.rank ev.worker ev.call)
      (each : ∀ ev ∈ new, Q log ev.rank ev.worker ev.call) :
      ∀ front ev back, log ++ new = front ++ ev :: back → Q front ev.rank ev.worker ev.call := fun front ev back split => by
    rcases List.append_eq_append_iff.1 split with ⟨more, rfl, rest⟩ | ⟨more, rfl, rest⟩
    · exact mono _ _ _ _ _ (each ev (rest ▸ List.mem_append_right _ (List.mem_cons_self ..)))
    · cases more with
      | nil =>
        rw [List.append_nil] at each
        exact each ev (by rw [← (List.nil_append new ▸ rest : ev :: back = new)]; exact List.mem_cons_self ..)
      | cons ev' more =>
        obtain ⟨rfl, _⟩ := List.cons.inj rest
        exact old front ev more rfl
  induction run with
  | refl => exact fun front ev back split => absurd split (by simp [start])
  | @tail s s' reached step ih =>
    have holds := holds_of_reaches reached
    cases step with
    | issue r calls here =>
      refine append _ ih fun ev mem => ?_
      obtain ⟨call, inside, rfl⟩ := List.mem_map.1 mem
      exact finds s holds r _ calls here (Nat.le_refl _) call inside
    | get r here none => exact ih
    | sync r members here met => exact ih
    | run r front back e c here first =>
      refine append _ ih fun ev mem => ?_
      obtain rfl := List.mem_singleton.1 mem
      obtain ⟨k, calls, lt, here, inside⟩ := holds.flying r (e, c) (here ▸ List.mem_append_right _ (List.mem_cons_self ..))
      exact finds s holds r k calls here (Nat.le_of_lt lt) (e, c) inside

/-! ## Playing a run -/

/-- What happens next: a rank goes on, or the first of its calls is done. -/
inductive Move (ρ : Type) where
  | advance (r : ρ)
  | run (r : ρ)

def move (program : ρ → List (Instr ρ ε γ)) (s : State ρ ε γ) : Move ρ → Option (State ρ ε γ)
  | .advance r =>
    match (program r)[s.pc r]? with
    | some (.issue calls) =>
      some ⟨Function.update s.pc r (s.pc r + 1), Function.update s.flight r (s.flight r ++ calls), s.log ++ issuedEvents r calls⟩
    | some .get => if (s.flight r).isEmpty then some ⟨Function.update s.pc r (s.pc r + 1), s.flight, s.log⟩ else none
    | some (.sync members) =>
      if ∀ m ∈ members, s.pc r ≤ s.pc m then some ⟨Function.update s.pc r (s.pc r + 1), s.flight, s.log⟩ else none
    | none => none
  | .run r =>
    match s.flight r with
    | call :: back => some ⟨s.pc, Function.update s.flight r back, s.log ++ [⟨.done, r, call.1, call.2⟩]⟩
    | [] => none

def play (program : ρ → List (Instr ρ ε γ)) : State ρ ε γ → List (Move ρ) → Option (State ρ ε γ)
  | s, [] => some s
  | s, m :: rest => (move program s m).bind fun s => play program s rest

omit [DecidableEq ε] in
theorem move_step {m : Move ρ} (moved : move program s m = some s') : Step program s s' := by
  cases m with
  | advance r =>
    rw [move] at moved
    split at moved
    · rename_i calls here
      exact Option.some.inj moved ▸ .issue s r calls here
    · rename_i here
      split at moved
      · rename_i none
        exact Option.some.inj moved ▸ .get s r here (List.isEmpty_iff.1 none)
      · cases moved
    · rename_i members here
      split at moved
      · rename_i met
        exact Option.some.inj moved ▸ .sync s r members here met
      · cases moved
    · cases moved
  | run r =>
    rw [move] at moved
    split at moved
    · rename_i call back here
      exact Option.some.inj moved ▸ .run s r [] back call.1 call.2 here fun _ mem => nomatch mem
    · cases moved

omit [DecidableEq ε] in
theorem play_reaches {moves : List (Move ρ)} (played : play program s moves = some s') : Reaches program s s' := by
  induction moves generalizing s with
  | nil => exact Option.some.inj played ▸ .refl
  | cons m rest ih =>
    obtain ⟨next, moved, rest⟩ := Option.bind_eq_some_iff.1 played
    exact .head (move_step moved) (ih rest)

end Fleet
