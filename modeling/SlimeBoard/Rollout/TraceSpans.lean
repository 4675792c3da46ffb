import SlimeBoard.Lib.Brackets

/-!
# Spans in the traces of samples

`trace_span` appends a start event to the trace of each of its handles, runs its body with the spans on
two context stacks, and appends the end events. The stacks are reset on every way out. The end events
are not written when the body is left by an exception that is no `Exception`, such as the cancellation
of a task, and a span that names one trace twice ends its spans in the wrong order.
-/

namespace SlimeBoard.TraceSpans

open Brackets

variable {κ τ : Type}

/-- A handle on a trace: the trace's id, the carrier whose list the events go to, and the parent that the
handle brings, if any. -/
structure TraceHandle (κ τ : Type) where
  traceId : τ
  carrier : κ
  parentSpanId : Option Nat

/-- What leaves a body: whether it is an `Exception`, and whether its `str` raises one. -/
structure Exc where
  isException : Bool
  strRaises : Bool

/-- An event of a trace. A start keeps the handle and the spans around it, for the statements. -/
inductive Event (κ τ : Type) where
  | spanStart (spanId : Nat) (handle : TraceHandle κ τ) (parentSpanId : Option Nat) (around : List (τ × Nat))
  | spanEnd (spanId : Nat)
  | event

/-- The number of the next span id, the two context stacks, and the events with their carriers in the
order in which they were written. -/
structure State (κ τ : Type) where
  nextSpanId : Nat
  stack : List (τ × Nat)
  handleStack : List (List (TraceHandle κ τ))
  log : List (κ × Event κ τ)

/-- What a span is opened on: handles, or those of the innermost span (`trace_function` without a target). -/
inductive Target (κ τ : Type) where
  | handles (hs : List (TraceHandle κ τ))
  | current

/-- Code that uses spans. -/
inductive Prog (κ τ : Type) where
  | skip
  | raise (e : Exc)
  | seq (first rest : Prog κ τ)
  | attempt (body : Prog κ τ) (catches : Exc → Bool) (handler : Prog κ τ)
  | event (target : Target κ τ)
  | span (target : Target κ τ) (recordError : Bool) (body : Prog κ τ)

def Target.resolve (current : List (TraceHandle κ τ)) : Target κ τ → List (TraceHandle κ τ)
  | .handles hs => hs
  | .current => current

/-- `_get_current_trace_target` -/
def State.current (s : State κ τ) : List (TraceHandle κ τ) := s.handleStack.getLast?.getD []

def State.append (s : State κ τ) (carrier : κ) (e : Event κ τ) : State κ τ := { s with log := s.log ++ [(carrier, e)] }

section Code

variable [DecidableEq τ]

/-- `_get_current_parent_span_id` -/
def currentParentSpanId (traceId : τ) (stack : List (τ × Nat)) : Option Nat :=
  (stack.reverse.find? (·.1 = traceId)).map Prod.snd

-- the carriers that `_append_event` cannot write to
variable (broken : κ → Bool)

/-- The start events of the handles, with their span ids, or `none` where one cannot be written. -/
def startSpans (stackBefore around : List (τ × Nat)) :
    List (TraceHandle κ τ) → State κ τ → State κ τ × Option (List (TraceHandle κ τ × Nat))
  | [], s => (s, some [])
  | handle :: handles, s =>
    let spanId := s.nextSpanId
    let parentSpanId := handle.parentSpanId.or (currentParentSpanId handle.traceId stackBefore)
    let s := { s with nextSpanId := spanId + 1 }
    if broken handle.carrier then (s, none)
    else
      let (s, records) := startSpans stackBefore around handles
        (s.append handle.carrier (.spanStart spanId handle parentSpanId around))
      (s, records.map ((handle, spanId) :: ·))

/-- `_record_span_end`, up to the first event that cannot be written. -/
def recordSpanEnd : List (TraceHandle κ τ × Nat) → State κ τ → State κ τ
  | [], s => s
  | (handle, spanId) :: records, s =>
    if broken handle.carrier then s else recordSpanEnd records (s.append handle.carrier (.spanEnd spanId))

/-- The end events, if the way out of the body writes them. -/
def endSpans (recordError : Bool) (records : List (TraceHandle κ τ × Nat)) (out : Option Exc) (s : State κ τ) : State κ τ :=
  match out with
  | none => recordSpanEnd broken records s
  | some e => if !e.isException || recordError && e.strRaises then s else recordSpanEnd broken records s

/-- The spans that the records open. -/
def entriesOf (records : List (TraceHandle κ τ × Nat)) : List (τ × Nat) := records.map fun r => (r.1.traceId, r.2)

/-- `trace_span` around a body, which gets the spans that were opened. -/
def traceSpan (around : List (τ × Nat)) (handles : List (TraceHandle κ τ)) (recordError : Bool)
    (body : List (τ × Nat) → State κ τ → State κ τ × Option Exc) (s : State κ τ) : State κ τ × Option Exc :=
  if handles = [] then body [] s
  else match startSpans broken s.stack around handles s with
    | (started, none) => body [] started
    | (started, some records) =>
      let (after, out) := body (entriesOf records)
        { started with stack := s.stack ++ entriesOf records, handleStack := s.handleStack ++ [handles] }
      ({ endSpans broken recordError records out after with stack := s.stack, handleStack := s.handleStack }, out)

/-- `trace_event`, up to the first event that cannot be written. -/
def traceEvent : List (TraceHandle κ τ) → State κ τ → State κ τ
  | [], s => s
  | handle :: handles, s => if broken handle.carrier then s else traceEvent handles (s.append handle.carrier .event)

/-- A run of the code, inside the spans `around`. -/
def exec (around : List (τ × Nat)) : Prog κ τ → State κ τ → State κ τ × Option Exc
  | .skip, s => (s, none)
  | .raise e, s => (s, some e)
  | .seq first rest, s =>
    match exec around first s with
    | (s, none) => exec around rest s
    | (s, some e) => (s, some e)
  | .attempt body catches handler, s =>
    match exec around body s with
    | (s, none) => (s, none)
    | (s, some e) => if catches e then exec around handler s else (s, some e)
  | .event target, s => (traceEvent broken (target.resolve s.current) s, none)
  | .span target recordError body, s =>
    traceSpan broken around (target.resolve s.current) recordError (fun opened s => exec (around ++ opened) body s) s

end Code

/-! ## The discipline -/

def Event.mark : Event κ τ → Mark Nat
  | .spanStart spanId _ _ _ => .start spanId
  | .spanEnd spanId => .stop spanId
  | .event => .other

section Discipline

variable [DecidableEq κ] [DecidableEq τ]

/-- The marks of the events of one trace. -/
def marksOf (k : κ) (events : List (κ × Event κ τ)) : List (Mark Nat) :=
  (events.filter (·.1 = k)).map (·.2.mark)

/-- The parent of a start is the one of the handle, else the innermost span around it in its trace. -/
def Event.WellParented : Event κ τ → Prop
  | .spanStart _ handle parentSpanId around =>
    parentSpanId = handle.parentSpanId.or (currentParentSpanId handle.traceId around)
  | _ => True

/-- The events `events` that a run adds are disciplined, and the stacks are back. -/
structure Disciplined (s s' : State κ τ) (events : List (κ × Event κ τ)) : Prop where
  log : s'.log = s.log ++ events
  stack : s'.stack = s.stack
  handleStack : s'.handleStack = s.handleStack
  parents : ∀ entry ∈ events, entry.2.WellParented
  ended : ∀ k spanId, .start spanId ∈ marksOf k events → (marksOf k events).count (.stop spanId) = 1
  bracketed : ∀ k, Bracketed (marksOf k events)

end Discipline

/-- How the code leaves. Tracing does not change it. -/
def Prog.outcome : Prog κ τ → Option Exc
  | .skip => none
  | .raise e => some e
  | .seq first rest =>
    match first.outcome with
    | none => rest.outcome
    | some e => some e
  | .attempt body catches handler =>
    match body.outcome with
    | none => none
    | some e => if catches e then handler.outcome else some e
  | .event _ => none
  | .span _ _ body => body.outcome

/-- Every span that is opened can write all its start events, names no trace twice, and is not left by an
exception that is no `Exception`, or whose text is recorded and raises. A span whose first event cannot
be written is not opened. -/
def Sound (broken : κ → Bool) : List (TraceHandle κ τ) → Prog κ τ → Prop
  | _, .skip | _, .raise _ | _, .event _ => True
  | current, .seq first rest => Sound broken current first ∧ (first.outcome = none → Sound broken current rest)
  | current, .attempt body catches handler =>
    Sound broken current body ∧ ∀ e, body.outcome = some e → catches e = true → Sound broken current handler
  | current, .span target recordError body =>
    match target.resolve current with
    | [] => Sound broken current body
    | handle :: handles =>
      if broken handle.carrier then Sound broken current body
      else (∀ h ∈ handles, broken h.carrier = false) ∧ ((handle :: handles).map TraceHandle.carrier).Nodup ∧
        (∀ e, body.outcome = some e → e.isException = true ∧ ¬(recordError = true ∧ e.strRaises = true)) ∧
        Sound broken (handle :: handles) body

/-! ## Fresh spans -/

variable {broken : κ → Bool} {events events' : List (κ × Event κ τ)} {lo mid hi : Nat}

/-- The events are about spans numbered from `lo` up to `hi`, each started at most once. -/
structure Fresh (lo hi : Nat) (events : List (κ × Event κ τ)) : Prop where
  le : lo ≤ hi
  within : ∀ entry ∈ events, ∀ spanId, entry.2.mark = .start spanId ∨ entry.2.mark = .stop spanId → lo ≤ spanId ∧ spanId < hi
  once : ∀ spanId, (events.map (·.2.mark)).count (.start spanId) ≤ 1

theorem Fresh.nil (le : lo ≤ hi) : Fresh lo hi ([] : List (κ × Event κ τ)) := ⟨le, by simp, by simp⟩

theorem Fresh.count_eq_zero (fresh : Fresh lo hi events) {spanId : Nat} (outside : spanId < lo ∨ hi ≤ spanId) :
    (events.map (·.2.mark)).count (.start spanId) = 0 := by
  rw [List.count_eq_zero]
  intro mem
  obtain ⟨entry, here, same⟩ := List.mem_map.1 mem
  have := fresh.within entry here spanId (.inl same)
  omega

theorem Fresh.append (fresh : Fresh lo mid events) (fresh' : Fresh mid hi events') : Fresh lo hi (events ++ events') where
  le := fresh.le.trans fresh'.le
  within := by
    intro entry mem spanId mark
    have le := fresh.le
    have le' := fresh'.le
    rcases List.mem_append.1 mem with early | late
    · have := fresh.within entry early spanId mark
      omega
    · have := fresh'.within entry late spanId mark
      omega
  once := by
    intro spanId
    rw [List.map_append, List.count_append]
    by_cases early : spanId < mid
    · rw [fresh'.count_eq_zero (.inl early)]
      exact fresh.once spanId
    · rw [fresh.count_eq_zero (.inr (by omega)), Nat.zero_add]
      exact fresh'.once spanId

theorem Fresh.mono (fresh : Fresh lo mid events) (le : mid ≤ hi) : Fresh lo hi events := by
  have all := fresh.append (Fresh.nil le)
  rwa [List.append_nil] at all

variable [DecidableEq κ]

theorem marksOf_append (k : κ) (events events' : List (κ × Event κ τ)) :
    marksOf k (events ++ events') = marksOf k events ++ marksOf k events' := by
  simp only [marksOf, List.filter_append, List.map_append]

theorem mem_marksOf {k : κ} {mark : Mark Nat} (mem : mark ∈ marksOf k events) : ∃ entry ∈ events, entry.2.mark = mark := by
  obtain ⟨entry, here, same⟩ := List.mem_map.1 mem
  exact ⟨entry, List.mem_of_mem_filter here, same⟩

/-- What events of fresh spans leave open is theirs. -/
theorem Fresh.left_within (fresh : Fresh lo hi events) {k : κ} {r : List Nat} (closed : close (marksOf k events) [] = some r)
    {spanId : Nat} (mem : spanId ∈ r) : lo ≤ spanId ∧ spanId < hi := by
  rcases mem_of_close closed mem with none | start
  · cases none
  · obtain ⟨entry, here, mark⟩ := mem_marksOf start
    exact fresh.within entry here spanId (.inl mark)

/-- Events of fresh spans do not close other spans. -/
theorem Fresh.close_frame (fresh : Fresh lo hi events) (k : κ) {below : List Nat} (outside : ∀ x ∈ below, x < lo ∨ hi ≤ x) :
    close (marksOf k events) below = (close (marksOf k events) []).map (· ++ below) := by
  refine Brackets.close_frame (fun x mem stop => ?_) []
  obtain ⟨entry, here, mark⟩ := mem_marksOf stop
  have := fresh.within entry here x (.inr mark)
  have := outside x mem
  omega

/-- **Two runs one after another are bracketed if and only if each is.** -/
theorem bracketed_append_iff (fresh : Fresh lo mid events) (fresh' : Fresh mid hi events') :
    (∀ k, Bracketed (marksOf k (events ++ events'))) ↔
      (∀ k, Bracketed (marksOf k events)) ∧ ∀ k, Bracketed (marksOf k events') := by
  rw [← forall_and]
  refine forall_congr' fun k => ?_
  unfold Bracketed
  rw [marksOf_append, close_append]
  constructor
  · intro closed
    obtain ⟨r, first, later⟩ := Option.bind_eq_some_iff.1 closed
    rw [fresh'.close_frame k fun x mem => .inl (fresh.left_within first mem).2] at later
    obtain ⟨r', rest, same⟩ := Option.map_eq_some_iff.1 later
    obtain ⟨rfl, rfl⟩ := List.append_eq_nil_iff.1 same
    exact ⟨first, rest⟩
  · rintro ⟨first, rest⟩
    rw [first]
    exact rest

/-! ## The events of one span -/

/-- The ids of the spans that the records open in a trace. -/
def idsOf (k : κ) (records : List (TraceHandle κ τ × Nat)) : List Nat :=
  (records.filter (·.1.carrier = k)).map Prod.snd

/-- The end events of records. -/
def endEvents (records : List (TraceHandle κ τ × Nat)) : List (κ × Event κ τ) :=
  records.map fun r => (r.1.carrier, .spanEnd r.2)

theorem marksOf_endEvents (k : κ) (records : List (TraceHandle κ τ × Nat)) :
    marksOf k (endEvents records) = (idsOf k records).map .stop := by
  simp only [marksOf, endEvents, idsOf, List.filter_map, List.map_map]
  rfl

omit [DecidableEq κ] in
theorem endEvents_within (handles : List (TraceHandle κ τ)) {n : Nat} (above : lo ≤ n) (below : n + handles.length ≤ hi) :
    ∀ entry ∈ endEvents (handles.zipIdx n), ∀ spanId, entry.2.mark = .start spanId ∨ entry.2.mark = .stop spanId →
      lo ≤ spanId ∧ spanId < hi := by
  intro entry mem spanId mark
  obtain ⟨⟨handle, i⟩, here, rfl⟩ := List.mem_map.1 mem
  obtain rfl : i = spanId := by simpa [Event.mark] using mark
  have := List.mem_zipIdx here
  omega

theorem idsOf_nodup (k : κ) (handles : List (TraceHandle κ τ)) (n : Nat) : (idsOf k (handles.zipIdx n)).Nodup := by
  have all : ((handles.zipIdx n).map Prod.snd).Nodup := by
    rw [List.zipIdx_map_snd]
    exact List.nodup_range'
  exact all.sublist (List.Sublist.map _ List.filter_sublist)

theorem mem_idsOf {k : κ} {handles : List (TraceHandle κ τ)} {n x : Nat} (mem : x ∈ idsOf k (handles.zipIdx n)) :
    n ≤ x ∧ x < n + handles.length := by
  obtain ⟨⟨handle, i⟩, here, rfl⟩ := List.mem_map.1 mem
  have := List.mem_zipIdx (List.mem_of_mem_filter here)
  omega

theorem length_idsOf (k : κ) (handles : List (TraceHandle κ τ)) (n : Nat) :
    (idsOf k (handles.zipIdx n)).length = (handles.map TraceHandle.carrier).count k := by
  rw [idsOf, List.length_map, List.count_eq_countP, List.countP_map, ← List.countP_eq_length_filter]
  conv_rhs => rw [← List.zipIdx_map_fst n handles, List.countP_map]
  refine List.countP_congr fun r _ => ?_
  simp

/-- The traces that the span names, each at most once. -/
theorem nodup_carriers_iff (handles : List (TraceHandle κ τ)) (n : Nat) :
    (handles.map TraceHandle.carrier).Nodup ↔ ∀ k, (idsOf k (handles.zipIdx n)).length ≤ 1 := by
  rw [List.nodup_iff_count_le_one]
  refine forall_congr' fun k => ?_
  rw [length_idsOf]

section Span

variable [DecidableEq τ]

/-- The start events of records. -/
def startEvents (stackBefore around : List (τ × Nat)) (records : List (TraceHandle κ τ × Nat)) : List (κ × Event κ τ) :=
  records.map fun r => (r.1.carrier,
    .spanStart r.2 r.1 (r.1.parentSpanId.or (currentParentSpanId r.1.traceId stackBefore)) around)

theorem marksOf_startEvents (stackBefore around : List (τ × Nat)) (k : κ) (records : List (TraceHandle κ τ × Nat)) :
    marksOf k (startEvents stackBefore around records) = (idsOf k records).map .start := by
  simp only [marksOf, startEvents, idsOf, List.filter_map, List.map_map]
  rfl

omit [DecidableEq κ] in
theorem startEvents_fresh (stackBefore around : List (τ × Nat)) (handles : List (TraceHandle κ τ)) (n : Nat) :
    Fresh n (n + handles.length) (startEvents stackBefore around (handles.zipIdx n)) where
  le := Nat.le_add_right n _
  within := by
    intro entry mem spanId mark
    obtain ⟨⟨handle, i⟩, here, rfl⟩ := List.mem_map.1 mem
    obtain rfl : i = spanId := by simpa [Event.mark] using mark
    have := List.mem_zipIdx here
    omega
  once := by
    intro spanId
    have ids : (startEvents stackBefore around (handles.zipIdx n)).map (·.2.mark) =
        (List.range' n handles.length).map .start := by
      rw [← List.zipIdx_map_snd n handles]
      simp only [startEvents, List.map_map]
      rfl
    have distinct : (List.range' n handles.length).Nodup := List.nodup_range'
    have distinct := distinct.map (f := Mark.start) fun _ _ same => Mark.start.inj same
    rw [ids]
    exact List.nodup_iff_count_le_one.1 distinct _

variable {stackBefore around : List (τ × Nat)} {handles : List (TraceHandle κ τ)} {n : Nat}

/-- **A span whose ends are written is bracketed if and only if its body is and it names no trace twice.** -/
theorem bracketed_span_iff (fresh : Fresh (n + handles.length) hi events) :
    (∀ k, Bracketed (marksOf k (startEvents stackBefore around (handles.zipIdx n) ++ (events ++
      endEvents (handles.zipIdx n))))) ↔
      (∀ k, Bracketed (marksOf k events)) ∧ (handles.map TraceHandle.carrier).Nodup := by
  rw [nodup_carriers_iff handles n, ← forall_and]
  refine forall_congr' fun k => ?_
  unfold Bracketed
  rw [marksOf_append, marksOf_append, marksOf_startEvents, marksOf_endEvents, close_append, close_starts, List.append_nil,
    Option.bind_some, close_append, fresh.close_frame k fun x mem => .inl (mem_idsOf (List.mem_reverse.1 mem)).2]
  cases closed : close (marksOf k events) [] with
  | none => simp
  | some r =>
    rw [Option.map_some, Option.bind_some, close_stops_iff (idsOf_nodup k handles n), Option.some.injEq]
    intro x mem here
    have := (fresh.left_within closed mem).1
    have := (mem_idsOf here).2
    omega

/-- A span whose ends are not written is not bracketed. -/
theorem not_bracketed_open (some : handles ≠ []) (fresh : Fresh (n + handles.length) hi events) :
    ¬∀ k, Bracketed (marksOf k (startEvents stackBefore around (handles.zipIdx n) ++ events)) := by
  intro bracketed
  obtain ⟨handle, rest, rfl⟩ := List.exists_cons_of_ne_nil some
  have closed := bracketed handle.carrier
  unfold Bracketed at closed
  rw [marksOf_append, marksOf_startEvents, close_append, close_starts, List.append_nil, Option.bind_some,
    fresh.close_frame _ fun x mem => .inl (mem_idsOf (List.mem_reverse.1 mem)).2] at closed
  obtain ⟨r, -, same⟩ := Option.map_eq_some_iff.1 closed
  have empty := List.reverse_eq_nil_iff.1 (List.append_eq_nil_iff.1 same).2
  simp [idsOf] at empty

end Span

/-! ## The code -/

section Run

variable [DecidableEq τ]

omit [DecidableEq κ] in
theorem startSpans_good (stackBefore around : List (τ × Nat)) {handles : List (TraceHandle κ τ)}
    (good : ∀ h ∈ handles, broken h.carrier = false) (s : State κ τ) :
    startSpans broken stackBefore around handles s =
      ({ s with
        nextSpanId := s.nextSpanId + handles.length
        log := s.log ++ startEvents stackBefore around (handles.zipIdx s.nextSpanId) },
        some (handles.zipIdx s.nextSpanId)) := by
  induction handles generalizing s with
  | nil => simp [startSpans, startEvents]
  | cons handle handles ih =>
    obtain ⟨head, tail⟩ := List.forall_mem_cons.1 good
    rw [startSpans, if_neg (by simp [head])]
    dsimp only
    rw [ih tail]
    simp [State.append, startEvents, List.zipIdx_cons, Nat.add_assoc, Nat.add_comm 1]

omit [DecidableEq κ] in
/-- Where an event cannot be written, the starts before it stay. -/
theorem startSpans_broken (stackBefore around : List (τ × Nat)) {good rest : List (TraceHandle κ τ)} {bad : TraceHandle κ τ}
    (all : ∀ h ∈ good, broken h.carrier = false) (fails : broken bad.carrier = true) (s : State κ τ) :
    startSpans broken stackBefore around (good ++ bad :: rest) s =
      ({ s with
        nextSpanId := s.nextSpanId + (good.length + 1)
        log := s.log ++ startEvents stackBefore around (good.zipIdx s.nextSpanId) }, none) := by
  induction good generalizing s with
  | nil =>
    rw [List.nil_append, startSpans, if_pos fails]
    simp [startEvents]
  | cons handle good ih =>
    obtain ⟨head, tail⟩ := List.forall_mem_cons.1 all
    rw [List.cons_append, startSpans, if_neg (by simp [head])]
    dsimp only
    rw [ih tail]
    simp [State.append, startEvents, List.zipIdx_cons]
    omega

omit [DecidableEq κ] [DecidableEq τ] in
theorem recordSpanEnd_good {records : List (TraceHandle κ τ × Nat)} (good : ∀ r ∈ records, broken r.1.carrier = false)
    (s : State κ τ) : recordSpanEnd broken records s = { s with log := s.log ++ endEvents records } := by
  induction records generalizing s with
  | nil => simp [recordSpanEnd, endEvents]
  | cons r records ih =>
    obtain ⟨head, tail⟩ := List.forall_mem_cons.1 good
    obtain ⟨handle, spanId⟩ := r
    rw [recordSpanEnd, if_neg (by simp [head]), ih tail]
    simp [State.append, endEvents]

/-- What a run adds: events of fresh spans with their parents. The stacks are back. -/
structure Ran (s s' : State κ τ) (events : List (κ × Event κ τ)) : Prop where
  log : s'.log = s.log ++ events
  stack : s'.stack = s.stack
  handleStack : s'.handleStack = s.handleStack
  fresh : Fresh s.nextSpanId s'.nextSpanId events
  parents : ∀ entry ∈ events, entry.2.WellParented

omit [DecidableEq κ]

theorem Ran.refl (s : State κ τ) : Ran s s [] := ⟨by simp, rfl, rfl, .nil (Nat.le_refl _), by simp⟩

theorem Ran.trans {s s' s'' : State κ τ} (ran : Ran s s' events) (ran' : Ran s' s'' events') :
    Ran s s'' (events ++ events') where
  log := by rw [ran'.log, ran.log, List.append_assoc]
  stack := ran'.stack.trans ran.stack
  handleStack := ran'.handleStack.trans ran.handleStack
  fresh := ran.fresh.append ran'.fresh
  parents := fun entry mem => (List.mem_append.1 mem).elim (ran.parents entry) (ran'.parents entry)

theorem Ran.current {s s' : State κ τ} (ran : Ran s s' events) : s'.current = s.current := by
  rw [State.current, State.current, ran.handleStack]

theorem startEvents_parents (stack : List (τ × Nat)) (records : List (TraceHandle κ τ × Nat)) :
    ∀ entry ∈ startEvents stack stack records, entry.2.WellParented := by
  intro entry mem
  obtain ⟨r, -, rfl⟩ := List.mem_map.1 mem
  rfl

/-- Events that open and close nothing. -/
theorem traceEvent_ran (handles : List (TraceHandle κ τ)) (s : State κ τ) :
    ∃ events, Ran s (traceEvent broken handles s) events ∧ ∀ entry ∈ events, entry.2 = .event := by
  induction handles generalizing s with
  | nil => exact ⟨[], Ran.refl s, by simp⟩
  | cons handle handles ih =>
    rw [traceEvent]
    split
    · exact ⟨[], Ran.refl s, by simp⟩
    · have first : Ran s (s.append handle.carrier .event) [(handle.carrier, .event)] :=
        ⟨rfl, rfl, rfl, ⟨Nat.le_refl _, by simp [Event.mark], by simp [Event.mark]⟩, by simp [Event.WellParented]⟩
      obtain ⟨events, ran, plain⟩ := ih (s.append handle.carrier .event)
      exact ⟨_, first.trans ran, by simpa using plain⟩

end Run

theorem bracketed_plain (plain : ∀ entry ∈ events, entry.2 = .event) (k : κ) : Bracketed (marksOf k events) := by
  have others : ∀ mark ∈ marksOf k events, mark = .other := by
    intro mark mem
    obtain ⟨entry, here, rfl⟩ := mem_marksOf mem
    rw [plain entry here]
    rfl
  unfold Bracketed
  generalize marksOf k events = marks at others
  induction marks with
  | nil => rfl
  | cons mark marks ih =>
    obtain ⟨rfl, rest⟩ := List.forall_mem_cons.1 others
    exact ih rest

section Exec

variable [DecidableEq τ]

/-- What the induction over the code gives: what a run adds, how it ends, and when it is bracketed. -/
def Specified (broken : κ → Bool) (p : Prog κ τ) (run : State κ τ → State κ τ × Option Exc) (s : State κ τ) : Prop :=
  ∃ events, Ran s (run s).1 events ∧ (run s).2 = p.outcome ∧
    ((∀ k, Bracketed (marksOf k events)) ↔ Sound broken s.current p)

omit [DecidableEq κ] [DecidableEq τ] in
/-- The first handle whose event cannot be written. -/
theorem exists_broken {handles : List (TraceHandle κ τ)} (fails : ¬∀ h ∈ handles, broken h.carrier = false) :
    ∃ good bad rest, handles = good ++ bad :: rest ∧ (∀ h ∈ good, broken h.carrier = false) ∧
      broken bad.carrier = true := by
  induction handles with
  | nil => simp at fails
  | cons handle handles ih =>
    cases head : broken handle.carrier with
    | true => exact ⟨[], handle, handles, rfl, by simp, head⟩
    | false =>
      obtain ⟨good, bad, rest, rfl, all, last⟩ := ih fun tail => fails (List.forall_mem_cons.2 ⟨head, tail⟩)
      exact ⟨handle :: good, bad, rest, rfl, List.forall_mem_cons.2 ⟨head, all⟩, last⟩

/-- The way out of a body writes the end events. -/
def Written (recordError : Bool) (out : Option Exc) : Prop :=
  ∀ e, out = some e → e.isException = true ∧ ¬(recordError = true ∧ e.strRaises = true)

omit [DecidableEq κ] [DecidableEq τ] in
theorem endSpans_written {recordError : Bool} {out : Option Exc} (written : Written recordError out)
    {records : List (TraceHandle κ τ × Nat)} (good : ∀ r ∈ records, broken r.1.carrier = false) (s : State κ τ) :
    endSpans broken recordError records out s = { s with log := s.log ++ endEvents records } := by
  rw [← recordSpanEnd_good good]
  unfold endSpans
  cases out with
  | none => rfl
  | some e =>
    obtain ⟨exception, text⟩ := written e rfl
    dsimp only
    rw [if_neg]
    simpa [exception] using text

omit [DecidableEq κ] [DecidableEq τ] in
theorem endSpans_not_written {recordError : Bool} {out : Option Exc} (lost : ¬Written recordError out)
    (records : List (TraceHandle κ τ × Nat)) (s : State κ τ) : endSpans broken recordError records out s = s := by
  unfold endSpans
  cases out with
  | none => exact absurd (fun _ same => by cases same) lost
  | some e =>
    dsimp only
    rw [if_pos]
    by_contra other
    refine lost fun e' same => ?_
    obtain rfl := Option.some.inj same
    simpa using other

/-- The state in which the body of a span runs. -/
def State.entered (s : State κ τ) (handles : List (TraceHandle κ τ)) : State κ τ where
  nextSpanId := s.nextSpanId + handles.length
  stack := s.stack ++ entriesOf (handles.zipIdx s.nextSpanId)
  handleStack := s.handleStack ++ [handles]
  log := s.log ++ startEvents s.stack s.stack (handles.zipIdx s.nextSpanId)

omit [DecidableEq κ] in
theorem current_entered (s : State κ τ) (handles : List (TraceHandle κ τ)) : (s.entered handles).current = handles := by
  simp [State.current, State.entered]

omit [DecidableEq κ] [DecidableEq τ] in
/-- End events of spans that started before add no start. -/
theorem Fresh.append_ends (fresh : Fresh lo hi events) (handles : List (TraceHandle κ τ)) {n : Nat} (above : lo ≤ n)
    (below : n + handles.length ≤ hi) : Fresh lo hi (events ++ endEvents (handles.zipIdx n)) where
  le := fresh.le
  within := by
    intro entry mem
    rcases List.mem_append.1 mem with early | late
    · exact fresh.within entry early
    · exact endEvents_within handles above below entry late
  once := by
    intro spanId
    have none : ((endEvents (handles.zipIdx n)).map (·.2.mark)).count (.start spanId) = 0 := by
      rw [List.count_eq_zero]
      intro mem
      obtain ⟨entry, here, same⟩ := List.mem_map.1 mem
      obtain ⟨r, -, rfl⟩ := List.mem_map.1 here
      cases same
    rw [List.map_append, List.count_append, none]
    exact fresh.once spanId

/-- **A span that is entered**: its body runs between its start events and its end events, if they are written. -/
theorem entered_specified {recordError : Bool} {body : Prog κ τ} {s : State κ τ} {handles : List (TraceHandle κ τ)}
    {run : State κ τ → State κ τ × Option Exc} (some : handles ≠ [])
    (good : ∀ h ∈ handles, broken h.carrier = false) (spec : Specified broken body run (s.entered handles)) :
    ∃ events, Ran s { endSpans broken recordError (handles.zipIdx s.nextSpanId) (run (s.entered handles)).2
        (run (s.entered handles)).1 with stack := s.stack, handleStack := s.handleStack } events ∧
      (run (s.entered handles)).2 = body.outcome ∧
      ((∀ k, Bracketed (marksOf k events)) ↔ (handles.map TraceHandle.carrier).Nodup ∧
        Written recordError body.outcome ∧ Sound broken handles body) := by
  obtain ⟨events, ran, out, iff⟩ := spec
  rw [current_entered] at iff
  rw [out]
  have starts := startEvents_fresh s.stack s.stack handles s.nextSpanId
  have whole := starts.append ran.fresh
  have parents : ∀ entry ∈ startEvents s.stack s.stack (handles.zipIdx s.nextSpanId) ++ events,
      entry.2.WellParented := fun entry mem =>
    (List.mem_append.1 mem).elim (startEvents_parents _ _ entry) (ran.parents entry)
  by_cases written : Written recordError body.outcome
  · have records : ∀ r ∈ handles.zipIdx s.nextSpanId, broken r.1.carrier = false := fun r mem =>
      good _ (List.fst_mem_of_mem_zipIdx mem)
    refine ⟨startEvents s.stack s.stack (handles.zipIdx s.nextSpanId) ++ (events ++ endEvents (handles.zipIdx s.nextSpanId)),
      ⟨?_, rfl, rfl, ?_, ?_⟩, rfl, ?_⟩
    · rw [endSpans_written written records]
      dsimp only
      rw [ran.log, List.append_assoc]
      exact List.append_assoc s.log _ _
    · rw [endSpans_written written records, ← List.append_assoc]
      exact whole.append_ends handles (Nat.le_refl _) ran.fresh.le
    · intro entry mem
      rw [← List.append_assoc] at mem
      rcases List.mem_append.1 mem with early | late
      · exact parents entry early
      · obtain ⟨r, -, rfl⟩ := List.mem_map.1 late
        trivial
    · rw [bracketed_span_iff ran.fresh, iff]
      constructor
      · rintro ⟨sound, distinct⟩
        exact ⟨distinct, written, sound⟩
      · rintro ⟨distinct, -, sound⟩
        exact ⟨sound, distinct⟩
  · refine ⟨startEvents s.stack s.stack (handles.zipIdx s.nextSpanId) ++ events, ⟨?_, rfl, rfl, ?_, parents⟩, rfl, ?_⟩
    · rw [endSpans_not_written written]
      dsimp only
      rw [ran.log]
      exact List.append_assoc s.log _ _
    · rw [endSpans_not_written written]
      exact whole
    · exact iff_of_false (not_bracketed_open some ran.fresh) fun sound => written sound.2.1

/-- **A span of which a start event cannot be written**: its body runs outside, and the starts before stay open. -/
theorem not_entered_specified {body : Prog κ τ} {s : State κ τ} {before : List (TraceHandle κ τ)}
    {run : State κ τ → State κ τ × Option Exc}
    (spec : ∀ s', s'.stack = s.stack → Specified broken body run s') :
    ∃ events, Ran s (run { s with
        nextSpanId := s.nextSpanId + (before.length + 1)
        log := s.log ++ startEvents s.stack s.stack (before.zipIdx s.nextSpanId) }).1 events ∧
      (run { s with
        nextSpanId := s.nextSpanId + (before.length + 1)
        log := s.log ++ startEvents s.stack s.stack (before.zipIdx s.nextSpanId) }).2 = body.outcome ∧
      ((∀ k, Bracketed (marksOf k events)) ↔ before = [] ∧ Sound broken s.current body) := by
  obtain ⟨events, ran, out, iff⟩ := spec { s with
    nextSpanId := s.nextSpanId + (before.length + 1)
    log := s.log ++ startEvents s.stack s.stack (before.zipIdx s.nextSpanId) } rfl
  have starts := startEvents_fresh s.stack s.stack before s.nextSpanId
  refine ⟨startEvents s.stack s.stack (before.zipIdx s.nextSpanId) ++ events, ⟨?_, ran.stack, ran.handleStack, ?_, ?_⟩, out, ?_⟩
  · rw [ran.log, List.append_assoc]
  · exact (starts.mono (Nat.le_succ _)).append ran.fresh
  · intro entry mem
    exact (List.mem_append.1 mem).elim (startEvents_parents _ _ entry) (ran.parents entry)
  · by_cases empty : before = []
    · subst empty
      exact iff.trans (and_iff_right rfl).symm
    · have fresh : Fresh (s.nextSpanId + before.length) _ events :=
        ⟨(Nat.le_succ _).trans ran.fresh.le, fun entry mem spanId mark =>
          ⟨(Nat.le_succ _).trans (ran.fresh.within entry mem spanId mark).1, (ran.fresh.within entry mem spanId mark).2⟩,
          ran.fresh.once⟩
      exact iff_of_false (not_bracketed_open empty fresh) fun sound => empty sound.1

theorem span_specified {target : Target κ τ} {recordError : Bool} {body : Prog κ τ} {s : State κ τ}
    {run : List (τ × Nat) → State κ τ → State κ τ × Option Exc}
    (spec : ∀ opened s', s'.stack = s.stack ++ opened → Specified broken body (run opened) s') :
    Specified broken (.span target recordError body)
      (traceSpan broken s.stack (target.resolve s.current) recordError run) s := by
  have outside : ∀ s', s'.stack = s.stack → Specified broken body (run []) s' := fun s' same =>
    spec [] s' (same.trans (List.append_nil _).symm)
  unfold Specified
  rw [traceSpan, Sound, Prog.outcome]
  generalize target.resolve s.current = handles
  by_cases good : ∀ h ∈ handles, broken h.carrier = false
  · cases handles with
    | nil =>
      rw [if_pos rfl]
      exact outside s rfl
    | cons handle handles =>
      obtain ⟨head, tail⟩ := List.forall_mem_cons.1 good
      rw [if_neg (List.cons_ne_nil _ _), startSpans_good _ _ good]
      dsimp only
      rw [if_neg (by simp [head]), and_iff_right tail]
      exact entered_specified (List.cons_ne_nil _ _) good (spec _ (s.entered (handle :: handles)) rfl)
  · obtain ⟨before, bad, rest, rfl, all, fails⟩ := exists_broken good
    have some : before ++ bad :: rest ≠ [] := by simp
    rw [if_neg some, startSpans_broken _ _ all fails]
    dsimp only
    obtain ⟨events, ran, out, iff⟩ := not_entered_specified outside
    refine ⟨events, ran, out, iff.trans ?_⟩
    cases before with
    | nil =>
      rw [List.nil_append]
      dsimp only
      rw [if_pos fails]
      exact and_iff_right rfl
    | cons handle before =>
      obtain ⟨head, -⟩ := List.forall_mem_cons.1 all
      rw [List.cons_append]
      dsimp only
      rw [if_neg (by simp [head])]
      refine iff_of_false (fun sound => List.cons_ne_nil _ _ sound.1) fun sound => ?_
      have := sound.1 bad (by simp)
      rw [fails] at this
      cases this

/-- A run that goes on after another one. -/
theorem bracketed_trans_iff {s s' s'' : State κ τ} {p q : Prog κ τ} (ran : Ran s s' events) (ran' : Ran s' s'' events')
    (iff : (∀ k, Bracketed (marksOf k events)) ↔ Sound broken s.current p)
    (iff' : (∀ k, Bracketed (marksOf k events')) ↔ Sound broken s'.current q) :
    (∀ k, Bracketed (marksOf k (events ++ events'))) ↔ Sound broken s.current p ∧ Sound broken s.current q := by
  rw [bracketed_append_iff ran.fresh ran'.fresh, iff, iff', ran.current]

/-- **Every run adds events of fresh spans, and they are bracketed if and only if the code is sound.** -/
theorem exec_specified (p : Prog κ τ) (around : List (τ × Nat)) (s : State κ τ) (here : s.stack = around) :
    Specified broken p (exec broken around p) s := by
  induction p generalizing around s with
  | skip => exact ⟨[], Ran.refl s, rfl, iff_of_true (bracketed_plain (by simp)) trivial⟩
  | raise e => exact ⟨[], Ran.refl s, rfl, iff_of_true (bracketed_plain (by simp)) trivial⟩
  | event target =>
    obtain ⟨events, ran, plain⟩ := traceEvent_ran (target.resolve s.current) s
    exact ⟨events, ran, rfl, iff_of_true (bracketed_plain plain) trivial⟩
  | seq first rest ihFirst ihRest =>
    obtain ⟨events, ran, out, iff⟩ := ihFirst around s here
    unfold Specified
    rw [exec, Prog.outcome, Sound]
    rcases run : exec broken around first s with ⟨s', _ | e⟩
    · rw [run] at ran out
      rw [← out]
      obtain ⟨events', ran', out', iff'⟩ := ihRest around s' (ran.stack.trans here)
      refine ⟨events ++ events', ran.trans ran', out', ?_⟩
      rw [bracketed_trans_iff ran ran' iff iff']
      exact and_congr_right fun _ => ⟨fun sound _ => sound, fun sound => sound rfl⟩
    · rw [run] at ran out
      rw [← out]
      exact ⟨events, ran, rfl, iff.trans (and_iff_left fun none => by cases none).symm⟩
  | attempt body catches handler ihBody ihHandler =>
    obtain ⟨events, ran, out, iff⟩ := ihBody around s here
    unfold Specified
    rw [exec, Prog.outcome, Sound]
    rcases run : exec broken around body s with ⟨s', _ | e⟩
    · rw [run] at ran out
      rw [← out]
      exact ⟨events, ran, rfl, iff.trans (and_iff_left fun e same => by cases same).symm⟩
    · rw [run] at ran out
      rw [← out]
      dsimp only
      by_cases caught : catches e = true
      · rw [if_pos caught, if_pos caught]
        obtain ⟨events', ran', out', iff'⟩ := ihHandler around s' (ran.stack.trans here)
        refine ⟨events ++ events', ran.trans ran', out', ?_⟩
        rw [bracketed_trans_iff ran ran' iff iff']
        exact and_congr_right fun _ => ⟨fun sound _ _ _ => sound, fun sound => sound e rfl caught⟩
      · rw [if_neg caught, if_neg caught]
        refine ⟨events, ran, rfl, iff.trans (and_iff_left fun e' same here => ?_).symm⟩
        obtain rfl := Option.some.inj same
        exact absurd here caught
  | span target recordError body ih =>
    subst here
    exact span_specified fun opened s' same => ih (s.stack ++ opened) s' same

omit [DecidableEq τ] in
/-- In a bracketed trace of fresh spans each start has one end. -/
theorem ended_of_bracketed (fresh : Fresh lo hi events) {k : κ} (bracketed : Bracketed (marksOf k events)) {spanId : Nat}
    (start : .start spanId ∈ marksOf k events) : (marksOf k events).count (.stop spanId) = 1 := by
  have sub : (marksOf k events).Sublist (events.map (·.2.mark)) := List.filter_sublist.map _
  have once := (sub.count_le (.start spanId)).trans (fresh.once spanId)
  have some := List.count_pos_iff.2 start
  have count := count_of_close bracketed spanId
  simp only [List.count_nil, Nat.add_zero] at count
  omega

/-- **The traces are disciplined if and only if the code is sound**: whatever the state it starts in. -/
theorem disciplined_iff (broken : κ → Bool) (p : Prog κ τ) (s : State κ τ) :
    (∃ events, Disciplined s (exec broken s.stack p s).1 events) ↔ Sound broken s.current p := by
  obtain ⟨events, ran, -, iff⟩ := exec_specified p s.stack s rfl
  rw [← iff]
  constructor
  · rintro ⟨events', disciplined⟩
    obtain rfl := List.append_cancel_left (disciplined.log.symm.trans ran.log)
    exact disciplined.bracketed
  · intro bracketed
    exact ⟨events, ran.log, ran.stack, ran.handleStack, ran.parents,
      fun k spanId start => ended_of_bracketed ran.fresh (bracketed k) start, bracketed⟩

end Exec

/-- Nothing has been traced. -/
def untraced : State Nat Nat := ⟨0, [], [], []⟩

/-- A span on one sample, left by the cancellation of its task. -/
def cancelled : Prog Nat Nat := .span (.handles [⟨0, 0, none⟩]) true (.raise ⟨false, false⟩)

/-- The span of a cancelled task does not end. -/
theorem cancelled_not_disciplined :
    ¬∃ events, Disciplined untraced (exec (fun _ => false) untraced.stack cancelled untraced).1 events := by
  obtain ⟨events, ran, -, iff⟩ := @exec_specified _ _ (fun _ : Nat => false) _ _ cancelled untraced.stack untraced rfl
  rintro ⟨events', disciplined⟩
  obtain rfl := List.append_cancel_left (disciplined.log.symm.trans ran.log)
  obtain ⟨-, -, written, -⟩ := iff.1 disciplined.bracketed
  exact absurd (written ⟨false, false⟩ rfl).1 Bool.false_ne_true

end SlimeBoard.TraceSpans
