import SlimeBoard.Lib.Collective

/-!
# Broadcasts in a group

The members of a group hold buffers in a row each. A broadcast copies one buffer of a member to all
members. Members that issue different broadcasts wait for each other for ever.
-/

namespace Broadcast

/-- A broadcast of the buffer at an index by the member with a rank. -/
structure Call where
  index : Nat
  src : Nat
  deriving DecidableEq

variable {k : Nat} {α : Type}

/-- The buffers of the members, `none` as long as a buffer is uninitialised. -/
abbrev Buffers (k : Nat) (α : Type) := Fin k → List (Option α)

/-- The broadcasts of a loop over `items`: item `i` is broadcast from its source, if it has one. -/
def issue {ι : Type} (source : ι → Option Nat) (items : List ι) : List Call :=
  (items.map source).zipIdx.filterMap fun entry => entry.1.map (Call.mk entry.2)

/-- One broadcast that every member issues. -/
def deliver (ranks : Fin k → Nat) (buffers : Buffers k α) (call : Call) : Py (Buffers k α) :=
  match (List.finRange k).find? fun m => ranks m = call.src with
  | none => .error .runtimeError
  | some source => .ok fun m => (buffers m).set call.index ((buffers source).getD call.index none)

/-- Broadcasts that every member issues in this order. -/
def run (ranks : Fin k → Nat) (calls : List Call) (buffers : Buffers k α) : Py (Buffers k α) :=
  calls.foldlM (deliver ranks) buffers

/-- The members go on only if they issue the same broadcasts in the same order. -/
def runGroup (ranks : Fin k → Nat) (calls : Fin k → List Call) (buffers : Buffers k α) : Py (Buffers k α) :=
  if ∀ m m', calls m = calls m' then
    match (List.finRange k).head? with
    | none => .ok buffers
    | some m => run ranks (calls m) buffers
  else .error .diverges

/-- The members issue the same broadcasts, and every source is a member whose buffer holds a `good`
value when its broadcast starts. -/
structure Agreed (ranks : Fin k → Nat) (calls : Fin k → List Call) (buffers : Buffers k α) (good : Nat → α → Prop) :
    Prop where
  same : ∀ m m', calls m = calls m'
  sourced : ∀ m {i : Nat} {call : Call}, (calls m)[i]? = some call →
    ∃ source before value, ranks source = call.src ∧ run ranks ((calls m).take i) buffers = .ok before ∧
      (before source)[call.index]? = some (some value) ∧ good call.index value

section Issue

variable {ι : Type} {source : ι → Option Nat} {items : List ι}

theorem mem_issue {call : Call} :
    call ∈ issue source items ↔ ∃ item, items[call.index]? = some item ∧ source item = some call.src := by
  rw [issue, List.mem_filterMap]
  constructor
  · rintro ⟨⟨src, i⟩, mem, same⟩
    obtain ⟨s, rfl, rfl⟩ := Option.map_eq_some_iff.1 same
    rw [List.mem_zipIdx_iff_getElem?, List.getElem?_map] at mem
    exact Option.map_eq_some_iff.1 mem
  · rintro ⟨item, here, src⟩
    refine ⟨(some call.src, call.index), ?_, rfl⟩
    rw [List.mem_zipIdx_iff_getElem?, List.getElem?_map, here, ← src]
    rfl

/-- A loop broadcasts no item twice. -/
theorem issue_once : ((issue source items).map Call.index).Nodup := by
  have increasing : ((items.map source).zipIdx.map Prod.snd).Nodup := by
    rw [List.zipIdx_map_snd]
    exact List.nodup_range'
  rw [List.Nodup, List.pairwise_map] at increasing
  rw [issue, List.map_filterMap, List.Nodup, List.pairwise_filterMap]
  refine increasing.imp fun {a b} apart i isA j isB same => apart ?_
  obtain ⟨call, here, rfl⟩ := Option.map_eq_some_iff.1 isA
  obtain ⟨call', there, rfl⟩ := Option.map_eq_some_iff.1 isB
  obtain ⟨_, _, rfl⟩ := Option.map_eq_some_iff.1 here
  obtain ⟨_, _, rfl⟩ := Option.map_eq_some_iff.1 there
  exact same

theorem issue_congr {other : ι → Option Nat} {others : List ι} (same : items.map source = others.map other) :
    issue source items = issue other others := by
  rw [issue, same, issue]

end Issue

variable {ranks : Fin k → Nat} {buffers : Buffers k α}

theorem find_source (distinct : ∀ m m', ranks m = ranks m' → m = m') (m : Fin k) :
    (List.finRange k).find? (fun m' => ranks m' = ranks m) = some m := by
  cases found : (List.finRange k).find? fun m' => ranks m' = ranks m with
  | none =>
    have none := List.find?_eq_none.1 found m (List.mem_finRange m)
    exact absurd (decide_eq_true rfl) none
  | some m' =>
    have same : ranks m' = ranks m := by simpa using List.find?_some found
    rw [distinct m' m same]

theorem deliver_eq (distinct : ∀ m m', ranks m = ranks m' → m = m') {call : Call} {source : Fin k}
    (member : ranks source = call.src) :
    deliver ranks buffers call = .ok fun m => (buffers m).set call.index ((buffers source).getD call.index none) := by
  unfold deliver
  rw [← member, find_source distinct]

/-- **Broadcasts of different buffers** change each buffer once, to that of its source. -/
theorem run_spec (distinct : ∀ m m', ranks m = ranks m' → m = m') {calls : List Call} {source : Call → Fin k}
    (member : ∀ call ∈ calls, ranks (source call) = call.src) (once : (calls.map Call.index).Nodup)
    (inside : ∀ call ∈ calls, ∀ m, call.index < (buffers m).length) :
    ∃ after, run ranks calls buffers = .ok after ∧ (∀ m, (after m).length = (buffers m).length) ∧
      (∀ call ∈ calls, ∀ m, (after m)[call.index]? = (buffers (source call))[call.index]?) ∧
      ∀ i, (∀ call ∈ calls, call.index ≠ i) → ∀ m, (after m)[i]? = (buffers m)[i]? := by
  induction calls generalizing buffers with
  | nil => exact ⟨buffers, rfl, fun _ => rfl, fun call mem => absurd mem List.not_mem_nil, fun _ _ _ => rfl⟩
  | cons first calls ih =>
    rw [List.map_cons, List.nodup_cons] at once
    let mid : Buffers k α := fun m => (buffers m).set first.index ((buffers (source first)).getD first.index none)
    have apart : ∀ call ∈ calls, call.index ≠ first.index := fun call mem same =>
      once.1 (same ▸ List.mem_map_of_mem mem)
    have kept {i : Nat} (differ : i ≠ first.index) (m : Fin k) : (mid m)[i]? = (buffers m)[i]? :=
      List.getElem?_set_ne (Ne.symm differ)
    obtain ⟨after, done, lengths, copied, others⟩ := @ih mid (fun call mem => member call (List.mem_cons_of_mem _ mem)) once.2
      fun call mem m => by
        rw [List.length_set]
        exact inside call (List.mem_cons_of_mem _ mem) m
    refine ⟨after, ?_, fun m => ?_, fun call mem m => ?_, fun i differ m => ?_⟩
    · rw [run, List.foldlM_cons, deliver_eq distinct (member first (List.mem_cons_self ..)), Py.ok_bind]
      exact done
    · rw [lengths, List.length_set]
    · rcases List.mem_cons.1 mem with rfl | later
      · have here := inside call (List.mem_cons_self ..)
        rw [others _ apart, List.getElem?_set_self (here m), List.getD_eq_getElem?_getD, List.getElem?_eq_getElem (here _)]
        rfl
      · rw [copied call later, kept (apart call later)]
    · rw [others i fun call mem => differ call (List.mem_cons_of_mem _ mem),
        kept (Ne.symm (differ first (List.mem_cons_self ..)))]

/-- The members issue the same broadcasts, of different buffers, and every source holds a `good` value
from the start. -/
structure Ready (ranks : Fin k → Nat) (calls : Fin k → List Call) (buffers : Buffers k α) (good : Nat → α → Prop) : Prop where
  same : ∀ m m', calls m = calls m'
  once : ∀ m, ((calls m).map Call.index).Nodup
  inside : ∀ m, ∀ call ∈ calls m, ∀ m', call.index < (buffers m').length
  sourced : ∀ m, ∀ call ∈ calls m, ∃ source value, ranks source = call.src ∧
    (buffers source)[call.index]? = some (some value) ∧ good call.index value

section Ready

variable {calls : Fin k → List Call} {good : Nat → α → Prop}

/-- Nothing that a source sends is overwritten before. -/
theorem Ready.agreed (distinct : ∀ m m', ranks m = ranks m' → m = m') (ready : Ready ranks calls buffers good) :
    Agreed ranks calls buffers good := by
  refine ⟨ready.same, fun m i call here => ?_⟩
  have mem : call ∈ calls m := List.mem_of_getElem? here
  obtain ⟨source, value, member, holds, fine⟩ := ready.sourced m call mem
  have : Nonempty (Fin k) := ⟨m⟩
  have : Nonempty α := ⟨value⟩
  choose! sourceOf _ memberOf _ using ready.sourced m
  have earlier {other : Call} (before : other ∈ (calls m).take i) : other ∈ calls m := List.mem_of_mem_take before
  obtain ⟨before, done, -, -, others⟩ := @run_spec k α ranks buffers distinct _ sourceOf
    (fun other taken => memberOf other (earlier taken))
    (((List.take_sublist i (calls m)).map Call.index).nodup (ready.once m))
    fun other taken => ready.inside m other (earlier taken)
  refine ⟨source, before, value, member, done, ?_, fine⟩
  rw [others call.index ?_ source, holds]
  intro other taken clash
  obtain ⟨j, there⟩ := List.mem_iff_getElem?.1 taken
  rw [List.getElem?_take] at there
  split at there
  · rename_i lt
    have lower : ((calls m).map Call.index)[j]? = some other.index := by rw [List.getElem?_map, there]; rfl
    have upper : ((calls m).map Call.index)[i]? = some call.index := by rw [List.getElem?_map, here]; rfl
    obtain ⟨bound, _⟩ := List.getElem?_eq_some_iff.1 lower
    have equal := (List.getElem?_inj bound (ready.once m)).1 (lower.trans (clash ▸ upper.symm))
    exact absurd equal lt.ne
  · cases there

/-- **The broadcasts of a group that is ready**: every member ends with a good value in each buffer
that was sent, and with its own in the others. -/
theorem Ready.run (distinct : ∀ m m', ranks m = ranks m' → m = m') (ready : Ready ranks calls buffers good) :
    ∃ after, runGroup ranks calls buffers = .ok after ∧ (∀ m, (after m).length = (buffers m).length) ∧
      (∀ m, ∀ call ∈ calls m, ∃ value, (after m)[call.index]? = some (some value) ∧ good call.index value) ∧
      ∀ m i, (∀ call ∈ calls m, call.index ≠ i) → (after m)[i]? = (buffers m)[i]? := by
  unfold runGroup
  rw [if_pos ready.same]
  cases first : (List.finRange k).head? with
  | none =>
    rw [List.head?_eq_none_iff] at first
    have nobody (m : Fin k) : False := List.not_mem_nil (first ▸ List.mem_finRange m)
    exact ⟨buffers, rfl, fun _ => rfl, fun m => (nobody m).elim, fun _ _ _ => rfl⟩
  | some m₀ =>
    have : Nonempty (Fin k) := ⟨m₀⟩
    have sourced := ready.sourced m₀
    by_cases values : Nonempty α
    · choose! source value member holds fine using sourced
      obtain ⟨after, done, lengths, copied, others⟩ := run_spec distinct member (ready.once m₀) (ready.inside m₀)
      refine ⟨after, done, lengths, fun m call mem => ?_, fun m i differ => others i (ready.same m m₀ ▸ differ) m⟩
      rw [ready.same m m₀] at mem
      exact ⟨value call, by rw [copied call mem, holds call mem], fine call mem⟩
    · have nothing : calls m₀ = [] := List.eq_nil_iff_forall_not_mem.2 fun call mem =>
        values ((sourced call mem).elim fun _ found => ⟨found.choose⟩)
      refine ⟨buffers, by dsimp only; rw [nothing]; rfl, fun _ => rfl, fun m call mem => ?_, fun _ _ _ => rfl⟩
      rw [ready.same m m₀, nothing] at mem
      exact absurd mem List.not_mem_nil

end Ready

end Broadcast
