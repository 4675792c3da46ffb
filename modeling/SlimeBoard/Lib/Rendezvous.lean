import Mathlib

/-!
# Programs that exchange values over wires

Every rank runs a program of its own. A program posts sends and receives at its ports and goes on once
all of them are complete. A send completes together with the receive at the other end of its wire, and
the operations of a rank complete in any order. A timetable that gives every operation a time, the same
time to the two ends of a wire, rules out a deadlock: of the open operations the earliest can complete.
-/

namespace Rendezvous

variable {ι π τ ρ σ : Type}

/-- A program returns, raises, or posts its operations and goes on with the values that came in. -/
inductive Proc (π τ ρ : Type) where
  | done (r : ρ)
  | raise
  | comm (send : π → Option τ) (recv : π → Bool) (next : (π → Option τ) → Proc π τ ρ)

def Proc.bind : Proc π τ ρ → (ρ → Proc π τ σ) → Proc π τ σ
  | .done r, f => f r
  | .raise, _ => .raise
  | .comm send recv next, f => .comm send recv fun got => (next got).bind f

/-- `for i in range(n)` -/
def Proc.loop (body : Nat → σ → Proc π τ σ) (s : σ) : Nat → Proc π τ σ
  | 0 => .done s
  | n + 1 => (loop body s n).bind (body n)

instance : Monad (Proc π τ) where
  pure := .done
  bind := .bind

theorem Proc.done_bind (r : ρ) (f : ρ → Proc π τ σ) : (Proc.done r >>= f) = f r := rfl

theorem Proc.loop_done {body : Nat → σ → Proc π τ σ} {n : Nat} (state : Nat → σ)
    (turn : ∀ i < n, body i (state i) = .done (state (i + 1))) : Proc.loop body (state 0) n = .done (state n) := by
  induction n with
  | zero => rfl
  | succ n ih =>
    rw [Proc.loop, ih fun i lt => turn i (by omega)]
    exact turn n (by omega)

/-- A rank of a run. A waiting rank has its open operations and the values that came in so far. -/
inductive Rank (π τ ρ : Type) where
  | done (r : ρ)
  | failed
  | waiting (send : π → Option τ) (recv : π → Bool) (got : π → Option τ) (next : (π → Option τ) → Proc π τ ρ)

def Proc.start : Proc π τ ρ → Rank π τ ρ
  | .done r => .done r
  | .raise => .failed
  | .comm send recv next => .waiting send recv (fun _ => none) next

namespace Rank

/-- The value of the open send at a port. -/
def offers : Rank π τ ρ → π → Option τ
  | .waiting send _ _ _, q => send q
  | _, _ => none

/-- The receive at a port is open. -/
def awaits : Rank π τ ρ → π → Bool
  | .waiting _ recv _ _, q => recv q
  | _, _ => false

variable [DecidableEq π]

def sent (q : π) : Rank π τ ρ → Rank π τ ρ
  | .waiting send recv got next => .waiting (Function.update send q none) recv got next
  | rank => rank

def received (q : π) (x : τ) : Rank π τ ρ → Rank π τ ρ
  | .waiting send recv got next => .waiting send (Function.update recv q false) (Function.update got q (some x)) next
  | rank => rank

end Rank

section Run

variable [DecidableEq ι] [DecidableEq π]

/-- One step: a wire carries a value, or a rank goes on because its operations are complete. -/
inductive Step (wire : Equiv.Perm (ι × π)) : (ι → Rank π τ ρ) → (ι → Rank π τ ρ) → Prop where
  | transfer {s : ι → Rank π τ ρ} {i j : ι} {q q' : π} {x : τ} (wired : wire (i, q) = (j, q'))
      (offers : (s i).offers q = some x) (awaits : (s j).awaits q' = true) :
      Step wire s (Function.update (Function.update s i ((s i).sent q)) j
        (((Function.update s i ((s i).sent q)) j).received q' x))
  | resume {s : ι → Rank π τ ρ} {i : ι} {send : π → Option τ} {recv : π → Bool} {got : π → Option τ}
      {next : (π → Option τ) → Proc π τ ρ} (here : s i = .waiting send recv got next) (sent : ∀ q, send q = none)
      (received : ∀ q, recv q = false) :
      Step wire s (Function.update s i (next got).start)

/-- A run of so many steps. -/
inductive Steps (wire : Equiv.Perm (ι × π)) : Nat → (ι → Rank π τ ρ) → (ι → Rank π τ ρ) → Prop where
  | refl (s : ι → Rank π τ ρ) : Steps wire 0 s s
  | tail {n : Nat} {s s' s'' : ι → Rank π τ ρ} (run : Steps wire n s s') (step : Step wire s' s'') :
      Steps wire (n + 1) s s''

end Run

/-! ## Timetables -/

/-- What a rank sends and what it receives at one time. -/
structure Entry (π τ : Type) where
  time : Nat
  send : π → Option τ
  recv : π → Option τ

/-- A program that is fed the values of a timetable posts the operations of the timetable, all of them
from `lo` on and before `hi`, and returns `r`. -/
inductive Plays : Nat → Proc π τ ρ → List (Entry π τ) → ρ → Nat → Prop where
  | done {lo hi : Nat} {r : ρ} (le : lo ≤ hi) : Plays lo (.done r) [] r hi
  | comm {lo hi : Nat} {e : Entry π τ} {es : List (Entry π τ)} {next : (π → Option τ) → Proc π τ ρ} {r : ρ}
      (later : lo ≤ e.time) (rest : Plays (e.time + 1) (next e.recv) es r hi) :
      Plays lo (.comm e.send (fun q => (e.recv q).isSome) next) (e :: es) r hi

namespace Plays

variable {lo mid hi : Nat} {p : Proc π τ ρ} {es es' : List (Entry π τ)} {r : ρ}

theorem mono (h : Plays lo p es r hi) {lo' hi' : Nat} (le : lo' ≤ lo) (le' : hi ≤ hi') : Plays lo' p es r hi' := by
  induction h generalizing lo' with
  | done mid => exact .done (by omega)
  | comm later _ ih => exact .comm (by omega) (ih le_rfl le')

theorem bind {f : ρ → Proc π τ σ} {b : σ} (h : Plays lo p es r mid) (h' : Plays mid (f r) es' b hi) :
    Plays lo (p >>= f) (es ++ es') b hi := by
  induction h with
  | done le => exact h'.mono le le_rfl
  | comm later _ ih => exact .comm later (ih h')

theorem finish {f : ρ → Proc π τ σ} {b : σ} (h : Plays lo p es r hi) (last : f r = .done b) : Plays lo (p >>= f) es b hi := by
  have whole := h.bind (last ▸ .done le_rfl : Plays hi (f r) [] b hi)
  rwa [List.append_nil] at whole

theorem later (h : Plays lo p es r hi) : ∀ e ∈ es, lo ≤ e.time := by
  induction h with
  | done => exact fun _ mem => (nomatch mem)
  | comm later _ ih =>
    intro e mem
    obtain rfl | mem := List.mem_cons.1 mem
    · exact later
    · have := ih e mem
      omega

/-- A loop over a range plays the timetables of its turns one after the other. -/
theorem loop {body : Nat → σ → Proc π τ σ} {n : Nat} (state : Nat → σ) (time : Nat → Nat) (table : Nat → List (Entry π τ))
    (turn : ∀ i < n, Plays (time i) (body i (state i)) (table i) (state (i + 1)) (time (i + 1))) :
    Plays (time 0) (Proc.loop body (state 0) n) ((List.range n).flatMap table) (state n) (time n) := by
  induction n with
  | zero => exact .done le_rfl
  | succ n ih =>
    have before := ih fun i lt => turn i (by omega)
    have whole := before.bind (turn n (by omega))
    rw [List.range_succ, List.flatMap_append, List.flatMap_singleton]
    exact whole

end Plays

/-- The values at one side of a timetable, with the times. -/
def stamped (side : Entry π τ → Option τ) (es : List (Entry π τ)) : List (Nat × τ) :=
  es.filterMap fun e => (side e).map (e.time, ·)

/-- What a timetable sends at a port. -/
def sent (q : π) (es : List (Entry π τ)) : List (Nat × τ) := stamped (·.send q) es

/-- What a timetable receives at a port. -/
def taken (q : π) (es : List (Entry π τ)) : List (Nat × τ) := stamped (·.recv q) es

theorem stamped_append {side : Entry π τ → Option τ} {es es' : List (Entry π τ)} :
    stamped side (es ++ es') = stamped side es ++ stamped side es' :=
  List.filterMap_append ..

theorem stamped_flatMap {side : Entry π τ → Option τ} {xs : List σ} {f : σ → List (Entry π τ)} :
    stamped side (xs.flatMap f) = xs.flatMap fun x => stamped side (f x) :=
  List.filterMap_flatMap ..

/-- The two ends of every wire carry the same values at the same times. -/
def Agree (wire : Equiv.Perm (ι × π)) (tables : ι → List (Entry π τ)) : Prop :=
  ∀ i q, sent q (tables i) = taken (wire (i, q)).2 (tables (wire (i, q)).1)

theorem mem_stamped {side : Entry π τ → Option τ} {es : List (Entry π τ)} {t : Nat} {x : τ} :
    (t, x) ∈ stamped side es ↔ ∃ e ∈ es, side e = some x ∧ e.time = t := by
  simp only [stamped, List.mem_filterMap, Option.map_eq_some_iff, Prod.mk.injEq]
  constructor
  · rintro ⟨e, mem, _, here, rfl, rfl⟩
    exact ⟨e, mem, here, rfl⟩
  · rintro ⟨e, mem, here, rfl⟩
    exact ⟨e, mem, x, here, rfl, rfl⟩

section Cost

variable [Fintype π] {e : Entry π τ} {es : List (Entry π τ)}

/-- An entry takes a step for each open operation and one to go on. -/
def Entry.cost (e : Entry π τ) : Nat :=
  (Finset.univ.filter fun q => (e.send q).isSome).card + (Finset.univ.filter fun q => (e.recv q).isSome).card + 1

def cost (es : List (Entry π τ)) : Nat := (es.map Entry.cost).sum

/-- The steps a run can take. -/
def total [Fintype ι] (tables : ι → List (Entry π τ)) : Nat := ∑ i, cost (tables i)

theorem cost_tail : cost es < cost (e :: es) := by
  simp only [cost, List.map_cons, List.sum_cons, Entry.cost]
  omega

end Cost

/-- A rank has the rest of a timetable before it; of the first entry the open operations. -/
inductive Follows : Rank π τ ρ → List (Entry π τ) → ρ → Prop where
  | done {r : ρ} : Follows (.done r) [] r
  | waiting {e : Entry π τ} {es : List (Entry π τ)} {got : π → Option τ} {next : (π → Option τ) → Proc π τ ρ} {r : ρ}
      {hi : Nat} (rest : Plays (e.time + 1) (next fun q => (e.recv q).or (got q)) es r hi) :
      Follows (.waiting e.send (fun q => (e.recv q).isSome) got next) (e :: es) r

namespace Follows

variable {rank : Rank π τ ρ} {es : List (Entry π τ)} {r : ρ} {q : π} {x : τ}

theorem start {lo hi : Nat} {p : Proc π τ ρ} (h : Plays lo p es r hi) : Follows p.start es r := by
  cases h with
  | done => exact .done
  | comm _ rest =>
    apply Follows.waiting
    simp only [Option.or_none]
    exact rest

theorem of_offers (h : Follows rank es r) (offers : rank.offers q = some x) : ∃ e rest, es = e :: rest ∧ e.send q = some x := by
  cases h with
  | done => cases offers
  | @waiting e rest => exact ⟨e, rest, rfl, offers⟩

theorem of_awaits (h : Follows rank es r) (awaits : rank.awaits q = true) :
    ∃ e rest x, es = e :: rest ∧ e.recv q = some x := by
  cases h with
  | done => cases awaits
  | @waiting e rest =>
    obtain ⟨x, here⟩ := Option.isSome_iff_exists.1 awaits
    exact ⟨e, rest, x, rfl, here⟩

theorem head_lt {e : Entry π τ} (h : Follows rank (e :: es) r) : ∀ e' ∈ es, e.time < e'.time := by
  cases h with
  | waiting plays => exact plays.later

theorem offers {e : Entry π τ} (h : Follows rank (e :: es) r) (here : e.send q = some x) : rank.offers q = some x := by
  cases h with
  | waiting => exact here

theorem awaits {e : Entry π τ} (h : Follows rank (e :: es) r) (here : e.recv q = some x) : rank.awaits q = true := by
  cases h with
  | waiting =>
    show (e.recv q).isSome = true
    rw [here]
    rfl

theorem resumed {send : π → Option τ} {recv : π → Bool} {got : π → Option τ} {next : (π → Option τ) → Proc π τ ρ}
    (h : Follows (.waiting send recv got next) es r) (sent : ∀ q, send q = none) (received : ∀ q, recv q = false) :
    ∃ e rest, es = e :: rest ∧ (∀ q, e.send q = none) ∧ (∀ q, e.recv q = none) ∧ Follows (next got).start rest r := by
  cases h with
  | @waiting e rest _ _ _ _ plays =>
    have none : ∀ q, e.recv q = none := fun q => Option.isNone_iff_eq_none.1 (Option.isSome_eq_false_iff.1 (received q))
    simp only [none, Option.none_or] at plays
    exact ⟨e, rest, rfl, sent, none, start plays⟩

end Follows

/-! ## Completed operations -/

section Completed

variable [DecidableEq π]

/-- The first entry without its send at a port. -/
def dropSent (q : π) : List (Entry π τ) → List (Entry π τ)
  | [] => []
  | e :: es => { e with send := Function.update e.send q none } :: es

/-- The first entry without its receive at a port. -/
def dropTaken (q : π) : List (Entry π τ) → List (Entry π τ)
  | [] => []
  | e :: es => { e with recv := Function.update e.recv q none } :: es

variable {q b : π} {es : List (Entry π τ)}

theorem sent_dropSent_other (other : b ≠ q) : sent b (dropSent q es) = sent b es := by
  cases es with
  | nil => rfl
  | cons e es => simp only [sent, stamped, dropSent, List.filterMap_cons, Function.update_of_ne other]

theorem taken_dropSent : taken b (dropSent q es) = taken b es := by
  cases es <;> rfl

theorem taken_dropTaken_other (other : b ≠ q) : taken b (dropTaken q es) = taken b es := by
  cases es with
  | nil => rfl
  | cons e es => simp only [taken, stamped, dropTaken, List.filterMap_cons, Function.update_of_ne other]

theorem sent_dropTaken : sent b (dropTaken q es) = sent b es := by
  cases es <;> rfl

variable {e : Entry π τ} {x : τ}

theorem sent_cons (here : e.send q = some x) : sent q (e :: es) = (e.time, x) :: sent q (dropSent q (e :: es)) := by
  simp only [sent, stamped, dropSent, List.filterMap_cons, here, Option.map_some, Function.update_self, Option.map_none]

theorem taken_cons (here : e.recv q = some x) : taken q (e :: es) = (e.time, x) :: taken q (dropTaken q (e :: es)) := by
  simp only [taken, stamped, dropTaken, List.filterMap_cons, here, Option.map_some, Function.update_self, Option.map_none]

variable {rank : Rank π τ ρ} {r : ρ}

theorem Follows.sent (h : Follows rank es r) (offers : rank.offers q = some x) : Follows (rank.sent q) (dropSent q es) r := by
  cases h with
  | done => cases offers
  | @waiting e rest got next _ _ plays =>
    exact .waiting (e := { e with send := Function.update e.send q none }) plays

theorem Follows.received (h : Follows rank (e :: es) r) (here : e.recv q = some x) :
    Follows (rank.received q x) (dropTaken q (e :: es)) r := by
  cases h with
  | @waiting _ _ got next _ _ plays =>
    have open' : Function.update (fun b => (e.recv b).isSome) q false = fun b => (Function.update e.recv q none b).isSome := by
      funext b
      by_cases same : b = q
      · subst same
        rw [Function.update_self, Function.update_self]
        rfl
      · rw [Function.update_of_ne same, Function.update_of_ne same]
    have fed : (fun b => (Function.update e.recv q none b).or (Function.update got q (some x) b)) =
        fun b => (e.recv b).or (got b) := by
      funext b
      by_cases same : b = q
      · subst same
        rw [Function.update_self, Function.update_self, here]
        rfl
      · rw [Function.update_of_ne same, Function.update_of_ne same]
    show Follows (.waiting e.send (Function.update _ q false) (Function.update got q (some x)) next) _ r
    rw [open']
    apply Follows.waiting (e := { e with recv := Function.update e.recv q none })
    rw [fed]
    exact plays

variable [Fintype π]

theorem card_update_lt {f : π → Option τ} (here : f q = some x) :
    (Finset.univ.filter fun b => (Function.update f q none b).isSome).card < (Finset.univ.filter fun b => (f b).isSome).card := by
  apply Finset.card_lt_card
  rw [Finset.ssubset_iff_of_subset]
  · refine ⟨q, ?_, ?_⟩
    · rw [Finset.mem_filter, here]
      exact ⟨Finset.mem_univ q, rfl⟩
    · rw [Finset.mem_filter, Function.update_self]
      exact fun mem => (nomatch mem.2)
  · intro b mem
    rw [Finset.mem_filter] at mem ⊢
    by_cases same : b = q
    · rw [same, Function.update_self] at mem
      exact (nomatch mem.2)
    · rwa [Function.update_of_ne same] at mem

theorem cost_dropSent (here : e.send q = some x) : cost (dropSent q (e :: es)) < cost (e :: es) := by
  have := card_update_lt here
  simp only [cost, dropSent, List.map_cons, List.sum_cons, Entry.cost]
  omega

theorem cost_dropTaken (here : e.recv q = some x) : cost (dropTaken q (e :: es)) < cost (e :: es) := by
  have := card_update_lt here
  simp only [cost, dropTaken, List.map_cons, List.sum_cons, Entry.cost]
  omega

end Completed

/-! ## Runs -/

variable [DecidableEq ι]

theorem total_update [Fintype ι] [Fintype π] {es : List (Entry π τ)} {tables : ι → List (Entry π τ)} {i : ι}
    (less : cost es < cost (tables i)) :
    total (Function.update tables i es) < total tables := by
  apply Finset.sum_lt_sum
  · intro a _
    by_cases same : a = i
    · rw [same, Function.update_self]
      exact less.le
    · rw [Function.update_of_ne same]
  · refine ⟨i, Finset.mem_univ i, ?_⟩
    rw [Function.update_self]
    exact less

theorem update_keeps {α : Type} {f : List (Entry π τ) → α} {es : List (Entry π τ)} {tables : ι → List (Entry π τ)} {i a : ι}
    (keeps : a = i → f es = f (tables i)) : f (Function.update tables i es a) = f (tables a) := by
  by_cases same : a = i
  · rw [same, Function.update_self, keeps same]
  · rw [Function.update_of_ne same]

/-- Tables that change at the two ends of one wire agree when these ends do. -/
theorem Agree.change {wire : Equiv.Perm (ι × π)} {tables tables' : ι → List (Entry π τ)} (agree : Agree wire tables) {i j : ι} {q q' : π}
    (wired : wire (i, q) = (j, q')) (sends : ∀ a b, (a, b) ≠ (i, q) → sent b (tables' a) = sent b (tables a))
    (takes : ∀ a b, (a, b) ≠ (j, q') → taken b (tables' a) = taken b (tables a)) (ends : sent q (tables' i) = taken q' (tables' j)) :
    Agree wire tables' := by
  intro a b
  by_cases here : (a, b) = (i, q)
  · obtain ⟨rfl, rfl⟩ := Prod.mk.inj here
    rw [wired]
    exact ends
  · have apart : wire (a, b) ≠ (j, q') := fun eq => here (wire.injective (eq.trans wired.symm))
    rw [sends a b here, agree a b]
    exact (takes _ _ apart).symm

/-- Every rank has the rest of its timetable before it, and the rests agree. -/
structure OnTime (wire : Equiv.Perm (ι × π)) (s : ι → Rank π τ ρ) (tables : ι → List (Entry π τ)) (result : ι → ρ) :
    Prop where
  follows : ∀ i, Follows (s i) (tables i) (result i)
  agree : Agree wire tables

namespace OnTime

variable {wire : Equiv.Perm (ι × π)} {s s' : ι → Rank π τ ρ} {tables : ι → List (Entry π τ)} {result : ι → ρ}

theorem follows_update {i : ι} {rank : Rank π τ ρ} {es : List (Entry π τ)} (follows : ∀ a, Follows (s a) (tables a) (result a))
    (here : Follows rank es (result i)) (a : ι) : Follows (Function.update s i rank a) (Function.update tables i es a) (result a) := by
  by_cases same : a = i
  · subst same
    rw [Function.update_self, Function.update_self]
    exact here
  · rw [Function.update_of_ne same, Function.update_of_ne same]
    exact follows a

variable [DecidableEq π]

/-- A wire carries the first value of its two ends. -/
theorem transfer [Fintype ι] [Fintype π] (h : OnTime wire s tables result) {i j : ι} {q q' : π} {x : τ}
    (wired : wire (i, q) = (j, q')) (offers : (s i).offers q = some x) (awaits : (s j).awaits q' = true) :
    ∃ tables', OnTime wire (Function.update (Function.update s i ((s i).sent q)) j
      (((Function.update s i ((s i).sent q)) j).received q' x)) tables' result ∧ total tables' < total tables := by
  obtain ⟨e, rest, atI, sends⟩ := (h.follows i).of_offers offers
  have follows₁ := follows_update h.follows ((h.follows i).sent offers)
  have less₁ : total (Function.update tables i (dropSent q (tables i))) < total tables := by
    apply total_update
    rw [atI]
    exact cost_dropSent sends
  have awaits₁ : (Function.update s i ((s i).sent q) j).awaits q' = true := by
    by_cases same : j = i
    · subst same
      rw [Function.update_self]
      cases here : s j <;> rw [here] at awaits <;> exact awaits
    · rwa [Function.update_of_ne same]
  generalize Function.update s i ((s i).sent q) = s₁ at *
  have sent₁ : ∀ a b, (a, b) ≠ (i, q) → sent b (Function.update tables i (dropSent q (tables i)) a) = sent b (tables a) := by
    intro a b other
    apply update_keeps
    rintro rfl
    exact sent_dropSent_other fun eq => other (eq ▸ rfl)
  have taken₁ : ∀ a b, taken b (Function.update tables i (dropSent q (tables i)) a) = taken b (tables a) :=
    fun _ _ => update_keeps fun _ => taken_dropSent
  have sentI : sent q (tables i) = (e.time, x) :: sent q (Function.update tables i (dropSent q (tables i)) i) := by
    rw [Function.update_self, atI]
    exact sent_cons sends
  generalize Function.update tables i (dropSent q (tables i)) = tables₁ at *
  obtain ⟨e', rest', y, atJ, takes⟩ := (follows₁ j).of_awaits awaits₁
  have takenJ : taken q' (tables j) = (e'.time, y) :: taken q' (dropTaken q' (tables₁ j)) := by
    rw [← taken₁, atJ]
    exact taken_cons takes
  have meet := h.agree i q
  rw [wired, sentI, takenJ] at meet
  obtain ⟨head, tails⟩ := List.cons.inj meet
  obtain rfl : x = y := congrArg Prod.snd head
  have sent₂ : ∀ a b, sent b (Function.update tables₁ j (dropTaken q' (tables₁ j)) a) = sent b (tables₁ a) :=
    fun _ _ => update_keeps fun _ => sent_dropTaken
  refine ⟨Function.update tables₁ j (dropTaken q' (tables₁ j)), ⟨follows_update follows₁ ?_, h.agree.change wired ?_ ?_ ?_⟩, ?_⟩
  · have at' := follows₁ j
    rw [atJ] at at' ⊢
    exact at'.received takes
  · intro a b other
    rw [sent₂, sent₁ a b other]
  · intro a b other
    rw [← taken₁]
    apply update_keeps
    rintro rfl
    exact taken_dropTaken_other fun eq => other (eq ▸ rfl)
  · rw [sent₂, Function.update_self]
    exact tails
  · apply (total_update _).trans less₁
    rw [atJ]
    exact cost_dropTaken takes

omit [DecidableEq π] in
/-- A rank whose operations are complete goes on to its next entry. -/
theorem resume [Fintype ι] [Fintype π] (h : OnTime wire s tables result) {i : ι} {send : π → Option τ} {recv : π → Bool}
    {got : π → Option τ} {next : (π → Option τ) → Proc π τ ρ} (here : s i = .waiting send recv got next)
    (sent' : ∀ q, send q = none) (received : ∀ q, recv q = false) :
    ∃ tables', OnTime wire (Function.update s i (next got).start) tables' result ∧ total tables' < total tables := by
  have follows := h.follows i
  rw [here] at follows
  obtain ⟨e, rest, atI, noSend, noRecv, follows⟩ := follows.resumed sent' received
  refine ⟨Function.update tables i rest, ⟨follows_update h.follows follows, fun a b => ?_⟩, ?_⟩
  · have sents : ∀ a b, sent b (Function.update tables i rest a) = sent b (tables a) := by
      intro a b
      apply update_keeps
      intro _
      rw [atI, sent, sent, stamped, stamped, List.filterMap_cons, noSend]
      rfl
    have takens : ∀ a b, taken b (Function.update tables i rest a) = taken b (tables a) := by
      intro a b
      apply update_keeps
      intro _
      rw [atI, taken, taken, stamped, stamped, List.filterMap_cons, noRecv]
      rfl
    rw [sents, takens]
    exact h.agree a b
  · apply total_update
    rw [atI]
    exact cost_tail

theorem step [Fintype ι] [Fintype π] (h : OnTime wire s tables result) (step : Step wire s s') :
    ∃ tables', OnTime wire s' tables' result ∧ total tables' < total tables := by
  cases step with
  | transfer wired offers awaits => exact h.transfer wired offers awaits
  | resume here sent received => exact h.resume here sent received

omit [DecidableEq ι] [DecidableEq π] in
/-- An entry at the earliest time is the first of its timetable. -/
theorem earliest_first (h : OnTime wire s tables result) {t : Nat} (earliest : ∀ j e es, tables j = e :: es → t ≤ e.time) {j : ι}
    {e : Entry π τ} (mem : e ∈ tables j) (time : e.time = t) : ∃ rest, tables j = e :: rest := by
  cases atJ : tables j with
  | nil =>
    rw [atJ] at mem
    exact absurd mem List.not_mem_nil
  | cons e' rest =>
    rw [atJ] at mem
    obtain rfl | mem := List.mem_cons.1 mem
    · exact ⟨rest, rfl⟩
    · have follows := h.follows j
      rw [atJ] at follows
      have := follows.head_lt e mem
      have := earliest j e' rest atJ
      omega

/-- Of the ranks with open operations the one at the earliest time can go on. -/
theorem progress (h : OnTime wire s tables result) : (∃ s', Step wire s s') ∨ ∀ i, s i = .done (result i) := by
  classical
  by_cases some : ∃ t i e es, tables i = e :: es ∧ e.time = t
  · refine .inl ?_
    obtain ⟨i, e, es, atI, here⟩ := Nat.find_spec some
    have earliest : ∀ j e' es', tables j = e' :: es' → e.time ≤ e'.time := by
      intro j e' es' atJ
      rw [here]
      exact Nat.find_min' some ⟨j, e', es', atJ, rfl⟩
    have followsI := h.follows i
    rw [atI] at followsI
    by_cases sends : ∃ q x, e.send q = .some x
    · obtain ⟨q, x, sends⟩ := sends
      have carried : (e.time, x) ∈ taken (wire (i, q)).2 (tables (wire (i, q)).1) := by
        rw [← h.agree i q, atI]
        exact mem_stamped.2 ⟨e, List.mem_cons_self .., sends, rfl⟩
      obtain ⟨e', mem, takes, time⟩ := mem_stamped.1 carried
      obtain ⟨rest, atJ⟩ := h.earliest_first earliest mem time
      have followsJ := h.follows (wire (i, q)).1
      rw [atJ] at followsJ
      exact ⟨_, .transfer rfl (followsI.offers sends) (followsJ.awaits takes)⟩
    · by_cases takes : ∃ q x, e.recv q = .some x
      · obtain ⟨q, x, takes⟩ := takes
        obtain ⟨⟨j, q'⟩, wired⟩ := wire.surjective (i, q)
        have carried : (e.time, x) ∈ sent q' (tables j) := by
          rw [h.agree j q', wired, atI]
          exact mem_stamped.2 ⟨e, List.mem_cons_self .., takes, rfl⟩
        obtain ⟨e', mem, sends, time⟩ := mem_stamped.1 carried
        obtain ⟨rest, atJ⟩ := h.earliest_first earliest mem time
        have followsJ := h.follows j
        rw [atJ] at followsJ
        exact ⟨_, .transfer wired (followsJ.offers sends) (followsI.awaits takes)⟩
      · generalize rankI : s i = rank at followsI
        cases followsI with
        | waiting =>
          refine ⟨_, .resume rankI (fun q => ?_) fun q => ?_⟩
          · exact Option.eq_none_iff_forall_ne_some.2 fun x eq => sends ⟨q, x, eq⟩
          · apply Option.isSome_eq_false_iff.2
            apply Option.isNone_iff_eq_none.2
            exact Option.eq_none_iff_forall_ne_some.2 fun x eq => takes ⟨q, x, eq⟩
  · refine .inr fun i => ?_
    have nothing : tables i = [] := by
      cases atI : tables i with
      | nil => rfl
      | cons e es => exact absurd ⟨e.time, i, e, es, atI, rfl⟩ some
    have follows := h.follows i
    rw [nothing] at follows
    generalize s i = rank at follows
    cases follows with
    | done => rfl

end OnTime

/-- **Programs that play timetables which agree always finish.** A run is no longer than the cost of the
timetables, and it stops only when every rank has returned what its timetable says. -/
theorem run_finishes [Fintype ι] [Fintype π] [DecidableEq π] {wire : Equiv.Perm (ι × π)} {prog : ι → Proc π τ ρ}
    {tables : ι → List (Entry π τ)} {result : ι → ρ} {last : ι → Nat}
    (plays : ∀ i, Plays 0 (prog i) (tables i) (result i) (last i)) (agree : Agree wire tables)
    {n : Nat} {s : ι → Rank π τ ρ} (run : Steps wire n (fun i => (prog i).start) s) :
    n ≤ total tables ∧ ((∃ s', Step wire s s') ∨ ∀ i, s i = .done (result i)) := by
  have inv : ∃ tables', OnTime wire s tables' result ∧ n + total tables' ≤ total tables := by
    generalize first : (fun i => (prog i).start) = s₀ at run
    induction run with
    | refl =>
      subst first
      exact ⟨tables, ⟨fun i => .start (plays i), agree⟩, by omega⟩
    | tail _ step ih =>
      obtain ⟨tables', onTime, bound⟩ := ih first
      obtain ⟨tables'', onTime, less⟩ := onTime.step step
      exact ⟨tables'', onTime, by omega⟩
  obtain ⟨tables', onTime, bound⟩ := inv
  exact ⟨by omega, onTime.progress⟩

end Rendezvous
