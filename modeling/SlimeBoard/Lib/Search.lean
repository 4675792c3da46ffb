import Mathlib

/-!
# Breadth-first search through free nodes

A node is expanded when it is the start or free; occupied nodes are discovered
but not crossed. `bfs` records every discovery with the node it was discovered
from. The search discovers exactly the nodes a route reaches, each once, and
from a node one step nearer to the start, whatever the order in which the
neighbours are listed.
-/

namespace GraphSearch

variable {α : Type}

/-- The search state: the queue, the visited nodes and the discoveries so far. -/
structure State (α : Type) where
  queue : List α
  visited : List α
  visits : List (α × α)

section Search

variable [DecidableEq α] (nbrs : α → List α) (free : α → Bool)

/-- Look at the neighbour `pos` of `nxt`. -/
def State.look (nxt : α) (s : State α) (pos : α) : State α :=
  if pos ∈ s.visited then s
  else
    { queue := if free pos then s.queue ++ [pos] else s.queue
      visited := s.visited ++ [pos]
      visits := s.visits ++ [(pos, nxt)] }

/-- At most `fuel` turns of the queue loop. -/
def bfs : Nat → State α → State α
  | 0, s => s
  | fuel + 1, s =>
    match s.queue with
    | [] => s
    | nxt :: queue => bfs fuel ((nbrs nxt).foldl (State.look free nxt) { s with queue })

/-- The state before the first turn. -/
def State.init (start : α) : State α := ⟨[start], [start], []⟩

end Search

section Routes

variable (nbrs : α → List α) (free : α → Bool) (start : α)

/-- Nodes the search expands. -/
def Expands (x : α) : Prop := x = start ∨ free x = true

/-- `x` is reached from the start in `n` steps through expanded nodes. -/
inductive Route : Nat → α → Prop where
  | start : Route 0 start
  | step {n : Nat} {r q : α} : Route n r → Expands free start r → q ∈ nbrs r → Route (n + 1) q

/-- `x` is reached from the start. -/
def Reached (x : α) : Prop := ∃ n, Route nbrs free start n x

/-- Length of a shortest route. -/
noncomputable def dist (x : α) : Nat := sInf {n | Route nbrs free start n x}

variable {nbrs free start}

theorem Reached.route_dist {x : α} (h : Reached nbrs free start x) :
    Route nbrs free start (dist nbrs free start x) x :=
  Nat.sInf_mem h

theorem Route.dist_le {n : Nat} {x : α} (h : Route nbrs free start n x) :
    dist nbrs free start x ≤ n :=
  Nat.sInf_le h

/-- Routes go along a map of the graph. -/
theorem Route.map {β : Type} {nbrs' : β → List β} {free' : β → Bool} (f : α → β)
    (edges : ∀ r, ∀ q ∈ nbrs r, f q ∈ nbrs' (f r)) (frees : ∀ r, free r = true → free' (f r) = true) {n : Nat} {x : α}
    (route : Route nbrs free start n x) : Route nbrs' free' (f start) n (f x) := by
  induction route with
  | start => exact .start
  | step _ expands edge ih =>
    refine .step ih ?_ (edges _ _ edge)
    exact expands.imp (congrArg f) (frees _)

theorem dist_start : dist nbrs free start start = 0 :=
  Nat.le_zero.1 (Route.dist_le .start)

theorem Reached.next {r q : α} (h : Reached nbrs free start r) (expands : Expands free start r)
    (edge : q ∈ nbrs r) : Reached nbrs free start q :=
  ⟨_, .step h.route_dist expands edge⟩

end Routes

section Invariant

variable (nbrs : α → List α) (free : α → Bool) (start : α)

/-- The loop invariant at distance `k`: the queue holds expandable nodes at
distance `k` or `k + 1` in ascending order, and all other expandable visited
nodes, except those of `cur`, have only visited neighbours. -/
structure Level (cur : List α) (k : Nat) (s : State α) : Prop where
  visited : s.visited = start :: s.visits.map Prod.fst
  nodup : s.visited.Nodup
  parent : ∀ q r, (q, r) ∈ s.visits → r ∈ s.visited ∧ Expands free start r ∧ q ∈ nbrs r ∧
    Reached nbrs free start r ∧ dist nbrs free start q = dist nbrs free start r + 1
  queued : ∀ x ∈ s.queue, x ∈ s.visited ∧ Expands free start x ∧
    k ≤ dist nbrs free start x ∧ dist nbrs free start x ≤ k + 1
  sorted : s.queue.Pairwise (fun x y => dist nbrs free start x ≤ dist nbrs free start y)
  current : ∀ x ∈ cur, x ∈ s.visited ∧ Expands free start x ∧ dist nbrs free start x = k
  closed : ∀ r ∈ s.visited, Expands free start r → r ∉ s.queue → r ∉ cur →
    ∀ q ∈ nbrs r, q ∈ s.visited

variable {nbrs free start} {cur : List α} {k : Nat} {s : State α}

theorem Level.reached (h : Level nbrs free start cur k s) {x : α} (mem : x ∈ s.visited) :
    Reached nbrs free start x := by
  rw [h.visited, List.mem_cons, List.mem_map] at mem
  rcases mem with rfl | ⟨⟨q, r⟩, mem, rfl⟩
  · exact ⟨0, .start⟩
  · obtain ⟨_, expands, edge, reached, _⟩ := h.parent q r mem
    exact reached.next expands edge

/-- Every node not yet visited is farther than the current level. -/
theorem Level.unvisited_far (h : Level nbrs free start cur k s) {n : Nat} {x : α}
    (route : Route nbrs free start n x) (fresh : x ∉ s.visited) : k + 1 ≤ n := by
  induction route with
  | start => exact absurd (by simp [h.visited]) fresh
  | @step n r q route expands edge ih =>
    by_cases seen : r ∈ s.visited
    · have low := route.dist_le
      by_cases queued : r ∈ s.queue
      · have := (h.queued r queued).2.2.1; omega
      · by_cases current : r ∈ cur
        · have := (h.current r current).2.2; omega
        · exact absurd (h.closed r seen expands queued current q edge) fresh
    · have := ih seen; omega

theorem level_init (start : α) : Level nbrs free start [] 0 (State.init start) := by
  refine ⟨rfl, List.nodup_singleton _, by simp [State.init], ?_, List.pairwise_singleton _ _,
    by simp, ?_⟩
  · intro x mem
    obtain rfl := List.mem_singleton.1 mem
    exact ⟨mem, Or.inl rfl, by omega, by rw [dist_start]; omega⟩
  · intro r mem _ notQueued
    exact absurd mem notQueued

variable [DecidableEq α]

/-- Looking at a neighbour keeps the level and marks the neighbour. -/
theorem Level.look {nxt pos : α} (h : Level nbrs free start [nxt] k s) (edge : pos ∈ nbrs nxt) :
    Level nbrs free start [nxt] k (s.look free nxt pos) ∧ pos ∈ (s.look free nxt pos).visited ∧
      ∀ x ∈ s.visited, x ∈ (s.look free nxt pos).visited := by
  unfold State.look
  split
  · rename_i seen; exact ⟨h, seen, fun _ mem => mem⟩
  · rename_i fresh
    obtain ⟨nxtSeen, nxtExpands, nxtDist⟩ := h.current nxt (List.mem_singleton_self _)
    have nxtReached := h.reached nxtSeen
    have reached := nxtReached.next nxtExpands edge
    have far := h.unvisited_far reached.route_dist fresh
    have near := (Route.step nxtReached.route_dist nxtExpands edge).dist_le
    have level : dist nbrs free start pos = k + 1 := by omega
    have grows : ∀ x ∈ s.visited, x ∈ s.visited ++ [pos] := fun x mem => List.mem_append_left _ mem
    have self : pos ∈ s.visited ++ [pos] := by simp
    refine ⟨⟨?_, ?_, ?_, ?_, ?_, ?_, ?_⟩, self, grows⟩
    · simp [h.visited]
    · rw [List.nodup_append]
      exact ⟨h.nodup, List.nodup_singleton _, by rintro x mem y same rfl; simp_all⟩
    · intro q r mem
      rcases List.mem_append.1 mem with mem | mem
      · obtain ⟨seen, rest⟩ := h.parent q r mem
        exact ⟨grows r seen, rest⟩
      · simp only [List.mem_singleton, Prod.mk.injEq] at mem
        obtain ⟨rfl, rfl⟩ := mem
        exact ⟨grows _ nxtSeen, nxtExpands, edge, nxtReached, by omega⟩
    · intro x mem
      have old : x ∈ s.queue → x ∈ s.visited ++ [pos] ∧ Expands free start x ∧
          k ≤ dist nbrs free start x ∧ dist nbrs free start x ≤ k + 1 := fun mem =>
        ⟨grows x (h.queued x mem).1, (h.queued x mem).2⟩
      dsimp only at mem
      split at mem
      · rename_i isFree
        rcases List.mem_append.1 mem with mem | mem
        · exact old mem
        · rw [List.mem_singleton] at mem
          subst mem
          exact ⟨self, Or.inr isFree, by omega, by omega⟩
      · exact old mem
    · dsimp only
      split
      · rw [List.pairwise_append]
        refine ⟨h.sorted, List.pairwise_singleton _ _, ?_⟩
        intro x mem y same
        rw [List.mem_singleton] at same
        subst same
        have := (h.queued x mem).2.2.2
        omega
      · exact h.sorted
    · intro x mem
      obtain ⟨seen, rest⟩ := h.current x mem
      exact ⟨grows x seen, rest⟩
    · intro r mem expands notQueued notCurrent q edge'
      rcases List.mem_append.1 mem with mem | mem
      · refine grows q (h.closed r mem expands ?_ notCurrent q edge')
        intro queued
        apply notQueued
        dsimp only
        split
        · exact List.mem_append_left _ queued
        · exact queued
      · rw [List.mem_singleton] at mem
        subst mem
        rcases expands with rfl | isFree
        · exact absurd (by simp [h.visited]) fresh
        · exact absurd (by simp [isFree]) notQueued

theorem Level.look_all {nxt : α} (poss : List α) {s : State α}
    (h : Level nbrs free start [nxt] k s) (edges : ∀ pos ∈ poss, pos ∈ nbrs nxt) :
    Level nbrs free start [nxt] k (poss.foldl (State.look free nxt) s) ∧
      (∀ pos ∈ poss, pos ∈ (poss.foldl (State.look free nxt) s).visited) ∧
      ∀ x ∈ s.visited, x ∈ (poss.foldl (State.look free nxt) s).visited := by
  induction poss generalizing s with
  | nil => exact ⟨h, by simp, fun _ mem => mem⟩
  | cons pos poss ih =>
    obtain ⟨next, marked, grows⟩ := h.look (edges pos (List.mem_cons_self ..))
    obtain ⟨final, all, keeps⟩ := ih next fun p mem => edges p (List.mem_cons_of_mem _ mem)
    refine ⟨final, ?_, fun x mem => keeps x (grows x mem)⟩
    intro p mem
    rcases List.mem_cons.1 mem with rfl | mem
    · exact keeps _ marked
    · exact all p mem

/-- One turn of the queue loop reaches the level of the node it pops. -/
theorem Level.turn {nxt : α} {queue : List α} (h : Level nbrs free start [] k s)
    (front : s.queue = nxt :: queue) :
    Level nbrs free start [] (dist nbrs free start nxt)
      ((nbrs nxt).foldl (State.look free nxt) { s with queue }) := by
  obtain ⟨seen, expands, low, high⟩ := h.queued nxt (by simp [front])
  have sorted := h.sorted
  rw [front, List.pairwise_cons] at sorted
  have popped : Level nbrs free start [nxt] (dist nbrs free start nxt) { s with queue } := by
    refine ⟨h.visited, h.nodup, h.parent, ?_, sorted.2, ?_, ?_⟩
    · intro x mem
      obtain ⟨seen, expands, _, high'⟩ := h.queued x (by rw [front]; exact List.mem_cons_of_mem _ mem)
      have := sorted.1 x mem
      exact ⟨seen, expands, this, by omega⟩
    · intro x mem
      rw [List.mem_singleton] at mem
      subst mem
      exact ⟨seen, expands, rfl⟩
    · intro r mem expands notQueued notCurrent
      refine h.closed r mem expands ?_ (by simp)
      rw [front, List.mem_cons]
      rintro (rfl | queued)
      · exact notCurrent (List.mem_singleton_self _)
      · exact notQueued queued
  obtain ⟨final, marked, _⟩ := popped.look_all (nbrs nxt) fun _ mem => mem
  refine ⟨final.visited, final.nodup, final.parent, final.queued, final.sorted, by simp, ?_⟩
  intro r mem expands notQueued _ q edge
  by_cases same : r = nxt
  · subst same; exact marked q edge
  · exact final.closed r mem expands notQueued (by simpa using same) q edge

/-- Turns left: queued nodes and nodes not yet visited. -/
def State.pending [Fintype α] (s : State α) : Nat :=
  s.queue.length + (Fintype.card α - s.visited.length)

theorem look_pending [Fintype α] {nxt : α} (poss : List α) {s : State α} (nodup : s.visited.Nodup) :
    (poss.foldl (State.look free nxt) s).pending ≤ s.pending := by
  induction poss generalizing s with
  | nil => exact Nat.le_refl _
  | cons pos poss ih =>
    rw [List.foldl_cons]
    by_cases seen : pos ∈ s.visited
    · rw [show s.look free nxt pos = s by simp [State.look, seen]]
      exact ih nodup
    · have nodup' : (s.visited ++ [pos]).Nodup := by
        rw [List.nodup_append]
        exact ⟨nodup, List.nodup_singleton _, by rintro x mem y same rfl; simp_all⟩
      have room := nodup'.length_le_card
      refine (ih (by simpa [State.look, seen] using nodup')).trans ?_
      simp only [State.look, seen, State.pending, if_false, List.length_append, List.length_singleton]
        at room ⊢
      split <;> simp <;> omega

/-- With a turn for every pending node the queue runs empty. -/
theorem Level.bfs [Fintype α] {fuel : Nat} (enough : s.pending ≤ fuel)
    (h : Level nbrs free start [] k s) :
    (GraphSearch.bfs nbrs free fuel s).queue = [] ∧
      ∃ k', Level nbrs free start [] k' (GraphSearch.bfs nbrs free fuel s) := by
  induction fuel generalizing s k with
  | zero =>
    rw [GraphSearch.bfs]
    simp only [State.pending, Nat.le_zero, Nat.add_eq_zero_iff, List.length_eq_zero_iff] at enough
    exact ⟨enough.1, k, h⟩
  | succ fuel ih =>
    rw [GraphSearch.bfs]
    split
    · rename_i empty; exact ⟨empty, k, h⟩
    · rename_i nxt queue front
      refine ih ?_ (h.turn front)
      have less := @look_pending α free _ _ nxt (nbrs nxt) { s with queue } h.nodup
      simp only [State.pending, front, List.length_cons] at enough less ⊢
      omega

end Invariant

section Result

variable [DecidableEq α] [Fintype α] {nbrs : α → List α} {free : α → Bool} {start : α}

variable (nbrs free start) in
/-- The discoveries of the whole search. -/
def discoveries : List (α × α) :=
  (bfs nbrs free (Fintype.card α) (State.init start)).visits

theorem exists_level :
    (bfs nbrs free (Fintype.card α) (State.init start)).queue = [] ∧
      ∃ k, Level nbrs free start [] k (bfs nbrs free (Fintype.card α) (State.init start)) := by
  refine Level.bfs ?_ (level_init start)
  have : 0 < Fintype.card α := Fintype.card_pos_iff.2 ⟨start⟩
  simp only [State.pending, State.init, List.length_singleton]
  omega

theorem discoveries_nodup : (start :: (discoveries nbrs free start).map Prod.fst).Nodup := by
  obtain ⟨_, k, h⟩ := @exists_level α _ _ nbrs free start
  rw [discoveries, ← h.visited]
  exact h.nodup

/-- Every discovery is one step farther than the node it comes from. -/
theorem discovery_parent {q r : α} (mem : (q, r) ∈ discoveries nbrs free start) :
    Expands free start r ∧ q ∈ nbrs r ∧ Reached nbrs free start r ∧
      dist nbrs free start q = dist nbrs free start r + 1 := by
  obtain ⟨_, k, h⟩ := @exists_level α _ _ nbrs free start
  exact (h.parent q r mem).2

/-- **The search discovers exactly the reached nodes.** -/
theorem mem_discoveries {q : α} :
    q ∈ (discoveries nbrs free start).map Prod.fst ↔ q ≠ start ∧ Reached nbrs free start q := by
  obtain ⟨empty, k, h⟩ := @exists_level α _ _ nbrs free start
  have visited := h.visited
  have nodup := h.nodup
  rw [visited, List.nodup_cons] at nodup
  constructor
  · intro mem
    exact ⟨fun same => nodup.1 (same ▸ mem), h.reached (by rw [visited]; exact List.mem_cons_of_mem _ mem)⟩
  · rintro ⟨differ, n, route⟩
    have all : q ∈ (bfs nbrs free (Fintype.card α) (State.init start)).visited := by
      clear differ
      induction route with
      | start => rw [visited]; exact List.mem_cons_self ..
      | step _ expands edge ih => exact h.closed _ ih expands (by simp [empty]) (by simp) _ edge
    rw [visited] at all
    exact (List.mem_cons.1 all).resolve_left differ

end Result

/-! ## Parent chains -/

/-- The chain from `q` along `next` to a node without a successor. -/
inductive Climbs {α : Type} (next : α → Option α) : α → List α → Prop where
  | root {q : α} : next q = none → Climbs next q [q]
  | step {q r : α} {l : List α} : next q = some r → Climbs next r l → Climbs next q (q :: l)

section Chains

variable {α β : Type} {next : α → Option α} {q : α} {l l' : List α}

theorem Climbs.unique (h : Climbs next q l) (h' : Climbs next q l') : l = l' := by
  induction h generalizing l' with
  | root stop =>
    cases h' with
    | root _ => rfl
    | step more _ => rw [stop] at more; cases more
  | step more _ ih =>
    cases h' with
    | root stop => rw [stop] at more; cases more
    | step more' rest =>
      rw [more, Option.some.injEq] at more'
      subst more'
      rw [ih rest]

/-- Every node of a chain starts a part of it. -/
theorem Climbs.suffix (h : Climbs next q l) {x : α} (mem : x ∈ l) : ∃ l', Climbs next x l' ∧ l' <:+ l := by
  induction h with
  | @root q stop =>
    obtain rfl := List.mem_singleton.1 mem
    exact ⟨[x], .root stop, List.suffix_refl _⟩
  | @step q r l more rest ih =>
    rcases List.mem_cons.1 mem with rfl | mem
    · exact ⟨x :: l, .step more rest, List.suffix_refl _⟩
    · obtain ⟨l', h', tail⟩ := ih mem
      exact ⟨l', h', tail.trans (List.suffix_cons q l)⟩

/-- A chain that ends meets no node twice. -/
theorem Climbs.nodup (h : Climbs next q l) : l.Nodup := by
  induction h with
  | root _ => exact List.nodup_singleton _
  | @step q r l more rest ih =>
    refine List.nodup_cons.2 ⟨fun mem => ?_, ih⟩
    obtain ⟨l', again, tail⟩ := rest.suffix mem
    have same := again.unique (.step more rest)
    have short := tail.length_le
    rw [same, List.length_cons] at short
    omega

/-- A map that commutes with the successors maps chains to chains. -/
theorem Climbs.map {next' : β → Option β} (f : α → β) (h : Climbs next q l)
    (commutes : ∀ x ∈ l, next' (f x) = (next x).map f) : Climbs next' (f q) (l.map f) := by
  induction h with
  | root stop =>
    refine .root ?_
    rw [commutes _ (List.mem_singleton_self _), stop]
    rfl
  | step more _ ih =>
    refine .step ?_ (ih fun x mem => commutes x (List.mem_cons_of_mem _ mem))
    rw [commutes _ (List.mem_cons_self ..), more]
    rfl

end Chains

end GraphSearch
