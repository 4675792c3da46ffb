import SlimeBoard.Board.Geometry
import SlimeBoard.Board.Rules

/-!
# What the move search finds

Every traversal visits a list of squares, each met from a predecessor, and does
the same at each (`collect`). The straight search visits what `Trie.visits`
lists, the flood what `GraphSearch.discoveries` lists. From this follow the sets
of `get_moves` and `get_engineer_moves` as predicates on the occupancy, and that
the duplicate-key assertions hold.
-/

namespace SlimeBoard

open Radix GraphSearch

variable {m : Dict Pos Piece}

/-! ## Visiting a list of squares -/

section Collect

variable (m) (attack : Piece → Bool)

/-- Visit the squares in order, each from the square it is met from. -/
def collect (visits : List (Pos × Pos)) (acc : Traversal) : Traversal :=
  visits.foldl (fun acc v => acc.visit m attack v.1 v.2) acc

/-- What a traversal has collected after the given visits. -/
structure Collected (visits : List (Pos × Pos)) (t : Traversal) : Prop where
  positions : ∀ q, q ∈ t.positions ↔ q ∈ visits.map Prod.fst ∧ Lands (m.lookup ·) attack q
  pieces : ∀ x, x ∈ t.pieces ↔ ∃ q ∈ visits.map Prod.fst, m.lookup q = some x
  parent : ∀ q r, t.parent.lookup q = some r ↔ (q, r) ∈ visits ∧ Lands (m.lookup ·) attack q

variable {m attack}

theorem isFree_iff {q : Pos} : isFree m q = true ↔ m.lookup q = none := by
  simp [isFree]

theorem lands_of_free {q : Pos} (h : m.lookup q = none) : Lands (m.lookup ·) attack q := by
  intro x (found : m.lookup q = some x)
  rw [h] at found
  cases found

/-- One more visit, of a square not met before. -/
theorem Collected.visit {visits : List (Pos × Pos)} {t : Traversal}
    (h : Collected m attack visits t) {q r : Pos} (fresh : q ∉ visits.map Prod.fst) :
    Collected m attack (visits ++ [(q, r)]) (t.visit m attack q r) := by
  have unseen : ∀ r', (q, r') ∉ visits := fun r' mem => fresh (List.mem_map_of_mem mem)
  have firsts : ∀ p, p ∈ (visits ++ [(q, r)]).map Prod.fst ↔ p ∈ visits.map Prod.fst ∨ p = q := by
    simp
  have positions : Lands (m.lookup ·) attack q → ∀ p, p ∈ t.positions.insert q ↔
      p ∈ (visits ++ [(q, r)]).map Prod.fst ∧ Lands (m.lookup ·) attack p := by
    intro lands p
    rw [List.mem_insert_iff, h.positions, firsts]
    constructor
    · rintro (rfl | ⟨mem, lands⟩)
      · exact ⟨Or.inr rfl, lands⟩
      · exact ⟨Or.inl mem, lands⟩
    · rintro ⟨mem | rfl, lands⟩
      · exact Or.inr ⟨mem, lands⟩
      · exact Or.inl rfl
  have parent : Lands (m.lookup ·) attack q → ∀ p s, (t.parent.insert q r).lookup p = some s ↔
      (p, s) ∈ visits ++ [(q, r)] ∧ Lands (m.lookup ·) attack p := by
    intro lands p s
    rw [Dict.lookup_insert, List.mem_append, List.mem_singleton, Prod.mk.injEq]
    split
    · rename_i same
      subst same
      simp [unseen, lands, eq_comm]
    · rename_i differ
      simp [h.parent, differ]
  unfold Traversal.visit
  split
  · rename_i free
    have lands : Lands (m.lookup ·) attack q := lands_of_free free
    refine ⟨positions lands, ?_, parent lands⟩
    intro x
    simp only [h.pieces, firsts, or_and_right, exists_or, exists_eq_left, free, reduceCtorEq, or_false]
  · rename_i x found
    have pieces : ∀ y, y ∈ t.pieces.insert x ↔
        ∃ p ∈ (visits ++ [(q, r)]).map Prod.fst, m.lookup p = some y := by
      intro y
      simp only [List.mem_insert_iff, h.pieces, firsts, or_and_right, exists_or, exists_eq_left, found,
        Option.some.injEq]
      rw [or_comm, eq_comm]
    split
    · rename_i hit
      have lands : Lands (m.lookup ·) attack q := by
        intro y (hy : m.lookup q = some y)
        rw [found, Option.some.injEq] at hy
        rw [← hy]
        exact hit
      exact ⟨positions lands, pieces, parent lands⟩
    · rename_i miss
      have blocked : ¬ Lands (m.lookup ·) attack q := fun lands => miss (lands x found)
      refine ⟨?_, pieces, ?_⟩
      · intro p
        rw [h.positions, firsts]
        constructor
        · rintro ⟨mem, lands⟩
          exact ⟨Or.inl mem, lands⟩
        · rintro ⟨mem | rfl, lands⟩
          · exact ⟨mem, lands⟩
          · exact absurd lands blocked
      · intro p s
        rw [h.parent, List.mem_append, List.mem_singleton, Prod.mk.injEq]
        constructor
        · rintro ⟨mem, lands⟩
          exact ⟨Or.inl mem, lands⟩
        · rintro ⟨mem | ⟨rfl, _⟩, lands⟩
          · exact ⟨mem, lands⟩
          · exact absurd lands blocked

theorem collected_empty : Collected m attack [] .empty :=
  ⟨by simp [Traversal.empty], by simp [Traversal.empty], by simp [Traversal.empty]⟩

/-- Visiting different squares collects each of them. -/
theorem collect_collected {visits : List (Pos × Pos)} (nodup : (visits.map Prod.fst).Nodup) :
    Collected m attack visits (collect m attack visits .empty) := by
  induction visits using List.reverseRecOn with
  | nil => exact collected_empty
  | append_singleton visits v ih =>
    rw [List.map_append, List.nodup_append] at nodup
    rw [collect, List.foldl_append]
    refine (ih nodup.1).visit fun mem => ?_
    exact nodup.2.2 _ mem _ (List.mem_singleton_self _) rfl

theorem collect_append (us vs : List (Pos × Pos)) (acc : Traversal) :
    collect m attack (us ++ vs) acc = collect m attack vs (collect m attack us acc) :=
  List.foldl_append ..

/-! ## The searches as lists of visits -/

theorem walkPath_eq (prev : Pos) (path : List Pos) (acc : Traversal) :
    walkPath m attack prev path acc =
      (collect m attack (walk (isFree m) prev path) acc,
        if path.all (isFree m) then some (path.getLastD prev) else none) := by
  induction path generalizing prev acc with
  | nil => rfl
  | cons pos path ih =>
    rw [walkPath, walk, List.all_cons]
    by_cases free : isFree m pos = true
    · rw [if_pos free, ih, if_pos free, free, Bool.true_and]
      cases path <;> rfl
    · rw [if_neg free, if_neg free, Bool.not_eq_true _ |>.mp free]
      rfl

theorem dfs_eq (t : Trie Pos) (prev : Pos) (acc : Traversal) :
    dfs m attack t prev acc = collect m attack (t.visits (isFree m) prev) acc := by
  induction t generalizing prev acc with
  | empty => rfl
  | entry path subtree rest ihs ihr =>
    rw [dfs, walkPath_eq, Trie.visits]
    by_cases all : path.all (isFree m) = true
    · simp only [if_pos all, ihs, ihr, collect_append]
    · simp only [if_neg all, ihr, List.append_nil, collect_append]

theorem look_eq (nxt : Pos) (poss : List Pos) (s : State Pos) (acc : Traversal) :
    poss.foldl (Flood.look m attack nxt) ⟨s.queue, s.visited, collect m attack s.visits acc⟩ =
      ⟨(poss.foldl (State.look (isFree m) nxt) s).queue,
        (poss.foldl (State.look (isFree m) nxt) s).visited,
        collect m attack (poss.foldl (State.look (isFree m) nxt) s).visits acc⟩ := by
  induction poss generalizing s with
  | nil => rfl
  | cons pos poss ih =>
    rw [List.foldl_cons, List.foldl_cons, ← ih]
    congr 1
    unfold Flood.look State.look
    split
    · rfl
    · simp only [collect_append]
      rfl

theorem flood_eq (graph : Pos → List Pos) (fuel : Nat) (s : State Pos) (acc : Traversal) :
    (Flood.run m attack graph fuel ⟨s.queue, s.visited, collect m attack s.visits acc⟩).acc =
      collect m attack (bfs graph (isFree m) fuel s).visits acc := by
  induction fuel generalizing s with
  | zero => rfl
  | succ fuel ih =>
    rw [Flood.run, bfs]
    cases s.queue with
    | nil => rfl
    | cons nxt queue =>
      dsimp only
      rw [← ih, ← look_eq nxt (graph nxt) { s with queue }]

theorem traverse_eq (start : Pos) (graph : Pos → List Pos) (isCamp : Bool) :
    traverse m start graph isCamp =
      collect m (fun x => !isCamp && attacks (m.lookup start) x) ((graph start).map (·, start)) .empty := by
  rw [traverse, collect, List.foldl_map]

end Collect

/-- What `traverse` collects from one neighbour table. -/
theorem traverse_collected {start : Pos} {graph : Pos → List Pos} {isCamp : Bool}
    (nodup : (graph start).Nodup) :
    Collected m (fun x => !isCamp && attacks (m.lookup start) x) ((graph start).map (·, start))
      (traverse m start graph isCamp) := by
  rw [traverse_eq]
  apply collect_collected
  simpa [List.map_map, Function.comp_def] using nodup

theorem lands_camp {start q : Pos} :
    Lands (m.lookup ·) (fun x => !true && attacks (m.lookup start) x) q ↔ m.lookup q = none := by
  constructor
  · intro h
    cases found : m.lookup q with
    | none => rfl
    | some x => cases h x found
  · exact lands_of_free

/-! ## Merging the parent maps -/

/-- Merging fresh keys passes the duplicate-key assertion and reads the new map first. -/
theorem mergeParent_ok {parent : Dict Pos (Option Pos)} {d : Dict Pos Pos}
    (fresh : ∀ k ∈ d, k ∉ parent) :
    ∃ merged, mergeParent parent d = .ok merged ∧
      ∀ q, merged.lookup q = ((d.lookup q).map some).or (parent.lookup q) := by
  obtain ⟨entries, nodup⟩ := d
  unfold mergeParent
  induction entries generalizing parent with
  | nil => exact ⟨parent, rfl, fun q => by simp [AList.lookup]⟩
  | cons entry entries ih =>
    obtain ⟨k, r⟩ := entry
    rw [List.nodupKeys_cons] at nodup
    have first : k ∉ parent := fresh k (by simp [AList.mem_mk])
    have fresh' : ∀ k' ∈ AList.mk entries nodup.2, k' ∉ parent.insert k (some r) := by
      intro k' mem
      rw [AList.mem_insert, not_or]
      refine ⟨?_, fresh k' ?_⟩
      · rintro rfl
        exact nodup.1 (by simpa [AList.mem_mk] using mem)
      · simp only [AList.mem_mk, List.keys_cons, List.mem_cons] at mem ⊢
        exact Or.inr mem
    obtain ⟨merged, run, read⟩ := ih nodup.2 fresh'
    refine ⟨merged, ?_, ?_⟩
    · simp only [List.foldlM_cons, first, decide_false, Bool.not_false, pyAssert_true]
      exact run
    · intro q
      rw [read, Dict.lookup_insert]
      simp only [AList.lookup]
      by_cases same : q = k
      · subst same
        rw [List.dlookup_eq_none.2 nodup.1, List.dlookup_cons_eq]
        simp
      · rw [List.dlookup_cons_ne _ _ same, if_neg same]

/-- Merging maps with pairwise different keys keeps every entry. -/
theorem mergeParents_ok {ds : List (Dict Pos Pos)} {parent : Dict Pos (Option Pos)}
    (fresh : ∀ d ∈ ds, ∀ k ∈ d, k ∉ parent) (disjoint : ds.Pairwise fun d e => ∀ k ∈ d, k ∉ e) :
    ∃ merged, ds.foldlM mergeParent parent = .ok merged ∧
      (∀ q v, parent.lookup q = some v → merged.lookup q = some v) ∧
      ∀ d ∈ ds, ∀ q r, d.lookup q = some r → merged.lookup q = some (some r) := by
  induction ds generalizing parent with
  | nil => exact ⟨parent, rfl, fun _ _ h => h, by simp⟩
  | cons d ds ih =>
    rw [List.pairwise_cons] at disjoint
    obtain ⟨next, run, read⟩ := mergeParent_ok (fresh d (List.mem_cons_self ..))
    have absent : ∀ q, q ∈ parent → d.lookup q = none := fun q mem =>
      AList.lookup_eq_none.2 fun mem' => fresh d (List.mem_cons_self ..) q mem' mem
    have fresh' : ∀ e ∈ ds, ∀ k ∈ e, k ∉ next := by
      intro e mem k hk
      rw [← AList.lookup_eq_none, read, AList.lookup_eq_none.2 fun h => disjoint.1 e mem k h hk,
        AList.lookup_eq_none.2 (fresh e (List.mem_cons_of_mem _ mem) k hk)]
      rfl
    obtain ⟨merged, run', keeps, reads⟩ := ih fresh' disjoint.2
    refine ⟨merged, ?_, ?_, ?_⟩
    · rw [List.foldlM_cons, run]
      exact run'
    · intro q v found
      apply keeps
      rw [read, absent q (Dict.mem_of_lookup found), found]
      rfl
    · intro e mem q r found
      rcases List.mem_cons.1 mem with rfl | mem
      · apply keeps
        rw [read, found]
        rfl
      · exact reads e mem q r found

/-! ## The move sets -/

/-- The sets and the parent map of `get_moves`, when the railway search has met
the squares of `visits`. -/
structure MovesSpec (m : Dict Pos Piece) (start : Pos) (visits : List (Pos × Pos)) (mv : Moves) :
    Prop where
  positions : ∀ q, q ∈ mv.positions ↔
    (q ∈ visits.map Prod.fst ∧ Lands (m.lookup ·) (attacks (m.lookup start)) q) ∨
    (q ∈ POS2PLAIN start ∧ Lands (m.lookup ·) (attacks (m.lookup start)) q) ∨
    (q ∈ POS2CAMP start ∧ m.lookup q = none) ∨
    (q ∈ POS2FLAG start ∧ Lands (m.lookup ·) (attacks (m.lookup start)) q)
  pieces : ∀ x, x ∈ mv.pieces ↔ ∃ q ∈ visits.map Prod.fst ++ nearbyBack start, m.lookup q = some x
  parent_start : mv.parent.lookup start = some none
  parent_rail : ∀ q r, (q, r) ∈ visits → Lands (m.lookup ·) (attacks (m.lookup start)) q →
    mv.parent.lookup q = some (some r)
  parent_near : ∀ q ∈ nearby start, q ∈ mv.positions → mv.parent.lookup q = some (some start)

theorem Collected.mem_parent {attack : Piece → Bool} {visits : List (Pos × Pos)} {t : Traversal}
    (h : Collected m attack visits t) {q : Pos} (mem : q ∈ t.parent) : q ∈ visits.map Prod.fst := by
  obtain ⟨r, found⟩ := Option.isSome_iff_exists.1 (AList.lookup_isSome.2 mem)
  exact List.mem_map_of_mem ((h.parent q r).1 found).1

/-- **The duplicate-key assertions hold**, since the railway squares and the
neighbours are different squares. -/
theorem withNeighbours_spec {start : Pos} {visits : List (Pos × Pos)} {rail : Traversal}
    (collected : Collected m (attacks (m.lookup start)) visits rail)
    (nodup : (start :: (visits.map Prod.fst ++ nearby start)).Nodup)
    (nodupBack : (FLAG2POS start).Nodup) :
    ∃ mv, withNeighbours m start rail = .ok mv ∧ MovesSpec m start visits mv := by
  simp only [nearby, List.nodup_cons, List.nodup_append, List.mem_append, not_or] at nodup
  obtain ⟨⟨startRail, ⟨startPlain, startCamp⟩, startFlag⟩, _,
    ⟨⟨nodupPlain, nodupCamp, plainCamp⟩, nodupFlag, nearFlag⟩, railNear⟩ := nodup
  have plain := @traverse_collected m start POS2PLAIN false nodupPlain
  have camp := @traverse_collected m start POS2CAMP true nodupCamp
  have flag := @traverse_collected m start POS2FLAG false nodupFlag
  have back := @traverse_collected m start FLAG2POS false nodupBack
  have firsts : ∀ l : List Pos, (l.map (·, start)).map Prod.fst = l := fun l => by
    simp [List.map_map, Function.comp_def]
  have inRail := fun q (mem : q ∈ rail.parent) => collected.mem_parent mem
  have inPlain := fun q (mem : q ∈ (traverse m start POS2PLAIN false).parent) =>
    firsts (POS2PLAIN start) ▸ plain.mem_parent mem
  have inCamp := fun q (mem : q ∈ (traverse m start POS2CAMP true).parent) =>
    firsts (POS2CAMP start) ▸ camp.mem_parent mem
  have inFlag := fun q (mem : q ∈ (traverse m start POS2FLAG false).parent) =>
    firsts (POS2FLAG start) ▸ flag.mem_parent mem
  obtain ⟨merged, run, keeps, reads⟩ := @mergeParents_ok
    [rail.parent, (traverse m start POS2PLAIN false).parent, (traverse m start POS2CAMP true).parent,
      (traverse m start POS2FLAG false).parent] ((∅ : Dict Pos (Option Pos)).insert start none)
    (by
      intro d mem k hk hstart
      have same : k = start := (AList.mem_insert _ |>.1 hstart).resolve_right (AList.notMem_empty k)
      subst same
      simp only [List.mem_cons, List.not_mem_nil, or_false] at mem
      rcases mem with rfl | rfl | rfl | rfl
      · exact startRail (inRail k hk)
      · exact startPlain (inPlain k hk)
      · exact startCamp (inCamp k hk)
      · exact startFlag (inFlag k hk))
    (by
      simp only [List.pairwise_cons, List.mem_cons, List.not_mem_nil, or_false, forall_eq_or_imp,
        forall_eq, false_imp_iff, implies_true, List.Pairwise.nil, and_true]
      refine ⟨⟨?_, ?_, ?_⟩, ⟨?_, ?_⟩, ?_⟩
      · exact fun k h h' => railNear k (inRail k h) k (Or.inl (Or.inl (inPlain k h'))) rfl
      · exact fun k h h' => railNear k (inRail k h) k (Or.inl (Or.inr (inCamp k h'))) rfl
      · exact fun k h h' => railNear k (inRail k h) k (Or.inr (inFlag k h')) rfl
      · exact fun k h h' => plainCamp k (inPlain k h) k (inCamp k h') rfl
      · exact fun k h h' => nearFlag k (Or.inl (inPlain k h)) k (inFlag k h') rfl
      · exact fun k h h' => nearFlag k (Or.inr (inCamp k h)) k (inFlag k h') rfl)
  simp only [List.mem_cons, List.not_mem_nil, or_false, forall_eq_or_imp, forall_eq] at reads
  obtain ⟨readRail, readPlain, readCamp, readFlag⟩ := reads
  have positions : ∀ q, q ∈ rail.positions ∪ (traverse m start POS2PLAIN false).positions ∪
      (traverse m start POS2CAMP true).positions ∪ (traverse m start POS2FLAG false).positions ↔
      (q ∈ visits.map Prod.fst ∧ Lands (m.lookup ·) (attacks (m.lookup start)) q) ∨
      (q ∈ POS2PLAIN start ∧ Lands (m.lookup ·) (attacks (m.lookup start)) q) ∨
      (q ∈ POS2CAMP start ∧ m.lookup q = none) ∨
      (q ∈ POS2FLAG start ∧ Lands (m.lookup ·) (attacks (m.lookup start)) q) := by
    intro q
    simp only [List.mem_union_iff, collected.positions, plain.positions, camp.positions, flag.positions,
      firsts, lands_camp, Bool.not_false, Bool.true_and, or_assoc]
  refine ⟨_, by simp only [withNeighbours, run]; rfl, positions, ?_, ?_, ?_, ?_⟩
  · intro x
    simp only [List.mem_union_iff, collected.pieces, plain.pieces, camp.pieces, back.pieces, firsts,
      nearbyBack, List.mem_append, or_and_right, exists_or, or_assoc]
  · exact keeps start none (AList.lookup_insert _)
  · intro q r mem lands
    exact readRail q r ((collected.parent q r).2 ⟨mem, lands⟩)
  · intro q near mem
    rcases (positions q).1 mem with ⟨mem, _⟩ | ⟨mem, lands⟩ | ⟨mem, free⟩ | ⟨mem, lands⟩
    · simp only [nearby, List.mem_append] at near
      exact absurd rfl (railNear q mem q near)
    · exact readPlain q start ((plain.parent q start).2 ⟨by simpa using mem, by simpa using lands⟩)
    · exact readCamp q start ((camp.parent q start).2 ⟨by simpa using mem, lands_camp.2 free⟩)
    · exact readFlag q start ((flag.parent q start).2 ⟨by simpa using mem, by simpa using lands⟩)

theorem addSrc_nodup {graph : Pos → List Pos} (h : ∀ pos, (graph pos).Nodup)
    (seqs : List (Pos × List Pos)) (pos : Pos) : (addSrc graph seqs pos).Nodup := by
  have inner : ∀ (a : Pos) (bs : List Pos) (graph : Pos → List Pos), (∀ pos, (graph pos).Nodup) →
      ∀ pos, (bs.foldl (fun graph b => addTo graph a b) graph pos).Nodup := by
    intro a bs
    induction bs with
    | nil => exact fun _ h => h
    | cons b bs ih =>
      intro graph h
      apply ih
      intro pos
      simp only [addTo]
      split
      · exact (h pos).insert
      · exact h pos
  unfold addSrc
  induction seqs generalizing graph with
  | nil => exact h pos
  | cons seq seqs ih => exact ih (inner seq.1 seq.2 graph h)

theorem nodup_flag2pos (pos : Pos) : (FLAG2POS pos).Nodup :=
  addSrc_nodup (fun _ => List.nodup_nil) _ pos

/-- The squares met on the straight lines from `start`. -/
def straightVisits (m : Dict Pos Piece) (start : Pos) : List (Pos × Pos) :=
  (POS2STRAIGHT start).visits (isFree m) start

theorem straightVisits_nodup (start : Pos) :
    (start :: ((straightVisits m start).map Prod.fst ++ nearby start)).Nodup :=
  (square_facts start).1.sublist
    (((visits_sublist _ start).append_right _).cons_cons start)

theorem getMoves_spec (start : Pos) :
    ∃ mv, getMoves m start = .ok mv ∧ MovesSpec m start (straightVisits m start) mv := by
  have nodup := @straightVisits_nodup m start
  refine withNeighbours_spec ?_ nodup (nodup_flag2pos start)
  rw [traverseDfs, dfs_eq]
  exact collect_collected (nodup.of_cons.sublist (List.sublist_append_left _ _))

/-- The squares an engineer's flood meets. -/
def floodVisits (m : Dict Pos Piece) (ord : RailOrder) (start : Pos) : List (Pos × Pos) :=
  discoveries ord.list (isFree m) start

theorem RailOrder.mem_iff (ord : RailOrder) {pos q : Pos} : q ∈ ord.list pos ↔ q ∈ POS2ANY pos :=
  (ord.perm pos).mem_iff

/-- A flood that leaves its start runs on railway squares only. -/
theorem route_on_rail {ord : RailOrder} {free : Pos → Bool} {start q : Pos} {n : Nat}
    (route : Route ord.list free start n q) :
    q = start ∨ POS2ANY q ≠ [] ∧ POS2ANY start ≠ [] := by
  induction route with
  | start => exact Or.inl rfl
  | @step n r q _ _ edge ih =>
    rw [ord.mem_iff] at edge
    refine Or.inr ⟨(square_facts r).2.1 q edge, ?_⟩
    rcases ih with rfl | ih
    · exact List.ne_nil_of_mem edge
    · exact ih.2

theorem floodVisits_nodup (ord : RailOrder) (start : Pos) :
    (start :: ((floodVisits m ord start).map Prod.fst ++ nearby start)).Nodup := by
  have found := @discoveries_nodup Pos _ _ ord.list (isFree m) start
  have near := (square_facts start).1.sublist
    ((List.sublist_append_right (POS2STRAIGHT start).elements (nearby start)).cons_cons start)
  rw [List.nodup_cons] at found near
  rw [List.nodup_cons, List.nodup_append, List.mem_append, not_or]
  refine ⟨⟨found.1, near.1⟩, found.2, near.2, ?_⟩
  rintro q mem _ mem' rfl
  obtain ⟨differ, n, route⟩ := mem_discoveries.1 mem
  have rail := (route_on_rail route).resolve_left differ
  rcases (square_facts start).2.2.1 with off | off
  · exact rail.2 off
  · exact rail.1 (off q mem')

theorem getEngineerMoves_spec (ord : RailOrder) {start : Pos} {x : Piece}
    (occupied : m.lookup start = some x) :
    ∃ mv, getEngineerMoves m ord start = .ok mv ∧ MovesSpec m start (floodVisits m ord start) mv := by
  have nodup := @floodVisits_nodup m ord start
  have rail : traverseBfs m start ord.list =
      .ok (collect m (attacks (m.lookup start)) (floodVisits m ord start) .empty) := by
    have turns : Fintype.card Pos = Flood.turns := Fintype.card_fin 129
    rw [traverseBfs, Dict.get_eq occupied, occupied, floodVisits, discoveries, turns]
    exact congrArg Except.ok (flood_eq ord.list Flood.turns (State.init start) .empty)
  rw [getEngineerMoves, rail, Py.ok_bind]
  refine withNeighbours_spec ?_ nodup (nodup_flag2pos start)
  exact collect_collected (nodup.of_cons.sublist (List.sublist_append_left _ _))

/-! ## Moves as predicates on the occupancy -/

theorem mem_straightVisits {start q : Pos} :
    q ∈ (straightVisits m start).map Prod.fst ↔ Sees (m.lookup ·) start q := by
  simp only [List.mem_map, Prod.exists, exists_and_right, exists_eq_right, straightVisits, mem_visits,
    isFree_iff, Sees]
  constructor
  · rintro ⟨_, ρ, path, free, _⟩
    exact ⟨ρ, path, free⟩
  · rintro ⟨ρ, path, free⟩
    exact ⟨_, ρ, path, free, rfl⟩

/-- The order in which neighbours are listed does not change what is reached. -/
theorem reached_congr {nbrs nbrs' : Pos → List Pos} {free : Pos → Bool} {start q : Pos}
    (same : ∀ pos q, q ∈ nbrs pos ↔ q ∈ nbrs' pos) {n : Nat} (route : Route nbrs free start n q) :
    Route nbrs' free start n q := by
  induction route with
  | start => exact .start
  | step _ expands edge ih => exact .step ih expands ((same _ _).1 edge)

theorem mem_floodVisits {ord : RailOrder} {start q : Pos} :
    q ∈ (floodVisits m ord start).map Prod.fst ↔ Floods (m.lookup ·) start q := by
  rw [floodVisits, mem_discoveries, Floods]
  refine and_congr_right fun _ => exists_congr fun n => ?_
  exact ⟨reached_congr fun _ _ => ord.mem_iff, reached_congr fun _ _ => ord.mem_iff.symm⟩

/-- The squares the railway search of `x` meets. -/
def railVisits (m : Dict Pos Piece) (ord : RailOrder) (x : Piece) (start : Pos) : List (Pos × Pos) :=
  if x.role = 9 then floodVisits m ord start else straightVisits m start

theorem mem_railVisits {ord : RailOrder} {x : Piece} {start q : Pos} :
    q ∈ (railVisits m ord x start).map Prod.fst ↔ RailTo (m.lookup ·) x start q := by
  unfold railVisits RailTo
  split
  · exact mem_floodVisits
  · exact mem_straightVisits

/-- **The move search of a piece succeeds and finds exactly the moves of the rule.** -/
theorem pieceMoves_spec (ord : RailOrder) {x : Piece} {start : Pos}
    (occupied : m.lookup start = some x) :
    ∃ mv, pieceMoves m ord x start = .ok mv ∧ MovesSpec m start (railVisits m ord x start) mv ∧
      ∀ q, q ∈ mv.positions ↔ CanMove (m.lookup ·) x start q := by
  have found : ∃ mv, pieceMoves m ord x start = .ok mv ∧
      MovesSpec m start (railVisits m ord x start) mv := by
    unfold pieceMoves railVisits
    split
    · exact getEngineerMoves_spec ord occupied
    · exact getMoves_spec start
  obtain ⟨mv, run, spec⟩ := found
  refine ⟨mv, run, spec, fun q => ?_⟩
  rw [spec.positions, mem_railVisits, occupied, CanMove]

/-! ## Where moves lead -/

section Targets

variable {sq : Squares} {x : Piece} {start q : Pos}

/-- What is seen lies on a straight line from the start. -/
theorem Sees.mem_elements (h : Sees sq start q) : q ∈ (POS2STRAIGHT start).elements := by
  obtain ⟨ρ, path, free⟩ := h
  have visited : (q, ρ.getLastD start) ∈ (POS2STRAIGHT start).visits (fun r => (sq r).isNone) start :=
    mem_visits.2 ⟨ρ, path, fun r mem => by simp [free r mem], rfl⟩
  exact (visits_sublist _ start).subset (List.mem_map_of_mem visited)

theorem Floods.mem_rail (h : Floods sq start q) :
    (∃ r, q ∈ POS2ANY r) ∧ POS2ANY q ≠ [] ∧ POS2ANY start ≠ [] := by
  obtain ⟨differ, n, route⟩ := h
  have rail := (@route_on_rail ⟨POS2ANY, fun _ => List.Perm.refl _⟩ _ _ _ _ route).resolve_left differ
  cases route with
  | start => exact absurd rfl differ
  | step _ _ edge => exact ⟨⟨_, edge⟩, rail⟩

/-- Rail moves end on the railway off the camps, and the neighbours are elsewhere. -/
theorem RailTo.facts (h : RailTo sq x start q) :
    q ≠ start ∧ q ∉ camps ∧ start ∉ headquarters := by
  obtain ⟨nodup, _, _, _, noCamp, home⟩ := square_facts start
  unfold RailTo at h
  split at h
  · obtain ⟨⟨r, edge⟩, _, rail⟩ := h.mem_rail
    refine ⟨h.1, ?_, fun inside => rail (home.resolve_left (not_not.2 inside)).2.1⟩
    exact (square_facts r).2.2.2.2.1 q (by simp [edge])
  · have mem := h.mem_elements
    refine ⟨?_, noCamp q (by simp [mem]), ?_⟩
    · rintro rfl
      rw [List.nodup_cons, List.mem_append] at nodup
      exact nodup.1 (Or.inl mem)
    · intro inside
      rw [(home.resolve_left (not_not.2 inside)).1] at mem
      cases mem

theorem nearby_facts (near : q ∈ nearby start) : q ≠ start ∧ start ∉ headquarters := by
  obtain ⟨nodup, _, _, _, _, home⟩ := square_facts start
  refine ⟨?_, ?_⟩
  · rintro rfl
    rw [List.nodup_cons, List.mem_append] at nodup
    exact nodup.1 (Or.inr near)
  · intro inside
    rw [(home.resolve_left (not_not.2 inside)).2.2] at near
    cases near

/-- A move leads elsewhere, does not start in a headquarters and never hits an own
piece, and a camp it leads into is empty. -/
theorem CanMove.facts (h : CanMove sq x start q) :
    q ≠ start ∧ start ∉ headquarters ∧ (∀ y, sq q = some y → opposed x.player y.player = true) ∧
      (q ∈ camps → sq q = none) := by
  have foe : Lands sq (attacks (some x)) q → ∀ y, sq q = some y → opposed x.player y.player = true :=
    fun lands y held => lands y held
  have noCamp := (square_facts start).2.2.2.2.1
  rcases h with ⟨rail, lands⟩ | ⟨near, lands⟩ | ⟨near, free⟩ | ⟨near, lands⟩
  · obtain ⟨differ, off, outside⟩ := rail.facts
    exact ⟨differ, outside, foe lands, fun camp => absurd camp off⟩
  · obtain ⟨differ, outside⟩ := @nearby_facts start q (by simp [nearby, near])
    exact ⟨differ, outside, foe lands, fun camp => absurd camp (noCamp q (by simp [near]))⟩
  · obtain ⟨differ, outside⟩ := @nearby_facts start q (by simp [nearby, near])
    refine ⟨differ, outside, fun y held => ?_, fun _ => free⟩
    rw [free] at held
    cases held
  · obtain ⟨differ, outside⟩ := @nearby_facts start q (by simp [nearby, near])
    exact ⟨differ, outside, foe lands, fun camp => absurd camp (noCamp q (by simp [near]))⟩

end Targets

end SlimeBoard
