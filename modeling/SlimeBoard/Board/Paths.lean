import SlimeBoard.Board.Moves

/-!
# Paths

`get_path` follows the parent map of the move search from the target back to the
start. The chain exists for every target, so the loop ends, and it ends within
as many turns as there are squares.
-/

namespace SlimeBoard

open Radix GraphSearch

/-- One turn of the loop of `get_path`. -/
def Moves.next (mv : Moves) (q : Pos) : Option Pos := (mv.parent.lookup q).join

theorem climb_eq {parent : Dict Pos (Option Pos)} {q : Pos} {l : List Pos}
    (h : Climbs (fun q => (parent.lookup q).join) q l) {fuel : Nat} (enough : l.length ≤ fuel)
    (path : List Pos) : climb parent fuel (some q) path = .ok (path ++ l) := by
  induction h generalizing fuel path with
  | root stop =>
    obtain ⟨fuel, rfl⟩ := Nat.exists_eq_add_of_lt enough
    rw [climb, stop, climb]
  | @step q r l more rest ih =>
    rw [List.length_cons] at enough
    obtain ⟨fuel, rfl⟩ := Nat.exists_eq_add_of_lt enough
    rw [climb, more, ih (by omega), List.append_assoc]
    rfl

variable {m : Dict Pos Piece} {start q : Pos} {mv : Moves}

section Chains

variable {visits : List (Pos × Pos)} (spec : MovesSpec m start visits mv)
include spec

theorem MovesSpec.next_start : mv.next start = none := by
  rw [Moves.next, spec.parent_start]
  rfl

theorem MovesSpec.next_rail {r : Pos} (mem : (q, r) ∈ visits) (lands : Lands (m.lookup ·) (attacks (m.lookup start)) q) :
    mv.next q = some r := by
  rw [Moves.next, spec.parent_rail q r mem lands]
  rfl

/-- A neighbour is one step away. -/
theorem MovesSpec.climbs_near (near : q ∈ nearby start) (mem : q ∈ mv.positions) :
    Climbs mv.next q [q, start] := by
  refine .step ?_ (.root spec.next_start)
  rw [Moves.next, spec.parent_near q near mem]
  rfl

end Chains

/-- A straight path is walked back. -/
theorem climbs_straight (spec : MovesSpec m start (straightVisits m start) mv) (ρ : List Pos)
    (path : ρ ++ [q] ∈ (POS2STRAIGHT start).paths) (free : ∀ r ∈ ρ, m.lookup r = none)
    (lands : Lands (m.lookup ·) (attacks (m.lookup start)) q) :
    Climbs mv.next q (q :: (ρ.reverse ++ [start])) := by
  have visited : (q, ρ.getLastD start) ∈ straightVisits m start :=
    mem_visits.2 ⟨ρ, path, fun r mem => isFree_iff.2 (free r mem), rfl⟩
  induction ρ using List.reverseRecOn generalizing q with
  | nil => exact .step (spec.next_rail visited lands) (.root spec.next_start)
  | append_singleton σ r ih =>
    rw [List.getLastD_concat] at visited
    rw [List.reverse_append, List.reverse_singleton, List.singleton_append, List.cons_append]
    refine .step (spec.next_rail visited lands) ?_
    have shorter : σ ++ [r] ∈ (POS2STRAIGHT start).paths :=
      straight_prefixes path (by simp) (List.prefix_append _ _)
    have free' : ∀ x ∈ σ, m.lookup x = none := fun x mem => free x (List.mem_append_left _ mem)
    exact ih shorter free' (lands_of_free (free r (by simp)))
      (mem_visits.2 ⟨σ, shorter, fun x mem => isFree_iff.2 (free' x mem), rfl⟩)

/-- An engineer's path is a shortest one, through free squares along railway edges. -/
theorem climbs_flood {ord : RailOrder} (spec : MovesSpec m start (floodVisits m ord start) mv)
    (floods : Floods (m.lookup ·) start q) (lands : Lands (m.lookup ·) (attacks (m.lookup start)) q) :
    ∃ l, Climbs mv.next q (q :: (l ++ [start])) ∧ l.length + 1 = dist ord.list (isFree m) start q ∧
      (∀ r ∈ l, m.lookup r = none) ∧ (q :: (l ++ [start])).IsChain (fun a b => a ∈ POS2ANY b) := by
  generalize measure : dist ord.list (isFree m) start q = n
  induction n using Nat.strongRecOn generalizing q with
  | ind n ih =>
    have found : q ∈ (floodVisits m ord start).map Prod.fst := mem_floodVisits.2 floods
    obtain ⟨⟨q', r⟩, mem, same⟩ := List.mem_map.1 found
    change q' = q at same
    subst same
    obtain ⟨expands, edge, reached, farther⟩ := discovery_parent mem
    rw [ord.mem_iff] at edge
    have hop := spec.next_rail mem lands
    by_cases back : r = start
    · subst back
      rw [dist_start] at farther
      refine ⟨[], .step hop (.root spec.next_start), by rw [← measure, farther]; rfl, ?_, List.isChain_pair.2 edge⟩
      intro r mem
      cases mem
    · have free := isFree_iff.1 (expands.resolve_left back)
      have found : Floods (m.lookup ·) start r := mem_floodVisits.1 (mem_discoveries.2 ⟨back, reached⟩)
      obtain ⟨l, rest, length, clear, chain⟩ := ih _ (by omega) found (lands_of_free free) rfl
      refine ⟨r :: l, .step hop rest, by rw [List.length_cons, length]; omega, ?_, ?_⟩
      · exact List.forall_mem_cons.2 ⟨free, clear⟩
      · exact List.isChain_cons_cons.2 ⟨edge, chain⟩

/-- Every target has a chain back to the start. -/
theorem climbs_exists {ord : RailOrder} {x : Piece} (spec : MovesSpec m start (railVisits m ord x start) mv)
    (mem : q ∈ mv.positions) : ∃ l, Climbs mv.next q (q :: (l ++ [start])) := by
  have near : q ∈ nearby start → ∃ l, Climbs mv.next q (q :: (l ++ [start])) := fun near =>
    ⟨[], spec.climbs_near near mem⟩
  rcases (spec.positions q).1 mem with ⟨rail, lands⟩ | ⟨h, _⟩ | ⟨h, _⟩ | ⟨h, _⟩
  · rw [mem_railVisits] at rail
    unfold railVisits at spec
    unfold RailTo at rail
    split at rail
    · rename_i engineer
      rw [if_pos engineer] at spec
      obtain ⟨l, chain, _⟩ := climbs_flood spec rail lands
      exact ⟨l, chain⟩
    · rename_i walker
      rw [if_neg walker] at spec
      obtain ⟨ρ, path, free⟩ := rail
      exact ⟨ρ.reverse, climbs_straight spec ρ path free lands⟩
  · exact near (by simp [nearby, h])
  · exact near (by simp [nearby, h])
  · exact near (by simp [nearby, h])

/-- **`get_path` ends for every target**, with the chain of the parent map. -/
theorem getPath_spec (ord : RailOrder) {b : Board} {x : Piece} {pos pos1 : Pos}
    (placed : b.piece2pos.lookup x = some pos) (held : b.pos2piece.lookup pos = some x)
    (can : CanMove (b.pos2piece.lookup ·) x pos pos1) :
    ∃ mv l, pieceMoves b.pos2piece ord x pos = .ok mv ∧
      MovesSpec b.pos2piece pos (railVisits b.pos2piece ord x pos) mv ∧
      Climbs mv.next pos1 (pos1 :: (l ++ [pos])) ∧
      b.getPath ord x pos1 = .ok (pos :: (l.reverse ++ [pos1])) := by
  obtain ⟨mv, run, spec, found⟩ := pieceMoves_spec ord held
  obtain ⟨l, chain⟩ := climbs_exists spec ((found pos1).2 can)
  refine ⟨mv, l, run, spec, chain, ?_⟩
  have short : (pos1 :: (l ++ [pos])).length ≤ 129 := by
    have := chain.nodup.length_le_card
    rwa [Fintype.card_fin] at this
  rw [Board.getPath, Dict.get_eq placed, Py.ok_bind, run, Py.ok_bind, climb_eq chain short]
  simp

end SlimeBoard
