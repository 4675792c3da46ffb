import SlimeBoard.Lib.PyDict

/-!
# Waiting for one's mate

Items arrive one after another. An item whose key has a mate waits until the mate arrives,
and both are emitted together. If every key that has a mate arrives once, and so does the
mate, everything is emitted once and nothing is left waiting.
-/

namespace Pairs

variable {κ ν : Type} [DecidableEq κ] (mate : κ → Option κ)

/-- What an item makes be emitted, and the items that wait. -/
def receive (waiting : Dict κ ν) (item : κ × ν) : List (κ × ν) × Dict κ ν :=
  match mate item.1 with
  | none => ([item], waiting)
  | some other =>
    match waiting.lookup other with
    | some v => ([item, (other, v)], waiting.erase other)
    | none => ([], waiting.insert item.1 item.2)

/-- What each item makes be emitted, and the items that wait at the end. -/
def receiveAll : Dict κ ν → List (κ × ν) → List (List (κ × ν)) × Dict κ ν
  | waiting, [] => ([], waiting)
  | waiting, item :: rest =>
    let (emitted, waiting) := receive mate waiting item
    let (more, waiting) := receiveAll waiting rest
    (emitted :: more, waiting)

theorem receiveAll_append (waiting : Dict κ ν) (items others : List (κ × ν)) :
    receiveAll mate waiting (items ++ others) =
      ((receiveAll mate waiting items).1 ++ (receiveAll mate (receiveAll mate waiting items).2 others).1,
        (receiveAll mate (receiveAll mate waiting items).2 others).2) := by
  induction items generalizing waiting with
  | nil => rfl
  | cons item items ih =>
    simp only [List.cons_append, receiveAll]
    rw [ih]

/-- Each key that has a mate arrives once, and so does its mate. -/
structure Mated (keys : List κ) : Prop where
  mates : ∀ k ∈ keys, ∀ k', mate k = some k' → k' ∈ keys ∧ mate k' = some k ∧ k' ≠ k
  once : (keys.filter fun k => (mate k).isSome).Nodup

/-- Mates are emitted together. -/
def Together (emitted : List (κ × ν)) : Prop :=
  ∀ item ∈ emitted, ∀ k', mate item.1 = some k' → ∃ v, (k', v) ∈ emitted

/-- The items that wait. -/
def pairs (waiting : Dict κ ν) : List (κ × ν) := waiting.entries.map fun entry => (entry.1, entry.2)

variable {mate}

theorem pairs_insert {waiting : Dict κ ν} {k : κ} (absent : waiting.lookup k = none) (v : ν) :
    pairs (waiting.insert k v) = (k, v) :: pairs waiting := by
  have fresh : k ∉ waiting := AList.lookup_eq_none.1 absent
  unfold pairs
  rw [AList.entries_insert, List.kerase_of_notMem_keys (mt AList.mem_keys.2 fresh), List.map_cons]

theorem pairs_erase {waiting : Dict κ ν} {k : κ} {v : ν} (known : waiting.lookup k = some v) :
    ((k, v) :: pairs (waiting.erase k)).Perm (pairs waiting) := by
  obtain ⟨w, front, back, _, split, erased⟩ := List.exists_of_kerase (AList.mem_keys.1 (Dict.mem_of_lookup known))
  have entry : (⟨k, w⟩ : Sigma fun _ => ν) ∈ waiting.entries := by
    rw [split]
    exact List.mem_append_right _ (List.mem_cons_self ..)
  obtain rfl : w = v := Option.some.inj ((AList.mem_lookup_iff.2 entry).symm.trans known)
  unfold pairs
  change ((k, w) :: (List.kerase k waiting.entries).map _).Perm _
  rw [erased, split, List.map_append, List.map_append, List.map_cons]
  exact List.perm_middle.symm

theorem pairs_eq_nil {waiting : Dict κ ν} (none : ∀ k, waiting.lookup k = none) : waiting = ∅ := by
  apply AList.ext
  cases entries : waiting.entries with
  | nil => rfl
  | cons entry rest =>
    have known : waiting.lookup entry.1 = some entry.2 := AList.mem_lookup_iff.2 (entries ▸ List.mem_cons_self ..)
    rw [none] at known
    cases known

/-- What holds after the items `front`, of which `emitted` have been emitted. -/
structure Holds (mate : κ → Option κ) (front emitted : List (κ × ν)) (waiting : Dict κ ν) : Prop where
  waits : ∀ k v, waiting.lookup k = some v ↔ (k, v) ∈ front ∧ ∃ k', mate k = some k' ∧ k' ∉ front.map Prod.fst
  all : (emitted ++ pairs waiting).Perm front

theorem holds_empty (mate : κ → Option κ) : Holds mate [] [] (∅ : Dict κ ν) where
  waits := fun k v => by simp
  all := .refl _

/-- One item is emitted, begins to wait, or meets its mate. -/
theorem Holds.receive {front rest emitted : List (κ × ν)} {item : κ × ν} {waiting : Dict κ ν}
    (mated : Mated mate ((front ++ item :: rest).map Prod.fst)) (holds : Holds mate front emitted waiting) :
    Together mate (receive mate waiting item).1 ∧
      Holds mate (front ++ [item]) (emitted ++ (Pairs.receive mate waiting item).1) (Pairs.receive mate waiting item).2 := by
  have key (k : κ) : k ∈ (front ++ item :: rest).map Prod.fst ↔ k ∈ front.map Prod.fst ∨ k = item.1 ∨ k ∈ rest.map Prod.fst := by
    simp only [List.map_append, List.map_cons, List.mem_append, List.mem_cons]
  have arrived (k : κ) : k ∈ (front ++ [item]).map Prod.fst ↔ k ∈ front.map Prod.fst ∨ k = item.1 := by
    simp only [List.map_append, List.map_cons, List.map_nil, List.mem_append, List.mem_singleton]
  have ofFront {k : κ} {v : ν} (mem : (k, v) ∈ front) : k ∈ front.map Prod.fst := List.mem_map_of_mem mem
  have mates := mated.mates
  unfold Pairs.receive
  cases lone : mate item.1 with
  | none =>
    refine ⟨fun x mem k' has => ?_, fun k v => ?_, ?_⟩
    · rw [List.mem_singleton.1 mem, lone] at has
      cases has
    · rw [holds.waits]
      constructor
      · rintro ⟨mem, k', has, absent⟩
        refine ⟨List.mem_append_left _ mem, k', has, fun came => ?_⟩
        obtain ⟨_, back, _⟩ := mates k ((key k).2 (Or.inl (ofFront mem))) k' has
        rcases (arrived k').1 came with early | rfl
        · exact absent early
        · rw [lone] at back
          cases back
      · rintro ⟨mem, k', has, absent⟩
        refine ⟨?_, k', has, fun early => absent ((arrived k').2 (Or.inl early))⟩
        rcases List.mem_append.1 mem with early | now
        · exact early
        · rw [← List.mem_singleton.1 now, has] at lone
          cases lone
    · refine List.Perm.trans ?_ (holds.all.append_right [item])
      rw [List.append_assoc, List.append_assoc]
      exact (List.perm_append_comm).append_left emitted
  | some other =>
    obtain ⟨_, back, differ⟩ := mates item.1 ((key _).2 (Or.inr (Or.inl rfl))) other lone
    have fresh : item.1 ∉ front.map Prod.fst := by
      intro early
      have once := mated.once
      rw [List.map_append, List.map_cons, List.filter_append, List.nodup_append] at once
      refine once.2.2 item.1 (List.mem_filter.2 ⟨early, ?_⟩) item.1 (List.mem_filter.2 ⟨List.mem_cons_self .., ?_⟩) rfl
      all_goals rw [lone, Option.isSome_some]
    dsimp only
    cases known : waiting.lookup other with
    | some w =>
      obtain ⟨came, _⟩ := (holds.waits other w).1 known
      refine ⟨fun x mem k' has => ?_, fun k v => ?_, ?_⟩
      · rcases List.mem_cons.1 mem with rfl | mem
        · obtain rfl := Option.some.inj (lone.symm.trans has)
          exact ⟨w, List.mem_cons_of_mem _ (List.mem_singleton_self _)⟩
        · rw [List.mem_singleton.1 mem, back] at has
          obtain rfl := Option.some.inj has
          exact ⟨item.2, List.mem_cons_self ..⟩
      · rw [Dict.lookup_erase]
        constructor
        · intro found
          split at found
          · cases found
          · rename_i apart
            obtain ⟨mem, k', has, absent⟩ := (holds.waits k v).1 found
            refine ⟨List.mem_append_left _ mem, k', has, fun came => ?_⟩
            obtain ⟨_, back', _⟩ := mates k ((key k).2 (Or.inl (ofFront mem))) k' has
            rcases (arrived k').1 came with early | rfl
            · exact absent early
            · exact apart (Option.some.inj (back'.symm.trans lone))
        · rintro ⟨mem, k', has, absent⟩
          rcases List.mem_append.1 mem with early | now
          · have apart : k ≠ other := by
              rintro rfl
              obtain rfl := Option.some.inj (has.symm.trans back)
              exact absent ((arrived _).2 (Or.inr rfl))
            rw [if_neg apart]
            exact (holds.waits k v).2 ⟨early, k', has, fun before => absent ((arrived k').2 (Or.inl before))⟩
          · obtain rfl := List.mem_singleton.1 now
            obtain rfl := Option.some.inj (has.symm.trans lone)
            exact absurd ((arrived _).2 (Or.inl (ofFront came))) absent
      · have pair := (pairs_erase known).append_left (emitted ++ [item])
        refine List.Perm.trans ?_ (holds.all.append_right [item])
        rw [List.append_assoc, List.append_assoc] at *
        exact pair.trans ((List.perm_append_comm).append_left emitted)
    | none =>
      have alone : other ∉ front.map Prod.fst := by
        intro early
        obtain ⟨⟨k, w⟩, mem, rfl⟩ := List.mem_map.1 early
        rw [(holds.waits k w).2 ⟨mem, item.1, back, fresh⟩] at known
        cases known
      have unknown : waiting.lookup item.1 = none := by
        cases found : waiting.lookup item.1 with
        | none => rfl
        | some v => exact absurd (ofFront ((holds.waits _ _).1 found).1) fresh
      refine ⟨fun x mem => (nomatch mem), fun k v => ?_, ?_⟩
      · rw [Dict.lookup_insert]
        constructor
        · intro found
          split at found
          · rename_i same
            obtain rfl := Option.some.inj found
            subst same
            refine ⟨List.mem_append_right _ (List.mem_singleton_self _), other, lone, fun came => ?_⟩
            exact ((arrived other).1 came).elim alone differ
          · obtain ⟨mem, k', has, absent⟩ := (holds.waits k v).1 found
            refine ⟨List.mem_append_left _ mem, k', has, fun came => ?_⟩
            obtain ⟨_, back', _⟩ := mates k ((key k).2 (Or.inl (ofFront mem))) k' has
            rcases (arrived k').1 came with early | rfl
            · exact absent early
            · obtain rfl := Option.some.inj (back'.symm.trans lone)
              exact alone (ofFront mem)
        · rintro ⟨mem, k', has, absent⟩
          rcases List.mem_append.1 mem with early | now
          · have apart : k ≠ item.1 := by
              rintro rfl
              exact fresh (ofFront early)
            rw [if_neg apart]
            exact (holds.waits k v).2 ⟨early, k', has, fun before => absent ((arrived k').2 (Or.inl before))⟩
          · obtain rfl := List.mem_singleton.1 now
            rw [if_pos rfl]
      · rw [pairs_insert unknown, List.append_nil]
        refine List.Perm.trans ?_ (holds.all.append_right [item])
        exact List.perm_middle.trans (List.perm_append_singleton _ _).symm

/-- **Everything is emitted once, mates together, and nothing is left waiting.** -/
theorem receiveAll_empty {items : List (κ × ν)} (mated : Mated mate (items.map Prod.fst)) :
    (receiveAll mate ∅ items).2 = ∅ ∧ (receiveAll mate ∅ items).1.flatten.Perm items ∧
      ∀ emitted ∈ (receiveAll mate ∅ items).1, Together mate emitted := by
  have loop {front emitted : List (κ × ν)} {waiting : Dict κ ν} (rest : List (κ × ν)) (split : items = front ++ rest)
      (holds : Holds mate front emitted waiting) :
      Holds mate items (emitted ++ (receiveAll mate waiting rest).1.flatten) (receiveAll mate waiting rest).2 ∧
        ∀ emitted ∈ (receiveAll mate waiting rest).1, Together mate emitted := by
    induction rest generalizing front emitted waiting with
    | nil =>
      rw [List.append_nil] at split
      rw [receiveAll, List.flatten_nil, List.append_nil, split]
      exact ⟨holds, fun emitted mem => nomatch mem⟩
    | cons item rest ih =>
      obtain ⟨together, next⟩ := holds.receive (split ▸ mated)
      obtain ⟨whole, later⟩ := ih (split.trans (List.append_cons ..)) next
      rw [receiveAll]
      dsimp only
      rw [List.flatten_cons, ← List.append_assoc]
      exact ⟨whole, List.forall_mem_cons.2 ⟨together, later⟩⟩
  obtain ⟨⟨waits, all⟩, together⟩ := loop items rfl (holds_empty mate)
  have nothing : (receiveAll mate ∅ items).2 = ∅ := pairs_eq_nil fun k => by
    cases found : (receiveAll mate ∅ items).2.lookup k with
    | none => rfl
    | some v =>
      obtain ⟨mem, k', has, absent⟩ := (waits k v).1 found
      exact absurd (mated.mates k (List.mem_map_of_mem mem) k' has).1 absent
  rw [nothing, List.nil_append] at all
  exact ⟨nothing, by simpa [pairs] using all, together⟩

end Pairs
