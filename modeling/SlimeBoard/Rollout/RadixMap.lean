import SlimeBoard.Rollout.RadixTree

/-!
# The radix cache as a map

What the radix cache is for: a map from token sequences to values whose domain is closed under prefixes. The
nodes, their splits and the sizes do not show. A match reads the longest prefix in the domain, an insert adds
the prefixes that are missing, and an eviction removes sequences that no held reference extends.
-/

namespace SlimeBoard.RadixCache

open Segments

variable {α β : Type} [DecidableEq α]

namespace Cache

/-- The value of a sequence that is cached. -/
def lookup (c : Cache α β) (q : List α) : Option β := (c.entries.find? (·.1 = q)).map Prod.snd

/-- The runs of the cache, with the references that are held. A reference is taken of a node that is there. -/
inductive Run : Cache α β → List (List α) → Prop
  | reset : Run .reset []
  | matched {c c' : Cache α β} {held : List (List α)} (before : Run c held) (key : List α) {value : List β} {node : List α}
      (run : c.matchPrefix key = .ok (value, node, c')) : Run c' held
  | inserted {c c' : Cache α β} {held : List (List α)} (before : Run c held) (key : List α) (value : List β)
      (filled : value.length = key.length) {prefixLen : Nat} (run : c.insert key value = .ok (prefixLen, c')) : Run c' held
  | locked {c c' : Cache α β} {held : List (List α)} (before : Run c held) (path : List α) (node : c.IsNode path) {delta : Int}
      (run : c.incLockRef path = .ok (delta, c')) : Run c' (path :: held)
  | unlocked {c c' : Cache α β} {held rest : List (List α)} (before : Run c held) {path : List α} (mem : held.Perm (path :: rest))
      {delta : Int} (run : c.decLockRef path = .ok (delta, c')) : Run c' rest
  | evicted {c c' : Cache α β} {held : List (List α)} (before : Run c held) (pick : Nat → Nat) (numTokens : Nat) {n : Nat}
      {freed : List β} (run : c.evict pick numTokens = .ok (n, freed, c')) : Run c' held

variable {c c' : Cache α β} {held : List (List α)}

/-- **Every run keeps the tree sound** and its locks the references that are held. -/
theorem Run.sound (run : Run c held) : c.Sound ∧ c.Locked held := by
  induction run with
  | reset => exact ⟨reset_sound, nofun, nofun⟩
  | matched _ key run ih =>
    obtain ⟨_, _, _, run', reached, _⟩ := matchPrefix_spec key ih.1 ih.2
    obtain ⟨-, -, rfl⟩ := Prod.mk.inj (Except.ok.inj (run'.symm.trans run)) |>.imp_right Prod.mk.inj
    exact ⟨reached.sound, reached.locked⟩
  | inserted _ key value filled run ih =>
    obtain ⟨_, _, run', _, done⟩ := insert_spec ih.1 ih.2 filled
    obtain ⟨-, rfl⟩ := Prod.mk.inj (Except.ok.inj (run'.symm.trans run))
    exact ⟨done.sound, done.locked⟩
  | locked _ path node run ih =>
    obtain ⟨_, _, run', done, locked⟩ := incLockRef_spec ih.1 ih.2 node
    obtain ⟨-, rfl⟩ := Prod.mk.inj (Except.ok.inj (run'.symm.trans run))
    exact ⟨done.sound, locked⟩
  | unlocked _ mem run ih =>
    obtain ⟨_, _, run', done, locked⟩ := decLockRef_spec ih.1 (ih.2.perm mem)
    obtain ⟨-, rfl⟩ := Prod.mk.inj (Except.ok.inj (run'.symm.trans run))
    exact ⟨done.sound, locked⟩
  | evicted _ pick numTokens run ih =>
    obtain ⟨_, _, run', done, _⟩ := evict_spec pick numTokens ih.1 ih.2
    obtain ⟨-, -, rfl⟩ := Prod.mk.inj (Except.ok.inj (run'.symm.trans run)) |>.imp_right Prod.mk.inj
    exact ⟨done.sound, done.locked⟩

/-! ## The map -/

section Map

variable {q : List α} {v : β}

theorem Sized.lookup_eq_some (sized : c.Sized) : c.lookup q = some v ↔ (q, v) ∈ c.entries := by
  unfold lookup
  rw [Option.map_eq_some_iff]
  constructor
  · rintro ⟨e, found, rfl⟩
    have same := List.find?_some found
    rw [decide_eq_true_eq] at same
    exact same ▸ List.mem_of_find?_eq_some found
  · intro mem
    cases found : c.entries.find? (·.1 = q) with
    | none => exact absurd (decide_eq_true rfl) (List.find?_eq_none.1 found (q, v) mem)
    | some e =>
      refine ⟨e, rfl, ?_⟩
      have same := List.find?_some found
      rw [decide_eq_true_eq] at same
      exact sized.functional (same ▸ List.mem_of_find?_eq_some found) mem

theorem Sized.lookup_isSome (sized : c.Sized) : (c.lookup q).isSome ↔ q ∈ cells c.segs := by
  rw [← sized.entries_fst, Option.isSome_iff_exists, List.mem_map]
  simp only [sized.lookup_eq_some, Prod.exists, exists_and_right, exists_eq_right]

theorem Sized.lookup_congr (sized : c.Sized) (sized' : c'.Sized) (same : ∀ e, e ∈ c'.entries ↔ e ∈ c.entries) (q : List α) :
    c'.lookup q = c.lookup q := by
  refine Option.ext fun v => ?_
  rw [sized'.lookup_eq_some, sized.lookup_eq_some, same]

theorem Along.lookup {path : List α} {values : List β} (along : c.Along path values) (sized : c.Sized) {i : Nat} (lt : i < path.length) :
    c.lookup (path.take (i + 1)) = values[i]? := by
  have inside : i < values.length := by rwa [along.1]
  have here : values[i]? = some values[i] := List.getElem?_eq_getElem inside
  rw [here, sized.lookup_eq_some]
  exact along.2 i _ here

end Map

/-! ## Matches and inserts -/

section Insert

variable {full : List α} {start : Nat} {value : List β} (done : Inserted held c c' full start (value.drop start)) (sized : c.Sized)
  (filled : value.length = full.length)
include done sized filled

/-- A new sequence is longer than the prefix that was there. -/
theorem Inserted.cells_iff {q : List α} : q ∈ cells c'.segs ↔ q ∈ cells c.segs ∨ q <+: full ∧ start < q.length := by
  have rest : (value.drop start).length = (Seg.cells ⟨full, start⟩).length := by
    rw [length_cells_seg, List.length_drop, filled]
  rw [← done.sound.entries_fst, done.entries, List.map_append, List.mem_append, sized.entries_fst, List.map_fst_zip rest.ge, mem_cells_seg]

theorem Inserted.fresh {q : List α} (pre : q <+: full) (lt : start < q.length) : q ∉ cells c.segs := by
  have rest : (value.drop start).length = (Seg.cells ⟨full, start⟩).length := by
    rw [length_cells_seg, List.length_drop, filled]
  have nodup := done.sound.forest.nodup
  rw [← done.sound.entries_fst, done.entries, List.map_append, sized.entries_fst, List.map_fst_zip rest.ge] at nodup
  exact fun old => (List.nodup_append.1 nodup).2.2 q old q (mem_cells_seg.2 ⟨pre, lt⟩) rfl

omit sized in
/-- The whole sequence is there afterwards. -/
theorem Inserted.covers {q : List α} (pre : q <+: full) (ne : q ≠ []) : q ∈ cells c'.segs := by
  obtain rfl | ⟨m, mem, rfl⟩ := done.isNode
  · exact absurd (List.prefix_nil.1 pre) ne
  · exact done.sound.forest.closed (mem_cells.2 ⟨m.seg, mem_segs mem, List.prefix_refl _, done.sound.lt mem⟩) pre ne

/-- What an insert makes of the map: the prefixes that are missing get their values. -/
theorem Inserted.lookup (q : List α) : c'.lookup q = (c.lookup q).or (if q <+: full ∧ q ≠ [] then value[q.length - 1]? else none) := by
  have grown := done.grown filled
  cases old : c.lookup q with
  | some v =>
    rw [Option.some_or, done.sound.lookup_eq_some]
    exact grown.old _ (sized.lookup_eq_some.1 old)
  | none =>
    rw [Option.none_or]
    have absent : q ∉ cells c.segs := by
      rw [← sized.lookup_isSome, old]
      exact Bool.false_ne_true
    split
    · next inside =>
      obtain ⟨pre, ne⟩ := inside
      obtain ⟨v, here⟩ := Option.isSome_iff_exists.1 (done.sound.lookup_isSome.2 (done.covers filled pre ne))
      rw [here]
      obtain before | ⟨i, same, at'⟩ := grown.new _ (done.sound.lookup_eq_some.1 here)
      · exact absurd (sized.lookup_eq_some.2 before) (by rw [old]; exact nofun)
      · have bound := (List.getElem?_eq_some_iff.1 at').1
        have length := congrArg List.length same
        rw [List.length_take] at length
        dsimp only at length
        rw [show q.length - 1 = i by omega, at']
    · next outside =>
      rw [← Option.not_isSome_iff_eq_none, done.sound.lookup_isSome, done.cells_iff sized filled]
      rintro (before | ⟨pre, lt⟩)
      · exact absent before
      · exact outside ⟨pre, List.ne_nil_of_length_pos (Nat.zero_lt_of_lt lt)⟩

end Insert

/-- A cache of one sequence that is in use. -/
def usedCache : Cache Nat Nat := ⟨[⟨[7, 8], 0, [1, 2], 1⟩], 0, 2, []⟩

theorem usedCache_run : Run usedCache [[7, 8]] := by
  have inserted := (Run.reset (α := Nat) (β := Nat)).inserted [7, 8] [1, 2] rfl rfl
  exact inserted.locked [7, 8] (.inr ⟨_, List.mem_singleton_self _, rfl⟩) rfl

/-- **Matching and inserting** read and extend a map from sequences to values. Its domain is closed under
prefixes; a match gives the values of the longest prefix in it; an insert gives values to the prefixes that
have none, and says how many had one. -/
theorem match_insert_refine (run : Run c held) :
    (∀ q r, (c.lookup q).isSome → r <+: q → r ≠ [] → (c.lookup r).isSome) ∧
      (∀ key, ∃ values node c', c.matchPrefix key = .ok (values, node, c') ∧ (∀ q, c'.lookup q = c.lookup q) ∧
        node <+: key ∧ values.length = node.length ∧ (∀ i < node.length, c.lookup (node.take (i + 1)) = values[i]?) ∧
        ∀ r, r <+: key → (c.lookup r).isSome → r <+: node) ∧
      ∀ key value, value.length = key.length → ∃ prefixLen c', c.insert key value = .ok (prefixLen, c') ∧
        (∀ q, c'.lookup q = (c.lookup q).or (if q <+: key ∧ q ≠ [] then value[q.length - 1]? else none)) ∧
        prefixLen ≤ key.length ∧ ∀ i < key.length, (c.lookup (key.take (i + 1))).isSome ↔ i < prefixLen := by
  obtain ⟨sound, locked⟩ := run.sound
  have sized := sound.toSized
  refine ⟨fun q r some pre ne => ?_, fun key => ?_, fun key value filled => ?_⟩
  · rw [sized.lookup_isSome] at some ⊢
    exact sound.forest.closed some pre ne
  · obtain ⟨values, node, c', run, reached, along⟩ := matchPrefix_spec key sound locked
    have same := sized.lookup_congr reached.sound.toSized fun e => by rw [reached.entries]
    refine ⟨values, node, c', run, same, reached.pre, along.1, fun i lt => ?_, fun r pre some => ?_⟩
    · rw [← same]
      exact along.lookup reached.sound.toSized lt
    · rw [sized.lookup_isSome] at some
      refine List.prefix_of_prefix_length_le pre reached.pre ?_
      refine reached.length_ge (fun i lt => ?_) pre.length_le
      have cut : key.take (i + 1) = r.take (i + 1) := by
        conv_rhs => rw [List.prefix_iff_eq_take.1 pre, List.take_take, Nat.min_eq_left (by omega)]
      rw [cut]
      refine sound.forest.closed some (List.take_prefix ..) (List.ne_nil_of_length_pos ?_)
      rw [List.length_take]
      omega
  · obtain ⟨prefixLen, c', run, le, done⟩ := insert_spec sound locked filled
    refine ⟨prefixLen, c', run, done.lookup sized filled, le, fun i lt => ?_⟩
    have pre : key.take (i + 1) <+: key := List.take_prefix ..
    have length : (key.take (i + 1)).length = i + 1 := by
      rw [List.length_take]
      omega
    rw [sized.lookup_isSome]
    constructor
    · intro old
      by_contra ge
      exact done.fresh sized filled pre (by omega) old
    · intro less
      have there := done.covers filled pre (List.ne_nil_of_length_pos (by omega))
      exact ((done.cells_iff sized filled).1 there).resolve_right fun new => by omega

theorem match_insert_refine_used : ∃ prefixLen c', usedCache.insert [7, 9] [3, 4] = .ok (prefixLen, c') ∧
    (∀ q, c'.lookup q = (usedCache.lookup q).or (if q <+: [7, 9] ∧ q ≠ [] then [3, 4][q.length - 1]? else none)) ∧
    prefixLen ≤ 2 ∧ ∀ i < 2, (usedCache.lookup ([7, 9].take (i + 1))).isSome ↔ i < prefixLen :=
  (match_insert_refine usedCache_run).2.2 [7, 9] [3, 4] rfl

/-! ## Locks and evictions -/

/-- The sequences that a held reference extends. -/
def Needed (held : List (List α)) (q : List α) : Prop := ∃ path ∈ held, q <+: path

instance (held : List (List α)) (q : List α) : Decidable (Needed held q) := List.decidableBEx ..

/-- A sequence is needed exactly if its node is locked. -/
theorem Locked.needed_iff (locked : c.Locked held) (sized : c.Sized) {node : TreeNode α β} (mem : node ∈ c.nodes) {q : List α}
    (pre : q <+: node.path) (lt : node.start < q.length) : Needed held q ↔ node.lockRef ≠ 0 := by
  rw [locked.locks node mem, Ne, List.countP_eq_zero]
  simp only [decide_eq_true_eq, not_forall, not_not]
  constructor
  · rintro ⟨path, here, below⟩
    refine ⟨path, here, ?_⟩
    obtain rfl | ⟨m, hm, rfl⟩ := locked.handles path here
    · have := below.length_le
      rw [List.length_nil] at this
      omega
    · obtain ⟨t, ht, up, inside, after⟩ := sized.forest.chain (mem_segs hm) below (List.ne_nil_of_length_pos (Nat.zero_lt_of_lt lt))
      have same := sized.forest.unique ht (mem_segs mem) inside after pre lt
      rw [same] at up
      exact up
  · rintro ⟨path, here, below⟩
    exact ⟨path, here, pre.trans below⟩

omit [DecidableEq α] in
theorem countP_entries (sized : c.Sized) {p : List α × β → Bool} {r : Nat → Bool}
    (same : ∀ node ∈ c.nodes, ∀ e ∈ node.entries, p e = r node.lockRef) : c.entries.countP p = c.sizeOf r := by
  unfold entries sizeOf
  rw [List.countP_flatMap]
  refine congrArg List.sum (List.map_congr_left fun node mem => ?_)
  have length : node.entries.length = node.key.length := by
    rw [← List.length_map Prod.fst, TreeNode.entries_fst (sized.filled node mem), length_cells_seg, TreeNode.key_length]
    rfl
  have each : node.entries.countP p = node.entries.countP fun _ => r node.lockRef :=
    List.countP_congr fun e here => by rw [same node mem e here]
  rw [Function.comp_apply, each]
  cases r node.lockRef with
  | true => rw [List.countP_true, length, if_pos rfl]
  | false =>
    rw [List.countP_false, if_neg Bool.false_ne_true]
    rfl

/-- The sizes count the sequences that are needed and those that are not. -/
theorem Locked.sizes (locked : c.Locked held) (sized : c.Sized) :
    c.protectedSize = c.entries.countP (fun e => Needed held e.1) ∧ c.evictableSize = c.entries.countP (fun e => ¬Needed held e.1) := by
  have needed (node : TreeNode α β) (mem : node ∈ c.nodes) (e : List α × β) (here : e ∈ node.entries) :
      Needed held e.1 ↔ node.lockRef ≠ 0 := by
    have cell : e.1 ∈ node.seg.cells := by
      rw [← TreeNode.entries_fst (sized.filled node mem)]
      exact List.mem_map_of_mem here
    obtain ⟨pre, lt⟩ := mem_cells_seg.1 cell
    exact locked.needed_iff sized mem pre lt
  rw [sized.protect, sized.evictable]
  refine ⟨congrArg Nat.cast (countP_entries sized fun node mem e here => ?_).symm,
    congrArg Nat.cast (countP_entries sized fun node mem e here => ?_).symm⟩
  · rw [Bool.eq_iff_iff, decide_eq_true_eq, bne_iff_ne]
    exact needed node mem e here
  · rw [Bool.eq_iff_iff, decide_eq_true_eq, beq_iff_eq, needed node mem e here, not_not]

/-- An eviction keeps what is needed. -/
theorem Evicted.lookup {freed : List β} (done : Evicted held c c' freed) (sized : c.Sized) (q : List α) :
    c'.lookup q = c.lookup q ∨ c'.lookup q = none ∧ ¬Needed held q := by
  cases after : c'.lookup q with
  | some v =>
    refine .inl ((sized.lookup_eq_some.2 ?_).symm)
    exact done.entries_sub _ (done.sound.lookup_eq_some.1 after)
  | none =>
    by_cases needed : Needed held q
    · refine .inl ?_
      cases before : c.lookup q with
      | none => rfl
      | some v =>
        obtain ⟨path, here, pre⟩ := needed
        have mem := sized.lookup_eq_some.1 before
        have cell : q ∈ cells c.segs := sized.lookup_isSome.1 (by rw [before]; rfl)
        have ne : q ≠ [] := by
          obtain ⟨s, _, _, lt⟩ := mem_cells.1 cell
          exact List.ne_nil_of_length_pos (Nat.zero_lt_of_lt lt)
        have kept : q ∈ cells c'.segs := by
          obtain rfl | ⟨m, hm, rfl⟩ := done.locked.handles path here
          · exact absurd (List.prefix_nil.1 pre) ne
          · exact done.sound.forest.closed (mem_cells.2 ⟨m.seg, mem_segs hm, List.prefix_refl _, done.sound.lt hm⟩) pre ne
        rw [← done.sound.lookup_isSome, after] at kept
        exact absurd kept Bool.false_ne_true
    · exact .inr ⟨rfl, needed⟩

/-- **Locking and evicting** see only which sequences a held reference extends. The sizes count them; taking and
giving back a reference keeps the map; an eviction removes sequences that no reference extends, gives their
values back, and stops short only when no others are left. -/
theorem lock_evict_refine (run : Run c held) :
    c.protectedSize = c.entries.countP (fun e => Needed held e.1) ∧ c.evictableSize = c.entries.countP (fun e => ¬Needed held e.1) ∧
      (∀ path, c.IsNode path → ∃ delta c', c.incLockRef path = .ok (delta, c') ∧ ∀ q, c'.lookup q = c.lookup q) ∧
      (∀ path ∈ held, ∃ delta c', c.decLockRef path = .ok (delta, c') ∧ ∀ q, c'.lookup q = c.lookup q) ∧
      ∀ pick numTokens, ∃ freed c', c.evict pick numTokens = .ok (freed.length, freed, c') ∧
        (∀ q, c'.lookup q = c.lookup q ∨ c'.lookup q = none ∧ ¬Needed held q) ∧
        (c.entries.map Prod.snd).Perm (freed ++ c'.entries.map Prod.snd) ∧
        (numTokens ≤ freed.length ∨ ∀ q, (c'.lookup q).isSome → Needed held q) := by
  obtain ⟨sound, locked⟩ := run.sound
  have sized := sound.toSized
  obtain ⟨protect, evictable⟩ := locked.sizes sized
  refine ⟨protect, evictable, fun path isNode => ?_, fun path mem => ?_, fun pick numTokens => ?_⟩
  · obtain ⟨delta, c', run, done, _⟩ := incLockRef_spec sound locked isNode
    exact ⟨delta, c', run, sized.lookup_congr done.sound.toSized fun e => by rw [done.entries]⟩
  · obtain ⟨a, b, rfl⟩ := List.append_of_mem mem
    obtain ⟨delta, c', run, done, _⟩ := decLockRef_spec sound (locked.perm List.perm_middle)
    exact ⟨delta, c', run, sized.lookup_congr done.sound.toSized fun e => by rw [done.entries]⟩
  · obtain ⟨freed, c', run, done, stop⟩ := evict_spec pick numTokens sound locked
    refine ⟨freed, c', run, done.lookup sized, ?_, stop.imp_right fun none q some => ?_⟩
    · rw [sized.entries_snd, done.sound.entries_snd]
      exact done.values
    · rw [(done.locked.sizes done.sound.toSized).2, Int.natCast_eq_zero, List.countP_eq_zero] at none
      obtain ⟨v, here⟩ := Option.isSome_iff_exists.1 some
      have busy := none (q, v) (done.sound.lookup_eq_some.1 here)
      rwa [decide_eq_true_eq, not_not] at busy

/-- A cache of two sequences that begin alike, one of them in use. -/
def sharedCache : Cache Nat Nat := ⟨[⟨[7], 0, [1], 1⟩, ⟨[7, 8], 1, [2], 1⟩, ⟨[7, 9], 1, [4], 0⟩], 1, 2, [[7, 9]]⟩

theorem sharedCache_run : Run sharedCache [[7, 8]] := usedCache_run.inserted [7, 9] [3, 4] rfl rfl

/-- Asked for five values, an eviction removes the sequence that is not in use, and stops. -/
theorem lock_evict_refine_used :
    (sharedCache.entries.countP fun e => Needed [[7, 8]] e.1) = sharedCache.protectedSize ∧
      ∃ freed c', sharedCache.evict id 5 = .ok (freed.length, freed, c') ∧ c'.lookup [7, 8] = some 2 ∧ c'.lookup [7, 9] = none := by
  obtain ⟨protect, -, -, -, evicts⟩ := lock_evict_refine sharedCache_run
  obtain ⟨freed, c', run, kept, values, stop⟩ := evicts id 5
  have few := values.length_eq
  have rest := stop.resolve_left fun enough => by
    rw [List.length_append] at few
    have three : (sharedCache.entries.map Prod.snd).length = 3 := rfl
    omega
  refine ⟨protect.symm, freed, c', run, ?_, ?_⟩
  · obtain same | ⟨-, free⟩ := kept [7, 8]
    · rw [same]
      rfl
    · exact absurd (by decide) free
  · cases left : c'.lookup [7, 9] with
    | none => rfl
    | some v => exact absurd (rest [7, 9] (by rw [left]; rfl)) (by decide)

end Cache

end SlimeBoard.RadixCache
