import SlimeBoard.Lib.PyDict
import SlimeBoard.Board.Squares

/-!
# Generated layouts

`generate_layout` draws from `random`. The numbers it draws are a parameter: every
call has a number of its own, so the results are those of every random sequence.
-/

namespace SlimeBoard

/-- `random.choice` -/
def choice {α : Type} (r : Nat) (xs : List α) : Py α :=
  match xs[r % xs.length]? with
  | some x => .ok x
  | none => .error .indexError

/-- `random.sample` -/
def sample {α : Type} (random : Nat → Nat) : List α → Nat → Py (List α)
  | _, 0 => .ok []
  | xs, k + 1 =>
    match xs[random k % xs.length]? with
    | none => .error .valueError
    | some x => do
      let rest ← sample random (xs.eraseIdx (random k % xs.length)) k
      return x :: rest

/-- `pop_with_range`: the role and what is left of the list. -/
def popWithRange (r : Nat) (roles : List Role) (rule : Role → Bool) : Option Role × List Role :=
  let candidates := (roles.zipIdx.filter fun entry => rule entry.1).map Prod.snd
  match candidates[r % candidates.length]? with
  | none => (none, roles)
  | some idx => (roles[idx]?, roles.eraseIdx idx)

/-- `layout[pos] = pop_with_range(roles, rule)` -/
def fillSlot (random : Nat → Nat) (rule : Role → Bool) (st : List (Option Role) × List Role) (pos : Nat) :
    List (Option Role) × List Role :=
  let (role, roles) := popWithRange (random pos) st.2 rule
  (st.1.set pos role, roles)

/-- The army, without the flag. -/
def armyRoles : List Role := [0, 0, 0, 1, 2, 3, 3, 4, 4, 5, 5, 6, 6, 7, 7, 7, 8, 8, 8, 9, 9, 9, 10, 10]

/-- The open slots of the two back rows. -/
def openBack (layout : List (Option Role)) : List Nat :=
  (List.range' 15 10).filter fun i => layout[i]? = some none

/-- The part of `generate_layout` after both headquarters are filled: the mines, the
back rows, the front row and the rest. -/
def completeLayout (random : Nat → Nat) (layout : List (Option Role)) (roles : List Role) :
    Py (List (Option Role)) := do
  let num := roles.count 0
  let roles := roles.drop num
  let removeNum ← sample (fun k => random (27 + k)) (openBack layout) num
  let layout := removeNum.foldl (fun layout i => layout.set i (some 0)) layout
  let (layout, roles) := (openBack layout).foldl (fillSlot random fun i => decide (5 ≤ i)) (layout, roles)
  let (layout, roles) := (List.range 5).foldl (fillSlot random fun i => i != 10) (layout, roles)
  let (layout, _) := (List.range' 5 10).foldl (fillSlot random fun _ => true) (layout, roles)
  return layout

/-- `random 25`, `random 26` and `random 27 + k` are drawn for the flag, the other
headquarters and the mines, `random pos` for the slot `pos`. -/
def generateLayout (random : Nat → Nat) : Py (List (Option Role)) := do
  let flagPos ← choice (random 25) [21, 23]
  let layout := (List.replicate 25 none).set flagPos (some 11)
  let other := if flagPos = 21 then 23 else 21
  let (role, roles) := popWithRange (random 26) armyRoles fun i => i == 0 || i == 7 || i == 8
  completeLayout random (layout.set other role) roles

/-- `generate_layout` can return `roles`. -/
def Generates (roles : List Role) : Prop := ∃ random, generateLayout random = .ok (roles.map some)

/-- What a generated layout is like. -/
structure Proper (roles : List Role) : Prop where
  army : roles.Perm (11 :: armyRoles)
  flag : (roles[21]? = some 11 ∧ ∃ r ∈ [(0 : Role), 7, 8], roles[23]? = some r) ∨
    (roles[23]? = some 11 ∧ ∃ r ∈ [(0 : Role), 7, 8], roles[21]? = some r)
  mines : ∀ i : Nat, roles[i]? = some 0 → 15 ≤ i
  bombs : ∀ i : Nat, roles[i]? = some 10 → 5 ≤ i

/-! ## Drawing -/

section Drawing

variable (random : Nat → Nat) (rule : Role → Bool)

/-- A role that fits is drawn as long as there is one. -/
theorem popWithRange_spec {rule : Role → Bool} {roles : List Role} (some_fits : ∃ r ∈ roles, rule r = true) (n : Nat) :
    ∃ role roles', popWithRange n roles rule = (some role, roles') ∧ rule role = true ∧
      roles.Perm (role :: roles') := by
  unfold popWithRange
  dsimp only
  generalize found : (roles.zipIdx.filter fun entry => rule entry.1).map Prod.snd = candidates
  have nonempty : candidates ≠ [] := by
    obtain ⟨r, mem, fits⟩ := some_fits
    obtain ⟨i, bound, rfl⟩ := List.getElem_of_mem mem
    rw [← found]
    refine List.ne_nil_of_mem (a := i) (List.mem_map.2 ⟨(roles[i], i), ?_, rfl⟩)
    rw [List.mem_filter, List.mem_zipIdx_iff_getElem?]
    exact ⟨List.getElem?_eq_getElem bound, fits⟩
  have bound : n % candidates.length < candidates.length := Nat.mod_lt _ (List.length_pos_iff.2 nonempty)
  rw [List.getElem?_eq_getElem bound]
  have drawn := List.getElem_mem bound
  generalize candidates[n % candidates.length] = idx at drawn
  rw [← found, List.mem_map] at drawn
  obtain ⟨⟨role, i⟩, mem, same⟩ := drawn
  change i = idx at same
  subst same
  rw [List.mem_filter, List.mem_zipIdx_iff_getElem?] at mem
  obtain ⟨at_, fits⟩ := mem
  obtain ⟨low, value⟩ := List.getElem?_eq_some_iff.1 at_
  refine ⟨role, roles.eraseIdx i, by dsimp only; rw [at_], fits, ?_⟩
  change roles[i] = role at value
  rw [← value]
  exact (List.getElem_cons_eraseIdx_perm low).symm

/-- Filling an open slot adds one role to the layout. -/
theorem reduceOption_set {layout : List (Option Role)} {pos : Nat} (opened : layout[pos]? = some none) (r : Role) :
    (layout.set pos (some r)).reduceOption.Perm (r :: layout.reduceOption) := by
  induction layout generalizing pos with
  | nil => simp at opened
  | cons entry layout ih =>
    cases pos with
    | zero =>
      rw [List.getElem?_cons_zero, Option.some.injEq] at opened
      subst opened
      rw [List.set_cons_zero, List.reduceOption_cons_of_some, List.reduceOption_cons_of_none]
    | succ pos =>
      rw [List.getElem?_cons_succ] at opened
      rw [List.set_cons_succ]
      cases entry with
      | none =>
        rw [List.reduceOption_cons_of_none, List.reduceOption_cons_of_none]
        exact ih opened
      | some s =>
        rw [List.reduceOption_cons_of_some, List.reduceOption_cons_of_some]
        exact ((ih opened).cons s).trans (List.Perm.swap r s _)

/-- What filling the slots `ps` does to a layout and the roles left over. -/
structure Filled (rule : Role → Bool) (ps : List Nat) (layout : List (Option Role)) (roles : List Role)
    (layout' : List (Option Role)) (roles' : List Role) : Prop where
  filled : ∀ p ∈ ps, ∃ r ∈ roles, layout'[p]? = some (some r) ∧ rule r = true
  kept : ∀ p, p ∉ ps → layout'[p]? = layout[p]?
  perm : (layout'.reduceOption ++ roles').Perm (layout.reduceOption ++ roles)
  length : roles'.length + ps.length = roles.length
  subset : ∀ r ∈ roles', r ∈ roles
  others : ∀ p : Role → Bool, (∀ r, rule r = true → p r = false) → roles'.countP p = roles.countP p

/-- **Open slots are filled** as long as there are enough roles that fit. -/
theorem fillSlots_spec (ps : List Nat) {layout : List (Option Role)} (roles : List Role) (nodup : ps.Nodup)
    (opened : ∀ p ∈ ps, layout[p]? = some none) (enough : ps.length ≤ roles.countP rule) :
    ∃ layout' roles', ps.foldl (fillSlot random rule) (layout, roles) = (layout', roles') ∧
      Filled rule ps layout roles layout' roles' := by
  induction ps generalizing layout roles with
  | nil => exact ⟨layout, roles, rfl, by simp, fun _ _ => rfl, List.Perm.refl _, rfl, fun _ h => h, fun _ _ => rfl⟩
  | cons pos ps ih =>
    rw [List.length_cons] at enough
    rw [List.nodup_cons] at nodup
    have some_fits : 0 < roles.countP rule := by omega
    obtain ⟨role, rest, run, fits, perm⟩ := popWithRange_spec (List.countP_pos_iff.1 some_fits) (random pos)
    have counts := perm.countP_eq rule
    rw [List.countP_cons_of_pos fits] at counts
    have here := opened pos (List.mem_cons_self ..)
    obtain ⟨low, _⟩ := List.getElem?_eq_some_iff.1 here
    have opened' : ∀ p ∈ ps, (layout.set pos (some role))[p]? = some none := by
      intro p mem
      rw [List.getElem?_set_ne]
      · exact opened p (List.mem_cons_of_mem _ mem)
      · rintro rfl
        exact nodup.1 mem
    obtain ⟨layout', roles', run', filled⟩ := ih rest nodup.2 opened' (by omega)
    refine ⟨layout', roles', ?_, ?_, ?_, ?_, ?_, ?_, ?_⟩
    · rw [List.foldl_cons, fillSlot]
      simp only [run]
      exact run'
    · intro p mem
      rcases List.mem_cons.1 mem with rfl | mem
      · refine ⟨role, perm.mem_iff.2 (List.mem_cons_self ..), ?_, fits⟩
        rw [filled.kept p nodup.1, List.getElem?_set_self low]
      · obtain ⟨r, mem, found⟩ := filled.filled p mem
        exact ⟨r, perm.mem_iff.2 (List.mem_cons_of_mem _ mem), found⟩
    · intro p outside
      rw [List.mem_cons, not_or] at outside
      rw [filled.kept p outside.2, List.getElem?_set_ne (Ne.symm outside.1)]
    · refine filled.perm.trans (((reduceOption_set here role).append_right rest).trans ?_)
      rw [List.cons_append]
      exact List.perm_middle.symm.trans (perm.symm.append_left _)
    · have total := perm.length_eq
      have rest := filled.length
      simp only [List.length_cons] at *
      omega
    · intro r mem
      exact perm.mem_iff.2 (List.mem_cons_of_mem _ (filled.subset r mem))
    · intro p misfit
      rw [filled.others p misfit, perm.countP_eq, List.countP_cons_of_neg]
      rw [misfit role fits]
      exact Bool.false_ne_true

/-- A sample has different elements of the list. -/
theorem sample_spec {α : Type} {xs : List α} (nodup : xs.Nodup) {k : Nat} (enough : k ≤ xs.length) :
    ∃ ys, sample random xs k = .ok ys ∧ ys.Nodup ∧ (∀ y ∈ ys, y ∈ xs) ∧ ys.length = k := by
  induction k generalizing xs with
  | zero => exact ⟨[], rfl, List.nodup_nil, by simp, rfl⟩
  | succ k ih =>
    have bound : random k % xs.length < xs.length := Nat.mod_lt _ (by omega)
    have perm := List.getElem_cons_eraseIdx_perm bound
    have nodup' := perm.nodup_iff.2 nodup
    rw [List.nodup_cons] at nodup'
    have length := perm.length_eq
    rw [List.length_cons] at length
    obtain ⟨ys, run, distinct, subset, size⟩ := ih nodup'.2 (by omega)
    refine ⟨xs[random k % xs.length] :: ys, ?_, ?_, ?_, by rw [List.length_cons, size]⟩
    · rw [sample, List.getElem?_eq_getElem bound]
      dsimp only
      rw [run]
      rfl
    · exact List.nodup_cons.2 ⟨fun mem => nodup'.1 (subset _ mem), distinct⟩
    · intro y mem
      rcases List.mem_cons.1 mem with rfl | mem
      · exact List.getElem_mem bound
      · exact perm.mem_iff.1 (List.mem_cons_of_mem _ (subset y mem))

/-- Mines are put into open slots. -/
theorem placeMines_spec {layout : List (Option Role)} (ps : List Nat) (nodup : ps.Nodup)
    (opened : ∀ p ∈ ps, layout[p]? = some none) :
    ∃ layout', ps.foldl (fun layout i => layout.set i (some (0 : Role))) layout = layout' ∧
      (∀ p ∈ ps, layout'[p]? = some (some 0)) ∧ (∀ p, p ∉ ps → layout'[p]? = layout[p]?) ∧
      layout'.reduceOption.Perm (List.replicate ps.length 0 ++ layout.reduceOption) := by
  induction ps generalizing layout with
  | nil => exact ⟨layout, rfl, by simp, fun _ _ => rfl, List.Perm.refl _⟩
  | cons pos ps ih =>
    rw [List.nodup_cons] at nodup
    have here := opened pos (List.mem_cons_self ..)
    obtain ⟨low, _⟩ := List.getElem?_eq_some_iff.1 here
    have opened' : ∀ p ∈ ps, (layout.set pos (some (0 : Role)))[p]? = some none := by
      intro p mem
      rw [List.getElem?_set_ne]
      · exact opened p (List.mem_cons_of_mem _ mem)
      · rintro rfl
        exact nodup.1 mem
    obtain ⟨layout', run, mines, kept, perm⟩ := ih nodup.2 opened'
    refine ⟨layout', run, ?_, ?_, ?_⟩
    · intro p mem
      rcases List.mem_cons.1 mem with rfl | mem
      · rw [kept p nodup.1, List.getElem?_set_self low]
      · exact mines p mem
    · intro p outside
      rw [List.mem_cons, not_or] at outside
      rw [kept p outside.2, List.getElem?_set_ne (Ne.symm outside.1)]
    · refine perm.trans (((reduceOption_set here 0).append_left _).trans ?_)
      rw [List.length_cons, List.replicate_succ]
      exact List.perm_middle

end Drawing

/-! ## The generator -/

/-- The first draw for the second headquarters leaves one of three lists. -/
theorem popOther (n : Nat) :
    ∃ role, popWithRange n armyRoles (fun i => i == 0 || i == 7 || i == 8) = (some role, armyRoles.erase role) ∧
      role ∈ [(0 : Role), 7, 8] := by
  have same : popWithRange n armyRoles (fun i => i == 0 || i == 7 || i == 8) =
      popWithRange (n % 9) armyRoles (fun i => i == 0 || i == 7 || i == 8) := by
    have length : ((armyRoles.zipIdx.filter fun entry => entry.1 == 0 || entry.1 == 7 || entry.1 == 8).map
        Prod.snd).length = 9 := by decide
    unfold popWithRange
    dsimp only
    rw [length, Nat.mod_mod]
  have all : ∀ m < 9, ∃ role ∈ [(0 : Role), 7, 8], popWithRange m armyRoles
      (fun i => i == 0 || i == 7 || i == 8) = (some role, armyRoles.erase role) := by decide
  obtain ⟨role, mem, run⟩ := all (n % 9) (Nat.mod_lt _ (by decide))
  exact ⟨role, same.trans run, mem⟩

theorem choice_pair {α : Type} (n : Nat) (a b : α) : choice n [a, b] = .ok a ∨ choice n [a, b] = .ok b := by
  unfold choice
  rcases Nat.mod_two_eq_zero_or_one n with h | h <;> simp [h]

/-- A layout without open slots. -/
theorem map_some_reduceOption {layout : List (Option Role)} (full : ∀ o ∈ layout, o ≠ none) :
    layout.reduceOption.map some = layout := by
  induction layout with
  | nil => rfl
  | cons o layout ih =>
    cases o with
    | none => exact absurd rfl (full none (List.mem_cons_self ..))
    | some r =>
      rw [List.reduceOption_cons_of_some, List.map_cons, ih fun o mem => full o (List.mem_cons_of_mem _ mem)]

/-- The layout with both headquarters filled, and the roles left over, of which
`num` are mines. -/
structure Begun (layout : List (Option Role)) (roles : List Role) (num : Nat) : Prop where
  flag : (layout[21]? = some (some 11) ∧ ∃ r ∈ [(0 : Role), 7, 8], layout[23]? = some (some r)) ∨
    (layout[23]? = some (some 11) ∧ ∃ r ∈ [(0 : Role), 7, 8], layout[21]? = some (some r))
  length : layout.length = 25
  back : openBack layout = [15, 16, 17, 18, 19, 20, 22, 24]
  front : ∀ i < 15, layout[i]? = some none
  army : (layout.reduceOption ++ (List.replicate num 0 ++ roles)).Perm (11 :: armyRoles)
  noMines : 0 ∉ roles
  few : num ≤ 3
  size : roles.length = 23 - num
  low : 5 ≤ roles.countP fun i => decide (i < 5)
  high : 8 - num ≤ roles.countP fun i => decide (5 ≤ i)

theorem begun_first {role : Role} (mem : role ∈ [(0 : Role), 7, 8]) :
    Begun (((List.replicate 25 none).set 21 (some 11)).set 23 (some role))
      ((armyRoles.erase role).drop ((armyRoles.erase role).count 0)) ((armyRoles.erase role).count 0) := by
  obtain rfl | rfl | rfl : role = 0 ∨ role = 7 ∨ role = 8 := by simpa using mem
  all_goals exact ⟨Or.inl (by decide), by decide, by decide, by decide, by decide, by decide, by decide,
    by decide, by decide, by decide⟩

theorem begun_second {role : Role} (mem : role ∈ [(0 : Role), 7, 8]) :
    Begun (((List.replicate 25 none).set 23 (some 11)).set 21 (some role))
      ((armyRoles.erase role).drop ((armyRoles.erase role).count 0)) ((armyRoles.erase role).count 0) := by
  obtain rfl | rfl | rfl : role = 0 ∨ role = 7 ∨ role = 8 := by simpa using mem
  all_goals exact ⟨Or.inr (by decide), by decide, by decide, by decide, by decide, by decide, by decide,
    by decide, by decide, by decide⟩

theorem mem_openBack {layout : List (Option Role)} {i : Nat} :
    i ∈ openBack layout ↔ (15 ≤ i ∧ i < 25) ∧ layout[i]? = some none := by
  simp only [openBack, List.mem_filter, List.mem_range'_1, decide_eq_true_eq]

theorem openBack_nodup (layout : List (Option Role)) : (openBack layout).Nodup :=
  List.Nodup.filter _ (by decide)

/-- The slots that stay open after mines were put into some of them. -/
theorem openBack_length {layout layout' : List (Option Role)} {ps : List Nat} (nodup : ps.Nodup)
    (subset : ∀ p ∈ ps, p ∈ openBack layout) (mines : ∀ p ∈ ps, layout'[p]? = some (some 0))
    (kept : ∀ p, p ∉ ps → layout'[p]? = layout[p]?) :
    (openBack layout').length + ps.length = (openBack layout).length := by
  have split : (openBack layout).Perm (openBack layout' ++ ps) := by
    have disjoint : (openBack layout').Disjoint ps := by
      intro i mem mine
      have := (mem_openBack.1 mem).2
      rw [mines i mine] at this
      cases this
    rw [List.perm_ext_iff_of_nodup (openBack_nodup _) ((openBack_nodup _).append nodup disjoint)]
    intro i
    rw [List.mem_append]
    by_cases mem : i ∈ ps
    · exact ⟨fun _ => Or.inr mem, fun _ => subset i mem⟩
    · rw [mem_openBack, mem_openBack, kept i mem]
      exact ⟨Or.inl, fun h => h.resolve_right mem⟩
  rw [← List.length_append]
  exact split.length_eq.symm

/-- A layout in which the open slots have been filled from `roles` and with mines. -/
structure Completed (layout : List (Option Role)) (roles : List Role) (out : List (Option Role)) : Prop where
  flags : ∀ i, i = 21 ∨ i = 23 → out[i]? = layout[i]?
  first : ∀ i < 5, ∃ r ∈ roles, out[i]? = some (some r) ∧ r ≠ 10
  middle : ∀ i, 5 ≤ i → i < 15 → ∃ r ∈ roles, out[i]? = some (some r)
  last : ∀ i, 15 ≤ i → i < 25 → ∃ r, out[i]? = some (some r)
  beyond : ∀ i : Nat, 25 ≤ i → out[i]? = none
  army : out.reduceOption.Perm (11 :: armyRoles)

/-- What the mines in `ps` and the three rounds of filling do to each slot. -/
theorem Begun.completed {layout layout₁ layout₂ layout₃ layout₄ : List (Option Role)} {roles roles₂ roles₃ : List Role}
    {num : Nat} {ps : List Nat} (begun : Begun layout roles num) (subset : ∀ p ∈ ps, p ∈ openBack layout)
    (size : ps.length = num) (mines : ∀ p ∈ ps, layout₁[p]? = some (some 0))
    (kept : ∀ p, p ∉ ps → layout₁[p]? = layout[p]?)
    (perm : layout₁.reduceOption.Perm (List.replicate ps.length 0 ++ layout.reduceOption))
    (back : Filled (fun i => decide (5 ≤ i)) (openBack layout₁) layout₁ roles layout₂ roles₂)
    (row : Filled (fun i => i != 10) (List.range 5) layout₂ roles₂ layout₃ roles₃)
    (rest : Filled (fun _ => true) (List.range' 5 10) layout₃ roles₃ layout₄ []) :
    Completed layout roles layout₄ := by
  have later : ∀ i, 15 ≤ i → layout₄[i]? = layout₂[i]? := by
    intro i low
    rw [rest.kept i (by rw [List.mem_range'_1]; omega), row.kept i (by rw [List.mem_range]; omega)]
  have flags : ∀ i, i = 21 ∨ i = 23 → layout₄[i]? = layout[i]? := by
    intro i hq
    have closed : i ∉ openBack layout := by
      rw [begun.back]
      rcases hq with rfl | rfl <;> decide
    have same₁ := kept i fun mem => closed (subset i mem)
    rw [later i (by omega), back.kept i fun mem => closed
      (mem_openBack.2 ⟨(mem_openBack.1 mem).1, same₁ ▸ (mem_openBack.1 mem).2⟩), same₁]
  refine ⟨flags, ?_, ?_, ?_, ?_, ?_⟩
  · intro i bound
    obtain ⟨r, mem, found, rule⟩ := row.filled i (List.mem_range.2 bound)
    refine ⟨r, back.subset r mem, ?_, by simpa using rule⟩
    rw [rest.kept i (by rw [List.mem_range'_1]; omega), found]
  · intro i low bound
    obtain ⟨r, mem, found, _⟩ := rest.filled i (List.mem_range'_1.2 ⟨low, by omega⟩)
    exact ⟨r, back.subset r (row.subset r mem), found⟩
  · intro i low bound
    by_cases mine : i ∈ ps
    · have closed : i ∉ openBack layout₁ := by
        intro mem
        rw [mem_openBack, mines i mine] at mem
        cases mem.2
      exact ⟨0, by rw [later i low, back.kept i closed, mines i mine]⟩
    · by_cases opened : i ∈ openBack layout
      · have still : i ∈ openBack layout₁ := by
          rw [mem_openBack, kept i mine]
          exact mem_openBack.1 opened
        obtain ⟨r, _, found, _⟩ := back.filled i still
        exact ⟨r, (later i low).trans found⟩
      · have hq : i = 21 ∨ i = 23 := by
          rw [begun.back] at opened
          simp only [List.mem_cons, List.not_mem_nil, or_false] at opened
          omega
        rw [flags i hq]
        rcases begun.flag with ⟨flag, r, _, other⟩ | ⟨flag, r, _, other⟩ <;> rcases hq with rfl | rfl
        · exact ⟨_, flag⟩
        · exact ⟨_, other⟩
        · exact ⟨_, other⟩
        · exact ⟨_, flag⟩
  · intro i bound
    have outside : ∀ l, i ∉ openBack l := fun l mem => by
      have := (mem_openBack.1 mem).1
      omega
    rw [later i (by omega), back.kept i (outside _), kept i fun mem => outside _ (subset i mem)]
    exact List.getElem?_eq_none (by rw [begun.length]; exact bound)
  · have perms := rest.perm.trans (row.perm.trans back.perm)
    rw [List.append_nil] at perms
    refine perms.trans (((perm.append_right roles).trans ?_).trans begun.army)
    rw [size, List.append_assoc]
    exact List.perm_append_comm_assoc _ _ _

/-- A completed layout has no open slots left. -/
theorem Completed.full {layout out : List (Option Role)} {roles : List Role} (h : Completed layout roles out) :
    ∀ o ∈ out, o ≠ none := by
  intro o mem opened
  obtain ⟨i, found⟩ := List.getElem?_of_mem mem
  rw [opened] at found
  have filled : ∃ r : Role, out[i]? = some (some r) ∨ 25 ≤ i := by
    by_cases low : i < 5
    · obtain ⟨r, _, value, _⟩ := h.first i low
      exact ⟨r, Or.inl value⟩
    · by_cases mid : i < 15
      · obtain ⟨r, _, value⟩ := h.middle i (by omega) mid
        exact ⟨r, Or.inl value⟩
      · by_cases high : i < 25
        · obtain ⟨r, value⟩ := h.last i (by omega) high
          exact ⟨r, Or.inl value⟩
        · exact ⟨0, Or.inr (by omega)⟩
  obtain ⟨r, value | high⟩ := filled
  · rw [value] at found
    cases found
  · rw [h.beyond i high] at found
    cases found

theorem Completed.proper {layout out : List (Option Role)} {roles : List Role} {num : Nat}
    (begun : Begun layout roles num) (h : Completed layout roles out) : Proper out.reduceOption := by
  have read : ∀ (i : Nat) r, out.reduceOption[i]? = some r ↔ out[i]? = some (some r) := by
    intro i r
    conv_rhs => rw [← map_some_reduceOption h.full]
    rw [List.getElem?_map, Option.map_eq_some_iff]
    simp
  refine ⟨h.army, ?_, ?_, ?_⟩
  · simp only [read, h.flags 21 (Or.inl rfl), h.flags 23 (Or.inr rfl)]
    exact begun.flag
  · intro i mine
    rw [read] at mine
    apply Classical.byContradiction
    intro low
    have present : (0 : Role) ∈ roles := by
      by_cases early : i < 5
      · obtain ⟨r, mem, value, _⟩ := h.first i early
        rw [value, Option.some.injEq, Option.some.injEq] at mine
        exact mine ▸ mem
      · obtain ⟨r, mem, value⟩ := h.middle i (by omega) (by omega)
        rw [value, Option.some.injEq, Option.some.injEq] at mine
        exact mine ▸ mem
    exact begun.noMines present
  · intro i bomb
    rw [read] at bomb
    apply Classical.byContradiction
    intro low
    obtain ⟨r, _, value, other⟩ := h.first i (by omega)
    rw [value, Option.some.injEq, Option.some.injEq] at bomb
    exact other bomb

/-- From both headquarters filled to the whole layout. -/
theorem Begun.finish {layout : List (Option Role)} {army : List Role}
    (begun : Begun layout (army.drop (army.count 0)) (army.count 0)) (random : Nat → Nat) :
    ∃ out, completeLayout random layout army = .ok (out.map some) ∧ Proper out := by
  unfold completeLayout
  dsimp only
  generalize army.drop (army.count 0) = roles at begun ⊢
  generalize army.count 0 = num at begun ⊢
  have backLength : (openBack layout).length = 8 := by rw [begun.back]; rfl
  have few := begun.few
  obtain ⟨ps, run₁, nodup, subset, size⟩ :=
    sample_spec (fun k => random (27 + k)) (openBack_nodup layout) (show num ≤ _ by omega)
  obtain ⟨layout₁, run₂, mines, kept, perm⟩ := placeMines_spec ps nodup fun p mem => (mem_openBack.1 (subset p mem)).2
  have left := openBack_length nodup subset mines kept
  have high := begun.high
  obtain ⟨layout₂, roles₂, run₃, back⟩ := fillSlots_spec random (fun i => decide (5 ≤ i))
    (openBack layout₁) roles (openBack_nodup layout₁) (fun p mem => (mem_openBack.1 mem).2) (by omega)
  -- the front rows are still open
  have front : ∀ i < 15, layout₂[i]? = some none := by
    intro i bound
    have outside : ∀ l, i ∉ openBack l := fun l mem => by
      have := (mem_openBack.1 mem).1
      omega
    rw [back.kept i (outside _), kept i fun mem => outside _ (subset i mem)]
    exact begun.front i bound
  have low : 5 ≤ roles₂.countP fun i => i != 10 := by
    have same := back.others (fun i => decide (i < 5)) (by decide)
    have more : roles₂.countP (fun i => decide (i < 5)) ≤ roles₂.countP fun i => i != 10 := by
      have implies : ∀ i : Role, decide (i < 5) = true → (i != 10) = true := by decide
      exact List.countP_mono_left fun i _ => implies i
    have := begun.low
    omega
  obtain ⟨layout₃, roles₃, run₄, row⟩ := fillSlots_spec random (fun i => i != 10) (List.range 5) roles₂
    List.nodup_range (fun p mem => front p (by have := List.mem_range.1 mem; omega))
    (by rw [List.length_range]; exact low)
  have length₁ := back.length
  have length₂ := row.length
  have total := begun.size
  rw [List.length_range] at length₂
  have opened : ∀ p ∈ List.range' 5 10, layout₃[p]? = some none := by
    intro p mem
    rw [List.mem_range'_1] at mem
    rw [row.kept p fun mem' => by have := List.mem_range.1 mem'; omega]
    exact front p (by omega)
  obtain ⟨layout₄, roles₄, run₅, rest⟩ := fillSlots_spec random (fun _ => true) (List.range' 5 10) roles₃
    (by decide) opened (by rw [List.countP_true, List.length_range']; omega)
  have length₃ := rest.length
  rw [List.length_range'] at length₃
  obtain rfl : roles₄ = [] := List.eq_nil_of_length_eq_zero (by omega)
  have completed := begun.completed subset size mines kept perm back row rest
  refine ⟨layout₄.reduceOption, ?_, completed.proper begun⟩
  rw [run₁, Py.ok_bind]
  simp only [run₂, run₃, run₄, run₅, map_some_reduceOption completed.full]
  rfl

/-- **Every layout the generator produces is a proper one**, and it produces one
from every random sequence. -/
theorem generateLayout_spec (random : Nat → Nat) :
    ∃ out, generateLayout random = .ok (out.map some) ∧ Proper out := by
  obtain ⟨role, draw, mem⟩ := popOther (random 26)
  unfold generateLayout
  rcases choice_pair (random 25) 21 23 with flag | flag
  · rw [flag, Py.ok_bind, draw, if_pos rfl]
    exact (begun_first mem).finish random
  · rw [flag, Py.ok_bind, draw, if_neg (by decide)]
    exact (begun_second mem).finish random

theorem Generates.proper {roles : List Role} (generates : Generates roles) : Proper roles := by
  obtain ⟨random, run⟩ := generates
  obtain ⟨out, run', proper⟩ := generateLayout_spec random
  rw [run, Except.ok.injEq] at run'
  rw [List.map_injective_iff.2 (Option.some_injective _) run']
  exact proper

/-- How many pieces of each role an army has. -/
def fullArmy : Role → Nat := ![3, 1, 1, 2, 2, 2, 2, 3, 3, 3, 2, 1]

theorem Proper.count {roles : List Role} (proper : Proper roles) (r : Role) : roles.count r = fullArmy r := by
  rw [proper.army.count_eq]
  revert r
  decide

theorem Proper.slots {roles : List Role} (proper : Proper roles) : roles.length = 25 := proper.army.length_eq

/-- **`generate_layout` returns a full army** from every random sequence: the flag in one headquarters, a mine or a low
commander in the other, the mines in the back rows and no bomb in front. -/
theorem layouts_full (random : Nat → Nat) :
    ∃ roles : List Role, generateLayout random = .ok (roles.map some) ∧ roles.length = 25 ∧ (∀ r, roles.count r = fullArmy r) ∧
      ((roles[21]? = some 11 ∧ ∃ r ∈ [(0 : Role), 7, 8], roles[23]? = some r) ∨
        (roles[23]? = some 11 ∧ ∃ r ∈ [(0 : Role), 7, 8], roles[21]? = some r)) ∧
      (∀ i : Nat, roles[i]? = some 0 → 15 ≤ i ∧ i ≤ 24) ∧ ∀ i < 5, roles[i]? ≠ some 10 := by
  obtain ⟨roles, run, proper⟩ := generateLayout_spec random
  refine ⟨roles, run, proper.slots, proper.count, proper.flag, fun i mine => ⟨proper.mines i mine, ?_⟩, fun i lt bomb => ?_⟩
  · obtain ⟨lt, -⟩ := List.getElem?_eq_some_iff.1 mine
    rw [proper.slots] at lt
    omega
  · have back := proper.bombs i bomb
    omega

end SlimeBoard
