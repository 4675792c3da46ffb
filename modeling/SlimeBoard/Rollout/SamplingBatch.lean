import SlimeBoard.Lib.PyDict

/-!
# The logits masks of a sampling batch

A `SamplingBatchInfo` holds the masks of its requests in a list. Filtering makes a new list,
merging extends the list in place, and a copy for a forward pass shares it. The masks are applied
only if every entry of the list is one.
-/

namespace SlimeBoard.SamplingBatch

/-- `logits_mask` of a request: the tokens it allows, if it gives any. -/
abbrev Mask (vocabSize : Nat) := Option (List (Fin vocabSize))

/-- The logits of a request. `⊥` is minus infinity. -/
abbrev Row (vocabSize : Nat) := Fin vocabSize → WithBot ℚ

-- membership in lists of tokens looks for it
local instance lawfulBEq_tokens {vocabSize : Nat} : LawfulBEq (Fin vocabSize) := inferInstance

variable {vocabSize : Nat}

/-- A `SamplingBatchInfo`. -/
structure Info where
  /-- which list `logits_mask` is -/
  logitsMask : Nat
  /-- whether `penalizer_orchestrator` is one -/
  orchestrated : Bool
  deriving DecidableEq

/-- The lists of masks, and the objects that have been made. -/
structure Objects (vocabSize : Nat) where
  lists : List (List (Mask vocabSize))
  infos : List Info

inductive Op (vocabSize : Nat) where
  | fromScheduleBatch (reqs : List (Mask vocabSize))
  | filterBatch (self : Nat) (keepIndices : List Nat)
  | mergeBatch (self other : Nat)
  | copyForForward (self : Nat)

/-- The object with number `i`, with a penalizer orchestrator. The operations on others raise. -/
def orchestrated (s : Objects vocabSize) (i : Nat) : Py Info := do
  let info ← pyIndex s.infos i
  if info.orchestrated then .ok info else .error .typeError

def fromScheduleBatch (s : Objects vocabSize) (reqs : List (Mask vocabSize)) : Objects vocabSize :=
  ⟨s.lists ++ [reqs], s.infos ++ [⟨s.lists.length, true⟩]⟩

def filterBatch (s : Objects vocabSize) (self : Nat) (keepIndices : List Nat) : Py (Objects vocabSize) := do
  let info ← orchestrated s self
  let logitsMask ← pyIndex s.lists info.logitsMask
  let kept ← keepIndices.mapM (pyIndex logitsMask)
  return ⟨s.lists ++ [kept], s.infos.set self ⟨s.lists.length, true⟩⟩

/-- `self.logits_mask += other.logits_mask` extends the list that `self` has. -/
def mergeBatch (s : Objects vocabSize) (self other : Nat) : Py (Objects vocabSize) := do
  let info ← orchestrated s self
  let info' ← orchestrated s other
  let logitsMask ← pyIndex s.lists info.logitsMask
  let logitsMask' ← pyIndex s.lists info'.logitsMask
  return ⟨s.lists.set info.logitsMask (logitsMask ++ logitsMask'), s.infos⟩

/-- `dataclasses.replace(self, penalizer_orchestrator=None)` -/
def copyForForward (s : Objects vocabSize) (self : Nat) : Py (Objects vocabSize) := do
  let info ← orchestrated s self
  return ⟨s.lists, s.infos ++ [⟨info.logitsMask, false⟩]⟩

def run (s : Objects vocabSize) : Op vocabSize → Py (Objects vocabSize)
  | .fromScheduleBatch reqs => .ok (fromScheduleBatch s reqs)
  | .filterBatch self keepIndices => filterBatch s self keepIndices
  | .mergeBatch self other => mergeBatch s self other
  | .copyForForward self => copyForForward s self

def runAll (ops : List (Op vocabSize)) : Py (Objects vocabSize) := ops.foldlM run ⟨[], []⟩

/-- `mask[i, idx] = 0.0` for each entry of `logits_mask`, on a mask of minus infinity of `rows` rows -/
def maskOf (logitsMask : List (List (Fin vocabSize))) (rows : Nat) : Py (List (Row vocabSize)) :=
  if logitsMask.length ≤ rows then
    .ok ((List.range rows).map fun i t => if t ∈ logitsMask.getD i [] then 0 else ⊥)
  else .error .indexError

/-- The end of `apply_logits_bias`, on logits that the penalties, the grammar and the bias have been applied to. -/
def applyLogitsBias (logitsMask : List (Mask vocabSize)) (logits : List (Row vocabSize)) : Py (List (Row vocabSize)) :=
  if logitsMask.all Option.isSome then do
    let mask ← maskOf (logitsMask.map fun idx => idx.getD []) logits.length
    return logits.zipWith (fun row mask t => row t + mask t) mask
  else .ok logits

/-! ## What the masks are for -/

/-- The requests of each object, at the time it was taken if it is a copy. -/
def requests (batches : List (List (Mask vocabSize))) : Op vocabSize → List (List (Mask vocabSize))
  | .fromScheduleBatch reqs => batches ++ [reqs]
  | .filterBatch self keepIndices => batches.set self (keepIndices.filterMap fun i => (batches.getD self [])[i]?)
  | .mergeBatch self other => batches.set self (batches.getD self [] ++ batches.getD other [])
  | .copyForForward self => batches ++ [batches.getD self []]

def requestsAll (ops : List (Op vocabSize)) : List (List (Mask vocabSize)) := ops.foldl requests []

/-- A request's logits with the tokens outside its mask at minus infinity. -/
def masked : Mask vocabSize → Row vocabSize → Row vocabSize
  | none, row => row
  | some tokens, row => fun t => if t ∈ tokens then row t else ⊥

/-- Whatever the logits of the requests are, applying the list masks those of each by its own mask. -/
def MasksOwn (logitsMask reqs : List (Mask vocabSize)) : Prop :=
  ∀ logits : List (Row vocabSize), logits.length = reqs.length → applyLogitsBias logitsMask logits = .ok (reqs.zipWith masked logits)

/-- The list has a mask for each request and for no other, or one is missing and the others allow everything. -/
def Applies (logitsMask reqs : List (Mask vocabSize)) : Prop :=
  (logitsMask.length = reqs.length ∧ ∀ mask ∈ logitsMask, mask ≠ none) ∨
    none ∈ logitsMask ∧ ∀ tokens, some tokens ∈ reqs → ∀ t, t ∈ tokens

/-- The lists of the objects begin with the masks of their requests, and those of the objects that can still
change are theirs alone. -/
structure Tracks (s : Objects vocabSize) (batches : List (List (Mask vocabSize))) : Prop where
  size : s.infos.length = batches.length
  listed : ∀ (i : Nat) (info : Info) reqs, s.infos[i]? = some info → batches[i]? = some reqs →
    ∃ masks, s.lists[info.logitsMask]? = some masks ∧ reqs <+: masks ∧ (info.orchestrated = true → masks = reqs)
  own : ∀ (i j : Nat) (info info' : Info), s.infos[i]? = some info → s.infos[j]? = some info' → info.orchestrated = true →
    info'.orchestrated = true → info.logitsMask = info'.logitsMask → i = j

section Proofs

variable {s s' : Objects vocabSize} {batches : List (List (Mask vocabSize))}

theorem orchestrated_ok {i : Nat} {info : Info} (ok : orchestrated s i = .ok info) :
    s.infos[i]? = some info ∧ info.orchestrated = true := by
  obtain ⟨found, here, ok⟩ := Py.bind_eq_ok.1 ok
  split at ok
  · rename_i live
    obtain rfl := Except.ok.inj ok
    exact ⟨pyIndex_ok_iff.1 here, live⟩
  · cases ok

theorem snoc_cases {α : Type} {xs : List α} {x y : α} {i : Nat} (here : (xs ++ [x])[i]? = some y) :
    xs[i]? = some y ∨ i = xs.length ∧ x = y := by
  rcases Nat.lt_or_ge i xs.length with lt | ge
  · rw [List.getElem?_append_left lt] at here
    exact Or.inl here
  · rw [List.getElem?_append_right ge] at here
    cases at' : i - xs.length with
    | zero =>
      rw [at'] at here
      exact Or.inr ⟨by omega, Option.some.inj here⟩
    | succ k =>
      rw [at'] at here
      cases here

theorem getElem?_append_of {α : Type} {xs : List α} {x : α} {i : Nat} (here : xs[i]? = some x) (ys : List α) :
    (xs ++ ys)[i]? = some x := by
  rw [List.getElem?_append_left (List.getElem?_eq_some_iff.1 here).1, here]

theorem set_cases {α : Type} {xs : List α} {i j : Nat} {x y : α} (here : (xs.set i x)[j]? = some y) :
    i ≠ j ∧ xs[j]? = some y ∨ i = j ∧ x = y := by
  rw [List.getElem?_set] at here
  split at here
  · rename_i same
    split at here
    · exact Or.inr ⟨same, Option.some.inj here⟩
    · cases here
  · rename_i differ
    exact Or.inl ⟨differ, here⟩

theorem mapM_pyIndex_eq {α : Type} {xs kept : List α} {is : List Nat} (done : is.mapM (pyIndex xs) = .ok kept) :
    kept = is.filterMap fun i => xs[i]? := by
  have each := mapM_forall₂.1 done
  clear done
  induction each with
  | nil => rfl
  | cons head _ ih => rw [List.filterMap_cons, pyIndex_ok_iff.1 head, ih]

namespace Tracks

variable (tracks : Tracks s batches)

include tracks

/-- The list of an object is there. -/
theorem ref_lt {i : Nat} {info : Info} (here : s.infos[i]? = some info) : info.logitsMask < s.lists.length := by
  have lt := (List.getElem?_eq_some_iff.1 here).1
  obtain ⟨masks, found, _⟩ := tracks.listed i info _ here (List.getElem?_eq_getElem (tracks.size ▸ lt))
  exact (List.getElem?_eq_some_iff.1 found).1

theorem from_schedule_batch (reqs : List (Mask vocabSize)) : Tracks (fromScheduleBatch s reqs) (batches ++ [reqs]) where
  size := by
    rw [fromScheduleBatch, List.length_append, List.length_append, tracks.size]
    rfl
  listed := fun i info found here there => by
    rcases snoc_cases here with old | ⟨rfl, rfl⟩
    · rcases snoc_cases there with old' | ⟨same, _⟩
      · obtain ⟨masks, at', rest⟩ := tracks.listed i info found old old'
        exact ⟨masks, getElem?_append_of at' _, rest⟩
      · exact absurd (List.getElem?_eq_some_iff.1 old).1 (by have := tracks.size; omega)
    · rcases snoc_cases there with old | ⟨_, rfl⟩
      · exact absurd (List.getElem?_eq_some_iff.1 old).1 (by have := tracks.size; omega)
      · exact ⟨reqs, List.getElem?_concat_length, List.prefix_refl _, fun _ => rfl⟩
  own := fun i j info info' here there live live' same => by
    rcases snoc_cases here with old | ⟨rfl, rfl⟩
    · rcases snoc_cases there with old' | ⟨rfl, rfl⟩
      · exact tracks.own i j info info' old old' live live' same
      · exact absurd (tracks.ref_lt old) (by rw [same]; exact Nat.lt_irrefl _)
    · rcases snoc_cases there with old' | ⟨rfl, rfl⟩
      · exact absurd (tracks.ref_lt old') (by rw [← same]; exact Nat.lt_irrefl _)
      · rfl

/-- The list of an object that can change is the masks of its requests. -/
theorem live_masks {i : Nat} {info : Info} (here : s.infos[i]? = some info) (live : info.orchestrated = true) :
    s.lists[info.logitsMask]? = some (batches.getD i []) := by
  have lt := (List.getElem?_eq_some_iff.1 here).1
  have there : batches[i]? = some (batches.getD i []) := by
    rw [List.getD_eq_getElem?_getD, List.getElem?_eq_getElem (tracks.size ▸ lt), Option.getD_some]
  obtain ⟨masks, found, _, same⟩ := tracks.listed i info _ here there
  rw [found, same live]

theorem filter_batch {self : Nat} {keepIndices : List Nat} (done : filterBatch s self keepIndices = .ok s') :
    Tracks s' (batches.set self (keepIndices.filterMap fun i => (batches.getD self [])[i]?)) := by
  obtain ⟨info, ok, done⟩ := Py.bind_eq_ok.1 done
  obtain ⟨here, live⟩ := orchestrated_ok ok
  obtain ⟨masks, found, done⟩ := Py.bind_eq_ok.1 done
  obtain ⟨kept, keeps, done⟩ := Py.bind_eq_ok.1 done
  obtain rfl := Option.some.inj ((pyIndex_ok_iff.1 found).symm.trans (tracks.live_masks here live))
  obtain rfl := mapM_pyIndex_eq keeps
  rw [← Except.ok.inj done]
  refine ⟨?_, fun i info' reqs at' there => ?_, fun i j info₁ info₂ at₁ at₂ live₁ live₂ same => ?_⟩
  · rw [List.length_set, List.length_set, tracks.size]
  · rcases set_cases at' with ⟨differ, old⟩ | ⟨rfl, rfl⟩
    · rcases set_cases there with ⟨_, old'⟩ | ⟨same, _⟩
      · obtain ⟨masks, at', rest⟩ := tracks.listed i info' reqs old old'
        exact ⟨masks, getElem?_append_of at' _, rest⟩
      · exact absurd same differ
    · rcases set_cases there with ⟨differ, _⟩ | ⟨_, rfl⟩
      · exact absurd rfl differ
      · exact ⟨_, List.getElem?_concat_length, List.prefix_refl _, fun _ => rfl⟩
  · rcases set_cases at₁ with ⟨differ, old₁⟩ | ⟨rfl, rfl⟩
    · rcases set_cases at₂ with ⟨_, old₂⟩ | ⟨rfl, rfl⟩
      · exact tracks.own i j info₁ info₂ old₁ old₂ live₁ live₂ same
      · exact absurd (tracks.ref_lt old₁) (by rw [same]; exact Nat.lt_irrefl _)
    · rcases set_cases at₂ with ⟨_, old₂⟩ | ⟨rfl, rfl⟩
      · exact absurd (tracks.ref_lt old₂) (by rw [← same]; exact Nat.lt_irrefl _)
      · rfl

theorem merge_batch {self other : Nat} (done : mergeBatch s self other = .ok s') :
    Tracks s' (batches.set self (batches.getD self [] ++ batches.getD other [])) := by
  obtain ⟨info, ok, done⟩ := Py.bind_eq_ok.1 done
  obtain ⟨here, live⟩ := orchestrated_ok ok
  obtain ⟨info', ok', done⟩ := Py.bind_eq_ok.1 done
  obtain ⟨here', live'⟩ := orchestrated_ok ok'
  obtain ⟨masks, found, done⟩ := Py.bind_eq_ok.1 done
  obtain ⟨masks', found', done⟩ := Py.bind_eq_ok.1 done
  obtain rfl := Option.some.inj ((pyIndex_ok_iff.1 found).symm.trans (tracks.live_masks here live))
  obtain rfl := Option.some.inj ((pyIndex_ok_iff.1 found').symm.trans (tracks.live_masks here' live'))
  rw [← Except.ok.inj done]
  have inside := tracks.ref_lt here
  refine ⟨?_, fun i info₁ reqs at' there => ?_, tracks.own⟩
  · rw [List.length_set, tracks.size]
  · by_cases shared : info.logitsMask = info₁.logitsMask
    · have grown : (s.lists.set info.logitsMask (batches.getD self [] ++ batches.getD other []))[info₁.logitsMask]? =
          some (batches.getD self [] ++ batches.getD other []) := by
        rw [← shared, List.getElem?_set_self inside]
      refine ⟨_, grown, ?_⟩
      rcases set_cases there with ⟨differ, old⟩ | ⟨_, rfl⟩
      · obtain ⟨masks, found, prior, _⟩ := tracks.listed i info₁ reqs at' old
        obtain rfl := Option.some.inj (((shared ▸ tracks.live_masks here live : s.lists[info₁.logitsMask]? = _)).symm.trans found)
        refine ⟨prior.trans (List.prefix_append ..), fun live₁ => ?_⟩
        exact absurd (tracks.own self i info info₁ here at' live live₁ shared) differ
      · exact ⟨List.prefix_refl _, fun _ => rfl⟩
    · rcases set_cases there with ⟨_, old⟩ | ⟨rfl, _⟩
      · obtain ⟨masks, found, rest⟩ := tracks.listed i info₁ reqs at' old
        exact ⟨masks, by rw [List.getElem?_set_ne shared]; exact found, rest⟩
      · exact absurd (congrArg Info.logitsMask (Option.some.inj (here.symm.trans at'))) shared

theorem copy_for_forward {self : Nat} (done : copyForForward s self = .ok s') :
    Tracks s' (batches ++ [batches.getD self []]) := by
  obtain ⟨info, ok, done⟩ := Py.bind_eq_ok.1 done
  obtain ⟨here, live⟩ := orchestrated_ok ok
  have found := tracks.live_masks here live
  rw [← Except.ok.inj done]
  refine ⟨?_, fun i info' reqs at' there => ?_, fun i j info₁ info₂ at₁ at₂ live₁ live₂ same => ?_⟩
  · rw [List.length_append, List.length_append, tracks.size]
    rfl
  · rcases snoc_cases at' with old | ⟨rfl, rfl⟩
    · rcases snoc_cases there with old' | ⟨same, _⟩
      · exact tracks.listed i info' reqs old old'
      · exact absurd (List.getElem?_eq_some_iff.1 old).1 (by have := tracks.size; omega)
    · rcases snoc_cases there with old | ⟨_, rfl⟩
      · exact absurd (List.getElem?_eq_some_iff.1 old).1 (by have := tracks.size; omega)
      · exact ⟨_, found, List.prefix_refl _, fun _ => rfl⟩
  · rcases snoc_cases at₁ with old₁ | ⟨_, rfl⟩
    · rcases snoc_cases at₂ with old₂ | ⟨_, rfl⟩
      · exact tracks.own i j info₁ info₂ old₁ old₂ live₁ live₂ same
      · cases live₂
    · cases live₁

theorem step {op : Op vocabSize} (done : run s op = .ok s') : Tracks s' (requests batches op) := by
  cases op with
  | fromScheduleBatch reqs => exact Except.ok.inj done ▸ tracks.from_schedule_batch reqs
  | filterBatch self keepIndices => exact tracks.filter_batch done
  | mergeBatch self other => exact tracks.merge_batch done
  | copyForForward self => exact tracks.copy_for_forward done

end Tracks

/-- Whatever the operations, the lists begin with the masks of the requests. -/
theorem tracks_runAll {ops : List (Op vocabSize)} (done : runAll ops = .ok s) : Tracks s (requestsAll ops) := by
  have loop {s₀ : Objects vocabSize} {batches₀ : List (List (Mask vocabSize))} (ops : List (Op vocabSize)) (tracks : Tracks s₀ batches₀)
      (done : ops.foldlM run s₀ = .ok s) : Tracks s (ops.foldl requests batches₀) := by
    induction ops generalizing s₀ batches₀ with
    | nil => exact Except.ok.inj done ▸ tracks
    | cons op ops ih =>
      obtain ⟨next, first, rest⟩ := Py.bind_eq_ok.1 done
      exact ih (tracks.step first) rest
  exact loop ops ⟨rfl, fun i info reqs here => by simp at here, fun i j info info' here => by simp at here⟩ done

theorem masked_some (tokens : List (Fin vocabSize)) (row : Row vocabSize) (t : Fin vocabSize) :
    masked (some tokens) row t = if t ∈ tokens then row t else ⊥ := rfl

/-- Where every request has a mask, adding up the rows masks them. -/
theorem applyLogitsBias_all {reqs : List (Mask vocabSize)} {logits : List (Row vocabSize)} (length : logits.length = reqs.length)
    (all : reqs.all Option.isSome = true) : applyLogitsBias reqs logits = .ok (reqs.zipWith masked logits) := by
  have rows : (reqs.map fun idx => idx.getD []).length ≤ logits.length := by rw [List.length_map, length]
  rw [applyLogitsBias, if_pos all, maskOf, if_pos rows, Py.ok_bind]
  refine congrArg Except.ok (List.ext_getElem ?_ fun i lt lt' => ?_)
  · rw [List.length_zipWith, List.length_zipWith, List.length_map, List.length_range, length]
  · rw [List.length_zipWith] at lt'
    have mem := List.all_eq_true.1 all _ (List.getElem_mem (show i < reqs.length by omega))
    obtain ⟨tokens, here⟩ := Option.isSome_iff_exists.1 mem
    funext t
    rw [List.getElem_zipWith, List.getElem_zipWith, List.getElem_map, List.getElem_range, here, masked_some,
      List.getD_eq_getElem?_getD, List.getElem?_map, List.getElem?_eq_getElem (show i < reqs.length by omega), here,
      Option.map_some, Option.getD_some, Option.getD_some]
    split
    · exact add_zero (logits[i] t)
    · exact WithBot.add_bot (logits[i] t)

/-- Where one entry is missing, nothing is masked. -/
theorem applyLogitsBias_none {logitsMask : List (Mask vocabSize)} (missing : none ∈ logitsMask) (logits : List (Row vocabSize)) :
    applyLogitsBias logitsMask logits = .ok logits := by
  refine if_neg fun all => ?_
  cases List.all_eq_true.1 all none missing

theorem masksOwn_iff {logitsMask reqs : List (Mask vocabSize)} (listed : reqs <+: logitsMask) :
    MasksOwn logitsMask reqs ↔ Applies logitsMask reqs := by
  let zeros : List (Row vocabSize) := List.replicate reqs.length fun _ => 0
  have length : zeros.length = reqs.length := List.length_replicate ..
  by_cases missing : none ∈ logitsMask
  · have left : ¬(logitsMask.length = reqs.length ∧ ∀ mask ∈ logitsMask, mask ≠ none) := fun both => both.2 none missing rfl
    rw [Applies, or_iff_right left, and_iff_right missing]
    constructor
    · intro masks tokens mem t
      have same := Except.ok.inj ((applyLogitsBias_none missing zeros).symm.trans (masks zeros length))
      obtain ⟨i, lt, here⟩ := List.mem_iff_getElem.1 mem
      have row := congrArg (fun rows : List (Row vocabSize) => rows[i]?) same
      rw [List.getElem?_eq_getElem (by omega), List.getElem?_eq_getElem (by rw [List.length_zipWith]; omega), List.getElem_zipWith,
        here, List.getElem_replicate, Option.some.injEq] at row
      by_contra outside
      have entry := congrFun row t
      rw [masked_some, if_neg outside] at entry
      cases entry
    · intro full logits length
      rw [applyLogitsBias_none missing]
      refine congrArg Except.ok (List.ext_getElem (by rw [List.length_zipWith]; omega) fun i lt lt' => ?_)
      rw [List.getElem_zipWith]
      rw [List.length_zipWith] at lt'
      have inside : i < reqs.length := by omega
      cases here : reqs[i] with
      | none => rfl
      | some tokens =>
        funext t
        rw [masked_some, if_pos (full tokens (here ▸ List.getElem_mem _) t)]
  · have all : logitsMask.all Option.isSome = true := List.all_eq_true.2 fun mask mem => by
      cases mask with
      | none => exact absurd mem missing
      | some tokens => rfl
    have right : ¬(none ∈ logitsMask ∧ ∀ tokens, some tokens ∈ reqs → ∀ t, t ∈ tokens) := fun both => missing both.1
    have given : ∀ mask ∈ logitsMask, mask ≠ none := fun mask mem same => missing (same ▸ mem)
    rw [Applies, or_iff_left right, and_iff_left given]
    constructor
    · intro masks
      by_contra longer
      have prior := listed.length_le
      have rows : ¬(logitsMask.map fun idx => idx.getD []).length ≤ zeros.length := by
        rw [List.length_map]
        omega
      have raises := masks zeros length
      rw [applyLogitsBias, if_pos all, maskOf, if_neg rows] at raises
      cases raises
    · intro short logits length
      obtain rfl := listed.eq_of_length short.symm
      exact applyLogitsBias_all length all

/-- **After any operations, applying the list of an object masks each of its requests by its own mask if and only
if the list has a mask for each of them and for no other, or has one missing and the others allow everything.** -/
theorem masks_own_iff {ops : List (Op vocabSize)} (done : runAll ops = .ok s) {i : Nat} {info : Info} (here : s.infos[i]? = some info) :
    ∃ logitsMask reqs, s.lists[info.logitsMask]? = some logitsMask ∧ (requestsAll ops)[i]? = some reqs ∧
      (MasksOwn logitsMask reqs ↔ Applies logitsMask reqs) := by
  have tracks := tracks_runAll done
  have lt := (List.getElem?_eq_some_iff.1 here).1
  have there := List.getElem?_eq_getElem (l := requestsAll ops) (tracks.size ▸ lt)
  obtain ⟨logitsMask, found, listed, _⟩ := tracks.listed i info _ here there
  exact ⟨logitsMask, _, found, there, masksOwn_iff listed⟩

end Proofs

/-- Two requests of a mask each, one of which is dropped. -/
theorem masks_own_iff_two : ∃ s : Objects 2, runAll [.fromScheduleBatch [some [⟨0, Nat.two_pos⟩], some []], .filterBatch 0 [0]] = .ok s ∧
    ∃ logitsMask reqs, s.lists[1]? = some logitsMask ∧
      (requestsAll [.fromScheduleBatch [some [(⟨0, Nat.two_pos⟩ : Fin 2)], some []], .filterBatch 0 [0]])[0]? = some reqs ∧
      (MasksOwn logitsMask reqs ↔ Applies logitsMask reqs) :=
  ⟨_, rfl, @masks_own_iff 2 _ _ rfl 0 ⟨1, true⟩ rfl⟩

/-- A request with a mask is not masked if another has none. -/
theorem not_masks_own_two : ∃ (s : Objects 2) (reqs : List (Mask 2)), runAll [.fromScheduleBatch reqs] = .ok s ∧
    s.lists[0]? = some reqs ∧ ¬MasksOwn reqs reqs := by
  refine ⟨_, [some [⟨0, Nat.two_pos⟩], none], rfl, rfl, fun masks => ?_⟩
  rcases (masksOwn_iff (List.prefix_refl _)).1 masks with ⟨_, given⟩ | ⟨_, full⟩
  · exact given none (by decide) rfl
  · exact absurd (full [⟨0, Nat.two_pos⟩] (by decide) ⟨1, Nat.one_lt_two⟩) (by decide)

end SlimeBoard.SamplingBatch
