import SlimeBoard.Lib.Buckets
import SlimeBoard.Lib.PyDict

/-!
# The update of the weights of distributed engines

The source rank of a pipeline stage buffers the converted parameters that are not experts,
and sends a bucket before it gets too big. Of the experts every expert parallel rank has its
own. The ranks buffer theirs, gather them when a bucket is full, and the source rank
converts and sends what is gathered.
-/

namespace SlimeBoard

/-- A parameter as `all_gather_param` returns it. `α` is the type of the data. -/
structure Param (α : Type) where
  shape : List Nat
  elementSize : Nat
  data : α

abbrev NamedParam (α : Type) := String × Param α

variable {α : Type}

/-- `param.numel() * param.element_size()` -/
def paramSize (p : NamedParam α) : Nat := p.2.shape.prod * p.2.elementSize

/-- `".experts." in name` -/
def isExpert (name : String) : Bool := decide (".experts.".toList <:+: name.toList)

def nonExpertParams (params : List (NamedParam α)) : List (NamedParam α) := params.filter fun p => !isExpert p.1

def expertParams (params : List (NamedParam α)) : List (NamedParam α) := params.filter fun p => isExpert p.1

section Code

variable (updateWeightBufferSize : Nat) (convertToHf : NamedParam α → List (NamedParam α))

/-- `_update_weight_from_distributed` on a source rank -/
def updateWeightFromDistributed (buffer : Buckets.Buffer (NamedParam α)) (p : NamedParam α) : Buckets.Buffer (NamedParam α) :=
  Buckets.add (fun total => decide (total > updateWeightBufferSize)) paramSize convertToHf buffer p

/-- `_update_expert_weight_from_distributed` -/
def updateExpertWeightFromDistributed (epSize : Nat) (buffer : Buckets.Buffer (NamedParam α)) (p : NamedParam α) :
    Buckets.Buffer (NamedParam α) :=
  Buckets.add (fun total => decide (total * epSize > updateWeightBufferSize)) paramSize (fun p => [p]) buffer p

/-- The first pass of `update_weights` on a source rank. -/
def nonExpertPass (params : List (NamedParam α)) : Buckets.Buffer (NamedParam α) :=
  ((nonExpertParams params).foldl (updateWeightFromDistributed updateWeightBufferSize convertToHf) Buckets.empty).close

/-- The second pass, up to the gathers. -/
def expertPass (epSize : Nat) (params : List (NamedParam α)) : Buckets.Buffer (NamedParam α) :=
  ((expertParams params).foldl (updateExpertWeightFromDistributed updateWeightBufferSize epSize) Buckets.empty).close

/-- What rank `me` has after the gathers of a flush: the names and the data of each rank, in
tensors like its own. -/
def gatherBucket {epSize : Nat} (me : Fin epSize) (namedTensors : Fin epSize → List (NamedParam α)) :
    Py (Fin epSize → List (NamedParam α)) := do
  pyAssert (decide (∀ r, (namedTensors me).length = (namedTensors r).length))
  return fun r => (namedTensors me).zipWith (fun own other => (other.1, { own.2 with data := other.2.data })) (namedTensors r)

/-- The flushes of a group. If a rank flushes more often than another, it waits forever. -/
def gatherBuckets {epSize : Nat} (me : Fin epSize) (flushed : Fin epSize → List (List (NamedParam α))) :
    Py (List (Fin epSize → List (NamedParam α))) :=
  if ∀ r, (flushed me).length = (flushed r).length then
    (List.range (flushed me).length).mapM fun k => gatherBucket me fun r => (flushed r).getD k []
  else .error .diverges

/-- The bucket that the source rank converts and sends. -/
def convertBucket {epSize : Nat} (gathered : Fin epSize → List (NamedParam α)) : List (NamedParam α) :=
  (List.finRange epSize).flatMap fun r => (gathered r).flatMap convertToHf

/-- What the source rank `me` of a pipeline stage sends in `update_weights`, where `ranks` are
the parameters of the ranks of its expert parallel group. -/
def updateWeights {epSize : Nat} (me : Fin epSize) (ranks : Fin epSize → List (NamedParam α)) : Py (List (List (NamedParam α))) := do
  let nonExperts := (nonExpertPass updateWeightBufferSize convertToHf (ranks me)).flushed
  let gathered ← gatherBuckets me fun r => (expertPass updateWeightBufferSize epSize (ranks r)).flushed
  return nonExperts ++ gathered.map (convertBucket convertToHf)

end Code

/-- The ranks' experts have the same sizes, in the same order. -/
def SameSizes {epSize : Nat} (ranks : Fin epSize → List (NamedParam α)) : Prop :=
  ∀ r r', (expertParams (ranks r)).map (fun p => (p.2.shape, p.2.elementSize)) =
    (expertParams (ranks r')).map fun p => (p.2.shape, p.2.elementSize)

section Gather

variable {updateWeightBufferSize epSize : Nat} {convertToHf : NamedParam α → List (NamedParam α)}

theorem expertPass_eq (params : List (NamedParam α)) : expertPass updateWeightBufferSize epSize params =
    Buckets.run (fun total => decide (total * epSize > updateWeightBufferSize)) paramSize (fun p => [p]) (expertParams params) := rfl

/-- The buckets of a rank are its experts in order. -/
theorem expertPass_flushed (updateWeightBufferSize epSize : Nat) (params : List (NamedParam α)) :
    (expertPass updateWeightBufferSize epSize params).entries = [] ∧
      (expertPass updateWeightBufferSize epSize params).flushed.flatten = expertParams params ∧
      ∀ bucket ∈ (expertPass updateWeightBufferSize epSize params).flushed, bucket <:+: expertParams params ∧
        ((bucket.map paramSize).sum * epSize ≤ updateWeightBufferSize ∨ bucket.length = 1) := by
  have zero : decide (0 * epSize > updateWeightBufferSize) = false := by simp
  obtain ⟨none, sent, buckets⟩ := Buckets.run_sent (fun total => decide (total * epSize > updateWeightBufferSize)) paramSize
    (fun p => [p]) zero (expertParams params)
  rw [expertPass_eq]
  refine ⟨none, sent.trans (by simp), fun bucket mem => ?_⟩
  obtain ⟨block, inside, same, fits⟩ := buckets bucket mem
  obtain rfl : bucket = block := by simpa using same
  refine ⟨inside, fits.imp_left fun small => ?_⟩
  simpa using small

/-- **The ranks flush at the same points.** -/
theorem flushed_lengths (updateWeightBufferSize : Nat) {ranks : Fin epSize → List (NamedParam α)} (same : SameSizes ranks)
    (r r' : Fin epSize) :
    (expertPass updateWeightBufferSize epSize (ranks r)).flushed.map List.length =
      (expertPass updateWeightBufferSize epSize (ranks r')).flushed.map List.length := by
  rw [expertPass_eq, expertPass_eq]
  refine Buckets.run_lengths ?_
  have sizes := congrArg (List.map fun (q : List Nat × Nat) => q.1.prod * q.2) (same r r')
  rwa [List.map_map, List.map_map] at sizes

/-- What the source rank makes of the parameters that are not experts. -/
theorem nonExpertPass_flushed (updateWeightBufferSize : Nat) (convertToHf : NamedParam α → List (NamedParam α))
    (params : List (NamedParam α)) :
    (nonExpertPass updateWeightBufferSize convertToHf params).entries = [] ∧
      (nonExpertPass updateWeightBufferSize convertToHf params).flushed.flatten = (nonExpertParams params).flatMap convertToHf ∧
      ∀ bucket ∈ (nonExpertPass updateWeightBufferSize convertToHf params).flushed, ∃ block, block <:+: nonExpertParams params ∧
        bucket = block.flatMap convertToHf ∧ ((block.map paramSize).sum ≤ updateWeightBufferSize ∨ block.length = 1) := by
  have zero : decide (0 > updateWeightBufferSize) = false := by simp
  obtain ⟨none, sent, buckets⟩ :=
    Buckets.run_sent (fun total => decide (total > updateWeightBufferSize)) paramSize convertToHf zero (nonExpertParams params)
  refine ⟨none, sent, fun bucket mem => ?_⟩
  obtain ⟨block, inside, same, fits⟩ := buckets bucket mem
  refine ⟨block, inside, same, fits.imp_left fun small => ?_⟩
  simpa using small

/-- A tensor like one of the same size, with the data of the other, is the other. -/
theorem zipWith_same {own other : List (NamedParam α)}
    (same : own.map (fun p => (p.2.shape, p.2.elementSize)) = other.map fun p => (p.2.shape, p.2.elementSize)) :
    own.zipWith (fun own other => (other.1, { own.2 with data := other.2.data })) other = other := by
  induction own generalizing other with
  | nil =>
    cases other with
    | nil => rfl
    | cons q rest => cases same
  | cons p own ih =>
    cases other with
    | nil => cases same
    | cons q other =>
      obtain ⟨head, tail⟩ := List.cons.inj same
      obtain ⟨shape, size⟩ := Prod.mk.inj head
      rw [List.zipWith_cons_cons, ih tail]
      refine congrArg (· :: other) ?_
      obtain ⟨name, s, e, d⟩ := q
      obtain rfl : p.2.shape = s := shape
      obtain rfl : p.2.elementSize = e := size
      rfl

/-- The buckets of the ranks have the same sizes. -/
theorem flushed_sizes (updateWeightBufferSize : Nat) {ranks : Fin epSize → List (NamedParam α)} (same : SameSizes ranks)
    (r r' : Fin epSize) :
    (expertPass updateWeightBufferSize epSize (ranks r)).flushed.map (List.map fun p => (p.2.shape, p.2.elementSize)) =
      (expertPass updateWeightBufferSize epSize (ranks r')).flushed.map (List.map fun p => (p.2.shape, p.2.elementSize)) := by
  refine List.eq_iff_flatten_eq.2 ⟨?_, ?_⟩
  · rw [← List.map_flatten, ← List.map_flatten, (expertPass_flushed updateWeightBufferSize epSize (ranks r)).2.1,
      (expertPass_flushed updateWeightBufferSize epSize (ranks r')).2.1]
    exact same r r'
  · have lengths := flushed_lengths updateWeightBufferSize same r r'
    simpa [Function.comp_def] using lengths

/-- **The gathers of a group bring each rank's buckets to every rank.** -/
theorem gatherBuckets_eq {ranks : Fin epSize → List (NamedParam α)} (same : SameSizes ranks) (me : Fin epSize) :
    gatherBuckets me (fun r => (expertPass updateWeightBufferSize epSize (ranks r)).flushed) =
      .ok ((List.range (expertPass updateWeightBufferSize epSize (ranks me)).flushed.length).map fun k r =>
        (expertPass updateWeightBufferSize epSize (ranks r)).flushed.getD k []) := by
  have sizes := flushed_sizes updateWeightBufferSize same me
  have counts (r : Fin epSize) := congrArg List.length (sizes r)
  simp only [List.length_map] at counts
  unfold gatherBuckets
  rw [if_pos counts]
  refine mapM_ok _ fun k _ => ?_
  have bucket (r : Fin epSize) : ((expertPass updateWeightBufferSize epSize (ranks me)).flushed.getD k []).map
        (fun p => (p.2.shape, p.2.elementSize)) =
      ((expertPass updateWeightBufferSize epSize (ranks r)).flushed.getD k []).map fun p => (p.2.shape, p.2.elementSize) := by
    have here := congrArg (fun (l : List (List (List Nat × Nat))) => l.getD k []) (sizes r)
    simp only [List.getD_eq_getElem?_getD, List.getElem?_map] at here ⊢
    rw [← List.map_nil, Option.getD_map, Option.getD_map] at here
    exact here
  have lengths (r : Fin epSize) := congrArg List.length (bucket r)
  simp only [List.length_map] at lengths
  unfold gatherBucket
  rw [decide_eq_true lengths, pyAssert_true, Py.ok_bind]
  exact congrArg Except.ok (funext fun r => zipWith_same (bucket r))

/-- The order of two loops does not matter to what they collect. -/
theorem flatMap_swap {β γ δ : Type} (xs : List β) (ys : List γ) (f : β → γ → List δ) :
    (xs.flatMap fun x => ys.flatMap fun y => f x y).Perm (ys.flatMap fun y => xs.flatMap fun x => f x y) := by
  rw [← Multiset.coe_eq_coe]
  simpa [Multiset.coe_bind] using Multiset.bind_bind (xs : Multiset β) (ys : Multiset γ) (f := fun x y => (f x y : Multiset δ))

theorem flatMap_range_getD {β γ : Type} (f : β → List γ) (blocks : List (List β)) :
    ((List.range blocks.length).flatMap fun k => (blocks.getD k []).flatMap f) = blocks.flatten.flatMap f := by
  induction blocks with
  | nil => rfl
  | cons block rest ih =>
    rw [List.length_cons, List.range_succ_eq_map, List.flatMap_cons, List.flatMap_map, List.flatten_cons, List.flatMap_append, ← ih]
    rfl

end Gather

/-- **The source rank sends each parameter once, and in buckets that are not too big.** -/
theorem update_weights_delivers {epSize : Nat} (updateWeightBufferSize : Nat) (convertToHf : NamedParam α → List (NamedParam α))
    (me : Fin epSize) {ranks : Fin epSize → List (NamedParam α)} (same : SameSizes ranks) :
    ∃ nonExperts experts, updateWeights updateWeightBufferSize convertToHf me ranks = .ok (nonExperts ++ experts) ∧
      nonExperts.flatten = (nonExpertParams (ranks me)).flatMap convertToHf ∧
      experts.flatten.Perm ((List.finRange epSize).flatMap fun r => (expertParams (ranks r)).flatMap convertToHf) ∧
      (∀ bucket ∈ nonExperts, ∃ block, block <:+: nonExpertParams (ranks me) ∧ bucket = block.flatMap convertToHf ∧
        ((block.map paramSize).sum ≤ updateWeightBufferSize ∨ block.length = 1)) ∧
      (∀ bucket ∈ experts, ∃ blocks : Fin epSize → List (NamedParam α), bucket = convertBucket convertToHf blocks ∧
        ∀ r, blocks r <:+: expertParams (ranks r) ∧ (blocks r).length = (blocks me).length ∧
          (((blocks r).map paramSize).sum * epSize ≤ updateWeightBufferSize ∨ (blocks r).length = 1)) ∧
      (nonExpertPass updateWeightBufferSize convertToHf (ranks me)).entries = [] ∧
      ∀ r, (expertPass updateWeightBufferSize epSize (ranks r)).entries = [] ∧
        (expertPass updateWeightBufferSize epSize (ranks r)).flushed.map List.length =
          (expertPass updateWeightBufferSize epSize (ranks me)).flushed.map List.length := by
  have sameLengths (r : Fin epSize) := flushed_lengths updateWeightBufferSize same r me
  have counts (r : Fin epSize) := congrArg List.length (sameLengths r)
  simp only [List.length_map] at counts
  obtain ⟨nonExpertsLeft, nonExpertsSent, nonExpertBuckets⟩ :=
    nonExpertPass_flushed updateWeightBufferSize convertToHf (ranks me)
  refine ⟨(nonExpertPass updateWeightBufferSize convertToHf (ranks me)).flushed,
    (List.range (expertPass updateWeightBufferSize epSize (ranks me)).flushed.length).map fun k => convertBucket convertToHf fun r =>
      (expertPass updateWeightBufferSize epSize (ranks r)).flushed.getD k [],
    ?_, nonExpertsSent, ?_, nonExpertBuckets, ?_, nonExpertsLeft,
    fun r => ⟨(expertPass_flushed updateWeightBufferSize epSize (ranks r)).1, sameLengths r⟩⟩
  · unfold updateWeights
    rw [gatherBuckets_eq same me, Py.ok_bind, List.map_map]
    rfl
  · have own (r : Fin epSize) : ((List.range (expertPass updateWeightBufferSize epSize (ranks me)).flushed.length).flatMap fun k =>
        ((expertPass updateWeightBufferSize epSize (ranks r)).flushed.getD k []).flatMap convertToHf) =
        (expertParams (ranks r)).flatMap convertToHf := by
      rw [← (expertPass_flushed updateWeightBufferSize epSize (ranks r)).2.1, ← counts r]
      exact flatMap_range_getD convertToHf _
    have swapped := flatMap_swap (List.range (expertPass updateWeightBufferSize epSize (ranks me)).flushed.length) (List.finRange epSize)
      fun k r => ((expertPass updateWeightBufferSize epSize (ranks r)).flushed.getD k []).flatMap convertToHf
    simp only [own] at swapped
    rw [← List.flatMap_def]
    exact swapped
  · intro bucket mem
    obtain ⟨k, inside, rfl⟩ := List.mem_map.1 mem
    have inside := List.mem_range.1 inside
    refine ⟨_, rfl, fun r => ?_⟩
    have here : k < (expertPass updateWeightBufferSize epSize (ranks r)).flushed.length := counts r ▸ inside
    have length := congrArg (·[k]?) (sameLengths r)
    simp only [List.getElem?_map, List.getElem?_eq_getElem here, List.getElem?_eq_getElem inside, Option.map_some,
      Option.some.injEq] at length
    simp only [List.getD_eq_getElem?_getD, List.getElem?_eq_getElem here, List.getElem?_eq_getElem inside, Option.getD_some]
    obtain ⟨part, fits⟩ := (expertPass_flushed updateWeightBufferSize epSize (ranks r)).2.2 _ (List.getElem_mem here)
    exact ⟨part, length, fits⟩

/-- Three expert parallel ranks, with a norm and two experts each. -/
def threeExpertRanks (r : Fin 3) : List (NamedParam Nat) :=
  [("decoder.layers.0.mlp.experts.weight0", ⟨[2, 3], 2, 10 * r⟩), ("decoder.norm.weight", ⟨[3], 2, 7⟩),
    ("decoder.layers.0.mlp.experts.weight1", ⟨[3, 2], 2, 10 * r + 1⟩)]

theorem update_weights_delivers_three : SameSizes threeExpertRanks ∧
    ∃ nonExperts experts : List (List (NamedParam Nat)),
      updateWeights 40 (fun p => [p]) (2 : Fin 3) threeExpertRanks = .ok (nonExperts ++ experts) ∧
      nonExperts.flatten = [("decoder.norm.weight", ⟨[3], 2, 7⟩)] ∧ experts.flatten.length = 6 := by
  have same : SameSizes threeExpertRanks := by
    unfold SameSizes
    decide
  obtain ⟨nonExperts, experts, sent, norm, each, -⟩ := update_weights_delivers 40 (fun p => [p]) (2 : Fin 3) same
  refine ⟨same, nonExperts, experts, sent, ?_, ?_⟩
  · rw [norm]
    rfl
  · rw [each.length_eq]
    rfl

end SlimeBoard
