import SlimeBoard.Train.SemiMarkov

/-!
# Estimators on context-parallel ranks

`get_advantages_and_returns_batch`, `get_advantages_and_returns_batch1` and
`get_reinforce_plus_plus_returns` gather the slices of the ranks, run on whole responses and
slice what they get. A rank ends with its slice of what one rank alone computes.
-/

namespace SlimeBoard

open Cp Recurrence Collective

section Code

variable {B n : Nat}

/-- `mask.nonzero(as_tuple=True)[0]` -/
def nonzero (mask : List Nat) : List Nat := (List.range mask.length).filter fun k => mask.getD k 0 ≠ 0

/-- `xs[i] += x` -/
def addAt (xs : List ℚ) (i : Nat) (x : ℚ) : Py (List ℚ) := do
  let old ← torchItem xs i
  return xs.set i (old + x)

/-- The part of the loop body of `get_reinforce_plus_plus_returns` between the gather and the slice. -/
def fullReinforceReturns (fullKlResponse : List ℚ) (fullMask : List Nat) (reward klCoef gamma : ℚ) : Py (List ℚ) := do
  pyAssert (decide (0 < fullMask.sum))
  let maskedKl ← broadcast (fun (k : ℚ) (m : Nat) => k * m) fullKlResponse fullMask
  let tokenLevelRewards := maskedKl.map fun k => -klCoef * k
  let lastIdx ← match (nonzero fullMask).getLast? with
    | some k => Except.ok k
    | none => .error .indexError
  let tokenLevelRewards ← addAt tokenLevelRewards lastIdx reward
  let step (p : ℚ × List ℚ) (t : Nat) : ℚ × List ℚ :=
    let runningReturn := tokenLevelRewards.getD t 0 + gamma * p.1
    (runningReturn, p.2.set t runningReturn)
  let (_, returnsForSeq) :=
    (List.range tokenLevelRewards.length).reverse.foldl step (0, List.replicate tokenLevelRewards.length 0)
  return returnsForSeq

/-- `rewards` has one number for each sample, `kl` the tensor of every rank. The masks are those of whole responses. -/
def getReinforcePlusPlusReturns (rewards : Fin B → ℚ) (kl : Fin B → Fin n → List ℚ) (lossMasks : Fin B → List Nat)
    (responseLengths totalLengths : Fin B → Nat) (klCoef gamma : ℚ) : Py (Fin B → Fin n → List ℚ) :=
  Collective.collect fun i => do
    let fullKlResponse ← if 1 < n then allGatherWithCp (kl i) (totalLengths i) (responseLengths i) else .ok (kl i)
    let returnsForSeq ← Collective.collect fun rank => fullReinforceReturns (fullKlResponse rank) (lossMasks i) (rewards i) klCoef gamma
    if 1 < n then
      Collective.collect fun rank => sliceLogProbWithCp rank (returnsForSeq rank) (totalLengths i) (responseLengths i) .thd none
    else return returnsForSeq

end Code

/-- A response with its token rewards, values, KL and loss mask. -/
structure ResponseSample extends Lengths where
  rewards : List ℚ
  values : List ℚ
  kl : List ℚ
  lossMask : List Nat
  rewarded : rewards.length = responseLength
  valued : values.length = responseLength
  penalized : kl.length = responseLength
  masked : lossMask.length = responseLength
  binary : ∀ m ∈ lossMask, m = 0 ∨ m = 1

section Slices

variable {B n : Nat}

/-- The ranks have the slices of one vector a sample. -/
def Sliced (lengths : Fin B → Lengths) (full : Fin B → List ℚ) (parts : Fin B → Fin n → List ℚ) : Prop :=
  ∀ i rank, sliceLogProbWithCp rank (full i) (lengths i).totalLength (lengths i).responseLength .thd none = .ok (parts i rank)

/-- The slices of what one rank alone computes. -/
def slices (lengths : Fin B → Lengths) (alone : Fin B → Fin 1 → List ℚ) : Py (Fin B → Fin n → List ℚ) :=
  Collective.collect fun i => Collective.collect fun rank =>
    sliceLogProbWithCp rank (alone i ⟨0, Nat.one_pos⟩) (lengths i).totalLength (lengths i).responseLength .thd none

/-- The slices of the advantages and of the returns that one rank alone computes. -/
def slicesOfBoth (lengths : Fin B → Lengths) (alone : Fin B → Fin 1 → List ℚ × List ℚ) : Py (Fin B → Fin n → List ℚ × List ℚ) :=
  Collective.collect fun i => Collective.collect fun rank =>
    sliceBoth rank (alone i ⟨0, Nat.one_pos⟩) (lengths i).totalLength (lengths i).responseLength

variable {lengths : Fin B → Lengths} {full : Fin B → List ℚ} {parts : Fin B → Fin n → List ℚ}

theorem Sliced.parts_eq (sliced : Sliced lengths full parts) (whole : ∀ i, (full i).length = (lengths i).responseLength) :
    parts = fun i rank => (lengths i).part n rank.val (full i) :=
  funext fun i => funext fun rank => Except.ok.inj ((sliced i rank).symm.trans ((lengths i).slice_eq rank (whole i)))

/-- **The gather of the slices is the whole response on each rank.** -/
theorem Sliced.gather (ranks : 0 < n) (sliced : Sliced lengths full parts)
    (whole : ∀ i, (full i).length = (lengths i).responseLength) (i : Fin B) :
    (if 1 < n then allGatherWithCp (parts i) (lengths i).totalLength (lengths i).responseLength else .ok (parts i)) =
      .ok fun _ => full i := by
  rw [sliced.parts_eq whole]
  split
  · exact (lengths i).gather_eq ranks (whole i)
  · have alone : n = 1 := by omega
    subst alone
    exact congrArg Except.ok (funext fun rank => part_one ..)

theorem Sliced.gathered (ranks : 0 < n) (sliced : Sliced lengths full parts)
    (whole : ∀ i, (full i).length = (lengths i).responseLength) :
    (if 1 < n then Collective.collect fun i => allGatherWithCp (parts i) (lengths i).totalLength (lengths i).responseLength
      else .ok parts) = .ok fun i _ => full i := by
  have each := sliced.gather ranks whole
  split
  · rename_i parallel
    simp only [if_pos parallel] at each
    exact collect_ok each
  · rename_i alone
    simp only [if_neg alone] at each
    exact congrArg Except.ok (funext fun i => Except.ok.inj (each i))

/-- The parts that the ranks have of two vectors a sample. -/
def bothParts (lengths : Fin B → Lengths) (n : Nat) (out : Fin B → List ℚ × List ℚ) (i : Fin B) (rank : Fin n) : List ℚ × List ℚ :=
  ((lengths i).part n rank.val (out i).1, (lengths i).part n rank.val (out i).2)

/-- Both vectors of each sample are over its response. -/
def Whole (lengths : Fin B → Lengths) (out : Fin B → List ℚ × List ℚ) : Prop :=
  ∀ i, (out i).1.length = (lengths i).responseLength ∧ (out i).2.length = (lengths i).responseLength

variable {out : Fin B → List ℚ × List ℚ}

/-- One rank has the whole response. -/
theorem part_alone (l : Lengths) (r : Nat) (xs : List ℚ) : l.part 1 r xs = xs := part_one r _ _ _ xs

theorem bothParts_one : bothParts lengths 1 out = fun i _ => out i :=
  funext fun i => funext fun rank => Prod.ext (part_alone (lengths i) rank.val _) (part_alone (lengths i) rank.val _)

theorem sliceBoth_eq (whole : Whole lengths out) (i : Fin B) (rank : Fin n) :
    sliceBoth rank (out i) (lengths i).totalLength (lengths i).responseLength = .ok (bothParts lengths n out i rank) := by
  unfold sliceBoth
  rw [(lengths i).slice_eq rank (whole i).1, Py.ok_bind, (lengths i).slice_eq rank (whole i).2]
  rfl

theorem slicesOfBoth_eq (whole : Whole lengths out) : slicesOfBoth lengths (fun i _ => out i) = .ok (bothParts lengths n out) :=
  collect_ok fun i => collect_ok fun rank => sliceBoth_eq whole i rank

/-- **What each rank computes of the whole responses and slices.** -/
theorem run_slices (ranks : 0 < n) {run : Py (Fin B → List ℚ × List ℚ)} (whole : ∀ out, run = .ok out → Whole lengths out) :
    (do
      let full ← Collective.collect fun _ : Fin n => run
      if 1 < n then
        Collective.collect fun i => Collective.collect fun rank => sliceBoth rank (full rank i) (lengths i).totalLength (lengths i).responseLength
      else return fun i rank => full rank i) = run.map (bothParts lengths n) := by
  rw [collect_const ranks]
  cases run with
  | error e => rfl
  | ok out =>
    show (if 1 < n then Collective.collect fun i => Collective.collect fun rank => sliceBoth rank (out i) _ _ else .ok fun i rank => out i) = .ok _
    split
    · exact slicesOfBoth_eq (whole out rfl)
    · have alone : n = 1 := by omega
      subst alone
      rw [bothParts_one]

/-- The slices of a run on one rank. -/
theorem alone_slices {run : Py (Fin B → List ℚ × List ℚ)} (whole : ∀ out, run = .ok out → Whole lengths out) :
    (run.map (bothParts lengths 1) >>= slicesOfBoth lengths) = run.map (bothParts lengths n) := by
  cases run with
  | error e => rfl
  | ok out =>
    show slicesOfBoth lengths (bothParts lengths 1 out) = _
    rw [bothParts_one]
    exact slicesOfBoth_eq (whole out rfl)

end Slices

section Batches

variable {B n : Nat} (samples : Fin B → ResponseSample) (gamma lambd : ℚ)

theorem fullBatch_whole (chunked : Bool) {out : Fin B → List ℚ × List ℚ}
    (done : fullBatch (fun i => (samples i).responseLength) (fun i => (samples i).values) (fun i => (samples i).rewards)
      gamma lambd chunked = .ok out) : Whole (fun i => (samples i).toLengths) out := by
  intro i
  rw [fullBatch_eq ⟨i, (samples i).nonempty⟩ (fun i => (samples i).valued) (fun i => (samples i).rewarded),
    Except.ok.injEq] at done
  have length : (rowGae (samples i).responseLength gamma (samples i).rewards (samples i).values lambd).1.length =
      (samples i).responseLength := by
    rw [rowGae, length_back, length_rowEntries]
  rw [← done]
  refine ⟨length, ?_⟩
  show (List.zipWith _ (rowGae _ _ _ _ _).1 _).length = _
  rw [List.length_zipWith, length, (samples i).valued, Nat.min_self]

theorem maskedScatter_length {length : Nat} {lossMask : List Nat} (masked : lossMask.length = length) {ys zs : List ℚ}
    (done : maskedScatter length lossMask ys = .ok zs) : zs.length = length := by
  unfold maskedScatter at done
  dsimp only at done
  generalize (if ys.length = 1 then List.replicate (lossMask.count 1) (ys.headD 0) else ys) = spread at done
  split at done
  · cases done
  · split at done
    · cases done
    · rw [← Except.ok.inj done, BoolIndex.length_scatter, masked]

theorem fullBatch1_whole {fullValuesList rewardsList gammaList lambdList : Fin B → List ℚ} {out : Fin B → List ℚ × List ℚ}
    (done : fullBatch1 (fun i => (samples i).responseLength) fullValuesList rewardsList gammaList lambdList
      (fun i => (samples i).lossMask) = .ok out) : Whole (fun i => (samples i).toLengths) out := by
  intro i
  unfold fullBatch1 at done
  obtain ⟨maxLen, _, done⟩ := Py.bind_eq_ok.1 done
  obtain ⟨rows, _, done⟩ := Py.bind_eq_ok.1 done
  obtain ⟨advantages, _, done⟩ := Py.bind_eq_ok.1 done
  have scattered := collect_ok_iff.1 done i
  unfold scatterBoth at scattered
  obtain ⟨fullAdvantages, first, scattered⟩ := Py.bind_eq_ok.1 scattered
  obtain ⟨fullReturns, second, scattered⟩ := Py.bind_eq_ok.1 scattered
  rw [← Except.ok.inj scattered]
  exact ⟨maskedScatter_length (samples i).masked first, maskedScatter_length (samples i).masked second⟩

variable {values rewards kl : Fin B → Fin n → List ℚ}

theorem batch_eq (ranks : 0 < n) (hv : Sliced (fun i => (samples i).toLengths) (fun i => (samples i).values) values)
    (hr : Sliced (fun i => (samples i).toLengths) (fun i => (samples i).rewards) rewards) (chunked : Bool) :
    getAdvantagesAndReturnsBatch (fun i => (samples i).totalLength) (fun i => (samples i).responseLength) values rewards
        gamma lambd chunked =
      if B = 0 then .error .indexError else
        (fullBatch (fun i => (samples i).responseLength) (fun i => (samples i).values) (fun i => (samples i).rewards)
          gamma lambd chunked).map (bothParts (fun i => (samples i).toLengths) n) := by
  have gathered := hv.gathered ranks fun i => (samples i).valued
  have gathered' := hr.gathered ranks fun i => (samples i).rewarded
  have run := run_slices ranks fun out => fullBatch_whole samples gamma lambd chunked
  unfold getAdvantagesAndReturnsBatch
  dsimp only
  rw [gathered, gathered']
  split
  · rfl
  · exact run

theorem batch1_eq (ranks : 0 < n) (hv : Sliced (fun i => (samples i).toLengths) (fun i => (samples i).values) values)
    (rewardsList gammaList lambdList : Fin B → List ℚ) :
    getAdvantagesAndReturnsBatch1 (fun i => (samples i).totalLength) (fun i => (samples i).responseLength) values rewardsList
        gammaList lambdList (fun i => (samples i).lossMask) =
      if B = 0 then .error .indexError else
        (fullBatch1 (fun i => (samples i).responseLength) (fun i => (samples i).values) rewardsList gammaList lambdList
          (fun i => (samples i).lossMask)).map (bothParts (fun i => (samples i).toLengths) n) := by
  have gathered := hv.gathered ranks fun i => (samples i).valued
  have run := run_slices ranks fun out =>
    @fullBatch1_whole B samples (fun i => (samples i).values) rewardsList gammaList lambdList out
  unfold getAdvantagesAndReturnsBatch1
  split
  · rfl
  · by_cases parallel : 1 < n
    · simp only [if_pos parallel] at gathered run ⊢
      rw [gathered, Py.ok_bind]
      exact run
    · simp only [if_neg parallel] at gathered run ⊢
      rw [Except.ok.inj gathered, Py.ok_bind]
      exact run

end Batches

namespace ResponseSample

variable (s : ResponseSample)

/-- The last token with loss mask 1. -/
def IsLast (last : Nat) : Prop := s.lossMask[last]? = some 1 ∧ ∀ k, s.lossMask[k]? = some 1 → k ≤ last

/-- The token rewards of REINFORCE++ when the reward goes to token `last`. -/
def tokenLevelRewards (klCoef reward : ℚ) (last : Nat) : List ℚ :=
  (List.range s.responseLength).map fun k =>
    -klCoef * (s.kl.getD k 0 * (s.lossMask.getD k 0 : ℚ)) + if k = last then reward else 0

variable {s}

theorem mem_nonzero {k : Nat} : k ∈ nonzero s.lossMask ↔ s.lossMask[k]? = some 1 := by
  unfold nonzero
  rw [List.mem_filter, List.mem_range, decide_eq_true_iff, List.getD_eq_getElem?_getD]
  constructor
  · rintro ⟨inside, some⟩
    rw [List.getElem?_eq_getElem inside] at some ⊢
    rcases s.binary _ (List.getElem_mem inside) with zero | one
    · exact absurd zero some
    · rw [one]
  · intro one
    obtain ⟨inside, _⟩ := List.getElem?_eq_some_iff.1 one
    rw [one]
    exact ⟨inside, Nat.one_ne_zero⟩

theorem getLast?_nonzero {last : Nat} : (nonzero s.lossMask).getLast? = some last ↔ s.IsLast last := by
  have sorted : (nonzero s.lossMask).Pairwise (· < ·) := List.pairwise_lt_range.filter _
  constructor
  · intro found
    obtain ⟨front, cut⟩ := List.getLast?_eq_some_iff.1 found
    refine ⟨mem_nonzero.1 (cut ▸ List.mem_append_right front (List.mem_singleton_self last)), fun k one => ?_⟩
    have mem := mem_nonzero.2 one
    rw [cut] at mem sorted
    rcases List.mem_append.1 mem with before | same
    · exact Nat.le_of_lt ((List.pairwise_append.1 sorted).2.2 k before last (List.mem_singleton_self last))
    · exact (List.mem_singleton.1 same).le
  · intro isLast
    have mem := mem_nonzero.2 isLast.1
    obtain ⟨front, last', cut⟩ := (List.eq_nil_or_concat (nonzero s.lossMask)).resolve_left (List.ne_nil_of_mem mem)
    rw [List.concat_eq_append] at cut
    have mem' : last' ∈ nonzero s.lossMask := cut ▸ List.mem_append_right front (List.mem_singleton_self last')
    have upper := isLast.2 last' (mem_nonzero.1 mem')
    rw [cut] at mem sorted ⊢
    rw [List.getLast?_concat]
    rcases List.mem_append.1 mem with before | same
    · have := (List.pairwise_append.1 sorted).2.2 last before last' (List.mem_singleton_self last')
      omega
    · rw [List.mem_singleton.1 same]

theorem exists_last (some : 1 ∈ s.lossMask) : ∃ last, s.IsLast last := by
  obtain ⟨k, one⟩ := List.mem_iff_getElem?.1 some
  have found := List.getLast?_eq_some_getLast (List.ne_nil_of_mem (mem_nonzero.2 one))
  exact ⟨_, getLast?_nonzero.1 found⟩

theorem sum_pos_iff : 0 < s.lossMask.sum ↔ 1 ∈ s.lossMask := by
  rw [Nat.pos_iff_ne_zero, ne_eq, List.sum_eq_zero_iff]
  push Not
  constructor
  · rintro ⟨m, mem, some⟩
    rcases s.binary m mem with zero | one
    · exact absurd zero some
    · exact one ▸ mem
  · exact fun mem => ⟨1, mem, Nat.one_ne_zero⟩

theorem length_tokenLevelRewards (klCoef reward : ℚ) (last : Nat) :
    (s.tokenLevelRewards klCoef reward last).length = s.responseLength := by
  rw [tokenLevelRewards, List.length_map, List.length_range]

/-- The penalty of each token. -/
theorem scaled_eq (s : ResponseSample) (klCoef : ℚ) :
    (List.zipWith (fun (k : ℚ) (m : Nat) => k * m) s.kl s.lossMask).map (fun k => -klCoef * k) =
      (List.range s.responseLength).map fun k => -klCoef * (s.kl.getD k 0 * (s.lossMask.getD k 0 : ℚ)) := by
  apply List.ext_getElem?
  intro k
  rw [List.getElem?_map, List.getElem?_map, List.getElem?_zipWith]
  rcases Nat.lt_or_ge k s.responseLength with within | outside
  · have first := s.penalized ▸ within
    have second := s.masked ▸ within
    rw [List.getElem?_range within, Option.map_some, List.getD_eq_getElem?_getD, List.getD_eq_getElem?_getD,
      List.getElem?_eq_getElem first, List.getElem?_eq_getElem second]
    rfl
  · have none : (List.range s.responseLength)[k]? = none := List.getElem?_eq_none (by rwa [List.length_range])
    rw [List.getElem?_eq_none (s.penalized.le.trans outside), none]
    rfl

theorem addAt_range {L last : Nat} (short : last < L) (f : Nat → ℚ) (x : ℚ) :
    addAt ((List.range L).map f) last x = .ok ((List.range L).map fun k => f k + if k = last then x else 0) := by
  unfold addAt torchItem
  rw [List.getElem?_map, List.getElem?_range short]
  refine congrArg Except.ok (List.ext_getElem? fun k => ?_)
  rw [List.getElem?_set, List.getElem?_map, List.getElem?_map, List.length_map, List.length_range]
  by_cases here : last = k
  · subst here
    rw [if_pos rfl, if_pos short, List.getElem?_range short, Option.map_some, if_pos rfl]
  · rw [if_neg here]
    rcases Nat.lt_or_ge k L with within | outside
    · rw [List.getElem?_range within, Option.map_some, Option.map_some, if_neg (Ne.symm here), add_zero]
    · rw [List.getElem?_eq_none (by rwa [List.length_range])]
      rfl

theorem fullReinforceReturns_eq (reward klCoef gamma : ℚ) {last : Nat} (isLast : s.IsLast last) :
    fullReinforceReturns s.kl s.lossMask reward klCoef gamma =
      .ok (back ((s.tokenLevelRewards klCoef reward last).map fun r => (r, gamma))) := by
  obtain ⟨inside, one⟩ := List.getElem?_eq_some_iff.1 isLast.1
  have some : 0 < s.lossMask.sum := sum_pos_iff.2 (one ▸ List.getElem_mem inside)
  have same := s.penalized.trans s.masked.symm
  let step (t : Nat) (runningReturn : ℚ) : ℚ := (s.tokenLevelRewards klCoef reward last).getD t 0 + gamma * runningReturn
  have affine : ∀ t < ((s.tokenLevelRewards klCoef reward last).map fun r => (r, gamma)).length, ∀ r, step t r =
      (((s.tokenLevelRewards klCoef reward last).map fun r => (r, gamma)).getD t (0, 0)).1 +
        (((s.tokenLevelRewards klCoef reward last).map fun r => (r, gamma)).getD t (0, 0)).2 * r := by
    intro t within r
    rw [List.length_map] at within
    simp only [step]
    rw [List.getD_eq_getElem?_getD, List.getD_eq_getElem?_getD, List.getElem?_map, List.getElem?_eq_getElem within]
    rfl
  have written := foldl_set _ affine le_rfl
  rw [List.drop_length, List.length_map] at written
  unfold fullReinforceReturns
  rw [decide_eq_true some, pyAssert_true, Py.ok_bind, broadcast_eq _ same, Py.ok_bind, getLast?_nonzero.2 isLast]
  dsimp only
  rw [Py.ok_bind, scaled_eq, addAt_range (s.masked ▸ inside), Py.ok_bind]
  refine congrArg Except.ok (Eq.trans ?_ (congrArg Prod.snd written))
  rw [show back [] = ([] : List ℚ) from rfl, List.append_nil]
  rfl

theorem fullReinforceReturns_fails (reward klCoef gamma : ℚ) (none : 1 ∉ s.lossMask) :
    fullReinforceReturns s.kl s.lossMask reward klCoef gamma = .error .assertionError := by
  unfold fullReinforceReturns
  rw [decide_eq_false fun some => none (sum_pos_iff.1 some)]
  rfl

theorem fullReinforceReturns_length {reward klCoef gamma : ℚ} {returns : List ℚ}
    (done : fullReinforceReturns s.kl s.lossMask reward klCoef gamma = .ok returns) : returns.length = s.responseLength := by
  by_cases some : 1 ∈ s.lossMask
  · obtain ⟨last, isLast⟩ := exists_last some
    rw [fullReinforceReturns_eq reward klCoef gamma isLast, Except.ok.injEq] at done
    rw [← done, length_back, List.length_map, length_tokenLevelRewards]
  · rw [fullReinforceReturns_fails reward klCoef gamma some] at done
    cases done

/-- **A return is the discounted sum of the token rewards from its token on.** -/
theorem return_eq_sum (klCoef reward gamma : ℚ) (last t : Nat) :
    (back ((s.tokenLevelRewards klCoef reward last).map fun r => (r, gamma))).getD t 0 =
      ∑ k ∈ Finset.range (s.responseLength - t), gamma ^ k *
        (-klCoef * (s.kl.getD (t + k) 0 * (s.lossMask.getD (t + k) 0 : ℚ)) + if t + k = last then reward else 0) := by
  rw [getD_back_const, discounted_eq_sum, List.length_drop, length_tokenLevelRewards]
  refine Finset.sum_congr rfl fun k mem => congrArg _ ?_
  have within : t + k < s.responseLength := by
    rw [Finset.mem_range] at mem
    omega
  rw [List.getD_eq_getElem?_getD, List.getElem?_drop, ← List.getD_eq_getElem?_getD, tokenLevelRewards,
    getD_map_range _ within]

end ResponseSample

section Ranks

variable {B n : Nat} {samples : Fin B → ResponseSample} {values rewards kl : Fin B → Fin n → List ℚ}

theorem reinforce_eq (ranks : 0 < n) (hk : Sliced (fun i => (samples i).toLengths) (fun i => (samples i).kl) kl)
    (scalars : Fin B → ℚ) (klCoef gamma : ℚ) :
    getReinforcePlusPlusReturns scalars kl (fun i => (samples i).lossMask) (fun i => (samples i).responseLength)
        (fun i => (samples i).totalLength) klCoef gamma =
      (Collective.collect fun i => fullReinforceReturns (samples i).kl (samples i).lossMask (scalars i) klCoef gamma).map
        fun out i rank => (samples i).part n rank.val (out i) := by
  refine Eq.trans ?_ (collect_map _ fun i returns (rank : Fin n) => (samples i).part n rank.val returns)
  unfold getReinforcePlusPlusReturns
  refine congrArg Collective.collect (funext fun i => ?_)
  have gathered := hk.gather ranks (fun i => (samples i).penalized) i
  have whole {returns : List ℚ} := @ResponseSample.fullReinforceReturns_length (samples i) (scalars i) klCoef gamma returns
  by_cases parallel : 1 < n
  · simp only [if_pos parallel] at gathered ⊢
    rw [gathered, Py.ok_bind, collect_const ranks]
    cases run : fullReinforceReturns (samples i).kl (samples i).lossMask (scalars i) klCoef gamma with
    | error e => rfl
    | ok returns => exact collect_ok fun rank => (samples i).slice_eq rank (whole run)
  · simp only [if_neg parallel] at gathered ⊢
    rw [Except.ok.inj gathered, Py.ok_bind, collect_const ranks]
    cases run : fullReinforceReturns (samples i).kl (samples i).lossMask (scalars i) klCoef gamma with
    | error e => rfl
    | ok returns =>
      obtain rfl : n = 1 := by omega
      exact congrArg Except.ok (funext fun rank => (part_alone (samples i).toLengths rank.val returns).symm)

/-- Each vector is the slice of one rank. -/
theorem sliced_alone {field : ResponseSample → List ℚ} (whole : ∀ s, (field s).length = s.responseLength) :
    Sliced (fun i => (samples i).toLengths) (fun i => field (samples i)) fun i (_ : Fin 1) => field (samples i) := by
  intro i rank
  rw [(samples i).slice_eq rank (whole (samples i)), part_alone]

/-- **Each rank gets its slice of what one rank alone computes**, from the slices of the inputs, and one rank
alone computes discounted sums for REINFORCE++. -/
theorem estimators_context_parallel (ranks : 0 < n) (gamma lambd klCoef : ℚ)
    (hr : Sliced (fun i => (samples i).toLengths) (fun i => (samples i).rewards) rewards)
    (hv : Sliced (fun i => (samples i).toLengths) (fun i => (samples i).values) values)
    (hk : Sliced (fun i => (samples i).toLengths) (fun i => (samples i).kl) kl) :
    (∀ chunked, getAdvantagesAndReturnsBatch (fun i => (samples i).totalLength) (fun i => (samples i).responseLength) values
        rewards gamma lambd chunked =
      getAdvantagesAndReturnsBatch (fun i => (samples i).totalLength) (fun i => (samples i).responseLength)
        (fun i (_ : Fin 1) => (samples i).values) (fun i _ => (samples i).rewards) gamma lambd chunked >>=
        slicesOfBoth fun i => (samples i).toLengths) ∧
    (∀ rewardsList gammaList lambdList : Fin B → List ℚ,
      getAdvantagesAndReturnsBatch1 (fun i => (samples i).totalLength) (fun i => (samples i).responseLength) values rewardsList
        gammaList lambdList (fun i => (samples i).lossMask) =
      getAdvantagesAndReturnsBatch1 (fun i => (samples i).totalLength) (fun i => (samples i).responseLength)
        (fun i (_ : Fin 1) => (samples i).values) rewardsList gammaList lambdList (fun i => (samples i).lossMask) >>=
        slicesOfBoth fun i => (samples i).toLengths) ∧
    ∀ scalars : Fin B → ℚ,
      getReinforcePlusPlusReturns scalars kl (fun i => (samples i).lossMask) (fun i => (samples i).responseLength)
        (fun i => (samples i).totalLength) klCoef gamma =
      (getReinforcePlusPlusReturns scalars (fun i (_ : Fin 1) => (samples i).kl) (fun i => (samples i).lossMask)
        (fun i => (samples i).responseLength) (fun i => (samples i).totalLength) klCoef gamma >>=
        slices fun i => (samples i).toLengths) ∧
      ((∀ i, 1 ∈ (samples i).lossMask) → ∃ out : Fin B → Fin 1 → List ℚ,
        getReinforcePlusPlusReturns scalars (fun i (_ : Fin 1) => (samples i).kl) (fun i => (samples i).lossMask)
          (fun i => (samples i).responseLength) (fun i => (samples i).totalLength) klCoef gamma = .ok out ∧
        ∀ i, ∃ last, (samples i).IsLast last ∧ (out i 0).length = (samples i).responseLength ∧
          ∀ t < (samples i).responseLength, (out i 0).getD t 0 =
            ∑ k ∈ Finset.range ((samples i).responseLength - t), gamma ^ k *
              (-klCoef * ((samples i).kl.getD (t + k) 0 * ((samples i).lossMask.getD (t + k) 0 : ℚ)) +
                if t + k = last then scalars i else 0)) := by
  have alone (field : ResponseSample → List ℚ) (whole : ∀ s, (field s).length = s.responseLength) :=
    @sliced_alone B samples field whole
  have rewarded := alone ResponseSample.rewards ResponseSample.rewarded
  have valued := alone ResponseSample.values ResponseSample.valued
  have penalized := alone ResponseSample.kl ResponseSample.penalized
  refine ⟨fun chunked => ?_, fun rewardsList gammaList lambdList => ?_, fun scalars => ⟨?_, fun some => ?_⟩⟩
  · rw [batch_eq samples gamma lambd ranks hv hr, batch_eq samples gamma lambd Nat.one_pos valued rewarded]
    split
    · rfl
    · exact (alone_slices fun out => fullBatch_whole samples gamma lambd chunked).symm
  · rw [batch1_eq samples ranks hv, batch1_eq samples Nat.one_pos valued]
    split
    · rfl
    · exact (alone_slices fun out => fullBatch1_whole samples).symm
  · rw [reinforce_eq ranks hk, reinforce_eq Nat.one_pos penalized]
    cases run : Collective.collect fun i => fullReinforceReturns (samples i).kl (samples i).lossMask (scalars i) klCoef gamma with
    | error e => rfl
    | ok out =>
      refine (collect_ok fun i => collect_ok fun rank => ?_).symm
      dsimp only
      rw [part_alone]
      exact (samples i).slice_eq rank (ResponseSample.fullReinforceReturns_length (collect_ok_iff.1 run i))
  · choose last isLast using fun i => ResponseSample.exists_last (some i)
    rw [reinforce_eq Nat.one_pos penalized,
      collect_ok fun i => ResponseSample.fullReinforceReturns_eq (scalars i) klCoef gamma (isLast i)]
    refine ⟨_, rfl, fun i => ⟨last i, isLast i, ?_, fun t _ => ?_⟩⟩
    · dsimp only
      rw [part_alone, length_back, List.length_map, ResponseSample.length_tokenLevelRewards]
    · dsimp only
      rw [part_alone, ResponseSample.return_eq_sum]

/-- Rank 0 has the first two of seven response tokens, rank 1 the others. -/
def sevenTokens : ResponseSample where
  totalLength := 9
  responseLength := 7
  nonempty := by decide
  shorter := by decide
  rewards := [4, 0, 1, 0, 0, 0, 2]
  values := [1, 2, 3, 1, 2, 3, 1]
  kl := [1, 1, 2, 0, 0, 1, 0]
  lossMask := [1, 1, 0, 1, 1, 1, 0]
  rewarded := rfl
  valued := rfl
  penalized := rfl
  masked := rfl
  binary := by decide

theorem estimators_context_parallel_seven :
    getAdvantagesAndReturnsBatch (fun _ : Fin 1 => 9) (fun _ => 7) (fun _ => ![[1, 2], [3, 1, 2, 3, 1]])
        (fun _ => ![[4, 0], [1, 0, 0, 0, 2]]) (1 / 2) 1 true =
      getAdvantagesAndReturnsBatch (fun _ : Fin 1 => 9) (fun _ => 7) (fun _ (_ : Fin 1) => [1, 2, 3, 1, 2, 3, 1])
        (fun _ _ => [4, 0, 1, 0, 0, 0, 2]) (1 / 2) 1 true >>= slicesOfBoth fun _ => sevenTokens.toLengths :=
  (@estimators_context_parallel 1 2 (fun _ => sevenTokens) (fun _ => ![[1, 2], [3, 1, 2, 3, 1]])
    (fun _ => ![[4, 0], [1, 0, 0, 0, 2]]) (fun _ => ![[1, 1], [2, 0, 0, 1, 0]]) (by decide) (1 / 2) 1 0
    (by unfold Sliced; decide) (by unfold Sliced; decide) (by unfold Sliced; decide)).1 true

end Ranks

end SlimeBoard
