import SlimeBoard.Parallel.RoutingReplay

/-!
# Where the experts of a token are replayed

The router takes the experts of its row number `r` from the recorded row number `r`. So the
rows of `get_batch` and those of `fill_routing_replay` have to agree.
-/

namespace SlimeBoard

open Cp

/-- The hidden states that a router sees, of shape `[s, b, h]`, one row after another. -/
def routerRows {α : Type} (tokens : List (List α)) : List α :=
  (List.range (tokens.headD []).length).flatMap fun t => tokens.filterMap (·[t]?)

/-- The layers of a pipeline stage. Every layer with experts has an object that records. -/
structure Stage (numLayers : Nat) where
  moeLayerFreq : MoeLayerFreq
  chunks : List (Nat × Nat)
  layers : List Nat
  built : moeLayers moeLayerFreq numLayers chunks = .ok layers
  inside : ∀ layer ∈ layers, layer < numLayers

/-- Every layer records as many rows as its router sees. Whatever the engine reported, the row of a
token that is not the last of its sample has the experts that were reported for it. -/
def RowsMatch {numLayers : Nat} (topk numExperts : Nat) [NeZero numExperts] (stage : Stage numLayers) (n : Nat)
    (qkvFormat : QkvFormat) (allgatherCp : Bool) (tp : TensorParallel) (m : Nat) (samples : List TrainSample) : Prop :=
  ∀ (rank : Fin n) (tpRank : Fin tp.tpSize), ∃ labels pad cuSeqlens seen,
    layTokens rank ⟨qkvFormat, allgatherCp, tp.padSize⟩ (maxSeqLens ⟨qkvFormat, allgatherCp, tp.padSize⟩ m samples.length) none
      (positions samples) = .ok (labels, pad, cuSeqlens) ∧
    sequenceParallelSlice tp tpRank (routerRows labels) = .ok seen ∧
    ∀ reported : Nat × Nat → TokenExperts numLayers topk numExperts, ∃ recorded,
      fillRoutingReplay rank tp tpRank stage.moeLayerFreq stage.chunks stage.layers.length (samples.map (·.tokens))
        (recordsOf samples reported) = .ok recorded ∧
      ∀ (k layer : Nat) (_ : stage.layers[k]? = some layer), ∃ (inside : layer < numLayers) (rows : _), recorded[k]? = some rows ∧
        rows.length = seen.length ∧
        ∀ (r i t : Nat) (s : TrainSample), seen[r]? = some (some (i, t)) → samples[i]? = some s → t + 1 < s.totalLength →
          rows[r]? = some (reported (i, t) ⟨layer, inside⟩)

/-- A row of experts is that of the label's token, unless this is a last one. -/
def Meets (samples : List TrainSample) (label : Label) (row : ReplayRow) : Prop :=
  ∀ (i t : Nat) (s : TrainSample), label = some (i, t) → samples[i]? = some s → t + 1 < s.totalLength → row = .inl (i, t)

section Shares

variable {α β : Type} (tp : TensorParallel) (tpRank : Fin tp.tpSize)

/-- The rows that a tensor parallel rank keeps. -/
def share (rows : List α) : List α :=
  if tp.sequenceParallel then (rows.drop (rows.length / tp.tpSize * tpRank.val)).take (rows.length / tp.tpSize) else rows

/-- The rows can be divided among the ranks, if they have to be. -/
def Divides (rows : List α) : Prop := tp.sequenceParallel = true → rows.length % tp.tpSize = 0

variable {tp}

theorem sequenceParallelSlice_ok_iff {rows kept : List α} :
    sequenceParallelSlice tp tpRank rows = .ok kept ↔ Divides tp rows ∧ kept = share tp tpRank rows := by
  unfold sequenceParallelSlice Divides share
  cases tp.sequenceParallel with
  | false =>
    rw [if_neg Bool.false_ne_true, if_neg Bool.false_ne_true]
    exact ⟨fun ok => ⟨fun h => (nomatch h), (Except.ok.inj ok).symm⟩, fun ⟨_, same⟩ => by rw [same]; rfl⟩
  | true =>
    rw [if_pos rfl, if_pos rfl]
    dsimp only
    rw [pySlice_nat, Nat.mul_succ, List.drop_take, Nat.add_sub_cancel_left]
    by_cases whole : rows.length % tp.tpSize = 0
    · rw [decide_eq_true whole, pyAssert_true, Py.ok_bind]
      exact ⟨fun ok => ⟨fun _ => whole, (Except.ok.inj ok).symm⟩, fun ⟨_, same⟩ => by rw [same]; rfl⟩
    · rw [decide_eq_false whole, pyAssert_false, Py.error_bind]
      exact ⟨fun ok => (nomatch ok), fun ⟨h, _⟩ => absurd (h rfl) whole⟩

theorem share_map (f : α → β) (rows : List α) : share tp tpRank (rows.map f) = (share tp tpRank rows).map f := by
  unfold share
  split
  · rw [List.length_map, ← List.map_drop, List.map_take]
  · rfl

/-- **Rows agree if they do on every rank.** -/
theorem forall₂_shares {P : α → β → Prop} {xs : List α} {ys : List β} (dividesX : Divides tp xs) (dividesY : Divides tp ys) :
    (∀ tpRank, List.Forall₂ P (share tp tpRank xs) (share tp tpRank ys)) ↔ List.Forall₂ P xs ys := by
  unfold share
  cases parallel : tp.sequenceParallel with
  | false =>
    simp only [Bool.false_eq_true, if_false]
    exact ⟨fun all => all ⟨0, tp.tpSize.pos⟩, fun whole _ => whole⟩
  | true =>
    have dividesX := dividesX parallel
    have dividesY := dividesY parallel
    have ranks := tp.tpSize.pos
    simp only [if_true]
    constructor
    · intro all
      have quotient (k : Nat) (rank : k < tp.tpSize) (l size : Nat) (fits : size * tp.tpSize = l) :
          min size (l - size * k) = size := by
        have := Nat.mul_le_mul_left size (show k + 1 ≤ tp.tpSize from rank)
        rw [Nat.mul_succ, fits] at this
        omega
      have wholeX := Nat.div_mul_cancel (Nat.dvd_of_mod_eq_zero dividesX)
      have wholeY := Nat.div_mul_cancel (Nat.dvd_of_mod_eq_zero dividesY)
      have size : xs.length / tp.tpSize = ys.length / tp.tpSize := by
        have here := (all ⟨0, ranks⟩).length_eq
        simpa only [List.length_take, List.length_drop, quotient 0 ranks _ _ wholeX, quotient 0 ranks _ _ wholeY] using here
      rw [← size] at wholeY all
      have lengths : xs.length = ys.length := by rw [← wholeX, ← wholeY]
      refine List.forall₂_iff_get.2 ⟨lengths, fun r inX inY => ?_⟩
      have some : 0 < xs.length / tp.tpSize := by
        refine Nat.pos_of_ne_zero fun none => ?_
        rw [none, Nat.zero_mul] at wholeX
        omega
      have rank : r / (xs.length / tp.tpSize) < tp.tpSize := Nat.div_lt_of_lt_mul (by rwa [wholeX])
      have row := Nat.mod_lt r some
      have place := Nat.div_add_mod r (xs.length / tp.tpSize)
      have kept := List.forall₂_iff_get.1 (all ⟨_, rank⟩)
      have short (l : Nat) (fits : xs.length / tp.tpSize * tp.tpSize = l) :=
        quotient (r / (xs.length / tp.tpSize)) rank l (xs.length / tp.tpSize) fits
      have inX' : r % (xs.length / tp.tpSize) <
          ((xs.drop (xs.length / tp.tpSize * (r / (xs.length / tp.tpSize)))).take (xs.length / tp.tpSize)).length := by
        rw [List.length_take, List.length_drop, short _ wholeX]
        exact row
      have inY' : r % (xs.length / tp.tpSize) <
          ((ys.drop (xs.length / tp.tpSize * (r / (xs.length / tp.tpSize)))).take (xs.length / tp.tpSize)).length := by
        rw [List.length_take, List.length_drop, short _ wholeY]
        exact row
      have here := kept.2 (r % (xs.length / tp.tpSize)) inX' inY'
      simpa only [List.get_eq_getElem, List.getElem_take, List.getElem_drop, place] using here
    · intro whole tpRank
      rw [whole.length_eq]
      exact List.forall₂_take _ (List.forall₂_drop _ whole)

end Shares

/-! ## The recorded rows -/

section Recorded

variable {numLayers topk numExperts : Nat} [NeZero numExperts] {n : Nat} {tp : TensorParallel} {samples : List TrainSample}

/-- The experts of a row. -/
def expertsAt (reported : Nat × Nat → TokenExperts numLayers topk numExperts) : ReplayRow → TokenExperts numLayers topk numExperts :=
  Sum.elim reported padExperts

theorem replayRows_divides (tp : TensorParallel) (n r : Nat) (samples : List TrainSample) :
    Divides tp (replayRows n r tp.padSize samples) := by
  intro _
  obtain ⟨k, whole⟩ := padded_length tp.padSize (replaySlices n r samples).length tp.padSize.pos
  rw [replayRows, List.length_append, List.length_map, List.length_range, whole, TensorParallel.padSize, PNat.mul_coe, Nat.mul_assoc]
  exact Nat.mul_mod_right ..

omit [NeZero numExperts] in
theorem record_layers {layers : List Nat} (inside : ∀ layer ∈ layers, layer < numLayers)
    (rows : List (TokenExperts numLayers topk numExperts)) : ∃ recorded : List (List (Fin topk → Fin numExperts)),
      layers.mapM (fun layer => if inside : layer < numLayers then (.ok (rows.map fun row => row ⟨layer, inside⟩) : Py _)
        else .error .indexError) = .ok recorded ∧ recorded.length = layers.length ∧
      ∀ (k layer : Nat) (_ : layers[k]? = some layer), ∃ inside : layer < numLayers,
        recorded[k]? = some (rows.map fun row => row ⟨layer, inside⟩) := by
  induction layers with
  | nil => exact ⟨[], rfl, rfl, fun k layer found => nomatch found⟩
  | cons first rest ih =>
    have here := inside first (List.mem_cons_self ..)
    obtain ⟨recorded, run, length, each⟩ := ih fun layer mem => inside layer (List.mem_cons_of_mem _ mem)
    refine ⟨(rows.map fun row => row ⟨first, here⟩) :: recorded, ?_, congrArg (· + 1) length, fun k layer found => ?_⟩
    · rw [List.mapM_cons, dif_pos here, Py.ok_bind, run]
      rfl
    · cases k with
      | zero =>
        obtain rfl := Option.some.inj found
        exact ⟨here, rfl⟩
      | succ k => exact each k layer found

/-- **What a pass over a micro-batch records.** -/
theorem fillRoutingReplay_eq (rank : Fin n) (tpRank : Fin tp.tpSize) (stage : Stage numLayers) (nonempty : samples ≠ [])
    (reported : Nat × Nat → TokenExperts numLayers topk numExperts) : ∃ recorded,
      fillRoutingReplay rank tp tpRank stage.moeLayerFreq stage.chunks stage.layers.length (samples.map (·.tokens))
        (recordsOf samples reported) = .ok recorded ∧
      ∀ (k layer : Nat) (_ : stage.layers[k]? = some layer), ∃ inside : layer < numLayers, recorded[k]? =
        some ((share tp tpRank (replayRows n rank.val tp.padSize samples)).map fun row => expertsAt reported row ⟨layer, inside⟩) := by
  have lengths : (recordsOf samples reported).map List.length = (samples.map (·.tokens)).map fun t => t.length - 1 := by
    unfold recordsOf
    rw [List.map_map, List.map_map, ← map_zipIdx_fst 0 _ samples]
    refine List.map_congr_left fun p _ => ?_
    simp only [Function.comp_apply, List.length_map, List.length_range]
    rfl
  have divides : Divides tp ((replayRows n rank.val tp.padSize samples).map (expertsAt reported)) := by
    unfold Divides
    rw [List.length_map]
    exact replayRows_divides tp n rank.val samples
  have kept := (sequenceParallelSlice_ok_iff tpRank).2 ⟨divides, rfl⟩
  rw [share_map] at kept
  obtain ⟨recorded, run, length, each⟩ :=
    record_layers stage.inside ((share tp tpRank (replayRows n rank.val tp.padSize samples)).map (expertsAt reported))
  refine ⟨recorded, ?_, fun k layer found => ?_⟩
  · unfold fillRoutingReplay
    rw [decide_eq_true lengths, pyAssert_true, Py.ok_bind, paddedExperts_eq rank tp padExperts nonempty, Py.ok_bind]
    change (sequenceParallelSlice tp tpRank ((replayRows n rank.val tp.padSize samples).map (expertsAt reported)) >>= _) = _
    rw [kept, Py.ok_bind, stage.built, Py.ok_bind, run, Py.ok_bind, length, decide_eq_true rfl, pyAssert_true, Py.ok_bind]
    rfl
  · obtain ⟨inside, found⟩ := each k layer found
    refine ⟨inside, found.trans ?_⟩
    rw [List.map_map]
    rfl

/-- A row that has the experts of a token whatever they are is that token's. -/
theorem row_of_reported (ids : 1 < numExperts) (choices : 0 < topk) (layer : Fin numLayers) {row : ReplayRow} {place : Nat × Nat}
    (same : ∀ reported : Nat × Nat → TokenExperts numLayers topk numExperts, expertsAt reported row layer = reported place layer) :
    row = .inl place := by
  have differ : (⟨0, by omega⟩ : Fin numExperts) ≠ ⟨1, ids⟩ := fun h => absurd (congrArg Fin.val h) Nat.zero_ne_one
  cases row with
  | inl other =>
    by_contra apart
    have apart : other ≠ place := fun h => apart (congrArg Sum.inl h)
    have here := congrFun (same fun p _ _ => if p = place then ⟨1, ids⟩ else ⟨0, by omega⟩) ⟨0, choices⟩
    simp only [expertsAt, Sum.elim_inl, if_neg apart, if_true] at here
    exact absurd here differ
  | inr j =>
    have zero := congrFun (same fun _ _ _ => ⟨0, by omega⟩) ⟨0, choices⟩
    have one := congrFun (same fun _ _ _ => ⟨1, ids⟩) ⟨0, choices⟩
    exact absurd (zero.symm.trans one) differ

/-- **The rows match if the labels of `get_batch` meet the rows of the experts.** -/
theorem rowsMatch_iff_meets {qkvFormat : QkvFormat} {allgatherCp : Bool} {m : Nat} (stage : Stage numLayers) (ids : 1 < numExperts)
    (choices : 0 < topk) (recorded : stage.layers ≠ []) (nonempty : samples ≠ []) :
    RowsMatch topk numExperts stage n qkvFormat allgatherCp tp m samples ↔ ∀ rank : Fin n, ∃ labels pad cuSeqlens,
      layTokens rank ⟨qkvFormat, allgatherCp, tp.padSize⟩ (maxSeqLens ⟨qkvFormat, allgatherCp, tp.padSize⟩ m samples.length) none
        (positions samples) = .ok (labels, pad, cuSeqlens) ∧ Divides tp (routerRows labels) ∧
      List.Forall₂ (Meets samples) (routerRows labels) (replayRows n rank.val tp.padSize samples) := by
  have divides (r : Nat) := replayRows_divides tp n r samples
  obtain ⟨layer, rest, layers⟩ := List.exists_cons_of_ne_nil recorded
  constructor
  · intro holds rank
    obtain ⟨labels, pad, cuSeqlens, _, laid, slice, _⟩ := holds rank ⟨0, tp.tpSize.pos⟩
    have dividesLabels := ((sequenceParallelSlice_ok_iff _).1 slice).1
    refine ⟨labels, pad, cuSeqlens, laid, dividesLabels, (forall₂_shares dividesLabels (divides rank.val)).1 fun tpRank => ?_⟩
    obtain ⟨labels', pad', cuSeqlens', seen', laid', slice', records⟩ := holds rank tpRank
    obtain ⟨rfl, _⟩ := Prod.mk.inj (Except.ok.inj (laid.symm.trans laid'))
    obtain rfl := ((sequenceParallelSlice_ok_iff _).1 slice').2
    have known : layer < numLayers := stage.inside layer (by rw [layers]; exact List.mem_cons_self ..)
    have experts (reported : Nat × Nat → TokenExperts numLayers topk numExperts) :
        (share tp tpRank (replayRows n rank.val tp.padSize samples)).length = (share tp tpRank (routerRows labels)).length ∧
          ∀ (r i t : Nat) (s : TrainSample), (share tp tpRank (routerRows labels))[r]? = some (some (i, t)) →
            samples[i]? = some s → t + 1 < s.totalLength →
            ((share tp tpRank (replayRows n rank.val tp.padSize samples))[r]?).map (fun row => expertsAt reported row ⟨layer, known⟩) =
              some (reported (i, t) ⟨layer, known⟩) := by
      obtain ⟨recorded, run, each⟩ := records reported
      obtain ⟨recorded', run', each'⟩ := fillRoutingReplay_eq rank tpRank stage nonempty reported
      obtain rfl := Except.ok.inj (run.symm.trans run')
      obtain ⟨_, rows, found, length, row⟩ := each 0 layer (by rw [layers]; rfl)
      obtain ⟨_, found'⟩ := each' 0 layer (by rw [layers]; rfl)
      obtain rfl := Option.some.inj (found.symm.trans found')
      rw [List.length_map] at length
      simp only [List.getElem?_map] at row
      exact ⟨length, row⟩
    have lengths := (experts fun _ _ _ => ⟨0, by omega⟩).1
    refine List.forall₂_iff_get.2 ⟨lengths.symm, fun r inX inY i t s label sample inner => ?_⟩
    refine row_of_reported ids choices ⟨layer, known⟩ fun reported => ?_
    have here := (experts reported).2 r i t s ((List.getElem?_eq_getElem inX).trans (congrArg some label)) sample inner
    rw [List.getElem?_eq_getElem inY, Option.map_some] at here
    exact Option.some.inj here
  · intro meets rank tpRank
    obtain ⟨labels, pad, cuSeqlens, laid, dividesLabels, whole⟩ := meets rank
    refine ⟨labels, pad, cuSeqlens, _, laid, (sequenceParallelSlice_ok_iff tpRank).2 ⟨dividesLabels, rfl⟩, fun reported => ?_⟩
    obtain ⟨recorded, run, each⟩ := fillRoutingReplay_eq rank tpRank stage nonempty reported
    have part := (forall₂_shares dividesLabels (divides rank.val)).2 whole tpRank
    refine ⟨recorded, run, fun k layer found => ?_⟩
    obtain ⟨inside, rows⟩ := each k layer found
    refine ⟨inside, _, rows, by rw [List.length_map, part.length_eq], fun r i t s label sample inner => ?_⟩
    obtain ⟨inX, label⟩ := List.getElem?_eq_some_iff.1 label
    have inY := part.length_eq ▸ inX
    have here := (List.forall₂_iff_get.1 part).2 r inX inY i t s label sample inner
    rw [List.get_eq_getElem] at here
    rw [List.getElem?_map, List.getElem?_eq_getElem inY, here]
    rfl

end Recorded

end SlimeBoard
