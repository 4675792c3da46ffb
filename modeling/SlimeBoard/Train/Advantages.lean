import SlimeBoard.Train.Gae

/-!
# The loops of the estimators

Each implementation of generalized advantage estimation solves one affine recurrence for each row: the
loop over the columns backwards, the loop of one sample, and the chunks with their matrix of powers.
Rows that are padded with zeros keep their solution.
-/

namespace SlimeBoard

open Cp Recurrence

/-! ## Rows -/

section Rows

variable (T : Nat) (gamma : ℚ) (rewards values : List ℚ)

/-- `delta` of step `t` -/
def deltaAt (t : Nat) : ℚ :=
  rewards.getD t 0 + gamma * (if t < T - 1 then values.getD (t + 1) 0 else 0) - values.getD t 0

/-- The entries of the recurrence of a row. -/
def rowEntries (w : ℚ) : List (ℚ × ℚ) := (List.range T).map fun t => (deltaAt T gamma rewards values t, w)

/-- The advantages and the returns of a row. -/
def rowGae (lambd : ℚ) : List ℚ × List ℚ :=
  (back (rowEntries T gamma rewards values (gamma * lambd)),
    List.zipWith (· + ·) (back (rowEntries T gamma rewards values (gamma * lambd))) values)

variable {T gamma rewards values}

theorem length_rowEntries {w : ℚ} : (rowEntries T gamma rewards values w).length = T := by
  rw [rowEntries, List.length_map, List.length_range]

/-- Zeros behind a row change nothing in its steps. -/
theorem deltaAt_pad {L : Nat} (short : L ≤ T) (hv : values.length = L) (k k' : Nat) {t : Nat} (inside : t < L) :
    deltaAt T gamma (rewards ++ List.replicate k 0) (values ++ List.replicate k' 0) t = deltaAt L gamma rewards values t := by
  simp only [deltaAt, getD_append_zeros]
  rcases Nat.lt_or_ge t (L - 1) with more | last
  · rw [if_pos more, if_pos (by omega)]
  · have beyond : values.getD (t + 1) 0 = 0 := getD_beyond (by omega)
    simp only [beyond, ite_self]

theorem deltaAt_beyond (hr : rewards.length ≤ T) (hv : values.length ≤ T) (T' : Nat) {t : Nat} (outside : T ≤ t) :
    deltaAt T' gamma rewards values t = 0 := by
  rw [deltaAt, getD_beyond (by omega), getD_beyond (by omega), getD_beyond (by omega), ite_self, mul_zero, add_zero, sub_zero]

end Rows

/-! ## One sample -/

section Sample

theorem foldlM_ok {σ ι : Type} {step : σ → ι → Py σ} {f : σ → ι → σ} (is : List ι) (s : σ)
    (ok : ∀ i ∈ is, ∀ s, step s i = .ok (f s i)) : is.foldlM step s = .ok (is.foldl f s) := by
  induction is generalizing s with
  | nil => rfl
  | cons i is ih =>
    rw [List.foldlM_cons, ok i (List.mem_cons_self ..), Py.ok_bind, ih _ fun j mem => ok j (List.mem_cons_of_mem _ mem)]
    rfl

variable {L : Nat} {values rewards : List ℚ}

/-- **The estimator of one sample** solves the recurrence of its row. -/
theorem fullAdvantagesAndReturns_eq (hv : values.length = L) (hr : rewards.length = L) (gamma lambd : ℚ) :
    fullAdvantagesAndReturns L values rewards gamma lambd = .ok (rowGae L gamma rewards values lambd) := by
  let step (t : Nat) (s : ℚ) : ℚ := deltaAt L gamma rewards values t + gamma * lambd * s
  have loop := foldl_scan step (fun t => (deltaAt L gamma rewards values t, gamma * lambd)) (fun _ _ => rfl)
    (List.range L).reverse 0 []
  have solved : (scan 0 ((List.range L).reverse.map fun t => (deltaAt L gamma rewards values t, gamma * lambd))).reverse =
      back (rowEntries L gamma rewards values (gamma * lambd)) := by
    rw [List.map_reverse, reverse_scan]
    rfl
  have whole : (back (rowEntries L gamma rewards values (gamma * lambd))).length = values.length := by
    rw [length_back, length_rowEntries, hv]
  unfold fullAdvantagesAndReturns
  dsimp only
  rw [@foldlM_ok _ _ _ (fun p t => (step t p.1, p.2 ++ [step t p.1])), Py.ok_bind, loop]
  · dsimp only
    rw [List.nil_append, solved, broadcast_eq _ whole]
    rfl
  · intro t mem p
    have inside : t < L := List.mem_range.1 (List.mem_reverse.1 mem)
    have item {xs : List ℚ} (length : xs.length = L) : torchItem xs t = .ok (xs.getD t 0) := torchItem_eq (by omega)
    by_cases more : t < L - 1
    · rw [if_pos more, torchItem_eq (by omega), Py.ok_bind, item hr, Py.ok_bind, item hv, Py.ok_bind]
      simp only [step, deltaAt, if_pos more]
      rfl
    · rw [if_neg more, Py.ok_bind, item hr, Py.ok_bind, item hv, Py.ok_bind]
      simp only [step, deltaAt, if_neg more]
      rfl

end Sample

/-! ## The columns of a batch -/

section Columns

variable {B T : Nat}

/-- **A loop over the columns backwards** solves the recurrence of each row. -/
theorem stack_loop (some : 1 ≤ T) (d w : Nat → Fin B → ℚ) {step : Nat → (Fin B → ℚ) → Fin B → ℚ}
    (affine : ∀ t s, step t s = d t + w t * s) :
    stack ((List.range T).reverse.foldl (fun p t => (step t p.1, p.2 ++ [step t p.1])) (0, [])).2.reverse =
      .ok fun b => back ((List.range T).map fun t => (d t b, w t b)) := by
  have loop := foldl_scan step (fun t => (d t, w t)) affine (List.range T).reverse 0 []
  rw [loop]
  dsimp only
  rw [List.nil_append, List.map_reverse, reverse_scan, stack, if_neg]
  · refine congrArg Except.ok (funext fun b => ?_)
    have row := back_map (Pi.evalRingHom (fun _ : Fin B => ℚ) b) ((List.range T).map fun t => (d t, w t))
    rw [List.map_map] at row
    exact row
  · rw [← List.length_eq_zero_iff, length_back, List.length_map, List.length_range]
    omega

theorem vanillaGae_eq (some : 1 ≤ T) (rewards values : Fin B → List ℚ) (gamma lambd : ℚ) :
    vanillaGae T rewards values gamma lambd = .ok (fun b => (rowGae T gamma (rewards b) (values b) lambd).1,
      fun b => (rowGae T gamma (rewards b) (values b) lambd).2) := by
  have loop := @stack_loop B T some (fun t b => deltaAt T gamma (rewards b) (values b) t) (fun _ _ => gamma * lambd)
    (fun t lastgaelam => column rewards t + gamma • (if t < T - 1 then column values (t + 1) else 0) - column values t +
      (gamma * lambd) • lastgaelam) (by
    intro t s
    funext b
    simp only [Pi.add_apply, Pi.sub_apply, Pi.smul_apply, Pi.mul_apply, smul_eq_mul, deltaAt, column]
    split
    · rfl
    · rfl)
  unfold vanillaGae
  dsimp only
  rw [loop]
  rfl

end Columns

/-! ## The chunks -/

section Chunk

variable {w : ℚ} {C : Nat}

/-- The matrix has the powers of the weight above the diagonal, also for weight zero. -/
theorem scanKernel_eq (w : ℚ) (i j : Nat) : scanKernel w i j = if i ≤ j then w ^ (j - i) else 0 := by
  unfold scanKernel
  split
  · subst ‹w = 0›
    rcases Nat.lt_trichotomy i j with before | rfl | after
    · rw [if_neg before.ne, if_pos before.le, zero_pow (by omega)]
    · rw [if_pos rfl, if_pos le_rfl, Nat.sub_self, pow_zero]
    · rw [if_neg after.ne', if_neg (by omega)]
  · rfl

theorem powVec_eq (w : ℚ) (C : Nat) : powVec w C = (List.range C).map fun t => w ^ (t + 1) := by
  refine List.map_congr_left fun t _ => ?_
  split
  · subst ‹w = 0›
    rw [zero_pow (Nat.succ_ne_zero t)]
  · rfl

theorem getD_localScan {ds : List ℚ} {j : Nat} (inside : j < C) :
    (localScan w C ds)[j]? = some (∑ i ∈ Finset.range (j + 1), w ^ (j - i) * ds.getD i 0) := by
  rw [localScan, List.getElem?_map, List.getElem?_range inside, Option.map_some]
  refine congrArg some ?_
  have upper : Finset.range (j + 1) ⊆ Finset.range C := Finset.range_subset_range.2 inside
  rw [← Finset.sum_subset upper]
  · refine Finset.sum_congr rfl fun i mem => ?_
    rw [scanKernel_eq, if_pos (Nat.le_of_lt_succ (Finset.mem_range.1 mem)), mul_comm]
  · intro i _ outside
    rw [scanKernel_eq, if_neg (by rw [Finset.mem_range] at outside; omega), mul_zero]

/-- **A chunk continues the recurrence.** -/
theorem chunk_scan {ds : List ℚ} (whole : ds.length = C) {n : Nat} (short : n ≤ C) (s : ℚ) :
    List.zipWith (fun x pow => x + s * pow) ((localScan w C ds).take n) ((powVec w C).take n) =
      scan s ((ds.take n).map fun d => (d, w)) := by
  have length : (ds.take n).length = n := by rw [List.length_take]; omega
  apply List.ext_getElem?
  intro j
  rcases Nat.lt_or_ge j n with inside | outside
  · have state := getD_scan w s (ds.take n) (j := j) (by omega)
    have within : j < (scan s ((ds.take n).map fun d => (d, w))).length := by
      rw [length_scan, List.length_map, length]
      exact inside
    have read : (powVec w C)[j]? = some (w ^ (j + 1)) := by
      rw [powVec_eq, List.getElem?_map, List.getElem?_range (by omega)]
      rfl
    rw [List.getD_eq_getElem?_getD, List.getElem?_eq_getElem within, Option.getD_some] at state
    rw [List.getElem?_eq_getElem within, state, List.getElem?_zipWith, List.getElem?_take_of_lt inside,
      List.getElem?_take_of_lt inside, getD_localScan (by omega), read]
    refine congrArg some ?_
    rw [mul_comm s]
    refine congrArg (· + _) (Finset.sum_congr rfl fun i mem => ?_)
    rw [List.getD_eq_getElem?_getD, List.getD_eq_getElem?_getD,
      List.getElem?_take_of_lt (by rw [Finset.mem_range] at mem; omega)]
  · rw [List.getElem?_eq_none, List.getElem?_eq_none]
    · rw [length_scan, List.length_map, length]
      exact outside
    · rw [List.length_zipWith, List.length_take, List.length_take]
      omega

end Chunk

section Chunked

variable {B T : Nat}

theorem deltas_eq {gamma : ℚ} {rewards values : List ℚ} (hr : rewards.length = T) (hv : values.length = T) :
    List.zipWith (· - ·) (List.zipWith (fun r v => r + gamma * v) rewards (values.drop 1 ++ [0])) values =
      (List.range T).map (deltaAt T gamma rewards values) := by
  apply List.ext_getElem?
  intro t
  rcases Nat.lt_or_ge t T with inside | outside
  · have next : (values.drop 1 ++ [0])[t]? = some (if t < T - 1 then values.getD (t + 1) 0 else 0) := by
      rcases Nat.lt_or_ge t (T - 1) with more | last
      · rw [if_pos more, List.getElem?_append_left (by rw [List.length_drop]; omega), List.getElem?_drop,
          Nat.add_comm, List.getD_eq_getElem?_getD, List.getElem?_eq_getElem (by omega)]
        rfl
      · rw [if_neg (by omega), List.getElem?_append_right (by rw [List.length_drop]; omega), List.length_drop]
        have first : t - (values.length - 1) = 0 := by omega
        rw [first]
        rfl
    have item {xs : List ℚ} (length : xs.length = T) : xs[t]? = some (xs.getD t 0) := by
      rw [List.getD_eq_getElem?_getD, List.getElem?_eq_getElem (by omega)]
      rfl
    rw [List.getElem?_zipWith, List.getElem?_zipWith, next, item hr, item hv, List.getElem?_map, List.getElem?_range inside]
    rfl
  · rw [List.getElem?_eq_none, List.getElem?_eq_none]
    · simpa using outside
    · simp only [List.length_zipWith, List.length_append, List.length_drop, List.length_singleton]
      omega

/-- The loop body over the chunks of the padded rows. -/
def chunkStep (w : ℚ) (C : Nat) (lengths : Nat → Nat) (rows : Fin B → List ℚ) (p : (Fin B → List ℚ) × (Fin B → ℚ)) (c : Nat) :
    (Fin B → List ℚ) × (Fin B → ℚ) :=
  let sGlobal (b : Fin B) := List.zipWith (fun s pow => s + p.2 b * pow)
    ((localScan w C (((rows b).drop (c * C)).take C)).take (lengths c)) ((powVec w C).take (lengths c))
  (fun b => assignSlice (p.1 b) (c * C) (sGlobal b), fun b => (sGlobal b).getLastD 0)

/-- The states of a row after its first `m` entries. -/
def scanned (w : ℚ) (width m : Nat) (ds : List ℚ) : List ℚ :=
  scan 0 ((ds.take m).map fun d => (d, w)) ++ List.replicate (width - m) 0

theorem getLastD_of_ne_nil {α : Type} {xs : List α} (some : xs ≠ []) (a a' : α) : xs.getLastD a = xs.getLastD a' := by
  rw [List.getLastD_eq_getLast?, List.getLastD_eq_getLast?, List.getLast?_eq_getLast_of_ne_nil some]
  rfl

/-- **Each chunk goes on where the chunks before it end.** -/
theorem chunk_loop {w : ℚ} {C pad n : Nat} {lengths : Nat → Nat} {ds : Fin B → List ℚ} (length : ∀ b, (ds b).length = T)
    (whole : n * C = T + pad) (less : pad < C)
    (lengths_eq : ∀ c, lengths c = if 0 < pad ∧ c + 1 = n then C - pad else C) {c : Nat} (done : c ≤ n) :
    (List.range c).foldl (chunkStep w C lengths fun b => ds b ++ List.replicate pad 0) (fun _ => List.replicate (T + pad) 0, 0) =
      (fun b => scanned w (T + pad) (min (c * C) T) (ds b),
        fun b => final 0 (((ds b).take (min (c * C) T)).map fun d => (d, w))) := by
  induction c with
  | zero =>
    simp only [Nat.zero_mul, Nat.zero_min, scanned, List.take_zero]
    rfl
  | succ c ih =>
    -- where the chunk starts and ends
    have last := Nat.mul_le_mul_right C done
    rw [Nat.succ_mul] at last
    have start : min (c * C) T = c * C := by omega
    have stop : min ((c + 1) * C) T = c * C + lengths c := by
      rw [Nat.succ_mul, lengths_eq]
      by_cases padded : 0 < pad ∧ c + 1 = n
      · rw [if_pos padded]
        have all := congrArg (· * C) padded.2
        simp only [Nat.succ_mul] at all
        omega
      · rw [if_neg padded]
        rcases Nat.eq_zero_or_pos pad with none | some
        · omega
        · have more := Nat.mul_le_mul_right C (show c + 2 ≤ n by omega)
          rw [Nat.succ_mul, Nat.succ_mul] at more
          omega
    have short : lengths c ≤ C := by
      rw [lengths_eq]
      split
      · omega
      · exact le_rfl
    have some : 0 < lengths c := by
      rw [lengths_eq]
      split
      · omega
      · omega
    have inside : c * C + lengths c ≤ T := stop ▸ Nat.min_le_right ..
    rw [List.range_succ, List.foldl_append, ih (by omega), List.foldl_cons, List.foldl_nil, start, stop]
    have chunk (b : Fin B) (s : ℚ) : List.zipWith (fun x pow => x + s * pow)
        ((localScan w C (((ds b ++ List.replicate pad 0).drop (c * C)).take C)).take (lengths c)) ((powVec w C).take (lengths c)) =
        scan s ((((ds b).drop (c * C)).take (lengths c)).map fun d => (d, w)) := by
      have own := length b
      rw [chunk_scan (by simp; omega) short, List.take_take, Nat.min_eq_left short, List.drop_append_of_le_length (by omega),
        List.take_append_of_le_length (by rw [List.length_drop]; omega)]
    have split (b : Fin B) : ((ds b).take (c * C + lengths c)).map (fun d => (d, w)) =
        ((ds b).take (c * C)).map (fun d => (d, w)) ++ (((ds b).drop (c * C)).take (lengths c)).map fun d => (d, w) := by
      rw [List.take_add, List.map_append]
    unfold chunkStep
    dsimp only
    simp only [chunk]
    refine Prod.ext (funext fun b => ?_) (funext fun b => ?_)
    · have own := length b
      have before : (scan 0 (((ds b).take (c * C)).map fun d => (d, w))).length = c * C := by
        rw [length_scan, List.length_map, List.length_take]
        omega
      have here : (((ds b).drop (c * C)).take (lengths c)).length = lengths c := by
        rw [List.length_take, List.length_drop]
        omega
      have rest : (scanned w (T + pad) (c * C) (ds b)).drop (c * C + lengths c) =
          List.replicate (T + pad - (c * C + lengths c)) 0 := by
        rw [scanned, List.drop_append, before, List.drop_replicate, List.drop_of_length_le (by omega), List.nil_append]
        congr 1
        omega
      show assignSlice (scanned w (T + pad) (c * C) (ds b)) _ _ = scanned w (T + pad) (c * C + lengths c) (ds b)
      rw [assignSlice, length_scan, List.length_map, here, rest, scanned, scanned, split, scan_append, List.take_left' before]
    · show List.getLastD _ _ = final 0 _
      rw [split, final_append]
      refine (getLastD_of_ne_nil ?_ _ _).trans (getLastD_scan _ _)
      rw [← List.length_pos_iff, length_scan, List.length_map, List.length_take, List.length_drop, length b]
      omega

/-- **The chunks solve the recurrence of each row**, whatever their size. -/
theorem chunkedGae_eq {rewards values : Fin B → List ℚ} (hr : ∀ b, (rewards b).length = T) (hv : ∀ b, (values b).length = T)
    (gamma lambd : ℚ) (chunkSize : ℕ+) :
    chunkedGae T rewards values gamma lambd chunkSize = .ok (fun b => (rowGae T gamma (rewards b) (values b) lambd).1,
      fun b => (rowGae T gamma (rewards b) (values b) lambd).2) := by
  have pos : 0 < (chunkSize : Nat) := chunkSize.pos
  unfold chunkedGae
  rw [decide_eq_true hv, pyAssert_true, Py.ok_bind]
  dsimp only
  generalize (chunkSize : Nat) = C at *
  have within := Nat.mod_lt T pos
  have parts := Nat.div_add_mod T C
  generalize padding : (if T % C ≠ 0 then C - T % C else 0) = pad
  have less : pad < C := by
    rw [← padding]
    split
    · omega
    · exact pos
  have divides : C ∣ T + pad := by
    rw [← padding]
    split
    · exact ⟨T / C + 1, by rw [Nat.mul_succ]; omega⟩
    · exact ⟨T / C, by omega⟩
  have length (b : Fin B) : ((List.range T).map (deltaAt T gamma (rewards b) (values b))).reverse.length = T := by
    rw [List.length_reverse, List.length_map, List.length_range]
  have whole := Nat.div_mul_cancel divides
  have loop := chunk_loop (w := gamma * lambd) length whole less (fun _ => rfl) le_rfl
  rw [whole, Nat.min_eq_right (Nat.le_add_right T pad)] at loop
  have solved (b : Fin B) : ((scanned (gamma * lambd) (T + pad) T
      ((List.range T).map (deltaAt T gamma (rewards b) (values b))).reverse).take T).reverse =
      (rowGae T gamma (rewards b) (values b) lambd).1 := by
    rw [scanned, List.take_of_length_le (length b).le, List.map_reverse, List.take_left', reverse_scan, List.map_map]
    · rfl
    · rw [length_scan, List.length_reverse, List.length_map, List.length_map, List.length_range]
  simp only [deltas_eq (hr _) (hv _)]
  unfold chunkStep at loop
  dsimp only at loop
  rw [loop]
  dsimp only
  simp only [solved]
  rfl

end Chunked

/-! ## Ragged batches -/

section Batch

variable {B : Nat}

/-- A padded row has the estimates of the row. -/
theorem rowGae_pad {L T : Nat} (short : L ≤ T) {rewards values : List ℚ} (hr : rewards.length = L) (hv : values.length = L)
    (gamma lambd : ℚ) {padded : List ℚ × List ℚ} (same : padded = rowGae T gamma (rewards ++ List.replicate (T - L) 0)
      (values ++ List.replicate (T - L) 0) lambd) :
    (padded.1.take L, padded.2.take L) = rowGae L gamma rewards values lambd := by
  have row : (back (rowEntries T gamma (rewards ++ List.replicate (T - L) 0) (values ++ List.replicate (T - L) 0)
      (gamma * lambd))).take L = back (rowEntries L gamma rewards values (gamma * lambd)) := by
    refine take_back_range short (fun t inside => ?_) (fun t outside => ?_)
    · exact Prod.ext (deltaAt_pad short hv _ _ inside) rfl
    · show deltaAt T gamma (rewards ++ List.replicate (T - L) 0) (values ++ List.replicate (T - L) 0) t = 0
      simp only [deltaAt, getD_append_zeros]
      exact deltaAt_beyond hr.le hv.le T outside
  rw [same]
  refine Prod.ext row ?_
  show List.take L (List.zipWith _ _ _) = List.zipWith _ _ values
  rw [List.take_zipWith, List.take_left' hv]
  exact congrArg (List.zipWith _ · _) row

/-- **Padding and batching change no estimate**, with either implementation. -/
theorem fullBatch_eq {responseLengths : Fin B → Nat} {values rewards : Fin B → List ℚ} (some : ∃ i, 1 ≤ responseLengths i)
    (hv : ∀ i, (values i).length = responseLengths i) (hr : ∀ i, (rewards i).length = responseLengths i)
    (gamma lambd : ℚ) (chunked : Bool) :
    fullBatch responseLengths values rewards gamma lambd chunked =
      .ok fun i => rowGae (responseLengths i) gamma (rewards i) (values i) lambd := by
  obtain ⟨j, nonempty⟩ := some
  have batch : B ≠ 0 := by
    rintro rfl
    exact j.elim0
  obtain ⟨T, maximal⟩ : ∃ T, Finset.univ.sup responseLengths = T := ⟨_, rfl⟩
  have short (i : Fin B) : responseLengths i ≤ T := maximal ▸ Finset.le_sup (Finset.mem_univ i)
  have long : 1 ≤ T := nonempty.trans (short j)
  have pad {xs : Fin B → List ℚ} (length : ∀ i, (xs i).length = responseLengths i) :
      Collective.collect (fun i => assignRow T (responseLengths i) ((xs i).take (responseLengths i))) =
        .ok fun i => xs i ++ List.replicate (T - responseLengths i) 0 := by
    apply Collective.collect_ok
    intro i
    rw [List.take_of_length_le (length i).le]
    exact assignRow_eq T (length i)
  have width {xs : Fin B → List ℚ} (length : ∀ i, (xs i).length = responseLengths i) (i : Fin B) :
      (xs i ++ List.replicate (T - responseLengths i) 0).length = T := by
    have bound := short i
    rw [List.length_append, List.length_replicate, length]
    omega
  unfold fullBatch pyMax
  rw [if_neg batch, Py.ok_bind, maximal, pad hv, Py.ok_bind, pad hr, Py.ok_bind]
  have estimates (i : Fin B) := rowGae_pad (short i) (hr i) (hv i) gamma lambd rfl
  dsimp only
  split
  · rw [chunkedGae_eq (width hr) (width hv), Py.ok_bind]
    exact congrArg Except.ok (funext estimates)
  · rw [vanillaGae_eq long, Py.ok_bind]
    exact congrArg Except.ok (funext estimates)

/-- **Both implementations of the estimator are the serial one**, on a padded batch and on each response
of a ragged batch, whatever the lengths of the other responses. -/
theorem chunked_gae_is_serial (B : Nat) (gamma lambd : ℚ) :
    (∀ (T : Nat) (rewards values : Fin B → List ℚ) (chunkSize : ℕ+), 1 ≤ T → (∀ b, (rewards b).length = T) →
      (∀ b, (values b).length = T) → ∃ estimates, vanillaGae T rewards values gamma lambd = .ok estimates ∧
        chunkedGae T rewards values gamma lambd chunkSize = .ok estimates) ∧
    ∀ (totalLengths responseLengths : Fin B → Nat) (values rewards : Fin B → Fin 1 → List ℚ) (chunked : Bool),
      (∃ i, 1 ≤ responseLengths i) → (∀ i rank, (values i rank).length = responseLengths i) →
      (∀ i rank, (rewards i rank).length = responseLengths i) → ∃ estimates,
        getAdvantagesAndReturnsBatch totalLengths responseLengths values rewards gamma lambd chunked = .ok estimates ∧
        ∀ i, getAdvantagesAndReturns (totalLengths i) (responseLengths i) (values i) (rewards i) gamma lambd =
          .ok (estimates i) := by
  refine ⟨fun T rewards values chunkSize long hr hv => ⟨_, vanillaGae_eq long rewards values gamma lambd,
    chunkedGae_eq hr hv gamma lambd chunkSize⟩, fun totalLengths responseLengths values rewards chunked some hv hr => ?_⟩
  refine ⟨fun i rank => rowGae (responseLengths i) gamma (rewards i rank) (values i rank) lambd, ?_, fun i => ?_⟩
  · have batch : B ≠ 0 := by
      rintro rfl
      exact some.choose.elim0
    have full := Collective.collect_ok fun rank : Fin 1 => @fullBatch_eq B responseLengths (fun i => values i rank)
      (fun i => rewards i rank) some (fun i => hv i rank) (fun i => hr i rank) gamma lambd chunked
    unfold getAdvantagesAndReturnsBatch
    simp only [if_neg batch, if_neg (Nat.lt_irrefl 1), Py.ok_bind, full]
    rfl
  · have full := Collective.collect_ok fun rank : Fin 1 =>
      fullAdvantagesAndReturns_eq (hv i rank) (hr i rank) gamma lambd
    unfold getAdvantagesAndReturns
    simp only [if_neg (Nat.lt_irrefl 1), Py.ok_bind, full]
    rfl

/-- Two rows of three steps in chunks of two, and two responses of one and of two tokens. -/
theorem chunked_gae_is_serial_ragged :
    (∃ estimates, vanillaGae 3 (fun _ : Fin 2 => [1, 0, 2]) (fun b => [b.val, 1, 1]) (1 / 2) 0 = .ok estimates ∧
      chunkedGae 3 (fun _ : Fin 2 => [1, 0, 2]) (fun b => [b.val, 1, 1]) (1 / 2) 0 (Nat.succPNat 1) = .ok estimates) ∧
    ∃ estimates, getAdvantagesAndReturnsBatch ![3, 4] ![1, 2] (fun i _ => ![[1], [2, 3]] i) (fun i _ => ![[4], [0, 1]] i)
        (1 / 2) 0 true = .ok estimates ∧
      ∀ i, getAdvantagesAndReturns (![3, 4] i) (![1, 2] i) (fun _ : Fin 1 => ![[1], [2, 3]] i) (fun _ => ![[4], [0, 1]] i)
        (1 / 2) 0 = .ok (estimates i) :=
  ⟨(chunked_gae_is_serial 2 (1 / 2) 0).1 3 _ _ (Nat.succPNat 1) (by decide) (fun _ => rfl) (fun _ => rfl),
    (chunked_gae_is_serial 2 (1 / 2) 0).2 _ _ _ _ true ⟨0, by decide⟩ (fun i _ => by fin_cases i <;> rfl)
      (fun i _ => by fin_cases i <;> rfl)⟩

end Batch

end SlimeBoard
