import Mathlib

/-!
# Results kept in slots

A result depends on an item and on the results before it. The results of a sequence are kept in slots that
a row names; a pass goes over the items from some place on, reads the slots before each and writes its own.
Where the row is right up to that place it is right to the end, whoever wrote its start.
-/

namespace Memo

variable {α σ K : Type} {f : List K → α → K}

/-- The results of a sequence, computed from the start. -/
def compute (f : List K → α → K) (items : List α) : List K := items.foldl (fun results x => results ++ [f results x]) []

/-- A pass over the items from `start` on: each reads the slots before it in the row. -/
def forward [DecidableEq σ] (f : List K → α → K) (row : List σ) : List α → Nat → (σ → K) → σ → K
  | [], _, memory => memory
  | x :: items, start, memory =>
    match row[start]? with
    | none => memory
    | some slot => forward f row items (start + 1) (Function.update memory slot (f ((row.take start).map memory) x))

/-! ## Computing from the start -/

theorem compute_concat (items : List α) (x : α) : compute f (items ++ [x]) = compute f items ++ [f (compute f items) x] := by
  unfold compute
  rw [List.foldl_append]
  rfl

theorem compute_length (items : List α) : (compute f items).length = items.length := by
  induction items using List.reverseRecOn with
  | nil => rfl
  | append_singleton items x ih =>
    rw [compute_concat, List.length_append, List.length_append, ih, List.length_singleton, List.length_singleton]

/-- The first results do not depend on later items. -/
theorem compute_take (items : List α) (n : Nat) : (compute f items).take n = compute f (items.take n) := by
  induction items using List.reverseRecOn with
  | nil => simp only [List.take_nil, compute, List.foldl_nil]
  | append_singleton items x ih =>
    by_cases le : n ≤ items.length
    · rw [compute_concat, List.take_append_of_le_length (by rwa [compute_length]), List.take_append_of_le_length le, ih]
    · rw [List.take_of_length_le, List.take_of_length_le]
      · rw [List.length_append, List.length_singleton]
        omega
      · rw [compute_length, List.length_append, List.length_singleton]
        omega

theorem getLast?_compute {items : List α} {i : Nat} (lt : i < items.length) :
    (compute f (items.take (i + 1))).getLast? = (compute f items)[i]? := by
  have lt' : i < (compute f items).length := by rwa [compute_length]
  rw [← compute_take, List.take_add_one, List.getElem?_eq_getElem lt', Option.toList_some, List.getLast?_concat]

/-! ## Passes -/

/-- **A pass** from where the row is right makes the row right, and changes no other slot. -/
theorem forward_spec [DecidableEq σ] {old news : List σ} (tail : List σ) {items before : List α} {memory : σ → K}
    (length : news.length = items.length) (nodup : news.Nodup) (apart : ∀ slot ∈ old, slot ∉ news)
    (right : old.map memory = compute f before) :
    (old ++ news).map (forward f (old ++ news ++ tail) items old.length memory) = compute f (before ++ items) ∧
      ∀ slot, slot ∉ news → forward f (old ++ news ++ tail) items old.length memory slot = memory slot := by
  induction items generalizing old news before memory with
  | nil =>
    obtain rfl := List.eq_nil_of_length_eq_zero length
    rw [List.append_nil, List.append_nil]
    exact ⟨right, fun _ _ => rfl⟩
  | cons x items ih =>
    obtain ⟨slot, news, rfl⟩ := List.exists_cons_of_length_eq_add_one length
    obtain ⟨fresh, nodup'⟩ := List.nodup_cons.1 nodup
    have next : (old ++ slot :: news ++ tail)[old.length]? = some slot := by
      rw [List.append_assoc, List.getElem?_append_right le_rfl, Nat.sub_self]
      rfl
    have read : (old ++ slot :: news ++ tail).take old.length = old := by
      rw [List.append_assoc, List.take_left]
    have whole : old ++ slot :: news = old ++ [slot] ++ news := by
      rw [List.append_assoc, List.singleton_append]
    rw [forward, next, read, right]
    dsimp only
    generalize memoryIs : Function.update memory slot (f (compute f before) x) = memory'
    have right' : (old ++ [slot]).map memory' = compute f (before ++ [x]) := by
      have same : old.map memory' = old.map memory := List.map_congr_left fun s mem => by
        rw [← memoryIs, Function.update_of_ne fun eq => apart s mem (List.mem_cons.2 (.inl eq))]
      rw [List.map_append, same, right, compute_concat, ← memoryIs, List.map_singleton, Function.update_self]
    have apart' : ∀ s ∈ old ++ [slot], s ∉ news := by
      intro s mem into
      obtain mem | here := List.mem_append.1 mem
      · exact apart s mem (List.mem_cons_of_mem _ into)
      · exact fresh (List.mem_singleton.1 here ▸ into)
    obtain ⟨rest, frame⟩ := ih (Nat.succ.inj length) nodup' apart' right'
    rw [List.length_append, List.length_singleton] at rest frame
    rw [whole]
    refine ⟨?_, fun s absent => ?_⟩
    · rw [rest, List.append_assoc, List.singleton_append]
    · rw [frame s fun into => absent (List.mem_cons_of_mem _ into), ← memoryIs,
        Function.update_of_ne fun eq => absent (List.mem_cons.2 (.inl eq))]

variable {ρ : Type} (run : (σ → K) → ρ → σ → K) (old news : ρ → List σ) (target : ρ → List K)

/-- The passes of a batch write to different slots, so that each comes out as if it were alone. -/
theorem foldl_forward {batch : List ρ} (memory : σ → K)
    (pass : ∀ job ∈ batch, ∀ memory', (old job).map memory' = (old job).map memory →
      (old job ++ news job).map (run memory' job) = target job ∧ ∀ slot, slot ∉ news job → run memory' job slot = memory' slot)
    (nodup : (batch.flatMap news).Nodup) (apart : ∀ job ∈ batch, ∀ slot ∈ old job, slot ∉ batch.flatMap news) :
    (∀ job ∈ batch, (old job ++ news job).map (batch.foldl run memory) = target job) ∧
      ∀ slot, slot ∉ batch.flatMap news → batch.foldl run memory slot = memory slot := by
  induction batch generalizing memory with
  | nil => exact ⟨nofun, fun _ _ => rfl⟩
  | cons job batch ih =>
    rw [List.flatMap_cons] at nodup apart
    obtain ⟨_, nodup', disjoint⟩ := List.nodup_append.1 nodup
    obtain ⟨done, frame⟩ := pass job (List.mem_cons_self ..) memory rfl
    have same (r : ρ) (mem : r ∈ batch) : (old r).map (run memory job) = (old r).map memory := by
      refine List.map_congr_left fun slot here => frame slot fun into => ?_
      exact apart r (List.mem_cons_of_mem _ mem) slot here (List.mem_append_left _ into)
    obtain ⟨rest, frame'⟩ := ih (run memory job)
      (fun r mem memory' eq => pass r (List.mem_cons_of_mem _ mem) memory' (eq.trans (same r mem))) nodup'
      fun r mem slot here into => apart r (List.mem_cons_of_mem _ mem) slot here (List.mem_append_right _ into)
    rw [List.foldl_cons, List.flatMap_cons]
    refine ⟨fun r mem => ?_, fun slot absent => ?_⟩
    · obtain rfl | mem := List.mem_cons.1 mem
      · rw [← done]
        refine List.map_congr_left fun slot here => frame' slot fun into => ?_
        obtain here | here := List.mem_append.1 here
        · exact apart r (List.mem_cons_self ..) slot here (List.mem_append_right _ into)
        · exact disjoint slot here slot into rfl
      · exact rest r mem
    · rw [frame' slot fun into => absent (List.mem_append_right _ into), frame slot fun into => absent (List.mem_append_left _ into)]

end Memo
