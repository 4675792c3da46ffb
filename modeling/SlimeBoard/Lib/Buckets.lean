import Mathlib

/-!
# Buckets

Items are emitted into a buffer. Before an item is added that would make the buffer too
big, the buffer is flushed; the rest is flushed at the end. What is flushed adds up to what
the items emit, bucket by bucket of consecutive items that fit, or of one item.
-/

namespace Buckets

/-- The buffer, the size of the items in it, and what has been flushed. -/
structure Buffer (γ : Type) where
  entries : List γ
  size : Nat
  flushed : List (List γ)

variable {β γ δ : Type}

def empty : Buffer γ := ⟨[], 0, []⟩

def Buffer.flush (b : Buffer γ) : Buffer γ := ⟨[], 0, b.flushed ++ [b.entries]⟩

section Loop

variable (tooBig : Nat → Bool) (cost : β → Nat) (emit : β → List γ)

def add (b : Buffer γ) (x : β) : Buffer γ :=
  let b := if tooBig (b.size + cost x) then b.flush else b
  { b with entries := b.entries ++ emit x, size := b.size + cost x }

/-- The last bucket, if anything is left in the buffer. -/
def Buffer.close (b : Buffer γ) : Buffer γ := if b.entries.isEmpty then b else b.flush

def run (items : List β) : Buffer γ := (items.foldl (add tooBig cost emit) empty).close

/-- Items that fit in one bucket, or a single one. -/
def Fits (block : List β) : Prop := tooBig (block.map cost).sum = false ∨ block.length = 1

/-- A bucket of consecutive items. -/
def IsBucket (items : List β) (bucket : List γ) : Prop :=
  ∃ block, block <:+: items ∧ bucket = block.flatMap emit ∧ Fits tooBig cost block

/-- What holds after the items `front`: those that are still in the buffer are `last`. -/
structure Holds (front : List β) (b : Buffer γ) (last : List β) : Prop where
  suffix : last <:+ front
  entries : b.entries = last.flatMap emit
  size : b.size = (last.map cost).sum
  fits : Fits tooBig cost last
  sent : b.flushed.flatten ++ b.entries = front.flatMap emit
  buckets : ∀ bucket ∈ b.flushed, IsBucket tooBig cost emit front bucket

variable {tooBig cost emit}

theorem IsBucket.mono {front items : List β} {bucket : List γ} (part : front <:+: items)
    (is : IsBucket tooBig cost emit front bucket) : IsBucket tooBig cost emit items bucket := by
  obtain ⟨block, inside, same, fits⟩ := is
  exact ⟨block, inside.trans part, same, fits⟩

theorem holds_empty (zero : tooBig 0 = false) : Holds tooBig cost emit ([] : List β) (empty : Buffer γ) [] := by
  refine ⟨List.suffix_refl _, rfl, rfl, Or.inl zero, rfl, fun bucket mem => ?_⟩
  cases mem

theorem Holds.add {front last : List β} {b : Buffer γ} (holds : Holds tooBig cost emit front b last) (x : β) :
    ∃ last', Holds tooBig cost emit (front ++ [x]) (add tooBig cost emit b x) last' := by
  obtain ⟨⟨before, split⟩, entries, size, fits, sent, buckets⟩ := holds
  have longer : front <:+: front ++ [x] := ⟨[], [x], rfl⟩
  unfold Buckets.add
  by_cases big : tooBig (b.size + cost x) = true
  · rw [if_pos big]
    refine ⟨[x], ⟨front, rfl⟩, ?_, ?_, Or.inr rfl, ?_, ?_⟩
    · simp [Buffer.flush]
    · simp [Buffer.flush]
    · simp only [Buffer.flush, List.flatten_append, List.flatten_cons, List.flatten_nil, List.append_nil, List.nil_append,
        List.flatMap_append, List.flatMap_cons, List.flatMap_nil, sent]
    · intro bucket mem
      rcases List.mem_append.1 mem with earlier | now
      · exact (buckets bucket earlier).mono longer
      · refine ⟨last, ⟨before, [x], by rw [split]⟩, ?_, fits⟩
        rw [List.mem_singleton.1 now, entries]
  · rw [if_neg big]
    refine ⟨last ++ [x], ⟨before, by rw [← split, List.append_assoc]⟩, ?_, ?_, Or.inl ?_, ?_, ?_⟩
    · simp [entries]
    · simp [size]
    · rw [size] at big
      simpa using big
    · rw [← List.append_assoc, sent]
      simp
    · exact fun bucket mem => (buckets bucket mem).mono longer

theorem holds_foldl (cost : β → Nat) (emit : β → List γ) (zero : tooBig 0 = false) (items : List β) :
    ∃ last, Holds tooBig cost emit items (items.foldl (add tooBig cost emit) empty) last := by
  induction items using List.reverseRecOn with
  | nil => exact ⟨[], holds_empty zero⟩
  | append_singleton front x ih =>
    obtain ⟨last, holds⟩ := ih
    rw [List.foldl_append]
    exact holds.add x

/-- **Nothing is left, and the buckets are what the items emit, in order.** -/
theorem run_sent (tooBig : Nat → Bool) (cost : β → Nat) (emit : β → List γ) (zero : tooBig 0 = false) (items : List β) :
    (run tooBig cost emit items).entries = [] ∧ (run tooBig cost emit items).flushed.flatten = items.flatMap emit ∧
      ∀ bucket ∈ (run tooBig cost emit items).flushed, IsBucket tooBig cost emit items bucket := by
  obtain ⟨last, suffix, entries, size, fits, sent, buckets⟩ :=
    holds_foldl cost emit zero items
  unfold run Buffer.close
  split
  · rename_i none
    have none := List.isEmpty_iff.1 none
    rw [none, List.append_nil] at sent
    exact ⟨none, sent, buckets⟩
  · refine ⟨rfl, ?_, fun bucket mem => ?_⟩
    · rw [← sent]
      simp [Buffer.flush]
    · rcases List.mem_append.1 mem with earlier | now
      · exact buckets bucket earlier
      · refine ⟨last, suffix.isInfix, ?_, fits⟩
        rw [List.mem_singleton.1 now, entries]

/-! ## Buckets of the items themselves -/

def Buffer.map (f : γ → δ) (b : Buffer γ) : Buffer δ := ⟨b.entries.map f, b.size, b.flushed.map (List.map f)⟩

theorem close_map (f : γ → δ) (b : Buffer γ) : (b.map f).close = b.close.map f := by
  unfold Buffer.close Buffer.map Buffer.flush
  cases entries : b.entries with
  | nil => simp [entries]
  | cons x rest => simp

theorem add_map (b : Buffer β) (x : β) :
    (add tooBig cost (fun y => [y]) b x).map cost = add tooBig id (fun y => [y]) (b.map cost) (cost x) := by
  unfold Buckets.add Buffer.map Buffer.flush
  dsimp only [id]
  split
  · simp
  · simp

/-- Where the buckets end depends on the sizes of the items only. -/
theorem run_map (items : List β) :
    (run tooBig cost (fun y => [y]) items).map cost = run tooBig id (fun y => [y]) (items.map cost) := by
  have loop (b : Buffer β) (items : List β) : (items.foldl (add tooBig cost fun y => [y]) b).map cost =
      (items.map cost).foldl (add tooBig id fun y => [y]) (b.map cost) := by
    induction items generalizing b with
    | nil => rfl
    | cons x rest ih => rw [List.foldl_cons, List.map_cons, List.foldl_cons, ih, add_map]
  have whole : (items.foldl (add tooBig cost fun y => [y]) empty).map cost =
      (items.map cost).foldl (add tooBig id fun y => [y]) empty := loop empty items
  unfold run
  rw [← whole, close_map]

/-- Lists of items with the same sizes fill buckets of the same lengths. -/
theorem run_lengths {items items' : List β} (same : items.map cost = items'.map cost) :
    (run tooBig cost (fun y => [y]) items).flushed.map List.length =
      (run tooBig cost (fun y => [y]) items').flushed.map List.length := by
  have lengths (items : List β) : (run tooBig cost (fun y => [y]) items).flushed.map List.length =
      (run tooBig id (fun y => [y]) (items.map cost)).flushed.map List.length := by
    rw [← run_map]
    simp [Buffer.map, Function.comp_def]
  rw [lengths, lengths, same]

/-! ## No empty bucket -/

/-- Before an item that would make the buffer too big it is flushed, unless it is empty. -/
def place (tooBig : Nat → Bool) (cost : β → Nat) (b : Buffer β) (x : β) : Buffer β :=
  let b := if tooBig (b.size + cost x) && !b.entries.isEmpty then b.flush else b
  { b with entries := b.entries ++ [x], size := b.size + cost x }

/-- The flushed buckets and what is left in the buffer. -/
def Buffer.all (b : Buffer β) : List (List β) := b.flushed ++ [b.entries]

def cut (tooBig : Nat → Bool) (cost : β → Nat) (items : List β) : List (List β) := (items.foldl (place tooBig cost) empty).all

/-- What holds after the items `front`. -/
structure Placed (tooBig : Nat → Bool) (cost : β → Nat) (front : List β) (b : Buffer β) : Prop where
  size : b.size = (b.entries.map cost).sum
  flatten : b.all.flatten = front
  fits : ∀ bucket ∈ b.all, Fits tooBig cost bucket
  full : b.all.IsChain fun first second => ∃ x, second.head? = some x ∧ tooBig ((first.map cost).sum + cost x) = true

theorem Placed.place {front : List β} {b : Buffer β} (placed : Placed tooBig cost front b) (x : β) :
    Placed tooBig cost (front ++ [x]) (place tooBig cost b x) := by
  obtain ⟨size, flatten, fits, full⟩ := placed
  unfold Buckets.place
  by_cases new : (tooBig (b.size + cost x) && !b.entries.isEmpty) = true
  · rw [if_pos new]
    have big := (Bool.and_eq_true_iff.1 new).1
    refine ⟨by simp [Buffer.flush], ?_, fun bucket mem => ?_, ?_⟩
    · rw [← flatten]
      simp [Buffer.all, Buffer.flush]
    · rcases List.mem_append.1 mem with earlier | last
      · exact fits bucket earlier
      · rw [List.mem_singleton.1 last]
        exact .inr rfl
    · refine List.isChain_append.2 ⟨full, List.isChain_singleton _, fun first last second here => ?_⟩
      have last : first ∈ (b.flushed ++ [b.entries]).getLast? := last
      rw [List.getLast?_concat, Option.mem_some_iff] at last
      cases last
      cases here
      exact ⟨x, rfl, size ▸ big⟩
  · rw [if_neg new]
    refine ⟨by simp [size], ?_, fun bucket mem => ?_, ?_⟩
    · rw [← flatten]
      simp [Buffer.all]
    · rcases List.mem_append.1 mem with earlier | last
      · exact fits bucket (List.mem_append_left _ earlier)
      · rw [List.mem_singleton.1 last]
        dsimp only
        rw [Fits, List.map_append, List.map_singleton, List.sum_append, List.sum_singleton, ← size]
        cases entries : b.entries with
        | nil => exact .inr rfl
        | cons y rest =>
          rw [entries, List.isEmpty_cons, Bool.not_false, Bool.and_true] at new
          exact .inl (eq_false_of_ne_true new)
    · obtain ⟨before, -, last⟩ := List.isChain_append.1 full
      refine List.isChain_append.2 ⟨before, List.isChain_singleton _, fun first mem second here => ?_⟩
      cases here
      obtain ⟨y, head, big⟩ := last first mem b.entries rfl
      refine ⟨y, ?_, big⟩
      rw [List.head?_append, head]
      rfl

/-- **The cut**: the items in order, in buckets that fit or have one item, none with room for the next item. -/
theorem cut_placed (tooBig : Nat → Bool) (cost : β → Nat) (zero : tooBig 0 = false) (items : List β) :
    Placed tooBig cost items (items.foldl (Buckets.place tooBig cost) empty) := by
  induction items using List.reverseRecOn with
  | nil =>
    refine ⟨rfl, rfl, fun bucket mem => ?_, List.isChain_singleton _⟩
    rw [List.mem_singleton.1 mem]
    exact .inl zero
  | append_singleton front x ih =>
    rw [List.foldl_append]
    exact ih.place x

theorem place_map (b : Buffer β) (x : β) : (place tooBig cost b x).map cost = place tooBig id (b.map cost) (cost x) := by
  unfold place Buffer.map Buffer.flush
  dsimp only [id]
  rw [List.isEmpty_map]
  split <;> simp

/-- Lists of items with the same sizes are cut in the same places. -/
theorem cut_lengths (tooBig : Nat → Bool) {items items' : List β} (same : items.map cost = items'.map cost) :
    (cut tooBig cost items).map List.length = (cut tooBig cost items').map List.length := by
  have loop (b : Buffer β) (items : List β) : (items.foldl (place tooBig cost) b).map cost =
      (items.map cost).foldl (place tooBig id) (b.map cost) := by
    induction items generalizing b with
    | nil => rfl
    | cons x rest ih => rw [List.foldl_cons, List.map_cons, List.foldl_cons, ih, place_map]
  have lengths (items : List β) : (cut tooBig cost items).map List.length =
      (((items.map cost).foldl (place tooBig id) ((empty : Buffer β).map cost)).all).map List.length := by
    rw [← loop]
    simp [cut, Buffer.map, Buffer.all, Function.comp_def]
  rw [lengths, lengths, same]

end Loop

end Buckets
