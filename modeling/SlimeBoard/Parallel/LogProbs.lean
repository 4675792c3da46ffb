import SlimeBoard.Lib.BoolIndex
import SlimeBoard.Parallel.Formats

/-!
# Log-probs of the masked tokens

`get_log_probs_and_entropy` takes the rows of the masked tokens of each response, lets
each through the logits mask of its token, and puts the results back among zeros. The
loss masks are those of whole responses, the rows those of a rank.
-/

namespace SlimeBoard

open Cp Collective

/-- A row of logits over a vocabulary of `V` tokens. -/
abbrev Logits (V : Nat) := Fin V → WithBot ℚ

/-- What the fused kernels compute from a row: the log-prob of a token and the entropy. -/
structure Heads (V : Nat) (β : Type) where
  logProb : Logits V → Nat → β
  entropy : Logits V → β

section Code

variable {V : Nat} {α β : Type}

/-- `row + mask` for a mask that is 0 on the allowed tokens and `-inf` elsewhere. -/
def restrict (allowed : List (Fin V)) (row : Logits V) : Logits V := fun t => row t + if t ∈ allowed then 0 else ⊥

/-- `xs[mask == 1]` -/
def maskedSelect (mask : List Nat) (xs : List α) : Py (List α) :=
  if mask.length = xs.length then .ok (BoolIndex.select mask xs) else .error .indexError

/-- `full = torch.zeros(length)`, then `full[mask == 1] = ys`. One value goes to every place. -/
def maskedScatter [Zero β] (length : Nat) (mask : List Nat) (ys : List β) : Py (List β) :=
  let ys := if ys.length = 1 then List.replicate (mask.count 1) (ys.headD 0) else ys
  if mask.length ≠ length then .error .indexError
  else if ys.length ≠ mask.count 1 then .error .runtimeError
  else .ok (BoolIndex.scatter 0 mask ys)

/-- `xs[i] if xs is not None else None` -/
def itemAt (xs : Option (List α)) (i : Nat) : Py (Option α) :=
  match xs with
  | none => .ok none
  | some xs =>
    match xs[i]? with
    | some x => .ok (some x)
    | none => .error .indexError

end Code

section Chunks

variable {α β γ : Type}

end Chunks

section Row

variable {V : Nat} {β : Type}

/-- The row of the `j`-th masked token, behind its logits mask. -/
def maskedRow (logitsMask : Option (List (List (Fin V)))) (j : Nat) (row : Logits V) : Logits V :=
  match logitsMask with
  | none => row
  | some allowed => restrict (allowed.getD j []) row

/-- One logits mask for each masked token. -/
def OneEach (mask : List Nat) (logitsMask : Option (List (List (Fin V)))) : Prop :=
  ∀ allowed, logitsMask = some allowed → allowed.length = mask.count 1

theorem scatter_eq [Zero β] {mask : List Nat} {ys : List β} (whole : ys.length = mask.count 1) {value : Nat → β}
    (found : ∀ k, mask[k]? = some 1 → ys[(mask.take k).count 1]? = some (value k)) :
    maskedScatter mask.length mask ys =
      .ok ((List.range mask.length).map fun k => if mask[k]? = some 1 then value k else 0) := by
  have spread : (if ys.length = 1 then List.replicate (mask.count 1) (ys.headD 0) else ys) = ys := by
    split
    · rename_i single
      obtain ⟨y, rfl⟩ := List.length_eq_one_iff.1 single
      rw [← whole]
      rfl
    · rfl
  unfold maskedScatter
  dsimp only
  rw [spread, if_neg (not_not.2 rfl), if_neg (not_not.2 whole)]
  refine congrArg Except.ok (List.ext_getElem? fun k => ?_)
  rcases Nat.lt_or_ge k mask.length with inside | outside
  · rw [BoolIndex.getElem?_scatter 0 whole inside, List.getElem?_map, List.getElem?_range inside, Option.map_some]
    split
    · rename_i here
      exact found k here
    · rfl
  · rw [List.getElem?_eq_none (by rwa [BoolIndex.length_scatter]),
      List.getElem?_eq_none (by rwa [List.length_map, List.length_range])]

end Row

section Whole

variable {V : Nat} {β : Type}

/-- `logits_masks[i]` -/
def maskOf (logitsMasks : Option (List (List (List (Fin V))))) (i : Nat) : Option (List (List (Fin V))) :=
  logitsMasks.map fun masks => masks.getD i []

/-- A list of logits masks for each sample, one for each of its masked tokens. -/
def WellMasked (samples : List TrainSample) (logitsMasks : Option (List (List (List (Fin V))))) : Prop :=
  ∀ masks, logitsMasks = some masks → ∀ (i : Nat) (s : TrainSample), samples[i]? = some s →
    ∃ allowed, masks[i]? = some allowed ∧ allowed.length = s.lossMask.count 1

theorem WellMasked.item {samples : List TrainSample} {logitsMasks : Option (List (List (List (Fin V))))}
    (well : WellMasked samples logitsMasks) {i : Nat} {s : TrainSample} (found : samples[i]? = some s) :
    itemAt logitsMasks i = .ok (maskOf logitsMasks i) ∧ OneEach s.lossMask (maskOf logitsMasks i) := by
  cases logitsMasks with
  | none => exact ⟨rfl, fun _ none => (nomatch none)⟩
  | some masks =>
    obtain ⟨allowed, mask, length⟩ := well masks rfl i s found
    have entry : maskOf (some masks) i = some allowed := by
      show some (masks.getD i []) = _
      rw [List.getD_eq_getElem?_getD, mask]
      rfl
    rw [entry]
    refine ⟨?_, fun allowed' same => ?_⟩
    · unfold itemAt
      dsimp only
      rw [mask]
    · rw [← Option.some.inj same]
      exact length

variable [AddCommMonoid β]

variable {n : Nat} {args : LayoutArgs} {m : Nat} {samples : List TrainSample}

/-- Whatever its row is, a masked token of sample `i` has the log-prob 0, and the entropy 0 if it is asked for. -/
def Silent (heads : Heads V β) (scale : Logits V → Logits V) (withEntropy : Bool)
    (logitsMasks : Option (List (List (List (Fin V))))) (s : TrainSample) (i : Nat) : Prop :=
  ∀ (k : Nat) (row : Logits V), s.lossMask[k]? = some 1 →
    heads.logProb (maskedRow (maskOf logitsMasks i) ((s.lossMask.take k).count 1) (scale row))
        (s.tokens.getD (s.first + k + 1) 0) = 0 ∧
      (withEntropy = true →
        heads.entropy (maskedRow (maskOf logitsMasks i) ((s.lossMask.take k).count 1) (scale row)) = 0)

end Whole

end SlimeBoard
