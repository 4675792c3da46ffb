import SlimeBoard.Lib.PyDict
import SlimeBoard.Lib.Substring

/-!
# Loss masks of conversations by character spans

`gen_multi_turn_loss_mask_qwen3_5` renders a conversation once and finds the assistant messages in the
text again, by searching for their header and for the end marker. The mask covers the assistant turns
that should be trained if no search meets a marker inside a message's own text.
-/

namespace SlimeBoard.LossMask

open Substring

def assistantHeader : List Char :=
  ['<', '|', 'i', 'm', '_', 's', 't', 'a', 'r', 't', '|', '>', 'a', 's', 's', 'i', 's', 't', 'a', 'n', 't', '\n']

def thinkPrefix : List Char := ['<', 't', 'h', 'i', 'n', 'k', '>', '\n']

def endMarker : List Char := ['<', '|', 'i', 'm', '_', 'e', 'n', 'd', '|', '>']

/-- What a message says. -/
structure Turn where
  role : String
  content : List Char

structure Message extends Turn where
  stepLossMask : Option Int

/-- What the function uses of a tokenizer: `apply_chat_template` without and with `tokenize`, and the
ids and offsets of a text. `τ` stands for a tool. -/
structure Tokenizer (τ : Type) where
  applyChatTemplate : List Message → Option (List τ) → List Char
  applyChatTemplateIds : List Message → Option (List τ) → List Nat
  inputIds : List Char → List Nat
  offsetMapping : List Char → Option (List (Nat × Nat))

/-- `for pos in range(lo, hi): char_mask[pos] = 1` -/
def fill (lo hi : Nat) (charMask : List Nat) : List Nat :=
  charMask.mapIdx fun pos value => if lo ≤ pos ∧ pos < hi then 1 else value

/-- Where the span of a message ends: after the end marker and the newline, if there is one. -/
def spanEnd (renderedText : List Char) (endPos : Nat) : Nat :=
  let spanEnd := endPos + endMarker.length
  if renderedText[spanEnd]? = some '\n' then spanEnd + 1 else spanEnd

/-- Where the mask of a message starts: after the thinking prefix, if there is one. -/
def maskStart (renderedText : List Char) (contentStart : Nat) : Nat :=
  if (renderedText.drop contentStart).take thinkPrefix.length = thinkPrefix then contentStart + thinkPrefix.length
  else contentStart

/-- One turn of the loop over the messages, on the cursor and the mask. -/
def markMessage (renderedText : List Char) (state : Nat × List Nat) (message : Message) : Py (Nat × List Nat) :=
  if message.role ≠ "assistant" then .ok state
  else match findFrom assistantHeader renderedText state.1 with
    | none => .error .valueError
    | some headerPos =>
      let contentStart := headerPos + assistantHeader.length
      match findFrom endMarker renderedText contentStart with
      | none => .error .valueError
      | some endPos =>
        let cursor := spanEnd renderedText endPos
        if message.stepLossMask.getD 1 ≠ 1 then .ok (cursor, state.2)
        else .ok (cursor, fill (maskStart renderedText contentStart) cursor state.2)

/-- The loss of the token on a span, from the sums of the prefixes of the mask. -/
def tokenLoss (charMaskPrefixSum : List Nat) (span : Nat × Nat) : Py Nat :=
  if span.2 ≤ span.1 then .ok 0
  else do
    let upper ← pyIndex charMaskPrefixSum span.2
    let lower ← pyIndex charMaskPrefixSum span.1
    -- the sums do not decrease, so the natural difference is the integer one
    return if 0 < upper - lower then 1 else 0

def genMultiTurnLossMaskQwen35 {τ : Type} (tokenizer : Tokenizer τ) (messages : List Message)
    (tools : Option (List τ)) : Py (List Nat × List Nat) :=
  let renderedText := tokenizer.applyChatTemplate messages tools
  let tokenIds := tokenizer.inputIds renderedText
  match tokenizer.offsetMapping renderedText with
  | none => .error .valueError
  | some offsetMapping =>
    if tokenIds ≠ tokenizer.applyChatTemplateIds messages tools then .error .valueError
    else do
      let (_, charMask) ← messages.foldlM (markMessage renderedText) (0, List.replicate renderedText.length 0)
      let lossMask ← offsetMapping.mapM (tokenLoss (charMask.scanl (· + ·) 0))
      return (tokenIds, lossMask)

/-! ## What the mask should be -/

section Render

variable (header : String → List Char)

/-- A message in the text: its header, its content, the end marker and a newline. -/
def Turn.render (t : Turn) : List Char := header t.role ++ (t.content ++ (endMarker ++ ['\n']))

def render (turns : List Turn) : List Char := turns.flatMap (Turn.render header)

/-- The assistant messages that should be trained. -/
def Message.Trained (m : Message) : Prop := m.role = "assistant" ∧ m.stepLossMask.getD 1 = 1

instance (m : Message) : Decidable m.Trained := instDecidableAnd

/-- The characters of a message's content that are a leading thinking prefix. -/
def thinkLength (content : List Char) : Nat := if thinkPrefix <+: content then thinkPrefix.length else 0

/-- The characters of a message that should count: the content after the thinking prefix, the end marker
and the newline. -/
def Message.loss (m : Message) : List Bool :=
  List.replicate ((header m.role).length + thinkLength m.content) false ++
    List.replicate (m.content.length - thinkLength m.content + (endMarker.length + 1)) (decide m.Trained)

def loss (messages : List Message) : List Bool := messages.flatMap (Message.loss header)

/-- A span meets a character that counts. -/
def Overlaps (counts : List Bool) (span : Nat × Nat) : Prop :=
  ∃ pos, span.1 ≤ pos ∧ pos < span.2 ∧ counts[pos]? = some true

/-- Consecutive spans from `lo` to `hi`. -/
def Tiles : Nat → List (Nat × Nat) → Nat → Prop
  | lo, [], hi => lo = hi
  | lo, span :: spans, hi => span.1 = lo ∧ span.1 ≤ span.2 ∧ Tiles span.2 spans hi

/-- The template renders the messages in order, and the offsets of the tokenizer tile the text. -/
structure Faithful {τ : Type} (tokenizer : Tokenizer τ) (messages : List Message) (tools : Option (List τ))
    (offsets : List (Nat × Nat)) : Prop where
  renders : tokenizer.applyChatTemplate messages tools = render header (messages.map Message.toTurn)
  agrees : tokenizer.applyChatTemplateIds messages tools =
    tokenizer.inputIds (render header (messages.map Message.toTurn))
  mapping : tokenizer.offsetMapping (render header (messages.map Message.toTurn)) = some offsets
  tokens : (tokenizer.inputIds (render header (messages.map Message.toTurn))).length = offsets.length
  tiles : Tiles 0 offsets (render header (messages.map Message.toTurn)).length

/-- A mask as long as the tokens, with a one for each token that meets a character that counts. -/
def Exact (messages : List Message) (offsets : List (Nat × Nat)) (result : Py (List Nat × List Nat)) : Prop :=
  ∃ tokenIds lossMask, result = .ok (tokenIds, lossMask) ∧ lossMask.length = tokenIds.length ∧
    List.Forall₂ (fun span value => (value = 0 ∨ value = 1) ∧ (value = 1 ↔ Overlaps (loss header messages) span))
      offsets lossMask

/-- The searches find the messages: the header of an assistant message does not occur in the text
between it and the assistant message before, and the end marker does not occur in its content. -/
def Clean : List Char → List Turn → Prop
  | _, [] => True
  | between, t :: turns =>
    if t.role = "assistant" then
      ¬assistantHeader <:+: between ∧ ¬endMarker <:+: t.content ∧ Clean [] turns
    else Clean (between ++ t.render header) turns

/-- What the searches leave of a text with an assistant message: what follows the end marker after the first header,
and its newline. -/
def leftOf (text : List Char) : List Char :=
  match find assistantHeader text with
  | none => []
  | some headerPos =>
    match findFrom endMarker text (headerPos + assistantHeader.length) with
    | none => []
    | some endPos => text.drop (spanEnd text endPos)

/-- The searches find the messages that should be trained. An assistant message that should not be trained only moves
the place where the next search starts, and what it leaves stays between. -/
def Found : List Char → List Message → Prop
  | _, [] => True
  | between, m :: messages =>
    if m.role ≠ "assistant" then Found (between ++ m.render header) messages
    else if m.stepLossMask.getD 1 ≠ 1 then Found (leftOf (between ++ m.render header)) messages
    else ¬assistantHeader <:+: between ∧ ¬endMarker <:+: m.content ∧ Found [] messages

end Render

/-! ## From characters to tokens -/

/-- The mask has something exactly at the characters that count. -/
def Marks (charMask : List Nat) (counts : List Bool) : Prop :=
  ∀ pos : Nat, (∃ value, charMask[pos]? = some value ∧ 0 < value) ↔ counts[pos]? = some true

theorem marks_toNat (counts : List Bool) : Marks (counts.map Bool.toNat) counts := by
  intro pos
  rw [List.getElem?_map]
  cases counts[pos]? with
  | none => simp
  | some b => cases b <;> simp

/-- Between two prefixes the sum grows if and only if there is something between them. -/
theorem sum_take_lt_iff (charMask : List Nat) {start stop : Nat} (le : start ≤ stop) :
    0 < (charMask.take stop).sum - (charMask.take start).sum ↔
      ∃ pos, start ≤ pos ∧ pos < stop ∧ ∃ value, charMask[pos]? = some value ∧ 0 < value := by
  obtain ⟨size, rfl⟩ := Nat.exists_eq_add_of_le le
  rw [List.take_add, List.sum_append, Nat.add_sub_cancel_left, List.sum_pos_iff_exists_pos_nat]
  constructor
  · rintro ⟨value, mem, positive⟩
    obtain ⟨i, found⟩ := List.mem_iff_getElem?.1 mem
    rw [List.getElem?_take] at found
    split at found
    · rename_i small
      rw [List.getElem?_drop] at found
      exact ⟨start + i, by omega, by omega, value, found, positive⟩
    · cases found
  · rintro ⟨pos, lo, hi, value, found, positive⟩
    refine ⟨value, List.mem_iff_getElem?.2 ⟨pos - start, ?_⟩, positive⟩
    rw [List.getElem?_take, if_pos (by omega), List.getElem?_drop, Nat.add_sub_cancel' lo, found]

theorem pyIndex_scanl {charMask : List Nat} {i : Nat} (le : i ≤ charMask.length) :
    pyIndex (charMask.scanl (· + ·) 0) i = .ok (charMask.take i).sum := by
  rw [pyIndex_ok_iff, List.getElem?_scanl, if_pos le, List.sum_eq_foldl_nat]

theorem tokenLoss_spec {charMask : List Nat} {counts : List Bool} (marks : Marks charMask counts) {span : Nat × Nat}
    (le : span.2 ≤ charMask.length) :
    ∃ value, tokenLoss (charMask.scanl (· + ·) 0) span = .ok value ∧ (value = 0 ∨ value = 1) ∧
      (value = 1 ↔ Overlaps counts span) := by
  have meets : (∃ pos, span.1 ≤ pos ∧ pos < span.2 ∧ ∃ value, charMask[pos]? = some value ∧ 0 < value) ↔
      Overlaps counts span := by
    simp only [Overlaps, marks _]
  unfold tokenLoss
  by_cases empty : span.2 ≤ span.1
  · rw [if_pos empty]
    refine ⟨0, rfl, .inl rfl, iff_of_false Nat.zero_ne_one ?_⟩
    rintro ⟨pos, lo, hi, -⟩
    omega
  · rw [if_neg empty, pyIndex_scanl le, Py.ok_bind, pyIndex_scanl (by omega), Py.ok_bind, ← meets,
      ← sum_take_lt_iff charMask (by omega)]
    split
    · rename_i grows
      exact ⟨1, rfl, .inr rfl, iff_of_true rfl grows⟩
    · rename_i flat
      exact ⟨0, rfl, .inl rfl, iff_of_false Nat.zero_ne_one flat⟩

theorem Tiles.within {lo hi : Nat} {spans : List (Nat × Nat)} (tiles : Tiles lo spans hi) :
    lo ≤ hi ∧ ∀ span ∈ spans, span.2 ≤ hi := by
  induction spans generalizing lo with
  | nil => exact ⟨Nat.le_of_eq tiles, by simp⟩
  | cons span spans ih =>
    obtain ⟨rfl, le, rest⟩ := tiles
    obtain ⟨le', within⟩ := ih rest
    exact ⟨le.trans le', List.forall_mem_cons.2 ⟨le', within⟩⟩

/-- From a mask of the characters comes the mask of the tokens. -/
theorem tokens_spec {charMask : List Nat} {counts : List Bool} (marks : Marks charMask counts)
    {offsets : List (Nat × Nat)} (tiles : Tiles 0 offsets charMask.length) :
    ∃ lossMask, offsets.mapM (tokenLoss (charMask.scanl (· + ·) 0)) = .ok lossMask ∧
      List.Forall₂ (fun span value => (value = 0 ∨ value = 1) ∧ (value = 1 ↔ Overlaps counts span)) offsets lossMask := by
  have within := tiles.within.2
  clear tiles
  induction offsets with
  | nil => exact ⟨[], rfl, .nil⟩
  | cons span offsets ih =>
    obtain ⟨value, run, exact⟩ := tokenLoss_spec marks (within span (List.mem_cons_self ..))
    obtain ⟨lossMask, rest, all⟩ := ih fun span mem => within span (List.mem_cons_of_mem _ mem)
    refine ⟨value :: lossMask, ?_, .cons exact all⟩
    rw [List.mapM_cons, run, Py.ok_bind, rest]
    rfl

/-! ## Finding the messages -/

theorem getElem?_fill (lo hi : Nat) (charMask : List Nat) (pos : Nat) :
    (fill lo hi charMask)[pos]? = charMask[pos]?.map fun value => if lo ≤ pos ∧ pos < hi then 1 else value :=
  List.getElem?_mapIdx

theorem length_fill (lo hi : Nat) (charMask : List Nat) : (fill lo hi charMask).length = charMask.length :=
  List.length_mapIdx

/-- Filling after what is done. -/
theorem fill_zeros (before : List Nat) (a b c : Nat) :
    fill (before.length + a) (before.length + a + b) (before ++ List.replicate (a + b + c) 0) =
      before ++ (List.replicate a 0 ++ (List.replicate b 1 ++ List.replicate c 0)) := by
  apply List.ext_getElem?
  intro pos
  rw [getElem?_fill]
  simp only [List.getElem?_append, List.getElem?_replicate, List.length_replicate]
  split_ifs <;> first | omega | simp_all

theorem thinkLength_le (content : List Char) : thinkLength content ≤ content.length := by
  unfold thinkLength
  split
  · rename_i starts
    exact starts.length_le
  · exact Nat.zero_le _

theorem length_loss (header : String → List Char) (m : Message) : (m.loss header).length = (m.render header).length := by
  have := thinkLength_le m.content
  simp [Message.loss, Turn.render]
  omega

/-- What a message found at its place does. -/
theorem markMessage_of_found {renderedText : List Char} {cursor headerPos endPos : Nat} {charMask : List Nat} {m : Message}
    (assistant : m.role = "assistant") (head : findFrom assistantHeader renderedText cursor = some headerPos)
    (tail : findFrom endMarker renderedText (headerPos + assistantHeader.length) = some endPos) :
    markMessage renderedText (cursor, charMask) m = .ok (spanEnd renderedText endPos,
      if m.stepLossMask.getD 1 = 1 then
        fill (maskStart renderedText (headerPos + assistantHeader.length)) (spanEnd renderedText endPos) charMask
      else charMask) := by
  unfold markMessage
  rw [if_neg (not_not.2 assistant), head]
  dsimp only
  rw [tail]
  dsimp only
  by_cases step : m.stepLossMask.getD 1 = 1
  · rw [if_neg (not_not.2 step), if_pos step]
  · rw [if_pos step, if_neg step]

/-- The thinking prefix of the text that follows is the one of the content. -/
theorem think_prefix_iff (content rest : List Char) :
    thinkPrefix <+: content ++ (endMarker ++ rest) ↔ thinkPrefix <+: content := by
  constructor
  · intro starts
    rcases List.prefix_or_prefix_of_prefix starts (List.prefix_append ..) with within | ⟨tail, same⟩
    · exact within
    · -- the content ends inside the prefix, so that the end marker continues it
      have meets : tail <+: endMarker ++ rest := by
        rw [← same, List.prefix_append_right_inj] at starts
        exact starts
      rcases content with _ | ⟨a, content⟩
      · obtain rfl : tail = thinkPrefix := same
        exact absurd meets (by simp [thinkPrefix, endMarker])
      · cases tail with
        | nil => rw [← same, List.append_nil]
        | cons b tail =>
          obtain rfl : b = '<' := (List.cons_prefix_cons.1 meets).1
          have again : '<' ∈ thinkPrefix.tail := by
            rw [← same]
            simp
          exact absurd again (by decide)
  · intro starts
    exact starts.trans (List.prefix_append ..)

variable {header : String → List Char}

/-- A clean assistant message is found where it stands. -/
theorem markMessage_clean {m : Message} (named : header "assistant" = assistantHeader) (assistant : m.role = "assistant")
    (done between rest : List Char) (charMask : List Nat) (absent : ¬assistantHeader <:+: between)
    (absent' : ¬endMarker <:+: m.content) :
    markMessage (done ++ (between ++ (m.render header ++ rest))) (done.length, charMask) m =
      .ok ((done ++ (between ++ m.render header)).length,
        if m.stepLossMask.getD 1 = 1 then
          fill ((done ++ between).length + (assistantHeader.length + thinkLength m.content))
            ((done ++ between).length + (assistantHeader.length + thinkLength m.content) +
              (m.content.length - thinkLength m.content + (endMarker.length + 1))) charMask
        else charMask) := by
  have shape : done ++ (between ++ (m.render header ++ rest)) =
      done ++ (between ++ (assistantHeader ++ (m.content ++ (endMarker ++ ('\n' :: rest))))) := by
    simp [Turn.render, assistant, named]
  have size : (m.render header).length = assistantHeader.length + (m.content.length + (endMarker.length + 1)) := by
    simp [Turn.render, assistant, named]
  have shape' : done ++ (between ++ (assistantHeader ++ (m.content ++ (endMarker ++ ('\n' :: rest))))) =
      (done ++ between ++ assistantHeader) ++ (m.content ++ (endMarker ++ ('\n' :: rest))) := by
    simp
  have shape'' : done ++ (between ++ (assistantHeader ++ (m.content ++ (endMarker ++ ('\n' :: rest))))) =
      (done ++ between ++ assistantHeader ++ m.content ++ endMarker) ++ ('\n' :: rest) := by
    simp
  have start : done.length + between.length + assistantHeader.length = (done ++ between ++ assistantHeader).length := by
    simp
    omega
  have head : findFrom assistantHeader (done ++ (between ++ (m.render header ++ rest))) done.length =
      some (done.length + between.length) := by
    have once : '<' ∉ assistantHeader.tail := by decide
    rw [shape, findFrom_append]
    exact congrArg _ (find_append _ once absent)
  have tail : findFrom endMarker (done ++ (between ++ (m.render header ++ rest)))
      (done.length + between.length + assistantHeader.length) =
      some (done.length + between.length + assistantHeader.length + m.content.length) := by
    have once : '<' ∉ endMarker.tail := by decide
    rw [shape, shape', start, findFrom_append]
    exact congrArg _ (find_append _ once absent')
  have think : maskStart (done ++ (between ++ (m.render header ++ rest)))
      (done.length + between.length + assistantHeader.length) =
      (done ++ between).length + (assistantHeader.length + thinkLength m.content) := by
    have starts : (m.content ++ (endMarker ++ ('\n' :: rest))).take thinkPrefix.length = thinkPrefix ↔
        thinkPrefix <+: m.content := by
      rw [← think_prefix_iff m.content ('\n' :: rest), List.prefix_iff_eq_take, eq_comm]
    unfold maskStart thinkLength
    rw [shape, shape', start, List.drop_left, ← start, List.length_append]
    by_cases here : thinkPrefix <+: m.content
    · rw [if_pos (starts.2 here), if_pos here]
      omega
    · rw [if_neg (mt starts.1 here), if_neg here]
      omega
  have last : spanEnd (done ++ (between ++ (m.render header ++ rest)))
      (done.length + between.length + assistantHeader.length + m.content.length) =
      (done ++ (between ++ m.render header)).length := by
    have here : (done ++ between ++ assistantHeader ++ m.content ++ endMarker).length =
        done.length + between.length + assistantHeader.length + m.content.length + endMarker.length := by
      simp
      omega
    unfold spanEnd
    dsimp only
    rw [shape, shape'', ← here, List.getElem?_append_right (Nat.le_refl _), Nat.sub_self]
    rw [if_pos (show ('\n' :: rest)[0]? = some '\n' from rfl), here, List.length_append, List.length_append, size]
    omega
  have whole : (done ++ (between ++ m.render header)).length =
      (done ++ between).length + (assistantHeader.length + thinkLength m.content) +
        (m.content.length - thinkLength m.content + (endMarker.length + 1)) := by
    have := thinkLength_le m.content
    rw [List.length_append, List.length_append, List.length_append, size]
    omega
  rw [markMessage_of_found assistant head tail, think, last, ← whole]

theorem render_cons (t : Turn) (turns : List Turn) : render header (t :: turns) = t.render header ++ render header turns :=
  List.flatMap_cons

theorem loss_cons (m : Message) (messages : List Message) :
    loss header (m :: messages) = m.loss header ++ loss header messages :=
  List.flatMap_cons

theorem loss_untrained {m : Message} (untrained : ¬m.Trained) :
    m.loss header = List.replicate (m.render header).length false := by
  have size := length_loss header m
  rw [Message.loss, decide_eq_false untrained, List.replicate_append_replicate] at size ⊢
  rw [List.length_replicate] at size
  rw [size]

/-- Where a message starts to count, and for how long. -/
theorem loss_trained {m : Message} (named : header "assistant" = assistantHeader) (trained : m.Trained) :
    (m.loss header).map Bool.toNat =
      List.replicate (assistantHeader.length + thinkLength m.content) 0 ++
        List.replicate (m.content.length - thinkLength m.content + (endMarker.length + 1)) 1 := by
  rw [Message.loss, decide_eq_true trained, trained.1, named, List.map_append, List.map_replicate, List.map_replicate]
  rfl

/-- The turn with its loss masked. -/
def silent (t : Turn) : Message := { toTurn := t, stepLossMask := some 0 }

theorem silent_step (t : Turn) : (silent t).stepLossMask.getD 1 ≠ 1 := (by decide : (0 : Int) ≠ 1)

theorem map_silent (turns : List Turn) : (turns.map silent).map Message.toTurn = turns := by
  rw [List.map_map]
  exact List.map_id turns

theorem spanEnd_append (done text : List Char) (endPos : Nat) :
    spanEnd (done ++ text) (done.length + endPos) = done.length + spanEnd text endPos := by
  unfold spanEnd
  dsimp only
  rw [Nat.add_assoc, List.getElem?_append_right (Nat.le_add_right ..), Nat.add_sub_cancel_left]
  split
  · rfl
  · rfl

theorem spanEnd_append_left {text : List Char} (more : List Char) {endPos : Nat}
    (inside : endPos + endMarker.length < text.length) : spanEnd (text ++ more) endPos = spanEnd text endPos := by
  unfold spanEnd
  dsimp only
  rw [List.getElem?_append_left inside]

theorem spanEnd_le (text : List Char) (endPos : Nat) : spanEnd text endPos ≤ endPos + endMarker.length + 1 := by
  unfold spanEnd
  dsimp only
  split
  · exact Nat.le_refl _
  · exact Nat.le_succ _

theorem le_spanEnd (text : List Char) (endPos : Nat) : endPos + endMarker.length ≤ spanEnd text endPos := by
  unfold spanEnd
  dsimp only
  split
  · exact Nat.le_succ _
  · exact Nat.le_refl _

/-- Where the searches for an assistant message end, whatever follows it. -/
theorem find_message {m : Message} (named : header "assistant" = assistantHeader) (assistant : m.role = "assistant")
    (between : List Char) : ∃ headerPos endPos, ∀ more,
      find assistantHeader (between ++ m.render header ++ more) = some headerPos ∧
      findFrom endMarker (between ++ m.render header ++ more) (headerPos + assistantHeader.length) = some endPos ∧
      endPos + endMarker.length < (between ++ m.render header).length := by
  have shape : between ++ m.render header = (between ++ (assistantHeader ++ (m.content ++ endMarker))) ++ ['\n'] := by
    simp [Turn.render, assistant, named]
  obtain ⟨headerPos, head, early⟩ := @find_occurring _ _ assistantHeader (between ++ assistantHeader) (m.content ++ endMarker)
    (List.suffix_append ..).isInfix
  rw [List.append_assoc] at head
  rw [shape]
  generalize body_eq : between ++ (assistantHeader ++ (m.content ++ endMarker)) = body at head
  have occurs : assistantHeader <:+: body := body_eq ▸ List.infix_append' ..
  -- the end marker of the message is still to come
  have ends : endMarker <:+: body.drop (headerPos + assistantHeader.length) := by
    rw [← body_eq, ← List.append_assoc, List.drop_append_of_le_length early]
    exact ((List.suffix_append m.content endMarker).trans (List.suffix_append ..)).isInfix
  have some : 0 < endMarker.length := by decide
  have fits := ends.length_le
  obtain ⟨n, tail, short⟩ := find_occurring [] ends
  rw [List.append_nil] at tail
  rw [List.length_drop] at fits short
  refine ⟨headerPos, headerPos + assistantHeader.length + n, fun more => ⟨?_, ?_, ?_⟩⟩
  · rw [List.append_assoc, find_append_occurring _ occurs, head]
  · rw [List.append_assoc, findFrom, List.drop_append_of_le_length (by omega), find_append_occurring _ ends, tail]
    rfl
  · rw [List.length_append, List.length_singleton]
    omega

/-- An assistant message that should not be trained leaves the mask, and moves the cursor. -/
theorem markMessage_untrained {m : Message} (named : header "assistant" = assistantHeader) (assistant : m.role = "assistant")
    (step : m.stepLossMask.getD 1 ≠ 1) (done between more : List Char) (charMask : List Nat) :
    ∃ skipped, between ++ m.render header = skipped ++ leftOf (between ++ m.render header) ∧
      markMessage (done ++ (between ++ (m.render header ++ more))) (done.length, charMask) m =
        .ok ((done ++ skipped).length, charMask) := by
  obtain ⟨headerPos, endPos, found⟩ := find_message named assistant between
  obtain ⟨head, tail, inside⟩ := found more
  have left : leftOf (between ++ m.render header) =
      (between ++ m.render header).drop (spanEnd (between ++ m.render header) endPos) := by
    obtain ⟨head, tail, -⟩ := found []
    rw [List.append_nil] at head tail
    unfold leftOf
    rw [head]
    dsimp only
    rw [tail]
  refine ⟨(between ++ m.render header).take (spanEnd (between ++ m.render header) endPos), ?_, ?_⟩
  · rw [left, List.take_append_drop]
  · have within := spanEnd_le (between ++ m.render header) endPos
    rw [← List.append_assoc between]
    have head' : findFrom assistantHeader (done ++ (between ++ m.render header ++ more)) done.length =
        some (done.length + headerPos) := by
      rw [findFrom_append, head]
      rfl
    have tail' : findFrom endMarker (done ++ (between ++ m.render header ++ more))
        (done.length + headerPos + assistantHeader.length) = some (done.length + endPos) := by
      rw [Nat.add_assoc, findFrom_append_add, tail]
      rfl
    rw [markMessage_of_found assistant head' tail', if_neg step, spanEnd_append, spanEnd_append_left more inside,
      List.length_append, List.length_take, Nat.min_eq_left (by omega)]

/-- A clean message leaves nothing. -/
theorem leftOf_clean {m : Message} (named : header "assistant" = assistantHeader) (assistant : m.role = "assistant")
    (between : List Char) (absent : ¬assistantHeader <:+: between) (absent' : ¬endMarker <:+: m.content) :
    leftOf (between ++ m.render header) = [] := by
  have run := markMessage_clean (m := silent m.toTurn) named assistant [] between [] [] absent absent'
  obtain ⟨skipped, shape, run'⟩ := markMessage_untrained (m := silent m.toTurn) named assistant (silent_step _) [] between [] []
  have same := congrArg Prod.fst (Except.ok.inj (run.symm.trans run'))
  have whole := congrArg List.length shape
  simp only [List.nil_append, List.length_append] at same whole
  change between ++ m.render header = skipped ++ leftOf (between ++ m.render header) at shape
  change _ = skipped.length + (leftOf (between ++ m.render header)).length at whole
  exact List.eq_nil_of_length_eq_zero (by omega)

/-- **Where the searches find the messages, the loop marks the characters that count.** -/
theorem marks_run (named : header "assistant" = assistantHeader) (messages : List Message) (done between : List Char)
    (before : List Nat) (size : before.length = (done ++ between).length) (found : Found header between messages) :
    ∃ cursor, messages.foldlM (markMessage (done ++ (between ++ render header (messages.map Message.toTurn))))
      (done.length, before ++ List.replicate (render header (messages.map Message.toTurn)).length 0) =
        .ok (cursor, before ++ (loss header messages).map Bool.toNat) := by
  induction messages generalizing done between before with
  | nil => exact ⟨done.length, by simp [render, loss]; rfl⟩
  | cons m messages ih =>
    rw [List.map_cons, render_cons, loss_cons, List.foldlM_cons]
    rw [Found] at found
    by_cases assistant : m.role = "assistant"
    · rw [if_neg (not_not.2 assistant)] at found
      by_cases step : m.stepLossMask.getD 1 = 1
      · rw [if_neg (not_not.2 step)] at found
        obtain ⟨absent, absent', found⟩ := found
        have length : (m.render header).length = assistantHeader.length + thinkLength m.content +
            (m.content.length - thinkLength m.content + (endMarker.length + 1)) := by
          rw [← length_loss header m, Message.loss, assistant, named]
          simp
        have mask : fill ((done ++ between).length + (assistantHeader.length + thinkLength m.content))
              ((done ++ between).length + (assistantHeader.length + thinkLength m.content) +
                (m.content.length - thinkLength m.content + (endMarker.length + 1)))
              (before ++ List.replicate (m.render header ++ render header (messages.map Message.toTurn)).length 0) =
            (before ++ (m.loss header).map Bool.toNat) ++
              List.replicate (render header (messages.map Message.toTurn)).length 0 := by
          rw [← size, List.length_append, length, fill_zeros, loss_trained named ⟨assistant, step⟩, List.append_assoc,
            List.append_assoc]
        rw [markMessage_clean named assistant done between _ _ absent absent', if_pos step, mask, Py.ok_bind]
        have next := ih (done ++ (between ++ m.render header)) [] (before ++ (m.loss header).map Bool.toNat)
          (by simp [length_loss, size]; omega) found
        simpa only [List.append_assoc, List.nil_append, List.map_append] using next
      · rw [if_pos step] at found
        obtain ⟨skipped, shape, run⟩ := markMessage_untrained named assistant step done between
          (render header (messages.map Message.toTurn))
          (before ++ List.replicate (m.render header ++ render header (messages.map Message.toTurn)).length 0)
        have next := ih (done ++ skipped) (leftOf (between ++ m.render header)) (before ++ (m.loss header).map Bool.toNat)
          (by rw [List.append_assoc, ← shape]; simp [length_loss, size]; omega) found
        rw [List.append_assoc done, ← List.append_assoc skipped, ← shape,
          loss_untrained fun trained => step trained.2, List.map_replicate] at next
        have longer : (m.render header ++ render header (messages.map Message.toTurn)).length =
            (m.render header).length + (render header (messages.map Message.toTurn)).length := List.length_append
        rw [run, Py.ok_bind, longer, ← List.replicate_append_replicate, loss_untrained fun trained => step trained.2,
          List.map_append, List.map_replicate]
        simpa only [List.append_assoc, Bool.toNat_false] using next
    · rw [if_pos assistant] at found
      have untrained : ¬m.Trained := fun trained => assistant trained.1
      have next := ih done (between ++ m.render header) (before ++ (m.loss header).map Bool.toNat)
        (by simp [length_loss, size]; omega) found
      rw [loss_untrained untrained, List.map_replicate] at next
      rw [markMessage, if_pos assistant, Py.ok_bind, List.length_append, ← List.replicate_append_replicate,
        loss_untrained untrained, List.map_append, List.map_replicate]
      simpa only [List.append_assoc, Bool.toNat_false] using next

/-! ## Finding them elsewhere -/

/-- What a turn of the loop has done if it returns. -/
theorem markMessage_cases {renderedText : List Char} {state state' : Nat × List Nat} {m : Message}
    (run : markMessage renderedText state m = .ok state') :
    m.role ≠ "assistant" ∧ state' = state ∨
      ∃ headerPos endPos, m.role = "assistant" ∧ findFrom assistantHeader renderedText state.1 = some headerPos ∧
        findFrom endMarker renderedText (headerPos + assistantHeader.length) = some endPos ∧
        state' = (spanEnd renderedText endPos,
          if m.stepLossMask.getD 1 = 1 then
            fill (maskStart renderedText (headerPos + assistantHeader.length)) (spanEnd renderedText endPos) state.2
          else state.2) := by
  by_cases assistant : m.role = "assistant"
  · cases head : findFrom assistantHeader renderedText state.1 with
    | none =>
      rw [markMessage, if_neg (not_not.2 assistant), head] at run
      cases run
    | some headerPos =>
      cases tail : findFrom endMarker renderedText (headerPos + assistantHeader.length) with
      | none =>
        rw [markMessage, if_neg (not_not.2 assistant), head] at run
        dsimp only at run
        rw [tail] at run
        cases run
      | some endPos =>
        exact .inr ⟨headerPos, endPos, assistant, rfl, tail,
          (Except.ok.inj ((markMessage_of_found assistant head tail).symm.trans run)).symm⟩
  · rw [markMessage, if_pos assistant] at run
    exact .inl ⟨assistant, (Except.ok.inj run).symm⟩

theorem markMessage_length {renderedText : List Char} {state state' : Nat × List Nat} {m : Message}
    (run : markMessage renderedText state m = .ok state') : state'.2.length = state.2.length := by
  obtain ⟨-, rfl⟩ | ⟨headerPos, endPos, -, -, -, rfl⟩ := markMessage_cases run
  · rfl
  · dsimp only
    split
    · exact length_fill ..
    · rfl

theorem run_length {renderedText : List Char} {state state' : Nat × List Nat} {messages : List Message}
    (run : messages.foldlM (markMessage renderedText) state = .ok state') : state'.2.length = state.2.length := by
  induction messages generalizing state with
  | nil => rw [← Except.ok.inj run]
  | cons m messages ih =>
    obtain ⟨mid, first, rest⟩ := Py.bind_eq_ok.1 run
    rw [ih rest, markMessage_length first]

theorem le_maskStart (renderedText : List Char) (contentStart : Nat) : contentStart ≤ maskStart renderedText contentStart := by
  unfold maskStart
  split
  · exact Nat.le_add_right ..
  · exact Nat.le_refl _

theorem le_of_findFrom {old s : List Char} {start n : Nat} (found : findFrom old s start = some n) : start ≤ n := by
  obtain ⟨k, -, rfl⟩ := Option.map_eq_some_iff.1 found
  exact Nat.le_add_right ..

/-- What later turns leave: the mask before the header that is searched next, and what is marked already. -/
structure Keeps (state state' : Nat × List Nat) : Prop where
  cursor : state.1 ≤ state'.1
  earlier : ∀ pos : Nat, pos < state.1 + assistantHeader.length → state'.2[pos]? = state.2[pos]?
  marked : ∀ pos : Nat, state.2[pos]? = some 1 → state'.2[pos]? = some 1

theorem Keeps.refl (state : Nat × List Nat) : Keeps state state := ⟨Nat.le_refl _, fun _ _ => rfl, fun _ one => one⟩

theorem Keeps.trans {state₁ state₂ state₃ : Nat × List Nat} (first : Keeps state₁ state₂) (second : Keeps state₂ state₃) :
    Keeps state₁ state₃ := by
  have cursor := first.cursor
  refine ⟨cursor.trans second.cursor, fun pos early => ?_, fun pos one => second.marked pos (first.marked pos one)⟩
  rw [second.earlier pos (by omega), first.earlier pos early]

theorem markMessage_keeps {renderedText : List Char} {state state' : Nat × List Nat} {m : Message}
    (run : markMessage renderedText state m = .ok state') : Keeps state state' := by
  obtain ⟨-, rfl⟩ | ⟨headerPos, endPos, -, head, tail, rfl⟩ := markMessage_cases run
  · exact .refl _
  · have here := le_of_findFrom head
    have after := le_of_findFrom tail
    have stop := le_spanEnd renderedText endPos
    have start := le_maskStart renderedText (headerPos + assistantHeader.length)
    refine ⟨by dsimp only; omega, fun pos early => ?_, fun pos one => ?_⟩
    · dsimp only
      split
      · rw [getElem?_fill]
        cases state.2[pos]? with
        | none => rfl
        | some value => rw [Option.map_some, if_neg (by omega)]
      · rfl
    · dsimp only
      split
      · rw [getElem?_fill, one, Option.map_some, ite_self]
      · exact one

/-- **What a run of the loop leaves.** -/
theorem run_keeps {renderedText : List Char} {state state' : Nat × List Nat} {messages : List Message}
    (run : messages.foldlM (markMessage renderedText) state = .ok state') : Keeps state state' := by
  induction messages generalizing state with
  | nil => exact Except.ok.inj run ▸ .refl _
  | cons m messages ih =>
    obtain ⟨mid, first, rest⟩ := Py.bind_eq_ok.1 run
    exact (markMessage_keeps first).trans (ih rest)

/-- The mask starts before the end marker that is found. -/
theorem maskStart_le {renderedText : List Char} {contentStart k : Nat}
    (ends : endMarker <+: (renderedText.drop contentStart).drop k) :
    maskStart renderedText contentStart ≤ contentStart + k := by
  unfold maskStart
  split
  · rename_i starts
    obtain ⟨tail, shape⟩ : thinkPrefix <+: renderedText.drop contentStart := by
      rw [List.prefix_iff_eq_take, starts]
    by_contra early
    -- the end marker would begin inside the thinking prefix
    have small : k < 8 := by
      change ¬contentStart + 8 ≤ contentStart + k at early
      omega
    rw [← shape] at ends
    obtain ⟨rest, same⟩ := ends
    interval_cases k <;> simp [thinkPrefix, endMarker] at same
  · omega

/-- Up to the end of its header nothing of a message counts. -/
theorem counts_early {m : Message} (seen : List Bool) (n : Nat) (rest : List Bool) {pos : Nat} (late : seen.length ≤ pos)
    (early : pos < seen.length + n + (header m.role).length) :
    (seen ++ (List.replicate n false ++ (m.loss header ++ rest)))[pos]? ≠ some true := by
  rw [List.getElem?_append_right late, Message.loss, List.append_assoc, ← List.append_assoc, List.replicate_append_replicate,
    List.getElem?_append_left (by simp; omega), List.getElem?_replicate]
  split
  · simp
  · simp

/-- What follows the thinking prefix of a message that should be trained counts. -/
theorem counts_late {m : Message} (trained : m.Trained) (seen : List Bool) (n : Nat) (rest : List Bool) {i : Nat}
    (late : thinkLength m.content ≤ i) (early : i < m.content.length + (endMarker.length + 1)) :
    (seen ++ (List.replicate n false ++ (m.loss header ++ rest)))[seen.length + n + ((header m.role).length + i)]? =
      some true := by
  have long := thinkLength_le m.content
  rw [List.getElem?_append_right (by omega), List.getElem?_append_right (by rw [List.length_replicate]; omega),
    List.length_replicate, Nat.add_assoc, Nat.add_sub_cancel_left, Nat.add_sub_cancel_left,
    List.getElem?_append_left (by rw [length_loss]; simp [Turn.render]; omega), Message.loss, decide_eq_true trained,
    List.getElem?_append_right (by simp; omega), List.getElem?_replicate, if_pos]
  rw [List.length_replicate]
  omega

/-- A header before its message: the loss of that message goes to the text that follows the header. -/
theorem misplaced_start {m : Message} (named : header "assistant" = assistantHeader) (trained : m.Trained)
    (done between rest : List Char) (seen more : List Bool) (charMask : List Nat) (size : seen.length = done.length)
    (length : charMask.length = (done ++ (between ++ (m.render header ++ rest))).length)
    (occurs : assistantHeader <:+: between) {mid result : Nat × List Nat}
    (run : markMessage (done ++ (between ++ (m.render header ++ rest))) (done.length, charMask) m = .ok mid)
    (keeps : Keeps mid result) :
    ¬Marks result.2 (seen ++ (List.replicate between.length false ++ (m.loss header ++ more))) := by
  obtain ⟨n, found, short⟩ := find_occurring (m.render header ++ rest) occurs
  obtain ⟨other, -⟩ | ⟨headerPos, endPos, -, head, tail, rfl⟩ := markMessage_cases run
  · exact absurd trained.1 other
  obtain rfl : done.length + n = headerPos := by
    rw [findFrom_append, found] at head
    exact Option.some.inj head
  obtain ⟨k, ends, rfl⟩ := Option.map_eq_some_iff.1 tail
  have ends := prefix_of_find ends
  have start := maskStart_le ends
  have fits := ends.length_le
  rw [List.length_drop, List.length_drop] at fits
  have long : 0 < endMarker.length := by decide
  have after := le_spanEnd (done ++ (between ++ (m.render header ++ rest))) (done.length + n + assistantHeader.length + k)
  have first := le_maskStart (done ++ (between ++ (m.render header ++ rest))) (done.length + n + assistantHeader.length)
  have early : maskStart (done ++ (between ++ (m.render header ++ rest))) (done.length + n + assistantHeader.length) <
      seen.length + between.length + (header m.role).length := by
    have think : thinkPrefix.length < assistantHeader.length := by decide
    have bound : ∀ text start, maskStart text start ≤ start + thinkPrefix.length := by
      intro text start
      unfold maskStart
      split <;> omega
    have := bound (done ++ (between ++ (m.render header ++ rest))) (done.length + n + assistantHeader.length)
    rw [trained.1, named]
    omega
  intro marks
  refine counts_early seen between.length more (by omega) early ((marks _).1 ⟨1, keeps.marked _ ?_, Nat.one_pos⟩)
  dsimp only
  rw [if_pos trained.2, getElem?_fill, List.getElem?_eq_getElem (by omega), Option.map_some, if_pos ⟨Nat.le_refl _, by omega⟩]

/-- An end marker in a content: what follows it in the message stays without loss. -/
theorem misplaced_end {m : Message} (named : header "assistant" = assistantHeader) (trained : m.Trained)
    (done between rest : List Char) (seen more : List Bool) (charMask : List Nat) (size : seen.length = done.length)
    (zeros : ∀ pos value : Nat, (done ++ between).length ≤ pos → charMask[pos]? = some value → value = 0)
    (absent : ¬assistantHeader <:+: between) (occurs : endMarker <:+: m.content) {mid result : Nat × List Nat}
    (run : markMessage (done ++ (between ++ (m.render header ++ rest))) (done.length, charMask) m = .ok mid)
    (keeps : Keeps mid result) :
    ¬Marks result.2 (seen ++ (List.replicate between.length false ++ (m.loss header ++ more))) := by
  have shape : m.render header ++ rest = assistantHeader ++ (m.content ++ (endMarker ++ ('\n' :: rest))) := by
    simp [Turn.render, trained.1, named]
  obtain ⟨n, found, short⟩ := find_occurring (endMarker ++ ('\n' :: rest)) occurs
  have head : findFrom assistantHeader (done ++ (between ++ (m.render header ++ rest))) done.length =
      some (done.length + between.length) := by
    have once : '<' ∉ assistantHeader.tail := by decide
    rw [shape, findFrom_append]
    exact congrArg _ (find_append _ once absent)
  have tail : findFrom endMarker (done ++ (between ++ (m.render header ++ rest)))
      (done.length + between.length + assistantHeader.length) =
      some (done.length + between.length + assistantHeader.length + n) := by
    have split : done ++ (between ++ (assistantHeader ++ (m.content ++ (endMarker ++ ('\n' :: rest))))) =
        (done ++ between ++ assistantHeader) ++ (m.content ++ (endMarker ++ ('\n' :: rest))) := by
      simp
    have start : done.length + between.length + assistantHeader.length = (done ++ between ++ assistantHeader).length := by
      simp
      omega
    rw [shape, split, start, findFrom_append, found]
    rfl
  have state := Except.ok.inj ((markMessage_of_found trained.1 head tail).symm.trans run)
  have low := le_spanEnd (done ++ (between ++ (m.render header ++ rest))) (done.length + between.length + assistantHeader.length + n)
  have high := spanEnd_le (done ++ (between ++ (m.render header ++ rest))) (done.length + between.length + assistantHeader.length + n)
  generalize spanEnd (done ++ (between ++ (m.render header ++ rest)))
    (done.length + between.length + assistantHeader.length + n) = cursor at state low high
  subst state
  have think : thinkLength m.content ≤ endMarker.length := by
    unfold thinkLength
    split <;> decide
  have some : 0 < endMarker.length := by decide
  intro marks
  -- the character at the cursor counts, and no turn marks it
  have counts := @counts_late header m trained seen between.length more
    (cursor - (done.length + between.length + assistantHeader.length)) (by omega) (by omega)
  have place : seen.length + between.length + ((header m.role).length +
      (cursor - (done.length + between.length + assistantHeader.length))) = cursor := by
    rw [trained.1, named]
    omega
  rw [place] at counts
  obtain ⟨value, here, positive⟩ := (marks _).2 counts
  have header : 0 < assistantHeader.length := by decide
  rw [keeps.earlier cursor (by dsimp only; omega)] at here
  dsimp only at here
  rw [if_pos trained.2, getElem?_fill] at here
  obtain ⟨old, zero, rfl⟩ := Option.map_eq_some_iff.1 here
  rw [if_neg (by omega), zeros cursor old (by rw [List.length_append]; omega) zero] at positive
  exact absurd positive (Nat.lt_irrefl 0)

/-- **Where a search for a message to train meets a marker elsewhere, the mask is wrong.** -/
theorem marks_wrong (named : header "assistant" = assistantHeader) (messages : List Message) (done between : List Char)
    (seen : List Bool) (charMask : List Nat) (size : seen.length = done.length)
    (length : charMask.length = (done ++ (between ++ render header (messages.map Message.toTurn))).length)
    (zeros : ∀ pos value : Nat, (done ++ between).length ≤ pos → charMask[pos]? = some value → value = 0)
    (lost : ¬Found header between messages) {result : Nat × List Nat}
    (run : messages.foldlM (markMessage (done ++ (between ++ render header (messages.map Message.toTurn))))
      (done.length, charMask) = .ok result) :
    ¬Marks result.2 (seen ++ (List.replicate between.length false ++ loss header messages)) := by
  induction messages generalizing done between seen charMask with
  | nil => exact absurd trivial lost
  | cons m messages ih =>
    rw [Found] at lost
    rw [List.map_cons, render_cons] at run length
    rw [loss_cons]
    obtain ⟨mid, first, later⟩ := Py.bind_eq_ok.1 run
    by_cases assistant : m.role = "assistant"
    · rw [if_neg (not_not.2 assistant)] at lost
      by_cases step : m.stepLossMask.getD 1 = 1
      · rw [if_neg (not_not.2 step)] at lost
        have trained : m.Trained := ⟨assistant, step⟩
        by_cases occurs : assistantHeader <:+: between
        · exact misplaced_start named trained done between _ seen _ charMask size length occurs first (run_keeps later)
        by_cases occurs' : endMarker <:+: m.content
        · exact misplaced_end named trained done between _ seen _ charMask size zeros occurs occurs' first (run_keeps later)
        rw [markMessage_clean named assistant done between _ _ occurs occurs', if_pos step] at first
        rw [← Except.ok.inj first] at later
        generalize filled_eq : fill _ _ charMask = filled at later
        have think := thinkLength_le m.content
        have rendered : (m.render header).length = assistantHeader.length + (m.content.length + (endMarker.length + 1)) := by
          simp [Turn.render, assistant, named]
        have wrong := ih (done ++ (between ++ m.render header)) [] (seen ++ (List.replicate between.length false ++ m.loss header))
          filled (by simp [length_loss, size]) (by rw [← filled_eq, length_fill, length]; simp) ?_
          (fun found => lost ⟨occurs, occurs', found⟩)
          (by simpa only [List.append_assoc, List.nil_append] using later)
        · simpa only [List.append_assoc, List.length_nil, List.replicate_zero, List.nil_append] using wrong
        · intro pos value after here
          rw [List.append_nil, List.length_append, List.length_append] at after
          rw [← filled_eq, getElem?_fill] at here
          obtain ⟨old, there, rfl⟩ := Option.map_eq_some_iff.1 here
          rw [List.length_append, if_neg (by omega)]
          exact zeros pos old (by rw [List.length_append]; omega) there
      · rw [if_pos step] at lost
        have untrained : ¬m.Trained := fun trained => step trained.2
        obtain ⟨skipped, shape, moved⟩ := markMessage_untrained named assistant step done between
          (render header (messages.map Message.toTurn)) charMask
        rw [moved] at first
        rw [← Except.ok.inj first] at later
        have split := congrArg List.length shape
        rw [List.length_append, List.length_append] at split
        have text : done ++ skipped ++ (leftOf (between ++ m.render header) ++ render header (messages.map Message.toTurn)) =
            done ++ (between ++ (m.render header ++ render header (messages.map Message.toTurn))) := by
          rw [List.append_assoc, ← List.append_assoc skipped, ← shape, List.append_assoc]
        have wrong := ih (done ++ skipped) (leftOf (between ++ m.render header)) (seen ++ List.replicate skipped.length false)
          charMask (by simp [size]) (by rw [length, text]) ?_ lost (by rwa [text])
        · rwa [List.append_assoc, ← List.append_assoc (List.replicate skipped.length false), List.replicate_append_replicate,
            ← split, ← List.replicate_append_replicate, List.append_assoc, ← loss_untrained untrained] at wrong
        · intro pos value after
          rw [List.length_append, List.length_append] at after
          exact zeros pos value (by rw [List.length_append]; omega)
    · rw [if_pos assistant] at lost
      have untrained : ¬m.Trained := fun trained => assistant trained.1
      rw [markMessage, if_pos assistant] at first
      rw [← Except.ok.inj first] at later
      have wrong := ih done (between ++ m.render header) seen charMask size (by rw [length, List.append_assoc])
        (fun pos value after => zeros pos value (by rw [List.length_append] at after ⊢; rw [List.length_append] at after; omega))
        lost (by rwa [List.append_assoc])
      rwa [List.length_append, ← List.replicate_append_replicate, List.append_assoc, ← loss_untrained untrained] at wrong

/-- **The searches find the messages whatever is trained if and only if the contents are clean.** -/
theorem clean_iff (named : header "assistant" = assistantHeader) (turns : List Turn) (between : List Char) :
    Clean header between turns ↔
      ∀ messages : List Message, messages.map Message.toTurn = turns → Found header between messages := by
  induction turns generalizing between with
  | nil =>
    refine iff_of_true trivial fun messages same => ?_
    rw [List.map_eq_nil_iff.1 same]
    trivial
  | cons t turns ih =>
    rw [Clean]
    by_cases assistant : t.role = "assistant"
    · rw [if_pos assistant]
      constructor
      · rintro ⟨absent, absent', clean⟩ messages same
        obtain ⟨m, messages, rfl, rfl, rfl⟩ := List.map_eq_cons_iff.1 same
        have rest := (ih []).1 clean messages rfl
        rw [Found, if_neg (not_not.2 assistant)]
        by_cases step : m.stepLossMask.getD 1 = 1
        · rw [if_neg (not_not.2 step)]
          exact ⟨absent, absent', rest⟩
        · rw [if_pos step, leftOf_clean named assistant between absent absent']
          exact rest
      · intro always
        -- train this turn, then leave it out
        have trained := always ({ toTurn := t, stepLossMask := none } :: turns.map silent) (by rw [List.map_cons, map_silent])
        rw [Found, if_neg (not_not.2 assistant), if_neg (not_not.2 (show (none : Option Int).getD 1 = 1 from rfl))] at trained
        obtain ⟨absent, absent', -⟩ := trained
        refine ⟨absent, absent', (ih []).2 fun messages same => ?_⟩
        have found := always (silent t :: messages) (by rw [List.map_cons, same]; rfl)
        rw [Found, if_neg (not_not.2 (show (silent t).role = "assistant" from assistant)), if_pos (silent_step t),
          leftOf_clean (m := silent t) named assistant between absent absent'] at found
        exact found
    · rw [if_neg assistant, ih]
      constructor
      · intro always messages same
        obtain ⟨m, messages, rfl, rfl, rfl⟩ := List.map_eq_cons_iff.1 same
        rw [Found, if_pos assistant]
        exact always messages rfl
      · intro always messages same
        have found := always (silent t :: messages) (by rw [List.map_cons, same]; rfl)
        rw [Found, if_pos (show (silent t).role ≠ "assistant" from assistant)] at found
        exact found

/-! ## The function -/

variable {τ : Type}

theorem genMultiTurnLossMaskQwen35_eq {tokenizer : Tokenizer τ} {messages : List Message} {tools : Option (List τ)}
    {offsets : List (Nat × Nat)} (faithful : Faithful header tokenizer messages tools offsets) :
    genMultiTurnLossMaskQwen35 tokenizer messages tools =
      (messages.foldlM (markMessage (render header (messages.map Message.toTurn)))
        (0, List.replicate (render header (messages.map Message.toTurn)).length 0)) >>= fun state =>
      (offsets.mapM (tokenLoss (state.2.scanl (· + ·) 0))) >>= fun lossMask =>
      .ok (tokenizer.inputIds (render header (messages.map Message.toTurn)), lossMask) := by
  unfold genMultiTurnLossMaskQwen35
  dsimp only
  rw [faithful.renders, faithful.mapping, faithful.agrees]
  dsimp only
  rw [if_neg (not_not.2 rfl)]
  rfl

theorem length_render (messages : List Message) :
    (render header (messages.map Message.toTurn)).length = (loss header messages).length := by
  induction messages with
  | nil => rfl
  | cons m messages ih => rw [List.map_cons, render_cons, loss_cons, List.length_append, List.length_append, ih, length_loss]

theorem exact_of_found (named : header "assistant" = assistantHeader) {tokenizer : Tokenizer τ} {messages : List Message}
    {tools : Option (List τ)} {offsets : List (Nat × Nat)} (faithful : Faithful header tokenizer messages tools offsets)
    (found : Found header [] messages) :
    Exact header messages offsets (genMultiTurnLossMaskQwen35 tokenizer messages tools) := by
  obtain ⟨cursor, run⟩ := marks_run named messages [] [] [] rfl found
  simp only [List.nil_append, List.length_nil] at run
  have length : ((loss header messages).map Bool.toNat).length = (render header (messages.map Message.toTurn)).length := by
    rw [List.length_map, length_render]
  obtain ⟨lossMask, tokens, all⟩ := tokens_spec (marks_toNat (loss header messages)) (length ▸ faithful.tiles)
  refine ⟨tokenizer.inputIds (render header (messages.map Message.toTurn)), lossMask, ?_, ?_, all⟩
  · rw [genMultiTurnLossMaskQwen35_eq faithful, run, Py.ok_bind, tokens, Py.ok_bind]
  · rw [faithful.tokens, all.length_eq]

/-- A tokenizer with a token for each character. -/
def charTokenizer (header : String → List Char) (τ : Type) : Tokenizer τ where
  applyChatTemplate := fun messages _ => render header (messages.map Message.toTurn)
  applyChatTemplateIds := fun messages _ => (render header (messages.map Message.toTurn)).map Char.toNat
  inputIds := fun text => text.map Char.toNat
  offsetMapping := fun text => some ((List.range text.length).map fun i => (i, i + 1))

theorem tiles_chars (lo n : Nat) : Tiles lo ((List.range' lo n).map fun i => (i, i + 1)) (lo + n) := by
  induction n generalizing lo with
  | zero => rfl
  | succ n ih =>
    rw [List.range'_succ, List.map_cons, Nat.add_comm n 1, ← Nat.add_assoc]
    exact ⟨rfl, Nat.le_succ lo, ih (lo + 1)⟩

theorem charTokenizer_faithful (messages : List Message) (tools : Option (List τ)) :
    Faithful header (charTokenizer header τ) messages tools
      ((List.range (render header (messages.map Message.toTurn)).length).map fun i => (i, i + 1)) where
  renders := rfl
  agrees := rfl
  mapping := rfl
  tokens := by simp [charTokenizer]
  tiles := by
    have tiles := tiles_chars 0 (render header (messages.map Message.toTurn)).length
    rwa [← List.range_eq_range', Nat.zero_add] at tiles

theorem forall₂_getElem? {α β : Type} {R : α → β → Prop} {xs : List α} {ys : List β} (all : List.Forall₂ R xs ys) {i : Nat}
    {x : α} (here : xs[i]? = some x) : ∃ y, ys[i]? = some y ∧ R x y := by
  induction all generalizing i with
  | nil => cases here
  | cons head _ ih =>
    cases i with
    | zero => exact ⟨_, rfl, Option.some.inj here ▸ head⟩
    | succ i => exact ih here

theorem overlaps_char (counts : List Bool) (i : Nat) : Overlaps counts (i, i + 1) ↔ counts[i]? = some true := by
  constructor
  · rintro ⟨pos, lo, hi, here⟩
    obtain rfl : pos = i := by dsimp only at lo hi; omega
    exact here
  · intro here
    exact ⟨i, Nat.le_refl i, Nat.lt_succ_self i, here⟩

/-- Tokens of one character show the mask of the characters. -/
theorem marks_of_chars {charMask : List Nat} {counts : List Bool} (length : charMask.length = counts.length)
    {lossMask : List Nat} (run : ((List.range counts.length).map fun i => (i, i + 1)).mapM
      (tokenLoss (charMask.scanl (· + ·) 0)) = .ok lossMask)
    (all : List.Forall₂ (fun span value => (value = 0 ∨ value = 1) ∧ (value = 1 ↔ Overlaps counts span))
      ((List.range counts.length).map fun i => (i, i + 1)) lossMask) : Marks charMask counts := by
  have own : Marks charMask (charMask.map fun value => decide (0 < value)) := by
    intro pos
    rw [List.getElem?_map]
    cases charMask[pos]? <;> simp
  have tiles := tiles_chars 0 counts.length
  rw [← List.range_eq_range', Nat.zero_add, ← length] at tiles
  obtain ⟨lossMask', run', all'⟩ := tokens_spec own tiles
  rw [length, run] at run'
  obtain rfl := Except.ok.inj run'
  intro pos
  rw [own pos]
  by_cases inside : pos < counts.length
  · have here : ((List.range counts.length).map fun i => (i, i + 1))[pos]? = some (pos, pos + 1) := by
      rw [List.getElem?_map, List.getElem?_range inside]
      rfl
    obtain ⟨value, got, -, iff⟩ := forall₂_getElem? all here
    obtain ⟨value', got', -, iff'⟩ := forall₂_getElem? (length ▸ all') here
    obtain rfl := Option.some.inj (got.symm.trans got')
    rw [← overlaps_char, ← overlaps_char, ← iff, ← iff']
  · rw [List.getElem?_eq_none (by simp; omega), List.getElem?_eq_none (by omega)]

/-- Tokens of one character show what the searches miss. -/
theorem not_exact_of_lost (named : header "assistant" = assistantHeader) (tools : Option (List τ)) {messages : List Message}
    (lost : ¬Found header [] messages) :
    ¬Exact header messages ((List.range (render header (messages.map Message.toTurn)).length).map fun i => (i, i + 1))
      (genMultiTurnLossMaskQwen35 (charTokenizer header τ) messages tools) := by
  rintro ⟨tokenIds, lossMask, result, -, all⟩
  rw [genMultiTurnLossMaskQwen35_eq (charTokenizer_faithful messages tools)] at result
  obtain ⟨state, run, result⟩ := Py.bind_eq_ok.1 result
  obtain ⟨lossMask', tokens, result⟩ := Py.bind_eq_ok.1 result
  obtain rfl : lossMask' = lossMask := congrArg Prod.snd (Except.ok.inj result)
  have length := run_length run
  rw [List.length_replicate, length_render] at length
  rw [length_render] at tokens all
  refine marks_wrong named messages [] [] [] _ rfl (List.length_replicate ..) ?_ lost run (marks_of_chars length tokens all)
  intro pos value _ here
  exact (List.mem_replicate.1 (List.mem_of_getElem? here)).2

/-- **The mask covers the trained messages, whatever the tokenizer, if and only if the searches find them.** For all
messages to train at once: if and only if no assistant header occurs before its message and no end marker in an assistant
message. -/
theorem span_mask_iff (named : header "assistant" = assistantHeader) (tools : Option (List τ)) :
    (∀ messages : List Message, (∀ (tokenizer : Tokenizer τ) (offsets : List (Nat × Nat)),
      Faithful header tokenizer messages tools offsets →
      Exact header messages offsets (genMultiTurnLossMaskQwen35 tokenizer messages tools)) ↔ Found header [] messages) ∧
    ∀ turns : List Turn,
      (∀ messages : List Message, messages.map Message.toTurn = turns → ∀ (tokenizer : Tokenizer τ) (offsets : List (Nat × Nat)),
        Faithful header tokenizer messages tools offsets →
        Exact header messages offsets (genMultiTurnLossMaskQwen35 tokenizer messages tools)) ↔ Clean header [] turns := by
  have each (messages : List Message) : (∀ (tokenizer : Tokenizer τ) (offsets : List (Nat × Nat)),
      Faithful header tokenizer messages tools offsets →
      Exact header messages offsets (genMultiTurnLossMaskQwen35 tokenizer messages tools)) ↔ Found header [] messages := by
    constructor
    · intro always
      by_contra lost
      exact not_exact_of_lost named tools lost (always _ _ (charTokenizer_faithful messages tools))
    · intro found tokenizer offsets faithful
      exact exact_of_found named faithful found
  refine ⟨each, fun turns => ?_⟩
  rw [clean_iff named]
  exact forall₂_congr fun messages _ => each messages

/-- `<|im_start|>`, the role and a newline. -/
def imHeader (role : String) : List Char :=
  ['<', '|', 'i', 'm', '_', 's', 't', 'a', 'r', 't', '|', '>'] ++ (role.toList ++ ['\n'])

/-- A question and its answer. -/
def answered : List Turn :=
  [{ role := "user", content := ['h', 'i'] }, { role := "assistant", content := thinkPrefix ++ ['y', 'o'] }]

theorem answered_clean : Clean imHeader [] answered := ⟨by decide, by decide, trivial⟩

/-- An answer with an end marker that should not be trained, and one that should. -/
def cutShort : List Message :=
  [{ role := "assistant", content := endMarker ++ ['n', 'o'], stepLossMask := some 0 },
    { role := "user", content := ['h', 'i'], stepLossMask := none },
    { role := "assistant", content := ['y', 'o'], stepLossMask := none }]

theorem cutShort_found : Found imHeader [] cutShort := ⟨by decide +kernel, by decide, trivial⟩

/-- Any messages of the first conversation can be trained, and the last of the second. -/
theorem span_mask_answered : (∀ messages : List Message, messages.map Message.toTurn = answered →
    ∀ (tokenizer : Tokenizer Unit) (offsets : List (Nat × Nat)), Faithful imHeader tokenizer messages none offsets →
      Exact imHeader messages offsets (genMultiTurnLossMaskQwen35 tokenizer messages none)) ∧
    ∀ (tokenizer : Tokenizer Unit) (offsets : List (Nat × Nat)), Faithful imHeader tokenizer cutShort none offsets →
      Exact imHeader cutShort offsets (genMultiTurnLossMaskQwen35 tokenizer cutShort none) :=
  have iff := @span_mask_iff imHeader Unit (by decide) none
  ⟨(iff.2 answered).2 answered_clean, (iff.1 cutShort).2 cutShort_found⟩

/-- A user who quotes the header of the assistant. -/
def quoted : List Message :=
  [{ role := "user", content := assistantHeader ++ ['n', 'o'], stepLossMask := none },
    { role := "assistant", content := ['y', 'o'], stepLossMask := none }]

/-- The quoted header draws the loss of the answer to the user's words. -/
theorem quoted_header_trained :
    ¬Exact imHeader quoted ((List.range (render imHeader (quoted.map Message.toTurn)).length).map fun i => (i, i + 1))
      (genMultiTurnLossMaskQwen35 (charTokenizer imHeader Unit) quoted none) := by
  apply not_exact_of_lost
  · decide
  · rintro ⟨absent, -⟩
    exact absent ⟨imHeader "user", ['n', 'o'] ++ (endMarker ++ ['\n']), by simp [Turn.render]⟩

end SlimeBoard.LossMask
