import SlimeBoard.Lib.PyDict
import SlimeBoard.Lib.Words

/-!
# Conversations with images, videos and audio

`_build_messages` splits the content of each message at the placeholders of the media a row has, and
puts the row's items, in order, in their places. Every split gives the content back. A row that has
no media at all leaves an empty pattern, which matches between any two characters: such a content
falls apart into its characters.
-/

namespace SlimeBoard.BuildMessages

/-- `MultimodalTypes`, with the fields of each type. -/
inductive MultimodalType where
  | image
  | video
  | audio
  deriving DecidableEq

namespace MultimodalType

def name : MultimodalType → String
  | image => "image"
  | video => "video"
  | audio => "audio"

def placeholder : MultimodalType → List Char
  | image => ['<', 'i', 'm', 'a', 'g', 'e', '>']
  | video => ['<', 'v', 'i', 'd', 'e', 'o', '>']
  | audio => ['<', 'a', 'u', 'd', 'i', 'o', '>']

def all : List MultimodalType := [image, video, audio]

def get (name : String) : Option MultimodalType := all.find? (·.name = name)

theorem name_injective {t t' : MultimodalType} (same : t.name = t'.name) : t = t' := by
  cases t <;> cases t' <;> first | rfl | exact absurd same (by decide)

theorem placeholder_injective {t t' : MultimodalType} (same : t.placeholder = t'.placeholder) : t = t' := by
  cases t <;> cases t' <;> first | rfl | exact absurd same (by decide)

theorem placeholder_ne_nil (t : MultimodalType) : t.placeholder ≠ [] := by
  cases t <;> exact List.cons_ne_nil _ _

theorem get_eq_some {name : String} {t : MultimodalType} : get name = some t ↔ t.name = name := by
  constructor
  · intro found
    simpa using List.find?_some found
  · rintro rfl
    cases t <;> rfl

end MultimodalType

variable {μ : Type}

/-- A part of a content: `{"type": "text", "text": t}`, or an item under the name of its type. -/
inductive Part (μ : Type) where
  | text (t : List Char)
  | media (type : MultimodalType) (item : μ)
  deriving DecidableEq

/-- What `message["content"]` can be. `other` is neither a string nor a list. -/
inductive Content (μ : Type) where
  | str (s : List Char)
  | parts (ps : List (Part μ))
  | other
  deriving DecidableEq

structure Message (μ : Type) where
  role : String
  content : Content μ
  deriving DecidableEq

inductive Prompt (μ : Type) where
  | str (s : List Char)
  | messages (ms : List (Message μ))
  deriving DecidableEq

/-- A row of the data set: what `data.get` finds under a key, read as a prompt or as a list of items. -/
structure Row (μ : Type) where
  prompts : Dict String (Prompt μ)
  media : Dict String (List μ)

/-- `multimodals`: the type of each placeholder, with the items that are left. -/
abbrev Multimodals (μ : Type) := Dict (List Char) (MultimodalType × List μ)

/-- The entry of one configured key, if the row has data for it. -/
def addMultimodal (row : Row μ) (multimodals : Multimodals μ) (key : Σ _ : String, String) : Multimodals μ :=
  match MultimodalType.get key.1, row.media.lookup key.2 with
  | some mt, some multimodalData => multimodals.insert mt.placeholder (mt, multimodalData)
  | _, _ => multimodals

def collectMultimodals (row : Row μ) (multimodalKeys : Dict String String) : Multimodals μ :=
  multimodalKeys.entries.foldl (addMultimodal row) ∅

/-- `re.split` at any of `words`, keeping them. Without words the pattern is empty and matches before
every character and at the end. -/
def reSplit (words : List (List Char)) (s : List Char) : List (List Char) :=
  if words = [] then [] :: [] :: (s.flatMap (fun c => [[c], []]) ++ [[]]) else Words.split words s

/-- The parts of one content, and what is left of the items. -/
def contentList (multimodals : Multimodals μ) : List (List Char) → Py (List (Part μ) × Multimodals μ)
  | [] => .ok ([], multimodals)
  | segment :: segments =>
    if segment = [] then contentList multimodals segments
    else match multimodals.lookup segment with
      | some (_, []) => .error .assertionError
      | some (mt, item :: content) => do
        let (parts, left) ← contentList (multimodals.insert segment (mt, content)) segments
        return (.media mt item :: parts, left)
      | none => do
        let (parts, left) ← contentList multimodals segments
        return (.text segment :: parts, left)

/-- `for message in prompt`, with the pattern of `words`. -/
def rewriteMessages (words : List (List Char)) (multimodals : Multimodals μ) :
    List (Message μ) → Py (List (Message μ) × Multimodals μ)
  | [] => .ok ([], multimodals)
  | message :: prompt =>
    match message.content with
    | .str s => do
      let (parts, left) ← contentList multimodals (reSplit words s)
      let (rest, left) ← rewriteMessages words left prompt
      return ({ message with content := .parts parts } :: rest, left)
    | .parts _ => do
      let (rest, left) ← rewriteMessages words multimodals prompt
      return (message :: rest, left)
    | .other => .error .valueError

/-- The part of `_build_messages` for a prompt that is a list of messages, or absent. -/
def insertMedia (row : Row μ) (multimodalKeys : Option (Dict String String)) (prompt : Option (List (Message μ))) :
    Py (Option (Prompt μ)) :=
  match multimodalKeys with
  | none => .ok (prompt.map .messages)
  | some keys =>
    if keys.entries = [] then .ok (prompt.map .messages)
    else match prompt with
      | none => .error .typeError
      | some ms => do
        let multimodals := collectMultimodals row keys
        let (rewritten, left) ← rewriteMessages multimodals.keys multimodals ms
        pyAssert (left.entries.all fun remaining => decide (remaining.2.2.length = 0))
        return some (.messages rewritten)

def buildMessages (row : Row μ) (promptKey : String) (asConversation : Bool)
    (multimodalKeys : Option (Dict String String)) : Py (Option (Prompt μ)) :=
  match row.prompts.lookup promptKey with
  | some (.str s) =>
    if !asConversation then .ok (some (.str s))
    else insertMedia row multimodalKeys (some [{ role := "user", content := .str s }])
  | some (.messages ms) => insertMedia row multimodalKeys (some ms)
  | none => insertMedia row multimodalKeys none

/-! ## What the rewriting should give -/

/-- The messages whose contents are split, if there are any. -/
def Row.conversation (row : Row μ) (promptKey : String) (asConversation : Bool) : Option (List (Message μ)) :=
  match row.prompts.lookup promptKey with
  | some (.str s) => if asConversation then some [{ role := "user", content := .str s }] else none
  | some (.messages ms) => some ms
  | none => none

/-- The items that the row has of a type under the configured key, if it has data there. -/
def Row.given (row : Row μ) (multimodalKeys : Dict String String) (t : MultimodalType) : Option (List μ) :=
  (multimodalKeys.lookup t.name).bind row.media.lookup

namespace Part

def render : Part μ → List Char
  | text t => t
  | media type _ => type.placeholder

/-- The item of a part, if it is one of type `t`. -/
def item (t : MultimodalType) : Part μ → Option μ
  | text _ => none
  | media type item => if type = t then some item else none

/-- Two texts do not stand next to each other. -/
def Apart : Part μ → Part μ → Prop
  | text _, text _ => False
  | _, _ => True

end Part

/-- `parts` are a content `s` split at the placeholders of the types that have data. -/
structure Split (given : MultimodalType → Option (List μ)) (s : List Char) (parts : List (Part μ)) : Prop where
  rendered : parts.flatMap Part.render = s
  apart : parts.IsChain Part.Apart
  texts : ∀ t, .text t ∈ parts → t ≠ [] ∧ ∀ type, (given type).isSome → ¬type.placeholder <:+: t

/-- The parts of a rewritten message. -/
def Message.parts (m : Message μ) : List (Part μ) :=
  match m.content with
  | .parts ps => ps
  | _ => []

/-- Every content is split, and the items of each type are used in order, each once in the conversation. -/
structure Rewritten (given : MultimodalType → Option (List μ)) (messages messages' : List (Message μ)) : Prop where
  split : List.Forall₂ (fun m m' => m'.role = m.role ∧ ∃ s parts, m.content = .str s ∧ m'.content = .parts parts ∧
    Split given s parts) messages messages'
  used : ∀ t, (messages'.flatMap Message.parts).filterMap (Part.item t) = (given t).getD []

/-- The row's messages come out rewritten, or an assertion on the counts fails. -/
def Meets (given : MultimodalType → Option (List μ)) (messages : List (Message μ)) (result : Py (Option (Prompt μ))) :
    Prop :=
  result = .error .assertionError ∨
    ∃ messages', result = .ok (some (.messages messages')) ∧ Rewritten given messages messages'

/-! ## The items that are left -/

/-- The dictionary holds, under its placeholder, the items `left` of each type that has data. -/
def Holds (multimodals : Multimodals μ) (left : MultimodalType → Option (List μ)) : Prop :=
  ∀ p t items, multimodals.lookup p = some (t, items) ↔ p = t.placeholder ∧ left t = some items

/-- The words of the pattern are the placeholders of the types that have data. -/
def Pattern (words : List (List Char)) (left : MultimodalType → Option (List μ)) : Prop :=
  ∀ w, w ∈ words ↔ ∃ t : MultimodalType, w = t.placeholder ∧ (left t).isSome

variable {multimodals : Multimodals μ} {left given : MultimodalType → Option (List μ)} {words : List (List Char)}

theorem Holds.insert (holds : Holds multimodals left) (t : MultimodalType) (items : List μ) :
    Holds (multimodals.insert t.placeholder (t, items)) (Function.update left t (some items)) := by
  intro p t' items'
  rw [Dict.lookup_insert]
  by_cases here : p = t.placeholder
  · subst here
    rw [if_pos rfl, Option.some.injEq, Prod.mk.injEq]
    constructor
    · rintro ⟨rfl, rfl⟩
      exact ⟨rfl, Function.update_self ..⟩
    · rintro ⟨same, has⟩
      obtain rfl := MultimodalType.placeholder_injective same
      rw [Function.update_self] at has
      exact ⟨rfl, Option.some.inj has⟩
  · rw [if_neg here, holds p t' items']
    refine and_congr_right fun same => ?_
    have other : t' ≠ t := fun h => here (h ▸ same)
    rw [Function.update_of_ne other]

theorem Holds.pattern (holds : Holds multimodals left) : Pattern multimodals.keys left := by
  intro w
  rw [Dict.mem_keys_iff]
  constructor
  · rintro ⟨⟨t, items⟩, found⟩
    obtain ⟨same, has⟩ := (holds w t items).1 found
    exact ⟨t, same, has ▸ rfl⟩
  · rintro ⟨t, same, has⟩
    obtain ⟨items, has⟩ := Option.isSome_iff_exists.1 has
    exact ⟨(t, items), (holds w t items).2 ⟨same, has⟩⟩

theorem Pattern.full (pattern : Pattern words left) : [] ∉ words := by
  intro mem
  obtain ⟨t, same, -⟩ := (pattern []).1 mem
  exact t.placeholder_ne_nil same.symm

/-- One configured key adds the data of its type. -/
theorem addMultimodal_holds (row : Row μ) (holds : Holds multimodals left) (key : Σ _ : String, String)
    (new : ∀ t : MultimodalType, t.name = key.1 → left t = none) :
    Holds (addMultimodal row multimodals key) fun t => if t.name = key.1 then row.media.lookup key.2 else left t := by
  unfold addMultimodal
  cases type : MultimodalType.get key.1 with
  | none =>
    have unnamed : ∀ t : MultimodalType, t.name ≠ key.1 := by
      intro t same
      rw [MultimodalType.get_eq_some.2 same] at type
      exact Option.some_ne_none t type
    simpa only [if_neg (unnamed _)] using holds
  | some mt =>
    have named := MultimodalType.get_eq_some.1 type
    cases data : row.media.lookup key.2 with
    | none =>
      have same : (fun t : MultimodalType => if t.name = key.1 then none else left t) = left := by
        funext t
        split
        · rename_i h
          exact (new t h).symm
        · rfl
      rw [same]
      exact holds
    | some items =>
      have same : (fun t : MultimodalType => if t.name = key.1 then some items else left t) =
          Function.update left mt (some items) := by
        funext t
        by_cases here : t = mt
        · subst here
          rw [if_pos named, Function.update_self]
        · have other : t.name ≠ key.1 := fun h => here (MultimodalType.name_injective (h.trans named.symm))
          rw [if_neg other, Function.update_of_ne here]
      rw [same]
      exact holds.insert mt items

theorem foldl_holds (row : Row μ) (keys : List (Σ _ : String, String)) (nodup : keys.NodupKeys)
    (holds : Holds multimodals left) (new : ∀ t : MultimodalType, t.name ∈ keys.keys → left t = none) :
    Holds (keys.foldl (addMultimodal row) multimodals) fun t =>
      if t.name ∈ keys.keys then (keys.dlookup t.name).bind row.media.lookup else left t := by
  induction keys generalizing multimodals left with
  | nil => simpa using holds
  | cons key keys ih =>
    obtain ⟨fresh, nodup⟩ := List.nodupKeys_cons.1 nodup
    have step := addMultimodal_holds row holds key fun t same => new t (by simp [same])
    have rest := ih nodup step fun t mem => by
      have other : t.name ≠ key.1 := fun same => fresh (same ▸ mem)
      rw [if_neg other]
      exact new t (by simp [mem])
    rw [List.foldl_cons]
    convert rest using 2 with t
    by_cases here : t.name = key.1
    · rw [here, List.dlookup_cons_eq]
      simp [fresh]
    · rw [List.dlookup_cons_ne _ _ here]
      simp [here]

theorem collectMultimodals_holds (row : Row μ) (keys : Dict String String) :
    Holds (collectMultimodals row keys) (row.given keys) := by
  have empty : Holds (∅ : Multimodals μ) fun _ => none := by
    intro p t items
    simp
  have same : row.given keys = fun t =>
      if t.name ∈ keys.entries.keys then (keys.entries.dlookup t.name).bind row.media.lookup else none := by
    funext t
    unfold Row.given AList.lookup
    split
    · rfl
    · rename_i absent
      rw [List.dlookup_eq_none.2 absent]
      rfl
  rw [same]
  exact foldl_holds row keys.entries keys.nodupKeys empty fun _ _ => rfl

/-! ## One content -/

/-- The part for a piece of text, if it is not empty. -/
def textPart (text : List Char) : List (Part μ) := if text = [] then [] else [.text text]

theorem contentList_text (holds : Holds multimodals left) (pattern : Pattern words left) {text : List Char}
    (clear : Words.Clear words text) (segments : List (List Char)) :
    contentList multimodals (text :: segments) =
      (contentList multimodals segments).map fun (parts, left) => (textPart text ++ parts, left) := by
  rw [contentList]
  unfold textPart
  by_cases empty : text = []
  · rw [if_pos empty, if_pos empty]
    cases contentList multimodals segments <;> rfl
  · have absent : multimodals.lookup text = none := by
      cases found : multimodals.lookup text with
      | none => rfl
      | some entry =>
        obtain ⟨same, has⟩ := (holds text entry.1 entry.2).1 found
        exact absurd (List.infix_refl text) (clear text ((pattern text).2 ⟨entry.1, same, has ▸ rfl⟩))
    rw [if_neg empty, if_neg empty, absent]
    cases contentList multimodals segments <;> rfl

/-- What one content makes of the items: its split, and what is left of them. -/
structure Filled (left : MultimodalType → Option (List μ)) (s : List Char) (parts : List (Part μ))
    (left' : MultimodalType → Option (List μ)) : Prop where
  split : Split left s parts
  used : ∀ t, (left t).getD [] = parts.filterMap (Part.item t) ++ (left' t).getD []
  same : ∀ t, (left' t).isSome = (left t).isSome

theorem Split.congr {s : List Char} {parts : List (Part μ)} (same : ∀ t, (left t).isSome = (given t).isSome)
    (split : Split left s parts) : Split given s parts where
  rendered := split.rendered
  apart := split.apart
  texts := fun t mem => ⟨(split.texts t mem).1, fun type has => (split.texts t mem).2 type ((same type).trans has)⟩

theorem textPart_split (pattern : Pattern words left) {text : List Char} (clear : Words.Clear words text) :
    Split left text (textPart text) := by
  unfold textPart
  by_cases empty : text = []
  · subst empty
    exact ⟨rfl, List.isChain_nil, by simp⟩
  · rw [if_neg empty]
    refine ⟨by simp [Part.render], List.isChain_singleton _, ?_⟩
    intro t mem
    obtain rfl := Part.text.inj (List.mem_singleton.1 mem)
    exact ⟨empty, fun type has => clear _ ((pattern _).2 ⟨type, rfl, has⟩)⟩

theorem textPart_item (t : MultimodalType) (text : List Char) :
    (textPart text : List (Part μ)).filterMap (Part.item t) = [] := by
  unfold textPart
  split
  · rfl
  · rfl

/-- A text and an item before a split. -/
theorem Split.cons {text rest : List Char} {parts : List (Part μ)} (t : MultimodalType) (item : μ)
    (first : Split left text (textPart text)) (split : Split left rest parts) :
    Split left (text ++ (t.placeholder ++ rest)) (textPart text ++ .media t item :: parts) where
  rendered := by
    rw [List.flatMap_append, first.rendered, List.flatMap_cons, split.rendered]
    rfl
  apart := by
    have tail : (.media t item :: parts).IsChain Part.Apart := by
      apply List.isChain_cons.2 ⟨fun _ _ => trivial, split.apart⟩
    unfold textPart
    split
    · exact tail
    · refine List.isChain_cons.2 ⟨fun next mem => ?_, tail⟩
      obtain rfl := Option.some.inj mem
      trivial
  texts := by
    intro t' mem
    rcases List.mem_append.1 mem with early | late
    · exact first.texts t' early
    · rcases List.mem_cons.1 late with media | late
      · cases media
      · exact split.texts t' late

/-- **A cut content takes its items from the front of what is left, or an assertion fails.** -/
theorem contentList_spec {s : List Char} {segments : List (List Char)} (cut : Words.Cut words s segments)
    (holds : Holds multimodals left) (pattern : Pattern words left) :
    contentList multimodals segments = .error .assertionError ∨
      ∃ parts multimodals' left', contentList multimodals segments = .ok (parts, multimodals') ∧
        Holds multimodals' left' ∧ Filled left s parts left' := by
  induction cut generalizing multimodals left with
  | @last text clear =>
    refine .inr ⟨textPart text, multimodals, left, ?_, holds, textPart_split pattern clear, fun t => ?_, fun _ => rfl⟩
    · rw [contentList_text holds pattern clear, contentList]
      simp [Except.map]
    · rw [textPart_item, List.nil_append]
  | @word text w rest segments clear mem cut ih =>
    obtain ⟨t, rfl, has⟩ := (pattern w).1 mem
    obtain ⟨items, has⟩ := Option.isSome_iff_exists.1 has
    have found := (holds t.placeholder t items).2 ⟨rfl, has⟩
    rw [contentList_text holds pattern clear, contentList, if_neg t.placeholder_ne_nil, found]
    cases items with
    | nil => exact .inl rfl
    | cons item content =>
      have same : ∀ t', (Function.update left t (some content) t').isSome = (left t').isSome := by
        intro t'
        by_cases here : t' = t
        · subst here
          rw [Function.update_self, has]
          rfl
        · rw [Function.update_of_ne here]
      have pattern' : Pattern words (Function.update left t (some content)) := by
        intro w
        rw [pattern w]
        simp only [same]
      dsimp only
      rcases ih (holds.insert t content) pattern' with failed | ⟨parts, multimodals', left', run, holds', filled⟩
      · rw [failed]
        exact .inl rfl
      · rw [run]
        refine .inr ⟨textPart text ++ .media t item :: parts, multimodals', left', rfl, holds', ?_, fun t' => ?_, fun t' => ?_⟩
        · exact (textPart_split pattern clear).cons t item (filled.split.congr same)
        · have rest := filled.used t'
          rw [List.filterMap_append, textPart_item, List.nil_append]
          by_cases here : t' = t
          · subst here
            rw [Function.update_self] at rest
            rw [has, List.filterMap_cons]
            simpa [Part.item] using rest
          · rw [Function.update_of_ne here] at rest
            rw [List.filterMap_cons]
            simpa [Part.item, Ne.symm here] using rest
        · exact (filled.same t').trans (same t')

/-! ## The conversation -/

/-- Every message has a string for its content. -/
def Plain (messages : List (Message μ)) : Prop := ∀ m ∈ messages, ∃ s, m.content = .str s

/-- **Over a conversation each content is split, and the items are used in order.** -/
theorem rewriteMessages_spec {messages : List (Message μ)} (plain : Plain messages) (full : words ≠ [])
    (holds : Holds multimodals left) (pattern : Pattern words left) :
    rewriteMessages words multimodals messages = .error .assertionError ∨
      ∃ messages' multimodals' left', rewriteMessages words multimodals messages = .ok (messages', multimodals') ∧
        Holds multimodals' left' ∧
        List.Forall₂ (fun m m' => m'.role = m.role ∧ ∃ s parts, m.content = .str s ∧ m'.content = .parts parts ∧
          Split left s parts) messages messages' ∧
        ∀ t, (left t).getD [] = (messages'.flatMap Message.parts).filterMap (Part.item t) ++ (left' t).getD [] := by
  induction messages generalizing multimodals left with
  | nil => exact .inr ⟨[], multimodals, left, rfl, holds, .nil, fun _ => rfl⟩
  | cons m messages ih =>
    obtain ⟨s, content⟩ := plain m (List.mem_cons_self ..)
    have cut : Words.Cut words s (reSplit words s) := by
      rw [reSplit, if_neg full]
      exact Words.split_cut pattern.full s
    rw [rewriteMessages, content]
    dsimp only
    rcases contentList_spec cut holds pattern with failed | ⟨parts, multimodals', left', run, holds', filled⟩
    · rw [failed]
      exact .inl rfl
    · have pattern' : Pattern words left' := by
        intro w
        rw [pattern w]
        simp only [filled.same]
      rw [run, Py.ok_bind]
      rcases ih (fun m mem => plain m (List.mem_cons_of_mem _ mem)) holds' pattern' with
        failed | ⟨messages', multimodals'', left'', run', holds'', split, used⟩
      · dsimp only
        rw [failed]
        exact .inl rfl
      · dsimp only
        rw [run', Py.ok_bind]
        refine .inr ⟨{ m with content := .parts parts } :: messages', multimodals'', left'', rfl, holds'', ?_, fun t => ?_⟩
        · refine .cons ⟨rfl, s, parts, content, rfl, filled.split⟩ (split.imp fun m m' => ?_)
          rintro ⟨role, s', parts', before, after, cut'⟩
          exact ⟨role, s', parts', before, after, cut'.congr filled.same⟩
        · rw [filled.used t, used t, List.flatMap_cons, List.filterMap_append, List.append_assoc]
          rfl

/-! ## The empty pattern -/

/-- A content in its characters. -/
def scatter (m : Message μ) : Message μ :=
  match m.content with
  | .str s => { m with content := .parts (s.map fun c => .text [c]) }
  | _ => m

theorem contentList_scatter (absent : ∀ p, multimodals.lookup p = none) (s : List Char) :
    contentList multimodals (s.flatMap (fun c => [[c], []]) ++ [[]]) =
      .ok (s.map fun c => .text [c], multimodals) := by
  induction s with
  | nil => rfl
  | cons c s ih =>
    rw [List.flatMap_cons, List.append_assoc, List.cons_append, List.cons_append, List.nil_append, contentList,
      if_neg (List.cons_ne_nil c []), absent, contentList, if_pos rfl, ih]
    rfl

theorem rewriteMessages_scatter {messages : List (Message μ)} (plain : Plain messages)
    (absent : ∀ p, multimodals.lookup p = none) :
    rewriteMessages [] multimodals messages = .ok (messages.map scatter, multimodals) := by
  induction messages with
  | nil => rfl
  | cons m messages ih =>
    obtain ⟨s, content⟩ := plain m (List.mem_cons_self ..)
    have parts : contentList multimodals (reSplit [] s) = .ok (s.map fun c => .text [c], multimodals) := by
      rw [reSplit, if_pos rfl, contentList, if_pos rfl, contentList, if_pos rfl]
      exact contentList_scatter absent s
    rw [rewriteMessages, content]
    dsimp only
    rw [parts, Py.ok_bind]
    dsimp only
    rw [ih fun m mem => plain m (List.mem_cons_of_mem _ mem), Py.ok_bind, List.map_cons, scatter, content]
    rfl

/-- The characters of a content are a split of it if there is at most one. -/
theorem scatter_split_iff (bare : ∀ t, left t = none) (s : List Char) :
    Split left s (s.map fun c => .text [c]) ↔ s.length ≤ 1 := by
  constructor
  · intro split
    rcases s with _ | ⟨a, _ | ⟨b, s⟩⟩
    · exact Nat.zero_le 1
    · exact Nat.le_refl 1
    · exact absurd split.apart fun chain => (List.isChain_cons_cons.1 chain).1
  · intro short
    rcases s with _ | ⟨a, _ | ⟨b, s⟩⟩
    · exact ⟨rfl, List.isChain_nil, by simp⟩
    · refine ⟨rfl, List.isChain_singleton _, fun t mem => ?_⟩
      obtain rfl := Part.text.inj (List.mem_singleton.1 mem)
      refine ⟨List.cons_ne_nil a [], fun type has => ?_⟩
      rw [bare type] at has
      cases has
    · simp at short

theorem scatter_rewritten_iff (bare : ∀ t, left t = none) {messages : List (Message μ)} (plain : Plain messages) :
    Rewritten left messages (messages.map scatter) ↔ ∀ m ∈ messages, ∀ s, m.content = .str s → s.length ≤ 1 := by
  constructor
  · intro rewritten m mem s content
    have all := (List.forall₂_map_right_iff.1 rewritten.split)
    obtain ⟨-, s', parts, before, after, split⟩ := List.forall₂_same.1 all m mem
    obtain rfl := Content.str.inj (content.symm.trans before)
    rw [scatter, content] at after
    obtain rfl := Content.parts.inj after
    exact (scatter_split_iff bare s).1 split
  · intro short
    constructor
    · rw [List.forall₂_map_right_iff, List.forall₂_same]
      intro m mem
      obtain ⟨s, content⟩ := plain m mem
      rw [scatter, content]
      exact ⟨rfl, s, _, rfl, rfl, (scatter_split_iff bare s).2 (short m mem s content)⟩
    · intro t
      rw [bare t, Option.getD_none, List.filterMap_eq_nil_iff]
      intro part mem
      obtain ⟨m', mem', part_mem⟩ := List.mem_flatMap.1 mem
      obtain ⟨m, m_mem, rfl⟩ := List.mem_map.1 mem'
      obtain ⟨s, content⟩ := plain m m_mem
      rw [scatter, content] at part_mem
      obtain ⟨c, -, rfl⟩ := List.mem_map.1 part_mem
      rfl

/-! ## The function -/

theorem buildMessages_eq {row : Row μ} {promptKey : String} {asConversation : Bool}
    {multimodalKeys : Option (Dict String String)} {messages : List (Message μ)}
    (heard : row.conversation promptKey asConversation = some messages) :
    buildMessages row promptKey asConversation multimodalKeys = insertMedia row multimodalKeys (some messages) := by
  unfold Row.conversation at heard
  unfold buildMessages
  cases found : row.prompts.lookup promptKey with
  | none => simp [found] at heard
  | some prompt =>
    rw [found] at heard
    cases prompt with
    | messages ms => rw [Option.some.inj heard]
    | str s =>
      cases asConversation with
      | false => cases heard
      | true => rw [← Option.some.inj heard]; rfl

/-- The last check passes if and only if no item is left. -/
theorem remaining_iff (holds : Holds multimodals left) :
    (multimodals.entries.all fun remaining => decide (remaining.2.2.length = 0)) = true ↔ ∀ t, (left t).getD [] = [] := by
  rw [List.all_eq_true]
  constructor
  · intro all t
    cases has : left t with
    | none => rfl
    | some items =>
      have mem := AList.mem_lookup_iff.1 ((holds t.placeholder t items).2 ⟨rfl, has⟩)
      simpa using all _ mem
  · rintro empty ⟨p, t, items⟩ mem
    obtain ⟨-, has⟩ := (holds p t items).1 (AList.mem_lookup_iff.2 mem)
    have done := empty t
    rw [has] at done
    simpa using done

theorem insertMedia_meets_iff {row : Row μ} {keys : Dict String String} (configured : keys.entries ≠ [])
    {messages : List (Message μ)} (plain : Plain messages) :
    Meets (row.given keys) messages (insertMedia row (some keys) (some messages)) ↔
      (∃ t, (row.given keys t).isSome) ∨ ∀ m ∈ messages, ∀ s, m.content = .str s → s.length ≤ 1 := by
  have holds := collectMultimodals_holds row keys
  have pattern := holds.pattern
  unfold insertMedia
  dsimp only
  rw [if_neg configured]
  by_cases data : ∃ t, (row.given keys t).isSome
  · refine iff_of_true ?_ (.inl data)
    obtain ⟨t, has⟩ := data
    have full : (collectMultimodals row keys).keys ≠ [] := List.ne_nil_of_mem ((pattern _).2 ⟨t, rfl, has⟩)
    rcases rewriteMessages_spec plain full holds pattern with
      failed | ⟨messages', multimodals', left', run, holds', split, used⟩
    · rw [failed]
      exact .inl rfl
    · rw [run, Py.ok_bind]
      dsimp only
      by_cases done : ∀ t, (left' t).getD [] = []
      · rw [(remaining_iff holds').2 done]
        refine .inr ⟨messages', rfl, split, fun t => ?_⟩
        rw [used t, done t, List.append_nil]
      · rw [Bool.eq_false_iff.2 (mt (remaining_iff holds').1 done)]
        exact .inl rfl
  · have bare : ∀ t, row.given keys t = none := by
      intro t
      cases has : row.given keys t with
      | none => rfl
      | some items => exact absurd ⟨t, has ▸ rfl⟩ data
    have absent : ∀ p, (collectMultimodals row keys).lookup p = none := by
      intro p
      cases found : (collectMultimodals row keys).lookup p with
      | none => rfl
      | some entry =>
        obtain ⟨-, has⟩ := (holds p entry.1 entry.2).1 found
        exact absurd ⟨entry.1, has ▸ rfl⟩ data
    have empty : (collectMultimodals row keys).keys = [] := by
      rw [List.eq_nil_iff_forall_not_mem]
      rintro w mem
      obtain ⟨t, -, has⟩ := (pattern w).1 mem
      exact data ⟨t, has⟩
    have passes := (remaining_iff holds).2 fun t => by rw [bare t]; rfl
    rw [empty, rewriteMessages_scatter plain absent, Py.ok_bind]
    dsimp only
    rw [passes, or_iff_right data, ← scatter_rewritten_iff bare plain]
    constructor
    · rintro (failed | ⟨messages', same, rewritten⟩)
      · cases failed
      · cases same
        exact rewritten
    · intro rewritten
      exact .inr ⟨messages.map scatter, rfl, rewritten⟩

/-- **Splitting gives every content back in order if and only if the row has data of some configured
type, or no content has two characters.** -/
theorem splits_content_iff {row : Row μ} {promptKey : String} {asConversation : Bool} {keys : Dict String String}
    (configured : keys.entries ≠ []) {messages : List (Message μ)} (plain : Plain messages)
    (heard : row.conversation promptKey asConversation = some messages) :
    Meets (row.given keys) messages (buildMessages row promptKey asConversation (some keys)) ↔
      (∃ t, (row.given keys t).isSome) ∨ ∀ m ∈ messages, ∀ s, m.content = .str s → s.length ≤ 1 := by
  rw [buildMessages_eq heard]
  exact insertMedia_meets_iff configured plain

/-- A row with one image, whose text asks for it. -/
def imageRow : Row Nat where
  prompts := AList.singleton "prompt" (.str (MultimodalType.image.placeholder ++ ['w', 'h', 'o', '?']))
  media := AList.singleton "images" [7]

/-- A row without media. -/
def textRow : Row Nat where
  prompts := AList.singleton "prompt" (.str ['h', 'i'])
  media := ∅

theorem splits_content_image :
    Meets (imageRow.given (AList.singleton "image" "images"))
      [{ role := "user", content := .str (MultimodalType.image.placeholder ++ ['w', 'h', 'o', '?']) }]
      (buildMessages imageRow "prompt" true (some (AList.singleton "image" "images"))) := by
  refine (splits_content_iff (List.cons_ne_nil _ _) ?_ rfl).2 (.inl ⟨.image, rfl⟩)
  rintro m mem
  obtain rfl := List.mem_singleton.1 mem
  exact ⟨_, rfl⟩

/-- The text of a row without media falls apart. -/
theorem text_scattered :
    ¬Meets (textRow.given (AList.singleton "image" "images")) [{ role := "user", content := .str ['h', 'i'] }]
      (buildMessages textRow "prompt" true (some (AList.singleton "image" "images"))) := by
  have heard : textRow.conversation "prompt" true = some [{ role := "user", content := .str ['h', 'i'] }] := rfl
  have plain : Plain [({ role := "user", content := .str ['h', 'i'] } : Message Nat)] := by
    intro m mem
    obtain rfl := List.mem_singleton.1 mem
    exact ⟨_, rfl⟩
  rw [buildMessages_eq heard, insertMedia_meets_iff (List.cons_ne_nil _ _) plain]
  rintro (⟨t, has⟩ | short)
  · cases t <;> cases has
  · exact absurd (short _ (List.mem_singleton_self _) ['h', 'i'] rfl) (by decide)

end SlimeBoard.BuildMessages
