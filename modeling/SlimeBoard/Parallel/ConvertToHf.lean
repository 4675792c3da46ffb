import SlimeBoard.Lib.Pairs
import SlimeBoard.Lib.Substring

/-!
# Pairing `q_a_proj` with `kv_a_proj_with_mqa`

`_convert_to_hf_core` keeps a tensor whose name contains one of the two words back until the
tensor with the other word in its place is converted, in a dictionary that outlives the call and
the pass. The converters of the model families are parameters.
-/

namespace SlimeBoard

open Pairs Substring

/-- A Python string. -/
abbrev Name := List Char

def qAProj : Name := "q_a_proj".toList

def kvAProjWithMqa : Name := "kv_a_proj_with_mqa".toList

variable {τ : Type}

/-- What a converter makes of one parameter. -/
abbrev Convert (τ : Type) := Name → τ → Py (List (Name × τ))

/-- The converters, at the arguments of the run. -/
structure Converters (τ : Type) where
  convertDeepseekv3ToHf : Convert τ
  convertGlm4moeToHf : Convert τ
  convertGlm4ToHf : Convert τ
  convertGptOssToHf : Convert τ
  convertQwen3moeToHf : Convert τ
  convertQwen3NextToHf : Convert τ
  convertQwen35ToHf : Convert τ
  convertQwen3vlToHf : Convert τ
  convertQwen2ToHf : Convert τ
  convertLlamaToHf : Convert τ
  convertMimoToHf : Convert τ

namespace Converters

/-- `word in model_name` -/
def named (word : String) (modelName : Name) : Bool := decide (word.toList <:+: modelName)

/-- The branches of `_convert_to_hf_core` on `model_name`. -/
def converted (converters : Converters τ) (modelName name : Name) (param : τ) : Py (List (Name × τ)) :=
  if named "glm4moelite" modelName || named "deepseekv3" modelName then converters.convertDeepseekv3ToHf name param
  else if named "glm4moe" modelName then converters.convertGlm4moeToHf name param
  else if named "glm4" modelName then converters.convertGlm4ToHf name param
  else if named "gpt_oss" modelName || named "gpt-oss" modelName || named "gptoss" modelName then
    converters.convertGptOssToHf name param
  else if named "qwen3moe" modelName then converters.convertQwen3moeToHf name param
  else if named "qwen3next" modelName then converters.convertQwen3NextToHf name param
  else if named "qwen3_5" modelName then converters.convertQwen35ToHf name param
  else if named "qwen3vl" modelName then converters.convertQwen3vlToHf name param
  else if named "qwen2" modelName || named "qwen3" modelName then converters.convertQwen2ToHf name param
  else if named "llama" modelName then converters.convertLlamaToHf name param
  else if named "mimo" modelName then converters.convertMimoToHf name param
  else .error .valueError

end Converters

/-- `_cached_tensors` -/
abbrev Cached (τ : Type) := Dict Name τ

/-- The branch for a name whose pair is `pairName`. -/
def pairUp (cached : Cached τ) (converted : Name × τ) (pairName : Name) : List (Name × τ) × Cached τ :=
  match cached.lookup pairName with
  | some v => ([converted, (pairName, v)], cached.erase pairName)
  | none => ([], cached.insert converted.1 converted.2)

/-- One turn of the loop over `old_converted_named_tensors`: what it appends, and the cache. -/
def compatible (cached : Cached τ) (converted : Name × τ) : List (Name × τ) × Cached τ :=
  if qAProj <:+: converted.1 then pairUp cached converted (replace qAProj kvAProjWithMqa converted.1)
  else if kvAProjWithMqa <:+: converted.1 then pairUp cached converted (replace kvAProjWithMqa qAProj converted.1)
  else ([converted], cached)

/-- The loop over `old_converted_named_tensors`. -/
def compatibleAll : Cached τ → List (Name × τ) → List (Name × τ) × Cached τ
  | cached, [] => ([], cached)
  | cached, converted :: rest =>
    let (emitted, cached) := compatible cached converted
    let (more, cached) := compatibleAll cached rest
    (emitted ++ more, cached)

/-- `_convert_to_hf_core(args, model_name, name, param)`, with the cache it finds and the cache it leaves. -/
def convertToHfCore (qLoraRank : Option Nat) (converters : Converters τ) (modelName : Name) (cached : Cached τ)
    (name : Name) (param : τ) : Py (List (Name × τ) × Cached τ) := do
  let convertedNamedTensors ← converters.converted modelName name param
  match qLoraRank with
  | some _ => .ok (compatibleAll cached convertedNamedTensors)
  | none => .ok (convertedNamedTensors, cached)

/-- The calls of one pass over the parameters, in their order. -/
def convertPass (qLoraRank : Option Nat) (converters : Converters τ) (modelName : Name) :
    Cached τ → List (Name × τ) → Py (List (List (Name × τ)) × Cached τ)
  | cached, [] => .ok ([], cached)
  | cached, (name, param) :: rest => do
    let (emitted, cached) ← convertToHfCore qLoraRank converters modelName cached name param
    let (more, cached) ← convertPass qLoraRank converters modelName cached rest
    .ok (emitted :: more, cached)

/-- Successive passes: what the calls of each emit, and the cache at its end. -/
def convertPasses (qLoraRank : Option Nat) (converters : Converters τ) (modelName : Name) :
    Cached τ → List (List (Name × τ)) → Py (List (List (List (Name × τ)) × Cached τ))
  | _, [] => .ok []
  | cached, pass :: rest => do
    let (emitted, cached) ← convertPass qLoraRank converters modelName cached pass
    let more ← convertPasses qLoraRank converters modelName cached rest
    .ok ((emitted, cached) :: more)

/-- The name of the tensor a tensor waits for. -/
def mateOf (name : Name) : Option Name :=
  if qAProj <:+: name then some (replace qAProj kvAProjWithMqa name)
  else if kvAProjWithMqa <:+: name then some (replace kvAProjWithMqa qAProj name)
  else none

theorem compatible_eq (cached : Cached τ) (converted : Name × τ) :
    compatible cached converted = receive mateOf cached converted := by
  unfold compatible receive mateOf pairUp
  split
  · rfl
  · split <;> rfl

theorem compatibleAll_eq (cached : Cached τ) (converted : List (Name × τ)) :
    compatibleAll cached converted =
      ((receiveAll mateOf cached converted).1.flatten, (receiveAll mateOf cached converted).2) := by
  induction converted generalizing cached with
  | nil => rfl
  | cons item rest ih =>
    simp only [compatibleAll, receiveAll, compatible_eq, ih, List.flatten_cons]

/-- The names a layer gives the two tensors, or their scales. -/
structure Site where
  before : Name
  after : Name
  clean : ∀ word ∈ [qAProj, kvAProjWithMqa], ¬word <:+: before ∧ ¬word <:+: after

namespace Site

def qName (site : Site) : Name := site.before ++ (qAProj ++ site.after)

def kvName (site : Site) : Name := site.before ++ (kvAProjWithMqa ++ site.after)

theorem q_clean (site : Site) : ¬qAProj <:+: site.before ∧ ¬qAProj <:+: site.after := site.clean _ (List.mem_cons_self ..)

theorem kv_clean (site : Site) : ¬kvAProjWithMqa <:+: site.before ∧ ¬kvAProjWithMqa <:+: site.after :=
  site.clean _ (List.mem_cons_of_mem _ (List.mem_singleton_self _))

theorem q_infix (site : Site) : qAProj <:+: site.qName :=
  (List.infix_append' ..)

theorem q_not_infix (site : Site) : ¬qAProj <:+: site.kvName :=
  have apart : Apart qAProj kvAProjWithMqa := by decide
  apart.not_infix site.q_clean.1 site.q_clean.2

theorem replace_q (site : Site) : replace qAProj kvAProjWithMqa site.qName = site.kvName :=
  replace_splice (a := 'q') (t := "_a_proj".toList) kvAProjWithMqa (by decide) site.q_clean.1 site.q_clean.2

theorem replace_kv (site : Site) : replace kvAProjWithMqa qAProj site.kvName = site.qName :=
  replace_splice (a := 'k') (t := "v_a_proj_with_mqa".toList) qAProj (by decide) site.kv_clean.1 site.kv_clean.2

/-- Each name of a layer makes the other. -/
theorem mateOf_qName (site : Site) : mateOf site.qName = some site.kvName := by
  rw [mateOf, if_pos site.q_infix, site.replace_q]

theorem mateOf_kvName (site : Site) : mateOf site.kvName = some site.qName := by
  have occurs : kvAProjWithMqa <:+: site.kvName := List.infix_append' ..
  rw [mateOf, if_neg site.q_not_infix, if_pos occurs, site.replace_kv]

theorem kvName_ne (site other : Site) : site.kvName ≠ other.qName := fun same => site.q_not_infix (same ▸ other.q_infix)

end Site

/-- A full conversion pass: every call returns, and the tensors converted are, in any order, the two
of each layer and others. -/
structure FullPass (converters : Converters τ) (modelName : Name) where
  params : List (Name × τ)
  converted : List (List (Name × τ))
  returns : List.Forall₂ (fun call named => converters.converted modelName call.1 call.2 = .ok named) params converted
  sites : List Site
  once : (sites.map Site.qName).Nodup
  others : List Name
  clean : ∀ word ∈ [qAProj, kvAProjWithMqa], ∀ name ∈ others, ¬word <:+: name
  names : (converted.flatten.map Prod.fst).Perm (sites.map Site.qName ++ sites.map Site.kvName ++ others)

/-- What a pass should emit, and leave in the cache: every tensor once, with the value of the pass, the
two of a layer in one call. -/
structure PassEmits {converters : Converters τ} {modelName : Name} (pass : FullPass converters modelName)
    (emitted : List (List (Name × τ))) (cached : Cached τ) : Prop where
  once : emitted.flatten.Perm pass.converted.flatten
  together : ∀ site ∈ pass.sites, ∃ call ∈ emitted, site.qName ∈ call.map Prod.fst ∧ site.kvName ∈ call.map Prod.fst
  nothing : cached = ∅

section

variable {converters : Converters τ} {modelName : Name}

theorem FullPass.mateOf_other (pass : FullPass converters modelName) {name : Name} (mem : name ∈ pass.others) :
    mateOf name = none := by
  have q := pass.clean qAProj (List.mem_cons_self ..) name mem
  have kv := pass.clean kvAProjWithMqa (List.mem_cons_of_mem _ (List.mem_singleton_self _)) name mem
  rw [mateOf, if_neg q, if_neg kv]

theorem FullPass.kv_once (pass : FullPass converters modelName) : (pass.sites.map Site.kvName).Nodup := by
  have back : pass.sites.map Site.qName = (pass.sites.map Site.kvName).map (replace kvAProjWithMqa qAProj) := by
    rw [List.map_map]
    exact List.map_congr_left fun site _ => site.replace_kv.symm
  exact List.Nodup.of_map _ (back ▸ pass.once)

/-- The names of a pass come in pairs. -/
theorem FullPass.mated (pass : FullPass converters modelName) : Mated mateOf (pass.converted.flatten.map Prod.fst) := by
  have layers (site : Site) (mem : site ∈ pass.sites) :
      site.qName ∈ pass.converted.flatten.map Prod.fst ∧ site.kvName ∈ pass.converted.flatten.map Prod.fst := by
    rw [pass.names.mem_iff, pass.names.mem_iff, List.mem_append, List.mem_append, List.mem_append, List.mem_append]
    exact ⟨Or.inl (Or.inl (List.mem_map_of_mem mem)), Or.inl (Or.inr (List.mem_map_of_mem mem))⟩
  have cases (name : Name) (mem : name ∈ pass.converted.flatten.map Prod.fst) (has : mateOf name ≠ none) :
      ∃ site ∈ pass.sites, name = site.qName ∨ name = site.kvName := by
    rw [pass.names.mem_iff, List.mem_append, List.mem_append] at mem
    rcases mem with (mem | mem) | mem
    · obtain ⟨site, here, rfl⟩ := List.mem_map.1 mem
      exact ⟨site, here, Or.inl rfl⟩
    · obtain ⟨site, here, rfl⟩ := List.mem_map.1 mem
      exact ⟨site, here, Or.inr rfl⟩
    · exact absurd (pass.mateOf_other mem) has
  refine ⟨fun name mem other has => ?_, ?_⟩
  · obtain ⟨site, here, rfl | rfl⟩ := cases name mem (by rw [has]; exact Option.some_ne_none _)
    · obtain rfl := Option.some.inj (site.mateOf_qName.symm.trans has)
      exact ⟨(layers site here).2, site.mateOf_kvName, site.kvName_ne site⟩
    · obtain rfl := Option.some.inj (site.mateOf_kvName.symm.trans has)
      exact ⟨(layers site here).1, site.mateOf_qName, (site.kvName_ne site).symm⟩
  · refine (pass.names.filter _).nodup_iff.2 ?_
    have lone : pass.others.filter (fun name => (mateOf name).isSome) = [] :=
      List.filter_eq_nil_iff.2 fun name mem => by simp [pass.mateOf_other mem]
    rw [List.filter_append, lone, List.append_nil]
    refine List.Nodup.filter _ (List.nodup_append.2 ⟨pass.once, pass.kv_once, fun q atQ kv atKv => ?_⟩)
    obtain ⟨site, _, rfl⟩ := List.mem_map.1 atQ
    obtain ⟨other, _, rfl⟩ := List.mem_map.1 atKv
    exact (other.kvName_ne site).symm

theorem together_flatten {mate : Name → Option Name} {emitted : List (List (Name × τ))}
    (each : ∀ some ∈ emitted, Together mate some) : Together mate emitted.flatten := by
  intro item mem other has
  obtain ⟨some, here, mem⟩ := List.mem_flatten.1 mem
  obtain ⟨v, found⟩ := each some here item mem other has
  exact ⟨v, List.mem_flatten_of_mem here found⟩

/-- The calls of a pass are the turns of one loop, cut at the calls. -/
theorem convertPass_eq (rank : Nat) (cached : Cached τ) {params : List (Name × τ)} {converted : List (List (Name × τ))}
    (returns : List.Forall₂ (fun call named => converters.converted modelName call.1 call.2 = .ok named) params converted) :
    ∃ emitted, convertPass (some rank) converters modelName cached params =
        .ok (emitted, (receiveAll mateOf cached converted.flatten).2) ∧
      emitted.flatten = (receiveAll mateOf cached converted.flatten).1.flatten ∧
      ((∀ some ∈ (receiveAll mateOf cached converted.flatten).1, Together mateOf some) →
        ∀ call ∈ emitted, Together mateOf call) := by
  induction returns generalizing cached with
  | nil => exact ⟨[], rfl, rfl, fun _ call mem => nomatch mem⟩
  | @cons call named params converted head _ ih =>
    obtain ⟨emitted, ran, same, together⟩ := ih (receiveAll mateOf cached named).2
    rw [List.flatten_cons, receiveAll_append]
    refine ⟨(receiveAll mateOf cached named).1.flatten :: emitted, ?_, ?_, fun each => ?_⟩
    · simp only [convertPass, convertToHfCore, head, compatibleAll_eq, Py.ok_bind, ran]
    · rw [List.flatten_cons, same, List.flatten_append]
    · rw [List.forall_mem_append] at each
      exact List.forall_mem_cons.2 ⟨together_flatten each.1, together each.2⟩

theorem FullPass.emits (rank : Nat) (pass : FullPass converters modelName) :
    ∃ emitted, convertPass (some rank) converters modelName ∅ pass.params = .ok (emitted, ∅) ∧ PassEmits pass emitted ∅ := by
  obtain ⟨nothing, all, each⟩ := receiveAll_empty pass.mated
  obtain ⟨emitted, ran, same, together⟩ := convertPass_eq rank ∅ pass.returns
  rw [nothing] at ran
  rw [← same] at all
  refine ⟨emitted, ran, all, fun site mem => ?_, rfl⟩
  have named : site.qName ∈ pass.converted.flatten.map Prod.fst := by
    rw [pass.names.mem_iff, List.append_assoc]
    exact List.mem_append_left _ (List.mem_map_of_mem mem)
  obtain ⟨item, came, named⟩ := List.mem_map.1 ((all.map Prod.fst).mem_iff.2 named)
  obtain ⟨call, here, inside⟩ := List.mem_flatten.1 came
  obtain ⟨v, mate⟩ := together each call here item inside site.kvName (named ▸ site.mateOf_qName)
  exact ⟨call, here, List.mem_map.2 ⟨item, inside, named⟩, List.mem_map.2 ⟨_, mate, rfl⟩⟩

/-- **Successive passes each emit every tensor once, pairs in one call, and leave nothing cached.** -/
theorem pairs_projections (rank : Nat) (passes : List (FullPass converters modelName)) :
    ∃ ran, convertPasses (some rank) converters modelName ∅ (passes.map FullPass.params) = .ok ran ∧
      List.Forall₂ (fun pass result => PassEmits pass result.1 result.2) passes ran := by
  induction passes with
  | nil => exact ⟨[], rfl, .nil⟩
  | cons pass passes ih =>
    obtain ⟨emitted, ran, emits⟩ := pass.emits rank
    obtain ⟨more, rest, holds⟩ := ih
    refine ⟨(emitted, ∅) :: more, ?_, .cons emits holds⟩
    simp only [List.map_cons, convertPasses, ran, Py.ok_bind, rest]

end

/-- The match of `before(\d+)\.(.+)` -/
def layerOf (before name : Name) : Option (Name × Name) :=
  let digits := (name.drop before.length).takeWhile Char.isDigit
  match decide (before <+: name), digits, name.drop (before.length + digits.length) with
  | true, _ :: _, '.' :: c :: rest => some (digits, c :: rest)
  | _, _, _ => none

/-- The parameters of a dense layer with latent attention, as `convert_deepseekv3_to_hf` names and splits them. -/
def denseDecoder (name : Name) (param : List Nat) : Py (List (Name × List Nat)) :=
  if name = "module.module.embedding.word_embeddings.weight".toList then .ok [("model.embed_tokens.weight".toList, param)]
  else
    match layerOf "module.module.decoder.layers.".toList name with
    | none => .error .valueError
    | some (layerIdx, rest) =>
      let named (word : String) : Name := "model.layers.".toList ++ layerIdx ++ word.toList
      if rest = "self_attention.linear_q_down_proj.weight".toList then .ok [(named ".self_attn.q_a_proj.weight", param)]
      else if rest = "self_attention.linear_kv_down_proj.weight".toList then
        .ok [(named ".self_attn.kv_a_proj_with_mqa.weight", param)]
      else if rest = "self_attention.linear_q_up_proj.layer_norm_weight".toList then
        .ok [(named ".self_attn.q_a_layernorm.weight", param)]
      else if rest = "mlp.linear_fc1.weight".toList then
        let half := (param.length + 1) / 2
        .ok [(named ".mlp.gate_proj.weight", param.take half), (named ".mlp.up_proj.weight", param.drop half)]
      else .error .valueError

/-- The same for the layers of multi-token prediction, which follow the `numLayers` layers of the decoder. -/
def denseDeepseekv3 (numLayers : Nat) : Convert (List Nat) := fun name param =>
  match layerOf "module.module.mtp.layers.".toList name with
  | none => denseDecoder name param
  | some (layerIdx, rest) =>
    let index := layerIdx.foldl (fun n c => 10 * n + (c.toNat - '0'.toNat)) 0 + numLayers
    denseDecoder ("module.module.decoder.layers.".toList ++ (toString index).toList ++ '.' ::
      replace "transformer_layer.".toList [] rest) param

/-- One family converts; no other is asked. -/
def onlyDeepseekv3 (numLayers : Nat) : Converters (List Nat) :=
  let raise : Convert (List Nat) := fun _ _ => .error .valueError
  ⟨denseDeepseekv3 numLayers, raise, raise, raise, raise, raise, raise, raise, raise, raise, raise⟩

/-- A decoder layer and a layer of multi-token prediction, whose pairs come interleaved. -/
def twoLayers : FullPass (onlyDeepseekv3 1) "deepseekv3".toList where
  params :=
    [("module.module.decoder.layers.0.self_attention.linear_q_down_proj.weight".toList, [1]),
      ("module.module.mtp.layers.0.transformer_layer.self_attention.linear_kv_down_proj.weight".toList, [2]),
      ("module.module.decoder.layers.0.mlp.linear_fc1.weight".toList, [3, 4]),
      ("module.module.decoder.layers.0.self_attention.linear_kv_down_proj.weight".toList, [5]),
      ("module.module.mtp.layers.0.transformer_layer.self_attention.linear_q_down_proj.weight".toList, [6])]
  converted :=
    [[("model.layers.0.self_attn.q_a_proj.weight".toList, [1])],
      [("model.layers.1.self_attn.kv_a_proj_with_mqa.weight".toList, [2])],
      [("model.layers.0.mlp.gate_proj.weight".toList, [3]), ("model.layers.0.mlp.up_proj.weight".toList, [4])],
      [("model.layers.0.self_attn.kv_a_proj_with_mqa.weight".toList, [5])],
      [("model.layers.1.self_attn.q_a_proj.weight".toList, [6])]]
  returns := .cons (by decide +kernel) (.cons (by decide +kernel) (.cons (by decide +kernel)
    (.cons (by decide +kernel) (.cons (by decide +kernel) .nil))))
  sites :=
    [⟨"model.layers.0.self_attn.".toList, ".weight".toList, by decide +kernel⟩,
      ⟨"model.layers.1.self_attn.".toList, ".weight".toList, by decide +kernel⟩]
  once := by decide +kernel
  others := ["model.layers.0.mlp.gate_proj.weight".toList, "model.layers.0.mlp.up_proj.weight".toList]
  clean := by decide +kernel
  names := by decide +kernel

/-- Two passes over the two layers. -/
theorem pairs_projections_two :
    ∃ ran, convertPasses (some 1536) (onlyDeepseekv3 1) "deepseekv3".toList ∅ [twoLayers.params, twoLayers.params] = .ok ran ∧
      List.Forall₂ (fun pass result => PassEmits pass result.1 result.2) [twoLayers, twoLayers] ran :=
  pairs_projections 1536 [twoLayers, twoLayers]

end SlimeBoard
