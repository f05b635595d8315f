import LayerKit.Ai

/-!
# The Two Loaders of a Configuration

`AiConfig::from_env` reads a configuration from the variables of a process, and
`extract_ai_config` takes one out of the arguments of a request. Both read each setting as an
optional text and drop what is blank, but not everywhere: `from_env` takes a blank model as it
is, and `extract_ai_config` takes an `api_protocol` that is no string for one that is absent.

## Main results

* `never_falls_back_iff`: when a protocol that is not understood rejects the block.
* `usable_configs_iff`: when what the loaders return is usable.
-/

open Json Text

namespace LayerKit

/-! ### Settings -/

/-- The protocol of a wire value, `none` for an unknown one. -/
def ApiProtocol.parse (value : String) : Option ApiProtocol :=
  match value with
  | "responses" => some .responses
  | "chat_completions" => some .chatCompletions
  | "anthropic_messages" => some .anthropicMessages
  | _ => none

/-- A text that is not blank. -/
def nonBlank (s : Option String) : Option String :=
  s.filter fun s => !isBlank s

/-- The protocol of a setting: the default without one, and `none` for an unknown one. -/
def selectProtocol (raw : Option String) : Option ApiProtocol :=
  match raw with
  | none => some .responses
  | some raw => ApiProtocol.parse (trim raw)

/-- What is left of a value is that value, which is not blank. -/
theorem nonBlank_eq_some {o : Option String} {s : String} :
    nonBlank o = some s ↔ o = some s ∧ isBlank s = false := by
  rw [nonBlank, Option.filter_eq_some_iff, Bool.not_eq_true']

/-- Nothing is left of a value that is absent or blank. -/
theorem nonBlank_eq_none {o : Option String} :
    nonBlank o = none ↔ ∀ s, o = some s → isBlank s = true := by
  rw [nonBlank, Option.filter_eq_none_iff]
  simp

/-- Blank values are left out once for all. -/
@[simp] theorem nonBlank_nonBlank (o : Option String) : nonBlank (nonBlank o) = nonBlank o := by
  rw [nonBlank, nonBlank, Option.filter_filter]
  simp

/-! ### The block of a request -/

/-- A member of the block that is a string and not blank. -/
def field (ai : Members) (name : String) : Option String :=
  nonBlank ((ai.lookup name).bind Value.asStr)

/-- The configuration of a block. -/
def blockConfig (ai : Value) : Option AiConfig := do
  let ai ← ai.asObject
  let apiProtocol ← selectProtocol (field ai "api_protocol")
  let apiKey ← field ai "api_key"
  let baseUrl ← field ai "base_url"
  let model ← field ai "model"
  pure {
    apiKey := apiKey
    baseUrl := baseUrl
    model := model
    maxOutputTokens := ((ai.lookup "max_output_tokens").bind Value.asU64).bind fun v =>
      if v.toNat < 2 ^ 32 then some v.toUInt32 else none
    apiProtocol := apiProtocol
    requestTimeoutSeconds := none }

/-- Remove the block from the arguments of a request and read it. -/
def extractAiConfig (arguments : Value) : Value × Option AiConfig :=
  match arguments with
  | .object ms => (.object (remove "ai" ms), (ms.lookup "ai").bind blockConfig)
  | v => (v, none)

/-- A member that is a string and not blank. -/
def Given (block : Members) (name s : String) : Prop :=
  block.lookup name = some (.string s) ∧ isBlank s = false

/-- A field is read exactly when the block gives it as a text that is not blank. -/
theorem field_eq_some {block : Members} {name s : String} :
    field block name = some s ↔ Given block name s := by
  rw [field, nonBlank_eq_some, Given]
  exact and_congr_left fun _ => Value.bind_asStr_eq_some

/-- **What a block is that configures**: it gives the required fields, and a known protocol. -/
theorem blockConfig_eq_some {ai : Value} {cfg : AiConfig} (h : blockConfig ai = some cfg) :
    ∃ block, ai = .object block ∧
      selectProtocol (field block "api_protocol") = some cfg.apiProtocol ∧
      Given block "api_key" cfg.apiKey ∧ Given block "base_url" cfg.baseUrl ∧
      Given block "model" cfg.model ∧ cfg.requestTimeoutSeconds = none := by
  simp only [blockConfig, bind, Option.bind_eq_some_iff, Option.pure_def, Option.some.injEq,
    Value.asObject_eq_some, field_eq_some] at h
  obtain ⟨block, rfl, protocol, hprotocol, key, hkey, url, hurl, model, hmodel, rfl⟩ := h
  exact ⟨block, rfl, hprotocol, hkey, hurl, hmodel, rfl⟩

/-- A block that is complete has a configuration, if a protocol is selected. -/
theorem blockConfig_of_given {block : Members} {protocol : ApiProtocol}
    (hprotocol : selectProtocol (field block "api_protocol") = some protocol)
    (hgiven : ∀ name ∈ ["api_key", "base_url", "model"], ∃ s, Given block name s) :
    ∃ cfg, blockConfig (.object block) = some cfg := by
  obtain ⟨key, hkey⟩ := hgiven "api_key" (by simp)
  obtain ⟨url, hurl⟩ := hgiven "base_url" (by simp)
  obtain ⟨model, hmodel⟩ := hgiven "model" (by simp)
  rw [← field_eq_some] at hkey hurl hmodel
  simp only [blockConfig, Value.asObject, Option.bind_eq_bind, Option.bind_some, hprotocol, hkey,
    hurl, hmodel, Option.pure_def]
  exact ⟨_, rfl⟩

/-- The configuration of a call is that of its `ai` block. -/
theorem extractAiConfig_eq_some {arguments : Value} {cfg : AiConfig} :
    (extractAiConfig arguments).2 = some cfg ↔
      ∃ ai, arguments.get "ai" = some ai ∧ blockConfig ai = some cfg := by
  cases arguments with
  | object ms => exact Option.bind_eq_some_iff
  | _ => exact iff_of_false nofun (by rintro ⟨ai, ⟨⟩, -⟩)

/-! ### No fallback -/

/-- The protocol that a member asks for: the default when it is absent, null or blank, the one
of its wire value, and none when it is not understood, whatever its type. -/
def protocolOf : Option Value → Option ApiProtocol
  | none | some .null => some .responses
  | some (.string raw) => if isBlank raw then some .responses else ApiProtocol.parse (trim raw)
  | some _ => none

/-- A member that is absent, null or a string. -/
def Textual (v : Option Value) : Prop :=
  v = none ∨ v = some .null ∨ ∃ raw, v = some (.string raw)

/-- **Removed on every path, and no fallback**: the block is gone and the rest is as before,
and a configuration comes from a complete block and has the protocol that the block asks for. -/
structure NeverFallsBack (arguments : Value) : Prop where
  removed : ∀ ms, arguments = .object ms → ∃ ns, (extractAiConfig arguments).1 = .object ns ∧
    ns.lookup "ai" = none ∧ ∀ k, k ≠ "ai" → ns.lookup k = ms.lookup k
  unchanged : (∀ ms, arguments ≠ .object ms) → (extractAiConfig arguments).1 = arguments
  config : ∀ cfg, (extractAiConfig arguments).2 = some cfg → ∃ block,
    arguments.get "ai" = some (.object block) ∧ Given block "api_key" cfg.apiKey ∧
    Given block "base_url" cfg.baseUrl ∧ Given block "model" cfg.model ∧
    protocolOf (block.lookup "api_protocol") = some cfg.apiProtocol

/-- What is selected is what is asked for, of a textual member. -/
theorem selectProtocol_of_textual {block : Members}
    (h : Textual (block.lookup "api_protocol")) :
    selectProtocol (field block "api_protocol") = protocolOf (block.lookup "api_protocol") := by
  rw [field]
  rcases h with h | h | ⟨raw, h⟩
  · rw [h]
    rfl
  · rw [h]
    rfl
  · rw [h, Option.bind_some, Value.asStr, protocolOf]
    cases hblank : isBlank raw with
    | true =>
        rw [nonBlank_eq_none.mpr (by rintro _ ⟨⟩; exact hblank)]
        rfl
    | false =>
        rw [nonBlank_eq_some.mpr ⟨rfl, hblank⟩]
        rfl

/-- Any other member selects the default, which it does not ask for. -/
theorem selectProtocol_of_not_textual {block : Members}
    (h : ¬ Textual (block.lookup "api_protocol")) :
    selectProtocol (field block "api_protocol") = some .responses ∧
      protocolOf (block.lookup "api_protocol") = none := by
  rw [field]
  cases hv : block.lookup "api_protocol" with
  | none => exact absurd (.inl hv) h
  | some v =>
      cases v with
      | null => exact absurd (.inr (.inl hv)) h
      | string raw => exact absurd (.inr (.inr ⟨raw, hv⟩)) h
      | _ => exact ⟨rfl, rfl⟩

/-- **The block never falls back** exactly when, if it is complete, its `api_protocol` is
absent, null or a string. -/
theorem never_falls_back_iff (arguments : Value) :
    NeverFallsBack arguments ↔
      ∀ block, arguments.get "ai" = some (.object block) →
        (∀ name ∈ ["api_key", "base_url", "model"], ∃ s, Given block name s) →
          Textual (block.lookup "api_protocol") := by
  constructor
  · intro h block hblock hgiven
    by_contra hno
    obtain ⟨hselect, hnone⟩ := selectProtocol_of_not_textual hno
    obtain ⟨cfg, hcfg⟩ := blockConfig_of_given hselect hgiven
    obtain ⟨block', hblock', -, -, -, hprotocol⟩ :=
      h.config cfg (extractAiConfig_eq_some.mpr ⟨_, hblock, hcfg⟩)
    rw [hblock] at hblock'
    cases hblock'
    rw [hnone] at hprotocol
    cases hprotocol
  · intro h
    constructor
    · rintro ms rfl
      refine ⟨_, rfl, ?_, fun k hk => ?_⟩
      · rw [lookup_remove, if_pos rfl]
      · rw [lookup_remove, if_neg (Ne.symm hk)]
    · intro hno
      cases arguments with
      | object ms => exact absurd rfl (hno ms)
      | _ => rfl
    · intro cfg hcfg
      obtain ⟨ai, hai, hcfg⟩ := extractAiConfig_eq_some.mp hcfg
      obtain ⟨block, rfl, hselect, hkey, hurl, hmodel, -⟩ := blockConfig_eq_some hcfg
      refine ⟨block, hai, hkey, hurl, hmodel, ?_⟩
      have hgiven : ∀ name ∈ ["api_key", "base_url", "model"], ∃ s, Given block name s := by
        intro name hname
        simp only [List.mem_cons, List.not_mem_nil, or_false] at hname
        rcases hname with rfl | rfl | rfl
        · exact ⟨_, hkey⟩
        · exact ⟨_, hurl⟩
        · exact ⟨_, hmodel⟩
      rw [← selectProtocol_of_textual (h block hai hgiven), hselect]

/-- A complete block whose protocol is a number. -/
def numberedProtocol : Members :=
  [("api_key", .string "k"), ("api_protocol", .number (.posInt 5)),
    ("base_url", .string "https://a"), ("model", .string "m")]

/-- A protocol that is a number falls back to the default. -/
theorem not_never_falls_back : ¬ ∀ arguments, NeverFallsBack arguments := by
  intro h
  have hsome : (extractAiConfig (.object [("ai", .object numberedProtocol)])).2.isSome = true := rfl
  obtain ⟨cfg, hcfg⟩ := Option.isSome_iff_exists.mp hsome
  obtain ⟨block, hblock, -, -, -, hprotocol⟩ := (h _).config cfg hcfg
  cases hblock
  cases hprotocol

/-! ### The environment -/

/-- The variables of a process: those that are set, to a text. -/
abbrev Env := String → Option String

/-- The host of a protocol without a base of its own. -/
def defaultBaseUrl : ApiProtocol → String
  | .anthropicMessages => "https://api.anthropic.com"
  | .responses => "https://api.openai.com/v1"
  | .chatCompletions => "https://api.openai.com/v1"

/-- The configuration of a process. -/
def AiConfig.fromEnv (env : Env) : Option AiConfig := do
  let apiKey ← (env "OPENAI_API_KEY").filter fun s => decide (s ≠ "")
  let apiProtocol ← selectProtocol (nonBlank (env "OPENAI_API_PROTOCOL"))
  pure {
    apiKey := apiKey
    baseUrl := (nonBlank (env "OPENAI_BASE_URL")).getD (defaultBaseUrl apiProtocol)
    model := (env "OPENAI_MODEL").getD "gpt-4.1"
    maxOutputTokens :=
      ((env "OPENAI_MAX_OUTPUT_TOKENS").bind (parseUnsigned (2 ^ 32))).map UInt32.ofNat
    apiProtocol := apiProtocol
    requestTimeoutSeconds :=
      (((env "OPENAI_REQUEST_TIMEOUT_SECONDS").bind fun v =>
        parseUnsigned (2 ^ 64) (trim v)).map UInt64.ofNat).filter fun v => decide (0 < v) }

/-- A configuration that a request can be sent with. -/
structure Usable (cfg : AiConfig) : Prop where
  apiKey : cfg.apiKey ≠ ""
  baseUrl : isBlank cfg.baseUrl = false
  model : isBlank cfg.model = false
  timeout : cfg.requestTimeoutSeconds ≠ some 0

/-- A variable that is not set, or set to blanks. -/
def Env.Unset (env : Env) (name : String) : Prop :=
  ∀ s, env name = some s → isBlank s = true

/-- The environment without the blank variables that have a default. -/
def Env.withoutBlank (env : Env) : Env := fun name =>
  if name = "OPENAI_API_KEY" then env name else nonBlank (env name)

/-- The defaults of the variables that are not set. -/
structure Defaults (env : Env) (cfg : AiConfig) : Prop where
  baseUrl : env.Unset "OPENAI_BASE_URL" → cfg.baseUrl = defaultBaseUrl cfg.apiProtocol
  model : env.Unset "OPENAI_MODEL" → cfg.model = "gpt-4.1"
  apiProtocol : env.Unset "OPENAI_API_PROTOCOL" → cfg.apiProtocol = .responses
  maxOutputTokens : env.Unset "OPENAI_MAX_OUTPUT_TOKENS" → cfg.maxOutputTokens = none
  timeout : env.Unset "OPENAI_REQUEST_TIMEOUT_SECONDS" → cfg.requestTimeoutSeconds = none

/-- **Usable configurations only**: what the loaders return is usable, and a blank variable is
as if not set and has its default. -/
structure UsableConfigs (env : Env) (arguments : Value) : Prop where
  usable : ∀ cfg, AiConfig.fromEnv env = some cfg ∨ (extractAiConfig arguments).2 = some cfg →
    Usable cfg
  blank : AiConfig.fromEnv env = AiConfig.fromEnv env.withoutBlank
  defaults : ∀ cfg, AiConfig.fromEnv env = some cfg → Defaults env cfg

/-- There is no key, or the protocol is unknown. -/
def Env.Rejected (env : Env) : Prop :=
  (∀ key, env "OPENAI_API_KEY" = some key → key = "") ∨
    ∃ raw, env "OPENAI_API_PROTOCOL" = some raw ∧ isBlank raw = false ∧
      ApiProtocol.parse (trim raw) = none

section Environment

variable {env : Env}

/-- An unset variable has no value. -/
theorem nonBlank_of_unset {name : String} (h : env.Unset name) : nonBlank (env name) = none :=
  nonBlank_eq_none.mpr h

/-- A reader that finds nothing in blanks may drop them first. -/
theorem bind_nonBlank {α : Type*} {f : String → Option α} (hf : ∀ s, isBlank s = true → f s = none)
    (o : Option String) : (nonBlank o).bind f = o.bind f := by
  cases o with
  | none => rfl
  | some s =>
      cases hs : isBlank s with
      | true =>
          rw [nonBlank_eq_none.mpr (by rintro _ ⟨⟩; exact hs), Option.bind_some, hf s hs]
          rfl
      | false => rw [nonBlank_eq_some.mpr ⟨rfl, hs⟩]

/-- A blank text is no number. -/
theorem parseUnsigned_trim_of_isBlank {limit : ℕ} {s : String} (h : isBlank s = true) :
    parseUnsigned limit (trim s) = none := by
  rw [isBlank, decide_eq_true_eq] at h
  rw [h]
  exact parseUnsigned_of_isBlank isBlank_empty

/-- The default addresses are not blank. -/
theorem isBlank_defaultBaseUrl (protocol : ApiProtocol) :
    isBlank (defaultBaseUrl protocol) = false := by
  cases protocol <;> decide

/-- A setting that is dropped when blank has a default that is not. -/
theorem isBlank_getD {o : Option String} {s : String} (hs : isBlank s = false) :
    isBlank ((nonBlank o).getD s) = false := by
  cases ho : nonBlank o with
  | none => exact hs
  | some _ => exact (nonBlank_eq_some.mp ho).2

/-- **What a configuration of a process is made of.** -/
theorem fromEnv_eq_some {cfg : AiConfig} (h : AiConfig.fromEnv env = some cfg) :
    cfg.apiKey ≠ "" ∧ env "OPENAI_API_KEY" = some cfg.apiKey ∧
      selectProtocol (nonBlank (env "OPENAI_API_PROTOCOL")) = some cfg.apiProtocol ∧
      cfg.baseUrl = (nonBlank (env "OPENAI_BASE_URL")).getD (defaultBaseUrl cfg.apiProtocol) ∧
      cfg.model = (env "OPENAI_MODEL").getD "gpt-4.1" ∧
      cfg.maxOutputTokens =
        ((env "OPENAI_MAX_OUTPUT_TOKENS").bind (parseUnsigned (2 ^ 32))).map UInt32.ofNat ∧
      cfg.requestTimeoutSeconds =
        (((env "OPENAI_REQUEST_TIMEOUT_SECONDS").bind fun v =>
          parseUnsigned (2 ^ 64) (trim v)).map UInt64.ofNat).filter fun v => decide (0 < v) := by
  simp only [AiConfig.fromEnv, bind, Option.bind_eq_some_iff, Option.filter_eq_some_iff,
    Option.pure_def, Option.some.injEq, decide_eq_true_eq] at h
  obtain ⟨key, ⟨hkey, hne⟩, protocol, hprotocol, rfl⟩ := h
  exact ⟨hne, hkey, hprotocol, rfl, rfl, rfl, rfl⟩

/-- An environment that is not rejected configures. -/
theorem exists_fromEnv (h : ¬ env.Rejected) : ∃ cfg, AiConfig.fromEnv env = some cfg := by
  rw [Env.Rejected, not_or] at h
  obtain ⟨hkey, hprotocol⟩ := h
  push Not at hkey hprotocol
  obtain ⟨key, hkey, hne⟩ := hkey
  have hselect : ∃ protocol,
      selectProtocol (nonBlank (env "OPENAI_API_PROTOCOL")) = some protocol := by
    cases hraw : nonBlank (env "OPENAI_API_PROTOCOL") with
    | none => exact ⟨_, rfl⟩
    | some raw =>
        obtain ⟨hset, hblank⟩ := nonBlank_eq_some.mp hraw
        exact Option.ne_none_iff_exists'.mp (hprotocol raw hset hblank)
  obtain ⟨protocol, hselect⟩ := hselect
  have hfilter : (env "OPENAI_API_KEY").filter (fun s => decide (s ≠ "")) = some key :=
    Option.filter_eq_some_iff.mpr ⟨hkey, decide_eq_true hne⟩
  simp only [AiConfig.fromEnv, hfilter, hselect, Option.bind_eq_bind, Option.bind_some,
    Option.pure_def]
  exact ⟨_, rfl⟩

/-- A rejected environment does not configure. -/
theorem fromEnv_of_rejected (h : env.Rejected) : AiConfig.fromEnv env = none := by
  cases hcfg : AiConfig.fromEnv env with
  | none => rfl
  | some cfg =>
      obtain ⟨hne, hkey, hselect, -⟩ := fromEnv_eq_some hcfg
      rcases h with hempty | ⟨raw, hraw, hblank, hparse⟩
      · exact absurd (hempty _ hkey) hne
      · rw [nonBlank_eq_some.mpr ⟨hraw, hblank⟩, selectProtocol, hparse] at hselect
        cases hselect

/-- A rejected environment is rejected without its blank values too. -/
theorem rejected_withoutBlank (h : env.Rejected) : env.withoutBlank.Rejected := by
  refine h.imp id ?_
  rintro ⟨raw, hraw, hblank, hparse⟩
  exact ⟨raw, nonBlank_eq_some.mpr ⟨hraw, hblank⟩, hblank, hparse⟩

/-- Without a blank model, dropping the blank variables changes nothing. -/
theorem fromEnv_withoutBlank
    (hmodel : ∀ model, env "OPENAI_MODEL" = some model → isBlank model = false) :
    AiConfig.fromEnv env.withoutBlank = AiConfig.fromEnv env := by
  have hread : ∀ name, name ≠ "OPENAI_API_KEY" → env.withoutBlank name = nonBlank (env name) :=
    fun name hname => if_neg hname
  have hkey : env.withoutBlank "OPENAI_API_KEY" = env "OPENAI_API_KEY" := if_pos rfl
  have hset : nonBlank (env "OPENAI_MODEL") = env "OPENAI_MODEL" := by
    cases hm : env "OPENAI_MODEL" with
    | none => rfl
    | some model => exact nonBlank_eq_some.mpr ⟨rfl, hmodel model hm⟩
  rw [AiConfig.fromEnv, AiConfig.fromEnv, hkey, hread _ (by decide), hread _ (by decide),
    hread _ (by decide), hread _ (by decide), hread _ (by decide), hset, nonBlank_nonBlank,
    nonBlank_nonBlank, bind_nonBlank fun s => parseUnsigned_of_isBlank,
    bind_nonBlank fun s => parseUnsigned_trim_of_isBlank]

/-- **What the environment configures is usable**, if the model is not set to a blank. -/
theorem usable_of_fromEnv {cfg : AiConfig} (h : AiConfig.fromEnv env = some cfg)
    (hmodel : ∀ model, env "OPENAI_MODEL" = some model → isBlank model = false) : Usable cfg := by
  obtain ⟨hne, -, -, hurl, hname, -, htimeout⟩ := fromEnv_eq_some h
  refine ⟨hne, ?_, ?_, ?_⟩
  · rw [hurl]
    exact isBlank_getD (isBlank_defaultBaseUrl _)
  · rw [hname]
    cases hm : env "OPENAI_MODEL" with
    | none => decide
    | some model => exact hmodel model hm
  · rw [htimeout]
    intro hzero
    obtain ⟨-, hpos⟩ := Option.filter_eq_some_iff.mp hzero
    exact absurd hpos (by decide)

/-- **What the environment leaves out has its default**, if the model is not set to a blank. -/
theorem defaults_of_fromEnv {cfg : AiConfig} (h : AiConfig.fromEnv env = some cfg)
    (hmodel : ∀ model, env "OPENAI_MODEL" = some model → isBlank model = false) :
    Defaults env cfg := by
  obtain ⟨-, -, hprotocol, hurl, hname, htokens, htimeout⟩ := fromEnv_eq_some h
  constructor
  · intro hunset
    rw [hurl, nonBlank_of_unset hunset]
    rfl
  · intro hunset
    cases hm : env "OPENAI_MODEL" with
    | none => rw [hname, hm]; rfl
    | some model =>
        have hblank := hunset model hm
        rw [hmodel model hm] at hblank
        cases hblank
  · intro hunset
    rw [nonBlank_of_unset hunset] at hprotocol
    exact (Option.some.inj hprotocol).symm
  · intro hunset
    rw [htokens, ← bind_nonBlank fun s => parseUnsigned_of_isBlank, nonBlank_of_unset hunset]
    rfl
  · intro hunset
    rw [htimeout, ← bind_nonBlank fun s => parseUnsigned_trim_of_isBlank, nonBlank_of_unset hunset]
    rfl

end Environment

/-- **What a block configures is usable.** -/
theorem usable_of_extractAiConfig {arguments : Value} {cfg : AiConfig}
    (h : (extractAiConfig arguments).2 = some cfg) : Usable cfg := by
  obtain ⟨ai, -, hcfg⟩ := extractAiConfig_eq_some.mp h
  obtain ⟨block, -, -, hkey, hurl, hmodel, htimeout⟩ := blockConfig_eq_some hcfg
  refine ⟨fun hempty => ?_, hurl.2, hmodel.2, by rw [htimeout]; nofun⟩
  have hblank := hkey.2
  rw [hempty, isBlank_empty] at hblank
  cases hblank

/-- **The configurations are usable** exactly when `OPENAI_MODEL` is not set to blanks, or there
is no configuration of the process anyway. -/
theorem usable_configs_iff (env : Env) (arguments : Value) :
    UsableConfigs env arguments ↔
      ∀ model, env "OPENAI_MODEL" = some model → isBlank model = true → env.Rejected := by
  constructor
  · intro h model hmodel hblank
    by_contra hno
    obtain ⟨cfg, hcfg⟩ := exists_fromEnv hno
    obtain ⟨-, -, -, -, hname, -⟩ := fromEnv_eq_some hcfg
    have husable := (h.usable cfg (.inl hcfg)).model
    rw [hname, hmodel, Option.getD_some, hblank] at husable
    cases husable
  · intro h
    have hmodel : ∀ cfg, AiConfig.fromEnv env = some cfg →
        ∀ model, env "OPENAI_MODEL" = some model → isBlank model = false := by
      intro cfg hcfg model hmodel
      by_contra hblank
      rw [Bool.not_eq_false] at hblank
      rw [fromEnv_of_rejected (h model hmodel hblank)] at hcfg
      cases hcfg
    constructor
    · rintro cfg (hcfg | hcfg)
      · exact usable_of_fromEnv hcfg (hmodel cfg hcfg)
      · exact usable_of_extractAiConfig hcfg
    · by_cases hrejected : env.Rejected
      · rw [fromEnv_of_rejected hrejected, fromEnv_of_rejected (rejected_withoutBlank hrejected)]
      · obtain ⟨cfg, hcfg⟩ := exists_fromEnv hrejected
        exact (fromEnv_withoutBlank (hmodel cfg hcfg)).symm
    · exact fun cfg hcfg => defaults_of_fromEnv hcfg (hmodel cfg hcfg)

/-- A key, and a model that is set to the empty text. -/
def emptyModel : Env
  | "OPENAI_API_KEY" => some "k"
  | "OPENAI_MODEL" => some ""
  | _ => none

/-- An empty model is taken as it is. -/
theorem not_usable_configs : ¬ ∀ env arguments, UsableConfigs env arguments := by
  intro h
  have hsome : (AiConfig.fromEnv emptyModel).isSome = true := rfl
  obtain ⟨cfg, hcfg⟩ := Option.isSome_iff_exists.mp hsome
  have husable := ((h emptyModel .null).usable cfg (.inl hcfg)).model
  cases hcfg
  exact absurd husable (by decide)

end LayerKit
