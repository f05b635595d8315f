import LayerKit.Requests

/-!
# Endpoints

The URL that a request is sent to, for a base as it was copied: with slashes at its end, or for
the Anthropic API with the version and then slashes. The Anthropic builder takes all of these
to one URL; the two others append to the base as it is, so that a slash is doubled.

## Main results

* `anthropicMessagesUrl_slashes`, `anthropicMessagesUrl_version`: the spellings of one base.
* `spellings_agree_iff`: when the endpoint does not depend on the spelling.
-/

open Loop Text

namespace LayerKit

/-- So many slashes. -/
def slashes (n : ℕ) : String :=
  .ofList (List.replicate n '/')

/-- The URL that a request is sent to. -/
def endpoint (cfg : AiConfig) (req : AiRequest) : Except AiError String :=
  (endpointAndBody cfg req).map Prod.fst

/-- The same settings with another base. -/
def AiConfig.withBase (cfg : AiConfig) (base : String) : AiConfig :=
  { cfg with baseUrl := base }

section Spellings

variable {cfg : AiConfig} {b : String}

/-! ### The Anthropic builder -/

/-- **Slashes at the end** do not change the URL. -/
theorem anthropicMessagesUrl_slashes (cfg : AiConfig) (b : String) (n : ℕ) :
    (cfg.withBase (b ++ slashes n)).anthropicMessagesUrl =
      (cfg.withBase b).anthropicMessagesUrl := by
  simp only [AiConfig.anthropicMessagesUrl, AiConfig.withBase, slashes,
    trimEndMatches_append_replicate]

/-- The URL of a bare host. -/
theorem anthropicMessagesUrl_bare (cfg : AiConfig) (hb : b.toList.getLast? ≠ some '/')
    (hv : ¬ "/v1".toList <:+ b.toList) :
    (cfg.withBase b).anthropicMessagesUrl = b ++ "/v1/messages" := by
  simp only [AiConfig.anthropicMessagesUrl, AiConfig.withBase, trimEndMatches_of_ne hb,
    stripSuffix_of_not_suffix hv, Option.getD_none]

/-- **The version** is not doubled, whatever slashes follow it. -/
theorem anthropicMessagesUrl_version (cfg : AiConfig) (b : String) (n : ℕ) :
    (cfg.withBase (b ++ "/v1" ++ slashes n)).anthropicMessagesUrl = b ++ "/v1/messages" := by
  have hlast : (b ++ "/v1").toList.getLast? ≠ some '/' := by
    have hone : "/v1".toList.getLast? = some '1' := rfl
    rw [String.toList_append, List.getLast?_append, hone, Option.some_or]
    decide
  simp only [AiConfig.anthropicMessagesUrl, AiConfig.withBase, slashes,
    trimEndMatches_append_replicate, trimEndMatches_of_ne hlast, stripSuffix_append,
    Option.getD_some]

/-! ### The endpoints -/

/-- An Anthropic body does not depend on the base. -/
theorem endpoint_anthropicMessages (req : AiRequest)
    (h : cfg.apiProtocol = .anthropicMessages) (base : String) :
    endpoint (cfg.withBase base) req = (buildAnthropicRequestBody cfg req).map fun _ =>
      (cfg.withBase base).anthropicMessagesUrl := by
  have hprotocol : (cfg.withBase base).apiProtocol = .anthropicMessages := h
  have hbody : buildAnthropicRequestBody (cfg.withBase base) req =
      buildAnthropicRequestBody cfg req := rfl
  rw [endpoint, endpointAndBody, hprotocol]
  simp only [hbody]
  cases buildAnthropicRequestBody cfg req <;> rfl

/-- The other protocols append to the base as it is. -/
theorem endpoint_appends (req : AiRequest) (h : cfg.apiProtocol ≠ .anthropicMessages) :
    ∃ path, ∀ base, endpoint (cfg.withBase base) req = .ok (base ++ path) := by
  cases hprotocol : cfg.apiProtocol with
  | responses =>
      refine ⟨"/responses", fun base => ?_⟩
      have hbase : (cfg.withBase base).apiProtocol = .responses := hprotocol
      rw [endpoint, endpointAndBody, hbase]
      rfl
  | chatCompletions =>
      refine ⟨"/chat/completions", fun base => ?_⟩
      have hbase : (cfg.withBase base).apiProtocol = .chatCompletions := hprotocol
      rw [endpoint, endpointAndBody, hbase]
      rfl
  | anthropicMessages => exact absurd hprotocol h

/-- Slashes before the path make another address. -/
theorem append_slashes_append_inj {b path : String} {n : ℕ} :
    b ++ slashes n ++ path = b ++ path ↔ n = 0 := by
  constructor
  · intro h
    have hlen := congrArg String.length h
    rw [String.length_append, String.length_append, String.length_append, slashes,
      String.length_ofList, List.length_replicate] at hlen
    omega
  · rintro rfl
    rw [slashes, List.replicate_zero, String.ofList_nil, String.append_empty]

end Spellings

/-- The spellings of a base have one endpoint: with slashes after it, and for the Anthropic API,
where the base has no version itself, with the version and slashes after it. -/
structure SpellingsAgree (cfg : AiConfig) (req : AiRequest) (b : String) (n : ℕ) : Prop where
  slashed : endpoint (cfg.withBase (b ++ slashes n)) req = endpoint (cfg.withBase b) req
  versioned : cfg.apiProtocol = .anthropicMessages → ¬ "/v1".toList <:+ b.toList →
    endpoint (cfg.withBase (b ++ "/v1" ++ slashes n)) req = endpoint (cfg.withBase b) req ∧
      ∀ url, endpoint (cfg.withBase b) req = .ok url → url = b ++ "/v1/messages"

/-- **The version** may be copied with the base. -/
theorem endpoint_versioned (req : AiRequest) {cfg : AiConfig} {b : String}
    (h : cfg.apiProtocol = .anthropicMessages) (hb : b.toList.getLast? ≠ some '/')
    (hv : ¬ "/v1".toList <:+ b.toList) (n : ℕ) :
    endpoint (cfg.withBase (b ++ "/v1" ++ slashes n)) req = endpoint (cfg.withBase b) req ∧
      ∀ url, endpoint (cfg.withBase b) req = .ok url → url = b ++ "/v1/messages" := by
  rw [endpoint_anthropicMessages req h, endpoint_anthropicMessages req h,
    anthropicMessagesUrl_version, anthropicMessagesUrl_bare cfg hb hv]
  refine ⟨rfl, fun url hurl => ?_⟩
  cases hbody : buildAnthropicRequestBody cfg req with
  | error e =>
      rw [hbody] at hurl
      cases hurl
  | ok body =>
      rw [hbody] at hurl
      exact (Except.ok.inj hurl).symm

/-- **The endpoint does not depend on how the base was copied** exactly when the protocol is
the Anthropic one, or no slash was copied. -/
theorem spellings_agree_iff (cfg : AiConfig) (req : AiRequest) (b : String) (n : ℕ)
    (hb : b.toList.getLast? ≠ some '/') :
    SpellingsAgree cfg req b n ↔ cfg.apiProtocol = .anthropicMessages ∨ n = 0 := by
  have hslashed : SpellingsAgree cfg req b n ↔
      endpoint (cfg.withBase (b ++ slashes n)) req = endpoint (cfg.withBase b) req :=
    ⟨fun h => h.slashed, fun h => ⟨h, fun hcfg hv => endpoint_versioned req hcfg hb hv n⟩⟩
  rw [hslashed]
  by_cases h : cfg.apiProtocol = .anthropicMessages
  · rw [endpoint_anthropicMessages req h, endpoint_anthropicMessages req h,
      anthropicMessagesUrl_slashes]
    exact iff_of_true rfl (.inl h)
  · obtain ⟨path, hpath⟩ := endpoint_appends req h
    rw [hpath, hpath, Except.ok.injEq, append_slashes_append_inj, or_iff_right h]

/-- A gateway's settings. -/
def gatewayConfig (protocol : ApiProtocol) : AiConfig where
  apiKey := "key"
  baseUrl := "https://gateway.example/v1"
  model := "model"
  maxOutputTokens := none
  apiProtocol := protocol
  requestTimeoutSeconds := none

/-- A bare question. -/
def question : AiRequest where
  input := .string "question"
  tools := []
  toolChoice := none

/-- The case of a gateway with two slashes, for Anthropic. -/
theorem spellings_agree_iff_gateway :
    SpellingsAgree (gatewayConfig .anthropicMessages) question "https://gateway.example" 2 ↔
      ApiProtocol.anthropicMessages = .anthropicMessages ∨ 2 = 0 :=
  spellings_agree_iff (gatewayConfig .anthropicMessages) question "https://gateway.example" 2
    (by decide)

/-- **The spellings do not always agree**: a Responses request to a base with a slash goes to
`//responses`. -/
theorem not_spellings_agree :
    ¬ ∀ (cfg : AiConfig) (req : AiRequest) (b : String) (n : ℕ), b.toList.getLast? ≠ some '/' →
      SpellingsAgree cfg req b n := by
  intro h
  have hagree := h (gatewayConfig .responses) question "https://gateway.example/v1" 1 (by decide)
  have hdouble : ("https://gateway.example/v1//responses" : String) =
      "https://gateway.example/v1/responses" := Except.ok.inj hagree.slashed
  revert hdouble
  decide

end LayerKit
