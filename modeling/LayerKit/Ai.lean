import LayerKit.Json
import LayerKit.Text

/-!
# The Provider Seam

The data of `ai.rs` that the provider client reads and returns: its configuration, the
provider-neutral request, the outputs and their token accounting, and the errors with
their class. The class is a field that the constructor sets, never read from the text.
-/

open Json Text

namespace LayerKit

/-! ### Configuration -/

/-- The wire protocol of a provider. -/
inductive ApiProtocol
  | responses
  | chatCompletions
  | anthropicMessages
deriving DecidableEq

/-- The settings of a provider. -/
structure AiConfig where
  apiKey : String
  baseUrl : String
  model : String
  maxOutputTokens : Option UInt32
  apiProtocol : ApiProtocol
  requestTimeoutSeconds : Option UInt64

/-- Where a Responses request goes. -/
def AiConfig.responsesUrl (cfg : AiConfig) : String :=
  cfg.baseUrl ++ "/responses"

/-- Where a Chat Completions request goes. -/
def AiConfig.chatCompletionsUrl (cfg : AiConfig) : String :=
  cfg.baseUrl ++ "/chat/completions"

/-- The base is the bare host, or already ends in `/v1`. -/
def AiConfig.anthropicMessagesUrl (cfg : AiConfig) : String :=
  let base := trimEndMatches cfg.baseUrl '/'
  let base := (stripSuffix base "/v1").getD base
  base ++ "/v1/messages"

/-! ### Requests and outputs -/

/-- A rendered prompt, the function tools and the choice among them. -/
structure AiRequest where
  input : Value
  tools : List Value
  toolChoice : Option String

/-- A call of a function tool, with the JSON text of its arguments. -/
structure ToolCall where
  name : String
  arguments : String
deriving DecidableEq

/-- One output of a provider. -/
inductive AiOutput
  | toolCall (call : ToolCall)
  | text (s : String)
deriving DecidableEq

/-- Token accounting. -/
structure AiUsage where
  inputTokens : Option UInt64
  outputTokens : Option UInt64
  totalTokens : Option UInt64
deriving DecidableEq

/-- The usage of a reply: one parser for the names of every dialect. -/
def parseUsage (body : Value) : Option AiUsage := do
  let usage ← (← body.get "usage").asObject
  let field (a b : String) : Option UInt64 :=
    ((usage.lookup a).or (usage.lookup b)).bind Value.asU64
  pure {
    inputTokens := field "input_tokens" "prompt_tokens"
    outputTokens := field "output_tokens" "completion_tokens"
    totalTokens := (usage.lookup "total_tokens").bind Value.asU64 }

/-! ### Errors -/

/-- The class of a failure. -/
inductive AiErrorKind
  | other
  | outputBudget
  | schema
deriving DecidableEq

/-- A failure of a provider. -/
structure AiError where
  kind : AiErrorKind
  msg : String
deriving DecidableEq

/-- A failure of no particular class, as `AiError::new`. -/
def AiError.new (msg : String) : AiError where
  kind := .other
  msg := msg

/-- An exhausted token budget, as `AiError::output_budget`. -/
def AiError.outputBudget (msg : String) : AiError where
  kind := .outputBudget
  msg := msg

/-- A reply that breaks its schema, as `AiError::schema`. -/
def AiError.schema (msg : String) : AiError where
  kind := .schema
  msg := msg

/-- Take a value or fail, as `Option::ok_or_else`. -/
def okOr {α : Type*} (o : Option α) (e : AiError) : Except AiError α :=
  match o with
  | some a => .ok a
  | none => .error e

/-- A value that is there is the result. -/
@[simp] theorem okOr_some {α : Type*} (a : α) (e : AiError) : okOr (some a) e = .ok a := rfl

/-- Only a value that is there is a result. -/
theorem okOr_eq_ok {α : Type*} {o : Option α} {e : AiError} {a : α} :
    okOr o e = .ok a ↔ o = some a := by
  cases o <;> simp [okOr]

/-- Taking a value and going on with it succeeds when it is there and the rest does. -/
theorem okOr_bind_eq_ok {α β : Type*} {o : Option α} {e : AiError} {f : α → Except AiError β}
    {b : β} : (okOr o e).bind f = .ok b ↔ ∃ a, o = some a ∧ f a = .ok b := by
  cases o <;> simp [okOr, Except.bind]

/-- Every failure is of one class. -/
def FailsAs {α : Type*} (kind : AiErrorKind) (x : Except AiError α) : Prop :=
  ∀ e, x = .error e → e.kind = kind

section FailsAs

variable {α β σ : Type} {kind : AiErrorKind}

/-- A success does not fail. -/
theorem failsAs_ok (a : α) : FailsAs kind (.ok a) := by
  rintro e ⟨⟩

/-- An error fails as its own kind. -/
theorem failsAs_error {e : AiError} (h : e.kind = kind) :
    FailsAs kind (.error e : Except AiError α) := by
  rintro _ ⟨⟩
  exact h

/-- A missing value fails as the error that stands for it. -/
theorem failsAs_okOr {o : Option α} {e : AiError} (h : e.kind = kind) :
    FailsAs kind (okOr o e) := by
  cases o with
  | none => exact failsAs_error h
  | some a => exact failsAs_ok a

/-- A second step fails on the results of the first alone. -/
theorem FailsAs.bind_of {x : Except AiError α} {f : α → Except AiError β} (hx : FailsAs kind x)
    (hf : ∀ a, x = .ok a → FailsAs kind (f a)) : FailsAs kind (x >>= f) := by
  cases x with
  | error e => exact failsAs_error (hx e rfl)
  | ok a => exact hf a rfl

/-- A sequence fails as its steps do. -/
theorem FailsAs.bind {x : Except AiError α} {f : α → Except AiError β} (hx : FailsAs kind x)
    (hf : ∀ a, FailsAs kind (f a)) : FailsAs kind (x >>= f) :=
  hx.bind_of fun a _ => hf a

/-- A fold fails as its steps do. -/
theorem failsAs_foldlM {f : σ → α → Except AiError σ} (hf : ∀ s a, FailsAs kind (f s a))
    (xs : List α) (s : σ) : FailsAs kind (xs.foldlM f s) := by
  induction xs generalizing s with
  | nil => exact failsAs_ok s
  | cons x xs ih =>
      rw [List.foldlM_cons]
      exact (hf s x).bind ih

/-- A traversal fails as its elements do. -/
theorem failsAs_mapM {f : α → Except AiError β} (hf : ∀ a, FailsAs kind (f a)) (xs : List α) :
    FailsAs kind (xs.mapM f) := by
  induction xs with
  | nil => exact failsAs_ok []
  | cons x xs ih =>
      rw [List.mapM_cons]
      exact (hf x).bind fun y => ih.bind fun ys => failsAs_ok (y :: ys)

end FailsAs

end LayerKit
