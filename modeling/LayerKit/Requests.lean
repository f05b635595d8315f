import LayerKit.Ai
import LayerKit.Collect
import LayerKit.Strict

/-!
# Request Bodies

The three request builders of `openai.rs` and the pairing of each with its endpoint. The
Responses and Chat Completions bodies can always be built; the Anthropic body is refused
for an input or a tool that the Messages API cannot carry, with an error of no particular
class (`failsAs_endpointAndBody`).
-/

open Json Loop

namespace LayerKit

/-- `DEFAULT_MAX_OUTPUT_TOKENS`. -/
def defaultMaxOutputTokens : UInt32 := 2000

/-- `ANTHROPIC_VERSION`. -/
def anthropicVersion : String := "2023-06-01"

/-- The cap on response tokens, always sent. -/
def AiConfig.maxTokens (cfg : AiConfig) : Value :=
  .number (.posInt (cfg.maxOutputTokens.getD defaultMaxOutputTokens).toUInt64)

/-- Authentication headers for the configured protocol. -/
def authHeaders (cfg : AiConfig) : List (String × String) :=
  match cfg.apiProtocol with
  | .responses | .chatCompletions => [("authorization", "Bearer " ++ cfg.apiKey)]
  | .anthropicMessages =>
      [("x-api-key", cfg.apiKey), ("anthropic-version", anthropicVersion)]

/-- Set a member if there is a value for it. -/
def insertSome (k : String) (v : Option Value) (ms : Members) : Members :=
  match v with
  | some v => insert k v ms
  | none => ms

/-! ### Responses and Chat Completions -/

/-- The Responses API request body. -/
def buildRequestBody (cfg : AiConfig) (req : AiRequest) : Value :=
  let body := members [("model", .string cfg.model), ("input", req.input),
    ("max_output_tokens", cfg.maxTokens)]
  let body :=
    if req.tools.isEmpty then body
    else insert "tools" (.array (req.tools.map prepareTool)) body
  .object (insertSome "tool_choice" (req.toolChoice.map .string) body)

/-- A flat tool in the form of Chat Completions. -/
def chatTool (tool : Value) : Value :=
  let tool := prepareTool tool
  let function := ["name", "description", "parameters", "strict"].foldl
    (fun function field => insertSome field (tool.get field) function) []
  obj [("type", .string "function"), ("function", .object function)]

/-- The Chat Completions request body. -/
def buildChatRequestBody (cfg : AiConfig) (req : AiRequest) : Value :=
  let body := members [("model", .string cfg.model),
    ("messages", .array [obj [("role", .string "user"), ("content", req.input)]]),
    ("max_tokens", cfg.maxTokens)]
  let body :=
    if req.tools.isEmpty then body
    else insert "tools" (.array (req.tools.map chatTool)) body
  .object (insertSome "tool_choice" (req.toolChoice.map .string) body)

/-! ### Anthropic Messages -/

/-- The refusal of an input of any other shape. -/
def unsupported : AiError :=
  .new "anthropic_messages supports a string input or an array of \x7brole, content\x7d messages"

/-- Sort one item of an input into system texts and messages. -/
def anthropicMessage (split : List String × List Value) (item : Value) :
    Except AiError (List String × List Value) := do
  let role ← okOr (item.index "role").asStr unsupported
  let content ← okOr (item.get "content") unsupported
  if role = "system" ∨ role = "developer" then
    let text ← okOr content.asStr unsupported
    pure (split.1 ++ [text], split.2)
  else
    pure (split.1, split.2 ++ [obj [("role", .string role), ("content", content)]])

/-- Split an input into the system texts and the messages. -/
def anthropicMessages (input : Value) : Except AiError (List String × List Value) :=
  match input with
  | .string text => .ok ([], [obj [("role", .string "user"), ("content", .string text)]])
  | .array items => do
      let split ← items.foldlM anthropicMessage ([], [])
      if split.2.isEmpty then
        .error (.new "anthropic_messages input has no user message")
      else
        pure split
  | _ => .error unsupported

/-- A flat tool in the form of the Messages API. -/
def anthropicTool (tool : Value) : Except AiError Value := do
  let tool := prepareTool tool
  let name ← okOr ((tool.get "name").bind Value.asStr)
    (.new "anthropic_messages function tool requires name")
  pure (.object (insertSome "description" (tool.get "description")
    (members [("name", .string name),
      ("input_schema", (tool.get "parameters").getD (obj [("type", .string "object")]))])))

/-- The form of a choice in the Messages API. -/
def anthropicToolChoice (choice : String) : Value :=
  match choice with
  | "auto" => obj [("type", .string "auto")]
  | "required" => obj [("type", .string "any")]
  | "none" => obj [("type", .string "none")]
  | name => obj [("type", .string "tool"), ("name", .string name)]

/-- The Anthropic Messages request body. -/
def buildAnthropicRequestBody (cfg : AiConfig) (req : AiRequest) : Except AiError Value := do
  let (system, messages) ← anthropicMessages req.input
  let body := members [("model", .string cfg.model), ("max_tokens", cfg.maxTokens),
    ("messages", .array messages)]
  let body :=
    if system.isEmpty then body
    else insert "system" (.string ("\n\n".intercalate system)) body
  if req.tools.isEmpty then
    pure (.object body)
  else
    let tools ← req.tools.mapM anthropicTool
    let body := insert "tools" (.array tools) body
    pure (.object (insertSome "tool_choice" (req.toolChoice.map anthropicToolChoice) body))

/-! ### Reading a body -/

/-- A member is inserted where there is a value for it. -/
theorem lookup_insertSome (k k' : String) (v : Option Value) (ms : Members) :
    (insertSome k v ms).lookup k' = if k = k' then v.or (ms.lookup k') else ms.lookup k' := by
  cases v with
  | none => simp [insertSome]
  | some v => simp [insertSome, lookup_insert]

section Bodies

/-! The bodies of Responses and Chat Completions are members of their own with the tools, if
there are any, and the choice. -/

variable {ms : Members} {empty : Bool} {tools : Value} {choice : Option Value}

/-- A body holds the choice that it was given. -/
theorem get_toolChoice_body (h : ms.lookup "tool_choice" = none) :
    (Value.object (insertSome "tool_choice" choice
      (if empty then ms else insert "tools" tools ms))).get "tool_choice" = choice := by
  rw [Value.get_object, lookup_insertSome, if_pos rfl]
  cases empty <;> simp [lookup_insert, h]

/-- A body holds the tools unless there are none. -/
theorem get_tools_body (h : ms.lookup "tools" = none) :
    (Value.object (insertSome "tool_choice" choice
      (if empty then ms else insert "tools" tools ms))).get "tools" =
        if empty then none else some tools := by
  rw [Value.get_object, lookup_insertSome, if_neg (by decide)]
  cases empty <;> simp [lookup_insert, h]

/-- Tools and choice leave the other members. -/
theorem get_body_of_ne {k : String} (htools : "tools" ≠ k) (hchoice : "tool_choice" ≠ k) :
    (Value.object (insertSome "tool_choice" choice
      (if empty then ms else insert "tools" tools ms))).get k = ms.lookup k := by
  rw [Value.get_object, lookup_insertSome, if_neg hchoice]
  cases empty <;> simp [lookup_insert, htools]

variable (cfg : AiConfig) (req : AiRequest)

/-- The Responses body holds the input as it is. -/
theorem get_input_buildRequestBody : (buildRequestBody cfg req).get "input" = some req.input := by
  rw [buildRequestBody, get_body_of_ne (by decide) (by decide), lookup_members]
  rfl

/-- The Responses body holds the prepared tools. -/
theorem get_tools_buildRequestBody :
    (buildRequestBody cfg req).get "tools" =
      if req.tools.isEmpty then none else some (.array (req.tools.map prepareTool)) := by
  rw [buildRequestBody, get_tools_body (lookup_members _ _)]

/-- The Responses body holds the choice as it is. -/
theorem get_toolChoice_buildRequestBody :
    (buildRequestBody cfg req).get "tool_choice" = req.toolChoice.map .string := by
  rw [buildRequestBody, get_toolChoice_body (lookup_members _ _)]

/-- The Chat Completions body holds the input as one user message. -/
theorem get_messages_buildChatRequestBody :
    (buildChatRequestBody cfg req).get "messages" =
      some (.array [obj [("role", .string "user"), ("content", req.input)]]) := by
  rw [buildChatRequestBody, get_body_of_ne (by decide) (by decide), lookup_members]
  rfl

/-- The Chat Completions body holds the tools in its own form. -/
theorem get_tools_buildChatRequestBody :
    (buildChatRequestBody cfg req).get "tools" =
      if req.tools.isEmpty then none else some (.array (req.tools.map chatTool)) := by
  rw [buildChatRequestBody, get_tools_body (lookup_members _ _)]

/-- The Chat Completions body holds the choice as it is. -/
theorem get_toolChoice_buildChatRequestBody :
    (buildChatRequestBody cfg req).get "tool_choice" = req.toolChoice.map .string := by
  rw [buildChatRequestBody, get_toolChoice_body (lookup_members _ _)]

end Bodies

/-- **The Anthropic body**: what it holds, once the input is split and every tool is in the
form of the Messages API. -/
theorem buildAnthropicRequestBody_eq_ok {cfg : AiConfig} {req : AiRequest} {body : Value}
    (h : buildAnthropicRequestBody cfg req = .ok body) :
    ∃ system messages tools, anthropicMessages req.input = .ok (system, messages) ∧
      List.Forall₂ (fun tool t => anthropicTool tool = .ok t) req.tools tools ∧
      body.get "messages" = some (.array messages) ∧
      body.get "system" =
        (if system.isEmpty then none else some (.string ("\n\n".intercalate system))) ∧
      body.get "tools" = (if req.tools.isEmpty then none else some (.array tools)) ∧
      body.get "tool_choice" =
        (if req.tools.isEmpty then none else req.toolChoice.map anthropicToolChoice) := by
  obtain ⟨⟨system, messages⟩, hsplit, h⟩ := bind_eq_ok.mp h
  dsimp only at h
  split at h
  · next hempty =>
      cases h
      rw [List.isEmpty_iff] at hempty
      refine ⟨system, messages, [], hsplit, by rw [hempty]; exact .nil, ?_⟩
      cases hsystem : system.isEmpty <;>
        simp [hempty, lookup_insert, lookup_members, lookup_cons_eq]
  · next hempty =>
      obtain ⟨tools, htools, h⟩ := bind_eq_ok.mp h
      cases h
      refine ⟨system, messages, tools, hsplit, mapM_eq_ok.mp htools, ?_⟩
      cases hsystem : system.isEmpty <;>
        simp [hempty, lookup_insertSome, lookup_insert, lookup_members, lookup_cons_eq]

/-- The Anthropic body is built when the input splits and every tool has a form. -/
theorem exists_buildAnthropicRequestBody {cfg : AiConfig} {req : AiRequest}
    (hinput : ∃ split, anthropicMessages req.input = .ok split)
    (htools : ∀ tool ∈ req.tools, ∃ t, anthropicTool tool = .ok t) :
    ∃ body, buildAnthropicRequestBody cfg req = .ok body := by
  refine exists_bind_eq_ok.mpr ⟨_, hinput.choose_spec, ?_⟩
  dsimp only
  split
  · exact ⟨_, rfl⟩
  · exact exists_bind_eq_ok.mpr ⟨_, (exists_mapM_eq_ok.mpr htools).choose_spec, _, rfl⟩

/-! ### The pairing with the endpoint -/

/-- The endpoint and the matching body for the configured protocol. -/
def endpointAndBody (cfg : AiConfig) (req : AiRequest) : Except AiError (String × Value) :=
  match cfg.apiProtocol with
  | .responses => .ok (cfg.responsesUrl, buildRequestBody cfg req)
  | .chatCompletions => .ok (cfg.chatCompletionsUrl, buildChatRequestBody cfg req)
  | .anthropicMessages => do
      let body ← buildAnthropicRequestBody cfg req
      pure (cfg.anthropicMessagesUrl, body)

/-- An input that is refused is no schema error. -/
theorem failsAs_anthropicMessages (input : Value) : FailsAs .other (anthropicMessages input) := by
  have hstep : ∀ split item, FailsAs .other (anthropicMessage split item) := by
    intro split item
    refine (failsAs_okOr rfl).bind fun role => (failsAs_okOr rfl).bind fun content => ?_
    split
    · exact (failsAs_okOr rfl).bind fun text => failsAs_ok _
    · exact failsAs_ok _
  unfold anthropicMessages
  split
  · exact failsAs_ok _
  · refine (failsAs_foldlM hstep _ _).bind fun messages => ?_
    split
    · exact failsAs_error rfl
    · exact failsAs_ok _
  · exact failsAs_error rfl

/-- **A request that cannot be built** fails in no particular class. -/
theorem failsAs_endpointAndBody (cfg : AiConfig) (req : AiRequest) :
    FailsAs .other (endpointAndBody cfg req) := by
  have htool : ∀ tool, FailsAs .other (anthropicTool tool) := fun tool =>
    (failsAs_okOr rfl).bind fun name => failsAs_ok _
  rw [endpointAndBody]
  split
  · exact failsAs_ok _
  · exact failsAs_ok _
  · refine FailsAs.bind ((failsAs_anthropicMessages _).bind fun split => ?_)
      fun body => failsAs_ok _
    dsimp only
    split
    · exact failsAs_ok _
    · exact (failsAs_mapM htool _).bind fun tools => failsAs_ok _

end LayerKit
