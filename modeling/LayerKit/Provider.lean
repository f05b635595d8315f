import LayerKit.Conversation
import LayerKit.Dialects

/-!
# One Seam, Three Protocols

The provider is a translation there and back: a request is written in the dialect of the
configured protocol, a service reads it and answers, and the answer is read back. A model is
here what a service is for, a function from neutral requests to neutral replies; a service
**serves** a model in a dialect if it answers every body from which it reads a neutral
request with an encoding of the model's reply to that.

`readRequest` reads a body as the service of the dialect does. The three builders write the
same neutral request wherever they can write the request at all (`Portable`): Chat
Completions takes a text only, only Anthropic can be told a tool by name, and there is no
choice without tools. Then what a layer gets back is what the model says, through whatever
protocol.

## Main results

* `readRequest_sent`: the body sent is read as the neutral request, in every dialect.
* `protocols_interchangeable`: a layer gets the model's reply, through every protocol.
-/

open Json Loop

namespace LayerKit

/-! ### Neutral requests -/

/-- A tool as a model sees it. -/
structure NeutralTool where
  name : String
  description : Option Value
  schema : Value

/-- What a request says about the choice among its tools. -/
inductive NeutralChoice
  | keyword (word : String)
  | tool (name : String)

/-- What a request says, whatever the provider. -/
structure NeutralRequest where
  model : String
  cap : Value
  conversation : Conversation
  tools : List NeutralTool
  choice : Option NeutralChoice

/-- The schema of a function without parameters. -/
def noParameters : Value :=
  obj [("type", .string "object")]

/-- A named tool, with its schema closed if it is strict. -/
def NeutralTool.of (tool : Value) : Option NeutralTool := do
  let name ← (tool.get "name").bind Value.asStr
  pure ⟨name, tool.get "description", ((prepareTool tool).get "parameters").getD noParameters⟩

/-- A choice is a keyword or the name of a tool. -/
def NeutralChoice.of (choice : String) : NeutralChoice :=
  if choice ∈ choiceKeywords then .keyword choice else .tool choice

/-- **What a request says** that poses a conversation. -/
def neutralRequest (cfg : AiConfig) (req : AiRequest) (conversation : Conversation) :
    NeutralRequest where
  model := cfg.model
  cap := cfg.maxTokens
  conversation := conversation
  tools := req.tools.filterMap NeutralTool.of
  choice := req.toolChoice.map NeutralChoice.of

/-! ### Reading a body -/

/-- A tool of a body: flat, or a function with a schema of another name. -/
def readTool (protocol : ApiProtocol) (tool : Value) : Option NeutralTool := do
  let function ←
    match protocol with
    | .chatCompletions => tool.get "function"
    | .responses | .anthropicMessages => some tool
  let schema :=
    match protocol with
    | .anthropicMessages => function.get "input_schema"
    | .responses | .chatCompletions => function.get "parameters"
  let name ← (function.get "name").bind Value.asStr
  pure ⟨name, function.get "description", schema.getD noParameters⟩

/-- The choice of a body: a keyword, or a tool by name. -/
def readChoice (protocol : ApiProtocol) (choice : Value) : Option NeutralChoice :=
  match protocol with
  | .responses =>
      match choice with
      | .string word => some (.keyword word)
      | _ => ((choice.get "name").bind Value.asStr).map .tool
  | .chatCompletions =>
      match choice with
      | .string word => some (.keyword word)
      | _ => (((choice.get "function").bind (·.get "name")).bind Value.asStr).map .tool
  | .anthropicMessages =>
      match (choice.get "type").bind Value.asStr with
      | some "any" => some (.keyword "required")
      | some "tool" => ((choice.get "name").bind Value.asStr).map .tool
      | word => word.map .keyword

/-- The member that caps the reply. -/
def capName : ApiProtocol → String
  | .responses => "max_output_tokens"
  | .chatCompletions | .anthropicMessages => "max_tokens"

/-- **What a body says**, read as the service of the dialect does. -/
def readRequest (protocol : ApiProtocol) (body : Value) : Option NeutralRequest := do
  let model ← (body.get "model").bind Value.asStr
  let cap ← body.get (capName protocol)
  let conversation ← readBody protocol body
  let tools ← (((body.get "tools").bind Value.asArray).getD []).mapM (readTool protocol)
  pure ⟨model, cap, conversation, tools, (body.get "tool_choice").bind (readChoice protocol)⟩

/-! ### The tools -/

/-- A list of named tools, in the forms of a dialect, is read as what the tools say. -/
theorem mapM_readTool {protocol : ApiProtocol} {tools forms : List Value}
    (h : List.Forall₂ (fun tool form => ∃ t, readTool protocol form = some t ∧
      NeutralTool.of tool = some t) tools forms) :
    forms.mapM (readTool protocol) = some (tools.filterMap NeutralTool.of) := by
  induction h with
  | nil => rfl
  | cons hform _ ih =>
      obtain ⟨t, hread, hof⟩ := hform
      rw [List.mapM_cons, hread, ih, List.filterMap_cons_some hof]
      rfl

/-- The neutral tool that a named tool is. -/
theorem neutralTool_of {tool : Value} {name : String} (h : tool.get "name" = some (.string name)) :
    NeutralTool.of tool = some
      ⟨name, tool.get "description", ((prepareTool tool).get "parameters").getD noParameters⟩ := by
  rw [NeutralTool.of, h]
  rfl

/-- A named tool is read off the form that the Responses protocol sends. -/
theorem readTool_prepareTool {tool : Value} (h : Named tool) :
    ∃ t, readTool .responses (prepareTool tool) = some t ∧ NeutralTool.of tool = some t := by
  obtain ⟨name, hname⟩ := h
  refine ⟨_, ?_, neutralTool_of hname⟩
  simp only [readTool, Option.bind_eq_bind, Option.bind_some]
  rw [get_prepareTool_of_ne (by decide), get_prepareTool_of_ne (by decide), hname]
  rfl

/-- A named tool is read off the form that Chat Completions sends. -/
theorem readTool_chatTool {tool : Value} (h : Named tool) :
    ∃ t, readTool .chatCompletions (chatTool tool) = some t ∧ NeutralTool.of tool = some t := by
  obtain ⟨name, hname⟩ := h
  obtain ⟨function, hfunction, hget⟩ := get_function_chatTool tool
  refine ⟨_, ?_, neutralTool_of hname⟩
  have hmem : "name" ∈ chatFields ∧ "description" ∈ chatFields ∧ "parameters" ∈ chatFields := by
    decide
  simp only [readTool, hfunction, Option.bind_eq_bind, Option.bind_some]
  rw [hget, hget, hget, if_pos hmem.1, if_pos hmem.2.1, if_pos hmem.2.2,
    get_prepareTool_of_ne (by decide), get_prepareTool_of_ne (by decide), hname]
  rfl

/-- A tool is read off the form that Anthropic sends, where there is one. -/
theorem readTool_anthropicTool {tool form : Value} (h : anthropicTool tool = .ok form) :
    ∃ t, readTool .anthropicMessages form = some t ∧ NeutralTool.of tool = some t := by
  obtain ⟨name, hname⟩ := exists_anthropicTool.mp ⟨form, h⟩
  obtain ⟨hform, hdescription, hschema, -, -⟩ := anthropicTool_eq_ok h
  rw [get_prepareTool_of_ne (by decide)] at hform hdescription
  refine ⟨_, ?_, neutralTool_of hname⟩
  simp only [readTool, hform, hdescription, hschema, hname, Option.bind_eq_bind, Option.bind_some]
  rfl

/-! ### The bodies -/

/-- **A protocol can carry the request**, which poses the conversation: named tools, no choice
without tools, a text for Chat Completions, and a tool by name for Anthropic only. -/
structure Portable (protocol : ApiProtocol) (req : AiRequest) (conversation : Conversation) :
    Prop where
  poses : Poses req.input conversation
  named : ∀ tool ∈ req.tools, Named tool
  choice : req.tools = [] → req.toolChoice = none
  text : protocol = .chatCompletions → ∃ text, req.input = .string text
  keyword : protocol ≠ .anthropicMessages → ∀ choice, req.toolChoice = some choice →
    choice ∈ choiceKeywords

section Bodies

variable {cfg : AiConfig} {req : AiRequest} {conversation : Conversation} {body : Value}

/-- A body that is read part by part. -/
theorem readRequest_eq {protocol : ApiProtocol} {forms : List Value}
    (hmodel : body.get "model" = some (.string cfg.model))
    (hcap : body.get (capName protocol) = some cfg.maxTokens)
    (hconversation : readBody protocol body = some conversation)
    (htools : ((body.get "tools").bind Value.asArray).getD [] = forms)
    (hforms : List.Forall₂ (fun tool form => ∃ t, readTool protocol form = some t ∧
      NeutralTool.of tool = some t) req.tools forms)
    (hchoice : (body.get "tool_choice").bind (readChoice protocol) =
      req.toolChoice.map NeutralChoice.of) :
    readRequest protocol body = some (neutralRequest cfg req conversation) := by
  rw [readRequest, hmodel, hcap, hconversation, htools, hchoice]
  simp only [mapM_readTool hforms, Value.asStr, Option.bind_eq_bind, Option.bind_some]
  rfl

/-- The tools of a body, when there is no list of none. -/
theorem getD_tools {α : Type} {tools : List α} {forms : List Value}
    (hlength : forms.length = tools.length) :
    ((if tools.isEmpty then none else some (Value.array forms)).bind Value.asArray).getD [] =
      forms := by
  cases tools with
  | nil => rw [List.length_eq_zero_iff.mp hlength]; rfl
  | cons tool tools => rfl

/-- A keyword is the same word in Responses and Chat Completions. -/
theorem bind_readChoice_string {protocol : ApiProtocol} (hprotocol : protocol ≠ .anthropicMessages)
    (h : ∀ choice, req.toolChoice = some choice → choice ∈ choiceKeywords) :
    (req.toolChoice.map Value.string).bind (readChoice protocol) =
      req.toolChoice.map NeutralChoice.of := by
  cases hsome : req.toolChoice with
  | none => rfl
  | some choice =>
      have hread : readChoice protocol (.string choice) = some (.keyword choice) := by
        cases protocol with
        | responses => rfl
        | chatCompletions => rfl
        | anthropicMessages => exact absurd rfl hprotocol
      rw [Option.map_some, Option.bind_some, hread, Option.map_some, NeutralChoice.of,
        if_pos (h choice hsome)]

/-- Anthropic has a form for every choice. -/
theorem readChoice_anthropicToolChoice (choice : String) :
    readChoice .anthropicMessages (anthropicToolChoice choice) =
      some (NeutralChoice.of choice) := by
  by_cases hkeyword : choice ∈ choiceKeywords
  · rw [NeutralChoice.of, if_pos hkeyword]
    simp only [choiceKeywords, List.mem_cons, List.not_mem_nil, or_false] at hkeyword
    rcases hkeyword with rfl | rfl | rfl
    · simp [readChoice, anthropicToolChoice, Value.get_obj, Value.asStr]
    · simp [readChoice, anthropicToolChoice, Value.get_obj, Value.asStr]
    · simp [readChoice, anthropicToolChoice, Value.get_obj, Value.asStr]
  · rw [NeutralChoice.of, if_neg hkeyword, anthropicToolChoice_of_not hkeyword]
    simp [readChoice, forcedTool, Value.get_obj, Value.asStr, lookup_cons_eq]

/-- The model and the cap of an Anthropic body. -/
theorem get_model_buildAnthropicRequestBody (h : buildAnthropicRequestBody cfg req = .ok body) :
    body.get "model" = some (.string cfg.model) ∧ body.get "max_tokens" = some cfg.maxTokens := by
  obtain ⟨⟨system, messages⟩, -, h⟩ := bind_eq_ok.mp h
  dsimp only at h
  split at h
  · cases h
    cases hsystem : system.isEmpty <;> simp [lookup_insert, lookup_members, lookup_cons_eq]
  · obtain ⟨tools, -, h⟩ := bind_eq_ok.mp h
    cases h
    cases hsystem : system.isEmpty <;>
      simp [lookup_insertSome, lookup_insert, lookup_members, lookup_cons_eq]

/-- **The body that is sent says what the request says**, in every dialect that can carry
it. -/
theorem readRequest_sent (h : Portable cfg.apiProtocol req conversation) :
    ∃ url body, endpointAndBody cfg req = .ok (url, body) ∧
      readRequest cfg.apiProtocol body = some (neutralRequest cfg req conversation) := by
  cases hprotocol : cfg.apiProtocol with
  | responses =>
      rw [hprotocol] at h
      refine ⟨cfg.responsesUrl, buildRequestBody cfg req, by rw [endpointAndBody, hprotocol], ?_⟩
      refine readRequest_eq ?_ ?_ (readBody_responses cfg h.poses) ?_
        (List.forall₂_map_right_iff.mpr (List.forall₂_same.mpr fun tool htool =>
          readTool_prepareTool (h.named tool htool))) ?_
      · rw [buildRequestBody, get_body_of_ne (by decide) (by decide), lookup_members]
        rfl
      · rw [buildRequestBody, capName, get_body_of_ne (by decide) (by decide), lookup_members]
        rfl
      · rw [get_tools_buildRequestBody]
        exact getD_tools (List.length_map _)
      · rw [get_toolChoice_buildRequestBody]
        exact bind_readChoice_string (by decide) (h.keyword (by decide))
  | chatCompletions =>
      rw [hprotocol] at h
      refine ⟨cfg.chatCompletionsUrl, buildChatRequestBody cfg req,
        by rw [endpointAndBody, hprotocol], ?_⟩
      refine readRequest_eq ?_ ?_ ((readBody_chat_iff cfg h.poses).mpr (h.text rfl)) ?_
        (List.forall₂_map_right_iff.mpr (List.forall₂_same.mpr fun tool htool =>
          readTool_chatTool (h.named tool htool))) ?_
      · rw [buildChatRequestBody, get_body_of_ne (by decide) (by decide), lookup_members]
        rfl
      · rw [buildChatRequestBody, capName, get_body_of_ne (by decide) (by decide),
          lookup_members]
        rfl
      · rw [get_tools_buildChatRequestBody]
        exact getD_tools (List.length_map _)
      · rw [get_toolChoice_buildChatRequestBody]
        exact bind_readChoice_string (by decide) (h.keyword (by decide))
  | anthropicMessages =>
      rw [hprotocol] at h
      obtain ⟨texts, turns, hsplit, -⟩ := exists_split h.poses
      have hbuilt : ∃ body, buildAnthropicRequestBody cfg req = .ok body :=
        exists_buildAnthropicRequestBody ⟨_, hsplit⟩
          fun tool htool => exists_anthropicTool.mpr (h.named tool htool)
      obtain ⟨body, hbody⟩ := hbuilt
      refine ⟨cfg.anthropicMessagesUrl, body, ?_, ?_⟩
      · rw [endpointAndBody, hprotocol]
        dsimp only
        rw [hbody]
        rfl
      · obtain ⟨_, _, forms, -, hforms, -, -, htools, hchoice⟩ :=
          buildAnthropicRequestBody_eq_ok hbody
        obtain ⟨hmodel, hcap⟩ := get_model_buildAnthropicRequestBody hbody
        refine readRequest_eq hmodel hcap (readBody_anthropic h.poses hbody) ?_
          (hforms.imp fun _ _ => readTool_anthropicTool) ?_
        · rw [htools]
          exact getD_tools hforms.length_eq.symm
        · rw [hchoice]
          by_cases hempty : req.tools = []
          · rw [h.choice hempty, hempty]
            rfl
          · rw [if_neg fun hnil => hempty (List.isEmpty_iff.mp hnil)]
            cases req.toolChoice with
            | none => rfl
            | some choice => exact readChoice_anthropicToolChoice choice

end Bodies

/-! ### There and back -/

/-- **A service serves a model** in a dialect: it answers every body that says something with
a body that says what the model answers to that. -/
def Serves (C : Codec) (protocol : ApiProtocol) (model : NeutralRequest → NeutralReply)
    (http : Network) : Prop :=
  ∀ url headers body request, readRequest protocol body = some request →
    ∃ status text reply, http ⟨url, headers, body⟩ = .response status text (.ok reply) ∧
      200 ≤ status ∧ status < 300 ∧ Encodes protocol C (model request) reply

/-- A reply that is received in the encoding of the protocol is returned. -/
theorem respond_of_encodes {C : Codec} (overflowChecks : Bool) {http : Network} {cfg : AiConfig}
    {req : AiRequest} {reply : Value} {r : NeutralReply} (hreceived : Received http cfg req reply)
    (hencodes : Encodes cfg.apiProtocol C r reply)
    (hjson : ∀ c ∈ r.calls,
      C.fromStr (C.toString (.object c.arguments)) = .ok (.object c.arguments)) :
    ∃ outs, respondWithUsage C overflowChecks http cfg req =
        .returned (.ok (outs, some r.usage)) ∧ List.Forall₂ (Denotes C) outs r.outputs := by
  obtain ⟨outs, hparse, hdenotes⟩ := parseReply_encodes hencodes hjson
  obtain ⟨usage, husage, htotal⟩ := usage_encodes overflowChecks hencodes
  refine ⟨outs, ?_, hdenotes⟩
  simp only [respondWithUsage, exchange_eq_ok.mpr hreceived, hparse, husage, htotal]

/-- What becomes of a request that the protocol can carry: it is sent, read as what it says,
and answered with the encoding of the model's reply to that. -/
theorem Serves.received {C : Codec} {model : NeutralRequest → NeutralReply} {http : Network}
    {cfg : AiConfig} {req : AiRequest} {conversation : Conversation}
    (hhttp : Serves C cfg.apiProtocol model http) (h : Portable cfg.apiProtocol req conversation) :
    ∃ url body reply, endpointAndBody cfg req = .ok (url, body) ∧
      readRequest cfg.apiProtocol body = some (neutralRequest cfg req conversation) ∧
      Received http cfg req reply ∧
      Encodes cfg.apiProtocol C (model (neutralRequest cfg req conversation)) reply := by
  obtain ⟨url, body, hsent, hread⟩ := readRequest_sent h
  obtain ⟨status, text, reply, hresponse, hlow, hhigh, hencodes⟩ :=
    hhttp url (authHeaders cfg) body _ hread
  exact ⟨url, body, reply, hsent, hread, ⟨url, body, status, text, hsent, hresponse, hlow, hhigh⟩,
    hencodes⟩

/-- **The protocols are interchangeable.** Let services serve one model, each in its dialect.
Whatever protocol, address and key are configured, a request that the protocol can carry (no
choice without tools, among the rest of `Portable`) is sent in a body that is read as what the
request says, and returns what the model replies to that: its texts and calls, in order, with
the same names and arguments, and its usage. So configurations of one model and one cap get the
same reply. -/
theorem protocols_interchangeable (C : Codec) (overflowChecks : Bool)
    (model : NeutralRequest → NeutralReply) (http : ApiProtocol → Network)
    (hhttp : ∀ protocol, Serves C protocol model (http protocol)) (cfg : AiConfig)
    (req : AiRequest) (conversation : Conversation)
    (h : Portable cfg.apiProtocol req conversation)
    (hjson : ∀ c ∈ (model (neutralRequest cfg req conversation)).calls,
      C.fromStr (C.toString (.object c.arguments)) = .ok (.object c.arguments)) :
    (∃ url body, endpointAndBody cfg req = .ok (url, body) ∧
      readRequest cfg.apiProtocol body = some (neutralRequest cfg req conversation)) ∧
    ∃ outs, respondWithUsage C overflowChecks (http cfg.apiProtocol) cfg req =
        .returned (.ok (outs, some (model (neutralRequest cfg req conversation)).usage)) ∧
      List.Forall₂ (Denotes C) outs (model (neutralRequest cfg req conversation)).outputs := by
  obtain ⟨url, body, reply, hsent, hread, hreceived, hencodes⟩ :=
    (hhttp cfg.apiProtocol).received h
  exact ⟨⟨url, body, hsent, hread⟩, respond_of_encodes overflowChecks hreceived hencodes hjson⟩

/-! ### A service for a model

What a provider may be: it reads the body and writes the model's reply in the dialect. -/

/-- An item of `output`. -/
def encodeItem (C : Codec) : NeutralOutput → Value
  | .text s => .object [
      ("content", .array [.object [("text", .string s), ("type", .string "output_text")]]),
      ("type", .string "message")]
  | .call c => .object [("arguments", .string (C.toString (.object c.arguments))),
      ("name", .string c.name), ("type", .string "function_call")]

/-- An element of `tool_calls`. -/
def encodeToolCall (C : Codec) (c : NeutralCall) : Value :=
  .object [("function", .object [("arguments", .string (C.toString (.object c.arguments))),
    ("name", .string c.name)])]

/-- An element of `content`. -/
def encodeBlock : NeutralOutput → Value
  | .text s => .object [("text", .string s), ("type", .string "text")]
  | .call c => .object [("input", .object c.arguments), ("name", .string c.name),
      ("type", .string "tool_use")]

/-- The reply as a body of the dialect. -/
def encodeReply (protocol : ApiProtocol) (C : Codec) (r : NeutralReply) : Value :=
  match protocol with
  | .responses => .object [("output", .array (r.outputs.map (encodeItem C))),
      ("usage", .object [("input_tokens", .number (.posInt r.inputTokens)),
        ("output_tokens", .number (.posInt r.outputTokens)),
        ("total_tokens", .number (.posInt (r.inputTokens + r.outputTokens)))])]
  | .chatCompletions => .object [
      ("choices", .array [.object [("message", .object [
        ("content", (r.text.map Value.string).getD .null),
        ("tool_calls", .array (r.calls.map (encodeToolCall C)))])]]),
      ("usage", .object [("completion_tokens", .number (.posInt r.outputTokens)),
        ("prompt_tokens", .number (.posInt r.inputTokens)),
        ("total_tokens", .number (.posInt (r.inputTokens + r.outputTokens)))])]
  | .anthropicMessages => .object [("content", .array (r.outputs.map encodeBlock)),
      ("usage", .object [("input_tokens", .number (.posInt r.inputTokens)),
        ("output_tokens", .number (.posInt r.outputTokens))])]

/-- **The body says what the reply says**, when the arguments of its calls are read back. -/
theorem encodes_encodeReply {C : Codec} {r : NeutralReply}
    (hjson : ∀ c ∈ r.calls,
      C.fromStr (C.toString (.object c.arguments)) = .ok (.object c.arguments))
    (protocol : ApiProtocol) : Encodes protocol C r (encodeReply protocol C r) := by
  cases protocol with
  | responses =>
      refine ⟨?_, ⟨_, rfl, interspersed_of_forall₂ ?_⟩, ⟨_, rfl, rfl, rfl, rfl⟩⟩
      · simp [encodeReply, Value.index, lookup_cons_eq]
      · refine List.forall₂_map_right_iff.mpr (List.forall₂_same.mpr fun out hout => ?_)
        cases out with
        | text s => exact .text rfl rfl (.item ⟨rfl, rfl⟩ .nil)
        | call c =>
            rw [NeutralReply.outputs, List.mem_append] at hout
            have hc : c ∈ r.calls := by simpa using hout
            exact .call rfl rfl rfl (hjson c hc)
  | chatCompletions =>
      refine ⟨⟨_, _, _, rfl, ?_, rfl, ?_, ?_⟩, ⟨_, rfl, rfl, rfl, rfl, rfl, rfl⟩⟩
      · simp [Value.index, lookup_cons_eq]
      · cases htext : r.text <;> simp [Value.asStr]
      · have hcalls : List.Forall₂ (EncodesToolCall C) r.calls
            (r.calls.map (encodeToolCall C)) :=
          List.forall₂_map_right_iff.mpr (List.forall₂_same.mpr fun c hc =>
            ⟨_, rfl, rfl, hjson c hc⟩)
        exact hcalls
  | anthropicMessages =>
      refine ⟨?_, ⟨_, rfl, interspersed_of_forall₂ ?_⟩, ⟨_, rfl, rfl, rfl, rfl⟩⟩
      · simp [encodeReply, Value.index, lookup_cons_eq]
      · refine List.forall₂_map_right_iff.mpr (List.forall₂_same.mpr fun out _ => ?_)
        cases out with
        | text s => exact .text rfl rfl
        | call c => exact .call rfl rfl rfl

/-- A network on which the service of the dialect answers as the model, and any other body is a
bad request. -/
def serviceOf (C : Codec) (protocol : ApiProtocol) (model : NeutralRequest → NeutralReply) :
    Network := fun sent =>
  match readRequest protocol sent.body with
  | some request => .response 200 none (.ok (encodeReply protocol C (model request)))
  | none => .response 400 (some "bad request") (.error "expected value")

/-- **The service serves the model.** -/
theorem serves_serviceOf {C : Codec} {model : NeutralRequest → NeutralReply}
    (hjson : ∀ request, ∀ c ∈ (model request).calls,
      C.fromStr (C.toString (.object c.arguments)) = .ok (.object c.arguments))
    (protocol : ApiProtocol) : Serves C protocol model (serviceOf C protocol model) := by
  intro url headers body request hread
  refine ⟨200, none, encodeReply protocol C (model request), ?_, by decide, by decide,
    encodes_encodeReply (hjson request) protocol⟩
  simp only [serviceOf, hread]

/-- The calls of the named tools with the sample arguments. -/
def callAll (tools : List NeutralTool) : List NeutralCall :=
  tools.filterMap fun tool =>
    if h : tool.name = "" then none else some ⟨tool.name, sampleArguments, h⟩

/-- The arguments of these calls are read back. -/
theorem fromStr_callAll {tools : List NeutralTool} {c : NeutralCall} (h : c ∈ callAll tools) :
    argumentsCodec.fromStr (argumentsCodec.toString (.object c.arguments)) =
      .ok (.object c.arguments) := by
  obtain ⟨tool, -, hc⟩ := List.mem_filterMap.mp h
  split at hc
  · cases hc
  · obtain rfl := Option.some.inj hc
    rfl

/-- A model that repeats the system text and calls every tool. -/
def echoModel (q : NeutralRequest) : NeutralReply :=
  { sampleReply with
    text := some (q.model ++ ": " ++ q.conversation.system.getD "")
    calls := callAll q.tools
    nonempty := .inl (Option.some_ne_none _) }

/-- The greeting, with the two tools of the report. -/
def greetingForReport : AiRequest :=
  { greeting with
    tools := reportRequest.tools
    toolChoice := some "report" }

/-- Anthropic can carry it. -/
theorem portable_greetingForReport : Portable .anthropicMessages greetingForReport
    ⟨some "Be brief.", [("user", .string "hi")]⟩ := by
  refine ⟨poses_greeting, named_reportRequest, fun h => ?_, fun h => ?_, fun h => absurd rfl h⟩
  · cases h
  · cases h

/-- The greeting gets the answer of the model that repeats, through Anthropic. -/
theorem protocols_interchangeable_sample :
    (∃ url body,
      endpointAndBody (sampleConfig .anthropicMessages) greetingForReport = .ok (url, body) ∧
      readRequest .anthropicMessages body = some (neutralRequest (sampleConfig .anthropicMessages)
        greetingForReport ⟨some "Be brief.", [("user", .string "hi")]⟩)) ∧
    ∃ outs, respondWithUsage argumentsCodec true
        (serviceOf argumentsCodec .anthropicMessages echoModel)
        (sampleConfig .anthropicMessages) greetingForReport =
          .returned (.ok (outs, some (echoModel (neutralRequest (sampleConfig .anthropicMessages)
            greetingForReport ⟨some "Be brief.", [("user", .string "hi")]⟩)).usage)) ∧
      List.Forall₂ (Denotes argumentsCodec) outs
        (echoModel (neutralRequest (sampleConfig .anthropicMessages) greetingForReport
          ⟨some "Be brief.", [("user", .string "hi")]⟩)).outputs :=
  protocols_interchangeable argumentsCodec true echoModel
    (fun protocol => serviceOf argumentsCodec protocol echoModel)
    (fun protocol => serves_serviceOf (fun _ _ => fromStr_callAll) protocol)
    (sampleConfig .anthropicMessages) greetingForReport _ portable_greetingForReport
    fun _ => fromStr_callAll

end LayerKit
