import LayerKit.Requests

/-!
# The Same Tools, the Same Choice

What the three request builders make of the tools of a request and of the choice among
them.

**Tools.** A `SentTool` is one tool in the forms of the three dialects, with what these
share: the Chat Completions form has the members of the Responses form that it carries, and
the Anthropic form has its name, its description and its schema. The builders send the tools
of a request in these forms, one by one and in order (`builders_send_same_tools`); a tool
without a string name has no Anthropic form, and the whole body is refused.

**The choice.** The Anthropic builder gives each choice its form in the Messages API and
omits it when there are no tools. The other two send the choice as it stands, which is right
for the three keywords and for nothing else (`choice_reaches_iff`).

## Main results

* `builders_send_same_tools`: the bodies hold the same tools.
* `choice_reaches_iff`: exactly when the bodies hold the same choice.
-/

open Json Loop

namespace LayerKit

/-! ### One tool in three forms -/

/-- The tool has a string name. -/
def Named (tool : Value) : Prop :=
  ∃ name, tool.get "name" = some (.string name)

/-- The members of a tool that its Chat Completions form carries. -/
def chatFields : List String := ["name", "description", "parameters", "strict"]

/-- **A tool in the forms of the three dialects.** The Responses form is the caller's tool,
with its schema rewritten if it is strict. -/
structure SentTool where
  tool : Value
  responses : Value
  chat : Value
  anthropic : Value
  unaltered : tool.get "strict" ≠ some (.bool true) → responses = tool
  closed : tool.get "strict" = some (.bool true) →
    responses.get "parameters" = (tool.get "parameters").map makeSchemaStrict
  others : ∀ k, "parameters" ≠ k → responses.get k = tool.get k
  chatType : chat.get "type" = some (.string "function")
  chatFunction : ∃ function, chat.get "function" = some function ∧
    ∀ k, function.get k = if k ∈ chatFields then responses.get k else none
  name : anthropic.get "name" = responses.get "name"
  description : anthropic.get "description" = responses.get "description"
  inputSchema : anthropic.get "input_schema" =
    some ((responses.get "parameters").getD (obj [("type", .string "object")]))
  noStrict : anthropic.get "strict" = none
  noParameters : anthropic.get "parameters" = none

/-- Copying members from a tool. -/
theorem lookup_foldl_insertSome (tool : Value) (fields : List String) (function : Members)
    (k : String) :
    (fields.foldl (fun function field => insertSome field (tool.get field) function)
      function).lookup k =
      if k ∈ fields then (tool.get k).or (function.lookup k) else function.lookup k := by
  induction fields generalizing function with
  | nil => simp
  | cons field fields ih =>
      rw [List.foldl_cons, ih, lookup_insertSome]
      by_cases hk : field = k
      · subst hk
        cases tool.get field <;> simp
      · simp [hk, Ne.symm hk]

/-- The function of a Chat Completions tool. -/
theorem get_function_chatTool (tool : Value) :
    ∃ function, (chatTool tool).get "function" = some function ∧
      ∀ k, function.get k = if k ∈ chatFields then (prepareTool tool).get k else none := by
  refine ⟨_, by rw [chatTool, Value.get_obj]; rfl, fun k => ?_⟩
  rw [Value.get_object, ← chatFields, lookup_foldl_insertSome]
  simp

/-- The refusal of a tool without a name. -/
def requiresName : AiError :=
  .new "anthropic_messages function tool requires name"

/-- **The Anthropic form** of a named tool. -/
theorem anthropicTool_eq_ok {tool t : Value} (h : anthropicTool tool = .ok t) :
    t.get "name" = (prepareTool tool).get "name" ∧
      t.get "description" = (prepareTool tool).get "description" ∧
      t.get "input_schema" =
        some (((prepareTool tool).get "parameters").getD (obj [("type", .string "object")])) ∧
      t.get "strict" = none ∧ t.get "parameters" = none := by
  obtain ⟨name, hname, h⟩ := okOr_bind_eq_ok.mp h
  cases h
  rw [Value.bind_asStr_eq_some] at hname
  simp [lookup_insertSome, lookup_members, lookup_cons_eq, hname]

/-- A tool without a name is refused. -/
theorem anthropicTool_of_not {tool : Value} (h : ¬ Named tool) :
    anthropicTool tool = .error requiresName := by
  have hnone : ((prepareTool tool).get "name").bind Value.asStr = none := by
    rw [get_prepareTool_of_ne (by decide)]
    refine Option.eq_none_iff_forall_ne_some.mpr fun name hname => ?_
    exact h ⟨name, Value.bind_asStr_eq_some.mp hname⟩
  rw [anthropicTool, hnone]
  rfl

/-- A tool is taken exactly when it has a name. -/
theorem exists_anthropicTool {tool : Value} : (∃ t, anthropicTool tool = .ok t) ↔ Named tool := by
  constructor
  · rintro ⟨t, ht⟩
    by_contra hno
    rw [anthropicTool_of_not hno] at ht
    cases ht
  · rintro ⟨name, hname⟩
    rw [← get_prepareTool_of_ne (by decide)] at hname
    exact ⟨_, okOr_bind_eq_ok.mpr ⟨name, Value.bind_asStr_eq_some.mpr hname, rfl⟩⟩

/-- The forms that the builders give a tool. -/
def SentTool.of {tool t : Value} (h : anthropicTool tool = .ok t) : SentTool where
  tool := tool
  responses := prepareTool tool
  chat := chatTool tool
  anthropic := t
  unaltered := prepareTool_of_not
  closed hstrict := (get_prepareTool hstrict _).trans (if_pos rfl)
  others _ hk := get_prepareTool_of_ne hk
  chatType := by rw [chatTool, Value.get_obj]; rfl
  chatFunction := get_function_chatTool tool
  name := (anthropicTool_eq_ok h).1
  description := (anthropicTool_eq_ok h).2.1
  inputSchema := (anthropicTool_eq_ok h).2.2.1
  noStrict := (anthropicTool_eq_ok h).2.2.2.1
  noParameters := (anthropicTool_eq_ok h).2.2.2.2

/-! ### The tools of a request -/

/-- Tools with an Anthropic form are sent in the forms of the three dialects. -/
theorem exists_sentTools {tools ts : List Value}
    (h : List.Forall₂ (fun tool t => anthropicTool tool = .ok t) tools ts) :
    ∃ sent : List SentTool, sent.map SentTool.tool = tools ∧
      sent.map SentTool.responses = tools.map prepareTool ∧
      sent.map SentTool.chat = tools.map chatTool ∧ sent.map SentTool.anthropic = ts := by
  induction h with
  | nil => exact ⟨[], rfl, rfl, rfl, rfl⟩
  | @cons tool t tools ts ht _ ih =>
      obtain ⟨sent, htool, hresponses, hchat, hanthropic⟩ := ih
      refine ⟨SentTool.of ht :: sent, ?_⟩
      rw [List.map_cons, List.map_cons, List.map_cons, List.map_cons, List.map_cons,
        List.map_cons, htool, hresponses, hchat, hanthropic]
      exact ⟨rfl, rfl, rfl, rfl⟩

/-- One nameless tool refuses them all. -/
theorem mapM_anthropicTool_of_not {tools : List Value} (h : ∃ tool ∈ tools, ¬ Named tool) :
    tools.mapM anthropicTool = .error requiresName := by
  obtain ⟨tool, htool, hno⟩ := h
  cases hmap : tools.mapM anthropicTool with
  | ok ts =>
      obtain ⟨t, ht⟩ := exists_mapM_eq_ok.mp ⟨ts, hmap⟩ tool htool
      exact absurd (exists_anthropicTool.mp ⟨t, ht⟩) hno
  | error e =>
      obtain ⟨tool', -, hfail⟩ := mapM_eq_error hmap
      have hnameless : ¬ Named tool' := fun hnamed => by
        obtain ⟨t, ht⟩ := exists_anthropicTool.mpr hnamed
        rw [hfail] at ht
        cases ht
      rw [anthropicTool_of_not hnameless] at hfail
      cases hfail
      rfl

/-- A text is one user message. -/
theorem anthropicMessages_string (text : String) :
    anthropicMessages (.string text) =
      .ok ([], [obj [("role", .string "user"), ("content", .string text)]]) := rfl

/-- **The builders send the same tools.** For a string input and any named tools, the three
bodies hold the tools one by one in the forms of the dialects; a tool without a string name
has the Anthropic builder refuse the request. -/
theorem builders_send_same_tools (cfg : AiConfig) (req : AiRequest) (text : String)
    (hinput : req.input = .string text) :
    (req.tools ≠ [] → (∀ tool ∈ req.tools, Named tool) →
      ∃ (sent : List SentTool) (body : Value), buildAnthropicRequestBody cfg req = .ok body ∧
        sent.map SentTool.tool = req.tools ∧
        (buildRequestBody cfg req).get "tools" = some (.array (sent.map SentTool.responses)) ∧
        (buildChatRequestBody cfg req).get "tools" = some (.array (sent.map SentTool.chat)) ∧
        body.get "tools" = some (.array (sent.map SentTool.anthropic))) ∧
    ((∃ tool ∈ req.tools, ¬ Named tool) →
      buildAnthropicRequestBody cfg req = .error requiresName) := by
  constructor
  · intro hne hnamed
    have hbuilt : ∃ body, buildAnthropicRequestBody cfg req = .ok body :=
      exists_buildAnthropicRequestBody ⟨_, hinput ▸ anthropicMessages_string text⟩
        fun tool htool => exists_anthropicTool.mpr (hnamed tool htool)
    obtain ⟨body, hbody⟩ := hbuilt
    obtain ⟨_, _, ts, -, hts, -, -, htools, -⟩ := buildAnthropicRequestBody_eq_ok hbody
    obtain ⟨sent, htool, hresponses, hchat, hanthropic⟩ := exists_sentTools hts
    have hempty : ¬ req.tools.isEmpty = true := fun h => hne (List.isEmpty_iff.mp h)
    refine ⟨sent, body, hbody, htool, ?_, ?_, ?_⟩
    · rw [get_tools_buildRequestBody, if_neg hempty, hresponses]
    · rw [get_tools_buildChatRequestBody, if_neg hempty, hchat]
    · rw [htools, if_neg hempty, hanthropic]
  · rintro ⟨tool, htool, hno⟩
    have hempty : ¬ req.tools.isEmpty = true := fun h =>
      List.not_mem_nil (List.isEmpty_iff.mp h ▸ htool)
    rw [buildAnthropicRequestBody, hinput, anthropicMessages_string, ok_bind]
    dsimp only
    rw [if_neg hempty, mapM_anthropicTool_of_not ⟨tool, htool, hno⟩]
    rfl

/-- A configuration. -/
def toolConfig : AiConfig where
  apiKey := "key"
  baseUrl := "https://api.example"
  model := "model"
  maxOutputTokens := none
  apiProtocol := .responses
  requestTimeoutSeconds := none

/-- A strict tool. -/
def reportTool : Value :=
  .object [("name", .string "report"),
    ("parameters", .object [("properties", .object []), ("type", .string "object")]),
    ("strict", .bool true), ("type", .string "function")]

/-- A tool that is not strict, with a description. -/
def noteTool : Value :=
  .object [("description", .string "Keep a note."), ("name", .string "note"),
    ("parameters", .object [
      ("properties", .object [("text", .object [("type", .string "string")])]),
      ("type", .string "object")]), ("type", .string "function")]

/-- A request for the two tools, which chooses the strict one by name. -/
def reportRequest : AiRequest where
  input := .string "p"
  tools := [reportTool, noteTool]
  toolChoice := some "report"

/-- Both tools have names. -/
theorem named_reportRequest : ∀ tool ∈ reportRequest.tools, Named tool :=
  List.forall_mem_cons.mpr ⟨⟨"report", rfl⟩, List.forall_mem_singleton.mpr ⟨"note", rfl⟩⟩

/-- The three bodies hold the two tools in their order. -/
theorem builders_send_same_tools_report :
    ∃ (sent : List SentTool) (body : Value),
      buildAnthropicRequestBody toolConfig reportRequest = .ok body ∧
      sent.map SentTool.tool = reportRequest.tools ∧
      (buildRequestBody toolConfig reportRequest).get "tools" =
        some (.array (sent.map SentTool.responses)) ∧
      (buildChatRequestBody toolConfig reportRequest).get "tools" =
        some (.array (sent.map SentTool.chat)) ∧
      body.get "tools" = some (.array (sent.map SentTool.anthropic)) :=
  (builders_send_same_tools toolConfig reportRequest "p" rfl).1 (List.cons_ne_nil _ _)
    named_reportRequest

/-! ### The choice among the tools -/

/-- The choices that are no tool names. -/
def choiceKeywords : List String := ["auto", "required", "none"]

/-- The form of a keyword in each dialect. -/
def keywordChoice (protocol : ApiProtocol) (choice : String) : Value :=
  match protocol with
  | .responses | .chatCompletions => .string choice
  | .anthropicMessages =>
      obj [("type", .string (if choice = "required" then "any" else choice))]

/-- The form in each dialect that forces the named tool. -/
def forcedTool (protocol : ApiProtocol) (name : String) : Value :=
  match protocol with
  | .responses => obj [("type", .string "function"), ("name", .string name)]
  | .chatCompletions =>
      obj [("type", .string "function"), ("function", obj [("name", .string name)])]
  | .anthropicMessages => obj [("type", .string "tool"), ("name", .string name)]

/-- The choice is the name of a tool of the request. -/
def ChoosesTool (req : AiRequest) (choice : String) : Prop :=
  choice ∉ choiceKeywords ∧ ∃ tool ∈ req.tools, tool.get "name" = some (.string choice)

/-- **The body holds the choice of the request** in the form of the dialect, and none when
there is nothing to choose. -/
structure HoldsChoice (protocol : ApiProtocol) (req : AiRequest) (body : Value) : Prop where
  omitted : req.tools = [] → body.get "tool_choice" = none
  keyword : req.tools ≠ [] → ∀ choice ∈ choiceKeywords, req.toolChoice = some choice →
    body.get "tool_choice" = some (keywordChoice protocol choice)
  forced : ∀ choice, ChoosesTool req choice → req.toolChoice = some choice →
    body.get "tool_choice" = some (forcedTool protocol choice)

/-- The Anthropic form of a keyword. -/
theorem anthropicToolChoice_of_mem {choice : String} (h : choice ∈ choiceKeywords) :
    anthropicToolChoice choice = keywordChoice .anthropicMessages choice := by
  simp only [choiceKeywords, List.mem_cons, List.not_mem_nil, or_false] at h
  rcases h with rfl | rfl | rfl <;> simp [anthropicToolChoice, keywordChoice]

/-- The Anthropic form of a tool name. -/
theorem anthropicToolChoice_of_not {choice : String} (h : choice ∉ choiceKeywords) :
    anthropicToolChoice choice = forcedTool .anthropicMessages choice := by
  unfold anthropicToolChoice
  split
  · exact absurd (by decide) h
  · exact absurd (by decide) h
  · exact absurd (by decide) h
  · rfl

/-- A request that chooses a tool has tools. -/
theorem ChoosesTool.tools_ne_nil {req : AiRequest} {choice : String} (h : ChoosesTool req choice) :
    req.tools ≠ [] := by
  obtain ⟨-, tool, htool, -⟩ := h
  exact List.ne_nil_of_mem htool

/-- **The Anthropic builder gets every choice right.** -/
theorem holdsChoice_buildAnthropicRequestBody {cfg : AiConfig} {req : AiRequest} {body : Value}
    (h : buildAnthropicRequestBody cfg req = .ok body) :
    HoldsChoice .anthropicMessages req body := by
  obtain ⟨_, _, _, -, -, -, -, -, hchoice⟩ := buildAnthropicRequestBody_eq_ok h
  constructor
  · intro hempty
    rw [hchoice, hempty]
    rfl
  · intro hne choice hkeyword hsome
    rw [hchoice, if_neg fun h => hne (List.isEmpty_iff.mp h), hsome, Option.map_some,
      anthropicToolChoice_of_mem hkeyword]
  · intro choice hchooses hsome
    rw [hchoice, if_neg fun h => hchooses.tools_ne_nil (List.isEmpty_iff.mp h), hsome,
      Option.map_some, anthropicToolChoice_of_not hchooses.1]

/-- The other two builders send the choice as it stands. This is right when there is
something to choose and the choice is no tool name. -/
theorem holdsChoice_iff {protocol : ApiProtocol} {req : AiRequest} {body : Value}
    (hprotocol : protocol ≠ .anthropicMessages)
    (hchoice : body.get "tool_choice" = req.toolChoice.map .string) :
    HoldsChoice protocol req body ↔ (req.tools = [] → req.toolChoice = none) ∧
      ∀ choice, req.toolChoice = some choice → ¬ ChoosesTool req choice := by
  have hforced : ∀ choice, forcedTool protocol choice ≠ .string choice := by
    intro choice
    cases protocol <;> simp [forcedTool, obj]
  have hkeyword : ∀ choice, keywordChoice protocol choice = .string choice := by
    intro choice
    cases protocol with
    | responses => rfl
    | chatCompletions => rfl
    | anthropicMessages => exact absurd rfl hprotocol
  constructor
  · intro h
    constructor
    · intro hempty
      have hnone := h.omitted hempty
      rwa [hchoice, Option.map_eq_none_iff] at hnone
    · intro choice hsome hchooses
      have hsent := h.forced choice hchooses hsome
      rw [hchoice, hsome, Option.map_some, Option.some.injEq] at hsent
      exact hforced choice hsent.symm
  · rintro ⟨hempty, hno⟩
    constructor
    · intro htools
      rw [hchoice, hempty htools]
      rfl
    · intro _ choice _ hsome
      rw [hchoice, hsome, hkeyword]
      rfl
    · intro choice hchooses hsome
      exact absurd hchooses (hno choice hsome)

/-- The three bodies hold the choice of the request. -/
def ChoiceReaches (cfg : AiConfig) (req : AiRequest) : Prop :=
  HoldsChoice .responses req (buildRequestBody cfg req) ∧
    HoldsChoice .chatCompletions req (buildChatRequestBody cfg req) ∧
    ∃ body, buildAnthropicRequestBody cfg req = .ok body ∧
      HoldsChoice .anthropicMessages req body

/-- A choice by name is sent as a keyword that there is not. -/
theorem not_choice_reaches :
    ¬ ∀ (cfg : AiConfig) (req : AiRequest) (text : String), req.input = .string text →
      (∀ tool ∈ req.tools, Named tool) → ChoiceReaches cfg req := by
  intro h
  have hchooses : ChoosesTool reportRequest "report" :=
    ⟨by decide, _, List.mem_cons_self, rfl⟩
  have hsent := (h toolConfig reportRequest "p" rfl named_reportRequest).1.forced "report"
    hchooses rfl
  rw [get_toolChoice_buildRequestBody] at hsent
  cases hsent

/-- **When the same choice reaches every dialect**: exactly when a request without tools
makes no choice and a request with tools chooses none of them by name. -/
theorem choice_reaches_iff (cfg : AiConfig) (req : AiRequest) (text : String)
    (hinput : req.input = .string text) (hnamed : ∀ tool ∈ req.tools, Named tool) :
    ChoiceReaches cfg req ↔ (req.tools = [] → req.toolChoice = none) ∧
      ∀ choice, req.toolChoice = some choice → ¬ ChoosesTool req choice := by
  have hbuilt : ∃ body, buildAnthropicRequestBody cfg req = .ok body ∧
      HoldsChoice .anthropicMessages req body := by
    have hbuilt : ∃ body, buildAnthropicRequestBody cfg req = .ok body :=
      exists_buildAnthropicRequestBody ⟨_, hinput ▸ anthropicMessages_string text⟩
        fun tool htool => exists_anthropicTool.mpr (hnamed tool htool)
    obtain ⟨body, hbody⟩ := hbuilt
    exact ⟨body, hbody, holdsChoice_buildAnthropicRequestBody hbody⟩
  rw [ChoiceReaches, and_iff_left hbuilt,
    holdsChoice_iff (by decide) (get_toolChoice_buildRequestBody cfg req),
    holdsChoice_iff (by decide) (get_toolChoice_buildChatRequestBody cfg req), and_self]

/-- The case of the request that chooses a tool by name: its choice does not reach. -/
theorem choice_reaches_iff_report :
    ChoiceReaches toolConfig reportRequest ↔
      (reportRequest.tools = [] → reportRequest.toolChoice = none) ∧
        ∀ choice, reportRequest.toolChoice = some choice → ¬ ChoosesTool reportRequest choice :=
  choice_reaches_iff toolConfig reportRequest "p" rfl named_reportRequest

end LayerKit
