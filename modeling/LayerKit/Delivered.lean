import LayerKit.Exactness
import LayerKit.Provider

/-!
# What a Layer Is Delivered

A layer offers its tools and a choice among them; what it is delivered are calls. This module
follows both through the provider. On one side stands the **contract** that a service reads
off the body: the tools by name, their schemas as they were sent, and the choice. On the
other side stands what the layer **asked** for: a strict tool asks for arguments that are
valid exactly against the schema that the layer wrote, any other tool for valid ones. The
two are one contract, in every dialect: a layer is delivered what it asked for when the model
keeps to what the service reads, and only then.

## Main results

* `valid_schema_iff`: a schema as it was sent accepts what the tool asks for.
* `delivered_as_asked`: a delivery honours the request exactly when the model keeps to it.
-/

open Json JsonSchema Loop

namespace LayerKit

/-! ### The two sides of the contract -/

/-- What a tool asks of the arguments of a call: that they are valid, and of a strict one that they
have exactly the declared members wherever a schema whose type is the string `object` judges an
object of them. -/
def AsksFor (tool arguments : Value) : Prop :=
  match tool.get "parameters" with
  | none => Valid noParameters arguments
  | some schema =>
      if (tool.get "strict").bind Value.asBool = some true then ValidExactly schema arguments
      else Valid schema arguments

/-- A request offers a call: one of its tools has the name and asks for such arguments. -/
def Offered (req : AiRequest) (name : String) (arguments : Members) : Prop :=
  ∃ tool ∈ req.tools, tool.get "name" = some (.string name) ∧ AsksFor tool (.object arguments)

/-- What a body allows: a call of one of its tools with arguments that its schema accepts. -/
def NeutralRequest.Allows (q : NeutralRequest) (name : String) (arguments : Members) : Prop :=
  ∃ t ∈ q.tools, t.name = name ∧ Valid t.schema (.object arguments)

/-- **A reply keeps to a request** as the service reads it: its calls are allowed, and it
heeds the choice. -/
structure NeutralRequest.KeptBy (q : NeutralRequest) (r : NeutralReply) : Prop where
  allowed : ∀ c ∈ r.calls, q.Allows c.name c.arguments
  called : q.choice = some (.keyword "required") → r.calls ≠ []
  spared : q.choice = some (.keyword "none") → r.calls = []
  chosen : ∀ name, q.choice = some (.tool name) → r.calls ≠ [] ∧ ∀ c ∈ r.calls, c.name = name

/-- The calls among outputs. -/
def toolCalls (outs : List AiOutput) : List ToolCall :=
  outs.filterMap fun
    | .toolCall call => some call
    | .text _ => none

/-- **A delivery honours a request**: the arguments of its calls parse to objects that the
request asked for, and it heeds the choice. -/
structure Honours (C : Codec) (req : AiRequest) (outs : List AiOutput) : Prop where
  offered : ∀ call ∈ toolCalls outs, ∃ arguments,
    C.fromStr call.arguments = .ok (.object arguments) ∧ Offered req call.name arguments
  called : req.toolChoice = some "required" → toolCalls outs ≠ []
  spared : req.toolChoice = some "none" → toolCalls outs = []
  chosen : ∀ name ∉ choiceKeywords, req.toolChoice = some name →
    toolCalls outs ≠ [] ∧ ∀ call ∈ toolCalls outs, call.name = name

/-! ### The schemas -/

/-- The strict tools of a request have schemas of the plain keywords. -/
def PlainTools (req : AiRequest) : Prop :=
  ∀ tool ∈ req.tools, tool.get "strict" = some (.bool true) →
    ∀ schema, tool.get "parameters" = some schema → PlainSchema schema

/-- Only a named tool is read, with its own name and its schema as it was sent. -/
theorem neutralTool_of_eq_some {tool : Value} {t : NeutralTool} (h : NeutralTool.of tool = some t) :
    tool.get "name" = some (.string t.name) ∧
      t.schema = ((prepareTool tool).get "parameters").getD noParameters := by
  simp only [NeutralTool.of, Option.bind_eq_bind, Option.bind_eq_some_iff] at h
  obtain ⟨name, ⟨v, hv, hname⟩, ht⟩ := h
  obtain rfl := Option.some.inj ht
  exact ⟨hv.trans (congrArg some (Value.asStr_eq_some.mp hname)), rfl⟩

/-- **A schema as it was sent accepts what the tool asks for.** -/
theorem valid_schema_iff {tool : Value} {t : NeutralTool}
    (hplain : tool.get "strict" = some (.bool true) →
      ∀ schema, tool.get "parameters" = some schema → PlainSchema schema)
    (h : NeutralTool.of tool = some t) (arguments : Value) :
    Valid t.schema arguments ↔ AsksFor tool arguments := by
  rw [(neutralTool_of_eq_some h).2]
  by_cases hstrict : tool.get "strict" = some (.bool true)
  · have hflag := Value.bind_asBool_eq_some.mpr hstrict
    rw [get_prepareTool hstrict, if_pos rfl]
    cases hparameters : tool.get "parameters" with
    | none => simp only [AsksFor, hparameters, Option.map_none, Option.getD_none]
    | some schema =>
        simp only [AsksFor, hparameters, Option.map_some, Option.getD_some, if_pos hflag]
        exact valid_makeSchemaStrict_iff (hplain hstrict schema hparameters)
  · have hflag := fun h => hstrict (Value.bind_asBool_eq_some.mp h)
    rw [prepareTool_of_not hstrict]
    cases hparameters : tool.get "parameters" with
    | none => simp only [AsksFor, hparameters, Option.getD_none]
    | some schema => simp only [AsksFor, hparameters, Option.getD_some, if_neg hflag]

/-- **The service reads what the layer asked for.** -/
theorem allows_neutralRequest {cfg : AiConfig} {req : AiRequest} {conversation : Conversation}
    (hplain : PlainTools req) (name : String) (arguments : Members) :
    (neutralRequest cfg req conversation).Allows name arguments ↔
      Offered req name arguments := by
  constructor
  · rintro ⟨t, ht, rfl, hvalid⟩
    obtain ⟨tool, htool, hof⟩ := List.mem_filterMap.mp ht
    exact ⟨tool, htool, (neutralTool_of_eq_some hof).1,
      (valid_schema_iff (hplain tool htool) hof _).mp hvalid⟩
  · rintro ⟨tool, htool, hname, hasks⟩
    have hof := neutralTool_of hname
    exact ⟨_, List.mem_filterMap.mpr ⟨tool, htool, hof⟩, rfl,
      (valid_schema_iff (hplain tool htool) hof _).mpr hasks⟩

/-! ### The choice -/

/-- A choice is read as a keyword exactly when it is that keyword. -/
theorem map_choice_eq_keyword {choice : Option String} {word : String}
    (hword : word ∈ choiceKeywords) :
    choice.map NeutralChoice.of = some (.keyword word) ↔ choice = some word := by
  cases choice with
  | none => simp
  | some c =>
      rw [Option.map_some, Option.some_inj, Option.some_inj, NeutralChoice.of]
      split
      · exact NeutralChoice.keyword.injEq c word ▸ Iff.rfl
      · next hno => exact iff_of_false NeutralChoice.noConfusion fun hc => hno (hc ▸ hword)

/-- It is read as a tool exactly when it is its name, and no keyword. -/
theorem map_choice_eq_tool {choice : Option String} {name : String} :
    choice.map NeutralChoice.of = some (.tool name) ↔
      choice = some name ∧ name ∉ choiceKeywords := by
  cases choice with
  | none => simp
  | some c =>
      rw [Option.map_some, Option.some_inj, Option.some_inj, NeutralChoice.of]
      split
      · next hc => exact iff_of_false NeutralChoice.noConfusion fun h => h.2 (h.1 ▸ hc)
      · next hno =>
          rw [NeutralChoice.tool.injEq]
          exact ⟨fun h => ⟨h, h ▸ hno⟩, And.left⟩

/-! ### The calls -/

/-- A call of the delivery is a call of the reply. -/
def SaysCall (C : Codec) (call : ToolCall) (c : NeutralCall) : Prop :=
  call.name = c.name ∧ C.fromStr call.arguments = .ok (.object c.arguments)

/-- Outputs that are all calls. -/
theorem forall₂_toolCalls_map {C : Codec} {calls : List NeutralCall} {outs : List AiOutput}
    (h : List.Forall₂ (Denotes C) outs (calls.map .call)) :
    List.Forall₂ (SaysCall C) (toolCalls outs) calls := by
  induction calls generalizing outs with
  | nil =>
      cases h
      exact .nil
  | cons c calls ih =>
      obtain ⟨out, outs, hc, hrest, rfl⟩ := List.forall₂_cons_right_iff.mp h
      cases hc with
      | call hparse => exact .cons ⟨rfl, hparse⟩ (ih hrest)

/-- The calls of a delivery are those of the reply, in order. -/
theorem forall₂_toolCalls {C : Codec} {r : NeutralReply} {outs : List AiOutput}
    (h : List.Forall₂ (Denotes C) outs r.outputs) :
    List.Forall₂ (SaysCall C) (toolCalls outs) r.calls := by
  rw [NeutralReply.outputs] at h
  cases htext : r.text with
  | none =>
      rw [htext] at h
      exact forall₂_toolCalls_map h
  | some text =>
      rw [htext] at h
      obtain ⟨out, outs, hout, hrest, rfl⟩ := List.forall₂_cons_right_iff.mp h
      have hcalls : List.Forall₂ (SaysCall C) (toolCalls outs) r.calls :=
        forall₂_toolCalls_map hrest
      cases hout with
      | text => exact hcalls

/-- A call of the delivery is offered when the service was allowed its call of the reply. -/
theorem offered_iff_allows {C : Codec} {cfg : AiConfig} {req : AiRequest}
    {conversation : Conversation} (hplain : PlainTools req) {call : ToolCall} {c : NeutralCall}
    (h : SaysCall C call c) :
    (∃ arguments, C.fromStr call.arguments = .ok (.object arguments) ∧
        Offered req call.name arguments) ↔
      (neutralRequest cfg req conversation).Allows c.name c.arguments := by
  obtain ⟨hname, hparse⟩ := h
  rw [allows_neutralRequest hplain, hname]
  constructor
  · rintro ⟨arguments, hparse', hoffered⟩
    obtain rfl := Value.object.inj (Except.ok.inj (hparse.symm.trans hparse'))
    exact hoffered
  · exact fun hoffered => ⟨c.arguments, hparse, hoffered⟩

/-- **One contract.** A delivery that says what the reply says honours the request exactly
when the reply keeps to what the service reads. -/
theorem honours_iff_keptBy {C : Codec} {cfg : AiConfig} {req : AiRequest}
    {conversation : Conversation} (hplain : PlainTools req) {r : NeutralReply}
    {outs : List AiOutput} (h : List.Forall₂ (Denotes C) outs r.outputs) :
    Honours C req outs ↔ (neutralRequest cfg req conversation).KeptBy r := by
  have hcalls := forall₂_toolCalls h
  have hnil : toolCalls outs = [] ↔ r.calls = [] := by
    rw [← List.length_eq_zero_iff, hcalls.length_eq, List.length_eq_zero_iff]
  have hallowed : (∀ call ∈ toolCalls outs, ∃ arguments,
        C.fromStr call.arguments = .ok (.object arguments) ∧ Offered req call.name arguments) ↔
      ∀ c ∈ r.calls, (neutralRequest cfg req conversation).Allows c.name c.arguments :=
    forall_mem_iff_of_forall₂ hcalls fun _ _ hcall => offered_iff_allows hplain hcall
  have hchosen : ∀ name, (∀ call ∈ toolCalls outs, call.name = name) ↔
      ∀ c ∈ r.calls, c.name = name := fun name =>
    forall_mem_iff_of_forall₂ hcalls fun _ _ hcall => by rw [hcall.1]
  have hkeyword : ∀ word ∈ choiceKeywords,
      ((neutralRequest cfg req conversation).choice = some (.keyword word) ↔
        req.toolChoice = some word) := fun _ => map_choice_eq_keyword
  constructor
  · intro hhonours
    refine ⟨hallowed.mp hhonours.offered, fun hchoice => ?_, fun hchoice => ?_,
      fun name hchoice => ?_⟩
    · exact mt hnil.mpr (hhonours.called ((hkeyword _ (by decide)).mp hchoice))
    · exact hnil.mp (hhonours.spared ((hkeyword _ (by decide)).mp hchoice))
    · obtain ⟨hsome, hno⟩ := map_choice_eq_tool.mp hchoice
      exact (hhonours.chosen name hno hsome).imp (mt hnil.mpr) (hchosen name).mp
  · intro hkept
    refine ⟨hallowed.mpr hkept.allowed, fun hchoice => ?_, fun hchoice => ?_,
      fun name hno hchoice => ?_⟩
    · exact mt hnil.mp (hkept.called ((hkeyword _ (by decide)).mpr hchoice))
    · exact hnil.mpr (hkept.spared ((hkeyword _ (by decide)).mpr hchoice))
    · exact (hkept.chosen name (map_choice_eq_tool.mpr ⟨hchoice, hno⟩)).imp (mt hnil.mp)
        (hchosen name).mpr

/-! ### Through the provider -/

/-- **A layer is delivered what it asked for.** Let a service serve a model in the configured
dialect, and let a request that the protocol can carry have strict tools with schemas of the
plain keywords only. The service reads a request that allows the calls that the layer asked for
and no others (`AsksFor` says what a strict tool asks); the model's reply is delivered; and the
delivery honours the layer's request exactly when the reply keeps to the request that was
read. -/
theorem delivered_as_asked (C : Codec) (overflowChecks : Bool)
    (model : NeutralRequest → NeutralReply) (http : Network) (cfg : AiConfig)
    (hhttp : Serves C cfg.apiProtocol model http) (req : AiRequest) (conversation : Conversation)
    (h : Portable cfg.apiProtocol req conversation) (hplain : PlainTools req)
    (hjson : ∀ c ∈ (model (neutralRequest cfg req conversation)).calls,
      C.fromStr (C.toString (.object c.arguments)) = .ok (.object c.arguments)) :
    ∃ url body q outs, endpointAndBody cfg req = .ok (url, body) ∧
      readRequest cfg.apiProtocol body = some q ∧
      (∀ name arguments, q.Allows name arguments ↔ Offered req name arguments) ∧
      respondWithUsage C overflowChecks http cfg req =
        .returned (.ok (outs, some (model q).usage)) ∧
      (Honours C req outs ↔ q.KeptBy (model q)) := by
  obtain ⟨url, body, reply, hsent, hread, hreceived, hencodes⟩ := hhttp.received h
  obtain ⟨outs, hrespond, hdenotes⟩ := respond_of_encodes overflowChecks hreceived hencodes hjson
  exact ⟨url, body, _, outs, hsent, hread, allows_neutralRequest hplain, hrespond,
    honours_iff_keptBy hplain hdenotes⟩

/-- A strict tool that takes a count. -/
def countTool : Value :=
  .object [("name", .string "report"),
    ("parameters", .object [("properties", .object [("n", .object [("type", .string "integer")])]),
      ("type", .string "object")]),
    ("strict", .bool true)]

/-- A request for one, by name. -/
def countRequest : AiRequest where
  input := .string "prompt"
  tools := [countTool]
  toolChoice := some "report"

/-- Anthropic can carry it. -/
theorem portable_countRequest :
    Portable .anthropicMessages countRequest ⟨none, [("user", .string "prompt")]⟩ := by
  refine ⟨.text "prompt", fun tool htool => ?_, nofun, nofun, fun hne => absurd rfl hne⟩
  rw [List.mem_singleton.mp htool]
  exact ⟨"report", rfl⟩

/-- The schema of its tool is of the plain keywords. -/
theorem plainTools_countRequest : PlainTools countRequest := by
  intro tool htool _ schema hschema
  rw [List.mem_singleton.mp htool] at hschema
  obtain rfl := Option.some.inj hschema
  have hcount : PlainSchema (.object [("type", .string "integer")]) := by
    constructor <;> simp [lookup_cons_eq, keys, plainKeywords]
  constructor <;> simp [lookup_cons_eq, keys, plainKeywords, hcount]

/-- A count is delivered to a layer that asked Anthropic for one, where a model answers that calls
every tool of the request. -/
theorem delivered_as_asked_count :
    ∃ url body q outs,
      endpointAndBody (sampleConfig .anthropicMessages) countRequest = .ok (url, body) ∧
      readRequest .anthropicMessages body = some q ∧
      (∀ name arguments, q.Allows name arguments ↔ Offered countRequest name arguments) ∧
      respondWithUsage argumentsCodec true (serviceOf argumentsCodec .anthropicMessages echoModel)
          (sampleConfig .anthropicMessages) countRequest =
        .returned (.ok (outs, some (echoModel q).usage)) ∧
      (Honours argumentsCodec countRequest outs ↔ q.KeptBy (echoModel q)) :=
  delivered_as_asked argumentsCodec true echoModel
    (serviceOf argumentsCodec .anthropicMessages echoModel) (sampleConfig .anthropicMessages)
    (serves_serviceOf (fun _ _ => fromStr_callAll) _) countRequest _ portable_countRequest
    plainTools_countRequest fun _ => fromStr_callAll

end LayerKit
