import LayerKit.Respond

/-!
# The Dialects Agree

A `NeutralReply` is what a reply says, whatever the provider: an optional text, then calls
with a name and an object of arguments, and the token counts. Each dialect has its own way
to say it (`Encodes`), given here by what stands at the names that the parsers read, so that
any other member may stand beside them; in Responses and Anthropic bodies, items of unknown
type may stand between the others.

All three parsers recover the neutral reply: the texts, the names, arguments that are the
same JSON value, and the same usage (`dialects_agree`). The Anthropic parser prints the
arguments it found as an object, so for its replies this rests on printing and parsing
being inverse on them.

## Main results

* `dialects_agree`: one neutral reply, encoded in each dialect, gives one result.
-/

open Json Loop

namespace LayerKit

/-! ### Neutral replies -/

/-- A call of a named tool with an object of arguments. -/
structure NeutralCall where
  name : String
  arguments : Members
  named : name ≠ ""

/-- One output of a neutral reply. -/
inductive NeutralOutput
  | text (s : String)
  | call (c : NeutralCall)

/-- What a reply says: it is not empty, and its token counts have a sum in 64 bits. -/
structure NeutralReply where
  text : Option String
  calls : List NeutralCall
  inputTokens : UInt64
  outputTokens : UInt64
  nonempty : text ≠ none ∨ calls ≠ []
  fits : inputTokens.toNat + outputTokens.toNat < 2 ^ 64

/-- The text first, then the calls. -/
def NeutralReply.outputs (r : NeutralReply) : List NeutralOutput :=
  (r.text.map NeutralOutput.text).toList ++ r.calls.map .call

/-- The usage of a reply, with its total. -/
def NeutralReply.usage (r : NeutralReply) : AiUsage where
  inputTokens := some r.inputTokens
  outputTokens := some r.outputTokens
  totalTokens := some (r.inputTokens + r.outputTokens)

/-- An output of a parser says what a neutral output says: the same text, or the same name
with arguments that parse to the same object. -/
inductive Denotes (C : Codec) : AiOutput → NeutralOutput → Prop
  | text (s : String) : Denotes C (.text s) (.text s)
  | call {c : NeutralCall} {arguments : String}
      (h : C.fromStr arguments = .ok (.object c.arguments)) :
      Denotes C (.toolCall ⟨c.name, arguments⟩) (.call c)

/-! ### Encodings -/

/-- The value is none of the types that the parser knows. -/
def UnknownType (known : List String) (v : Value) : Prop :=
  ∀ t ∈ known, v.index "type" ≠ .string t

/-- A content part with a text. -/
def EncodesPart (s : String) (part : Value) : Prop :=
  part.index "type" = .string "output_text" ∧ part.index "text" = .string s

/-- An item of `output`. -/
inductive EncodesItem (C : Codec) : NeutralOutput → Value → Prop
  | text {s : String} {item : Value} {parts : List Value}
      (htype : item.index "type" = .string "message") (hparts : item.index "content" = .array parts)
      (h : Interspersed (UnknownType ["output_text"]) EncodesPart [s] parts) :
      EncodesItem C (.text s) item
  | call {c : NeutralCall} {item : Value} {arguments : String}
      (htype : item.index "type" = .string "function_call")
      (hname : item.index "name" = .string c.name)
      (harguments : item.index "arguments" = .string arguments)
      (h : C.fromStr arguments = .ok (.object c.arguments)) : EncodesItem C (.call c) item

/-- An element of `tool_calls`. -/
def EncodesToolCall (C : Codec) (c : NeutralCall) (toolCall : Value) : Prop :=
  ∃ arguments, (toolCall.index "function").index "name" = .string c.name ∧
    (toolCall.index "function").index "arguments" = .string arguments ∧
    C.fromStr arguments = .ok (.object c.arguments)

/-- An element of `content`. -/
inductive EncodesBlock : NeutralOutput → Value → Prop
  | text {s : String} {block : Value} (htype : block.index "type" = .string "text")
      (htext : block.index "text" = .string s) : EncodesBlock (.text s) block
  | call {c : NeutralCall} {block : Value} (htype : block.index "type" = .string "tool_use")
      (hname : block.index "name" = .string c.name)
      (hinput : block.index "input" = .object c.arguments) : EncodesBlock (.call c) block

/-- A token count. -/
def tokens (n : UInt64) : Option Value :=
  some (.number (.posInt n))

/-- A Responses body. -/
structure EncodesResponses (C : Codec) (r : NeutralReply) (body : Value) : Prop where
  complete : body.index "status" ≠ .string "incomplete"
  output : ∃ items, body.index "output" = .array items ∧
    Interspersed (UnknownType ["message", "function_call"]) (EncodesItem C) r.outputs items
  usage : ∃ u, body.index "usage" = .object u ∧ u.lookup "input_tokens" = tokens r.inputTokens ∧
    u.lookup "output_tokens" = tokens r.outputTokens ∧
    u.lookup "total_tokens" = tokens (r.inputTokens + r.outputTokens)

/-- A Chat Completions body. Without a text the content is no string, and without calls
there is no list of them or an empty one. -/
structure EncodesChat (C : Codec) (r : NeutralReply) (body : Value) : Prop where
  message : ∃ choice choices message, body.index "choices" = .array (choice :: choices) ∧
    choice.index "finish_reason" ≠ .string "length" ∧
    choice.index "message" = .object message ∧
    (message.lookup "content").bind Value.asStr = r.text ∧
    List.Forall₂ (EncodesToolCall C) r.calls
      (((message.lookup "tool_calls").bind Value.asArray).getD [])
  usage : ∃ u, body.index "usage" = .object u ∧
    u.lookup "input_tokens" = none ∧ u.lookup "prompt_tokens" = tokens r.inputTokens ∧
    u.lookup "output_tokens" = none ∧ u.lookup "completion_tokens" = tokens r.outputTokens ∧
    u.lookup "total_tokens" = tokens (r.inputTokens + r.outputTokens)

/-- An Anthropic Messages body, which has no total. -/
structure EncodesAnthropic (r : NeutralReply) (body : Value) : Prop where
  complete : body.index "stop_reason" ≠ .string "max_tokens"
  content : ∃ blocks, body.index "content" = .array blocks ∧
    Interspersed (UnknownType ["text", "tool_use"]) EncodesBlock r.outputs blocks
  usage : ∃ u, body.index "usage" = .object u ∧ u.lookup "input_tokens" = tokens r.inputTokens ∧
    u.lookup "output_tokens" = tokens r.outputTokens ∧ u.lookup "total_tokens" = none

/-- **A body says what the neutral reply says**, in the dialect. -/
def Encodes (protocol : ApiProtocol) (C : Codec) (r : NeutralReply) (body : Value) : Prop :=
  match protocol with
  | .responses => EncodesResponses C r body
  | .chatCompletions => EncodesChat C r body
  | .anthropicMessages => EncodesAnthropic r body

/-! ### The parsers on encodings -/

variable {C : Codec}

/-- The text is all that is read of the parts that encode it. -/
theorem filterMap_outputText {s : String} {parts : List Value}
    (h : Interspersed (UnknownType ["output_text"]) EncodesPart [s] parts) :
    parts.filterMap outputText = [.text s] := by
  have hnoise : ∀ part, UnknownType ["output_text"] part → outputText part = none :=
    fun part hpart => if_neg fun htype =>
      hpart _ List.mem_cons_self (Value.asStr_eq_some.mp htype)
  have hitem : ∀ s part, EncodesPart s part →
      ∃ out, outputText part = some out ∧ out = .text s :=
    fun s part hpart => ⟨.text s, by simp [outputText, hpart.1, hpart.2, Value.asStr], rfl⟩
  have hout := filterMap_interspersed h hnoise hitem
  obtain ⟨out, rest, rfl, hrest, hlist⟩ := List.forall₂_cons_right_iff.mp hout
  rw [hlist, List.forall₂_nil_right_iff.mp hrest]

/-- An unknown item pushes nothing. -/
theorem outputItem_unknown {item : Value}
    (h : UnknownType ["message", "function_call"] item) : outputItem C item = .ok [] := by
  rw [outputItem]
  split
  · next htype => exact absurd (Value.asStr_eq_some.mp htype) (h _ (by simp))
  · next htype => exact absurd (Value.asStr_eq_some.mp htype) (h _ (by simp))
  · rfl

/-- An encoded output is pushed. -/
theorem outputItem_encodes {o : NeutralOutput} {item : Value} (h : EncodesItem C o item) :
    ∃ out, outputItem C item = .ok [out] ∧ Denotes C out o := by
  cases h with
  | @text s _ parts htype hparts h =>
      refine ⟨.text s, ?_, .text s⟩
      simp [outputItem, htype, hparts, Value.asStr, Value.asArray, filterMap_outputText h]
  | @call c _ arguments htype hname harguments h =>
      refine ⟨.toolCall ⟨c.name, arguments⟩, ?_, .call h⟩
      simp [outputItem, htype, hname, harguments, Value.asStr, Option.filter_some, c.named,
        jsonCall, h]

/-- An encoded call of Chat Completions is read as the call. -/
theorem chatToolCall_encodes {c : NeutralCall} {toolCall : Value}
    (h : EncodesToolCall C c toolCall) :
    ∃ out, chatToolCall C toolCall = .ok [out] ∧ Denotes C out (.call c) := by
  obtain ⟨arguments, hname, harguments, h⟩ := h
  refine ⟨.toolCall ⟨c.name, arguments⟩, ?_, .call h⟩
  simp [chatToolCall, hname, harguments, Value.asStr, jsonCall, h]

/-- A block of an unknown type is skipped. -/
theorem anthropicBlock_unknown {block : Value} (h : UnknownType ["text", "tool_use"] block) :
    anthropicBlock C block = .ok [] := by
  rw [anthropicBlock]
  split
  · next htype => exact absurd (Value.asStr_eq_some.mp htype) (h _ (by simp))
  · next htype => exact absurd (Value.asStr_eq_some.mp htype) (h _ (by simp))
  · rfl

/-- An encoded output is pushed, and its printed arguments parse back. -/
theorem anthropicBlock_encodes {o : NeutralOutput} {block : Value} (h : EncodesBlock o block)
    (hjson : ∀ c, o = .call c →
      C.fromStr (C.toString (.object c.arguments)) = .ok (.object c.arguments)) :
    ∃ out, anthropicBlock C block = .ok [out] ∧ Denotes C out o := by
  cases h with
  | @text s _ htype htext =>
      refine ⟨.text s, ?_, .text s⟩
      simp [anthropicBlock, htype, htext, Value.asStr]
  | @call c _ htype hname hinput =>
      refine ⟨.toolCall ⟨c.name, C.toString (.object c.arguments)⟩, ?_, .call (hjson c rfl)⟩
      have hget := Value.get_of_index_ne_null hinput (by simp)
      simp [anthropicBlock, htype, hname, hget, Value.asStr, Value.isObject, Option.filter_some,
        c.named]

/-- The outputs of a neutral reply are not empty. -/
theorem NeutralReply.outputs_ne_nil (r : NeutralReply) : r.outputs ≠ [] := by
  intro h
  rw [outputs, List.append_eq_nil_iff] at h
  rcases r.nonempty with htext | hcalls
  · obtain ⟨s, hs⟩ := Option.ne_none_iff_exists'.mp htext
    simp [hs] at h
  · exact hcalls (List.map_eq_nil_iff.mp h.2)

/-- A neutral reply has outputs. -/
theorem ne_nil_of_denotes {outs : List AiOutput} {r : NeutralReply}
    (h : List.Forall₂ (Denotes C) outs r.outputs) : outs.isEmpty = false := by
  cases outs with
  | nil => exact absurd (List.forall₂_nil_left_iff.mp h) r.outputs_ne_nil
  | cons out outs => rfl

/-- **A Responses encoding is read** as what it says. -/
theorem parseOutputs_encodes {r : NeutralReply} {body : Value} (h : EncodesResponses C r body) :
    ∃ outs, parseOutputs C body = .ok outs ∧ List.Forall₂ (Denotes C) outs r.outputs := by
  obtain ⟨items, hitems, hencodes⟩ := h.output
  obtain ⟨outs, houts, hdenotes⟩ := collect_interspersed hencodes
    (fun _ => outputItem_unknown) (fun _ _ _ => outputItem_encodes)
  refine ⟨outs, ?_, hdenotes⟩
  have hstatus : (body.index "status").asStr ≠ some "incomplete" := fun hs =>
    h.complete (Value.asStr_eq_some.mp hs)
  rw [parseOutputs, if_neg hstatus, hitems, Value.asArray, okOr_some, ok_bind, houts]

/-- **An Anthropic encoding is read** as what it says. -/
theorem parseAnthropicOutputs_encodes {r : NeutralReply} {body : Value}
    (h : EncodesAnthropic r body)
    (hjson : ∀ c ∈ r.calls,
      C.fromStr (C.toString (.object c.arguments)) = .ok (.object c.arguments)) :
    ∃ outs, parseAnthropicOutputs C body = .ok outs ∧
      List.Forall₂ (Denotes C) outs r.outputs := by
  obtain ⟨blocks, hblocks, hencodes⟩ := h.content
  have hprint : ∀ o ∈ r.outputs, ∀ c, o = .call c →
      C.fromStr (C.toString (.object c.arguments)) = .ok (.object c.arguments) := by
    rintro _ ho c rfl
    refine hjson c ?_
    simpa [NeutralReply.outputs] using ho
  obtain ⟨outs, houts, hdenotes⟩ := collect_interspersed hencodes
    (fun _ => anthropicBlock_unknown)
    (fun o ho _ hblock => anthropicBlock_encodes hblock (hprint o ho))
  refine ⟨outs, ?_, hdenotes⟩
  have hstop : (body.index "stop_reason").asStr ≠ some "max_tokens" := fun hs =>
    h.complete (Value.asStr_eq_some.mp hs)
  rw [parseAnthropicOutputs, if_neg hstop, hblocks, Value.asArray, okOr_some, ok_bind, houts,
    ok_bind, ne_nil_of_denotes hdenotes]
  rfl

/-- **A Chat Completions encoding is read** as what it says. -/
theorem parseChatOutputs_encodes {r : NeutralReply} {body : Value} (h : EncodesChat C r body) :
    ∃ outs, parseChatOutputs C body = .ok outs ∧ List.Forall₂ (Denotes C) outs r.outputs := by
  obtain ⟨choice, choices, message, hchoices, hfinish, hmessage, htext, hcalls⟩ := h.message
  have hnotLength : (choice.index "finish_reason").asStr ≠ some "length" := fun hs =>
    hfinish (Value.asStr_eq_some.mp hs)
  have hget := Value.get_of_index_ne_null hmessage (by simp)
  have hpushed : ∃ calls, chatToolCalls C message = .ok calls ∧
      List.Forall₂ (Denotes C) calls (r.calls.map .call) := by
    rw [chatToolCalls]
    cases htools : (message.lookup "tool_calls").bind Value.asArray with
    | none =>
        rw [htools, Option.getD_none] at hcalls
        rw [List.forall₂_nil_right_iff.mp hcalls]
        exact ⟨[], rfl, .nil⟩
    | some items =>
        rw [htools, Option.getD_some] at hcalls
        have hnone : ∀ item : Value, False → chatToolCall C item = .ok [] := fun _ h => h.elim
        obtain ⟨calls, hok, hdenotes⟩ := collect_interspersed (interspersed_of_forall₂ hcalls)
          hnone (fun _ _ _ => chatToolCall_encodes)
        exact ⟨calls, hok, List.forall₂_map_right_iff.mpr hdenotes⟩
  obtain ⟨calls, hpushed, hdenotes⟩ := hpushed
  have hcontent : List.Forall₂ (Denotes C) (chatContent message)
      (r.text.map NeutralOutput.text).toList := by
    rw [← htext, chatContent]
    cases (message.lookup "content").bind Value.asStr with
    | none => exact .nil
    | some s => exact .cons (.text s) .nil
  have hall : List.Forall₂ (Denotes C) (chatContent message ++ calls) r.outputs :=
    List.rel_append hcontent hdenotes
  refine ⟨_, ?_, hall⟩
  rw [parseChatOutputs, hchoices, Value.asArray, Option.bind_some, List.head?_cons, okOr_some,
    ok_bind, if_neg hnotLength, hget, Option.bind_some, Value.asObject, okOr_some, ok_bind,
    hpushed, ok_bind]
  dsimp only
  rw [ne_nil_of_denotes hall]
  rfl

/-- **Every dialect's usage is the reply's**, once a missing total is filled in. -/
theorem usage_encodes (overflowChecks : Bool) {protocol : ApiProtocol} {r : NeutralReply}
    {body : Value} (h : Encodes protocol C r body) :
    ∃ usage, parseUsage body = some usage ∧ withTotal overflowChecks usage = some r.usage := by
  cases protocol with
  | responses =>
      obtain ⟨u, hu, hin, hout, htotal⟩ := EncodesResponses.usage h
      have hget := Value.get_of_index_ne_null hu (by simp)
      refine ⟨r.usage, ?_, rfl⟩
      simp [parseUsage, hget, hin, hout, htotal, tokens, Value.asObject, Value.asU64,
        NeutralReply.usage]
  | chatCompletions =>
      obtain ⟨u, hu, hnoIn, hin, hnoOut, hout, htotal⟩ := EncodesChat.usage h
      have hget := Value.get_of_index_ne_null hu (by simp)
      refine ⟨r.usage, ?_, rfl⟩
      simp [parseUsage, hget, hnoIn, hin, hnoOut, hout, htotal, tokens, Value.asObject,
        Value.asU64, NeutralReply.usage]
  | anthropicMessages =>
      obtain ⟨u, hu, hin, hout, htotal⟩ := EncodesAnthropic.usage h
      have hget := Value.get_of_index_ne_null hu (by simp)
      refine ⟨{ r.usage with totalTokens := none }, ?_, ?_⟩
      · simp [parseUsage, hget, hin, hout, htotal, tokens, Value.asObject, Value.asU64,
          NeutralReply.usage]
      · have hfits : ¬ (overflowChecks = true ∧
            2 ^ 64 ≤ r.inputTokens.toNat + r.outputTokens.toNat) := fun hno =>
          absurd r.fits (Nat.not_lt.mpr hno.2)
        simp only [withTotal, NeutralReply.usage]
        rw [if_neg hfits]

/-- **An encoding is read as what it says**, in every dialect. -/
theorem parseReply_encodes {protocol : ApiProtocol} {r : NeutralReply} {body : Value}
    (h : Encodes protocol C r body)
    (hjson : ∀ c ∈ r.calls,
      C.fromStr (C.toString (.object c.arguments)) = .ok (.object c.arguments)) :
    ∃ outs, parseReply protocol C body = .ok outs ∧ List.Forall₂ (Denotes C) outs r.outputs := by
  cases protocol with
  | responses => exact parseOutputs_encodes h
  | chatCompletions => exact parseChatOutputs_encodes h
  | anthropicMessages => exact parseAnthropicOutputs_encodes h hjson

/-- **The dialects agree.** Whatever body of each dialect says what one neutral reply says,
and however it is received, every protocol returns its texts and calls, in order, with the
same names and the same arguments as JSON values, and the same usage. -/
theorem dialects_agree (C : Codec) (overflowChecks : Bool) (r : NeutralReply)
    (http : ApiProtocol → Network) (cfg : ApiProtocol → AiConfig)
    (req : ApiProtocol → AiRequest) (body : ApiProtocol → Value)
    (hcfg : ∀ protocol, (cfg protocol).apiProtocol = protocol)
    (hreceived : ∀ protocol,
      Received (http protocol) (cfg protocol) (req protocol) (body protocol))
    (hencodes : ∀ protocol, Encodes protocol C r (body protocol))
    (hjson : ∀ c ∈ r.calls,
      C.fromStr (C.toString (.object c.arguments)) = .ok (.object c.arguments)) :
    ∃ outs : ApiProtocol → List AiOutput, ∀ protocol,
      respondWithUsage C overflowChecks (http protocol) (cfg protocol) (req protocol) =
        .returned (.ok (outs protocol, some r.usage)) ∧
      List.Forall₂ (Denotes C) (outs protocol) r.outputs := by
  choose outs hparse hdenotes using fun protocol => parseReply_encodes (hencodes protocol) hjson
  refine ⟨outs, fun protocol => ⟨?_, hdenotes protocol⟩⟩
  obtain ⟨usage, husage, htotal⟩ := usage_encodes overflowChecks (hencodes protocol)
  simp only [respondWithUsage, exchange_eq_ok.mpr (hreceived protocol), hcfg, hparse, husage,
    htotal]

/-! One reply with a text and a call, in each dialect. -/

/-- The arguments `n = 1`. -/
def sampleArguments : Members :=
  [("n", .number (.posInt 1))]

/-- The text of these arguments. -/
def sampleText : String :=
  "\x7b\"n\":1\x7d"

/-- A codec that prints and parses these arguments. -/
def argumentsCodec : Codec where
  toString _ := sampleText
  fromStr s := if s = sampleText then .ok (.object sampleArguments) else .error "expected value"
  fromSlice _ := .error "expected value"

/-- A text and a call with these arguments. -/
def sampleReply : NeutralReply where
  text := some "hi"
  calls := [⟨"report", sampleArguments, by decide⟩]
  inputTokens := 3
  outputTokens := 4
  nonempty := .inl (by decide)
  fits := by decide

/-- The reply's body, in each dialect. -/
def sampleBody (protocol : ApiProtocol) : Value :=
  match protocol with
  | .responses => .object [
      ("output", .array [
        .object [("type", .string "reasoning")],
        .object [("content", .array [.object [("text", .string "hi"),
          ("type", .string "output_text")]]), ("type", .string "message")],
        .object [("arguments", .string sampleText), ("name", .string "report"),
          ("type", .string "function_call")]]),
      ("usage", .object [("input_tokens", .number (.posInt 3)),
        ("output_tokens", .number (.posInt 4)), ("total_tokens", .number (.posInt 7))])]
  | .chatCompletions => .object [
      ("choices", .array [.object [("message", .object [("content", .string "hi"),
        ("tool_calls", .array [.object [("function", .object [
          ("arguments", .string sampleText), ("name", .string "report")])]])])]]),
      ("usage", .object [("completion_tokens", .number (.posInt 4)),
        ("prompt_tokens", .number (.posInt 3)), ("total_tokens", .number (.posInt 7))])]
  | .anthropicMessages => .object [
      ("content", .array [
        .object [("text", .string "hi"), ("type", .string "text")],
        .object [("type", .string "thinking")],
        .object [("input", .object sampleArguments), ("name", .string "report"),
          ("type", .string "tool_use")]]),
      ("usage", .object [("input_tokens", .number (.posInt 3)),
        ("output_tokens", .number (.posInt 4))])]

/-- A network that answers with that body. -/
def sampleNetwork (protocol : ApiProtocol) : Network :=
  fun _ => .response 200 none (.ok (sampleBody protocol))

/-- A configuration of the protocol. -/
def sampleConfig (protocol : ApiProtocol) : AiConfig where
  apiKey := "key"
  baseUrl := "https://api.example"
  model := "model"
  maxOutputTokens := none
  apiProtocol := protocol
  requestTimeoutSeconds := none

/-- A text without tools. -/
def samplePrompt : AiRequest where
  input := .string "prompt"
  tools := []
  toolChoice := none

/-- The body is received. -/
theorem received_sampleBody (protocol : ApiProtocol) :
    Received (sampleNetwork protocol) (sampleConfig protocol) samplePrompt
      (sampleBody protocol) := by
  cases protocol <;> exact ⟨_, _, 200, none, rfl, rfl, by decide, by decide⟩

/-- The body says what the reply says, with an unknown item between. -/
theorem encodes_sampleBody (protocol : ApiProtocol) :
    Encodes protocol argumentsCodec sampleReply (sampleBody protocol) := by
  cases protocol with
  | responses =>
      refine ⟨?_, ⟨_, rfl, ?_⟩, ⟨_, rfl, rfl, rfl, rfl⟩⟩
      · simp [sampleBody, Value.index, lookup_cons_eq]
      · refine .noise ?_ (.item (.text rfl rfl (.item ⟨rfl, rfl⟩ .nil))
          (.item (.call rfl rfl rfl rfl) .nil))
        simp [UnknownType, Value.index]
  | chatCompletions =>
      refine ⟨⟨_, _, _, rfl, ?_, rfl, rfl, .cons ⟨_, rfl, rfl, rfl⟩ .nil⟩,
        ⟨_, rfl, rfl, rfl, rfl, rfl, rfl⟩⟩
      simp [Value.index, lookup_cons_eq]
  | anthropicMessages =>
      refine ⟨?_, ⟨_, rfl, ?_⟩, ⟨_, rfl, rfl, rfl, rfl⟩⟩
      · simp [sampleBody, Value.index, lookup_cons_eq]
      · refine .item (.text rfl rfl) (.noise ?_ (.item (.call rfl rfl rfl) .nil))
        simp [UnknownType, Value.index]

/-- The dialects agree on this reply. -/
theorem dialects_agree_sampleReply :
    ∃ outs : ApiProtocol → List AiOutput, ∀ protocol,
      respondWithUsage argumentsCodec true (sampleNetwork protocol) (sampleConfig protocol)
          samplePrompt =
        .returned (.ok (outs protocol, some sampleReply.usage)) ∧
      List.Forall₂ (Denotes argumentsCodec) (outs protocol) sampleReply.outputs :=
  dialects_agree argumentsCodec true sampleReply sampleNetwork sampleConfig
    (fun _ => samplePrompt) sampleBody (fun _ => rfl) received_sampleBody encodes_sampleBody (by
      intro c hc
      rw [List.mem_singleton.mp hc]
      rfl)

end LayerKit
