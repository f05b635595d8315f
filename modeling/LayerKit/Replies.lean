import LayerKit.Ai
import LayerKit.Collect

/-!
# Reply Parsers

The three parsers of `openai.rs`, one for each dialect. Each of them looks for the
dialect's mark of a truncated reply, finds the list of items, and walks it with a loop that
may fail at an item and otherwise pushes what the item holds.

What a body has for a reader is its `pieces`: the string texts and the tool items, in the
order in which they stand. A parser that succeeds delivers these and nothing else.

## Main results

* `forall₂_parseReply`: a success delivers each piece once, in order.
* `parseReply_all_or_nothing`: and a malformed tool item anywhere fails the whole reply.
-/

open Json Loop

namespace LayerKit

/-- Push a call whose arguments are JSON; `label` opens the message otherwise. -/
def jsonCall (C : Codec) (label name arguments : String) : Except AiError (List AiOutput) :=
  match C.fromStr arguments with
  | .error error => .error (.schema (label ++ ": " ++ error))
  | .ok _ => .ok [.toolCall ⟨name, arguments⟩]

/-! ### Anthropic Messages -/

/-- What a content block pushes. -/
def anthropicBlock (C : Codec) (block : Value) : Except AiError (List AiOutput) :=
  match (block.index "type").asStr with
  | some "text" =>
      match (block.index "text").asStr with
      | some text => .ok [.text text]
      | none => .ok []
  | some "tool_use" => do
      let name ← okOr ((block.index "name").asStr.filter (· ≠ ""))
        (.schema "tool_use block missing name")
      let input ← okOr ((block.get "input").filter Value.isObject)
        (.schema "tool_use block input must be a JSON object")
      pure [.toolCall ⟨name, C.toString input⟩]
  | _ => .ok []

/-- Parse an Anthropic Messages reply. -/
def parseAnthropicOutputs (C : Codec) (body : Value) : Except AiError (List AiOutput) :=
  if (body.index "stop_reason").asStr = some "max_tokens" then
    .error (.outputBudget
      "response incomplete (max_tokens); increase max_output_tokens or ask for fewer items")
  else do
    let blocks ← okOr (body.index "content").asArray (.schema "response missing 'content' array")
    let out ← collect (anthropicBlock C) blocks
    if out.isEmpty then
      .error (.schema "anthropic response has neither text nor tool_use content")
    else
      pure out

/-! ### Chat Completions -/

/-- What a tool call pushes. -/
def chatToolCall (C : Codec) (toolCall : Value) : Except AiError (List AiOutput) := do
  let function := toolCall.index "function"
  let name ← okOr (function.index "name").asStr (.schema "tool call missing function.name")
  let arguments ← okOr (function.index "arguments").asStr
    (.schema "tool call function.arguments must be a JSON string")
  jsonCall C "invalid tool call function.arguments JSON" name arguments

/-- What the content of a message pushes. -/
def chatContent (message : Members) : List AiOutput :=
  match (message.lookup "content").bind Value.asStr with
  | some content => [.text content]
  | none => []

/-- What the tool calls of a message push. -/
def chatToolCalls (C : Codec) (message : Members) : Except AiError (List AiOutput) :=
  match (message.lookup "tool_calls").bind Value.asArray with
  | some toolCalls => collect (chatToolCall C) toolCalls
  | none => .ok []

/-- Parse a Chat Completions reply. -/
def parseChatOutputs (C : Codec) (body : Value) : Except AiError (List AiOutput) := do
  let choice ← okOr ((body.index "choices").asArray.bind List.head?)
    (.schema "response missing 'choices[0]'")
  if (choice.index "finish_reason").asStr = some "length" then
    .error (.outputBudget
      "chat completion exhausted its token budget; increase max_output_tokens")
  else
    let message ← okOr ((choice.get "message").bind Value.asObject)
      (.schema "response missing 'choices[0].message'")
    let calls ← chatToolCalls C message
    let out := chatContent message ++ calls
    if out.isEmpty then
      .error (.schema "chat response has neither content nor tool_calls")
    else
      pure out

/-! ### Responses -/

/-- What a content part of a message pushes. -/
def outputText (part : Value) : Option AiOutput :=
  if (part.index "type").asStr = some "output_text" then
    (part.index "text").asStr.map .text
  else
    none

/-- What an output item pushes. -/
def outputItem (C : Codec) (item : Value) : Except AiError (List AiOutput) :=
  match (item.index "type").asStr with
  | some "message" =>
      match (item.index "content").asArray with
      | some content => .ok (content.filterMap outputText)
      | none => .ok []
  | some "function_call" => do
      let name ← okOr ((item.index "name").asStr.filter (· ≠ ""))
        (.schema "function call missing name")
      let arguments ← okOr (item.index "arguments").asStr
        (.schema "function call arguments must be a JSON string")
      jsonCall C "invalid function call arguments JSON" name arguments
  | _ => .ok []

/-- Parse a Responses API reply. -/
def parseOutputs (C : Codec) (body : Value) : Except AiError (List AiOutput) :=
  if (body.index "status").asStr = some "incomplete" then
    let reason := (((body.index "incomplete_details").index "reason").asStr).getD "unknown"
    let message := "response incomplete (" ++ reason ++
      "); increase max_output_tokens or ask for fewer items"
    .error (if reason = "max_output_tokens" then .outputBudget message else .schema message)
  else do
    let items ← okOr (body.index "output").asArray (.schema "response missing 'output' array")
    collect (outputItem C) items

/-- The parser of the configured dialect. -/
def parseReply (protocol : ApiProtocol) : Codec → Value → Except AiError (List AiOutput) :=
  match protocol with
  | .responses => parseOutputs
  | .chatCompletions => parseChatOutputs
  | .anthropicMessages => parseAnthropicOutputs

/-! ### The pieces of a body -/

/-- What a body has for a reader: a string text, or a tool item. -/
inductive Piece
  | text (s : String)
  | tool (item : Value)

/-- The text of a content part, if it is an `output_text` part with a string text. -/
def partPiece (part : Value) : Option Piece :=
  if (part.index "type").asStr = some "output_text" then
    (part.index "text").asStr.map .text
  else
    none

/-- The pieces of an item of `output`. -/
def itemPieces (item : Value) : List Piece :=
  match (item.index "type").asStr with
  | some "message" => ((item.index "content").asArray.getD []).filterMap partPiece
  | some "function_call" => [.tool item]
  | _ => []

/-- The pieces of an element of `content`. -/
def blockPieces (block : Value) : List Piece :=
  match (block.index "type").asStr with
  | some "text" => ((block.index "text").asStr.map Piece.text).toList
  | some "tool_use" => [.tool block]
  | _ => []

/-- The value at `choices[0].message`. -/
def chatMessage (body : Value) : Value :=
  (((body.index "choices").asArray.bind List.head?).getD .null).index "message"

/-- **The pieces of a body**, in body order; for Chat Completions the text first. -/
def pieces (protocol : ApiProtocol) (body : Value) : List Piece :=
  match protocol with
  | .responses => ((body.index "output").asArray.getD []).flatMap itemPieces
  | .chatCompletions =>
      (((chatMessage body).index "content").asStr.map Piece.text).toList ++
        (((chatMessage body).index "tool_calls").asArray.getD []).map .tool
  | .anthropicMessages => ((body.index "content").asArray.getD []).flatMap blockPieces

/-- The string name of a tool item. -/
def toolName (protocol : ApiProtocol) (item : Value) : Option String :=
  match protocol with
  | .responses | .anthropicMessages => (item.index "name").asStr
  | .chatCompletions => ((item.index "function").index "name").asStr

/-- The arguments of a tool item, if they are a string that holds JSON; for Anthropic the
serialized input, if that is an object. -/
def toolArguments (protocol : ApiProtocol) (C : Codec) (item : Value) : Option String :=
  match protocol with
  | .responses => (item.index "arguments").asStr.filter fun a => (C.fromStr a).isOk
  | .chatCompletions =>
      ((item.index "function").index "arguments").asStr.filter fun a => (C.fromStr a).isOk
  | .anthropicMessages => (item.index "input").asObject.map fun input => C.toString (.object input)

/-- An output carries a piece: the text, or the tool item's name and arguments. -/
inductive Carries (protocol : ApiProtocol) (C : Codec) : Piece → AiOutput → Prop
  | text (s : String) : Carries protocol C (.text s) (.text s)
  | call {item : Value} {name arguments : String} (hname : toolName protocol item = some name)
      (harguments : toolArguments protocol C item = some arguments) :
      Carries protocol C (.tool item) (.toolCall ⟨name, arguments⟩)

/-! ### What one item yields -/

variable {C : Codec}

/-- A block that is read gives the pieces in it. -/
theorem carries_anthropicBlock {block : Value} {new : List AiOutput}
    (h : anthropicBlock C block = .ok new) :
    List.Forall₂ (Carries .anthropicMessages C) (blockPieces block) new := by
  rw [anthropicBlock] at h
  rw [blockPieces]
  split at h
  · split at h
    · next text htext =>
        cases h
        rw [htext]
        exact .cons (.text text) .nil
    · next htext =>
        cases h
        rw [htext]
        exact .nil
  · obtain ⟨name, hname, h⟩ := okOr_bind_eq_ok.mp h
    obtain ⟨input, hinput, h⟩ := okOr_bind_eq_ok.mp h
    cases h
    rw [Option.filter_eq_some_iff] at hname hinput
    obtain ⟨ms, rfl⟩ := Value.isObject_iff.mp hinput.2
    refine .cons (.call hname.1 ?_) .nil
    rw [toolArguments, Value.index_of_get hinput.1]
    rfl
  · cases h
    exact .nil

/-- A call is read exactly when its arguments parse, with their text. -/
theorem jsonCall_eq_ok {label name arguments : String} {new : List AiOutput} :
    jsonCall C label name arguments = .ok new ↔
      (C.fromStr arguments).isOk = true ∧ new = [.toolCall ⟨name, arguments⟩] := by
  rw [jsonCall]
  cases C.fromStr arguments with
  | error e => simp [Except.isOk, Except.toBool]
  | ok v => simp [Except.isOk, Except.toBool, eq_comm]

/-- A call of Chat Completions that is read is that call. -/
theorem carries_chatToolCall {toolCall : Value} {new : List AiOutput}
    (h : chatToolCall C toolCall = .ok new) :
    List.Forall₂ (Carries .chatCompletions C) [.tool toolCall] new := by
  obtain ⟨name, hname, h⟩ := okOr_bind_eq_ok.mp h
  obtain ⟨arguments, harguments, h⟩ := okOr_bind_eq_ok.mp h
  obtain ⟨hjson, rfl⟩ := jsonCall_eq_ok.mp h
  refine .cons (.call hname ?_) .nil
  rw [toolArguments, harguments, Option.filter_some, if_pos hjson]

/-- The texts of a message are read in order. -/
theorem carries_outputText (content : List Value) :
    List.Forall₂ (Carries .responses C) (content.filterMap partPiece)
      (content.filterMap outputText) := by
  induction content with
  | nil => exact .nil
  | cons part content ih =>
      rw [List.filterMap_cons, List.filterMap_cons, partPiece, outputText]
      by_cases htype : (part.index "type").asStr = some "output_text"
      · rw [if_pos htype, if_pos htype]
        cases (part.index "text").asStr with
        | none => exact ih
        | some text => exact .cons (.text text) ih
      · rw [if_neg htype, if_neg htype]
        exact ih

/-- An item that is read gives the pieces in it. -/
theorem carries_outputItem {item : Value} {new : List AiOutput}
    (h : outputItem C item = .ok new) :
    List.Forall₂ (Carries .responses C) (itemPieces item) new := by
  rw [outputItem] at h
  rw [itemPieces]
  split at h
  · split at h
    · next content hcontent =>
        cases h
        rw [hcontent, Option.getD_some]
        exact carries_outputText content
    · next hcontent =>
        cases h
        rw [hcontent]
        exact .nil
  · obtain ⟨name, hname, h⟩ := okOr_bind_eq_ok.mp h
    obtain ⟨arguments, harguments, h⟩ := okOr_bind_eq_ok.mp h
    rw [Option.filter_eq_some_iff] at hname
    obtain ⟨hjson, rfl⟩ := jsonCall_eq_ok.mp h
    refine .cons (.call hname.1 ?_) .nil
    rw [toolArguments, harguments, Option.filter_some, if_pos hjson]
  · cases h
    exact .nil

/-! ### All or nothing -/

/-- **An Anthropic body is read piece by piece.** -/
theorem forall₂_parseAnthropicOutputs {body : Value} {outs : List AiOutput}
    (h : parseAnthropicOutputs C body = .ok outs) :
    List.Forall₂ (Carries .anthropicMessages C) (pieces .anthropicMessages body) outs := by
  rw [parseAnthropicOutputs] at h
  split at h
  · cases h
  · obtain ⟨blocks, hblocks, h⟩ := okOr_bind_eq_ok.mp h
    obtain ⟨out, hout, h⟩ := bind_eq_ok.mp h
    split at h
    · cases h
    · cases h
      rw [pieces, hblocks, Option.getD_some]
      exact forall₂_of_collect (fun _ _ => carries_anthropicBlock) hout

/-- A string under a key, by `index` or by the members. -/
theorem asStr_index_object (ms : Members) (k : String) :
    ((Value.object ms).index k).asStr = (ms.lookup k).bind Value.asStr := by
  rw [Value.index, Value.get_object]
  cases ms.lookup k <;> rfl

/-- An array under a key, by `index` or by the members. -/
theorem asArray_index_object (ms : Members) (k : String) :
    ((Value.object ms).index k).asArray = (ms.lookup k).bind Value.asArray := by
  rw [Value.index, Value.get_object]
  cases ms.lookup k <;> rfl

/-- The text of a choice is read. -/
theorem carries_chatContent (ms : Members) :
    List.Forall₂ (Carries .chatCompletions C)
      (((Value.object ms).index "content").asStr.map Piece.text).toList (chatContent ms) := by
  rw [asStr_index_object, chatContent]
  cases (ms.lookup "content").bind Value.asStr with
  | none => exact .nil
  | some text => exact .cons (.text text) .nil

/-- The calls of a choice are read in order. -/
theorem carries_chatToolCalls {ms : Members} {calls : List AiOutput}
    (h : chatToolCalls C ms = .ok calls) :
    List.Forall₂ (Carries .chatCompletions C)
      ((((Value.object ms).index "tool_calls").asArray.getD []).map .tool) calls := by
  rw [chatToolCalls] at h
  rw [asArray_index_object]
  split at h
  · next toolCalls htools =>
      rw [htools, Option.getD_some, List.map_eq_flatMap]
      exact forall₂_of_collect (fun _ _ => carries_chatToolCall) h
  · next htools =>
      cases h
      rw [htools]
      exact .nil

/-- **A Chat Completions body is read piece by piece.** -/
theorem forall₂_parseChatOutputs {body : Value} {outs : List AiOutput}
    (h : parseChatOutputs C body = .ok outs) :
    List.Forall₂ (Carries .chatCompletions C) (pieces .chatCompletions body) outs := by
  obtain ⟨choice, hchoice, h⟩ := okOr_bind_eq_ok.mp h
  split at h
  · cases h
  · obtain ⟨ms, hms, h⟩ := okOr_bind_eq_ok.mp h
    obtain ⟨calls, hcalls, h⟩ := bind_eq_ok.mp h
    have hmessage := Value.bind_asObject_eq_some.mp hms
    have hchat : chatMessage body = .object ms := by
      rw [chatMessage, hchoice, Option.getD_some, Value.index_of_get hmessage]
    dsimp only at h
    split at h
    · cases h
    · cases h
      rw [pieces, hchat]
      exact List.rel_append (carries_chatContent ms) (carries_chatToolCalls hcalls)

/-- **A Responses body is read piece by piece.** -/
theorem forall₂_parseOutputs {body : Value} {outs : List AiOutput}
    (h : parseOutputs C body = .ok outs) :
    List.Forall₂ (Carries .responses C) (pieces .responses body) outs := by
  rw [parseOutputs] at h
  split at h
  · cases h
  · obtain ⟨items, hitems, h⟩ := okOr_bind_eq_ok.mp h
    rw [pieces, hitems, Option.getD_some]
    exact forall₂_of_collect (fun _ _ => carries_outputItem) h

/-- **A success delivers every piece once, in order**, and nothing else. -/
theorem forall₂_parseReply {protocol : ApiProtocol} {body : Value} {outs : List AiOutput}
    (h : parseReply protocol C body = .ok outs) :
    List.Forall₂ (Carries protocol C) (pieces protocol body) outs := by
  cases protocol with
  | responses => exact forall₂_parseOutputs h
  | chatCompletions => exact forall₂_parseChatOutputs h
  | anthropicMessages => exact forall₂_parseAnthropicOutputs h

/-- **All or nothing.** In every dialect, a parser that succeeds delivers exactly one call
for each tool item, with its name and arguments, and exactly one text for each string text,
in body order; and a tool item without a string name or without proper arguments, wherever
it stands, makes the parser fail. -/
theorem parseReply_all_or_nothing (protocol : ApiProtocol) (C : Codec) (body : Value) :
    (∀ outs, parseReply protocol C body = .ok outs →
      List.Forall₂ (Carries protocol C) (pieces protocol body) outs) ∧
    ((∃ item, .tool item ∈ pieces protocol body ∧
        (toolName protocol item = none ∨ toolArguments protocol C item = none)) →
      ∃ e, parseReply protocol C body = .error e) := by
  refine ⟨fun outs => forall₂_parseReply, ?_⟩
  rintro ⟨item, hitem, hbad⟩
  cases hparse : parseReply protocol C body with
  | error e => exact ⟨e, rfl⟩
  | ok outs =>
      obtain ⟨out, -, hcarries⟩ := exists_of_forall₂ (forall₂_parseReply hparse) hitem
      cases hcarries with
      | call hname harguments =>
          rcases hbad with hnone | hnone
          · rw [hnone] at hname
            cases hname
          · rw [hnone] at harguments
            cases harguments

end LayerKit
