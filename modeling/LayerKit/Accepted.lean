import LayerKit.Replies

/-!
# Which Replies Are Accepted

The parsers of the three dialects look alike, but they do not accept alike. A body is
`Accepted` when it bears no mark of an incomplete reply, has the list of items of its
dialect, each of its tool items is one that the loop takes (`Takes`), and, except in a
Responses body, it holds some piece at all. This is when the parser succeeds
(`exists_parseReply`).

Two expectations of a caller fail for what one parser checks and another does not.

* A delivered call has a name and an object of arguments: Chat Completions takes an empty
  name, and it and Responses take any JSON for arguments (`calls_wellFormed_iff`).
* A success delivers something: Responses takes a body without pieces
  (`reply_nonempty_iff`).

## Main results

* `exists_parseReply`: the parser of a dialect succeeds on the accepted bodies.
* `calls_wellFormed_iff`: exactly when every delivered call is well formed.
* `reply_nonempty_iff`: exactly when no success is empty.
-/

open Json Loop

namespace LayerKit

/-! ### Acceptance -/

/-- The body bears no mark of an incomplete reply and has the container of its dialect. -/
def Framed (protocol : ApiProtocol) (body : Value) : Prop :=
  match protocol with
  | .responses => body.index "status" ≠ .string "incomplete" ∧
      ∃ items, body.index "output" = .array items
  | .chatCompletions => ∃ choice choices message,
      body.index "choices" = .array (choice :: choices) ∧
        choice.index "finish_reason" ≠ .string "length" ∧ choice.index "message" = .object message
  | .anthropicMessages => body.index "stop_reason" ≠ .string "max_tokens" ∧
      ∃ blocks, body.index "content" = .array blocks

/-- The loop of the dialect takes the tool item. Only Chat Completions takes an empty
name. -/
def Takes (protocol : ApiProtocol) (C : Codec) (item : Value) : Prop :=
  ∃ name arguments, toolName protocol item = some name ∧
    (protocol = .chatCompletions ∨ name ≠ "") ∧ toolArguments protocol C item = some arguments

/-- **The accepted bodies** of a dialect. Only Responses accepts one without pieces. -/
def Accepted (protocol : ApiProtocol) (C : Codec) (body : Value) : Prop :=
  Framed protocol body ∧ (∀ item, .tool item ∈ pieces protocol body → Takes protocol C item) ∧
    (protocol = .responses ∨ pieces protocol body ≠ [])

variable {C : Codec}

/-! ### What one item needs -/

/-- A call whose arguments are a text is taken exactly when these parse. -/
theorem exists_jsonCall {label name arguments : String} :
    (∃ new, jsonCall C label name arguments = .ok new) ↔ (C.fromStr arguments).isOk = true := by
  simp [jsonCall_eq_ok]

/-- A Chat Completions call is pushed exactly when it is one that the parser takes. -/
theorem exists_chatToolCall {toolCall : Value} :
    (∃ new, chatToolCall C toolCall = .ok new) ↔ Takes .chatCompletions C toolCall := by
  rw [chatToolCall, Takes]
  simp only [exists_bind_eq_ok, okOr_eq_ok, exists_jsonCall, toolName, toolArguments,
    Option.filter_eq_some_iff]
  simp

/-- The parts of a message hold texts only, no calls. -/
theorem notMem_filterMap_partPiece {item : Value} {content : List Value} :
    .tool item ∉ content.filterMap partPiece := by
  intro h
  obtain ⟨part, -, hpart⟩ := List.mem_filterMap.mp h
  rw [partPiece] at hpart
  split at hpart
  · obtain ⟨s, -, hs⟩ := Option.map_eq_some_iff.mp hpart
    cases hs
  · cases hpart

/-- An item of `output` is read exactly when its call, if it is one, is taken. -/
theorem exists_outputItem {item : Value} :
    (∃ new, outputItem C item = .ok new) ↔
      ∀ tool, .tool tool ∈ itemPieces item → Takes .responses C tool := by
  rw [outputItem, itemPieces]
  split
  · refine iff_of_true ?_ fun tool htool => absurd htool notMem_filterMap_partPiece
    split <;> exact ⟨_, rfl⟩
  · simp only [List.mem_singleton, Piece.tool.injEq, forall_eq, Takes, exists_bind_eq_ok,
      okOr_eq_ok, exists_jsonCall, toolName, toolArguments, Option.filter_eq_some_iff]
    simp [and_assoc]
  · exact iff_of_true ⟨[], rfl⟩ fun tool htool => absurd htool List.not_mem_nil

/-- A block of `content` is read exactly when its call, if it is one, is taken. -/
theorem exists_anthropicBlock {block : Value} :
    (∃ new, anthropicBlock C block = .ok new) ↔
      ∀ tool, .tool tool ∈ blockPieces block → Takes .anthropicMessages C tool := by
  rw [anthropicBlock, blockPieces]
  split
  · refine iff_of_true (by split <;> exact ⟨_, rfl⟩) fun tool htool => ?_
    cases htext : (block.index "text").asStr <;> simp [htext] at htool
  · have hinput : ∀ ms, block.index "input" = .object ms ↔ block.get "input" = some (.object ms) :=
      fun ms => ⟨fun h => Value.get_of_index_ne_null h (by simp), Value.index_of_get⟩
    simp only [List.mem_singleton, Piece.tool.injEq, forall_eq, Takes, exists_bind_eq_ok,
      okOr_eq_ok, toolName, toolArguments, Option.filter_eq_some_iff, Option.map_eq_some_iff,
      Value.asObject_eq_some, Value.isObject_iff, hinput]
    simp [and_assoc, pure, Except.pure]
  · exact iff_of_true ⟨[], rfl⟩ fun tool htool => absurd htool List.not_mem_nil

/-! ### What a body needs -/

/-- A success is empty exactly when the body has no pieces. -/
theorem eq_nil_iff_of_parseReply {protocol : ApiProtocol} {body : Value} {outs : List AiOutput}
    (h : parseReply protocol C body = .ok outs) : outs = [] ↔ pieces protocol body = [] := by
  rw [← List.length_eq_zero_iff, ← List.length_eq_zero_iff, (forall₂_parseReply h).length_eq]

/-- A loop over items takes all of them when it takes their tool items. -/
theorem exists_collect_takes {protocol : ApiProtocol}
    {emit : Value → Except AiError (List AiOutput)} {parts : Value → List Piece}
    (hemit : ∀ x, (∃ new, emit x = .ok new) ↔ ∀ tool, .tool tool ∈ parts x → Takes protocol C tool)
    (xs : List Value) :
    (∃ out, collect emit xs = .ok out) ↔
      ∀ tool, .tool tool ∈ xs.flatMap parts → Takes protocol C tool := by
  simp only [exists_collect_eq_ok, hemit, List.mem_flatMap]
  constructor
  · rintro h tool ⟨x, hx, htool⟩
    exact h x hx tool htool
  · intro h x hx tool htool
    exact h tool ⟨x, hx, htool⟩

/-- The refusal of a reply without outputs. -/
theorem exists_unless_isEmpty {e : AiError} {out : List AiOutput} :
    (∃ outs, (if out.isEmpty then .error e else pure out : Except AiError (List AiOutput)) =
      .ok outs) ↔ out ≠ [] := by
  cases out with
  | nil => simp
  | cons a out => simp [pure, Except.pure]

/-- Outputs that carry pieces are there when the pieces are. -/
theorem exists_ne_nil {α : Type*} {x : Except AiError α} {f : α → List AiOutput} {ps : List Piece}
    {R : Piece → AiOutput → Prop} (h : ∀ a, x = .ok a → List.Forall₂ R ps (f a)) :
    (∃ a, x = .ok a ∧ f a ≠ []) ↔ (∃ a, x = .ok a) ∧ ps ≠ [] := by
  have hnil : ∀ a, x = .ok a → (f a = [] ↔ ps = []) := fun a ha => by
    rw [← List.length_eq_zero_iff, ← List.length_eq_zero_iff, (h a ha).length_eq]
  constructor
  · rintro ⟨a, ha, hne⟩
    exact ⟨⟨a, ha⟩, fun hps => hne ((hnil a ha).mpr hps)⟩
  · rintro ⟨⟨a, ha⟩, hne⟩
    exact ⟨a, ha, fun hfa => hne ((hnil a ha).mp hfa)⟩

/-- **A Responses body is accepted** exactly when its calls are taken. -/
theorem exists_parseOutputs {body : Value} {items : List Value}
    (hstatus : body.index "status" ≠ .string "incomplete")
    (hitems : body.index "output" = .array items) :
    (∃ outs, parseOutputs C body = .ok outs) ↔
      ∀ item, .tool item ∈ pieces .responses body → Takes .responses C item := by
  have hmark : (body.index "status").asStr ≠ some "incomplete" := fun h =>
    hstatus (Value.asStr_eq_some.mp h)
  rw [parseOutputs, if_neg hmark, pieces, hitems, Value.asArray, okOr_some, ok_bind,
    Option.getD_some]
  exact exists_collect_takes (fun _ => exists_outputItem) items

/-- **An Anthropic body is accepted** exactly when its calls are taken and it holds something. -/
theorem exists_parseAnthropicOutputs {body : Value} {blocks : List Value}
    (hstop : body.index "stop_reason" ≠ .string "max_tokens")
    (hblocks : body.index "content" = .array blocks) :
    (∃ outs, parseAnthropicOutputs C body = .ok outs) ↔
      (∀ item, .tool item ∈ pieces .anthropicMessages body → Takes .anthropicMessages C item) ∧
        pieces .anthropicMessages body ≠ [] := by
  have hmark : (body.index "stop_reason").asStr ≠ some "max_tokens" := fun h =>
    hstop (Value.asStr_eq_some.mp h)
  rw [parseAnthropicOutputs, if_neg hmark, pieces, hblocks, Value.asArray, okOr_some, ok_bind,
    Option.getD_some]
  simp only [exists_bind_eq_ok, exists_unless_isEmpty]
  have hcarries : ∀ out, collect (anthropicBlock C) blocks = .ok out →
      List.Forall₂ (Carries .anthropicMessages C) (blocks.flatMap blockPieces) (id out) :=
    fun out => forall₂_of_collect fun _ _ => carries_anthropicBlock
  exact (exists_ne_nil hcarries).trans
    (and_congr_left' (exists_collect_takes (fun _ => exists_anthropicBlock) blocks))

/-- The list of calls is read exactly when each of them is taken. -/
theorem exists_chatToolCalls {message : Members} :
    (∃ calls, chatToolCalls C message = .ok calls) ↔
      ∀ toolCall ∈ ((message.lookup "tool_calls").bind Value.asArray).getD [],
        Takes .chatCompletions C toolCall := by
  rw [chatToolCalls]
  split
  · next toolCalls htools =>
      simp only [htools, Option.getD_some, exists_collect_eq_ok, exists_chatToolCall]
  · next htools => simp [htools]

/-- **A Chat Completions body is accepted** exactly when its calls are taken and it holds something.
-/
theorem exists_parseChatOutputs {body choice : Value} {choices : List Value} {message : Members}
    (hchoices : body.index "choices" = .array (choice :: choices))
    (hfinish : choice.index "finish_reason" ≠ .string "length")
    (hmessage : choice.index "message" = .object message) :
    (∃ outs, parseChatOutputs C body = .ok outs) ↔
      (∀ item, .tool item ∈ pieces .chatCompletions body → Takes .chatCompletions C item) ∧
        pieces .chatCompletions body ≠ [] := by
  have hmark : (choice.index "finish_reason").asStr ≠ some "length" := fun h =>
    hfinish (Value.asStr_eq_some.mp h)
  have hget := Value.get_of_index_ne_null hmessage (by simp)
  have hchat : chatMessage body = .object message := by
    rw [chatMessage, hchoices, Value.asArray, Option.bind_some, List.head?_cons, Option.getD_some,
      hmessage]
  have htools : ∀ item, .tool item ∈ pieces .chatCompletions body ↔
      item ∈ ((message.lookup "tool_calls").bind Value.asArray).getD [] := by
    intro item
    rw [pieces, hchat, asArray_index_object]
    cases ((Value.object message).index "content").asStr <;> simp
  rw [parseChatOutputs, hchoices, Value.asArray, Option.bind_some, List.head?_cons, okOr_some,
    ok_bind, if_neg hmark, hget, Option.bind_some, Value.asObject, okOr_some, ok_bind]
  have hcarries : ∀ calls, chatToolCalls C message = .ok calls →
      List.Forall₂ (Carries .chatCompletions C) (pieces .chatCompletions body)
        (chatContent message ++ calls) := by
    intro calls hcalls
    rw [pieces, hchat]
    exact List.rel_append (carries_chatContent message) (carries_chatToolCalls hcalls)
  simp only [exists_bind_eq_ok, exists_unless_isEmpty, htools]
  exact (exists_ne_nil hcarries).trans (and_congr_left' exists_chatToolCalls)

/-- A parser that succeeds has a framed body. -/
theorem framed_of_parseReply {protocol : ApiProtocol} {body : Value} {outs : List AiOutput}
    (h : parseReply protocol C body = .ok outs) : Framed protocol body := by
  cases protocol with
  | responses =>
      simp only [parseReply, parseOutputs] at h
      split at h
      · cases h
      · next hstatus =>
          obtain ⟨items, hitems, -⟩ := okOr_bind_eq_ok.mp h
          exact ⟨fun hmark => hstatus (Value.asStr_eq_some.mpr hmark), items,
            Value.asArray_eq_some.mp hitems⟩
  | chatCompletions =>
      obtain ⟨choice, hchoice, h⟩ := okOr_bind_eq_ok.mp h
      obtain ⟨choices, hchoices, hhead⟩ := Option.bind_eq_some_iff.mp hchoice
      obtain ⟨rest, rfl⟩ := List.head?_eq_some_iff.mp hhead
      split at h
      · cases h
      · next hfinish =>
          obtain ⟨ms, hms, -⟩ := okOr_bind_eq_ok.mp h
          have hmessage := Value.bind_asObject_eq_some.mp hms
          exact ⟨choice, rest, ms, Value.asArray_eq_some.mp hchoices,
            fun hmark => hfinish (Value.asStr_eq_some.mpr hmark), Value.index_of_get hmessage⟩
  | anthropicMessages =>
      simp only [parseReply, parseAnthropicOutputs] at h
      split at h
      · cases h
      · next hstop =>
          obtain ⟨blocks, hblocks, -⟩ := okOr_bind_eq_ok.mp h
          exact ⟨fun hmark => hstop (Value.asStr_eq_some.mpr hmark), blocks,
            Value.asArray_eq_some.mp hblocks⟩

/-- **A parser succeeds on the accepted bodies**, and on no others. -/
theorem exists_parseReply {protocol : ApiProtocol} {body : Value} :
    (∃ outs, parseReply protocol C body = .ok outs) ↔ Accepted protocol C body := by
  by_cases hframed : Framed protocol body
  · rw [Accepted, and_iff_right hframed]
    cases protocol with
    | responses =>
        obtain ⟨hstatus, items, hitems⟩ := hframed
        exact (exists_parseOutputs hstatus hitems).trans (by simp)
    | chatCompletions =>
        obtain ⟨choice, choices, message, hchoices, hfinish, hmessage⟩ := hframed
        exact (exists_parseChatOutputs hchoices hfinish hmessage).trans (by simp)
    | anthropicMessages =>
        obtain ⟨hstop, blocks, hblocks⟩ := hframed
        exact (exists_parseAnthropicOutputs hstop hblocks).trans (by simp)
  · refine iff_of_false ?_ fun h => hframed h.1
    rintro ⟨outs, h⟩
    exact hframed (framed_of_parseReply h)

/-! ### Well-formed calls -/

/-- The call has a name, and its arguments parse as an object. -/
def ToolCall.WellFormed (C : Codec) (call : ToolCall) : Prop :=
  call.name ≠ "" ∧ ∃ ms, C.fromStr call.arguments = .ok (.object ms)

/-- A tool item that makes a malformed call: an empty name, where it is taken, or arguments
that are JSON and no object. -/
def MakesMalformed (protocol : ApiProtocol) (C : Codec) (item : Value) : Prop :=
  match protocol with
  | .responses => ∃ arguments v, item.index "arguments" = .string arguments ∧
      C.fromStr arguments = .ok v ∧ v.isObject = false
  | .chatCompletions => (item.index "function").index "name" = .string "" ∨
      ∃ arguments v, (item.index "function").index "arguments" = .string arguments ∧
        C.fromStr arguments = .ok v ∧ v.isObject = false
  | .anthropicMessages => False

/-- A text of arguments is that of an object, unless it is that of another value. -/
theorem exists_object_iff {v : Value} {arguments : String}
    (h : v.asStr.filter (fun a => (C.fromStr a).isOk) = some arguments) :
    (∃ ms, C.fromStr arguments = .ok (.object ms)) ↔
      ¬ ∃ arguments' w, v = .string arguments' ∧ C.fromStr arguments' = .ok w ∧
        w.isObject = false := by
  obtain ⟨hstring, hjson⟩ := Option.filter_eq_some_iff.mp h
  obtain rfl := Value.asStr_eq_some.mp hstring
  simp only [Value.string.injEq, exists_and_left, exists_eq_left', not_exists, not_and,
    Bool.not_eq_false, Value.isObject_iff]
  constructor
  · rintro ⟨ms, hms⟩ w hw
    exact ⟨ms, Except.ok.inj (hw.symm.trans hms)⟩
  · intro hobject
    cases hparse : C.fromStr arguments with
    | error e =>
        rw [hparse] at hjson
        cases hjson
    | ok w =>
        obtain ⟨ms, rfl⟩ := hobject w hparse
        exact ⟨ms, rfl⟩

/-- A tool item that is taken makes a well-formed call, or is one of the others. -/
theorem wellFormed_iff {protocol : ApiProtocol} {item : Value} {name arguments : String}
    (hname : toolName protocol item = some name)
    (hnamed : protocol = .chatCompletions ∨ name ≠ "")
    (harguments : toolArguments protocol C item = some arguments)
    (hprint : protocol = .anthropicMessages → ∀ ms, item.index "input" = .object ms →
      C.Inverts (.object ms)) :
    ToolCall.WellFormed C ⟨name, arguments⟩ ↔ ¬ MakesMalformed protocol C item := by
  cases protocol with
  | responses =>
      exact (and_iff_right (hnamed.resolve_left (by decide))).trans (exists_object_iff harguments)
  | chatCompletions =>
      have hempty : (item.index "function").index "name" = .string "" ↔ name = "" := by
        rw [Value.asStr_eq_some.mp hname, Value.string.injEq]
      rw [MakesMalformed, not_or, hempty]
      exact and_congr_right' (exists_object_iff harguments)
  | anthropicMessages =>
      obtain ⟨ms, hms, rfl⟩ := Option.map_eq_some_iff.mp harguments
      exact iff_of_true
        ⟨hnamed.resolve_left (by decide), ms, hprint rfl ms (Value.asObject_eq_some.mp hms)⟩ id

/-- A reply with a nameless call. -/
def namelessReply : Value :=
  .object [("choices", .array [.object [("message", .object [("tool_calls", .array [.object
    [("function", .object [("arguments", .string "\x7b\x7d"), ("name", .string "")])]])])]])]

/-- A codec that prints and parses the empty object. -/
def emptyObjectCodec : Codec where
  toString _ := "\x7b\x7d"
  fromStr s := if s = "\x7b\x7d" then .ok (.object []) else .error "expected value"
  fromSlice _ := .error "expected value"

/-- A nameless call of a Chat Completions reply is delivered. -/
theorem not_calls_wellFormed :
    ¬ ∀ (protocol : ApiProtocol) (C : Codec) (body : Value),
      (∀ item ms, .tool item ∈ pieces .anthropicMessages body →
        item.index "input" = .object ms → C.Inverts (.object ms)) →
      ∀ outs, parseReply protocol C body = .ok outs →
        ∀ call, .toolCall call ∈ outs → call.WellFormed C := by
  intro h
  have hparse : parseReply .chatCompletions emptyObjectCodec namelessReply =
      .ok [.toolCall ⟨"", "\x7b\x7d"⟩] := rfl
  have hnone : ∀ item ms, .tool item ∈ pieces .anthropicMessages namelessReply →
      item.index "input" = .object ms → emptyObjectCodec.Inverts (.object ms) :=
    fun item ms hitem => absurd hitem List.not_mem_nil
  exact (h _ _ _ hnone _ hparse _ List.mem_cons_self).1 rfl

/-- **When every delivered call is well formed**: exactly when the body is refused, or no
tool item of it has arguments that are JSON and no object, in Responses and Chat
Completions, or an empty name, in Chat Completions. -/
theorem calls_wellFormed_iff (protocol : ApiProtocol) (C : Codec) (body : Value)
    (hprint : ∀ item ms, .tool item ∈ pieces .anthropicMessages body →
      item.index "input" = .object ms → C.Inverts (.object ms)) :
    (∀ outs, parseReply protocol C body = .ok outs →
      ∀ call, .toolCall call ∈ outs → call.WellFormed C) ↔
    ¬ (Accepted protocol C body ∧
      ∃ item, .tool item ∈ pieces protocol body ∧ MakesMalformed protocol C item) := by
  -- a call that is delivered and the item that it carries are well formed together
  have hiff : ∀ {item name arguments}, .tool item ∈ pieces protocol body →
      Takes protocol C item → toolName protocol item = some name →
      toolArguments protocol C item = some arguments →
      (ToolCall.WellFormed C ⟨name, arguments⟩ ↔ ¬ MakesMalformed protocol C item) := by
    rintro item name arguments hitem ⟨name', -, hname', hnamed, -⟩ hname harguments
    obtain rfl := Option.some.inj (hname'.symm.trans hname)
    refine wellFormed_iff hname hnamed harguments ?_
    rintro rfl ms hms
    exact hprint item ms hitem hms
  constructor
  · rintro hall ⟨haccepted, item, hitem, hbad⟩
    obtain ⟨outs, hparse⟩ := exists_parseReply.mpr haccepted
    obtain ⟨out, hout, hcarries⟩ := exists_of_forall₂ (forall₂_parseReply hparse) hitem
    cases hcarries with
    | call hname harguments =>
        have hcall := hall outs hparse _ hout
        exact (hiff hitem (haccepted.2.1 item hitem) hname harguments).mp hcall hbad
  · intro hno outs hparse call hcall
    have haccepted := exists_parseReply.mp ⟨outs, hparse⟩
    obtain ⟨piece, hpiece, hcarries⟩ :=
      exists_of_forall₂ (List.Forall₂.flip (forall₂_parseReply hparse)) hcall
    cases hcarries with
    | @call item _ _ hname harguments =>
        refine (hiff hpiece (haccepted.2.1 item hpiece) hname harguments).mpr fun hbad => ?_
        exact hno ⟨haccepted, item, hpiece, hbad⟩

/-- A reply with a call without arguments. -/
def bareCallReply : Value :=
  .object [("content", .array [.object [("input", .object []), ("name", .string "a"),
    ("type", .string "tool_use")]])]

/-- The case of a call without a name: it is accepted, and its call is malformed. -/
theorem calls_wellFormed_iff_bareCallReply :
    (∀ outs, parseReply .anthropicMessages emptyObjectCodec bareCallReply = .ok outs →
      ∀ call, .toolCall call ∈ outs → call.WellFormed emptyObjectCodec) ↔
    ¬ (Accepted .anthropicMessages emptyObjectCodec bareCallReply ∧
      ∃ item, .tool item ∈ pieces .anthropicMessages bareCallReply ∧
        MakesMalformed .anthropicMessages emptyObjectCodec item) :=
  calls_wellFormed_iff .anthropicMessages emptyObjectCodec bareCallReply (by
    intro item ms hitem hms
    obtain rfl := Piece.tool.inj (List.mem_singleton.mp hitem)
    obtain rfl : [] = ms := Value.object.inj hms
    rfl)

/-! ### Empty replies -/

/-- A failed reply of the Responses API. -/
def failedReply : Value :=
  .object [("output", .array []), ("status", .string "failed")]

/-- A failed reply is delivered as an empty one. -/
theorem not_reply_nonempty :
    ¬ ∀ (protocol : ApiProtocol) (C : Codec) (body : Value),
      (∀ outs, parseReply protocol C body = .ok outs → outs ≠ []) ∧
        (pieces protocol body = [] → ∃ e, parseReply protocol C body = .error e) := by
  intro h
  exact (h .responses emptyObjectCodec failedReply).1 [] rfl rfl

/-- **When no success is empty**: in Chat Completions and Anthropic Messages, and for a
Responses body that is incomplete, has no list of items, or holds a string text or a tool
item. -/
theorem reply_nonempty_iff (protocol : ApiProtocol) (C : Codec) (body : Value) :
    ((∀ outs, parseReply protocol C body = .ok outs → outs ≠ []) ∧
      (pieces protocol body = [] → ∃ e, parseReply protocol C body = .error e)) ↔
    ¬ (protocol = .responses ∧ Framed .responses body ∧ pieces .responses body = []) := by
  constructor
  · rintro ⟨hnonempty, -⟩ ⟨rfl, hframed, hnone⟩
    have haccepted : Accepted .responses C body :=
      ⟨hframed, fun item hitem => absurd (hnone ▸ hitem) List.not_mem_nil, .inl rfl⟩
    obtain ⟨outs, hparse⟩ := exists_parseReply.mpr haccepted
    exact hnonempty outs hparse ((eq_nil_iff_of_parseReply hparse).mpr hnone)
  · intro hno
    -- an accepted body without pieces would be the excluded one
    have hpieces : ∀ outs, parseReply protocol C body = .ok outs → pieces protocol body ≠ [] := by
      intro outs hparse hnone
      obtain ⟨hframed, -, rfl | hne⟩ := exists_parseReply.mp ⟨outs, hparse⟩
      · exact hno ⟨rfl, hframed, hnone⟩
      · exact hne hnone
    constructor
    · intro outs hparse hnil
      exact hpieces outs hparse ((eq_nil_iff_of_parseReply hparse).mp hnil)
    · intro hnone
      cases hparse : parseReply protocol C body with
      | error e => exact ⟨e, rfl⟩
      | ok outs => exact absurd hnone (hpieces outs hparse)

end LayerKit
