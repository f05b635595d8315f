import LayerKit.Tools

/-!
# The Same Conversation

A request poses a conversation: one user message, or a list of messages some of which are
system texts (`Poses`). `readBody` reads the conversation back from a body of each dialect,
as the provider would: Responses takes a string for a user message and an array for the
messages, Chat Completions has messages, and Anthropic has messages and a system text of
its own.

The Responses and the Anthropic body hold the conversation as posed. The Chat Completions
body makes the whole input the content of its sole user message, so it holds the
conversation when that is one user message, and no list of messages
(`conversation_reaches`).

## Main results

* `conversation_reaches`: which bodies hold the conversation of the request.
-/

open Json Loop

namespace LayerKit

/-! ### Conversations -/

/-- The roles of system texts. -/
def isSystem (role : String) : Bool :=
  decide (role = "system" ∨ role = "developer")

/-- The system text, if there is one, and the other messages by role and content. -/
structure Conversation where
  system : Option String
  turns : List (String × Value)

/-- Several system texts are one, with blank lines between them. -/
def systemText (texts : List String) : Option String :=
  if texts.isEmpty then none else some ("\n\n".intercalate texts)

/-- The role and the content of a message. -/
def readTurn (message : Value) : Option (String × Value) := do
  let role ← (message.get "role").bind Value.asStr
  let content ← message.get "content"
  pure (role, content)

/-- The conversation of a list of messages with system texts among them. -/
def readMessages (messages : List Value) : Option Conversation := do
  let turns ← messages.mapM readTurn
  let texts ← (turns.filter fun turn => isSystem turn.1).mapM fun turn => turn.2.asStr
  pure ⟨systemText texts, turns.filter fun turn => !isSystem turn.1⟩

/-- **The conversation that a body holds**, read as the provider of the dialect does. -/
def readBody (protocol : ApiProtocol) (body : Value) : Option Conversation :=
  match protocol with
  | .responses =>
      match body.get "input" with
      | some (.string text) => some ⟨none, [("user", .string text)]⟩
      | some (.array items) => readMessages items
      | _ => none
  | .chatCompletions => do readMessages (← (← body.get "messages").asArray)
  | .anthropicMessages => do
      let turns ← (← (← body.get "messages").asArray).mapM readTurn
      pure ⟨(body.get "system").bind Value.asStr, turns⟩

/-- An item of an input is a message with the role and the content. -/
def IsMessage (item : Value) (message : String × String) : Prop :=
  item.get "role" = some (.string message.1) ∧ item.get "content" = some (.string message.2)

/-- **The conversation that an input poses**: a user message, or messages that are not all
system texts. -/
inductive Poses : Value → Conversation → Prop
  | text (text : String) : Poses (.string text) ⟨none, [("user", .string text)]⟩
  | messages {items : List Value} {messages : List (String × String)}
      (h : List.Forall₂ IsMessage items messages)
      (hturn : ∃ message ∈ messages, isSystem message.1 = false) :
      Poses (.array items)
        ⟨systemText ((messages.filter fun message => isSystem message.1).map Prod.snd),
          (messages.filter fun message => !isSystem message.1).map
            fun message => (message.1, .string message.2)⟩

/-! ### Reading messages -/

variable {items : List Value} {messages : List (String × String)}

/-- A list of messages is read turn by turn. -/
theorem mapM_readTurn (h : List.Forall₂ IsMessage items messages) :
    items.mapM readTurn = some (messages.map fun message => (message.1, .string message.2)) := by
  induction h with
  | nil => rfl
  | @cons item message items messages hitem _ ih =>
      rw [List.mapM_cons, ih, readTurn, hitem.1, hitem.2]
      rfl

/-- The texts of system messages. -/
theorem mapM_asStr (texts : List (String × String)) :
    (texts.map fun message => (message.1, Value.string message.2)).mapM
      (fun turn : String × Value => turn.2.asStr) = some (texts.map Prod.snd) := by
  induction texts with
  | nil => rfl
  | cons message texts ih =>
      rw [List.map_cons, List.mapM_cons, ih]
      rfl

/-- **A list of messages** is read as its system texts and the rest, in order. -/
theorem readMessages_eq (h : List.Forall₂ IsMessage items messages) :
    readMessages items = some
      ⟨systemText ((messages.filter fun message => isSystem message.1).map Prod.snd),
        (messages.filter fun message => !isSystem message.1).map
          fun message => (message.1, .string message.2)⟩ := by
  rw [readMessages, mapM_readTurn h]
  simp only [Option.bind_eq_bind, Option.bind_some, List.filter_map, Function.comp_def, mapM_asStr]
  rfl

/-- The message of a dialect. -/
def messageOf (message : String × String) : Value :=
  obj [("role", .string message.1), ("content", .string message.2)]

/-- The value of a message is one. -/
theorem isMessage_messageOf (message : String × String) :
    IsMessage (messageOf message) message := by
  rw [IsMessage, messageOf, Value.get_obj, Value.get_obj]
  exact ⟨rfl, rfl⟩

/-- An item with a role and a content, by its role. -/
theorem anthropicMessage_of {item content : Value} {role : String}
    (hrole : item.get "role" = some (.string role)) (hcontent : item.get "content" = some content)
    (split : List String × List Value) :
    anthropicMessage split item =
      if isSystem role then
        (okOr content.asStr unsupported).map fun text => (split.1 ++ [text], split.2)
      else .ok (split.1, split.2 ++ [obj [("role", .string role), ("content", content)]]) := by
  have hasStr : (item.index "role").asStr = some role := by
    rw [Value.index_of_get hrole]
    rfl
  rw [anthropicMessage, hasStr, hcontent, okOr_some, ok_bind, okOr_some, ok_bind]
  simp only [isSystem, decide_eq_true_eq]
  split
  · cases content.asStr <;> rfl
  · rfl

/-- One item of the input goes to the system texts or to the messages. -/
theorem anthropicMessage_eq {item : Value} {message : String × String} (h : IsMessage item message)
    (split : List String × List Value) :
    anthropicMessage split item = .ok
      (if isSystem message.1 then (split.1 ++ [message.2], split.2)
      else (split.1, split.2 ++ [messageOf message])) := by
  rw [anthropicMessage_of h.1 h.2]
  split <;> rfl

/-- **The split of an input** into system texts and messages, in order. -/
theorem foldlM_anthropicMessage (h : List.Forall₂ IsMessage items messages)
    (split : List String × List Value) :
    items.foldlM anthropicMessage split = .ok
      (split.1 ++ (messages.filter fun message => isSystem message.1).map Prod.snd,
        split.2 ++ (messages.filter fun message => !isSystem message.1).map messageOf) := by
  induction h generalizing split with
  | nil => simp [pure, Except.pure]
  | @cons item message items messages hitem _ ih =>
      rw [List.foldlM_cons, anthropicMessage_eq hitem, ok_bind, ih]
      cases hsystem : isSystem message.1 <;> simp [hsystem]

/-- The split of an input of messages, not all of which are system texts. -/
theorem anthropicMessages_array (h : List.Forall₂ IsMessage items messages)
    (hturn : ∃ message ∈ messages, isSystem message.1 = false) :
    anthropicMessages (.array items) = .ok
      ((messages.filter fun message => isSystem message.1).map Prod.snd,
        (messages.filter fun message => !isSystem message.1).map messageOf) := by
  obtain ⟨message, hmem, hrole⟩ := hturn
  have hne : ((messages.filter fun message => !isSystem message.1).map messageOf).isEmpty =
      false := by
    rw [List.isEmpty_eq_false_iff]
    exact List.ne_nil_of_mem
      (List.mem_map_of_mem (List.mem_filter.mpr ⟨hmem, by rw [hrole]; rfl⟩))
  rw [anthropicMessages, foldlM_anthropicMessage h, ok_bind, List.nil_append, List.nil_append, hne]
  rfl

/-- An input that poses a conversation splits into its system text and its messages. -/
theorem exists_split {input : Value} {conversation : Conversation} (h : Poses input conversation) :
    ∃ texts turns, anthropicMessages input = .ok (texts, turns) ∧
      systemText texts = conversation.system ∧
      turns.mapM readTurn = some conversation.turns := by
  cases h with
  | text text =>
      exact ⟨[], _, rfl, rfl, mapM_readTurn (.cons (isMessage_messageOf ("user", text)) .nil)⟩
  | messages h hturn =>
      refine ⟨_, _, anthropicMessages_array h hturn, rfl, mapM_readTurn ?_⟩
      rw [List.forall₂_map_left_iff]
      exact List.forall₂_same.mpr fun message _ => isMessage_messageOf message

/-! ### The bodies -/

/-- **The Responses body holds the conversation.** -/
theorem readBody_responses (cfg : AiConfig) {req : AiRequest} {conversation : Conversation}
    (h : Poses req.input conversation) :
    readBody .responses (buildRequestBody cfg req) = some conversation := by
  rw [readBody, get_input_buildRequestBody]
  generalize req.input = input at h
  cases h with
  | text text => rfl
  | messages h _ => exact readMessages_eq h

/-- The Chat Completions body has the whole input as its sole user message. -/
theorem readBody_chat (cfg : AiConfig) (req : AiRequest) :
    readBody .chatCompletions (buildChatRequestBody cfg req) =
      some ⟨none, [("user", req.input)]⟩ := by
  have hturn : readTurn (obj [("role", .string "user"), ("content", req.input)]) =
      some ("user", req.input) := by
    rw [readTurn, Value.get_obj, Value.get_obj]
    rfl
  simp only [readBody, get_messages_buildChatRequestBody, Option.bind_eq_bind, Option.bind_some]
  rw [Value.asArray, Option.bind_some, readMessages, List.mapM_cons, hturn]
  rfl

/-- **The Anthropic body holds the conversation**, wherever it can be built. -/
theorem readBody_anthropic {cfg : AiConfig} {req : AiRequest} {conversation : Conversation}
    (h : Poses req.input conversation) {body : Value}
    (hbody : buildAnthropicRequestBody cfg req = .ok body) :
    readBody .anthropicMessages body = some conversation := by
  obtain ⟨texts, turns, _, hsplit, -, hmessages, hsystem, -, -⟩ :=
    buildAnthropicRequestBody_eq_ok hbody
  obtain ⟨texts', turns', hsplit', htexts, hturns⟩ := exists_split h
  rw [hsplit] at hsplit'
  cases hsplit'
  have htext : (body.get "system").bind Value.asStr = systemText texts := by
    rw [hsystem, systemText]
    split <;> rfl
  simp only [readBody, hmessages, htext, htexts, Option.bind_eq_bind, Option.bind_some]
  rw [Value.asArray, Option.bind_some, hturns]
  rfl

/-- The Chat Completions body holds the conversation when that is one user message. -/
theorem readBody_chat_iff (cfg : AiConfig) {req : AiRequest} {conversation : Conversation}
    (h : Poses req.input conversation) :
    readBody .chatCompletions (buildChatRequestBody cfg req) = some conversation ↔
      ∃ text, req.input = .string text := by
  rw [readBody_chat]
  generalize req.input = input at h
  cases h with
  | text text => simp
  | @messages items messages h hturn =>
      -- The content of a message is a text, and the input is an array.
      refine ⟨fun heq => ?_, fun ⟨text, htext⟩ => by cases htext⟩
      obtain ⟨-, hturns⟩ := Conversation.mk.inj (Option.some.inj heq)
      have hmem : ("user", Value.array items) ∈ (messages.filter fun message =>
          !isSystem message.1).map fun message => (message.1, Value.string message.2) := by
        rw [← hturns]
        exact List.mem_singleton_self _
      obtain ⟨message, -, hmessage⟩ := List.mem_map.mp hmem
      cases (Prod.mk.inj hmessage).2

/-- **The same conversation, where there is one.** The Responses body and every Anthropic
body hold the conversation that the input of the request poses, and the Anthropic body can
be built when every tool has a name. The Chat Completions body has the whole input as the
content of its sole user message; this is the conversation exactly when the input is a
text. -/
theorem conversation_reaches (cfg : AiConfig) (req : AiRequest) (conversation : Conversation)
    (h : Poses req.input conversation) :
    readBody .responses (buildRequestBody cfg req) = some conversation ∧
      (∀ body, buildAnthropicRequestBody cfg req = .ok body →
        readBody .anthropicMessages body = some conversation) ∧
      ((∀ tool ∈ req.tools, Named tool) → ∃ body, buildAnthropicRequestBody cfg req = .ok body) ∧
      readBody .chatCompletions (buildChatRequestBody cfg req) =
        some ⟨none, [("user", req.input)]⟩ ∧
      (readBody .chatCompletions (buildChatRequestBody cfg req) = some conversation ↔
        ∃ text, req.input = .string text) := by
  refine ⟨readBody_responses cfg h, fun body hbody => readBody_anthropic h hbody, fun htools => ?_,
    readBody_chat cfg req, readBody_chat_iff cfg h⟩
  obtain ⟨texts, turns, hsplit, -⟩ := exists_split h
  exact exists_buildAnthropicRequestBody ⟨_, hsplit⟩
    fun tool htool => exists_anthropicTool.mpr (htools tool htool)

/-- A greeting with a system text before it. -/
def greeting : AiRequest :=
  { input := .array [messageOf ("system", "Be brief."), messageOf ("user", "hi")]
    tools := []
    toolChoice := none }

/-- The greeting poses its text under its system text. -/
theorem poses_greeting :
    Poses greeting.input ⟨some "Be brief.", [("user", .string "hi")]⟩ := by
  have h : List.Forall₂ IsMessage [messageOf ("system", "Be brief."), messageOf ("user", "hi")]
      [("system", "Be brief."), ("user", "hi")] :=
    .cons (isMessage_messageOf _) (.cons (isMessage_messageOf _) .nil)
  exact .messages h ⟨_, .tail _ (.head _), by decide⟩

/-- The case of the greeting. -/
theorem conversation_reaches_greeting :
    readBody .responses (buildRequestBody toolConfig greeting) =
        some ⟨some "Be brief.", [("user", .string "hi")]⟩ ∧
      (∀ body, buildAnthropicRequestBody toolConfig greeting = .ok body →
        readBody .anthropicMessages body =
          some ⟨some "Be brief.", [("user", .string "hi")]⟩) ∧
      ((∀ tool ∈ greeting.tools, Named tool) →
        ∃ body, buildAnthropicRequestBody toolConfig greeting = .ok body) ∧
      readBody .chatCompletions (buildChatRequestBody toolConfig greeting) =
        some ⟨none, [("user", greeting.input)]⟩ ∧
      (readBody .chatCompletions (buildChatRequestBody toolConfig greeting) =
        some ⟨some "Be brief.", [("user", .string "hi")]⟩ ↔
          ∃ text, greeting.input = .string text) :=
  conversation_reaches toolConfig greeting _ poses_greeting

/-- The Chat Completions body of the greeting holds another conversation. -/
theorem not_conversation_reaches :
    ¬ ∀ (cfg : AiConfig) (req : AiRequest) (conversation : Conversation),
      Poses req.input conversation → (∀ tool ∈ req.tools, Named tool) →
        readBody .responses (buildRequestBody cfg req) = some conversation ∧
          readBody .chatCompletions (buildChatRequestBody cfg req) = some conversation ∧
          ∃ body, buildAnthropicRequestBody cfg req = .ok body ∧
            readBody .anthropicMessages body = some conversation := by
  intro h
  obtain ⟨-, hchat, -⟩ := h toolConfig greeting _ poses_greeting (List.forall_mem_nil _)
  obtain ⟨text, htext⟩ := (readBody_chat_iff toolConfig poses_greeting).mp hchat
  cases htext

end LayerKit
