import LayerKit.Conversation

/-!
# System Texts and Messages

`anthropic_messages` sorts the items of an array into system texts and messages, for arbitrary
items. It succeeds exactly when every item is well formed and one of them is a message
(`exists_anthropicMessages_array`), and then each side has its items in order
(`anthropicMessages_array_eq_ok`). The content of a system item is checked to be a text; the
content of a message is only checked to be there, so a content that the Messages API does not
take is sent as it is (`refuses_contents_iff`).

## Main results

* `system_split`: the two sides of an array input in the body.
* `refuses_contents_iff`: when no content is sent that the Messages API does not take.
-/

open Json Loop

namespace LayerKit

/-! ### Items -/

/-- The item is for the system, by its role. -/
def isSystemItem (item : Value) : Bool :=
  ((item.get "role").bind Value.asStr).any isSystem

/-- A role, a content, and for the system a text. -/
structure WellFormedItem (item : Value) : Prop where
  role : ∃ role, item.get "role" = some (.string role)
  content : ∃ content, item.get "content" = some content
  text : isSystemItem item = true → ∃ text, item.get "content" = some (.string text)

/-- A system item and its text. -/
def IsText (item : Value) (text : String) : Prop :=
  item.get "content" = some (.string text)

/-- An item and the message that is sent for it: its role and its content, unchanged. -/
def IsTurn (item message : Value) : Prop :=
  ∃ role content, item.get "role" = some (.string role) ∧ item.get "content" = some content ∧
    message = obj [("role", .string role), ("content", content)]

/-- The side of an item is read off its role. -/
theorem isSystemItem_of_role {item : Value} {role : String}
    (h : item.get "role" = some (.string role)) : isSystemItem item = isSystem role := by
  rw [isSystemItem, h]
  rfl

/-- An item for the system has a role. -/
theorem role_of_isSystemItem {item : Value} (h : isSystemItem item = true) :
    ∃ role, item.get "role" = some (.string role) := by
  rw [isSystemItem] at h
  cases hrole : (item.get "role").bind Value.asStr with
  | none =>
      rw [hrole] at h
      cases h
  | some role => exact ⟨role, Value.bind_asStr_eq_some.mp hrole⟩

/-- **A well-formed item** has a text or a message, by its side. -/
theorem wellFormedItem_iff {item : Value} :
    WellFormedItem item ↔
      (isSystemItem item = true ∧ ∃ text, IsText item text) ∨
        (isSystemItem item = false ∧ ∃ message, IsTurn item message) := by
  constructor
  · rintro ⟨⟨role, hrole⟩, ⟨content, hcontent⟩, htext⟩
    cases hside : isSystemItem item with
    | true => exact .inl ⟨rfl, htext hside⟩
    | false => exact .inr ⟨rfl, _, role, content, hrole, hcontent, rfl⟩
  · rintro (⟨hside, text, htext⟩ | ⟨hside, _, role, content, hrole, hcontent, -⟩)
    · exact ⟨role_of_isSystemItem hside, ⟨_, htext⟩, fun _ => ⟨text, htext⟩⟩
    · refine ⟨⟨role, hrole⟩, ⟨content, hcontent⟩, fun h => ?_⟩
      rw [hside] at h
      cases h

/-- The items that are not for the system. -/
theorem mem_turns_iff {items : List Value} {item : Value} :
    item ∈ items.filter (fun item => !isSystemItem item) ↔
      item ∈ items ∧ isSystemItem item = false := by
  rw [List.mem_filter, Bool.not_eq_true']

/-! ### The split -/

/-- **One item goes to one side.** -/
theorem anthropicMessage_eq_ok {split split' : List String × List Value} {item : Value} :
    anthropicMessage split item = .ok split' ↔
      (isSystemItem item = true ∧
          ∃ text, IsText item text ∧ split' = (split.1 ++ [text], split.2)) ∨
        (isSystemItem item = false ∧
          ∃ message, IsTurn item message ∧ split' = (split.1, split.2 ++ [message])) := by
  constructor
  · intro h
    have hparts := h
    obtain ⟨role, hrole, hparts⟩ := okOr_bind_eq_ok.mp hparts
    obtain ⟨content, hcontent, -⟩ := okOr_bind_eq_ok.mp hparts
    have hget := Value.get_of_index_ne_null (Value.asStr_eq_some.mp hrole) nofun
    rw [anthropicMessage_of hget hcontent, ← isSystemItem_of_role hget] at h
    cases hside : isSystemItem item with
    | true =>
        rw [hside, if_pos rfl] at h
        cases htext : content.asStr with
        | none =>
            rw [htext] at h
            cases h
        | some text =>
            rw [htext] at h
            cases h
            rw [Value.asStr_eq_some] at htext
            exact .inl ⟨rfl, text, by rw [IsText, hcontent, htext], rfl⟩
    | false =>
        rw [hside, if_neg nofun] at h
        cases h
        exact .inr ⟨rfl, _, ⟨role, content, hget, hcontent, rfl⟩, rfl⟩
  · rintro (⟨hside, text, htext, rfl⟩ | ⟨hside, _, ⟨role, content, hrole, hcontent, rfl⟩, rfl⟩)
    · obtain ⟨role, hrole⟩ := role_of_isSystemItem hside
      rw [anthropicMessage_of hrole htext, ← isSystemItem_of_role hrole, hside]
      rfl
    · rw [anthropicMessage_of hrole hcontent, ← isSystemItem_of_role hrole, hside]
      rfl

/-- **The loop is a partition**: each side is a list of its items, in order. -/
theorem foldlM_anthropicMessage_eq_ok {items : List Value}
    {split split' : List String × List Value} :
    items.foldlM anthropicMessage split = .ok split' ↔
      ∃ texts messages, List.Forall₂ IsText (items.filter isSystemItem) texts ∧
        List.Forall₂ IsTurn (items.filter fun item => !isSystemItem item) messages ∧
        split' = (split.1 ++ texts, split.2 ++ messages) := by
  induction items generalizing split with
  | nil => simp [pure, Except.pure, eq_comm]
  | cons item items ih =>
      rw [List.foldlM_cons]
      constructor
      · intro h
        obtain ⟨next, hnext, h⟩ := bind_eq_ok.mp h
        obtain ⟨texts, messages, htexts, hmessages, rfl⟩ := ih.mp h
        rcases anthropicMessage_eq_ok.mp hnext with
          ⟨hside, text, htext, rfl⟩ | ⟨hside, message, hmessage, rfl⟩
        · refine ⟨text :: texts, messages, ?_, ?_, by simp⟩
          · rw [List.filter_cons_of_pos hside]
            exact .cons htext htexts
          · rw [List.filter_cons_of_neg (by simp [hside])]
            exact hmessages
        · refine ⟨texts, message :: messages, ?_, ?_, by simp⟩
          · rw [List.filter_cons_of_neg (by simp [hside])]
            exact htexts
          · rw [List.filter_cons_of_pos (by simp [hside])]
            exact .cons hmessage hmessages
      · rintro ⟨texts, messages, htexts, hmessages, rfl⟩
        refine bind_eq_ok.mpr ?_
        cases hside : isSystemItem item with
        | true =>
            rw [List.filter_cons_of_pos hside] at htexts
            rw [List.filter_cons_of_neg (by simp [hside])] at hmessages
            cases htexts with
            | cons htext htexts =>
                exact ⟨_, anthropicMessage_eq_ok.mpr (.inl ⟨hside, _, htext, rfl⟩),
                  ih.mpr ⟨_, _, htexts, hmessages, by simp⟩⟩
        | false =>
            rw [List.filter_cons_of_neg (by simp [hside])] at htexts
            rw [List.filter_cons_of_pos (by simp [hside])] at hmessages
            cases hmessages with
            | cons hmessage hmessages =>
                exact ⟨_, anthropicMessage_eq_ok.mpr (.inr ⟨hside, _, hmessage, rfl⟩),
                  ih.mpr ⟨_, _, htexts, hmessages, by simp⟩⟩

/-- **The split of an array** has the system texts and the messages in order, and at least one
message. -/
theorem anthropicMessages_array_eq_ok {items : List Value} {texts : List String}
    {messages : List Value} :
    anthropicMessages (.array items) = .ok (texts, messages) ↔
      List.Forall₂ IsText (items.filter isSystemItem) texts ∧
        List.Forall₂ IsTurn (items.filter fun item => !isSystemItem item) messages ∧
        messages ≠ [] := by
  constructor
  · intro h
    obtain ⟨split, hsplit, h⟩ := bind_eq_ok.mp h
    obtain ⟨texts', messages', htexts, hmessages, rfl⟩ := foldlM_anthropicMessage_eq_ok.mp hsplit
    split at h
    · cases h
    · next hne =>
        cases h
        rw [List.isEmpty_iff] at hne
        exact ⟨htexts, hmessages, hne⟩
  · rintro ⟨htexts, hmessages, hne⟩
    refine bind_eq_ok.mpr
      ⟨_, foldlM_anthropicMessage_eq_ok.mpr ⟨_, _, htexts, hmessages, rfl⟩, ?_⟩
    rw [List.nil_append, List.nil_append, if_neg (by rwa [List.isEmpty_iff])]
    rfl

/-- What splits is a text or an array. -/
theorem anthropicMessages_input {input : Value} {split : List String × List Value}
    (h : anthropicMessages input = .ok split) :
    (∃ text, input = .string text) ∨ ∃ items, input = .array items := by
  cases input with
  | string text => exact .inl ⟨text, rfl⟩
  | array items => exact .inr ⟨items, rfl⟩
  | _ => cases h

/-- **An array splits** exactly when every item is well formed and one of them is a message. -/
theorem exists_anthropicMessages_array {items : List Value} :
    (∃ split, anthropicMessages (.array items) = .ok split) ↔
      (∀ item ∈ items, WellFormedItem item) ∧ ∃ item ∈ items, isSystemItem item = false := by
  constructor
  · rintro ⟨⟨texts, messages⟩, h⟩
    obtain ⟨htexts, hmessages, hne⟩ := anthropicMessages_array_eq_ok.mp h
    constructor
    · intro item hitem
      rw [wellFormedItem_iff]
      cases hside : isSystemItem item with
      | true =>
          obtain ⟨text, -, htext⟩ :=
            exists_of_forall₂ htexts (List.mem_filter.mpr ⟨hitem, hside⟩)
          exact .inl ⟨rfl, text, htext⟩
      | false =>
          obtain ⟨message, -, hmessage⟩ :=
            exists_of_forall₂ hmessages (mem_turns_iff.mpr ⟨hitem, hside⟩)
          exact .inr ⟨rfl, message, hmessage⟩
    · obtain ⟨message, hmessage⟩ := List.exists_mem_of_ne_nil _ hne
      obtain ⟨item, hitem, -⟩ := exists_of_forall₂ hmessages.flip hmessage
      obtain ⟨hitem, hside⟩ := mem_turns_iff.mp hitem
      exact ⟨item, hitem, hside⟩
  · rintro ⟨hformed, item, hitem, hside⟩
    have htexts : ∀ item ∈ items.filter isSystemItem, ∃ text, IsText item text := by
      intro item hitem
      obtain ⟨hitem, hside⟩ := List.mem_filter.mp hitem
      exact (hformed item hitem).text hside
    have hmessages : ∀ item ∈ items.filter (fun item => !isSystemItem item),
        ∃ message, IsTurn item message := by
      intro item hitem
      obtain ⟨hitem, -⟩ := mem_turns_iff.mp hitem
      obtain ⟨⟨role, hrole⟩, ⟨content, hcontent⟩, -⟩ := hformed item hitem
      exact ⟨_, role, content, hrole, hcontent, rfl⟩
    obtain ⟨texts, htexts⟩ := exists_forall₂ htexts
    obtain ⟨messages, hmessages⟩ := exists_forall₂ hmessages
    refine ⟨(texts, messages), anthropicMessages_array_eq_ok.mpr ⟨htexts, hmessages, ?_⟩⟩
    obtain ⟨message, hmessage, -⟩ :=
      exists_of_forall₂ hmessages (mem_turns_iff.mpr ⟨hitem, hside⟩)
    exact List.ne_nil_of_mem hmessage

/-! ### The body -/

/-- The Anthropic body is built exactly when the input splits and every tool has a name. -/
theorem exists_buildAnthropicRequestBody_iff {cfg : AiConfig} {req : AiRequest} :
    (∃ body, buildAnthropicRequestBody cfg req = .ok body) ↔
      (∃ split, anthropicMessages req.input = .ok split) ∧ ∀ tool ∈ req.tools, Named tool := by
  constructor
  · rintro ⟨body, hbody⟩
    obtain ⟨system, messages, tools, hsplit, htools, -⟩ := buildAnthropicRequestBody_eq_ok hbody
    refine ⟨⟨_, hsplit⟩, fun tool htool => ?_⟩
    obtain ⟨t, -, ht⟩ := exists_of_forall₂ htools htool
    exact exists_anthropicTool.mp ⟨t, ht⟩
  · rintro ⟨hsplit, hnamed⟩
    exact exists_buildAnthropicRequestBody hsplit
      fun tool htool => exists_anthropicTool.mpr (hnamed tool htool)

/-- **The split is an exact partition.** Without tools, the Anthropic body of an array input is
built exactly when every item has a role and a content, every system item a text, and some item
is not for the system. The messages of the body are then those of the other items, in order,
and its system text is that of the system items, in order, and absent when there are none. -/
theorem system_split (cfg : AiConfig) (req : AiRequest) (items : List Value)
    (hinput : req.input = .array items) (htools : req.tools = []) :
    ((∃ body, buildAnthropicRequestBody cfg req = .ok body) ↔
      (∀ item ∈ items, WellFormedItem item) ∧ ∃ item ∈ items, isSystemItem item = false) ∧
    ∀ body, buildAnthropicRequestBody cfg req = .ok body →
      ∃ texts messages, List.Forall₂ IsText (items.filter isSystemItem) texts ∧
        List.Forall₂ IsTurn (items.filter fun item => !isSystemItem item) messages ∧
        body.get "messages" = some (.array messages) ∧
        body.get "system" = (systemText texts).map .string := by
  constructor
  · rw [exists_buildAnthropicRequestBody_iff, hinput, htools, exists_anthropicMessages_array]
    exact and_iff_left (List.forall_mem_nil _)
  · intro body hbody
    obtain ⟨texts, messages, _, hsplit, -, hmessages, hsystem, -⟩ :=
      buildAnthropicRequestBody_eq_ok hbody
    rw [hinput] at hsplit
    obtain ⟨htexts, hturns, -⟩ := anthropicMessages_array_eq_ok.mp hsplit
    refine ⟨texts, messages, htexts, hturns, hmessages, ?_⟩
    rw [hsystem, systemText]
    split <;> rfl

/-- The case of a system text and a greeting. -/
theorem system_split_greeting :
    ((∃ body, buildAnthropicRequestBody toolConfig greeting = .ok body) ↔
      (∀ item ∈ [messageOf ("system", "Be brief."), messageOf ("user", "hi")],
          WellFormedItem item) ∧
        ∃ item ∈ [messageOf ("system", "Be brief."), messageOf ("user", "hi")],
          isSystemItem item = false) ∧
    ∀ body, buildAnthropicRequestBody toolConfig greeting = .ok body →
      ∃ texts messages,
        List.Forall₂ IsText ([messageOf ("system", "Be brief."),
          messageOf ("user", "hi")].filter isSystemItem) texts ∧
        List.Forall₂ IsTurn ([messageOf ("system", "Be brief."),
          messageOf ("user", "hi")].filter fun item => !isSystemItem item) messages ∧
        body.get "messages" = some (.array messages) ∧
        body.get "system" = (systemText texts).map .string :=
  system_split toolConfig greeting _ rfl rfl

/-! ### Contents -/

/-- A content that the Messages API takes: a text or an array of blocks, which are objects. -/
def TakenContent (content : Value) : Prop :=
  (∃ text, content = .string text) ∨
    ∃ blocks, content = .array blocks ∧ ∀ block ∈ blocks, ∃ ms, block = .object ms

/-- A message that the Messages API takes. -/
def TakenMessage (message : Value) : Prop :=
  ∃ role content, message.get "role" = some (.string role) ∧ isSystem role = false ∧
    message.get "content" = some content ∧ TakenContent content

/-- **Refused, not sent**: what the Messages API cannot carry does not leave as a body. -/
structure RefusesContents (cfg : AiConfig) (req : AiRequest) : Prop where
  /-- A body has messages, and each is one that the API takes. -/
  taken : ∀ body, buildAnthropicRequestBody cfg req = .ok body →
    ∃ messages, body.get "messages" = some (.array messages) ∧ messages ≠ [] ∧
      ∀ message ∈ messages, TakenMessage message
  /-- An input that is neither a text nor an array is refused. -/
  shape : (∀ text, req.input ≠ .string text) → (∀ items, req.input ≠ .array items) →
    ∃ e, buildAnthropicRequestBody cfg req = .error e
  /-- So is an array with a content that the API does not take. -/
  refused : ∀ items, req.input = .array items →
    (∃ item ∈ items, ∃ content, item.get "content" = some content ∧ ¬ TakenContent content) →
      ∃ e, buildAnthropicRequestBody cfg req = .error e

/-- The message of an item is one that the API takes exactly when the content of the item is. -/
theorem takenMessage_iff {item message : Value} (h : IsTurn item message)
    (hside : isSystemItem item = false) :
    TakenMessage message ↔
      ∀ content, item.get "content" = some content → TakenContent content := by
  obtain ⟨role, content, hrole, hcontent, rfl⟩ := h
  rw [isSystemItem_of_role hrole] at hside
  have hget : ∀ k, (obj [("role", .string role), ("content", content)]).get k =
      [("content", content), ("role", .string role)].lookup k := fun k => Value.get_obj _ k
  rw [TakenMessage, hget, hget, hcontent]
  constructor
  · rintro ⟨_, _, -, -, ⟨⟩, htaken⟩ _ ⟨⟩
    exact htaken
  · exact fun htaken => ⟨role, content, rfl, hside, rfl, htaken content rfl⟩

/-- The messages of an array input are those that the API takes when the contents of its items
that are not for the system are. -/
theorem takenMessages_iff {items messages : List Value}
    (h : List.Forall₂ IsTurn (items.filter fun item => !isSystemItem item) messages) :
    (∀ message ∈ messages, TakenMessage message) ↔
      ∀ item ∈ items, isSystemItem item = false →
        ∀ content, item.get "content" = some content → TakenContent content := by
  constructor
  · intro htaken item hitem hside
    obtain ⟨message, hmessage, hturn⟩ :=
      exists_of_forall₂ h (mem_turns_iff.mpr ⟨hitem, hside⟩)
    exact (takenMessage_iff hturn hside).mp (htaken message hmessage)
  · intro htaken message hmessage
    obtain ⟨item, hitem, hturn⟩ := exists_of_forall₂ h.flip hmessage
    obtain ⟨hitem, hside⟩ := mem_turns_iff.mp hitem
    exact (takenMessage_iff hturn hside).mpr (htaken item hitem hside)

/-- The user message of a text is one that the API takes. -/
theorem takenMessage_text (text : String) :
    TakenMessage (obj [("role", .string "user"), ("content", .string text)]) :=
  ⟨"user", .string text, Value.get_obj _ _, rfl, Value.get_obj _ _, .inl ⟨text, rfl⟩⟩

/-- Only a text or an array is sent. -/
theorem input_of_built {cfg : AiConfig} {req : AiRequest} {body : Value}
    (hbody : buildAnthropicRequestBody cfg req = .ok body) :
    (∃ text, req.input = .string text) ∨ ∃ items, req.input = .array items := by
  obtain ⟨⟨_, hsplit⟩, -⟩ := exists_buildAnthropicRequestBody_iff.mp ⟨body, hbody⟩
  exact anthropicMessages_input hsplit

/-- What is known of an array that is sent. -/
theorem array_of_built {cfg : AiConfig} {req : AiRequest} {body : Value} {items : List Value}
    (hbody : buildAnthropicRequestBody cfg req = .ok body) (hinput : req.input = .array items) :
    (∀ item ∈ items, WellFormedItem item) ∧ (∃ item ∈ items, isSystemItem item = false) ∧
      ∀ tool ∈ req.tools, Named tool := by
  obtain ⟨hsplit, hnamed⟩ := exists_buildAnthropicRequestBody_iff.mp ⟨body, hbody⟩
  rw [hinput] at hsplit
  obtain ⟨hformed, hturn⟩ := exists_anthropicMessages_array.mp hsplit
  exact ⟨hformed, hturn, hnamed⟩

/-- **What the API does not take is refused** exactly when the input is no array, or the body
cannot be built for another reason, or every item that is not for the system has a text or an
array of objects. -/
theorem refuses_contents_iff (cfg : AiConfig) (req : AiRequest) :
    RefusesContents cfg req ↔
      ∀ items, req.input = .array items → (∀ item ∈ items, WellFormedItem item) →
        (∃ item ∈ items, isSystemItem item = false) → (∀ tool ∈ req.tools, Named tool) →
        ∀ item ∈ items, isSystemItem item = false →
          ∀ content, item.get "content" = some content → TakenContent content := by
  constructor
  · intro h items hinput hformed hturn hnamed
    have hbuilt : ∃ body, buildAnthropicRequestBody cfg req = .ok body :=
      exists_buildAnthropicRequestBody_iff.mpr
        ⟨hinput ▸ exists_anthropicMessages_array.mpr ⟨hformed, hturn⟩, hnamed⟩
    obtain ⟨body, hbody⟩ := hbuilt
    obtain ⟨messages, hmessages, -, htaken⟩ := h.taken body hbody
    obtain ⟨_, turns, _, hsplit, -, hget, -⟩ := buildAnthropicRequestBody_eq_ok hbody
    rw [hmessages] at hget
    cases hget
    rw [hinput] at hsplit
    obtain ⟨-, hturns, -⟩ := anthropicMessages_array_eq_ok.mp hsplit
    exact (takenMessages_iff hturns).mp htaken
  · intro h
    constructor
    · intro body hbody
      obtain ⟨_, messages, _, hsplit, -, hmessages, -⟩ := buildAnthropicRequestBody_eq_ok hbody
      refine ⟨messages, hmessages, ?_⟩
      rcases input_of_built hbody with ⟨text, hinput⟩ | ⟨items, hinput⟩
      · rw [hinput] at hsplit
        cases hsplit
        exact ⟨List.cons_ne_nil _ _, List.forall_mem_singleton.mpr (takenMessage_text text)⟩
      · obtain ⟨hformed, hturn, hnamed⟩ := array_of_built hbody hinput
        rw [hinput] at hsplit
        obtain ⟨-, hturns, hne⟩ := anthropicMessages_array_eq_ok.mp hsplit
        exact ⟨hne, (takenMessages_iff hturns).mpr (h items hinput hformed hturn hnamed)⟩
    · intro hstring harray
      cases hbody : buildAnthropicRequestBody cfg req with
      | error e => exact ⟨e, rfl⟩
      | ok body =>
          rcases input_of_built hbody with ⟨text, hinput⟩ | ⟨items, hinput⟩
          · exact absurd hinput (hstring text)
          · exact absurd hinput (harray items)
    · rintro items hinput ⟨item, hitem, content, hcontent, hno⟩
      cases hbody : buildAnthropicRequestBody cfg req with
      | error e => exact ⟨e, rfl⟩
      | ok body =>
          obtain ⟨hformed, hturn, hnamed⟩ := array_of_built hbody hinput
          refine absurd ?_ hno
          cases hside : isSystemItem item with
          | true =>
              -- a system item is lifted with a text only
              obtain ⟨text, htext⟩ := (hformed item hitem).text hside
              rw [hcontent] at htext
              exact .inl ⟨text, Option.some.inj htext⟩
          | false => exact h items hinput hformed hturn hnamed item hitem hside content hcontent

/-- A message without a text. -/
def nullContent : AiRequest :=
  { input := .array [obj [("role", .string "user"), ("content", .null)]]
    tools := []
    toolChoice := none }

/-- A content of `null` is sent. -/
theorem not_refuses_contents : ¬ ∀ cfg req, RefusesContents cfg req := by
  intro h
  have hfails := (h toolConfig nullContent).refused _ rfl
    ⟨_, List.mem_singleton_self _, .null, Value.get_obj _ _, by rintro (⟨_, ⟨⟩⟩ | ⟨_, ⟨⟩, -⟩)⟩
  obtain ⟨e, he⟩ := hfails
  have hbuilt : ∃ body, buildAnthropicRequestBody toolConfig nullContent = .ok body := ⟨_, rfl⟩
  obtain ⟨body, hbody⟩ := hbuilt
  rw [he] at hbody
  cases hbody

end LayerKit
