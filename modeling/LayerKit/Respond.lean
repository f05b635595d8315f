import LayerKit.Replies
import LayerKit.Requests

/-!
# One Provider Call

`respond_with_usage` of `openai.rs`: build the request, exchange it, decode the reply, parse
it in the configured dialect and account for its tokens. The network is a function from
the request sent to the outcome of the exchange. Where the reply gives no total, the two
token counts are added in 64 bits; a build with overflow checks panics where the sum does
not fit, any other one wraps.

The class of a failure is decided by how far the call got. Short of a decoded body it is
`other` (`exchange_eq_error`, `failsAs_exchange`); past it, the truncation mark of the
dialect decides between `outputBudget` and `schema` (`parseReply_truncated`,
`failsAs_parseReply`).

## Main results

* `error_classes`: the three classes, by the outcome of the exchange.
-/

open Json Loop

namespace LayerKit

/-! ### The exchange -/

/-- What is sent. -/
structure HttpRequest where
  url : String
  headers : List (String × String)
  body : Value

/-- How an exchange ends: it fails, or a response comes whose text may be unreadable and
whose JSON may not decode. -/
inductive HttpOutcome
  | sendFailed (e : String)
  | response (status : UInt16) (text : Option String) (json : Except String Value)

/-- The network. -/
abbrev Network := HttpRequest → HttpOutcome

/-- The exchange of one request, up to the decoded body. -/
def exchange (http : Network) (cfg : AiConfig) (req : AiRequest) : Except AiError Value := do
  let (url, body) ← endpointAndBody cfg req
  match http ⟨url, authHeaders cfg, body⟩ with
  | .sendFailed e => .error (.new ("ai request failed: " ++ e))
  | .response status text json =>
      if ¬ (200 ≤ status ∧ status < 300) then
        let message := text.getD ""
        .error (.new ("ai api status " ++ toString status ++ ": " ++ message))
      else
        match json with
        | .error e => .error (.new ("ai response decode failed: " ++ e))
        | .ok body => .ok body

/-- A body that came with a status of 2xx. -/
def Received (http : Network) (cfg : AiConfig) (req : AiRequest) (body : Value) : Prop :=
  ∃ url sent status text, endpointAndBody cfg req = .ok (url, sent) ∧
    http ⟨url, authHeaders cfg, sent⟩ = .response status text (.ok body) ∧
    200 ≤ status ∧ status < 300

/-- The request cannot be built or sent, the status is not 2xx, or the body does not decode. -/
def NotReceived (http : Network) (cfg : AiConfig) (req : AiRequest) : Prop :=
  (∃ e, endpointAndBody cfg req = .error e) ∨
    ∃ url sent, endpointAndBody cfg req = .ok (url, sent) ∧
      ((∃ e, http ⟨url, authHeaders cfg, sent⟩ = .sendFailed e) ∨
        ∃ status text json, http ⟨url, authHeaders cfg, sent⟩ = .response status text json ∧
          (¬ (200 ≤ status ∧ status < 300) ∨ ∃ e, json = .error e))

section Exchange

variable {http : Network} {cfg : AiConfig} {req : AiRequest}

/-- **The exchange gives a body** exactly when one is received. -/
theorem exchange_eq_ok {body : Value} :
    exchange http cfg req = .ok body ↔ Received http cfg req body := by
  constructor
  · intro h
    obtain ⟨⟨url, sent⟩, hbuild, h⟩ := bind_eq_ok.mp h
    dsimp only at h
    split at h
    · cases h
    · next status text json hhttp =>
        split at h
        · cases h
        · next hstatus =>
            rw [not_not] at hstatus
            split at h
            · cases h
            · cases h
              exact ⟨url, sent, status, text, hbuild, hhttp, hstatus⟩
  · rintro ⟨url, sent, status, text, hbuild, hhttp, hstatus⟩
    refine bind_eq_ok.mpr ⟨(url, sent), hbuild, ?_⟩
    dsimp only
    rw [hhttp]
    dsimp only
    rw [if_neg (not_not_intro hstatus)]

/-- One body comes at most. -/
theorem Received.unique {body body' : Value} (h : Received http cfg req body)
    (h' : Received http cfg req body') : body = body' :=
  Except.ok.inj ((exchange_eq_ok.mpr h).symm.trans (exchange_eq_ok.mpr h'))

/-- An exchange fails with no schema error. -/
theorem failsAs_exchange : FailsAs .other (exchange http cfg req) := by
  refine (failsAs_endpointAndBody cfg req).bind fun built => ?_
  dsimp only
  split
  · exact failsAs_error rfl
  · split
    · exact failsAs_error rfl
    · split
      · exact failsAs_error rfl
      · exact failsAs_ok _

/-- A body comes or it does not. -/
theorem notReceived_iff : NotReceived http cfg req ↔ ∀ body, ¬ Received http cfg req body := by
  constructor
  · rintro h body ⟨url, sent, status, text, hbuild, hhttp, hstatus⟩
    rcases h with ⟨e, hfail⟩ | ⟨url', sent', hbuild', h⟩
    · rw [hbuild] at hfail
      cases hfail
    · rw [hbuild] at hbuild'
      cases hbuild'
      rcases h with ⟨e, hsend⟩ | ⟨status', text', json, hresponse, h⟩
      · rw [hhttp] at hsend
        cases hsend
      · rw [hhttp] at hresponse
        cases hresponse
        rcases h with hno | ⟨e, hjson⟩
        · exact hno hstatus
        · cases hjson
  · intro hno
    cases hbuild : endpointAndBody cfg req with
    | error e => exact .inl ⟨e, hbuild⟩
    | ok built =>
        obtain ⟨url, sent⟩ := built
        refine .inr ⟨url, sent, hbuild, ?_⟩
        cases hhttp : http ⟨url, authHeaders cfg, sent⟩ with
        | sendFailed e => exact .inl ⟨e, rfl⟩
        | response status text json =>
            refine .inr ⟨status, text, json, rfl, ?_⟩
            cases json with
            | error e => exact .inr ⟨e, rfl⟩
            | ok body =>
                exact .inl fun hstatus => hno body ⟨url, sent, status, text, hbuild, hhttp, hstatus⟩

/-- **The exchange fails** exactly when no body is received. -/
theorem exchange_eq_error :
    (∃ e, exchange http cfg req = .error e) ↔ NotReceived http cfg req := by
  rw [notReceived_iff]
  simp only [← exchange_eq_ok]
  cases exchange http cfg req <;> simp

end Exchange

/-! ### The call -/

/-- How a call ends: it returns, or it panics on an overflow. -/
inductive Outcome
  | returned (r : Except AiError (List AiOutput × Option AiUsage))
  | panicked

/-- Fill in a missing total; `none` is the panic of an overflow check. -/
def withTotal (overflowChecks : Bool) (usage : AiUsage) : Option AiUsage :=
  match usage.totalTokens, usage.inputTokens, usage.outputTokens with
  | none, some input, some output =>
      if overflowChecks ∧ 2 ^ 64 ≤ input.toNat + output.toNat then
        none
      else
        some { usage with totalTokens := some (input + output) }
  | _, _, _ => some usage

/-- One provider call. -/
def respondWithUsage (C : Codec) (overflowChecks : Bool) (http : Network) (cfg : AiConfig)
    (req : AiRequest) : Outcome :=
  match exchange http cfg req with
  | .error e => .returned (.error e)
  | .ok body =>
      match parseReply cfg.apiProtocol C body with
      | .error e => .returned (.error e)
      | .ok outputs =>
          match parseUsage body with
          | none => .returned (.ok (outputs, none))
          | some usage =>
              match withTotal overflowChecks usage with
              | none => .panicked
              | some usage => .returned (.ok (outputs, some usage))

/-- The mark of a truncated reply, in each dialect. -/
def Truncated (protocol : ApiProtocol) (body : Value) : Prop :=
  match protocol with
  | .responses => body.index "status" = .string "incomplete" ∧
      (body.index "incomplete_details").index "reason" = .string "max_output_tokens"
  | .chatCompletions => ∃ choice choices, body.index "choices" = .array (choice :: choices) ∧
      choice.index "finish_reason" = .string "length"
  | .anthropicMessages => body.index "stop_reason" = .string "max_tokens"

section Classes

variable {C : Codec}

/-- **A truncated reply** is an exhausted budget, however complete its calls look. -/
theorem parseReply_truncated {protocol : ApiProtocol} {body : Value}
    (h : Truncated protocol body) :
    ∃ e, parseReply protocol C body = .error e ∧ e.kind = .outputBudget := by
  cases protocol with
  | responses =>
      obtain ⟨hstatus, hreason⟩ := h
      simp only [parseReply, parseOutputs, hstatus, hreason, Value.asStr, if_true,
        Option.getD_some]
      exact ⟨_, rfl, rfl⟩
  | chatCompletions =>
      obtain ⟨choice, choices, hchoices, hfinish⟩ := h
      simp only [parseReply, parseChatOutputs, hchoices, hfinish, Value.asArray, Value.asStr,
        Option.bind_some, List.head?_cons, okOr_some, ok_bind, if_true]
      exact ⟨_, rfl, rfl⟩
  | anthropicMessages =>
      have hstop : body.index "stop_reason" = .string "max_tokens" := h
      simp only [parseReply, parseAnthropicOutputs, hstop, Value.asStr, if_true]
      exact ⟨_, rfl, rfl⟩

/-- Collecting fails as reading an element does. -/
theorem failsAs_collect {α β : Type} {kind : AiErrorKind} {emit : α → Except AiError (List β)}
    (h : ∀ x, FailsAs kind (emit x)) (xs : List α) : FailsAs kind (collect emit xs) := by
  intro e he
  obtain ⟨x, -, hx⟩ := collect_eq_error he
  exact h x e hx

/-- Arguments that do not parse are a schema error. -/
theorem failsAs_jsonCall (label name arguments : String) :
    FailsAs .schema (jsonCall C label name arguments) := by
  rw [jsonCall]
  split
  · exact failsAs_error rfl
  · exact failsAs_ok _

/-- A block that is refused is a schema error. -/
theorem failsAs_anthropicBlock (block : Value) : FailsAs .schema (anthropicBlock C block) := by
  rw [anthropicBlock]
  split
  · split <;> exact failsAs_ok _
  · exact (failsAs_okOr rfl).bind fun name => (failsAs_okOr rfl).bind fun input => failsAs_ok _
  · exact failsAs_ok _

/-- A call of Chat Completions that is refused is a schema error. -/
theorem failsAs_chatToolCall (toolCall : Value) : FailsAs .schema (chatToolCall C toolCall) :=
  (failsAs_okOr rfl).bind fun _ => (failsAs_okOr rfl).bind fun _ => failsAs_jsonCall _ _ _

/-- An item that is refused is a schema error. -/
theorem failsAs_outputItem (item : Value) : FailsAs .schema (outputItem C item) := by
  rw [outputItem]
  split
  · split <;> exact failsAs_ok _
  · exact (failsAs_okOr rfl).bind fun _ => (failsAs_okOr rfl).bind fun _ => failsAs_jsonCall _ _ _
  · exact failsAs_ok _

/-- A Responses body that is refused is a schema error, unless it was cut off. -/
theorem failsAs_parseOutputs {body : Value} (h : ¬ Truncated .responses body) :
    FailsAs .schema (parseOutputs C body) := by
  rw [parseOutputs]
  dsimp only
  split
  · next hstatus =>
      rw [Value.asStr_eq_some] at hstatus
      split
      · next hreason =>
          refine absurd ⟨hstatus, ?_⟩ h
          cases hr : ((body.index "incomplete_details").index "reason").asStr with
          | none =>
              rw [hr] at hreason
              exact absurd hreason (by decide)
          | some reason =>
              rw [hr, Option.getD_some] at hreason
              rw [Value.asStr_eq_some.mp hr, hreason]
      · exact failsAs_error rfl
  · exact (failsAs_okOr rfl).bind fun items => failsAs_collect failsAs_outputItem items

/-- A list of calls that is refused is a schema error. -/
theorem failsAs_chatToolCalls (message : Members) : FailsAs .schema (chatToolCalls C message) := by
  rw [chatToolCalls]
  split
  · exact failsAs_collect failsAs_chatToolCall _
  · exact failsAs_ok _

/-- A Chat Completions body that is refused is a schema error, unless it was cut off. -/
theorem failsAs_parseChatOutputs {body : Value} (h : ¬ Truncated .chatCompletions body) :
    FailsAs .schema (parseChatOutputs C body) := by
  refine FailsAs.bind_of (failsAs_okOr rfl) fun choice hchoice => ?_
  split
  · next hfinish =>
      rw [okOr_eq_ok] at hchoice
      obtain ⟨choices, hchoices, hhead⟩ := Option.bind_eq_some_iff.mp hchoice
      obtain ⟨rest, rfl⟩ := List.head?_eq_some_iff.mp hhead
      exact absurd ⟨choice, rest, Value.asArray_eq_some.mp hchoices,
        Value.asStr_eq_some.mp hfinish⟩ h
  · refine FailsAs.bind (failsAs_okOr rfl) fun message =>
      FailsAs.bind (failsAs_chatToolCalls message) fun calls => ?_
    dsimp only
    split
    · exact failsAs_error rfl
    · exact failsAs_ok _

/-- An Anthropic body that is refused is a schema error, unless it was cut off. -/
theorem failsAs_parseAnthropicOutputs {body : Value} (h : ¬ Truncated .anthropicMessages body) :
    FailsAs .schema (parseAnthropicOutputs C body) := by
  rw [parseAnthropicOutputs]
  split
  · next hstop => exact absurd (Value.asStr_eq_some.mp hstop) h
  · refine FailsAs.bind (failsAs_okOr rfl) fun blocks =>
      FailsAs.bind (failsAs_collect failsAs_anthropicBlock blocks) fun out => ?_
    split
    · exact failsAs_error rfl
    · exact failsAs_ok _

/-- **Any other failure of a parser** is one of schema. -/
theorem failsAs_parseReply {protocol : ApiProtocol} {body : Value}
    (h : ¬ Truncated protocol body) : FailsAs .schema (parseReply protocol C body) := by
  cases protocol with
  | responses => exact failsAs_parseOutputs h
  | chatCompletions => exact failsAs_parseChatOutputs h
  | anthropicMessages => exact failsAs_parseAnthropicOutputs h

/-! ### The classes of a failed call -/

/-- The call returns an error of the class. -/
def FailsWith (kind : AiErrorKind) (outcome : Outcome) : Prop :=
  ∃ e, outcome = .returned (.error e) ∧ e.kind = kind

variable {overflowChecks : Bool} {http : Network} {cfg : AiConfig} {req : AiRequest}

/-- Without a body, a call fails in no particular class. -/
theorem failsWith_of_notReceived (h : NotReceived http cfg req) (kind : AiErrorKind) :
    FailsWith kind (respondWithUsage C overflowChecks http cfg req) ↔ kind = .other := by
  obtain ⟨e, he⟩ := exchange_eq_error.mpr h
  have hkind := failsAs_exchange e he
  rw [FailsWith, respondWithUsage, he]
  constructor
  · rintro ⟨_, ⟨⟩, rfl⟩
    exact hkind
  · rintro rfl
    exact ⟨e, rfl, hkind⟩

/-- With a body, a call fails exactly when the parser does, and with its error. -/
theorem respond_of_received {body : Value} (h : Received http cfg req body) (e : AiError) :
    respondWithUsage C overflowChecks http cfg req = .returned (.error e) ↔
      parseReply cfg.apiProtocol C body = .error e := by
  rw [respondWithUsage, exchange_eq_ok.mpr h]
  dsimp only
  cases parseReply cfg.apiProtocol C body with
  | error e' => simp
  | ok outputs =>
      dsimp only
      cases parseUsage body with
      | none => simp
      | some usage =>
          dsimp only
          cases withTotal overflowChecks usage <;> simp

/-- The class of a failed call over a body is decided by the truncation mark. -/
theorem failsWith_of_received {body : Value} (h : Received http cfg req body)
    (kind : AiErrorKind) :
    FailsWith kind (respondWithUsage C overflowChecks http cfg req) ↔
      (∃ e, parseReply cfg.apiProtocol C body = .error e) ∧
        ((Truncated cfg.apiProtocol body ∧ kind = .outputBudget) ∨
          (¬ Truncated cfg.apiProtocol body ∧ kind = .schema)) := by
  rw [FailsWith]
  simp only [respond_of_received h]
  by_cases htrunc : Truncated cfg.apiProtocol body
  · obtain ⟨e, he, hkind⟩ := parseReply_truncated (C := C) htrunc
    simp [he, htrunc, hkind, eq_comm]
  · have hschema := failsAs_parseReply (C := C) htrunc
    constructor
    · rintro ⟨e, he, rfl⟩
      exact ⟨⟨e, he⟩, .inr ⟨htrunc, hschema e he⟩⟩
    · rintro ⟨⟨e, he⟩, ⟨ht, -⟩ | ⟨-, rfl⟩⟩
      · exact absurd ht htrunc
      · exact ⟨e, he, hschema e he⟩

/-- **The classes partition the failures.** For every configuration, request and outcome of
the exchange, a call fails with an exhausted budget exactly when a body came that carries
the truncation mark of the dialect, with a schema failure exactly when one came without the
mark and the parser refuses it, and in no particular class exactly when none came. A
truncated body never yields outputs. -/
theorem error_classes (C : Codec) (overflowChecks : Bool) (http : Network) (cfg : AiConfig)
    (req : AiRequest) :
    (FailsWith .outputBudget (respondWithUsage C overflowChecks http cfg req) ↔
      ∃ body, Received http cfg req body ∧ Truncated cfg.apiProtocol body) ∧
    (FailsWith .schema (respondWithUsage C overflowChecks http cfg req) ↔
      ∃ body, Received http cfg req body ∧ ¬ Truncated cfg.apiProtocol body ∧
        ∃ e, parseReply cfg.apiProtocol C body = .error e) ∧
    (FailsWith .other (respondWithUsage C overflowChecks http cfg req) ↔
      NotReceived http cfg req) ∧
    (∀ body, Received http cfg req body → Truncated cfg.apiProtocol body →
      ∀ r, respondWithUsage C overflowChecks http cfg req ≠ .returned (.ok r)) := by
  by_cases hbody : ∃ body, Received http cfg req body
  · obtain ⟨body, hbody⟩ := hbody
    have hreceived : ¬ NotReceived http cfg req := fun hno =>
      notReceived_iff.mp hno body hbody
    refine ⟨?_, ?_, ?_, ?_⟩
    · rw [failsWith_of_received hbody]
      constructor
      · rintro ⟨-, ⟨htrunc, -⟩ | ⟨-, ⟨⟩⟩⟩
        exact ⟨body, hbody, htrunc⟩
      · rintro ⟨body', hbody', htrunc⟩
        obtain rfl := hbody.unique hbody'
        obtain ⟨e, he, -⟩ := parseReply_truncated (C := C) htrunc
        exact ⟨⟨e, he⟩, .inl ⟨htrunc, rfl⟩⟩
    · rw [failsWith_of_received hbody]
      constructor
      · rintro ⟨herror, ⟨-, ⟨⟩⟩ | ⟨htrunc, -⟩⟩
        exact ⟨body, hbody, htrunc, herror⟩
      · rintro ⟨body', hbody', htrunc, herror⟩
        obtain rfl := hbody.unique hbody'
        exact ⟨herror, .inr ⟨htrunc, rfl⟩⟩
    · rw [failsWith_of_received hbody]
      refine iff_of_false ?_ hreceived
      rintro ⟨-, ⟨-, ⟨⟩⟩ | ⟨-, ⟨⟩⟩⟩
    · intro body' hbody' htrunc r hr
      obtain ⟨e, he, -⟩ := parseReply_truncated (C := C) htrunc
      rw [(respond_of_received hbody' e).mpr he] at hr
      cases hr
  · rw [not_exists] at hbody
    have hno := notReceived_iff.mpr hbody
    rw [failsWith_of_notReceived hno, failsWith_of_notReceived hno, failsWith_of_notReceived hno]
    refine ⟨iff_of_false (by decide) ?_, iff_of_false (by decide) ?_, iff_of_true rfl hno,
      fun body h => absurd h (hbody body)⟩
    · rintro ⟨body, h, -⟩
      exact hbody body h
    · rintro ⟨body, h, -⟩
      exact hbody body h

end Classes

end LayerKit
