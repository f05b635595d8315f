import LayerKit.Serve

/-!
# The Frame Law

What one JSON-RPC frame does, whatever values its members have. A frame is handled in one
of five ways (`Handled`): as a notification, with a result from the server itself, by one
call of the dispatcher, or with one of two errors. The frame law reads off which of them it
is from the members `id`, `method` and `params`.

A tool that fails is not an error of the protocol: its payload comes back as a result, like
that of one that succeeds, and `isError` tells them apart.

## Main results

* `handled_rpc`: the five ways to handle a frame.
* `frame_law`: replies, calls and errors, by the members of the frame.
-/

open Json

namespace LayerKit

variable {σ : Type*}

/-! ### Reading a frame -/

/-- The frame has no id to answer under. -/
def IsNotification (req : Value) : Prop :=
  req.get "id" = none ∨ req.get "id" = some .null

/-- The frame is to be answered under the id. -/
def AnswersUnder (req id : Value) : Prop :=
  req.get "id" = some id ∧ id ≠ .null

/-- The frame asks for the method. -/
def HasMethod (req : Value) (method : String) : Prop :=
  req.get "method" = some (.string method)

/-- The methods that there are. -/
def methods : List String := ["initialize", "ping", "tools/list", "tools/call"]

/-- The frame calls the tool of a name with arguments, an empty object if there are none. -/
def CallsTool (req : Value) (name : String) (args : Value) : Prop :=
  HasMethod req "tools/call" ∧ ∃ params, req.get "params" = some params ∧
    params.get "name" = some (.string name) ∧ args = (params.get "arguments").getD (obj [])

/-- The payload of a tool, failed or not. -/
def payload : Except (StatusCode × Value) Value → Value
  | .ok result => result
  | .error (_, err) => err

/-- The tool failed. -/
def failed : Except (StatusCode × Value) Value → Bool
  | .ok _ => false
  | .error _ => true

/-- **The ways to handle a frame**, with what each leaves. -/
inductive Handled (C : Codec) (handler : McpHandler σ) (tool : String) (claims : Claims)
    (req : Value) (s : σ) : Served σ (Option Value) → Prop
  | notification (h : IsNotification req) : Handled C handler tool claims req s ⟨none, s, []⟩
  | answered {id result : Value} {method : String} (hid : AnswersUnder req id)
      (hmethod : HasMethod req method) (hmem : method ∈ ["initialize", "ping", "tools/list"]) :
      Handled C handler tool claims req s ⟨reply id result, s, []⟩
  | called {id args : Value} {name : String} (hid : AnswersUnder req id)
      (hcall : CallsTool req name args) :
      Handled C handler tool claims req s
        ⟨reply id (toolResult C (handler.dispatch claims (dispatchMethod tool name) args s).1),
          (handler.dispatch claims (dispatchMethod tool name) args s).2,
          [⟨claims, dispatchMethod tool name, args⟩]⟩
  | invalidParams {id : Value} {message : String} (hid : AnswersUnder req id)
      (hmethod : HasMethod req "tools/call") (hno : ∀ name args, ¬ CallsTool req name args) :
      Handled C handler tool claims req s ⟨fail id (-32602) message, s, []⟩
  | unknownMethod {id : Value} {message : String} (hid : AnswersUnder req id)
      (hmethod : ∀ method ∈ methods, ¬ HasMethod req method) :
      Handled C handler tool claims req s ⟨fail id (-32601) message, s, []⟩

/-- A frame is a notification or is answered under an id. -/
theorem isNotification_or (req : Value) : IsNotification req ∨ ∃ id, AnswersUnder req id := by
  cases hid : req.get "id" with
  | none => exact .inl (.inl hid)
  | some id =>
      by_cases hnull : id = .null
      · exact .inl (.inr (hnull ▸ hid))
      · exact .inr ⟨id, hid, hnull⟩

/-- A frame that is answered is no notification. -/
theorem AnswersUnder.not_isNotification {req id : Value} (h : AnswersUnder req id) :
    ¬ IsNotification req := by
  rintro (hid | hid)
  · rw [h.1] at hid
    cases hid
  · rw [h.1, Option.some.injEq] at hid
    exact h.2 hid

/-- A frame has one method. -/
theorem HasMethod.unique {req : Value} {method method' : String} (h : HasMethod req method)
    (h' : HasMethod req method') : method = method' := by
  rw [HasMethod, h, Option.some.injEq, Value.string.injEq] at h'
  exact h'

/-- A frame calls one tool with one value of the arguments. -/
theorem CallsTool.unique {req args args' : Value} {name name' : String}
    (h : CallsTool req name args) (h' : CallsTool req name' args') :
    name = name' ∧ args = args' := by
  obtain ⟨-, params, hparams, hname, rfl⟩ := h
  obtain ⟨-, params', hparams', hname', rfl⟩ := h'
  obtain rfl : params = params' := Option.some.inj (hparams.symm.trans hparams')
  rw [hname, Option.some.injEq, Value.string.injEq] at hname'
  exact ⟨hname', rfl⟩

/-! ### Handling a frame -/

section Reading

variable {req : Value}

/-- The id that the server finds is the one that it answers under. -/
theorem id_of_filter {id : Value} :
    ((req.get "id").filter fun v => !v.isNull) = some id ↔ AnswersUnder req id := by
  rw [Option.filter_eq_some_iff, AnswersUnder]
  cases id <;> simp [Value.isNull]

/-- The method that the server finds is that of the frame. -/
theorem hasMethod_iff {method : String} (hne : method ≠ "") :
    ((req.get "method").bind Value.asStr).getD "" = method ↔ HasMethod req method := by
  rw [HasMethod]
  cases hv : req.get "method" with
  | none => simp [hne.symm]
  | some v => cases v <;> simp [Value.asStr, hne.symm]

/-- The tool and the arguments that the server finds are those that the frame calls. -/
theorem callsTool_iff {name : String} (hmethod : HasMethod req "tools/call") :
    ((((req.get "params").getD (obj [])).get "name").bind Value.asStr) = some name ↔
      CallsTool req name ((((req.get "params").getD (obj [])).get "arguments").getD (obj [])) := by
  rw [CallsTool, and_iff_right hmethod, Value.bind_asStr_eq_some]
  cases req.get "params" with
  | none => simp [Value.get_obj]
  | some params => simp

end Reading

/-- **Every frame is handled in one of the ways.** -/
theorem handled_rpc (C : Codec) (handler : McpHandler σ) (tool version : String) (claims : Claims)
    (req : Value) (s : σ) :
    Handled C handler tool claims req s (rpc C handler tool version claims req s) := by
  rw [rpc]
  cases hid : (req.get "id").filter fun v => !v.isNull with
  | none =>
      rcases isNotification_or req with h | ⟨id, h⟩
      · exact .notification h
      · rw [id_of_filter.mpr h] at hid
        cases hid
  | some id =>
      rw [id_of_filter] at hid
      dsimp only
      split
      · next h => exact .answered hid ((hasMethod_iff (by decide)).mp h) (by decide)
      · next h => exact .answered hid ((hasMethod_iff (by decide)).mp h) (by decide)
      · next h => exact .answered hid ((hasMethod_iff (by decide)).mp h) (by decide)
      · next h =>
          have hmethod : HasMethod req "tools/call" := (hasMethod_iff (by decide)).mp h
          split
          · next hname =>
              refine .invalidParams hid hmethod fun name args hcall => ?_
              obtain ⟨-, params, hparams, hname', -⟩ := hcall
              rw [hparams, Option.getD_some, hname'] at hname
              cases hname
          · next name hname => exact .called hid ((callsTool_iff hmethod).mp hname)
      · next hinit hping hlist hcall =>
          refine .unknownMethod hid fun method hmem hmethod => ?_
          rw [← hasMethod_iff (by rintro rfl; revert hmem; decide)] at hmethod
          simp only [methods, List.mem_cons, List.not_mem_nil, or_false] at hmem
          rcases hmem with rfl | rfl | rfl | rfl
          · exact hinit hmethod
          · exact hping hmethod
          · exact hlist hmethod
          · exact hcall hmethod

/-! ### The law -/

/-- The code of an error reply. -/
def errorCode (resp : Value) : Option Value :=
  (resp.get "error").bind fun error => error.get "code"

/-- The reply has the version, the id of the frame and either a result or an error. -/
def WellFormedReply (req resp : Value) : Prop :=
  resp.get "jsonrpc" = some (.string "2.0") ∧ resp.get "id" = req.get "id" ∧
    ((resp.get "result").isSome = true ↔ resp.get "error" = none)

/-- The result of a call says whether the tool failed and has its payload, as it is and as
the text of its only content. -/
def CarriesOutcome (C : Codec) (outcome : Except (StatusCode × Value) Value) (result : Value) :
    Prop :=
  result.get "isError" = some (.bool (failed outcome)) ∧
    result.get "structuredContent" = some (payload outcome) ∧
    ∃ item text, result.get "content" = some (.array [item]) ∧
      item.get "type" = some (.string "text") ∧ item.get "text" = some (.string text) ∧
      C.fromStr text = .ok (payload outcome)

/-- **The frame law**, for what serving a frame leaves. -/
structure FrameLaw (C : Codec) (handler : McpHandler σ) (tool : String) (claims : Claims)
    (req : Value) (s : σ) (served : Served σ (Option Value)) : Prop where
  silent_iff : served.result = none ↔ IsNotification req
  reply : ∀ resp, served.result = some resp → WellFormedReply req resp
  called : ∀ name args, ¬ IsNotification req → CallsTool req name args →
    served.calls = [⟨claims, dispatchMethod tool name, args⟩] ∧
      served.state = (handler.dispatch claims (dispatchMethod tool name) args s).2 ∧
      ∃ resp result, served.result = some resp ∧ resp.get "result" = some result ∧
        CarriesOutcome C (handler.dispatch claims (dispatchMethod tool name) args s).1 result
  uncalled : (IsNotification req ∨ ∀ name args, ¬ CallsTool req name args) →
    served.calls = [] ∧ served.state = s
  invalidParams_iff : served.result.bind errorCode = some (.number (.ofInt32 (-32602))) ↔
    ¬ IsNotification req ∧ HasMethod req "tools/call" ∧ ∀ name args, ¬ CallsTool req name args
  unknownMethod_iff : served.result.bind errorCode = some (.number (.ofInt32 (-32601))) ↔
    ¬ IsNotification req ∧ ∀ method ∈ methods, ¬ HasMethod req method

/-- A result is a well-formed reply. -/
theorem wellFormedReply_reply {req id : Value} (hid : AnswersUnder req id) (result : Value) :
    WellFormedReply req (reply id result) := by
  simp only [WellFormedReply, LayerKit.reply, Value.get_obj, hid.1]
  exact ⟨rfl, rfl, iff_of_true rfl rfl⟩

/-- An error is a well-formed reply. -/
theorem wellFormedReply_fail {req id : Value} (hid : AnswersUnder req id) (code : Int32)
    (message : String) : WellFormedReply req (fail id code message) := by
  simp only [WellFormedReply, fail, Value.get_obj, hid.1]
  exact ⟨rfl, rfl, iff_of_false Bool.false_ne_true (Option.some_ne_none _)⟩

/-- A result has no error code. -/
theorem errorCode_reply (id result : Value) : errorCode (reply id result) = none := by
  rw [errorCode, reply, Value.get_obj]
  rfl

/-- An error has its code. -/
theorem errorCode_fail (id : Value) (code : Int32) (message : String) :
    errorCode (fail id code message) = some (.number (.ofInt32 code)) := by
  have herror : (fail id code message).get "error" =
      some (obj [("code", .number (.ofInt32 code)), ("message", .string message)]) := by
    rw [fail, Value.get_obj]
    rfl
  rw [errorCode, herror, Option.bind_some, Value.get_obj]
  rfl

/-- The result of a tool carries the outcome. -/
theorem carriesOutcome_toolResult {C : Codec} {outcome : Except (StatusCode × Value) Value}
    (h : C.Inverts (payload outcome)) : CarriesOutcome C outcome (toolResult C outcome) := by
  have hresult : toolResult C outcome =
      obj [("content", .array [obj [("type", .string "text"),
          ("text", .string (C.toString (payload outcome)))]]),
        ("structuredContent", payload outcome), ("isError", .bool (failed outcome))] := by
    cases outcome <;> rfl
  rw [hresult]
  simp only [CarriesOutcome, Value.get_obj]
  refine ⟨rfl, rfl, _, C.toString (payload outcome), rfl, ?_, ?_, h⟩
  · rw [Value.get_obj]
    rfl
  · rw [Value.get_obj]
    rfl

/-- The two codes differ. -/
theorem codes_ne : Number.ofInt32 (-32602) ≠ .ofInt32 (-32601) := by
  decide

/-- The law holds of each way to handle a frame. -/
theorem Handled.frameLaw {C : Codec} {handler : McpHandler σ} {tool : String} {claims : Claims}
    {req : Value} {s : σ} {served : Served σ (Option Value)}
    (hC : ∀ method params, C.Inverts (payload (handler.dispatch claims method params s).1))
    (h : Handled C handler tool claims req s served) :
    FrameLaw C handler tool claims req s served := by
  cases h with
  | notification h =>
      exact
        { silent_iff := iff_of_true rfl h
          reply := fun _ hresp => nomatch hresp
          called := fun _ _ hno => absurd h hno
          uncalled := fun _ => ⟨rfl, rfl⟩
          invalidParams_iff := iff_of_false nofun fun hno => hno.1 h
          unknownMethod_iff := iff_of_false nofun fun hno => hno.1 h }
  | @answered id result method hid hmethod hmem =>
      have hne : ¬ HasMethod req "tools/call" := fun hcall => by
        rw [hmethod.unique hcall] at hmem
        revert hmem
        decide
      have hknown : method ∈ methods := List.mem_append_left ["tools/call"] hmem
      exact
        { silent_iff := iff_of_false (Option.some_ne_none _) hid.not_isNotification
          reply := fun _ hresp => Option.some.inj hresp ▸ wellFormedReply_reply hid result
          called := fun _ _ _ hcall => absurd hcall.1 hne
          uncalled := fun _ => ⟨rfl, rfl⟩
          invalidParams_iff := iff_of_false (by simp [errorCode_reply]) fun h => hne h.2.1
          unknownMethod_iff := iff_of_false (by simp [errorCode_reply])
            fun h => h.2 method hknown hmethod }
  | @called id args name hid hcall =>
      exact
        { silent_iff := iff_of_false (Option.some_ne_none _) hid.not_isNotification
          reply := fun _ hresp => Option.some.inj hresp ▸ wellFormedReply_reply hid _
          called := fun name' args' _ hcall' => by
            obtain ⟨rfl, rfl⟩ := hcall.unique hcall'
            refine ⟨rfl, rfl, _, _, rfl, ?_, carriesOutcome_toolResult (hC _ _)⟩
            rw [reply, Value.get_obj]
            rfl
          uncalled := fun h => absurd hcall
            (h.elim (fun hsilent => absurd hsilent hid.not_isNotification) fun hno => hno name args)
          invalidParams_iff := iff_of_false (by simp [errorCode_reply])
            fun h => h.2.2 name args hcall
          unknownMethod_iff := iff_of_false (by simp [errorCode_reply])
            fun h => h.2 "tools/call" (by decide) hcall.1 }
  | @invalidParams id message hid hmethod hno =>
      exact
        { silent_iff := iff_of_false (Option.some_ne_none _) hid.not_isNotification
          reply := fun _ hresp => Option.some.inj hresp ▸ wellFormedReply_fail hid _ message
          called := fun name args _ hcall => absurd hcall (hno name args)
          uncalled := fun _ => ⟨rfl, rfl⟩
          invalidParams_iff := iff_of_true (errorCode_fail _ _ _)
            ⟨hid.not_isNotification, hmethod, hno⟩
          unknownMethod_iff := iff_of_false (by simp [errorCode_fail, codes_ne])
            fun h => h.2 "tools/call" (by decide) hmethod }
  | @unknownMethod id message hid hmethod =>
      exact
        { silent_iff := iff_of_false (Option.some_ne_none _) hid.not_isNotification
          reply := fun _ hresp => Option.some.inj hresp ▸ wellFormedReply_fail hid _ message
          called := fun _ _ _ hcall => absurd hcall.1 (hmethod "tools/call" (by decide))
          uncalled := fun _ => ⟨rfl, rfl⟩
          invalidParams_iff := iff_of_false (by simp [errorCode_fail, codes_ne.symm])
            fun h => hmethod "tools/call" (by decide) h.2.1
          unknownMethod_iff := iff_of_true (errorCode_fail _ _ _)
            ⟨hid.not_isNotification, hmethod⟩ }

/-- **The frame law.** A notification is met with silence and no call. Any other frame gets
one reply under its id. A call of a tool is one call of the dispatcher, whose payload comes
back as a result whether the tool failed or not; errors are for calls without a name and for
unknown methods. -/
theorem frame_law (C : Codec) (handler : McpHandler σ) (tool version : String) (claims : Claims)
    (req : Value) (s : σ)
    (hC : ∀ method params, C.Inverts (payload (handler.dispatch claims method params s).1)) :
    FrameLaw C handler tool claims req s (rpc C handler tool version claims req s) :=
  (handled_rpc C handler tool version claims req s).frameLaw hC

/-- A layer whose only tool is up, or down under any other name. -/
def upHandler : McpHandler Unit where
  dispatch _ method _ s :=
    if method = "test.up" then (.ok (.string "up"), s) else (.error (404, .string "down"), s)
  tools _ := []

/-- Strings without anything to escape, between quotes. -/
def plainCodec : Codec where
  toString
    | .string s => "\"" ++ s ++ "\""
    | _ => ""
  fromStr text :=
    if text = "\"up\"" then .ok (.string "up")
    else if text = "\"down\"" then .ok (.string "down")
    else .error "unexpected token"
  fromSlice _ := .error "unexpected token"

/-- What the handler answers is read back. -/
theorem inverts_upHandler (claims : Claims) (method : String) (params : Value) :
    plainCodec.Inverts (payload (upHandler.dispatch claims method params ()).1) := by
  by_cases h : method = "test.up"
  · simp only [upHandler, if_pos h]
    rfl
  · simp only [upHandler, if_neg h]
    rfl

/-- A frame that calls the tool. -/
def callFrame : Value :=
  obj [("jsonrpc", .string "2.0"), ("id", .string "1"), ("method", .string "tools/call"),
    ("params", obj [("name", .string "test_up")])]

/-- The law at a call of that handler. -/
theorem frame_law_callFrame :
    FrameLaw plainCodec upHandler "test" ⟨"w", none, "test", 0⟩ callFrame ()
      (rpc plainCodec upHandler "test" "0.1.0" ⟨"w", none, "test", 0⟩ callFrame ()) :=
  frame_law plainCodec upHandler "test" "0.1.0" ⟨"w", none, "test", 0⟩ callFrame ()
    (inverts_upHandler ⟨"w", none, "test", 0⟩)

end LayerKit
