import LayerKit.Auth
import LayerKit.Json
import LayerKit.Noninterference

/-!
# The Layer Server

The entrypoint `POST /v1/mcp` of `serve.rs`. A layer supplies a handler, here over any
state `σ` that its dispatcher reads and writes; the server gates it by the platform token
and speaks JSON-RPC. What a request leaves is `Served`: the result, the state, and the
calls of the dispatcher in order.

A header value is its bytes, and a request carries the reading of the clock it meets.

## Main results

* `rpc_cases`: a frame is answered from the catalogue alone, or by one call.
* `mcp_cases`: a request without a verified token is answered 401 from its headers alone;
  any other one is answered as its frame is, under the verified claims.
-/

open Json Text

namespace LayerKit

variable {σ : Type*}

/-! ### Requests and responses -/

/-- The status of a response. -/
abbrev StatusCode := UInt16

/-- A request, with the clock in unix seconds. -/
structure Request where
  headers : List (String × Bytes)
  body : Bytes
  now : Int64

/-- A response: its status, and its JSON body unless that is empty. -/
structure Response where
  status : StatusCode
  body : Option Value

/-- A header value as text: visible ASCII and tabs only. -/
def toStr (value : Bytes) : Option String :=
  if value.all fun b => (32 ≤ b && b < 127) || b == 9 then
    some (.ofList (value.map fun b => Char.ofNat b.toNat))
  else
    none

/-! ### Handlers -/

/-- A layer's dispatcher of methods, and its catalogue of tools. -/
structure McpHandler (σ : Type*) where
  dispatch : Claims → String → Value → σ → Except (StatusCode × Value) Value × σ
  tools : σ → List Value

/-- A call of the dispatcher. -/
structure DispatchCall where
  claims : Claims
  method : String
  params : Value

/-- What serving leaves: a result, the state and the calls of the dispatcher. -/
structure Served (σ : Type*) (α : Type*) where
  result : α
  state : σ
  calls : List DispatchCall

/-- The identity of a layer server and its secret. -/
structure ServeState where
  tool : String
  version : String
  platformSecret : Option Bytes

/-- `torii_parse` to `torii.parse`; any other name as it is. -/
def dispatchMethod (tool name : String) : String :=
  match stripPrefix name (tool ++ "_") with
  | some rest => tool ++ "." ++ rest
  | none => name

/-! ### JSON-RPC -/

/-- The revision of the protocol. -/
def protocolVersion : String := "2025-06-18"

/-- The frame that answers a request with a result. -/
def reply (id result : Value) : Value :=
  obj [("jsonrpc", .string "2.0"), ("id", id), ("result", result)]

/-- The frame that answers a request with an error of the protocol. -/
def fail (id : Value) (code : Int32) (message : String) : Value :=
  obj [("jsonrpc", .string "2.0"), ("id", id),
    ("error", obj [("code", .number (.ofInt32 code)), ("message", .string message)])]

/-- The result of a tool, failed or not. -/
def toolResult (C : Codec) (outcome : Except (StatusCode × Value) Value) : Value :=
  let (payload, isError) :=
    match outcome with
    | .ok result => (result, false)
    | .error (_, err) => (err, true)
  obj [("content", .array [obj [("type", .string "text"), ("text", .string (C.toString payload))]]),
    ("structuredContent", payload), ("isError", .bool isError)]

/-- Handle one JSON-RPC frame; no reply to a notification. -/
def rpc (C : Codec) (handler : McpHandler σ) (tool version : String) (claims : Claims)
    (req : Value) (s : σ) : Served σ (Option Value) :=
  match (req.get "id").filter fun v => !v.isNull with
  | none => ⟨none, s, []⟩
  | some id =>
      let method := ((req.get "method").bind Value.asStr).getD ""
      let params := (req.get "params").getD (obj [])
      match method with
      | "initialize" =>
          ⟨reply id (obj [("protocolVersion", .string protocolVersion),
            ("capabilities", obj [("tools", obj [])]),
            ("serverInfo", obj [("name", .string tool), ("version", .string version)])]), s, []⟩
      | "ping" => ⟨reply id (obj []), s, []⟩
      | "tools/list" => ⟨reply id (obj [("tools", .array (handler.tools s))]), s, []⟩
      | "tools/call" =>
          match (params.get "name").bind Value.asStr with
          | none => ⟨fail id (-32602) "tools/call requires `name`", s, []⟩
          | some name =>
              let args := (params.get "arguments").getD (obj [])
              let done := handler.dispatch claims (dispatchMethod tool name) args s
              ⟨reply id (toolResult C done.1), done.2,
                [⟨claims, dispatchMethod tool name, args⟩]⟩
      | other => ⟨fail id (-32601) ("method not found: " ++ other), s, []⟩

/-- **What a frame does**: it is answered from the catalogue alone, or by one call of the
dispatcher under the claims it came with, and then with the outcome under its id. -/
theorem rpc_cases (C : Codec) (tool version : String) (claims : Claims) (req : Value) :
    (∃ answer : List Value → Option Value, ∀ (handler : McpHandler σ) (s : σ),
      rpc C handler tool version claims req s = ⟨answer (handler.tools s), s, []⟩) ∨
    (∃ (method : String) (params id : Value), ∀ (handler : McpHandler σ) (s : σ),
      rpc C handler tool version claims req s =
        ⟨some (reply id (toolResult C (handler.dispatch claims method params s).1)),
          (handler.dispatch claims method params s).2, [⟨claims, method, params⟩]⟩) := by
  unfold rpc
  split
  · exact .inl ⟨fun _ => none, fun _ _ => rfl⟩
  · next id _ =>
      dsimp only
      split
      · exact .inl ⟨fun _ => _, fun _ _ => rfl⟩
      · exact .inl ⟨fun _ => _, fun _ _ => rfl⟩
      · exact .inl ⟨fun tools => some (reply id (obj [("tools", .array tools)])), fun _ _ => rfl⟩
      · split
        · exact .inl ⟨fun _ => _, fun _ _ => rfl⟩
        · exact .inr ⟨_, _, id, fun _ _ => rfl⟩
      · exact .inl ⟨fun _ => _, fun _ _ => rfl⟩

/-! ### The entrypoint -/

/-- The token of a request: what follows `Bearer ` in its `Authorization` header, trimmed. -/
def bearer (r : Request) : Option String :=
  (((r.headers.lookup "authorization").bind toStr).bind (stripPrefix · "Bearer ")).map trim

/-- `POST /v1/mcp`. -/
def mcp (P : Primitives) (C : Codec) (S : ServeState) (handler : McpHandler σ) (r : Request)
    (s : σ) : Served σ Response :=
  match S.platformSecret with
  | none => ⟨⟨401, some (obj [("error", .string "auth_disabled")])⟩, s, []⟩
  | some secret =>
      match (bearer r).bind (verify P secret S.tool r.now) with
      | none => ⟨⟨401, some (obj [("error", .string "invalid_platform_token")])⟩, s, []⟩
      | some claims =>
          match C.fromSlice r.body with
          | .error e =>
              ⟨⟨400, some (obj [("error", .string "bad_request"), ("detail", .string e)])⟩, s, []⟩
          | .ok req =>
              if (req.get "jsonrpc").isNone then
                ⟨⟨400, some (obj [("error", .string "bad_request"),
                  ("detail", .string "expected JSON-RPC 2.0 request")])⟩, s, []⟩
              else
                let served := rpc C handler S.tool S.version claims req s
                ⟨match served.result with
                  | some resp => ⟨200, some resp⟩
                  | none => ⟨202, none⟩, served.state, served.calls⟩

/-- The verified identity of a request: a secret is configured, the `Authorization` header
is `Bearer ` and a token, and the token is accepted for this tool at this time. -/
def Authenticated (P : Primitives) (S : ServeState) (r : Request) (claims : Claims) : Prop :=
  ∃ secret value token, S.platformSecret = some secret ∧
    r.headers.lookup "authorization" = some value ∧ toStr value = some ("Bearer " ++ token) ∧
    verify P secret S.tool r.now (trim token) = some claims

/-- The token is read off the `Authorization` header, whose text starts with `Bearer `. -/
theorem bearer_eq_some {r : Request} {token : String} :
    bearer r = some token ↔ ∃ value rest, r.headers.lookup "authorization" = some value ∧
      toStr value = some ("Bearer " ++ rest) ∧ trim rest = token := by
  simp only [bearer, Option.map_eq_some_iff, Option.bind_eq_some_iff, stripPrefix_eq_some]
  constructor
  · rintro ⟨rest, ⟨_, ⟨value, hvalue, hstr⟩, rfl⟩, htrim⟩
    exact ⟨value, rest, hvalue, hstr, htrim⟩
  · rintro ⟨value, rest, hvalue, hstr, htrim⟩
    exact ⟨rest, ⟨_, ⟨value, hvalue, hstr⟩, rfl⟩, htrim⟩

/-- **The checks of the entrypoint** find the verified identity. -/
theorem authenticated_iff {P : Primitives} {S : ServeState} {r : Request} {claims : Claims} :
    Authenticated P S r claims ↔ ∃ secret, S.platformSecret = some secret ∧
      (bearer r).bind (verify P secret S.tool r.now) = some claims := by
  simp only [Option.bind_eq_some_iff, bearer_eq_some]
  constructor
  · rintro ⟨secret, value, token, hsecret, hvalue, hstr, hverify⟩
    exact ⟨secret, hsecret, _, ⟨value, token, hvalue, hstr, rfl⟩, hverify⟩
  · rintro ⟨secret, hsecret, _, ⟨value, token, hvalue, hstr, rfl⟩, hverify⟩
    exact ⟨secret, value, token, hsecret, hvalue, hstr, hverify⟩

/-- **What a request does.** Without a verified token it is answered 401 from its headers
alone; otherwise it is answered from the catalogue alone, or by one call of the dispatcher
under the verified claims, whose outcome is the answer. -/
theorem mcp_cases (P : Primitives) (C : Codec) (S : ServeState) (r : Request) :
    ((∀ claims, ¬ Authenticated P S r claims) ∧ ∃ body,
      ∀ (handler : McpHandler σ) (s : σ), mcp P C S handler r s = ⟨⟨401, some body⟩, s, []⟩) ∨
    ∃ claims, Authenticated P S r claims ∧
      ((∃ answer : List Value → Response, ∀ (handler : McpHandler σ) (s : σ),
        mcp P C S handler r s = ⟨answer (handler.tools s), s, []⟩) ∨
      (∃ (method : String) (params id : Value), ∀ (handler : McpHandler σ) (s : σ),
        mcp P C S handler r s =
          ⟨⟨200, some (reply id (toolResult C (handler.dispatch claims method params s).1))⟩,
            (handler.dispatch claims method params s).2, [⟨claims, method, params⟩]⟩)) := by
  cases hsecret : S.platformSecret with
  | none =>
      refine .inl ⟨fun claims h => ?_, obj [("error", .string "auth_disabled")], ?_⟩
      · obtain ⟨secret, hsome, -⟩ := authenticated_iff.mp h
        rw [hsecret] at hsome
        cases hsome
      · intro handler s
        rw [mcp, hsecret]
  | some secret =>
      cases hclaims : (bearer r).bind (verify P secret S.tool r.now) with
      | none =>
          refine .inl ⟨fun claims h => ?_, obj [("error", .string "invalid_platform_token")],
            fun handler s => ?_⟩
          · obtain ⟨secret', hsome, hverify⟩ := authenticated_iff.mp h
            obtain rfl : secret = secret' := Option.some.inj (hsecret.symm.trans hsome)
            rw [hclaims] at hverify
            cases hverify
          · simp only [mcp, hsecret, hclaims]
      | some claims =>
          refine .inr ⟨claims, authenticated_iff.mpr ⟨secret, hsecret, hclaims⟩, ?_⟩
          simp only [mcp, hsecret, hclaims]
          -- past the gate, the body is rejected or its frame is handled
          cases C.fromSlice r.body with
          | error e => exact .inl ⟨fun _ => _, fun _ _ => rfl⟩
          | ok req =>
              cases hjson : (req.get "jsonrpc").isNone with
              | true =>
                  simp only [hjson, if_true]
                  exact .inl ⟨fun _ => _, fun _ _ => rfl⟩
              | false =>
                  simp only [hjson, Bool.false_eq_true, if_false]
                  rcases rpc_cases C S.tool S.version claims req with
                    ⟨answer, hrpc⟩ | ⟨method, params, id, hrpc⟩
                  · refine .inl ⟨fun tools => match answer tools with
                      | some resp => ⟨200, some resp⟩
                      | none => ⟨202, none⟩, fun handler s => ?_⟩
                    rw [hrpc]
                  · refine .inr ⟨method, params, id, fun handler s => ?_⟩
                    rw [hrpc]

/-- The server as a machine over the state of its handler. -/
def serveMachine (P : Primitives) (C : Codec) (S : ServeState) (handler : McpHandler σ) :
    Mealy σ Request (Response × List DispatchCall) where
  step s r :=
    let served := mcp P C S handler r s
    (served.state, served.result, served.calls)

end LayerKit
