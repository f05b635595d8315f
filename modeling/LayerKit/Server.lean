import LayerKit.Advertised
import LayerKit.Config
import LayerKit.Simulation

/-!
# The Server of a Layer

The whole of `serve`: what it takes from the environment, its two routes, and the requests it
serves until the process exits. A layer gives it a dispatcher, and what the server adds to
it is a gate: seen from the dispatcher, a life of the server is one run of its calls, in the
order of the requests, from the state the layer started in to the state it is left in.

The framework's own answers are given (`Axum`): it answers a path or a method without a
route, and it may answer in the place of the entrypoint when it can't read the body, for one
because that is over its limit.

## Main results

* `dispatcher_simulation`: a server simulates its dispatcher.
* `server_behind_gate`: the calls of a server's life, and what each answer is.
-/

open Json

namespace LayerKit

variable {σ : Type}

/-! ### Starting -/

/-- The identity of a layer server and its defaults. -/
structure ServeConfig where
  tool : String
  defaultPort : UInt16
  defaultVersion : String
  gitSha : String

/-- A server that listens: its state, the commit it was built from, and its address. -/
structure Listening where
  state : ServeState
  gitSha : String
  addr : String

/-- What `serve` takes from the environment, under the tool's name in upper case. An empty
secret is no secret. -/
def serve (toUppercase : String → String) (env : Env) (config : ServeConfig) : Listening :=
  let pre := toUppercase config.tool
  { state :=
      { tool := config.tool
        version := (env (pre ++ "_VERSION")).getD config.defaultVersion
        platformSecret :=
          ((env (pre ++ "_PLATFORM_SECRET")).filter (· ≠ "")).map (·.toUTF8.data.toList) }
    gitSha := config.gitSha
    addr := "127.0.0.1:" ++ (env (pre ++ "_PORT")).getD (toString config.defaultPort.toNat) }

/-! ### Routes -/

/-- A request with its method and its path. -/
structure WebRequest where
  method : String
  path : String
  request : Request

/-- The framework's own answers, and how it reads a body. -/
structure Axum where
  notFound : Response
  methodNotAllowed : Response
  readBody : Bytes → Except Response Bytes

/-- `GET /healthz`. -/
def healthz (L : Listening) : Response :=
  ⟨200, some (obj [("service", .string L.state.tool), ("status", .string "ok"),
    ("version", .string L.state.version), ("git_sha", .string L.gitSha)])⟩

/-- Serve a request. A route for `GET` serves `HEAD` too, without the body. -/
def Listening.serveRequest (L : Listening) (A : Axum) (P : Primitives) (C : Codec)
    (handler : McpHandler σ) (r : WebRequest) (s : σ) : Served σ Response :=
  if r.path = "/healthz" then
    if r.method = "GET" then ⟨healthz L, s, []⟩
    else if r.method = "HEAD" then ⟨{ healthz L with body := none }, s, []⟩
    else ⟨A.methodNotAllowed, s, []⟩
  else if r.path = "/v1/mcp" then
    if r.method = "POST" then
      match A.readBody r.request.body with
      | .error resp => ⟨resp, s, []⟩
      | .ok body => mcp P C L.state handler { r.request with body := body } s
    else ⟨A.methodNotAllowed, s, []⟩
  else ⟨A.notFound, s, []⟩

/-- A request reaches the entrypoint with a body. -/
def WebRequest.Reaches (r : WebRequest) (A : Axum) (r' : Request) : Prop :=
  r.path = "/v1/mcp" ∧ r.method = "POST" ∧
    ∃ body, A.readBody r.request.body = .ok body ∧ r' = { r.request with body := body }

/-- What a dispatcher returns. -/
abbrev Dispatched := Except (StatusCode × Value) Value

/-- The dispatcher of a layer, as a machine. -/
def dispatchMachine (handler : McpHandler σ) : Mealy σ DispatchCall Dispatched where
  step s c := ((handler.dispatch c.claims c.method c.params s).2,
    (handler.dispatch c.claims c.method c.params s).1)

/-- The server as a machine, which answers with the response and with what was dispatched for
it, if anything was. -/
def Listening.machine (L : Listening) (A : Axum) (P : Primitives) (C : Codec)
    (handler : McpHandler σ) : Mealy σ WebRequest (Response × Option (DispatchCall × Dispatched))
    where
  step s r :=
    let served := L.serveRequest A P C handler r s
    (served.state, served.result, served.calls.head?.map fun c =>
      (c, (handler.dispatch c.claims c.method c.params s).1))

/-! ### What a request does -/

section Requests

variable {P : Primitives} {C : Codec} (handler : McpHandler σ)

/-- **A call through the entrypoint**: who made it, the frame that asked for it and the
response to that. -/
structure Called (P : Primitives) (C : Codec) (S : ServeState) (r : Request) (c : DispatchCall)
    (outcome : Dispatched) (resp : Response) : Prop where
  authenticated : Authenticated P S r c.claims
  asked : ∃ req id name, IsFrame C r.body req ∧ AnswersUnder req id ∧
    CallsTool req name c.params ∧ c.method = dispatchMethod S.tool name ∧
    resp = ⟨200, some (reply id (toolResult C outcome))⟩

/-- **What the entrypoint does**: nothing to the layer, or one call. -/
theorem mcp_calls (S : ServeState) (r : Request) (s : σ) :
    ((mcp P C S handler r s).calls = [] ∧ (mcp P C S handler r s).state = s) ∨
      ∃ c resp, Called P C S r c (handler.dispatch c.claims c.method c.params s).1 resp ∧
        mcp P C S handler r s =
          ⟨resp, (handler.dispatch c.claims c.method c.params s).2, [c]⟩ := by
  cases hsecret : S.platformSecret with
  | none =>
      left
      simp only [mcp, hsecret, and_self]
  | some secret =>
      cases hclaims : (bearer r).bind (verify P secret S.tool r.now) with
      | none =>
          left
          simp only [mcp, hsecret, hclaims, and_self]
      | some claims =>
          have hauth : Authenticated P S r claims :=
            authenticated_iff.mpr ⟨secret, hsecret, hclaims⟩
          cases hslice : C.fromSlice r.body with
          | error e =>
              left
              simp only [mcp, hsecret, hclaims, hslice, and_self]
          | ok req =>
              cases hjson : (req.get "jsonrpc").isNone with
              | true =>
                  left
                  simp only [mcp, hsecret, hclaims, hslice, hjson, if_true, and_self]
              | false =>
                  have hframe : IsFrame C r.body req :=
                    ⟨hslice, Option.isNone_eq_false_iff.mp hjson⟩
                  simp only [mcp, hsecret, hclaims, hslice, hjson, Bool.false_eq_true, if_false]
                  have hhandled := handled_rpc C handler S.tool S.version claims req s
                  generalize rpc C handler S.tool S.version claims req s = served at hhandled
                  cases hhandled with
                  | notification h => exact .inl ⟨rfl, rfl⟩
                  | answered hid hmethod hmem => exact .inl ⟨rfl, rfl⟩
                  | @called id args name hid hcall =>
                      exact .inr ⟨⟨claims, dispatchMethod S.tool name, args⟩, _,
                        ⟨hauth, req, id, name, hframe, hid, hcall, rfl, rfl⟩, rfl⟩
                  | invalidParams hid hmethod hno => exact .inl ⟨rfl, rfl⟩
                  | unknownMethod hid hmethod => exact .inl ⟨rfl, rfl⟩

/-- **What a server does with a request**: nothing to the layer, or one call through the
entrypoint. -/
theorem serveRequest_calls (L : Listening) (A : Axum) (r : WebRequest) (s : σ) :
    ((L.serveRequest A P C handler r s).calls = [] ∧
        (L.serveRequest A P C handler r s).state = s) ∨
      ∃ r' c resp, r.Reaches A r' ∧
        Called P C L.state r' c (handler.dispatch c.claims c.method c.params s).1 resp ∧
        L.serveRequest A P C handler r s =
          ⟨resp, (handler.dispatch c.claims c.method c.params s).2, [c]⟩ := by
  rw [Listening.serveRequest]
  by_cases hhealth : r.path = "/healthz"
  · left
    rw [if_pos hhealth]
    split
    · exact ⟨rfl, rfl⟩
    · split
      · exact ⟨rfl, rfl⟩
      · exact ⟨rfl, rfl⟩
  · rw [if_neg hhealth]
    by_cases hmcp : r.path = "/v1/mcp"
    · rw [if_pos hmcp]
      by_cases hpost : r.method = "POST"
      · rw [if_pos hpost]
        cases hbody : A.readBody r.request.body with
        | error resp => exact .inl ⟨rfl, rfl⟩
        | ok body =>
            rcases mcp_calls (P := P) (C := C) handler L.state
              { r.request with body := body } s with hnone | ⟨c, resp, hcalled, hserved⟩
            · exact .inl hnone
            · exact .inr ⟨_, c, resp, ⟨hmcp, hpost, body, hbody, rfl⟩, hcalled, hserved⟩
      · rw [if_neg hpost]
        exact .inl ⟨rfl, rfl⟩
    · rw [if_neg hmcp]
      exact .inl ⟨rfl, rfl⟩

end Requests

/-! ### The life of a server -/

section Life

variable {P : Primitives} {C : Codec}

/-- **A server simulates its dispatcher**: what is seen of a request is its call. -/
theorem dispatcher_simulation (L : Listening) (A : Axum) (handler : McpHandler σ) :
    Simulation (L.machine A P C handler) (dispatchMachine handler) (fun _ o => o.2)
      (fun s t => s = t) where
  silent := by
    rintro s _ r rfl hseen
    change ((L.serveRequest A P C handler r s).calls.head?.map _) = none at hseen
    change (L.serveRequest A P C handler r s).state = s
    rcases serveRequest_calls (P := P) (C := C) handler L A r s with
      ⟨-, hstate⟩ | ⟨r', c, resp, -, -, hserved⟩
    · exact hstate
    · rw [hserved] at hseen
      cases hseen
  visible := by
    rintro s _ r c o rfl hseen
    change ((L.serveRequest A P C handler r s).calls.head?.map _) = some (c, o) at hseen
    change _ ∧ (L.serveRequest A P C handler r s).state = _
    rcases serveRequest_calls (P := P) (C := C) handler L A r s with
      ⟨hcalls, -⟩ | ⟨r', c', resp, -, -, hserved⟩
    · rw [hcalls] at hseen
      cases hseen
    · rw [hserved] at hseen ⊢
      cases hseen
      exact ⟨rfl, rfl⟩

/-- **What the answer to a request is**: where something was dispatched, the request is an
authenticated call of the entrypoint and is answered with the outcome; and a health check is
answered with the identity of the server, the same at any time. -/
structure Answered (P : Primitives) (C : Codec) (L : Listening) (A : Axum) (r : WebRequest)
    (out : Response × Option (DispatchCall × Dispatched)) : Prop where
  called : ∀ c o, out.2 = some (c, o) → ∃ r', r.Reaches A r' ∧ Called P C L.state r' c o out.1
  health : r.path = "/healthz" → r.method = "GET" → out.1 = healthz L

/-- Each request is answered as the route and the framework ask. -/
theorem answered_machine (L : Listening) (A : Axum) (handler : McpHandler σ) (s : σ)
    (r : WebRequest) : Answered P C L A r ((L.machine A P C handler).step s r).2 where
  called c o hout := by
    change ((L.serveRequest A P C handler r s).calls.head?.map _) = some (c, o) at hout
    change ∃ r', _ ∧ Called P C L.state r' c o (L.serveRequest A P C handler r s).result
    rcases serveRequest_calls (P := P) (C := C) handler L A r s with
      ⟨hcalls, -⟩ | ⟨r', c', resp, hreaches, hcalled, hserved⟩
    · rw [hcalls] at hout
      cases hout
    · rw [hserved] at hout ⊢
      cases hout
      exact ⟨r', hreaches, hcalled⟩
  health hpath hmethod := by
    change (L.serveRequest A P C handler r s).result = healthz L
    rw [Listening.serveRequest, if_pos hpath, if_pos hmethod]

/-- A server has no secret when the variable is not set, or is set to the empty text. -/
theorem platformSecret_serve {toUppercase : String → String} {env : Env} {config : ServeConfig}
    (h : ∀ text, env (toUppercase config.tool ++ "_PLATFORM_SECRET") = some text → text = "") :
    (serve toUppercase env config).state.platformSecret = none := by
  rw [serve]
  cases henv : env (toUppercase config.tool ++ "_PLATFORM_SECRET") with
  | none => rfl
  | some text =>
      rw [h text henv]
      rfl

/-- **A layer behind its gate.** Start a server from any environment, and let it serve any
requests over any routes. The calls that are dispatched, in their order, make one run of the
layer's dispatcher from the state it started in, with the outcomes that the callers are
answered, and leave the state that the server leaves. Each of them was asked for by an
authenticated frame at `POST /v1/mcp`; every health check is answered alike; and under a
secret that is not set or empty nothing is dispatched, and the state stays as it was. -/
theorem server_behind_gate (toUppercase : String → String) (env : Env) (config : ServeConfig)
    (A : Axum) (P : Primitives) (C : Codec) (handler : McpHandler σ) (s : σ)
    (rs : List WebRequest) :
    let L := serve toUppercase env config
    let life := (L.machine A P C handler).run s rs
    let calls := observed (fun _ o => o.2) life.2
    (dispatchMachine handler).run s (calls.map Prod.fst) = (life.1, calls) ∧
      (∀ x ∈ life.2, Answered P C L A x.1 x.2) ∧
      ((∀ text, env (toUppercase config.tool ++ "_PLATFORM_SECRET") = some text → text = "") →
        calls = [] ∧ life.1 = s) := by
  intro L life calls
  obtain ⟨htranscript, hstate⟩ := (dispatcher_simulation (P := P) (C := C) L A handler).run
    (rfl : s = s) rs
  have hanswered : ∀ x ∈ life.2, Answered P C L A x.1 x.2 :=
    Mealy.run_forall (fun s r => answered_machine L A handler s r) s rs
  refine ⟨Prod.ext hstate.symm htranscript, hanswered, fun hempty => ?_⟩
  have hcalls : calls = [] := by
    refine List.filterMap_eq_nil_iff.mpr fun x hx => ?_
    cases hseen : x.2.2 with
    | none => exact hseen
    | some call =>
        -- a call would have been verified under a secret
        obtain ⟨r', -, hcalled⟩ := (hanswered x hx).called call.1 call.2 hseen
        obtain ⟨secret, hsecret, -⟩ := authenticated_iff.mp hcalled.authenticated
        rw [platformSecret_serve hempty] at hsecret
        cases hsecret
  refine ⟨hcalls, hstate.trans ?_⟩
  have hrun : observed (fun _ o => o.2) ((L.machine A P C handler).run s rs).2 = [] := hcalls
  rw [hrun]
  rfl

end Life

end LayerKit
