import LayerKit.Isolation
import LayerKit.Serve

/-!
# The Gate of a Layer Server

A layer server is one component with its store: a request that passes the token check is
dispatched under the verified claims, and the handler works through the store scoped to
their workspace and project. `Gated` is what the server promises of each exchange; with
the tenant filter of the store, the check on the workspace in the token yields the promise
about whole runs, that the unscoped namespace is out of reach.

The requests are those the framework hands on: a body above its limit is answered 413 before
the entrypoint sees the request.

A handler that touches the store only through its scope is a `ScopedHandler`: each of its
methods is a program over the operations of the store, which may branch on every answer
and on the memory of the handler, but has no other access to the table.

## Main results

* `mcp_gated`: every exchange is gated.
* `authentication_gate`: at every point of every run the exchange is gated, and the unscoped
  rows are neither read nor written.
-/

open Json

namespace LayerKit

variable {σ μ T : Type} {P : Primitives} {C : Codec} {S : ServeState}

/-! ### Every exchange -/

/-- **What the server promises of one exchange** at a state of the handler, of what it leaves:
the result, the state and the calls. -/
structure Gated (P : Primitives) (C : Codec) (S : ServeState) (handler : McpHandler σ)
    (r : Request) (s : σ) (out : Served σ Response) : Prop where
  /-- The dispatcher is called at most once. -/
  once : out.calls.length ≤ 1
  /-- Without a call nothing has been dispatched: the state stays as it was, and any other
  dispatcher behind the same catalogue would leave the same result. -/
  silent : out.calls = [] → out.state = s ∧
    ∀ other : McpHandler σ, other.tools s = handler.tools s → mcp P C S other r s = out
  /-- With a call, that one dispatch is all that happens to the state, and its outcome is the
  answer. -/
  dispatched : ∀ c, out.calls = [c] →
    out.state = (handler.dispatch c.claims c.method c.params s).2 ∧
    ∃ id, out.result =
      ⟨200, some (reply id (toolResult C (handler.dispatch c.claims c.method c.params s).1))⟩
  /-- A call is made under the verified claims. -/
  verified : ∀ c ∈ out.calls, Authenticated P S r c.claims
  /-- They are unexpired, for this tool and of a workspace. -/
  current : ∀ c ∈ out.calls,
    r.now ≤ c.claims.exp ∧ c.claims.tool = S.tool ∧ c.claims.workspace ≠ ""
  /-- Without them the answer is 401, and nothing is dispatched. -/
  refused : (∀ claims, ¬ Authenticated P S r claims) → out.result.status = 401 ∧ out.calls = []

/-- Verified claims are unexpired, for this tool and of a workspace. -/
theorem Authenticated.current {r : Request} {claims : Claims} (h : Authenticated P S r claims) :
    r.now ≤ claims.exp ∧ claims.tool = S.tool ∧ claims.workspace ≠ "" := by
  obtain ⟨secret, value, token, -, -, -, hverify⟩ := h
  exact (verify_eq_some.mp hverify).2

/-- **Every exchange is gated.** -/
theorem mcp_gated (handler : McpHandler σ) (r : Request) (s : σ) :
    Gated P C S handler r s (mcp P C S handler r s) := by
  rcases mcp_cases P C S r with
    ⟨-, body, h⟩ | ⟨claims, hauth, ⟨answer, h⟩ | ⟨method, params, id, h⟩⟩
  · rw [h]
    exact ⟨Nat.zero_le _, fun _ => ⟨rfl, fun other _ => h other s⟩, by simp, by simp, by simp,
      fun _ => ⟨rfl, rfl⟩⟩
  · rw [h]
    refine ⟨Nat.zero_le _, fun _ => ⟨rfl, fun other htools => ?_⟩, by simp, by simp, by simp,
      fun hno => absurd hauth (hno claims)⟩
    rw [h other s, htools]
  · rw [h]
    refine ⟨Nat.le_refl _, by simp, ?_, ?_, ?_, fun hno => absurd hauth (hno claims)⟩
    · intro c hc
      obtain rfl := (List.cons.inj hc).1
      exact ⟨rfl, id, rfl⟩
    · intro c hc
      rw [List.mem_singleton.mp hc]
      exact hauth
    · intro c hc
      rw [List.mem_singleton.mp hc]
      exact hauth.current

/-! ### Handlers over their scope -/

/-- A program over the operations of the store. -/
inductive Prog (T β : Type)
  | ret (b : β)
  | call (c : Call T) (next : Answer T → Prog T β)

/-- Run a program through a handle. -/
def Prog.run {β : Type} (s : Store) : Prog T β → Objects → β × Objects
  | ret b, t => (b, t)
  | call c next, t => (next (s.exec t c).2).run s (s.exec t c).1

/-- A handler that works through the scope of its claims, over a memory of its own. -/
structure ScopedHandler (μ T : Type) where
  dispatch : Claims → String → Value → μ → Prog T (Except (StatusCode × Value) Value × μ)
  tools : μ → List Value

/-- The handler over its memory and the table. -/
def ScopedHandler.handler (h : ScopedHandler μ T) : McpHandler (μ × Objects) where
  dispatch claims method params s :=
    let store := Store.unscoped.scopedTo claims.workspace claims.project
    let done := (h.dispatch claims method params s.1).run store s.2
    (done.1.1, done.1.2, done.2)
  tools s := h.tools s.1

/-- A program run through a handle depends on the rows of the handle's workspace alone, and
leaves the same rows in every set of workspaces that holds it. -/
theorem Prog.run_congr {β : Type} {W : String → Bool} {s : Store} (hs : W s.workspace = true)
    (p : Prog T β) {t t' : Objects} (h : rowsIn W t = rowsIn W t') :
    (p.run s t).1 = (p.run s t').1 ∧ rowsIn W (p.run s t).2 = rowsIn W (p.run s t').2 := by
  induction p generalizing t t' with
  | ret b => exact ⟨rfl, h⟩
  | call c next ih =>
      rw [run, run, Store.exec_snd_congr hs h c]
      exact ih _ (Store.rowsIn_exec_congr h s c)

/-- A program run through any other handle leaves the rows of the set. -/
theorem Prog.rowsIn_run_of_not {β : Type} {W : String → Bool} {s : Store}
    (hs : W s.workspace = false) (p : Prog T β) (t : Objects) :
    rowsIn W (p.run s t).2 = rowsIn W t := by
  induction p generalizing t with
  | ret b => rfl
  | call c next ih => exact (ih _ _).trans (Store.rowsIn_exec_of_not hs t c)

/-! ### The unscoped namespace -/

/-- Two states of a scoped handler that differ in unscoped rows only. -/
def AgreeScoped (s s' : μ × Objects) : Prop :=
  s.1 = s'.1 ∧ rowsIn (· ≠ "") s.2 = rowsIn (· ≠ "") s'.2

/-- A request cannot tell two states that differ in unscoped rows only. -/
theorem mcp_congr (h : ScopedHandler μ T) (r : Request) {s s' : μ × Objects}
    (hs : AgreeScoped s s') :
    (mcp P C S h.handler r s).result = (mcp P C S h.handler r s').result ∧
      (mcp P C S h.handler r s).calls = (mcp P C S h.handler r s').calls ∧
      AgreeScoped (mcp P C S h.handler r s).state (mcp P C S h.handler r s').state := by
  have htools : h.handler.tools s = h.handler.tools s' := congrArg h.tools hs.1
  rcases mcp_cases P C S r with
    ⟨-, body, hmcp⟩ | ⟨claims, hauth, ⟨answer, hmcp⟩ | ⟨method, params, id, hmcp⟩⟩
  · rw [hmcp, hmcp]
    exact ⟨rfl, rfl, hs⟩
  · rw [hmcp, hmcp, htools]
    exact ⟨rfl, rfl, hs⟩
  · obtain ⟨m, t⟩ := s
    obtain ⟨m', t'⟩ := s'
    obtain ⟨rfl, ht⟩ : m = m' ∧ rowsIn (· ≠ "") t = rowsIn (· ≠ "") t' := hs
    have hscope :
        decide ((Store.unscoped.scopedTo claims.workspace claims.project).workspace ≠ "") = true :=
      decide_eq_true hauth.current.2.2
    obtain ⟨hdone, hrows⟩ := (h.dispatch claims method params m).run_congr hscope ht
    rw [hmcp, hmcp]
    have houtcome : (h.handler.dispatch claims method params (m, t)).1 =
        (h.handler.dispatch claims method params (m, t')).1 :=
      congrArg (fun done : Except (StatusCode × Value) Value × μ => done.1) hdone
    exact ⟨by rw [houtcome], rfl, congrArg Prod.snd hdone, hrows⟩

/-- A request leaves the unscoped rows. -/
theorem rowsIn_mcp (h : ScopedHandler μ T) (r : Request) (s : μ × Objects) :
    rowsIn (· = "") (mcp P C S h.handler r s).state.2 = rowsIn (· = "") s.2 := by
  rcases mcp_cases P C S r with
    ⟨-, body, hmcp⟩ | ⟨claims, hauth, ⟨answer, hmcp⟩ | ⟨method, params, id, hmcp⟩⟩
  · rw [hmcp]
  · rw [hmcp]
  · rw [hmcp]
    have hscope :
        decide ((Store.unscoped.scopedTo claims.workspace claims.project).workspace = "") = false :=
      decide_eq_false hauth.current.2.2
    exact Prog.rowsIn_run_of_not hscope (h.dispatch claims method params s.1) s.2

/-- The server unwinds for all its requests: none of them sees an unscoped row. -/
theorem serve_unwinding (h : ScopedHandler μ T) :
    Unwinding (serveMachine P C S h.handler) (fun _ => true) AgreeScoped where
  answer hs _ := Prod.ext (mcp_congr h _ hs).1 (mcp_congr h _ hs).2.1
  kept hs _ := (mcp_congr h _ hs).2.2
  dropped _ hno := by cases hno

/-- **The authentication gate.** At every point of any run, the handler is called at most once
for the request and under verified claims only, one call is all that happens to its state, and
a request without such claims leaves the state and is answered 401, whatever the body that the
framework hands on holds. When the handler works through the scope of its claims, any two
tables that agree outside the unscoped namespace are answered alike and left with the same rows
there, and the unscoped rows stay as they are: the requests neither read nor write them. -/
theorem authentication_gate (P : Primitives) (C : Codec) (S : ServeState)
    (requests : List Request) (handler : McpHandler σ) (s : σ)
    (layer : ScopedHandler μ T) (m : μ) (t t' : Objects)
    (h : rowsIn (· ≠ "") t = rowsIn (· ≠ "") t') :
    (∀ earlier r later, requests = earlier ++ r :: later →
      Gated P C S handler r ((serveMachine P C S handler).run s earlier).1
        (mcp P C S handler r ((serveMachine P C S handler).run s earlier).1)) ∧
    ((serveMachine P C S layer.handler).run (m, t) requests).2 =
      ((serveMachine P C S layer.handler).run (m, t') requests).2 ∧
    AgreeScoped ((serveMachine P C S layer.handler).run (m, t) requests).1
      ((serveMachine P C S layer.handler).run (m, t') requests).1 ∧
    rowsIn (· = "") ((serveMachine P C S layer.handler).run (m, t) requests).1.2 =
      rowsIn (· = "") t := by
  have hstart : AgreeScoped (m, t) (m, t') := ⟨rfl, h⟩
  obtain ⟨htranscript, hagree⟩ :=
    (serve_unwinding (P := P) (C := C) (S := S) layer).noninterference hstart requests
  rw [List.filter_true, List.filter_true] at htranscript
  rw [List.filter_true] at hagree
  have hstep : ∀ s r, rowsIn (· = "") s.2 = rowsIn (· = "") t →
      rowsIn (· = "") ((serveMachine P C S layer.handler).step s r).1.2 = rowsIn (· = "") t :=
    fun s r hs => (rowsIn_mcp layer r s).trans hs
  exact ⟨fun earlier r later _ => mcp_gated handler r _, htranscript, hagree,
    Mealy.run_invariant hstep rfl requests⟩

/-! A token of workspace `w` for tool `t`, valid until 10, under the secret `k`; the
primitives are those values of the real ones that its check needs. -/

/-- The claims of the token. -/
def sampleClaims : Claims where
  workspace := "w"
  project := none
  tool := "t"
  exp := 10

/-- Their JSON. -/
def sampleClaimsJson : Bytes :=
  "\x7b\"workspace\":\"w\",\"project\":null,\"tool\":\"t\",\"exp\":10\x7d".toUTF8.data.toList

/-- Their JSON in base64. -/
def sampleClaimsB64 : String :=
  "eyJ3b3Jrc3BhY2UiOiJ3IiwicHJvamVjdCI6bnVsbCwidG9vbCI6InQiLCJleHAiOjEwfQ"

/-- The signature of that text. -/
def sampleMac : Bytes :=
  [142, 150, 118, 68, 206, 127, 70, 129, 7, 244, 12, 84, 174, 198, 254, 44, 83, 214, 248, 139,
    197, 139, 113, 49, 217, 30, 252, 51, 33, 243, 84, 34]

/-- The primitives at the token. -/
def samplePrimitives : Primitives where
  hmacSha256 key message :=
    if key = [107] ∧ message = sampleClaimsB64.toUTF8.data.toList then sampleMac else []
  verifySlice := equalTag
  verifySlice_eq_some := equalTag_eq_some
  b64Encode bytes :=
    if bytes = sampleClaimsJson then sampleClaimsB64
    else "jpZ2RM5_RoEH9AxUrsb-LFPW-IvFi3Ex2R78MyHzVCI"
  b64Decode text :=
    if text = sampleClaimsB64 then some sampleClaimsJson
    else if text = "jpZ2RM5_RoEH9AxUrsb-LFPW-IvFi3Ex2R78MyHzVCI" then some sampleMac
    else none
  claimsToVec _ := sampleClaimsJson
  claimsFromSlice bytes := if bytes = sampleClaimsJson then some sampleClaims else none

/-- A call of the tool `t_get`. -/
def sampleFrame : Value :=
  obj [("jsonrpc", .string "2.0"), ("id", .number (.posInt 1)), ("method", .string "tools/call"),
    ("params", obj [("name", .string "t_get")])]

/-- Its text. -/
def sampleFrameJson : Bytes :=
  ("\x7b\"jsonrpc\":\"2.0\",\"id\":1,\"method\":\"tools/call\"," ++
    "\"params\":\x7b\"name\":\"t_get\"\x7d\x7d").toUTF8.data.toList

/-- The text of the frame is read as the frame, and no other bytes are read. -/
def sampleCodec : Codec where
  toString value := if value.asBool = some true then "true" else "false"
  fromStr _ := .error "expected value"
  fromSlice bytes := if bytes = sampleFrameJson then .ok sampleFrame else .error "expected value"

/-- The server of the tool `t` with the secret `k`. -/
def sampleState : ServeState where
  tool := "t"
  version := "0.1.0"
  platformSecret := some [107]

/-- The frame under the token, at 7. -/
def sampleRequest : Request where
  headers := [("authorization",
    ("Bearer " ++ mint samplePrimitives [107] sampleClaims).toUTF8.data.toList)]
  body := sampleFrameJson
  now := 7

/-- A handler that reads the object `x` and tells whether it is there. -/
def sampleHandler : ScopedHandler Unit Bool where
  dispatch _ _ _ m := .call (.get Serde.bool "item" "x") fun answer =>
    .ret (.ok (.bool (match answer with | .get (.ok (some _)) => true | _ => false)), m)
  tools _ := []

/-- A table with an unscoped row. -/
def legacyTable : Objects :=
  (Store.unscoped.put Serde.bool "t0" "item" "x" true Sql.Table.empty).1

/-- The gate before a table with an unscoped row and the table without it. -/
theorem authentication_gate_legacy :
    (∀ earlier r later, [sampleRequest] = earlier ++ r :: later →
      Gated samplePrimitives sampleCodec sampleState sampleHandler.handler r
        ((serveMachine samplePrimitives sampleCodec sampleState sampleHandler.handler).run
          ((), legacyTable) earlier).1
        (mcp samplePrimitives sampleCodec sampleState sampleHandler.handler r
          ((serveMachine samplePrimitives sampleCodec sampleState sampleHandler.handler).run
            ((), legacyTable) earlier).1)) ∧
    ((serveMachine samplePrimitives sampleCodec sampleState sampleHandler.handler).run
        ((), legacyTable) [sampleRequest]).2 =
      ((serveMachine samplePrimitives sampleCodec sampleState sampleHandler.handler).run
        ((), Sql.Table.empty) [sampleRequest]).2 ∧
    AgreeScoped
      ((serveMachine samplePrimitives sampleCodec sampleState sampleHandler.handler).run
        ((), legacyTable) [sampleRequest]).1
      ((serveMachine samplePrimitives sampleCodec sampleState sampleHandler.handler).run
        ((), Sql.Table.empty) [sampleRequest]).1 ∧
    rowsIn (· = "") ((serveMachine samplePrimitives sampleCodec sampleState
        sampleHandler.handler).run ((), legacyTable) [sampleRequest]).1.2 =
      rowsIn (· = "") legacyTable :=
  authentication_gate samplePrimitives sampleCodec sampleState [sampleRequest]
    sampleHandler.handler ((), legacyTable) sampleHandler () legacyTable Sql.Table.empty rfl

end LayerKit
