import LayerKit.Interleaving
import LayerKit.Platform

/-!
# Concurrent Requests

The server spawns every request on its own: between two operations of one request on the
store, operations of any others may run. A request is here a thread (`mcpThread`): the
checks of the entrypoint, then the program of the handler, one operation after the other,
then the response. Run alone it is the request of `mcp` (`mcpThread_finish`), and what it
issues goes through the scope of its verified claims (`mcpThread_within`).

All of this is about handlers that touch the store through that scope only and keep no memory
of their own (`StoreHandler`): the table is then all that requests share. A handler with the
bare store, or with a memory that its requests share, is another matter. The tenant of a
request is the workspace of its verified claims.

## Main results

* `mcpThread_finish`: an uninterrupted request is the atomic one.
* `requests_unwinding`: the atomic server unwinds for the requests of any workspaces.
* `concurrent_run_is_store_run`: under every schedule, the requests make one run of the store.
* `tenants_undisturbed`: under every schedule, the threads of a set of workspaces do as the
  schedule orders them among themselves.
* `concurrent_requests_serializable`: requests of distinct tenants are answered, under every
  schedule, as one at a time in any order.
-/

open Json

namespace LayerKit

variable {T : Type} {P : Primitives} {C : Codec} {S : ServeState}

/-! ### Requests as threads -/

/-- A program over the store as a thread, through one handle. -/
def Prog.thread {β : Type} (s : Store) : Prog T β → Thread (Store × Call T) (Answer T) β
  | ret b => .done b
  | call c next => .issue (s, c) fun answer => (next answer).thread s

/-- A handler whose methods are programs over the scope of their claims. It has no other access
to the store and no memory from one call to the next. -/
structure StoreHandler (T : Type) where
  dispatch : Claims → String → Value → Prog T (Except (StatusCode × Value) Value)
  tools : List Value

/-- The scope of verified claims. -/
def Claims.scope (claims : Claims) : Store :=
  Store.unscoped.scopedTo claims.workspace claims.project

/-- The handler over the table, its programs uninterrupted. -/
def StoreHandler.handler (h : StoreHandler T) : McpHandler Objects where
  dispatch claims method params t := (h.dispatch claims method params).run claims.scope t
  tools _ := h.tools

/-- `rpc`, one operation at a time. -/
def rpcThread (C : Codec) (h : StoreHandler T) (tool version : String) (claims : Claims)
    (req : Value) : Thread (Store × Call T) (Answer T) (Option Value) :=
  match (req.get "id").filter fun v => !v.isNull with
  | none => .done none
  | some id =>
      let method := ((req.get "method").bind Value.asStr).getD ""
      let params := (req.get "params").getD (obj [])
      match method with
      | "initialize" =>
          .done (reply id (obj [("protocolVersion", .string protocolVersion),
            ("capabilities", obj [("tools", obj [])]),
            ("serverInfo", obj [("name", .string tool), ("version", .string version)])]))
      | "ping" => .done (reply id (obj []))
      | "tools/list" => .done (reply id (obj [("tools", .array h.tools)]))
      | "tools/call" =>
          match (params.get "name").bind Value.asStr with
          | none => .done (fail id (-32602) "tools/call requires `name`")
          | some name =>
              let args := (params.get "arguments").getD (obj [])
              ((h.dispatch claims (dispatchMethod tool name) args).thread claims.scope).map
                fun outcome => some (reply id (toolResult C outcome))
      | other => .done (fail id (-32601) ("method not found: " ++ other))

/-- The response to a frame, or to a notification. -/
def httpResponse : Option Value → Response
  | some resp => ⟨200, some resp⟩
  | none => ⟨202, none⟩

/-- `POST /v1/mcp`, one operation at a time. -/
def mcpThread (P : Primitives) (C : Codec) (S : ServeState) (h : StoreHandler T) (r : Request) :
    Thread (Store × Call T) (Answer T) Response :=
  match S.platformSecret with
  | none => .done ⟨401, some (obj [("error", .string "auth_disabled")])⟩
  | some secret =>
      match (bearer r).bind (verify P secret S.tool r.now) with
      | none => .done ⟨401, some (obj [("error", .string "invalid_platform_token")])⟩
      | some claims =>
          match C.fromSlice r.body with
          | .error e =>
              .done ⟨400, some (obj [("error", .string "bad_request"), ("detail", .string e)])⟩
          | .ok req =>
              if (req.get "jsonrpc").isNone then
                .done ⟨400, some (obj [("error", .string "bad_request"),
                  ("detail", .string "expected JSON-RPC 2.0 request")])⟩
              else
                (rpcThread C h S.tool S.version claims req).map httpResponse

/-- An uninterrupted program is its run. -/
theorem Prog.thread_finish {β : Type} (s : Store) (p : Prog T β) (t : Objects) :
    (p.thread s).finish (storeMachine T) t = ((p.run s t).2, (p.run s t).1) := by
  induction p generalizing t with
  | ret b => rfl
  | call c next ih => exact ih _ _

/-- A program issues its operations through its handle. -/
theorem Prog.thread_within {β : Type} (s : Store) (p : Prog T β) :
    (p.thread s).Within fun i => i.1 = s := by
  induction p with
  | ret b => trivial
  | call c next ih => exact ⟨rfl, ih⟩

/-- An uninterrupted frame is the atomic one. -/
theorem rpcThread_finish (h : StoreHandler T) (tool version : String) (claims : Claims)
    (req : Value) (t : Objects) :
    (rpcThread C h tool version claims req).finish (storeMachine T) t =
      ((rpc C h.handler tool version claims req t).state,
        (rpc C h.handler tool version claims req t).result) := by
  rw [rpcThread, rpc]
  cases (req.get "id").filter fun v => !v.isNull with
  | none => rfl
  | some id =>
      dsimp only
      generalize ((req.get "method").bind Value.asStr).getD "" = method
      by_cases hinitialize : method = "initialize"
      · subst hinitialize
        rfl
      by_cases hping : method = "ping"
      · subst hping
        rfl
      by_cases hlist : method = "tools/list"
      · subst hlist
        rfl
      by_cases hcall : method = "tools/call"
      · subst hcall
        cases (((req.get "params").getD (obj [])).get "name").bind Value.asStr with
        | none => rfl
        | some name =>
            simp only [Thread.finish_map, Prog.thread_finish]
            rfl
      · simp only [Thread.finish]

/-- A frame works through the scope of the claims it came with. -/
theorem rpcThread_within (h : StoreHandler T) (tool version : String) (claims : Claims)
    (req : Value) :
    (rpcThread C h tool version claims req).Within fun i => i.1 = claims.scope := by
  unfold rpcThread
  split
  · trivial
  · dsimp only
    split
    · trivial
    · trivial
    · trivial
    · split
      · trivial
      · exact (Prog.thread_within _ _).map _
    · trivial

/-- **An uninterrupted request is the atomic one.** -/
theorem mcpThread_finish (h : StoreHandler T) (r : Request) (t : Objects) :
    (mcpThread P C S h r).finish (storeMachine T) t =
      ((mcp P C S h.handler r t).state, (mcp P C S h.handler r t).result) := by
  rw [mcpThread, mcp]
  cases S.platformSecret with
  | none => rfl
  | some secret =>
      dsimp only
      cases (bearer r).bind (verify P secret S.tool r.now) with
      | none => rfl
      | some claims =>
          dsimp only
          cases C.fromSlice r.body with
          | error e => rfl
          | ok req =>
              dsimp only
              cases (req.get "jsonrpc").isNone with
              | true => rfl
              | false =>
                  simp only [Bool.false_eq_true, if_false]
                  rw [Thread.finish_map, rpcThread_finish]
                  rfl

/-- **A request works through the scope of its verified claims.** -/
theorem mcpThread_within (h : StoreHandler T) (r : Request) :
    (mcpThread P C S h r).Within fun i =>
      ∃ claims, Authenticated P S r claims ∧ i.1 = claims.scope := by
  unfold mcpThread
  split
  · trivial
  · next secret hsecret =>
      split
      · trivial
      · next claims hclaims =>
          have hauth : Authenticated P S r claims :=
            authenticated_iff.mpr ⟨secret, hsecret, hclaims⟩
          split
          · trivial
          · split
            · trivial
            · exact ((rpcThread_within h _ _ claims _).map _).mono fun i hi => ⟨claims, hauth, hi⟩

/-! ### Tenants -/

/-- The **tenant** of a request: the workspace of its verified claims. -/
def tenant (P : Primitives) (S : ServeState) (r : Request) : Option String :=
  S.platformSecret.bind fun secret =>
    ((bearer r).bind (verify P secret S.tool r.now)).map Claims.workspace

/-- The tenant of a verified request is the workspace of its claims. -/
theorem tenant_of_authenticated {r : Request} {claims : Claims}
    (h : Authenticated P S r claims) : tenant P S r = some claims.workspace := by
  obtain ⟨secret, hsecret, hverify⟩ := authenticated_iff.mp h
  rw [tenant, hsecret, Option.bind_some, hverify, Option.map_some]

/-- A request with a tenant is verified, for this workspace. -/
theorem authenticated_of_tenant {r : Request} {w : String} (h : tenant P S r = some w) :
    ∃ claims, Authenticated P S r claims ∧ claims.workspace = w := by
  obtain ⟨secret, hsecret, hmap⟩ := Option.bind_eq_some_iff.mp h
  obtain ⟨claims, hverify, hw⟩ := Option.map_eq_some_iff.mp hmap
  exact ⟨claims, authenticated_iff.mpr ⟨secret, hsecret, hverify⟩, hw⟩

/-- The requests of the tenants in `W`. -/
def isOf (P : Primitives) (S : ServeState) (W : String → Bool) (r : Request) : Bool :=
  (tenant P S r).any W

/-- A request issues its operations in the workspace of its tenant. -/
theorem mcpThread_within_tenant (h : StoreHandler T) (W : String → Bool) (r : Request) :
    (mcpThread P C S h r).Within fun i => W i.1.workspace = isOf P S W r := by
  refine (mcpThread_within h r).mono fun i hi => ?_
  obtain ⟨claims, hauth, hscope⟩ := hi
  rw [isOf, tenant_of_authenticated hauth, Option.any_some, hscope]
  rfl

/-- The calls of the dispatcher do not depend on the state. -/
theorem calls_congr {σ : Type*} (handler : McpHandler σ) (r : Request) (s s' : σ) :
    (mcp P C S handler r s).calls = (mcp P C S handler r s').calls := by
  rcases mcp_cases P C S r with
    ⟨-, body, h⟩ | ⟨claims, -, ⟨answer, h⟩ | ⟨method, params, id, h⟩⟩
  · rw [h, h]
  · rw [h, h]
  · rw [h, h]

/-- **The atomic server unwinds** for the requests of any tenants. -/
theorem requests_unwinding (h : StoreHandler T) (W : String → Bool) :
    Unwinding (serveMachine P C S h.handler) (isOf P S W)
      (fun t t' => rowsIn W t = rowsIn W t') := by
  have hwithin : ∀ {r b}, isOf P S W r = b →
      (mcpThread P C S h r).Within fun i => W i.1.workspace = b := fun hr =>
    (mcpThread_within_tenant h W _).mono fun i hi => hi.trans hr
  have hstate : ∀ r t, (mcp P C S h.handler r t).state =
      ((mcpThread P C S h r).finish (storeMachine T) t).1 := fun r t => by rw [mcpThread_finish]
  have hresult : ∀ r t, (mcp P C S h.handler r t).result =
      ((mcpThread P C S h r).finish (storeMachine T) t).2 := fun r t => by rw [mcpThread_finish]
  constructor
  · intro t t' r ht hr
    refine Prod.ext ?_ (calls_congr _ _ _ _)
    change (mcp P C S h.handler r t).result = (mcp P C S h.handler r t').result
    rw [hresult, hresult]
    exact (Thread.finish_congr (store_unwinding W) (hwithin hr) ht).1
  · intro t t' r ht hr
    change rowsIn W (mcp P C S h.handler r t).state = rowsIn W (mcp P C S h.handler r t').state
    rw [hstate, hstate]
    exact (Thread.finish_congr (store_unwinding W) (hwithin hr) ht).2
  · intro t t' r ht hr
    change rowsIn W (mcp P C S h.handler r t).state = rowsIn W t'
    rw [hstate]
    exact Thread.finish_dropped (store_unwinding W) (hwithin hr) ht

/-! ### Schedules -/

section Schedules

variable {κ : Type} [DecidableEq κ]

/-- The requests in flight over one table, moved in the order of a schedule. -/
def serveConcurrently (P : Primitives) (C : Codec) (S : ServeState) (h : StoreHandler T)
    (rs : κ → Request) (t : Objects) (ks : List κ) :
    ((κ → Thread (Store × Call T) (Answer T) Response) × Objects) ×
      List (κ × Option ((Store × Call T) × Answer T)) :=
  (pool (storeMachine T)).run (fun k => mcpThread P C S h (rs k), t) ks

omit [DecidableEq κ] in
/-- Requests that agree on the tenants in `W`, over tables that agree on their rows. -/
theorem poolAgree_requests (h : StoreHandler T) {W : String → Bool} {A : κ → Bool}
    {rs rs' : κ → Request} {t t' : Objects} (hrs : ∀ k, isOf P S W (rs k) = A k)
    (hrs' : ∀ k, A k = true → rs k = rs' k) (ht : rowsIn W t = rowsIn W t') :
    PoolAgree (fun i : Store × Call T => W i.1.workspace) (fun t t' => rowsIn W t = rowsIn W t') A
      (fun k => mcpThread P C S h (rs k), t) (fun k => mcpThread P C S h (rs' k), t') where
  same k hk := congrArg (mcpThread P C S h) (hrs' k hk)
  inside k hk := (mcpThread_within_tenant h W _).mono fun _ hi => hi.trans ((hrs k).trans hk)
  outside k hk := (mcpThread_within_tenant h W _).mono fun _ hi => hi.trans ((hrs k).trans hk)
  state := ht

/-- A workspace without a request keeps its rows. -/
theorem rowsIn_serveConcurrently_of_not (h : StoreHandler T) {W : String → Bool}
    {rs : κ → Request} (hno : ∀ k, isOf P S W (rs k) = false) (t : Objects) (ks : List κ) :
    rowsIn W (serveConcurrently P C S h rs t ks).1.2 = rowsIn W t := by
  have hagree := ((pool_unwinding (store_unwinding W) fun _ => false).noninterference
    (poolAgree_requests (C := C) h hno (fun _ _ => rfl) (rfl : rowsIn W t = rowsIn W t)) ks).2.state
  rw [List.filter_false] at hagree
  exact hagree

/-- **A concurrent run is a run of the store.** Let a handler touch the store through the scope of
its claims only and keep no memory. Under every schedule, the operations that are issued, in
their order, make one run of the store, with the answers that the requests got and the table
that is left; each of them goes through the scope of verified claims of the request that issues
it; and the unscoped rows stay as they are. -/
theorem concurrent_run_is_store_run (h : StoreHandler T) (rs : κ → Request) (t : Objects)
    (ks : List κ) :
    (storeMachine T).run t ((observed (fun _ exchange => exchange)
        (serveConcurrently P C S h rs t ks).2).map Prod.fst) =
      ((serveConcurrently P C S h rs t ks).1.2,
        observed (fun _ exchange => exchange) (serveConcurrently P C S h rs t ks).2) ∧
    (∀ x ∈ (serveConcurrently P C S h rs t ks).2, ∀ i o, x.2 = some (i, o) →
      ∃ claims, Authenticated P S (rs x.1) claims ∧ i.1 = claims.scope) ∧
    rowsIn (· = "") (serveConcurrently P C S h rs t ks).1.2 = rowsIn (· = "") t := by
  obtain ⟨htranscript, hstate⟩ := (pool_simulation (storeMachine T)).run
    (rfl : ((fun k => mcpThread P C S h (rs k), t) : (κ → _) × Objects).2 = t) ks
  have hscope := issued_within (m := storeMachine T)
    (s := (fun k => mcpThread P C S h (rs k), t)) (fun k => mcpThread_within h (rs k)) ks
  refine ⟨Prod.ext hstate.symm htranscript, hscope,
    rowsIn_serveConcurrently_of_not h (fun k => ?_) t ks⟩
  cases hk : tenant P S (rs k) with
  | none => rw [isOf, hk, Option.any_none]
  | some w =>
      obtain ⟨claims, hauth, rfl⟩ := authenticated_of_tenant hk
      rw [isOf, hk, Option.any_some]
      exact decide_eq_false hauth.current.2.2

/-- **Tenants are undisturbed.** Let a handler touch the store through the scope of its claims only
and keep no memory, and fix any set of workspaces. Two schedules that move the requests of
these in the same order answer each of their operations alike, bring their requests to the
same point and leave their rows the same, however the other requests are interleaved, whatever
these are, and whatever rows the other workspaces start with. -/
theorem tenants_undisturbed (h : StoreHandler T) (W : String → Bool) (rs rs' : κ → Request)
    (t t' : Objects) (ks ls : List κ) (hof : ∀ k, isOf P S W (rs' k) = isOf P S W (rs k))
    (hrs : ∀ k, isOf P S W (rs k) = true → rs k = rs' k) (ht : rowsIn W t = rowsIn W t')
    (hmoves : ks.filter (fun k => isOf P S W (rs k)) = ls.filter fun k => isOf P S W (rs k)) :
    (serveConcurrently P C S h rs t ks).2.filter (fun x => isOf P S W (rs x.1)) =
        (serveConcurrently P C S h rs' t' ls).2.filter (fun x => isOf P S W (rs x.1)) ∧
      (∀ k, isOf P S W (rs k) = true → (serveConcurrently P C S h rs t ks).1.1 k =
        (serveConcurrently P C S h rs' t' ls).1.1 k) ∧
      rowsIn W (serveConcurrently P C S h rs t ks).1.2 =
        rowsIn W (serveConcurrently P C S h rs' t' ls).1.2 := by
  have hequiv : Equivalence fun t t' : Objects => rowsIn W t = rowsIn W t' :=
    ⟨fun _ => rfl, Eq.symm, Eq.trans⟩
  obtain ⟨htranscript, hagree⟩ := schedules_agree (store_unwinding W) hequiv
    (poolAgree_requests h (fun _ => rfl) hrs ht)
    (poolAgree_requests h hof (fun _ _ => rfl) rfl) hmoves
  exact ⟨htranscript, hagree.same, hagree.state⟩

/-! Requests of two workspaces, `a` and `b`, with real tokens under the secret `k`. -/

/-- The claims of the two tenants. -/
def pairClaims (second : Bool) : Claims where
  workspace := if second then "b" else "a"
  project := none
  tool := "t"
  exp := 10

/-- Their JSON. -/
def pairJson (second : Bool) : Bytes :=
  if second then
    "\x7b\"workspace\":\"b\",\"project\":null,\"tool\":\"t\",\"exp\":10\x7d".toUTF8.data.toList
  else
    "\x7b\"workspace\":\"a\",\"project\":null,\"tool\":\"t\",\"exp\":10\x7d".toUTF8.data.toList

/-- The primitives at the two tokens, whose base64 is the real one. -/
def pairPrimitives : Primitives where
  hmacSha256 _ message :=
    if message = (Base64.urlSafe.encode (pairJson true)).toUTF8.data.toList then
      [243, 130, 139, 189, 240, 2, 18, 206, 223, 206, 163, 27, 167, 169, 194, 116, 113, 255, 114,
        62, 254, 26, 82, 214, 161, 175, 99, 11, 114, 215, 236, 176]
    else
      [60, 118, 44, 166, 132, 201, 94, 158, 151, 13, 69, 165, 19, 219, 24, 252, 28, 50, 4, 137,
        209, 117, 59, 89, 181, 158, 48, 58, 123, 34, 103, 26]
  verifySlice := equalTag
  verifySlice_eq_some := equalTag_eq_some
  b64Encode := Base64.urlSafe.encode
  b64Decode := Base64.urlSafe.decode
  claimsToVec claims := pairJson (claims.workspace = "b")
  claimsFromSlice bytes :=
    if bytes = pairJson true then some (pairClaims true)
    else if bytes = pairJson false then some (pairClaims false)
    else none

/-- The frame under the token of one of the tenants, at 7. -/
def pairRequest (second : Bool) : Request :=
  honestRequest pairPrimitives [107] (pairClaims second) sampleFrameJson 7

/-- Writes the note `x`, and reads it back. -/
def pairHandler : StoreHandler Bool where
  dispatch claims _ _ :=
    .call (.put Serde.bool "t1" "item" "x" (decide (claims.workspace = "a"))) fun _ =>
      .call (.get Serde.bool "item" "x") fun answer =>
        .ret (.ok (.bool (match answer with | .get (.ok (some b)) => b | _ => false)))
  tools := []

/-- The token is verified as the claims of its tenant. -/
theorem verify_pairRequest (second : Bool) :
    (bearer (pairRequest second)).bind (verify pairPrimitives [107] "t" 7) =
      some (pairClaims second) := by
  have hserde : pairPrimitives.claimsFromSlice (pairPrimitives.claimsToVec (pairClaims second)) =
      some (pairClaims second) := by
    cases second
    · decide
    · decide
  have hbearer : bearer (pairRequest second) =
      some (mint pairPrimitives [107] (pairClaims second)) :=
    bearer_header (isVisible_mint rfl _ _) sampleFrameJson 7
  rw [hbearer, Option.bind_some, verify_mint pairPrimitives (strictBase64_urlSafe rfl rfl) [107]
    (pairClaims second) hserde "t" 7]
  cases second
  · exact if_pos ⟨by decide, rfl, by decide⟩
  · exact if_pos ⟨by decide, rfl, by decide⟩

/-- So the request is one of that tenant. -/
theorem tenant_pairRequest (second : Bool) :
    tenant pairPrimitives sampleState (pairRequest second) =
      some (pairClaims second).workspace :=
  congrArg (Option.map Claims.workspace) (verify_pairRequest second)

/-- Two schedules that move the first tenant alike, beside different requests of the second. -/
theorem tenants_undisturbed_pair :
    (serveConcurrently pairPrimitives sampleCodec sampleState pairHandler pairRequest
        legacyTable [true, false, false, true]).2.filter
          (fun x => isOf pairPrimitives sampleState (· = "a") (pairRequest x.1)) =
      (serveConcurrently pairPrimitives sampleCodec sampleState pairHandler pairRequest
        Sql.Table.empty [false, false]).2.filter
          (fun x => isOf pairPrimitives sampleState (· = "a") (pairRequest x.1)) ∧
    (∀ k, isOf pairPrimitives sampleState (· = "a") (pairRequest k) = true →
      (serveConcurrently pairPrimitives sampleCodec sampleState pairHandler pairRequest
        legacyTable [true, false, false, true]).1.1 k =
      (serveConcurrently pairPrimitives sampleCodec sampleState pairHandler pairRequest
        Sql.Table.empty [false, false]).1.1 k) ∧
    rowsIn (· = "a") (serveConcurrently pairPrimitives sampleCodec sampleState pairHandler
        pairRequest legacyTable [true, false, false, true]).1.2 =
      rowsIn (· = "a") (serveConcurrently pairPrimitives sampleCodec sampleState pairHandler
        pairRequest Sql.Table.empty [false, false]).1.2 :=
  tenants_undisturbed pairHandler (· = "a") pairRequest pairRequest legacyTable
    Sql.Table.empty [true, false, false, true] [false, false] (fun _ => rfl) (fun _ _ => rfl)
    rfl (by
      have hother : isOf pairPrimitives sampleState (· = "a") (pairRequest true) = false := by
        rw [isOf, tenant_pairRequest]
        rfl
      simp only [List.filter_cons, List.filter_nil, hother, Bool.false_eq_true, if_false])

/-! ### One request of each tenant -/

/-- The workspace of the request. -/
def ownWorkspace (P : Primitives) (S : ServeState) (r : Request) (w : String) : Bool :=
  decide (tenant P S r = some w)

/-- A request issues its operations in its own workspace. -/
theorem mcpThread_within_own (h : StoreHandler T) (r : Request) :
    (mcpThread P C S h r).Within fun i => ownWorkspace P S r i.1.workspace = true := by
  refine (mcpThread_within h r).mono fun i hi => ?_
  obtain ⟨claims, hauth, hscope⟩ := hi
  rw [ownWorkspace, tenant_of_authenticated hauth, hscope]
  exact decide_eq_true rfl

/-- The response to a request depends on the rows of its own workspace only. -/
theorem mcp_congr_of_own (h : StoreHandler T) (r : Request) {t t' : Objects}
    (ht : rowsIn (ownWorkspace P S r) t = rowsIn (ownWorkspace P S r) t') :
    (mcp P C S h.handler r t).result = (mcp P C S h.handler r t').result := by
  have hcongr := Thread.finish_congr (store_unwinding (ownWorkspace P S r))
    (mcpThread_within_own h r (C := C)) ht
  rw [mcpThread_finish, mcpThread_finish] at hcongr
  exact hcongr.1

/-- No two requests are of one tenant. -/
def DistinctTenants (P : Primitives) (S : ServeState) (rs : κ → Request) : Prop :=
  ∀ k k', tenant P S (rs k) = tenant P S (rs k') → tenant P S (rs k) ≠ none → k = k'

omit [DecidableEq κ] in
/-- A tenant has one request. -/
theorem DistinctTenants.eq_of_isOf {rs : κ → Request} (hd : DistinctTenants P S rs) {w : String}
    {k k' : κ} (hk : tenant P S (rs k) = some w) (hk' : tenant P S (rs k') = some w) : k = k' :=
  hd k k' (hk.trans hk'.symm) fun hnone => Option.some_ne_none w (hk.symm.trans hnone)

/-- **A request of a tenant of its own**, once it has ended under any schedule, was answered
as the atomic request over the first table, and left the rows of its workspace as that. -/
theorem ended_alone (h : StoreHandler T) {rs : κ → Request} (hd : DistinctTenants P S rs)
    (t : Objects) (ks : List κ) {k : κ} {response : Response}
    (hdone : (serveConcurrently P C S h rs t ks).1.1 k = .done response) :
    response = (mcp P C S h.handler (rs k) t).result ∧
      rowsIn (ownWorkspace P S (rs k)) (serveConcurrently P C S h rs t ks).1.2 =
        rowsIn (ownWorkspace P S (rs k)) (mcp P C S h.handler (rs k) t).state := by
  have hother : ∀ k', decide (k' = k) = false → (mcpThread P C S h (rs k')).Within
      fun i => ownWorkspace P S (rs k) i.1.workspace = false := by
    intro k' hne
    refine (mcpThread_within h (rs k')).mono fun i hi => ?_
    obtain ⟨claims, hauth, hscope⟩ := hi
    rw [hscope]
    refine decide_eq_false fun hk => of_decide_eq_false hne ?_
    exact hd.eq_of_isOf (tenant_of_authenticated hauth) hk
  have hagree : PoolAgree (fun i : Store × Call T => ownWorkspace P S (rs k) i.1.workspace)
      (fun t t' => rowsIn (ownWorkspace P S (rs k)) t = rowsIn (ownWorkspace P S (rs k)) t')
      (fun k' => decide (k' = k)) (fun k => mcpThread P C S h (rs k), t)
      (fun k => mcpThread P C S h (rs k), t) :=
    ⟨fun _ _ => rfl, fun k' hk' => of_decide_eq_true hk' ▸ mcpThread_within_own h (rs k'), hother,
      rfl⟩
  have halone := finish_alone (A := fun k' => decide (k' = k)) (k := k)
    (store_unwinding (ownWorkspace P S (rs k))) (decide_eq_true rfl)
    (fun k' hk' => of_decide_eq_true hk') hagree ks
  rw [mcpThread_finish] at halone
  simp only [serveConcurrently] at hdone ⊢
  rw [hdone] at halone
  exact halone

omit [DecidableEq κ] in
/-- The atomic server answers requests of distinct tenants, in any order and from any table
with the rows of their workspaces, as it answers each of them first. -/
theorem map_response_run (h : StoreHandler T) {rs : κ → Request} (hd : DistinctTenants P S rs)
    (t : Objects) {order : List κ} (hnodup : order.Nodup) (t' : Objects)
    (ht : ∀ k ∈ order, rowsIn (ownWorkspace P S (rs k)) t' =
      rowsIn (ownWorkspace P S (rs k)) t) :
    ((serveMachine P C S h.handler).run t' (order.map rs)).2.map (fun x => x.2.1) =
      order.map fun k => (mcp P C S h.handler (rs k) t).result := by
  induction order generalizing t' with
  | nil => rfl
  | cons k order ih =>
      obtain ⟨hk, hnodup⟩ := List.nodup_cons.mp hnodup
      have hhead : (mcp P C S h.handler (rs k) t').result =
          (mcp P C S h.handler (rs k) t).result :=
        mcp_congr_of_own h (rs k) (ht k List.mem_cons_self)
      refine congrArg₂ List.cons hhead (ih hnodup _ fun k' hk' => ?_)
      -- the request leaves the rows of every later tenant
      refine (requests_unwinding h (ownWorkspace P S (rs k'))).dropped
        (ht k' (List.mem_cons_of_mem k hk')) ?_
      cases htenant : tenant P S (rs k) with
      | none => rw [isOf, htenant, Option.any_none]
      | some w =>
          rw [isOf, htenant, Option.any_some]
          refine decide_eq_false fun hw => hk ?_
          exact hd.eq_of_isOf htenant hw ▸ hk'

/-- The atomic server leaves a workspace the rows that its one request leaves first. -/
theorem rowsIn_run_requests (h : StoreHandler T) {rs : κ → Request}
    (hd : DistinctTenants P S rs) (t : Objects) {order : List κ} (hnodup : order.Nodup) {k : κ}
    (hk : k ∈ order) {w : String} (hw : tenant P S (rs k) = some w) :
    rowsIn (· = w) ((serveMachine P C S h.handler).run t (order.map rs)).1 =
      rowsIn (· = w) (mcp P C S h.handler (rs k) t).state := by
  have honly : ∀ k', (isOf P S (fun v => decide (v = w)) ∘ rs) k' = decide (k' = k) := by
    intro k'
    rw [Function.comp_apply, isOf]
    rcases eq_or_ne k' k with rfl | hne
    · rw [hw, Option.any_some, decide_eq_true rfl, decide_eq_true rfl]
    · rw [decide_eq_false hne]
      cases hk' : tenant P S (rs k') with
      | none => rfl
      | some v =>
          rw [Option.any_some]
          exact decide_eq_false fun hv => hne (hd.eq_of_isOf (hv ▸ hk') hw)
  have hfilter : (order.map rs).filter (isOf P S fun v => decide (v = w)) = [rs k] := by
    rw [List.filter_map, funext honly, List.filter_eq, List.count_eq_one_of_mem hnodup hk]
    rfl
  have hatomic := ((requests_unwinding (P := P) (C := C) (S := S) h
    fun v => decide (v = w)).noninterference (rfl : rowsIn (· = w) t = _) (order.map rs)).2
  rw [hfilter] at hatomic
  exact hatomic

omit [DecidableEq κ] in
/-- The atomic server leaves a workspace without requests its rows. -/
theorem rowsIn_run_of_no_tenant (h : StoreHandler T) {rs : κ → Request} {W : String → Bool}
    (hno : ∀ k, isOf P S W (rs k) = false) (t : Objects) (order : List κ) :
    rowsIn W ((serveMachine P C S h.handler).run t (order.map rs)).1 = rowsIn W t := by
  have hfilter : (order.map rs).filter (isOf P S W) = [] :=
    List.filter_eq_nil_iff.mpr fun r hr => by
      obtain ⟨k, -, rfl⟩ := List.mem_map.mp hr
      rw [hno k]
      exact Bool.false_ne_true
  have hatomic := ((requests_unwinding (P := P) (C := C) (S := S) h W).noninterference
    (rfl : rowsIn W t = _) (order.map rs)).2
  rw [hfilter] at hatomic
  exact hatomic

/-- **Requests of distinct tenants are serializable.** Let a handler touch the store through the
scope of its claims only and keep no memory. Serve any requests concurrently, no two of them of
one tenant, under any schedule until they have all ended. Whatever order the requests are then
put in, the atomic server answers them, one at a time in that order, with the same responses,
and leaves every workspace the same rows. -/
theorem concurrent_requests_serializable (h : StoreHandler T) (rs : κ → Request) (t : Objects)
    (ks order : List κ) (response : κ → Response) (hd : DistinctTenants P S rs)
    (hdone : ∀ k, (serveConcurrently P C S h rs t ks).1.1 k = .done (response k))
    (hnodup : order.Nodup) (hall : ∀ k, k ∈ order) :
    ((serveMachine P C S h.handler).run t (order.map rs)).2.map (fun x => x.2.1) =
        order.map response ∧
      ∀ w, rowsIn (· = w) (serveConcurrently P C S h rs t ks).1.2 =
        rowsIn (· = w) ((serveMachine P C S h.handler).run t (order.map rs)).1 := by
  refine ⟨?_, fun w => ?_⟩
  · rw [map_response_run h hd t hnodup t fun _ _ => rfl]
    exact List.map_congr_left fun k _ => (ended_alone h hd t ks (hdone k)).1.symm
  · by_cases hex : ∃ k, tenant P S (rs k) = some w
    · obtain ⟨k, hk⟩ := hex
      have hown : ownWorkspace P S (rs k) = fun v => decide (v = w) := by
        funext v
        rw [ownWorkspace, hk]
        exact decide_eq_decide.mpr ⟨fun hv => (Option.some.inj hv).symm, fun hv => hv ▸ rfl⟩
      have hended := (ended_alone h hd t ks (hdone k)).2
      rw [hown] at hended
      exact hended.trans (rowsIn_run_requests h hd t hnodup (hall k) hk).symm
    · have hno : ∀ k, isOf P S (fun v => decide (v = w)) (rs k) = false := by
        intro k
        cases hk : tenant P S (rs k) with
        | none => rw [isOf, hk, Option.any_none]
        | some v =>
            rw [isOf, hk, Option.any_some]
            exact decide_eq_false fun hv => hex ⟨k, hv ▸ hk⟩
      rw [rowsIn_serveConcurrently_of_not h hno t ks, rowsIn_run_of_no_tenant h hno t order]

/-- The two requests are of distinct tenants. -/
theorem distinctTenants_pairRequest :
    DistinctTenants pairPrimitives sampleState pairRequest := by
  have hne : (pairClaims false).workspace ≠ (pairClaims true).workspace := by decide
  intro k k' h _
  rw [tenant_pairRequest, tenant_pairRequest, Option.some.injEq] at h
  cases k
  · cases k'
    · rfl
    · exact absurd h hne
  · cases k'
    · exact absurd h.symm hne
    · rfl

/-- Each request reads what it wrote. -/
def pairResponse (second : Bool) : Response where
  status := 200
  body := some (reply (.number (.posInt 1)) (toolResult sampleCodec (.ok (.bool (!second)))))

/-- What the request does: the handler under the claims of its tenant. -/
theorem mcpThread_pairRequest (second : Bool) :
    mcpThread pairPrimitives sampleCodec sampleState pairHandler (pairRequest second) =
      ((pairHandler.dispatch (pairClaims second) "t.get" (obj [])).thread
        (pairClaims second).scope).map fun outcome =>
          ⟨200, some (reply (.number (.posInt 1)) (toolResult sampleCodec outcome))⟩ := by
  have hverify := verify_pairRequest second
  simp only [mcpThread, sampleState]
  have hnow : (pairRequest second).now = 7 := rfl
  rw [hnow, hverify]
  rfl

/-- The two requests end with what they wrote. -/
theorem ended_pairRequest (second : Bool) :
    (serveConcurrently pairPrimitives sampleCodec sampleState pairHandler pairRequest
      Sql.Table.empty [true, false, false, true]).1.1 second = .done (pairResponse second) := by
  simp only [serveConcurrently, funext mcpThread_pairRequest]
  cases second
  · rfl
  · rfl

/-- The two requests interleaved, and one after the other. -/
theorem concurrent_requests_serializable_pair :
    ((serveMachine pairPrimitives sampleCodec sampleState pairHandler.handler).run
        Sql.Table.empty ([false, true].map pairRequest)).2.map (fun x => x.2.1) =
      [false, true].map pairResponse ∧
    ∀ w, rowsIn (· = w) (serveConcurrently pairPrimitives sampleCodec sampleState pairHandler
        pairRequest Sql.Table.empty [true, false, false, true]).1.2 =
      rowsIn (· = w) ((serveMachine pairPrimitives sampleCodec sampleState
        pairHandler.handler).run Sql.Table.empty ([false, true].map pairRequest)).1 :=
  concurrent_requests_serializable pairHandler pairRequest Sql.Table.empty
    [true, false, false, true] [false, true] pairResponse distinctTenants_pairRequest
    ended_pairRequest (by decide) (by decide)

end Schedules

end LayerKit
