import LayerKit.Catalogue
import LayerKit.Frames
import LayerKit.Platform

/-!
# Advertised Tools

A client with a token lists the tools of a layer and calls them by the names it finds. Three
parts of the crate have to fit for that: the token must come through the header and the
gate, the frame must be dispatched, and the dispatcher must make of the advertised name a
method that the layer has, which is what the catalogue check of the layer's tests is for.

## Main results

* `mcp_honest`: what an unexpired token of the server lets through is handled as a frame.
* `advertised_tools`: the tools that a layer advertises are exactly its methods, for every
  client with such a token.
-/

open Json

namespace LayerKit

variable {σ : Type} {P : Primitives} {C : Codec} {S : ServeState} {secret : Bytes}
  {claims : Claims} {now : Int64} {handler : McpHandler σ}

/-- A body that carries a frame of JSON-RPC. -/
def IsFrame (C : Codec) (body : Bytes) (req : Value) : Prop :=
  C.fromSlice body = .ok req ∧ (req.get "jsonrpc").isSome = true

/-- The claims are good for the server at a time. -/
def Claims.GoodFor (claims : Claims) (S : ServeState) (now : Int64) : Prop :=
  now ≤ claims.exp ∧ claims.tool = S.tool ∧ claims.workspace ≠ ""

/-- The tools' list is answered from the catalogue. -/
theorem rpc_list {req id : Value} (hid : AnswersUnder req id)
    (hmethod : HasMethod req "tools/list") (tool version : String) (s : σ) :
    rpc C handler tool version claims req s =
      ⟨some (reply id (obj [("tools", .array (handler.tools s))])), s, []⟩ := by
  simp only [rpc, id_of_filter.mpr hid, (hasMethod_iff (by decide)).mpr hmethod]

/-- A call of a tool is dispatched. -/
theorem rpc_call {req id args : Value} {name : String} (hid : AnswersUnder req id)
    (hcall : CallsTool req name args) (tool version : String) (s : σ) :
    rpc C handler tool version claims req s =
      ⟨some (reply id
          (toolResult C (handler.dispatch claims (dispatchMethod tool name) args s).1)),
        (handler.dispatch claims (dispatchMethod tool name) args s).2,
        [⟨claims, dispatchMethod tool name, args⟩]⟩ := by
  have hhandled := handled_rpc C handler tool version claims req s
  generalize rpc C handler tool version claims req s = served at hhandled
  cases hhandled with
  | notification h => exact absurd h hid.not_isNotification
  | answered hid' hmethod hmem =>
      have heq := hcall.1.unique hmethod
      rw [← heq] at hmem
      exact absurd hmem (by decide)
  | called hid' hcall' =>
      obtain ⟨rfl, rfl⟩ := hcall.unique hcall'
      obtain rfl := Option.some.inj (hid.1.symm.trans hid'.1)
      rfl
  | invalidParams hid' hmethod hno => exact absurd hcall (hno _ _)
  | unknownMethod hid' hmethod => exact absurd hcall.1 (hmethod _ (by decide))

/-- **Behind the gate.** A frame that comes with a token good for the server is answered as
it is handled, under the minted claims. -/
theorem mcp_honest (hencode : P.b64Encode = Base64.urlSafe.encode)
    (hdecode : P.b64Decode = Base64.urlSafe.decode) (hsecret : S.platformSecret = some secret)
    (hclaims : P.claimsFromSlice (P.claimsToVec claims) = some claims)
    (hgood : claims.GoodFor S now) {body : Bytes} {req : Value} (hbody : IsFrame C body req)
    {s s' : σ} {resp : Value} {calls : List DispatchCall}
    (hrpc : rpc C handler S.tool S.version claims req s = ⟨some resp, s', calls⟩) :
    mcp P C S handler (honestRequest P secret claims body now) s =
      ⟨⟨200, some resp⟩, s', calls⟩ := by
  have hbearer : bearer (honestRequest P secret claims body now) = some (mint P secret claims) :=
    bearer_header (isVisible_mint hencode secret claims) body now
  have hverify : verify P secret S.tool (honestRequest P secret claims body now).now
      (mint P secret claims) = some claims := by
    rw [verify_mint P (strictBase64_urlSafe hencode hdecode) secret claims hclaims]
    exact if_pos hgood
  have hjson : (req.get "jsonrpc").isNone = false := by
    rw [Option.isNone_eq_false_iff]
    exact hbody.2
  have hslice : C.fromSlice (honestRequest P secret claims body now).body = .ok req := hbody.1
  simp only [mcp, hsecret, hbearer, Option.bind_some, hverify, hslice, hjson, Bool.false_eq_true,
    if_false, hrpc]

/-- **A name reaches a method**: every call of the tool of that name, from a client with a
token good for the server, is dispatched once, to this method under the minted claims and
with the arguments as they are, and is answered under its id with the outcome. -/
def Reaches (P : Primitives) (C : Codec) (S : ServeState) (secret : Bytes) (claims : Claims)
    (now : Int64) (handler : McpHandler σ) (s : σ) (name method : String) : Prop :=
  ∀ (body : Bytes) (req id args : Value), IsFrame C body req → AnswersUnder req id →
    CallsTool req name args →
    mcp P C S handler (honestRequest P secret claims body now) s =
      ⟨⟨200, some (reply id (toolResult C (handler.dispatch claims method args s).1))⟩,
        (handler.dispatch claims method args s).2, [⟨claims, method, args⟩]⟩

/-- **Advertised tools work.** Take a layer whose plain catalogue passes the check against
its declared methods, and a client with a minted token that is good for the server, whose
frames are in bodies that the framework hands on (one above its limit is answered 413 before).
The client is given the catalogue when it lists the tools; every name it finds there reaches a
declared method; and every declared method is reached by a name it finds. -/
theorem advertised_tools (P : Primitives) (hencode : P.b64Encode = Base64.urlSafe.encode)
    (hdecode : P.b64Decode = Base64.urlSafe.decode) (C : Codec) (S : ServeState)
    (secret : Bytes) (hsecret : S.platformSecret = some secret) (claims : Claims)
    (hclaims : P.claimsFromSlice (P.claimsToVec claims) = some claims) (now : Int64)
    (hgood : claims.GoodFor S now) (handler : McpHandler σ) (s : σ) (names methods : List String)
    (hnames : EntryNames (handler.tools s) names) (hof : OfTool S.tool names)
    (hplain : Plain S.tool names)
    (hcheck : assertCatalogueMatches (handler.tools s) methods = .ok ()) :
    (∀ (body : Bytes) (req id : Value), IsFrame C body req → AnswersUnder req id →
      HasMethod req "tools/list" →
      mcp P C S handler (honestRequest P secret claims body now) s =
        ⟨⟨200, some (reply id (obj [("tools", .array (handler.tools s))]))⟩, s, []⟩) ∧
    (∀ name ∈ names, ∃ method ∈ methods,
      Reaches P C S secret claims now handler s name method) ∧
    ∀ method ∈ methods, ∃ name ∈ names,
      Reaches P C S secret claims now handler s name method := by
  have hne : handler.tools s ≠ [] := by
    intro hnil
    rw [hnil] at hcheck
    cases hcheck
  have hcovers : Covers (dispatchMethod S.tool) names methods := by
    rw [assertCatalogueMatches_eq_ok hne hnames] at hcheck
    exact (covers_iff_covers.mpr ((plain_iff hplain.tool hof).mpr hplain) methods).mp hcheck
  have hreaches : ∀ name, Reaches P C S secret claims now handler s name
      (dispatchMethod S.tool name) := by
    intro name body req id args hbody hid hcall
    exact mcp_honest hencode hdecode hsecret hclaims hgood hbody (rpc_call hid hcall _ _ s)
  refine ⟨fun body req id hbody hid hmethod => ?_, fun name hname => ?_, fun method hmethod => ?_⟩
  · exact mcp_honest hencode hdecode hsecret hclaims hgood hbody (rpc_list hid hmethod _ _ s)
  · exact ⟨_, (hcovers _).mpr ⟨name, hname, rfl⟩, hreaches name⟩
  · obtain ⟨name, hname, rfl⟩ := (hcovers method).mp hmethod
    exact ⟨name, hname, hreaches name⟩

/-- A handler with the one tool `t_get`. -/
def oneToolHandler : McpHandler Unit where
  dispatch _ _ args s := (.ok args, s)
  tools _ := oneTool "t_get"

/-- A frame that lists the tools. -/
def listFrame : Value :=
  obj [("jsonrpc", .string "2.0"), ("id", .number (.posInt 2)), ("method", .string "tools/list")]

/-- Its text. -/
def listFrameJson : Bytes :=
  "\x7b\"jsonrpc\":\"2.0\",\"id\":2,\"method\":\"tools/list\"\x7d".toUTF8.data.toList

/-- The texts of the two frames of the client are read. -/
def clientCodec : Codec :=
  { sampleCodec with
    fromSlice := fun bytes =>
      if bytes = listFrameJson then .ok listFrame else sampleCodec.fromSlice bytes }

/-- A client of the handler finds its tool, and reaches its method. -/
theorem advertised_tools_token :
    (∀ (body : Bytes) (req id : Value), IsFrame clientCodec body req → AnswersUnder req id →
      HasMethod req "tools/list" →
      mcp tokenPrimitives clientCodec tokenServer oneToolHandler
          (honestRequest tokenPrimitives tokenSecret (tokenClaims none) body 5) () =
        ⟨⟨200, some (reply id (obj [("tools", .array (oneTool "t_get"))]))⟩, (), []⟩) ∧
    (∀ name ∈ ["t_get"], ∃ method ∈ ["t.get"], Reaches tokenPrimitives clientCodec tokenServer
      tokenSecret (tokenClaims none) 5 oneToolHandler () name method) ∧
    ∀ method ∈ ["t.get"], ∃ name ∈ ["t_get"], Reaches tokenPrimitives clientCodec tokenServer
      tokenSecret (tokenClaims none) 5 oneToolHandler () name method := by
  have hnames : EntryNames (oneTool "t_get") ["t_get"] := .cons rfl .nil
  have hof : OfTool "t" ["t_get"] := by
    intro name hname
    rw [List.mem_singleton.mp hname]
    exact ⟨"get", .inl rfl⟩
  have hplain : Plain "t" ["t_get"] := by
    have hno : ∀ rest, "t" ++ "." ++ rest ∉ ["t_get"] := by
      intro rest hmem
      have heq := congrArg String.toList (List.mem_singleton.mp hmem)
      rw [String.toList_append, String.toList_append] at heq
      exact absurd (List.cons.inj (List.cons.inj heq).2).1 (by decide)
    exact ⟨by decide, fun rest _ h => absurd h (hno rest), fun rest _ h => absurd h (hno rest)⟩
  have hcheck : assertCatalogueMatches (oneTool "t_get") ["t.get"] = .ok () := by
    have hne : oneTool "t_get" ≠ [] := List.cons_ne_nil _ _
    rw [assertCatalogueMatches_eq_ok hne hnames]
    have hget : catalogueMethod "t_get" = "t.get" := by decide
    intro method
    simp [hget, eq_comm]
  exact advertised_tools tokenPrimitives rfl rfl clientCodec tokenServer tokenSecret rfl
    (tokenClaims none) (claimsFromSlice_token (.inl rfl)) 5 ⟨by decide, rfl, by decide⟩
    oneToolHandler () ["t_get"] ["t.get"] hnames hof hplain hcheck

end LayerKit
