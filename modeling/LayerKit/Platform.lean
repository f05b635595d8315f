import LayerKit.Gate
import LayerKit.Tokens

/-!
# The Platform and its Tools

The protocol between the platform and the layer servers. The platform mints tokens; a
network that may drop, repeat, reorder and redirect everything brings requests to the
servers, and anyone may send any bytes. What nobody can do is sign: a request is a
**forgery** if its token carries the signature, under the server's secret, of a text that
the platform never signed with it, and a forgery arrives only at a server whose secret has
leaked.

Every tool works through the scope of the claims that it is called with (`ScopedHandler`), and
may keep a memory of its own. A `World` is what the parties hold: the tokens minted, the clock,
the state of each server and the calls dispatched. Every order of events from a world without
tokens is a way to a reachable world.

## Main results

* `bearer_header`: a token comes out of its header as it went in.
* `honest_request_law`: a minted token is let through until it expires, and by the servers
  of its tool only.
* `authenticated_minted`: the identity behind a request that is no forgery was minted.
* `dispatched_under_minted_claims`: in every reachable world, a call was dispatched under
  claims that the platform had minted for this server, and a workspace without a token is
  untouched.
-/

open Json Text

namespace LayerKit

variable {σ μ T κ : Type} {P : Primitives} {C : Codec} {S : ServeState}

/-! ### The header of a token -/

/-- A visible ASCII character. -/
def IsVisible (c : Char) : Prop :=
  33 ≤ c.toNat ∧ c.toNat < 127

/-- The octets of a string are the encodings of its characters. -/
theorem toUTF8_toList (s : String) : s.toUTF8.data.toList = utf8 s := by
  rw [String.toUTF8, ← String.utf8Encode_toList, List.utf8Encode, List.toList_data_toByteArray]
  rfl

/-- An ASCII character is one octet. -/
theorem utf8EncodeChar_ascii {c : Char} (h : c.toNat < 127) :
    String.utf8EncodeChar c = [UInt8.ofNat c.toNat] := by
  have hsize : c.utf8Size = 1 := Char.utf8Size_eq_one_iff.mpr
    (UInt32.le_iff_toNat_le.mpr (show c.toNat ≤ 127 by omega))
  rw [String.utf8EncodeChar_eq_singleton hsize]
  rfl

/-- A header value of printable ASCII is read as the text that was written. -/
theorem toStr_toUTF8 {s : String} (h : ∀ c ∈ s.toList, 32 ≤ c.toNat ∧ c.toNat < 127) :
    toStr s.toUTF8.data.toList = some s := by
  have hbytes : s.toUTF8.data.toList = s.toList.map fun c => UInt8.ofNat c.toNat := by
    rw [toUTF8_toList, utf8, List.map_eq_flatMap]
    exact List.flatMap_congr fun c hc => utf8EncodeChar_ascii (h c hc).2
  have htoNat : ∀ c ∈ s.toList, (UInt8.ofNat c.toNat).toNat = c.toNat := fun c hc =>
    UInt8.toNat_ofNat_of_lt' (lt_trans (h c hc).2 (by decide))
  have hall : (s.toList.map fun c => UInt8.ofNat c.toNat).all
      (fun b => (32 ≤ b && b < 127) || b == 9) = true := by
    rw [List.all_map, List.all_eq_true]
    intro c hc
    have hlo : (32 : UInt8) ≤ UInt8.ofNat c.toNat :=
      UInt8.le_iff_toNat_le.mpr ((htoNat c hc).symm ▸ (h c hc).1)
    have hhi : UInt8.ofNat c.toNat < 127 :=
      UInt8.lt_iff_toNat_lt.mpr ((htoNat c hc).symm ▸ (h c hc).2)
    simp [hlo, hhi]
  have hchars : (s.toList.map fun c => UInt8.ofNat c.toNat).map (fun b => Char.ofNat b.toNat) =
      s.toList := by
    rw [List.map_map]
    refine (List.map_congr_left fun c hc => ?_).trans (List.map_id _)
    rw [Function.comp_apply, htoNat c hc, Char.ofNat_toNat]
    rfl
  rw [toStr, hbytes, if_pos hall, hchars, String.ofList_toList]

/-- A text without blanks is trimmed already. -/
theorem trim_of_visible {s : String} (h : ∀ c ∈ s.toList, isWhitespace c = false) :
    trim s = s := by
  have hdrop : s.toList.dropWhile isWhitespace = s.toList := by
    cases hs : s.toList with
    | nil => rfl
    | cons c cs =>
        have hc : isWhitespace c = false := h c (hs ▸ List.mem_cons_self)
        rw [List.dropWhile_cons_of_neg (by rw [hc]; exact Bool.false_ne_true)]
  have hrdrop : s.toList.rdropWhile isWhitespace = s.toList := by
    refine List.rdropWhile_eq_self_iff.mpr fun hne => ?_
    rw [h _ (List.getLast_mem hne)]
    exact Bool.false_ne_true
  rw [trim, hdrop, hrdrop, String.ofList_toList]

/-- The `Authorization` header of a token. -/
def bearerHeaders (token : String) : List (String × Bytes) :=
  [("authorization", ("Bearer " ++ token).toUTF8.data.toList)]

/-- **A token comes out of its header** as it went in. -/
theorem bearer_header {token : String} (h : ∀ c ∈ token.toList, IsVisible c) (body : Bytes)
    (now : Int64) : bearer ⟨bearerHeaders token, body, now⟩ = some token := by
  have hblank : ∀ c ∈ token.toList, isWhitespace c = false := by
    intro c hc
    obtain ⟨hlo, hhi⟩ := h c hc
    simp only [isWhitespace, List.contains_cons, List.contains_nil,
      Bool.or_eq_false_iff, Bool.and_eq_false_iff, decide_eq_false_iff_not, beq_eq_false_iff_ne,
      Bool.or_false]
    omega
  have hscheme : "Bearer ".toList.all (fun c => 32 ≤ c.toNat && c.toNat < 127) = true := by
    decide
  have hprintable : ∀ c ∈ ("Bearer " ++ token).toList, 32 ≤ c.toNat ∧ c.toNat < 127 := by
    intro c hc
    rw [String.toList_append, List.mem_append] at hc
    rcases hc with hc | hc
    · simpa using List.all_eq_true.mp hscheme c hc
    · exact ⟨Nat.le_of_succ_le (h c hc).1, (h c hc).2⟩
  exact bearer_eq_some.mpr
    ⟨_, token, rfl, toStr_toUTF8 hprintable, trim_of_visible hblank⟩

/-- Minted tokens are visible ASCII. -/
theorem isVisible_mint (hencode : P.b64Encode = Base64.urlSafe.encode) (secret : Bytes)
    (claims : Claims) : ∀ c ∈ (mint P secret claims).toList, IsVisible c := by
  have hsymbols : Base64.urlSafe.symbols.all (fun c => 33 ≤ c.toNat && c.toNat < 127) = true := by
    decide
  have hsymbol : ∀ bs, ∀ c ∈ (P.b64Encode bs).toList, IsVisible c := by
    intro bs c hc
    rw [hencode] at hc
    simpa [IsVisible] using
      List.all_eq_true.mp hsymbols c (Base64.urlSafe.mem_symbols_of_mem_encode hc)
  intro c hc
  rw [mint_eq, String.toList_append, String.toList_append] at hc
  rcases List.mem_append.mp hc with hc | hc
  · rcases List.mem_append.mp hc with hc | hc
    · exact hsymbol _ c hc
    · obtain rfl := List.mem_singleton.mp hc
      exact ⟨by decide, by decide⟩
  · exact hsymbol _ c hc

/-! ### Honest requests -/

/-- A request with a verified token isn't refused. -/
theorem status_of_authenticated {r : Request} {claims : Claims} (h : Authenticated P S r claims)
    (handler : McpHandler σ) (s : σ) : (mcp P C S handler r s).result.status ≠ 401 := by
  obtain ⟨secret, hsecret, hverify⟩ := authenticated_iff.mp h
  simp only [mcp, hsecret, hverify]
  cases C.fromSlice r.body with
  | error e => exact (by decide : (400 : UInt16) ≠ 401)
  | ok req =>
      dsimp only
      split
      · exact (by decide : (400 : UInt16) ≠ 401)
      · dsimp only
        split
        · exact (by decide : (200 : UInt16) ≠ 401)
        · exact (by decide : (202 : UInt16) ≠ 401)

/-- A request with a minted token. -/
def honestRequest (P : Primitives) (secret : Bytes) (claims : Claims) (body : Bytes)
    (now : Int64) : Request where
  headers := bearerHeaders (mint P secret claims)
  body := body
  now := now

/-- **The law of honest requests.** Whatever the body that the framework hands on (one above
its limit is answered 413 before), a request with a minted token passes the gate of a server
with the secret it was minted with under exactly the claims that were minted, if these are
unexpired, for the tool of the server and of a workspace; otherwise it passes under no claims.
It is answered 401 in that case only. -/
theorem honest_request_law (P : Primitives) (hencode : P.b64Encode = Base64.urlSafe.encode)
    (hdecode : P.b64Decode = Base64.urlSafe.decode) (C : Codec) (S : ServeState)
    (secret : Bytes) (hsecret : S.platformSecret = some secret) (claims : Claims)
    (hclaims : P.claimsFromSlice (P.claimsToVec claims) = some claims) (body : Bytes)
    (now : Int64) (handler : McpHandler σ) (s : σ) :
    (∀ c, Authenticated P S (honestRequest P secret claims body now) c ↔
      c = claims ∧ now ≤ claims.exp ∧ claims.tool = S.tool ∧ claims.workspace ≠ "") ∧
    ((mcp P C S handler (honestRequest P secret claims body now) s).result.status = 401 ↔
      ¬ (now ≤ claims.exp ∧ claims.tool = S.tool ∧ claims.workspace ≠ "")) := by
  have hbearer : bearer (honestRequest P secret claims body now) = some (mint P secret claims) :=
    bearer_header (isVisible_mint hencode secret claims) body now
  have hauth : ∀ c, Authenticated P S (honestRequest P secret claims body now) c ↔
      c = claims ∧ now ≤ claims.exp ∧ claims.tool = S.tool ∧ claims.workspace ≠ "" := by
    intro c
    rw [authenticated_iff, hsecret, hbearer]
    simp only [Option.some.injEq, exists_eq_left', Option.bind_some]
    change verify P secret S.tool now (mint P secret claims) = some c ↔ _
    rw [verify_mint P (strictBase64_urlSafe hencode hdecode) secret claims hclaims S.tool now,
      Option.ite_none_right_eq_some, and_comm, Option.some.injEq, eq_comm]
  refine ⟨hauth, ⟨fun h401 hvalid => ?_, fun hno => ?_⟩⟩
  · exact status_of_authenticated ((hauth claims).mpr ⟨rfl, hvalid⟩) handler s h401
  · exact ((mcp_gated handler _ s).refused fun c hc => hno ((hauth c).mp hc).2).1

/-- The server of the tool `t` under the secret of the sample tokens. -/
def tokenServer : ServeState where
  tool := "t"
  version := "0.1.0"
  platformSecret := some tokenSecret

/-- The law at a frame under a sample token, at the last instant it is valid. -/
theorem honest_request_law_token :
    (∀ c, Authenticated tokenPrimitives tokenServer
        (honestRequest tokenPrimitives tokenSecret (tokenClaims none) sampleFrameJson 5) c ↔
      c = tokenClaims none ∧ (5 : Int64) ≤ (tokenClaims none).exp ∧
        (tokenClaims none).tool = tokenServer.tool ∧ (tokenClaims none).workspace ≠ "") ∧
    ((mcp tokenPrimitives sampleCodec tokenServer sampleHandler.handler
        (honestRequest tokenPrimitives tokenSecret (tokenClaims none) sampleFrameJson 5)
          ((), Sql.Table.empty)).result.status = 401 ↔
      ¬ ((5 : Int64) ≤ (tokenClaims none).exp ∧ (tokenClaims none).tool = tokenServer.tool ∧
        (tokenClaims none).workspace ≠ "")) :=
  honest_request_law tokenPrimitives rfl rfl sampleCodec tokenServer tokenSecret rfl
    (tokenClaims none) (claimsFromSlice_token (.inl rfl)) sampleFrameJson 5
    sampleHandler.handler ((), Sql.Table.empty)

/-! ### Forgeries -/

/-- The request carries the signature, under a secret, of a text that was never signed with
it: of no claims that were minted. -/
def Forged (P : Primitives) (secret : Bytes) (minted : List (Bytes × Claims)) (r : Request) :
    Prop :=
  ∃ token b sig, bearer r = some token ∧ splitOnce token '.' = some (b, sig) ∧
    P.b64Decode sig = some (sign P secret b) ∧
    ∀ claims, (secret, claims) ∈ minted → b ≠ claimsPart P claims

/-- **The identity behind a request that is no forgery** was minted. -/
theorem authenticated_minted (hP : StrictBase64 P) {secret : Bytes}
    (hsecret : S.platformSecret = some secret) {minted : List (Bytes × Claims)}
    (hserde : ∀ x ∈ minted, P.claimsFromSlice (P.claimsToVec x.2) = some x.2) {r : Request}
    (hr : ¬ Forged P secret minted r) {claims : Claims} (h : Authenticated P S r claims) :
    (secret, claims) ∈ minted := by
  obtain ⟨secret', hsecret', hverify⟩ := authenticated_iff.mp h
  obtain rfl : secret = secret' := Option.some.inj (hsecret.symm.trans hsecret')
  obtain ⟨token, htoken, hverify⟩ := Option.bind_eq_some_iff.mp hverify
  obtain ⟨⟨b, sig, raw, hsplit, hsig, hraw, hclaims⟩, -⟩ := verify_eq_some.mp hverify
  have hsigned : ∃ c, (secret, c) ∈ minted ∧ b = claimsPart P c := by
    by_contra hno
    exact hr ⟨token, b, sig, htoken, hsplit, hsig, fun c hc hb => hno ⟨c, hc, hb⟩⟩
  obtain ⟨c, hc, rfl⟩ := hsigned
  -- the text is that of the minted claims, so it reads as these
  have hvec : raw = P.claimsToVec c :=
    Option.some.inj (hraw.symm.trans ((hP.isPartialInv _ _).mpr rfl))
  rw [hvec, hserde _ hc] at hclaims
  exact Option.some.inj hclaims ▸ hc

/-- A request with a minted token is no forgery. -/
theorem not_forged_honestRequest (hencode : P.b64Encode = Base64.urlSafe.encode)
    (hdecode : P.b64Decode = Base64.urlSafe.decode) {secret : Bytes}
    {minted : List (Bytes × Claims)} {claims : Claims} (h : (secret, claims) ∈ minted)
    (body : Bytes) (now : Int64) :
    ¬ Forged P secret minted (honestRequest P secret claims body now) := by
  rintro ⟨token, b, sig, htoken, hsplit, -, hno⟩
  have hbearer := bearer_header (isVisible_mint hencode secret claims) body now
  obtain rfl := Option.some.inj (hbearer.symm.trans htoken)
  rw [splitOnce_dot.mpr ⟨mint_eq claims, (strictBase64_urlSafe hencode hdecode).dot_notMem _⟩]
    at hsplit
  exact hno claims h (Prod.mk.inj (Option.some.inj hsplit)).1.symm

/-! ### Worlds -/

/-- Layer servers over one network: the identity and the handler of each, and the secrets
that others than the platform and their servers know. -/
structure Deployment (κ μ T : Type) where
  primitives : Primitives
  codec : Codec
  server : κ → ServeState
  layer : κ → ScopedHandler μ T
  leaked : Set Bytes

/-- A call that a server dispatched, with the clock at that time. -/
structure LogEntry (κ : Type) where
  server : κ
  now : Int64
  call : DispatchCall

/-- The tokens minted, each with its secret, the clock, the servers and the calls. -/
structure World (κ μ T : Type) where
  minted : List (Bytes × Claims)
  now : Int64
  state : κ → μ × Objects
  log : List (LogEntry κ)

/-- What can happen. -/
inductive Event (κ : Type)
  | mint (secret : Bytes) (claims : Claims)
  | clock (now : Int64)
  | deliver (k : κ) (headers : List (String × Bytes)) (body : Bytes)

variable [DecidableEq κ]

/-- What an event does. -/
def Deployment.step (D : Deployment κ μ T) (w : World κ μ T) : Event κ → World κ μ T
  | .mint secret claims => { w with minted := (secret, claims) :: w.minted }
  | .clock now => { w with now := now }
  | .deliver k headers body =>
      let served := mcp D.primitives D.codec (D.server k) (D.layer k).handler
        ⟨headers, body, w.now⟩ (w.state k)
      { w with
        state := Function.update w.state k served.state
        log := w.log ++ served.calls.map (LogEntry.mk k w.now) }

/-- A forgery is delivered only to a server whose secret has leaked. -/
def Deployment.Possible (D : Deployment κ μ T) (w : World κ μ T) : Event κ → Prop
  | .mint _ _ => True
  | .clock _ => True
  | .deliver k headers body =>
      ∀ secret, (D.server k).platformSecret = some secret → secret ∉ D.leaked →
        ¬ Forged D.primitives secret w.minted ⟨headers, body, w.now⟩

/-- The worlds that any order of possible events leads to. -/
inductive Deployment.Reachable (D : Deployment κ μ T) (start : World κ μ T) :
    World κ μ T → Prop
  | refl : D.Reachable start start
  | step {w : World κ μ T} (e : Event κ) (h : D.Reachable start w) (he : D.Possible w e) :
      D.Reachable start (D.step w e)

/-- Nothing minted and nothing dispatched. -/
def World.Fresh (w : World κ μ T) : Prop :=
  w.minted = [] ∧ w.log = []

/-- A server whose secret, if it has one, has not leaked. -/
def Deployment.Sound (D : Deployment κ μ T) (k : κ) : Prop :=
  ∀ secret, (D.server k).platformSecret = some secret → secret ∉ D.leaked

/-- A token was minted for the server: with its secret, for its tool. -/
def Deployment.MintedFor (D : Deployment κ μ T) (minted : List (Bytes × Claims)) (k : κ)
    (claims : Claims) : Prop :=
  claims.tool = (D.server k).tool ∧
    ∃ secret, (D.server k).platformSecret = some secret ∧ (secret, claims) ∈ minted

omit [DecidableEq κ] in
/-- Further tokens take none away. -/
theorem Deployment.MintedFor.mono {D : Deployment κ μ T} {minted minted' : List (Bytes × Claims)}
    (hsub : ∀ x ∈ minted, x ∈ minted') {k : κ} {claims : Claims}
    (h : D.MintedFor minted k claims) : D.MintedFor minted' k claims := by
  obtain ⟨htool, secret, hsecret, hmem⟩ := h
  exact ⟨htool, secret, hsecret, hsub _ hmem⟩

/-- Events mint tokens and take none back. -/
theorem Deployment.minted_step (D : Deployment κ μ T) (w : World κ μ T) (e : Event κ) :
    ∀ x ∈ w.minted, x ∈ (D.step w e).minted := by
  intro x hx
  cases e with
  | mint secret claims => exact List.mem_cons_of_mem _ hx
  | clock now => exact hx
  | deliver k headers body => exact hx

omit [DecidableEq κ] in
/-- The identity behind a possible request to a sound server was minted for it. -/
theorem Deployment.mintedFor_of_authenticated {D : Deployment κ μ T}
    (hP : StrictBase64 D.primitives) {w : World κ μ T}
    (hserde : ∀ x ∈ w.minted,
      D.primitives.claimsFromSlice (D.primitives.claimsToVec x.2) = some x.2)
    {k : κ} (hk : D.Sound k) {headers : List (String × Bytes)} {body : Bytes}
    (he : D.Possible w (.deliver k headers body)) {claims : Claims}
    (h : Authenticated D.primitives (D.server k) ⟨headers, body, w.now⟩ claims) :
    D.MintedFor w.minted k claims := by
  obtain ⟨secret, hsecret, -⟩ := authenticated_iff.mp h
  exact ⟨h.current.2.1, secret, hsecret,
    authenticated_minted hP hsecret hserde (he secret hsecret (hk secret hsecret)) h⟩

/-- A request leaves the rows of every set of workspaces without its own. -/
theorem rowsIn_mcp_of_not (layer : ScopedHandler μ T) {W : String → Bool} {r : Request}
    (h : ∀ claims, Authenticated P S r claims → W claims.workspace = false) (s : μ × Objects) :
    rowsIn W (mcp P C S layer.handler r s).state.2 = rowsIn W s.2 := by
  rcases mcp_cases P C S r with
    ⟨-, body, hmcp⟩ | ⟨claims, hauth, ⟨answer, hmcp⟩ | ⟨method, params, id, hmcp⟩⟩
  · rw [hmcp]
  · rw [hmcp]
  · rw [hmcp]
    exact Prog.rowsIn_run_of_not (h claims hauth) (layer.dispatch claims method params s.1) s.2

/-- What holds of every call dispatched. -/
structure LogEntry.Lawful (D : Deployment κ μ T) (minted : List (Bytes × Claims))
    (x : LogEntry κ) : Prop where
  minted : D.MintedFor minted x.server x.call.claims
  unexpired : x.now ≤ x.call.claims.exp
  ofWorkspace : x.call.claims.workspace ≠ ""

omit [DecidableEq κ] in
/-- A lawful entry stays lawful when further tokens are minted. -/
theorem LogEntry.Lawful.mono {D : Deployment κ μ T} {minted minted' : List (Bytes × Claims)}
    (hsub : ∀ x ∈ minted, x ∈ minted') {x : LogEntry κ} (h : x.Lawful D minted) :
    x.Lawful D minted' :=
  ⟨h.minted.mono hsub, h.unexpired, h.ofWorkspace⟩

/-- **Calls are lawful** in every reachable world. -/
theorem Deployment.lawful_of_reachable {D : Deployment κ μ T} (hP : StrictBase64 D.primitives)
    {start w : World κ μ T} (hstart : start.Fresh) (h : D.Reachable start w)
    (hserde : ∀ x ∈ w.minted,
      D.primitives.claimsFromSlice (D.primitives.claimsToVec x.2) = some x.2) :
    ∀ x ∈ w.log, D.Sound x.server → x.Lawful D w.minted := by
  induction h with
  | refl =>
      intro x hx
      rw [hstart.2] at hx
      exact absurd hx List.not_mem_nil
  | @step w e h he ih =>
      have hserde' := fun x hx => hserde x (D.minted_step w e x hx)
      have hold : ∀ x ∈ w.log, D.Sound x.server → x.Lawful D (D.step w e).minted :=
        fun x hx hk => (ih hserde' x hx hk).mono (D.minted_step w e)
      cases e with
      | mint secret claims => exact hold
      | clock now => exact hold
      | deliver k headers body =>
          intro x hx hk
          rcases List.mem_append.mp hx with hx | hx
          · exact hold x hx hk
          · obtain ⟨call, hcall, rfl⟩ := List.mem_map.mp hx
            have hauth := (mcp_gated (C := D.codec) (D.layer k).handler
              ⟨headers, body, w.now⟩ (w.state k)).verified call hcall
            exact ⟨D.mintedFor_of_authenticated hP hserde' hk he hauth, hauth.current.1,
              hauth.current.2.2⟩

/-- **A workspace without a token is untouched** in every reachable world. -/
theorem Deployment.rowsIn_of_reachable {D : Deployment κ μ T} (hP : StrictBase64 D.primitives)
    {start w : World κ μ T} (h : D.Reachable start w)
    (hserde : ∀ x ∈ w.minted,
      D.primitives.claimsFromSlice (D.primitives.claimsToVec x.2) = some x.2)
    {k : κ} (hk : D.Sound k) {W : String → Bool}
    (hno : ∀ claims, D.MintedFor w.minted k claims → W claims.workspace = false) :
    rowsIn W (w.state k).2 = rowsIn W (start.state k).2 := by
  induction h with
  | refl => rfl
  | @step w e h he ih =>
      have hsub := D.minted_step w e
      have hserde' := fun x hx => hserde x (hsub x hx)
      have hno' := fun claims hc => hno claims (Deployment.MintedFor.mono hsub hc)
      have hold := ih hserde' hno'
      cases e with
      | mint secret claims => exact hold
      | clock now => exact hold
      | deliver k' headers body =>
          rcases eq_or_ne k k' with rfl | hne
          · refine Eq.trans ?_ hold
            simp only [step, Function.update_self]
            exact rowsIn_mcp_of_not (D.layer k) (fun claims hauth =>
              hno' claims (D.mintedFor_of_authenticated hP hserde' hk he hauth)) (w.state k)
          · simpa only [step, Function.update_of_ne hne] using hold

/-- **Calls are dispatched under minted claims.** Let every tool touch the store through the scope
of its claims only, start with no token minted, and let the events come in any order: tokens
minted, clocks set, and any requests delivered to any server, none of them a forgery unless the
secret has leaked. Then every call that a server with a sound secret ever dispatched was made
under claims that the platform had minted with that secret, for its tool, unexpired at that time
and of a workspace; and a set of workspaces for which no such claims were minted has the rows it
started with. -/
theorem dispatched_under_minted_claims (D : Deployment κ μ T)
    (hP : StrictBase64 D.primitives) (start w : World κ μ T) (hstart : start.Fresh)
    (h : D.Reachable start w)
    (hserde : ∀ x ∈ w.minted,
      D.primitives.claimsFromSlice (D.primitives.claimsToVec x.2) = some x.2)
    (k : κ) (hk : D.Sound k) :
    (∀ x ∈ w.log, x.server = k → x.Lawful D w.minted) ∧
    ∀ W : String → Bool, (∀ claims, D.MintedFor w.minted k claims → W claims.workspace = false) →
      rowsIn W (w.state k).2 = rowsIn W (start.state k).2 :=
  ⟨fun x hx hkx => D.lawful_of_reachable hP hstart h hserde x hx (hkx ▸ hk),
    fun _ hno => D.rowsIn_of_reachable hP h hserde hk hno⟩

/-- One server, whose secret is safe. -/
def tokenDeployment : Deployment Unit Unit Bool where
  primitives := tokenPrimitives
  codec := sampleCodec
  server _ := tokenServer
  layer _ := sampleHandler
  leaked := ∅

/-- One server over the empty table, nothing minted yet. -/
def tokenStart : World Unit Unit Bool where
  minted := []
  now := 5
  state _ := ((), legacyTable)
  log := []

/-- A token is minted and presented. -/
def tokenWorld : World Unit Unit Bool :=
  tokenDeployment.step (tokenDeployment.step tokenStart (.mint tokenSecret (tokenClaims none)))
    (.deliver () (bearerHeaders (mint tokenPrimitives tokenSecret (tokenClaims none)))
      sampleFrameJson)

/-- A token is minted and a request with it delivered. -/
theorem reachable_tokenWorld : tokenDeployment.Reachable tokenStart tokenWorld := by
  refine .step _ (.step _ .refl trivial) fun secret hsecret _ => ?_
  obtain rfl := Option.some.inj hsecret
  exact not_forged_honestRequest (P := tokenPrimitives) rfl rfl List.mem_cons_self
    sampleFrameJson 5

/-- The law in the world with that one request. -/
theorem dispatched_under_minted_claims_token :
    (∀ x ∈ tokenWorld.log, x.server = () → x.Lawful tokenDeployment tokenWorld.minted) ∧
    ∀ W : String → Bool,
      (∀ claims, tokenDeployment.MintedFor tokenWorld.minted () claims →
        W claims.workspace = false) →
      rowsIn W (tokenWorld.state ()).2 = rowsIn W (tokenStart.state ()).2 :=
  dispatched_under_minted_claims tokenDeployment strictBase64_token tokenStart tokenWorld
    ⟨rfl, rfl⟩ reachable_tokenWorld
    (fun x hx => by
      obtain rfl := List.mem_singleton.mp hx
      exact claimsFromSlice_token (.inl rfl))
    () fun _ _ => Set.notMem_empty _

end LayerKit
