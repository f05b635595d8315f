import Mathlib.Data.Set.Function
import LayerKit.Auth
import LayerKit.Base64

/-!
# Minted and Accepted Tokens

What a token says comes back from it, and no other text says it. The base64 engine of
`auth.rs` is strict (`StrictBase64`, which the engine `Base64.urlSafe` satisfies), and none
of its texts has a dot, so a token falls apart into the text of its claims and its
signature in one way only. An accepted token is the text of some bytes, a dot, and the text
of their signature, and nothing about it is free (`verify_eq_some_iff`).

## Main results

* `verify_mint`: a minted token is accepted for what it says, exactly as long as it says so.
* `tokens_not_malleable`: one text for each signed text of claims, and no mixed tokens.
-/

open Text Function

namespace LayerKit

/-! ### Strict base64 -/

/-- The base64 engine decodes exactly what it encodes, to texts without a dot. -/
structure StrictBase64 (P : Primitives) : Prop where
  isPartialInv : IsPartialInv P.b64Encode P.b64Decode
  dot_notMem : ∀ bs, '.' ∉ (P.b64Encode bs).toList

/-- **The engine of the crate** is strict. -/
theorem strictBase64_urlSafe {P : Primitives} (hencode : P.b64Encode = Base64.urlSafe.encode)
    (hdecode : P.b64Decode = Base64.urlSafe.decode) : StrictBase64 P where
  isPartialInv := by
    rw [hencode, hdecode]
    exact Base64.urlSafe.isPartialInv_encode
  dot_notMem bs hdot := by
    rw [hencode] at hdot
    have hsymbol := Base64.urlSafe.mem_symbols_of_mem_encode hdot
    revert hsymbol
    decide

/-- The text of the claims in a token. -/
def claimsPart (P : Primitives) (claims : Claims) : String :=
  P.b64Encode (P.claimsToVec claims)

/-- The signature text for a text of claims. -/
def signaturePart (P : Primitives) (secret : Bytes) (claimsB64 : String) : String :=
  P.b64Encode (sign P secret claimsB64)

variable {P : Primitives} {secret : Bytes} {tool : String} {now : Int64}

/-- A token is its two parts with a dot between. -/
theorem mint_eq (claims : Claims) :
    mint P secret claims =
      claimsPart P claims ++ "." ++ signaturePart P secret (claimsPart P claims) := rfl

/-- A text before the first dot, and what follows it. -/
theorem splitOnce_dot {s a b : String} :
    splitOnce s '.' = some (a, b) ↔ s = a ++ "." ++ b ∧ '.' ∉ a.toList := by
  rw [splitOnce_eq_some, ← String.toList_inj]
  simp

/-- **What is accepted**, to the letter. -/
theorem verify_eq_some_iff (hP : StrictBase64 P) {token : String} {claims : Claims} :
    verify P secret tool now token = some claims ↔
      (∃ raw, token = P.b64Encode raw ++ "." ++ signaturePart P secret (P.b64Encode raw) ∧
        P.claimsFromSlice raw = some claims) ∧
      now ≤ claims.exp ∧ claims.tool = tool ∧ claims.workspace ≠ "" := by
  rw [verify_eq_some]
  refine and_congr_left fun _ => ?_
  constructor
  · rintro ⟨claimsB64, sigB64, raw, hsplit, hsig, hraw, hclaims⟩
    obtain rfl := (hP.isPartialInv _ _).mp hsig
    obtain rfl := (hP.isPartialInv _ _).mp hraw
    exact ⟨raw, (splitOnce_dot.mp hsplit).1, hclaims⟩
  · rintro ⟨raw, rfl, hclaims⟩
    exact ⟨_, _, raw, splitOnce_dot.mpr ⟨rfl, hP.dot_notMem raw⟩, hP.isPartialInv.eq _,
      hP.isPartialInv.eq _, hclaims⟩

/-- The two sides of a dot are determined by the whole, if the first one has no dot. -/
theorem append_dot_inj {a b a' b' : String} (ha : '.' ∉ a.toList) (ha' : '.' ∉ a'.toList)
    (h : a ++ "." ++ b = a' ++ "." ++ b') : a = a' ∧ b = b' := by
  have hsplit := splitOnce_dot.mpr ⟨h, ha'⟩
  rw [splitOnce_dot.mpr ⟨rfl, ha⟩] at hsplit
  exact Prod.mk.inj (Option.some.inj hsplit)

/-! ### Two tokens of one secret -/

/-- Claims on a workspace or on one of its projects. -/
def tokenClaims (project : Option String) : Claims :=
  ⟨"w", project, "t", 5⟩

/-- Their JSON. -/
def tokenJson : Option String → Bytes
  | none =>
      "\x7b\"workspace\":\"w\",\"project\":null,\"tool\":\"t\",\"exp\":5\x7d".toUTF8.data.toList
  | some _ =>
      "\x7b\"workspace\":\"w\",\"project\":\"p\",\"tool\":\"t\",\"exp\":5\x7d".toUTF8.data.toList

/-- The secret `k`. -/
def tokenSecret : Bytes := [107]

/-- What the crate calls, on these two claims and this secret. -/
def tokenPrimitives : Primitives where
  hmacSha256 _ message :=
    if message.length = 68 then
      [114, 49, 109, 192, 160, 19, 62, 11, 4, 82, 23, 78, 232, 100, 98, 131, 46, 18, 48, 27, 188,
        200, 28, 89, 192, 135, 43, 227, 38, 63, 248, 93]
    else
      [195, 60, 123, 214, 100, 19, 28, 251, 32, 133, 131, 160, 123, 159, 64, 237, 164, 81, 102, 151,
        50, 145, 84, 91, 79, 111, 215, 71, 55, 205, 182, 130]
  verifySlice := equalTag
  verifySlice_eq_some := equalTag_eq_some
  b64Encode := Base64.urlSafe.encode
  b64Decode := Base64.urlSafe.decode
  claimsToVec claims := tokenJson claims.project
  claimsFromSlice raw :=
    if raw = tokenJson none then some (tokenClaims none)
    else if raw = tokenJson (some "p") then some (tokenClaims (some "p"))
    else none

/-- Their base64 is the real one. -/
theorem strictBase64_token : StrictBase64 tokenPrimitives :=
  strictBase64_urlSafe rfl rfl

/-- Their claims are read back. -/
theorem claimsFromSlice_token {claims : Claims}
    (h : claims ∈ ({tokenClaims none, tokenClaims (some "p")} : Set Claims)) :
    tokenPrimitives.claimsFromSlice (tokenPrimitives.claimsToVec claims) = some claims := by
  rcases h with rfl | rfl
  · decide
  · decide

/-- The two texts of claims have different tags. -/
theorem injOn_sign_token :
    Set.InjOn (sign tokenPrimitives tokenSecret)
      (claimsPart tokenPrimitives '' {tokenClaims none, tokenClaims (some "p")}) := by
  have hne : sign tokenPrimitives tokenSecret (claimsPart tokenPrimitives (tokenClaims none)) ≠
      sign tokenPrimitives tokenSecret
        (claimsPart tokenPrimitives (tokenClaims (some "p"))) := by
    decide +kernel
  rintro _ ⟨_, rfl | rfl, rfl⟩ _ ⟨_, rfl | rfl, rfl⟩ h
  · rfl
  · exact absurd h hne
  · exact absurd h.symm hne
  · rfl

/-! ### The round trip -/

/-- **The round trip of a token.** A minted token is accepted with all that its claims say,
when they are unexpired, for the tool and of a workspace, and rejected otherwise. -/
theorem verify_mint (P : Primitives) (hP : StrictBase64 P) (secret : Bytes) (claims : Claims)
    (hclaims : P.claimsFromSlice (P.claimsToVec claims) = some claims) (tool : String)
    (now : Int64) :
    verify P secret tool now (mint P secret claims) =
      if now ≤ claims.exp ∧ claims.tool = tool ∧ claims.workspace ≠ "" then some claims
      else none := by
  refine Option.ext fun c => ?_
  rw [verify_eq_some_iff hP, Option.ite_none_right_eq_some]
  constructor
  · rintro ⟨⟨raw, htoken, hraw⟩, hvalid⟩
    obtain ⟨hpart, -⟩ := append_dot_inj (hP.dot_notMem _) (hP.dot_notMem raw) htoken
    rw [← hP.isPartialInv.injective hpart, hclaims] at hraw
    obtain rfl := Option.some.inj hraw
    exact ⟨hvalid, rfl⟩
  · rintro ⟨hvalid, hc⟩
    obtain rfl := Option.some.inj hc
    exact ⟨⟨_, mint_eq claims, hclaims⟩, hvalid⟩

/-- The token is verified. -/
theorem verify_mint_token :
    verify tokenPrimitives tokenSecret "t" 5
      (mint tokenPrimitives tokenSecret (tokenClaims none)) = some (tokenClaims none) :=
  (verify_mint tokenPrimitives strictBase64_token tokenSecret (tokenClaims none)
    (claimsFromSlice_token (.inl rfl)) "t" 5).trans (if_pos ⟨by decide, rfl, by decide⟩)

/-! ### No other token -/

/-- The token of a signed text of claims is the only one that is accepted for it. -/
structure Unmalleable (P : Primitives) (secret : Bytes) (tool : String) (now : Int64) : Prop where
  form : ∀ token claims, verify P secret tool now token = some claims →
    ∃ b, splitOnce token '.' = some (b, signaturePart P secret b) ∧
      token = b ++ "." ++ signaturePart P secret b
  unique : ∀ token token' claims claims' b sig sig',
    verify P secret tool now token = some claims → verify P secret tool now token' = some claims' →
      splitOnce token '.' = some (b, sig) → splitOnce token' '.' = some (b, sig') → token = token'
  otherSignature : ∀ b sig, '.' ∉ b.toList → sig ≠ signaturePart P secret b →
    verify P secret tool now (b ++ "." ++ sig) = none

/-- Tokens of the minted claims cannot be mixed, and say what was minted. -/
structure Unmixable (P : Primitives) (secret : Bytes) (tool : String) (now : Int64)
    (minted : Set Claims) : Prop where
  mixed : ∀ claims ∈ minted, ∀ claims' ∈ minted, claimsPart P claims ≠ claimsPart P claims' →
    verify P secret tool now
      (claimsPart P claims ++ "." ++ signaturePart P secret (claimsPart P claims')) = none
  sound : ∀ token accepted sig, verify P secret tool now token = some accepted →
    ∀ claims ∈ minted, splitOnce token '.' = some (claimsPart P claims, sig) → accepted = claims

/-- An accepted token, cut at its first dot. -/
theorem splitOnce_of_verify (hP : StrictBase64 P) {token : String} {claims : Claims}
    (h : verify P secret tool now token = some claims) :
    ∃ raw, splitOnce token '.' =
        some (P.b64Encode raw, signaturePart P secret (P.b64Encode raw)) ∧
      P.claimsFromSlice raw = some claims := by
  obtain ⟨⟨raw, rfl, hraw⟩, -⟩ := (verify_eq_some_iff hP).mp h
  exact ⟨raw, splitOnce_dot.mpr ⟨rfl, hP.dot_notMem raw⟩, hraw⟩

/-- A signature text that isn't the expected one is rejected. -/
theorem verify_eq_none (hP : StrictBase64 P) {b sig : String} (hb : '.' ∉ b.toList)
    (hsig : sig ≠ signaturePart P secret b) :
    verify P secret tool now (b ++ "." ++ sig) = none := by
  refine Option.eq_none_iff_forall_ne_some.mpr fun claims h => ?_
  obtain ⟨raw, hsplit, -⟩ := splitOnce_of_verify hP h
  rw [splitOnce_dot.mpr ⟨rfl, hb⟩, Option.some.injEq, Prod.mk.injEq] at hsplit
  obtain ⟨rfl, rfl⟩ := hsplit
  exact hsig rfl

/-- No token but the minted one passes for it. -/
theorem unmalleable (hP : StrictBase64 P) (secret : Bytes) (tool : String) (now : Int64) :
    Unmalleable P secret tool now where
  form token claims h := by
    obtain ⟨raw, hsplit, -⟩ := splitOnce_of_verify hP h
    exact ⟨_, hsplit, (splitOnce_dot.mp hsplit).1⟩
  unique token token' claims claims' b sig sig' h h' hsplit hsplit' := by
    obtain ⟨raw, hcut, -⟩ := splitOnce_of_verify hP h
    obtain ⟨raw', hcut', -⟩ := splitOnce_of_verify hP h'
    rw [hsplit, Option.some.injEq, Prod.mk.injEq] at hcut
    rw [hsplit', Option.some.injEq, Prod.mk.injEq] at hcut'
    rw [(splitOnce_dot.mp hsplit).1, (splitOnce_dot.mp hsplit').1, hcut.2, hcut'.2, ← hcut.1,
      ← hcut'.1]
  otherSignature b sig hb hsig := verify_eq_none hP hb hsig

/-- **Tokens are not malleable.** An accepted token is the one text for its signed text of
claims. Among minted tokens whose texts of claims HMAC tells apart, no token can be
assembled from the parts of two, and an accepted one says what was minted. -/
theorem tokens_not_malleable (P : Primitives) (hP : StrictBase64 P) (secret : Bytes)
    (tool : String) (now : Int64) (minted : Set Claims)
    (hclaims : ∀ claims ∈ minted, P.claimsFromSlice (P.claimsToVec claims) = some claims)
    (hmac : Set.InjOn (sign P secret) (claimsPart P '' minted)) :
    Unmalleable P secret tool now ∧ Unmixable P secret tool now minted := by
  refine ⟨unmalleable hP secret tool now, ⟨fun claims hmem claims' hmem' hne => ?_,
    fun token accepted sig h claims hmem hsplit => ?_⟩⟩
  · refine verify_eq_none hP (hP.dot_notMem _) fun hsig => hne ?_
    have htag := hP.isPartialInv.injective hsig
    exact (hmac (Set.mem_image_of_mem _ hmem') (Set.mem_image_of_mem _ hmem) htag).symm
  · obtain ⟨raw, hcut, hraw⟩ := splitOnce_of_verify hP h
    rw [hsplit, Option.some.injEq, Prod.mk.injEq] at hcut
    rw [← hP.isPartialInv.injective hcut.1, hclaims claims hmem] at hraw
    exact (Option.some.inj hraw).symm

/-- The law at that token and at a pair of tokens. -/
theorem tokens_not_malleable_token :
    Unmalleable tokenPrimitives tokenSecret "t" 5 ∧
      Unmixable tokenPrimitives tokenSecret "t" 5
        {tokenClaims none, tokenClaims (some "p")} :=
  tokens_not_malleable tokenPrimitives strictBase64_token tokenSecret "t" 5
    {tokenClaims none, tokenClaims (some "p")} (fun _ h => claimsFromSlice_token h)
    injOn_sign_token

end LayerKit
