import LayerKit.Text

/-!
# Platform Tokens

The token contract of `auth.rs`: a token is the text of its claims, a dot, and the
signature of that text under the secret that the platform and the tool share. The
cryptography and the encodings are not the crate's own, so they are the fields of a
`Primitives`, of which only the comparison of signatures is described: it takes exactly the
equal one.

## Main results

* `verify_eq_some`: what an accepted token is, and what its claims say.
-/

open Text

namespace LayerKit

/-- A sequence of bytes. -/
abbrev Bytes := List UInt8

/-- **What a token says**: the workspace and, where there is one, the project, the tool it is
for, and its expiry in unix seconds. -/
structure Claims where
  workspace : String
  project : Option String
  tool : String
  exp : Int64
deriving DecidableEq

/-- The code `auth.rs` calls: HMAC-SHA256 by key and message with its constant-time comparison
`Mac::verify_slice`, unpadded URL-safe base64, and the JSON of the claims. What fails answers
`none`. -/
structure Primitives where
  hmacSha256 : Bytes → Bytes → Bytes
  verifySlice : Bytes → Bytes → Option Unit
  verifySlice_eq_some : ∀ {expected sig : Bytes} {u : Unit},
    verifySlice expected sig = some u ↔ expected = sig
  b64Encode : Bytes → String
  b64Decode : String → Option Bytes
  claimsToVec : Claims → Bytes
  claimsFromSlice : Bytes → Option Claims

/-- The comparison of signatures as an equality. -/
def equalTag (expected sig : Bytes) : Option Unit :=
  if expected = sig then some () else none

/-- It takes exactly the equal signature. -/
theorem equalTag_eq_some {expected sig : Bytes} {u : Unit} :
    equalTag expected sig = some u ↔ expected = sig := by
  simp [equalTag]

/-- The signature of the text of the claims. -/
def sign (P : Primitives) (secret : Bytes) (claimsB64 : String) : Bytes :=
  P.hmacSha256 secret claimsB64.toUTF8.data.toList

/-- Mint a token. -/
def mint (P : Primitives) (secret : Bytes) (claims : Claims) : String :=
  let claimsB64 := P.b64Encode (P.claimsToVec claims)
  let sig := P.b64Encode (sign P secret claimsB64)
  claimsB64 ++ "." ++ sig

/-- Validate signature, expiry, audience and a non-empty workspace. -/
def verify (P : Primitives) (secret : Bytes) (expectedTool : String) (now : Int64)
    (token : String) : Option Claims := do
  let (claimsB64, sigB64) ← splitOnce token '.'
  let sig ← P.b64Decode sigB64
  P.verifySlice (sign P secret claimsB64) sig
  let claims ← P.claimsFromSlice (← P.b64Decode claimsB64)
  if claims.exp < now ∨ claims.tool ≠ expectedTool ∨ claims.workspace = "" then
    none
  else
    some claims

/-- **What is accepted**: a signed text of claims that are unexpired, for the tool, and of a
workspace. -/
theorem verify_eq_some {P : Primitives} {secret : Bytes} {tool : String} {now : Int64}
    {token : String} {claims : Claims} :
    verify P secret tool now token = some claims ↔
      (∃ claimsB64 sigB64 raw, splitOnce token '.' = some (claimsB64, sigB64) ∧
        P.b64Decode sigB64 = some (sign P secret claimsB64) ∧
        P.b64Decode claimsB64 = some raw ∧ P.claimsFromSlice raw = some claims) ∧
      now ≤ claims.exp ∧ claims.tool = tool ∧ claims.workspace ≠ "" := by
  simp only [verify, Option.bind_eq_bind, Option.bind_eq_some_iff, P.verifySlice_eq_some]
  constructor
  · rintro ⟨⟨claimsB64, sigB64⟩, hsplit, sig, hsig, -, rfl, raw, hraw, c, hc, h⟩
    split at h
    · cases h
    · next hno =>
        obtain rfl : c = claims := Option.some.inj h
        rw [not_or, not_or, Int64.not_lt, not_not] at hno
        exact ⟨⟨claimsB64, sigB64, raw, hsplit, hsig, hraw, hc⟩, hno⟩
  · rintro ⟨⟨claimsB64, sigB64, raw, hsplit, hsig, hraw, hc⟩, hexp, htool, hworkspace⟩
    refine ⟨(claimsB64, sigB64), hsplit, _, hsig, (), rfl, raw, hraw, claims, hc, if_neg ?_⟩
    rw [not_or, not_or, Int64.not_lt, not_not]
    exact ⟨hexp, htool, hworkspace⟩

end LayerKit
