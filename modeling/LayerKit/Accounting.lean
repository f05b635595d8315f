import LayerKit.Dialects

/-!
# Token Accounting

What the token counts of a reply are, by its usage object: the number under the first name of
a count, or else under the second, and as the total the number there is, or else the exact sum
of the counts (`countOf`, `totalOf`).

The accounts of a call are these unless one of two things happens. A member of the first name
that is no count hides the second name (`Shadowed`), and where the total is to be filled in,
the sum may not fit into 64 bits.

## Main results

* `withTotal_exact_iff`: when the total that is filled in is the exact one.
* `accounting_exact_iff`: when the accounts of a call are exact.
-/

open Json Loop

namespace LayerKit

/-- The count under one name or else under another. -/
def countOf (usage : Members) (a b : String) : Option UInt64 :=
  ((usage.lookup a).bind Value.asU64).or ((usage.lookup b).bind Value.asU64)

/-- The total that there is, or the sum of the counts. -/
def totalOf (total input output : Option UInt64) : Option ℕ :=
  match total, input, output with
  | some total, _, _ => some total.toNat
  | none, some input, some output => some (input.toNat + output.toNat)
  | none, _, _ => none

/-- **The exact accounts** of a usage object. -/
structure ExactUsage (usage : Members) (u : AiUsage) : Prop where
  input : u.inputTokens = countOf usage "input_tokens" "prompt_tokens"
  output : u.outputTokens = countOf usage "output_tokens" "completion_tokens"
  total : u.totalTokens.map UInt64.toNat =
    totalOf ((usage.lookup "total_tokens").bind Value.asU64)
      (countOf usage "input_tokens" "prompt_tokens")
      (countOf usage "output_tokens" "completion_tokens")

/-- A member of the first name that is no count, beside a count of the second. -/
def Shadowed (usage : Members) (a b : String) : Prop :=
  ∃ v n, usage.lookup a = some v ∧ v.asU64 = none ∧ (usage.lookup b).bind Value.asU64 = some n

/-- The sum of the counts fits, where it is to be the total. -/
def SumFits (total input output : Option UInt64) : Prop :=
  total = none → ∀ i o, input = some i → output = some o → i.toNat + o.toNat < 2 ^ 64

/-! ### The counts -/

/-- **A count is read** exactly when none is hidden. -/
theorem field_eq_countOf_iff {usage : Members} {a b : String} :
    ((usage.lookup a).or (usage.lookup b)).bind Value.asU64 = countOf usage a b ↔
      ¬ Shadowed usage a b := by
  rw [countOf, Shadowed]
  cases ha : usage.lookup a with
  | none => simp
  | some v =>
      rw [Option.some_or, Option.bind_some]
      cases hv : v.asU64 with
      | some n => simp [hv]
      | none =>
          cases (usage.lookup b).bind Value.asU64 with
          | none => simp
          | some n => simp [hv]

/-- What is read of a usage object. -/
def readUsage (usage : Members) : AiUsage where
  inputTokens :=
    ((usage.lookup "input_tokens").or (usage.lookup "prompt_tokens")).bind Value.asU64
  outputTokens :=
    ((usage.lookup "output_tokens").or (usage.lookup "completion_tokens")).bind Value.asU64
  totalTokens := (usage.lookup "total_tokens").bind Value.asU64

/-- A usage that is an object is read member by member. -/
theorem parseUsage_eq {body : Value} {usage : Members}
    (h : body.get "usage" = some (.object usage)) : parseUsage body = some (readUsage usage) := by
  rw [parseUsage, h]
  rfl

/-- The input count is the reported one unless its first name shadows it. -/
theorem readUsage_inputTokens_iff {usage : Members} :
    (readUsage usage).inputTokens = countOf usage "input_tokens" "prompt_tokens" ↔
      ¬ Shadowed usage "input_tokens" "prompt_tokens" :=
  field_eq_countOf_iff

/-- The output count is the reported one unless its first name shadows it. -/
theorem readUsage_outputTokens_iff {usage : Members} :
    (readUsage usage).outputTokens = countOf usage "output_tokens" "completion_tokens" ↔
      ¬ Shadowed usage "output_tokens" "completion_tokens" :=
  field_eq_countOf_iff

/-! ### The total -/

/-- **The sum of two counts** is the exact one exactly when it fits. -/
theorem toNat_add_eq_iff (i o : UInt64) :
    (i + o).toNat = i.toNat + o.toNat ↔ i.toNat + o.toNat < 2 ^ 64 := by
  rw [UInt64.toNat_add]
  omega

/-- A total that is filled in changes no count. -/
theorem withTotal_counts {overflowChecks : Bool} {u u' : AiUsage}
    (h : withTotal overflowChecks u = some u') :
    u'.inputTokens = u.inputTokens ∧ u'.outputTokens = u.outputTokens := by
  rw [withTotal] at h
  split at h
  · split at h
    · cases h
    · rw [← Option.some.inj h]
      exact ⟨rfl, rfl⟩
  · rw [← Option.some.inj h]
    exact ⟨rfl, rfl⟩

/-- **The total that is filled in is exact** exactly when the sum fits; without overflow checks
it wraps otherwise, and with them the call panics. -/
theorem withTotal_exact_iff {overflowChecks : Bool} {u : AiUsage} :
    (∃ u', withTotal overflowChecks u = some u' ∧ u'.totalTokens.map UInt64.toNat =
        totalOf u.totalTokens u.inputTokens u.outputTokens) ↔
      SumFits u.totalTokens u.inputTokens u.outputTokens := by
  obtain ⟨input, output, total⟩ := u
  cases total with
  | some total => simp [withTotal, totalOf, SumFits]
  | none =>
      cases input with
      | none => simp [withTotal, totalOf, SumFits]
      | some input =>
          cases output with
          | none => simp [withTotal, totalOf, SumFits]
          | some output =>
              have hfits : SumFits none (some input) (some output) ↔
                  input.toNat + output.toNat < 2 ^ 64 := by
                simp [SumFits]
              rw [hfits, ← toNat_add_eq_iff]
              simp only [withTotal, totalOf]
              split
              · -- the call panics, and the sum does not fit
                next hpanic =>
                  have hno := (toNat_add_eq_iff input output).not.mpr (Nat.not_lt.mpr hpanic.2)
                  simpa using hno
              · simp

/-! ### The accounts -/

/-- The usage object of the sample reply. -/
def sampleUsage : Members :=
  [("input_tokens", .number (.posInt 3)), ("output_tokens", .number (.posInt 4))]

/-- **The accounts of a call are exact** exactly when no count is hidden by a member that is no
count, and no total that has to be filled in is over 64 bits. -/
theorem accounting_exact_iff (C : Codec) (overflowChecks : Bool) (http : Network)
    (cfg : AiConfig) (req : AiRequest) (body : Value) (usage : Members)
    (outputs : List AiOutput) (hbody : Received http cfg req body)
    (husage : body.get "usage" = some (.object usage))
    (hparse : parseReply cfg.apiProtocol C body = .ok outputs) :
    (∃ u, respondWithUsage C overflowChecks http cfg req =
        .returned (.ok (outputs, some u)) ∧ ExactUsage usage u) ↔
      ¬ Shadowed usage "input_tokens" "prompt_tokens" ∧
        ¬ Shadowed usage "output_tokens" "completion_tokens" ∧
        SumFits ((usage.lookup "total_tokens").bind Value.asU64)
          (countOf usage "input_tokens" "prompt_tokens")
          (countOf usage "output_tokens" "completion_tokens") := by
  have hcall : ∀ u, respondWithUsage C overflowChecks http cfg req =
      .returned (.ok (outputs, some u)) ↔ withTotal overflowChecks (readUsage usage) = some u := by
    intro u
    rw [respondWithUsage, exchange_eq_ok.mpr hbody]
    simp only [hparse, parseUsage_eq husage]
    cases withTotal overflowChecks (readUsage usage) <;> simp
  simp only [hcall, ← readUsage_inputTokens_iff, ← readUsage_outputTokens_iff]
  constructor
  · rintro ⟨u, hu, hexact⟩
    obtain ⟨hin, hout⟩ := withTotal_counts hu
    have hinput := hin.symm.trans hexact.input
    have houtput := hout.symm.trans hexact.output
    refine ⟨hinput, houtput, ?_⟩
    rw [← hinput, ← houtput]
    refine withTotal_exact_iff.mp ⟨u, hu, ?_⟩
    rw [hexact.total, hinput, houtput]
    rfl
  · rintro ⟨hinput, houtput, hfits⟩
    rw [← hinput, ← houtput] at hfits
    obtain ⟨u, hu, htotal⟩ := (withTotal_exact_iff (u := readUsage usage)).mpr hfits
    obtain ⟨hin, hout⟩ := withTotal_counts hu
    refine ⟨u, hu, hin.trans hinput, hout.trans houtput, ?_⟩
    rw [htotal, hinput, houtput]
    rfl

/-- The reply of a provider that counts three tokens in and four out. -/
theorem accounting_exact_iff_sampleReply :
    (∃ u, respondWithUsage argumentsCodec true (sampleNetwork .anthropicMessages)
          (sampleConfig .anthropicMessages) samplePrompt =
        .returned (.ok ([.text "hi", .toolCall ⟨"report", sampleText⟩], some u)) ∧
      ExactUsage sampleUsage u) ↔
      ¬ Shadowed sampleUsage "input_tokens" "prompt_tokens" ∧
        ¬ Shadowed sampleUsage "output_tokens" "completion_tokens" ∧
        SumFits ((sampleUsage.lookup "total_tokens").bind Value.asU64)
          (countOf sampleUsage "input_tokens" "prompt_tokens")
          (countOf sampleUsage "output_tokens" "completion_tokens") :=
  accounting_exact_iff argumentsCodec true (sampleNetwork .anthropicMessages)
    (sampleConfig .anthropicMessages) samplePrompt (sampleBody .anthropicMessages) sampleUsage _
    (received_sampleBody .anthropicMessages) rfl rfl

/-- A Chat Completions body that counts its prompt under the second name, and has a null under
the first. -/
def nullCountBody : Value :=
  .object [
    ("choices", .array [.object [("message", .object [("content", .string "hi")])]]),
    ("usage", .object [("completion_tokens", .number (.posInt 4)), ("input_tokens", .null),
      ("prompt_tokens", .number (.posInt 3))])]

/-- **The accounts are not always exact**: the null hides the count. -/
theorem not_accounting_exact :
    ¬ ∀ (C : Codec) (overflowChecks : Bool) (http : Network) (cfg : AiConfig) (req : AiRequest)
      (body : Value) (usage : Members) (outputs : List AiOutput),
      Received http cfg req body → body.get "usage" = some (.object usage) →
      parseReply cfg.apiProtocol C body = .ok outputs →
      ∃ u, respondWithUsage C overflowChecks http cfg req =
        .returned (.ok (outputs, some u)) ∧ ExactUsage usage u := by
  intro h
  have hreceived : Received (fun _ => .response 200 none (.ok nullCountBody))
      (sampleConfig .chatCompletions) samplePrompt nullCountBody :=
    ⟨_, _, 200, none, rfl, rfl, by decide, by decide⟩
  obtain ⟨u, hcall, hexact⟩ := h argumentsCodec true _ _ _ _ _ _ hreceived rfl rfl
  have hread : (⟨none, some 4, none⟩ : AiUsage) = u := by
    have hu : Outcome.returned (.ok ([.text "hi"], some ⟨none, some 4, none⟩)) =
        .returned (.ok ([.text "hi"], some u)) := hcall
    cases hu
    rfl
  have hcount : (none : Option UInt64) = some 3 := by
    rw [← hread] at hexact
    exact hexact.input
  cases hcount

end LayerKit
