import LayerKit.Dialects
import LayerKit.Respond
import LayerKit.Text
import LayerKit.Tools
import Mathlib.Data.List.Nodup

/-!
# Failures as They Are Reported

`AiError` of `ai.rs` and the enums that `layer_error!` of `error.rs` makes. A failed call has
a class and a message. On its way up **contexts** are put before the message; in the end the
failure is turned to text, and the text becomes the message of a layer's own error, whose
text names a variant of the layer's enum.

The class comes through all of this. The text alone tells it only as long as no context was
put before the message: a failure of no class may look like one of some class, and this is
the only way for two failures to look alike.

## Main results

* `display_eq_iff`: which failures look alike.
* `ErrorEnum.read_eq_some_iff`: the errors of an enum are read back from their texts.
* `failure_reports`: what the report of a failed call tells.
-/

open Text Loop

namespace LayerKit

/-! ### Contexts and texts -/

/-- What the text of a failure of a class begins with. -/
def AiErrorKind.label : AiErrorKind → String
  | .other => ""
  | .outputBudget => "output_budget: "
  | .schema => "schema: "

/-- The text of a failure, as its `Display`. -/
def AiError.display (e : AiError) : String :=
  match e.kind with
  | .other => e.msg
  | .outputBudget => "output_budget: " ++ e.msg
  | .schema => "schema: " ++ e.msg

/-- Put a context before the message. -/
def AiError.context (e : AiError) (ctx : String) : AiError where
  kind := e.kind
  msg := ctx ++ ": " ++ e.msg

/-- Put contexts before the message, one after the other. -/
def AiError.inContexts (e : AiError) (ctxs : List String) : AiError :=
  ctxs.foldl AiError.context e

/-- The text of contexts, the last one first. -/
def contextText : List String → String
  | [] => ""
  | ctx :: ctxs => contextText ctxs ++ (ctx ++ ": ")

variable {e e' : AiError}

/-- The text of an error is the label of its class and its message. -/
theorem display_eq (e : AiError) : e.display = e.kind.label ++ e.msg := by
  rw [AiError.display]
  cases e.kind with
  | other => exact (String.empty_append).symm
  | outputBudget => rfl
  | schema => rfl

/-- Contexts keep the class. -/
@[simp] theorem AiError.kind_inContexts (e : AiError) (ctxs : List String) :
    (e.inContexts ctxs).kind = e.kind := by
  induction ctxs generalizing e with
  | nil => rfl
  | cons ctx ctxs ih => exact ih (e.context ctx)

/-- Contexts stand before the message. -/
theorem AiError.msg_inContexts (e : AiError) (ctxs : List String) :
    (e.inContexts ctxs).msg = contextText ctxs ++ e.msg := by
  induction ctxs generalizing e with
  | nil => exact String.empty_append.symm
  | cons ctx ctxs ih =>
      rw [contextText, String.append_assoc]
      exact ih (e.context ctx)

/-- A failure of no class **mimics** a failure of some class: its message is the text of
that. -/
def AiError.Mimics (e e' : AiError) : Prop :=
  e.kind = .other ∧ e'.kind ≠ .other ∧ e.msg = e'.display

/-- The labels of two classes differ at their first letters. -/
theorem label_append_ne (msg msg' : String) :
    AiErrorKind.outputBudget.label ++ msg ≠ AiErrorKind.schema.label ++ msg' := by
  intro h
  have hlist := congrArg String.toList h
  rw [String.toList_append, String.toList_append] at hlist
  exact absurd (List.cons.inj hlist).1 (by decide)

/-- An error of the class without a label shows its message. -/
theorem display_of_other (h : e.kind = .other) : e.display = e.msg := by
  rw [display_eq, h]
  exact String.empty_append

/-- Errors of one class are told apart by their texts. -/
theorem eq_of_display_eq (hkind : e.kind = e'.kind) (h : e.display = e'.display) : e = e' := by
  obtain ⟨kind, msg⟩ := e
  obtain ⟨kind', msg'⟩ := e'
  obtain rfl : kind = kind' := hkind
  rw [display_eq, display_eq, String.append_right_inj] at h
  exact congrArg (AiError.mk kind) h

/-- Failures of two classes do not look alike. -/
theorem display_ne (hother : e.kind ≠ .other) (hother' : e'.kind ≠ .other)
    (hkind : e.kind ≠ e'.kind) : e.display ≠ e'.display := by
  rw [display_eq, display_eq]
  cases he : e.kind with
  | other => exact absurd he hother
  | outputBudget =>
      cases he' : e'.kind with
      | other => exact absurd he' hother'
      | outputBudget => exact absurd (he.trans he'.symm) hkind
      | schema => exact label_append_ne _ _
  | schema =>
      cases he' : e'.kind with
      | other => exact absurd he' hother'
      | outputBudget => exact (label_append_ne _ _).symm
      | schema => exact absurd (he.trans he'.symm) hkind

/-- **Which failures look alike**: those that are the same, and one that mimics the other. -/
theorem display_eq_iff : e.display = e'.display ↔ e = e' ∨ e.Mimics e' ∨ e'.Mimics e := by
  constructor
  · intro h
    by_cases hkind : e.kind = e'.kind
    · exact .inl (eq_of_display_eq hkind h)
    · by_cases hother : e.kind = .other
      · exact .inr (.inl ⟨hother, fun hother' => hkind (hother.trans hother'.symm),
          (display_of_other hother).symm.trans h⟩)
      · by_cases hother' : e'.kind = .other
        · exact .inr (.inr ⟨hother', hother, (display_of_other hother').symm.trans h.symm⟩)
        · exact absurd h (display_ne hother hother' hkind)
  · rintro (rfl | ⟨hother, -, hmsg⟩ | ⟨hother, -, hmsg⟩)
    · rfl
    · rw [display_of_other hother, hmsg]
    · rw [display_of_other hother, hmsg]

/-! ### The enums of the layers -/

/-- A variant that `layer_error!` is given: its name and that of its constructor. -/
structure Variant where
  name : String
  ctor : String

/-- **The enum that `layer_error!` makes.** Two variants with one constructor would define
one function twice, and the name of a function has no colon. -/
structure ErrorEnum where
  variants : List Variant
  nodup : (variants.map Variant.ctor).Nodup
  colonFree : ∀ v ∈ variants, ':' ∉ v.ctor.toList

/-- A layer's error: a variant with its message, as its constructor makes it. -/
structure LayerError (E : ErrorEnum) where
  variant : {v // v ∈ E.variants}
  msg : String

variable {E : ErrorEnum}

/-- The text of a layer's error, as its `Display`. -/
def LayerError.display (x : LayerError E) : String :=
  x.variant.1.ctor ++ ": " ++ x.msg

/-- The variant with a constructor. -/
def ErrorEnum.variantOf (E : ErrorEnum) (ctor : String) : Option {v // v ∈ E.variants} :=
  E.variants.attach.find? fun v => v.1.ctor == ctor

/-- Read an error back from its text. -/
def ErrorEnum.read (E : ErrorEnum) (text : String) : Option (LayerError E) := do
  let (ctor, rest) ← splitOnce text ':'
  let msg ← stripPrefix rest " "
  let variant ← E.variantOf ctor
  pure ⟨variant, msg⟩

/-- The variant of a name has that name. -/
theorem ErrorEnum.ctor_of_variantOf {ctor : String} {v : {v // v ∈ E.variants}}
    (h : E.variantOf ctor = some v) : v.1.ctor = ctor := by
  rw [variantOf] at h
  exact eq_of_beq
    (List.find?_some (p := fun v : {v // v ∈ E.variants} => v.1.ctor == ctor) h)

/-- A constructor belongs to one variant. -/
theorem ErrorEnum.variantOf_ctor (v : {v // v ∈ E.variants}) : E.variantOf v.1.ctor = some v := by
  cases hfind : E.variantOf v.1.ctor with
  | none =>
      have hno := List.find?_eq_none.mp hfind v (List.mem_attach _ v)
      exact absurd (beq_self_eq_true _) hno
  | some v' =>
      have hctor := ctor_of_variantOf hfind
      exact congrArg some (Subtype.ext (List.inj_on_of_nodup_map E.nodup v'.2 v.2 hctor))

/-- The text of an error, cut where it is read. -/
theorem LayerError.display_toList (x : LayerError E) :
    x.display.toList = x.variant.1.ctor.toList ++ ':' :: (" " ++ x.msg).toList := by
  have hcolon : (": " : String) = ":" ++ " " := rfl
  rw [display, hcolon, ← String.append_assoc, String.append_assoc, String.toList_append,
    String.toList_append]
  exact List.append_assoc _ [':'] _

/-- **An error is read back from its text**, and from no other text. -/
theorem ErrorEnum.read_eq_some_iff {text : String} {x : LayerError E} :
    E.read text = some x ↔ text = x.display := by
  constructor
  · intro h
    simp only [ErrorEnum.read, Option.bind_eq_bind, Option.bind_eq_some_iff] at h
    obtain ⟨⟨ctor, rest⟩, hcut, msg, hmsg, v, hv, hx⟩ := h
    obtain rfl := Option.some.inj hx
    obtain rfl := ctor_of_variantOf hv
    obtain rfl : rest = " " ++ msg := stripPrefix_eq_some.mp hmsg
    rw [← String.toList_inj, LayerError.display_toList]
    exact (splitOnce_eq_some.mp hcut).1
  · rintro rfl
    have hcut : splitOnce x.display ':' = some (x.variant.1.ctor, " " ++ x.msg) :=
      splitOnce_eq_some.mpr ⟨x.display_toList, E.colonFree _ x.variant.2⟩
    have hmsg : stripPrefix (" " ++ x.msg) " " = some x.msg := stripPrefix_eq_some.mpr rfl
    simp only [ErrorEnum.read, Option.bind_eq_bind, hcut, hmsg, Option.bind_some, variantOf_ctor]
    rfl

/-! ### The texts of a failed call -/

/-- A missing value fails with the error that stands for it. -/
theorem okOr_eq_error {α : Type} {o : Option α} {e' : AiError} (h : okOr o e' = .error e) :
    e = e' := by
  cases o with
  | none => exact (Except.error.inj h).symm
  | some a => cases h

/-- The refusals of a request that cannot be built. -/
def refusals : List AiError :=
  [unsupported, .new "anthropic_messages input has no user message", requiresName]

/-- An item that is refused is refused as unsupported. -/
theorem anthropicMessage_eq_error {split : List String × List Json.Value} {item : Json.Value}
    (h : anthropicMessage split item = .error e) : e = unsupported := by
  rw [anthropicMessage] at h
  rcases bind_eq_error.mp h with hrole | ⟨role, -, h⟩
  · exact okOr_eq_error hrole
  · rcases bind_eq_error.mp h with hcontent | ⟨content, -, h⟩
    · exact okOr_eq_error hcontent
    · split at h
      · rcases bind_eq_error.mp h with htext | ⟨text, -, h⟩
        · exact okOr_eq_error htext
        · cases h
      · cases h

/-- An input that is refused is refused with one of the texts for that. -/
theorem anthropicMessages_eq_error {input : Json.Value}
    (h : anthropicMessages input = .error e) : e ∈ refusals := by
  unfold anthropicMessages at h
  split at h
  · cases h
  · rcases bind_eq_error.mp h with hfold | ⟨split, -, h⟩
    · obtain ⟨_, _, -, hitem⟩ := foldlM_eq_error hfold
      rw [anthropicMessage_eq_error hitem]
      exact List.mem_cons_self
    · split at h
      · obtain rfl := Except.error.inj h
        exact .tail _ (.head _)
      · cases h
  · obtain rfl := Except.error.inj h
    exact List.mem_cons_self

/-- **A request that cannot be built** is refused in one of three ways. -/
theorem endpointAndBody_eq_error {cfg : AiConfig} {req : AiRequest}
    (h : endpointAndBody cfg req = .error e) : e ∈ refusals := by
  rw [endpointAndBody] at h
  split at h
  · cases h
  · cases h
  · rcases bind_eq_error.mp h with hbuild | ⟨body, -, h⟩
    · rw [buildAnthropicRequestBody] at hbuild
      rcases bind_eq_error.mp hbuild with hmessages | ⟨split, -, htools⟩
      · exact anthropicMessages_eq_error hmessages
      · dsimp only at htools
        split at htools
        · cases htools
        · rcases bind_eq_error.mp htools with htool | ⟨tools, -, htools⟩
          · obtain ⟨tool, -, hfail⟩ := mapM_eq_error htool
            rw [anthropicTool] at hfail
            rcases bind_eq_error.mp hfail with hname | ⟨name, -, hfail⟩
            · rw [okOr_eq_error hname]
              exact .tail _ (.tail _ (.head _))
            · cases hfail
          · cases htools
    · cases h

/-- The texts that begin with the letter `a`. -/
def BeginsWithA (s : String) : Prop :=
  ∃ rest, s = "a" ++ rest

/-- More text behind changes nothing in it. -/
theorem BeginsWithA.append {s : String} (h : BeginsWithA s) (text : String) :
    BeginsWithA (s ++ text) := by
  obtain ⟨rest, rfl⟩ := h
  exact ⟨rest ++ text, String.append_assoc⟩

/-- The refusals of the Anthropic builder begin with that letter. -/
theorem beginsWithA_of_mem_refusals (h : e ∈ refusals) : BeginsWithA e.msg := by
  rw [refusals, List.mem_cons, List.mem_cons, List.mem_singleton] at h
  rcases h with rfl | rfl | rfl
  · refine ⟨?_, ?_⟩
    · exact "nthropic_messages supports a string input or an array of \x7brole, content\x7d messages"
    · rfl
  · exact ⟨"nthropic_messages input has no user message", rfl⟩
  · exact ⟨"nthropic_messages function tool requires name", rfl⟩

/-- A failure before a body came begins with the letter `a`. -/
theorem beginsWithA_of_exchange {http : Network} {cfg : AiConfig} {req : AiRequest}
    (h : exchange http cfg req = .error e) : BeginsWithA e.msg := by
  have hsend : BeginsWithA "ai request failed: " := ⟨"i request failed: ", rfl⟩
  have hstatus : BeginsWithA "ai api status " := ⟨"i api status ", rfl⟩
  have hdecode : BeginsWithA "ai response decode failed: " := ⟨"i response decode failed: ", rfl⟩
  rw [exchange] at h
  rcases bind_eq_error.mp h with hbuild | ⟨⟨url, body⟩, -, h⟩
  · exact beginsWithA_of_mem_refusals (endpointAndBody_eq_error hbuild)
  · dsimp only at h
    split at h
    · obtain rfl := Except.error.inj h
      exact hsend.append _
    · split at h
      · obtain rfl := Except.error.inj h
        exact ((hstatus.append _).append _).append _
      · split at h
        · obtain rfl := Except.error.inj h
          exact hdecode.append _
        · cases h

/-- No text that begins so begins with a label. -/
theorem BeginsWithA.not_label {s : String} (h : BeginsWithA s) {kind : AiErrorKind}
    (hkind : kind ≠ .other) : stripPrefix s kind.label = none := by
  obtain ⟨rest, rfl⟩ := h
  refine Option.eq_none_iff_forall_ne_some.mpr fun r hr => ?_
  have hlist := congrArg String.toList (stripPrefix_eq_some.mp hr)
  rw [String.toList_append, String.toList_append] at hlist
  cases kind with
  | other => exact hkind rfl
  | outputBudget => exact absurd (List.cons.inj hlist).1 (by decide)
  | schema => exact absurd (List.cons.inj hlist).1 (by decide)

/-- The class that a text names, read off its label. -/
def kindOfText (text : String) : AiErrorKind :=
  if (stripPrefix text AiErrorKind.schema.label).isSome then .schema
  else if (stripPrefix text AiErrorKind.outputBudget.label).isSome then .outputBudget
  else .other

/-- **The class is read off the text** of an error with a label. -/
theorem kindOfText_display_of_ne (h : e.kind ≠ .other) : kindOfText e.display = e.kind := by
  rw [kindOfText, display_eq]
  cases hkind : e.kind with
  | other => exact absurd hkind h
  | schema =>
      rw [stripPrefix_eq_some.mpr rfl]
      rfl
  | outputBudget =>
      have hno : stripPrefix (AiErrorKind.outputBudget.label ++ e.msg)
          AiErrorKind.schema.label = none :=
        Option.eq_none_iff_forall_ne_some.mpr fun r hr =>
          label_append_ne _ _ (stripPrefix_eq_some.mp hr)
      rw [hno, stripPrefix_eq_some.mpr rfl]
      rfl

/-! ### Reports -/

section Reports

variable {C : Json.Codec} {overflowChecks : Bool} {http : Network} {cfg : AiConfig}
  {req : AiRequest}

/-- A call fails with the class of its error. -/
theorem failsWith_iff (h : respondWithUsage C overflowChecks http cfg req = .returned (.error e))
    (kind : AiErrorKind) :
    FailsWith kind (respondWithUsage C overflowChecks http cfg req) ↔ e.kind = kind := by
  constructor
  · rintro ⟨e', he', hkind⟩
    obtain rfl := Except.error.inj (Outcome.returned.inj (h.symm.trans he'))
    exact hkind
  · exact fun hkind => ⟨e, h, hkind⟩

/-- The class of a failed call, over the body that came. -/
theorem kind_of_received (h : respondWithUsage C overflowChecks http cfg req = .returned (.error e))
    {body : Json.Value} (hbody : Received http cfg req body) :
    (e.kind = .outputBudget ↔ Truncated cfg.apiProtocol body) ∧
      (e.kind = .schema ↔ ¬ Truncated cfg.apiProtocol body) := by
  have hparse := (respond_of_received hbody e).mp h
  rw [← failsWith_iff h, ← failsWith_iff h, failsWith_of_received hbody,
    failsWith_of_received hbody]
  constructor
  · constructor
    · rintro ⟨-, ⟨htrunc, -⟩ | ⟨-, ⟨⟩⟩⟩
      exact htrunc
    · exact fun htrunc => ⟨⟨e, hparse⟩, .inl ⟨htrunc, rfl⟩⟩
  · constructor
    · rintro ⟨-, ⟨-, ⟨⟩⟩ | ⟨htrunc, -⟩⟩
      exact htrunc
    · exact fun htrunc => ⟨⟨e, hparse⟩, .inr ⟨htrunc, rfl⟩⟩

/-- Without a body there is no class. -/
theorem kind_of_notReceived
    (h : respondWithUsage C overflowChecks http cfg req = .returned (.error e))
    (hno : ∀ body, ¬ Received http cfg req body) : e.kind = .other :=
  (failsWith_iff h .other).mp
    ((failsWith_of_notReceived (notReceived_iff.mpr hno) .other).mpr rfl)

/-- The classes of a failed call are those of its exchange. -/
theorem kind_iff (h : respondWithUsage C overflowChecks http cfg req = .returned (.error e)) :
    (e.kind = .outputBudget ↔
        ∃ body, Received http cfg req body ∧ Truncated cfg.apiProtocol body) ∧
      (e.kind = .schema ↔
        ∃ body, Received http cfg req body ∧ ¬ Truncated cfg.apiProtocol body) := by
  by_cases hbody : ∃ body, Received http cfg req body
  · obtain ⟨body, hbody⟩ := hbody
    obtain ⟨hbudget, hschema⟩ := kind_of_received h hbody
    rw [hbudget, hschema]
    refine ⟨⟨fun htrunc => ⟨body, hbody, htrunc⟩, ?_⟩, ⟨fun htrunc => ⟨body, hbody, htrunc⟩, ?_⟩⟩
    · rintro ⟨body', hbody', htrunc⟩
      rwa [hbody.unique hbody']
    · rintro ⟨body', hbody', htrunc⟩
      rwa [hbody.unique hbody']
  · rw [not_exists] at hbody
    rw [kind_of_notReceived h hbody]
    exact ⟨iff_of_false (by decide) fun ⟨body, hreceived, _⟩ => hbody body hreceived,
      iff_of_false (by decide) fun ⟨body, hreceived, _⟩ => hbody body hreceived⟩

/-- The text of a failed call names its class. -/
theorem kindOfText_display
    (h : respondWithUsage C overflowChecks http cfg req = .returned (.error e)) :
    kindOfText e.display = e.kind := by
  by_cases hother : e.kind = .other
  · have hbegins : BeginsWithA e.msg := by
      cases hexchange : exchange http cfg req with
      | error e' =>
          rw [respondWithUsage, hexchange] at h
          obtain rfl := Except.error.inj (Outcome.returned.inj h)
          exact beginsWithA_of_exchange hexchange
      | ok body =>
          obtain ⟨hbudget, hschema⟩ := kind_of_received h (exchange_eq_ok.mp hexchange)
          rw [hother] at hbudget hschema
          have hno : ¬ Truncated cfg.apiProtocol body :=
            fun htrunc => absurd (hbudget.mpr htrunc) (by decide)
          exact absurd (hschema.mpr hno) (by decide)
    rw [display_of_other hother, kindOfText, hbegins.not_label (by decide),
      hbegins.not_label (by decide), hother]
    rfl
  · exact kindOfText_display_of_ne hother

end Reports

/-- **What the report of a failed call tells**, with contexts before its message and stored
under a variant of a layer's enum. -/
structure Reports (e : AiError) (ctxs : List String) (v : {v // v ∈ E.variants})
    (truncated refused : Prop) : Prop where
  budget : (e.inContexts ctxs).kind = .outputBudget ↔ truncated
  schema : (e.inContexts ctxs).kind = .schema ↔ refused
  text : kindOfText e.display = e.kind
  label : e.kind ≠ .other → kindOfText (e.inContexts ctxs).display = e.kind
  stored : E.read (LayerError.display ⟨v, (e.inContexts ctxs).display⟩) =
    some ⟨v, e.kind.label ++ contextText ctxs ++ e.msg⟩

/-- **The law of reports.** However many contexts are put before the message of a failed
call, its class stays that of the exchange: an exhausted budget exactly when a truncated body
came, a broken schema exactly when another body came. Its text names the class as long as no
context is before it, and with contexts if it has a class; and what any layer's enum stores
is read back, variant and text. -/
theorem failure_reports (C : Json.Codec) (overflowChecks : Bool) (http : Network)
    (cfg : AiConfig) (req : AiRequest) (e : AiError)
    (h : respondWithUsage C overflowChecks http cfg req = .returned (.error e))
    (ctxs : List String) (E : ErrorEnum) (v : {v // v ∈ E.variants}) :
    Reports e ctxs v
      (∃ body, Received http cfg req body ∧ Truncated cfg.apiProtocol body)
      (∃ body, Received http cfg req body ∧ ¬ Truncated cfg.apiProtocol body) := by
  obtain ⟨hbudget, hschema⟩ := kind_iff h
  refine ⟨?_, ?_, kindOfText_display h, fun hclass => ?_, ?_⟩
  · rw [AiError.kind_inContexts, hbudget]
  · rw [AiError.kind_inContexts, hschema]
  · rw [kindOfText_display_of_ne (by rwa [AiError.kind_inContexts]), AiError.kind_inContexts]
  · rw [ErrorEnum.read_eq_some_iff, display_eq, AiError.kind_inContexts, AiError.msg_inContexts,
      String.append_assoc]

/-- A network that is down. -/
def deadNetwork : Network :=
  fun _ => .sendFailed "connection refused"

/-- The enum of a layer that calls models. -/
def intakeError : ErrorEnum where
  variants := [⟨"Ai", "ai"⟩, ⟨"Validation", "validation"⟩]
  nodup := by decide
  colonFree := by decide

/-- The error of a network that is not there. -/
def connectionRefused : AiError :=
  .new "ai request failed: connection refused"

/-- A context that begins like a class does not make it one. -/
theorem failure_reports_deadNetwork :
    Reports connectionRefused ["schema"] (⟨⟨"Ai", "ai"⟩, .head _⟩ : {v // v ∈ intakeError.variants})
      (∃ body, Received deadNetwork (sampleConfig .responses) samplePrompt body ∧
        Truncated .responses body)
      (∃ body, Received deadNetwork (sampleConfig .responses) samplePrompt body ∧
        ¬ Truncated .responses body) :=
  failure_reports argumentsCodec true deadNetwork (sampleConfig .responses) samplePrompt
    connectionRefused rfl ["schema"] intakeError ⟨⟨"Ai", "ai"⟩, .head _⟩

end LayerKit
