import LayerKit.Json
import Mathlib.Logic.Relation

/-!
# JSON Schemas

A schema is itself a JSON value: a boolean, or an object whose members are its keywords.
This module has the two readings of a schema that a program working on schemas needs.

**Positions.** The objects that stand at a schema position of a value: the value itself,
the entries of `properties`, `$defs` and `definitions`, the schema under `items`, and the
elements of `anyOf`, `oneOf` and `allOf`, and so on downwards. A member of any other name,
such as the data under `const` or `default`, is no position.

**Validity.** The values that a schema accepts, for the keywords `type`, `properties`,
`required`, `additionalProperties`, `items`, `anyOf` and `allOf`, with their standard
meaning: each keyword speaks of the values of one type only and lets any other value pass.
A `PlainSchema` has no other keyword.

## Main results

* `valid_object`: a value is valid against an object exactly when each keyword accepts it.
-/

open Json

namespace JsonSchema

/-! ### Positions -/

/-- The keywords that hold a map to schemas. -/
def mapKeywords : List String :=
  ["properties", "$defs", "definitions"]

/-- The keywords that hold a list of schemas. -/
def listKeywords : List String :=
  ["anyOf", "oneOf", "allOf"]

/-- An object one schema position below an object. -/
inductive Below (ms : Members) : Members → Prop
  | entry {k : String} {ps : Members} {name : String} {ns : Members} (hk : k ∈ mapKeywords)
      (hps : ms.lookup k = some (.object ps)) (hns : (name, .object ns) ∈ ps) : Below ms ns
  | items {ns : Members} (hns : ms.lookup "items" = some (.object ns)) : Below ms ns
  | element {k : String} {vs : List Value} {ns : Members} (hk : k ∈ listKeywords)
      (hvs : ms.lookup k = some (.array vs)) (hns : .object ns ∈ vs) : Below ms ns

/-- An object at a schema position of a value. -/
def AtPosition (root : Value) (ns : Members) : Prop :=
  ∃ ms, root = .object ms ∧ Relation.ReflTransGen Below ms ns

/-- The entries are schemas: objects or booleans. -/
def MapToSchemas (ps : Members) : Prop :=
  ∀ m ∈ ps, (∃ ns, m.2 = .object ns) ∨ ∃ b, m.2 = .bool b

/-- At every position, the maps to schemas are such. -/
def EntriesAreSchemas (root : Value) : Prop :=
  ∀ ms, AtPosition root ms → ∀ k ∈ mapKeywords, ∀ ps, ms.lookup k = some (.object ps) →
    MapToSchemas ps

/-! ### Object schemas -/

/-- The type is `object`, or a list with it. -/
def ObjectSchema (ms : Members) : Prop :=
  ms.lookup "type" = some (.string "object") ∨
    ∃ ts, ms.lookup "type" = some (.array ts) ∧ .string "object" ∈ ts

/-- The names that `properties` declares. -/
def declared (ms : Members) : List String :=
  match ms.lookup "properties" with
  | some (.object ps) => keys ps
  | _ => []

/-- Undeclared members are rejected, and exactly the declared ones are required. -/
structure Closed (ms : Members) : Prop where
  additional : ms.lookup "additionalProperties" = some (.bool false)
  required : ∃ names : List String, ms.lookup "required" = some (.array (names.map .string)) ∧
    ∀ name, name ∈ names ↔ name ∈ declared ms

/-- The declared members are the names of `properties`. -/
theorem declared_of_lookup {ms ps : Members} (h : ms.lookup "properties" = some (.object ps)) :
    declared ms = keys ps := by
  rw [declared, h]

/-- Without a map of `properties` no member is declared. -/
theorem declared_eq_nil {ms : Members} (h : ∀ ps, ms.lookup "properties" ≠ some (.object ps)) :
    declared ms = [] := by
  rw [declared]
  split
  · next ps hps => exact absurd hps (h ps)
  · rfl

/-! ### Validity -/

/-- A number without a fractional part. -/
def IsInteger : Number → Prop
  | .float q => q.den = 1
  | _ => True

/-- The types of a value. -/
def HasType (t : String) : Value → Prop
  | .null => t = "null"
  | .bool _ => t = "boolean"
  | .number n => t = "number" ∨ (t = "integer" ∧ IsInteger n)
  | .string _ => t = "string"
  | .array _ => t = "array"
  | .object _ => t = "object"

/-- What the keyword `type` accepts. -/
def TypeAccepts : Value → Value → Prop
  | .string t, v => HasType t v
  | .array ts, v => ∃ t, .string t ∈ ts ∧ HasType t v
  | _, _ => True

/-- What the keyword `required` accepts. -/
def RequiredAccepts : Value → Value → Prop
  | .array names, .object vm => ∀ name, .string name ∈ names → name ∈ keys vm
  | _, _ => True

/-- A list of names asks for each of them. -/
theorem requiredAccepts_names {names : List String} {v : Value} :
    RequiredAccepts (.array (names.map .string)) v ↔
      ∀ vm, v = .object vm → ∀ name ∈ names, name ∈ keys vm := by
  cases v <;> simp [RequiredAccepts]

/-- A value is **valid** against a schema. -/
def Valid : Value → Value → Prop
  | .bool b, _ => b = true
  | .object ms, v =>
      (∀ t, ms.lookup "type" = some t → TypeAccepts t v) ∧
      (∀ names, ms.lookup "required" = some names → RequiredAccepts names v) ∧
      (∀ ps, (h : ms.lookup "properties" = some (.object ps)) → ∀ m, (hm : m ∈ ps) →
        ∀ x, v.get m.1 = some x → Valid m.2 x) ∧
      (∀ s, (h : ms.lookup "additionalProperties" = some s) → ∀ vm, v = .object vm →
        ∀ m ∈ vm, m.1 ∉ declared ms → Valid s m.2) ∧
      (∀ s, (h : ms.lookup "items" = some s) → ∀ vs, v = .array vs → ∀ x ∈ vs, Valid s x) ∧
      (∀ ss, (h : ms.lookup "anyOf" = some (.array ss)) → ∃ s, ∃ (_ : s ∈ ss), Valid s v) ∧
      (∀ ss, (h : ms.lookup "allOf" = some (.array ss)) → ∀ s, (hs : s ∈ ss) → Valid s v)
  | _, _ => False
termination_by s => s.depth
decreasing_by
  · exact (Value.depth_lt_of_mem_members hm).trans (Value.depth_lt_of_lookup h)
  · exact Value.depth_lt_of_lookup h
  · exact Value.depth_lt_of_lookup h
  · exact (Value.depth_lt_of_mem ‹_›).trans (Value.depth_lt_of_lookup h)
  · exact (Value.depth_lt_of_mem hs).trans (Value.depth_lt_of_lookup h)

/-- What the keywords of an object accept, given what its subschemas do. -/
structure Accepts (valid : Value → Value → Prop) (ms : Members) (v : Value) : Prop where
  type : ∀ t, ms.lookup "type" = some t → TypeAccepts t v
  required : ∀ names, ms.lookup "required" = some names → RequiredAccepts names v
  properties : ∀ ps, ms.lookup "properties" = some (.object ps) → ∀ m ∈ ps,
    ∀ x, v.get m.1 = some x → valid m.2 x
  additional : ∀ s, ms.lookup "additionalProperties" = some s → ∀ vm, v = .object vm →
    ∀ m ∈ vm, m.1 ∉ declared ms → valid s m.2
  items : ∀ s, ms.lookup "items" = some s → ∀ vs, v = .array vs → ∀ x ∈ vs, valid s x
  anyOf : ∀ ss, ms.lookup "anyOf" = some (.array ss) → ∃ s ∈ ss, valid s v
  allOf : ∀ ss, ms.lookup "allOf" = some (.array ss) → ∀ s ∈ ss, valid s v

/-- `true` accepts everything, `false` nothing. -/
@[simp] theorem valid_bool (b : Bool) (v : Value) : Valid (.bool b) v ↔ b = true := by
  rw [Valid]

/-- **Validity against an object**, keyword by keyword. -/
theorem valid_object {ms : Members} {v : Value} :
    Valid (.object ms) v ↔ Accepts Valid ms v := by
  rw [Valid]
  constructor
  · rintro ⟨htype, hrequired, hproperties, hadditional, hitems, hanyOf, hallOf⟩
    refine ⟨htype, hrequired, hproperties, hadditional, hitems, fun ss hss => ?_, hallOf⟩
    obtain ⟨s, hs, hv⟩ := hanyOf ss hss
    exact ⟨s, hs, hv⟩
  · rintro ⟨htype, hrequired, hproperties, hadditional, hitems, hanyOf, hallOf⟩
    refine ⟨htype, hrequired, hproperties, hadditional, hitems, fun ss hss => ?_, hallOf⟩
    obtain ⟨s, hs, hv⟩ := hanyOf ss hss
    exact ⟨s, hs, hv⟩

/-! ### Plain schemas -/

/-- The keywords of a plain schema. -/
def plainKeywords : List String :=
  ["type", "properties", "required", "additionalProperties", "items", "anyOf", "allOf"]

/-- A schema built, to any depth, from the plain keywords, in which every required name is
declared beside it. -/
inductive PlainSchema : Value → Prop
  | bool (b : Bool) : PlainSchema (.bool b)
  | object {ms : Members}
      (keywords : ∀ k ∈ keys ms, k ∈ plainKeywords)
      (type : ∀ t, ms.lookup "type" = some t →
        (∃ name, t = .string name) ∨ ∃ names : List String, t = .array (names.map .string))
      (properties : ∀ v, ms.lookup "properties" = some v → ∃ ps, v = .object ps)
      (entries : ∀ ps, ms.lookup "properties" = some (.object ps) → ∀ m ∈ ps, PlainSchema m.2)
      (required : ∀ v, ms.lookup "required" = some v →
        ∃ names : List String, v = .array (names.map .string) ∧ ∀ name ∈ names, name ∈ declared ms)
      (additional : ∀ s, ms.lookup "additionalProperties" = some s → PlainSchema s)
      (items : ∀ s, ms.lookup "items" = some s → PlainSchema s)
      (anyOf : ∀ v, ms.lookup "anyOf" = some v → ∃ ss, v = .array ss)
      (anyOfElements : ∀ ss, ms.lookup "anyOf" = some (.array ss) → ∀ s ∈ ss, PlainSchema s)
      (allOf : ∀ v, ms.lookup "allOf" = some v → ∃ ss, v = .array ss)
      (allOfElements : ∀ ss, ms.lookup "allOf" = some (.array ss) → ∀ s ∈ ss, PlainSchema s) :
      PlainSchema (.object ms)

/-- A plain schema is an object or a boolean. -/
theorem PlainSchema.object_or_bool {s : Value} (h : PlainSchema s) :
    (∃ ms, s = .object ms) ∨ ∃ b, s = .bool b := by
  cases h with
  | bool b => exact .inr ⟨b, rfl⟩
  | object => exact .inl ⟨_, rfl⟩

end JsonSchema
