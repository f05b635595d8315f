import LayerKit.Closing

/-!
# What a Closed Schema Accepts

Closing a schema narrows it; this module says to what. A value is valid **exactly** when it
is valid and, wherever an object of it is judged by a schema whose `type` is the string
`object`, it has the declared members and no others (`ValidExactly`). A schema whose `type` is
a list of names, a nullable object among others, is not closed and asks for no more than
validity. For every schema built from the plain keywords, the closed schema accepts the values
that the schema accepts exactly, and no others.

## Main results

* `validExactly_object`: exact validity against an object, keyword by keyword.
* `closing_exact`: the closed schema accepts what the schema accepts exactly.
-/

open Json JsonSchema

namespace LayerKit

/-- An object judged by a schema whose type is the string `object` has the declared members and
no others. -/
def HasExactly (ms : Members) (v : Value) : Prop :=
  ms.lookup "type" = some (.string "object") → ∀ vm, v = .object vm →
    ∀ name, name ∈ keys vm ↔ name ∈ declared ms

/-- A value is **valid exactly**: valid, with exactly the declared members wherever an object of
it is judged by a schema whose type is the string `object`. -/
def ValidExactly : Value → Value → Prop
  | .bool b, _ => b = true
  | .object ms, v =>
      HasExactly ms v ∧
      (∀ t, ms.lookup "type" = some t → TypeAccepts t v) ∧
      (∀ names, ms.lookup "required" = some names → RequiredAccepts names v) ∧
      (∀ ps, (h : ms.lookup "properties" = some (.object ps)) → ∀ m, (hm : m ∈ ps) →
        ∀ x, v.get m.1 = some x → ValidExactly m.2 x) ∧
      (∀ s, (h : ms.lookup "additionalProperties" = some s) → ∀ vm, v = .object vm →
        ∀ m ∈ vm, m.1 ∉ declared ms → ValidExactly s m.2) ∧
      (∀ s, (h : ms.lookup "items" = some s) → ∀ vs, v = .array vs → ∀ x ∈ vs, ValidExactly s x) ∧
      (∀ ss, (h : ms.lookup "anyOf" = some (.array ss)) → ∃ s, ∃ (_ : s ∈ ss), ValidExactly s v) ∧
      (∀ ss, (h : ms.lookup "allOf" = some (.array ss)) → ∀ s, (hs : s ∈ ss) → ValidExactly s v)
  | _, _ => False
termination_by s => s.depth
decreasing_by
  · exact (Value.depth_lt_of_mem_members hm).trans (Value.depth_lt_of_lookup h)
  · exact Value.depth_lt_of_lookup h
  · exact Value.depth_lt_of_lookup h
  · exact (Value.depth_lt_of_mem ‹_›).trans (Value.depth_lt_of_lookup h)
  · exact (Value.depth_lt_of_mem hs).trans (Value.depth_lt_of_lookup h)

/-- A boolean schema has no objects to judge. -/
@[simp] theorem validExactly_bool (b : Bool) (v : Value) :
    ValidExactly (.bool b) v ↔ b = true := by
  rw [ValidExactly]

/-- **Exact validity against an object**, keyword by keyword. -/
theorem validExactly_object {ms : Members} {v : Value} :
    ValidExactly (.object ms) v ↔ HasExactly ms v ∧ Accepts ValidExactly ms v := by
  rw [ValidExactly]
  constructor
  · rintro ⟨hexact, htype, hrequired, hproperties, hadditional, hitems, hanyOf, hallOf⟩
    refine ⟨hexact, htype, hrequired, hproperties, hadditional, hitems, fun ss hss => ?_, hallOf⟩
    obtain ⟨s, hs, hv⟩ := hanyOf ss hss
    exact ⟨s, hs, hv⟩
  · rintro ⟨hexact, htype, hrequired, hproperties, hadditional, hitems, hanyOf, hallOf⟩
    refine ⟨hexact, htype, hrequired, hproperties, hadditional, hitems, fun ss hss => ?_, hallOf⟩
    obtain ⟨s, hs, hv⟩ := hanyOf ss hss
    exact ⟨s, hs, hv⟩

/-- A keyword that closing leaves is judged visited: what is asked of its value in the
closed object is what is asked of it in the object. -/
theorem forall_lookup_strictMembers {ms : Members} {k : String} {p q : Value → Prop}
    (ha : "additionalProperties" ≠ k) (hr : "required" ≠ k)
    (h : ∀ w, ms.lookup k = some w → (p (visit makeSchemaStrict w) ↔ q w)) :
    (∀ w, (strictMembers ms).lookup k = some w → p w) ↔ ∀ w, ms.lookup k = some w → q w := by
  rw [lookup_strictMembers_of_ne ha hr]
  constructor
  · intro hp w hw
    exact (h w hw).mp (hp _ (by rw [hw, Option.map_some]))
  · intro hq w hw
    obtain ⟨w', hw', rfl⟩ := Option.map_eq_some_iff.mp hw
    exact (h w' hw').mpr (hq w' hw')

/-- A list of schemas under a keyword that closing leaves is rewritten, schema by schema. -/
theorem lookup_strictMembers_eq_array {ms : Members} {k : String} {ss' : List Value}
    (ha : "additionalProperties" ≠ k) (hr : "required" ≠ k) :
    (strictMembers ms).lookup k = some (.array ss') ↔
      ∃ ss, ms.lookup k = some (.array ss) ∧ ss.map makeSchemaStrict = ss' := by
  rw [lookup_strictMembers_of_ne ha hr, Option.map_eq_some_iff]
  constructor
  · rintro ⟨w, hw, hvisit⟩
    obtain ⟨ss, rfl, hss⟩ := visit_eq_array.mp hvisit
    exact ⟨ss, hw, hss⟩
  · rintro ⟨ss, hss, rfl⟩
    exact ⟨_, hss, visit_array _ ss⟩

/-- The declared schemas are rewritten, name by name. -/
theorem lookup_properties_strictMembers {ms : Members} {ps' : Members}
    (hmap : ∀ ps, ms.lookup "properties" = some (.object ps) → MapToSchemas ps) :
    (strictMembers ms).lookup "properties" = some (.object ps') ↔
      ∃ ps, ms.lookup "properties" = some (.object ps) ∧
        mapValues makeSchemaStrict ps = ps' := by
  rw [lookup_strictMembers_of_ne (by decide) (by decide), Option.map_eq_some_iff]
  constructor
  · rintro ⟨w, hw, hvisit⟩
    obtain ⟨ps, rfl, rfl⟩ := visit_eq_object.mp hvisit
    exact ⟨ps, hw, (strictMembers_of_mapToSchemas (hmap ps hw)).symm⟩
  · rintro ⟨ps, hps, rfl⟩
    exact ⟨_, hps, by rw [visit_object, makeSchemaStrict_object,
      strictMembers_of_mapToSchemas (hmap ps hps)]⟩

/-- A closed object declares nothing new, so it rejects every undeclared member. -/
theorem not_undeclared_of_strictMembers {ms vm : Members} {valid : Value → Value → Prop}
    (hfalse : ∀ x, ¬ valid (.bool false) x) (hdecl : declared (strictMembers ms) = declared ms)
    (htype : ms.lookup "type" = some (.string "object"))
    (hv : Accepts valid (strictMembers ms) (.object vm)) {name : String} (h : name ∈ keys vm) :
    name ∈ declared ms := by
  obtain ⟨m, hm, rfl⟩ := List.mem_map.mp h
  by_contra hundeclared
  exact hfalse _ (hv.additional _ (lookup_additional_strictMembers htype) vm rfl m hm
    (hdecl ▸ hundeclared))

/-- **What a closed object requires and rejects** is that its values have exactly the
declared members. -/
theorem hasExactly_of_accepts {ms : Members} {v : Value} {valid : Value → Value → Prop}
    (hfalse : ∀ x, ¬ valid (.bool false) x) (hdecl : declared (strictMembers ms) = declared ms)
    (hv : Accepts valid (strictMembers ms) v) : HasExactly ms v := by
  rintro htype vm rfl name
  refine ⟨not_undeclared_of_strictMembers hfalse hdecl htype hv, fun hname => ?_⟩
  by_cases hps : ∃ ps, ms.lookup "properties" = some (.object ps)
  · obtain ⟨ps, hps⟩ := hps
    have hall := requiredAccepts_names.mp
      (hv.required _ (lookup_required_strictMembers htype hps))
    exact hall vm rfl name (declared_of_lookup hps ▸ hname)
  · rw [declared_eq_nil (not_exists.mp hps)] at hname
    exact absurd hname List.not_mem_nil

/-- A value with exactly the declared members meets what a closed object requires. -/
theorem requiredAccepts_of_hasExactly {ms : Members} {v : Value} (hexact : HasExactly ms v)
    (hrequired : ∀ w, ms.lookup "required" = some w →
      (∃ names : List String, w = .array (names.map .string)) ∧ RequiredAccepts w v) :
    ∀ w, (strictMembers ms).lookup "required" = some w → RequiredAccepts w v := by
  intro w hw
  -- where the old list of names is kept, it stays as it was
  have hkept : (strictMembers ms).lookup "required" =
      (ms.lookup "required").map (visit makeSchemaStrict) → RequiredAccepts w v := by
    intro hlook
    rw [hlook] at hw
    obtain ⟨w', hw', rfl⟩ := Option.map_eq_some_iff.mp hw
    obtain ⟨⟨names, rfl⟩, haccepts⟩ := hrequired w' hw'
    rwa [visit_names]
  by_cases htype : ms.lookup "type" = some (.string "object")
  · by_cases hps : ∃ ps, ms.lookup "properties" = some (.object ps)
    · obtain ⟨ps, hps⟩ := hps
      obtain rfl := Option.some.inj ((lookup_required_strictMembers htype hps).symm.trans hw)
      refine requiredAccepts_names.mpr fun vm hvm name hname => ?_
      exact (hexact htype vm hvm name).mpr (declared_of_lookup hps ▸ hname)
    · exact hkept (lookup_required_strictMembers_of_not (not_exists.mp hps))
  · exact hkept (lookup_strictMembers_of_open htype _)

/-! ### Keyword by keyword

Two judgements of schemas, of which the first judges closed subschemas as the second judges
the subschemas; then the first judges the keywords of a closed object as the second judges
those of the object. -/

section Keywords

variable {ms : Members} {v : Value} {valid valid' : Value → Value → Prop}

/-- `properties`, closed: the entries judge what they judged. -/
theorem properties_strictMembers
    (hmap : ∀ ps, ms.lookup "properties" = some (.object ps) → MapToSchemas ps)
    (ih : ∀ ps, ms.lookup "properties" = some (.object ps) → ∀ m ∈ ps, ∀ x,
      valid (makeSchemaStrict m.2) x ↔ valid' m.2 x) :
    (∀ ps, (strictMembers ms).lookup "properties" = some (.object ps) →
        ∀ m ∈ ps, ∀ x, v.get m.1 = some x → valid m.2 x) ↔
      ∀ ps, ms.lookup "properties" = some (.object ps) →
        ∀ m ∈ ps, ∀ x, v.get m.1 = some x → valid' m.2 x := by
  constructor
  · intro hv ps hps m hm x hx
    have hstrict := (lookup_properties_strictMembers hmap).mpr ⟨ps, hps, rfl⟩
    exact (ih ps hps m hm x).mp (hv _ hstrict _ (List.mem_map.mpr ⟨m, hm, rfl⟩) x hx)
  · intro hv ps' hps' m' hm' x hx
    obtain ⟨ps, hps, rfl⟩ := (lookup_properties_strictMembers hmap).mp hps'
    obtain ⟨m, hm, rfl⟩ := List.mem_map.mp hm'
    exact (ih ps hps m hm x).mpr (hv ps hps m hm x hx)

/-- `additionalProperties`, closed: a value with exactly the declared members has no others. -/
theorem additional_strictMembers (hexact : HasExactly ms v)
    (hdecl : declared (strictMembers ms) = declared ms)
    (hplain : ∀ s, ms.lookup "additionalProperties" = some s → PlainSchema s)
    (ih : ∀ s, ms.lookup "additionalProperties" = some s → ∀ x,
      valid (makeSchemaStrict s) x ↔ valid' s x) :
    (∀ s, (strictMembers ms).lookup "additionalProperties" = some s →
        ∀ vm, v = .object vm → ∀ m ∈ vm, m.1 ∉ declared (strictMembers ms) → valid s m.2) ↔
      ∀ s, ms.lookup "additionalProperties" = some s →
        ∀ vm, v = .object vm → ∀ m ∈ vm, m.1 ∉ declared ms → valid' s m.2 := by
  rw [hdecl]
  by_cases htype : ms.lookup "type" = some (.string "object")
  · -- no member is undeclared
    have hnone : ∀ vm, v = .object vm → ∀ m ∈ vm, ¬ m.1 ∉ declared ms :=
      fun vm hvm m hm hno => hno ((hexact htype vm hvm m.1).mp (List.mem_map_of_mem hm))
    exact iff_of_true (fun _ _ vm hvm m hm hno => absurd hno (hnone vm hvm m hm))
      fun _ _ vm hvm m hm hno => absurd hno (hnone vm hvm m hm)
  · rw [lookup_strictMembers_of_open htype]
    constructor
    · intro hv s hs vm hvm m hm hno
      have hstrict : (ms.lookup "additionalProperties").map (visit makeSchemaStrict) =
          some (makeSchemaStrict s) := by
        rw [hs, Option.map_some, visit_plainSchema (hplain s hs)]
      exact (ih s hs m.2).mp (hv _ hstrict vm hvm m hm hno)
    · intro hv s' hs' vm hvm m hm hno
      obtain ⟨s, hs, rfl⟩ := Option.map_eq_some_iff.mp hs'
      rw [visit_plainSchema (hplain s hs)]
      exact (ih s hs m.2).mpr (hv s hs vm hvm m hm hno)

/-- `anyOf`, closed: one of the elements accepts what it accepted. -/
theorem anyOf_strictMembers
    (ih : ∀ ss, ms.lookup "anyOf" = some (.array ss) → ∀ s ∈ ss, ∀ x,
      valid (makeSchemaStrict s) x ↔ valid' s x) :
    (∀ ss, (strictMembers ms).lookup "anyOf" = some (.array ss) → ∃ s ∈ ss, valid s v) ↔
      ∀ ss, ms.lookup "anyOf" = some (.array ss) → ∃ s ∈ ss, valid' s v := by
  constructor
  · intro hv ss hss
    obtain ⟨s', hs', hvalid⟩ := hv _
      ((lookup_strictMembers_eq_array (by decide) (by decide)).mpr ⟨ss, hss, rfl⟩)
    obtain ⟨s, hs, rfl⟩ := List.mem_map.mp hs'
    exact ⟨s, hs, (ih ss hss s hs v).mp hvalid⟩
  · intro hv ss' hss'
    obtain ⟨ss, hss, rfl⟩ := (lookup_strictMembers_eq_array (by decide) (by decide)).mp hss'
    obtain ⟨s, hs, hvalid⟩ := hv ss hss
    exact ⟨_, List.mem_map_of_mem hs, (ih ss hss s hs v).mpr hvalid⟩

/-- `allOf`, closed: each element accepts what it accepted. -/
theorem allOf_strictMembers
    (ih : ∀ ss, ms.lookup "allOf" = some (.array ss) → ∀ s ∈ ss, ∀ x,
      valid (makeSchemaStrict s) x ↔ valid' s x) :
    (∀ ss, (strictMembers ms).lookup "allOf" = some (.array ss) → ∀ s ∈ ss, valid s v) ↔
      ∀ ss, ms.lookup "allOf" = some (.array ss) → ∀ s ∈ ss, valid' s v := by
  constructor
  · intro hv ss hss s hs
    exact (ih ss hss s hs v).mp (hv _
      ((lookup_strictMembers_eq_array (by decide) (by decide)).mpr ⟨ss, hss, rfl⟩) _
      (List.mem_map_of_mem hs))
  · intro hv ss' hss' s' hs'
    obtain ⟨ss, hss, rfl⟩ := (lookup_strictMembers_eq_array (by decide) (by decide)).mp hss'
    obtain ⟨s, hs, rfl⟩ := List.mem_map.mp hs'
    exact (ih ss hss s hs v).mpr (hv ss hss s hs)

end Keywords

/-- What a closed schema accepts, by induction on the schema: at an object, the keywords that
closing leaves are judged as before, and those that it writes say `HasExactly`. -/
theorem valid_makeSchemaStrict_iff {s v : Value} (hs : PlainSchema s) :
    Valid (makeSchemaStrict s) v ↔ ValidExactly s v := by
  induction hs generalizing v with
  | bool b => rw [makeSchemaStrict_bool, valid_bool, validExactly_bool]
  | @object ms keywords type properties entries required additional items anyOf anyOfElements
      allOf allOfElements ihEntries ihAdditional ihItems ihAnyOf ihAllOf =>
      have hmap : ∀ ps, ms.lookup "properties" = some (.object ps) → MapToSchemas ps :=
        fun ps hps m hm => (entries ps hps m hm).object_or_bool
      have hdecl := declared_strictMembers hmap
      have hfalse : ∀ x, ¬ Valid (.bool false) x := fun x h => by
        rw [valid_bool] at h
        cases h
      have htypes : (∀ t, (strictMembers ms).lookup "type" = some t → TypeAccepts t v) ↔
          ∀ t, ms.lookup "type" = some t → TypeAccepts t v :=
        forall_lookup_strictMembers (by decide) (by decide) fun t ht => by
          rw [visit_type (type t ht)]
      have hitems : (∀ s, (strictMembers ms).lookup "items" = some s →
            ∀ vs, v = .array vs → ∀ x ∈ vs, Valid s x) ↔
          ∀ s, ms.lookup "items" = some s → ∀ vs, v = .array vs → ∀ x ∈ vs, ValidExactly s x :=
        forall_lookup_strictMembers (by decide) (by decide) fun s hs => by
          rw [visit_plainSchema (items s hs)]
          simp only [ihItems s hs]
      rw [makeSchemaStrict_object, valid_object, validExactly_object]
      constructor
      · intro hv
        have hexact := hasExactly_of_accepts hfalse hdecl hv
        refine ⟨hexact, htypes.mp hv.type, fun w hw => ?_,
          (properties_strictMembers hmap ihEntries).mp hv.properties,
          (additional_strictMembers hexact hdecl additional ihAdditional).mp hv.additional,
          hitems.mp hv.items, (anyOf_strictMembers ihAnyOf).mp hv.anyOf,
          (allOf_strictMembers ihAllOf).mp hv.allOf⟩
        obtain ⟨names, rfl, hnames⟩ := required w hw
        exact requiredAccepts_of_strictMembers hw hnames hv.required
      · rintro ⟨hexact, hv⟩
        refine ⟨htypes.mpr hv.type, requiredAccepts_of_hasExactly hexact fun w hw => ?_,
          (properties_strictMembers hmap ihEntries).mpr hv.properties,
          (additional_strictMembers hexact hdecl additional ihAdditional).mpr hv.additional,
          hitems.mpr hv.items, (anyOf_strictMembers ihAnyOf).mpr hv.anyOf,
          (allOf_strictMembers ihAllOf).mpr hv.allOf⟩
        obtain ⟨names, rfl, -⟩ := required w hw
        exact ⟨⟨names, rfl⟩, hv.required _ hw⟩

/-- **Closing is exact.** For every schema built from the plain keywords, the closed schema accepts
a value if and only if the schema accepts it and, wherever an object of the value is judged by a
schema whose type is the string `object`, it has the declared members and no others. -/
theorem closing_exact {s : Value} (hs : PlainSchema s) (v : Value) :
    Valid (makeSchemaStrict s) v ↔ ValidExactly s v :=
  valid_makeSchemaStrict_iff hs

/-- The two readings of the tagged schema agree on a tagged value. -/
theorem closing_exact_taggedSchema :
    Valid (makeSchemaStrict taggedSchema) (.object [("type", .string "x")]) ↔
      ValidExactly taggedSchema (.object [("type", .string "x")]) :=
  closing_exact plainSchema_taggedSchema _

end LayerKit
