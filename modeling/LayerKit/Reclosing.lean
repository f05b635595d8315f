import LayerKit.Strict

/-!
# Closing Twice

A schema that is closed already is left by the next closing. What `make_schema_strict` inserts
holds no object, so the second walk meets the objects that the first one met, and each of them
has its `type` still. What could differ are the names to require. They are the keys of
`properties`, and these are the same unless the walk has closed `properties` itself, which has
then one more. So the condition is that no `properties` of a node has the `type` of a node. The
walk does not tell schemas from data: a node is any object in the value.

## Main results

* `closeObject_strictMembers`: a rewritten object is closed.
* `makeSchemaStrict_idem`: from one object to what is below it, by induction on the depth.
* `closing_idempotent`: closing twice is closing once, and a closed tool passes through.
-/

open Json JsonSchema

namespace LayerKit

/-! ### One object -/

/-- The `required` that an object is closed with. -/
def requiredOf (ms : Members) : Option Value :=
  ((ms.lookup "properties").bind Value.asObject).map fun properties =>
    .array ((keys properties).map .string)

/-- An object closed with a `required`, or without. -/
def closeWith (required : Option Value) (ms : Members) : Members :=
  match required with
  | some required => insert "required" required (insert "additionalProperties" (.bool false) ms)
  | none => insert "additionalProperties" (.bool false) ms

/-- An object schema is closed by the names that it declares. -/
theorem closeObject_of_type {ms : Members} (h : ms.lookup "type" = some (.string "object")) :
    closeObject ms = closeWith (requiredOf ms) ms :=
  if_pos (by rw [h]; rfl)

/-- Closing with the same names again changes nothing. -/
theorem closeWith_closeWith (required : Option Value) (ms : Members) :
    closeWith required (closeWith required ms) = closeWith required ms := by
  cases required with
  | none => exact insert_insert ..
  | some required =>
      have hne : "additionalProperties" ≠ "required" := by decide
      rw [closeWith, closeWith, insert_comm hne, insert_insert, insert_insert]

/-- The members that closing sets are visited to no effect. -/
theorem mapValues_closeWith (ms : Members) :
    mapValues (visit makeSchemaStrict) (closeWith (requiredOf ms) ms) =
      closeWith (requiredOf ms) (mapValues (visit makeSchemaStrict) ms) := by
  cases hrequired : requiredOf ms with
  | none => rw [closeWith, mapValues_insert, visit_bool, closeWith]
  | some required =>
      obtain ⟨ps, -, rfl⟩ := Option.map_eq_some_iff.mp hrequired
      rw [closeWith, mapValues_insert, mapValues_insert, visit_bool, visit_names, closeWith]

/-- An object that is not closed keeps its keys. -/
theorem keys_strictMembers_of_ne {ps : Members} (h : ps.lookup "type" ≠ some (.string "object")) :
    keys (strictMembers ps) = keys ps := by
  rw [strictMembers, closeObject_of_ne h, keys_mapValues]

/-- **The names to require stay**, if `properties` is not closed for a node itself. -/
theorem requiredOf_strictMembers {ms : Members}
    (h : ∀ ps, ms.lookup "properties" = some (.object ps) →
      ps.lookup "type" ≠ some (.string "object")) :
    requiredOf (strictMembers ms) = requiredOf ms := by
  rw [requiredOf, requiredOf, lookup_strictMembers_of_ne (by decide) (by decide)]
  cases hproperties : ms.lookup "properties" with
  | none => rfl
  | some v =>
      cases v with
      | object ps =>
          rw [Option.map_some, visit_object, makeSchemaStrict_object, Option.bind_some,
            Option.bind_some, Value.asObject, Value.asObject, Option.map_some, Option.map_some,
            keys_strictMembers_of_ne (h ps hproperties)]
      | _ => rfl

/-- **A rewritten object is closed**, if its `properties` was not closed for a node itself. -/
theorem closeObject_strictMembers {ms : Members}
    (h : ms.lookup "type" = some (.string "object") → ∀ ps,
      ms.lookup "properties" = some (.object ps) → ps.lookup "type" ≠ some (.string "object")) :
    closeObject (strictMembers ms) = strictMembers ms := by
  have htype : (strictMembers ms).lookup "type" = some (.string "object") ↔
      ms.lookup "type" = some (.string "object") := by
    rw [lookup_strictMembers_of_ne (by decide) (by decide), Option.map_eq_some_iff]
    simp [visit_eq_string]
  by_cases hobject : ms.lookup "type" = some (.string "object")
  · rw [closeObject_of_type (htype.mpr hobject), requiredOf_strictMembers (h hobject),
      strictMembers, closeObject_of_type hobject, mapValues_closeWith, closeWith_closeWith]
  · exact closeObject_of_ne (htype.not.mpr hobject)

/-! ### Every object below -/

/-- The `properties` of the nodes of type `object` in a value. -/
def NodeProperties (root : Value) (ps : Members) : Prop :=
  ∃ ms, Value.Inside ms root ∧ ms.lookup "type" = some (.string "object") ∧
    ms.lookup "properties" = some (.object ps)

/-- No `properties` of a node is closed for a node itself. -/
def PropertiesUntyped (root : Value) : Prop :=
  ∀ ps, NodeProperties root ps → ps.lookup "type" ≠ some (.string "object")

/-- The condition holds of the members of an object. -/
theorem PropertiesUntyped.member {ms : Members} (h : PropertiesUntyped (.object ms))
    {m : String × Value} (hm : m ∈ ms) : PropertiesUntyped m.2 := by
  rintro ps ⟨ns, hns, hnode⟩
  exact h ps ⟨ns, .member hm hns, hnode⟩

/-- The condition holds of the elements of an array. -/
theorem PropertiesUntyped.element {vs : List Value} (h : PropertiesUntyped (.array vs))
    {v : Value} (hv : v ∈ vs) : PropertiesUntyped v := by
  rintro ps ⟨ns, hns, hnode⟩
  exact h ps ⟨ns, .element hv hns, hnode⟩

/-- Visiting the members of a rewritten object again changes nothing, if it changes none of the
objects that were there. -/
theorem strictMembers_strictMembers {ms : Members}
    (hclosed : closeObject (strictMembers ms) = strictMembers ms)
    (hvisit : ∀ m ∈ ms, visit makeSchemaStrict (visit makeSchemaStrict m.2) =
      visit makeSchemaStrict m.2) :
    strictMembers (strictMembers ms) = strictMembers ms := by
  rw [strictMembers, hclosed, strictMembers, mapValues, mapValues, List.map_map, List.map_inj_left]
  intro m hm
  refine Prod.ext rfl ?_
  rcases mem_closeObject hm with hm | hm | ⟨names, hm⟩
  · exact hvisit m hm
  · simp only [Function.comp_apply, hm, visit_bool]
  · simp only [Function.comp_apply, hm, visit_names]

/-- **The second walk changes nothing.** -/
theorem makeSchemaStrict_idem {root : Value} (h : PropertiesUntyped root) :
    makeSchemaStrict (makeSchemaStrict root) = makeSchemaStrict root := by
  induction hdepth : root.depth using Nat.strong_induction_on generalizing root with
  | _ n ih =>
      subst hdepth
      cases root with
      | object ms =>
          have hclosed := closeObject_strictMembers fun htype ps hps =>
            h ps ⟨ms, .self, htype, hps⟩
          rw [makeSchemaStrict_object, makeSchemaStrict_object,
            strictMembers_strictMembers hclosed]
          rintro ⟨k, v⟩ hm
          have hbelow := Value.depth_lt_of_mem_members hm
          cases v with
          | object ns =>
              rw [visit_object, makeSchemaStrict_object, visit_object, ← makeSchemaStrict_object]
              exact ih _ hbelow (h.member hm) rfl
          | array vs =>
              rw [visit_array, visit_array, List.map_map]
              refine congrArg Value.array (List.map_congr_left fun v hv => ?_)
              exact ih _ ((Value.depth_lt_of_mem hv).trans hbelow)
                ((h.member hm).element hv) rfl
          | _ => rfl
      | _ => simp [makeSchemaStrict]

/-- Where the entries of every `properties` are schemas, none of them is a string. -/
theorem PropertiesUntyped.of_schemas {root : Value}
    (h : ∀ ps, NodeProperties root ps → MapToSchemas ps) : PropertiesUntyped root := by
  intro ps hps htype
  rcases h ps hps _ (mem_of_lookup htype) with ⟨ns, hns⟩ | ⟨b, hb⟩
  · cases hns
  · cases hb

/-! ### Tools -/

/-- A tool whose parameters the rewrite leaves is left. -/
theorem prepareTool_of_fixed {tool : Value}
    (h : ∀ v, tool.get "parameters" = some v → makeSchemaStrict v = v) :
    prepareTool tool = tool := by
  cases tool with
  | object ms =>
      rw [prepareTool]
      split
      · exact congrArg Value.object (modify_of_lookup h)
      · rfl
  | _ => exact ite_self _

/-- **Closing a schema is idempotent** in every value in which no `properties` of a node of type
`object` has a `type` that is the string `object`, and a tool whose schema is closed already
passes through unchanged. Where the entries of every such `properties` are schemas, none has. -/
theorem closing_idempotent (schema : Value) :
    (PropertiesUntyped schema →
      makeSchemaStrict (makeSchemaStrict schema) = makeSchemaStrict schema ∧
        ∀ tool : Value, tool.get "parameters" = some (makeSchemaStrict schema) →
          prepareTool tool = tool) ∧
    ((∀ ps, NodeProperties schema ps → MapToSchemas ps) → PropertiesUntyped schema) := by
  refine ⟨fun h => ⟨makeSchemaStrict_idem h, fun tool htool => ?_⟩, .of_schemas⟩
  refine prepareTool_of_fixed fun v hv => ?_
  obtain rfl := Option.some.inj (htool.symm.trans hv)
  exact makeSchemaStrict_idem h

/-- The parameters of a tool that takes a place by its name. -/
def placeSchema : Members :=
  [("properties", .object
      [("place", .object
        [("properties", .object [("name", .object [("type", .string "string")])]),
          ("type", .string "object")])]),
    ("type", .string "object")]

/-- A strict tool with these parameters, closed already. -/
def placeTool : Value :=
  .object [("parameters", makeSchemaStrict (.object placeSchema)), ("strict", .bool true)]

/-- The schema has two objects with `properties`, one in the other. -/
theorem mapToSchemas_placeSchema {ps : Members} (h : NodeProperties (.object placeSchema) ps) :
    MapToSchemas ps := by
  obtain ⟨ms, hms, htype, hps⟩ := h
  simp only [placeSchema, Value.inside_object_iff, Value.not_inside_string, List.mem_cons,
    List.not_mem_nil, or_false, exists_eq_or_imp, exists_eq_left] at hms
  rcases hms with rfl | rfl | rfl | rfl | rfl
  · obtain rfl : [("place", _)] = ps := by simpa [lookup_cons_eq] using hps
    exact fun m hm => .inl ⟨_, congrArg Prod.snd (List.mem_singleton.mp hm)⟩
  · simp [lookup_cons_eq] at hps
  · obtain rfl : [("name", _)] = ps := by simpa [lookup_cons_eq] using hps
    exact fun m hm => .inl ⟨_, congrArg Prod.snd (List.mem_singleton.mp hm)⟩
  · simp [lookup_cons_eq] at hps
  · simp at htype

/-- The second closing leaves the place and its name. -/
theorem closing_placeSchema_idempotent :
    makeSchemaStrict (makeSchemaStrict (.object placeSchema)) =
        makeSchemaStrict (.object placeSchema) ∧
      prepareTool placeTool = placeTool := by
  obtain ⟨hclosing, hschemas⟩ := closing_idempotent (.object placeSchema)
  obtain ⟨hidem, htool⟩ := hclosing (hschemas fun _ => mapToSchemas_placeSchema)
  exact ⟨hidem, htool _ rfl⟩

end LayerKit
