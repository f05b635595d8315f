import LayerKit.JsonSchema

/-!
# Strict Tools

`prepare_tool` and `make_schema_strict` of `openai.rs`: under a tool with `"strict": true`,
the parameter schema is rewritten so that its objects reject undeclared members and require
the declared ones. The rewrite walks every member of every object, whether a schema stands
there or not; a node is closed when its `type` is the string `object`.

## Main results

* `makeSchemaStrict_object`: the equation of the rewrite.
-/

open Json JsonSchema

namespace LayerKit

/-- Close one object: what `make_schema_strict` does before it walks the members. -/
def closeObject (ms : Members) : Members :=
  if (ms.lookup "type").bind Value.asStr = some "object" then
    let required := ((ms.lookup "properties").bind Value.asObject).map fun properties =>
      Value.array ((keys properties).map .string)
    let closed := insert "additionalProperties" (.bool false) ms
    match required with
    | some required => insert "required" required closed
    | none => closed
  else
    ms

/-- Closing adds no object, and no array but one of strings. -/
theorem mem_closeObject {ms : Members} {m : String × Value} (h : m ∈ closeObject ms) :
    m ∈ ms ∨ m.2 = .bool false ∨ ∃ names : List String, m.2 = .array (names.map .string) := by
  rw [closeObject] at h
  split at h
  · dsimp only at h
    split at h
    · next required hrequired =>
        obtain ⟨ps, -, rfl⟩ := Option.map_eq_some_iff.mp hrequired
        rcases mem_insert h with rfl | h
        · exact .inr (.inr ⟨keys ps, rfl⟩)
        · rcases mem_insert h with rfl | h
          · exact .inr (.inl rfl)
          · exact .inl h
    · rcases mem_insert h with rfl | h
      · exact .inr (.inl rfl)
      · exact .inl h
  · exact .inl h

/-- An object in a closed object is less deep than the object was. -/
theorem depth_object_of_mem_closeObject {ms ns : Members} {k : String}
    (h : (k, .object ns) ∈ closeObject ms) : (Value.object ns).depth < (Value.object ms).depth := by
  rcases mem_closeObject h with h | h | ⟨names, h⟩
  · exact Value.depth_lt_of_mem_members h
  · cases h
  · cases h

/-- An element of an array in a closed object is less deep than the object was. -/
theorem depth_element_of_mem_closeObject {ms : Members} {k : String} {vs : List Value} {v : Value}
    (h : (k, .array vs) ∈ closeObject ms) (hv : v ∈ vs) : v.depth < (Value.object ms).depth := by
  rcases mem_closeObject h with h | h | ⟨names, h⟩
  · exact (Value.depth_lt_of_mem hv).trans (Value.depth_lt_of_mem_members h)
  · cases h
  · rw [Value.array.inj h] at hv
    obtain ⟨name, -, rfl⟩ := List.mem_map.mp hv
    exact Nat.succ_pos _

/-- Close every object of a schema. -/
def makeSchemaStrict : Value → Value
  | .object ms =>
      .object ((closeObject ms).attach.map fun ⟨(k, v), _⟩ =>
        (k, match v with
          | .object ns => makeSchemaStrict (.object ns)
          | .array vs => .array (vs.attach.map fun ⟨w, _⟩ => makeSchemaStrict w)
          | v => v))
  | v => v
termination_by v => v.depth
decreasing_by
  · exact depth_object_of_mem_closeObject ‹_›
  · exact depth_element_of_mem_closeObject ‹_› ‹_›

/-- How the walk treats a member's value. -/
def visit (f : Value → Value) : Value → Value
  | .object ms => f (.object ms)
  | .array vs => .array (vs.map f)
  | v => v

/-- An object is closed. -/
@[simp] theorem visit_object (f : Value → Value) (ms : Members) :
    visit f (.object ms) = f (.object ms) := rfl

/-- Each element of an array is closed. -/
@[simp] theorem visit_array (f : Value → Value) (vs : List Value) :
    visit f (.array vs) = .array (vs.map f) := rfl

/-- A boolean stays. -/
@[simp] theorem visit_bool (f : Value → Value) (b : Bool) : visit f (.bool b) = .bool b := rfl

/-- The members of a closed object. -/
def strictMembers (ms : Members) : Members :=
  mapValues (visit makeSchemaStrict) (closeObject ms)

/-- **The equation of the rewrite**: close the object, then visit every member. -/
@[simp] theorem makeSchemaStrict_object (ms : Members) :
    makeSchemaStrict (.object ms) = .object (strictMembers ms) := by
  rw [makeSchemaStrict, strictMembers, mapValues]
  congr 1
  conv_rhs => rw [← List.attach_map_subtype_val (closeObject ms), List.map_map]
  refine List.map_congr_left fun m _ => ?_
  obtain ⟨⟨k, v⟩, hv⟩ := m
  cases v <;> simp [visit]

/-- A boolean schema stays. -/
@[simp] theorem makeSchemaStrict_bool (b : Bool) : makeSchemaStrict (.bool b) = .bool b := by
  simp [makeSchemaStrict]

/-- Prepare a tool for sending. -/
def prepareTool (tool : Value) : Value :=
  if (tool.get "strict").bind Value.asBool = some true then
    match tool with
    | .object ms => .object (modify "parameters" makeSchemaStrict ms)
    | v => v
  else
    tool

/-- A tool that does not opt in stays as it is. -/
theorem prepareTool_of_not {tool : Value} (h : tool.get "strict" ≠ some (.bool true)) :
    prepareTool tool = tool := by
  exact if_neg fun hstrict => h (Value.bind_asBool_eq_some.mp hstrict)

/-- A tool that opts in has its parameters rewritten, and nothing else. -/
theorem get_prepareTool {tool : Value} (h : tool.get "strict" = some (.bool true)) (k : String) :
    (prepareTool tool).get k =
      if "parameters" = k then (tool.get k).map makeSchemaStrict else tool.get k := by
  cases tool with
  | object ms =>
      rw [prepareTool, if_pos (by rw [h]; rfl)]
      exact lookup_modify "parameters" k makeSchemaStrict ms
  | _ => cases h

/-- A prepared tool keeps its members other than the parameters. -/
theorem get_prepareTool_of_ne {tool : Value} {k : String} (h : "parameters" ≠ k) :
    (prepareTool tool).get k = tool.get k := by
  by_cases hstrict : tool.get "strict" = some (.bool true)
  · rw [get_prepareTool hstrict, if_neg h]
  · rw [prepareTool_of_not hstrict]

/-! ### Shapes -/

/-- Closing makes no strings. -/
theorem makeSchemaStrict_eq_string {v : Value} {t : String} :
    makeSchemaStrict v = .string t ↔ v = .string t := by
  cases v <;> simp [makeSchemaStrict]

/-- A closed object was one. -/
theorem makeSchemaStrict_eq_object {v : Value} {ns : Members} :
    makeSchemaStrict v = .object ns ↔ ∃ ms, v = .object ms ∧ strictMembers ms = ns := by
  cases v <;> simp [makeSchemaStrict]

/-- A string that is visited stays, and nothing else becomes one. -/
theorem visit_eq_string {v : Value} {t : String} :
    visit makeSchemaStrict v = .string t ↔ v = .string t := by
  cases v <;> simp [visit]

/-- A boolean that is visited stays, and nothing else becomes one. -/
theorem visit_eq_bool {v : Value} {b : Bool} :
    visit makeSchemaStrict v = .bool b ↔ v = .bool b := by
  cases v <;> simp [visit]

/-- A visited array was one, element by element. -/
theorem visit_eq_array {v : Value} {ws : List Value} :
    visit makeSchemaStrict v = .array ws ↔ ∃ vs, v = .array vs ∧ vs.map makeSchemaStrict = ws := by
  cases v <;> simp [visit]

/-- A visited object was one, and is closed. -/
theorem visit_eq_object {v : Value} {ns : Members} :
    visit makeSchemaStrict v = .object ns ↔ ∃ ms, v = .object ms ∧ strictMembers ms = ns := by
  cases v <;> simp [visit]

/-- A list of strings stays as it is. -/
theorem map_makeSchemaStrict_eq_strings {vs : List Value} {names : List String} :
    vs.map makeSchemaStrict = names.map Value.string ↔ vs = names.map Value.string :=
  Value.map_eq_strings fun _ _ => makeSchemaStrict_eq_string

/-- A list of names stays. -/
theorem visit_names (names : List String) :
    visit makeSchemaStrict (.array (names.map .string)) = .array (names.map .string) := by
  rw [visit_array, map_makeSchemaStrict_eq_strings.mpr rfl]

/-- A list of names, visited or not. -/
theorem map_visit_eq_names {o : Option Value} (names : List String) :
    o.map (visit makeSchemaStrict) = some (.array (names.map .string)) ↔
      o = some (.array (names.map .string)) := by
  rw [Option.map_eq_some_iff]
  constructor
  · rintro ⟨v, rfl, hvisit⟩
    obtain ⟨vs, rfl, hvs⟩ := visit_eq_array.mp hvisit
    rw [map_makeSchemaStrict_eq_strings.mp hvs]
  · rintro rfl
    exact ⟨_, rfl, visit_names names⟩

/-! ### Reading a closed object -/

/-- What is no object schema is not touched. -/
theorem closeObject_of_ne {ms : Members} (h : ms.lookup "type" ≠ some (.string "object")) :
    closeObject ms = ms := by
  exact if_neg fun htype => h (Value.bind_asStr_eq_some.mp htype)

/-- The other members are not touched. -/
theorem lookup_closeObject_of_ne {ms : Members} {k : String} (ha : "additionalProperties" ≠ k)
    (hr : "required" ≠ k) : (closeObject ms).lookup k = ms.lookup k := by
  rw [closeObject]
  split
  · dsimp only
    split
    · rw [lookup_insert, if_neg hr, lookup_insert, if_neg ha]
    · rw [lookup_insert, if_neg ha]
  · rfl

/-- An object schema gets `additionalProperties: false`. -/
theorem lookup_additional_closeObject {ms : Members}
    (h : ms.lookup "type" = some (.string "object")) :
    (closeObject ms).lookup "additionalProperties" = some (.bool false) := by
  rw [closeObject, if_pos (by simp [h, Value.asStr])]
  dsimp only
  split
  · rw [lookup_insert, if_neg (by decide), lookup_insert, if_pos rfl]
  · rw [lookup_insert, if_pos rfl]

/-- A closed object with `properties` requires what they declare. -/
theorem lookup_required_closeObject {ms ps : Members}
    (h : ms.lookup "type" = some (.string "object"))
    (hps : ms.lookup "properties" = some (.object ps)) :
    (closeObject ms).lookup "required" = some (.array ((keys ps).map .string)) := by
  rw [closeObject, if_pos (by simp [h, Value.asStr])]
  simp [hps, Value.asObject, lookup_insert]

/-- A closed object without `properties` keeps its `required`. -/
theorem lookup_required_closeObject_of_not {ms : Members}
    (h : ∀ ps, ms.lookup "properties" ≠ some (.object ps)) :
    (closeObject ms).lookup "required" = ms.lookup "required" := by
  have hnone : (ms.lookup "properties").bind Value.asObject = none := by
    refine Option.eq_none_iff_forall_ne_some.mpr fun ps hps => ?_
    exact h ps (Value.bind_asObject_eq_some.mp hps)
  rw [closeObject]
  split
  · rw [hnone]
    exact (lookup_insert ..).trans (if_neg (by decide))
  · rfl

/-! ### Reading a rewritten object -/

/-- Any other keyword is visited and no more. -/
theorem lookup_strictMembers_of_ne {ms : Members} {k : String} (ha : "additionalProperties" ≠ k)
    (hr : "required" ≠ k) :
    (strictMembers ms).lookup k = (ms.lookup k).map (visit makeSchemaStrict) := by
  rw [strictMembers, lookup_mapValues, lookup_closeObject_of_ne ha hr]

/-- The rewrite leaves a type that is a string, and makes none. -/
theorem type_strictMembers {ms : Members} {t : String} :
    ((strictMembers ms).lookup "type").bind Value.asStr = some t ↔
      (ms.lookup "type").bind Value.asStr = some t := by
  rw [Value.bind_asStr_eq_some, Value.bind_asStr_eq_some,
    lookup_strictMembers_of_ne (by decide) (by decide), Option.map_eq_some_iff]
  constructor
  · rintro ⟨v, hv, hvisit⟩
    rw [hv, visit_eq_string.mp hvisit]
  · intro h
    exact ⟨_, h, visit_eq_string.mpr rfl⟩

/-- The rewrite keeps object schemas and makes none. -/
theorem objectSchema_strictMembers {ms : Members} :
    ObjectSchema (strictMembers ms) ↔ ObjectSchema ms := by
  unfold ObjectSchema
  rw [lookup_strictMembers_of_ne (by decide) (by decide)]
  cases ms.lookup "type" with
  | none => simp
  | some t =>
      simp only [Option.map_some, Option.some.injEq, visit_eq_string, visit_eq_array]
      refine or_congr_right ⟨?_, ?_⟩
      · rintro ⟨_, ⟨ts, rfl, rfl⟩, hmem⟩
        obtain ⟨v, hv, hstr⟩ := List.mem_map.mp hmem
        exact ⟨ts, rfl, makeSchemaStrict_eq_string.mp hstr ▸ hv⟩
      · rintro ⟨ts, rfl, hmem⟩
        exact ⟨_, ⟨ts, rfl, rfl⟩,
          List.mem_map.mpr ⟨_, hmem, makeSchemaStrict_eq_string.mpr rfl⟩⟩

/-- Where nothing is closed, every keyword is visited and no more. -/
theorem lookup_strictMembers_of_open {ms : Members}
    (h : ms.lookup "type" ≠ some (.string "object")) (k : String) :
    (strictMembers ms).lookup k = (ms.lookup k).map (visit makeSchemaStrict) := by
  rw [strictMembers, lookup_mapValues, closeObject_of_ne h]

/-- A strict object schema has `additionalProperties: false`. -/
theorem lookup_additional_strictMembers {ms : Members}
    (h : ms.lookup "type" = some (.string "object")) :
    (strictMembers ms).lookup "additionalProperties" = some (.bool false) := by
  rw [strictMembers, lookup_mapValues, lookup_additional_closeObject h, Option.map_some, visit_bool]

/-- A strict object schema requires every member that it declares. -/
theorem lookup_required_strictMembers {ms ps : Members}
    (h : ms.lookup "type" = some (.string "object"))
    (hps : ms.lookup "properties" = some (.object ps)) :
    (strictMembers ms).lookup "required" = some (.array ((keys ps).map .string)) := by
  rw [strictMembers, lookup_mapValues, lookup_required_closeObject h hps, map_visit_eq_names]

/-- A strict schema without a map of `properties` requires what it required. -/
theorem lookup_required_strictMembers_of_not {ms : Members}
    (h : ∀ ps, ms.lookup "properties" ≠ some (.object ps)) :
    (strictMembers ms).lookup "required" =
      (ms.lookup "required").map (visit makeSchemaStrict) := by
  rw [strictMembers, lookup_mapValues, lookup_required_closeObject_of_not h]

end LayerKit
