import LayerKit.JsonSchema

/-!
# What Stands Where in a Schema

The objects inside a schema are of three roles: schemas, maps to schemas such as the value of
`properties`, and data such as the value of `const`. The role of an object is given by the
keywords on the way to it; the value of a keyword that JSON Schema does not have is data.

A schema whose `type` is the string `object` may be closed: its `additionalProperties` and its
`required` are the keywords that say so. `erase` takes these two off every such schema and
nothing else off anything, so two values with the same erasure differ in them alone. In any
other schema, one whose `type` is a list with `object` among them, the two are members like any
other.

## Main results

* `lookup_erase`: reading an erased object, keyword by keyword.
* `erase_data`: no data is erased.
-/

open Json

namespace JsonSchema

/-! ### Roles -/

/-- What an object stands for. -/
inductive Role
  | schema
  | entries
  | data
deriving DecidableEq

/-- The keywords that hold a schema or a list of schemas. -/
def schemaKeywords : List String :=
  ["additionalItems", "additionalProperties", "allOf", "anyOf", "contains", "contentSchema",
    "else", "if", "items", "not", "oneOf", "prefixItems", "propertyNames", "then",
    "unevaluatedItems", "unevaluatedProperties"]

/-- The keywords that hold a map to schemas. -/
def entriesKeywords : List String :=
  ["$defs", "definitions", "dependencies", "dependentSchemas", "patternProperties", "properties"]

/-- The role of an object that is a member. -/
def Role.member : Role → String → Role
  | .schema, k =>
      if k ∈ schemaKeywords then .schema else if k ∈ entriesKeywords then .entries else .data
  | .entries, _ => .schema
  | .data, _ => .data

/-- The role of an object in an array that is a member. -/
def Role.element : Role → String → Role
  | .schema, k => if k ∈ schemaKeywords then .schema else .data
  | .entries, _ => .data
  | .data, _ => .data

/-- The members of an object but for those that close it, where it is a schema of the type
`object`. -/
def kept (role : Role) (ms : Members) : Members :=
  if role = .schema ∧ (ms.lookup "type").bind Value.asStr = some "object" then
    remove "required" (remove "additionalProperties" ms)
  else
    ms

/-- Nothing is added. -/
theorem mem_of_mem_kept {role : Role} {ms : Members} {m : String × Value}
    (h : m ∈ kept role ms) : m ∈ ms := by
  rw [kept] at h
  split at h
  · exact List.mem_of_mem_filter (List.mem_of_mem_filter h)
  · exact h

/-- Off the schema positions every member is kept. -/
theorem kept_of_ne {role : Role} (h : role ≠ .schema) (ms : Members) : kept role ms = ms :=
  if_neg fun hrole => h hrole.1

/-! ### Erasure -/

/-- Take the closing keywords off every schema of the type `object` in a value of a role. -/
def erase (role : Role) : Value → Value
  | .object ms =>
      .object ((kept role ms).attach.map fun ⟨(k, v), _⟩ =>
        (k, match v with
          | .object ns => erase (role.member k) (.object ns)
          | .array vs => .array (vs.attach.map fun ⟨w, _⟩ => erase (role.element k) w)
          | v => v))
  | v => v
termination_by v => v.depth
decreasing_by
  · exact Value.depth_lt_of_mem_members (mem_of_mem_kept ‹_›)
  · exact (Value.depth_lt_of_mem ‹_›).trans (Value.depth_lt_of_mem_members (mem_of_mem_kept ‹_›))

/-- The erasure of the value of a member. -/
def eraseMember (role : Role) (k : String) : Value → Value
  | .object ns => erase (role.member k) (.object ns)
  | .array vs => .array (vs.map (erase (role.element k)))
  | v => v

/-- **The equation of the erasure.** -/
theorem erase_object (role : Role) (ms : Members) :
    erase role (.object ms) =
      .object ((kept role ms).map fun m => (m.1, eraseMember role m.1 m.2)) := by
  rw [erase]
  congr 1
  conv_rhs => rw [← List.attach_map_subtype_val (kept role ms), List.map_map]
  refine List.map_congr_left fun m _ => ?_
  obtain ⟨⟨k, v⟩, hv⟩ := m
  cases v <;> simp [eraseMember]

/-- A value that is not an object is left. -/
theorem erase_of_not {role : Role} {v : Value} (h : ∀ ms, v ≠ .object ms) : erase role v = v := by
  cases v with
  | object ms => exact absurd rfl (h ms)
  | _ => simp [erase]

/-- A text is left. -/
@[simp] theorem erase_string (role : Role) (t : String) :
    erase role (.string t) = .string t :=
  erase_of_not fun _ => nofun

/-- The erasure of a text is that text, and of nothing else. -/
theorem erase_eq_string {role : Role} {v : Value} {t : String} :
    erase role v = .string t ↔ v = .string t := by
  cases v with
  | object ms => simp [erase_object]
  | _ => simp [erase]

/-- The erasure of a boolean is that boolean, and of nothing else. -/
theorem eraseMember_eq_bool {role : Role} {k : String} {v : Value} {b : Bool} :
    eraseMember role k v = .bool b ↔ v = .bool b := by
  cases v with
  | object ms =>
      rw [eraseMember, erase_object]
      exact iff_of_false nofun nofun
  | _ => simp [eraseMember]

/-- The erasure of a list of names is that list, and of nothing else. -/
theorem eraseMember_eq_names {role : Role} {k : String} {v : Value} {names : List String} :
    eraseMember role k v = .array (names.map .string) ↔ v = .array (names.map .string) := by
  cases v with
  | object ms =>
      rw [eraseMember, erase_object]
      exact iff_of_false nofun nofun
  | array vs =>
      rw [eraseMember, Value.array.injEq, Value.array.injEq]
      exact Value.map_eq_strings fun _ _ => erase_eq_string
  | _ => simp [eraseMember]

/-- **Reading an erased object**, keyword by keyword. -/
theorem lookup_erase (role : Role) (ms : Members) (k : String) :
    (erase role (.object ms)).get k = ((kept role ms).lookup k).map (eraseMember role k) := by
  rw [erase_object, Value.get_object, lookup_map]

/-- A keyword that closes nothing is kept. -/
theorem lookup_kept {role : Role} {ms : Members} {k : String} (ha : "additionalProperties" ≠ k)
    (hr : "required" ≠ k) : (kept role ms).lookup k = ms.lookup k := by
  rw [kept]
  split
  · rw [lookup_remove, if_neg hr, lookup_remove, if_neg ha]
  · rfl

/-- **No data is erased.** -/
theorem erase_data (v : Value) : erase .data v = v := by
  induction hdepth : v.depth using Nat.strong_induction_on generalizing v with
  | _ n ih =>
      subst hdepth
      cases v with
      | object ms =>
          rw [erase_object, kept_of_ne (by decide)]
          congr 1
          conv_rhs => rw [← List.map_id ms]
          refine List.map_congr_left fun m hm => Prod.ext rfl ?_
          obtain ⟨k, x⟩ := m
          cases x with
          | object ns => exact ih _ (Value.depth_lt_of_mem_members hm) _ rfl
          | array vs =>
              have helements : vs.map (erase .data) = vs := by
                conv_rhs => rw [← List.map_id vs]
                exact List.map_congr_left fun w hw => ih _ ((Value.depth_lt_of_mem hw).trans
                  (Value.depth_lt_of_mem_members hm)) w rfl
              exact congrArg Value.array helements
          | _ => rfl
      | _ => exact erase_of_not fun _ => nofun

/-- Where two objects are schemas of one erasure, the data in them is the same. -/
theorem lookup_data_of_erase_eq {ms ns : Members}
    (h : erase .schema (.object ns) = erase .schema (.object ms)) {k : String}
    (hk : Role.schema.member k = .data) (hr : "required" ≠ k) : ns.lookup k = ms.lookup k := by
  have ha : "additionalProperties" ≠ k := by
    rintro rfl
    cases hk
  have helement : Role.schema.element k = .data := by
    rw [Role.member] at hk
    rw [Role.element]
    split at hk
    · cases hk
    · next hno => rw [if_neg hno]
  have hmember : eraseMember .schema k = id := by
    funext v
    cases v with
    | object ns => rw [eraseMember, hk, erase_data, id]
    | array vs =>
        rw [eraseMember, helement, List.map_congr_left fun w _ => erase_data w, List.map_id', id]
    | _ => rfl
  have hget := congrArg (fun v => v.get k) h
  rw [lookup_erase, lookup_erase, lookup_kept ha hr, lookup_kept ha hr, hmember,
    Option.map_id] at hget
  exact hget

/-! ### What is in a value -/

/-- An object one member below an object, by their roles; the members that close a schema of the
type `object` are not looked into. -/
inductive Child : Role × Members → Role × Members → Prop
  | member {role : Role} {ms : Members} {k : String} {ns : Members}
      (h : (k, .object ns) ∈ kept role ms) : Child (role, ms) (role.member k, ns)
  | element {role : Role} {ms : Members} {k : String} {vs : List Value} {ns : Members}
      (h : (k, .array vs) ∈ kept role ms) (hns : .object ns ∈ vs) :
      Child (role, ms) (role.element k, ns)

/-- An object that stands in a schema, in a role. -/
def Stands (v : Value) (role : Role) (ns : Members) : Prop :=
  ∃ ms, v = .object ms ∧ Relation.ReflTransGen Child (.schema, ms) (role, ns)

/-- What holds of every object below and at an object holds at it, and below and at each of
its children. -/
theorem forall_below_iff {P : Role × Members → Prop} {node : Role × Members} :
    (∀ node', Relation.ReflTransGen Child node node' → P node') ↔
      P node ∧ ∀ child, Child node child →
        ∀ node', Relation.ReflTransGen Child child node' → P node' := by
  constructor
  · exact fun h => ⟨h node .refl, fun child hchild node' hbelow => h node' (.head hchild hbelow)⟩
  · rintro ⟨hnode, hchildren⟩ node' hbelow
    rcases hbelow.cases_head with rfl | ⟨child, hchild, hbelow⟩
    · exact hnode
    · exact hchildren child hchild node' hbelow

end JsonSchema
