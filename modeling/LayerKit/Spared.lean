import LayerKit.Positions
import LayerKit.Strict

/-!
# What the Closing Spares

`make_schema_strict` is meant to change the `additionalProperties` and the `required` of schemas
of the type `object` and nothing else. Whether it does is a matter of erasure: the rewritten
schema is to have the erasure of the one there was. The rewrite walks every member of every
object, so what decides is whether it meets an object that is no schema, such as data under
`const` or an entry map, and that has the type `object`. Such an object is closed like a schema,
and it is left only if it is closed already (`closing_changes_only_iff`).

## Main results

* `erase_makeSchemaStrict_iff`: one object and what is below it, by induction on the depth.
* `closing_changes_only_iff`: when closing a schema changes nothing else.
-/

open Json JsonSchema

namespace LayerKit

/-! ### Closed already -/

/-- The object is as closing leaves it. -/
def AlreadyClosed (ms : Members) : Prop :=
  ms.lookup "additionalProperties" = some (.bool false) ∧
    ∀ ps, ms.lookup "properties" = some (.object ps) →
      ms.lookup "required" = some (.array ((keys ps).map .string))

/-- Closing leaves it so. -/
theorem closeObject_of_alreadyClosed {ms : Members} (horder : (keys ms).Pairwise (· < ·))
    (h : AlreadyClosed ms) : closeObject ms = ms := by
  rw [closeObject]
  split
  · rw [insert_of_lookup horder h.1]
    dsimp only
    split
    · next required hrequired =>
        obtain ⟨ps, hps, rfl⟩ := Option.map_eq_some_iff.mp hrequired
        exact insert_of_lookup horder (h.2 ps (Value.bind_asObject_eq_some.mp hps))
    · rfl
  · rfl

/-- An object that is no schema is spared unless it is of the type `object` and not closed. -/
def Spared (node : Role × Members) : Prop :=
  node.1 ≠ .schema → node.2.lookup "type" = some (.string "object") → AlreadyClosed node.2

/-! ### One object -/

/-- Removing a key and mapping the values commute. -/
theorem remove_mapValues (f : Value → Value) (k : String) (ms : Members) :
    remove k (mapValues f ms) = mapValues f (remove k ms) := by
  rw [remove, mapValues, List.filter_map]
  rfl

/-- Closing a schema of the type `object` sets members that its erasure takes off. -/
theorem remove_closeObject (ms : Members) :
    remove "required" (remove "additionalProperties" (closeObject ms)) =
      remove "required" (remove "additionalProperties" ms) := by
  rw [closeObject]
  split
  · dsimp only
    split
    · rw [remove_comm, remove_insert, remove_comm, remove_insert]
    · rw [remove_insert]
  · rfl

/-- The rewrite keeps, of what the erasure keeps, every member, with its value visited. -/
theorem kept_strictMembers {role : Role} {ms : Members} (horder : (keys ms).Pairwise (· < ·))
    (h : Spared (role, ms)) :
    kept role (strictMembers ms) = mapValues (visit makeSchemaStrict) (kept role ms) := by
  simp only [kept, type_strictMembers]
  split
  · rw [strictMembers, remove_mapValues, remove_mapValues, remove_closeObject]
  · next hno =>
      have hclose : closeObject ms = ms := by
        by_cases htype : ms.lookup "type" = some (.string "object")
        · refine closeObject_of_alreadyClosed horder (h (fun hrole => ?_) htype)
          exact hno ⟨hrole, Value.bind_asStr_eq_some.mpr htype⟩
        · exact closeObject_of_ne htype
      rw [strictMembers, hclose]

/-- An object whose erasure the rewrite leaves is spared. -/
theorem spared_of_erase_eq {role : Role} {ms : Members}
    (h : erase role (.object (strictMembers ms)) = erase role (.object ms)) :
    Spared (role, ms) := by
  intro hrole htype
  have hget : ∀ k, ((strictMembers ms).lookup k).map (eraseMember role k) =
      (ms.lookup k).map (eraseMember role k) := fun k => by
    have hk := congrArg (fun v => v.get k) h
    rw [lookup_erase, lookup_erase, kept_of_ne hrole, kept_of_ne hrole] at hk
    exact hk
  constructor
  · have ha := hget "additionalProperties"
    rw [lookup_additional_strictMembers htype] at ha
    obtain ⟨v, hv, hbool⟩ := Option.map_eq_some_iff.mp ha.symm
    rw [hv, eraseMember_eq_bool.mp hbool]
  · intro ps hps
    have hr := hget "required"
    rw [lookup_required_strictMembers htype hps, Option.map_some,
      eraseMember_eq_names.mpr rfl] at hr
    obtain ⟨v, hv, hnames⟩ := Option.map_eq_some_iff.mp hr.symm
    rw [hv, eraseMember_eq_names.mp hnames]

/-- **One object**: the rewrite leaves its erasure when the object is spared and every value
that the erasure keeps has the erasure it had. -/
theorem erase_strictMembers_iff {role : Role} {ms : Members}
    (horder : (keys ms).Pairwise (· < ·)) :
    erase role (.object (strictMembers ms)) = erase role (.object ms) ↔
      Spared (role, ms) ∧ ∀ m ∈ kept role ms,
        eraseMember role m.1 (visit makeSchemaStrict m.2) = eraseMember role m.1 m.2 := by
  have hvalues (h : Spared (role, ms)) :
      erase role (.object (strictMembers ms)) = erase role (.object ms) ↔
        ∀ m ∈ kept role ms,
          eraseMember role m.1 (visit makeSchemaStrict m.2) = eraseMember role m.1 m.2 := by
    rw [erase_object, erase_object, kept_strictMembers horder h, mapValues, List.map_map,
      Value.object.injEq, List.map_inj_left]
    simp
  constructor
  · intro h
    have hspared := spared_of_erase_eq h
    exact ⟨hspared, (hvalues hspared).mp h⟩
  · rintro ⟨hspared, h⟩
    exact (hvalues hspared).mpr h

/-! ### Every object below -/

/-- **The erasure of a rewritten object** is that of the object exactly when everything in it
is spared. -/
theorem erase_makeSchemaStrict_iff {ms : Members} (h : Value.Ordered (.object ms)) (role : Role) :
    erase role (makeSchemaStrict (.object ms)) = erase role (.object ms) ↔
      ∀ node, Relation.ReflTransGen Child (role, ms) node → Spared node := by
  induction hdepth : (Value.object ms).depth using Nat.strong_induction_on generalizing ms role with
  | _ n ih =>
      subst hdepth
      cases h with
      | object horder hvalues =>
          rw [makeSchemaStrict_object, erase_strictMembers_iff horder, forall_below_iff]
          refine and_congr_right fun _ => ?_
          have hmember : ∀ {k ns}, (k, .object ns) ∈ kept role ms →
              (eraseMember role k (visit makeSchemaStrict (.object ns)) =
                  eraseMember role k (.object ns) ↔
                ∀ node, Relation.ReflTransGen Child (role.member k, ns) node → Spared node) := by
            intro k ns hmem
            have hns := mem_of_mem_kept hmem
            rw [visit_object, makeSchemaStrict_object, eraseMember, eraseMember,
              ← makeSchemaStrict_object]
            exact ih _ (Value.depth_lt_of_mem_members hns) (hvalues _ hns) _ rfl
          have helement : ∀ {k vs ns}, (k, .array vs) ∈ kept role ms → .object ns ∈ vs →
              (erase (role.element k) (makeSchemaStrict (.object ns)) =
                  erase (role.element k) (.object ns) ↔
                ∀ node, Relation.ReflTransGen Child (role.element k, ns) node → Spared node) := by
            intro k vs ns hmem hns
            have hvs := mem_of_mem_kept hmem
            cases hvalues _ hvs with
            | array helements =>
                exact ih _ ((Value.depth_lt_of_mem hns).trans (Value.depth_lt_of_mem_members hvs))
                  (helements _ hns) _ rfl
          constructor
          · intro hmembers child hchild
            cases hchild with
            | member hmem => exact (hmember hmem).mp (hmembers _ hmem)
            | element hmem hns =>
                have hmap := Value.array.inj (hmembers _ hmem)
                rw [List.map_map, List.map_inj_left] at hmap
                exact (helement hmem hns).mp (hmap _ hns)
          · rintro hchildren ⟨k, v⟩ hmem
            cases v with
            | object ns => exact (hmember hmem).mpr (hchildren _ (.member hmem))
            | array vs =>
                refine congrArg Value.array ?_
                rw [List.map_map, List.map_inj_left]
                intro w hw
                cases w with
                | object ns => exact (helement hmem hw).mpr (hchildren _ (.element hmem hw))
                | _ => simp [makeSchemaStrict]
            | _ => rfl

/-! ### Schemas -/

/-- **Nothing else changes**: two values differ in the `additionalProperties` and the `required`
of schemas of the type `object` alone. -/
def ChangesOnlyClosing (v w : Value) : Prop :=
  erase .schema w = erase .schema v

/-- **Closing a schema changes nothing else** exactly when every object that stands in it as data
or as a map to schemas and has the type `object` is closed already. The members of objects are
in the order of their keys. -/
theorem closing_changes_only_iff (schema : Value) (h : schema.Ordered) :
    ChangesOnlyClosing schema (makeSchemaStrict schema) ↔
      ∀ role ns, Stands schema role ns → role ≠ .schema →
        ns.lookup "type" = some (.string "object") → AlreadyClosed ns := by
  cases schema with
  | object ms =>
      rw [ChangesOnlyClosing, erase_makeSchemaStrict_iff h]
      constructor
      · rintro hspared role ns ⟨_, ⟨⟩, hbelow⟩
        exact hspared (role, ns) hbelow
      · rintro hclosed ⟨role, ns⟩ hbelow
        exact hclosed role ns ⟨ms, rfl, hbelow⟩
  | _ =>
      refine iff_of_true (by simp [ChangesOnlyClosing, makeSchemaStrict]) ?_
      rintro role ns ⟨ms, ⟨⟩, -⟩

/-- The members of a schema that one value is valid against, an object. -/
def constSchema : Members :=
  [("const", .object [("type", .string "object")])]

/-- Its members are in order. -/
theorem ordered_constSchema : (Value.object constSchema).Ordered := by
  refine .object (List.pairwise_singleton _ _) fun m hm => ?_
  rw [List.mem_singleton.mp hm]
  refine .object (List.pairwise_singleton _ _) fun m hm => ?_
  rw [List.mem_singleton.mp hm]
  exact .string _

/-- The case of that schema. -/
theorem closing_changes_only_iff_constSchema :
    ChangesOnlyClosing (.object constSchema) (makeSchemaStrict (.object constSchema)) ↔
      ∀ role ns, Stands (.object constSchema) role ns → role ≠ .schema →
        ns.lookup "type" = some (.string "object") → AlreadyClosed ns :=
  closing_changes_only_iff _ ordered_constSchema

/-- The constant is closed like a schema, and is another constant after. -/
theorem not_closing_changes_only :
    ¬ ∀ schema : Value, schema.Ordered → ChangesOnlyClosing schema (makeSchemaStrict schema) := by
  intro h
  have herase := h _ ordered_constSchema
  rw [makeSchemaStrict_object] at herase
  have hconst := lookup_data_of_erase_eq (k := "const") herase (by decide) (by decide)
  rw [lookup_strictMembers_of_ne (by decide) (by decide)] at hconst
  have hobject : strictMembers [("type", .string "object")] = [("type", .string "object")] := by
    simpa [constSchema] using hconst
  have hadditional : (strictMembers [("type", .string "object")]).lookup "additionalProperties" =
      some (.bool false) := lookup_additional_strictMembers rfl
  rw [hobject] at hadditional
  cases hadditional

end LayerKit
