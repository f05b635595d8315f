import LayerKit.Strict

/-!
# What Closing a Schema Achieves

The rewrite of a strict tool's parameters, judged by the two readings of a schema.

**Positions.** The rewrite keeps the schema positions of a schema and rewrites the object
at each of them (`atPosition_makeSchemaStrict`), provided the maps to schemas hold schemas;
the walk would otherwise take such a map for a schema with a `type`. A closed object comes
out of it when one went in, or when its `type` is the string `object` and it either has
`properties` or requires nothing (`closed_strictMembers`): a nullable object, whose `type`
is a list, stays open, and one without `properties` keeps the `required` it had.

**Validity.** What a closed schema accepts, the schema accepted before: the rewrite narrows
(`closing_narrows`), however property names and keywords collide.

## Main results

* `strict_tool_closed_iff`: exactly when every object schema of a strict tool is closed.
* `closing_narrows`: a value valid against the closed schema is valid against the schema.
-/

open Json JsonSchema

namespace LayerKit

/-! ### Maps to schemas -/

/-- The rewrite of a map to schemas rewrites the schemas and adds no member. -/
theorem strictMembers_of_mapToSchemas {ps : Members} (h : MapToSchemas ps) :
    strictMembers ps = mapValues makeSchemaStrict ps := by
  have htype : ps.lookup "type" ≠ some (.string "object") := by
    intro ht
    rcases h _ (mem_of_lookup ht) with ⟨ns, hns⟩ | ⟨b, hb⟩
    · cases hns
    · cases hb
  rw [strictMembers, closeObject_of_ne htype, mapValues, mapValues]
  refine List.map_congr_left fun m hm => ?_
  rcases h m hm with ⟨ns, hns⟩ | ⟨b, hb⟩
  · rw [hns, visit_object]
  · rw [hb, visit_bool, makeSchemaStrict_bool]

/-- The rewrite declares the same names. -/
theorem declared_strictMembers {ms : Members}
    (h : ∀ ps, ms.lookup "properties" = some (.object ps) → MapToSchemas ps) :
    declared (strictMembers ms) = declared ms := by
  have hlook : (strictMembers ms).lookup "properties" =
      (ms.lookup "properties").map (visit makeSchemaStrict) :=
    lookup_strictMembers_of_ne (by decide) (by decide)
  by_cases hps : ∃ ps, ms.lookup "properties" = some (.object ps)
  · obtain ⟨ps, hps⟩ := hps
    rw [hps, Option.map_some, visit_object, makeSchemaStrict_object,
      strictMembers_of_mapToSchemas (h ps hps)] at hlook
    rw [declared_of_lookup hlook, declared_of_lookup hps, keys_mapValues]
  · rw [not_exists] at hps
    rw [declared_eq_nil hps, declared_eq_nil]
    intro ps' hps'
    rw [hlook] at hps'
    obtain ⟨v, hv, hvisit⟩ := Option.map_eq_some_iff.mp hps'
    obtain ⟨ps, rfl, -⟩ := visit_eq_object.mp hvisit
    exact hps ps hv

/-! ### Positions -/

/-- The keywords of positions are other than those that closing sets. -/
theorem lookup_strictMembers_of_mem {ms : Members} {k : String}
    (hk : k ∈ "items" :: mapKeywords ++ listKeywords) :
    (strictMembers ms).lookup k = (ms.lookup k).map (visit makeSchemaStrict) := by
  refine lookup_strictMembers_of_ne ?_ ?_
  · rintro rfl
    exact absurd hk (by decide)
  · rintro rfl
    exact absurd hk (by decide)

/-- **One position below**: the rewrite keeps it and rewrites the object there. -/
theorem below_strictMembers {ms ns' : Members}
    (h : ∀ k ∈ mapKeywords, ∀ ps, ms.lookup k = some (.object ps) → MapToSchemas ps) :
    Below (strictMembers ms) ns' ↔ ∃ ns, Below ms ns ∧ strictMembers ns = ns' := by
  constructor
  · rintro (⟨hk, hps, hns⟩ | hns | ⟨hk, hvs, hns⟩)
    · rw [lookup_strictMembers_of_mem (by simp [hk])] at hps
      obtain ⟨v, hv, hvisit⟩ := Option.map_eq_some_iff.mp hps
      obtain ⟨ps, rfl, rfl⟩ := visit_eq_object.mp hvisit
      rw [strictMembers_of_mapToSchemas (h _ hk ps hv)] at hns
      obtain ⟨⟨name, w⟩, hw, heq⟩ := List.mem_map.mp hns
      obtain ⟨ns, rfl, rfl⟩ := makeSchemaStrict_eq_object.mp (Prod.ext_iff.mp heq).2
      exact ⟨ns, .entry hk hv hw, rfl⟩
    · rw [lookup_strictMembers_of_mem (by simp)] at hns
      obtain ⟨v, hv, hvisit⟩ := Option.map_eq_some_iff.mp hns
      obtain ⟨ns, rfl, rfl⟩ := visit_eq_object.mp hvisit
      exact ⟨ns, .items hv, rfl⟩
    · rw [lookup_strictMembers_of_mem (by simp [hk])] at hvs
      obtain ⟨v, hv, hvisit⟩ := Option.map_eq_some_iff.mp hvs
      obtain ⟨vs, rfl, rfl⟩ := visit_eq_array.mp hvisit
      obtain ⟨w, hw, heq⟩ := List.mem_map.mp hns
      obtain ⟨ns, rfl, rfl⟩ := makeSchemaStrict_eq_object.mp heq
      exact ⟨ns, .element hk hv hw, rfl⟩
  · rintro ⟨ns, hbelow, rfl⟩
    cases hbelow with
    | @entry k ps name _ hk hps hns =>
        have hlook : (strictMembers ms).lookup k =
            some (.object (mapValues makeSchemaStrict ps)) := by
          rw [lookup_strictMembers_of_mem (by simp [hk]), hps, Option.map_some, visit_object,
            makeSchemaStrict_object, strictMembers_of_mapToSchemas (h k hk ps hps)]
        have hmem : (name, Value.object (strictMembers ns)) ∈ mapValues makeSchemaStrict ps :=
          List.mem_map.mpr ⟨_, hns, by rw [makeSchemaStrict_object]⟩
        exact .entry hk hlook hmem
    | items hns =>
        refine .items ?_
        rw [lookup_strictMembers_of_mem (by simp), hns, Option.map_some, visit_object,
          makeSchemaStrict_object]
    | @element k vs _ hk hvs hns =>
        have hlook : (strictMembers ms).lookup k = some (.array (vs.map makeSchemaStrict)) := by
          rw [lookup_strictMembers_of_mem (by simp [hk]), hvs, Option.map_some, visit_array]
        exact .element hk hlook (List.mem_map.mpr ⟨_, hns, makeSchemaStrict_object ns⟩)

/-- **The rewrite keeps the positions** and rewrites the object at each of them. -/
theorem atPosition_makeSchemaStrict {root : Value} (h : EntriesAreSchemas root) {ns' : Members} :
    AtPosition (makeSchemaStrict root) ns' ↔ ∃ ns, AtPosition root ns ∧ strictMembers ns = ns' := by
  constructor
  · rintro ⟨ms', hroot, hreach⟩
    obtain ⟨ms, rfl, rfl⟩ := makeSchemaStrict_eq_object.mp hroot
    induction hreach with
    | refl => exact ⟨ms, ⟨ms, rfl, .refl⟩, rfl⟩
    | tail _ hbelow ih =>
        obtain ⟨ns, hns, rfl⟩ := ih
        obtain ⟨next, hnext, rfl⟩ := (below_strictMembers (h ns hns)).mp hbelow
        obtain ⟨top, htop, hreach⟩ := hns
        exact ⟨next, ⟨top, htop, hreach.tail hnext⟩, rfl⟩
  · rintro ⟨ns, ⟨ms, rfl, hreach⟩, rfl⟩
    refine ⟨strictMembers ms, makeSchemaStrict_object ms, ?_⟩
    induction hreach with
    | refl => exact .refl
    | @tail b c hb hbelow ih =>
        exact ih.tail ((below_strictMembers (h b ⟨ms, rfl, hb⟩)).mpr ⟨c, hbelow, rfl⟩)

/-! ### Closed objects -/

/-- An object that comes out of the rewrite closed: it is closed, or its `type` is the
string `object` and it has `properties` or requires nothing. -/
def Closes (ms : Members) : Prop :=
  Closed ms ∨ (ms.lookup "type" = some (.string "object") ∧
    ((∃ ps, ms.lookup "properties" = some (.object ps)) ∨
      ms.lookup "required" = some (.array [])))

/-- An object without `properties` is closed when it rejects all members and requires none. -/
theorem closed_iff_of_not {ms : Members}
    (h : ∀ ps, ms.lookup "properties" ≠ some (.object ps)) :
    Closed ms ↔ ms.lookup "additionalProperties" = some (.bool false) ∧
      ms.lookup "required" = some (.array []) := by
  constructor
  · rintro ⟨hadd, names, hreq, hnames⟩
    obtain rfl : names = [] := by
      simp only [declared_eq_nil h, List.not_mem_nil, iff_false] at hnames
      exact List.eq_nil_iff_forall_not_mem.mpr hnames
    exact ⟨hadd, hreq⟩
  · rintro ⟨hadd, hreq⟩
    exact ⟨hadd, [], hreq, fun name => by rw [declared_eq_nil h]⟩

/-- **Which objects the rewrite closes.** -/
theorem closed_strictMembers {ms : Members}
    (h : ∀ ps, ms.lookup "properties" = some (.object ps) → MapToSchemas ps) :
    Closed (strictMembers ms) ↔ Closes ms := by
  have hdecl := declared_strictMembers h
  by_cases htype : ms.lookup "type" = some (.string "object")
  · have hadd := lookup_additional_strictMembers htype
    by_cases hps : ∃ ps, ms.lookup "properties" = some (.object ps)
    · refine iff_of_true ⟨hadd, ?_⟩ (.inr ⟨htype, .inl hps⟩)
      obtain ⟨ps, hps⟩ := hps
      exact ⟨keys ps, lookup_required_strictMembers htype hps,
        fun name => by rw [hdecl, declared_of_lookup hps]⟩
    · rw [not_exists] at hps
      have hps' : ∀ ps, (strictMembers ms).lookup "properties" ≠ some (.object ps) := by
        intro ps' hps'
        rw [lookup_strictMembers_of_ne (by decide) (by decide)] at hps'
        obtain ⟨v, hv, hvisit⟩ := Option.map_eq_some_iff.mp hps'
        obtain ⟨ps, rfl, -⟩ := visit_eq_object.mp hvisit
        exact hps ps hv
      have hreq : (strictMembers ms).lookup "required" = some (.array []) ↔
          ms.lookup "required" = some (.array []) := by
        rw [lookup_required_strictMembers_of_not hps]
        exact map_visit_eq_names []
      rw [closed_iff_of_not hps', hreq, Closes, closed_iff_of_not hps]
      constructor
      · rintro ⟨-, hreq⟩
        exact .inr ⟨htype, .inr hreq⟩
      · rintro (⟨-, hreq⟩ | ⟨-, ⟨ps, hsome⟩ | hreq⟩)
        · exact ⟨hadd, hreq⟩
        · exact absurd hsome (hps ps)
        · exact ⟨hadd, hreq⟩
  · have hadd : (strictMembers ms).lookup "additionalProperties" = some (.bool false) ↔
        ms.lookup "additionalProperties" = some (.bool false) := by
      rw [lookup_strictMembers_of_open htype, Option.map_eq_some_iff]
      simp only [visit_eq_bool, exists_eq_right]
    have hreq : ∀ names : List String,
        (strictMembers ms).lookup "required" = some (.array (names.map .string)) ↔
          ms.lookup "required" = some (.array (names.map .string)) := by
      intro names
      rw [lookup_strictMembers_of_open htype, map_visit_eq_names]
    constructor
    · rintro ⟨ha, names, hr, hnames⟩
      exact .inl ⟨hadd.mp ha, names, (hreq names).mp hr, hdecl ▸ hnames⟩
    · rintro (⟨ha, names, hr, hnames⟩ | ⟨ht, -⟩)
      · exact ⟨hadd.mpr ha, names, (hreq names).mpr hr, hdecl.symm ▸ hnames⟩
      · exact absurd ht htype

/-! ### Strict tools -/

/-- Every object schema at a position is closed. -/
def AllClosed (root : Value) : Prop :=
  ∀ ns, AtPosition root ns → ObjectSchema ns → Closed ns

/-- The parameters of a strict tool are rewritten. -/
theorem get_parameters_prepareTool {tool : Value} {parameters : Value}
    (hstrict : tool.get "strict" = some (.bool true))
    (hparameters : tool.get "parameters" = some parameters) :
    (prepareTool tool).get "parameters" = some (makeSchemaStrict parameters) := by
  rw [get_prepareTool hstrict, if_pos rfl, hparameters, Option.map_some]

/-- **When a strict tool is closed**: after preparation every object schema of the
parameters is closed exactly when each object schema among them was closed before, or has
the string `object` for its `type` and either has `properties` or requires nothing. -/
theorem strict_tool_closed_iff {tool parameters : Value}
    (hstrict : tool.get "strict" = some (.bool true))
    (hparameters : tool.get "parameters" = some parameters)
    (hschema : EntriesAreSchemas parameters) :
    (∃ prepared, (prepareTool tool).get "parameters" = some prepared ∧ AllClosed prepared) ↔
      ∀ ns, AtPosition parameters ns → ObjectSchema ns → Closes ns := by
  have hclosed : ∀ ns, AtPosition parameters ns →
      (Closed (strictMembers ns) ↔ Closes ns) := fun ns hns =>
    closed_strictMembers fun ps hps => hschema ns hns "properties" (by decide) ps hps
  rw [get_parameters_prepareTool hstrict hparameters]
  constructor
  · rintro ⟨prepared, hprepared, hall⟩ ns hns hobject
    obtain rfl := Option.some.inj hprepared
    refine (hclosed ns hns).mp (hall _ ?_ (objectSchema_strictMembers.mpr hobject))
    exact (atPosition_makeSchemaStrict hschema).mpr ⟨ns, hns, rfl⟩
  · intro hall
    refine ⟨_, rfl, fun ns' hns' hobject => ?_⟩
    obtain ⟨ns, hns, rfl⟩ := (atPosition_makeSchemaStrict hschema).mp hns'
    exact (hclosed ns hns).mpr (hall ns hns (objectSchema_strictMembers.mp hobject))

/-- A schema for a nullable object. -/
def nullableSchema : Members :=
  [("properties", .object [("a", .object [])]),
    ("type", .array [.string "object", .string "null"])]

/-- A strict tool with it for its parameters. -/
def nullableTool : Value :=
  .object [("parameters", .object nullableSchema), ("strict", .bool true)]

/-- Its positions: the object itself, and the schema of its one property. -/
theorem atPosition_nullableSchema {ns : Members}
    (h : AtPosition (.object nullableSchema) ns) : ns = nullableSchema ∨ ns = [] := by
  obtain ⟨ms, hroot, hreach⟩ := h
  obtain rfl := Value.object.inj hroot
  induction hreach with
  | refl => exact .inl rfl
  | tail _ hbelow ih =>
      rcases ih with rfl | rfl
      · rcases hbelow with ⟨hk, hps, hns⟩ | hns | ⟨hk, hvs, -⟩
        · simp only [mapKeywords, List.mem_cons, List.not_mem_nil, or_false] at hk
          rcases hk with rfl | rfl | rfl
          · simp only [nullableSchema, lookup_cons_eq, if_true, Option.some.injEq,
              Value.object.injEq] at hps
            subst hps
            rw [List.mem_singleton, Prod.mk.injEq, Value.object.injEq] at hns
            exact .inr hns.2
          · simp [nullableSchema, lookup_cons_eq] at hps
          · simp [nullableSchema, lookup_cons_eq] at hps
        · simp [nullableSchema, lookup_cons_eq] at hns
        · simp only [listKeywords, List.mem_cons, List.not_mem_nil, or_false] at hk
          rcases hk with rfl | rfl | rfl <;> simp [nullableSchema, lookup_cons_eq] at hvs
      · rcases hbelow with ⟨-, hps, -⟩ | hns | ⟨-, hvs, -⟩
        · cases hps
        · cases hns
        · cases hvs

/-- The maps to schemas of the nullable schema are such maps. -/
theorem entriesAreSchemas_nullableSchema : EntriesAreSchemas (.object nullableSchema) := by
  intro ms hms k hk ps hps m hm
  rcases atPosition_nullableSchema hms with rfl | rfl
  · simp only [mapKeywords, List.mem_cons, List.not_mem_nil, or_false] at hk
    rcases hk with rfl | rfl | rfl
    · simp only [nullableSchema, lookup_cons_eq, if_true, Option.some.injEq,
        Value.object.injEq] at hps
      subst hps
      exact .inl ⟨[], (List.mem_singleton.mp hm) ▸ rfl⟩
    · simp [nullableSchema, lookup_cons_eq] at hps
    · simp [nullableSchema, lookup_cons_eq] at hps
  · cases hps

/-- A nullable object is left open. -/
theorem not_strict_tool_closed :
    ¬ ∀ tool parameters : Value, tool.get "strict" = some (.bool true) →
      tool.get "parameters" = some parameters → EntriesAreSchemas parameters →
        ∃ prepared, (prepareTool tool).get "parameters" = some prepared ∧ AllClosed prepared := by
  intro h
  obtain ⟨prepared, hprepared, hall⟩ :=
    h nullableTool (.object nullableSchema) rfl rfl entriesAreSchemas_nullableSchema
  rw [get_parameters_prepareTool rfl rfl] at hprepared
  obtain rfl := Option.some.inj hprepared
  have hobject : ObjectSchema nullableSchema := .inr ⟨_, rfl, by simp⟩
  have hclosed := hall (strictMembers nullableSchema) ⟨_, makeSchemaStrict_object _, .refl⟩
    (objectSchema_strictMembers.mpr hobject)
  have hopen : (strictMembers nullableSchema).lookup "additionalProperties" = none := by
    rw [lookup_strictMembers_of_open (by simp [nullableSchema, lookup_cons_eq])]
    rfl
  rw [hclosed.additional] at hopen
  cases hopen

/-- The case of a nullable schema, which is not closed. -/
theorem strict_tool_closed_iff_nullable :
    (∃ prepared, (prepareTool nullableTool).get "parameters" = some prepared ∧
        AllClosed prepared) ↔
      ∀ ns, AtPosition (.object nullableSchema) ns → ObjectSchema ns → Closes ns :=
  strict_tool_closed_iff rfl rfl entriesAreSchemas_nullableSchema

/-! ### Narrowing -/

/-- Visiting a plain schema rewrites it. -/
theorem visit_plainSchema {s : Value} (h : PlainSchema s) :
    visit makeSchemaStrict s = makeSchemaStrict s := by
  cases h with
  | bool b => rw [visit_bool, makeSchemaStrict_bool]
  | object => rw [visit_object]

/-- Visiting leaves the value of `type` as it is. -/
theorem visit_type {t : Value}
    (h : (∃ name, t = .string name) ∨ ∃ names : List String, t = .array (names.map .string)) :
    visit makeSchemaStrict t = t := by
  rcases h with ⟨name, rfl⟩ | ⟨names, rfl⟩
  · exact visit_eq_string.mpr rfl
  · rw [visit_array, map_makeSchemaStrict_eq_strings.mpr rfl]

/-- **Requiring narrows**: names among the declared ones that a rewritten object requires or
replaces by all of these are still there. -/
theorem requiredAccepts_of_strictMembers {ms : Members} {names : List String} {v : Value}
    (hreq : ms.lookup "required" = some (.array (names.map .string)))
    (hnames : ∀ name ∈ names, name ∈ declared ms)
    (hv : ∀ w, (strictMembers ms).lookup "required" = some w → RequiredAccepts w v) :
    RequiredAccepts (.array (names.map .string)) v := by
  by_cases htype : ms.lookup "type" = some (.string "object")
  · by_cases hps : ∃ ps, ms.lookup "properties" = some (.object ps)
    · obtain ⟨ps, hps⟩ := hps
      have hall := requiredAccepts_names.mp (hv _ (lookup_required_strictMembers htype hps))
      refine requiredAccepts_names.mpr fun vm hvm name hname => ?_
      exact hall vm hvm name (declared_of_lookup hps ▸ hnames name hname)
    · rw [not_exists] at hps
      refine hv _ ?_
      rw [lookup_required_strictMembers_of_not hps, map_visit_eq_names, hreq]
  · refine hv _ ?_
    rw [lookup_strictMembers_of_open htype, map_visit_eq_names, hreq]

/-- **Closing narrows**: what is valid against the closed schema is valid against the
schema, for every schema built from the plain keywords. -/
theorem closing_narrows {s : Value} (hs : PlainSchema s) {v : Value}
    (hv : Valid (makeSchemaStrict s) v) : Valid s v := by
  induction hs generalizing v with
  | bool b => rwa [makeSchemaStrict_bool] at hv
  | @object ms keywords type properties entries required additional items anyOf anyOfElements
      allOf allOfElements ihEntries ihAdditional ihItems ihAnyOf ihAllOf =>
      have hmap : ∀ ps, ms.lookup "properties" = some (.object ps) → MapToSchemas ps :=
        fun ps hps m hm => (entries ps hps m hm).object_or_bool
      have hdecl := declared_strictMembers hmap
      -- a keyword that closing does not set holds its value visited
      have hlook : ∀ {k : String} {w : Value}, "additionalProperties" ≠ k → "required" ≠ k →
          ms.lookup k = some w →
          (strictMembers ms).lookup k = some (visit makeSchemaStrict w) := by
        intro k w ha hr hw
        rw [lookup_strictMembers_of_ne ha hr, hw, Option.map_some]
      rw [makeSchemaStrict_object, valid_object] at hv
      rw [valid_object]
      constructor
      case type =>
        intro t ht
        have haccepts := hv.type _ (hlook (by decide) (by decide) ht)
        rwa [visit_type (type t ht)] at haccepts
      case required =>
        intro v' hreq
        obtain ⟨names, rfl, hnames⟩ := required v' hreq
        exact requiredAccepts_of_strictMembers hreq hnames hv.required
      case properties =>
        intro ps hps m hm x hx
        have hstrict := hlook (by decide) (by decide) hps
        rw [visit_object, makeSchemaStrict_object, strictMembers_of_mapToSchemas (hmap ps hps)]
          at hstrict
        exact ihEntries ps hps m hm
          (hv.properties _ hstrict _ (List.mem_map.mpr ⟨m, hm, rfl⟩) x hx)
      case additional =>
        intro s hadd vm hvm m hm hundeclared
        by_cases htype : ms.lookup "type" = some (.string "object")
        · -- a closed object has no undeclared member
          have hfalse := hv.additional _ (lookup_additional_strictMembers htype) vm hvm m hm
            (hdecl ▸ hundeclared)
          rw [valid_bool] at hfalse
          cases hfalse
        · have hstrict : (strictMembers ms).lookup "additionalProperties" =
              some (makeSchemaStrict s) := by
            rw [lookup_strictMembers_of_open htype, hadd, Option.map_some,
              visit_plainSchema (additional s hadd)]
          exact ihAdditional s hadd (hv.additional _ hstrict vm hvm m hm (hdecl ▸ hundeclared))
      case items =>
        intro s hs vs hvs x hx
        have hstrict := hlook (by decide) (by decide) hs
        rw [visit_plainSchema (items s hs)] at hstrict
        exact ihItems s hs (hv.items _ hstrict vs hvs x hx)
      case anyOf =>
        intro ss hss
        obtain ⟨s', hs', hvalid⟩ := hv.anyOf _ (hlook (by decide) (by decide) hss)
        obtain ⟨s, hs, rfl⟩ := List.mem_map.mp hs'
        exact ⟨s, hs, ihAnyOf ss hss s hs hvalid⟩
      case allOf =>
        intro ss hss s hs
        exact ihAllOf ss hss s hs (hv.allOf _ (hlook (by decide) (by decide) hss) _
          (List.mem_map.mpr ⟨s, hs, rfl⟩))

/-- An object with a string property of the name `type`. -/
def taggedSchema : Value :=
  .object [("properties", .object [("type", .object [("type", .string "string")])]),
    ("type", .string "object")]

/-- The schema is of the plain keywords. -/
theorem plainSchema_taggedSchema : PlainSchema taggedSchema := by
  have htag : PlainSchema (.object [("type", .string "string")]) := by
    constructor <;> simp [lookup_cons_eq, keys, plainKeywords]
  constructor <;> simp [lookup_cons_eq, keys, plainKeywords, htag]

/-- The closed schema accepts an object with the tag. -/
theorem valid_makeSchemaStrict_taggedSchema :
    Valid (makeSchemaStrict taggedSchema) (.object [("type", .string "x")]) := by
  have hclosed : closeObject
      [("properties", .object [("type", .object [("type", .string "string")])]),
        ("type", .string "object")] =
      [("additionalProperties", .bool false),
        ("properties", .object [("type", .object [("type", .string "string")])]),
        ("required", .array [.string "type"]), ("type", .string "object")] := rfl
  have htag : strictMembers [("type", .string "string")] = [("type", .string "string")] := rfl
  have hmap : strictMembers [("type", .object [("type", .string "string")])] =
      [("type", .object [("type", .string "string")])] := by
    rw [strictMembers_of_mapToSchemas (by simp [MapToSchemas])]
    simp [mapValues, htag]
  have hstring : Valid (.object [("type", .string "string")]) (.string "x") := by
    rw [valid_object]
    constructor <;> simp [lookup_cons_eq, TypeAccepts, HasType]
  rw [taggedSchema, makeSchemaStrict_object, strictMembers, hclosed, valid_object]
  constructor <;>
    simp [lookup_cons_eq, mapValues, visit, hmap, makeSchemaStrict, TypeAccepts, HasType,
      RequiredAccepts, keys, declared, hstring]

/-- The schema that is not closed accepts that object too. -/
theorem closing_narrows_taggedSchema :
    Valid taggedSchema (.object [("type", .string "x")]) :=
  closing_narrows plainSchema_taggedSchema valid_makeSchemaStrict_taggedSchema

end LayerKit
