import LayerKit.Collect
import LayerKit.Serve
import Mathlib.Data.Finset.Basic

/-!
# The Catalogue Check

`assert_catalogue_matches` of `test_support.rs`, by which a layer's tests compare its catalogue
with the methods it declares. The server translates a tool's name by `dispatch_method`, which
strips the tool's own prefix; the check translates it by turning its first underscore into a
dot. Both take `torii_parse` to `torii.parse`.

They differ on two kinds of names. In the names of a tool that has an underscore itself the
first one is not the separator, and a name that already has a dot has no separator to turn, so
that the check turns an underscore of the method (`Plain`).

## Main results

* `assertCatalogueMatches_eq_ok`: what the check compares.
* `catalogue_check_iff`: when the check agrees with the dispatcher.
-/

open Json Loop Text

namespace LayerKit

/-- Why the assertion panics. The methods of a panic are printed in no fixed order. -/
inductive CatalogueMismatch
  /-- `tool catalogue must not be empty` -/
  | empty
  /-- `catalogue tool must have a string name` -/
  | unnamed
  /-- `methods missing from catalogue: ` and the methods -/
  | missing (methods : Finset String)
  /-- `catalogue methods missing from METHODS: ` and the methods -/
  | extra (methods : Finset String)

/-- The method of a tool's name, by its first underscore. -/
def catalogueMethod (name : String) : String :=
  replaceFirst name '_' '.'

/-- The method of one entry. -/
def entryMethod (tool : Value) : Except CatalogueMismatch String :=
  match (tool.index "name").asStr with
  | none => .error .unnamed
  | some name => .ok (catalogueMethod name)

/-- Assert that a catalogue is not empty and exactly covers `methods`. -/
def assertCatalogueMatches (catalogue : List Value) (methods : List String) :
    Except CatalogueMismatch Unit :=
  if catalogue.isEmpty then
    .error .empty
  else do
    let catalogueMethods := (← catalogue.mapM entryMethod).toFinset
    let methods := methods.toFinset
    let missing := methods.filter fun method => method ∉ catalogueMethods
    let extra := catalogueMethods.filter fun method => method ∉ methods
    if missing ≠ ∅ then
      .error (.missing missing)
    else if extra ≠ ∅ then
      .error (.extra extra)
    else
      .ok ()

/-- The entries of a catalogue have these names. -/
def EntryNames (catalogue : List Value) (names : List String) : Prop :=
  List.Forall₂ (fun tool name => tool.index "name" = .string name) catalogue names

/-- The methods are exactly the translations of the names. -/
def Covers (translate : String → String) (names methods : List String) : Prop :=
  ∀ method, method ∈ methods ↔ ∃ name ∈ names, translate name = method

/-- **The check** compares the methods with the names, translated by their first underscore. -/
theorem assertCatalogueMatches_eq_ok {catalogue : List Value} {names methods : List String}
    (hne : catalogue ≠ []) (hnames : EntryNames catalogue names) :
    assertCatalogueMatches catalogue methods = .ok () ↔
      Covers catalogueMethod names methods := by
  have hentries : catalogue.mapM entryMethod = .ok (names.map catalogueMethod) := by
    rw [mapM_eq_ok, List.forall₂_map_right_iff]
    refine hnames.imp fun tool name hname => ?_
    rw [entryMethod, hname]
    rfl
  rw [assertCatalogueMatches, if_neg (by simpa using hne), hentries, ok_bind]
  have hmissing : methods.toFinset.filter (· ∉ (names.map catalogueMethod).toFinset) = ∅ ↔
      ∀ method ∈ methods, ∃ name ∈ names, catalogueMethod name = method := by
    simp [Finset.filter_eq_empty_iff]
  have hextra : (names.map catalogueMethod).toFinset.filter (· ∉ methods.toFinset) = ∅ ↔
      ∀ method, (∃ name ∈ names, catalogueMethod name = method) → method ∈ methods := by
    simp [Finset.filter_eq_empty_iff]
  have hcovers : Covers catalogueMethod names methods ↔
      (∀ method ∈ methods, ∃ name ∈ names, catalogueMethod name = method) ∧
        ∀ method, (∃ name ∈ names, catalogueMethod name = method) → method ∈ methods := by
    simp only [Covers, iff_def, forall_and]
  rw [hcovers, ← hmissing, ← hextra]
  dsimp only
  split
  · next h => exact iff_of_false nofun fun hboth => h hboth.1
  · next h =>
      rw [not_not] at h
      split
      · next h' => exact iff_of_false nofun fun hboth => h' hboth.2
      · next h' =>
          rw [not_not] at h'
          exact iff_of_true rfl ⟨h, h'⟩

/-- Two translations are covered alike exactly when they give the same methods. -/
theorem covers_iff_covers {f g : String → String} {names : List String} :
    (∀ methods, Covers f names methods ↔ Covers g names methods) ↔
      ∀ method, (∃ name ∈ names, f name = method) ↔ ∃ name ∈ names, g name = method := by
  constructor
  · intro h method
    have hf : Covers f names (names.map f) := fun method => List.mem_map
    rw [← (h _).mp hf method, hf method]
  · intro h methods
    simp only [Covers, h]

/-! ### The two translations -/

section Translations

variable {t : String}

/-- The dispatcher puts a dot for the underscore after the tool's name. -/
theorem dispatchMethod_underscore (t rest : String) :
    dispatchMethod t (t ++ "_" ++ rest) = t ++ "." ++ rest := by
  rw [dispatchMethod, stripPrefix_eq_some.mpr rfl]

/-- A name with a dot passes the dispatcher unchanged. -/
theorem dispatchMethod_dot (t rest : String) :
    dispatchMethod t (t ++ "." ++ rest) = t ++ "." ++ rest := by
  have hnone : stripPrefix (t ++ "." ++ rest) (t ++ "_") = none := by
    rw [Option.eq_none_iff_forall_ne_some]
    intro r hr
    have hr := stripPrefix_eq_some.mp hr
    rw [String.append_assoc, String.append_assoc, String.append_right_inj, ← String.toList_inj,
      String.toList_append, String.toList_append] at hr
    exact absurd (List.cons.inj hr).1 (by decide)
  rw [dispatchMethod, hnone]

/-- The check puts a dot for the underscore, for a tool without an underscore. -/
theorem catalogueMethod_underscore (ht : '_' ∉ t.toList) (rest : String) :
    catalogueMethod (t ++ "_" ++ rest) = t ++ "." ++ rest := by
  rw [catalogueMethod, String.append_assoc, replaceFirst_append_of_notMem ht,
    replaceFirst_append_of_mem (by decide), String.append_assoc]
  rfl

/-- In a name with a dot the check turns an underscore of the method. -/
theorem catalogueMethod_dot (ht : '_' ∉ t.toList) (rest : String) :
    catalogueMethod (t ++ "." ++ rest) = t ++ "." ++ catalogueMethod rest := by
  rw [catalogueMethod, String.append_assoc, replaceFirst_append_of_notMem ht,
    replaceFirst_append_of_notMem (by decide), catalogueMethod, String.append_assoc]

/-- A tool with an underscore is never reached by the check's translation. -/
theorem catalogueMethod_ne (ht : '_' ∈ t.toList) (x y : String) :
    catalogueMethod (t ++ x) ≠ t ++ y := by
  rw [catalogueMethod, replaceFirst_append_of_mem ht]
  intro h
  rw [← String.toList_inj, String.toList_append, String.toList_append] at h
  have hlen : (replaceFirst t '_' '.').toList.length = t.toList.length := by
    rw [toList_replaceFirst, List.length_replace]
  have hfirst := (List.append_inj h hlen).1
  exact replaceFirst_ne ht (by decide) (String.toList_inj.mp hfirst)

end Translations

/-! ### Agreement -/

/-- The names of a tool's catalogue. -/
def OfTool (t : String) (names : List String) : Prop :=
  ∀ name ∈ names, ∃ rest, name = t ++ "_" ++ rest ∨ name = t ++ "." ++ rest

/-- **The plain catalogues.** The tool has no underscore. Where what follows the dot of a name
has one, the name has two translations, its own and the check's, and each of them is also that
of another name. -/
structure Plain (t : String) (names : List String) : Prop where
  tool : '_' ∉ t.toList
  dispatched : ∀ rest, '_' ∈ rest.toList → t ++ "." ++ rest ∈ names →
    t ++ "_" ++ rest ∈ names ∨
      ∃ other, t ++ "." ++ other ∈ names ∧ '_' ∈ other.toList ∧ replaceFirst other '_' '.' = rest
  checked : ∀ rest, '_' ∈ rest.toList → t ++ "." ++ rest ∈ names →
    t ++ "_" ++ replaceFirst rest '_' '.' ∈ names ∨ t ++ "." ++ replaceFirst rest '_' '.' ∈ names

section Agreement

variable {t : String} {names : List String}

/-- What the dispatcher makes of the names. -/
theorem exists_dispatchMethod_eq_iff (h : OfTool t names) {method : String} :
    (∃ name ∈ names, dispatchMethod t name = method) ↔ ∃ rest, t ++ "." ++ rest = method ∧
      (t ++ "_" ++ rest ∈ names ∨ t ++ "." ++ rest ∈ names) := by
  constructor
  · rintro ⟨name, hname, rfl⟩
    obtain ⟨rest, rfl | rfl⟩ := h name hname
    · exact ⟨rest, (dispatchMethod_underscore t rest).symm, .inl hname⟩
    · exact ⟨rest, (dispatchMethod_dot t rest).symm, .inr hname⟩
  · rintro ⟨rest, rfl, hname | hname⟩
    · exact ⟨_, hname, dispatchMethod_underscore t rest⟩
    · exact ⟨_, hname, dispatchMethod_dot t rest⟩

/-- The check makes none of these of any name, for a tool with an underscore. -/
theorem catalogueMethod_ne_dispatchMethod (ht : '_' ∈ t.toList) (h : OfTool t names)
    {name other : String} (hname : name ∈ names) (hother : other ∈ names) :
    catalogueMethod other ≠ dispatchMethod t name := by
  obtain ⟨rest, hrest, -⟩ := (exists_dispatchMethod_eq_iff h).mp ⟨name, hname, rfl⟩
  rw [← hrest, String.append_assoc]
  obtain ⟨x, rfl | rfl⟩ := h other hother
  · rw [String.append_assoc]
    exact catalogueMethod_ne ht _ _
  · rw [String.append_assoc]
    exact catalogueMethod_ne ht _ _

/-- What the check makes of them, for a tool without an underscore. -/
theorem exists_catalogueMethod_eq_iff (ht : '_' ∉ t.toList) (h : OfTool t names)
    {method : String} :
    (∃ name ∈ names, catalogueMethod name = method) ↔ ∃ rest, t ++ "." ++ rest = method ∧
      (t ++ "_" ++ rest ∈ names ∨
        ∃ other, t ++ "." ++ other ∈ names ∧ replaceFirst other '_' '.' = rest) := by
  constructor
  · rintro ⟨name, hname, rfl⟩
    obtain ⟨rest, rfl | rfl⟩ := h name hname
    · exact ⟨rest, (catalogueMethod_underscore ht rest).symm, .inl hname⟩
    · exact ⟨_, (catalogueMethod_dot ht rest).symm, .inr ⟨rest, hname, rfl⟩⟩
  · rintro ⟨rest, rfl, hname | ⟨other, hname, rfl⟩⟩
    · exact ⟨_, hname, catalogueMethod_underscore ht rest⟩
    · exact ⟨_, hname, catalogueMethod_dot ht other⟩

/-- An underscore of the translation is one of the method. -/
theorem mem_of_replaceFirst_eq {rest other : String} (hrest : '_' ∈ rest.toList)
    (h : replaceFirst other '_' '.' = rest) : '_' ∈ other.toList := by
  by_contra hno
  rw [replaceFirst_of_notMem hno] at h
  exact hno (h ▸ hrest)

/-- **One translation**: the check and the dispatcher make the same methods of the names exactly
on the plain catalogues. -/
theorem plain_iff (ht : '_' ∉ t.toList) (h : OfTool t names) :
    (∀ method, (∃ name ∈ names, catalogueMethod name = method) ↔
        ∃ name ∈ names, dispatchMethod t name = method) ↔ Plain t names := by
  simp only [exists_catalogueMethod_eq_iff ht h, exists_dispatchMethod_eq_iff h]
  constructor
  · intro hsame
    -- the methods of this tool are told apart by what follows its dot
    have hrest : ∀ rest, (t ++ "_" ++ rest ∈ names ∨
        ∃ other, t ++ "." ++ other ∈ names ∧ replaceFirst other '_' '.' = rest) ↔
          t ++ "_" ++ rest ∈ names ∨ t ++ "." ++ rest ∈ names := fun rest => by
      simpa only [String.append_right_inj, exists_eq_left] using hsame (t ++ "." ++ rest)
    refine ⟨ht, fun rest hmem hname => ?_, fun rest _ hname => ?_⟩
    · rcases (hrest rest).mpr (.inr hname) with hunder | ⟨other, hother, heq⟩
      · exact .inl hunder
      · exact .inr ⟨other, hother, mem_of_replaceFirst_eq hmem heq, heq⟩
    · exact (hrest _).mp (.inr ⟨rest, hname, rfl⟩)
  · rintro ⟨-, hdispatched, hchecked⟩ method
    refine exists_congr fun rest => and_congr_right fun _ => ?_
    constructor
    · rintro (hunder | ⟨other, hother, rfl⟩)
      · exact .inl hunder
      · by_cases hmem : '_' ∈ other.toList
        · exact hchecked other hmem hother
        · rw [replaceFirst_of_notMem hmem]
          exact .inr hother
    · rintro (hunder | hname)
      · exact .inl hunder
      · by_cases hmem : '_' ∈ rest.toList
        · rcases hdispatched rest hmem hname with hunder | ⟨other, hother, -, heq⟩
          · exact .inl hunder
          · exact .inr ⟨other, hother, heq⟩
        · exact .inr ⟨rest, hname, replaceFirst_of_notMem hmem⟩

end Agreement

/-- **The check agrees with the dispatcher** for every list of declared methods exactly on the
plain catalogues; on any other one the two disagree for some list. -/
theorem catalogue_check_iff (t : String) (catalogue : List Value) (names : List String)
    (hne : catalogue ≠ []) (hnames : EntryNames catalogue names) (h : OfTool t names) :
    (∀ methods, assertCatalogueMatches catalogue methods = .ok () ↔
        Covers (dispatchMethod t) names methods) ↔ Plain t names := by
  simp only [assertCatalogueMatches_eq_ok hne hnames]
  rw [covers_iff_covers]
  by_cases ht : '_' ∈ t.toList
  · refine iff_of_false (fun hsame => ?_) fun hplain => hplain.tool ht
    obtain ⟨name, hname⟩ : ∃ name, name ∈ names := by
      refine List.exists_mem_of_ne_nil _ fun hnil => hne ?_
      rw [hnil] at hnames
      exact List.forall₂_nil_right_iff.mp hnames
    obtain ⟨other, hother, heq⟩ := (hsame _).mpr ⟨name, hname, rfl⟩
    exact catalogueMethod_ne_dispatchMethod ht h hname hother heq
  · exact plain_iff ht h

/-- A catalogue with one tool. -/
def oneTool (name : String) : List Value :=
  [.object [("name", .string name)]]

/-- The case of one tool with an underscored name. -/
theorem catalogue_check_iff_torii :
    (∀ methods, assertCatalogueMatches (oneTool "torii_parse") methods = .ok () ↔
        Covers (dispatchMethod "torii") ["torii_parse"] methods) ↔ Plain "torii" ["torii_parse"] :=
  catalogue_check_iff "torii" (oneTool "torii_parse") ["torii_parse"] (List.cons_ne_nil _ _)
    (.cons rfl .nil) (by
      intro name hname
      rw [List.mem_singleton.mp hname]
      exact ⟨"parse", .inl rfl⟩)

/-- **The check does not always agree with the dispatcher**: it fails a layer whose one method
has a name with a dot and an underscore, which the dispatcher reaches. -/
theorem not_catalogue_check :
    ¬ ∀ (t : String) (catalogue : List Value) (names methods : List String), catalogue ≠ [] →
      EntryNames catalogue names → OfTool t names →
      (assertCatalogueMatches catalogue methods = .ok () ↔
        Covers (dispatchMethod t) names methods) := by
  intro h
  have hnames : EntryNames (oneTool "torii.ingest_raw") ["torii.ingest_raw"] := .cons rfl .nil
  have htool : OfTool "torii" ["torii.ingest_raw"] := by
    intro name hname
    rw [List.mem_singleton.mp hname]
    exact ⟨"ingest_raw", .inr rfl⟩
  have hcovers : Covers (dispatchMethod "torii") ["torii.ingest_raw"] ["torii.ingest_raw"] := by
    have hdispatch : dispatchMethod "torii" "torii.ingest_raw" = "torii.ingest_raw" := by
      decide
    intro method
    simp [hdispatch, eq_comm]
  have hpasses := (h _ _ _ _ (List.cons_ne_nil _ _) hnames htool).mpr hcovers
  rw [assertCatalogueMatches_eq_ok (List.cons_ne_nil _ _) hnames] at hpasses
  obtain ⟨name, hname, heq⟩ := (hpasses _).mp (List.mem_singleton_self _)
  rw [List.mem_singleton.mp hname] at heq
  revert heq
  decide

end LayerKit
