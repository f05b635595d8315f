import LayerKit.Listing

/-!
# The Store as Shelves of Objects

What the store is for, without its text, its JSON and its statements. A `Shelf` has at most
one `Item` at each key: an object, the project that created it, and the instants of its first
and its last put. An `Operation` carries an object and an instant; what it answers and what it
leaves is said by `Shelf.Step`, in one rule for each operation. The rule for lists does not
say how a list is found, only which objects are in it and in what order.

The table is a shelf when each kind is always written and read with one serializer that reads
what it wrote, and the clock is printed in the RFC 3339 text of `now`. Then no operation ever
fails to decode a row, and every run of the store is the run of the shelf, of which there is
only one (`Shelf.Run.unique`).

## Main results

* `Shelf.Step.unique`, `Shelf.Run.unique`: the shelf determines every answer.
* `Shelves.exec`: one operation of the store is a step of the shelf.
* `store_is_shelf`: every run of the store is the run of the shelf.
-/

open Loop Rfc3339 Sql

namespace LayerKit

variable {T : Type}

/-! ### Shelves -/

/-- An object, with the project that created it. -/
structure Item (T : Type) where
  project : Option String
  object : T
  created : Instant
  updated : Instant

/-- The items there are. -/
abbrev Shelf (T : Type) := Key → Option (Item T)

/-- What a layer asks of the store. -/
inductive Operation (T : Type)
  | put (now : Instant) (kind id : String) (object : T)
  | get (kind id : String)
  | list (kind : String) (n : Int64)
  | delete (kind id : String)

/-- What it is told. -/
inductive ShelfAnswer (T : Type)
  | stored (success : Bool)
  | found (object : Option T)
  | listed (objects : List T)
  | deleted (success : Bool)

/-- A handle may read the items of its own project, those of none, and all of them when it
has none. -/
def Store.mayRead (s : Store) (x : Item T) : Prop :=
  s.project = none ∨ x.project = none ∨ x.project = s.project

/-- Whether a scope may read an item is decided by comparing their projects. -/
instance (s : Store) (x : Item T) : Decidable (s.mayRead x) :=
  inferInstanceAs (Decidable (_ ∨ _ ∨ _))

/-- What a handle reads at an id. -/
def Shelf.read (S : Shelf T) (s : Store) (kind id : String) : Option (Item T) :=
  (S (s.key kind id)).filter fun x => decide (s.mayRead x)

/-- The item after a put: a new one, or the old one with a new object. -/
def Item.write (s : Store) (now : Instant) (object : T) : Option (Item T) → Item T
  | none => ⟨s.project, object, now, now⟩
  | some x => { x with object := object, updated := now }

/-- **One operation on a shelf**, where the objects of a kind that can be stored are given. -/
inductive Shelf.Step (storable : String → T → Prop) (S : Shelf T) (s : Store) :
    Operation T → ShelfAnswer T → Shelf T → Prop
  | put {now : Instant} {kind id : String} {object : T} (h : storable kind object) :
      Step storable S s (.put now kind id object) (.stored true)
        (Function.update S (s.key kind id)
          (some (Item.write s now object (S (s.key kind id)))))
  | refused {now : Instant} {kind id : String} {object : T} (h : ¬ storable kind object) :
      Step storable S s (.put now kind id object) (.stored false) S
  | get {kind id : String} :
      Step storable S s (.get kind id) (.found ((S.read s kind id).map Item.object)) S
  /-- All objects of the kind that the handle reads, the latest put first, up to the limit. -/
  | list {kind : String} {n : Int64} {entries : List (Listed T)}
      (hmem : ∀ x, x ∈ entries ↔ ∃ item, S.read s kind x.id = some item ∧
        item.object = x.object ∧ item.updated = x.updated)
      (hsorted : entries.Pairwise Listed.Before) :
      Step storable S s (.list kind n) (.listed (limit n (entries.map Listed.object))) S
  | delete {kind id : String} :
      Step storable S s (.delete kind id) (.deleted (S.read s kind id).isSome)
        (Function.update S (s.key kind id)
          ((S (s.key kind id)).filter fun x => decide (¬ s.mayRead x)))

/-- A run of operations through any handles. -/
inductive Shelf.Run (storable : String → T → Prop) :
    Shelf T → List (Store × Operation T) → List (ShelfAnswer T) → Shelf T → Prop
  | nil (S : Shelf T) : Run storable S [] [] S
  | cons {S S' S'' : Shelf T} {s : Store} {op : Operation T} {a : ShelfAnswer T}
      {ops : List (Store × Operation T)} {answers : List (ShelfAnswer T)}
      (h : Shelf.Step storable S s op a S') (hrest : Run storable S' ops answers S'') :
      Run storable S ((s, op) :: ops) (a :: answers) S''

/-! ### The shelf determines every answer -/

/-- Of two objects one is newer. -/
theorem Listed.Before.asymm {x y : Listed T} (h : x.Before y) : ¬ y.Before x := by
  rintro (hlt | ⟨heq, hid⟩)
  · rcases h with hlt' | ⟨heq', -⟩
    · exact lt_asymm hlt hlt'
    · exact (heq' ▸ hlt).false
  · rcases h with hlt' | ⟨-, hid'⟩
    · exact (heq ▸ hlt').false
    · exact lt_asymm (Text.utf8_lt_iff.mp hid) (Text.utf8_lt_iff.mp hid')

/-- Two sorted lists of the same entries are equal. -/
theorem eq_of_mem_iff_of_before {xs ys : List (Listed T)} (h : ∀ x, x ∈ xs ↔ x ∈ ys)
    (hxs : xs.Pairwise Listed.Before) (hys : ys.Pairwise Listed.Before) : xs = ys := by
  have hnodup : ∀ {l : List (Listed T)}, l.Pairwise Listed.Before → l.Nodup := by
    intro l hl
    refine hl.imp fun {a b} hab heq => ?_
    subst heq
    exact hab.asymm hab
  refine ((List.perm_ext_iff_of_nodup (hnodup hxs) (hnodup hys)).mpr h).eq_of_pairwise ?_ hxs hys
  exact fun a b _ _ hab hba => absurd hba hab.asymm

/-- **One operation has one answer** and leaves one shelf. -/
theorem Shelf.Step.unique {storable : String → T → Prop} {S S' S'' : Shelf T} {s : Store}
    {op : Operation T} {a a' : ShelfAnswer T} (h : Shelf.Step storable S s op a S')
    (h' : Shelf.Step storable S s op a' S'') : a = a' ∧ S' = S'' := by
  cases h with
  | put hstorable =>
      cases h' with
      | put => exact ⟨rfl, rfl⟩
      | refused hno => exact absurd hstorable hno
  | refused hno =>
      cases h' with
      | put hstorable => exact absurd hstorable hno
      | refused => exact ⟨rfl, rfl⟩
  | get =>
      cases h'
      exact ⟨rfl, rfl⟩
  | list hmem hsorted =>
      cases h' with
      | list hmem' hsorted' =>
          have hsame := eq_of_mem_iff_of_before (fun x => (hmem x).trans (hmem' x).symm) hsorted
            hsorted'
          rw [hsame]
          exact ⟨rfl, rfl⟩
  | delete =>
      cases h'
      exact ⟨rfl, rfl⟩

/-- **A list of operations has one run.** -/
theorem Shelf.Run.unique {storable : String → T → Prop} {S S' S'' : Shelf T}
    {ops : List (Store × Operation T)} {answers answers' : List (ShelfAnswer T)}
    (h : Shelf.Run storable S ops answers S') (h' : Shelf.Run storable S ops answers' S'') :
    answers = answers' ∧ S' = S'' := by
  induction h generalizing answers' S'' with
  | nil S =>
      cases h'
      exact ⟨rfl, rfl⟩
  | cons hstep hrest ih =>
      cases h' with
      | cons hstep' hrest' =>
          obtain ⟨rfl, rfl⟩ := hstep.unique hstep'
          obtain ⟨rfl, rfl⟩ := ih hrest'
          exact ⟨rfl, rfl⟩

/-! ### The table as a shelf -/

/-- The operation as the store is called for it: with the serializer of its kind, and the
text of the instant. -/
def Operation.call (J : String → Serde T) : Operation T → Call T
  | put now kind id object => .put (J kind) now.toRfc3339 kind id object
  | get kind id => .get (J kind) kind id
  | list kind n => .list (J kind) kind n
  | delete kind id => .delete kind id

/-- What the answer of the store says, unless it is that a row could not be decoded. -/
def Answer.read : Answer T → Option (ShelfAnswer T)
  | put (.ok _) => some (.stored true)
  | put (.error (.encode _)) => some (.stored false)
  | put (.error (.decode _)) => none
  | get (.ok object) => some (.found object)
  | get (.error _) => none
  | list (.ok objects) => some (.listed objects)
  | list (.error _) => none
  | delete (.ok success) => some (.deleted success)
  | delete (.error _) => none

/-- The serializer of the kind has a text for the object. -/
def HasText (J : String → Serde T) (kind : String) (object : T) : Prop :=
  ∃ text, (J kind).toString object = .ok text

/-- Every serializer reads what it wrote. -/
def ReadsBack (J : String → Serde T) : Prop :=
  ∀ kind object text, (J kind).toString object = .ok text → (J kind).fromStr text = .ok object

/-- A row shows an item. -/
def Row.Shows (J : String → Serde T) (r : Row) (x : Item T) : Prop :=
  r.project = x.project ∧ (J r.kind).fromStr r.payload = .ok x.object ∧
    r.createdAt = x.created.toRfc3339 ∧ r.updatedAt = x.updated.toRfc3339

/-- **The table shows the shelf**: at every key, a row where there is an item. -/
def Shelves (J : String → Serde T) (t : Objects) (S : Shelf T) : Prop :=
  ∀ k, Option.Rel (Row.Shows J) (t.lookup k) (S k)

/-- Related options are both nothing or both something. -/
theorem rel_cases {α β : Type*} {R : α → β → Prop} {a : Option α} {b : Option β}
    (h : Option.Rel R a b) :
    (a = none ∧ b = none) ∨ ∃ x y, a = some x ∧ b = some y ∧ R x y := by
  cases h with
  | none => exact .inl ⟨rfl, rfl⟩
  | some hR => exact .inr ⟨_, _, rfl, rfl, hR⟩

section Refinement

variable {J : String → Serde T} {t : Objects} {S : Shelf T} {s : Store}

/-- A handle sees the rows of its workspace whose items it may read. -/
theorem Row.Shows.sees {r : Row} {x : Item T} {kind id : String} (h : Row.Shows J r x)
    (hkey : r.key = s.key kind id) : s.sees r = decide (s.mayRead x) := by
  rw [Store.sees, decide_eq_decide, h.1, Store.mayRead]
  exact and_iff_right (Store.key_eq_iff.mp hkey).1

/-- **What a handle sees at an id** is what it reads there. -/
theorem Shelves.read (h : Shelves J t S) (s : Store) (kind id : String) :
    Option.Rel (Row.Shows J) (s.visible t kind id) (S.read s kind id) := by
  rw [Store.visible, Shelf.read]
  rcases rel_cases (h (s.key kind id)) with ⟨hlook, hitem⟩ | ⟨r, x, hlook, hitem, hshows⟩
  · rw [hlook, hitem]
    exact .none
  · have hsees := hshows.sees (Sql.Table.key_of_lookup hlook)
    rw [hlook, hitem, Option.filter_some, Option.filter_some, hsees]
    split
    · exact .some hshows
    · exact .none

/-- A put of an object writes its item. -/
theorem Shelves.put (hJ : ReadsBack J) (h : Shelves J t S) {now : Instant} {kind id text : String}
    {object : T} (htext : (J kind).toString object = .ok text) :
    Shelves J (putStatement kind id text now.toRfc3339 s.workspace s.project t)
      (Function.update S (s.key kind id) (some (Item.write s now object (S (s.key kind id))))) := by
  intro k
  rw [Store.lookup_putStatement]
  by_cases hk : k = s.key kind id
  · subst hk
    rw [if_pos rfl, Function.update_self]
    rcases rel_cases (h (s.key kind id)) with ⟨hlook, hitem⟩ | ⟨r, x, hlook, hitem, hshows⟩
    · rw [hlook, hitem]
      exact .some ⟨rfl, hJ _ _ _ htext, rfl, rfl⟩
    · have hkind := (Store.key_eq_iff.mp (Sql.Table.key_of_lookup hlook)).2.1
      rw [hlook, hitem]
      refine .some ⟨hshows.1, ?_, hshows.2.2.1, rfl⟩
      change (J r.kind).fromStr text = .ok object
      rw [hkind]
      exact hJ _ _ _ htext
  · rw [if_neg hk, Function.update_of_ne hk]
    exact h k

/-- A delete takes the item away that the handle may read. -/
theorem Shelves.delete (h : Shelves J t S) (kind id : String) :
    Shelves J (s.delete kind id t).1 (Function.update S (s.key kind id)
      ((S (s.key kind id)).filter fun x => decide (¬ s.mayRead x))) := by
  intro k
  rw [Store.lookup_delete]
  by_cases hk : k = s.key kind id
  · subst hk
    rw [if_pos rfl, Function.update_self]
    rcases rel_cases (h (s.key kind id)) with ⟨hlook, hitem⟩ | ⟨r, x, hlook, hitem, hshows⟩
    · rw [hlook, hitem]
      exact .none
    · have hsees := hshows.sees (Sql.Table.key_of_lookup hlook)
      rw [hlook, hitem, Option.filter_some, Option.filter_some, hsees, decide_not]
      split
      · exact .some hshows
      · exact .none
  · rw [if_neg hk, Function.update_of_ne hk]
    exact h k

/-- The rows that `list` selects hold objects. -/
theorem Shelves.holds (h : Shelves J t S) {kind : String} {r : Row}
    (hr : r ∈ s.sequence kind t) : ∃ x, Holds (J kind) r x := by
  obtain ⟨hmem, hkind, -⟩ := Store.mem_sequence.mp hr
  have hlook := Sql.Table.mem_rows_iff.mp hmem
  rcases rel_cases (h r.key) with ⟨hnone, -⟩ | ⟨r', x, hsome, -, hshows⟩
  · rw [hlook] at hnone
    cases hnone
  · obtain rfl := Option.some.inj (hlook.symm.trans hsome)
    exact ⟨⟨r.id, x.object, x.updated⟩, rfl, hkind ▸ hshows.2.1, hshows.2.2.2⟩

/-- The entries that the selected rows hold are those that the handle reads. -/
theorem Shelves.mem_entries (h : Shelves J t S) {kind : String} {entries : List (Listed T)}
    (hentries : List.Forall₂ (Holds (J kind)) (s.sequence kind t) entries) (x : Listed T) :
    x ∈ entries ↔ ∃ item, S.read s kind x.id = some item ∧ item.object = x.object ∧
      item.updated = x.updated := by
  rw [mem_of_holds hentries]
  rcases rel_cases (h.read s kind x.id) with
    ⟨hvisible, hread⟩ | ⟨r, item, hvisible, hread, -, hobject, -, hupdated⟩
  · refine iff_of_false ?_ ?_
    · rintro ⟨r, hr, hid, -⟩
      rw [Store.visible_eq_some.mpr ⟨hr, hid⟩] at hvisible
      cases hvisible
    · rintro ⟨item, hitem, -⟩
      rw [hread] at hitem
      cases hitem
  · obtain ⟨hr, hid⟩ := Store.visible_eq_some.mp hvisible
    rw [(Store.mem_sequence.mp hr).2.1] at hobject
    constructor
    · rintro ⟨r', hr', hid', hobject', hupdated'⟩
      rw [Store.visible_eq_some.mpr ⟨hr', hid'⟩] at hvisible
      obtain rfl := Option.some.inj hvisible
      rw [hobject'] at hobject
      exact ⟨item, hread, (Except.ok.inj hobject).symm,
        Instant.toRfc3339_inj.mp (hupdated.symm.trans hupdated')⟩
    · rintro ⟨item', hitem, hobject', hupdated'⟩
      obtain rfl := Option.some.inj (hread.symm.trans hitem)
      exact ⟨r, hr, hid, hobject' ▸ hobject, hupdated' ▸ hupdated⟩

/-- The list of the store, under any limit. -/
theorem list_of_entries {kind : String} {entries : List (Listed T)}
    (hentries : List.Forall₂ (Holds (J kind)) (s.sequence kind t) entries) (n : Int64) :
    s.list (J kind) kind n t = .ok (limit n (entries.map Listed.object)) := by
  have hdecode : List.Forall₂ (fun r object => Store.decode (J kind) r = .ok object)
      (s.sequence kind t) (entries.map Listed.object) := by
    refine List.forall₂_map_right_iff.mpr (hentries.imp fun r x hr => ?_)
    rw [Store.decode, hr.2.1]
    rfl
  have hlist : listStatement kind n s.workspace s.project t = limit n (s.sequence kind t) := rfl
  rw [Store.list, hlist, mapM_eq_ok, limit, limit]
  split
  · exact hdecode
  · exact List.forall₂_take _ hdecode

/-- **One operation of the store is a step of the shelf**: it does not fail to decode, it is
answered as the step is, and it leaves a table that shows the shelf after the step. -/
theorem Shelves.exec (hJ : ReadsBack J) (h : Shelves J t S) (s : Store) (op : Operation T) :
    ∃ a S', (s.exec t (op.call J)).2.read = some a ∧ Shelf.Step (HasText J) S s op a S' ∧
      Shelves J (s.exec t (op.call J)).1 S' := by
  cases op with
  | put now kind id object =>
      simp only [Operation.call, Store.exec]
      cases htext : (J kind).toString object with
      | error e =>
          rw [Store.put_error htext]
          refine ⟨_, _, rfl, .refused ?_, h⟩
          rintro ⟨text, hok⟩
          rw [htext] at hok
          cases hok
      | ok text =>
          rw [Store.put_ok htext]
          exact ⟨_, _, rfl, .put ⟨text, htext⟩, h.put hJ htext⟩
  | get kind id =>
      refine ⟨_, S, ?_, .get, h⟩
      simp only [Operation.call, Store.exec, Store.get_eq]
      rcases rel_cases (h.read s kind id) with
        ⟨hvisible, hread⟩ | ⟨r, x, hvisible, hread, -, hobject, -⟩
      · rw [hvisible, hread]
        rfl
      · rw [(Store.mem_sequence.mp (Store.visible_eq_some.mp hvisible).1).2.1] at hobject
        simp only [hvisible, hread, Store.decode, hobject]
        rfl
  | list kind n =>
      obtain ⟨entries, hentries⟩ := exists_forall₂ fun r hr => h.holds (s := s) (r := r) hr
      have hsorted : entries.Pairwise Listed.Before :=
        (pairwise_of_holds hentries).imp And.left
      refine ⟨_, S, ?_, .list (h.mem_entries hentries) hsorted, h⟩
      simp only [Operation.call, Store.exec, list_of_entries hentries]
      rfl
  | delete kind id =>
      refine ⟨_, _, ?_, .delete, h.delete kind id⟩
      simp only [Operation.call, Store.exec, Store.delete_snd]
      rcases rel_cases (h.read s kind id) with
        ⟨hvisible, hread⟩ | ⟨r, x, hvisible, hread, -⟩
      · rw [hvisible, hread]
        rfl
      · rw [hvisible, hread]
        rfl

end Refinement

/-- **The store is its shelf.** When each kind has one serializer, which reads back what it
wrote, and the clock is printed as `now` prints it, then every run of the store, through any
handles and from any table that shows a shelf, is answered as the run of the shelf is, never
with a failure to decode, and ends in a table that shows the shelf that the run leaves. There
is no other run of the shelf. -/
theorem store_is_shelf (J : String → Serde T) (hJ : ReadsBack J) (t : Objects) (S : Shelf T)
    (h : Shelves J t S) (ops : List (Store × Operation T)) :
    ∃ answers S',
      ((storeMachine T).run t (ops.map fun i => (i.1, i.2.call J))).2.map (fun x => x.2.read) =
          answers.map some ∧
        Shelf.Run (HasText J) S ops answers S' ∧
        Shelves J ((storeMachine T).run t (ops.map fun i => (i.1, i.2.call J))).1 S' ∧
        ∀ answers' S'', Shelf.Run (HasText J) S ops answers' S'' →
          answers' = answers ∧ S'' = S' := by
  suffices hrun : ∃ answers S',
      ((storeMachine T).run t (ops.map fun i => (i.1, i.2.call J))).2.map (fun x => x.2.read) =
          answers.map some ∧ Shelf.Run (HasText J) S ops answers S' ∧
        Shelves J ((storeMachine T).run t (ops.map fun i => (i.1, i.2.call J))).1 S' by
    obtain ⟨answers, S', hanswers, hshelf, htable⟩ := hrun
    exact ⟨answers, S', hanswers, hshelf, htable, fun _ _ h' => h'.unique hshelf⟩
  induction ops generalizing t S with
  | nil => exact ⟨[], S, rfl, .nil S, h⟩
  | cons i ops ih =>
      obtain ⟨s, op⟩ := i
      obtain ⟨a, S₁, ha, hstep, htable⟩ := h.exec hJ s op
      obtain ⟨answers, S', hanswers, hshelf, hlast⟩ := ih _ _ htable
      refine ⟨a :: answers, S', ?_, .cons hstep hshelf, hlast⟩
      rw [List.map_cons, Mealy.run_cons, List.map_cons, List.map_cons]
      exact congrArg₂ List.cons ha hanswers

/-- The JSON of booleans reads back. -/
theorem readsBack_bool : ReadsBack fun _ => Serde.bool := by
  intro kind object text htext
  cases object with
  | false =>
      cases htext
      rfl
  | true =>
      cases htext
      rfl

/-- A put and a list, by two projects. -/
def putThenList : List (Store × Operation Bool) :=
  [(⟨"w", none⟩, .put (Instant.leapDay 11 12 (by omega) (by omega)) "item" "x" true),
    (⟨"w", some "p"⟩, .list "item" 1)]

/-- The run that puts an item and lists it. -/
theorem store_is_shelf_putThenList :
    ∃ answers S',
      ((storeMachine Bool).run Table.empty
          (putThenList.map fun i => (i.1, i.2.call fun _ => Serde.bool))).2.map
            (fun x => x.2.read) = answers.map some ∧
        Shelf.Run (HasText fun _ => Serde.bool) (fun _ => none) putThenList answers S' ∧
        Shelves (fun _ => Serde.bool) ((storeMachine Bool).run Table.empty
          (putThenList.map fun i => (i.1, i.2.call fun _ => Serde.bool))).1 S' ∧
        ∀ answers' S'', Shelf.Run (HasText fun _ => Serde.bool) (fun _ => none) putThenList
          answers' S'' → answers' = answers ∧ S'' = S' :=
  store_is_shelf (fun _ => Serde.bool) readsBack_bool Table.empty (fun _ => none)
    (fun _ => .none) putThenList

end LayerKit
