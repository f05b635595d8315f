import LayerKit.Collect
import LayerKit.History
import LayerKit.Text
import LayerKit.Timestamp

/-!
# The Order of a List

`list` orders by the text of the update time and then by id. With a clock whose readings are
printed instants, that is the order of the instants themselves (`toRfc3339_lt_iff`), so the
answers of `list` are prefixes of one sequence: the objects of the kind that the scope sees,
each once, the latest put first. What the scope sees is read off the history: the object was
created, after the last delete that answered true, by a handle that the scope reaches
(`Sees`). The same ids are those that `get` finds and that `delete` would remove.

## Main results

* `sees_iff`: what a scope sees by the history is what its query selects from the table.
* `list_newest_first`: the answers of `list`, under any limit that is not negative, and their
  agreement with `get` and `delete`.
-/

open Loop Rfc3339 Text

namespace LayerKit

variable {T : Type}

/-! ### What a scope sees -/

/-- An object with its id and the instant of its last put. -/
structure Listed (T : Type) where
  id : String
  object : T
  updated : Instant

/-- The latest put first, and of one instant the greater id in the order of bytes. -/
def Listed.Before (x y : Listed T) : Prop :=
  y.updated < x.updated ∨ (x.updated = y.updated ∧ utf8 y.id < utf8 x.id)

/-- **The objects that a scope sees**, by the history: the first put since the last delete
that answered true is of a handle that the scope reaches, and the last one left the object,
at its instant. -/
def Sees (ops : List (Store × Call T)) (s : Store) (J : Serde T) (kind : String)
    (x : Listed T) : Prop :=
  ∃ first last, (since (s.key kind x.id) (transcript ops)).head? = some first ∧
    (since (s.key kind x.id) (transcript ops)).getLast? = some last ∧
    s.reaches first.store ∧ J.fromStr last.payload = .ok x.object ∧
    last.now = x.updated.toRfc3339

/-- A row holds the object. -/
def Holds (J : Serde T) (r : Row) (x : Listed T) : Prop :=
  r.id = x.id ∧ J.fromStr r.payload = .ok x.object ∧ r.updatedAt = x.updated.toRfc3339

/-- **What a scope sees is in the table**, in a row of the kind that its filter keeps. -/
theorem sees_iff {ops : List (Store × Call T)} {s : Store} {J : Serde T} {kind : String}
    {x : Listed T} :
    Sees ops s J kind x ↔
      ∃ r ∈ (tableAfter ops).rows, r.kind = kind ∧ s.sees r = true ∧ Holds J r x := by
  constructor
  · rintro ⟨first, last, hfirst, hlast, hreach, hobject, hnow⟩
    have hsince : since (s.key kind x.id) (transcript ops) ≠ [] := by
      rintro h
      rw [h] at hfirst
      cases hfirst
    obtain ⟨r, hr, hkey⟩ := (exists_row_iff ops _).mpr hsince
    obtain ⟨first', last', hfirst', hlast', hproject, -, hpayload, hupdated⟩ := row_eq hr
    rw [hkey, hfirst] at hfirst'
    rw [hkey, hlast] at hlast'
    cases hfirst'
    cases hlast'
    obtain ⟨hworkspace, hkind, hid⟩ := Store.key_eq_iff.mp hkey
    refine ⟨r, hr, hkind, ?_, hid, by rw [hpayload, hobject], by rw [hupdated, hnow]⟩
    rw [Store.sees, decide_eq_true_eq, hproject]
    exact ⟨hworkspace, hreach⟩
  · rintro ⟨r, hr, hkind, hsees, hid, hobject, hupdated⟩
    obtain ⟨first, last, hfirst, hlast, hproject, -, hpayload, hnow⟩ := row_eq hr
    have hkey : r.key = s.key kind x.id :=
      Store.key_eq_iff.mpr ⟨Store.workspace_of_sees hsees, hkind, hid⟩
    rw [Store.sees, decide_eq_true_eq, hproject] at hsees
    rw [hkey] at hfirst hlast
    exact ⟨first, last, hfirst, hlast, hsees.2, by rw [← hpayload, hobject],
      by rw [← hnow, hupdated]⟩

/-! ### The sequence of the rows -/

/-- All rows of the kind that the scope sees, in the order of `list`. -/
def Store.sequence (s : Store) (kind : String) (t : Objects) : List Row :=
  (t.select (listWhere kind s.workspace s.project)).insertionSort newestFirst

/-- The sequence holds the rows of the kind that the scope sees. -/
theorem Store.mem_sequence {s : Store} {kind : String} {t : Objects} {r : Row} :
    r ∈ s.sequence kind t ↔ r ∈ t.rows ∧ r.kind = kind ∧ s.sees r = true := by
  rw [sequence, List.mem_insertionSort, Sql.Table.select, List.mem_filter, listWhere_eq,
    Bool.and_eq_true, decide_eq_true_eq]

/-- Of two rows one is sorted before the other. -/
instance : Std.Total newestFirst where
  total a b := by
    rcases lt_trichotomy a.updatedAt b.updatedAt with hlt | heq | hgt
    · exact .inr (.inl hlt)
    · rcases le_total a.id b.id with hid | hid
      · exact .inr (.inr ⟨heq.symm, hid⟩)
      · exact .inl (.inr ⟨heq, hid⟩)
    · exact .inl (.inl hgt)

/-- The sort order is transitive. -/
instance : IsTrans Row newestFirst where
  trans a b c hab hbc := by
    rcases hab with hab | ⟨hab, hid⟩
    · rcases hbc with hbc | ⟨hbc, -⟩
      · exact .inl (hbc.trans hab)
      · exact .inl (hbc ▸ hab)
    · rcases hbc with hbc | ⟨hbc, hid'⟩
      · exact .inl (hab ▸ hbc)
      · exact .inr ⟨hab.trans hbc, hid'.trans hid⟩

/-- Two rows of the sequence are not of one id. -/
theorem Store.sequence_pairwise (s : Store) (kind : String) (t : Objects) :
    (s.sequence kind t).Pairwise fun a b => newestFirst a b ∧ a.id ≠ b.id := by
  have hnodup : ((s.sequence kind t).map Row.key).Nodup := by
    refine ((List.perm_insertionSort newestFirst _).map Row.key).nodup_iff.mpr ?_
    exact t.nodup.sublist (List.filter_sublist.map Row.key)
  have hsorted : (s.sequence kind t).Pairwise newestFirst :=
    List.pairwise_insertionSort newestFirst _
  refine (hsorted.and (List.pairwise_map.mp hnodup)).imp_of_mem fun {a b} ha hb hab => ?_
  refine ⟨hab.1, fun hid => hab.2 ?_⟩
  obtain ⟨-, hkind, hsees⟩ := Store.mem_sequence.mp ha
  obtain ⟨-, hkind', hsees'⟩ := Store.mem_sequence.mp hb
  rw [Store.key_eq_iff.mpr ⟨Store.workspace_of_sees hsees, hkind, hid⟩,
    Store.key_eq_iff.mpr ⟨Store.workspace_of_sees hsees', hkind', rfl⟩]

/-- A limit that is not negative cuts the sequence. -/
theorem Store.listStatement_eq_take (s : Store) (kind : String) {n : Int64} (hn : 0 ≤ n.toInt)
    (t : Objects) :
    listStatement kind n s.workspace s.project t = (s.sequence kind t).take n.toInt.toNat := by
  have hpos : ¬ n < 0 := by
    rw [Int64.lt_iff_toInt_lt, Int64.toInt_zero]
    omega
  rw [listStatement, Sql.limit, if_neg hpos]
  rfl

/-! ### The list -/

/-- Rows in the order of `list` hold objects in the order of their instants. -/
theorem before_of_newestFirst {J : Serde T} {r r' : Row} {x x' : Listed T} (hr : Holds J r x)
    (hr' : Holds J r' x') (h : newestFirst r r' ∧ r.id ≠ r'.id) : x.Before x' := by
  obtain ⟨hid, -, hupdated⟩ := hr
  obtain ⟨hid', -, hupdated'⟩ := hr'
  rw [newestFirst, hid, hid', hupdated, hupdated', Instant.toRfc3339_lt_iff,
    Instant.toRfc3339_inj] at h
  obtain ⟨hlater | ⟨heq, hle⟩, hne⟩ := h
  · exact .inl hlater
  · exact .inr ⟨heq, utf8_lt_iff.mpr (lt_of_le_of_ne hle (Ne.symm hne))⟩

/-- A row holds one object at most. -/
theorem Holds.unique {J : Serde T} {r : Row} {x y : Listed T} (hx : Holds J r x)
    (hy : Holds J r y) : x = y := by
  obtain ⟨id, object, updated⟩ := x
  obtain ⟨id', object', updated'⟩ := y
  obtain ⟨hid, hobject, hupdated⟩ := hx
  obtain ⟨hid', hobject', hupdated'⟩ := hy
  dsimp only at *
  rw [hid] at hid'
  rw [hobject] at hobject'
  rw [hupdated, Instant.toRfc3339_inj] at hupdated'
  cases hid'
  cases hobject'
  rw [hupdated']

/-- The visible row at a key is the one of its id in the sequence. -/
theorem Store.visible_eq_some {s : Store} {kind id : String} {t : Objects} {r : Row} :
    s.visible t kind id = some r ↔ r ∈ s.sequence kind t ∧ r.id = id := by
  rw [visible, Option.filter_eq_some_iff, Sql.Table.lookup_eq_some_iff, mem_sequence]
  constructor
  · rintro ⟨⟨hr, hkey⟩, hsees⟩
    obtain ⟨-, hkind, hid⟩ := key_eq_iff.mp hkey
    exact ⟨⟨hr, hkind, hsees⟩, hid⟩
  · rintro ⟨⟨hr, hkind, hsees⟩, hid⟩
    exact ⟨⟨hr, key_eq_iff.mpr ⟨workspace_of_sees hsees, hkind, hid⟩⟩, hsees⟩

/-! The objects that the rows of the sequence hold, row by row. -/

section Sequence

variable {s : Store} {J : Serde T} {kind : String} {t : Objects} {sequence : List (Listed T)}

/-- The listed objects are those of the rows. -/
theorem mem_of_holds (h : List.Forall₂ (Holds J) (s.sequence kind t) sequence) {x : Listed T} :
    x ∈ sequence ↔ ∃ r ∈ s.sequence kind t, Holds J r x := by
  constructor
  · exact fun hx => exists_of_forall₂ h.flip hx
  · rintro ⟨r, hr, hx⟩
    obtain ⟨y, hy, hry⟩ := exists_of_forall₂ h hr
    rw [hx.unique hry]
    exact hy

/-- `list` returns the first objects of the sequence. -/
theorem list_of_holds (h : List.Forall₂ (Holds J) (s.sequence kind t) sequence) {n : Int64}
    (hn : 0 ≤ n.toInt) :
    s.list J kind n t = .ok ((sequence.take n.toInt.toNat).map Listed.object) := by
  rw [Store.list, s.listStatement_eq_take kind hn, mapM_eq_ok, List.forall₂_map_right_iff]
  refine (List.forall₂_take _ h).imp fun r x hr => ?_
  rw [Store.decode, hr.2.1]
  rfl

/-- The sequence is newest first, with no id twice. -/
theorem pairwise_of_holds (h : List.Forall₂ (Holds J) (s.sequence kind t) sequence) :
    sequence.Pairwise fun x y => x.Before y ∧ x.id ≠ y.id := by
  refine pairwise_of_forall₂ ?_ h (s.sequence_pairwise kind t)
  intro r r' x x' hr hr' hrows
  refine ⟨before_of_newestFirst hr hr' hrows, ?_⟩
  rw [← hr.1, ← hr'.1]
  exact hrows.2

/-- `get` finds the objects of the sequence. -/
theorem get_of_holds (h : List.Forall₂ (Holds J) (s.sequence kind t) sequence) {id : String}
    {object : T} :
    s.get J kind id t = .ok (some object) ↔ ∃ x ∈ sequence, x.id = id ∧ x.object = object := by
  rw [Store.get_eq]
  cases hvisible : s.visible t kind id with
  | none =>
      refine iff_of_false (by simp) ?_
      rintro ⟨x, hx, hid, -⟩
      obtain ⟨r, hr, hholds⟩ := (mem_of_holds h).mp hx
      rw [Store.visible_eq_some.mpr ⟨hr, hholds.1.trans hid⟩] at hvisible
      cases hvisible
  | some r =>
      obtain ⟨hr, hid⟩ := Store.visible_eq_some.mp hvisible
      obtain ⟨x, hx, hholds⟩ := exists_of_forall₂ h hr
      have hdecode : Store.decode J r = .ok x.object := by
        rw [Store.decode, hholds.2.1]
        rfl
      dsimp only
      rw [hdecode]
      constructor
      · rintro ⟨⟩
        exact ⟨x, hx, hholds.1.symm.trans hid, rfl⟩
      · rintro ⟨y, hy, hidy, rfl⟩
        obtain ⟨r', hr', hholds'⟩ := (mem_of_holds h).mp hy
        have hvisible' := Store.visible_eq_some.mpr ⟨hr', hholds'.1.trans hidy⟩
        rw [hvisible] at hvisible'
        cases hvisible'
        rw [hholds.unique hholds']
        rfl

/-- `delete` finds the ids of the sequence. -/
theorem delete_of_holds (h : List.Forall₂ (Holds J) (s.sequence kind t) sequence) {id : String} :
    (s.delete kind id t).2 = .ok true ↔ ∃ x ∈ sequence, x.id = id := by
  rw [Store.delete_snd, Except.ok.injEq, Option.isSome_iff_exists]
  simp only [Store.visible_eq_some]
  constructor
  · rintro ⟨r, hr, hid⟩
    obtain ⟨x, hx, hholds⟩ := exists_of_forall₂ h hr
    exact ⟨x, hx, hholds.1.symm.trans hid⟩
  · rintro ⟨x, hx, hid⟩
    obtain ⟨r, hr, hholds⟩ := (mem_of_holds h).mp hx
    exact ⟨r, hr, hholds.1.trans hid⟩

end Sequence

/-- The update time of a row is a reading of the clock. -/
theorem updatedAt_mem_readings {ops : List (Store × Call T)} {r : Row}
    (hr : r ∈ (tableAfter ops).rows) : r.updatedAt ∈ readings ops := by
  obtain ⟨_, last, -, hlast, -, -, -, hupdated⟩ := row_eq hr
  have hwrite : last ∈ writes r.key (transcript ops) :=
    (since_suffix _ _).subset (List.mem_of_getLast? hlast)
  rw [hupdated]
  exact (map_now_writes_sublist ops r.key).subset (List.mem_map_of_mem hwrite)

/-- **The order of a list.** After a history whose clock readings are printed instants, not
necessarily increasing, and where the payloads of the kind that a scope sees decode, there is
one sequence of the objects of the kind that the scope sees: all of them, the latest put
first. Under a limit that is not negative `list` answers the first ones, as many as the limit
says. The ids of the sequence are those at which `get` finds an object, the very object of the
sequence, and those for which `delete` answers true. -/
theorem list_newest_first (ops : List (Store × Call T)) (s : Store) (J : Serde T) (kind : String)
    (hclock : ∀ now ∈ readings ops, ∃ i : Instant, now = i.toRfc3339)
    (hdecode : ∀ r ∈ (tableAfter ops).rows, r.kind = kind → s.sees r = true →
      ∃ object, J.fromStr r.payload = .ok object) :
    ∃ sequence : List (Listed T),
      (∀ x, x ∈ sequence ↔ Sees ops s J kind x) ∧
      (sequence.Pairwise fun x y => x.Before y ∧ x.id ≠ y.id) ∧
      (∀ n : Int64, 0 ≤ n.toInt → s.list J kind n (tableAfter ops) =
        .ok ((sequence.take n.toInt.toNat).map Listed.object)) ∧
      (∀ id object, s.get J kind id (tableAfter ops) = .ok (some object) ↔
        ∃ x ∈ sequence, x.id = id ∧ x.object = object) ∧
      ∀ id, (s.delete kind id (tableAfter ops)).2 = .ok true ↔ ∃ x ∈ sequence, x.id = id := by
  have hheld : ∀ r ∈ s.sequence kind (tableAfter ops), ∃ x, Holds J r x := by
    intro r hr
    obtain ⟨hmem, hkind, hsees⟩ := Store.mem_sequence.mp hr
    obtain ⟨object, hobject⟩ := hdecode r hmem hkind hsees
    obtain ⟨i, hi⟩ := hclock _ (updatedAt_mem_readings hmem)
    exact ⟨⟨r.id, object, i⟩, rfl, hobject, hi⟩
  obtain ⟨sequence, h⟩ := exists_forall₂ hheld
  refine ⟨sequence, fun x => ?_, pairwise_of_holds h, fun n hn => list_of_holds h hn,
    fun id object => get_of_holds h, fun id => delete_of_holds h⟩
  rw [mem_of_holds h, sees_iff]
  simp only [Store.mem_sequence, and_assoc]

/-- Two puts within one second, the later of them first. -/
def withinSecond : List (Store × Call Bool) :=
  [(⟨"w", none⟩, .put Serde.bool
      (Instant.leapDay 7 45000 (by omega) (by omega)).toRfc3339 "item" "x" true),
    (⟨"w", none⟩, .put Serde.bool
      (Instant.leapDay 7 0 (by omega) (by omega)).toRfc3339 "item" "y" false)]

/-- The case of writes within one second. -/
theorem list_newest_first_withinSecond :
    ∃ sequence : List (Listed Bool),
      (∀ x, x ∈ sequence ↔ Sees withinSecond ⟨"w", none⟩ Serde.bool "item" x) ∧
      (sequence.Pairwise fun x y => x.Before y ∧ x.id ≠ y.id) ∧
      (∀ n : Int64, 0 ≤ n.toInt →
        (⟨"w", none⟩ : Store).list Serde.bool "item" n (tableAfter withinSecond) =
          .ok ((sequence.take n.toInt.toNat).map Listed.object)) ∧
      (∀ id object,
        (⟨"w", none⟩ : Store).get Serde.bool "item" id (tableAfter withinSecond) =
          .ok (some object) ↔ ∃ x ∈ sequence, x.id = id ∧ x.object = object) ∧
      ∀ id, ((⟨"w", none⟩ : Store).delete "item" id (tableAfter withinSecond)).2 = .ok true ↔
        ∃ x ∈ sequence, x.id = id := by
  refine list_newest_first withinSecond ⟨"w", none⟩ Serde.bool "item" ?_ ?_
  · intro now hnow
    rcases List.mem_cons.mp hnow with rfl | hnow
    · exact ⟨_, rfl⟩
    · rcases List.mem_cons.mp hnow with rfl | hnow
      · exact ⟨_, rfl⟩
      · cases hnow
  · intro r hr _ _
    rcases List.mem_cons.mp hr with rfl | hr
    · exact ⟨true, rfl⟩
    · rcases List.mem_cons.mp hr with rfl | hr
      · exact ⟨false, rfl⟩
      · cases hr

end LayerKit
