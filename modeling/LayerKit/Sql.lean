import Mathlib.Data.List.Nodup
import Mathlib.Data.List.Sort
import Mathlib.Data.String.Basic

/-!
# Keyed SQL Tables

The part of SQL that keyed tables need: values with `NULL`, conditions in three-valued
logic, and a table whose primary key is a function of the row. A `Table` carries the
uniqueness of its keys as a field, so no sequence of statements can build one that violates
its primary key.

Every statement has a spec lemma over `Table.lookup`, the row stored at a key. A table is
determined by its lookups up to the order of its rows (`Table.mem_rows_iff`), so these
lemmas say all that a statement does; the `slice` lemmas say the same for the rows whose
keys satisfy a predicate.

## Main results

* `holds_conj`, `holds_disj`: a `WHERE` clause keeps the rows its condition is true of,
  and unknown behaves as false below `AND` and `OR`.
* `Table.lookup_insertOrUpdate`, `Table.lookup_deleteWhere`: the two writing statements,
  key by key.
* `Table.select_eq_toList`: a condition that pins the key selects at most one row.
* `Table.slice_insertOrUpdate`, `Table.slice_deleteWhere`: writing statements, slice by
  slice.
-/

namespace Sql

/-! ### Values and conditions -/

/-- A value of a text column or of a bound text parameter. -/
inductive Value
  | null
  | text (s : String)
deriving DecidableEq

/-- An optional text, as a binding or a nullable column has it. -/
def Value.ofOption : Option String → Value
  | none => .null
  | some s => .text s

/-- Only the missing value is stored as NULL. -/
@[simp] theorem Value.ofOption_eq_null {o : Option String} :
    Value.ofOption o = .null ↔ o = none := by
  cases o <;> simp [Value.ofOption]

/-- Different values are stored differently. -/
@[simp] theorem Value.ofOption_inj {o o' : Option String} :
    Value.ofOption o = Value.ofOption o' ↔ o = o' := by
  cases o <;> cases o' <;> simp [Value.ofOption]

/-- The truth value of a condition; `none` is unknown. -/
abbrev Truth := Option Bool

/-- The comparison `a = b`, unknown as soon as one side is `NULL`. -/
def equal (a b : Value) : Truth :=
  if a = .null ∨ b = .null then none else some (decide (a = b))

/-- The test `a IS NULL`, never unknown. -/
def isNull (a : Value) : Truth :=
  some (decide (a = .null))

/-- Three-valued `AND`. -/
def conj : Truth → Truth → Truth
  | some false, _ => some false
  | _, some false => some false
  | some true, some true => some true
  | _, _ => none

/-- Three-valued `OR`. -/
def disj : Truth → Truth → Truth
  | some true, _ => some true
  | _, some true => some true
  | some false, some false => some false
  | _, _ => none

/-- A `WHERE` clause keeps a row when its condition is true, neither false nor unknown. -/
def holds : Truth → Bool
  | some b => b
  | none => false

/-- AND holds when both sides do. -/
@[simp] theorem holds_conj (a b : Truth) : holds (conj a b) = (holds a && holds b) := by
  rcases a with _ | _ | _ <;> rcases b with _ | _ | _ <;> rfl

/-- OR holds when one side does. -/
@[simp] theorem holds_disj (a b : Truth) : holds (disj a b) = (holds a || holds b) := by
  rcases a with _ | _ | _ <;> rcases b with _ | _ | _ <;> rfl

/-- IS NULL holds of NULL only. -/
@[simp] theorem holds_isNull (a : Value) : holds (isNull a) = decide (a = .null) := rfl

/-- `=` holds of equal values that are not NULL. -/
@[simp] theorem holds_equal (a b : Value) :
    holds (equal a b) = decide (a ≠ .null ∧ a = b) := by
  rw [equal]
  by_cases ha : a = .null
  · simp [ha, holds]
  · by_cases hb : b = .null
    · have hab : a ≠ b := fun h => ha (h.trans hb)
      simp [hb, holds]
    · simp [ha, hb, holds]

/-- `LIMIT n`, where a negative `n` is no limit. -/
def limit {ρ : Type*} (n : Int64) (rows : List ρ) : List ρ :=
  if n < 0 then rows else rows.take n.toNatClampNeg

/-! ### Tables with a primary key -/

/-- A table: a list of rows, no two of which have the same key. -/
structure Table (ρ : Type*) {κ : Type*} (key : ρ → κ) where
  rows : List ρ
  nodup : (rows.map key).Nodup

namespace Table

variable {ρ κ : Type*} {key : ρ → κ}

/-- Tables with the same rows are the same. -/
theorem eq_of_rows_eq {t t' : Table ρ key} (h : t.rows = t'.rows) : t = t' := by
  cases t
  cases t'
  cases h
  rfl

/-- The table without rows. -/
def empty : Table ρ key where
  rows := []
  nodup := List.nodup_nil

/-- `SELECT … WHERE p`. -/
def select (t : Table ρ key) (p : ρ → Bool) : List ρ :=
  t.rows.filter p

/-- `DELETE … WHERE p`. -/
def deleteWhere (t : Table ρ key) (p : ρ → Bool) : Table ρ key where
  rows := t.rows.filter fun r => !p r
  nodup := t.nodup.sublist (List.filter_sublist.map key)

/-- A delete whose condition selects no row leaves the table. -/
theorem deleteWhere_of_select_eq_nil (t : Table ρ key) {p : ρ → Bool} (h : t.select p = []) :
    t.deleteWhere p = t := by
  refine eq_of_rows_eq (List.filter_eq_self.mpr fun r hr => ?_)
  simpa using List.filter_eq_nil_iff.mp h r hr

/-- The rows whose keys lie in `D`. -/
def slice (t : Table ρ key) (D : κ → Bool) : List ρ :=
  t.rows.filter fun r => D (key r)

/-- The rows of an upsert: update the row with the key of the new one, or append that. -/
def upsertRows [DecidableEq κ] (key : ρ → κ) (new : ρ) (set : ρ → ρ) (rows : List ρ) : List ρ :=
  if key new ∈ rows.map key then
    rows.map fun r => if key r = key new then set r else r
  else
    rows ++ [new]

/-- An upsert keeps the keys apart. -/
theorem nodup_upsertRows [DecidableEq κ] {new : ρ} {set : ρ → ρ} {rows : List ρ}
    (hset : ∀ r, key (set r) = key r) (h : (rows.map key).Nodup) :
    ((upsertRows key new set rows).map key).Nodup := by
  rw [upsertRows]
  split
  · have hkeys : (rows.map fun r => if key r = key new then set r else r).map key =
        rows.map key := by
      rw [List.map_map]
      refine List.map_congr_left fun r _ => ?_
      by_cases hr : key r = key new <;> simp [hr, hset]
    rw [hkeys]
    exact h
  · next hnew =>
      rw [List.map_append, List.map_singleton]
      exact h.append (List.nodup_singleton _) (List.disjoint_singleton.mpr hnew)

/-- `INSERT … ON CONFLICT (key) DO UPDATE SET …`, where the update leaves the key. -/
def insertOrUpdate [DecidableEq κ] (t : Table ρ key) (new : ρ) (set : ρ → ρ)
    (hset : ∀ r, key (set r) = key r) : Table ρ key where
  rows := upsertRows key new set t.rows
  nodup := nodup_upsertRows hset t.nodup

variable [DecidableEq κ]

/-- The row stored at a key. -/
def lookup (t : Table ρ key) (k : κ) : Option ρ :=
  t.rows.find? fun r => key r = k

/-- The empty table has no rows. -/
@[simp] theorem lookup_empty (k : κ) : (empty : Table ρ key).lookup k = none := rfl

/-- The row at a key has that key. -/
theorem key_of_lookup {t : Table ρ key} {k : κ} {r : ρ} (h : t.lookup k = some r) :
    key r = k := by
  simpa using List.find?_some h

/-- What a lookup finds is a row. -/
theorem mem_of_lookup {t : Table ρ key} {k : κ} {r : ρ} (h : t.lookup k = some r) :
    r ∈ t.rows :=
  List.mem_of_find?_eq_some h

/-- Rows with unique keys are found by their keys. -/
theorem find?_of_mem {rows : List ρ} (hn : (rows.map key).Nodup) {r : ρ} (hr : r ∈ rows) :
    rows.find? (fun r' => key r' = key r) = some r := by
  induction rows with
  | nil => cases hr
  | cons a rows ih =>
      rw [List.map_cons, List.nodup_cons] at hn
      rcases List.mem_cons.mp hr with rfl | hr
      · simp
      · have hne : key a ≠ key r := fun h => hn.1 (h ▸ List.mem_map_of_mem hr)
        rw [List.find?_cons_of_neg (by simpa using hne)]
        exact ih hn.2 hr

/-- The rows of a table are what its lookups return. -/
theorem mem_rows_iff {t : Table ρ key} {r : ρ} : r ∈ t.rows ↔ t.lookup (key r) = some r :=
  ⟨fun h => find?_of_mem t.nodup h, mem_of_lookup⟩

/-- A lookup finds the row of the key. -/
theorem lookup_eq_some_iff {t : Table ρ key} {k : κ} {r : ρ} :
    t.lookup k = some r ↔ r ∈ t.rows ∧ key r = k := by
  constructor
  · intro h
    exact ⟨mem_of_lookup h, key_of_lookup h⟩
  · rintro ⟨hr, rfl⟩
    exact mem_rows_iff.mp hr

/-- A lookup finds nothing where no row has the key. -/
theorem lookup_eq_none_iff {t : Table ρ key} {k : κ} :
    t.lookup k = none ↔ k ∉ t.rows.map key := by
  simp [lookup, List.find?_eq_none, List.mem_map]

/-! ### Statements, key by key -/

/-- **Upsert, key by key**: at the key of the new row stands the updated old row, or the
new one where there was none; nothing else changes. -/
theorem lookup_insertOrUpdate (t : Table ρ key) (new : ρ) (set : ρ → ρ)
    (hset : ∀ r, key (set r) = key r) (k : κ) :
    (t.insertOrUpdate new set hset).lookup k =
      if k = key new then some ((t.lookup k).elim new set) else t.lookup k := by
  unfold insertOrUpdate upsertRows lookup
  dsimp only
  split
  · next hnew =>
      -- the update keeps keys, so the search finds the update of the row it found before
      have hkey : ((fun r => decide (key r = k)) ∘ fun r => if key r = key new then set r else r) =
          fun r => decide (key r = k) := by
        funext r
        by_cases hr : key r = key new <;> simp [hr, hset]
      rw [List.find?_map, hkey]
      cases hfind : t.rows.find? fun r => decide (key r = k) with
      | none =>
          have hk : k ∉ t.rows.map key := lookup_eq_none_iff.mp hfind
          rw [if_neg fun h : k = key new => hk (h ▸ hnew)]
          rfl
      | some r =>
          have hr : key r = k := key_of_lookup hfind
          by_cases hk : k = key new <;> simp [hr, hk]
  · next hnew =>
      rw [List.find?_append]
      by_cases hk : k = key new
      · have hnone : t.rows.find? (fun r => decide (key r = k)) = none :=
          lookup_eq_none_iff.mpr (hk ▸ hnew)
        simp only [hnone, if_pos hk, Option.elim_none, Option.none_or]
        simp [hk]
      · simp [hk, Ne.symm hk]

/-- **Delete, key by key**: a row stays exactly when the condition is not true of it. -/
theorem lookup_deleteWhere (t : Table ρ key) (p : ρ → Bool) (k : κ) :
    (t.deleteWhere p).lookup k = (t.lookup k).filter fun r => !p r := by
  refine Option.ext fun r => ?_
  rw [lookup_eq_some_iff, Option.filter_eq_some_iff, lookup_eq_some_iff]
  simp only [deleteWhere, List.mem_filter]
  tauto

/-- A condition that pins the key selects the row at that key, if it is true of it. -/
theorem select_eq_toList (t : Table ρ key) {p : ρ → Bool} {k : κ}
    (hp : ∀ r, p r = true → key r = k) :
    t.select p = ((t.lookup k).filter p).toList := by
  have hsub : ∀ {rows : List ρ}, (rows.map key).Nodup →
      rows.filter p = ((rows.find? fun r => key r = k).filter p).toList := by
    intro rows hn
    induction rows with
    | nil => rfl
    | cons a rows ih =>
        rw [List.map_cons, List.nodup_cons] at hn
        by_cases ha : key a = k
        · have hrest : rows.filter p = [] := List.filter_eq_nil_iff.mpr fun r hr hpr =>
            hn.1 (List.mem_map.mpr ⟨r, hr, (hp r hpr).trans ha.symm⟩)
          rw [List.filter_cons, hrest, List.find?_cons_of_pos (by simpa using ha)]
          by_cases hpa : p a = true <;> simp [Option.filter, hpa]
        · have hpa : ¬ p a = true := fun h => ha (hp a h)
          rw [List.filter_cons_of_neg hpa, List.find?_cons_of_neg (by simpa using ha), ih hn.2]
  exact hsub t.nodup

/-- At most one row has a key. -/
theorem length_filter_key_le_one (t : Table ρ key) (k : κ) :
    (t.rows.filter fun r => decide (key r = k)).length ≤ 1 := by
  have hselect := t.select_eq_toList (p := fun r => decide (key r = k)) (k := k)
    fun r hr => of_decide_eq_true hr
  rw [select] at hselect
  rw [hselect]
  exact Option.length_toList_le

/-! ### Statements, slice by slice -/

omit [DecidableEq κ] in
/-- A condition confined to a slice selects from that slice. -/
theorem select_eq_slice_filter (t : Table ρ key) {p : ρ → Bool} {D : κ → Bool}
    (hp : ∀ r, p r = true → D (key r) = true) : t.select p = (t.slice D).filter p := by
  rw [select, slice, List.filter_filter]
  refine List.filter_congr fun r _ => ?_
  cases hr : p r with
  | false => simp
  | true => simp [hp r hr]

omit [DecidableEq κ] in
/-- Deleting from the table deletes from each slice. -/
theorem slice_deleteWhere (t : Table ρ key) (p : ρ → Bool) (D : κ → Bool) :
    (t.deleteWhere p).slice D = (t.slice D).filter fun r => !p r := by
  simp only [deleteWhere, slice, List.filter_filter, Bool.and_comm]

omit [DecidableEq κ] in
/-- A delete confined to other keys leaves a slice. -/
theorem slice_deleteWhere_of_disjoint (t : Table ρ key) {p : ρ → Bool} {D : κ → Bool}
    (hp : ∀ r, p r = true → D (key r) = false) : (t.deleteWhere p).slice D = t.slice D := by
  rw [slice_deleteWhere, List.filter_eq_self]
  intro r hr
  have hD : D (key r) = true := (List.mem_filter.mp hr).2
  cases hpr : p r with
  | false => rfl
  | true => rw [hp r hpr] at hD; cases hD

/-- **Upsert, slice by slice**: an upsert inside a slice upserts the slice, and one
outside leaves it. -/
theorem slice_insertOrUpdate (t : Table ρ key) (new : ρ) (set : ρ → ρ)
    (hset : ∀ r, key (set r) = key r) (D : κ → Bool) :
    (t.insertOrUpdate new set hset).slice D =
      if D (key new) then upsertRows key new set (t.slice D) else t.slice D := by
  have hmem : D (key new) = true →
      (key new ∈ (t.slice D).map key ↔ key new ∈ t.rows.map key) := by
    intro hD
    simp only [slice, List.mem_map, List.mem_filter]
    constructor
    · rintro ⟨r, ⟨hr, -⟩, hk⟩
      exact ⟨r, hr, hk⟩
    · rintro ⟨r, hr, hk⟩
      exact ⟨r, ⟨hr, hk ▸ hD⟩, hk⟩
  by_cases hnew : key new ∈ t.rows.map key
  · have hfilter : (t.insertOrUpdate new set hset).slice D =
        (t.slice D).map fun r => if key r = key new then set r else r := by
      simp only [insertOrUpdate, upsertRows, if_pos hnew, slice, List.filter_map]
      congr 1
      refine List.filter_congr fun r _ => ?_
      by_cases hr : key r = key new <;> simp [hr, hset]
    rw [hfilter]
    split
    · next hD => rw [upsertRows, if_pos ((hmem hD).mpr hnew)]
    · next hD =>
        refine (List.map_congr_left fun r hr => ?_).trans (List.map_id _)
        have hDr : D (key r) = true := (List.mem_filter.mp hr).2
        rw [if_neg fun h : key r = key new => hD (h ▸ hDr)]
        rfl
  · have hfilter : (t.insertOrUpdate new set hset).slice D =
        t.slice D ++ [new].filter fun r => D (key r) := by
      simp only [insertOrUpdate, upsertRows, if_neg hnew, slice, List.filter_append]
    rw [hfilter]
    split
    · next hD => rw [upsertRows, if_neg fun h => hnew ((hmem hD).mp h)]; simp [hD]
    · next hD => simp [hD]

end Table

end Sql
