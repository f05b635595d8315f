import LayerKit.Isolation
import LayerKit.Statements

/-!
# The Upgrade to Tenant Scope

Before migration 0003 the objects had no workspace. The migration copies every row into the
table of today, in the workspace `''` that no token reaches; the operator then hands these
rows to a workspace with the `UPDATE OR IGNORE` of the README, while tenants may have been
writing objects of their own.

Operations of tenants leave the rows in `''` (`rowsIn_run_of_not`), so these are still the
old rows when the backfill runs, and it moves each of them to the workspace, except where
the workspace has an object of the same kind and id (`rows_backfill`).

## Main results

* `rows_backfill`: what the backfill does to each row.
* `upgrade`: the migration and the backfill lose and overwrite nothing.
-/

open Sql

namespace LayerKit

variable {T : Type}

/-! ### Before the migration -/

/-- The primary key of `objects` in migration 0001. -/
structure OldKey where
  kind : String
  id : String
deriving DecidableEq

/-- A row of `objects` in migration 0001. -/
structure OldRow where
  kind : String
  id : String
  payload : String
  createdAt : String
  updatedAt : String

/-- `PRIMARY KEY (kind, id)`. -/
def OldRow.key (r : OldRow) : OldKey where
  kind := r.kind
  id := r.id

/-- The table `objects` before migration 0003. -/
abbrev OldObjects := Table OldRow OldRow.key

/-! ### The two steps -/

/-- An old row in a workspace, without a project. -/
def OldRow.inWorkspace (w : String) (r : OldRow) : Row where
  workspace := w
  project := none
  kind := r.kind
  id := r.id
  payload := r.payload
  createdAt := r.createdAt
  updatedAt := r.updatedAt

/-- Migration 0003: a new table, the old rows with the defaults of the new columns, and the
name of the old table. -/
def migrate (old : OldObjects) : Option Objects :=
  Table.empty.insertAll (old.rows.map (OldRow.inWorkspace ""))

/-- `WHERE workspace = ''`. -/
def unscopedWhere (r : Row) : Bool :=
  holds (equal (.text r.workspace) (.text ""))

/-- `SET workspace = W`. -/
def Row.handTo (W : String) (r : Row) : Row :=
  { r with workspace := W }

/-- The backfill of the README. -/
def backfill (W : String) (t : Objects) : Objects :=
  t.updateOrIgnore unscopedWhere (Row.handTo W)

/-! ### The migration -/

/-- Moving the old rows to a workspace keeps their keys apart. -/
theorem nodup_inWorkspace (old : OldObjects) (w : String) :
    ((old.rows.map (OldRow.inWorkspace w)).map Row.key).Nodup := by
  have hkey : Row.key ∘ OldRow.inWorkspace w = (fun k => ⟨w, k.kind, k.id⟩) ∘ OldRow.key := rfl
  rw [List.map_map, hkey, ← List.map_map]
  refine old.nodup.map fun k k' h => ?_
  obtain ⟨kind, id⟩ := k
  obtain ⟨kind', id'⟩ := k'
  simpa using h

/-- **The migration succeeds**, and the new table has the old rows. -/
theorem exists_migrate (old : OldObjects) :
    ∃ t, migrate old = some t ∧ t.rows = old.rows.map (OldRow.inWorkspace "") := by
  have hnodup : (((Table.empty : Objects).rows ++ old.rows.map (OldRow.inWorkspace "")).map
      Row.key).Nodup := nodup_inWorkspace old ""
  obtain ⟨t, ht, hrows⟩ := Table.insertAll_eq_some hnodup
  exact ⟨t, ht, by rw [hrows]; rfl⟩

/-- A handle sees a row without a project when that is of its workspace. -/
theorem sees_inWorkspace (s : Store) (w : String) (o : OldRow) :
    s.sees (o.inWorkspace w) = true ↔ s.workspace = w := by
  rw [Store.sees, decide_eq_true_eq]
  simp [OldRow.inWorkspace, eq_comm]

/-! ### Tenants -/

/-- The rows of a workspace stay as they are while no handle of the workspace acts. -/
theorem rowsIn_run_of_not {W : String → Bool} {ops : List (Store × Call T)}
    (hops : ∀ i ∈ ops, W i.1.workspace = false) (t : Objects) :
    rowsIn W ((storeMachine T).run t ops).1 = rowsIn W t := by
  induction ops generalizing t with
  | nil => rfl
  | cons i ops ih =>
      rw [Mealy.run_cons, ih fun j hj => hops j (List.mem_cons_of_mem i hj)]
      exact Store.rowsIn_exec_of_not (hops i List.mem_cons_self) t i.2

/-- Between the migration and the backfill the unscoped rows are the old ones. -/
theorem mem_run_iff {old : OldObjects} {t : Objects}
    (ht : t.rows = old.rows.map (OldRow.inWorkspace "")) {ops : List (Store × Call T)}
    (hops : ∀ i ∈ ops, i.1.workspace ≠ "") {r : Row} (hr : r.workspace = "") :
    r ∈ ((storeMachine T).run t ops).1.rows ↔ ∃ o ∈ old.rows, o.inWorkspace "" = r := by
  have hslice := rowsIn_run_of_not (W := fun w => decide (w = ""))
    (fun i hi => decide_eq_false (hops i hi)) t
  have hmem : ∀ t' : Objects, r ∈ rowsIn (fun w => decide (w = "")) t' ↔ r ∈ t'.rows := fun t' => by
    simp [rowsIn, Table.slice, Row.key, hr]
  rw [← hmem, hslice, hmem, ht, List.mem_map]

/-! ### The backfill -/

/-- The backfill takes the rows without a workspace. -/
@[simp] theorem unscopedWhere_eq_true {r : Row} : unscopedWhere r = true ↔ r.workspace = "" := by
  simp [unscopedWhere]

/-- A row that is handed over has the key of its new workspace. -/
@[simp] theorem Row.key_handTo (W : String) (r : Row) : (r.handTo W).key = ⟨W, r.kind, r.id⟩ := rfl

/-- **The backfill, row by row**: an unscoped row goes to the workspace, except where that
has an object of its kind and id. -/
theorem rows_backfill {W : String} (hW : W ≠ "") (t : Objects) :
    (backfill W t).rows = t.rows.map fun r =>
      if r.workspace = "" ∧ ⟨W, r.kind, r.id⟩ ∉ t.rows.map Row.key then r.handTo W else r := by
  rw [backfill, Table.rows_updateOrIgnore]
  · simp only [unscopedWhere_eq_true, Row.key_handTo]
  · intro r r' _ hr' hkey
    rw [unscopedWhere_eq_true] at hr'
    exact hW ((congrArg Key.workspace hkey).trans hr')
  · intro r r' hr hr' hkey
    rw [unscopedWhere_eq_true] at hr hr'
    rw [Row.key_handTo, Row.key_handTo, Key.mk.injEq] at hkey
    rw [Row.key, Row.key, hr, hr', hkey.2.1, hkey.2.2]

/-- The rows that the backfill leaves as they are. -/
theorem mem_backfill_of {W : String} (hW : W ≠ "") {t : Objects} {r : Row} (hr : r ∈ t.rows)
    (hkeep : r.workspace = "" → ⟨W, r.kind, r.id⟩ ∈ t.rows.map Row.key) :
    r ∈ (backfill W t).rows := by
  rw [rows_backfill hW]
  exact List.mem_map.mpr ⟨r, hr, if_neg fun h => h.2 (hkeep h.1)⟩

/-- A row that is unscoped after the backfill was so before, and was skipped. -/
theorem of_mem_backfill {W : String} (hW : W ≠ "") {t : Objects} {r : Row}
    (hr : r ∈ (backfill W t).rows) (hws : r.workspace = "") :
    r ∈ t.rows ∧ ⟨W, r.kind, r.id⟩ ∈ t.rows.map Row.key := by
  rw [rows_backfill hW] at hr
  obtain ⟨x, hx, rfl⟩ := List.mem_map.mp hr
  split at hws
  · exact absurd hws hW
  · next hkeep =>
      rw [if_neg hkeep]
      exact ⟨hx, by_contra fun hfree => hkeep ⟨hws, hfree⟩⟩

/-- **Running the backfill again** changes nothing. -/
theorem backfill_backfill {W : String} (hW : W ≠ "") (t : Objects) :
    backfill W (backfill W t) = backfill W t := by
  refine Table.eq_of_rows_eq ?_
  rw [rows_backfill hW (backfill W t)]
  refine (List.map_congr_left fun r hr => ?_).trans (List.map_id _)
  refine if_neg fun ⟨hws, hfree⟩ => hfree ?_
  obtain ⟨-, hkey⟩ := of_mem_backfill hW hr hws
  obtain ⟨x, hx, hxkey⟩ := List.mem_map.mp hkey
  -- The row that stood in the way is of the workspace, so it stays.
  have hxW : x.workspace = W := congrArg Key.workspace hxkey
  exact List.mem_map.mpr ⟨x, mem_backfill_of hW hx fun h => absurd (hxW.symm.trans h) hW, hxkey⟩

/-! ### The upgrade -/

/-- The table right after the migration: the old rows, which the unscoped handles see and
no other. -/
structure Migrated (old : OldObjects) (t : Objects) : Prop where
  rows : t.rows = old.rows.map (OldRow.inWorkspace "")
  sees_iff : ∀ (s : Store), ∀ r ∈ t.rows, s.sees r = true ↔ s.workspace = ""

/-- The tables before and after the backfill. -/
structure HandedOver (old : OldObjects) (W : String) (t t' : Objects) : Prop where
  moved_or_left : ∀ o ∈ old.rows, o.inWorkspace W ∈ t'.rows ∨ o.inWorkspace "" ∈ t'.rows
  left_iff : ∀ o ∈ old.rows,
    o.inWorkspace "" ∈ t'.rows ↔ ∃ r ∈ t.rows, r.key = ⟨W, o.kind, o.id⟩
  moved_sees_iff : ∀ o ∈ old.rows, ∀ s : Store,
    s.sees (o.inWorkspace W) = true ↔ s.workspace = W
  others : ∀ r ∈ t.rows, r.workspace ≠ "" → r ∈ t'.rows
  length_eq : t'.rows.length = t.rows.length
  again : backfill W t' = t'

/-- **The upgrade loses and overwrites nothing.** Whatever rows there were, the migration
keeps them all; and whatever tenants do until the backfill, that hands each of the rows to
the workspace, if this has no object of the kind and the id, and changes nothing else. -/
theorem upgrade (old : OldObjects) {W : String} (hW : W ≠ "") {ops : List (Store × Call T)}
    (hops : ∀ i ∈ ops, i.1.workspace ≠ "") :
    ∃ t, migrate old = some t ∧ Migrated old t ∧
      HandedOver old W ((storeMachine T).run t ops).1
        (backfill W ((storeMachine T).run t ops).1) := by
  obtain ⟨t, hmigrate, hrows⟩ := exists_migrate old
  refine ⟨t, hmigrate, ⟨hrows, fun s r hr => ?_⟩, ?_⟩
  · rw [hrows] at hr
    obtain ⟨o, -, rfl⟩ := List.mem_map.mp hr
    exact sees_inWorkspace s "" o
  · have hold : ∀ o ∈ old.rows, o.inWorkspace "" ∈ ((storeMachine T).run t ops).1.rows :=
      fun o ho => (mem_run_iff hrows hops rfl).mpr ⟨o, ho, rfl⟩
    have hleft : ∀ o ∈ old.rows,
        o.inWorkspace "" ∈ (backfill W ((storeMachine T).run t ops).1).rows ↔
          ∃ r ∈ ((storeMachine T).run t ops).1.rows, r.key = ⟨W, o.kind, o.id⟩ := fun o ho => by
      rw [← List.mem_map]
      exact ⟨fun h => (of_mem_backfill hW h rfl).2,
        fun h => mem_backfill_of hW (hold o ho) fun _ => h⟩
    refine ⟨fun o ho => ?_, hleft, fun o _ s => sees_inWorkspace s W o,
      fun r hr hws => mem_backfill_of hW hr fun h => absurd h hws, ?_, backfill_backfill hW _⟩
    · by_cases h : ∃ r ∈ ((storeMachine T).run t ops).1.rows, r.key = ⟨W, o.kind, o.id⟩
      · exact .inr ((hleft o ho).mpr h)
      · rw [rows_backfill hW]
        refine .inl (List.mem_map.mpr ⟨_, hold o ho, if_pos ⟨rfl, ?_⟩⟩)
        exact fun hmem => h (List.mem_map.mp hmem)
    · rw [rows_backfill hW, List.length_map]

/-- Two rows from before the migration. -/
def legacyRows : OldObjects where
  rows := [⟨"raw_item", "a", "legacy-a", "t0", "t0"⟩, ⟨"raw_item", "b", "legacy-b", "t0", "t0"⟩]
  nodup := by decide

/-- A tenant writes the second of them anew. -/
def writtenAnew : List (Store × Call Bool) :=
  [(⟨"w", none⟩, .put Serde.bool "t1" "raw_item" "b" true)]

/-- The upgrade of these rows, with two writes between. -/
theorem upgrade_legacyRows :
    ∃ t, migrate legacyRows = some t ∧ Migrated legacyRows t ∧
      HandedOver legacyRows "w" ((storeMachine Bool).run t writtenAnew).1
        (backfill "w" ((storeMachine Bool).run t writtenAnew).1) :=
  upgrade legacyRows (by decide) (by decide)

end LayerKit
