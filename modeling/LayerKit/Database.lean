import LayerKit.Simulation
import LayerKit.Upgrade

/-!
# The Database File

The file behind a store, over its whole life. It holds tables by their names, and among
these the record of the migrations that have been applied. `Store::open` has the migrator of
sqlx run the scripts of the crate. The migrator is a parameter here, of which the documentation
is assumed (`Migrator.Documented`): on a file whose records are of these scripts unchanged, it
applies the pending ones in order, each with its record in a transaction of its own, so that a
process that dies meanwhile leaves a number of them applied whole. Between two openings,
operations run through handles.

A layer may also keep tables and views of its own, with indexes, foreign keys and triggers.
These are to mention no table of the crate's, since dropping a table that is mentioned may
delete rows elsewhere, or fail; they are to take no name of a table or an index of the crate's;
and its views and triggers are to resolve, since no table can be renamed while one does not.

What a file says about objects, whatever version it was left at, is the table that a
complete opening makes of it (`Database.objects`). Openings, complete or not, never change
that, and operations act on it as on a store: the life of a file is a run of the store.

## Main results

* `Database.exists_apply`: the next migration applies, and keeps what the file says.
* `File.Says.start`: a file of any version opens.
* `file_simulation`: openings and crashes are silent steps of the store.
* `file_life`: the operations of a life are answered as one run of the store, and the layer's own
  tables stay as they were.
-/

open Sql

namespace LayerKit

variable {T : Type}

/-! ### Tables, indexes and scripts -/

/-- The names of the tables that the migrations are about. -/
def reserved : List String :=
  ["objects", "events", "objects_scoped"]

/-- The names of the indexes that the migrations are about. -/
def reservedIndexes : List String :=
  ["idx_objects_kind_updated", "idx_events_kind", "idx_objects_scope_kind_updated"]

/-- A row of `events` in migration 0001. -/
structure EventRow where
  seq : Int64
  kind : String
  objectId : String
  payload : String
  occurredAt : String

/-- What a table of the file holds; a layer may have tables and views of its own. -/
inductive TableData
  | objects (t : OldObjects)
  | objectsScoped (t : Objects)
  | events (rows : List EventRow)
  | own (rows : List (List Value))

/-- The statements of the migrations. -/
inductive Ddl
  | createTable (name : String) (ifNotExists : Bool) (empty : TableData)
  | createIndex (name : String) (ifNotExists : Bool) (table : String)
  | insertSelect (into source : String)
  | dropTable (name : String) (ifExists : Bool)
  | renameTable (name newName : String)

/-- **A database file**: its tables, the table of each index, the migrations on record, by their
versions and scripts (sqlx records a checksum of the script), the tables that the layer's own
foreign keys, triggers and views are on or name, none of which is the crate's, and whether its
own triggers and views resolve. -/
structure Database where
  tables : String → Option TableData
  indexes : String → Option String
  applied : List (Nat × List Ddl)
  mentions : List String
  resolves : Bool
  apart : ∀ name ∈ mentions, name ∉ reserved

/-- Run a statement about a table of the crate's; `none` is an error. Tables and indexes share one
name space, and `IF NOT EXISTS` excuses a name of the same sort only. -/
def Ddl.exec (d : Database) : Ddl → Option Database
  | createTable name ifNotExists empty =>
      match d.tables name, d.indexes name with
      | some _, _ => if ifNotExists then some d else none
      | none, some _ => none
      | none, none => some { d with tables := Function.update d.tables name (some empty) }
  | createIndex name ifNotExists table =>
      match d.tables name, d.indexes name with
      | some _, _ => none
      | none, some _ => if ifNotExists then some d else none
      | none, none =>
          if (d.tables table).isSome then
            some { d with indexes := Function.update d.indexes name (some table) }
          else none
  | insertSelect into source =>
      match d.tables into, d.tables source with
      | some (.objectsScoped t), some (.objects old) =>
          (t.insertAll (old.rows.map (OldRow.inWorkspace ""))).map fun t' =>
            { d with tables := Function.update d.tables into (some (.objectsScoped t')) }
      | _, _ => none
  | dropTable name ifExists =>
      match d.tables name with
      | none => if ifExists then some d else none
      | some _ => some
          { d with
            tables := Function.update d.tables name none
            indexes := fun i => (d.indexes i).filter fun table => decide (table ≠ name) }
  | renameTable name newName =>
      match d.tables name, d.tables newName, d.indexes newName, d.resolves with
      | some data, none, none, true => some
          { d with
            tables := Function.update (Function.update d.tables name none) newName (some data)
            indexes := fun i => (d.indexes i).map fun table =>
              if table = name then newName else table }
      | _, _, _, _ => none

/-- `0001_initial.sql`. -/
def initial : List Ddl :=
  [.createTable "objects" true (.objects Table.empty),
    .createTable "events" true (.events []),
    .createIndex "idx_objects_kind_updated" true "objects",
    .createIndex "idx_events_kind" true "events"]

/-- `0002_drop_events.sql`. -/
def dropEvents : List Ddl :=
  [.dropTable "events" true]

/-- `0003_workspace_scope.sql`. -/
def workspaceScope : List Ddl :=
  [.createTable "objects_scoped" false (.objectsScoped Table.empty),
    .insertSelect "objects_scoped" "objects",
    .dropTable "objects" false,
    .renameTable "objects_scoped" "objects",
    .createIndex "idx_objects_scope_kind_updated" false "objects"]

/-- The migrations, by their versions. -/
def migrations : List (Nat × List Ddl) :=
  [(1, initial), (2, dropEvents), (3, workspaceScope)]

/-! ### The migrator -/

namespace Database

/-- A migration and its record, in one transaction. -/
def apply (d : Database) (m : Nat × List Ddl) : Option Database :=
  (m.2.foldlM Ddl.exec d).map fun d' => { d' with applied := d'.applied ++ [m] }

/-- The migrations that the file has no record of. -/
def pending (d : Database) : List (Nat × List Ddl) :=
  migrations.filter fun m => m.1 ∉ d.applied.map Prod.fst

/-- Apply migrations in order, up to one that fails. -/
def applyAll (d : Database) : List (Nat × List Ddl) → Database × Bool
  | [] => (d, true)
  | m :: ms =>
      match d.apply m with
      | none => (d, false)
      | some d' => d'.applyAll ms

/-- Every migration on record is one of the crate's, unchanged. -/
def Unchanged (d : Database) : Prop :=
  ∀ m ∈ d.applied, m ∈ migrations

end Database

/-- The migrator of sqlx over the migrations of the crate: what a run makes of a file, with
whether it succeeds, and what a run leaves that dies at its `n`-th step, whatever its steps
are. -/
structure Migrator where
  run : Database → Database × Bool
  die : Database → Nat → Database

/-- **What sqlx documents of its migrator** on files whose records are unchanged. -/
structure Migrator.Documented (M : Migrator) : Prop where
  /-- A run applies the pending migrations in order, up to one that fails. -/
  run : ∀ d : Database, d.Unchanged → M.run d = d.applyAll d.pending
  /-- A migration and its record are one transaction, so a run that dies leaves a number of
  migrations applied whole. -/
  die : ∀ (d : Database) (n : Nat), d.Unchanged →
    ∃ k, M.die d n = (d.applyAll (d.pending.take k)).1

/-! ### Versions -/

/-- What the file says about objects. -/
def Database.objects (d : Database) : Option Objects :=
  match d.tables "objects" with
  | none => some Table.empty
  | some (.objects old) => LayerKit.migrate old
  | some (.objectsScoped t) => some t
  | some _ => none

/-- The table of migration 0001. -/
def Database.HoldsOld (d : Database) : Prop :=
  ∃ old, d.tables "objects" = some (.objects old)

/-- **The migrations have their way**: what the last one is about to make is not there, the layer's
own tables and indexes take none of the crate's names, and its triggers and views resolve. -/
structure Database.Unobstructed (d : Database) : Prop where
  table : d.tables "objects_scoped" = none
  index : d.indexes "idx_objects_scope_kind_updated" = none
  tableNames : ∀ name ∈ reserved, d.indexes name = none
  indexNames : ∀ name ∈ reservedIndexes, d.tables name = none
  resolves : d.resolves = true

/-- The table `events`, where there is one, is that of migration 0001. -/
def Database.Journal (d : Database) : Prop :=
  d.tables "events" = none ∨ ∃ rows, d.tables "events" = some (.events rows)

/-- The files that the versions of the crate leave, by the number of migrations applied. A
file without a record may have the tables of migration 0001 already. -/
inductive Database.Version (d : Database) : Nat → Prop
  | absent (h : d.applied = []) (ht : d.tables "objects" = none ∨ d.HoldsOld)
      (hevents : d.Journal) (hfree : d.Unobstructed) : d.Version 0
  | journaled (h : d.applied = migrations.take 1) (ht : d.HoldsOld) (hevents : d.Journal)
      (hfree : d.Unobstructed) : d.Version 1
  | plain (h : d.applied = migrations.take 2) (ht : d.HoldsOld)
      (hevents : d.tables "events" = none) (hfree : d.Unobstructed) : d.Version 2
  | tenanted (h : d.applied = migrations) (ht : ∃ t, d.tables "objects" = some (.objectsScoped t))
      (hevents : d.tables "events" = none) (hfree : d.tables "objects_scoped" = none) : d.Version 3

/-- Two files that say the same about objects and have the same other tables. -/
structure Database.SameContents (d d' : Database) : Prop where
  objects : d'.objects = d.objects
  own : ∀ name ∉ reserved, d'.tables name = d.tables name

/-- One after the other. -/
theorem Database.SameContents.trans {d d' d'' : Database} (h : d.SameContents d')
    (h' : d'.SameContents d'') : d.SameContents d'' :=
  ⟨h'.objects.trans h.objects, fun name hname => (h'.own name hname).trans (h.own name hname)⟩

namespace Database

/-- `CREATE TABLE IF NOT EXISTS` succeeds where no index has the name, and keeps a table that is
there. -/
theorem exec_createTable (d : Database) (name : String) (empty : TableData)
    (hname : d.indexes name = none) :
    Ddl.exec d (.createTable name true empty) =
      some { d with
        tables := Function.update d.tables name (some ((d.tables name).getD empty)) } := by
  simp only [Ddl.exec, hname]
  cases h : d.tables name with
  | none => rfl
  | some data =>
      have hself : Function.update d.tables name (some data) = d.tables := by
        rw [← h, Function.update_eq_self]
      simp only [Option.getD_some, hself, if_true]

/-- `CREATE INDEX IF NOT EXISTS` on a table that is there, where no table has the name. -/
theorem exec_createIndex (d : Database) (name : String) {table : String}
    (h : (d.tables table).isSome = true) (hname : d.tables name = none) :
    Ddl.exec d (.createIndex name true table) =
      some { d with
        indexes := Function.update d.indexes name (some ((d.indexes name).getD table)) } := by
  simp only [Ddl.exec, hname]
  cases hi : d.indexes name with
  | none => simp only [h, if_true, Option.getD_none]
  | some t =>
      have hself : Function.update d.indexes name (some t) = d.indexes := by
        rw [← hi, Function.update_eq_self]
      simp only [Option.getD_some, hself, if_true]

/-- The tables and indexes of migration 0001 stand in nobody's way. -/
theorem Unobstructed.of_agree {d d' : Database} (h : d.Unobstructed)
    (ht : ∀ name ∉ ["objects", "events"], d'.tables name = d.tables name)
    (hi : ∀ i ∉ ["idx_objects_kind_updated", "idx_events_kind"],
      d.indexes i = none → d'.indexes i = none)
    (hresolves : d'.resolves = d.resolves) : d'.Unobstructed where
  table := (ht _ (by decide)).trans h.table
  index := hi _ (by decide) h.index
  tableNames name hname := hi name (by revert name; decide) (h.tableNames name hname)
  indexNames name hname := (ht name (by revert name; decide)).trans (h.indexNames name hname)
  resolves := hresolves.trans h.resolves

/-- `DROP TABLE IF EXISTS` succeeds. -/
theorem exec_dropTable (d : Database) (name : String) :
    ∃ indexes, (∀ i, d.indexes i = none → indexes i = none) ∧
      Ddl.exec d (.dropTable name true) =
        some { d with tables := Function.update d.tables name none, indexes := indexes } := by
  simp only [Ddl.exec]
  cases h : d.tables name with
  | none =>
      have hself : Function.update d.tables name none = d.tables := by
        rw [← h, Function.update_eq_self]
      exact ⟨d.indexes, fun _ hi => hi, by simp only [hself, if_true]⟩
  | some data => exact ⟨_, fun i hi => by rw [hi]; rfl, rfl⟩

/-- What an applied migration is. -/
theorem apply_eq_some {d d' : Database} {m : Nat × List Ddl} (h : m.2.foldlM Ddl.exec d = some d') :
    d.apply m = some { d' with applied := d'.applied ++ [m] } := by
  rw [apply, h, Option.map_some]

/-- **Migration 0001** applies to a file without a record. -/
theorem apply_initial {d : Database} (h : d.Version 0) :
    ∃ d', d.apply (1, initial) = some d' ∧ d'.Version 1 ∧ d.SameContents d' := by
  obtain ⟨happlied, ht, hevents, hfree⟩ := h
  have hrun := apply_eq_some (m := (1, initial)) (d := d) (by
    simp only [initial, List.foldlM_cons, List.foldlM_nil, Option.bind_eq_bind]
    rw [exec_createTable _ _ _ (hfree.tableNames "objects" (by decide)), Option.bind_some,
      exec_createTable _ _ _ (by exact hfree.tableNames "events" (by decide)), Option.bind_some,
      exec_createIndex _ _ (by simp)
        (by simpa using hfree.indexNames "idx_objects_kind_updated" (by decide)),
      Option.bind_some,
      exec_createIndex _ _ (by simp) (by simpa using hfree.indexNames "idx_events_kind" (by decide)),
      Option.bind_some]
    rfl)
  refine ⟨_, hrun, .journaled (by rw [happlied]; rfl) ?_ ?_ ?_, ?_, ?_⟩
  · rcases ht with ht | ⟨old, ht⟩
    · exact ⟨Table.empty, by simp [ht]⟩
    · exact ⟨old, by simp [ht]⟩
  · rcases hevents with hevents | ⟨rows, hevents⟩
    · exact .inr ⟨[], by simp [hevents]⟩
    · exact .inr ⟨rows, by simp [hevents]⟩
  · refine hfree.of_agree (fun name hname => ?_) (fun i hi hnone => ?_) rfl
    · simp only [List.mem_cons, List.not_mem_nil, or_false, not_or] at hname
      simp [hname]
    · simp only [List.mem_cons, List.not_mem_nil, or_false, not_or] at hi
      simp [hi, hnone]
  · rcases ht with ht | ⟨old, ht⟩
    · simp [objects, ht]
      rfl
    · simp [objects, ht]
  · intro name hname
    simp only [reserved, List.mem_cons, List.not_mem_nil, or_false, not_or] at hname
    simp [hname]

/-- **Migration 0002** applies after it. -/
theorem apply_dropEvents {d : Database} (h : d.Version 1) :
    ∃ d', d.apply (2, dropEvents) = some d' ∧ d'.Version 2 ∧ d.SameContents d' := by
  obtain _ | ⟨happlied, ⟨old, ht⟩, -, hfree⟩ := h
  obtain ⟨indexes, hindexes, hexec⟩ := exec_dropTable d "events"
  have hrun := apply_eq_some (m := (2, dropEvents)) (d := d) (by
    simp only [dropEvents, List.foldlM_cons, List.foldlM_nil, hexec, Option.bind_eq_bind,
      Option.bind_some]
    rfl)
  refine ⟨_, hrun, .plain (by rw [happlied]; rfl) ⟨old, by simp [ht]⟩ (by simp) ?_, ?_, ?_⟩
  · refine hfree.of_agree (fun name hname => ?_) (fun i _ hnone => hindexes i hnone) rfl
    exact Function.update_of_ne (fun heq => hname (by simp [heq])) _ _
  · simp [objects, ht]
  · intro name hname
    simp only [reserved, List.mem_cons, List.not_mem_nil, or_false, not_or] at hname
    simp [hname]

/-- **Migration 0003** applies after that: the copy finds no key twice. -/
theorem apply_workspaceScope {d : Database} (h : d.Version 2) :
    ∃ d', d.apply (3, workspaceScope) = some d' ∧ d'.Version 3 ∧ d.SameContents d' := by
  obtain _ | _ | ⟨happlied, ⟨old, ht⟩, hevents, hfree⟩ := h
  obtain ⟨t, hmigrate, -⟩ := LayerKit.exists_migrate old
  have hcopy : Table.empty.insertAll (old.rows.map (OldRow.inWorkspace "")) = some t := hmigrate
  have hrun := apply_eq_some (m := (3, workspaceScope)) (d := d) (by
    simp [workspaceScope, Ddl.exec, ht, hfree.table, hfree.index, hfree.resolves, hcopy,
      hfree.tableNames "objects" (by decide), hfree.tableNames "objects_scoped" (by decide),
      hfree.indexNames "idx_objects_scope_kind_updated" (by decide)]
    rfl)
  refine ⟨_, hrun, .tenanted (by rw [happlied]; rfl) ⟨t, by simp⟩ (by simp [hevents])
    (by simp), ?_, ?_⟩
  · simp [objects, ht, hmigrate]
  · intro name hname
    simp only [reserved, List.mem_cons, List.not_mem_nil, or_false, not_or] at hname
    simp [hname]

/-- The migrations after a version. -/
theorem pending_of_version {d : Database} {v : Nat} (h : d.Version v) :
    d.pending = migrations.drop v := by
  cases h with
  | absent h _ _ _ | journaled h _ _ _ | plain h _ _ _ | tenanted h _ _ _ =>
      rw [pending, h]
      rfl

/-- A file of a version has unchanged records. -/
theorem unchanged_of_version {d : Database} {v : Nat} (h : d.Version v) : d.Unchanged := by
  intro m hm
  cases h with
  | absent h _ _ _ =>
      rw [h] at hm
      cases hm
  | journaled h _ _ _ | plain h _ _ _ =>
      rw [h] at hm
      exact List.mem_of_mem_take hm
  | tenanted h _ _ _ =>
      rw [h] at hm
      exact hm

/-- **The next migration** applies to a file of any version before the last. -/
theorem exists_apply {d : Database} {v : Nat} (h : d.Version v) :
    (∃ m d', migrations.drop v = m :: migrations.drop (v + 1) ∧ d.apply m = some d' ∧
      d'.Version (v + 1) ∧ d.SameContents d') ∨ v = 3 := by
  obtain _ | _ | _ | _ := id h
  · obtain ⟨d', happly, hd'⟩ := apply_initial h
    exact .inl ⟨_, d', rfl, happly, hd'⟩
  · obtain ⟨d', happly, hd'⟩ := apply_dropEvents h
    exact .inl ⟨_, d', rfl, happly, hd'⟩
  · obtain ⟨d', happly, hd'⟩ := apply_workspaceScope h
    exact .inl ⟨_, d', rfl, happly, hd'⟩
  · exact .inr rfl

/-- Any number of the pending migrations apply, and keep what the file says. -/
theorem exists_applyAll {d : Database} {v : Nat} (h : d.Version v) (n : Nat) :
    ∃ d' v', d.applyAll ((migrations.drop v).take n) = (d', true) ∧ d'.Version v' ∧
      d.SameContents d' ∧ (3 ≤ v + n → v' = 3) := by
  induction n generalizing d v with
  | zero =>
      refine ⟨d, v, rfl, h, ⟨rfl, fun _ _ => rfl⟩, fun hv => ?_⟩
      cases h with
      | absent _ _ _ _ | journaled _ _ _ _ | plain _ _ _ _ => omega
      | tenanted _ _ _ _ => rfl
  | succ n ih =>
      rcases exists_apply h with ⟨m, d₁, hdrop, happly, hversion, hsame⟩ | rfl
      · obtain ⟨d', v', hall, hv', hsame', hlast⟩ := ih hversion
        refine ⟨d', v', ?_, hv', hsame.trans hsame', fun hv => hlast (by omega)⟩
        rw [hdrop, List.take_succ_cons, applyAll, happly]
        exact hall
      · exact ⟨d, 3, rfl, h, ⟨rfl, fun _ _ => rfl⟩, fun _ => rfl⟩

end Database

/-! ### The life of a file -/

/-- A file, and whether a process has it open. -/
structure File where
  database : Database
  opened : Bool

/-- What happens to a file: an opening, an opening that dies at its `n`-th step, the end of the
process, and an operation through a handle. -/
inductive FileEvent (T : Type)
  | start
  | die (n : Nat)
  | stop
  | exec (s : Store) (c : Call T)

/-- An operation on the open file; no answer where the file is closed or has another
table. -/
def File.exec (f : File) (s : Store) (c : Call T) : File × Option (Answer T) :=
  match f.opened, f.database.tables "objects" with
  | true, some (.objectsScoped t) =>
      ({ f with
          database :=
            { f.database with
              tables := Function.update f.database.tables "objects"
                (some (.objectsScoped (s.exec t c).1)) } },
        some (s.exec t c).2)
  | _, _ => (f, none)

/-- The file as a machine, under a migrator. -/
def fileMachine (M : Migrator) (T : Type) : Mealy File (FileEvent T) (Option (Answer T)) where
  step f
    | .start => (⟨(M.run f.database).1, (M.run f.database).2⟩, none)
    | .die n => (⟨M.die f.database n, false⟩, none)
    | .stop => (⟨f.database, false⟩, none)
    | .exec s c => f.exec s c

/-- An answered operation. -/
def FileEvent.answered : FileEvent T → Option (Answer T) → Option ((Store × Call T) × Answer T)
  | .exec s c, some answer => some ((s, c), answer)
  | _, _ => none

/-- A file that some version of the crate left, and that is open at the last one only. -/
def File.Valid (f : File) : Prop :=
  ∃ v, f.database.Version v ∧ (f.opened = true → v = 3)

/-- What a file says: the table of a store, and the tables of the layer's own. -/
structure File.Says (own : String → Option TableData) (f : File) (t : Objects) : Prop where
  valid : f.Valid
  objects : f.database.objects = some t
  own : ∀ name ∉ reserved, f.database.tables name = own name

/-- An open valid file has the table of its objects. -/
theorem File.Says.tables {own : String → Option TableData} {f : File} {t : Objects}
    (h : f.Says own t) (hopened : f.opened = true) :
    f.database.Version 3 ∧ f.database.tables "objects" = some (.objectsScoped t) := by
  obtain ⟨v, hv, hlast⟩ := h.valid
  obtain rfl := hlast hopened
  refine ⟨hv, ?_⟩
  obtain _ | _ | _ | ⟨-, ⟨t', ht⟩, -, -⟩ := hv
  have hobjects := h.objects
  rw [Database.objects, ht] at hobjects
  rw [ht, Option.some.inj hobjects]

/-- An opening that applies any of the pending migrations keeps what the file says. -/
theorem File.Says.of_applyAll {own : String → Option TableData} {f : File} {t : Objects}
    (h : f.Says own t) {d : Database} (hsame : f.database.SameContents d) {v : Nat}
    (hv : d.Version v) {opened : Bool} (hlast : opened = true → v = 3) :
    (File.mk d opened).Says own t :=
  ⟨⟨v, hv, hlast⟩, hsame.objects.trans h.objects,
    fun name hname => (hsame.own name hname).trans (h.own name hname)⟩

section Life

variable {M : Migrator}

/-- **Opening a valid file succeeds**, and keeps what it says. -/
theorem File.Says.start (hM : M.Documented) {own : String → Option TableData} {f : File}
    {t : Objects} (h : f.Says own t) :
    ((fileMachine M T).step f .start).1.opened = true ∧
      ((fileMachine M T).step f .start).1.Says own t := by
  obtain ⟨v, hv, -⟩ := h.valid
  obtain ⟨d, v', hall, hv', hsame, hlast⟩ := Database.exists_applyAll hv 3
  have htake : (migrations.drop v).take 3 = f.database.pending := by
    rw [Database.pending_of_version hv]
    exact List.take_of_length_le (by rw [List.length_drop]; exact Nat.sub_le _ _)
  rw [htake, ← hM.run _ (Database.unchanged_of_version hv)] at hall
  have hstep : ((fileMachine M T).step f .start).1 = ⟨d, true⟩ := by
    simp only [fileMachine, hall]
  rw [hstep]
  exact ⟨rfl, h.of_applyAll hsame hv' fun _ => hlast (Nat.le_add_left 3 v)⟩

/-- **An opening that dies** keeps what the file says. -/
theorem File.Says.die (hM : M.Documented) {own : String → Option TableData} {f : File}
    {t : Objects} (h : f.Says own t) (n : Nat) :
    ((fileMachine M T).step f (.die n)).1.Says own t := by
  obtain ⟨v, hv, -⟩ := h.valid
  obtain ⟨k, hdie⟩ := hM.die f.database n (Database.unchanged_of_version hv)
  obtain ⟨d, v', hall, hv', hsame, -⟩ := Database.exists_applyAll hv k
  rw [← Database.pending_of_version hv] at hall
  have hstep : ((fileMachine M T).step f (.die n)).1 = ⟨d, false⟩ := by
    simp only [fileMachine, hdie, hall]
  rw [hstep]
  exact h.of_applyAll hsame hv' fun hopened => absurd hopened Bool.false_ne_true

/-- The end of the process changes nothing. -/
theorem File.Says.stop {own : String → Option TableData} {f : File} {t : Objects}
    (h : f.Says own t) : ((fileMachine M T).step f .stop).1.Says own t := by
  obtain ⟨v, hv, -⟩ := h.valid
  exact h.of_applyAll ⟨rfl, fun _ _ => rfl⟩ hv fun hopened => absurd hopened Bool.false_ne_true

/-- **An operation on the open file** is one on the table that it says. -/
theorem File.Says.exec {own : String → Option TableData} {f : File} {t : Objects}
    (h : f.Says own t) (hopened : f.opened = true) (s : Store) (c : Call T) :
    (f.exec s c).2 = some (s.exec t c).2 ∧ (f.exec s c).1.opened = true ∧
      (f.exec s c).1.Says own (s.exec t c).1 := by
  obtain ⟨hv, ht⟩ := h.tables hopened
  simp only [File.exec, hopened, ht]
  refine ⟨trivial, trivial, ⟨3, ?_, fun _ => rfl⟩, by simp [Database.objects],
    fun name hname => ?_⟩
  · obtain _ | _ | _ | ⟨happlied, -, hevents, hfree⟩ := hv
    exact .tenanted happlied ⟨(s.exec t c).1, by simp⟩ (by simpa using hevents)
      (by simpa using hfree)
  · have hne : name ≠ "objects" := fun heq => hname (heq ▸ List.mem_cons_self)
    simpa [Function.update_of_ne hne] using h.own name hname

end Life

end LayerKit
