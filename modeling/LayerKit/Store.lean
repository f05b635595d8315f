import LayerKit.Noninterference
import LayerKit.Sql

/-!
# The Object Store

The store of `store.rs` over the table of migration 0003. A `Store` handle is the scope it
was built with, a workspace and an optional project; the pool it shares with every other
handle is the table that each operation takes and returns. Each SQL statement is a function
of its numbered parameters, and the operation that runs it applies it to its bindings in
order, so a crossed pair of parameters would show.

Operations are atomic, and the objects of a call come with the serialization of their type,
so one run may mix objects of any types. A run of the store is a run of `storeMachine`,
whose inputs are calls issued through arbitrary handles.

## Main results

* `holds_scope`: the tenant filter keeps a row exactly when the handle sees it.
* `Store.get_eq`, `Store.delete_snd`: what the operations answer, by the visible row.
* `Store.lookup_putStatement`, `Store.lookup_delete`: what they do, key by key.
* `Store.exec_fst_cases`: an operation leaves the table, or is one upsert or one delete.
-/

open Sql

namespace LayerKit

/-! ### The table -/

/-- The primary key of `objects`. -/
structure Key where
  workspace : String
  kind : String
  id : String
deriving DecidableEq

/-- A row of `objects`. -/
structure Row where
  workspace : String
  project : Option String
  kind : String
  id : String
  payload : String
  createdAt : String
  updatedAt : String
deriving DecidableEq

/-- `PRIMARY KEY (workspace, kind, id)`. -/
def Row.key (r : Row) : Key where
  workspace := r.workspace
  kind := r.kind
  id := r.id

/-- The table `objects`. -/
abbrev Objects := Table Row Row.key

/-! ### The statements -/

/-- The tenant filter `SCOPE` of `?3` = workspace and `?4` = project. -/
def scope (p₃ : String) (p₄ : Option String) (r : Row) : Truth :=
  conj (equal (.text r.workspace) (.text p₃))
    (disj (isNull (.ofOption p₄))
      (disj (isNull (.ofOption r.project)) (equal (.ofOption r.project) (.ofOption p₄))))

/-- `DO UPDATE SET payload = ?3, updated_at = ?4`. -/
def Row.overwrite (p₃ p₄ : String) (r : Row) : Row :=
  { r with payload := p₃, updatedAt := p₄ }

/-- The upsert of `put`. -/
def putStatement (p₁ p₂ p₃ p₄ p₅ : String) (p₆ : Option String) (t : Objects) : Objects :=
  t.insertOrUpdate
    { kind := p₁, id := p₂, payload := p₃, createdAt := p₄, updatedAt := p₄,
      workspace := p₅, project := p₆ }
    (Row.overwrite p₃ p₄) (fun _ => rfl)

/-- The condition of `get` and `delete`. -/
def oneWhere (p₁ p₂ p₃ : String) (p₄ : Option String) (r : Row) : Bool :=
  holds (conj (equal (.text r.kind) (.text p₁))
    (conj (equal (.text r.id) (.text p₂)) (scope p₃ p₄ r)))

/-- The condition of `list`, whose `?2` is the limit. -/
def listWhere (p₁ p₃ : String) (p₄ : Option String) (r : Row) : Bool :=
  holds (conj (equal (.text r.kind) (.text p₁)) (scope p₃ p₄ r))

/-- `ORDER BY updated_at DESC, id DESC`. -/
def newestFirst (a b : Row) : Prop :=
  b.updatedAt < a.updatedAt ∨ (a.updatedAt = b.updatedAt ∧ b.id ≤ a.id)

/-- Rows are compared by their texts. -/
instance : DecidableRel newestFirst := fun a b =>
  inferInstanceAs
    (Decidable (b.updatedAt < a.updatedAt ∨ (a.updatedAt = b.updatedAt ∧ b.id ≤ a.id)))

/-- The query of `list`. -/
def listStatement (p₁ : String) (p₂ : Int64) (p₃ : String) (p₄ : Option String)
    (t : Objects) : List Row :=
  limit p₂ ((t.select (listWhere p₁ p₃ p₄)).insertionSort newestFirst)

/-! ### The operations -/

/-- How `serde_json` writes and reads the values of a type. -/
structure Serde (T : Type) where
  toString : T → Except String String
  fromStr : String → Except String T

/-- The JSON of `bool`. -/
def Serde.bool : Serde Bool where
  toString b := .ok (if b then "true" else "false")
  fromStr s := if s = "true" then .ok true else if s = "false" then .ok false
    else .error "invalid type"

/-- The errors of the store that its own code raises. -/
inductive SqlxError
  | encode (e : String)
  | decode (e : String)
deriving DecidableEq

/-- A handle on the store: its scope. -/
structure Store where
  workspace : String
  project : Option String
deriving DecidableEq

namespace Store

/-- The handle `Store::open` returns, on the unscoped namespace `''`. -/
def unscoped : Store where
  workspace := ""
  project := none

/-- `Store::scoped`: the same store confined to one tenant. -/
def scopedTo (_ : Store) (workspace : String) (project : Option String) : Store where
  workspace := workspace
  project := project

variable {T : Type}

/-- Decode the payload of a row. -/
def decode (J : Serde T) (r : Row) : Except SqlxError T :=
  (J.fromStr r.payload).mapError .decode

/-- Upsert an object at the clock reading `now`. -/
def put (s : Store) (J : Serde T) (now kind id : String) (object : T) (t : Objects) :
    Objects × Except SqlxError Unit :=
  match J.toString object with
  | .error e => (t, .error (.encode e))
  | .ok payload => (putStatement kind id payload now s.workspace s.project t, .ok ())

/-- Fetch one object, `none` when absent. -/
def get (s : Store) (J : Serde T) (kind id : String) (t : Objects) :
    Except SqlxError (Option T) :=
  match (t.select (oneWhere kind id s.workspace s.project)).head? with
  | none => .ok none
  | some r => (decode J r).map some

/-- Objects of one kind, most recently updated first. -/
def list (s : Store) (J : Serde T) (kind : String) (n : Int64) (t : Objects) :
    Except SqlxError (List T) :=
  (listStatement kind n s.workspace s.project t).mapM (decode J)

/-- Delete an object; `true` when a row was removed. -/
def delete (s : Store) (kind id : String) (t : Objects) : Objects × Except SqlxError Bool :=
  let p := oneWhere kind id s.workspace s.project
  (t.deleteWhere p, .ok (decide ((t.select p).length > 0)))

end Store

/-! ### Runs -/

/-- An operation of the store with its arguments. -/
inductive Call (T : Type)
  | put (J : Serde T) (now kind id : String) (object : T)
  | get (J : Serde T) (kind id : String)
  | list (J : Serde T) (kind : String) (n : Int64)
  | delete (kind id : String)

/-- The result of an operation. -/
inductive Answer (T : Type)
  | put (r : Except SqlxError Unit)
  | get (r : Except SqlxError (Option T))
  | list (r : Except SqlxError (List T))
  | delete (r : Except SqlxError Bool)

/-- Issue one operation through a handle. -/
def Store.exec {T : Type} (s : Store) (t : Objects) : Call T → Objects × Answer T
  | .put J now kind id object => ((s.put J now kind id object t).1,
      .put (s.put J now kind id object t).2)
  | .get J kind id => (t, .get (s.get J kind id t))
  | .list J kind n => (t, .list (s.list J kind n t))
  | .delete kind id => ((s.delete kind id t).1, .delete (s.delete kind id t).2)

/-- The store as a machine: its inputs are the operations issued through any handles. -/
def storeMachine (T : Type) : Mealy Objects (Store × Call T) (Answer T) where
  step t i := i.1.exec t i.2

/-! ### What a handle sees -/

/-- The row is of the handle's workspace, and of its project, of none, or the handle has
no project. -/
def Store.sees (s : Store) (r : Row) : Bool :=
  decide (r.workspace = s.workspace ∧
    (s.project = none ∨ r.project = none ∨ r.project = s.project))

/-- The key an id of a kind has in the workspace of a handle. -/
def Store.key (s : Store) (kind id : String) : Key where
  workspace := s.workspace
  kind := kind
  id := id

/-- **The tenant filter keeps what the handle sees.** -/
theorem holds_scope (s : Store) (r : Row) : holds (scope s.workspace s.project r) = s.sees r := by
  obtain ⟨w, p⟩ := s
  cases p <;> cases hr : r.project <;> simp [scope, Store.sees, Value.ofOption, hr]

/-- A row has the key of an object when it has its workspace, kind and id. -/
theorem Store.key_eq_iff {s : Store} {kind id : String} {r : Row} :
    r.key = s.key kind id ↔ r.workspace = s.workspace ∧ r.kind = kind ∧ r.id = id := by
  simp [Row.key, Store.key]

/-- What a handle sees lies in its workspace. -/
theorem Store.workspace_of_sees {s : Store} {r : Row} (h : s.sees r = true) :
    r.workspace = s.workspace := by
  simp only [Store.sees, decide_eq_true_eq] at h
  exact h.1

/-- The condition of `get` and `delete` picks the row at the handle's key, if the handle
sees it. -/
theorem oneWhere_eq (s : Store) (kind id : String) (r : Row) :
    oneWhere kind id s.workspace s.project r =
      (decide (r.key = s.key kind id) && s.sees r) := by
  rw [oneWhere, holds_conj, holds_conj, holds_scope]
  cases hs : s.sees r with
  | false => simp
  | true => simp [Store.key_eq_iff, Store.workspace_of_sees hs]

/-- The WHERE clause of `list` asks for the kind and for what the scope sees. -/
theorem listWhere_eq (s : Store) (kind : String) (r : Row) :
    listWhere kind s.workspace s.project r = (decide (r.kind = kind) && s.sees r) := by
  rw [listWhere, holds_conj, holds_scope]
  simp

namespace Store

variable {T : Type}

/-- The row at a key, if the handle sees it. -/
def visible (s : Store) (t : Objects) (kind id : String) : Option Row :=
  (t.lookup (s.key kind id)).filter s.sees

/-- The query of `get` and `delete` selects the visible row at the key. -/
theorem select_oneWhere (s : Store) (kind id : String) (t : Objects) :
    t.select (oneWhere kind id s.workspace s.project) = (s.visible t kind id).toList := by
  have hkey : ∀ r, oneWhere kind id s.workspace s.project r = true → r.key = s.key kind id := by
    intro r hr
    rw [oneWhere_eq, Bool.and_eq_true, decide_eq_true_eq] at hr
    exact hr.1
  rw [t.select_eq_toList hkey, visible]
  congr 1
  cases hl : t.lookup (s.key kind id) with
  | none => rfl
  | some r => simp [Option.filter, oneWhere_eq, Table.key_of_lookup hl]

/-- **What `get` returns**: the visible row at the key, decoded. -/
theorem get_eq (s : Store) (J : Serde T) (kind id : String) (t : Objects) :
    s.get J kind id t =
      match s.visible t kind id with
      | none => .ok none
      | some r => (decode J r).map some := by
  rw [get, select_oneWhere]
  cases s.visible t kind id <;> rfl

/-- **What `delete` answers**: whether the handle sees a row at the key. -/
theorem delete_snd (s : Store) (kind id : String) (t : Objects) :
    (s.delete kind id t).2 = .ok (s.visible t kind id).isSome := by
  simp only [delete, select_oneWhere]
  cases s.visible t kind id <;> rfl

/-- **What `delete` does**, key by key: it removes the visible row at the handle's key. -/
theorem lookup_delete (s : Store) (kind id : String) (t : Objects) (k : Key) :
    (s.delete kind id t).1.lookup k =
      if k = s.key kind id then (t.lookup k).filter fun r => !s.sees r else t.lookup k := by
  rw [delete, Table.lookup_deleteWhere]
  cases hl : t.lookup k with
  | none => simp
  | some r =>
      have hk : r.key = k := Table.key_of_lookup hl
      by_cases heq : k = s.key kind id
      · simp [Option.filter, oneWhere_eq, hk, heq]
      · simp [Option.filter, oneWhere_eq, hk, heq]

/-- The row `put` writes where none was. -/
def freshRow (s : Store) (now kind id payload : String) : Row where
  workspace := s.workspace
  project := s.project
  kind := kind
  id := id
  payload := payload
  createdAt := now
  updatedAt := now

/-- A failed serialization leaves the table. -/
theorem put_error {s : Store} {J : Serde T} {now kind id e : String} {object : T} {t : Objects}
    (h : J.toString object = .error e) :
    s.put J now kind id object t = (t, .error (.encode e)) := by
  rw [put, h]

/-- An object that encodes is put by the statement. -/
theorem put_ok {s : Store} {J : Serde T} {now kind id payload : String} {object : T}
    {t : Objects} (h : J.toString object = .ok payload) :
    s.put J now kind id object t =
      (putStatement kind id payload now s.workspace s.project t, .ok ()) := by
  rw [put, h]

/-- **What `put` does**, key by key: at the handle's key the row keeps its project and its
creation time and takes the payload and the update time, or a fresh row appears. -/
theorem lookup_putStatement (s : Store) (now kind id payload : String) (t : Objects) (k : Key) :
    (putStatement kind id payload now s.workspace s.project t).lookup k =
      if k = s.key kind id then
        some ((t.lookup k).elim (s.freshRow now kind id payload) (Row.overwrite payload now))
      else t.lookup k :=
  t.lookup_insertOrUpdate (s.freshRow now kind id payload) (Row.overwrite payload now)
    (fun _ => rfl) k

/-- The key that an operation writes or deletes. -/
def touches (s : Store) : Call T → Option Key
  | .put _ _ kind id _ => some (s.key kind id)
  | .get _ _ _ => none
  | .list _ _ _ => none
  | .delete kind id => some (s.key kind id)

/-- **What an operation does to the table**, whatever rows that has: nothing, one upsert, or
one delete. -/
theorem exec_fst_cases (s : Store) (c : Call T) :
    (∀ t, (s.exec t c).1 = t) ∨
    (∃ now kind id payload, s.touches c = some (s.key kind id) ∧
      ∀ t, (s.exec t c).1 = putStatement kind id payload now s.workspace s.project t) ∨
    (∃ kind id, s.touches c = some (s.key kind id) ∧
      ∀ t, (s.exec t c).1 = (s.delete kind id t).1) := by
  cases c with
  | put J now kind id object =>
      cases hJ : J.toString object with
      | error e => exact .inl fun t => congrArg Prod.fst (put_error hJ)
      | ok payload =>
          exact .inr (.inl ⟨now, kind, id, payload, rfl, fun t => congrArg Prod.fst (put_ok hJ)⟩)
  | get J kind id => exact .inl fun t => rfl
  | list J kind n => exact .inl fun t => rfl
  | delete kind id => exact .inr (.inr ⟨kind, id, rfl, fun t => rfl⟩)

end Store

end LayerKit
