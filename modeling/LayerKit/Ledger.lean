import Mathlib.Data.List.Induction
import LayerKit.Store

/-!
# The Ledger of an Object

What the store is for, key by key: an `Entry` is the provenance of an object, the handle
that created it and the handle that last wrote it, with what each of them left. A
`Ledger` has at most one entry a key; putting an object starts an entry or continues the
one there is, and deleting it ends the entry, if the caller sees the object. Neither knows
of rows, conditions or statements.

The table refines the ledger: the row at a key is the entry at it, with the project of the
**creator** and the payload of the **last writer** (`refines_run`). So the project column
is provenance: it says who created the object, not who wrote what it holds.

## Main results

* `Refines.exec`, `refines_run`: one operation, and any run from the empty table, is
  mirrored by the ledger.
* `ledger_writer`: an entry's payload is what the last successful put of its key wrote.
-/

open Sql

namespace LayerKit

variable {T : Type}

/-! ### Entries and ledgers -/

/-- The provenance of an object: who created it and who wrote it last. -/
structure Entry where
  creator : Store
  createdAt : String
  writer : Store
  payload : String
  updatedAt : String

/-- The entry of each object there is. -/
abbrev Ledger := Key → Option Entry

/-- A handle reaches the objects of a creator that has no project or the handle's own,
and every object when it has none. -/
def Store.reaches (s creator : Store) : Prop :=
  s.project = none ∨ creator.project = none ∨ creator.project = s.project

/-- Whether a scope reaches a creator is decided by comparing their projects. -/
instance (s creator : Store) : Decidable (s.reaches creator) :=
  inferInstanceAs (Decidable (_ ∨ _ ∨ _))

/-- The entry after a put of `payload` at `now`: a new one, or the old one with a new last
writer. -/
def Entry.write (s : Store) (now payload : String) : Option Entry → Entry
  | none => ⟨s, now, s, payload, now⟩
  | some e => { e with writer := s, payload := payload, updatedAt := now }

/-- The effect of an operation on the ledger. -/
def Ledger.exec (L : Ledger) (s : Store) : Call T → Ledger
  | .put J now kind id object =>
      match J.toString object with
      | .error _ => L
      | .ok payload =>
          Function.update L (s.key kind id) (some (Entry.write s now payload (L (s.key kind id))))
  | .get _ _ _ => L
  | .list _ _ _ => L
  | .delete kind id =>
      Function.update L (s.key kind id)
        ((L (s.key kind id)).filter fun e => decide (¬ s.reaches e.creator))

/-- The ledger of a history, from no objects. -/
def ledger (ops : List (Store × Call T)) : Ledger :=
  ops.foldl (fun L i => L.exec i.1 i.2) fun _ => none

/-- The handle that created the object at a key: the first put of the key since the last
delete that removed it. -/
def creator (ops : List (Store × Call T)) (k : Key) : Option Store :=
  (ledger ops k).map Entry.creator

/-- The table of a history, from no rows. -/
def tableAfter (ops : List (Store × Call T)) : Objects :=
  ((storeMachine T).run Table.empty ops).1

/-! ### The table refines the ledger -/

/-- The row of an entry. -/
def Entry.row (k : Key) (e : Entry) : Row where
  workspace := k.workspace
  project := e.creator.project
  kind := k.kind
  id := k.id
  payload := e.payload
  createdAt := e.createdAt
  updatedAt := e.updatedAt

/-- The row of an entry is stored under its key. -/
@[simp] theorem Entry.key_row (k : Key) (e : Entry) : (e.row k).key = k := rfl

/-- A handle sees the rows of the objects of its workspace that it reaches. -/
theorem Entry.sees_row (s : Store) (kind id : String) (e : Entry) :
    s.sees (e.row (s.key kind id)) = decide (s.reaches e.creator) := by
  rw [Store.sees, decide_eq_decide]
  simp [Entry.row, Store.key, Store.reaches]

/-- The table has the row of each entry, and no other. -/
def Refines (t : Objects) (L : Ledger) : Prop :=
  ∀ k, t.lookup k = (L k).map (Entry.row k)

/-- The empty table refines the empty ledger. -/
theorem Refines.empty : Refines Table.empty fun _ => none := fun _ => rfl

/-- What a handle sees at a key, by the ledger. -/
theorem Refines.visible {t : Objects} {L : Ledger} (h : Refines t L) (s : Store)
    (kind id : String) :
    s.visible t kind id =
      ((L (s.key kind id)).filter fun e => decide (s.reaches e.creator)).map
        (Entry.row (s.key kind id)) := by
  rw [Store.visible, h]
  cases L (s.key kind id) with
  | none => rfl
  | some e => by_cases he : s.reaches e.creator <;> simp [Option.filter, Entry.sees_row, he]

/-- **One operation refines**: the table after it is that of the ledger after it. -/
theorem Refines.exec {t : Objects} {L : Ledger} (h : Refines t L) (s : Store) (c : Call T) :
    Refines (s.exec t c).1 (L.exec s c) := by
  intro k
  cases c with
  | put J now kind id object =>
      simp only [Store.exec, Ledger.exec]
      cases hJ : J.toString object with
      | error e =>
          rw [Store.put_error hJ]
          exact h k
      | ok payload =>
          rw [Store.put_ok hJ, Store.lookup_putStatement, h k]
          dsimp only
          by_cases hk : k = s.key kind id
          · subst hk
            rw [if_pos rfl, Function.update_self]
            cases L (s.key kind id) <;> rfl
          · rw [if_neg hk, Function.update_of_ne hk]
  | get J kind id => exact h k
  | list J kind n => exact h k
  | delete kind id =>
      simp only [Store.exec, Ledger.exec, Store.lookup_delete]
      rw [h k]
      by_cases hk : k = s.key kind id
      · subst hk
        rw [if_pos rfl, Function.update_self]
        cases hL : L (s.key kind id) with
        | none => rfl
        | some e => by_cases he : s.reaches e.creator <;> simp [Option.filter, Entry.sees_row, he]
      · rw [if_neg hk, Function.update_of_ne hk]

/-- A run from a refined table ends in the table of the ledger. -/
theorem Refines.run {t : Objects} {L : Ledger} (h : Refines t L) (ops : List (Store × Call T)) :
    Refines ((storeMachine T).run t ops).1 (ops.foldl (fun L i => L.exec i.1 i.2) L) := by
  induction ops generalizing t L with
  | nil => exact h
  | cons i ops ih => exact ih (h.exec i.1 i.2)

/-- **The table of a history is that of its ledger.** -/
theorem refines_run (ops : List (Store × Call T)) : Refines (tableAfter ops) (ledger ops) :=
  Refines.empty.run ops

/-- One more operation is executed on the table so far. -/
theorem tableAfter_append (ops : List (Store × Call T)) (s : Store) (c : Call T) :
    tableAfter (ops ++ [(s, c)]) = (s.exec (tableAfter ops) c).1 := by
  rw [tableAfter, Mealy.run_append_fst]
  rfl

/-- A put leaves the creator of the object, or creates it. -/
theorem creator_put (ops : List (Store × Call T)) {s : Store} {J : Serde T}
    {now kind id payload : String} {object : T} (hJ : J.toString object = .ok payload) :
    creator (ops ++ [(s, .put J now kind id object)]) (s.key kind id) =
      some ((creator ops (s.key kind id)).getD s) := by
  rw [creator, creator, ledger, List.foldl_append, List.foldl_cons, List.foldl_nil, ← ledger,
    Ledger.exec, hJ]
  dsimp only
  rw [Function.update_self]
  cases ledger ops (s.key kind id) <;> rfl

/-! ### The last writer -/

/-- What a put that succeeds in serializing its object writes at a key, and who wrote
it. -/
def written (k : Key) : Store × Call T → Option (Store × String)
  | (s, .put J _ kind id object) =>
      match J.toString object with
      | .error _ => none
      | .ok payload => if s.key kind id = k then some (s, payload) else none
  | _ => none

/-- The last successful put of a key in a history: its handle and the payload it wrote. -/
def lastWrite (ops : List (Store × Call T)) (k : Key) : Option (Store × String) :=
  (ops.filterMap (written k)).getLast?

/-- A put that succeeds is the last one. -/
theorem lastWrite_put (ops : List (Store × Call T)) {s : Store} {J : Serde T}
    {now kind id payload : String} {object : T} (hJ : J.toString object = .ok payload) :
    lastWrite (ops ++ [(s, .put J now kind id object)]) (s.key kind id) = some (s, payload) := by
  simp [lastWrite, written, hJ]

/-- One operation moves an entry's last writer and payload exactly when it writes the
key. -/
theorem Ledger.exec_writer {L : Ledger} {i : Store × Call T} {k : Key} {e : Entry}
    (h : L.exec i.1 i.2 k = some e) :
    written k i = some (e.writer, e.payload) ∨
      (written k i = none ∧ ∃ e', L k = some e' ∧ e'.writer = e.writer ∧
        e'.payload = e.payload) := by
  obtain ⟨s, c⟩ := i
  cases c with
  | put J now kind id object =>
      simp only [Ledger.exec, written] at h ⊢
      cases hJ : J.toString object with
      | error err =>
          rw [hJ] at h
          exact .inr ⟨rfl, e, h, rfl, rfl⟩
      | ok payload =>
          rw [hJ] at h
          by_cases hk : s.key kind id = k
          · subst hk
            dsimp only at h
            rw [Function.update_self, Option.some.injEq] at h
            left
            rw [← h]
            cases L (s.key kind id) <;> simp [Entry.write]
          · dsimp only at h ⊢
            rw [Function.update_of_ne (Ne.symm hk)] at h
            exact .inr ⟨if_neg hk, e, h, rfl, rfl⟩
  | get J kind id => exact .inr ⟨rfl, e, h, rfl, rfl⟩
  | list J kind n => exact .inr ⟨rfl, e, h, rfl, rfl⟩
  | delete kind id =>
      simp only [Ledger.exec] at h
      refine .inr ⟨rfl, e, ?_, rfl, rfl⟩
      by_cases hk : s.key kind id = k
      · subst hk
        rw [Function.update_self, Option.filter_eq_some_iff] at h
        exact h.1
      · rwa [Function.update_of_ne (Ne.symm hk)] at h

/-- **What an object holds is what its last put wrote.** -/
theorem ledger_writer {ops : List (Store × Call T)} {k : Key} {e : Entry}
    (h : ledger ops k = some e) : lastWrite ops k = some (e.writer, e.payload) := by
  induction ops using List.reverseRecOn generalizing e with
  | nil => cases h
  | append_singleton ops i ih =>
      rw [ledger, List.foldl_append] at h
      rw [lastWrite, List.filterMap_append, List.getLast?_append]
      rcases Ledger.exec_writer h with hw | ⟨hw, e', he', hwriter, hpayload⟩
      · simp [hw]
      · have hlast := ih he'
        rw [lastWrite] at hlast
        simp [hw, hlast, hwriter, hpayload]

end LayerKit
