import LayerKit.Store

/-!
# Workspace Isolation

One table serves every tenant, and each operation goes through a handle scoped to one
workspace. Fix any set of workspaces. What the handles scoped to it are answered, and the
rows it is left with, do not depend on what the others do or on what rows they have: the
store satisfies the unwinding conditions for the calls issued through these handles, where
two tables look the same when their rows in these workspaces are the same
(`store_unwinding`).

The statements are confined in both directions. Through a handle of the set, a condition
selects and a write touches rows of the set only; through any other handle, rows outside
of it only.

## Main results

* `store_unwinding`: the unwinding conditions, for any set of workspaces.
* `workspace_noninterference`: a workspace cannot tell its run from the run in which no
  other workspace ever acted.
-/

open Sql

namespace LayerKit

variable {T : Type}

/-- The rows of the workspaces in `W`. -/
def rowsIn (W : String → Bool) (t : Objects) : List Row :=
  t.slice fun k => W k.workspace

/-- What `get` and `delete` select lies in the handle's workspace. -/
theorem workspace_of_oneWhere {s : Store} {kind id : String} {r : Row}
    (h : oneWhere kind id s.workspace s.project r = true) : r.workspace = s.workspace := by
  rw [oneWhere_eq, Bool.and_eq_true] at h
  exact Store.workspace_of_sees h.2

/-- What `list` selects lies in the handle's workspace. -/
theorem workspace_of_listWhere {s : Store} {kind : String} {r : Row}
    (h : listWhere kind s.workspace s.project r = true) : r.workspace = s.workspace := by
  rw [listWhere_eq, Bool.and_eq_true] at h
  exact Store.workspace_of_sees h.2

/-- The upsert writes a row of the handle's workspace. -/
theorem rowsIn_putStatement (W : String → Bool) (s : Store) (now kind id payload : String)
    (t : Objects) :
    rowsIn W (putStatement kind id payload now s.workspace s.project t) =
      if W s.workspace then
        Table.upsertRows Row.key (s.freshRow now kind id payload) (Row.overwrite payload now)
          (rowsIn W t)
      else rowsIn W t :=
  t.slice_insertOrUpdate (s.freshRow now kind id payload) (Row.overwrite payload now)
    (fun _ => rfl) fun k => W k.workspace

/-- The answer to an operation depends on the rows of the handle's workspace alone. -/
theorem Store.exec_snd_congr {W : String → Bool} {s : Store} (hs : W s.workspace = true)
    {t t' : Objects} (h : rowsIn W t = rowsIn W t') (c : Call T) :
    (s.exec t c).2 = (s.exec t' c).2 := by
  have hone : ∀ kind id, t.select (oneWhere kind id s.workspace s.project) =
      t'.select (oneWhere kind id s.workspace s.project) := by
    intro kind id
    have hp : ∀ r, oneWhere kind id s.workspace s.project r = true →
        W r.key.workspace = true := fun r hr => by
      rw [show r.key.workspace = s.workspace from workspace_of_oneWhere hr, hs]
    exact (t.select_eq_slice_filter (D := fun k => W k.workspace) hp).trans
      ((congrArg _ h).trans (t'.select_eq_slice_filter hp).symm)
  have hlist : ∀ kind, t.select (listWhere kind s.workspace s.project) =
      t'.select (listWhere kind s.workspace s.project) := by
    intro kind
    have hp : ∀ r, listWhere kind s.workspace s.project r = true →
        W r.key.workspace = true := fun r hr => by
      rw [show r.key.workspace = s.workspace from workspace_of_listWhere hr, hs]
    exact (t.select_eq_slice_filter (D := fun k => W k.workspace) hp).trans
      ((congrArg _ h).trans (t'.select_eq_slice_filter hp).symm)
  cases c with
  | put J now kind id object => simp only [exec, put]; cases J.toString object <;> rfl
  | get J kind id => simp only [exec, get, hone]
  | list J kind n => simp only [exec, Store.list, listStatement, hlist]
  | delete kind id => simp only [exec, delete, hone]

/-- What an operation leaves in the workspaces of a set does not depend on the other rows. -/
theorem Store.rowsIn_exec_congr {W : String → Bool} {t t' : Objects}
    (h : rowsIn W t = rowsIn W t') (s : Store) (c : Call T) :
    rowsIn W (s.exec t c).1 = rowsIn W (s.exec t' c).1 := by
  rcases s.exec_fst_cases c with
    hsame | ⟨now, kind, id, payload, -, hput⟩ | ⟨kind, id, -, hdelete⟩
  · rw [hsame, hsame, h]
  · rw [hput, hput, rowsIn_putStatement, rowsIn_putStatement, h]
  · rw [rowsIn, rowsIn] at h
    rw [hdelete, hdelete, rowsIn, rowsIn, delete, delete, Table.slice_deleteWhere,
      Table.slice_deleteWhere, h]

/-- An operation through any other handle leaves the rows of the set. -/
theorem Store.rowsIn_exec_of_not {W : String → Bool} {s : Store} (hs : W s.workspace = false)
    (t : Objects) (c : Call T) : rowsIn W (s.exec t c).1 = rowsIn W t := by
  rcases s.exec_fst_cases c with
    hsame | ⟨now, kind, id, payload, -, hput⟩ | ⟨kind, id, -, hdelete⟩
  · rw [hsame]
  · rw [hput, rowsIn_putStatement, hs, if_neg Bool.false_ne_true]
  · rw [hdelete]
    refine t.slice_deleteWhere_of_disjoint fun r hr => ?_
    rw [show r.key.workspace = s.workspace from workspace_of_oneWhere hr, hs]

/-- **The store unwinds** for the handles scoped to any set of workspaces. -/
theorem store_unwinding (W : String → Bool) :
    Unwinding (storeMachine T) (fun i => W i.1.workspace)
      (fun t t' => rowsIn W t = rowsIn W t') where
  answer h hs := Store.exec_snd_congr hs h _
  kept h _ := Store.rowsIn_exec_congr h _ _
  dropped h hs := (Store.rowsIn_exec_of_not hs _ _).trans h

/-- **Workspace noninterference.** Over any interleaving of operations through handles of
any scopes, a workspace is answered, and left with rows, as in the run from which every
operation of another workspace is removed and in which the other workspaces start with
any other rows. -/
theorem workspace_noninterference (w : String) (t t' : Objects) (ops : List (Store × Call T))
    (h : rowsIn (· = w) t = rowsIn (· = w) t') :
    ((storeMachine T).run t ops).2.filter (fun x => decide (x.1.1.workspace = w)) =
        ((storeMachine T).run t' (ops.filter fun i => decide (i.1.workspace = w))).2 ∧
      rowsIn (· = w) ((storeMachine T).run t ops).1 =
        rowsIn (· = w)
          ((storeMachine T).run t' (ops.filter fun i => decide (i.1.workspace = w))).1 :=
  (store_unwinding fun v => decide (v = w)).noninterference h ops

/-- Two workspaces write the same id of the same kind, and the first reads it back. -/
def collision : List (Store × Call Bool) :=
  [(⟨"a", none⟩, .put Serde.bool "t1" "item" "x" true),
    (⟨"b", some "p"⟩, .put Serde.bool "t2" "item" "x" false),
    (⟨"a", none⟩, .get Serde.bool "item" "x")]

/-- One workspace beside another that uses the same ids. -/
theorem workspace_noninterference_collision :
    ((storeMachine Bool).run Table.empty collision).2.filter
          (fun x => decide (x.1.1.workspace = "a")) =
        ((storeMachine Bool).run Table.empty
          (collision.filter fun i => decide (i.1.workspace = "a"))).2 ∧
      rowsIn (· = "a") ((storeMachine Bool).run Table.empty collision).1 =
        rowsIn (· = "a") ((storeMachine Bool).run Table.empty
          (collision.filter fun i => decide (i.1.workspace = "a"))).1 :=
  workspace_noninterference "a" Table.empty Table.empty collision rfl

end LayerKit
