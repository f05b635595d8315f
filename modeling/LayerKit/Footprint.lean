import LayerKit.Isolation

/-!
# Footprints of Store Operations

The **footprint** of an operation is the set of keys whose rows it can depend on or change:
one key, or for `list` the keys of its kind in the handle's workspace. Fix any set of keys.
The operations whose footprint lies in it are answered from the rows there, and no other
operation changes those rows or is able to read only them: the store satisfies the unwinding
conditions for the operations confined to the set (`footprint_unwinding`). Workspaces are
one such set; kinds and single ids are others.

## Main results

* `footprint_unwinding`: the unwinding conditions, for any set of keys.
* `footprint_noninterference`: what is confined to a set of keys cannot tell its run from
  the run of the confined operations alone.
-/

open Sql

namespace LayerKit

variable {T : Type}

/-- The keys whose rows an operation can depend on or change. -/
def Store.footprint (s : Store) : Call T → Key → Prop
  | .put _ _ kind id _, k => k = s.key kind id
  | .get _ kind id, k => k = s.key kind id
  | .list _ kind _, k => k.workspace = s.workspace ∧ k.kind = kind
  | .delete kind id, k => k = s.key kind id

/-- The footprint lies in a set of keys. -/
def Confined (D : Key → Bool) (i : Store × Call T) : Prop :=
  ∀ k, i.1.footprint i.2 k → D k = true

/-- What an operation writes or deletes is in its footprint, and is all of it. -/
theorem Store.footprint_of_touches {s : Store} {c : Call T} {k : Key}
    (h : s.touches c = some k) (k' : Key) : s.footprint c k' ↔ k' = k := by
  cases c with
  | put J now kind id object => rw [← Option.some.inj h]; exact Iff.rfl
  | get J kind id => cases h
  | list J kind n => cases h
  | delete kind id => rw [← Option.some.inj h]; exact Iff.rfl

/-- Two tables that agree on a set of keys are read alike by a condition confined to it. -/
theorem select_congr {D : Key → Bool} {t t' : Objects} (h : t.slice D = t'.slice D)
    {p : Row → Bool} (hp : ∀ r, p r = true → D r.key = true) : t.select p = t'.select p := by
  rw [t.select_eq_slice_filter hp, t'.select_eq_slice_filter hp, h]

/-- **An operation reads its footprint only.** -/
theorem Store.exec_snd_congr_of_confined {D : Key → Bool} {s : Store} {c : Call T}
    (hc : Confined D (s, c)) {t t' : Objects} (h : t.slice D = t'.slice D) :
    (s.exec t c).2 = (s.exec t' c).2 := by
  have hone : ∀ {kind id : String}, D (s.key kind id) = true →
      t.select (oneWhere kind id s.workspace s.project) =
        t'.select (oneWhere kind id s.workspace s.project) := by
    intro kind id hD
    refine select_congr h fun r hr => ?_
    rw [oneWhere_eq, Bool.and_eq_true, decide_eq_true_eq] at hr
    rw [hr.1, hD]
  cases c with
  | put J now kind id object => simp only [exec, put]; cases J.toString object <;> rfl
  | get J kind id => simp only [exec, get, hone (hc _ rfl)]
  | list J kind n =>
      have hlist : t.select (listWhere kind s.workspace s.project) =
          t'.select (listWhere kind s.workspace s.project) := by
        refine select_congr h fun r hr => hc _ ⟨workspace_of_listWhere hr, ?_⟩
        rw [listWhere_eq, Bool.and_eq_true, decide_eq_true_eq] at hr
        exact hr.1
      simp only [exec, Store.list, listStatement, hlist]
  | delete kind id => simp only [exec, delete, hone (hc _ rfl)]

/-- The upsert writes the row at the handle's key. -/
theorem slice_putStatement (D : Key → Bool) (s : Store) (now kind id payload : String)
    (t : Objects) :
    (putStatement kind id payload now s.workspace s.project t).slice D =
      if D (s.key kind id) then
        Table.upsertRows Row.key (s.freshRow now kind id payload) (Row.overwrite payload now)
          (t.slice D)
      else t.slice D :=
  t.slice_insertOrUpdate (s.freshRow now kind id payload) (Row.overwrite payload now)
    (fun _ => rfl) D

/-- What an operation leaves at a set of keys does not depend on the other rows. -/
theorem Store.slice_exec_congr {D : Key → Bool} {t t' : Objects} (h : t.slice D = t'.slice D)
    (s : Store) (c : Call T) : (s.exec t c).1.slice D = (s.exec t' c).1.slice D := by
  rcases s.exec_fst_cases c with
    hsame | ⟨now, kind, id, payload, -, hput⟩ | ⟨kind, id, -, hdelete⟩
  · rw [hsame, hsame, h]
  · rw [hput, hput, slice_putStatement, slice_putStatement, h]
  · rw [hdelete, hdelete, delete, delete, Table.slice_deleteWhere, Table.slice_deleteWhere, h]

/-- **An operation changes its footprint only.** -/
theorem Store.slice_exec_of_touches {D : Key → Bool} {s : Store} {c : Call T}
    (hc : ∀ k, s.touches c = some k → D k = false) (t : Objects) :
    (s.exec t c).1.slice D = t.slice D := by
  rcases s.exec_fst_cases c with
    hsame | ⟨now, kind, id, payload, htouch, hput⟩ | ⟨kind, id, htouch, hdelete⟩
  · rw [hsame]
  · rw [hput, slice_putStatement, hc _ htouch, if_neg Bool.false_ne_true]
  · rw [hdelete]
    refine t.slice_deleteWhere_of_disjoint fun r hr => ?_
    rw [oneWhere_eq, Bool.and_eq_true, decide_eq_true_eq] at hr
    rw [hr.1]
    exact hc _ htouch

/-- An operation that writes inside a set of keys is confined to it. -/
theorem confined_of_touches {D : Key → Bool} {s : Store} {c : Call T} {k : Key}
    (h : s.touches c = some k) (hD : D k = true) : Confined D (s, c) :=
  fun k' hk' => (Store.footprint_of_touches h k').mp hk' ▸ hD

open Classical in
/-- **The store unwinds** for the operations confined to any set of keys. -/
theorem footprint_unwinding (D : Key → Bool) :
    Unwinding (storeMachine T) (fun i => decide (Confined D i))
      (fun t t' => t.slice D = t'.slice D) where
  answer h hc := Store.exec_snd_congr_of_confined (of_decide_eq_true hc) h
  kept h _ := Store.slice_exec_congr h _ _
  dropped := by
    intro t t' i h hc
    refine (Store.slice_exec_of_touches (fun k hk => ?_) t).trans h
    cases hD : D k with
    | false => rfl
    | true => exact absurd (confined_of_touches hk hD) (of_decide_eq_false hc)

open Classical in
/-- **Footprint noninterference.** Over any interleaving of operations through any handles,
the operations confined to a set of keys, of one kind for example, are answered, and the
rows at these keys are left, as in the run of the confined operations alone, from any table
with the same rows there. -/
theorem footprint_noninterference (D : Key → Bool) (t t' : Objects)
    (ops : List (Store × Call T)) (h : t.slice D = t'.slice D) :
    ((storeMachine T).run t ops).2.filter (fun x => decide (Confined D x.1)) =
        ((storeMachine T).run t' (ops.filter fun i => decide (Confined D i))).2 ∧
      ((storeMachine T).run t ops).1.slice D =
        ((storeMachine T).run t' (ops.filter fun i => decide (Confined D i))).1.slice D :=
  (footprint_unwinding D).noninterference h ops

open Classical in
/-- The items of one workspace, beside another that writes the same ids. -/
theorem footprint_noninterference_collision :
    ((storeMachine Bool).run Table.empty collision).2.filter
          (fun x => decide (Confined (fun k => k.workspace = "b" && k.kind = "item") x.1)) =
        ((storeMachine Bool).run Table.empty (collision.filter fun i =>
          decide (Confined (fun k => k.workspace = "b" && k.kind = "item") i))).2 ∧
      ((storeMachine Bool).run Table.empty collision).1.slice
          (fun k => k.workspace = "b" && k.kind = "item") =
        ((storeMachine Bool).run Table.empty (collision.filter fun i =>
          decide (Confined (fun k => k.workspace = "b" && k.kind = "item") i))).1.slice
            (fun k => k.workspace = "b" && k.kind = "item") :=
  footprint_noninterference (fun k => k.workspace = "b" && k.kind = "item") Table.empty
    Table.empty collision rfl

end LayerKit
