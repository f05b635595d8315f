import LayerKit.Footprint
import LayerKit.Listing
import LayerKit.Traces

/-!
# Conflicts between Store Operations

Two operations conflict when one of them writes or deletes a key in the footprint of the
other. Operations that do not conflict commute: each is answered alike before and after the
other, and both orders leave the same row at every key. The order of the rows in the table
may differ, but no operation notices that, since `list` sorts the rows it selects by a
strict order (`Store.sequence_congr`).

So a run of the store is determined by the order of its conflicting operations
(`conflict_equivalent_runs`).

## Main results

* `Store.exec_congr`: tables with the same rows are answered alike and stay the same.
* `store_independence`: the independence conditions.
* `conflict_equivalent_runs`: reordering operations that do not conflict changes no answer.
-/

open Sql

namespace LayerKit

variable {T : Type}

/-! ### Tables with the same rows -/

/-- Two tables have the same row at every key. -/
def SameRows (t t' : Objects) : Prop :=
  ∀ k, t.lookup k = t'.lookup k

/-- Having the same rows is an equivalence. -/
theorem sameRows_equivalence : Equivalence SameRows :=
  ⟨fun _ _ => rfl, fun h k => (h k).symm, fun h h' k => (h k).trans (h' k)⟩

/-- Such tables have the same rows, in whatever order. -/
theorem SameRows.mem_iff {t t' : Objects} (h : SameRows t t') (r : Row) :
    r ∈ t.rows ↔ r ∈ t'.rows := by
  rw [Table.mem_rows_iff, Table.mem_rows_iff, h]

/-- The sequence of a list is determined by the rows, whatever their order. -/
theorem Store.sequence_congr {t t' : Objects} (h : SameRows t t') (s : Store) (kind : String) :
    s.sequence kind t = s.sequence kind t' := by
  have hnodup : ∀ t, (s.sequence kind t).Nodup := fun t =>
    (s.sequence_pairwise kind t).imp fun hab heq => hab.2 (congrArg Row.id heq)
  have hperm : (s.sequence kind t).Perm (s.sequence kind t') :=
    (List.perm_ext_iff_of_nodup (hnodup t) (hnodup t')).mpr fun r => by
      rw [Store.mem_sequence, Store.mem_sequence, h.mem_iff]
  have hsorted : ∀ t, (s.sequence kind t).Pairwise newestFirst := fun t =>
    (s.sequence_pairwise kind t).imp And.left
  refine hperm.eq_of_pairwise (fun a b ha hb hab hba => ?_) (hsorted t) (hsorted t')
  -- two rows that each come first are of one time and one id, so of one key
  have hid : a.id = b.id := by
    rcases hab with hlt | ⟨heq, hle⟩
    · rcases hba with hlt' | ⟨heq', -⟩
      · exact absurd hlt (lt_asymm hlt')
      · exact absurd (heq' ▸ hlt) (lt_irrefl _)
    · rcases hba with hlt' | ⟨-, hle'⟩
      · exact absurd (heq ▸ hlt') (lt_irrefl _)
      · exact le_antisymm hle' hle
  obtain ⟨hmem, hkind, hsees⟩ := Store.mem_sequence.mp ha
  obtain ⟨hmem', hkind', hsees'⟩ := Store.mem_sequence.mp hb
  have hkey : a.key = s.key kind a.id :=
    Store.key_eq_iff.mpr ⟨Store.workspace_of_sees hsees, hkind, rfl⟩
  have hkey' : b.key = s.key kind a.id :=
    Store.key_eq_iff.mpr ⟨Store.workspace_of_sees hsees', hkind', hid.symm⟩
  have ha' := Table.mem_rows_iff.mp ((h.mem_iff a).mp hmem)
  rw [hkey, ← hkey', Table.mem_rows_iff.mp hmem'] at ha'
  exact (Option.some.inj ha').symm

/-- **Tables with the same rows** are answered alike and stay the same. -/
theorem Store.exec_congr {t t' : Objects} (h : SameRows t t') (s : Store) (c : Call T) :
    (s.exec t c).2 = (s.exec t' c).2 ∧ SameRows (s.exec t c).1 (s.exec t' c).1 := by
  have hvisible : ∀ kind id, s.visible t kind id = s.visible t' kind id := fun kind id => by
    rw [visible, visible, h]
  constructor
  · cases c with
    | put J now kind id object => simp only [exec, put]; cases J.toString object <;> rfl
    | get J kind id => simp only [exec, get_eq, hvisible]
    | list J kind n =>
        have hlist : listStatement kind n s.workspace s.project t =
            listStatement kind n s.workspace s.project t' :=
          congrArg (limit n) (s.sequence_congr h kind)
        simp only [exec, Store.list, hlist]
    | delete kind id => simp only [exec, delete_snd, hvisible]
  · intro k
    rcases s.exec_fst_cases c with
      hsame | ⟨now, kind, id, payload, -, hput⟩ | ⟨kind, id, -, hdelete⟩
    · rw [hsame, hsame, h]
    · rw [hput, hput, lookup_putStatement, lookup_putStatement, h]
    · rw [hdelete, hdelete, lookup_delete, lookup_delete, h]

/-! ### Independent operations -/

/-- Neither of two operations writes or deletes a key in the footprint of the other. -/
def Independent (i j : Store × Call T) : Prop :=
  (∀ k, i.1.touches i.2 = some k → ¬ j.1.footprint j.2 k) ∧
    ∀ k, j.1.touches j.2 = some k → ¬ i.1.footprint i.2 k

/-- The row at a key is its slice. -/
theorem lookup_eq_of_slice_eq {t t' : Objects} {k : Key}
    (h : t.slice (fun k' => decide (k' = k)) = t'.slice fun k' => decide (k' = k)) :
    t.lookup k = t'.lookup k := by
  have hlook : ∀ t : Objects, t.lookup k = (t.slice fun k' => decide (k' = k)).head? := by
    intro t
    rw [Table.lookup, Table.slice, List.head?_filter]
  rw [hlook, hlook, h]

/-- The rows at the keys of an operation's footprint are its own. -/
theorem Store.exec_snd_of_independent {i j : Store × Call T}
    (h : ∀ k, i.1.touches i.2 = some k → ¬ j.1.footprint j.2 k) (t : Objects) :
    (j.1.exec (i.1.exec t i.2).1 j.2).2 = (j.1.exec t j.2).2 := by
  classical
  refine Store.exec_snd_congr_of_confined (D := fun k => decide (j.1.footprint j.2 k))
    (fun k hk => decide_eq_true hk) ?_
  exact Store.slice_exec_of_touches (fun k hk => decide_eq_false (h k hk)) t

/-- The second operation is not noticed at the keys that it does not touch. -/
theorem Store.lookup_exec_exec {i j : Store × Call T} {k : Key}
    (hj : j.1.touches j.2 ≠ some k) (t : Objects) :
    (j.1.exec (i.1.exec t i.2).1 j.2).1.lookup k =
      (i.1.exec (j.1.exec t j.2).1 i.2).1.lookup k := by
  have hother : ∀ k', j.1.touches j.2 = some k' → decide (k' = k) = false := fun k' hk' =>
    decide_eq_false fun heq => hj (heq ▸ hk')
  refine lookup_eq_of_slice_eq ((Store.slice_exec_of_touches hother _).trans ?_)
  exact Store.slice_exec_congr (Store.slice_exec_of_touches hother t).symm i.1 i.2

/-- **Operations that do not conflict are independent.** -/
theorem store_independence : Independence (storeMachine T) Independent SameRows where
  equiv := sameRows_equivalence
  answer h := (Store.exec_congr h _ _).1
  next h := (Store.exec_congr h _ _).2
  symm h := ⟨h.2, h.1⟩
  unnoticed h := Store.exec_snd_of_independent h.1 _
  swapped := by
    intro t i j h k
    by_cases hj : j.1.touches j.2 = some k
    · -- then the first operation doesn't touch the key
      have hi : i.1.touches i.2 ≠ some k := fun hi =>
        h.1 k hi ((Store.footprint_of_touches hj k).mpr rfl)
      exact (Store.lookup_exec_exec hi t).symm
    · exact Store.lookup_exec_exec hj t

/-- **Conflict-equivalent runs.** Reorder the operations of a run by swapping neighbours
that do not conflict, through whatever handles they are issued. Then each operation is
answered as it was, so that the transcripts are reordered in the same way, and every key is
left with the same row. -/
theorem conflict_equivalent_runs (t : Objects) (ops ops' : List (Store × Call T))
    (h : Reordered Independent ops ops') :
    Reordered (fun x y => Independent x.1 y.1) ((storeMachine T).run t ops).2
        ((storeMachine T).run t ops').2 ∧
      ∀ k, ((storeMachine T).run t ops).1.lookup k = ((storeMachine T).run t ops').1.lookup k :=
  store_independence.reordered h t

/-- A table with an object of each of two kinds. -/
def twoKinds : Objects :=
  ((storeMachine Bool).run Table.empty [(Store.unscoped, .put Serde.bool "t1" "a" "x" true),
    (Store.unscoped, .put Serde.bool "t2" "b" "y" true)]).1

/-- A deletion of one of the objects and a list that has the other, either way round. -/
theorem conflict_equivalent_runs_swap :
    Reordered (fun x y => Independent x.1 y.1)
        ((storeMachine Bool).run twoKinds [(Store.unscoped, .delete "a" "x"),
          (Store.unscoped, .list Serde.bool "b" 1)]).2
        ((storeMachine Bool).run twoKinds [(Store.unscoped, .list Serde.bool "b" 1),
          (Store.unscoped, .delete "a" "x")]).2 ∧
      ∀ k, ((storeMachine Bool).run twoKinds [(Store.unscoped, .delete "a" "x"),
          (Store.unscoped, .list Serde.bool "b" 1)]).1.lookup k =
        ((storeMachine Bool).run twoKinds [(Store.unscoped, .list Serde.bool "b" 1),
          (Store.unscoped, .delete "a" "x")]).1.lookup k := by
  have hfree : Independent (T := Bool) (Store.unscoped, .delete "a" "x")
      (Store.unscoped, .list Serde.bool "b" 1) := by
    constructor
    · intro k hk
      rw [← Option.some.inj hk]
      intro hfoot
      exact absurd hfoot.2 (by decide)
    · intro k hk
      cases hk
  exact conflict_equivalent_runs twoKinds _ _ (.swap [] hfree [])

/-! The deletion finds its object, and the list has the other one. -/

example : (Store.unscoped.delete "a" "x" twoKinds).2 = .ok true := rfl

example : Store.unscoped.list Serde.bool "b" 1 twoKinds = .ok [true] := rfl

end LayerKit
