import Mathlib.Data.List.DropRight
import LayerKit.Ledger

/-!
# The History of an Object

What the table holds, by the transcript of the run that led to it. A put of a key is a
`Write`, which leaves the handle, the clock reading and the payload; a delete that answers
true starts the key afresh. So the writes that count at a key are those `since` the last
such delete: the first of them created the row, the last of them wrote its payload, and
there is a row exactly when there is one of them.

The ledger mirrors the table operation by operation (`refines_run`); here its entries are
read off the transcript (`ledger_eq_entryOf`), by induction on the run from its end.

## Main results

* `ledger_eq_entryOf`: the entry at a key is made by the writes since the last delete.
* `history_law`: the rows of the table, the answers of its deletes and the order of its
  timestamps, by the transcript.
-/

open Sql

namespace LayerKit

variable {T : Type}

/-! ### Writes and removals -/

/-- An operation with its answer. -/
abbrev Exchange (T : Type) := (Store × Call T) × Answer T

/-- The transcript of a history, from no rows. -/
def transcript (ops : List (Store × Call T)) : List (Exchange T) :=
  ((storeMachine T).run Table.empty ops).2

/-- What a put leaves: its handle, its clock reading and the payload. -/
structure Write where
  store : Store
  now : String
  payload : String

/-- The put of a key that succeeded. -/
def writeOf (k : Key) : Exchange T → Option Write
  | ((s, .put J now kind id object), .put (.ok ())) =>
      match J.toString object with
      | .error _ => none
      | .ok payload => if s.key kind id = k then some ⟨s, now, payload⟩ else none
  | _ => none

/-- A delete of the key that answered true. -/
def removes (k : Key) : Exchange T → Bool
  | ((s, .delete kind id), .delete (.ok true)) => decide (s.key kind id = k)
  | _ => false

/-- The puts of a key. -/
def writes (k : Key) (tr : List (Exchange T)) : List Write :=
  tr.filterMap (writeOf k)

/-- The puts of a key after its last delete that answered true. -/
def since (k : Key) (tr : List (Exchange T)) : List Write :=
  writes k (tr.rtakeWhile fun x => !removes k x)

/-- The entry that a list of writes makes of no entry. -/
def entryOf (ws : List Write) : Option Entry :=
  ws.foldl (fun e w => some (Entry.write w.store w.now w.payload e)) none

/-- The clock reading that an operation takes. -/
def reading : Store × Call T → Option String
  | (_, .put _ now _ _ _) => some now
  | _ => none

/-- The clock readings of a history. -/
def readings (ops : List (Store × Call T)) : List String :=
  ops.filterMap reading

/-! ### One more operation -/

/-- One more operation adds its exchange. -/
theorem transcript_append (ops : List (Store × Call T)) (s : Store) (c : Call T) :
    transcript (ops ++ [(s, c)]) = transcript ops ++ [((s, c), (s.exec (tableAfter ops) c).2)] := by
  rw [transcript, Mealy.run_append_snd]
  rfl

/-- A transcript is of the operations that ran. -/
theorem map_fst_transcript (ops : List (Store × Call T)) : (transcript ops).map Prod.fst = ops :=
  Mealy.map_fst_run _ _ _

/-- One more operation is one more step of the ledger. -/
theorem ledger_append (ops : List (Store × Call T)) (s : Store) (c : Call T) :
    ledger (ops ++ [(s, c)]) = (ledger ops).exec s c := by
  rw [ledger, List.foldl_append]
  rfl

/-- One more exchange starts the key afresh, or adds its write if it is one. -/
theorem since_append (k : Key) (tr : List (Exchange T)) (x : Exchange T) :
    since k (tr ++ [x]) =
      if removes k x then [] else since k tr ++ (writeOf k x).toList := by
  rw [since, List.rtakeWhile_concat]
  cases hx : removes k x with
  | true => rfl
  | false =>
      have hwrite : writes k [x] = (writeOf k x).toList := by
        rw [writes, List.filterMap_cons]
        cases writeOf k x <;> rfl
      rw [since, ← hwrite]
      exact List.filterMap_append

/-- One more write is a write into the entry of the others. -/
theorem entryOf_append (ws : List Write) (w : Write) :
    entryOf (ws ++ [w]) = some (Entry.write w.store w.now w.payload (entryOf ws)) := by
  rw [entryOf, List.foldl_append]
  rfl

/-- **One operation on the entry of a key**: nothing, a removal that is answered by true,
or a write. -/
theorem ledger_step (ops : List (Store × Call T)) (s : Store) (c : Call T) (k : Key) :
    ledger (ops ++ [(s, c)]) k =
      if removes k ((s, c), (s.exec (tableAfter ops) c).2) then none
      else (writeOf k ((s, c), (s.exec (tableAfter ops) c).2)).elim (ledger ops k)
        fun w => some (Entry.write w.store w.now w.payload (ledger ops k)) := by
  rw [ledger_append]
  cases c with
  | put J now kind id object =>
      simp only [Ledger.exec, Store.exec, removes]
      cases hJ : J.toString object with
      | error e =>
          rw [Store.put_error hJ]
          rfl
      | ok payload =>
          rw [Store.put_ok hJ]
          simp only [writeOf, hJ]
          by_cases hk : s.key kind id = k
          · subst hk
            simp
          · rw [Function.update_of_ne (Ne.symm hk), if_neg hk]
            rfl
  | get J kind id => rfl
  | list J kind n => rfl
  | delete kind id =>
      -- The delete answers true when the handle reaches the entry, which then ends.
      simp only [Ledger.exec, Store.exec, Store.delete_snd, (refines_run ops).visible]
      by_cases hk : s.key kind id = k
      · subst hk
        rw [Function.update_self]
        cases hL : ledger ops (s.key kind id) with
        | none => rfl
        | some e => by_cases he : s.reaches e.creator <;> simp [Option.filter, he, removes, writeOf]
      · rw [Function.update_of_ne (Ne.symm hk)]
        cases ((ledger ops (s.key kind id)).filter fun e => decide (s.reaches e.creator)) <;>
          simp [removes, writeOf, hk]

/-- **The entry at a key is what the writes since its last removal make of none.** -/
theorem ledger_eq_entryOf (ops : List (Store × Call T)) (k : Key) :
    ledger ops k = entryOf (since k (transcript ops)) := by
  induction ops using List.reverseRecOn with
  | nil => rfl
  | append_singleton ops i ih =>
      obtain ⟨s, c⟩ := i
      rw [ledger_step, transcript_append, since_append, ih]
      split
      · rfl
      · cases writeOf k ((s, c), (s.exec (tableAfter ops) c).2) with
        | none => simp
        | some w => rw [Option.toList_some, entryOf_append]; rfl

/-! ### The first and the last write -/

/-- **The first write makes the entry, the last one leaves its payload.** -/
theorem entryOf_eq (ws : List Write) :
    entryOf ws = ws.head?.bind fun first => ws.getLast?.map fun last =>
      ⟨first.store, first.now, last.store, last.payload, last.now⟩ := by
  induction ws using List.reverseRecOn with
  | nil => rfl
  | append_singleton ws w ih =>
      rw [entryOf_append, ih, List.getLast?_concat]
      cases ws with
      | nil => rfl
      | cons first ws => simp [Entry.write, List.getLast?_cons]

/-- The writes since the last removal are the last ones. -/
theorem since_suffix (k : Key) (tr : List (Exchange T)) : since k tr <:+ writes k tr := by
  obtain ⟨before, hbefore⟩ := List.rtakeWhile_suffix (fun x => !removes k x) (l := tr)
  refine ⟨writes k before, ?_⟩
  conv_rhs => rw [← hbefore]
  exact List.filterMap_append.symm

/-- The last write is the last one since the creation. -/
theorem getLast?_since {k : Key} {tr : List (Exchange T)} (h : since k tr ≠ []) :
    (writes k tr).getLast? = (since k tr).getLast? := by
  obtain ⟨before, hbefore⟩ := since_suffix k tr
  rw [← hbefore, List.getLast?_append_of_ne_nil _ h]

/-- **The row of a key**, by the first and the last write since the last removal. -/
theorem row_eq {ops : List (Store × Call T)} {r : Row} (h : r ∈ (tableAfter ops).rows) :
    ∃ first last, (since r.key (transcript ops)).head? = some first ∧
      (since r.key (transcript ops)).getLast? = some last ∧
      r.project = first.store.project ∧ r.createdAt = first.now ∧
      r.payload = last.payload ∧ r.updatedAt = last.now := by
  rw [Table.mem_rows_iff, refines_run ops, ledger_eq_entryOf, entryOf_eq] at h
  obtain ⟨e, he, hrow⟩ := Option.map_eq_some_iff.mp h
  obtain ⟨first, hfirst, he⟩ := Option.bind_eq_some_iff.mp he
  obtain ⟨last, hlast, rfl⟩ := Option.map_eq_some_iff.mp he
  refine ⟨first, last, hfirst, hlast, ?_⟩
  rw [← hrow]
  exact ⟨rfl, rfl, rfl, rfl⟩

/-- There is a row exactly when there is a write since the last removal. -/
theorem exists_row_iff (ops : List (Store × Call T)) (k : Key) :
    (∃ r ∈ (tableAfter ops).rows, r.key = k) ↔ since k (transcript ops) ≠ [] := by
  have hrow : (∃ r ∈ (tableAfter ops).rows, r.key = k) ↔
      ∃ r, (tableAfter ops).lookup k = some r := by
    simp only [Table.lookup_eq_some_iff]
  rw [hrow, refines_run ops, ledger_eq_entryOf, entryOf_eq]
  cases since k (transcript ops) <;> simp [List.getLast?_cons]

/-! ### Deletes, and the other keys -/

/-- **What a delete answers and does.** It answers true when there is a row of the key that
has no project or the project of the handle, or the handle has none; and when it answers
false the table is as before. -/
theorem delete_answer (s : Store) (kind id : String) (t : Objects) :
    ∃ b, (s.delete kind id t).2 = .ok b ∧
      (b = true ↔ ∃ r ∈ t.rows, r.key = s.key kind id ∧
        (s.project = none ∨ r.project = none ∨ r.project = s.project)) ∧
      (b = false → (s.delete kind id t).1 = t) := by
  refine ⟨_, s.delete_snd kind id t, ?_, fun hnone => ?_⟩
  · simp only [Store.visible, Option.isSome_iff_exists, Option.filter_eq_some_iff,
      Table.lookup_eq_some_iff, Store.sees, decide_eq_true_eq, and_assoc]
    refine exists_congr fun r => and_congr_right fun _ => and_congr_right fun hkey => ?_
    exact and_iff_right (Store.key_eq_iff.mp hkey).1
  · have hselect : t.select (oneWhere kind id s.workspace s.project) = [] := by
      rw [Store.select_oneWhere]
      cases hvisible : s.visible t kind id with
      | none => rfl
      | some r =>
          rw [hvisible] at hnone
          cases hnone
    exact t.deleteWhere_of_select_eq_nil hselect

/-- An operation changes no row of a key that it doesn't touch. -/
theorem mem_exec_of_not (s : Store) (c : Call T) (t : Objects) {r : Row}
    (h : s.touches c ≠ some r.key) : r ∈ (s.exec t c).1.rows ↔ r ∈ t.rows := by
  rw [Table.mem_rows_iff, Table.mem_rows_iff]
  rcases s.exec_fst_cases c with
    hsame | ⟨now, kind, id, payload, hkey, hput⟩ | ⟨kind, id, hkey, hdelete⟩
  · rw [hsame]
  · have hne : r.key ≠ s.key kind id := fun hk => h (hk ▸ hkey)
    rw [hput, Store.lookup_putStatement, if_neg hne]
  · have hne : r.key ≠ s.key kind id := fun hk => h (hk ▸ hkey)
    rw [hdelete, Store.lookup_delete, if_neg hne]

/-! ### The clock -/

/-- Filtering for less keeps a sublist. -/
theorem sublist_filterMap {α β : Type*} {f g : α → Option β}
    (h : ∀ a b, f a = some b → g a = some b) (l : List α) :
    (l.filterMap f).Sublist (l.filterMap g) := by
  induction l with
  | nil => exact .slnil
  | cons a l ih =>
      rw [List.filterMap_cons, List.filterMap_cons]
      cases hf : f a with
      | none =>
          cases g a with
          | none => exact ih
          | some b => exact ih.cons b
      | some b =>
          rw [h a b hf]
          exact ih.cons_cons b

/-- A write has the clock reading of its operation. -/
theorem reading_of_writeOf {k : Key} {x : Exchange T} {w : Write} (h : writeOf k x = some w) :
    reading x.1 = some w.now := by
  unfold writeOf at h
  split at h
  · split at h
    · cases h
    · obtain ⟨-, hw⟩ := Option.ite_none_right_eq_some.mp h
      cases hw
      rfl
  · cases h

/-- The writes of a key were made at readings of the clock, in order. -/
theorem map_now_writes_sublist (ops : List (Store × Call T)) (k : Key) :
    ((writes k (transcript ops)).map Write.now).Sublist (readings ops) := by
  have hreadings : readings ops = (transcript ops).filterMap fun x => reading x.1 := by
    conv_lhs => rw [← map_fst_transcript ops, readings, List.filterMap_map]
    rfl
  rw [hreadings, writes, List.map_filterMap]
  refine sublist_filterMap (fun x now h => ?_) _
  obtain ⟨w, hw, rfl⟩ := Option.map_eq_some_iff.mp h
  exact reading_of_writeOf hw

/-- The first element of a chain is below the last. -/
theorem head_le_getLast {α : Type*} {le : α → α → Prop} (hrefl : ∀ a, le a a) {l : List α}
    (h : l.Pairwise le) {first last : α} (hfirst : l.head? = some first)
    (hlast : l.getLast? = some last) : le first last := by
  cases l with
  | nil => cases hfirst
  | cons a l =>
      cases hfirst
      rcases List.mem_cons.mp (List.mem_of_getLast? hlast) with rfl | hmem
      · exact hrefl last
      · exact (List.pairwise_cons.mp h).1 last hmem

/-- **With a clock that never goes back**, no row was created after it was updated. -/
theorem createdAt_le_updatedAt {le : String → String → Prop} (hrefl : ∀ now, le now now)
    {ops : List (Store × Call T)} (hclock : (readings ops).Pairwise le) {r : Row}
    (hr : r ∈ (tableAfter ops).rows) : le r.createdAt r.updatedAt := by
  obtain ⟨first, last, hfirst, hlast, -, hcreated, -, hupdated⟩ := row_eq hr
  have hsince : ((since r.key (transcript ops)).map Write.now).Pairwise le :=
    hclock.sublist (((since_suffix _ _).sublist.map Write.now).trans
      (map_now_writes_sublist ops r.key))
  rw [hcreated, hupdated]
  exact head_le_getLast hrefl hsince (by rw [List.head?_map, hfirst]; rfl)
    (by rw [List.getLast?_map, hlast]; rfl)

/-! ### The law -/

/-- **The law of the history**: what a history leaves in the table and what deletes answer
after it. -/
structure HistoryLaw (ops : List (Store × Call T)) : Prop where
  unique : ∀ k, ((tableAfter ops).rows.filter fun r => decide (r.key = k)).length ≤ 1
  exists_iff : ∀ k, (∃ r ∈ (tableAfter ops).rows, r.key = k) ↔ since k (transcript ops) ≠ []
  provenance : ∀ r ∈ (tableAfter ops).rows, ∃ first last,
    (since r.key (transcript ops)).head? = some first ∧
      (writes r.key (transcript ops)).getLast? = some last ∧
      r.project = first.store.project ∧ r.createdAt = first.now ∧
      r.payload = last.payload ∧ r.updatedAt = last.now
  delete_answer : ∀ (s : Store) kind id, ∃ b, (s.delete kind id (tableAfter ops)).2 = .ok b ∧
    (b = true ↔ ∃ r ∈ (tableAfter ops).rows, r.key = s.key kind id ∧
      (s.project = none ∨ r.project = none ∨ r.project = s.project)) ∧
    (b = false → (s.delete kind id (tableAfter ops)).1 = tableAfter ops)
  frame : ∀ (s : Store) (c : Call T) r, s.touches c ≠ some r.key →
    (r ∈ (s.exec (tableAfter ops) c).1.rows ↔ r ∈ (tableAfter ops).rows)
  clock : ∀ (le : String → String → Prop), (∀ now, le now now) → (readings ops).Pairwise le →
    ∀ r ∈ (tableAfter ops).rows, le r.createdAt r.updatedAt

/-- **Every history obeys the law.** -/
theorem history_law (ops : List (Store × Call T)) : HistoryLaw ops where
  unique k := (tableAfter ops).length_filter_key_le_one k
  exists_iff := exists_row_iff ops
  provenance r hr := by
    obtain ⟨first, last, hfirst, hlast, hrow⟩ := row_eq hr
    have hne : since r.key (transcript ops) ≠ [] := (exists_row_iff ops r.key).mp ⟨r, hr, rfl⟩
    exact ⟨first, last, hfirst, (getLast?_since hne).trans hlast, hrow⟩
  delete_answer s kind id := delete_answer s kind id (tableAfter ops)
  frame s c r h := mem_exec_of_not s c (tableAfter ops) h
  clock le hrefl hclock r hr := createdAt_le_updatedAt hrefl hclock hr

end LayerKit
