import LayerKit.Sql

/-!
# Statements over Many Rows

Two statements that write one row after the other. `INSERT INTO … SELECT …` is refused as a
whole when a row has the key of another (`Table.insertAll`). `UPDATE OR IGNORE …` skips the
rows whose update would have the key of another row (`Table.updateOrIgnore`).

An update may get in its own way: a row may be skipped for a row that is updated later, or
for one that was updated before. Neither happens when the update moves the rows it selects
to keys of their own, which none of these rows had. Then every row is updated by itself:
it is skipped exactly when the table before the statement had its new key
(`Table.rows_updateOrIgnore`).

## Main results

* `Table.insertAll_eq_some`: rows with new keys are appended.
* `Table.rows_updateOrIgnore`: what the update does to each row.
-/

namespace Sql.Table

variable {ρ κ : Type*} {key : ρ → κ} [DecidableEq κ]

/-! ### Inserting the rows of a query -/

/-- `INSERT INTO … VALUES …`, refused when a row has the key. -/
def insertRow (t : Table ρ key) (r : ρ) : Option (Table ρ key) :=
  if h : key r ∈ t.rows.map key then none
  else some
    { rows := t.rows ++ [r]
      nodup := by
        rw [List.map_append]
        exact t.nodup.append (List.nodup_singleton _) (List.disjoint_singleton.mpr h) }

/-- `INSERT INTO … SELECT …`, refused as a whole when one row is. -/
def insertAll (t : Table ρ key) (rows : List ρ) : Option (Table ρ key) :=
  rows.foldlM insertRow t

/-- **Rows with new keys are appended.** -/
theorem insertAll_eq_some {t : Table ρ key} {rows : List ρ}
    (h : ((t.rows ++ rows).map key).Nodup) :
    ∃ t', t.insertAll rows = some t' ∧ t'.rows = t.rows ++ rows := by
  induction rows generalizing t with
  | nil => exact ⟨t, rfl, (List.append_nil _).symm⟩
  | cons r rows ih =>
      have hkey : key r ∉ t.rows.map key := by
        rw [List.map_append, List.nodup_append'] at h
        exact fun hmem => h.2.2 hmem List.mem_cons_self
      obtain ⟨t', ht', hrows⟩ := ih (t := ⟨t.rows ++ [r], _⟩) (by simpa using h)
      refine ⟨t', ?_, by simpa using hrows⟩
      rw [insertAll, List.foldlM_cons, insertRow, dif_neg hkey]
      exact ht'

/-! ### Updating row after row -/

variable [DecidableEq ρ]

omit [DecidableEq κ] in
/-- Setting a row keeps the keys apart when its new key is free. -/
theorem nodup_replace {set : ρ → ρ} {r : ρ} {rows : List ρ} (hrows : (rows.map key).Nodup)
    (hfree : key (set r) ∉ (rows.filter fun r' => decide (r' ≠ r)).map key) :
    ((rows.map fun r' => if r' = r then set r else r').map key).Nodup := by
  have hother : ∀ r' ∈ rows, r' ≠ r → key r' ≠ key (set r) := fun r' hr' hne heq =>
    hfree (List.mem_map.mpr ⟨r', List.mem_filter.mpr ⟨hr', decide_eq_true hne⟩, heq⟩)
  rw [List.map_map]
  refine hrows.of_map.map_on fun x hx y hy hxy => ?_
  rw [Function.comp_apply, Function.comp_apply] at hxy
  by_cases hxr : x = r
  · by_cases hyr : y = r
    · rw [hxr, hyr]
    · rw [if_pos hxr, if_neg hyr] at hxy
      exact absurd hxy.symm (hother y hy hyr)
  · by_cases hyr : y = r
    · rw [if_neg hxr, if_pos hyr] at hxy
      exact absurd hxy (hother x hx hxr)
    · rw [if_neg hxr, if_neg hyr] at hxy
      exact List.inj_on_of_nodup_map hrows hx hy hxy

/-- One row of an `UPDATE OR IGNORE`, skipped when another row has the key of its
update. -/
def updateRow (set : ρ → ρ) (t : Table ρ key) (r : ρ) : Table ρ key :=
  if h : key (set r) ∈ (t.rows.filter fun r' => decide (r' ≠ r)).map key then t
  else
    { rows := t.rows.map fun r' => if r' = r then set r else r'
      nodup := nodup_replace t.nodup h }

/-- `UPDATE OR IGNORE … SET … WHERE p`. -/
def updateOrIgnore (t : Table ρ key) (p : ρ → Bool) (set : ρ → ρ) : Table ρ key :=
  (t.select p).foldl (updateRow set) t

/-- A row whose update has a new key is skipped exactly when the table has that key. -/
theorem rows_updateRow {set : ρ → ρ} {t : Table ρ key} {r : ρ} (hkey : key (set r) ≠ key r) :
    (updateRow set t r).rows =
      if key (set r) ∈ t.rows.map key then t.rows
      else t.rows.map fun r' => if r' = r then set r else r' := by
  have hmem : key (set r) ∈ (t.rows.filter fun r' => decide (r' ≠ r)).map key ↔
      key (set r) ∈ t.rows.map key := by
    constructor
    · exact fun h => (List.filter_sublist.map key).subset h
    · intro h
      obtain ⟨r', hr', heq⟩ := List.mem_map.mp h
      have hne : r' ≠ r := fun hr => hkey (hr ▸ heq.symm)
      exact List.mem_map.mpr ⟨r', List.mem_filter.mpr ⟨hr', decide_eq_true hne⟩, heq⟩
  rw [updateRow]
  by_cases h : key (set r) ∈ t.rows.map key
  · rw [dif_pos (hmem.mpr h), if_pos h]
  · rw [dif_neg fun h' => h (hmem.mp h'), if_neg h]

omit [DecidableEq κ] in
/-- The keys after the update of a row. -/
theorem mem_keys_replace {set : ρ → ρ} {r : ρ} {rows : List ρ} {k : κ} (hset : k ≠ key (set r))
    (hr : k ≠ key r) :
    k ∈ (rows.map fun r' => if r' = r then set r else r').map key ↔ k ∈ rows.map key := by
  simp only [List.mem_map]
  constructor
  · rintro ⟨_, ⟨x, hx, rfl⟩, hk⟩
    by_cases hxr : x = r
    · rw [if_pos hxr] at hk
      exact absurd hk.symm hset
    · rw [if_neg hxr] at hk
      exact ⟨x, hx, hk⟩
  · rintro ⟨x, hx, rfl⟩
    exact ⟨x, ⟨x, hx, if_neg fun hxr => hr (congrArg key hxr)⟩, rfl⟩

/-- **Rows moved to keys of their own** are updated by themselves, whatever the order. -/
theorem rows_foldl_updateRow {set : ρ → ρ} {rs : List ρ} {t : Table ρ key}
    (hrs : ∀ r ∈ rs, r ∈ t.rows) (hnodup : rs.Nodup)
    (hout : ∀ r ∈ rs, ∀ r' ∈ rs, key (set r) ≠ key r')
    (hinj : ∀ r ∈ rs, ∀ r' ∈ rs, key (set r) = key (set r') → r = r') :
    (rs.foldl (updateRow set) t).rows =
      t.rows.map fun r => if r ∈ rs ∧ key (set r) ∉ t.rows.map key then set r else r := by
  induction rs generalizing t with
  | nil => simp
  | cons r rs ih =>
      have hr : r ∈ r :: rs := List.mem_cons_self
      have hnot : r ∉ rs := (List.nodup_cons.mp hnodup).1
      have htail : ∀ r' ∈ rs, r' ∈ r :: rs := fun r' hr' => List.mem_cons_of_mem r hr'
      have hrow := rows_updateRow (t := t) (hout r hr r hr)
      have ih' := ih (t := updateRow set t r) ?_ (List.nodup_cons.mp hnodup).2
        (fun x hx y hy => hout x (htail x hx) y (htail y hy))
        (fun x hx y hy => hinj x (htail x hx) y (htail y hy))
      · rw [List.foldl_cons, ih', hrow]
        split
        · next hskip =>
            refine List.map_congr_left fun x hx => ?_
            by_cases hxr : x = r
            · subst hxr
              simp [hnot, hskip]
            · simp [hxr]
        · next hskip =>
            rw [List.map_map]
            refine List.map_congr_left fun x hx => ?_
            by_cases hxr : x = r
            · subst hxr
              have hmoved : set x ∉ rs := fun h => hout x hr _ (htail _ h) rfl
              simp [hskip, hmoved]
            · by_cases hxrs : x ∈ rs
              · have hkeys : key (set x) ∈ (t.rows.map fun r' =>
                    if r' = r then set r else r').map key ↔ key (set x) ∈ t.rows.map key :=
                  mem_keys_replace (fun h => hxr (hinj x (htail x hxrs) r hr h))
                    (hout x (htail x hxrs) r hr)
                simp only [Function.comp_apply, if_neg hxr, hxrs, true_and, hkeys,
                  htail x hxrs]
              · simp [hxr, hxrs]
      · intro x hx
        have hxr : x ≠ r := fun h => hnot (h ▸ hx)
        rw [hrow]
        split
        · exact hrs x (htail x hx)
        · exact List.mem_map.mpr ⟨x, hrs x (htail x hx), if_neg hxr⟩

/-- **The update, row by row**: the selected rows are updated, except those whose new key
the table already has. -/
theorem rows_updateOrIgnore {t : Table ρ key} {p : ρ → Bool} {set : ρ → ρ}
    (hout : ∀ r r', p r = true → p r' = true → key (set r) ≠ key r')
    (hinj : ∀ r r', p r = true → p r' = true → key (set r) = key (set r') → key r = key r') :
    (t.updateOrIgnore p set).rows =
      t.rows.map fun r => if p r = true ∧ key (set r) ∉ t.rows.map key then set r else r := by
  have hp : ∀ r ∈ t.select p, r ∈ t.rows ∧ p r = true := fun r hr => List.mem_filter.mp hr
  rw [updateOrIgnore, rows_foldl_updateRow (fun r hr => (hp r hr).1)
    (t.nodup.of_map.filter p)
    (fun r hr r' hr' => hout r r' (hp r hr).2 (hp r' hr').2)
    (fun r hr r' hr' h => List.inj_on_of_nodup_map t.nodup (hp r hr).1 (hp r' hr').1
      (hinj r r' (hp r hr).2 (hp r' hr').2 h))]
  refine List.map_congr_left fun r hr => ?_
  simp only [select, List.mem_filter, hr, true_and]

end Sql.Table
