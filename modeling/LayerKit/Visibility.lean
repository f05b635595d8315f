import LayerKit.Collect
import LayerKit.Ledger

/-!
# Who Sees What Was Written

Whether a handle gets or lists an object depends on the object's creator alone
(`hidden_iff`): the tenant filter reads the project column, and an overwrite leaves that
column as it was. Two expectations about writers fail for this reason, and each holds
again under a condition on the creator.

* A project can see what another one wrote: it wrote into an object that a
  workspace-wide caller, or the reader, had created (`project_confidentiality`).
* A caller may be unable to read back its own successful write: it wrote into an object
  that another project had created (`read_your_writes`).

## Main results

* `hidden_iff`: an object is hidden from exactly the handles that do not reach its creator.
* `project_confidentiality`: what a project wrote is hidden from another one unless the
  creator of the object is the other one or has no project.
* `read_your_writes`: a put is read back exactly when the caller reaches the creator, and then
  listed once as far as the other objects of the kind decode.
-/

open Sql Loop

namespace LayerKit

variable {T : Type}

/-! ### What `list` selects -/

/-- What `list` returns is of its kind, in the table and seen by the handle. -/
theorem Store.mem_listStatement {s : Store} {kind : String} {n : Int64} {t : Objects} {r : Row}
    (h : r ∈ listStatement kind n s.workspace s.project t) :
    r ∈ t.rows ∧ r.kind = kind ∧ s.sees r = true := by
  have hsort : r ∈ (t.select (listWhere kind s.workspace s.project)).insertionSort newestFirst := by
    rw [listStatement, limit] at h
    split at h
    · exact h
    · exact List.mem_of_mem_take h
  rw [(List.perm_insertionSort newestFirst _).mem_iff, Table.select, List.mem_filter,
    listWhere_eq, Bool.and_eq_true, decide_eq_true_eq] at hsort
  exact hsort

/-- Under a limit above the number of rows, `list` returns all it selects. -/
theorem Store.listStatement_perm (s : Store) (kind : String) {n : Int64} {t : Objects}
    (hn : (t.rows.length : ℤ) < n.toInt) :
    (listStatement kind n s.workspace s.project t).Perm
      (t.select (listWhere kind s.workspace s.project)) := by
  have hpos : ¬ n < 0 := by
    rw [Int64.lt_iff_toInt_lt]
    simp only [Int64.toInt_zero]
    omega
  have hperm := List.perm_insertionSort newestFirst
    (t.select (listWhere kind s.workspace s.project))
  have hlen : ((t.select (listWhere kind s.workspace s.project)).insertionSort
      newestFirst).length ≤ n.toNatClampNeg := by
    have hle : (t.select (listWhere kind s.workspace s.project)).length ≤ t.rows.length :=
      List.length_filter_le _ _
    rw [hperm.length_eq]
    rw [Int64.toNatClampNeg]
    omega
  rw [listStatement, limit, if_neg hpos, List.take_of_length_le hlen]
  exact hperm

/-! ### Hidden objects -/

/-- The handle neither gets the object nor finds it in a list. -/
def Hidden (T : Type) (t : Objects) (s : Store) (kind id : String) : Prop :=
  (∀ J : Serde T, s.get J kind id t = .ok none) ∧
    ∀ n, ∀ r ∈ listStatement kind n s.workspace s.project t, r.id ≠ id

/-- What an object's handle sees is what the query finds. -/
theorem hidden_iff_visible {t : Objects} {s : Store} {kind id : String} :
    Hidden T t s kind id ↔ s.visible t kind id = none := by
  constructor
  · intro h
    cases hv : s.visible t kind id with
    | none => rfl
    | some r =>
        have hget := h.1 ⟨fun _ => .error "", fun _ => .error ""⟩
        rw [Store.get_eq, hv] at hget
        cases hget
  · intro hv
    refine ⟨fun J => by rw [Store.get_eq, hv], ?_⟩
    rintro n r hr rfl
    obtain ⟨hmem, rfl, hsees⟩ := Store.mem_listStatement hr
    have hkey : r.key = s.key r.kind r.id :=
      Store.key_eq_iff.mpr ⟨Store.workspace_of_sees hsees, rfl, rfl⟩
    have hlook := Table.mem_rows_iff.mp hmem
    rw [hkey] at hlook
    rw [Store.visible, hlook, Option.filter_some, if_pos hsees] at hv
    cases hv

/-- **Visibility is by creator**: an object is hidden from exactly the handles that do
not reach its creator. -/
theorem hidden_iff {ops : List (Store × Call T)} {s : Store} {kind id : String} :
    Hidden T (tableAfter ops) s kind id ↔
      ∀ c, creator ops (s.key kind id) = some c → ¬ s.reaches c := by
  rw [hidden_iff_visible, (refines_run ops).visible, creator]
  cases ledger ops (s.key kind id) with
  | none => simp
  | some e => by_cases he : s.reaches e.creator <;> simp [Option.filter, he]

/-- A visible object is got with the payload of its last put. -/
theorem get_of_not_hidden {ops : List (Store × Call T)} {s : Store} {kind id : String}
    {writer : Store} {payload : String} (h : ¬ Hidden T (tableAfter ops) s kind id)
    (hlast : lastWrite ops (s.key kind id) = some (writer, payload)) (J : Serde T) :
    s.get J kind id (tableAfter ops) = ((J.fromStr payload).mapError .decode).map some := by
  rw [hidden_iff_visible, (refines_run ops).visible] at h
  cases he : ledger ops (s.key kind id) with
  | none => simp [he] at h
  | some e =>
      have hw := ledger_writer he
      rw [hlast, Option.some.injEq, Prod.mk.injEq] at hw
      have hreach : s.reaches e.creator := by
        by_contra hno
        simp [he, Option.filter, hno] at h
      rw [Store.get_eq, (refines_run ops).visible, he, Option.filter_some,
        if_pos (decide_eq_true hreach), hw.2]
      rfl

/-! ### Project confidentiality -/

/-- A workspace-wide object that a project overwrites. -/
def sharedThenProject : List (Store × Call Bool) :=
  [(⟨"w", none⟩, .put Serde.bool "t1" "item" "x" true),
    (⟨"w", some "p"⟩, .put Serde.bool "t2" "item" "x" false)]

/-- Confidentiality by writer fails: project `q` gets what project `p` wrote into a
workspace-wide object. -/
theorem not_confidential_by_writer :
    ¬ ∀ (ops : List (Store × Call Bool)) (w p q kind id payload : String), p ≠ q →
      lastWrite ops ⟨w, kind, id⟩ = some (⟨w, some p⟩, payload) →
        Hidden Bool (tableAfter ops) ⟨w, some q⟩ kind id := by
  intro h
  have hhidden := h sharedThenProject "w" "p" "q" "item" "x" "false" (by decide) rfl
  have hget : (⟨"w", some "q"⟩ : Store).get Serde.bool "item" "x"
      (tableAfter sharedThenProject) = .ok (some false) := rfl
  rw [hhidden.1 Serde.bool] at hget
  cases hget

/-- **Project confidentiality, by creator.** After any history, what project `p` of a
workspace wrote last into an object is hidden from the callers of project `q` exactly
when the object's creator has a project and it is not `q`; and when it is not hidden, it
is what they get. -/
theorem project_confidentiality (ops : List (Store × Call T)) (w p q kind id payload : String)
    (hlast : lastWrite ops ⟨w, kind, id⟩ = some (⟨w, some p⟩, payload)) :
    (Hidden T (tableAfter ops) ⟨w, some q⟩ kind id ↔
      ∀ c, creator ops ⟨w, kind, id⟩ = some c → c.project ≠ none ∧ c.project ≠ some q) ∧
    (¬ Hidden T (tableAfter ops) ⟨w, some q⟩ kind id → ∀ J : Serde T,
      (⟨w, some q⟩ : Store).get J kind id (tableAfter ops) =
        ((J.fromStr payload).mapError .decode).map some) := by
  constructor
  · rw [hidden_iff]
    simp [Store.key, Store.reaches]
  · intro hnot J
    exact get_of_not_hidden hnot hlast J

/-- The case of a workspace-wide object: it is not hidden. -/
theorem project_confidentiality_shared :
    (Hidden Bool (tableAfter sharedThenProject) ⟨"w", some "q"⟩ "item" "x" ↔
      ∀ c, creator sharedThenProject ⟨"w", "item", "x"⟩ = some c →
        c.project ≠ none ∧ c.project ≠ some "q") ∧
    (¬ Hidden Bool (tableAfter sharedThenProject) ⟨"w", some "q"⟩ "item" "x" →
      ∀ J : Serde Bool, (⟨"w", some "q"⟩ : Store).get J "item" "x"
          (tableAfter sharedThenProject) =
        ((J.fromStr "false").mapError .decode).map some) :=
  project_confidentiality sharedThenProject "w" "p" "q" "item" "x" "false" rfl

/-! ### Read your writes -/

/-- The other objects of the kind that the handle sees decode. -/
def OthersDecode (s : Store) (J : Serde T) (kind id : String) (t : Objects) : Prop :=
  ∀ r ∈ t.rows, r.kind = kind → s.sees r = true → r.id ≠ id →
    ∃ other, Store.decode J r = .ok other

/-- **What `list` makes of an object that can be got**: it holds the object once, or it fails
for another one. -/
structure ListsOnce (s : Store) (J : Serde T) (kind id : String) (object : T) (n : Int64)
    (t : Objects) : Prop where
  /-- When the other rows decode, the list is the object between theirs, none of which has its
  id. -/
  listed : OthersDecode s J kind id t → ∃ before row after newer older,
    listStatement kind n s.workspace s.project t = before ++ row :: after ∧ row.id = id ∧
    (∀ r ∈ before ++ after, r.id ≠ id) ∧
    List.Forall₂ (fun r other => Store.decode J r = .ok other) before newer ∧
    List.Forall₂ (fun r other => Store.decode J r = .ok other) after older ∧
    s.list J kind n t = .ok (newer ++ object :: older)
  /-- Otherwise it is the error of the first row that does not decode, another one. -/
  failed : ¬ OthersDecode s J kind id t → ∃ before row after e,
    listStatement kind n s.workspace s.project t = before ++ row :: after ∧ row.id ≠ id ∧
    (∀ r ∈ before, ∃ other, Store.decode J r = .ok other) ∧ Store.decode J row = .error e ∧
    s.list J kind n t = .error e

/-- Under a limit above the number of rows, the rows that `list` selects are those of the kind
that the handle sees. -/
theorem Store.mem_listStatement_iff (s : Store) (kind : String) {n : Int64} {t : Objects}
    (hn : (t.rows.length : ℤ) < n.toInt) {r : Row} :
    r ∈ listStatement kind n s.workspace s.project t ↔
      r ∈ t.rows ∧ r.kind = kind ∧ s.sees r = true := by
  rw [(s.listStatement_perm kind hn).mem_iff, Table.select, List.mem_filter, listWhere_eq,
    Bool.and_eq_true, decide_eq_true_eq]

/-- The row that a handle sees under an id stands among the listed ones once. -/
theorem Store.listStatement_split {s : Store} {kind id : String} {n : Int64} {t : Objects}
    {row : Row} (hv : s.visible t kind id = some row) (hn : (t.rows.length : ℤ) < n.toInt) :
    ∃ before after, listStatement kind n s.workspace s.project t = before ++ row :: after ∧
      row.id = id ∧ ∀ r ∈ before ++ after, r.id ≠ id := by
  obtain ⟨hlook, hsees⟩ := Option.filter_eq_some_iff.mp hv
  obtain ⟨hmem, hkey⟩ := Table.lookup_eq_some_iff.mp hlook
  obtain ⟨-, hkind, hid⟩ := Store.key_eq_iff.mp hkey
  have hrow : row ∈ listStatement kind n s.workspace s.project t :=
    (s.mem_listStatement_iff kind hn).mpr ⟨hmem, hkind, hsees⟩
  -- two listed rows with one id have one key, so the list holds the id once
  have hnodup : ((listStatement kind n s.workspace s.project t).map Row.key).Nodup :=
    ((s.listStatement_perm kind hn).map Row.key).nodup_iff.mpr
      (t.nodup.sublist (List.filter_sublist.map Row.key))
  obtain ⟨before, after, hsplit⟩ := List.append_of_mem hrow
  refine ⟨before, after, hsplit, hid, fun r hr hrid => ?_⟩
  have hr' : r ∈ listStatement kind n s.workspace s.project t := by
    rw [hsplit]
    exact List.mem_append.mpr ((List.mem_append.mp hr).imp_right (List.mem_cons_of_mem _))
  obtain ⟨-, hrkind, hrsees⟩ := Store.mem_listStatement hr'
  have hrkey : r.key = row.key :=
    (Store.key_eq_iff.mpr ⟨Store.workspace_of_sees hrsees, hrkind, hrid⟩).trans hkey.symm
  rw [hsplit, List.map_append, List.map_cons, List.nodup_middle, List.nodup_cons,
    ← List.map_append] at hnodup
  exact hnodup.1 (List.mem_map.mpr ⟨r, hr, hrkey⟩)

/-- A visible row that decodes is listed once. -/
theorem listsOnce_of_visible {s : Store} {J : Serde T} {kind id : String} {object : T}
    {n : Int64} {t : Objects} {row : Row} (hv : s.visible t kind id = some row)
    (hdec : Store.decode J row = .ok object) (hn : (t.rows.length : ℤ) < n.toInt) :
    ListsOnce s J kind id object n t := by
  obtain ⟨before, after, hsplit, hid, hothers⟩ := Store.listStatement_split hv hn
  -- the listed rows are the row itself and others
  have hlisted : ∀ r ∈ listStatement kind n s.workspace s.project t, r = row ∨ r.id ≠ id := by
    intro r hr
    rw [hsplit, List.mem_append, List.mem_cons] at hr
    rcases hr with hr | rfl | hr
    · exact .inr (hothers r (List.mem_append_left _ hr))
    · exact .inl rfl
    · exact .inr (hothers r (List.mem_append_right _ hr))
  constructor
  · intro hdecode
    have hall : ∀ r ∈ before ++ after, ∃ other, Store.decode J r = .ok other := by
      intro r hr
      have hr' : r ∈ listStatement kind n s.workspace s.project t := by
        rw [hsplit]
        exact List.mem_append.mpr ((List.mem_append.mp hr).imp_right (List.mem_cons_of_mem _))
      obtain ⟨hrmem, hrkind, hrsees⟩ := Store.mem_listStatement hr'
      exact hdecode r hrmem hrkind hrsees (hothers r hr)
    obtain ⟨newer, hnewer⟩ := exists_forall₂ fun r hr => hall r (List.mem_append_left _ hr)
    obtain ⟨older, holder⟩ := exists_forall₂ fun r hr => hall r (List.mem_append_right _ hr)
    refine ⟨before, row, after, newer, older, hsplit, hid, hothers, hnewer, holder, ?_⟩
    rw [Store.list, hsplit, mapM_eq_ok]
    exact List.rel_append hnewer (.cons hdec holder)
  · intro hno
    cases hlist : s.list J kind n t with
    | ok objects =>
        -- a list that is returned has decoded every row
        refine absurd (fun r hr hrkind hrsees _ => ?_) hno
        exact exists_mapM_eq_ok.mp ⟨objects, hlist⟩ r
          ((s.mem_listStatement_iff kind hn).mpr ⟨hr, hrkind, hrsees⟩)
    | error e =>
        obtain ⟨earlier, r, later, hsplit', hearlier, hr⟩ := mapM_eq_error_iff.mp hlist
        refine ⟨earlier, r, later, e, hsplit', ?_, hearlier, hr, rfl⟩
        rcases hlisted r (by rw [hsplit']; simp) with rfl | hne
        · rw [hdec] at hr
          cases hr
        · exact hne

/-- What is got is listed once. -/
theorem listsOnce_of_get {s : Store} {J : Serde T} {kind id : String} {object : T} {n : Int64}
    {t : Objects} (hget : s.get J kind id t = .ok (some object))
    (hn : (t.rows.length : ℤ) < n.toInt) : ListsOnce s J kind id object n t := by
  rw [Store.get_eq] at hget
  cases hv : s.visible t kind id with
  | none =>
      rw [hv] at hget
      cases hget
  | some row =>
      rw [hv] at hget
      dsimp only at hget
      cases hdec : Store.decode J row with
      | error e =>
          rw [hdec] at hget
          cases hget
      | ok object' =>
          rw [hdec] at hget
          cases hget
          exact listsOnce_of_visible hv hdec hn

/-- **Hidden from its own caller**: what a put writes is hidden from the caller exactly when
the object was there and the caller does not reach its creator. -/
theorem hidden_put (ops : List (Store × Call T)) {s : Store} {J : Serde T}
    {now kind id payload : String} {object : T} (hJ : J.toString object = .ok payload) :
    Hidden T (tableAfter (ops ++ [(s, .put J now kind id object)])) s kind id ↔
      ∃ c, creator ops (s.key kind id) = some c ∧ ¬ s.reaches c := by
  have hself : s.reaches s := .inr (.inr rfl)
  rw [hidden_iff, creator_put ops hJ]
  cases creator ops (s.key kind id) with
  | none => simp [hself]
  | some c => simp

/-- Another project's object that a project overwrites. -/
def projectThenProject : List (Store × Call Bool) :=
  [(⟨"w", some "p"⟩, .put Serde.bool "t1" "item" "x" true)]

/-- A number that another version of the program wrote, next to which a project writes. -/
def unreadableNeighbour : List (Store × Call Bool) :=
  [(⟨"w", none⟩, .put ⟨fun _ => .ok "5", Serde.bool.fromStr⟩ "t1" "item" "y" true)]

/-- Two expectations fail. A put that succeeds may be invisible to its own caller: it wrote into
an object of another project. And the caller of a put that it can get may be unable to list it:
another object of the kind does not decode. -/
theorem not_read_your_writes :
    (¬ ∀ (ops : List (Store × Call Bool)) (s : Store) (now kind id : String) (object : Bool),
      (s.put Serde.bool now kind id object (tableAfter ops)).2 = .ok () →
        s.get Serde.bool kind id (s.put Serde.bool now kind id object (tableAfter ops)).1 =
          .ok (some object)) ∧
    ¬ ∀ (ops : List (Store × Call Bool)) (s : Store) (now kind id : String) (object : Bool)
        (n : Int64), (s.put Serde.bool now kind id object (tableAfter ops)).2 = .ok () →
      (∀ c, creator ops (s.key kind id) = some c → s.reaches c) →
      ((s.put Serde.bool now kind id object (tableAfter ops)).1.rows.length : ℤ) < n.toInt →
        ∃ objects, s.list Serde.bool kind n
          (s.put Serde.bool now kind id object (tableAfter ops)).1 = .ok objects := by
  constructor
  · intro h
    have hget := h projectThenProject ⟨"w", some "q"⟩ "t2" "item" "x" false rfl
    have hnone : (⟨"w", some "q"⟩ : Store).get Serde.bool "item" "x"
        ((⟨"w", some "q"⟩ : Store).put Serde.bool "t2" "item" "x" false
          (tableAfter projectThenProject)).1 = .ok none := rfl
    rw [hnone] at hget
    cases hget
  · intro h
    have hnew : ∀ c, creator unreadableNeighbour ⟨"w", "item", "x"⟩ = some c →
        (⟨"w", none⟩ : Store).reaches c := fun c hc => by cases hc
    obtain ⟨objects, hlist⟩ := h unreadableNeighbour ⟨"w", none⟩ "t2" "item" "x" true 10 rfl hnew
      (by decide)
    have hfail : (⟨"w", none⟩ : Store).list Serde.bool "item" 10
        ((⟨"w", none⟩ : Store).put Serde.bool "t2" "item" "x" true
          (tableAfter unreadableNeighbour)).1 = .error (.decode "invalid type") := rfl
    rw [hfail] at hlist
    cases hlist

/-- **Read your writes, by creator.** After any history, a put that succeeds is got back
by its caller when the caller reaches the creator of the object it wrote into or wrote a new
one; and under a limit above the number of rows it is then listed once, unless another object
of the kind that the caller sees does not decode, whose error `list` returns. Otherwise the
object is hidden from its caller. -/
theorem read_your_writes (ops : List (Store × Call T)) (s : Store) (J : Serde T)
    (now kind id : String) (object : T)
    (hput : (s.put J now kind id object (tableAfter ops)).2 = .ok ())
    (hround : ∀ payload, J.toString object = .ok payload → J.fromStr payload = .ok object) :
    ((∀ c, creator ops (s.key kind id) = some c → s.reaches c) →
      s.get J kind id (s.put J now kind id object (tableAfter ops)).1 = .ok (some object) ∧
      ∀ n : Int64,
        ((s.put J now kind id object (tableAfter ops)).1.rows.length : ℤ) < n.toInt →
        ListsOnce s J kind id object n (s.put J now kind id object (tableAfter ops)).1) ∧
    ((∃ c, creator ops (s.key kind id) = some c ∧ ¬ s.reaches c) →
      Hidden T (s.put J now kind id object (tableAfter ops)).1 s kind id) := by
  cases hJ : J.toString object with
  | error e =>
      rw [Store.put_error hJ] at hput
      cases hput
  | ok payload =>
      have htable : (s.put J now kind id object (tableAfter ops)).1 =
          tableAfter (ops ++ [(s, .put J now kind id object)]) :=
        (tableAfter_append ops s (.put J now kind id object)).symm
      rw [htable, hidden_put ops hJ]
      refine ⟨fun hreach => ?_, fun hhidden => hhidden⟩
      have hseen : ¬ Hidden T (tableAfter (ops ++ [(s, .put J now kind id object)])) s kind id := by
        rw [hidden_put ops hJ]
        rintro ⟨c, hc, hno⟩
        exact hno (hreach c hc)
      have hget := get_of_not_hidden hseen (lastWrite_put ops hJ) J
      rw [hround payload hJ] at hget
      exact ⟨hget, fun n hn => listsOnce_of_get hget hn⟩

/-- A workspace-wide object, overwritten by a project and read back by it. -/
theorem read_your_writes_shared :
    ((∀ c, creator sharedThenProject ⟨"w", "item", "x"⟩ = some c →
        (⟨"w", some "p"⟩ : Store).reaches c) →
      (⟨"w", some "p"⟩ : Store).get Serde.bool "item" "x"
          ((⟨"w", some "p"⟩ : Store).put Serde.bool "t3" "item" "x" true
            (tableAfter sharedThenProject)).1 = .ok (some true) ∧
      ∀ n : Int64,
        (((⟨"w", some "p"⟩ : Store).put Serde.bool "t3" "item" "x" true
          (tableAfter sharedThenProject)).1.rows.length : ℤ) < n.toInt →
        ListsOnce ⟨"w", some "p"⟩ Serde.bool "item" "x" true n
          ((⟨"w", some "p"⟩ : Store).put Serde.bool "t3" "item" "x" true
            (tableAfter sharedThenProject)).1) ∧
    ((∃ c, creator sharedThenProject ⟨"w", "item", "x"⟩ = some c ∧
        ¬ (⟨"w", some "p"⟩ : Store).reaches c) →
      Hidden Bool ((⟨"w", some "p"⟩ : Store).put Serde.bool "t3" "item" "x" true
        (tableAfter sharedThenProject)).1 ⟨"w", some "p"⟩ "item" "x") :=
  read_your_writes sharedThenProject ⟨"w", some "p"⟩ Serde.bool "t3" "item" "x" true rfl (by
    intro payload h
    cases h
    rfl)

end LayerKit
