import LayerKit.Text

/-!
# Ids

The id types of `newtype_id!` (`id.rs`): a UUID under a prefix. An id is shown as its prefix,
an underscore and the UUID, and is read from that or from the bare UUID.

How UUIDs are printed and parsed is a parameter (`UuidText`). All that the results take of it
is that parsing inverts printing and that no text with an underscore is one of a UUID. The
underscore of a shown id is then its last one, wherever else the prefix has some, so that the
prefix can be told from the text (`display_inj`).

## Main results

* `fromStr_eq_ok`: the texts that are read, with the UUID that is read of them.
* `ids_round_trip`: ids are read as they are shown, and never as ids of another prefix.
-/

open Text

namespace LayerKit

variable {U E : Type*}

/-- The printing and parsing of UUIDs. -/
structure UuidText (U E : Type*) where
  display : U → String
  parseStr : String → Except E U

/-- The ids with a literal as their prefix. -/
@[ext]
structure NewtypeId (U : Type*) (p : String) where
  uuid : U

namespace NewtypeId

/-- An id as it is shown. -/
def display {p : String} (X : UuidText U E) (id : NewtypeId U p) : String :=
  p ++ "_" ++ X.display id.uuid

/-- Read an id, with its prefix or without. -/
def fromStr (X : UuidText U E) (p s : String) : Except E (NewtypeId U p) := do
  let trimmed := (stripPrefix s (p ++ "_")).getD s
  return ⟨← X.parseStr trimmed⟩

end NewtypeId

section Ids

variable {X : UuidText U E}

/-- The characters of a shown id. -/
theorem toList_shown (p d : String) : (p ++ "_" ++ d).toList = p.toList ++ '_' :: d.toList := by
  rw [String.toList_append, String.toList_append, List.append_assoc]
  rfl

/-- A shown id has an underscore. -/
theorem mem_toList_shown (p d : String) : '_' ∈ (p ++ "_" ++ d).toList := by
  rw [toList_shown]
  exact List.mem_append_right _ List.mem_cons_self

/-- The text of a UUID has no underscore. -/
theorem notMem_of_parseStr_eq_ok
    (hunderscore : ∀ s, '_' ∈ s.toList → ∃ e, X.parseStr s = .error e) {s : String} {u : U}
    (h : X.parseStr s = .ok u) : '_' ∉ s.toList := by
  intro hmem
  obtain ⟨e, he⟩ := hunderscore s hmem
  rw [h] at he
  cases he

/-- **What is parsed**: the text after the prefix, or the text without one. -/
theorem fromStr_eq_ok_iff_trimmed {p s : String} {u : U} :
    NewtypeId.fromStr X p s = .ok ⟨u⟩ ↔
      X.parseStr ((stripPrefix s (p ++ "_")).getD s) = .ok u := by
  rw [NewtypeId.fromStr]
  cases X.parseStr ((stripPrefix s (p ++ "_")).getD s) with
  | error e => exact iff_of_false nofun nofun
  | ok v =>
      constructor
      · intro h
        exact congrArg (fun id : NewtypeId U p => Except.ok id.uuid) (Except.ok.inj h)
      · intro h
        rw [Except.ok.inj h]
        rfl

/-- **What is read** as an id: the bare text of its UUID, or that after the prefix and an
underscore. -/
theorem fromStr_eq_ok (hunderscore : ∀ s, '_' ∈ s.toList → ∃ e, X.parseStr s = .error e)
    {p s : String} {u : U} :
    NewtypeId.fromStr X p s = .ok ⟨u⟩ ↔
      X.parseStr s = .ok u ∨ ∃ rest, s = p ++ "_" ++ rest ∧ X.parseStr rest = .ok u := by
  rw [fromStr_eq_ok_iff_trimmed]
  cases hstrip : stripPrefix s (p ++ "_") with
  | none =>
      rw [Option.getD_none]
      refine ⟨.inl, ?_⟩
      rintro (hbare | ⟨rest, hs, -⟩)
      · exact hbare
      · rw [stripPrefix_eq_some.mpr hs] at hstrip
        cases hstrip
  | some rest =>
      obtain rfl := stripPrefix_eq_some.mp hstrip
      rw [Option.getD_some]
      constructor
      · intro hrest
        exact .inr ⟨rest, rfl, hrest⟩
      · rintro (hbare | ⟨other, hs, hother⟩)
        · exact absurd (mem_toList_shown p rest) (notMem_of_parseStr_eq_ok hunderscore hbare)
        · rwa [(String.append_right_inj _).mp hs]

/-- **A shown id tells its prefix**, from which its UUID is told by what follows the last
underscore. -/
theorem shown_inj {p q d d' : String} (hd : '_' ∉ d.toList) (hd' : '_' ∉ d'.toList) :
    p ++ "_" ++ d = q ++ "_" ++ d' ↔ p = q ∧ d = d' := by
  rw [← String.toList_inj, toList_shown, toList_shown, append_cons_inj hd hd', String.toList_inj,
    String.toList_inj]

/-- **Ids round-trip and are not confused.** An id is read from what it is shown as and from
its bare UUID, and the id of another prefix is never read, however the prefixes overlap. -/
theorem ids_round_trip (X : UuidText U E)
    (hdisplay : ∀ u, X.parseStr (X.display u) = .ok u)
    (hunderscore : ∀ s, '_' ∈ s.toList → ∃ e, X.parseStr s = .error e) (p q : String)
    (hpq : p ≠ q) (u : U) :
    NewtypeId.fromStr X p ((⟨u⟩ : NewtypeId U p).display X) = .ok ⟨u⟩ ∧
      NewtypeId.fromStr X p (X.display u) = .ok ⟨u⟩ ∧
      ∃ e, NewtypeId.fromStr X p ((⟨u⟩ : NewtypeId U q).display X) = .error e := by
  refine ⟨?_, ?_, ?_⟩
  · exact (fromStr_eq_ok hunderscore).mpr (.inr ⟨X.display u, rfl, hdisplay u⟩)
  · exact (fromStr_eq_ok hunderscore).mpr (.inl (hdisplay u))
  · cases hread : NewtypeId.fromStr X p ((⟨u⟩ : NewtypeId U q).display X) with
    | error e => exact ⟨e, rfl⟩
    | ok id =>
        have hu := notMem_of_parseStr_eq_ok hunderscore (hdisplay u)
        rcases (fromStr_eq_ok hunderscore).mp hread with hbare | ⟨rest, hs, hrest⟩
        · exact absurd (mem_toList_shown q _) (notMem_of_parseStr_eq_ok hunderscore hbare)
        · have hrest := notMem_of_parseStr_eq_ok hunderscore hrest
          exact absurd ((shown_inj hu hrest).mp hs).1.symm hpq

end Ids

/-! The hyphenated UUIDs. -/

/-- A UUID, by its 32 hexadecimal digits. -/
structure Uuid where
  digits : List (Fin 16)
  length_eq : digits.length = 32

/-- The lower-case digit of a value. -/
def hexDigit (d : Fin 16) : Char :=
  "0123456789abcdef".toList.get d

/-- The value of such a digit. -/
def hexValue (c : Char) : Fin 16 :=
  .ofNat 16 ("0123456789abcdef".toList.idxOf c)

/-- Put hyphens after groups of these sizes. -/
def hyphenate : List ℕ → List Char → List Char
  | [], cs => cs
  | n :: sizes, cs => cs.take n ++ '-' :: hyphenate sizes (cs.drop n)

/-- The hyphenated text of a UUID. -/
def Uuid.display (u : Uuid) : String :=
  .ofList (hyphenate [8, 4, 4, 4] (u.digits.map hexDigit))

/-- A text is parsed when it is that of its own digits. -/
def Uuid.parseStr (s : String) : Except String Uuid :=
  let digits := (s.toList.filter (· ≠ '-')).map hexValue
  if h : digits.length = 32 then
    if Uuid.display ⟨digits, h⟩ = s then .ok ⟨digits, h⟩ else .error "invalid character"
  else
    .error "invalid length"

/-- Without hyphens there is nothing to take off. -/
theorem filter_of_notMem {cs : List Char} (h : '-' ∉ cs) : cs.filter (· ≠ '-') = cs :=
  List.filter_eq_self.mpr fun _ hc => decide_eq_true fun heq => h (heq ▸ hc)

/-- Taking the hyphens off gives the digits back. -/
theorem filter_hyphenate {cs : List Char} (h : '-' ∉ cs) (sizes : List ℕ) :
    (hyphenate sizes cs).filter (· ≠ '-') = cs := by
  induction sizes generalizing cs with
  | nil => exact filter_of_notMem h
  | cons n sizes ih =>
      have htake : '-' ∉ cs.take n := fun hmem => h (List.mem_of_mem_take hmem)
      have hdrop : '-' ∉ cs.drop n := fun hmem => h (List.mem_of_mem_drop hmem)
      have hhyphen : ('-' :: hyphenate sizes (cs.drop n)).filter (· ≠ '-') = cs.drop n := by
        rw [List.filter_cons_of_neg (by decide), ih hdrop]
      rw [hyphenate, List.filter_append, filter_of_notMem htake, hhyphen, List.take_append_drop]

/-- Only hyphens are added. -/
theorem mem_hyphenate {cs : List Char} {sizes : List ℕ} {c : Char}
    (h : c ∈ hyphenate sizes cs) : c = '-' ∨ c ∈ cs := by
  induction sizes generalizing cs with
  | nil => exact .inr h
  | cons n sizes ih =>
      rw [hyphenate, List.mem_append, List.mem_cons] at h
      rcases h with h | h | h
      · exact .inr (List.mem_of_mem_take h)
      · exact .inl h
      · exact (ih h).imp_right List.mem_of_mem_drop

/-- A digit is read as its value, and is neither a hyphen nor an underscore. -/
theorem hexDigit_spec (d : Fin 16) :
    hexValue (hexDigit d) = d ∧ hexDigit d ≠ '-' ∧ hexDigit d ≠ '_' := by
  revert d
  decide

/-- The hyphenated text of a UUID and its reader. -/
def uuidText : UuidText Uuid String :=
  ⟨Uuid.display, Uuid.parseStr⟩

/-- A shown UUID is read back. -/
theorem uuidText_display (u : Uuid) : uuidText.parseStr (uuidText.display u) = .ok u := by
  have hno : '-' ∉ u.digits.map hexDigit := by
    intro hmem
    obtain ⟨d, -, hd⟩ := List.mem_map.mp hmem
    exact (hexDigit_spec d).2.1 hd
  have hdigits : (u.display.toList.filter (· ≠ '-')).map hexValue = u.digits := by
    rw [Uuid.display, String.toList_ofList, filter_hyphenate hno, List.map_map]
    exact (List.map_congr_left fun d _ => (hexDigit_spec d).1).trans (List.map_id _)
  simp only [uuidText, Uuid.parseStr, hdigits]
  rw [dif_pos u.length_eq, if_pos trivial]

/-- A text with an underscore is no UUID. -/
theorem uuidText_underscore (s : String) (h : '_' ∈ s.toList) :
    ∃ e, uuidText.parseStr s = .error e := by
  simp only [uuidText, Uuid.parseStr]
  split
  · split
    · next hs =>
        exfalso
        rw [← hs, Uuid.display, String.toList_ofList] at h
        rcases mem_hyphenate h with hhyphen | hmem
        · exact absurd hhyphen (by decide)
        · obtain ⟨d, -, hd⟩ := List.mem_map.mp hmem
          exact (hexDigit_spec d).2.2 hd
    · exact ⟨_, rfl⟩
  · exact ⟨_, rfl⟩

/-- A UUID of the seventh version. -/
def sampleUuid : Uuid where
  digits := [0, 1, 9, 0, 10, 11, 12, 13, 0, 0, 0, 0, 7, 0, 0, 0, 8, 0, 0, 0, 0, 0, 0, 0, 0, 0, 0, 0,
    0, 0, 0, 1]
  length_eq := rfl

/-- One prefix extends the other by an underscore. -/
theorem ids_round_trip_sampleUuid :
    NewtypeId.fromStr uuidText "ri" ((⟨sampleUuid⟩ : NewtypeId Uuid "ri").display uuidText) =
        .ok ⟨sampleUuid⟩ ∧
      NewtypeId.fromStr uuidText "ri" (uuidText.display sampleUuid) = .ok ⟨sampleUuid⟩ ∧
      ∃ e, NewtypeId.fromStr uuidText "ri"
        ((⟨sampleUuid⟩ : NewtypeId Uuid "ri_raw").display uuidText) = .error e :=
  ids_round_trip uuidText uuidText_display uuidText_underscore "ri" "ri_raw" (by decide)
    sampleUuid

end LayerKit
