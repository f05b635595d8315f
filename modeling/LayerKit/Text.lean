import Mathlib.Data.List.DropRight
import Mathlib.Data.List.Infix
import Mathlib.Data.List.Lex
import Mathlib.Data.String.Basic

/-!
# Texts and the Occurrences of a Needle

A text is the list of its characters; its **byte offsets** are those of its UTF-8
encoding, as Rust's `str` counts them. This module has the three operations on texts that
speak of byte offsets (`byteLen`, `splitAtByte`, `find`), the order of bytes (`utf8_lt_iff`),
the ASCII case fold (`lower`), a small theory of the occurrences of a needle (`count`), and
the cutting of strings (`stripPrefix`, `splitOnce`, `trim` and the like).

The theory rests on one observation. When the first character of a needle does not come
back inside the needle, an occurrence can neither overlap another one nor start in a
prefix and reach over a place where that character stands. Counting is then additive at
every such place (`count_append_cons`), and the first occurrence after an occurrence-free
prefix is the one in plain sight (`breakOn_append`).

## Main results

* `splitAtByte_append`: the byte length of a prefix is a character boundary, and slicing
  there gives the prefix back.
* `exists_of_find_lower`: an offset found in the case-folded copy cuts the original text.
* `utf8_lt_iff`: strings are ordered as their bytes.
* `count_append_cons`: occurrences do not straddle a character the needle's tail lacks.
* `occurrence_append_cons`, `occurrence_append`: where an occurrence lies, at such a character
  and in a text that starts with the needle.
* `breakOn_append`: the first occurrence after an occurrence-free prefix.
-/

namespace Text

/-! ### Byte offsets -/

/-- The number of bytes of the UTF-8 encoding of a text. -/
def byteLen : List Char → ℕ
  | [] => 0
  | c :: s => c.utf8Size + byteLen s

/-- The empty text has no bytes. -/
@[simp] theorem byteLen_nil : byteLen [] = 0 := rfl

/-- A character has the bytes of its encoding. -/
@[simp] theorem byteLen_cons (c : Char) (s : List Char) :
    byteLen (c :: s) = c.utf8Size + byteLen s := rfl

/-- The bytes of two texts add up. -/
@[simp] theorem byteLen_append (a b : List Char) :
    byteLen (a ++ b) = byteLen a + byteLen b := by
  induction a with
  | nil => simp
  | cons c a ih => simp [ih, Nat.add_assoc]

/-- Cut a text at a byte offset. `none` is the panic of a slice whose end is not a
character boundary or lies past the end of the text. -/
def splitAtByte : List Char → ℕ → Option (List Char × List Char)
  | s, 0 => some ([], s)
  | [], _ + 1 => none
  | c :: s, n + 1 =>
      if c.utf8Size ≤ n + 1 then
        (splitAtByte s (n + 1 - c.utf8Size)).map fun r => (c :: r.1, r.2)
      else
        none

/-- The slice `&s[..n]`. -/
def sliceTo (s : List Char) (n : ℕ) : Option (List Char) :=
  (splitAtByte s n).map Prod.fst

/-- The slice `&s[n..]`. -/
def sliceFrom (s : List Char) (n : ℕ) : Option (List Char) :=
  (splitAtByte s n).map Prod.snd

/-- The byte length of a prefix is a character boundary, and cutting there gives the
prefix and the rest. -/
theorem splitAtByte_append (a b : List Char) :
    splitAtByte (a ++ b) (byteLen a) = some (a, b) := by
  induction a with
  | nil => cases b <;> rfl
  | cons c a ih =>
      have hc : 0 < c.utf8Size := c.utf8Size_pos
      obtain ⟨n, hn⟩ : ∃ n, byteLen (c :: a) = n + 1 :=
        ⟨byteLen (c :: a) - 1, by simp only [byteLen_cons]; omega⟩
      have hle : c.utf8Size ≤ n + 1 := by rw [← hn, byteLen_cons]; omega
      have hsub : n + 1 - c.utf8Size = byteLen a := by rw [← hn, byteLen_cons]; omega
      rw [hn, List.cons_append, splitAtByte, if_pos hle, hsub, ih]
      rfl

/-- Up to the end of the first text stands the first text. -/
@[simp] theorem sliceTo_append (a b : List Char) :
    sliceTo (a ++ b) (byteLen a) = some a := by
  simp [sliceTo, splitAtByte_append]

/-- From the end of the first text stands the second. -/
@[simp] theorem sliceFrom_append (a b : List Char) :
    sliceFrom (a ++ b) (byteLen a) = some b := by
  simp [sliceFrom, splitAtByte_append]

/-! ### The order of bytes -/

/-- The UTF-8 bytes of a string. -/
def utf8 (s : String) : List UInt8 :=
  s.toList.flatMap String.utf8EncodeChar

/-- Octets are compared as numbers, the first one first. -/
theorem cons_ofNat_lt {a b : ℕ} (ha : a < 256) (hb : b < 256) {x y : List UInt8} :
    UInt8.ofNat a :: x < UInt8.ofNat b :: y ↔ a < b ∨ (a = b ∧ x < y) := by
  have hlt : UInt8.ofNat a < UInt8.ofNat b ↔ a < b := by
    rw [UInt8.lt_iff_toNat_lt, UInt8.toNat_ofNat_of_lt' ha, UInt8.toNat_ofNat_of_lt' hb]
  have heq : UInt8.ofNat a = UInt8.ofNat b ↔ a = b := by
    rw [← UInt8.toNat_inj, UInt8.toNat_ofNat_of_lt' ha, UInt8.toNat_ofNat_of_lt' hb]
  rw [List.cons_lt_cons_iff, hlt, heq]

/-- Continuation bytes, each of six bits and the most significant first. -/
def continuation : ℕ → ℕ → List UInt8
  | 0, _ => []
  | k + 1, n => UInt8.ofNat (n / 64 ^ k % 64 + 128) :: continuation k n

/-- Continuations are compared as the numbers that they encode. -/
theorem continuation_append_lt {k a b : ℕ} (h : a % 64 ^ k < b % 64 ^ k) (x y : List UInt8) :
    continuation k a ++ x < continuation k b ++ y := by
  induction k with
  | zero => omega
  | succ k ih =>
      rw [Nat.pow_succ, Nat.mod_mul, Nat.mod_mul] at h
      have hb := Nat.mod_lt b (Nat.pow_pos (n := k) (Nat.zero_lt_succ 63))
      have hle : a / 64 ^ k % 64 ≤ b / 64 ^ k % 64 := by
        refine Nat.le_of_lt_succ (Nat.lt_of_mul_lt_mul_left (a := 64 ^ k) ?_)
        rw [Nat.mul_succ]
        omega
      rw [continuation, continuation, List.cons_append, List.cons_append,
        cons_ofNat_lt (by omega) (by omega)]
      rcases hle.lt_or_eq with hlt | heq
      · exact .inl (by omega)
      · rw [heq, Nat.add_lt_add_iff_right] at h
        exact .inr ⟨by rw [heq], ih h⟩

/-- The leading byte of a character with its number of continuation bytes. -/
inductive Leads (n : ℕ) : ℕ → ℕ → Prop
  | one (h : n < 0x80) : Leads n 0 n
  | two (h : 0x80 ≤ n) (h' : n < 0x800) : Leads n 1 (n / 64 + 0xC0)
  | three (h : 0x800 ≤ n) (h' : n < 0x10000) : Leads n 2 (n / 4096 + 0xE0)
  | four (h : 0x10000 ≤ n) (h' : n < 0x110000) : Leads n 3 (n / 262144 + 0xF0)

/-- A character is a lead octet and its continuation. -/
theorem exists_leads (c : Char) : ∃ k lead, Leads c.val.toNat k lead ∧
    String.utf8EncodeChar c = UInt8.ofNat lead :: continuation k c.val.toNat := by
  have hc : c.val.toNat < 0x110000 := by
    rcases c.valid with hlow | hhigh
    · exact lt_trans hlow (by decide)
    · exact hhigh.2
  unfold String.utf8EncodeChar
  dsimp only
  split_ifs with h₁ h₂ h₃
  · exact ⟨0, _, .one (by omega), rfl⟩
  · refine ⟨1, _, .two (by omega) (by omega), ?_⟩
    rw [Nat.mod_eq_of_lt (by omega)]
    simp [continuation]
  · refine ⟨2, _, .three (by omega) (by omega), ?_⟩
    rw [Nat.mod_eq_of_lt (by omega)]
    simp [continuation]
  · refine ⟨3, _, .four (by omega) hc, ?_⟩
    rw [Nat.mod_eq_of_lt (by omega)]
    simp [continuation]

/-- A lead is an octet. -/
theorem Leads.lt_256 {n k lead : ℕ} (h : Leads n k lead) : lead < 256 := by
  cases h <;> omega

/-- **The leading bytes** are compared first, and then what follows them. -/
theorem Leads.lt_or_eq {a b k l i j : ℕ} (ha : Leads a k i) (hb : Leads b l j) (h : a < b) :
    i < j ∨ (i = j ∧ k = l ∧ a % 64 ^ k < b % 64 ^ k) := by
  cases ha <;> cases hb <;> omega

/-- **A lesser character has lesser bytes.** -/
theorem utf8EncodeChar_append_lt {c d : Char} (h : c < d) (x y : List UInt8) :
    String.utf8EncodeChar c ++ x < String.utf8EncodeChar d ++ y := by
  obtain ⟨k, i, hi, hc⟩ := exists_leads c
  obtain ⟨l, j, hj, hd⟩ := exists_leads d
  rw [hc, hd, List.cons_append, List.cons_append, cons_ofNat_lt hi.lt_256 hj.lt_256]
  rcases hi.lt_or_eq hj (UInt32.lt_iff_toNat_lt.mp h) with hlt | ⟨heq, rfl, hlt⟩
  · exact .inl hlt
  · exact .inr ⟨heq, continuation_append_lt hlt _ _⟩

/-- A lesser text has the lesser encoding. -/
theorem flatMap_utf8EncodeChar_lt {a b : List Char} (h : a < b) :
    a.flatMap String.utf8EncodeChar < b.flatMap String.utf8EncodeChar := by
  induction a generalizing b with
  | nil =>
      cases b with
      | nil => exact absurd h (List.not_lt_nil _)
      | cons d b =>
          rw [List.flatMap_nil, List.flatMap_cons]
          have hne : String.utf8EncodeChar d ≠ [] := by
            rw [← List.length_pos_iff, String.length_utf8EncodeChar]
            exact d.utf8Size_pos
          obtain ⟨byte, bytes, hbytes⟩ := List.exists_cons_of_ne_nil hne
          rw [hbytes, List.cons_append]
          exact List.nil_lt_cons _ _
  | cons c a ih =>
      cases b with
      | nil => exact absurd h (List.not_lt_nil _)
      | cons d b =>
          rw [List.flatMap_cons, List.flatMap_cons]
          rcases List.cons_lt_cons_iff.mp h with hlt | ⟨rfl, hlt⟩
          · exact utf8EncodeChar_append_lt hlt _ _
          · exact List.append_left_lt (ih hlt)

/-- **The order of strings is the order of their bytes.** -/
theorem utf8_lt_iff {s t : String} : utf8 s < utf8 t ↔ s < t := by
  have hlt : ∀ {s t : String}, s < t → utf8 s < utf8 t := fun h =>
    flatMap_utf8EncodeChar_lt (String.lt_iff_toList_lt.mp h)
  refine ⟨fun h => ?_, hlt⟩
  rcases lt_trichotomy s t with hst | rfl | hts
  · exact hst
  · exact absurd h (List.lt_irrefl _)
  · exact absurd h (List.lt_asymm (hlt hts))

/-! ### ASCII case folding -/

/-- Rust's `to_ascii_lowercase`. -/
def lower (s : List Char) : List Char :=
  s.map Char.toLower

/-- The empty text has no letters. -/
@[simp] theorem lower_nil : lower [] = [] := rfl

/-- Lowering goes character by character. -/
@[simp] theorem lower_cons (c : Char) (s : List Char) :
    lower (c :: s) = c.toLower :: lower s := rfl

/-- Two texts are lowered each by itself. -/
@[simp] theorem lower_append (a b : List Char) : lower (a ++ b) = lower a ++ lower b :=
  List.map_append

/-- Folding an ASCII letter leaves its width, and no other character moves. -/
theorem utf8Size_toLower (c : Char) : c.toLower.utf8Size = c.utf8Size := by
  unfold Char.toLower
  split
  · next h =>
      have hlo : 'A'.val.toNat ≤ c.val.toNat := UInt32.le_iff_toNat_le.mp h.1
      have hhi : c.val.toNat ≤ 'Z'.val.toNat := UInt32.le_iff_toNat_le.mp h.2
      have hc : c.utf8Size = 1 :=
        Char.utf8Size_eq_one_iff.mpr (UInt32.le_iff_toNat_le.mpr (le_trans hhi (by decide)))
      rw [hc, Char.utf8Size_eq_one_iff, UInt32.le_iff_toNat_le, UInt32.toNat_add]
      simp at hlo hhi ⊢
      omega
  · rfl

/-- Lowering keeps the number of bytes. -/
@[simp] theorem byteLen_lower (s : List Char) : byteLen (lower s) = byteLen s := by
  induction s with
  | nil => rfl
  | cons c s ih => simp [utf8Size_toLower, ih]

/-- A cut of the folded text is the fold of a cut of the text. -/
theorem lower_eq_append {s a b : List Char} (h : lower s = a ++ b) :
    ∃ a' b', s = a' ++ b' ∧ lower a' = a ∧ lower b' = b :=
  List.map_eq_append_iff.mp h

/-! ### Counting occurrences -/

section Occurrences

variable {α β : Type*} [DecidableEq α]

/-- The number of positions of a list at which the needle occurs. -/
def count (needle : List α) : List α → ℕ
  | [] => if needle.isPrefixOf [] then 1 else 0
  | c :: s => (if needle.isPrefixOf (c :: s) then 1 else 0) + count needle s

/-- Nothing occurs in the empty text. -/
@[simp] theorem count_nil (h : α) (t : List α) : count (h :: t) [] = 0 := rfl

/-- An occurrence at the start counts once. -/
theorem count_cons (needle : List α) (c : α) (s : List α) :
    count needle (c :: s) =
      (if needle.isPrefixOf (c :: s) then 1 else 0) + count needle s := rfl

/-- No occurrence starts at a character other than the needle's first. -/
theorem count_cons_of_ne {h c : α} (hc : h ≠ c) (t s : List α) :
    count (h :: t) (c :: s) = count (h :: t) s := by
  simp [count, List.isPrefixOf, hc]

/-- A text without the needle's first character has no occurrence, and none is formed by
putting it in front of another text. -/
theorem count_append_of_notMem {h : α} {a : List α} (ha : h ∉ a) (t b : List α) :
    count (h :: t) (a ++ b) = count (h :: t) b := by
  induction a with
  | nil => rfl
  | cons c a ih =>
      simp only [List.mem_cons, not_or] at ha
      rw [List.cons_append, count_cons_of_ne ha.1, ih ha.2]

/-- What starts with another character does not occur. -/
theorem count_eq_zero_of_notMem {h : α} {a : List α} (ha : h ∉ a) (t : List α) :
    count (h :: t) a = 0 := by
  simpa using count_append_of_notMem ha t []

omit [DecidableEq α] in
/-- A prefix of a concatenation that lacks the character at the seam ends before it. -/
theorem prefix_append_cons_iff {t a b : List α} {x : α} (hx : x ∉ t) :
    t <+: a ++ x :: b ↔ t <+: a := by
  induction t generalizing a with
  | nil => simp
  | cons d t ih =>
      simp only [List.mem_cons, not_or] at hx
      cases a with
      | nil => simp [List.cons_prefix_cons, Ne.symm hx.1]
      | cons c a => simp [List.cons_prefix_cons, ih hx.2]

omit [DecidableEq α] in
/-- **The cut at the last copy** of a character is unique. -/
theorem append_cons_inj {a b s t : List α} {x : α} (hs : x ∉ s) (ht : x ∉ t) :
    a ++ x :: s = b ++ x :: t ↔ a = b ∧ s = t := by
  constructor
  · intro h
    obtain ⟨rest, rfl, hrest⟩ | ⟨rest, rfl, hrest⟩ := List.append_eq_append_iff.mp h
    · cases rest with
      | nil => exact ⟨(List.append_nil a).symm, (List.cons.inj hrest).2⟩
      | cons c rest =>
          obtain ⟨-, rfl⟩ := List.cons.inj hrest
          exact absurd (List.mem_append_right rest List.mem_cons_self) hs
    · cases rest with
      | nil => exact ⟨List.append_nil b, (List.cons.inj hrest).2.symm⟩
      | cons c rest =>
          obtain ⟨-, rfl⟩ := List.cons.inj hrest
          exact absurd (List.mem_append_right rest List.mem_cons_self) ht
  · rintro ⟨rfl, rfl⟩
    rfl

omit [DecidableEq α] in
/-- **An occurrence lies before** a character that the needle's tail lacks, or starts at or
after it. -/
theorem occurrence_append_cons {f : β → α} {h : α} {t : List α} {a b x y : List β} {c : β}
    (hc : f c ∉ t) (hs : a ++ c :: b = x ++ y) (hy : h :: t <+: y.map f) :
    (∃ d, a = x ++ d ∧ h :: t <+: d.map f) ∨ ∃ d, x = a ++ d ∧ c :: b = d ++ y := by
  obtain ⟨d, rfl, hb⟩ | ⟨d, rfl, rfl⟩ := List.append_eq_append_iff.mp hs
  · exact .inr ⟨d, rfl, hb⟩
  · cases d with
    | nil => exact .inr ⟨[], by simp, rfl⟩
    | cons e d =>
        refine .inl ⟨e :: d, rfl, ?_⟩
        simpa [List.cons_prefix_cons, prefix_append_cons_iff hc] using hy

omit [DecidableEq α] in
/-- **Occurrences do not overlap**: in a text that starts with the needle, another occurrence
starts behind it. -/
theorem occurrence_append {f : β → α} {h : α} {t : List α} {m b x y : List β}
    (ht : h ∉ t) (hm : m.map f = h :: t) (hs : m ++ b = x ++ y) (hy : h :: t <+: y.map f) :
    x = [] ∨ ∃ d, x = m ++ d ∧ b = d ++ y := by
  obtain ⟨d, rfl, rfl⟩ | ⟨d, rfl, rfl⟩ := List.append_eq_append_iff.mp hs
  · exact .inr ⟨d, rfl, rfl⟩
  · cases x with
    | nil => exact .inl rfl
    | cons c x =>
        cases d with
        | nil => exact .inr ⟨[], by simp, by simp⟩
        | cons e d =>
            -- the occurrence would start inside the needle, at a copy of its first character
            obtain ⟨-, rfl⟩ := List.cons.inj ((List.map_cons ..).symm.trans hm)
            have he : h = f e := (List.cons_prefix_cons.mp hy).1
            exact absurd (by simp [he]) ht

/-- **Occurrences do not straddle** a character that the needle's tail lacks: they lie
before it or start at or after it. -/
theorem count_append_cons {t : List α} {x : α} (hx : x ∉ t) (h : α) (a b : List α) :
    count (h :: t) (a ++ x :: b) = count (h :: t) a + count (h :: t) (x :: b) := by
  induction a with
  | nil => simp
  | cons c a ih =>
      have hp : (h :: t).isPrefixOf (c :: (a ++ x :: b)) = (h :: t).isPrefixOf (c :: a) := by
        rw [Bool.eq_iff_iff]
        simp [List.cons_prefix_cons, prefix_append_cons_iff hx]
      rw [List.cons_append, count_cons, hp, ih, count_cons (h :: t) c a]
      omega

/-- A needle with a first character occurs at most once a character. -/
theorem count_le_length (h : α) (t s : List α) : count (h :: t) s ≤ s.length := by
  induction s with
  | nil => exact le_refl 0
  | cons c s ih =>
      rw [count_cons, List.length_cons]
      split <;> omega

/-- A longer needle occurs at no more places. -/
theorem count_append_le (needle extra s : List α) :
    count (needle ++ extra) s ≤ count needle s := by
  have hone : ∀ r : List α, (if (needle ++ extra).isPrefixOf r then 1 else 0) ≤
      if needle.isPrefixOf r then 1 else 0 := fun r => by
    by_cases hl : needle ++ extra <+: r
    · simp [hl, (List.prefix_append needle extra).trans hl]
    · simp [hl]
  induction s with
  | nil => exact hone []
  | cons c s ih => exact Nat.add_le_add (hone (c :: s)) ih

/-- Nothing is counted exactly where the needle is not found inside. -/
theorem count_eq_zero_iff {needle s : List α} : count needle s = 0 ↔ ¬ needle <:+: s := by
  induction s with
  | nil => simp [count]
  | cons c s ih => simp [count, List.infix_cons_iff, ih]

/-- What does not occur in a text starts none of its ends. -/
theorem not_prefix_of_count_eq_zero {needle a b : List α} (h : count needle (a ++ b) = 0) :
    ¬ needle <+: b := fun hb =>
  count_eq_zero_iff.mp h (hb.isInfix.trans (List.suffix_append a b).isInfix)

/-! ### The first occurrence -/

/-- Cut a list before its first suffix that satisfies `p`. -/
def breakOn (p : List β → Bool) : List β → Option (List β × List β)
  | [] => if p [] then some ([], []) else none
  | c :: s =>
      if p (c :: s) then some ([], c :: s) else (breakOn p s).map fun r => (c :: r.1, r.2)

/-- A cut before the first suffix is a cut of the list. -/
theorem eq_append_of_breakOn {p : List β → Bool} {s a b : List β}
    (h : breakOn p s = some (a, b)) : s = a ++ b := by
  induction s generalizing a with
  | nil =>
      simp only [breakOn, Option.ite_none_right_eq_some, Option.some.injEq, Prod.mk.injEq] at h
      obtain ⟨-, rfl, rfl⟩ := h
      rfl
  | cons c s ih =>
      rw [breakOn] at h
      split at h
      · simp only [Option.some.injEq, Prod.mk.injEq] at h
        obtain ⟨rfl, rfl⟩ := h
        rfl
      · obtain ⟨⟨a', b'⟩, hr, heq⟩ := Option.map_eq_some_iff.mp h
        simp only [Prod.mk.injEq] at heq
        obtain ⟨rfl, rfl⟩ := heq
        rw [ih hr, List.cons_append]

/-- The suffix of a cut satisfies `p`. -/
theorem holds_of_breakOn {p : List β → Bool} {s a b : List β}
    (h : breakOn p s = some (a, b)) : p b = true := by
  induction s generalizing a with
  | nil =>
      simp only [breakOn, Option.ite_none_right_eq_some, Option.some.injEq, Prod.mk.injEq] at h
      exact h.2.2 ▸ h.1
  | cons c s ih =>
      rw [breakOn] at h
      split at h
      · next hp =>
          simp only [Option.some.injEq, Prod.mk.injEq] at h
          exact h.2 ▸ hp
      · obtain ⟨⟨a', b'⟩, hr, heq⟩ := Option.map_eq_some_iff.mp h
        simp only [Prod.mk.injEq] at heq
        obtain ⟨rfl, rfl⟩ := heq
        exact ih hr

/-- Nothing occurs before the first occurrence. -/
theorem count_eq_zero_of_breakOn {h : α} {t s a b : List α}
    (hs : breakOn ((h :: t).isPrefixOf ·) s = some (a, b)) : count (h :: t) a = 0 := by
  induction s generalizing a with
  | nil => simp [breakOn] at hs
  | cons c s ih =>
      rw [breakOn] at hs
      split at hs
      · simp only [Option.some.injEq, Prod.mk.injEq] at hs
        obtain ⟨rfl, rfl⟩ := hs
        rfl
      · next hp =>
          obtain ⟨⟨a', b'⟩, hr, heq⟩ := Option.map_eq_some_iff.mp hs
          simp only [Prod.mk.injEq] at heq
          obtain ⟨rfl, rfl⟩ := heq
          -- an occurrence at the head of `c :: a'` would be one at the head of `c :: s`
          have hno : ¬ (h :: t) <+: c :: a' := fun hpre => by
            rw [eq_append_of_breakOn hr] at hp
            exact hp (List.isPrefixOf_iff_prefix.mpr (hpre.trans (List.prefix_append (c :: a') b')))
          simp [count, hno, ih hr]

/-- Where nothing occurs, no cut is found. -/
theorem breakOn_eq_none {f : β → α} {h : α} {t : List α} {s : List β}
    (hs : count (h :: t) (s.map f) = 0) :
    breakOn (fun r => (h :: t).isPrefixOf (r.map f)) s = none := by
  induction s with
  | nil => rfl
  | cons c s ih =>
      simp only [List.map_cons, count, Nat.add_eq_zero_iff, ite_eq_right_iff, one_ne_zero,
        imp_false, Bool.not_eq_true] at hs
      rw [breakOn, List.map_cons, if_neg (by simp [hs.1]), ih hs.2]
      rfl

/-- **The first occurrence in plain sight.** After a prefix without occurrences (read
through the fold `f`), a needle that starts at a character absent from its own tail is
where the cut falls. -/
theorem breakOn_append {f : β → α} {h : α} {t : List α} {a b : List β} {x : β}
    (hx : f x ∉ t) (ha : count (h :: t) (a.map f) = 0)
    (hb : (h :: t) <+: (x :: b).map f) :
    breakOn (fun r => (h :: t).isPrefixOf (r.map f)) (a ++ x :: b) = some (a, x :: b) := by
  induction a with
  | nil => rw [List.nil_append, breakOn, if_pos (List.isPrefixOf_iff_prefix.mpr hb)]
  | cons c a ih =>
      simp only [List.map_cons, count, Nat.add_eq_zero_iff, ite_eq_right_iff, one_ne_zero,
        imp_false, List.isPrefixOf_iff_prefix] at ha
      have hno : ¬ (h :: t) <+: (c :: (a ++ x :: b)).map f := by
        simpa [List.cons_prefix_cons, prefix_append_cons_iff hx] using ha.1
      rw [List.cons_append, breakOn, if_neg (by simpa using hno), ih ha.2]
      rfl

end Occurrences

/-! ### Searching a folded copy -/

/-- Rust's `str::find`: the byte offset of the first occurrence of the needle. -/
def find (needle s : List Char) : Option ℕ :=
  (breakOn (needle.isPrefixOf ·) s).map fun r => byteLen r.1

/-- **An offset found in the folded copy cuts the original**: it is the byte length of an
occurrence-free prefix, and what follows there folds to the needle. -/
theorem exists_of_find_lower {h : Char} {t s : List Char} {i : ℕ}
    (hf : find (h :: t) (lower s) = some i) :
    ∃ a m b, s = a ++ (m ++ b) ∧ lower m = h :: t ∧ byteLen a = i ∧
      count (h :: t) (lower a) = 0 := by
  obtain ⟨⟨l, r⟩, hbreak, rfl⟩ := Option.map_eq_some_iff.mp hf
  obtain ⟨a, rest, rfl, rfl, rfl⟩ := lower_eq_append (eq_append_of_breakOn hbreak)
  obtain ⟨u, hu⟩ := List.isPrefixOf_iff_prefix.mp (holds_of_breakOn hbreak)
  obtain ⟨m, b, rfl, hm, -⟩ := lower_eq_append hu.symm
  exact ⟨a, m, b, rfl, hm, (byteLen_lower a).symm, count_eq_zero_of_breakOn hbreak⟩

/-- Nothing is found exactly where nothing occurs. -/
theorem find_eq_none_iff {h : Char} {t s : List Char} :
    find (h :: t) s = none ↔ count (h :: t) s = 0 := by
  rw [find, Option.map_eq_none_iff]
  constructor
  · intro hbreak
    induction s with
    | nil => rfl
    | cons c s ih =>
        rw [breakOn] at hbreak
        split at hbreak
        · cases hbreak
        · next hp => simp [count, hp, ih (Option.map_eq_none_iff.mp hbreak)]
  · intro hs
    have hbreak := breakOn_eq_none (f := id) (s := s) (by rwa [List.map_id])
    simpa only [List.map_id] using hbreak

/-! ### Strings -/

/-- What follows a prefix, as `str::strip_prefix`. -/
def stripPrefix (s p : String) : Option String :=
  if p.toList <+: s.toList then some (.ofList (s.toList.drop p.toList.length)) else none

/-- What is left of a text is what stands after the prefix. -/
theorem stripPrefix_eq_some {s p r : String} : stripPrefix s p = some r ↔ s = p ++ r := by
  rw [stripPrefix]
  constructor
  · intro h
    split at h
    · next hp =>
        obtain ⟨b, hb⟩ := hp
        rw [← hb, List.drop_left, Option.some.injEq] at h
        rw [← h, ← String.toList_inj, String.toList_append, String.toList_ofList, hb]
    · cases h
  · rintro rfl
    rw [String.toList_append, if_pos (List.prefix_append _ _), List.drop_left,
      String.ofList_toList]

/-- What precedes a suffix, as `str::strip_suffix`. -/
def stripSuffix (s p : String) : Option String :=
  if p.toList <:+ s.toList then some (.ofList (s.toList.rdrop p.toList.length)) else none

/-- A suffix that is there is taken off. -/
theorem stripSuffix_append (s p : String) : stripSuffix (s ++ p) p = some s := by
  rw [stripSuffix, String.toList_append, if_pos (List.suffix_append _ _),
    List.rdrop_append_length, String.ofList_toList]

/-- A suffix that is not there is not. -/
theorem stripSuffix_of_not_suffix {s p : String} (h : ¬ p.toList <:+ s.toList) :
    stripSuffix s p = none :=
  if_neg h

/-- A string without the copies of a character at its end, as `str::trim_end_matches`. -/
def trimEndMatches (s : String) (c : Char) : String :=
  .ofList (s.toList.rdropWhile (· = c))

/-- A string that does not end in the character is left. -/
theorem trimEndMatches_of_ne {s : String} {c : Char} (h : s.toList.getLast? ≠ some c) :
    trimEndMatches s c = s := by
  have hlast : ∀ hne : s.toList ≠ [], ¬ decide (s.toList.getLast hne = c) = true := by
    intro hne hc
    rw [List.getLast?_eq_some_getLast hne] at h
    exact h (congrArg some (of_decide_eq_true hc))
  rw [trimEndMatches, List.rdropWhile_eq_self_iff.mpr hlast, String.ofList_toList]

/-- **Copies at the end are trimmed**, however many. -/
theorem trimEndMatches_append_replicate (s : String) (c : Char) (n : ℕ) :
    trimEndMatches (s ++ .ofList (List.replicate n c)) c = trimEndMatches s c := by
  rw [trimEndMatches, trimEndMatches, String.toList_append, String.toList_ofList]
  congr 1
  induction n with
  | zero => rw [List.replicate_zero, List.append_nil]
  | succ n ih =>
      rw [List.replicate_succ', ← List.append_assoc,
        List.rdropWhile_concat_pos _ _ _ (by simp), ih]

/-- A string with the first copy of a character replaced, as `str::replacen` once. -/
def replaceFirst (s : String) (c d : Char) : String :=
  .ofList (s.toList.replace c d)

section ReplaceFirst

variable {s : String} {c d : Char}

/-- The first occurrence is replaced in the list of characters. -/
@[simp] theorem toList_replaceFirst : (replaceFirst s c d).toList = s.toList.replace c d :=
  String.toList_ofList

/-- Without the character nothing is replaced. -/
theorem replaceFirst_of_notMem (h : c ∉ s.toList) : replaceFirst s c d = s := by
  rw [replaceFirst, List.replace_of_not_mem h, String.ofList_toList]

/-- What stands before the copy is kept. -/
theorem replaceFirst_append_of_notMem (h : c ∉ s.toList) (t : String) :
    replaceFirst (s ++ t) c d = s ++ replaceFirst t c d := by
  rw [← String.toList_inj, toList_replaceFirst, String.toList_append, String.toList_append,
    List.replace_append_right h, toList_replaceFirst]

/-- What stands after the copy is kept. -/
theorem replaceFirst_append_of_mem (h : c ∈ s.toList) (t : String) :
    replaceFirst (s ++ t) c d = replaceFirst s c d ++ t := by
  rw [← String.toList_inj, toList_replaceFirst, String.toList_append, String.toList_append,
    List.replace_append_left h, toList_replaceFirst]

/-- With the character the text changes. -/
theorem replaceFirst_ne (h : c ∈ s.toList) (hcd : c ≠ d) : replaceFirst s c d ≠ s := by
  obtain ⟨a, b, hs, ha⟩ := List.eq_append_cons_of_mem h
  intro heq
  rw [← String.toList_inj, toList_replaceFirst, hs, List.replace_append_right ha,
    List.replace_cons_self] at heq
  have hcons := List.append_cancel_left heq
  exact hcd (List.cons.inj hcons).1.symm

end ReplaceFirst

/-- The two sides of the first occurrence of a character, as `str::split_once`. -/
def splitOnce (s : String) (c : Char) : Option (String × String) :=
  match s.toList.span (· ≠ c) with
  | (_, []) => none
  | (a, _ :: b) => some (.ofList a, .ofList b)

/-- **The cut at a character** is made where it stands first. -/
theorem splitOnce_eq_some {s a b : String} {c : Char} :
    splitOnce s c = some (a, b) ↔ s.toList = a.toList ++ c :: b.toList ∧ c ∉ a.toList := by
  rw [splitOnce, List.span_eq_takeWhile_dropWhile]
  constructor
  · intro h
    cases hdrop : s.toList.dropWhile (· ≠ c) with
    | nil =>
        rw [hdrop] at h
        cases h
    | cons d rest =>
        rw [hdrop] at h
        obtain ⟨rfl, rfl⟩ := Prod.mk.inj (Option.some.inj h)
        obtain rfl : d = c := by
          have hhead := List.head?_dropWhile_not (· ≠ c) s.toList
          rw [hdrop] at hhead
          simpa using hhead
        have hcut : s.toList.takeWhile (· ≠ d) ++ d :: rest = s.toList := by
          rw [← hdrop, List.takeWhile_append_dropWhile]
        rw [String.toList_ofList, String.toList_ofList]
        exact ⟨hcut.symm, fun hmem => by simpa using List.mem_takeWhile_imp hmem⟩
  · rintro ⟨hs, hc⟩
    have hall : ∀ x ∈ a.toList, decide (x ≠ c) = true := fun x hx =>
      decide_eq_true fun hxc => hc (hxc ▸ hx)
    rw [hs, List.takeWhile_append_of_pos hall, List.dropWhile_append_of_pos hall]
    simp

/-- The property `White_Space` of Unicode. -/
def isWhitespace (c : Char) : Bool :=
  (9 ≤ c.toNat && c.toNat ≤ 13) || (0x2000 ≤ c.toNat && c.toNat ≤ 0x200A) ||
    [0x20, 0x85, 0xA0, 0x1680, 0x2028, 0x2029, 0x202F, 0x205F, 0x3000].contains c.toNat

/-- A string without the blanks around it, as `str::trim`. -/
def trim (s : String) : String :=
  .ofList ((s.toList.dropWhile isWhitespace).rdropWhile isWhitespace)

/-- Nothing but blanks. -/
def isBlank (s : String) : Bool :=
  trim s = ""

/-- A blank text is whitespace throughout. -/
theorem isBlank_iff {s : String} : isBlank s = true ↔ ∀ c ∈ s.toList, isWhitespace c = true := by
  rw [isBlank, decide_eq_true_eq, trim, ← String.toList_inj, String.toList_ofList,
    String.toList_empty, List.rdropWhile_eq_nil_iff]
  constructor
  · intro h c hc
    rw [← List.takeWhile_append_dropWhile (p := isWhitespace) (l := s.toList)] at hc
    rcases List.mem_append.mp hc with hc | hc
    · exact List.mem_takeWhile_imp hc
    · exact h c hc
  · exact fun h c hc => h c ((List.dropWhile_sublist _).subset hc)

/-- The empty text is blank. -/
theorem isBlank_empty : isBlank "" = true := rfl

/-! ### Numbers -/

/-- A decimal digit. -/
def isDigit (c : Char) : Bool :=
  '0' ≤ c && c ≤ '9'

/-- The value of decimal digits. -/
def ofDigits (ds : List Char) : ℕ :=
  ds.foldl (fun n c => 10 * n + (c.toNat - '0'.toNat)) 0

/-- What follows a sign, if there is one. -/
def dropPlus : List Char → List Char
  | '+' :: ds => ds
  | ds => ds

/-- An unsigned number, as `str::parse` reads one below the limit: digits, with a sign or
without. -/
def parseUnsigned (limit : ℕ) (s : String) : Option ℕ :=
  let ds := dropPlus s.toList
  if ds ≠ [] ∧ ds.all isDigit = true ∧ ofDigits ds < limit then some (ofDigits ds) else none

/-- No digit is blank. -/
theorem isDigit_of_isWhitespace {c : Char} (h : isWhitespace c = true) : isDigit c = false := by
  rw [Bool.eq_false_iff]
  intro hdigit
  have hrange : 48 ≤ c.toNat ∧ c.toNat ≤ 57 := by
    simp only [isDigit, Bool.and_eq_true, decide_eq_true_eq] at hdigit
    exact ⟨UInt32.le_iff_toNat_le.mp hdigit.1, UInt32.le_iff_toNat_le.mp hdigit.2⟩
  simp [isWhitespace] at h
  omega

/-- What is left without a sign ends the text. -/
theorem dropPlus_suffix (ds : List Char) : dropPlus ds <:+ ds := by
  unfold dropPlus
  split
  · exact List.suffix_cons _ _
  · exact List.suffix_refl _

/-- Blanks are no number. -/
theorem parseUnsigned_of_isBlank {limit : ℕ} {s : String} (h : isBlank s = true) :
    parseUnsigned limit s = none := by
  rw [isBlank_iff] at h
  rw [parseUnsigned]
  refine if_neg ?_
  rintro ⟨hne, hdigits, -⟩
  obtain ⟨c, hc⟩ := List.exists_mem_of_ne_nil _ hne
  have hdigit := List.all_eq_true.mp hdigits c hc
  rw [isDigit_of_isWhitespace (h c ((dropPlus_suffix _).subset hc))] at hdigit
  cases hdigit

end Text
