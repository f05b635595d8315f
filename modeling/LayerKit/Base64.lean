import Mathlib.Data.List.Nodup
import Mathlib.Logic.Function.Basic

/-!
# Base64 without Padding

Three octets are four sextets, and a sextet is a symbol of an alphabet. One or two octets
that remain at the end are two or three sextets, the last of which has four or two bits to
spare. The encoder leaves them zero and writes no padding; the decoder is strict and takes
nothing else, so that every text that it takes is the encoding of what it reads.

Each of the two layers is a partial inverse, `Function.IsPartialInv`: the sextets of octets
(`isPartialInv_sextets`) and the symbols of sextets (`Alphabet.isPartialInv_symbol`). So is
their composition.

## Main results

* `Alphabet.isPartialInv_encode`: the decoder takes exactly the encodings, each for what it
  encodes.
* `Alphabet.mem_symbols_of_mem_encode`: a text has no characters but the symbols.
-/

open Function

namespace Base64

/-! ### Octets and sextets -/

/-- The first sextet of three octets. -/
def sextet₁ (a : UInt8) : Fin 64 := .ofNat 64 (a.toNat / 4)

/-- The second sextet. -/
def sextet₂ (a b : UInt8) : Fin 64 := .ofNat 64 (a.toNat % 4 * 16 + b.toNat / 16)

/-- The third sextet. -/
def sextet₃ (b c : UInt8) : Fin 64 := .ofNat 64 (b.toNat % 16 * 4 + c.toNat / 64)

/-- The fourth sextet. -/
def sextet₄ (c : UInt8) : Fin 64 := .ofNat 64 (c.toNat % 64)

/-- The first octet of four sextets. -/
def octet₁ (w x : Fin 64) : UInt8 := .ofNat (w.val * 4 + x.val / 16)

/-- The second octet. -/
def octet₂ (x y : Fin 64) : UInt8 := .ofNat (x.val % 16 * 16 + y.val / 4)

/-- The third octet. -/
def octet₃ (y z : Fin 64) : UInt8 := .ofNat (y.val % 4 * 64 + z.val)

/-- The sextets of a list of octets; bits that lack at the end are zero. -/
def sextets : List UInt8 → List (Fin 64)
  | [] => []
  | [a] => [sextet₁ a, sextet₂ a 0]
  | [a, b] => [sextet₁ a, sextet₂ a b, sextet₃ b 0]
  | a :: b :: c :: rest => sextet₁ a :: sextet₂ a b :: sextet₃ b c :: sextet₄ c :: sextets rest

/-- The octets of a list of sextets, if bits to spare at the end are zero. -/
def octets : List (Fin 64) → Option (List UInt8)
  | [] => some []
  | [_] => none
  | [w, x] => if x.val % 16 = 0 then some [octet₁ w x] else none
  | [w, x, y] => if y.val % 4 = 0 then some [octet₁ w x, octet₂ x y] else none
  | w :: x :: y :: z :: rest =>
      (octets rest).map fun bs => octet₁ w x :: octet₂ x y :: octet₃ y z :: bs

section Bits

variable (a b c : UInt8) (w x y z : Fin 64)

/-- The first sextet of three octets, as a number. -/
@[simp] theorem val_sextet₁ : (sextet₁ a).val = a.toNat / 4 := by
  have ha := a.toNat_lt
  rw [sextet₁, Fin.val_ofNat]
  omega

/-- The second sextet of three octets, as a number. -/
@[simp] theorem val_sextet₂ : (sextet₂ a b).val = a.toNat % 4 * 16 + b.toNat / 16 := by
  have hb := b.toNat_lt
  rw [sextet₂, Fin.val_ofNat]
  omega

/-- The third sextet of three octets, as a number. -/
@[simp] theorem val_sextet₃ : (sextet₃ b c).val = b.toNat % 16 * 4 + c.toNat / 64 := by
  have hc := c.toNat_lt
  rw [sextet₃, Fin.val_ofNat]
  omega

/-- The last sextet of three octets, as a number. -/
@[simp] theorem val_sextet₄ : (sextet₄ c).val = c.toNat % 64 := by
  rw [sextet₄, Fin.val_ofNat]
  omega

/-- The first octet of four sextets, as a number. -/
@[simp] theorem toNat_octet₁ : (octet₁ w x).toNat = w.val * 4 + x.val / 16 := by
  rw [octet₁, UInt8.toNat_ofNat']
  omega

/-- The second octet of four sextets, as a number. -/
@[simp] theorem toNat_octet₂ : (octet₂ x y).toNat = x.val % 16 * 16 + y.val / 4 := by
  rw [octet₂, UInt8.toNat_ofNat']
  omega

/-- The last octet of four sextets, as a number. -/
@[simp] theorem toNat_octet₃ : (octet₃ y z).toNat = y.val % 4 * 64 + z.val := by
  rw [octet₃, UInt8.toNat_ofNat']
  omega

/-- Splitting keeps the first octet. -/
theorem octet₁_sextets : octet₁ (sextet₁ a) (sextet₂ a b) = a := by
  have hb := b.toNat_lt
  rw [← UInt8.toNat_inj, toNat_octet₁, val_sextet₁, val_sextet₂]
  omega

/-- Splitting keeps the second octet. -/
theorem octet₂_sextets : octet₂ (sextet₂ a b) (sextet₃ b c) = b := by
  have hb := b.toNat_lt
  have hc := c.toNat_lt
  rw [← UInt8.toNat_inj, toNat_octet₂, val_sextet₂, val_sextet₃]
  omega

/-- Splitting keeps the last octet. -/
theorem octet₃_sextets : octet₃ (sextet₃ b c) (sextet₄ c) = c := by
  have hc := c.toNat_lt
  rw [← UInt8.toNat_inj, toNat_octet₃, val_sextet₃, val_sextet₄]
  omega

/-- Joining keeps the first sextet. -/
theorem sextet₁_octet : sextet₁ (octet₁ w x) = w := by
  rw [Fin.ext_iff, val_sextet₁, toNat_octet₁]
  omega

/-- Joining keeps the second sextet. -/
theorem sextet₂_octets : sextet₂ (octet₁ w x) (octet₂ x y) = x := by
  rw [Fin.ext_iff, val_sextet₂, toNat_octet₁, toNat_octet₂]
  omega

/-- Joining keeps the third sextet. -/
theorem sextet₃_octets : sextet₃ (octet₂ x y) (octet₃ y z) = y := by
  rw [Fin.ext_iff, val_sextet₃, toNat_octet₂, toNat_octet₃]
  omega

/-- Joining keeps the last sextet. -/
theorem sextet₄_octet : sextet₄ (octet₃ y z) = z := by
  rw [Fin.ext_iff, val_sextet₄, toNat_octet₃]
  omega

/-- A last sextet with no bits set to spare. -/
theorem sextet₂_octet {x : Fin 64} (hx : x.val % 16 = 0) : sextet₂ (octet₁ w x) 0 = x := by
  rw [Fin.ext_iff, val_sextet₂, toNat_octet₁, UInt8.toNat_zero]
  omega

/-- Joining keeps a third sextet without trailing bits when there is no fourth. -/
theorem sextet₃_octet {y : Fin 64} (hy : y.val % 4 = 0) : sextet₃ (octet₂ x y) 0 = y := by
  rw [Fin.ext_iff, val_sextet₃, toNat_octet₂, UInt8.toNat_zero]
  omega

end Bits

/-- **The octets come back** from their sextets. -/
theorem octets_sextets (bs : List UInt8) : octets (sextets bs) = some bs := by
  induction bs using sextets.induct with
  | case1 => rfl
  | case2 a =>
      have hzero : (sextet₂ a 0).val % 16 = 0 := by
        rw [val_sextet₂, UInt8.toNat_zero]
        omega
      rw [sextets, octets, if_pos hzero, octet₁_sextets]
  | case3 a b =>
      have hzero : (sextet₃ b 0).val % 4 = 0 := by
        rw [val_sextet₃, UInt8.toNat_zero]
        omega
      rw [sextets, octets, if_pos hzero, octet₁_sextets, octet₂_sextets]
  | case4 a b c rest ih =>
      rw [sextets, octets, ih, octet₁_sextets, octet₂_sextets, octet₃_sextets]
      rfl

/-- **The sextets come back** from the octets that they are read as. -/
theorem sextets_of_octets {ss : List (Fin 64)} {bs : List UInt8} (h : octets ss = some bs) :
    sextets bs = ss := by
  induction ss using octets.induct generalizing bs with
  | case1 =>
      cases h
      rfl
  | case2 w => cases h
  | case3 w x hx =>
      rw [octets, if_pos hx] at h
      cases h
      rw [sextets, sextet₁_octet, sextet₂_octet w hx]
  | case4 w x hx =>
      rw [octets, if_neg hx] at h
      cases h
  | case5 w x y hy =>
      rw [octets, if_pos hy] at h
      cases h
      rw [sextets, sextet₁_octet, sextet₂_octets, sextet₃_octet x hy]
  | case6 w x y hy =>
      rw [octets, if_neg hy] at h
      cases h
  | case7 w x y z rest ih =>
      obtain ⟨rest', hrest, rfl⟩ := Option.map_eq_some_iff.mp h
      rw [sextets, ih hrest, sextet₁_octet, sextet₂_octets, sextet₃_octets, sextet₄_octet]

/-- Octets and sextets are partial inverses. -/
theorem isPartialInv_sextets : IsPartialInv sextets octets := fun _ _ =>
  ⟨sextets_of_octets, fun h => h ▸ octets_sextets _⟩

/-! ### Sextets and symbols -/

/-- An alphabet of 64 symbols. -/
structure Alphabet where
  symbols : List Char
  length_eq : symbols.length = 64
  nodup : symbols.Nodup

/-- Letters, digits, `-` and `_`. -/
def urlSafe : Alphabet where
  symbols := "ABCDEFGHIJKLMNOPQRSTUVWXYZabcdefghijklmnopqrstuvwxyz0123456789-_".toList
  length_eq := by decide
  nodup := by decide

/-- The inverse of a function on the elements of lists. -/
theorem isPartialInv_map {α β : Type*} {f : α → β} {g : β → Option α} (h : IsPartialInv f g) :
    IsPartialInv (List.map f) (List.mapM g) := by
  intro xs ys
  induction ys generalizing xs with
  | nil => cases xs <;> simp
  | cons y ys ih =>
      rw [List.mapM_cons]
      constructor
      · intro heq
        obtain ⟨x, hx, heq⟩ := Option.bind_eq_some_iff.mp heq
        obtain ⟨xs', hxs', heq⟩ := Option.bind_eq_some_iff.mp heq
        cases heq
        rw [List.map_cons, (h x y).mp hx, (ih xs').mp hxs']
      · rintro heq
        cases xs with
        | nil => cases heq
        | cons x xs =>
            rw [List.map_cons, List.cons.injEq] at heq
            rw [(h x y).mpr heq.1, (ih xs).mpr heq.2]
            rfl

namespace Alphabet

variable (A : Alphabet)

/-- The symbol of a sextet. -/
def symbol (i : Fin 64) : Char :=
  A.symbols.get (i.cast A.length_eq.symm)

/-- The sextet of a symbol. -/
def value (c : Char) : Option (Fin 64) :=
  (A.symbols.finIdxOf? c).map (Fin.cast A.length_eq)

/-- Encode without padding. -/
def encode (bs : List UInt8) : String :=
  .ofList ((sextets bs).map A.symbol)

/-- Decode strictly: no padding, no other characters, no bits set to spare. -/
def decode (s : String) : Option (List UInt8) :=
  (s.toList.mapM A.value).bind octets

/-- **A symbol is read as its value**, and nothing else is. -/
theorem isPartialInv_symbol : IsPartialInv A.symbol A.value := by
  intro i c
  rw [value, Option.map_eq_some_iff]
  constructor
  · rintro ⟨j, hj, rfl⟩
    exact (List.finIdxOf?_eq_some_iff.mp hj).1
  · rintro rfl
    refine ⟨i.cast A.length_eq.symm, List.finIdxOf?_eq_some_iff.mpr ⟨rfl, fun j hj heq => ?_⟩, rfl⟩
    exact absurd (List.nodup_iff_injective_get.mp A.nodup heq) (Fin.ne_of_lt hj)

/-- **The decoder takes exactly the encodings**, each for what it encodes. -/
theorem isPartialInv_encode : IsPartialInv A.encode A.decode := by
  intro bs s
  have hinv := isPartialInv_sextets.comp (isPartialInv_map A.isPartialInv_symbol) bs s.toList
  rw [encode, ← String.toList_inj, String.toList_ofList]
  exact hinv

example : urlSafe.decode "AQI" = some [1, 2] := by decide

/-- Bits set to spare. -/
example : urlSafe.decode "AQJ" = none := by decide

/-- A text has no characters but the symbols. -/
theorem mem_symbols_of_mem_encode {bs : List UInt8} {c : Char} (h : c ∈ (A.encode bs).toList) :
    c ∈ A.symbols := by
  rw [encode, String.toList_ofList] at h
  obtain ⟨i, -, rfl⟩ := List.mem_map.mp h
  exact List.get_mem _ _

end Alphabet

end Base64
