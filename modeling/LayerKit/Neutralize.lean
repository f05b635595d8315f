import LayerKit.Untrusted
import Mathlib.Logic.Relation

/-!
# Every Fence and Nothing Else

What `neutralize` makes of a content, occurrence by occurrence. The content is cut into
pieces, each a stretch of text and the fence at its end, with a text after the last one; the
result has the same stretches with the broken fence between them. Its loop goes from an
output so far and a remaining content to the next, and the invariant of its passes is such a
cut of what they have consumed (`Progress`).

A needle whose first character does not come back in it occurs nowhere but at the fences of
the cut: no occurrence reaches from a stretch into a fence or starts inside one. So the cut
has every occurrence.

## Main results

* `neutralizeLoop_passes`: the loop ends in a state that its passes reach.
* `Progress.reached`: the invariant of the passes.
* `Progress.everyFenceBroken`: what the last state says of the content.
* `neutralize_exact`: no slice panics, the loop ends, every fence is broken, none is left, and
  a second run changes nothing.
-/

open Text Relation

namespace LayerKit

/-! ### Pieces -/

/-- A stretch of text and the fence that ends it, in whatever case. -/
structure Fenced where
  text : List Char
  fence : List Char
  folds : lower fence = needle.toList

/-- The pieces of a content, as they were. -/
def original (pieces : List Fenced) : List Char :=
  pieces.flatMap fun p => p.text ++ p.fence

/-- The pieces of a content with their fences broken. -/
def neutralized (pieces : List Fenced) : List Char :=
  pieces.flatMap fun p => p.text ++ brokenFence.toList

/-- A piece stands before the text of the others. -/
@[simp] theorem original_cons (p : Fenced) (pieces : List Fenced) :
    original (p :: pieces) = p.text ++ p.fence ++ original pieces := rfl

/-- A piece at the end ends the text. -/
@[simp] theorem original_append_singleton (pieces : List Fenced) (p : Fenced) :
    original (pieces ++ [p]) = original pieces ++ (p.text ++ p.fence) := by
  simp [original]

/-- A piece at the end ends the neutralized text, its fence broken. -/
@[simp] theorem neutralized_append_singleton (pieces : List Fenced) (p : Fenced) :
    neutralized (pieces ++ [p]) = neutralized pieces ++ (p.text ++ brokenFence.toList) := by
  simp [neutralized]

/-- `EveryFenceBroken s r`: the text `r` is `s` with the broken fence in the place of every
occurrence of the needle, read without regard to case. The content is cut into pieces, and
wherever the needle occurs, a piece has its fence. -/
def EveryFenceBroken (s r : List Char) : Prop :=
  ∃ pieces last, s = original pieces ++ last ∧ r = neutralized pieces ++ last ∧
    ∀ x y, s = x ++ y → needle.toList <+: lower y →
      ∃ before p after, pieces = before ++ p :: after ∧ x = original before ++ p.text

/-- **A cut has every occurrence**: where the stretches and the text after the last piece have
no occurrence of the needle, it occurs at the fences only. -/
theorem exists_piece_of_occurrence {pieces : List Fenced} {last x y : List Char}
    (htexts : ∀ p ∈ pieces, count needle.toList (lower p.text) = 0)
    (hlast : count needle.toList (lower last) = 0) (hs : original pieces ++ last = x ++ y)
    (hy : needle.toList <+: lower y) :
    ∃ before p after, pieces = before ++ p :: after ∧ x = original before ++ p.text := by
  induction pieces generalizing x with
  | nil =>
      obtain rfl : last = x ++ y := hs
      rw [lower_append] at hlast
      exact absurd hy (not_prefix_of_count_eq_zero hlast)
  | cons p pieces ih =>
      have hfence := p.folds
      rw [needle_toList] at hy hfence
      obtain ⟨c, fence, hc, hlt, -⟩ := List.map_eq_cons_iff.mp hfence
      have hcut : p.text ++ c :: (fence ++ (original pieces ++ last)) = x ++ y := by
        rw [← hs, original_cons, hc]
        simp
      obtain ⟨d, htext, hd⟩ | ⟨d, rfl, hrest⟩ :=
        occurrence_append_cons (hlt ▸ lt_notMem_needleTail) hcut hy
      · -- inside the stretch there is none
        have hnone := htexts p List.mem_cons_self
        rw [htext, lower_append, needle_toList] at hnone
        exact absurd hd (not_prefix_of_count_eq_zero hnone)
      · rw [← List.cons_append, ← hc] at hrest
        rcases occurrence_append lt_notMem_needleTail hfence hrest hy with rfl | ⟨e, rfl, hnext⟩
        · exact ⟨[], p, pieces, rfl, by simp [original]⟩
        · obtain ⟨before, q, after, rfl, rfl⟩ :=
            ih (fun q hq => htexts q (List.mem_cons_of_mem p hq)) hnext
          exact ⟨p :: before, q, after, rfl, by simp⟩

/-! ### Passes -/

/-- One pass of the loop of `neutralize`: the next output so far and remaining content. -/
inductive Pass : List Char × List Char → List Char × List Char → Prop
  | fence {out rest kept next : List Char} {idx : ℕ}
      (hfind : find needle.toList (lower rest) = some idx) (hkept : sliceTo rest idx = some kept)
      (hnext : sliceFrom rest (idx + byteLen needle.toList) = some next) :
      Pass (out, rest) (out ++ kept ++ brokenFence.toList, next)

/-- The loop ends where no fence is found, in a state that its passes reach. -/
theorem neutralizeLoop_passes {budget : ℕ} {out rest r : List Char}
    (h : neutralizeLoop budget out rest = some r) :
    ∃ out' rest', ReflTransGen Pass (out, rest) (out', rest') ∧
      find needle.toList (lower rest') = none ∧ r = out' ++ rest' := by
  induction budget generalizing out rest with
  | zero => cases h
  | succ budget ih =>
      rw [neutralizeLoop] at h
      cases hfind : find needle.toList (lower rest) with
      | none =>
          rw [hfind] at h
          exact ⟨out, rest, .refl, hfind, (Option.some.inj h).symm⟩
      | some idx =>
          rw [hfind] at h
          obtain ⟨kept, hkept, h⟩ := Option.bind_eq_some_iff.mp h
          obtain ⟨next, hnext, h⟩ := Option.bind_eq_some_iff.mp h
          obtain ⟨out', rest', hpasses, hnone, rfl⟩ := ih h
          exact ⟨out', rest', .head (.fence hfind hkept hnext) hpasses, hnone, rfl⟩

/-- The passes so far have cut off pieces of the content `s` and put out what breaking their
fences makes of them. -/
def Progress (s : List Char) (st : List Char × List Char) : Prop :=
  ∃ pieces, s = original pieces ++ st.2 ∧ st.1 = neutralized pieces ∧
    ∀ p ∈ pieces, count needle.toList (lower p.text) = 0

/-- The loop starts with the whole text ahead. -/
theorem Progress.start (s : List Char) : Progress s ([], s) :=
  ⟨[], rfl, rfl, nofun⟩

/-- A pass cuts off one more piece. -/
theorem Progress.pass {s : List Char} {st st' : List Char × List Char} (h : Progress s st)
    (hpass : Pass st st') : Progress s st' := by
  obtain ⟨pieces, rfl, hout, htexts⟩ := h
  cases hpass with
  | @fence out rest kept next idx hfind hkept hnext =>
      obtain ⟨text, fence, rest', rfl, htext, hfence, hto, hfrom⟩ := exists_slices hfind
      obtain rfl := Option.some.inj (hto.symm.trans hkept)
      obtain rfl := Option.some.inj (hfrom.symm.trans hnext)
      refine ⟨pieces ++ [⟨text, fence, hfence⟩], by simp, ?_, ?_⟩
      · rw [neutralized_append_singleton, ← hout, List.append_assoc]
      · intro p hp
        rcases List.mem_append.mp hp with hp | hp
        · exact htexts p hp
        · rw [List.mem_singleton.mp hp]
          exact htext

/-- **The invariant** of the passes over a content. -/
theorem Progress.reached {s : List Char} {st : List Char × List Char}
    (h : ReflTransGen Pass ([], s) st) : Progress s st := by
  induction h with
  | refl => exact .start s
  | tail _ hpass ih => exact ih.pass hpass

/-- The remaining content is the end of the content. -/
theorem Progress.suffix {s : List Char} {st : List Char × List Char} (h : Progress s st) :
    st.2 <:+ s := by
  obtain ⟨pieces, hs, -, -⟩ := h
  exact ⟨original pieces, hs.symm⟩

/-- **At the last state** every fence of the content is broken in the output. -/
theorem Progress.everyFenceBroken {s out rest : List Char} (h : Progress s (out, rest))
    (hnone : find needle.toList (lower rest) = none) : EveryFenceBroken s (out ++ rest) := by
  obtain ⟨pieces, hs, rfl, htexts⟩ := h
  rw [find_needle_eq_none] at hnone
  refine ⟨pieces, rest, hs, rfl, fun x y hcut hy => ?_⟩
  exact exists_piece_of_occurrence htexts hnone (hs.symm.trans hcut) hy

/-- Where the needle does not occur, nothing is rewritten. -/
theorem neutralize_of_count_eq_zero {s : String}
    (h : count needle.toList (lower s.toList) = 0) : neutralize s = some s := by
  rw [neutralize, neutralizeLoop, find_needle_eq_none.mpr h]
  simp

/-- **Neutralizing is exact, safe and terminates.** In every state that the passes over a
content reach, the remaining content is the end of it, and if a fence is found there, the
slices at the offsets around it are the text before it and the text after it, which is
shorter. The loop ends at such a state; its result is the content with every fence broken and
has no fence left, and neutralizing the result gives it back. -/
theorem neutralize_exact (s : String) :
    (∀ out rest, ReflTransGen Pass ([], s.toList) (out, rest) → rest <:+ s.toList ∧
      ∀ idx, find needle.toList (lower rest) = some idx →
        ∃ kept fence next, rest = kept ++ (fence ++ next) ∧ lower fence = needle.toList ∧
          sliceTo rest idx = some kept ∧
          sliceFrom rest (idx + byteLen needle.toList) = some next ∧
          byteLen next < byteLen rest) ∧
    ∃ n, neutralize s = some n ∧
      (∃ out rest, ReflTransGen Pass ([], s.toList) (out, rest) ∧
        find needle.toList (lower rest) = none ∧ n.toList = out ++ rest) ∧
      EveryFenceBroken s.toList n.toList ∧
      (¬ needle.toList <:+: lower n.toList) ∧
      neutralize n = some n := by
  constructor
  · intro out rest hreached
    refine ⟨(Progress.reached hreached).suffix, fun idx hfind => ?_⟩
    obtain ⟨kept, fence, next, rfl, -, hfence, hto, hfrom⟩ := exists_slices hfind
    have hpos : 0 < byteLen fence := by
      rw [← byteLen_lower, hfence]
      decide
    refine ⟨kept, fence, next, rfl, hfence, hto, hfrom, ?_⟩
    rw [byteLen_append, byteLen_append]
    omega
  · obtain ⟨n, hn, hreplaced⟩ := neutralize_replaced s
    obtain ⟨r, hr, rfl⟩ := Option.map_eq_some_iff.mp hn
    obtain ⟨out, rest, hpasses, hnone, rfl⟩ := neutralizeLoop_passes hr
    have hclean := hreplaced.count_eq_zero
    rw [String.toList_ofList] at hclean
    refine ⟨_, hn, ⟨out, rest, hpasses, hnone, String.toList_ofList⟩, ?_, ?_, ?_⟩
    · rw [String.toList_ofList]
      exact (Progress.reached hpasses).everyFenceBroken hnone
    · rw [String.toList_ofList]
      exact count_eq_zero_iff.mp hclean
    · exact neutralize_of_count_eq_zero hreplaced.count_eq_zero

end LayerKit
