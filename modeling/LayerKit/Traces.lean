import LayerKit.Noninterference

/-!
# Reordered Runs

Two inputs are **independent** when a machine answers each of them alike before and after
the other, and the two orders lead to states that look the same. A list of inputs is
reordered by swapping neighbours that are independent; lists with the same order of all
dependent inputs are reordered into each other.

If states that look the same answer alike and stay so, then every reordering of a run is a
run: its transcript is reordered in the same way, so each input is answered as before, and
it ends in a state that looks the same.

## Main results

* `Independence.run_congr`: states that look the same run alike.
* `Independence.reordered`: a reordered run has the reordered transcript.
-/

/-- Lists that are reordered into each other by swapping neighbours. -/
inductive Reordered {α : Type*} (indep : α → α → Prop) : List α → List α → Prop
  | refl (l : List α) : Reordered indep l l
  | swap (l : List α) {a b : α} (h : indep a b) (l' : List α) :
      Reordered indep (l ++ a :: b :: l') (l ++ b :: a :: l')
  | trans {l₁ l₂ l₃ : List α} (h : Reordered indep l₁ l₂) (h' : Reordered indep l₂ l₃) :
      Reordered indep l₁ l₃

namespace Reordered

variable {α : Type*} {indep : α → α → Prop}

/-- A first step stays where it is. -/
theorem cons (a : α) {l l' : List α} (h : Reordered indep l l') :
    Reordered indep (a :: l) (a :: l') := by
  induction h with
  | refl l => exact .refl (a :: l)
  | swap l h l' => exact .swap (a :: l) h l'
  | trans h h' ih ih' => exact ih.trans ih'

end Reordered

/-- The **independence conditions**, relative to a relation of looking the same: states that
look the same answer alike and stay so, and independent inputs do not notice each other. -/
structure Independence {σ ι ο : Type*} (m : Mealy σ ι ο) (indep : ι → ι → Prop)
    (R : σ → σ → Prop) : Prop where
  equiv : Equivalence R
  answer : ∀ {s t i}, R s t → (m.step s i).2 = (m.step t i).2
  next : ∀ {s t i}, R s t → R (m.step s i).1 (m.step t i).1
  symm : ∀ {i j}, indep i j → indep j i
  unnoticed : ∀ {s i j}, indep i j → (m.step (m.step s i).1 j).2 = (m.step s j).2
  swapped : ∀ {s i j}, indep i j →
    R (m.step (m.step s i).1 j).1 (m.step (m.step s j).1 i).1

namespace Independence

variable {σ ι ο : Type*} {m : Mealy σ ι ο} {indep : ι → ι → Prop} {R : σ → σ → Prop}

/-- **States that look the same run alike.** -/
theorem run_congr (h : Independence m indep R) {s t : σ} (hR : R s t) (is : List ι) :
    (m.run s is).2 = (m.run t is).2 ∧ R (m.run s is).1 (m.run t is).1 := by
  induction is generalizing s t with
  | nil => exact ⟨rfl, hR⟩
  | cons i is ih =>
      obtain ⟨htranscript, hstate⟩ := ih (h.next hR)
      rw [Mealy.run_cons, Mealy.run_cons, h.answer hR, htranscript]
      exact ⟨rfl, hstate⟩

/-- **A reordered run has the reordered transcript** and ends in a state that looks the
same. -/
theorem reordered (h : Independence m indep R) {is js : List ι} (hr : Reordered indep is js)
    (s : σ) :
    Reordered (fun x y : ι × ο => indep x.1 y.1) (m.run s is).2 (m.run s js).2 ∧
      R (m.run s is).1 (m.run s js).1 := by
  induction hr generalizing s with
  | refl l => exact ⟨.refl _, h.equiv.refl _⟩
  | trans _ _ ih ih' => exact ⟨(ih s).1.trans (ih' s).1, h.equiv.trans (ih s).2 (ih' s).2⟩
  | @swap l i j hij l' =>
      induction l generalizing s with
      | nil =>
          obtain ⟨htranscript, hstate⟩ := h.run_congr (h.swapped (s := s) hij) l'
          refine ⟨?_, hstate⟩
          simp only [List.nil_append, Mealy.run_cons]
          rw [h.unnoticed hij, h.unnoticed (h.symm hij), htranscript]
          exact .swap (a := (i, (m.step s i).2)) (b := (j, (m.step s j).2)) [] hij _
      | cons k l ih =>
          obtain ⟨htranscript, hstate⟩ := ih (m.step s k).1
          exact ⟨htranscript.cons _, hstate⟩

end Independence
