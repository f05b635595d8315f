import Mathlib.Data.List.Basic

/-!
# Noninterference by Unwinding

A `Mealy` machine answers each input and moves to a next state; its run over a list of
inputs is the list of the answered inputs, the **transcript**, with the final state. Given
a choice of inputs to keep, noninterference says that the run answers the kept inputs as
if the others had never been issued, and ends in a state that looks the same.

`Unwinding` is the step-wise condition for it, relative to a relation of looking the same:
a kept input gets one answer in two states that look the same and leads to two that still
do, and any other input leads to a state that looks the same as before.

## Main results

* `Mealy.run_forall`: what holds of every step from an invariant holds of every exchange.
* `Unwinding.noninterference`: the kept part of a run is the run of the kept part.
-/

/-- A machine that answers each input and moves on. -/
structure Mealy (σ ι ο : Type*) where
  step : σ → ι → σ × ο

namespace Mealy

variable {σ ι ο : Type*}

/-- Run a list of inputs: the final state and the transcript. -/
def run (m : Mealy σ ι ο) : σ → List ι → σ × List (ι × ο)
  | s, [] => (s, [])
  | s, i :: is =>
      let rest := m.run (m.step s i).1 is
      (rest.1, (i, (m.step s i).2) :: rest.2)

/-- The empty run changes nothing. -/
@[simp] theorem run_nil (m : Mealy σ ι ο) (s : σ) : m.run s [] = (s, []) := rfl

/-- A run is a step and the run after it. -/
@[simp] theorem run_cons (m : Mealy σ ι ο) (s : σ) (i : ι) (is : List ι) :
    m.run s (i :: is) =
      ((m.run (m.step s i).1 is).1, (i, (m.step s i).2) :: (m.run (m.step s i).1 is).2) := rfl

/-- A run over two lists of inputs ends where the second ends after the first. -/
theorem run_append_fst (m : Mealy σ ι ο) (s : σ) (is js : List ι) :
    (m.run s (is ++ js)).1 = (m.run (m.run s is).1 js).1 := by
  induction is generalizing s with
  | nil => rfl
  | cons i is ih => exact ih (m.step s i).1

/-- The transcript of a run over two lists of inputs. -/
theorem run_append_snd (m : Mealy σ ι ο) (s : σ) (is js : List ι) :
    (m.run s (is ++ js)).2 = (m.run s is).2 ++ (m.run (m.run s is).1 js).2 := by
  induction is generalizing s with
  | nil => rfl
  | cons i is ih =>
      rw [List.cons_append, run_cons, run_cons, ih, List.cons_append]

/-- The inputs of a transcript are those of the run. -/
theorem map_fst_run (m : Mealy σ ι ο) (s : σ) (is : List ι) :
    (m.run s is).2.map Prod.fst = is := by
  induction is generalizing s with
  | nil => rfl
  | cons i is ih => rw [run_cons, List.map_cons, ih]

/-- **Run induction**: an invariant that every step preserves holds at the end of a run. -/
theorem run_invariant {m : Mealy σ ι ο} {Inv : σ → Prop}
    (hstep : ∀ s i, Inv s → Inv (m.step s i).1) {s : σ} (hs : Inv s) (is : List ι) :
    Inv (m.run s is).1 := by
  induction is generalizing s with
  | nil => exact hs
  | cons i is ih => exact ih (hstep s i hs)

/-- What holds of the answer to every input in every state holds of every exchange. -/
theorem run_forall {m : Mealy σ ι ο} {P : ι → ο → Prop}
    (hstep : ∀ s i, P i (m.step s i).2) (s : σ) (is : List ι) :
    ∀ x ∈ (m.run s is).2, P x.1 x.2 := by
  induction is generalizing s with
  | nil => exact fun x hx => absurd hx List.not_mem_nil
  | cons i is ih =>
      rintro x (_ | ⟨_, hx⟩)
      · exact hstep s i
      · exact ih _ x hx

end Mealy

/-- The **unwinding conditions** for the kept inputs, relative to a relation between
states. -/
structure Unwinding {σ ι ο : Type*} (m : Mealy σ ι ο) (keep : ι → Bool)
    (R : σ → σ → Prop) : Prop where
  answer : ∀ {s t i}, R s t → keep i = true → (m.step s i).2 = (m.step t i).2
  kept : ∀ {s t i}, R s t → keep i = true → R (m.step s i).1 (m.step t i).1
  dropped : ∀ {s t i}, R s t → keep i = false → R (m.step s i).1 t

/-- **Noninterference.** From two states that look the same, the answers to the kept
inputs of a run are those of the run of the kept inputs alone, and the two runs end in
states that look the same. -/
theorem Unwinding.noninterference {σ ι ο : Type*} {m : Mealy σ ι ο} {keep : ι → Bool}
    {R : σ → σ → Prop} (u : Unwinding m keep R) {s t : σ} (h : R s t) (is : List ι) :
    (m.run s is).2.filter (fun x => keep x.1) = (m.run t (is.filter keep)).2 ∧
      R (m.run s is).1 (m.run t (is.filter keep)).1 := by
  induction is generalizing s t with
  | nil => exact ⟨rfl, h⟩
  | cons i is ih =>
      cases hi : keep i with
      | true =>
          obtain ⟨htr, hR⟩ := ih (u.kept h hi)
          simp only [List.filter_cons, hi, if_true, Mealy.run_cons]
          exact ⟨by rw [htr, u.answer h hi], hR⟩
      | false =>
          obtain ⟨htr, hR⟩ := ih (u.dropped h hi)
          simp only [List.filter_cons, hi, Mealy.run_cons]
          exact ⟨htr, hR⟩
