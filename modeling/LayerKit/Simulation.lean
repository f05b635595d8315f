import LayerKit.Noninterference

/-!
# Simulations between Machines

A machine **simulates** another when each of its steps is one step of the other or none at
all. What is seen of a step says which: `seen` reads off an input and its answer the input
and the answer of the other machine, if there are any.

The run of the first machine is then a run of the second one: over the inputs that are
seen, it is answered what is seen, and ends in a related state.

## Main results

* `Simulation.run`: what is seen of a run is a run of the other machine.
-/

/-- The part of a transcript that is seen. -/
def observed {ι ο ι' ο' : Type*} (seen : ι → ο → Option (ι' × ο')) (transcript : List (ι × ο)) :
    List (ι' × ο') :=
  transcript.filterMap fun x => seen x.1 x.2

/-- A **simulation** of a machine by another: a step that is not seen stays related to the
same state, and one that is seen is a step of the other machine. -/
structure Simulation {σ τ ι ο ι' ο' : Type*} (m : Mealy σ ι ο) (n : Mealy τ ι' ο')
    (seen : ι → ο → Option (ι' × ο')) (R : σ → τ → Prop) : Prop where
  silent : ∀ {s t i}, R s t → seen i (m.step s i).2 = none → R (m.step s i).1 t
  visible : ∀ {s t i j o}, R s t → seen i (m.step s i).2 = some (j, o) →
    (n.step t j).2 = o ∧ R (m.step s i).1 (n.step t j).1

/-- **What is seen of a run is a run** of the other machine, and the two end in related
states. -/
theorem Simulation.run {σ τ ι ο ι' ο' : Type*} {m : Mealy σ ι ο} {n : Mealy τ ι' ο'}
    {seen : ι → ο → Option (ι' × ο')} {R : σ → τ → Prop} (h : Simulation m n seen R) {s : σ}
    {t : τ} (hR : R s t) (is : List ι) :
    (n.run t ((observed seen (m.run s is).2).map Prod.fst)).2 = observed seen (m.run s is).2 ∧
      R (m.run s is).1 (n.run t ((observed seen (m.run s is).2).map Prod.fst)).1 := by
  induction is generalizing s t with
  | nil => exact ⟨rfl, hR⟩
  | cons i is ih =>
      rw [Mealy.run_cons, observed, List.filterMap_cons]
      cases hseen : seen i (m.step s i).2 with
      | none => exact ih (h.silent hR hseen)
      | some x =>
          obtain ⟨j, o⟩ := x
          obtain ⟨ho, hR'⟩ := h.visible hR hseen
          obtain ⟨htranscript, hstate⟩ := ih hR'
          rw [List.map_cons, Mealy.run_cons]
          exact ⟨by rw [ho]; exact congrArg _ htranscript, hstate⟩
