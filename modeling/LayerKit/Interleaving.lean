import LayerKit.Simulation
import Mathlib.Logic.Function.Basic

/-!
# Interleaved Threads

A `Thread` over a machine issues one input at a time, branches on the answer and ends with a
result. A **pool** holds many threads over one machine, and is itself a machine: its inputs
name the thread that moves, so a list of inputs is a schedule and every interleaving of the
threads is a run.

The unwinding conditions lift from the machine to the pool (`pool_unwinding`): if the threads
of a set issue kept inputs only, and all others dropped inputs only, then no schedule lets
the set notice what the others do. Three consequences carry the results on concurrent
programs: a run of the pool is a run of the machine, so invariants of the machine hold under
every schedule; schedules that agree on the threads of a set are the same to it; and a thread
that no other one can disturb ends as it does alone.

## Main results

* `pool_simulation`: the machine inside a pool makes a run of its own.
* `issued_within`: every exchange is one that its thread may issue.
* `pool_unwinding`: the unwinding conditions of a pool.
* `schedules_agree`: two schedules with the same moves of the kept threads look the same.
* `finish_alone`: an undisturbed thread ends as it does when it runs alone.
-/

/-- A **thread**: it issues inputs, branches on the answers, and ends with a result. -/
inductive Thread (ι ο β : Type*)
  | done (b : β)
  | issue (i : ι) (next : ο → Thread ι ο β)

namespace Thread

variable {σ ι ο β γ : Type*}

/-- Run a thread alone, to its end. -/
def finish (m : Mealy σ ι ο) : Thread ι ο β → σ → σ × β
  | done b, s => (s, b)
  | issue i next, s => (next (m.step s i).2).finish m (m.step s i).1

/-- Every input that the thread can issue satisfies `p`, whatever it is answered. -/
def Within (p : ι → Prop) : Thread ι ο β → Prop
  | done _ => True
  | issue i next => p i ∧ ∀ o, (next o).Within p

/-- Apply a function to the result. -/
def map (f : β → γ) : Thread ι ο β → Thread ι ο γ
  | done b => done (f b)
  | issue i next => issue i fun o => (next o).map f

/-- A thread stays within a weaker condition. -/
theorem Within.mono {p q : ι → Prop} (h : ∀ i, p i → q i) {a : Thread ι ο β}
    (ha : a.Within p) : a.Within q := by
  induction a with
  | done b => trivial
  | issue i next ih => exact ⟨h i ha.1, fun o => ih o (ha.2 o)⟩

/-- Mapping the result keeps the operations. -/
theorem Within.map {p : ι → Prop} (f : β → γ) {a : Thread ι ο β} (ha : a.Within p) :
    (a.map f).Within p := by
  induction a with
  | done b => trivial
  | issue i next ih => exact ⟨ha.1, fun o => ih o (ha.2 o)⟩

/-- A mapped thread runs as the thread does. -/
theorem finish_map (m : Mealy σ ι ο) (f : β → γ) (a : Thread ι ο β) (s : σ) :
    (a.map f).finish m s = ((a.finish m s).1, f (a.finish m s).2) := by
  induction a generalizing s with
  | done b => rfl
  | issue i next ih => exact ih _ _

/-- A thread that issues kept inputs only ends alike from two states that look the same. -/
theorem finish_congr {m : Mealy σ ι ο} {keep : ι → Bool} {R : σ → σ → Prop}
    (u : Unwinding m keep R) {a : Thread ι ο β} (ha : a.Within (keep · = true)) {s t : σ}
    (h : R s t) : (a.finish m s).2 = (a.finish m t).2 ∧ R (a.finish m s).1 (a.finish m t).1 := by
  induction a generalizing s t with
  | done b => exact ⟨rfl, h⟩
  | issue i next ih =>
      rw [finish, finish, u.answer h ha.1]
      exact ih _ (ha.2 _) (u.kept h ha.1)

/-- A thread that issues dropped inputs only leaves a state that looks the same. -/
theorem finish_dropped {m : Mealy σ ι ο} {keep : ι → Bool} {R : σ → σ → Prop}
    (u : Unwinding m keep R) {a : Thread ι ο β} (ha : a.Within (keep · = false)) {s t : σ}
    (h : R s t) : R (a.finish m s).1 t := by
  induction a generalizing s with
  | done b => exact h
  | issue i next ih => exact ih _ (ha.2 _) (u.dropped h ha.1)

end Thread

/-! ### Pools -/

section Pool

variable {σ ι ο β κ : Type*} [DecidableEq κ]

/-- A **pool** of threads over one machine. A move of a thread issues its next input; a thread
that has ended does not move. -/
def pool (m : Mealy σ ι ο) : Mealy ((κ → Thread ι ο β) × σ) κ (Option (ι × ο)) where
  step s k :=
    match s.1 k with
    | .done _ => (s, none)
    | .issue i next =>
        ((Function.update s.1 k (next (m.step s.2 i).2), (m.step s.2 i).1),
          some (i, (m.step s.2 i).2))

/-- Moving a thread that has ended does nothing. -/
theorem pool_step_done {m : Mealy σ ι ο} {s : (κ → Thread ι ο β) × σ} {k : κ} {b : β}
    (h : s.1 k = .done b) : (pool m).step s k = (s, none) := by
  simp only [pool, h]

/-- Moving a thread issues its next operation. -/
theorem pool_step_issue {m : Mealy σ ι ο} {s : (κ → Thread ι ο β) × σ} {k : κ} {i : ι}
    {next : ο → Thread ι ο β} (h : s.1 k = .issue i next) :
    (pool m).step s k =
      ((Function.update s.1 k (next (m.step s.2 i).2), (m.step s.2 i).1),
        some (i, (m.step s.2 i).2)) := by
  simp only [pool, h]

/-- **A pool simulates its machine**: what is seen of a move is its exchange. -/
theorem pool_simulation (m : Mealy σ ι ο) :
    Simulation (pool (κ := κ) (β := β) m) m (fun _ exchange => exchange) (fun s t => s.2 = t) where
  silent := by
    intro s t k hR hseen
    cases hk : s.1 k with
    | done b =>
        rw [pool_step_done hk]
        exact hR
    | issue i next =>
        rw [pool_step_issue hk] at hseen
        cases hseen
  visible := by
    intro s t k j o hR hseen
    subst hR
    cases hk : s.1 k with
    | done b =>
        rw [pool_step_done hk] at hseen
        cases hseen
    | issue i next =>
        rw [pool_step_issue hk] at hseen ⊢
        obtain ⟨rfl, rfl⟩ := Prod.mk.inj (Option.some.inj hseen)
        exact ⟨rfl, rfl⟩

/-- Every thread stays within what it may issue. -/
theorem within_run {m : Mealy σ ι ο} {p : κ → ι → Prop} {s : (κ → Thread ι ο β) × σ}
    (h : ∀ k, (s.1 k).Within (p k)) (ks : List κ) (k : κ) :
    (((pool m).run s ks).1.1 k).Within (p k) := by
  let Stays (s : (κ → Thread ι ο β) × σ) : Prop := ∀ k, (s.1 k).Within (p k)
  have hstep : ∀ s k', Stays s → Stays ((pool m).step s k').1 := by
    intro s k' hs k
    cases hk : s.1 k' with
    | done b =>
        rw [pool_step_done hk]
        exact hs k
    | issue i next =>
        rw [pool_step_issue hk]
        rcases eq_or_ne k k' with rfl | hne
        · have hown := hs k
          rw [hk] at hown
          simpa only [Function.update_self] using hown.2 _
        · simpa only [Function.update_of_ne hne] using hs k
  exact Mealy.run_invariant hstep h ks k

/-- Every exchange of a thread with the machine is within what the thread may issue. -/
theorem issued_within {m : Mealy σ ι ο} {p : κ → ι → Prop} {s : (κ → Thread ι ο β) × σ}
    (h : ∀ k, (s.1 k).Within (p k)) (ks : List κ) :
    ∀ x ∈ ((pool m).run s ks).2, ∀ i o, x.2 = some (i, o) → p x.1 i := by
  induction ks generalizing s with
  | nil => exact fun x hx => absurd hx List.not_mem_nil
  | cons k ks ih =>
      have hrest := ih (s := ((pool m).step s k).1) fun k' => within_run h [k] k'
      rintro x (_ | ⟨_, hx⟩) i o hio
      · cases hk : s.1 k with
        | done b =>
            rw [pool_step_done hk] at hio
            cases hio
        | issue j next =>
            have hown := h k
            rw [hk] at hown
            rw [pool_step_issue hk] at hio
            obtain ⟨rfl, -⟩ := Prod.mk.inj (Option.some.inj hio)
            exact hown.1
      · exact hrest x hx i o hio

/-- Two pools that look the same to the threads of a set: these are in the same states, and
issue kept inputs only; the others issue dropped inputs only; and the machines look the
same. -/
structure PoolAgree (keep : ι → Bool) (R : σ → σ → Prop) (A : κ → Bool)
    (s t : (κ → Thread ι ο β) × σ) : Prop where
  same : ∀ k, A k = true → s.1 k = t.1 k
  inside : ∀ k, A k = true → (s.1 k).Within (keep · = true)
  outside : ∀ k, A k = false → (s.1 k).Within (keep · = false)
  state : R s.2 t.2

/-- **A pool unwinds**: the moves of a set of threads are answered, and leave the pool, in a
way that the moves of the others cannot change. -/
theorem pool_unwinding {m : Mealy σ ι ο} {keep : ι → Bool} {R : σ → σ → Prop}
    (u : Unwinding m keep R) (A : κ → Bool) :
    Unwinding (pool (β := β) m) A (PoolAgree keep R A) where
  answer := by
    intro s t k h hk
    cases hs : s.1 k with
    | done b => rw [pool_step_done hs, pool_step_done ((h.same k hk).symm.trans hs)]
    | issue i next =>
        have hin := h.inside k hk
        rw [hs] at hin
        rw [pool_step_issue hs, pool_step_issue ((h.same k hk).symm.trans hs),
          u.answer h.state hin.1]
  kept := by
    intro s t k h hk
    cases hs : s.1 k with
    | done b =>
        rw [pool_step_done hs, pool_step_done ((h.same k hk).symm.trans hs)]
        exact h
    | issue i next =>
        have hin := h.inside k hk
        rw [hs] at hin
        rw [pool_step_issue hs, pool_step_issue ((h.same k hk).symm.trans hs),
          u.answer h.state hin.1]
        refine ⟨fun k' hk' => ?_, fun k' hk' => ?_, fun k' hk' => ?_, u.kept h.state hin.1⟩
        · rcases eq_or_ne k' k with rfl | hne
          · simp only [Function.update_self]
          · simp only [Function.update_of_ne hne, h.same k' hk']
        · rcases eq_or_ne k' k with rfl | hne
          · simpa only [Function.update_self] using hin.2 _
          · simpa only [Function.update_of_ne hne] using h.inside k' hk'
        · have hne : k' ≠ k := fun heq => by
            rw [heq, hk] at hk'
            cases hk'
          simpa only [Function.update_of_ne hne] using h.outside k' hk'
  dropped := by
    intro s t k h hk
    cases hs : s.1 k with
    | done b =>
        rw [pool_step_done hs]
        exact h
    | issue i next =>
        have hout := h.outside k hk
        rw [hs] at hout
        rw [pool_step_issue hs]
        have hne : ∀ k', A k' = true → k' ≠ k := fun k' hk' heq => by
          rw [heq, hk] at hk'
          cases hk'
        refine ⟨fun k' hk' => ?_, fun k' hk' => ?_, fun k' hk' => ?_, u.dropped h.state hout.1⟩
        · simpa only [Function.update_of_ne (hne k' hk')] using h.same k' hk'
        · simpa only [Function.update_of_ne (hne k' hk')] using h.inside k' hk'
        · rcases eq_or_ne k' k with rfl | hne'
          · simpa only [Function.update_self] using hout.2 _
          · simpa only [Function.update_of_ne hne'] using h.outside k' hk'

/-- **Two schedules with the same moves of the kept threads** answer these alike, leave them
in the same states and leave the machine looking the same, also when the other threads differ
and the machines only looked the same at the start. -/
theorem schedules_agree {m : Mealy σ ι ο} {keep : ι → Bool} {R : σ → σ → Prop}
    (u : Unwinding m keep R) (hR : Equivalence R) {A : κ → Bool}
    {s t : (κ → Thread ι ο β) × σ} (hst : PoolAgree keep R A s t) (htt : PoolAgree keep R A t t)
    {ks ls : List κ} (h : ks.filter A = ls.filter A) :
    ((pool m).run s ks).2.filter (fun x => A x.1) =
        ((pool m).run t ls).2.filter (fun x => A x.1) ∧
      PoolAgree keep R A ((pool m).run s ks).1 ((pool m).run t ls).1 := by
  -- both runs look like the run of `t` in which the kept threads move alone
  obtain ⟨hks, hagree⟩ := (pool_unwinding u A).noninterference hst ks
  obtain ⟨hls, hagree'⟩ := (pool_unwinding u A).noninterference htt ls
  rw [h] at hks hagree
  exact ⟨hks.trans hls.symm, fun k hk => (hagree.same k hk).trans (hagree'.same k hk).symm,
    hagree.inside, hagree.outside, hR.trans hagree.state (hR.symm hagree'.state)⟩

/-- The moves of a thread are part of what it does alone. -/
theorem finish_own (m : Mealy σ ι ο) {k : κ} (s : (κ → Thread ι ο β) × σ) {ks : List κ}
    (hks : ∀ k' ∈ ks, k' = k) :
    (((pool m).run s ks).1.1 k).finish m ((pool m).run s ks).1.2 = (s.1 k).finish m s.2 := by
  induction ks generalizing s with
  | nil => rfl
  | cons k' ks ih =>
      obtain ⟨rfl, hrest⟩ := List.forall_mem_cons.mp hks
      have hstep := ih ((pool m).step s k').1 hrest
      rw [Mealy.run_cons]
      refine hstep.trans ?_
      cases hk : s.1 k' with
      | done b => rw [pool_step_done hk, hk]
      | issue i next =>
          rw [pool_step_issue hk]
          simp only [Function.update_self, Thread.finish]

/-- **An undisturbed thread ends as it does alone.** When no other thread belongs to the set of
a thread, what is left of it after any schedule ends with the result it has when it runs alone
from the start, and leaves the machine looking as it does then. -/
theorem finish_alone {m : Mealy σ ι ο} {keep : ι → Bool} {R : σ → σ → Prop}
    (u : Unwinding m keep R) {A : κ → Bool} {k : κ} (hk : A k = true)
    (hA : ∀ k', A k' = true → k' = k) {s : (κ → Thread ι ο β) × σ}
    (hs : PoolAgree keep R A s s) (ks : List κ) :
    ((((pool m).run s ks).1.1 k).finish m ((pool m).run s ks).1.2).2 =
        ((s.1 k).finish m s.2).2 ∧
      R ((((pool m).run s ks).1.1 k).finish m ((pool m).run s ks).1.2).1
        ((s.1 k).finish m s.2).1 := by
  have hagree := ((pool_unwinding u A).noninterference hs ks).2
  have hmoves : ∀ k' ∈ ks.filter A, k' = k := fun k' hk' => hA k' (List.mem_filter.mp hk').2
  have hown := finish_own m s hmoves
  rw [hagree.same k hk, ← hown]
  exact Thread.finish_congr u (hagree.same k hk ▸ hagree.inside k hk) hagree.state

end Pool
