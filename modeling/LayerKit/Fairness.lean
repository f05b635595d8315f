import LayerKit.Interleaving
import Mathlib.Order.Lattice.Nat

/-!
# Fair Schedules

An infinite schedule is **fair** to a thread when it moves the thread again and again. A
thread has no infinite run: whatever it is answered, it ends. So under a schedule that is
fair to it, a thread of a pool ends, and stays as it ended, with one of the results that it
can end with at all.

## Main results

* `eventually_done`: under a fair schedule, every thread ends.
-/

/-- The moves of a schedule before a time. -/
def moves {κ : Type*} (f : ℕ → κ) (n : ℕ) : List κ :=
  (List.range n).map f

/-- A schedule is **fair** when it moves every thread again and again. -/
def Fair {κ : Type*} (f : ℕ → κ) : Prop :=
  ∀ k n, ∃ n', n ≤ n' ∧ f n' = k

namespace Thread

variable {σ ι ο β γ : Type*}

/-- Every result that the thread can end with satisfies `p`, whatever it is answered. -/
def Returns (p : β → Prop) : Thread ι ο β → Prop
  | done b => p b
  | issue _ next => ∀ o, (next o).Returns p

/-- Mapping the result maps what is returned. -/
theorem Returns.map {p : γ → Prop} {f : β → γ} {a : Thread ι ο β}
    (ha : a.Returns fun b => p (f b)) : (a.map f).Returns p := by
  induction a with
  | done b => exact ha
  | issue i next ih => exact fun o => ih o (ha o)

/-- What holds of every value holds of what is returned. -/
theorem Returns.of_forall {p : β → Prop} (h : ∀ b, p b) (a : Thread ι ο β) : a.Returns p := by
  induction a with
  | done b => exact h b
  | issue i next ih => exact ih

/-- A thread that runs alone ends with a result that it can end with. -/
theorem Returns.finish {p : β → Prop} {a : Thread ι ο β} (ha : a.Returns p) (m : Mealy σ ι ο)
    (s : σ) : p (a.finish m s).2 := by
  induction a generalizing s with
  | done b => exact ha
  | issue i next ih => exact ih _ (ha _) _

end Thread

section Pool

variable {σ ι ο β κ : Type*} [DecidableEq κ] {m : Mealy σ ι ο}

/-- The pool after the moves before a time. -/
theorem run_moves_succ (s : (κ → Thread ι ο β) × σ) (f : ℕ → κ) (n : ℕ) :
    ((pool m).run s (moves f (n + 1))).1 =
      ((pool m).step ((pool m).run s (moves f n)).1 (f n)).1 := by
  rw [moves, List.range_succ, List.map_append, Mealy.run_append_fst]
  rfl

/-- A thread waits while others move. -/
theorem pool_step_other (s : (κ → Thread ι ο β) × σ) {k k' : κ} (h : k ≠ k') :
    ((pool m).step s k').1.1 k = s.1 k := by
  cases hk : s.1 k' with
  | done b => rw [pool_step_done hk]
  | issue i next =>
      rw [pool_step_issue hk]
      exact Function.update_of_ne h _ _

/-- A thread is as it was until its next move. -/
theorem waits (s : (κ → Thread ι ο β) × σ) {f : ℕ → κ} {k : κ} {n n' : ℕ} (hle : n ≤ n')
    (h : ∀ j, n ≤ j → j < n' → f j ≠ k) :
    ((pool m).run s (moves f n')).1.1 k = ((pool m).run s (moves f n)).1.1 k := by
  induction n', hle using Nat.le_induction with
  | base => rfl
  | succ n' hle ih =>
      rw [run_moves_succ, pool_step_other _ (h n' hle (Nat.lt_succ_self n')).symm]
      exact ih fun j hj hlt => h j hj (Nat.lt_succ_of_lt hlt)

/-- A thread that has ended stays so. -/
theorem done_stays (s : (κ → Thread ι ο β) × σ) {f : ℕ → κ} {k : κ} {b : β} {n n' : ℕ}
    (hle : n ≤ n') (h : ((pool m).run s (moves f n)).1.1 k = .done b) :
    ((pool m).run s (moves f n')).1.1 k = .done b := by
  induction n', hle using Nat.le_induction with
  | base => exact h
  | succ n' hle ih =>
      rw [run_moves_succ]
      rcases eq_or_ne k (f n') with rfl | hne
      · rw [pool_step_done ih]
        exact ih
      · rw [pool_step_other _ hne]
        exact ih

/-- **A thread ends** under every schedule that is fair to it, and stays as it ended. -/
theorem eventually_done (s : (κ → Thread ι ο β) × σ) {f : ℕ → κ} {k : κ}
    (hf : ∀ n, ∃ n', n ≤ n' ∧ f n' = k) {p : β → Prop} (hp : (s.1 k).Returns p) :
    ∃ n b, p b ∧ ∀ n', n ≤ n' → ((pool m).run s (moves f n')).1.1 k = .done b := by
  -- by induction on what is left of the thread at some time
  have hends : ∀ (a : Thread ι ο β) (n : ℕ), ((pool m).run s (moves f n)).1.1 k = a →
      a.Returns p → ∃ n' b, p b ∧ ((pool m).run s (moves f n')).1.1 k = .done b := by
    intro a
    induction a with
    | done b => exact fun n hn hb => ⟨n, b, hb, hn⟩
    | issue i next ih =>
        intro n hn hnext
        classical
        -- its next move is the first one from here on
        obtain ⟨hle, hk⟩ := Nat.find_spec (hf n)
        have hwait := waits (m := m) s hle fun j hj hlt heq => Nat.find_min (hf n) hlt ⟨hj, heq⟩
        rw [hn] at hwait
        have hmove : ((pool m).run s (moves f (Nat.find (hf n) + 1))).1.1 k =
            next (m.step ((pool m).run s (moves f (Nat.find (hf n)))).1.2 i).2 := by
          rw [run_moves_succ, hk, pool_step_issue hwait]
          exact Function.update_self _ _ _
        exact ih _ _ hmove (hnext _)
  obtain ⟨n, b, hb, hn⟩ := hends _ 0 rfl hp
  exact ⟨n, b, hb, fun n' hle => done_stays s hle hn⟩

end Pool
