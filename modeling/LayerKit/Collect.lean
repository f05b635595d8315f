import Mathlib.Data.List.Basic
import Mathlib.Data.List.Flatten
import Mathlib.Data.List.Forall2

/-!
# Collecting Loops

A loop over a list that may fail at each element and otherwise pushes some outputs onto a
growing list; a failure ends the loop and drops what was pushed. `collect emit xs` is that
loop, for what one element emits.

## Main results

* `mapM_eq_ok`, `mapM_eq_error_iff`: when a traversal succeeds, and where it fails.
* `collect_eq_ok`: success means that every element succeeds, and the outputs are theirs in
  order.
* `collect_eq_error`: a failure is that of some element.
* `forall₂_of_collect`: what relates each element to its outputs relates the lists.
* `collect_interspersed`: a loop over encoded items with unknown ones between them.
-/

namespace Loop

universe u

variable {ε α β γ : Type*}

/-- A step that succeeded hands on its value. -/
@[simp] theorem ok_bind {α β : Type u} (a : α) (f : α → Except ε β) :
    (Except.ok a >>= f) = f a := rfl

/-- A sequence of two steps succeeds when both do. -/
theorem bind_eq_ok {x : Except ε α} {f : α → Except ε β} {b : β} :
    x.bind f = .ok b ↔ ∃ a, x = .ok a ∧ f a = .ok b := by
  cases x with
  | error e => simp [Except.bind]
  | ok a => simp [Except.bind]

/-- A sequence of two steps fails when one of them does. -/
theorem bind_eq_error {x : Except ε α} {f : α → Except ε β} {e : ε} :
    x.bind f = .error e ↔ x = .error e ∨ ∃ a, x = .ok a ∧ f a = .error e := by
  cases x with
  | error e' => simp [Except.bind]
  | ok a => simp [Except.bind]

/-- A sequence of two steps succeeds with some value exactly when both steps do. -/
theorem exists_bind_eq_ok {α β : Type u} {x : Except ε α} {f : α → Except ε β} :
    (∃ b, (x >>= f) = .ok b) ↔ ∃ a, x = .ok a ∧ ∃ b, f a = .ok b := by
  cases x with
  | error e => simp [bind, Except.bind]
  | ok a => simp

/-- A traversal succeeds when every element does, with their results in order. -/
theorem mapM_eq_ok {α β : Type u} {f : α → Except ε β} {xs : List α} {ys : List β} :
    xs.mapM f = .ok ys ↔ List.Forall₂ (fun x y => f x = .ok y) xs ys := by
  induction xs generalizing ys with
  | nil => cases ys <;> simp [pure, Except.pure]
  | cons x xs ih =>
      rw [List.mapM_cons]
      constructor
      · intro h
        obtain ⟨y, hy, h⟩ := bind_eq_ok.mp h
        obtain ⟨rest, hrest, h⟩ := bind_eq_ok.mp h
        obtain rfl : y :: rest = ys := Except.ok.inj h
        exact .cons hy (ih.mp hrest)
      · rintro (_ | ⟨hy, hrest⟩)
        rw [hy, ok_bind, ih.mpr hrest, ok_bind]
        rfl

/-- Push what each element emits, up to the first failure. -/
def collect (emit : α → Except ε (List β)) (xs : List α) : Except ε (List β) :=
  xs.foldlM (fun out x => do
    let new ← emit x
    pure (out ++ new)) []

/-- The loop from a list that has outputs already. -/
theorem foldlM_eq_ok {emit : α → Except ε (List β)} {xs : List α} {out ys : List β} :
    xs.foldlM (fun out x => do
      let new ← emit x
      pure (out ++ new)) out = .ok ys ↔
      ∃ news, List.Forall₂ (fun x new => emit x = .ok new) xs news ∧ ys = out ++ news.flatten := by
  induction xs generalizing out with
  | nil =>
      rw [List.foldlM_nil]
      constructor
      · rintro ⟨⟩
        exact ⟨[], .nil, by simp⟩
      · rintro ⟨news, h, rfl⟩
        cases h
        simp [pure, Except.pure]
  | cons x xs ih =>
      rw [List.foldlM_cons]
      cases hx : emit x with
      | error e =>
          constructor
          · rintro ⟨⟩
          · rintro ⟨news, h, -⟩
            cases h with
            | cons hok _ =>
                rw [hx] at hok
                cases hok
      | ok new =>
          have hstep : ((do
              let new ← Except.ok new
              pure (out ++ new)) : Except ε (List β)) = .ok (out ++ new) := rfl
          rw [hstep]
          refine (@ih (out ++ new)).trans ⟨?_, ?_⟩
          · rintro ⟨news, h, rfl⟩
            exact ⟨new :: news, .cons hx h, by simp⟩
          · rintro ⟨news, h, rfl⟩
            cases h with
            | @cons _ new' _ news hok h =>
                obtain rfl : new = new' := Except.ok.inj (hx.symm.trans hok)
                exact ⟨news, h, by simp⟩

/-- **Success**: every element succeeds, and their outputs follow one another. -/
theorem collect_eq_ok {emit : α → Except ε (List β)} {xs : List α} {ys : List β} :
    collect emit xs = .ok ys ↔
      ∃ news, List.Forall₂ (fun x new => emit x = .ok new) xs news ∧ ys = news.flatten := by
  rw [collect, foldlM_eq_ok]
  simp only [List.nil_append]

/-- **Failure** is that of some element. -/
theorem collect_eq_error {emit : α → Except ε (List β)} {xs : List α} {e : ε}
    (h : collect emit xs = .error e) : ∃ x ∈ xs, emit x = .error e := by
  rw [collect] at h
  generalize ([] : List β) = out at h
  induction xs generalizing out with
  | nil => cases h
  | cons x xs ih =>
      rw [List.foldlM_cons] at h
      cases hx : emit x with
      | error e' =>
          rw [hx] at h
          cases h
          exact ⟨x, List.mem_cons_self, hx⟩
      | ok new =>
          rw [hx] at h
          obtain ⟨x', hx', he⟩ := ih (out ++ new) h
          exact ⟨x', List.mem_cons_of_mem _ hx', he⟩

/-- Each element on the left of a pointwise relation has a partner. -/
theorem exists_of_forall₂ {R : α → β → Prop} {xs : List α} {ys : List β}
    (h : List.Forall₂ R xs ys) {x : α} (hx : x ∈ xs) : ∃ y ∈ ys, R x y := by
  induction h with
  | nil => cases hx
  | @cons x' y xs ys hxy _ ih =>
      rcases List.mem_cons.mp hx with rfl | hx
      · exact ⟨y, List.mem_cons_self, hxy⟩
      · obtain ⟨y', hy', hrel⟩ := ih hx
        exact ⟨y', List.mem_cons_of_mem _ hy', hrel⟩

/-- What partners agree on holds of all on the left when it holds of all on the right. -/
theorem forall_mem_iff_of_forall₂ {R : α → β → Prop} {xs : List α} {ys : List β} {p : α → Prop}
    {q : β → Prop} (h : List.Forall₂ R xs ys) (hpq : ∀ x y, R x y → (p x ↔ q y)) :
    (∀ x ∈ xs, p x) ↔ ∀ y ∈ ys, q y := by
  induction h with
  | nil => exact iff_of_true (List.forall_mem_nil p) (List.forall_mem_nil q)
  | cons hxy _ ih => rw [List.forall_mem_cons, List.forall_mem_cons, hpq _ _ hxy, ih]

/-- A loop succeeds exactly when every element does. -/
theorem exists_collect_eq_ok {emit : α → Except ε (List β)} {xs : List α} :
    (∃ ys, collect emit xs = .ok ys) ↔ ∀ x ∈ xs, ∃ new, emit x = .ok new := by
  constructor
  · rintro ⟨ys, h⟩ x hx
    obtain ⟨news, hnews, -⟩ := collect_eq_ok.mp h
    obtain ⟨new, -, hnew⟩ := exists_of_forall₂ hnews hx
    exact ⟨new, hnew⟩
  · intro h
    cases hcollect : collect emit xs with
    | ok ys => exact ⟨ys, rfl⟩
    | error e =>
        obtain ⟨x, hx, hfail⟩ := collect_eq_error hcollect
        obtain ⟨new, hnew⟩ := h x hx
        rw [hfail] at hnew
        cases hnew

/-- There are partners of all when there is one of each. -/
theorem exists_forall₂ {R : α → β → Prop} {xs : List α} (h : ∀ x ∈ xs, ∃ y, R x y) :
    ∃ ys, List.Forall₂ R xs ys := by
  induction xs with
  | nil => exact ⟨[], .nil⟩
  | cons x xs ih =>
      obtain ⟨y, hy⟩ := h x List.mem_cons_self
      obtain ⟨ys, hys⟩ := ih fun x' hx' => h x' (List.mem_cons_of_mem _ hx')
      exact ⟨y :: ys, .cons hy hys⟩

/-- What holds between any two holds between their partners. -/
theorem pairwise_of_forall₂ {R : α → β → Prop} {P : α → α → Prop} {Q : β → β → Prop}
    (hPQ : ∀ x x' y y', R x y → R x' y' → P x x' → Q y y') {xs : List α} {ys : List β}
    (h : List.Forall₂ R xs ys) (hxs : xs.Pairwise P) : ys.Pairwise Q := by
  induction h with
  | nil => exact .nil
  | @cons x y xs ys hxy hrest ih =>
      obtain ⟨hx, hxs⟩ := List.pairwise_cons.mp hxs
      refine List.pairwise_cons.mpr ⟨fun y' hy' => ?_, ih hxs⟩
      obtain ⟨x', hx', hrel⟩ := exists_of_forall₂ hrest.flip hy'
      exact hPQ x x' y y' hxy hrel (hx x' hx')

/-- A traversal succeeds with some results exactly when every element succeeds. -/
theorem exists_mapM_eq_ok {α β : Type u} {f : α → Except ε β} {xs : List α} :
    (∃ ys, xs.mapM f = .ok ys) ↔ ∀ x ∈ xs, ∃ y, f x = .ok y := by
  simp only [mapM_eq_ok]
  constructor
  · rintro ⟨ys, h⟩ x hx
    obtain ⟨y, -, hy⟩ := exists_of_forall₂ h hx
    exact ⟨y, hy⟩
  · exact exists_forall₂

/-- **A traversal fails with the first failure**: that of an element before which every element
succeeds. -/
theorem mapM_eq_error_iff {α β : Type u} {f : α → Except ε β} {xs : List α} {e : ε} :
    xs.mapM f = .error e ↔ ∃ before x after, xs = before ++ x :: after ∧
      (∀ y ∈ before, ∃ b, f y = .ok b) ∧ f x = .error e := by
  induction xs with
  | nil => simp [pure, Except.pure]
  | cons a xs ih =>
      rw [List.mapM_cons]
      cases ha : f a with
      | error e' =>
          constructor
          · intro h
            obtain rfl : e' = e := Except.error.inj h
            exact ⟨[], a, xs, rfl, by simp, ha⟩
          · rintro ⟨_ | ⟨b, before⟩, x, after, hsplit, hbefore, hx⟩
            · obtain ⟨rfl, -⟩ := List.cons.inj hsplit
              obtain rfl : e' = e := Except.error.inj (ha.symm.trans hx)
              rfl
            · obtain ⟨rfl, -⟩ := List.cons.inj hsplit
              obtain ⟨y, hy⟩ := hbefore a List.mem_cons_self
              rw [ha] at hy
              cases hy
      | ok y =>
          rw [ok_bind]
          constructor
          · intro h
            rcases bind_eq_error.mp h with h | ⟨ys, -, h⟩
            · obtain ⟨before, x, after, rfl, hbefore, hx⟩ := ih.mp h
              exact ⟨a :: before, x, after, rfl,
                List.forall_mem_cons.mpr ⟨⟨y, ha⟩, hbefore⟩, hx⟩
            · cases h
          · rintro ⟨_ | ⟨b, before⟩, x, after, hsplit, hbefore, hx⟩
            · obtain ⟨rfl, -⟩ := List.cons.inj hsplit
              rw [ha] at hx
              cases hx
            · obtain ⟨rfl, hxs⟩ := List.cons.inj hsplit
              rw [ih.mpr ⟨before, x, after, hxs, (List.forall_mem_cons.mp hbefore).2, hx⟩]
              rfl

/-- A failed traversal fails as one of its elements. -/
theorem mapM_eq_error {α β : Type u} {f : α → Except ε β} {xs : List α} {e : ε}
    (h : xs.mapM f = .error e) : ∃ x ∈ xs, f x = .error e := by
  obtain ⟨before, x, after, rfl, -, hx⟩ := mapM_eq_error_iff.mp h
  exact ⟨x, by simp, hx⟩

/-- A fold fails where one of its steps does. -/
theorem foldlM_eq_error {α β : Type u} {f : β → α → Except ε β} {xs : List α} {b : β} {e : ε}
    (h : xs.foldlM f b = .error e) : ∃ b', ∃ x ∈ xs, f b' x = .error e := by
  induction xs generalizing b with
  | nil => cases h
  | cons x xs ih =>
      rw [List.foldlM_cons] at h
      rcases bind_eq_error.mp h with hx | ⟨b', -, hrest⟩
      · exact ⟨b, x, List.mem_cons_self, hx⟩
      · obtain ⟨b'', x', hx', hfail⟩ := ih hrest
        exact ⟨b'', x', List.mem_cons_of_mem _ hx', hfail⟩

/-- **Element by element**: when every success relates the parts of an element to its
outputs, a successful loop relates all parts to all outputs, in order. -/
theorem forall₂_of_collect {emit : α → Except ε (List β)} {parts : α → List γ}
    {R : γ → β → Prop} (hemit : ∀ x new, emit x = .ok new → List.Forall₂ R (parts x) new)
    {xs : List α} {ys : List β} (h : collect emit xs = .ok ys) :
    List.Forall₂ R (xs.flatMap parts) ys := by
  obtain ⟨news, hnews, rfl⟩ := collect_eq_ok.mp h
  induction hnews with
  | nil => exact .nil
  | @cons x new xs news hx hrest ih =>
      rw [List.flatMap_cons, List.flatten_cons]
      exact List.rel_append (hemit x new hx) (ih (collect_eq_ok.mpr ⟨news, hrest, rfl⟩))

/-! ### Items with others between them -/

/-- A list that encodes another one, with unknown elements anywhere between. -/
inductive Interspersed (unknown : β → Prop) (encodes : α → β → Prop) : List α → List β → Prop
  | nil : Interspersed unknown encodes [] []
  | noise {v : β} {xs : List α} {vs : List β} (hv : unknown v)
      (h : Interspersed unknown encodes xs vs) : Interspersed unknown encodes xs (v :: vs)
  | item {x : α} {v : β} {xs : List α} {vs : List β} (hx : encodes x v)
      (h : Interspersed unknown encodes xs vs) : Interspersed unknown encodes (x :: xs) (v :: vs)

variable {unknown : β → Prop} {encodes : α → β → Prop} {R : γ → α → Prop}
  {xs : List α} {vs : List β}

/-- A pointwise encoding has nothing between. -/
theorem interspersed_of_forall₂ (h : List.Forall₂ encodes xs vs) :
    Interspersed unknown encodes xs vs := by
  induction h with
  | nil => exact .nil
  | cons hx _ ih => exact .item hx ih

/-- **A loop over an encoding** that skips the unknown elements and pushes one output for
each encoded one succeeds with these outputs. -/
theorem collect_interspersed {emit : β → Except ε (List γ)}
    (h : Interspersed unknown encodes xs vs) (hnoise : ∀ v, unknown v → emit v = .ok [])
    (hitem : ∀ x ∈ xs, ∀ v, encodes x v → ∃ out, emit v = .ok [out] ∧ R out x) :
    ∃ outs, collect emit vs = .ok outs ∧ List.Forall₂ R outs xs := by
  simp only [collect_eq_ok]
  induction h with
  | nil => exact ⟨[], ⟨[], .nil, rfl⟩, .nil⟩
  | noise hv _ ih =>
      obtain ⟨outs, ⟨news, hnews, rfl⟩, hR⟩ := ih hitem
      exact ⟨_, ⟨[] :: news, .cons (hnoise _ hv) hnews, rfl⟩, hR⟩
  | @item x v xs vs hx _ ih =>
      obtain ⟨out, hout, hR⟩ := hitem x List.mem_cons_self v hx
      obtain ⟨outs, ⟨news, hnews, rfl⟩, hRs⟩ :=
        ih fun x' hx' => hitem x' (List.mem_cons_of_mem _ hx')
      exact ⟨out :: news.flatten, ⟨[out] :: news, .cons hout hnews, rfl⟩, .cons hR hRs⟩

/-- A filter over an encoding. -/
theorem filterMap_interspersed {f : β → Option γ} (h : Interspersed unknown encodes xs vs)
    (hnoise : ∀ v, unknown v → f v = none)
    (hitem : ∀ x v, encodes x v → ∃ out, f v = some out ∧ R out x) :
    List.Forall₂ R (vs.filterMap f) xs := by
  induction h with
  | nil => exact .nil
  | noise hv _ ih =>
      rw [List.filterMap_cons, hnoise _ hv]
      exact ih
  | item hx _ ih =>
      obtain ⟨out, hout, hR⟩ := hitem _ _ hx
      rw [List.filterMap_cons, hout]
      exact .cons hR ih

end Loop
