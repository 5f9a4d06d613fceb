import Argand.Fault
import Mathlib.Data.List.Forall2

/-!
# Results and faults of computations

A computation ends in a result or a fault. This module opens computations step by step: a
successful one has successful steps, and `Yields P Q` states at once that a result satisfies `Q`
and that a fault satisfies `P`.

## Main results

* `Argand.bind_eq_ok`, `Argand.map_eq_ok`: the steps of a successful computation.
* `Argand.test_eq_ok`: early results.
* `Argand.mapM_eq_ok`, `Argand.mapM_eq_error`: the items of a mapped list, and its fault.
* `Argand.foldlM_eq_ok_induction`: what a successful loop keeps.
* `Argand.Yields.bind`: what two steps yield, from what each of them yields.
-/

namespace Argand

variable {β γ : Type}

/-! ### Successful computations -/

/-- Two steps succeed exactly when both do. -/
theorem bind_eq_ok {x : Except Fault β} {f : β → Except Fault γ} {c : γ} :
    (x >>= f) = .ok c ↔ ∃ b, x = .ok b ∧ f b = .ok c := by
  constructor
  · intro h
    cases x with
    | error fault => cases h
    | ok b => exact ⟨b, rfl, h⟩
  · rintro ⟨b, rfl, h⟩
    exact h

/-- A step without effect succeeds with its value. -/
theorem pure_eq_ok {b c : β} : (pure b : Except Fault β) = .ok c ↔ b = c :=
  ⟨Except.ok.inj, fun h => h ▸ rfl⟩

/-- A computation that **returns early if a test holds** succeeds with the early result, or goes on
after a test that does not hold. -/
theorem test_eq_ok {test : Except Fault Bool} {x : Except Fault β} {early b : β} :
    (test >>= fun t => if t = true then pure early else x) = .ok b ↔
      (test = .ok true ∧ b = early) ∨ (test = .ok false ∧ x = .ok b) := by
  rw [bind_eq_ok]
  constructor
  · rintro ⟨t, ht, h⟩
    cases t with
    | true => exact .inl ⟨ht, (pure_eq_ok.mp h).symm⟩
    | false => exact .inr ⟨ht, h⟩
  · rintro (⟨ht, rfl⟩ | ⟨ht, h⟩)
    · exact ⟨true, ht, rfl⟩
    · exact ⟨false, ht, h⟩

/-- A mapped computation succeeds exactly when the computation does. -/
theorem map_eq_ok {x : Except Fault β} {f : β → γ} {c : γ} :
    x.map f = .ok c ↔ ∃ b, x = .ok b ∧ f b = c := by
  cases x <;> simp [Except.map]

/-- What every step of a successful loop keeps holds at its end. -/
theorem foldlM_eq_ok_induction {f : β → γ → Except Fault β} {Q : β → Prop} {xs : List γ}
    {b b' : β} (h : xs.foldlM f b = .ok b') (hb : Q b)
    (step : ∀ x ∈ xs, ∀ b b', Q b → f b x = .ok b' → Q b') : Q b' := by
  induction xs generalizing b with
  | nil =>
      obtain rfl := pure_eq_ok.mp h
      exact hb
  | cons x xs ih =>
      rw [List.foldlM_cons, bind_eq_ok] at h
      obtain ⟨b₁, h₁, h⟩ := h
      refine ih h (step x (by simp) b b₁ hb h₁) fun y hy => step y (by simp [hy])

/-- A mapped list computes each item from its own. -/
theorem mapM_eq_ok {f : β → Except Fault γ} {xs : List β} {ys : List γ} :
    xs.mapM f = .ok ys ↔ List.Forall₂ (fun x y => f x = .ok y) xs ys := by
  induction xs generalizing ys with
  | nil =>
      rw [List.mapM_nil, pure_eq_ok, List.forall₂_nil_left_iff]
      exact eq_comm
  | cons x xs ih =>
      simp only [List.mapM_cons, bind_eq_ok, pure_eq_ok, List.forall₂_cons_left_iff, ih]
      constructor
      · rintro ⟨y, hy, ys', hys, rfl⟩
        exact ⟨y, ys', hy, hys, rfl⟩
      · rintro ⟨y, ys', hy, hys, rfl⟩
        exact ⟨y, hy, ys', hys, rfl⟩

/-- A mapped list fails with **the first fault** of its items. -/
theorem mapM_eq_error {f : β → Except Fault γ} {xs : List β} {fault : Fault} :
    xs.mapM f = .error fault ↔ ∃ before x after, xs = before ++ x :: after ∧
      (∀ y ∈ before, ∃ z, f y = .ok z) ∧ f x = .error fault := by
  induction xs with
  | nil => simp [pure, Except.pure]
  | cons x xs ih =>
      rw [List.mapM_cons]
      cases hx : f x with
      | error first =>
          constructor
          · intro h
            cases h
            exact ⟨[], x, xs, rfl, nofun, hx⟩
          · rintro ⟨before, y, after, hxs, hbefore, hy⟩
            obtain ⟨rfl, ⟨rfl, rfl⟩⟩ | ⟨before, rfl, -⟩ := List.cons_eq_append_iff.mp hxs
            · obtain rfl := Except.error.inj (hx.symm.trans hy)
              rfl
            · obtain ⟨z, hz⟩ := hbefore x List.mem_cons_self
              cases hx.symm.trans hz
      | ok v =>
          have hrest : (Except.ok v >>= fun v => xs.mapM f >>= fun vs => pure (v :: vs)) =
              .error fault ↔ xs.mapM f = .error fault := by
            cases xs.mapM f <;> simp [bind, Except.bind, pure, Except.pure]
          rw [hrest, ih]
          constructor
          · rintro ⟨before, y, after, rfl, hbefore, hy⟩
            exact ⟨x :: before, y, after, rfl, List.forall_mem_cons.mpr ⟨⟨v, hx⟩, hbefore⟩, hy⟩
          · rintro ⟨before, y, after, hxs, hbefore, hy⟩
            obtain ⟨rfl, ⟨rfl, rfl⟩⟩ | ⟨before, rfl, rfl⟩ := List.cons_eq_append_iff.mp hxs
            · cases hx.symm.trans hy
            · exact ⟨before, y, after, rfl, (List.forall_mem_cons.mp hbefore).2, hy⟩

/-- An item of a mapped list comes from an item of the list. -/
theorem exists_of_mem_mapM {f : β → Except Fault γ} {xs : List β} {ys : List γ}
    (h : xs.mapM f = .ok ys) {y : γ} (hy : y ∈ ys) : ∃ x ∈ xs, f x = .ok y := by
  rw [mapM_eq_ok] at h
  induction h with
  | nil => cases hy
  | cons hxy _ ih =>
      obtain rfl | hy := List.mem_cons.mp hy
      · exact ⟨_, List.mem_cons_self, hxy⟩
      · obtain ⟨x, hx, hf⟩ := ih hy
        exact ⟨x, List.mem_cons_of_mem _ hx, hf⟩

/-- An item of a list has a counterpart in the mapped list. -/
theorem exists_mapM_of_mem {f : β → Except Fault γ} {xs : List β} {ys : List γ}
    (h : xs.mapM f = .ok ys) {x : β} (hx : x ∈ xs) : ∃ y ∈ ys, f x = .ok y := by
  rw [mapM_eq_ok] at h
  induction h with
  | nil => cases hx
  | cons hxy _ ih =>
      obtain rfl | hx := List.mem_cons.mp hx
      · exact ⟨_, List.mem_cons_self, hxy⟩
      · obtain ⟨y, hy, hf⟩ := ih hx
        exact ⟨y, List.mem_cons_of_mem _ hy, hf⟩

/-! ### What a computation yields -/

/-- A computation **yields** `Q` up to `P`: its result satisfies `Q`, its fault `P`. -/
def Yields (P : Fault → Prop) (Q : β → Prop) : Except Fault β → Prop
  | .ok b => Q b
  | .error fault => P fault

variable {P P' : Fault → Prop} {Q Q' : β → Prop} {R : γ → Prop}

@[simp] theorem yields_ok {b : β} : Yields P Q (.ok b) ↔ Q b := Iff.rfl

@[simp] theorem yields_error {fault : Fault} :
    Yields P Q (.error fault : Except Fault β) ↔ P fault := Iff.rfl

/-- Two steps yield what the second yields on every result of the first. -/
theorem Yields.bind {x : Except Fault β} {f : β → Except Fault γ} (hx : Yields P Q x)
    (hf : ∀ b, Q b → Yields P R (f b)) : Yields P R (x >>= f) := by
  cases x with
  | error fault => exact hx
  | ok b => exact hf b hx

/-- A test with an early result yields what both the early result and the rest satisfy. -/
theorem Yields.test {test : Except Fault Bool} {T : Bool → Prop} {early : β} {x : Except Fault β}
    (htest : Yields P T test) (hearly : Q early) (hx : Yields P Q x) :
    Yields P Q (test >>= fun t => if t = true then pure early else x) := by
  refine htest.bind fun t _ => ?_
  cases t with
  | true => exact hearly
  | false => exact hx

/-- Weaker conditions are yielded too. -/
theorem Yields.mono {x : Except Fault β} (hx : Yields P Q x) (hP : ∀ f, P f → P' f)
    (hQ : ∀ b, Q b → Q' b) : Yields P' Q' x := by
  cases x with
  | error fault => exact hP fault hx
  | ok b => exact hQ b hx

/-- A computation yields what holds of its result and of its fault. -/
theorem yields_iff {x : Except Fault β} :
    Yields P Q x ↔ (∀ b, x = .ok b → Q b) ∧ ∀ f, x = .error f → P f := by
  cases x <;> simp [Yields]

/-- A result satisfies what its computation yields. -/
theorem Yields.of_ok {x : Except Fault β} {b : β} (hx : Yields P Q x) (h : x = .ok b) : Q b :=
  (yields_iff.mp hx).1 b h

/-- The fault of a computation that fails. -/
theorem Yields.of_error {x : Except Fault β} {f : Fault} (hx : Yields P Q x) (h : x = .error f) :
    P f :=
  (yields_iff.mp hx).2 f h

/-- Two conditions on the result are yielded together. -/
theorem Yields.and_of_ok {x : Except Fault β} (hx : Yields P Q x)
    (h : ∀ b, x = .ok b → Q' b) : Yields P (fun b => Q b ∧ Q' b) x := by
  cases x with
  | error fault => exact hx
  | ok b => exact ⟨hx, h b rfl⟩

/-- A computation yields its result, too. -/
theorem Yields.and_eq {x : Except Fault β} (hx : Yields P Q x) :
    Yields P (fun b => Q b ∧ x = .ok b) x :=
  hx.and_of_ok fun _ h => h

/-- More faults may be expected than there are. -/
theorem Yields.mono_fault {x : Except Fault β} (hx : Yields P Q x) (hP : ∀ f, P f → P' f) :
    Yields P' Q x :=
  hx.mono hP fun _ => id

/-- A mapped list yields what the computation yields on each of its items. -/
theorem Yields.mapM {f : γ → Except Fault β} {xs : List γ} (h : ∀ x ∈ xs, Yields P Q (f x)) :
    Yields P (fun ys => ∀ y ∈ ys, Q y) (xs.mapM f) := by
  induction xs with
  | nil => exact fun y hy => absurd hy List.not_mem_nil
  | cons x xs ih =>
      rw [List.mapM_cons]
      refine (h x List.mem_cons_self).bind fun y hy => ?_
      refine (ih fun x' hx' => h x' (List.mem_cons_of_mem _ hx')).bind fun ys hys => ?_
      intro y' hy'
      obtain rfl | hy' := List.mem_cons.mp hy'
      · exact hy
      · exact hys y' hy'

/-- A loop yields what its steps keep. -/
theorem Yields.foldlM {f : β → γ → Except Fault β} {xs : List γ} {b : β} (hb : Q b)
    (h : ∀ x ∈ xs, ∀ b, Q b → Yields P Q (f b x)) : Yields P Q (xs.foldlM f b) := by
  induction xs generalizing b with
  | nil => exact hb
  | cons x xs ih =>
      rw [List.foldlM_cons]
      refine (h x List.mem_cons_self b hb).bind fun b' hb' => ?_
      exact ih hb' fun y hy => h y (List.mem_cons_of_mem _ hy)

/-- A mapped computation yields what the function makes of its result. -/
theorem Yields.map {x : Except Fault β} {f : β → γ} (hx : Yields P Q x)
    (hf : ∀ b, Q b → R (f b)) : Yields P R (x.map f) := by
  cases x with
  | error fault => exact hx
  | ok b => exact hf b hx

/-- Without faults, a computation has a result. -/
theorem Yields.exists_ok {x : Except Fault β} (hx : Yields (fun _ => False) Q x) :
    ∃ b, x = .ok b ∧ Q b := by
  cases x with
  | error fault => exact hx.elim
  | ok b => exact ⟨b, rfl, hx⟩

/-- Without results, a computation has a fault. -/
theorem Yields.exists_error {x : Except Fault β} (hx : Yields P (fun _ => False) x) :
    ∃ f, x = .error f ∧ P f := by
  cases x with
  | error fault => exact ⟨fault, rfl, hx⟩
  | ok b => exact hx.elim

/-- What a computation yields can be computed. -/
instance [DecidablePred P] [DecidablePred Q] (x : Except Fault β) : Decidable (Yields P Q x) :=
  match x with
  | .ok b => inferInstanceAs (Decidable (Q b))
  | .error f => inferInstanceAs (Decidable (P f))

end Argand
