import Argand.Proofs.Evaluation

/-!
# Simplification keeps the meaning

Variables that a scope binds are replaced by their values, and what remains is rewritten by
identities. So with exact arithmetic every reading of a formula is one of its simplified form.

## Main definitions

* `Argand.Scope.free`: the readings of the variables that a scope leaves free.

## Main results

* `Argand.reads_simplify`: simplification keeps the readings.
* `Argand.over_simplify`: it leaves a formula over the same kind of leaves.
-/

namespace Argand

open Simplify

variable {α K : Type}

/-! ### Scopes -/

/-- Readings of the variables that are **free** in a scope; the others have none. -/
def Scope.free (scope : Scope α) (ρ : String → List K) (x : String) : List K :=
  if (scope.value? x).isNone then ρ x else []

/-- A free variable keeps its readings. -/
theorem Scope.free_of_none {scope : Scope α} {ρ : String → List K} {x : String}
    (h : scope.value? x = none) : scope.free ρ x = ρ x := by
  simp [Scope.free, h]

/-- A reading of a free variable is a reading of the variable. -/
theorem Scope.mem_of_mem_free {scope : Scope α} {ρ : String → List K} {x : String} {b : K}
    (h : b ∈ scope.free ρ x) : scope.value? x = none ∧ b ∈ ρ x := by
  unfold Scope.free at h
  split at h
  · exact ⟨Option.isNone_iff_eq_none.mp ‹_›, h⟩
  · cases h

/-- Readings `ρ` **respect** a scope: they are its values for the variables that it binds, and
every free variable has one reading at most. -/
structure Scope.Respects (scope : Scope α) (val : α → K) (ρ : String → List K) : Prop where
  bound : ∀ {x v}, scope.value? x = some v → ρ x = v.items.map val
  free : ∀ {x}, scope.value? x = none → ∀ a ∈ ρ x, ∀ b ∈ ρ x, a = b

/-! ### Readings -/

variable [Field K] [DecidableEq K] {A : Arithmetic α} {val : α → K}

/-- More readings of the variables give more readings of a formula. -/
theorem Reads.mono {ρ ρ' : String → List K} {e : Expr α} {v : K} (h : Reads A val ρ e v)
    (hρ : ∀ x, ∀ b ∈ ρ x, b ∈ ρ' x) : Reads A val ρ' e v := by
  induction h with
  | number a => exact .number a
  | scaled hb => exact .scaled (hρ _ _ hb)
  | constant ha => exact .constant ha
  | list ha => exact .list ha
  | node _ _ hv ihl ihr => exact .node ihl ihr hv

/-- A value as a formula is read as each of its numbers. -/
theorem reads_ofValue {ρ : String → List K} {w : Value α} {c : α} (hc : c ∈ w.items) :
    Reads A val ρ (Expr.ofValue w) (val c) := by
  cases w with
  | one a =>
      obtain rfl := List.mem_singleton.mp hc
      exact .number _
  | many items =>
      rcases items with - | ⟨a, - | ⟨b, rest⟩⟩
      · cases hc
      · obtain rfl := List.mem_singleton.mp hc
        exact .number _
      · exact .list hc

/-- The numbers of a value are mapped one by one. -/
theorem exists_of_valueMapM {f : α → Except Fault α} {v w : Value α} (h : v.mapM f = .ok w)
    {a : α} (ha : a ∈ v.items) : ∃ c ∈ w.items, f a = .ok c := by
  cases v with
  | one b =>
      obtain rfl := List.mem_singleton.mp ha
      obtain ⟨d, hd, rfl⟩ := map_eq_ok.mp h
      exact ⟨d, List.mem_singleton.mpr rfl, hd⟩
  | many as =>
      obtain ⟨ds, hds, rfl⟩ := map_eq_ok.mp h
      exact exists_mapM_of_mem hds ha

variable {scope : Scope α} {leaf leaf' : Atom α → Prop} {squared squared' : String → Prop}

/-- **Simplification keeps the readings** of a formula. The squares in it have to be simplified
already. -/
theorem reads_simplify (hA : A.IsExact val) {ρ : String → List K} (hρ : scope.Respects val ρ)
    (hsq : ∀ x, squared x → ∀ e, (Expr.squareOf A x).simplify A scope = .ok e →
      e = Expr.squareOf A x ∧ scope.value? x = none)
    {e e' : Expr α} (he : e.Over A leaf squared) (h : e.simplify A scope = .ok e') {v : K}
    (hv : Reads A val ρ e v) : Reads A val (scope.free ρ) e' v := by
  have hfree : ∀ x, ∀ a ∈ scope.free ρ x, ∀ b ∈ scope.free ρ x, a = b := by
    intro x a ha b hb
    obtain ⟨hx, ha⟩ := Scope.mem_of_mem_free ha
    exact hρ.free hx a ha b (Scope.mem_of_mem_free hb).2
  induction he generalizing e' v with
  | @atom x _ =>
      obtain ⟨rfl, hnone⟩ | ⟨y, c, w, u, rfl, hy, hu, rfl⟩ := atom_cases h
      · refine hv.congr fun y hy => ?_
        rw [Scope.free_of_none (hnone y hy)]
      · cases hv with
        | scaled hb =>
            rw [hρ.bound hy] at hb
            obtain ⟨a, ha, rfl⟩ := List.mem_map.mp hb
            obtain ⟨d, hd, hm⟩ := exists_of_valueMapM hu ha
            rw [← hA.multiply hm]
            exact reads_ofValue hd
  | node hop _ _ ihl ihr =>
      obtain ⟨a, b, ha, hb, hab⟩ := reads_node.mp hv
      obtain ⟨l', r', hl, hr, hrw⟩ := rewrites_of_simplify h
      exact hrw.reads hA hfree hop.ne_power (ihl hl ha) (ihr hr hb) hab
  | @square x hx =>
      obtain ⟨rfl, hnone⟩ := hsq x hx _ h
      refine hv.congr fun y hy => ?_
      obtain rfl : y = x := by simpa [Expr.squareOf, Expr.names, plain] using hy
      rw [Scope.free_of_none hnone]

/-! ### Leaves -/

omit [Field K] [DecidableEq K] in
/-- Plain leaves are a kind of leaves. -/
theorem leafKind_isPlain : LeafKind (α := α) Atom.IsPlain fun _ => True :=
  ⟨fun _ => trivial, fun _ _ => trivial, fun _ => trivial⟩

omit [Field K] [DecidableEq K] in
/-- In a single scope a leaf is simplified to itself or to a number. -/
theorem Scope.IsSingle.atom_cases (hs : scope.IsSingle) {x : Atom α} {e : Expr α}
    (h : Simplify.atom A scope x = .ok e) :
    (e = .atom x ∧ ∀ y ∈ (Expr.atom x).names, scope.value? y = none) ∨
      ∃ d, e = Expr.number d := by
  obtain hleaf | ⟨y, c, v, w, -, hv, hw, rfl⟩ := Argand.atom_cases h
  · exact .inl hleaf
  · obtain ⟨a, rfl⟩ := hs y v hv
    obtain ⟨d, -, rfl⟩ := map_eq_ok.mp hw
    exact .inr ⟨d, rfl⟩

omit [Field K] [DecidableEq K] in
/-- In a single scope plain leaves stay plain. -/
theorem over_simplifyAtom (hs : scope.IsSingle) {x : Atom α} (hx : x.IsPlain) {e : Expr α}
    (h : Simplify.atom A scope x = .ok e) : e.Over A Atom.IsPlain squared := by
  obtain ⟨rfl, -⟩ | ⟨d, rfl⟩ := hs.atom_cases h
  · exact .atom hx
  · exact .atom trivial

omit [Field K] [DecidableEq K] in
/-- **Simplification leaves a formula over a kind of leaves**, if the leaves are simplified to
such formulas. -/
theorem over_simplify (hk : LeafKind leaf' squared')
    (hatom : ∀ x, leaf x → ∀ e, Simplify.atom A scope x = .ok e → e.Over A leaf' squared')
    (hsq : ∀ x, squared x → ∀ e, (Expr.squareOf A x).simplify A scope = .ok e →
      e.Over A leaf' squared')
    {e e' : Expr α} (he : e.Over A leaf squared) (h : e.simplify A scope = .ok e') :
    e'.Over A leaf' squared' := by
  induction he generalizing e' with
  | atom hx => exact hatom _ hx _ h
  | node hop _ _ ihl ihr =>
      obtain ⟨l', r', hl, hr, hrw⟩ := rewrites_of_simplify h
      exact hrw.over hk hop (ihl hl) (ihr hr)
  | square hx => exact hsq _ hx _ h

end Argand
