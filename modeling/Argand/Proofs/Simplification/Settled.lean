import Argand.Proofs.Display.Units
import Argand.Proofs.Simplification.Redexes

/-!
# Simplifying once more

A formula that was simplified need not be left alone by simplification: a computed number in front
of a product or a quotient of two variables is multiplied with their factors again, and what that
gives may be another number. Nothing else changes. The nodes of a simplified formula are settled:
none of them is a redex, and one of which a leaf takes up a number is such a multiple. So
simplifying once more gives a formula alike, with the same variables, as long as a multiple does not
become zero or one.

## Main definitions

* `Argand.TakesIn`: nodes of which a leaf takes up a number, or two leaves have one variable.
* `Argand.Settled`: the nodes of simplified formulas.
* `Argand.Alike`: formulas that differ in the numbers of multiples.
* `Argand.Arithmetic.KeepsMultiples`: an arithmetic in which multiples stay multiples.

## Main results

* `Argand.settled_simplify`: the nodes of a simplified formula are settled.
* `Argand.alike_simplify`: simplifying a settled formula gives a formula alike.
* `Argand.names_simplify_settled`: the variables stay the same.
-/

namespace Argand

open Simplify

variable {α : Type}

/-! ### Settled nodes -/

section

variable (A : Arithmetic α)

/-- A node **takes in** a number if a leaf in it takes up a number beside it, or if two leaves of
one variable, or with factors, stand beside each other. -/
inductive TakesIn : Operator → Expr α → Expr α → Prop
  | scaledDivideNumber {v : String} {a b : α} : TakesIn .divide (.scaled v a) (.number b)
  | scaledMultiplyNumber {v : String} {a b : α} : TakesIn .multiply (.scaled v a) (.number b)
  | numberMultiplyScaled {v : String} {a b : α} : TakesIn .multiply (.number a) (.scaled v b)
  | divideSame {v : String} {a b : α} : TakesIn .divide (.scaled v a) (.scaled v b)
  | multiplySame {v : String} {a b : α} : TakesIn .multiply (.scaled v a) (.scaled v b)
  | divideScaled {v w : String} {a b : α} : ¬ (a = A.one ∧ b = A.one) →
      TakesIn .divide (.scaled v a) (.scaled w b)
  | nodeMultiplyNumber {op : Operator} {a b : Expr α} {n : α} :
      TakesIn .multiply (.node a op b) (.number n)
  | first {n : α} {x : Atom α} {b : Expr α} : x.TakesUp →
      TakesIn .multiply (.number n) (.node (.atom x) .multiply b)
  | second {n : α} {x : Atom α} {a : Expr α} : x.TakesUp →
      TakesIn .multiply (.number n) (.node a .multiply (.atom x))
  | dividend {n : α} {x : Atom α} {b : Expr α} : x.TakesUp →
      TakesIn .multiply (.number n) (.node (.atom x) .divide b)

/-- A **settled** node is no redex, and takes in a number only as a multiple of a monomial. -/
structure Settled (op : Operator) (l r : Expr α) : Prop where
  not_redex : ¬ Redex A op l r
  multiple : TakesIn A op l r → Multiple A op l r

end

variable {A : Arithmetic α}

/-- **The identities leave alone** a node that is no redex and takes in nothing. -/
theorem Rewrites.eq_node (hA : A.HasUnits) {op : Operator} {l r e : Expr α}
    (h : Rewrites A op l r e) (hredex : ¬ Redex A op l r) (htakes : ¬ TakesIn A op l r) :
    e = .node l op r := by
  cases h with
  | kept => rfl
  | @addNumbers _ s _ _ _ hs =>
      obtain rfl := Operator.eq_operator_of_sign? hs
      exact absurd (.numbers (by cases s <;> simp [Sign.operator])) hredex
  | zeroAdd hn => exact absurd (.neutral (.zeroAdd hn)) hredex
  | @addZero _ s _ _ hs hm =>
      obtain rfl := Operator.eq_operator_of_sign? hs
      cases s with
      | plus => exact absurd (.neutral (.addZero hm)) hredex
      | minus => exact absurd (.neutral (.subtractZero hm)) hredex
  | foldOuterFirst hs hs' =>
      exact absurd (.numberBeforeSum (by simp [hs]) (by simp [hs']) (.inl ⟨_, rfl⟩)) hredex
  | foldOuterSecond hs hs' =>
      exact absurd (.numberBeforeSum (by simp [hs]) (by simp [hs']) (.inr ⟨_, rfl⟩)) hredex
  | foldInnerFirst hs hs' =>
      exact absurd (.numberBehindSum (by simp [hs]) (by simp [hs']) (.inl ⟨_, rfl⟩)) hredex
  | foldInnerSecond hs hs' =>
      exact absurd (.numberBehindSum (by simp [hs]) (by simp [hs']) (.inr ⟨_, rfl⟩)) hredex
  | divideNumbers | multiplyNumbers | powerNumbers => exact absurd (.numbers (by simp)) hredex
  | divideOne hm => exact absurd (.neutral (.divideOne hm)) hredex
  | oneMultiply hn => exact absurd (.neutral (.oneMultiply hn)) hredex
  | multiplyOne hm => exact absurd (.neutral (.multiplyOne hm)) hredex
  | zeroMultiply _ hn => exact absurd (.zeroMultiply hn) hredex
  | multiplyZero _ hm => exact absurd (.multiplyZero hm) hredex
  | powerZero hm => exact absurd (.powerZero hm) hredex
  | powerOne hm => exact absurd (.powerOne hm) hredex
  | divideSum hs => exact absurd (.sumDivideAtom (by simp [Expr.IsSum, hs])) hredex
  | multiplySum hs => exact absurd (.atomMultiplySum (by simp [Expr.IsSum, hs])) hredex
  | sumMultiply hs => exact absurd (.sumMultiplyAtom (by simp [Expr.IsSum, hs])) hredex
  | powerProduct | powerQuotient | powerPower => exact absurd (.powerNode (by simp)) hredex
  | divideScaledNumber => exact absurd .scaledDivideNumber htakes
  | multiplyScaledNumber => exact absurd .scaledMultiplyNumber htakes
  | multiplyNumberScaled => exact absurd .numberMultiplyScaled htakes
  | divideSame => exact absurd .divideSame htakes
  | multiplySame => exact absurd .multiplySame htakes
  | multiplyNumber => exact absurd .nodeMultiplyNumber htakes
  | absorbFirst hx => exact absurd (.first hx) htakes
  | absorbSecond hx => exact absurd (.second hx) htakes
  | absorbDividend hx => exact absurd (.dividend hx) htakes
  -- variables without a factor leave one in front of them
  | @divideScaled v w a b c _ hvw hc he =>
      by_cases hone : a = A.one ∧ b = A.one
      · obtain ⟨rfl, rfl⟩ := hone
        obtain rfl := Except.ok.inj (hA.one_div_one.symm.trans hc)
        exact Except.ok.inj (he.symm.trans (hA.scaledBy_one _))
      · exact absurd (.divideScaled hone) htakes
  | @multiplyScaled v w a b c _ hvw hc he =>
      by_cases hone : a = A.one ∧ b = A.one
      · obtain ⟨rfl, rfl⟩ := hone
        obtain rfl := Except.ok.inj (hA.one_mul_one.symm.trans hc)
        exact Except.ok.inj (he.symm.trans (hA.scaledBy_one _))
      · exact absurd (.multiplyScaled hone) hredex

/-! ### Rules that take in a number -/

section

variable {v w : String} {a b n : α} {e : Expr α}

/-- The quotient of a multiple of a variable and a number is a leaf. -/
theorem isAtom_of_divide_scaled_number (h : divide A (.scaled v a) (.number b) = .ok e) :
    e.IsAtom := by
  obtain ⟨-, rfl⟩ | ⟨-, h⟩ := test_eq_ok.mp h
  · trivial
  · obtain ⟨c, -, h⟩ := bind_eq_ok.mp h
    obtain rfl := pure_eq_ok.mp h
    trivial

/-- The product of a multiple of a variable and a number is a leaf. -/
theorem isAtom_of_multiply_scaled_number (h : multiply A (.scaled v a) (.number b) = .ok e) :
    e.IsAtom := by
  obtain ⟨_, ⟨⟩, h⟩ := bind_eq_ok.mp h
  obtain ⟨-, rfl⟩ | ⟨-, h⟩ := test_eq_ok.mp h
  · trivial
  obtain ⟨_, ⟨⟩, h⟩ := bind_eq_ok.mp h
  obtain ⟨-, rfl⟩ | ⟨-, h⟩ := test_eq_ok.mp h
  · trivial
  · obtain ⟨c, -, h⟩ := bind_eq_ok.mp h
    obtain rfl := pure_eq_ok.mp h
    trivial

/-- The product of a number and a multiple of a variable is a leaf. -/
theorem isAtom_of_multiply_number_scaled (h : multiply A (.number a) (.scaled v b) = .ok e) :
    e.IsAtom := by
  obtain ⟨-, rfl⟩ | ⟨-, h⟩ := test_eq_ok.mp h
  · trivial
  obtain ⟨_, ⟨⟩, h⟩ := bind_eq_ok.mp h
  obtain ⟨-, rfl⟩ | ⟨-, h⟩ := test_eq_ok.mp h
  · trivial
  · obtain ⟨_, ⟨⟩, h⟩ := bind_eq_ok.mp h
    obtain ⟨c, -, h⟩ := bind_eq_ok.mp h
    obtain rfl := pure_eq_ok.mp h
    trivial

/-- The quotient of two multiples of variables. -/
theorem divide_scaled (v w : String) (a b : α) :
    divide A (.scaled v a) (.scaled w b) = (do
      let c ← A.divide a b
      if v = w then pure (.number c)
      else scaledBy A c (.node (plain A v) .divide (plain A w))) := rfl

end

variable (A) in
/-- A formula **at rest**: if it is a product with a number in front, it is a multiple of a
monomial, and no number stands behind an operator. -/
def Expr.AtRest (e : Expr α) : Prop :=
  ∀ l r, e = .node l .multiply r →
    (l.IsNumber → Multiple A .multiply l r) ∧ (r.IsNumber → l.IsAtom)

namespace Expr.AtRest

theorem of_isAtom {e : Expr α} (h : e.IsAtom) : e.AtRest A := by
  rintro l r rfl
  exact h.elim

theorem of_ne {l r : Expr α} {op : Operator} (h : op ≠ .multiply) :
    (Expr.node l op r).AtRest A := by
  rintro l' r' ⟨⟩
  exact absurd rfl h

theorem of_not_isNumber {l r : Expr α} (hl : ¬ l.IsNumber) (hr : ¬ r.IsNumber) :
    (Expr.node l .multiply r).AtRest A := by
  rintro l' r' ⟨⟩
  exact ⟨fun h => absurd h hl, fun h => absurd h hr⟩

/-- A computed number in front of a monomial leaves a formula at rest. -/
theorem of_scaledBy {c : α} {e e' : Expr α} (h : scaledBy A c e = .ok e') (he : Monomial A e)
    (hc : A.IsComputed c) : e'.AtRest A := by
  obtain ⟨-, rfl⟩ | ⟨-, rfl⟩ | ⟨hzero, hone, rfl⟩ := scaledBy_cases h
  · exact of_isAtom trivial
  · cases he with
    | product => exact of_not_isNumber (by rintro ⟨_, ⟨⟩⟩) (by rintro ⟨_, ⟨⟩⟩)
    | quotient | square => exact of_ne nofun
  · rintro l r ⟨⟩
    exact ⟨fun _ => .mk he hc hzero hone, fun _ => trivial⟩

end Expr.AtRest

/-- The product of a multiple of a variable and a leaf is at rest. -/
theorem atRest_multiply_scaled_atom {v : String} {k : α} {y : Atom α} {e : Expr α}
    (h : multiply A (.scaled v k) (.atom y) = .ok e ∨ multiply A (.atom y) (.scaled v k) = .ok e) :
    e.AtRest A := by
  cases y with
  | number b =>
      obtain h | h := h
      · exact .of_isAtom (isAtom_of_multiply_scaled_number h)
      · exact .of_isAtom (isAtom_of_multiply_number_scaled h)
  | scaled w b =>
      have hscaled {v w : String} {a b : α} (h : multiply A (.scaled v a) (.scaled w b) = .ok e) :
          e.AtRest A := by
        rw [multiply_scaled] at h
        obtain ⟨c, hc, h⟩ := bind_eq_ok.mp h
        split at h
        · exact .of_scaledBy h .square ⟨_, _, .inl hc⟩
        · exact .of_scaledBy h (.product ‹_›) ⟨_, _, .inl hc⟩
      exact h.elim hscaled hscaled
  | _ =>
      obtain h | h := h <;> obtain rfl := pure_eq_ok.mp h <;>
        exact .of_not_isNumber (by rintro ⟨_, ⟨⟩⟩) (by rintro ⟨_, ⟨⟩⟩)

/-- The product of a multiple of a variable and a formula that is no sum is at rest. -/
theorem atRest_multiplyAtom {side : Side} {v : String} {k : α} {b e : Expr α} (hb : ¬ b.IsSum)
    (h : multiplyAtom A side (.scaled v k) b = .ok e) : e.AtRest A := by
  cases b with
  | atom y =>
      cases side with
      | left => exact atRest_multiply_scaled_atom (.inl h)
      | right => exact atRest_multiply_scaled_atom (.inr h)
  | node a op b =>
      have hop : op.sign? = none := Option.not_isSome_iff_eq_none.mp hb
      simp only [multiplyAtom, isNumber, hop] at h
      cases side <;> obtain rfl := pure_eq_ok.mp h <;>
        exact .of_not_isNumber (by rintro ⟨_, ⟨⟩⟩) (by rintro ⟨_, ⟨⟩⟩)

/-- The quotient of a multiple of a variable and a formula is at rest. -/
theorem atRest_divide {v : String} {k : α} {b e : Expr α}
    (h : divide A (.scaled v k) b = .ok e) : e.AtRest A := by
  cases b with
  | atom y =>
      cases y with
      | number b => exact .of_isAtom (isAtom_of_divide_scaled_number h)
      | scaled w b =>
          rw [divide_scaled] at h
          obtain ⟨c, hc, h⟩ := bind_eq_ok.mp h
          split at h
          · obtain rfl := pure_eq_ok.mp h
            exact .of_isAtom trivial
          · exact .of_scaledBy h (.quotient ‹_›) ⟨_, _, .inr hc⟩
      | _ =>
          obtain rfl := pure_eq_ok.mp h
          exact .of_ne nofun
  | node a op b =>
      obtain rfl := Except.ok.inj h
      exact .of_ne nofun

/-- A leaf takes up a number as a number or as a multiple of a variable. -/
theorem absorb_cases {n : α} {a : Expr α} {y : Atom α} (h : absorb A n a = .ok (some y)) :
    ∃ x, a = .atom x ∧ ((∃ c, y = .number c) ∨ ∃ v c, y = .scaled v c) := by
  obtain ⟨x, rfl, -, -⟩ := rewrites_of_absorb h
  refine ⟨x, rfl, ?_⟩
  cases x with
  | number m =>
      obtain ⟨c, -, h⟩ := bind_eq_ok.mp h
      cases h
      exact .inl ⟨c, rfl⟩
  | scaled v c =>
      obtain ⟨-, hy⟩ | ⟨-, h⟩ := test_eq_ok.mp h
      · cases hy
        exact .inr ⟨v, c, rfl⟩
      obtain ⟨-, hy⟩ | ⟨-, h⟩ := test_eq_ok.mp h
      · cases hy
        exact .inl ⟨_, rfl⟩
      obtain ⟨d, -, h⟩ := bind_eq_ok.mp h
      cases h
      exact .inr ⟨v, d, rfl⟩
  | _ => cases h

/-- A leaf that takes up numbers takes up one. -/
theorem absorb_ne_none {n : α} {x : Atom α} (hx : x.TakesUp) :
    absorb A n (.atom x) ≠ .ok none := by
  intro h
  cases x with
  | number m =>
      obtain ⟨c, -, h⟩ := bind_eq_ok.mp h
      cases h
  | scaled v c =>
      obtain ⟨-, hy⟩ | ⟨-, h⟩ := test_eq_ok.mp h
      · cases hy
      obtain ⟨-, hy⟩ | ⟨-, h⟩ := test_eq_ok.mp h
      · cases hy
      obtain ⟨d, -, h⟩ := bind_eq_ok.mp h
      cases h
  | constant | list | stray => exact hx

/-- **A number in front of a node** that is no redex and no sum is taken up by a number, which takes
no more effort, or by a multiple of a variable, which leaves a formula at rest, or it stays. -/
theorem multiplyAtom_number_cases (hA : A.HasUnits) {n : α} {a b e : Expr α} {op : Operator}
    (hredex : ¬ Redex A op a b) (hop : op.sign? = none)
    (h : multiplyAtom A .left (.number n) (.node a op b) = .ok e) :
    e.effort A ≤ (Expr.node a op b).effort A ∨ e.AtRest A ∨
      (¬ TakesIn A .multiply (.number n) (.node a op b) ∧
        e = .node (.number n) .multiply (.node a op b)) := by
  simp only [multiplyAtom, hop] at h
  obtain ⟨-, rfl⟩ | ⟨-, h⟩ := test_eq_ok.mp h
  · exact .inl (Nat.le_refl _)
  obtain ⟨-, rfl⟩ | ⟨-, h⟩ := test_eq_ok.mp h
  · exact .inl (Nat.zero_le _)
  have hla := a.lead_le_effort (A := A)
  have hlb := b.lead_le_effort (A := A)
  cases op with
  | multiply =>
      obtain ⟨y, hy, h⟩ := bind_eq_ok.mp h
      cases y with
      | some y =>
          obtain ⟨x, rfl, ⟨c, rfl⟩ | ⟨v, c, rfl⟩⟩ := absorb_cases hy
          · have heffort := (rewrites_of_multiplyAtom h).effort_le hA
            simp only [Expr.effort_multiply, Expr.effort_number, Expr.lead_number] at heffort ⊢
            exact .inl (by omega)
          · exact .inr (.inl (atRest_multiplyAtom (fun hs => hredex (.atomMultiplySum hs)) h))
      | none =>
      obtain ⟨z, hz, h⟩ := bind_eq_ok.mp h
      cases z with
      | some z =>
          obtain ⟨x, rfl, ⟨c, rfl⟩ | ⟨v, c, rfl⟩⟩ := absorb_cases hz
          · have heffort := (rewrites_of_multiplyAtom h).effort_le hA
            simp only [Expr.effort_multiply, Expr.effort_number, Expr.lead_number] at heffort ⊢
            exact .inl (by omega)
          · exact .inr (.inl (atRest_multiplyAtom (fun hs => hredex (.sumMultiplyAtom hs)) h))
      | none =>
          refine .inr (.inr ⟨fun htakes => ?_, (pure_eq_ok.mp h).symm⟩)
          cases htakes with
          | first hx => exact absorb_ne_none hx hy
          | second hx => exact absorb_ne_none hx hz
  | divide =>
      obtain ⟨y, hy, h⟩ := bind_eq_ok.mp h
      cases y with
      | some y =>
          obtain ⟨x, rfl, ⟨c, rfl⟩ | ⟨v, c, rfl⟩⟩ := absorb_cases hy
          · have heffort := (rewrites_of_divide h).effort_le hA
            simp only [Expr.effort_divide, Expr.effort_number, Expr.lead_number] at heffort ⊢
            exact .inl (by omega)
          · exact .inr (.inl (atRest_divide h))
      | none =>
          refine .inr (.inr ⟨fun htakes => ?_, (pure_eq_ok.mp h).symm⟩)
          cases htakes with
          | dividend hx => exact absorb_ne_none hx hy
  | add | subtract => cases hop
  | _ =>
      refine .inr (.inr ⟨fun htakes => ?_, (pure_eq_ok.mp h).symm⟩)
      cases htakes

/-! ### Simplified formulas are settled -/

/-- **A node that its rule leaves alone** takes in a number only as a multiple of a monomial. -/
theorem Inert.multiple (hA : A.HasUnits) {op : Operator} {l r : Expr α} (h : Inert A op l r)
    (hl : l.AllNodes (Settled A)) (hr : r.AllNodes (Settled A)) (htakes : TakesIn A op l r) :
    Multiple A op l r := by
  have hfixed := h.fixed
  -- a number in front of the right operand
  have front {n : α} {a b : Expr α} {op : Operator} (hop : op.sign? = none)
      (hab : (Expr.node a op b).AllNodes (Settled A))
      (htakes : TakesIn A .multiply (.number n) (.node a op b))
      (hfixed : multiplyAtom A .left (.number n) (.node a op b) =
        .ok (.node (.number n) .multiply (.node a op b))) :
      Multiple A .multiply (.number n) (.node a op b) := by
    obtain he | he | ⟨hstays, -⟩ := multiplyAtom_number_cases hA hab.1.not_redex hop hfixed
    · exact absurd (Expr.effort_operand_lt _ _ _).2 (Nat.not_lt.mpr he)
    · exact (he _ _ rfl).1 ⟨n, rfl⟩
    · exact absurd htakes hstays
  cases htakes with
  | scaledDivideNumber => exact (isAtom_of_divide_scaled_number hfixed).elim
  | scaledMultiplyNumber => exact (isAtom_of_multiply_scaled_number hfixed).elim
  | numberMultiplyScaled => exact (isAtom_of_multiply_number_scaled hfixed).elim
  | divideSame =>
      obtain ⟨c, -, hfixed⟩ := bind_eq_ok.mp ((divide_scaled _ _ _ _).symm.trans hfixed)
      rw [if_pos rfl] at hfixed
      cases hfixed
  | multiplySame =>
      obtain ⟨c, -, hfixed⟩ := bind_eq_ok.mp ((multiply_scaled _ _ _ _).symm.trans hfixed)
      rw [if_pos rfl] at hfixed
      obtain ⟨-, h⟩ | ⟨-, h⟩ | ⟨-, -, h⟩ := scaledBy_cases hfixed <;> cases h
  | divideScaled hone =>
      obtain ⟨c, -, hfixed⟩ := bind_eq_ok.mp ((divide_scaled _ _ _ _).symm.trans hfixed)
      split at hfixed
      · cases hfixed
      · obtain ⟨-, h⟩ | ⟨-, h⟩ | ⟨-, -, h⟩ := scaledBy_cases hfixed <;> cases h
        exact absurd ⟨rfl, rfl⟩ hone
  | @nodeMultiplyNumber op a b n =>
      have hop : op.sign? = none :=
        Option.not_isSome_iff_eq_none.mp fun hs => h.not_sum_mul_atom rfl ⟨hs, trivial⟩
      replace hfixed := (multiplyAtom_number .right n a b op).symm.trans hfixed
      obtain he | he | ⟨-, he⟩ := multiplyAtom_number_cases hA hl.1.not_redex hop hfixed
      · exact absurd (Expr.effort_operand_lt _ _ _).1 (Nat.not_lt.mpr he)
      · exact ((he _ _ rfl).2 ⟨n, rfl⟩).elim
      · cases he
  | first hx => exact front rfl hr (.first hx) hfixed
  | second hx => exact front rfl hr (.second hx) hfixed
  | dividend hx => exact front rfl hr (.dividend hx) hfixed

/-- A monomial takes in nothing. -/
theorem Monomial.not_takesIn {op : Operator} {l r : Expr α} (h : Monomial A (.node l op r)) :
    ¬ TakesIn A op l r := by
  intro htakes
  cases h with
  | product hvw =>
      cases htakes with
      | multiplySame => exact hvw rfl
  | quotient hvw =>
      cases htakes with
      | divideSame => exact hvw rfl
      | divideScaled hone => exact hone ⟨rfl, rfl⟩
  | square => cases htakes

/-- **The rules settle** all nodes. -/
theorem upheld_settled (hA : A.HasUnits) : Upheld A (Settled A) where
  inert hop h hl hr := ⟨h.not_redex hA hop, h.multiple hA hl hr⟩
  power h := ⟨h.not_redex, fun htakes => nomatch htakes⟩
  monomial h := ⟨h.not_redex hA, fun htakes => absurd htakes h.not_takesIn⟩
  multiple h := ⟨h.not_redex, fun _ => h⟩

/-- **The nodes of a simplified formula are settled.** -/
theorem settled_simplify (hA : A.HasUnits) {scope : Scope α} {e e' : Expr α}
    (h : e.simplify A scope = .ok e') : e'.AllNodes (Settled A) :=
  allNodes_simplify (upheld_settled hA) h

/-! ### Formulas alike -/

/-- Formulas are **alike** if they are the same up to the numbers in front of factors. -/
inductive Alike : Expr α → Expr α → Prop
  | atom (x : Atom α) : Alike (.atom x) (.atom x)
  | node {l l' r r' : Expr α} {op : Operator} : Alike l l' → Alike r r' →
      Alike (.node l op r) (.node l' op r')
  | multiple {c c' : α} {e : Expr α} :
      Alike (.node (.number c) .multiply e) (.node (.number c') .multiply e)

namespace Alike

theorem refl (e : Expr α) : Alike e e := by
  induction e with
  | atom x => exact .atom x
  | node l op r ihl ihr => exact .node ihl ihr

/-- **Formulas alike have the same variables.** -/
theorem names_eq {e e' : Expr α} (h : Alike e e') : e'.names = e.names := by
  induction h with
  | atom x => rfl
  | node _ _ ihl ihr => rw [Expr.names, Expr.names, ihl, ihr]
  | multiple => rfl

theorem eq_atom {e : Expr α} {x : Atom α} (h : Alike e (.atom x)) : e = .atom x := by
  cases h
  rfl

/-- What is alike to a node is one of the same operator. Its first operand is alike, or both are
numbers. -/
theorem exists_node {e a b : Expr α} {op : Operator} (h : Alike e (.node a op b)) :
    ∃ a' b', e = .node a' op b' ∧ (Alike a' a ∨ a'.IsNumber ∧ a.IsNumber) ∧ Alike b' b := by
  cases h with
  | node ha hb => exact ⟨_, _, rfl, .inl ha, hb⟩
  | multiple => exact ⟨_, _, rfl, .inr ⟨⟨_, rfl⟩, ⟨_, rfl⟩⟩, refl _⟩

theorem isSum {e e' : Expr α} (h : Alike e e') (hs : e'.IsSum) : e.IsSum := by
  cases h with
  | atom => exact hs
  | node => exact hs
  | multiple => exact hs

theorem isNumber {e e' : Expr α} (h : Alike e e') (hn : e'.IsNumber) : e.IsNumber := by
  obtain ⟨n, rfl⟩ := hn
  exact ⟨n, h.eq_atom⟩

variable {l l' r r' : Expr α} {op : Operator}

/-- A neutral number beside an operand is one beside an operand alike. -/
theorem neutral {e' : Expr α} (hl : Alike l l') (hr : Alike r r') (h : Neutral A op l' r' e') :
    ∃ e, Neutral A op l r e := by
  cases h with
  | oneMultiply hn =>
      obtain rfl := hl.eq_atom
      exact ⟨_, .oneMultiply hn⟩
  | multiplyOne hn =>
      obtain rfl := hr.eq_atom
      exact ⟨_, .multiplyOne hn⟩
  | divideOne hn =>
      obtain rfl := hr.eq_atom
      exact ⟨_, .divideOne hn⟩
  | zeroAdd hn =>
      obtain rfl := hl.eq_atom
      exact ⟨_, .zeroAdd hn⟩
  | addZero hn =>
      obtain rfl := hr.eq_atom
      exact ⟨_, .addZero hn⟩
  | subtractZero hn =>
      obtain rfl := hr.eq_atom
      exact ⟨_, .subtractZero hn⟩

/-- **A redex stays one** with operands alike. -/
theorem redex (hl : Alike l l') (hr : Alike r r') (h : Redex A op l' r') : Redex A op l r := by
  cases h with
  | numbers hop =>
      obtain rfl := hl.eq_atom
      obtain rfl := hr.eq_atom
      exact .numbers hop
  | neutral hn =>
      obtain ⟨e, hn⟩ := neutral hl hr hn
      exact .neutral hn
  | zeroMultiply hn =>
      obtain rfl := hl.eq_atom
      exact .zeroMultiply hn
  | multiplyZero hn =>
      obtain rfl := hr.eq_atom
      exact .multiplyZero hn
  | powerZero hn =>
      obtain rfl := hr.eq_atom
      exact .powerZero hn
  | powerOne hn =>
      obtain rfl := hr.eq_atom
      exact .powerOne hn
  | atomMultiplySum hs =>
      obtain rfl := hl.eq_atom
      exact .atomMultiplySum (hr.isSum hs)
  | sumMultiplyAtom hs =>
      obtain rfl := hr.eq_atom
      exact .sumMultiplyAtom (hl.isSum hs)
  | sumDivideAtom hs =>
      obtain rfl := hr.eq_atom
      exact .sumDivideAtom (hl.isSum hs)
  | numberBeforeSum hs hinner hab =>
      obtain rfl := hl.eq_atom
      obtain ⟨a, b, rfl, ha, hb⟩ := hr.exists_node
      refine .numberBeforeSum hs hinner (hab.imp (fun hn => ?_) hb.isNumber)
      exact ha.elim (fun ha => ha.isNumber hn) And.left
  | numberBehindSum hs hinner hab =>
      obtain rfl := hr.eq_atom
      obtain ⟨a, b, rfl, ha, hb⟩ := hl.exists_node
      refine .numberBehindSum hs hinner (hab.imp (fun hn => ?_) hb.isNumber)
      exact ha.elim (fun ha => ha.isNumber hn) And.left
  | multiplyScaled hone =>
      obtain rfl := hl.eq_atom
      obtain rfl := hr.eq_atom
      exact .multiplyScaled hone
  | powerNode hinner =>
      obtain ⟨a, b, rfl, -, -⟩ := hl.exists_node
      exact .powerNode hinner

/-- A leaf that takes up numbers is alike to one. -/
theorem exists_takesUp {a a' : Expr α} {x : Atom α} (hx : x.TakesUp) (ha' : a' = .atom x)
    (ha : Alike a a' ∨ a.IsNumber ∧ a'.IsNumber) : ∃ y : Atom α, a = .atom y ∧ y.TakesUp := by
  subst ha'
  obtain ha | ⟨⟨n, rfl⟩, -⟩ := ha
  · exact ⟨x, ha.eq_atom, hx⟩
  · exact ⟨_, rfl, trivial⟩

/-- **A node that takes in a number** does so with operands alike. -/
theorem takesIn (hl : Alike l l') (hr : Alike r r') (h : TakesIn A op l' r') :
    TakesIn A op l r := by
  cases h with
  | scaledDivideNumber =>
      obtain rfl := hl.eq_atom
      obtain rfl := hr.eq_atom
      exact .scaledDivideNumber
  | scaledMultiplyNumber =>
      obtain rfl := hl.eq_atom
      obtain rfl := hr.eq_atom
      exact .scaledMultiplyNumber
  | numberMultiplyScaled =>
      obtain rfl := hl.eq_atom
      obtain rfl := hr.eq_atom
      exact .numberMultiplyScaled
  | divideSame =>
      obtain rfl := hl.eq_atom
      obtain rfl := hr.eq_atom
      exact .divideSame
  | multiplySame =>
      obtain rfl := hl.eq_atom
      obtain rfl := hr.eq_atom
      exact .multiplySame
  | divideScaled hone =>
      obtain rfl := hl.eq_atom
      obtain rfl := hr.eq_atom
      exact .divideScaled hone
  | nodeMultiplyNumber =>
      obtain ⟨a, b, rfl, -, -⟩ := hl.exists_node
      obtain rfl := hr.eq_atom
      exact .nodeMultiplyNumber
  | first hx =>
      obtain rfl := hl.eq_atom
      obtain ⟨a, b, rfl, ha, -⟩ := hr.exists_node
      obtain ⟨y, rfl, hy⟩ := exists_takesUp hx rfl ha
      exact .first hy
  | second hx =>
      obtain rfl := hl.eq_atom
      obtain ⟨a, b, rfl, -, hb⟩ := hr.exists_node
      obtain ⟨y, rfl, hy⟩ := exists_takesUp hx rfl (.inl hb)
      exact .second hy
  | dividend hx =>
      obtain rfl := hl.eq_atom
      obtain ⟨a, b, rfl, ha, -⟩ := hr.exists_node
      obtain ⟨y, rfl, hy⟩ := exists_takesUp hx rfl ha
      exact .dividend hy

end Alike

/-! ### Simplifying settled formulas -/

variable (A) in
/-- An arithmetic that **keeps multiples**: a computed number that is neither zero nor one is
neither after it was multiplied with one or divided by one. -/
def Arithmetic.KeepsMultiples : Prop :=
  ∀ c d, A.IsComputed c → A.equals c A.zero = .ok false → A.equals c A.one = .ok false →
    (A.multiply c A.one = .ok d ∨ A.divide c A.one = .ok d) →
    A.equals d A.zero = .ok false ∧ A.equals d A.one = .ok false

/-- **A multiple of a monomial** becomes another multiple of it. -/
theorem exists_rule_multiple (hK : A.KeepsMultiples) {c : α} {m e : Expr α} (hm : Monomial A m)
    (hc : A.IsComputed c) (hzero : A.equals c A.zero = .ok false)
    (hone : A.equals c A.one = .ok false) (h : rule A .multiply (.number c) m = .ok e) :
    ∃ d, e = .node (.number d) .multiply m := by
  -- the number is taken up by the first variable, and put in front again
  have again {d k : α} (hd : A.multiply c A.one = .ok d)
      (hk : A.multiply d A.one = .ok k ∨ A.divide d A.one = .ok k)
      (hscaled : scaledBy A k m = .ok e) : ∃ d, e = .node (.number d) .multiply m := by
    obtain ⟨hdzero, hdone⟩ := hK c d hc hzero hone (.inl hd)
    obtain ⟨hkzero, hkone⟩ := hK d k ⟨_, _, .inl hd⟩ hdzero hdone hk
    exact ⟨k, Except.ok.inj (hscaled.symm.trans (scaledBy_of_ne hkzero hkone m))⟩
  cases hm with
  | @product v w hvw =>
      have hrule : rule A .multiply (.number c) (.node (plain A v) .multiply (plain A w)) =
          A.multiply c A.one >>= fun d => multiply A (.scaled v d) (.scaled w A.one) := by
        simp only [rule, multiply, multiplyAtom, isNumber, hzero, hone, Operator.sign?, absorb,
          plain]
        cases A.multiply c A.one <;> rfl
      obtain ⟨d, hd, h⟩ := bind_eq_ok.mp (hrule.symm.trans h)
      rw [multiply_scaled] at h
      obtain ⟨k, hk, h⟩ := bind_eq_ok.mp h
      rw [if_neg hvw] at h
      exact again hd (.inl hk) h
  | @quotient v w hvw =>
      have hrule : rule A .multiply (.number c) (.node (plain A v) .divide (plain A w)) =
          A.multiply c A.one >>= fun d => divide A (.scaled v d) (.scaled w A.one) := by
        simp only [rule, multiply, multiplyAtom, isNumber, hzero, hone, Operator.sign?, absorb,
          plain]
        cases A.multiply c A.one <;> rfl
      obtain ⟨d, hd, h⟩ := bind_eq_ok.mp (hrule.symm.trans h)
      rw [divide_scaled] at h
      obtain ⟨k, hk, h⟩ := bind_eq_ok.mp h
      rw [if_neg hvw] at h
      exact again hd (.inr hk) h
  | square => exact ⟨c, Except.ok.inj (h.symm.trans (rule_multiple_square hzero hone _))⟩

/-- Nothing else is alike to a monomial. -/
theorem Monomial.eq_of_alike {m m' : Expr α} (hm : Monomial A m) (h : Alike m m') : m' = m := by
  cases hm <;> obtain - | ⟨⟨⟩, ⟨⟩⟩ | - := h <;> rfl

/-- **Simplifying a settled formula** without bound variables gives a formula alike. -/
theorem alike_simplify (hA : A.HasUnits) (hK : A.KeepsMultiples) {scope : Scope α} {e e' : Expr α}
    (he : e.AllNodes (Settled A)) (hnames : ∀ y ∈ e.names, scope.value? y = none)
    (h : e.simplify A scope = .ok e') : Alike e e' := by
  induction e generalizing e' with
  | atom x =>
      cases x with
      | scaled x c =>
          simp only [Expr.simplify, Simplify.atom, hnames x (List.mem_singleton.mpr rfl)] at h
          obtain rfl := Except.ok.inj h
          exact .atom _
      | _ =>
          obtain rfl := Except.ok.inj h
          exact .atom _
  | node l op r ihl ihr =>
      obtain ⟨l', hl', h⟩ := bind_eq_ok.mp h
      obtain ⟨r', hr', hrule⟩ := bind_eq_ok.mp h
      obtain ⟨⟨hredex, hmultiple⟩, hlnodes, hrnodes⟩ := he
      have hl := ihl hlnodes (fun y hy => hnames y (List.mem_append_left _ hy)) hl'
      have hr := ihr hrnodes (fun y hy => hnames y (List.mem_append_right _ hy)) hr'
      by_cases htakes : TakesIn A op l r
      · obtain ⟨hm, hc, hzero, hone⟩ := hmultiple htakes
        obtain - | - | - := hl
        obtain rfl := hm.eq_of_alike hr
        obtain ⟨d, rfl⟩ := exists_rule_multiple hK hm hc hzero hone hrule
        exact .multiple
      · have heq := (rewrites_of_rule hrule).eq_node hA (fun h => hredex (hl.redex hr h))
          fun h => htakes (hl.takesIn hr h)
        rw [heq]
        exact .node hl hr

/-- **The variables stay the same** when a settled formula without bound ones is simplified. -/
theorem names_simplify_settled (hA : A.HasUnits) (hK : A.KeepsMultiples) {scope : Scope α}
    {e e' : Expr α} (he : e.AllNodes (Settled A)) (hnames : ∀ y ∈ e.names, scope.value? y = none)
    (h : e.simplify A scope = .ok e') : e'.names = e.names :=
  (alike_simplify hA hK he hnames h).names_eq

/-! ### The calculator -/

/-- An operation on two numbers of the calculator snaps them and its result. -/
theorem binary_number (f : Number → Number → Except Fault Number) (z w : Number) :
    Primitive.binary f (.number z) (.number w) = f z.snap w.snap >>= fun v => pure v.snap := rfl

/-- One is **neutral** for a number with stable parts. -/
theorem oneNeutral_of_isStable {z : Number} (hre : IsStable z.re) (him : IsStable z.im) :
    calculator.OneNeutral (.number z) := by
  have hz : z.snap = z := IsStable.isSnapped hre him
  have hone : Number.one.snap = Number.one := by decide +kernel
  have hnonzero : Number.one.isZero = false := by decide +kernel
  constructor
  · refine multiply_number ?_
    rw [Primitive.multiply, binary_number, hone, hz, hre.mul_one him]
    exact congrArg Except.ok hz
  · refine divide_number ?_
    rw [Primitive.divide, binary_number, hone, hz, hnonzero, hre.div_one him]
    exact congrArg Except.ok hz

/-- With NaN and the infinities one gives NaN. -/
theorem nan_of_not_stable {w : Number}
    (hw : w = .nan ∨ w = .infinity ∨ w = .negativeInfinity) :
    calculator.multiply (.number w) calculator.one = .ok (.number .nan) ∧
      calculator.divide (.number w) calculator.one = .ok (.number .nan) := by
  obtain rfl | rfl | rfl := hw <;>
    exact ⟨multiply_number (by decide +kernel), divide_number (by decide +kernel)⟩

/-- **The calculator keeps multiples**: one is neutral for finite numbers, and what becomes of the
others is neither zero nor one. -/
theorem keepsMultiples_calculator : calculator.KeepsMultiples := by
  intro c d hc hzero hone hd
  obtain ⟨z, rfl⟩ := isNormalized_of_isComputed hc
  have becomes {v : Operand} (hmul : calculator.multiply (.number z.snap) calculator.one = .ok v)
      (hdiv : calculator.divide (.number z.snap) calculator.one = .ok v) : v = d :=
    Except.ok.inj (hd.elim hmul.symm.trans hdiv.symm.trans)
  by_cases hstable : IsStable z.snap.re ∧ IsStable z.snap.im
  · obtain ⟨hmul, hdiv⟩ := oneNeutral_of_isStable hstable.1 hstable.2
    obtain rfl := becomes hmul hdiv
    exact ⟨hzero, hone⟩
  · obtain ⟨hmul, hdiv⟩ := nan_of_not_stable (w := z.snap) (by
      obtain h | h | h | h := z.snap_cases
      · exact .inl h
      · exact .inr (.inl h)
      · exact .inr (.inr h)
      · exact absurd h hstable)
    obtain rfl := becomes hmul hdiv
    constructor <;> decide +kernel

end Argand
