import Argand.Proofs.Simplification.Normal

/-!
# The effort of isolating a variable

Each step of solving undoes the operator on top and simplifies what is left. Undoing a quotient
`a / u` does not make the equation smaller, and simplification multiplies into sums and takes a
number out of a product of variables. So neither the size nor the depth of a formula goes down with
every step. Its effort does: the greatest number of steps that lead from the top to a leaf, where a
quotient takes two, an exponent counts beside its base, and a factor counts what can come to stand
in front of the other one.

## Main definitions

* `Argand.Expr.lead`: what a factor brings into the other one.
* `Argand.Expr.effort`: a bound of the number of steps.

## Main results

* `Argand.Rewrites.lead_le`, `Argand.Rewrites.effort_le`: no identity raises them.
* `Argand.effort_simplify_le`: simplification does not raise the effort.
* `Argand.Expr.effort_lt_two_mul_size`: the effort is bounded by the size.
-/

namespace Argand

open Simplify

variable {α : Type}

/-! ### Effort -/

section

variable (A : Arithmetic α)

open Classical in
/-- What a factor **brings into** the other one: a number it may leave in front, or one step. A
power brings what its base brings. -/
noncomputable def Expr.lead : Expr α → Nat
  | .atom (.scaled _ c) => if c = A.one then 0 else 1
  | .atom _ => 0
  | .node l .power _ => l.lead
  | .node .. => 1

/-- The **effort** of isolating a variable that occurs in a formula. -/
noncomputable def Expr.effort : Expr α → Nat
  | .atom x => (Expr.atom x).lead A
  | .node l .power r => l.effort + r.effort + 1
  | .node l .multiply r => max (l.effort + r.lead A) (r.effort + l.lead A) + 1
  | .node l .divide r => max (l.effort + r.lead A) (r.effort + l.lead A) + 2
  | .node l _ r => max l.effort r.effort + 1

end

variable {A : Arithmetic α}

@[simp] theorem Expr.lead_number (a : α) : (Expr.number a).lead A = 0 := rfl

@[simp] theorem Expr.effort_number (a : α) : (Expr.number a).effort A = 0 := rfl

theorem Expr.effort_atom (x : Atom α) : (Expr.atom x).effort A = (Expr.atom x).lead A := rfl

theorem Expr.effort_scaled (x : String) (c : α) :
    (Expr.scaled x c).effort A = (Expr.scaled x c).lead A := rfl

@[simp] theorem Expr.lead_plain (x : String) : (plain A x).lead A = 0 := by
  simp [plain, lead]

@[simp] theorem Expr.effort_plain (x : String) : (plain A x).effort A = 0 :=
  lead_plain x

theorem Expr.lead_power (l r : Expr α) : (Expr.node l .power r).lead A = l.lead A := rfl

theorem Expr.effort_multiply (l r : Expr α) : (Expr.node l .multiply r).effort A =
    max (l.effort A + r.lead A) (r.effort A + l.lead A) + 1 := rfl

theorem Expr.effort_divide (l r : Expr α) : (Expr.node l .divide r).effort A =
    max (l.effort A + r.lead A) (r.effort A + l.lead A) + 2 := rfl

theorem Expr.effort_power (l r : Expr α) :
    (Expr.node l .power r).effort A = l.effort A + r.effort A + 1 := rfl

theorem Expr.lead_le_one (e : Expr α) : e.lead A ≤ 1 := by
  induction e with
  | atom x =>
      cases x with
      | scaled x c =>
          simp only [lead]
          split <;> omega
      | _ => exact Nat.zero_le _
  | node l op r ihl _ =>
      cases op with
      | power => exact ihl
      | _ => exact Nat.le_refl _

theorem Expr.lead_le_effort (e : Expr α) : e.lead A ≤ e.effort A := by
  induction e with
  | atom x => exact Nat.le_refl _
  | node l op r ihl _ =>
      cases op <;> simp only [lead, effort] <;> omega

/-- The lead of a sum. -/
theorem Expr.lead_sum {op : Operator} {s : Sign} (hs : op.sign? = some s) (l r : Expr α) :
    (Expr.node l op r).lead A = 1 := by
  obtain rfl := Operator.eq_operator_of_sign? hs
  cases s <;> rfl

/-- The effort of a sum. -/
theorem Expr.effort_sum {op : Operator} {s : Sign} (hs : op.sign? = some s) (l r : Expr α) :
    (Expr.node l op r).effort A = max (l.effort A) (r.effort A) + 1 := by
  obtain rfl := Operator.eq_operator_of_sign? hs
  cases s <;> rfl

/-- **The effort is bounded by the size** of a formula. -/
theorem Expr.effort_lt_two_mul_size (e : Expr α) : e.effort A < 2 * e.size := by
  induction e with
  | atom x =>
      have := Expr.lead_le_one (A := A) (.atom x)
      simp only [effort, size]
      omega
  | node l op r ihl ihr =>
      have := l.lead_le_one (A := A)
      have := r.lead_le_one (A := A)
      cases op <;> simp only [effort, size] <;> omega

/-- A value brings nothing and takes no effort. -/
@[simp] theorem Expr.lead_ofValue (v : Value α) : (Expr.ofValue v).lead A = 0 := by
  cases v with
  | one a => rfl
  | many items => rcases items with - | ⟨a, - | ⟨b, rest⟩⟩ <;> rfl

@[simp] theorem Expr.effort_ofValue (v : Value α) : (Expr.ofValue v).effort A = 0 := by
  cases v with
  | one a => rfl
  | many items => rcases items with - | ⟨a, - | ⟨b, rest⟩⟩ <;> rfl

/-- The **operands** of a node take less effort. -/
theorem Expr.effort_operand_lt (l : Expr α) (op : Operator) (r : Expr α) :
    l.effort A < (Expr.node l op r).effort A ∧ r.effort A < (Expr.node l op r).effort A := by
  cases op <;> simp only [effort] <;> constructor <;> omega

/-! ### Coefficients -/

/-- A product or a quotient of two coefficients brings nothing if neither of them does. -/
theorem Expr.lead_computed_le (hA : A.HasUnits) {a b c : α} (x v w : String)
    (hc : A.multiply a b = .ok c ∨ A.divide a b = .ok c) :
    (Expr.scaled x c).lead A ≤ (Expr.scaled v a).lead A + (Expr.scaled w b).lead A := by
  by_cases hab : a = A.one ∧ b = A.one
  · obtain ⟨rfl, rfl⟩ := hab
    have hone : c = A.one := by
      obtain hc | hc := hc
      · exact Except.ok.inj (hc.symm.trans hA.one_mul_one)
      · exact Except.ok.inj (hc.symm.trans hA.one_div_one)
    subst hone
    exact Nat.le_add_right _ _
  · have h := Expr.lead_le_one (A := A) (.scaled x c)
    simp only [lead] at h ⊢
    grind

/-- A number in front takes one step, unless it is one. -/
theorem effort_scaledBy_le (hA : A.HasUnits) {c : α} {e e' : Expr α} (x : String)
    (h : scaledBy A c e = .ok e') : e'.effort A ≤ e.effort A + (Expr.scaled x c).lead A := by
  by_cases hc : c = A.one
  · subst hc
    obtain rfl := Except.ok.inj (h.symm.trans (hA.scaledBy_one e))
    exact Nat.le_add_right _ _
  · have hle := e.lead_le_effort (A := A)
    have hlead : (Expr.scaled x c).lead A = 1 := if_neg hc
    rw [hlead]
    obtain ⟨-, rfl⟩ | ⟨-, rfl⟩ | ⟨-, -, rfl⟩ := scaledBy_cases h
    · exact Nat.zero_le _
    · exact Nat.le_add_right _ _
    · rw [Expr.effort_multiply, Expr.effort_number, Expr.lead_number]
      omega

/-! ### Identities -/

/-- **No identity raises what a formula brings** into a factor beside it. -/
theorem Rewrites.lead_le {op : Operator} {l r e : Expr α} (h : Rewrites A op l r e) :
    e.lead A ≤ (Expr.node l op r).lead A := by
  induction h with
  | kept _ | powerOne _ => exact Nat.le_refl _
  | powerZero _ | powerNumbers _ => exact Nat.zero_le _
  | powerPower _ _ _ ih => exact ih
  | addNumbers hs | addZero hs | foldOuterFirst hs | foldOuterSecond hs | foldInnerFirst hs
  | foldInnerSecond hs =>
      rw [Expr.lead_sum hs]
      exact Expr.lead_le_one _
  | _ => exact Expr.lead_le_one _

/-- **No identity raises the effort.** -/
theorem Rewrites.effort_le (hA : A.HasUnits) {op : Operator} {l r e : Expr α}
    (h : Rewrites A op l r e) : e.effort A ≤ (Expr.node l op r).effort A := by
  induction h with
  | kept _ => exact Nat.le_refl _
  | addNumbers | divideNumbers | divideSame | multiplyNumbers | zeroMultiply | multiplyZero
  | powerZero | powerNumbers => exact Nat.zero_le _
  | zeroAdd _ | oneMultiply _ => exact Nat.le_of_lt (Expr.effort_operand_lt _ _ _).2
  | addZero _ _ | divideOne _ | multiplyOne _ | powerOne _ =>
      exact Nat.le_of_lt (Expr.effort_operand_lt _ _ _).1
  -- what is left of the inner sum comes into the place of the whole
  | foldOuterFirst hs hs' _ _ _ ih | foldOuterSecond hs hs' _ _ _ ih
  | foldInnerFirst hs hs' _ _ _ ih =>
      rw [Expr.effort_sum (Sign.sign?_operator _)] at ih
      rw [Expr.effort_sum hs, Expr.effort_sum hs']
      simp only [Expr.effort_number] at ih ⊢
      omega
  | foldInnerSecond hs hs' _ _ _ _ ih =>
      rw [Expr.effort_sum (s := .plus) rfl] at ih
      rw [Expr.effort_sum hs, Expr.effort_sum hs']
      simp only [Expr.effort_number] at ih ⊢
      omega
  | @divideScaled v w _ _ _ _ _ hc he =>
      have hlead := Expr.lead_computed_le hA v v w (.inr hc)
      have heffort := effort_scaledBy_le hA v he
      simp only [Expr.effort_divide, Expr.effort_scaled, Expr.effort_plain,
        Expr.lead_plain] at heffort ⊢
      omega
  | @multiplyScaled v w _ _ _ _ _ hc he =>
      have hlead := Expr.lead_computed_le hA v v w (.inl hc)
      have heffort := effort_scaledBy_le hA v he
      simp only [Expr.effort_multiply, Expr.effort_scaled, Expr.effort_plain,
        Expr.lead_plain] at heffort ⊢
      omega
  | @multiplySame v _ _ _ _ hc he =>
      have hlead := Expr.lead_computed_le hA v v v (.inl hc)
      have heffort := effort_scaledBy_le hA v he
      simp only [Expr.effort_multiply, Expr.effort_power, Expr.effort_scaled, Expr.effort_plain,
        Expr.effort_number] at heffort ⊢
      omega
  | divideScaledNumber _ | multiplyScaledNumber _ _ | multiplyNumberScaled _ _ =>
      exact Nat.le_trans (Expr.lead_le_one _) (Nat.le_add_left _ _)
  -- each term takes the other factor, and the sum of the two comes on top
  | @divideSum _ _ a b _ _ _ y hs _ _ _ iha ihb ihe =>
      have ha := a.lead_le_effort (A := A)
      have hb := b.lead_le_effort (A := A)
      have hy := Expr.effort_atom (A := A) y
      simp only [Expr.effort_divide, Expr.effort_sum hs, Expr.lead_sum hs] at iha ihb ihe ⊢
      omega
  | @multiplySum _ _ x a b _ _ _ hs _ _ _ iha ihb ihe
  | @sumMultiply _ _ x a b _ _ _ hs _ _ _ iha ihb ihe =>
      have ha := a.lead_le_effort (A := A)
      have hb := b.lead_le_effort (A := A)
      have hx := Expr.effort_atom (A := A) x
      simp only [Expr.effort_multiply, Expr.effort_sum hs, Expr.lead_sum hs] at iha ihb ihe ⊢
      omega
  | multiplyNumber _ ih =>
      simp only [Expr.effort_multiply] at ih ⊢
      omega
  -- the factor that takes up the number may bring one step more, as the number did
  | @absorbFirst _ x y _ _ _ _ _ ihy ihe | @absorbSecond _ x y _ _ _ _ _ ihy ihe =>
      have hx := Expr.effort_atom (A := A) x
      have hy := Expr.lead_le_one (A := A) (.atom y)
      simp only [Expr.effort_multiply, Expr.effort_number, Expr.lead_number] at ihy ihe ⊢
      simp only [Expr.lead]
      omega
  | @absorbDividend _ x y _ _ _ _ _ ihy ihe =>
      have hx := Expr.effort_atom (A := A) x
      have hy := Expr.lead_le_one (A := A) (.atom y)
      simp only [Expr.effort_multiply, Expr.effort_divide, Expr.effort_number,
        Expr.lead_number] at ihy ihe ⊢
      simp only [Expr.lead]
      omega
  -- the exponent counts beside every factor
  | @powerProduct _ _ _ _ _ _ ha hb _ iha ihb ihe =>
      have hla := ha.lead_le
      have hlb := hb.lead_le
      simp only [Expr.effort_multiply, Expr.effort_power, Expr.lead_power] at iha ihb ihe hla hlb ⊢
      omega
  | @powerQuotient _ _ _ _ _ _ ha hb _ iha ihb ihe =>
      have hla := ha.lead_le
      have hlb := hb.lead_le
      simp only [Expr.effort_divide, Expr.effort_power, Expr.lead_power] at iha ihb ihe hla hlb ⊢
      omega
  | @powerPower a b r _ _ hp _ ihp ihe =>
      have hb := b.lead_le_effort (A := A)
      have hr := r.lead_le_effort (A := A)
      simp only [Expr.effort_multiply, Expr.effort_power] at ihp ihe ⊢
      omega

/-- A node with less demanding operands takes no more effort. -/
theorem Expr.effort_node_le {l l' r r' : Expr α} (op : Operator)
    (hl : l'.effort A ≤ l.effort A) (hl' : l'.lead A ≤ l.lead A)
    (hr : r'.effort A ≤ r.effort A) (hr' : r'.lead A ≤ r.lead A) :
    (Expr.node l' op r').effort A ≤ (Expr.node l op r).effort A := by
  cases op <;> simp only [effort] <;> omega

/-- **Simplification raises neither the effort** nor what a formula brings. -/
theorem effort_simplify_le (hA : A.HasUnits) {scope : Scope α} {e e' : Expr α}
    (h : e.simplify A scope = .ok e') :
    e'.effort A ≤ e.effort A ∧ e'.lead A ≤ e.lead A := by
  induction e generalizing e' with
  | atom x =>
      obtain ⟨rfl, -⟩ | ⟨-, -, -, w, -, -, -, rfl⟩ := atom_cases h
      · exact ⟨Nat.le_refl _, Nat.le_refl _⟩
      · simp
  | node l op r ihl ihr =>
      obtain ⟨l', r', hl, hr, hrw⟩ := rewrites_of_simplify h
      obtain ⟨hle, hll⟩ := ihl hl
      obtain ⟨hre, hrl⟩ := ihr hr
      constructor
      · exact Nat.le_trans (hrw.effort_le hA) (Expr.effort_node_le op hle hll hre hrl)
      · refine Nat.le_trans hrw.lead_le ?_
        cases op with
        | power => exact hll
        | _ => exact Nat.le_refl _

end Argand
