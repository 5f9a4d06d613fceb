import Argand.Proofs.Simplification.Rewriting
import Mathlib.Algebra.Field.Basic
import Mathlib.Tactic.Ring
import Mathlib.Tactic.FieldSimp

/-!
# What a formula denotes

Numbers are read in a field, by a map `val`, and operators as the operations of the field. A
formula may have several readings, one for each choice among the items of its lists and among
the readings of its variables; it has none if a divisor reads zero.

An arithmetic is exact for `val` if its successful operations are those of the field. The
identities of simplification then keep every reading.

## Main definitions

* `Argand.Operator.result?`: an operator in a field.
* `Argand.Reads`: the readings of a formula.
* `Argand.Arithmetic.IsExact`: exact arithmetic.

## Main results

* `Argand.Rewrites.reads`: an identity keeps the readings.
* `Argand.reads_simplify`: so does simplification.
-/

namespace Argand

open Simplify

variable {α K : Type} [Field K]

/-! ### Exact arithmetic -/

/-- A sign as a factor. -/
def Sign.factor : Sign → K
  | plus => 1
  | minus => -1

@[simp] theorem Sign.factor_plus : (Sign.plus.factor : K) = 1 := rfl

@[simp] theorem Sign.factor_minus : (Sign.minus.factor : K) = -1 := rfl

@[simp] theorem Sign.factor_times (s s' : Sign) :
    ((s.times s').factor : K) = s.factor * s'.factor := by
  cases s <;> cases s' <;> simp [Sign.times]

/-- An arithmetic is **exact** for a reading of its numbers if what its operations give is what
the field gives. They may refuse to give a result. -/
structure Arithmetic.IsExact (A : Arithmetic α) (val : α → K) : Prop where
  zero : val A.zero = 0
  one : val A.one = 1
  two : val A.two = 2
  add : ∀ {a b c}, A.add a b = .ok c → val c = val a + val b
  subtract : ∀ {a b c}, A.subtract a b = .ok c → val c = val a - val b
  multiply : ∀ {a b c}, A.multiply a b = .ok c → val c = val a * val b
  divisor_ne_zero : ∀ {a b c}, A.divide a b = .ok c → val b ≠ 0
  divide : ∀ {a b c}, A.divide a b = .ok c → val c = val a / val b
  square : ∀ {a c}, A.power a A.two = .ok c → val c = val a * val a
  negate : ∀ {a c}, A.negate a = .ok c → val c = -val a
  equals : ∀ {a b t}, A.equals a b = .ok t → (t = true ↔ val a = val b)

namespace Arithmetic.IsExact

variable {A : Arithmetic α} {val : α → K} (hA : A.IsExact val)

include hA

/-- Numbers found equal are read as the same element. -/
theorem eq_of_equals {a b : α} (h : A.equals a b = .ok true) : val a = val b :=
  (hA.equals h).mp rfl

/-- Numbers found different are read as different elements. -/
theorem ne_of_equals {a b : α} (h : A.equals a b = .ok false) : val a ≠ val b :=
  fun hab => Bool.false_ne_true ((hA.equals h).mpr hab)

/-- A number with a sign is read with its factor. -/
theorem signed {s : Sign} {a c : α} (h : Simplify.signed A s a = .ok c) :
    val c = s.factor * val a := by
  cases s with
  | plus =>
      obtain rfl := Except.ok.inj h
      simp
  | minus => simpa using hA.negate h

/-- A sum or difference of two numbers is exact. -/
theorem apply {s : Sign} {a b c : α} (h : Simplify.apply A s a b = .ok c) :
    val c = val a + s.factor * val b := by
  cases s with
  | plus => simpa using hA.add h
  | minus => simpa [sub_eq_add_neg] using hA.subtract h

end Arithmetic.IsExact

/-! ### Zeros -/

/-- A number that is read as **zero**. -/
def Expr.IsZero (val : α → K) : Expr α → Prop
  | .number n => val n = 0
  | _ => False

instance [DecidableEq K] (val : α → K) : (e : Expr α) → Decidable (e.IsZero val)
  | .number n => inferInstanceAs (Decidable (val n = 0))
  | .atom (.list _) | .atom (.scaled ..) | .atom (.constant _) | .atom (.stray _) | .node .. =>
      inferInstanceAs (Decidable False)

/-- A number found different from zero is not zero. -/
theorem Arithmetic.IsExact.not_isZero {A : Arithmetic α} {val : α → K} (hA : A.IsExact val)
    {e : Expr α} (h : ∀ n, e = .number n → A.equals n A.zero = .ok false) : ¬ e.IsZero val := by
  intro h0
  cases e with
  | atom x =>
      cases x with
      | number n => exact hA.ne_of_equals (h n rfl) (h0.trans hA.zero.symm)
      | _ => exact h0
  | node => exact h0

/-- A product with a number that is not zero is zero only if the other factor is. -/
theorem eq_zero_of_mul {val : α → K} {n m : α} (h : val n * val m = 0)
    (hm : ¬ (Expr.number m).IsZero val) : val n = 0 :=
  (mul_eq_zero.mp h).resolve_right hm

/-! ### Operators in a field -/

variable [DecidableEq K]

/-- The **result** of an operator in a field, if it has one. Of the powers only the square is
read. -/
def Operator.result? (op : Operator) (a b : K) : Option K :=
  match op with
  | .add => some (a + b)
  | .subtract => some (a - b)
  | .multiply => some (a * b)
  | .divide => if b = 0 then none else some (a / b)
  | .power => if b = 2 then some (a * a) else none
  | .plusMinus | .other _ => none

/-- A sum or difference adds its second operand with the factor of its sign. -/
theorem Operator.result?_of_sign? {op : Operator} {s : Sign} (h : op.sign? = some s) {a b v : K} :
    op.result? a b = some v ↔ a + s.factor * b = v := by
  obtain rfl := Operator.eq_operator_of_sign? h
  cases s with
  | plus => simp [Sign.operator, Operator.result?]
  | minus => simp [Sign.operator, Operator.result?, sub_eq_add_neg]

theorem Operator.result?_multiply {a b v : K} :
    Operator.multiply.result? a b = some v ↔ a * b = v := by
  simp [Operator.result?]

/-- A quotient has a result for a nonzero divisor. -/
theorem Operator.result?_divide {a b v : K} :
    Operator.divide.result? a b = some v ↔ b ≠ 0 ∧ a / b = v := by
  simp [Operator.result?]

/-! ### Readings -/

section Reads

variable (A : Arithmetic α) (val : α → K) (ρ : String → List K)

/-- The **readings** of a formula, where `ρ` tells those of its variables. -/
inductive Reads : Expr α → K → Prop
  | number (a : α) : Reads (.number a) (val a)
  | scaled {x : String} {c : α} {b : K} : b ∈ ρ x → Reads (.scaled x c) (val c * b)
  | constant {x : String} {a : α} : A.constant? x = some a →
      Reads (.atom (.constant x)) (val a)
  | list {items : List α} {a : α} : a ∈ items → Reads (.atom (.list items)) (val a)
  | node {l r : Expr α} {op : Operator} {a b v : K} : Reads l a → Reads r b →
      op.result? a b = some v → Reads (.node l op r) v

variable {A val ρ}

@[simp] theorem reads_number {a : α} {v : K} : Reads A val ρ (.number a) v ↔ v = val a := by
  constructor
  · rintro ⟨⟩
    rfl
  · rintro rfl
    exact .number a

theorem reads_scaled {x : String} {c : α} {v : K} :
    Reads A val ρ (.scaled x c) v ↔ ∃ b ∈ ρ x, v = val c * b := by
  constructor
  · rintro ⟨⟩
    exact ⟨_, ‹_›, rfl⟩
  · rintro ⟨b, hb, rfl⟩
    exact .scaled hb

theorem reads_node {l r : Expr α} {op : Operator} {v : K} :
    Reads A val ρ (.node l op r) v ↔
      ∃ a b, Reads A val ρ l a ∧ Reads A val ρ r b ∧ op.result? a b = some v := by
  constructor
  · rintro ⟨⟩
    exact ⟨_, _, ‹_›, ‹_›, ‹_›⟩
  · rintro ⟨a, b, ha, hb, hv⟩
    exact .node ha hb hv

/-- The readings of a formula depend on the readings of its own variables only. -/
theorem Reads.congr {ρ' : String → List K} {e : Expr α} {v : K} (h : Reads A val ρ e v)
    (hρ : ∀ x ∈ e.names, ρ x = ρ' x) : Reads A val ρ' e v := by
  induction h with
  | number a => exact .number a
  | scaled hb => exact .scaled (hρ _ (List.mem_singleton.mpr rfl) ▸ hb)
  | constant ha => exact .constant ha
  | list ha => exact .list ha
  | node _ _ hv ihl ihr =>
      refine .node (ihl fun x hx => hρ x ?_) (ihr fun x hx => hρ x ?_) hv
      · exact List.mem_append_left _ hx
      · exact List.mem_append_right _ hx

/-! ### Identities keep readings -/

variable (hA : A.IsExact val)

include hA

/-- A number in front of a formula multiplies its reading. -/
theorem reads_of_scaledBy {c : α} {e e' : Expr α} {v : K} (h : scaledBy A c e = .ok e')
    (hv : Reads A val ρ e v) : Reads A val ρ e' (val c * v) := by
  obtain ⟨hzero, rfl⟩ | ⟨hone, rfl⟩ | ⟨-, -, rfl⟩ := scaledBy_cases h
  · rw [reads_number, hA.eq_of_equals hzero, hA.zero, zero_mul]
  · rwa [hA.eq_of_equals hone, hA.one, one_mul]
  · exact .node (.number c) hv rfl

/-- A variable without a factor is read as the variable. -/
theorem reads_plain {x : String} {b : K} (hb : b ∈ ρ x) : Reads A val ρ (plain A x) b := by
  have h : Reads A val ρ (plain A x) (val A.one * b) := .scaled hb
  rwa [hA.one, one_mul] at h

/-- **An identity keeps the readings**, if each variable has one reading at most. Powers are
left out: their exponents change. -/
theorem Rewrites.reads (hρ : ∀ x, ∀ a ∈ ρ x, ∀ b ∈ ρ x, a = b) {op : Operator} {l r e : Expr α}
    (h : Rewrites A op l r e) (hop : op ≠ .power) {a b v : K} (hl : Reads A val ρ l a)
    (hr : Reads A val ρ r b) (hv : op.result? a b = some v) : Reads A val ρ e v := by
  induction h generalizing a b v with
  | kept _ => exact .node hl hr hv
  | addNumbers hs hc =>
      obtain rfl := (Operator.result?_of_sign? hs).mp hv
      rw [reads_number] at hl hr ⊢
      rw [hA.apply hc, hl, hr]
  | zeroAdd h0 =>
      obtain rfl := (Operator.result?_of_sign? rfl).mp hv
      rw [reads_number, hA.eq_of_equals h0, hA.zero] at hl
      simpa [hl] using hr
  | addZero hs h0 =>
      obtain rfl := (Operator.result?_of_sign? hs).mp hv
      rw [reads_number, hA.eq_of_equals h0, hA.zero] at hr
      simpa [hr] using hl
  | foldOuterFirst hs hs' hx ht _ ih =>
      obtain rfl := (Operator.result?_of_sign? hs).mp hv
      obtain ⟨x, y, hxr, hyr, hin⟩ := reads_node.mp hr
      obtain rfl := (Operator.result?_of_sign? hs').mp hin
      rw [reads_number] at hl hxr
      refine ih (Operator.ne_power_of_sign? (Sign.sign?_operator _)) (.number _) hyr ?_
      rw [Operator.result?_of_sign? (Sign.sign?_operator _), hA.add ht, hA.signed hx,
        Sign.factor_times, hl, hxr]
      ring
  | foldOuterSecond hs hs' hy ht _ ih =>
      obtain rfl := (Operator.result?_of_sign? hs).mp hv
      obtain ⟨x, y, hxr, hyr, hin⟩ := reads_node.mp hr
      obtain rfl := (Operator.result?_of_sign? hs').mp hin
      rw [reads_number] at hl hyr
      refine ih (Operator.ne_power_of_sign? (Sign.sign?_operator _)) (.number _) hxr ?_
      rw [Operator.result?_of_sign? (Sign.sign?_operator _), hA.add ht, hA.signed hy,
        Sign.factor_times, hl, hyr]
      ring
  | foldInnerFirst hs hs' hm ht _ ih =>
      obtain rfl := (Operator.result?_of_sign? hs).mp hv
      obtain ⟨x, y, hxr, hyr, hin⟩ := reads_node.mp hl
      obtain rfl := (Operator.result?_of_sign? hs').mp hin
      rw [reads_number] at hr hxr
      refine ih (Operator.ne_power_of_sign? (Sign.sign?_operator _)) (.number _) hyr ?_
      rw [Operator.result?_of_sign? (Sign.sign?_operator _), hA.add ht, hA.signed hm, hr, hxr]
      ring
  | foldInnerSecond hs hs' hy hm ht _ ih =>
      obtain rfl := (Operator.result?_of_sign? hs).mp hv
      obtain ⟨x, y, hxr, hyr, hin⟩ := reads_node.mp hl
      obtain rfl := (Operator.result?_of_sign? hs').mp hin
      rw [reads_number] at hr hyr
      refine ih nofun (.number _) hxr ?_
      rw [Operator.result?_of_sign? (s := .plus) rfl, hA.add ht, hA.signed hy, hA.signed hm, hr,
        hyr, Sign.factor_plus]
      ring
  | divideNumbers hc =>
      obtain ⟨-, rfl⟩ := Operator.result?_divide.mp hv
      rw [reads_number] at hl hr ⊢
      rw [hA.divide hc, hl, hr]
  | divideOne h1 =>
      obtain ⟨-, rfl⟩ := Operator.result?_divide.mp hv
      rw [reads_number, hA.eq_of_equals h1, hA.one] at hr
      simpa [hr] using hl
  | divideSame hc =>
      obtain ⟨h0, rfl⟩ := Operator.result?_divide.mp hv
      obtain ⟨p, hp, rfl⟩ := reads_scaled.mp hl
      obtain ⟨q, hq, rfl⟩ := reads_scaled.mp hr
      obtain rfl := hρ _ p hp q hq
      rw [reads_number, hA.divide hc, mul_div_mul_right _ _ (right_ne_zero_of_mul h0)]
  | divideScaled _ hc he =>
      obtain ⟨h0, rfl⟩ := Operator.result?_divide.mp hv
      obtain ⟨p, hp, rfl⟩ := reads_scaled.mp hl
      obtain ⟨q, hq, rfl⟩ := reads_scaled.mp hr
      have hpq := reads_of_scaledBy hA he (.node (reads_plain hA hp) (reads_plain hA hq)
        (Operator.result?_divide.mpr ⟨right_ne_zero_of_mul h0, rfl⟩))
      rwa [hA.divide hc, div_mul_div_comm] at hpq
  | divideScaledNumber hc =>
      obtain ⟨-, rfl⟩ := Operator.result?_divide.mp hv
      obtain ⟨p, hp, rfl⟩ := reads_scaled.mp hl
      rw [reads_number] at hr
      refine reads_scaled.mpr ⟨p, hp, ?_⟩
      rw [hA.divide hc, hr]
      ring
  | divideSum hs _ _ _ iha ihb ihe =>
      obtain ⟨h0, rfl⟩ := Operator.result?_divide.mp hv
      obtain ⟨x, y, hx, hy, hin⟩ := reads_node.mp hl
      obtain rfl := (Operator.result?_of_sign? hs).mp hin
      have hx' := iha nofun hx hr (Operator.result?_divide.mpr ⟨h0, rfl⟩)
      have hy' := ihb nofun hy hr (Operator.result?_divide.mpr ⟨h0, rfl⟩)
      refine ihe (Operator.ne_power_of_sign? hs) hx' hy' ?_
      rw [Operator.result?_of_sign? hs]
      ring
  | multiplyNumbers hc =>
      obtain rfl := Operator.result?_multiply.mp hv
      rw [reads_number] at hl hr ⊢
      rw [hA.multiply hc, hl, hr]
  | oneMultiply h1 =>
      obtain rfl := Operator.result?_multiply.mp hv
      rw [reads_number, hA.eq_of_equals h1, hA.one] at hl
      simpa [hl] using hr
  | multiplyOne h1 =>
      obtain rfl := Operator.result?_multiply.mp hv
      rw [reads_number, hA.eq_of_equals h1, hA.one] at hr
      simpa [hr] using hl
  | zeroMultiply _ h0 =>
      obtain rfl := Operator.result?_multiply.mp hv
      rw [reads_number, hA.eq_of_equals h0, hA.zero] at hl
      simp [hl, hA.zero]
  | multiplyZero _ h0 =>
      obtain rfl := Operator.result?_multiply.mp hv
      rw [reads_number, hA.eq_of_equals h0, hA.zero] at hr
      simp [hr, hA.zero]
  | multiplySame hc he =>
      obtain rfl := Operator.result?_multiply.mp hv
      obtain ⟨p, hp, rfl⟩ := reads_scaled.mp hl
      obtain ⟨q, hq, rfl⟩ := reads_scaled.mp hr
      obtain rfl := hρ _ p hp q hq
      have hpp := reads_of_scaledBy hA he (.node (reads_plain hA hp) (.number _)
        (v := p * p) (by simp [Operator.result?, hA.two]))
      rwa [hA.multiply hc, mul_mul_mul_comm] at hpp
  | multiplyScaled _ hc he =>
      obtain rfl := Operator.result?_multiply.mp hv
      obtain ⟨p, hp, rfl⟩ := reads_scaled.mp hl
      obtain ⟨q, hq, rfl⟩ := reads_scaled.mp hr
      have hpq := reads_of_scaledBy hA he (.node (reads_plain hA hp) (reads_plain hA hq) rfl)
      rwa [hA.multiply hc, mul_mul_mul_comm] at hpq
  | multiplyScaledNumber _ hc =>
      obtain rfl := Operator.result?_multiply.mp hv
      obtain ⟨p, hp, rfl⟩ := reads_scaled.mp hl
      rw [reads_number] at hr
      refine reads_scaled.mpr ⟨p, hp, ?_⟩
      rw [hA.multiply hc, hr]
      ring
  | multiplyNumberScaled _ hc =>
      obtain rfl := Operator.result?_multiply.mp hv
      obtain ⟨p, hp, rfl⟩ := reads_scaled.mp hr
      rw [reads_number] at hl
      refine reads_scaled.mpr ⟨p, hp, ?_⟩
      rw [hA.multiply hc, hl]
      ring
  | multiplySum hs _ _ _ iha ihb ihe =>
      obtain rfl := Operator.result?_multiply.mp hv
      obtain ⟨x, y, hx, hy, hin⟩ := reads_node.mp hr
      obtain rfl := (Operator.result?_of_sign? hs).mp hin
      refine ihe (Operator.ne_power_of_sign? hs) (iha nofun hl hx rfl) (ihb nofun hl hy rfl) ?_
      rw [Operator.result?_of_sign? hs]
      ring
  | sumMultiply hs _ _ _ iha ihb ihe =>
      obtain rfl := Operator.result?_multiply.mp hv
      obtain ⟨x, y, hx, hy, hin⟩ := reads_node.mp hl
      obtain rfl := (Operator.result?_of_sign? hs).mp hin
      refine ihe (Operator.ne_power_of_sign? hs) (iha nofun hx hr rfl) (ihb nofun hy hr rfl) ?_
      rw [Operator.result?_of_sign? hs]
      ring
  | multiplyNumber _ ih =>
      rw [Operator.result?_multiply, mul_comm] at hv
      exact ih nofun hr hl (Operator.result?_multiply.mpr hv)
  | absorbFirst _ _ _ ihy ihe =>
      obtain rfl := Operator.result?_multiply.mp hv
      obtain ⟨x, y, hx, hy, hin⟩ := reads_node.mp hr
      obtain rfl := Operator.result?_multiply.mp hin
      refine ihe nofun (ihy nofun hl hx rfl) hy ?_
      rw [Operator.result?_multiply, mul_assoc]
  | absorbSecond _ _ _ ihy ihe =>
      obtain rfl := Operator.result?_multiply.mp hv
      obtain ⟨x, y, hx, hy, hin⟩ := reads_node.mp hr
      obtain rfl := Operator.result?_multiply.mp hin
      refine ihe nofun hx (ihy nofun hl hy rfl) ?_
      rw [Operator.result?_multiply, mul_left_comm]
  | absorbDividend _ _ _ ihy ihe =>
      obtain rfl := Operator.result?_multiply.mp hv
      obtain ⟨x, y, hx, hy, hin⟩ := reads_node.mp hr
      obtain ⟨h0, rfl⟩ := Operator.result?_divide.mp hin
      refine ihe nofun (ihy nofun hl hx rfl) hy (Operator.result?_divide.mpr ⟨h0, ?_⟩)
      rw [mul_div_assoc]
  | powerZero _ => exact absurd rfl hop
  | powerOne _ => exact absurd rfl hop
  | powerNumbers _ => exact absurd rfl hop
  | powerProduct _ _ _ _ _ _ => exact absurd rfl hop
  | powerQuotient _ _ _ _ _ _ => exact absurd rfl hop
  | powerPower _ _ _ _ => exact absurd rfl hop

end Reads

end Argand
