import Argand.Expr.Simplification
import Argand.Proofs.Computation

/-!
# Simplification as rewriting

The rules of simplification are a system of identities. `Rewrites A op l r e` lists them: the
node of `op` with operands `l` and `r` becomes `e` by one identity, whose premises are smaller
rewritings. What all rules keep is then proved by one induction over the identities, without
opening the rules again.

The one identity that changes nothing is `Rewrites.kept`. Its nodes are inert (`Inert`): the rule
of their operator leaves them alone, no leaf in them stands beside a sum, no factor is zero.

## Main definitions

* `Argand.Inert`: nodes to which no identity applies.
* `Argand.Rewrites`: the identities.

## Main results

* `Argand.rewrites_of_rule`: every success of a rule is a rewriting.
* `Argand.atom_cases`, `Argand.rewrites_of_simplify`: what simplification makes of leaves and nodes.
-/

namespace Argand

open Simplify

variable {α : Type}

/-! ### Kinds of trees -/

/-- A leaf. -/
def Expr.IsAtom : Expr α → Prop
  | .atom _ => True
  | .node .. => False

/-- A number. -/
def Expr.IsNumber (e : Expr α) : Prop :=
  ∃ n, e = .number n

/-- A sum or a difference. -/
def Expr.IsSum : Expr α → Prop
  | .atom _ => False
  | .node _ op _ => op.sign?.isSome

instance : (e : Expr α) → Decidable e.IsSum
  | .atom _ => inferInstanceAs (Decidable False)
  | .node _ op _ => inferInstanceAs (Decidable (op.sign?.isSome = true))

/-- A multiple of a variable. -/
def Expr.IsScaled : Expr α → Prop
  | .atom (.scaled _ _) => True
  | _ => False

/-- A leaf that **takes up** a number in front of it: a number or a multiple of a variable. -/
def Atom.TakesUp : Atom α → Prop
  | .number _ | .scaled .. => True
  | .constant _ | .list _ | .stray _ => False

@[simp] theorem Sign.sign?_operator (s : Sign) : s.operator.sign? = some s := by
  cases s <;> rfl

/-- The operators of sums are those with a sign. -/
theorem Operator.eq_operator_of_sign? {op : Operator} {s : Sign} (h : op.sign? = some s) :
    op = s.operator := by
  cases op <;> simp only [Operator.sign?, Option.some.injEq, reduceCtorEq] at h <;> subst h <;>
    rfl

/-- A sum is no power. -/
theorem Operator.ne_power_of_sign? {op : Operator} {s : Sign} (h : op.sign? = some s) :
    op ≠ .power := by
  rintro rfl
  cases h

/-- The rule of a sum is `combine`. -/
theorem rule_of_sign? (A : Arithmetic α) {op : Operator} {s : Sign} (h : op.sign? = some s)
    (l r : Expr α) : rule A op l r = combine A s l r := by
  obtain rfl := Operator.eq_operator_of_sign? h
  cases s <;> rfl

/-- What a number **in front of a formula** makes of it: zero, the formula alone, or their
product. -/
theorem scaledBy_cases {A : Arithmetic α} {c : α} {e e' : Expr α} (h : scaledBy A c e = .ok e') :
    (A.equals c A.zero = .ok true ∧ e' = .number A.zero) ∨
      (A.equals c A.one = .ok true ∧ e' = e) ∨
      A.equals c A.zero = .ok false ∧ A.equals c A.one = .ok false ∧
        e' = .node (.number c) .multiply e := by
  obtain hzero | ⟨hzero, h⟩ := test_eq_ok.mp h
  · exact .inl hzero
  obtain hone | ⟨hone, h⟩ := test_eq_ok.mp h
  · exact .inr (.inl hone)
  exact .inr (.inr ⟨hzero, hone, (pure_eq_ok.mp h).symm⟩)

/-! ### The identities -/

variable (A : Arithmetic α)

/-- A node is **inert** if no identity applies to it. -/
structure Inert (op : Operator) (l r : Expr α) : Prop where
  fixed : rule A op l r = .ok (.node l op r)
  not_atom_mul_sum : op = .multiply → ¬ (l.IsAtom ∧ r.IsSum)
  not_sum_mul_atom : op = .multiply → ¬ (l.IsSum ∧ r.IsAtom)
  left_ne_zero : op = .multiply → ∀ n, l = .number n → A.equals n A.zero = .ok false
  right_ne_zero : op = .multiply → ∀ n, r = .number n → A.equals n A.zero = .ok false
  not_sum_div_atom : op = .divide → ¬ (l.IsSum ∧ r.IsAtom)

/-- A power that its rule leaves alone: the exponent is neither zero nor one, and the base is
neither a number beside another nor a node into which powers go. -/
structure InertPower (l r : Expr α) : Prop where
  ne_zero : isNumberExpr A A.zero r = .ok false
  ne_one : isNumberExpr A A.one r = .ok false
  not_numbers : l.IsNumber → ¬ r.IsNumber
  not_node : ∀ a op b, l = .node a op b → op ∉ [.multiply, .divide, .power]

/-- The **identities** of simplification. -/
inductive Rewrites : Operator → Expr α → Expr α → Expr α → Prop
  | kept {op : Operator} {l r : Expr α} : Inert A op l r → Rewrites op l r (.node l op r)
  | addNumbers {op : Operator} {s : Sign} {a b c : α} : op.sign? = some s →
      Simplify.apply A s a b = .ok c → Rewrites op (.number a) (.number b) (.number c)
  | zeroAdd {n : α} {r : Expr α} : A.equals n A.zero = .ok true →
      Rewrites .add (.number n) r r
  | addZero {op : Operator} {s : Sign} {l : Expr α} {m : α} : op.sign? = some s →
      A.equals m A.zero = .ok true → Rewrites op l (.number m) l
  /-- `n ± (x ± b)` is `(n ± x) ± b`. -/
  | foldOuterFirst {op op' : Operator} {s s' : Sign} {n x x' t : α} {b e : Expr α} :
      op.sign? = some s → op'.sign? = some s' → signed A s x = .ok x' →
      A.add n x' = .ok t → Rewrites (s.times s').operator (.number t) b e →
      Rewrites op (.number n) (.node (.number x) op' b) e
  /-- `n ± (a ± y)` is `(n ± y) ± a`. -/
  | foldOuterSecond {op op' : Operator} {s s' : Sign} {n y y' t : α} {a e : Expr α} :
      op.sign? = some s → op'.sign? = some s' → signed A (s.times s') y = .ok y' →
      A.add n y' = .ok t → Rewrites s.operator (.number t) a e →
      Rewrites op (.number n) (.node a op' (.number y)) e
  /-- `(x ± b) ± m` is `(x ± m) ± b`. -/
  | foldInnerFirst {op op' : Operator} {s s' : Sign} {x m m' t : α} {b e : Expr α} :
      op.sign? = some s → op'.sign? = some s' → signed A s m = .ok m' →
      A.add x m' = .ok t → Rewrites s'.operator (.number t) b e →
      Rewrites op (.node (.number x) op' b) (.number m) e
  /-- `(a ± y) ± m` is `(±y ± m) + a`. -/
  | foldInnerSecond {op op' : Operator} {s s' : Sign} {y y' m m' t : α} {a e : Expr α} :
      op.sign? = some s → op'.sign? = some s' → signed A s' y = .ok y' →
      signed A s m = .ok m' → A.add y' m' = .ok t → Rewrites .add (.number t) a e →
      Rewrites op (.node a op' (.number y)) (.number m) e
  | divideNumbers {a b c : α} : A.divide a b = .ok c →
      Rewrites .divide (.number a) (.number b) (.number c)
  | divideOne {l : Expr α} {m : α} : A.equals m A.one = .ok true →
      Rewrites .divide l (.number m) l
  | divideSame {v : String} {a b c : α} : A.divide a b = .ok c →
      Rewrites .divide (.scaled v a) (.scaled v b) (.number c)
  | divideScaled {v w : String} {a b c : α} {e : Expr α} : v ≠ w → A.divide a b = .ok c →
      scaledBy A c (.node (plain A v) .divide (plain A w)) = .ok e →
      Rewrites .divide (.scaled v a) (.scaled w b) e
  | divideScaledNumber {v : String} {a b c : α} : A.divide a b = .ok c →
      Rewrites .divide (.scaled v a) (.number b) (.scaled v c)
  /-- `(a ± b) / y` is `a / y ± b / y`. -/
  | divideSum {op : Operator} {s : Sign} {a b a' b' e : Expr α} {y : Atom α} :
      op.sign? = some s → Rewrites .divide a (.atom y) a' → Rewrites .divide b (.atom y) b' →
      Rewrites op a' b' e → Rewrites .divide (.node a op b) (.atom y) e
  | multiplyNumbers {a b c : α} : A.multiply a b = .ok c →
      Rewrites .multiply (.number a) (.number b) (.number c)
  | oneMultiply {n : α} {r : Expr α} : A.equals n A.one = .ok true →
      Rewrites .multiply (.number n) r r
  | multiplyOne {l : Expr α} {m : α} : A.equals m A.one = .ok true →
      Rewrites .multiply l (.number m) l
  | zeroMultiply {n : α} {r : Expr α} : A.equals n A.one = .ok false →
      A.equals n A.zero = .ok true → Rewrites .multiply (.number n) r (.number A.zero)
  | multiplyZero {l : Expr α} {m : α} : A.equals m A.one = .ok false →
      A.equals m A.zero = .ok true → Rewrites .multiply l (.number m) (.number A.zero)
  | multiplySame {v : String} {a b c : α} {e : Expr α} : A.multiply a b = .ok c →
      scaledBy A c (.node (plain A v) .power (.number A.two)) = .ok e →
      Rewrites .multiply (.scaled v a) (.scaled v b) e
  | multiplyScaled {v w : String} {a b c : α} {e : Expr α} : v ≠ w →
      A.multiply a b = .ok c →
      scaledBy A c (.node (plain A v) .multiply (plain A w)) = .ok e →
      Rewrites .multiply (.scaled v a) (.scaled w b) e
  | multiplyScaledNumber {v : String} {a b c : α} : A.equals b A.zero = .ok false →
      A.multiply a b = .ok c → Rewrites .multiply (.scaled v a) (.number b) (.scaled v c)
  | multiplyNumberScaled {v : String} {a b c : α} : A.equals a A.zero = .ok false →
      A.multiply a b = .ok c → Rewrites .multiply (.number a) (.scaled v b) (.scaled v c)
  /-- `x * (a ± b)` is `x * a ± x * b`. -/
  | multiplySum {op : Operator} {s : Sign} {x : Atom α} {a b a' b' e : Expr α} :
      op.sign? = some s → Rewrites .multiply (.atom x) a a' →
      Rewrites .multiply (.atom x) b b' → Rewrites op a' b' e →
      Rewrites .multiply (.atom x) (.node a op b) e
  /-- `(a ± b) * x` is `a * x ± b * x`. -/
  | sumMultiply {op : Operator} {s : Sign} {x : Atom α} {a b a' b' e : Expr α} :
      op.sign? = some s → Rewrites .multiply a (.atom x) a' →
      Rewrites .multiply b (.atom x) b' → Rewrites op a' b' e →
      Rewrites .multiply (.node a op b) (.atom x) e
  /-- A number comes to the front of a product. -/
  | multiplyNumber {op : Operator} {n : α} {a b e : Expr α} :
      Rewrites .multiply (.number n) (.node a op b) e →
      Rewrites .multiply (.node a op b) (.number n) e
  /-- `n * (x * b)` is `(n * x) * b`. -/
  | absorbFirst {n : α} {x y : Atom α} {b e : Expr α} : x.TakesUp →
      Rewrites .multiply (.number n) (.atom x) (.atom y) → Rewrites .multiply (.atom y) b e →
      Rewrites .multiply (.number n) (.node (.atom x) .multiply b) e
  /-- `n * (a * x)` is `a * (n * x)`. -/
  | absorbSecond {n : α} {x y : Atom α} {a e : Expr α} : x.TakesUp →
      Rewrites .multiply (.number n) (.atom x) (.atom y) → Rewrites .multiply a (.atom y) e →
      Rewrites .multiply (.number n) (.node a .multiply (.atom x)) e
  /-- `n * (x / b)` is `(n * x) / b`. -/
  | absorbDividend {n : α} {x y : Atom α} {b e : Expr α} : x.TakesUp →
      Rewrites .multiply (.number n) (.atom x) (.atom y) → Rewrites .divide (.atom y) b e →
      Rewrites .multiply (.number n) (.node (.atom x) .divide b) e
  | powerZero {l : Expr α} {m : α} : A.equals m A.zero = .ok true →
      Rewrites .power l (.number m) (.number A.one)
  | powerOne {l : Expr α} {m : α} : A.equals m A.one = .ok true →
      Rewrites .power l (.number m) l
  | powerNumbers {a b c : α} : A.power a b = .ok c →
      Rewrites .power (.number a) (.number b) (.number c)
  /-- `(a * b) ^ r` is `a ^ r * b ^ r`. -/
  | powerProduct {a b r a' b' e : Expr α} : Rewrites .power a r a' → Rewrites .power b r b' →
      Rewrites .multiply a' b' e → Rewrites .power (.node a .multiply b) r e
  /-- `(a / b) ^ r` is `a ^ r / b ^ r`. -/
  | powerQuotient {a b r a' b' e : Expr α} : Rewrites .power a r a' → Rewrites .power b r b' →
      Rewrites .divide a' b' e → Rewrites .power (.node a .divide b) r e
  /-- `(a ^ b) ^ r` is `a ^ (b * r)`. -/
  | powerPower {a b r p e : Expr α} : Rewrites .multiply b r p → Rewrites .power a p e →
      Rewrites .power (.node a .power b) r e

variable {A}

/-! ### Tests for numbers -/

/-- A leaf that passes the test for `b` is a number equal to `b`. -/
theorem isNumber_eq_true {b : α} {x : Atom α} (h : isNumber A b x = .ok true) :
    ∃ n, x = .number n ∧ A.equals n b = .ok true := by
  cases x with
  | number n => exact ⟨n, rfl, h⟩
  | _ => cases h

/-- A number that fails the test for `b` is not equal to `b`. -/
theorem isNumber_eq_false {b : α} {x : Atom α} (h : isNumber A b x = .ok false) (n : α)
    (hx : Expr.atom x = .number n) : A.equals n b = .ok false := by
  cases hx
  exact h

/-- A formula that passes the test for `b` is a number equal to `b`. -/
theorem isNumberExpr_eq_true {b : α} {e : Expr α} (h : isNumberExpr A b e = .ok true) :
    ∃ n, e = .number n ∧ A.equals n b = .ok true := by
  cases e with
  | atom x =>
      obtain ⟨n, rfl, hn⟩ := isNumber_eq_true h
      exact ⟨n, rfl, hn⟩
  | node => cases h

/-- A number that can be left out is a zero before a plus sign. -/
theorem isNeutral_eq_true {s : Sign} {n : α} (h : isNeutral A s n = .ok true) :
    s = .plus ∧ A.equals n A.zero = .ok true := by
  cases s with
  | plus => exact ⟨rfl, h⟩
  | minus => cases h

/-! ### Sums -/

/-- A sum is inert if `combine` leaves it alone. -/
theorem Inert.of_combine {op : Operator} {s : Sign} (hs : op.sign? = some s) {l r : Expr α}
    (h : combine A s l r = .ok (.node l op r)) : Inert A op l r := by
  have hne : op ≠ .multiply ∧ op ≠ .divide := by
    constructor <;> rintro rfl <;> simp [Operator.sign?] at hs
  exact ⟨by rw [rule_of_sign? A hs, h], fun h => absurd h hne.1, fun h => absurd h hne.1,
    fun h => absurd h hne.1, fun h => absurd h hne.1, fun h => absurd h hne.2⟩

/-- A number in a sum is left out, folded or kept. -/
theorem rewrites_of_combineNumber {s : Sign} {n : α} {r e : Expr α}
    (h : combineNumber A s n r = .ok e) : Rewrites A s.operator (.number n) r e := by
  have hs := Sign.sign?_operator s
  induction r generalizing s n e with
  | atom a =>
      have hfull := h
      cases a with
      | number m =>
          simp only [combineNumber, bind_eq_ok, pure_eq_ok] at h
          obtain ⟨c, hc, rfl⟩ := h
          exact .addNumbers hs hc
      | _ =>
          obtain ⟨ht, rfl⟩ | ⟨ht, h⟩ := test_eq_ok.mp h
          · obtain ⟨rfl, hn⟩ := isNeutral_eq_true ht
            exact .zeroAdd hn
          · obtain rfl := pure_eq_ok.mp h
            exact .kept (.of_combine hs hfull)
  | node a op b iha ihb =>
      have hfull := h
      unfold combineNumber at h
      obtain ⟨ht, rfl⟩ | ⟨ht, h⟩ := test_eq_ok.mp h
      · obtain ⟨rfl, hn⟩ := isNeutral_eq_true ht
        exact .zeroAdd hn
      · split at h
        · simp only [bind_eq_ok] at h
          obtain ⟨x', hx, t, ht, h⟩ := h
          exact .foldOuterFirst hs ‹_› hx ht (ihb h (Sign.sign?_operator _))
        · simp only [bind_eq_ok] at h
          obtain ⟨y', hy, t, ht, h⟩ := h
          exact .foldOuterSecond hs ‹_› hy ht (iha h hs)
        · obtain rfl := pure_eq_ok.mp h
          exact .kept (.of_combine hs hfull)

/-- **Sums and differences** are rewritten. -/
theorem rewrites_of_combine {op : Operator} {s : Sign} (hs : op.sign? = some s)
    {l r e : Expr α} (h : combine A s l r = .ok e) : Rewrites A op l r e := by
  have hfull := h
  unfold combine at h
  split at h
  · obtain rfl := Operator.eq_operator_of_sign? hs
    exact rewrites_of_combineNumber h
  · obtain ⟨ht, rfl⟩ | ⟨ht, h⟩ := test_eq_ok.mp h
    · exact .addZero hs ht
    · obtain rfl := Operator.eq_operator_of_sign? hs
      obtain rfl := pure_eq_ok.mp h
      exact .kept (.of_combine hs hfull)
  · rename_i a op' b m
    obtain ⟨ht, rfl⟩ | ⟨ht, h⟩ := test_eq_ok.mp h
    · exact .addZero hs ht
    · split at h
      · rename_i s' x _ hop _ _ _
        simp only [bind_eq_ok] at h
        obtain ⟨m', hm, t, ht, h⟩ := h
        exact .foldInnerFirst hs ‹_› hm ht (rewrites_of_combineNumber h)
      · rename_i s' _ y _ hop _ _ _
        simp only [bind_eq_ok] at h
        obtain ⟨y', hy, m', hm, t, ht, h⟩ := h
        exact .foldInnerSecond hs ‹_› hy hm ht (rewrites_of_combineNumber h)
      · obtain rfl := Operator.eq_operator_of_sign? hs
        obtain rfl := pure_eq_ok.mp h
        exact .kept (.of_combine hs hfull)
  · obtain rfl := Operator.eq_operator_of_sign? hs
    obtain rfl := Except.ok.inj h
    exact .kept (.of_combine hs hfull)

/-! ### Quotients -/

/-- A quotient is inert if its rule leaves it alone and it is no sum over a leaf. -/
theorem Inert.of_divide {l r : Expr α} (h : divide A l r = .ok (.node l .divide r))
    (hsum : ¬ (l.IsSum ∧ r.IsAtom)) : Inert A .divide l r :=
  ⟨h, nofun, nofun, nofun, nofun, fun _ => hsum⟩

/-- The quotient of two leaves is rewritten. -/
theorem rewrites_of_divideAtoms {x y : Atom α} {e : Expr α} (h : divideAtoms A x y = .ok e) :
    Rewrites A .divide (.atom x) (.atom y) e := by
  have hfull := h
  have kept : divideAtoms A x y = .ok (.node (.atom x) .divide (.atom y)) →
      Rewrites A .divide (.atom x) (.atom y) (.node (.atom x) .divide (.atom y)) :=
    fun h => .kept (.of_divide h fun h => h.1)
  unfold divideAtoms at h
  split at h
  · simp only [bind_eq_ok, pure_eq_ok] at h
    obtain ⟨c, hc, rfl⟩ := h
    exact .divideNumbers hc
  · obtain ⟨ht, rfl⟩ | ⟨ht, h⟩ := test_eq_ok.mp h
    · obtain ⟨m, rfl, hm⟩ := isNumber_eq_true ht
      exact .divideOne hm
    · split at h
      · obtain ⟨c, hc, h⟩ := bind_eq_ok.mp h
        split at h
        · rename_i hvw
          obtain rfl := pure_eq_ok.mp h
          subst hvw
          exact .divideSame hc
        · exact .divideScaled ‹_› hc h
      · simp only [bind_eq_ok, pure_eq_ok] at h
        obtain ⟨c, hc, rfl⟩ := h
        exact .divideScaledNumber hc
      · obtain rfl := pure_eq_ok.mp h
        exact kept hfull

/-- The quotient of a formula by a leaf is rewritten. -/
theorem rewrites_of_divideByAtom {y : Atom α} {l e : Expr α} (h : divideByAtom A y l = .ok e) :
    Rewrites A .divide l (.atom y) e := by
  induction l generalizing e with
  | atom x => exact rewrites_of_divideAtoms h
  | node a op b iha ihb =>
      have hfull := h
      rw [divideByAtom] at h
      obtain ⟨ht, rfl⟩ | ⟨ht, h⟩ := test_eq_ok.mp h
      · obtain ⟨m, rfl, hm⟩ := isNumber_eq_true ht
        exact .divideOne hm
      · cases hop : op.sign? with
        | some s =>
            simp only [hop, bind_eq_ok] at h
            obtain ⟨a', ha, b', hb, h⟩ := h
            exact .divideSum hop (iha ha) (ihb hb) (rewrites_of_combine hop h)
        | none =>
            simp only [hop] at h
            obtain rfl := pure_eq_ok.mp h
            exact .kept (.of_divide hfull fun hs => by simp [Expr.IsSum, hop] at hs)

/-- **Quotients** are rewritten. -/
theorem rewrites_of_divide {l r e : Expr α} (h : divide A l r = .ok e) :
    Rewrites A .divide l r e := by
  cases r with
  | atom y => exact rewrites_of_divideByAtom h
  | node a op b =>
      obtain rfl := Except.ok.inj h
      exact .kept (.of_divide rfl fun hs => hs.2)

/-! ### Products -/

/-- A product is inert if its rule leaves it alone, it is no leaf beside a sum, and no factor is
zero. -/
theorem Inert.of_multiply {l r : Expr α} (h : multiply A l r = .ok (.node l .multiply r))
    (hr : ¬ (l.IsAtom ∧ r.IsSum)) (hl : ¬ (l.IsSum ∧ r.IsAtom))
    (hl0 : ∀ n, l = .number n → A.equals n A.zero = .ok false)
    (hr0 : ∀ n, r = .number n → A.equals n A.zero = .ok false) : Inert A .multiply l r :=
  ⟨h, fun _ => hr, fun _ => hl, fun _ => hl0, fun _ => hr0, nofun⟩

/-- The product of two leaves is rewritten. -/
theorem rewrites_of_multiplyAtoms {x y : Atom α} {e : Expr α}
    (h : multiplyAtoms A x y = .ok e) : Rewrites A .multiply (.atom x) (.atom y) e := by
  have hfull := h
  unfold multiplyAtoms at h
  split at h
  · simp only [bind_eq_ok, pure_eq_ok] at h
    obtain ⟨c, hc, rfl⟩ := h
    exact .multiplyNumbers hc
  · obtain ⟨hx1, rfl⟩ | ⟨hx1, h⟩ := test_eq_ok.mp h
    · obtain ⟨n, rfl, hn⟩ := isNumber_eq_true hx1
      exact .oneMultiply hn
    obtain ⟨hy1, rfl⟩ | ⟨hy1, h⟩ := test_eq_ok.mp h
    · obtain ⟨m, rfl, hm⟩ := isNumber_eq_true hy1
      exact .multiplyOne hm
    obtain ⟨hx0, rfl⟩ | ⟨hx0, h⟩ := test_eq_ok.mp h
    · obtain ⟨n, rfl, hn⟩ := isNumber_eq_true hx0
      exact .zeroMultiply (isNumber_eq_false hx1 n rfl) hn
    obtain ⟨hy0, rfl⟩ | ⟨hy0, h⟩ := test_eq_ok.mp h
    · obtain ⟨m, rfl, hm⟩ := isNumber_eq_true hy0
      exact .multiplyZero (isNumber_eq_false hy1 m rfl) hm
    split at h
    · obtain ⟨c, hc, h⟩ := bind_eq_ok.mp h
      split at h
      · rename_i hvw
        subst hvw
        exact .multiplySame hc ‹_›
      · exact .multiplyScaled ‹_› hc h
    · simp only [bind_eq_ok, pure_eq_ok] at h
      obtain ⟨c, hc, rfl⟩ := h
      exact .multiplyScaledNumber hy0 hc
    · simp only [bind_eq_ok, pure_eq_ok] at h
      obtain ⟨c, hc, rfl⟩ := h
      exact .multiplyNumberScaled hx0 hc
    · obtain rfl := pure_eq_ok.mp h
      exact .kept (.of_multiply hfull (fun hs => hs.2) (fun hs => hs.1)
        (isNumber_eq_false hx0) (isNumber_eq_false hy0))

/-- A leaf takes up a number as a product of the two does. -/
theorem rewrites_of_absorb {n : α} {a : Expr α} {y : Atom α}
    (h : absorb A n a = .ok (some y)) :
    ∃ x, a = .atom x ∧ x.TakesUp ∧
      Rewrites A .multiply (.number n) (.atom x) (.atom y) := by
  unfold absorb at h
  split at h
  · simp only [bind_eq_ok, pure_eq_ok, Option.some.injEq] at h
    obtain ⟨c, hc, rfl⟩ := h
    exact ⟨_, rfl, trivial, .multiplyNumbers hc⟩
  · obtain ⟨h1, hy⟩ | ⟨h1, h⟩ := test_eq_ok.mp h
    · obtain rfl := Option.some.inj hy
      exact ⟨_, rfl, trivial, .oneMultiply h1⟩
    obtain ⟨h0, hy⟩ | ⟨h0, h⟩ := test_eq_ok.mp h
    · obtain rfl := Option.some.inj hy
      exact ⟨_, rfl, trivial, .zeroMultiply h1 h0⟩
    simp only [bind_eq_ok, pure_eq_ok, Option.some.injEq] at h
    obtain ⟨c, hc, rfl⟩ := h
    exact ⟨_, rfl, trivial, .multiplyNumberScaled h0 hc⟩
  · cases h

/-- Beside an operator node a number multiplies from either side in the same way. -/
theorem multiplyAtom_number (side : Side) (n : α) (a b : Expr α) (op : Operator) :
    multiplyAtom A side (.number n) (.node a op b) =
      multiplyAtom A .left (.number n) (.node a op b) := by
  unfold multiplyAtom
  cases op.sign? <;> rfl

/-- The product of a leaf and a formula in the order given by the side of the leaf. -/
def RewritesBeside (A : Arithmetic α) (side : Side) (x : Atom α) (r e : Expr α) : Prop :=
  match side with
  | .left => Rewrites A .multiply (.atom x) r e
  | .right => Rewrites A .multiply r (.atom x) e

/-- The product of a leaf and a formula is rewritten. -/
theorem rewrites_of_multiplyAtom {side : Side} {x : Atom α} {r e : Expr α}
    (h : multiplyAtom A side x r = .ok e) : RewritesBeside A side x r e := by
  induction r generalizing side x e with
  | atom y =>
      cases side with
      | left => exact rewrites_of_multiplyAtoms h
      | right => exact rewrites_of_multiplyAtoms h
  | node a op b iha ihb =>
      have hfull := h
      simp only [multiplyAtom] at h
      rw [test_eq_ok] at h
      obtain ⟨h1, rfl⟩ | ⟨h1, h⟩ := h
      · obtain ⟨n, rfl, hn⟩ := isNumber_eq_true h1
        cases side with
        | left => exact .oneMultiply hn
        | right => exact .multiplyOne hn
      rw [test_eq_ok] at h
      obtain ⟨h0, rfl⟩ | ⟨h0, h⟩ := h
      · obtain ⟨n, rfl, hn⟩ := isNumber_eq_true h0
        cases side with
        | left => exact .zeroMultiply (isNumber_eq_false h1 n rfl) hn
        | right => exact .multiplyZero (isNumber_eq_false h1 n rfl) hn
      -- a number multiplies from the left, whichever its side
      have front {n : α} (hx : x = .number n)
          (hr : Rewrites A .multiply (.number n) (.node a op b) e) :
          RewritesBeside A side x (.node a op b) e := by
        subst hx
        cases side with
        | left => exact hr
        | right => exact .multiplyNumber hr
      have stuck {n : α} (hx : x = .number n) (hop : op.sign? = none)
          (he : .node (.number n) .multiply (.node a op b) = e) :
          RewritesBeside A side x (.node a op b) e := by
        subst hx
        rw [multiplyAtom_number, ← he] at hfull
        refine front rfl (he ▸ .kept (.of_multiply hfull ?_ (fun hs => hs.1)
          (isNumber_eq_false h0) nofun))
        exact fun hs => by simp [Expr.IsSum, hop] at hs
      split at h
      · simp only [bind_eq_ok] at h
        obtain ⟨a', ha, b', hb, h⟩ := h
        exact front rfl (.multiplySum ‹_› (iha ha) (ihb hb) (rewrites_of_combine ‹_› h))
      · rename_i n hop
        split at h
        · obtain ⟨t, ht, h⟩ := bind_eq_ok.mp h
          cases t with
          | some leaf =>
              obtain ⟨z, hz, hx, hn⟩ := rewrites_of_absorb ht
              exact front rfl (hz ▸ .absorbFirst hx hn (ihb h))
          | none =>
              obtain ⟨t, ht, h⟩ := bind_eq_ok.mp h
              cases t with
              | some leaf =>
                  obtain ⟨z, hz, hx, hn⟩ := rewrites_of_absorb ht
                  exact front rfl (hz ▸ .absorbSecond hx hn (iha h))
              | none => exact stuck rfl hop (pure_eq_ok.mp h)
        · obtain ⟨t, ht, h⟩ := bind_eq_ok.mp h
          cases t with
          | some leaf =>
              obtain ⟨z, hz, hx, hn⟩ := rewrites_of_absorb ht
              exact front rfl (hz ▸ .absorbDividend hx hn (rewrites_of_divide h))
          | none => exact stuck rfl hop (pure_eq_ok.mp h)
        · exact stuck rfl hop (pure_eq_ok.mp h)
      · simp only [bind_eq_ok] at h
        obtain ⟨a', ha, b', hb, h⟩ := h
        cases side with
        | left => exact .multiplySum ‹_› (iha ha) (ihb hb) (rewrites_of_combine ‹_› h)
        | right => exact .sumMultiply ‹_› (iha ha) (ihb hb) (rewrites_of_combine ‹_› h)
      · rename_i hx hop
        cases side with
        | left =>
            obtain rfl := pure_eq_ok.mp h
            exact .kept (.of_multiply hfull (fun hs => by simp [Expr.IsSum, hop] at hs)
              (fun hs => hs.1) (isNumber_eq_false h0) nofun)
        | right =>
            obtain rfl := pure_eq_ok.mp h
            exact .kept (.of_multiply hfull (fun hs => hs.1)
              (fun hs => by simp [Expr.IsSum, hop] at hs) nofun (isNumber_eq_false h0))

/-- **Products** are rewritten. -/
theorem rewrites_of_multiply {l r e : Expr α} (h : multiply A l r = .ok e) :
    Rewrites A .multiply l r e := by
  have hfull := h
  unfold multiply at h
  split at h
  · exact rewrites_of_multiplyAtom h
  · exact rewrites_of_multiplyAtom h
  · rename_i hl hr
    obtain rfl := Except.ok.inj h
    refine .kept (.of_multiply hfull ?_ ?_ (fun n hn => (hl _ hn).elim)
      (fun n hn => (hr _ hn).elim))
    · rintro ⟨hl', -⟩
      cases l with
      | atom x => exact hl x rfl
      | node => exact hl'
    · rintro ⟨-, hr'⟩
      cases r with
      | atom x => exact hr x rfl
      | node => exact hr'

/-! ### Powers and rules -/

/-- A node whose operator has no identities for its kind of operands is inert. -/
theorem Inert.of_rule {op : Operator} {l r : Expr α} (h : rule A op l r = .ok (.node l op r))
    (hm : op ≠ .multiply) (hd : op ≠ .divide) : Inert A op l r :=
  ⟨h, fun h => absurd h hm, fun h => absurd h hm, fun h => absurd h hm, fun h => absurd h hm,
    fun h => absurd h hd⟩

/-- **How the rule of powers succeeds**: it computes, raises the parts of a product or quotient,
multiplies exponents or leaves the power alone. -/
inductive Raises (A : Arithmetic α) : Expr α → Expr α → Expr α → Prop
  | zero {l r : Expr α} : isNumberExpr A A.zero r = .ok true → Raises A l r (.number A.one)
  | one {l r : Expr α} : isNumberExpr A A.one r = .ok true → Raises A l r l
  | numbers {a b c : α} : A.power a b = .ok c → Raises A (.number a) (.number b) (.number c)
  | product {a b r a' b' e : Expr α} : Raises A a r a' → Raises A b r b' →
      multiply A a' b' = .ok e → Raises A (.node a .multiply b) r e
  | quotient {a b r a' b' e : Expr α} : Raises A a r a' → Raises A b r b' →
      divide A a' b' = .ok e → Raises A (.node a .divide b) r e
  | power {a b r p e : Expr α} : multiply A b r = .ok p → Raises A a p e →
      Raises A (.node a .power b) r e
  | kept {l r : Expr α} : raise A l r = .ok (.node l .power r) → InertPower A l r →
      Raises A l r (.node l .power r)

/-- **Every success of the rule of powers** is one of these. -/
theorem raises_of_raise {l r e : Expr α} (h : raise A l r = .ok e) : Raises A l r e := by
  have hraise := h
  unfold raise at h
  obtain ⟨hzero, rfl⟩ | ⟨hzero, h⟩ := test_eq_ok.mp h
  · exact .zero hzero
  obtain ⟨hone, rfl⟩ | ⟨hone, h⟩ := test_eq_ok.mp h
  · exact .one hone
  split at h
  · obtain ⟨c, hc, h⟩ := bind_eq_ok.mp h
    obtain rfl := pure_eq_ok.mp h
    exact .numbers hc
  · obtain ⟨a', ha, h⟩ := bind_eq_ok.mp h
    obtain ⟨b', hb, h⟩ := bind_eq_ok.mp h
    exact .product (raises_of_raise ha) (raises_of_raise hb) h
  · obtain ⟨a', ha, h⟩ := bind_eq_ok.mp h
    obtain ⟨b', hb, h⟩ := bind_eq_ok.mp h
    exact .quotient (raises_of_raise ha) (raises_of_raise hb) h
  · obtain ⟨p, hp, h⟩ := bind_eq_ok.mp h
    exact .power hp (raises_of_raise h)
  · rename_i hproduct hquotient hpower hnumbers
    obtain rfl := pure_eq_ok.mp h
    refine .kept hraise ⟨hzero, hone, ?_, ?_⟩
    · rintro ⟨a, rfl⟩ ⟨b, rfl⟩
      exact hnumbers a b rfl rfl
    · rintro a op b rfl
      simp only [List.mem_cons, List.not_mem_nil, or_false, not_or]
      exact ⟨fun h => hproduct a b (h ▸ rfl), fun h => hquotient a b (h ▸ rfl),
        fun h => hpower a b (h ▸ rfl)⟩

/-- **Powers** are rewritten. -/
theorem rewrites_of_raise {l r e : Expr α} (h : raise A l r = .ok e) :
    Rewrites A .power l r e := by
  replace h := raises_of_raise h
  induction h with
  | zero h =>
      obtain ⟨m, rfl, hm⟩ := isNumberExpr_eq_true h
      exact .powerZero hm
  | one h =>
      obtain ⟨m, rfl, hm⟩ := isNumberExpr_eq_true h
      exact .powerOne hm
  | numbers h => exact .powerNumbers h
  | product _ _ h iha ihb => exact .powerProduct iha ihb (rewrites_of_multiply h)
  | quotient _ _ h iha ihb => exact .powerQuotient iha ihb (rewrites_of_divide h)
  | power h _ ih => exact .powerPower (rewrites_of_multiply h) ih
  | kept h _ => exact .kept (.of_rule h nofun nofun)

/-- **Every success of a rule** is a rewriting. -/
theorem rewrites_of_rule {op : Operator} {l r e : Expr α} (h : rule A op l r = .ok e) :
    Rewrites A op l r e := by
  cases op with
  | add => exact rewrites_of_combine rfl h
  | subtract => exact rewrites_of_combine rfl h
  | multiply => exact rewrites_of_multiply h
  | divide => exact rewrites_of_divide h
  | power => exact rewrites_of_raise h
  | _ =>
      obtain rfl := Except.ok.inj h
      exact .kept (.of_rule rfl nofun nofun)

/-! ### Simplified formulas -/

/-- **A simplified leaf** is the leaf itself, or the multiple of a value if the leaf is a variable
that the scope binds. -/
theorem atom_cases {scope : Scope α} {x : Atom α} {e : Expr α}
    (h : Simplify.atom A scope x = .ok e) :
    (e = .atom x ∧ ∀ y ∈ (Expr.atom x).names, scope.value? y = none) ∨
      ∃ y c v w, x = .scaled y c ∧ scope.value? y = some v ∧ v.mapM (A.multiply c) = .ok w ∧
        e = Expr.ofValue w := by
  cases x with
  | scaled y c =>
      simp only [Simplify.atom] at h
      split at h
      · rename_i hnone
        obtain rfl := Except.ok.inj h
        exact .inl ⟨rfl, List.forall_mem_singleton.mpr hnone⟩
      · rename_i v hv
        obtain ⟨w, hw, h⟩ := bind_eq_ok.mp h
        exact .inr ⟨y, c, v, w, rfl, hv, hw, (pure_eq_ok.mp h).symm⟩
  | _ => exact .inl ⟨(Except.ok.inj h).symm, nofun⟩

/-- **A simplified node** comes from an identity of its simplified operands. -/
theorem rewrites_of_simplify {scope : Scope α} {l r e : Expr α} {op : Operator}
    (h : (Expr.node l op r).simplify A scope = .ok e) :
    ∃ l' r', l.simplify A scope = .ok l' ∧ r.simplify A scope = .ok r' ∧
      Rewrites A op l' r' e := by
  obtain ⟨l', hl, h⟩ := bind_eq_ok.mp h
  obtain ⟨r', hr, h⟩ := bind_eq_ok.mp h
  exact ⟨l', r', hl, hr, rewrites_of_rule h⟩

end Argand
