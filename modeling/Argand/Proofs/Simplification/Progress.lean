import Argand.Proofs.Simplification.Leaves

/-!
# Simplification does not get stuck

The rules call the operations of an arithmetic on the numbers of their operands and on nothing
else. If the operations succeed on numbers with a property `ok` and keep it, so do the rules; a
divisor needs a property of its own. The numbers of a formula are `Sound` if they have these
properties.

Powers are left out: they call operations of which nothing is assumed here.

## Main definitions

* `Argand.Arithmetic.Handles`: operations that succeed up to some faults.
* `Argand.Expr.Sound`: formulas whose numbers they handle.

## Main results

* `Argand.yields_rule`: the rules succeed up to the same faults.
* `Argand.yields_simplify`: so does simplification.
-/

namespace Argand

open Simplify

variable {α : Type}

/-! ### Sound formulas -/

/-- Every number of a leaf has a property. -/
def Atom.All (p : α → Prop) : Atom α → Prop
  | .number a | .scaled _ a => p a
  | .list items => ∀ a ∈ items, p a
  | .constant _ | .stray _ => True

/-- A formula that can be divided by: as a number, or a multiple of a variable, it has a
property. -/
def Expr.Divides (divisor : α → Prop) : Expr α → Prop
  | .number a | .scaled _ a => divisor a
  | _ => True

/-- A formula is **sound** if its numbers are `ok` and its divisors divide. -/
def Expr.Sound (ok divisor : α → Prop) : Expr α → Prop
  | .atom x => x.All ok
  | .node l op r => l.Sound ok divisor ∧ r.Sound ok divisor ∧ (op = .divide → r.Divides divisor)

/-- Every formula can be divided by if nothing is asked of divisors. -/
theorem Expr.divides_true (e : Expr α) : e.Divides (fun _ => True) := by
  unfold Expr.Divides
  split <;> trivial

/-- Every formula is sound if nothing is asked of its numbers. -/
theorem Expr.sound_true (e : Expr α) : e.Sound (fun _ => True) (fun _ => True) := by
  induction e with
  | atom x => cases x <;> simp [Expr.Sound, Atom.All]
  | node l op r ihl ihr => exact ⟨ihl, ihr, fun _ => r.divides_true⟩

/-- The operations of an arithmetic **succeed** on numbers that are `ok`, up to the faults `P`,
and keep the property. -/
structure Arithmetic.Handles (A : Arithmetic α) (P : Fault → Prop) (ok divisor : α → Prop) :
    Prop where
  zero : ok A.zero
  one : ok A.one
  two : ok A.two
  divisor_one : divisor A.one
  add : ∀ {a b}, ok a → ok b → Yields P ok (A.add a b)
  subtract : ∀ {a b}, ok a → ok b → Yields P ok (A.subtract a b)
  multiply : ∀ {a b}, ok a → ok b → Yields P ok (A.multiply a b)
  divide : ∀ {a b}, ok a → ok b → divisor b → Yields P ok (A.divide a b)
  negate : ∀ {a}, ok a → Yields P ok (A.negate a)
  equals : ∀ {a b}, ok a → ok b → Yields P (fun _ => True) (A.equals a b)

section

variable {A : Arithmetic α} {P : Fault → Prop} {ok divisor : α → Prop}

/-- More faults may be expected than there are. -/
theorem Arithmetic.Handles.mono {P' : Fault → Prop} (hA : A.Handles P ok divisor)
    (h : ∀ f, P f → P' f) : A.Handles P' ok divisor where
  zero := hA.zero
  one := hA.one
  two := hA.two
  divisor_one := hA.divisor_one
  add ha hb := (hA.add ha hb).mono h fun _ => id
  subtract ha hb := (hA.subtract ha hb).mono h fun _ => id
  multiply ha hb := (hA.multiply ha hb).mono h fun _ => id
  divide ha hb hd := (hA.divide ha hb hd).mono h fun _ => id
  negate ha := (hA.negate ha).mono h fun _ => id
  equals ha hb := (hA.equals ha hb).mono h fun _ => id

/-- A value as a formula is sound if its numbers are. -/
theorem sound_ofValue {w : Value α} (hw : ∀ c ∈ w.items, ok c) :
    (Expr.ofValue w).Sound ok divisor := by
  cases w with
  | one a => exact hw a (List.mem_singleton.mpr rfl)
  | many items =>
      rcases items with - | ⟨a, - | ⟨b, rest⟩⟩
      · exact hw
      · exact hw a (List.mem_singleton.mpr rfl)
      · exact hw

/-- A mapped value yields what the operation yields on each of its numbers. -/
theorem yields_valueMapM {f : α → Except Fault α} {v : Value α}
    (h : ∀ a ∈ v.items, Yields P ok (f a)) :
    Yields P (fun w => ∀ c ∈ w.items, ok c) (v.mapM f) := by
  cases v with
  | one a =>
      refine (h a (List.mem_singleton.mpr rfl)).map fun c hc d hd => ?_
      obtain rfl := List.mem_singleton.mp hd
      exact hc
  | many items => exact (Yields.mapM h).map fun ds hds => hds

/-- A node of any operator but the quotient is sound if its operands are. -/
theorem Expr.Sound.node {l r : Expr α} {op : Operator} (hl : l.Sound ok divisor)
    (hr : r.Sound ok divisor) (hop : op ≠ .divide) : (Expr.node l op r).Sound ok divisor :=
  ⟨hl, hr, fun h => absurd h hop⟩

/-- A node of sound operands is sound if nothing is asked of divisors. -/
theorem Expr.Sound.any {l r : Expr α} {op : Operator} (hl : l.Sound ok fun _ => True)
    (hr : r.Sound ok fun _ => True) : (Expr.node l op r).Sound ok fun _ => True :=
  ⟨hl, hr, fun _ => r.divides_true⟩

/-- A product of sound factors is sound. -/
theorem Expr.Sound.product {l r : Expr α} (hl : l.Sound ok divisor) (hr : r.Sound ok divisor) :
    (Expr.node l .multiply r).Sound ok divisor :=
  .node hl hr fun h => by cases h

theorem Sign.operator_ne_divide (s : Sign) : s.operator ≠ .divide := by
  cases s <;> nofun

variable (hA : A.Handles P ok divisor)

include hA

/-! ### Tests and signs -/

/-- Testing for zero and one succeeds. -/
theorem yields_isNumber {b : α} (hb : ok b) {x : Atom α} (hx : x.All ok) :
    Yields P (fun _ => True) (isNumber A b x) := by
  cases x with
  | number a => exact hA.equals hx hb
  | _ => trivial

/-- A number with a sign. -/
theorem yields_signed {a : α} (ha : ok a) (s : Sign) : Yields P ok (signed A s a) := by
  cases s with
  | plus => exact ha
  | minus => exact hA.negate ha

/-- The sum or difference of two numbers. -/
theorem yields_apply {a b : α} (ha : ok a) (hb : ok b) (s : Sign) :
    Yields P ok (Simplify.apply A s a b) := by
  cases s with
  | plus => exact hA.add ha hb
  | minus => exact hA.subtract ha hb

/-- The test for a number that can be left out. -/
theorem yields_isNeutral {n : α} (hn : ok n) (s : Sign) :
    Yields P (fun _ => True) (isNeutral A s n) := by
  cases s with
  | plus => exact hA.equals hn hA.zero
  | minus => trivial

/-- A number in front of a formula. -/
theorem yields_scaledBy {c : α} {e : Expr α} (hc : ok c) (he : e.Sound ok divisor) :
    Yields P (Expr.Sound ok divisor) (scaledBy A c e) := by
  refine (hA.equals hc hA.zero).test hA.zero ?_
  refine (hA.equals hc hA.one).test he ?_
  exact .node hc he nofun

/-! ### Sums -/

/-- A number and a formula added. -/
theorem yields_combineNumber {r : Expr α} (hr : r.Sound ok divisor) {n : α} (hn : ok n)
    (s : Sign) : Yields P (Expr.Sound ok divisor) (combineNumber A s n r) := by
  induction r generalizing s n with
  | atom a =>
      cases a with
      | number m => exact (yields_apply hA hn hr s).bind fun c hc => hc
      | _ =>
          refine (yields_isNeutral hA hn s).test hr ?_
          exact .node hn hr s.operator_ne_divide
  | node a op b iha ihb =>
      unfold combineNumber
      refine (yields_isNeutral hA hn s).test hr ?_
      split
      · exact (yields_signed hA hr.1 s).bind fun x hx => (hA.add hn hx).bind fun m hm =>
          ihb hr.2.1 hm _
      · exact (yields_signed hA hr.2.1 _).bind fun y hy => (hA.add hn hy).bind fun m hm =>
          iha hr.1 hm _
      · exact .node hn hr s.operator_ne_divide

/-- Sums and differences. -/
theorem yields_combine {l r : Expr α} (hl : l.Sound ok divisor) (hr : r.Sound ok divisor)
    (s : Sign) : Yields P (Expr.Sound ok divisor) (combine A s l r) := by
  unfold combine
  split
  · exact yields_combineNumber hA hr hl s
  · refine (hA.equals hr hA.zero).test hl ?_
    exact .node hl hr s.operator_ne_divide
  · refine (hA.equals hr hA.zero).test hl ?_
    split
    · exact (yields_signed hA hr s).bind fun m hm => (hA.add hl.1 hm).bind fun k hk =>
        yields_combineNumber hA hl.2.1 hk _
    · exact (yields_signed hA hl.2.1 _).bind fun y hy => (yields_signed hA hr s).bind fun m hm =>
        (hA.add hy hm).bind fun k hk => yields_combineNumber hA hl.1 hk _
    · exact .node hl hr s.operator_ne_divide
  · exact .node hl hr s.operator_ne_divide

/-! ### Quotients -/

/-- The quotient of two leaves. -/
theorem yields_divideAtoms {x y : Atom α} (hx : x.All ok) (hy : y.All ok)
    (hd : (Expr.atom y).Divides divisor) :
    Yields P (Expr.Sound ok divisor) (divideAtoms A x y) := by
  unfold divideAtoms
  split
  · exact (hA.divide hx hy hd).bind fun c hc => hc
  · refine (yields_isNumber hA hA.one hy).test hx ?_
    split
    · refine (hA.divide hx hy hd).bind fun c hc => ?_
      split
      · exact hc
      · exact yields_scaledBy hA hc ⟨hA.one, hA.one, fun _ => hA.divisor_one⟩
    · exact (hA.divide hx hy hd).bind fun c hc => hc
    · exact ⟨hx, hy, fun _ => hd⟩

/-- The quotient of a formula by a leaf. -/
theorem yields_divideByAtom {y : Atom α} (hy : y.All ok) (hd : (Expr.atom y).Divides divisor)
    {l : Expr α} (hl : l.Sound ok divisor) : Yields P (Expr.Sound ok divisor) (divideByAtom A y l) := by
  induction l with
  | atom x => exact yields_divideAtoms hA hl hy hd
  | node a op b iha ihb =>
      rw [divideByAtom]
      refine (yields_isNumber hA hA.one hy).test hl ?_
      split
      · exact (iha hl.1).bind fun a' ha => (ihb hl.2.1).bind fun b' hb =>
          yields_combine hA ha hb _
      · exact ⟨hl, hy, fun _ => hd⟩

/-- Quotients. -/
theorem yields_divide {l r : Expr α} (hl : l.Sound ok divisor) (hr : r.Sound ok divisor)
    (hd : r.Divides divisor) : Yields P (Expr.Sound ok divisor) (divide A l r) := by
  cases r with
  | atom y => exact yields_divideByAtom hA hr hd hl
  | node a op b => exact ⟨hl, hr, fun _ => hd⟩

/-! ### Products -/

/-- The product of two leaves. -/
theorem yields_multiplyAtoms {x y : Atom α} (hx : x.All ok) (hy : y.All ok) :
    Yields P (Expr.Sound ok divisor) (multiplyAtoms A x y) := by
  unfold multiplyAtoms
  split
  · exact (hA.multiply hx hy).bind fun c hc => hc
  · refine (yields_isNumber hA hA.one hx).test hy ?_
    refine (yields_isNumber hA hA.one hy).test hx ?_
    refine (yields_isNumber hA hA.zero hx).test hA.zero ?_
    refine (yields_isNumber hA hA.zero hy).test hA.zero ?_
    split
    · refine (hA.multiply hx hy).bind fun c hc => ?_
      split
      · exact yields_scaledBy hA hc (.node hA.one hA.two fun h => by cases h)
      · exact yields_scaledBy hA hc (.node hA.one hA.one fun h => by cases h)
    · exact (hA.multiply hx hy).bind fun c hc => hc
    · exact (hA.multiply hx hy).bind fun c hc => hc
    · exact .node hx hy fun h => by cases h

/-- A leaf that takes up a number. -/
theorem yields_absorb {n : α} (hn : ok n) {e : Expr α} (he : e.Sound ok divisor) :
    Yields P (fun leaf => ∀ x ∈ leaf, x.All ok) (absorb A n e) := by
  unfold absorb
  split
  · exact (hA.multiply hn he).bind fun c hc => by rintro x ⟨⟩; exact hc
  · refine (hA.equals hn hA.one).bind fun t _ => ?_
    split
    · rintro x ⟨⟩
      exact he
    refine (hA.equals hn hA.zero).bind fun t _ => ?_
    split
    · rintro x ⟨⟩
      exact hA.zero
    · exact (hA.multiply hn he).bind fun c hc => by rintro x ⟨⟩; exact hc
  · nofun

/-- The product of a leaf and a formula. -/
theorem yields_multiplyAtom {x : Atom α} (hx : x.All ok) {r : Expr α}
    (hr : r.Sound ok divisor) (side : Side) :
    Yields P (Expr.Sound ok divisor) (multiplyAtom A side x r) := by
  induction r generalizing side x with
  | atom y =>
      cases side with
      | left => exact yields_multiplyAtoms hA hx hr
      | right => exact yields_multiplyAtoms hA hr hx
  | node a op b iha ihb =>
      unfold multiplyAtom
      refine (yields_isNumber hA hA.one hx).test hr ?_
      refine (yields_isNumber hA hA.zero hx).test hA.zero ?_
      split
      · exact (iha hx hr.1 _).bind fun a' ha => (ihb hx hr.2.1 _).bind fun b' hb =>
          yields_combine hA ha hb _
      · split
        · refine (yields_absorb hA hx hr.1).bind fun leaf hleaf => ?_
          split
          · exact ihb (hleaf _ rfl) hr.2.1 _
          refine (yields_absorb hA hx hr.2.1).bind fun leaf hleaf => ?_
          split
          · exact iha (hleaf _ rfl) hr.1 _
          · exact .product hx hr
        · refine (yields_absorb hA hx hr.1).bind fun leaf hleaf => ?_
          split
          · exact yields_divide hA (hleaf _ rfl) hr.2.1 (hr.2.2 rfl)
          · exact .product hx hr
        · exact .product hx hr
      · exact (iha hx hr.1 _).bind fun a' ha => (ihb hx hr.2.1 _).bind fun b' hb =>
          yields_combine hA ha hb _
      · cases side with
        | left => exact .product hx hr
        | right => exact .product hr hx

/-- Products. -/
theorem yields_multiply {l r : Expr α} (hl : l.Sound ok divisor) (hr : r.Sound ok divisor) :
    Yields P (Expr.Sound ok divisor) (multiply A l r) := by
  unfold multiply
  split
  · exact yields_multiplyAtom hA hl hr _
  · exact yields_multiplyAtom hA hr hl _
  · exact .node hl hr nofun

/-! ### Leaves and rules -/

/-- A leaf, if the numbers in the scope are `ok`. -/
theorem yields_atom {scope : Scope α} (hs : ∀ x v, scope.value? x = some v → ∀ a ∈ v.items, ok a)
    {x : Atom α} (hx : x.All ok) : Yields P (Expr.Sound ok divisor) (Simplify.atom A scope x) := by
  cases x with
  | scaled name c =>
      simp only [Simplify.atom]
      split
      · exact hx
      · rename_i v hv
        exact (yields_valueMapM fun a ha => hA.multiply hx (hs name v hv a ha)).bind
          fun w hw => sound_ofValue hw
  | number a => exact hx
  | constant name => trivial
  | list items => exact hx
  | stray a => trivial

/-- **The rules succeed** on sound operands, up to the faults of the arithmetic. -/
theorem yields_rule {op : Operator} {l r : Expr α} (hop : op ≠ .power)
    (hl : l.Sound ok divisor) (hr : r.Sound ok divisor)
    (hd : op = .divide → r.Divides divisor) :
    Yields P (Expr.Sound ok divisor) (rule A op l r) := by
  cases op with
  | add => exact yields_combine hA hl hr .plus
  | subtract => exact yields_combine hA hl hr .minus
  | multiply => exact yields_multiply hA hl hr
  | divide => exact yields_divide hA hl hr (hd rfl)
  | power => exact absurd rfl hop
  | plusMinus => exact .node hl hr nofun
  | other => exact .node hl hr nofun

end

/-! ### Formulas -/

/-- **Simplification succeeds** on sound formulas, up to the faults of the arithmetic, if it
succeeds on the squares in them. -/
theorem yields_simplify {A : Arithmetic α} {P : Fault → Prop} {ok : α → Prop}
    (hA : A.Handles P ok fun _ => True) {scope : Scope α}
    (hs : ∀ x v, scope.value? x = some v → ∀ a ∈ v.items, ok a) {leaf : Atom α → Prop}
    {squared : String → Prop}
    (hsq : ∀ x, squared x → Yields P (Expr.Sound ok fun _ => True)
      ((Expr.squareOf A x).simplify A scope))
    {e : Expr α} (he : e.Over A leaf squared) (hok : e.Sound ok fun _ => True) :
    Yields P (Expr.Sound ok fun _ => True) (e.simplify A scope) := by
  induction he with
  | atom _ => exact yields_atom hA hs hok
  | node hop _ _ ihl ihr =>
      exact (ihl hok.1).bind fun l hl => (ihr hok.2.1).bind fun r hr =>
        yields_rule hA hop.ne_power hl hr fun _ => r.divides_true
  | square hx => exact hsq _ hx

end Argand
