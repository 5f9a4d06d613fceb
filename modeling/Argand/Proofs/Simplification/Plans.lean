import Argand.Expr.Simplification

/-!
# The rules of simplification as plans

The rules of simplification call one another, and helpers that fold numbers of sums and multiply
numbers into nodes. Most of their calls are on operands that are no parts of the given ones: on a
number multiplied into a factor, on the product of two exponents, on what two other rules have made.
Here each rule and each helper is a plan, which asks for the answers of calls one after another. The
definitions of the rules, which recur into the parts of their operands only, carry out these plans:
if calls are answered as the rules say, so is the call of the plan.

## Main definitions

* `Argand.Simplify.Call`: calls of the rules and of their helpers.
* `Argand.Simplify.Plan`: what is asked for, step by step.
* `Argand.Simplify.Call.plan`: the plan of a call.
* `Argand.Simplify.Call.reply`: the answer of a call.

## Main results

* `Argand.Simplify.run_plan`: the rules carry out their plans.
-/

namespace Argand

namespace Simplify

variable {α β γ : Type}

/-! ### Calls -/

/-- A **call** of a rule, or of a helper of the rules. -/
inductive Call (α : Type) where
  | sum (s : Sign) (l r : Expr α)
  | combine (s : Sign) (l r : Expr α)
  | fold (s : Sign) (l r : Expr α)
  | divide (l r : Expr α)
  | multiply (l r : Expr α)
  | push (n : α) (a : Expr α) (op : Operator) (b : Expr α)
  | raise (l r : Expr α)

/-- What a call **answers**: a formula. Folding answers nothing if there is no number to fold. -/
abbrev Call.Answer : Call α → Type
  | .fold .. => Option (Expr α)
  | _ => Expr α

/-- A **plan**: a result, a fault, or a call and what to do with its answer. -/
inductive Plan (α β : Type) where
  | pure (b : β)
  | fail (f : Fault)
  | ask (call : Call α) (next : call.Answer → Plan α β)

namespace Plan

/-- One plan after another. -/
def andThen : Plan α β → (β → Plan α γ) → Plan α γ
  | pure b, q => q b
  | fail f, _ => fail f
  | ask call next, q => ask call fun x => (next x).andThen q

instance : Monad (Plan α) where
  pure := pure
  bind := andThen

/-- A plan without a call. -/
def ofExcept : Except Fault β → Plan α β
  | .ok b => pure b
  | .error f => fail f

instance : MonadLift (Except Fault) (Plan α) := ⟨ofExcept⟩

/-- The answer of a call. -/
def answer (call : Call α) : Plan α call.Answer := ask call pure

/-- A plan **carried out**, where calls are answered by `reply`. -/
def run (reply : (call : Call α) → Except Fault call.Answer) : Plan α β → Except Fault β
  | pure b => .ok b
  | fail f => .error f
  | ask call next => do (next (← reply call)).run reply

variable {reply : (call : Call α) → Except Fault call.Answer}

@[simp] theorem run_pure (b : β) : (Pure.pure b : Plan α β).run reply = Pure.pure b := rfl

@[simp] theorem run_bind (p : Plan α β) (q : β → Plan α γ) :
    (p >>= q).run reply = p.run reply >>= fun b => (q b).run reply := by
  show (p.andThen q).run reply = _
  induction p with
  | pure b => rfl
  | fail f => rfl
  | ask call next ih =>
      simp only [andThen, run, ih]
      cases reply call <;> rfl

@[simp] theorem run_ite (c : Prop) [Decidable c] (p q : Plan α β) :
    (if c then p else q).run reply = if c then p.run reply else q.run reply := by
  split <;> rfl

@[simp] theorem run_lift (x : Except Fault β) : (liftM x : Plan α β).run reply = x := by
  cases x <;> rfl

@[simp] theorem run_answer (call : Call α) :
    Plan.run (β := no_index call.Answer) reply (answer call) = reply call := by
  simp only [answer, run]
  cases reply call <;> rfl

end Plan

/-! ### Plans -/

section Plans

open Plan

/-- Whether a formula is a multiple of a variable. -/
def isScaled : Expr α → Bool
  | .scaled .. => true
  | _ => false

/-- Whether a formula takes up a number in front of it. -/
def takesUp : Expr α → Bool
  | .number _ | .scaled .. => true
  | _ => false

variable (A : Arithmetic α)

/-- Whether a formula in front of a sign can be left out. -/
def isNeutralExpr (s : Sign) : Expr α → Except Fault Bool
  | .number n => isNeutral A s n
  | _ => .ok false

section Helpers

variable {m : Type → Type} [Monad m] [MonadLiftT (Except Fault) m]

/-- A number **folded** with a number in the sum beside it, if there is one, where `sum` adds and
subtracts. What is left of the sum comes to the right. -/
def foldWith (sum : Sign → Expr α → Expr α → m (Expr α)) (s : Sign) (l r : Expr α) :
    m (Option (Expr α)) := do
  match l, r with
  | .number n, .node a op b =>
    match op.sign?, a, b with
    | some inner, .number x, _ =>
      let total ← A.add n (← signed A s x)
      return some (← sum (s.times inner) (.number total) b)
    | some inner, _, .number y =>
      let total ← A.add n (← signed A (s.times inner) y)
      return some (← sum s (.number total) a)
    | _, _, _ => return none
  | .node a op b, .number m =>
    match op.sign?, a, b with
    | some inner, .number x, _ =>
      let total ← A.add x (← signed A s m)
      return some (← sum inner (.number total) b)
    | some inner, _, .number y =>
      let total ← A.add (← signed A inner y) (← signed A s m)
      return some (← sum .plus (.number total) a)
    | _, _, _ => return none
  | _, _ => return none

/-- A number **multiplied into** a node, where `sum`, `product` and `quotient` do what the rules
do. -/
def pushWith (sum : Sign → Expr α → Expr α → m (Expr α))
    (product quotient : Expr α → Expr α → m (Expr α)) (n : α) (a : Expr α) (op : Operator)
    (b : Expr α) : m (Expr α) := do
  match op.sign? with
  | some s =>
    let left ← product (.number n) a
    let right ← product (.number n) b
    sum s left right
  | none =>
    if op = .multiply ∧ takesUp a then
      let first ← product (.number n) a
      product first b
    else if op = .multiply ∧ takesUp b then
      let second ← product (.number n) b
      product a second
    else if op = .divide ∧ takesUp a then
      let dividend ← product (.number n) a
      quotient dividend b
    else return .node (.number n) .multiply (.node a op b)

end Helpers

/-- A sum or difference. -/
def sumPlan (s : Sign) (l r : Expr α) : Plan α (Expr α) := do
  match l, r with
  | .number a, .number b => return Expr.number (← apply A s a b)
  | l, r =>
    if ← isNeutralExpr A s l then return r
    if ← isNumberExpr A A.zero r then return l
    if isScaled l || isScaled r then return .node l s.operator r
    return (← answer (.fold s l r)).getD (.node l s.operator r)

/-- A quotient. Two leaves are divided without a call. -/
def dividePlan : Expr α → Expr α → Plan α (Expr α)
  | .atom x, .atom y => liftM (divideAtoms A x y)
  | .node a op b, .atom y => do
    if ← isNumber A A.one y then return .node a op b
    match op.sign? with
    | some s =>
      let left ← answer (.divide a (.atom y))
      let right ← answer (.divide b (.atom y))
      answer (.combine s left right)
    | none => return .node (.node a op b) .divide (.atom y)
  | l, .node a op b => return .node l .divide (.node a op b)

/-- A product with a leaf on some side. -/
def sidePlan (side : Side) (x : Atom α) (e : Expr α) : Plan α (Expr α) :=
  match side with
  | .left => answer (.multiply (.atom x) e)
  | .right => answer (.multiply e (.atom x))

/-- A product of a node with a leaf on some side. -/
def multiplyAtomPlan (side : Side) (x : Atom α) (a : Expr α) (op : Operator) (b : Expr α) :
    Plan α (Expr α) := do
  if ← isNumber A A.one x then return .node a op b
  if ← isNumber A A.zero x then return Expr.number A.zero
  match x, op.sign? with
  | .number n, _ => answer (.push n a op b)
  | x, some s =>
    let left ← sidePlan side x a
    let right ← sidePlan side x b
    answer (.combine s left right)
  | x, none =>
    match side with
    | .left => return .node (.atom x) .multiply (.node a op b)
    | .right => return .node (.node a op b) .multiply (.atom x)

/-- A product. Two leaves are multiplied without a call. -/
def multiplyPlan : Expr α → Expr α → Plan α (Expr α)
  | .atom x, .atom y => liftM (multiplyAtoms A x y)
  | .atom x, .node a op b => multiplyAtomPlan A .left x a op b
  | .node a op b, .atom y => multiplyAtomPlan A .right y a op b
  | l, r => return .node l .multiply r

/-- A power. -/
def raisePlan (l r : Expr α) : Plan α (Expr α) := do
  if ← isNumberExpr A A.zero r then return Expr.number A.one
  if ← isNumberExpr A A.one r then return l
  match l, r with
  | .number a, .number b => return Expr.number (← A.power a b)
  | .node a .multiply b, r =>
    let left ← answer (.raise a r)
    let right ← answer (.raise b r)
    answer (.multiply left right)
  | .node a .divide b, r =>
    let left ← answer (.raise a r)
    let right ← answer (.raise b r)
    answer (.divide left right)
  | .node a .power b, r =>
    let exponent ← answer (.multiply b r)
    answer (.raise a exponent)
  | l, r => return .node l .power r

/-- The **plan** of a call. -/
def Call.plan : (call : Call α) → Plan α call.Answer
  | .sum s l r => sumPlan A s l r
  | .combine s l r => answer (.sum s l r)
  | .fold s l r => foldWith A (fun s l r => answer (.sum s l r)) s l r
  | .divide l r => dividePlan A l r
  | .multiply l r => multiplyPlan A l r
  | .push n a op b =>
    pushWith (fun s l r => answer (.combine s l r)) (fun l r => answer (.multiply l r))
      (fun l r => answer (.divide l r)) n a op b
  | .raise l r => raisePlan A l r

/-- The **answer** of a call: what the rules make of its operands. -/
def Call.reply : (call : Call α) → Except Fault call.Answer
  | .sum s l r | .combine s l r => Simplify.combine A s l r
  | .fold s l r => foldWith A (Simplify.combine A) s l r
  | .divide l r => Simplify.divide A l r
  | .multiply l r => Simplify.multiply A l r
  | .push n a op b =>
    pushWith (Simplify.combine A) (Simplify.multiply A) (Simplify.divide A) n a op b
  | .raise l r => Simplify.raise A l r

end Plans

/-! ### The rules carry out their plans -/

variable {A : Arithmetic α}

theorem ok_eq_pure (b : β) : (.ok b : Except Fault β) = pure b := rfl

theorem run_fold (s : Sign) (l r : Expr α) :
    ((Call.fold s l r).plan A).run (Call.reply A) = (Call.fold s l r).reply A := by
  simp only [Call.plan, Call.reply]
  unfold foldWith
  split
  · split <;> simp [Call.reply]
  · split <;> simp [Call.reply]
  · simp

theorem run_push (n : α) (a : Expr α) (op : Operator) (b : Expr α) :
    ((Call.push n a op b).plan A).run (Call.reply A) = (Call.push n a op b).reply A := by
  simp only [Call.plan, Call.reply]
  unfold pushWith
  split <;> simp [Call.reply]

/-- A number in front of a node is left out, folded or kept. -/
theorem combine_number_node (s : Sign) (n : α) (a : Expr α) (op : Operator) (b : Expr α) :
    combine A s (.number n) (.node a op b) = (do
      if ← isNeutral A s n then return .node a op b
      return (← foldWith A (combine A) s (.number n) (.node a op b)).getD
        (.node (.number n) s.operator (.node a op b))) := by
  simp only [combine, combineNumber, foldWith]
  congr 1
  funext t
  split
  · rfl
  · split <;> simp [*]

/-- A number after a node is left out, folded or kept. -/
theorem combine_node_number (s : Sign) (a : Expr α) (op : Operator) (b : Expr α) (m : α) :
    combine A s (.node a op b) (.number m) = (do
      if ← A.equals m A.zero then return .node a op b
      return (← foldWith A (combine A) s (.node a op b) (.number m)).getD
        (.node (.node a op b) s.operator (.number m))) := by
  simp only [combine, foldWith]
  congr 1
  funext t
  split
  · rfl
  · split <;> simp [*]

theorem run_sum (s : Sign) (l r : Expr α) :
    (sumPlan A s l r).run (Call.reply A) = combine A s l r := by
  cases l with
  | node a op b =>
      cases r with
      | node => rfl
      | atom y =>
          cases y with
          | number m =>
              rw [combine_node_number]
              simp [sumPlan, isNeutralExpr, isNumberExpr, isNumber, isScaled, Call.reply, ok_eq_pure]
          | _ => rfl
  | atom x =>
      cases r with
      | node a op b =>
          cases x with
          | number n =>
              rw [combine_number_node]
              simp [sumPlan, isNeutralExpr, isNumberExpr, isScaled, Call.reply, ok_eq_pure]
          | _ => rfl
      | atom y =>
          cases x <;> cases y <;>
            simp [sumPlan, combine, combineNumber, isNeutralExpr, isNumberExpr, isNumber, isScaled,
              Call.reply, foldWith, ok_eq_pure]

theorem run_divide (l r : Expr α) : (dividePlan A l r).run (Call.reply A) = divide A l r := by
  cases r with
  | node => cases l <;> rfl
  | atom y =>
      cases l with
      | atom x => exact Plan.run_lift _
      | node a op b =>
          simp only [dividePlan, divide, divideByAtom]
          cases op.sign? <;> simp [Call.reply, divide]

/-- A leaf in front of a factor. -/
theorem atom_multiply (x : Atom α) (r : Expr α) :
    multiply A (.atom x) r = multiplyAtom A .left x r := rfl

/-- A leaf after a factor. -/
theorem multiply_atom (l : Expr α) (y : Atom α) :
    multiply A l (.atom y) = multiplyAtom A .right y l := by
  cases l <;> rfl

/-- A leaf that takes up a number is multiplied by it. -/
theorem absorb_of_takesUp {e : Expr α} (h : takesUp e = true) (n : α) :
    ∃ leaf : Except Fault (Atom α), absorb A n e = some <$> leaf ∧
      multiply A (.number n) e = .atom <$> leaf := by
  cases e with
  | node => cases h
  | atom x =>
      cases x with
      | number m =>
          exact ⟨.number <$> A.multiply n m, by simp [absorb],
            by simp [multiply, multiplyAtom, multiplyAtoms]⟩
      | scaled v c =>
          refine ⟨do
            if ← A.equals n A.one then return .scaled v c
            if ← A.equals n A.zero then return .number A.zero
            return .scaled v (← A.multiply n c), ?_, ?_⟩
          · simp [absorb, apply_ite]
          · simp [multiply, multiplyAtom, multiplyAtoms, isNumber, ok_eq_pure, apply_ite]
      | _ => cases h

theorem absorb_of_not_takesUp {e : Expr α} (h : ¬ takesUp e = true) (n : α) :
    absorb A n e = pure none := by
  cases e with
  | node => rfl
  | atom x => cases x <;> first | rfl | exact absurd rfl h

/-- **A number in front of a node or after it** replaces it, makes it zero, or is multiplied into
it. -/
theorem multiplyAtom_number_node (side : Side) (n : α) (a : Expr α) (op : Operator) (b : Expr α) :
    multiplyAtom A side (.number n) (.node a op b) = (do
      if ← A.equals n A.one then return .node a op b
      if ← A.equals n A.zero then return Expr.number A.zero
      pushWith (combine A) (multiply A) (divide A) n a op b) := by
  simp only [multiplyAtom, isNumber]
  congr 1
  funext t
  split
  · rfl
  congr 1
  funext t
  split
  · rfl
  cases hop : op.sign? with
  | some s => simp [pushWith, hop, atom_multiply]
  | none =>
      cases op with
      | add | subtract => cases hop
      | plusMinus | power | other => simp [pushWith, Operator.sign?]
      | multiply =>
          by_cases ha : takesUp a
          · obtain ⟨leaf, habsorb, hmul⟩ := absorb_of_takesUp (A := A) ha n
            simp [pushWith, Operator.sign?, ha, habsorb, hmul, atom_multiply]
          · by_cases hb : takesUp b
            · obtain ⟨leaf, habsorb, hmul⟩ := absorb_of_takesUp (A := A) hb n
              simp [pushWith, Operator.sign?, ha, hb, absorb_of_not_takesUp, habsorb, hmul,
                multiply_atom]
            · simp [pushWith, Operator.sign?, ha, hb, absorb_of_not_takesUp]
      | divide =>
          by_cases ha : takesUp a
          · obtain ⟨leaf, habsorb, hmul⟩ := absorb_of_takesUp (A := A) ha n
            simp [pushWith, Operator.sign?, ha, habsorb, hmul]
          · simp [pushWith, Operator.sign?, ha, absorb_of_not_takesUp]

theorem run_side (side : Side) (x : Atom α) (e : Expr α) :
    (sidePlan side x e).run (Call.reply A) = multiplyAtom A side x e := by
  cases side with
  | left => exact Plan.run_answer _
  | right => exact (Plan.run_answer _).trans (multiply_atom e x)

theorem run_multiplyAtom (side : Side) (x : Atom α) (a : Expr α) (op : Operator) (b : Expr α) :
    (multiplyAtomPlan A side x a op b).run (Call.reply A) =
      multiplyAtom A side x (.node a op b) := by
  cases x with
  | number n => simp [multiplyAtomPlan, multiplyAtom_number_node, isNumber, Call.reply]
  | _ =>
      simp only [multiplyAtomPlan, multiplyAtom, isNumber, ok_eq_pure]
      cases op.sign? <;> cases side <;> simp [run_side, Call.reply]

theorem run_multiply (l r : Expr α) :
    (multiplyPlan A l r).run (Call.reply A) = multiply A l r := by
  cases l with
  | atom x =>
      cases r with
      | atom y => exact Plan.run_lift _
      | node a op b => exact run_multiplyAtom .left x a op b
  | node a op b =>
      cases r with
      | atom y => exact run_multiplyAtom .right y a op b
      | node => rfl

theorem run_raise (l r : Expr α) : (raisePlan A l r).run (Call.reply A) = raise A l r := by
  unfold raise
  simp only [raisePlan, Plan.run_bind, Plan.run_lift, Plan.run_ite]
  congr 1
  funext t
  split
  · rfl
  congr 1
  funext t
  split
  · rfl
  · split <;> simp [Call.reply]

/-- **The rules carry out their plans**: if every call that the plan of a call asks for is answered
as the rules say, what comes of the plan is what the rules say of the call. -/
theorem run_plan (call : Call α) : (call.plan A).run (Call.reply A) = call.reply A := by
  cases call with
  | sum s l r => exact run_sum s l r
  | combine s l r => exact Plan.run_answer (.sum s l r)
  | fold s l r => exact run_fold s l r
  | divide l r => exact run_divide l r
  | multiply l r => exact run_multiply l r
  | push n a op b => exact run_push n a op b
  | raise l r => exact run_raise l r

end Simplify

end Argand
