import Argand.Proofs.Computation
import Argand.Proofs.Simplification.Plans
import Mathlib.Data.Prod.Lex

/-!
# Simplification terminates

What the plan of a call asks for is smaller than the call. Sums ask for sums only, quotients for
quotients and sums, products for all but powers; and what a rule asks of its own kind, it asks of
smaller operands. One of these is made by another rule first: the number that is multiplied into a
factor. But what comes of that is a leaf. So every plan finishes after finitely many calls, whatever
the operands are and whatever comes of the arithmetic, and there is nothing else it can end with than
what the rules say.

## Main definitions

* `Argand.Simplify.Call.measure`: the measure of a call.
* `Argand.Simplify.Plan.Asks`: what holds of all the calls that a plan asks for.
* `Argand.Simplify.Finishes`: plans that finish after some number of calls.

## Main results

* `Argand.Simplify.asks_plan`: the calls of a plan are smaller.
* `Argand.Simplify.Finishes.unique`: plans finish in one way.
* `Argand.Simplify.simplification_terminates`: every call of a rule terminates.
-/

namespace Argand

variable {α β γ : Type}

theorem Expr.size_pos (e : Expr α) : 0 < e.size := by
  cases e <;> simp [size]

namespace Simplify

/-! ### The measure of a call -/

/-- The **stage** of a call: no call asks for one of a later stage. -/
def Call.stage : Call α → Nat
  | .sum .. | .combine .. | .fold .. => 0
  | .divide .. => 1
  | .multiply .. | .push .. => 2
  | .raise .. => 3

/-- The **weight** of the operands of a call. Between calls on the same operands, the helper that is
asked for weighs less. -/
def Call.weight : Call α → Nat
  | .fold _ l r => 3 * (l.size + r.size)
  | .sum _ l r => 3 * (l.size + r.size) + 1
  | .combine _ l r => 3 * (l.size + r.size) + 2
  | .divide l r => l.size + r.size
  | .push _ a _ b => 2 * (a.size + b.size + 2)
  | .multiply l r => 2 * (l.size + r.size) + 1
  | .raise l _ => l.size

/-- The **measure** of a call: its stage, and in the same stage its weight. -/
def Call.measure (call : Call α) : ℕ ×ₗ ℕ := toLex (call.stage, call.weight)

theorem Call.measure_lt_of_stage {call call' : Call α} (h : call.stage < call'.stage) :
    call.measure < call'.measure :=
  Prod.Lex.toLex_lt_toLex.mpr (.inl h)

theorem Call.measure_lt_of_weight {call call' : Call α} (hstage : call.stage = call'.stage)
    (h : call.weight < call'.weight) : call.measure < call'.measure :=
  Prod.Lex.toLex_lt_toLex.mpr (.inr ⟨hstage, h⟩)

/-! ### The calls of a plan -/

namespace Plan

variable {reply : (call : Call α) → Except Fault call.Answer} {P Q : Call α → Prop}

/-- **All calls that a plan asks for** have a property, as long as they are answered by `reply`. -/
def Asks (reply : (call : Call α) → Except Fault call.Answer) (P : Call α → Prop) :
    Plan α β → Prop
  | pure _ | fail _ => True
  | ask call next => P call ∧ ∀ x, reply call = .ok x → (next x).Asks reply P

namespace Asks

theorem pure (b : β) : (Pure.pure b : Plan α β).Asks reply P := trivial

theorem lift (x : Except Fault β) : (liftM x : Plan α β).Asks reply P := by
  cases x <;> trivial

theorem answer {call : Call α} (h : P call) : (answer call).Asks reply P :=
  ⟨h, fun _ _ => trivial⟩

theorem bind {p : Plan α β} {q : β → Plan α γ} (hp : p.Asks reply P)
    (hq : ∀ b, p.run reply = .ok b → (q b).Asks reply P) : (p >>= q).Asks reply P := by
  show (p.andThen q).Asks reply P
  induction p with
  | pure b => exact hq b rfl
  | fail f => trivial
  | ask call next ih =>
      refine ⟨hp.1, fun x hx => ih x (hp.2 x hx) fun b hb => hq b ?_⟩
      simp only [run, hx]
      exact hb

theorem mono {p : Plan α β} (hp : p.Asks reply P) (h : ∀ call, P call → Q call) :
    p.Asks reply Q := by
  induction p with
  | pure _ | fail _ => trivial
  | ask call next ih => exact ⟨h call hp.1, fun x hx => ih x (hp.2 x hx)⟩

/-- A test is made without a call. -/
theorem test {x : Except Fault Bool} {p q : Plan α β} (hp : p.Asks reply P)
    (hq : q.Asks reply P) : (do if ← liftM x then p else q : Plan α β).Asks reply P :=
  bind (lift x) fun t _ => by
    split
    · exact hp
    · exact hq

end Asks

end Plan

/-! ### The rules ask for smaller calls -/

section Rules

open Plan

variable {A : Arithmetic α}

variable (A) in
/-- A plan asks only for calls that are **smaller** than a given one. -/
abbrev AsksBelow (call : Call α) (p : Plan α β) : Prop :=
  p.Asks (Call.reply A) fun call' => call'.measure < call.measure

/-- The helper that folds numbers is asked with the same operands. -/
theorem asks_sum (s : Sign) (l r : Expr α) : AsksBelow A (.sum s l r) (sumPlan A s l r) := by
  unfold sumPlan
  split
  · exact .bind (.lift _) fun _ _ => .pure _
  · refine .test (.pure _) (.test (.pure _) ?_)
    split
    · exact .pure _
    · exact .bind (.answer (Call.measure_lt_of_weight rfl (Nat.lt_succ_self _))) fun _ _ => .pure _

/-- Folding asks for the sum of a number and a part of one of the operands. -/
theorem asks_fold (s : Sign) (l r : Expr α) :
    AsksBelow A (.fold s l r) ((Call.fold s l r).plan A) := by
  have hsum {t : Sign} {e : Expr α} {total : α} (h : e.size + 1 < l.size + r.size) :
      AsksBelow A (.fold s l r)
        (do return some (← answer (.sum t (.number total) e)) : Plan α (Option (Expr α))) := by
    refine .bind (.answer (Call.measure_lt_of_weight rfl ?_)) fun _ _ => .pure _
    simp only [Call.weight, Expr.size]
    omega
  simp only [Call.plan]
  unfold foldWith
  split
  · split
    · exact .bind (.lift _) fun _ _ => .bind (.lift _) fun _ _ =>
        hsum (by simp only [Expr.size]; omega)
    · exact .bind (.lift _) fun _ _ => .bind (.lift _) fun _ _ =>
        hsum (by simp only [Expr.size]; omega)
    · exact .pure _
  · split
    · exact .bind (.lift _) fun _ _ => .bind (.lift _) fun _ _ =>
        hsum (by simp only [Expr.size]; omega)
    · exact .bind (.lift _) fun _ _ => .bind (.lift _) fun _ _ => .bind (.lift _) fun _ _ =>
        hsum (by simp only [Expr.size]; omega)
    · exact .pure _
  · exact .pure _

/-- The parts of a sum are taken one after the other, and added or subtracted after that. -/
theorem asks_spread {call : Call α} {s : Sign} {p q : Plan α (Expr α)} (hp : AsksBelow A call p)
    (hq : AsksBelow A call q) (h : 0 < call.stage) :
    AsksBelow A call (do
      let left ← p
      let right ← q
      answer (.combine s left right)) :=
  .bind hp fun _ _ => .bind hq fun _ _ => .answer (Call.measure_lt_of_stage h)

/-- A quotient asks for the quotients of the parts of a sum. -/
theorem asks_divide (l r : Expr α) : AsksBelow A (.divide l r) (dividePlan A l r) := by
  cases r with
  | node => cases l <;> exact .pure _
  | atom y =>
      cases l with
      | atom x => exact .lift _
      | node a op b =>
          have hpart {e : Expr α} (h : e.size < a.size + b.size + 1) :
              AsksBelow A (.divide (.node a op b) (.atom y))
                (answer (.divide e (.atom y)) : Plan α (Expr α)) := by
            refine .answer (Call.measure_lt_of_weight rfl ?_)
            simp only [Call.weight, Expr.size]
            omega
          refine .test (.pure _) ?_
          split
          · exact asks_spread (hpart (by omega)) (hpart (by omega)) Nat.one_pos
          · exact .pure _

/-- The product of a number and a leaf is a leaf. -/
theorem size_of_multiply_number {n : α} {e e' : Expr α} (he : takesUp e = true)
    (h : multiply A (.number n) e = .ok e') : e'.size = 1 := by
  obtain ⟨leaf, -, hmul⟩ := absorb_of_takesUp (A := A) he n
  obtain ⟨x, -, rfl⟩ := map_eq_ok.mp (hmul.symm.trans h)
  rfl

/-- A product of a leaf and a node asks for the products of the leaf and the parts of the node, or
for the number in it to be multiplied into the node. -/
theorem asks_multiplyAtom (side : Side) (x : Atom α) (a : Expr α) (op : Operator) (b : Expr α)
    {call : Call α} (hstage : call.stage = 2)
    (hweight : call.weight = 2 * (a.size + b.size + 2) + 1) :
    AsksBelow A call (multiplyAtomPlan A side x a op b) := by
  have hpart {e : Expr α} (h : e.size < a.size + b.size + 1) :
      AsksBelow A call (sidePlan side x e) := by
    cases side <;> refine .answer (Call.measure_lt_of_weight hstage.symm ?_) <;>
      rw [hweight] <;> simp only [Call.weight, Expr.size] <;> omega
  refine .test (.pure _) (.test (.pure _) ?_)
  split
  · exact .answer (Call.measure_lt_of_weight hstage.symm (hweight ▸ Nat.lt_succ_self _))
  · exact asks_spread (hpart (by omega)) (hpart (by omega)) (by omega)
  · cases side <;> exact .pure _

theorem asks_multiply (l r : Expr α) : AsksBelow A (.multiply l r) (multiplyPlan A l r) := by
  cases l with
  | atom x =>
      cases r with
      | atom y => exact .lift _
      | node a op b =>
          refine asks_multiplyAtom .left x a op b rfl ?_
          simp only [Call.weight, Expr.size]
          omega
  | node a op b =>
      cases r with
      | node => exact .pure _
      | atom y =>
          refine asks_multiplyAtom .right y a op b rfl ?_
          simp only [Call.weight, Expr.size]

/-- A number that is multiplied into a factor makes a leaf of it, so what is left to multiply or to
divide is smaller than the node. -/
theorem asks_push (n : α) (a : Expr α) (op : Operator) (b : Expr α) :
    AsksBelow A (.push n a op b) ((Call.push n a op b).plan A) := by
  have ha := a.size_pos
  have hb := b.size_pos
  have hproduct {l r : Expr α} (h : l.size + r.size < a.size + b.size + 2) :
      AsksBelow A (.push n a op b) (answer (.multiply l r) : Plan α (Expr α)) := by
    refine .answer (Call.measure_lt_of_weight rfl ?_)
    simp only [Call.weight]
    omega
  have hnumber {e : Expr α} (h : e.size < a.size + b.size + 1) :
      AsksBelow A (.push n a op b) (answer (.multiply (.number n) e) : Plan α (Expr α)) := by
    refine hproduct ?_
    simp only [Expr.size]
    omega
  have hleaf {e e' : Expr α} (he : takesUp e = true)
      (h : (answer (.multiply (.number n) e) : Plan α (Expr α)).run (Call.reply A) = .ok e') :
      e'.size = 1 :=
    size_of_multiply_number he ((Plan.run_answer _).symm.trans h)
  simp only [Call.plan]
  unfold pushWith
  split
  -- a sum takes the number in both parts, a product or a quotient in one
  · exact asks_spread (hnumber (by omega)) (hnumber (by omega)) Nat.two_pos
  · split
    · rename_i h
      refine .bind (hnumber (by omega)) fun first hfirst => hproduct ?_
      rw [hleaf h.2 hfirst]
      omega
    · split
      · rename_i h
        refine .bind (hnumber (by omega)) fun second hsecond => hproduct ?_
        rw [hleaf h.2 hsecond]
        omega
      · split
        · exact .bind (hnumber (by omega)) fun _ _ =>
            .answer (Call.measure_lt_of_stage Nat.one_lt_two)
        · exact .pure _

/-- A power asks for powers of the parts of its base. -/
theorem asks_raise (l r : Expr α) : AsksBelow A (.raise l r) (raisePlan A l r) := by
  have hpart {e e' : Expr α} (h : e.size < l.size) :
      AsksBelow A (.raise l r) (answer (.raise e e') : Plan α (Expr α)) :=
    .answer (Call.measure_lt_of_weight rfl h)
  have hlower {call : Call α} (h : call.stage < 3) : AsksBelow A (.raise l r) (answer call) :=
    .answer (Call.measure_lt_of_stage h)
  refine .test (.pure _) (.test (.pure _) ?_)
  split
  · exact .bind (.lift _) fun _ _ => .pure _
  · refine .bind (hpart ?_) fun _ _ => .bind (hpart ?_) fun _ _ => hlower (Nat.lt_succ_self _) <;>
      simp only [Expr.size] <;> omega
  · refine .bind (hpart ?_) fun _ _ => .bind (hpart ?_) fun _ _ => hlower (by simp [Call.stage]) <;>
      simp only [Expr.size] <;> omega
  · refine .bind (hlower (Nat.lt_succ_self _)) fun _ _ => hpart ?_
    simp only [Expr.size]
    omega
  · exact .pure _

/-- **Every call asks for smaller calls** only. -/
theorem asks_plan (call : Call α) : AsksBelow A call (call.plan A) := by
  cases call with
  | sum s l r => exact asks_sum s l r
  | combine s l r => exact .answer (Call.measure_lt_of_weight rfl (Nat.lt_succ_self _))
  | fold s l r => exact asks_fold s l r
  | divide l r => exact asks_divide l r
  | multiply l r => exact asks_multiply l r
  | push n a op b => exact asks_push n a op b
  | raise l r => exact asks_raise l r

end Rules

/-! ### Plans finish -/

/-- A plan **finishes** with an outcome after some number of calls, each of which is carried out by
its own plan. The calls made in these are counted too. -/
inductive Finishes (A : Arithmetic α) : {β : Type} → Plan α β → Except Fault β → Nat → Prop
  | pure {β : Type} (b : β) : Finishes A (.pure b) (.ok b) 0
  | fail {β : Type} (f : Fault) : Finishes A (.fail f : Plan α β) (.error f) 0
  | answered {β : Type} {call : Call α} {next : call.Answer → Plan α β} {x : call.Answer}
      {o : Except Fault β} {k k' : Nat} : Finishes A (call.plan A) (.ok x) k →
      Finishes A (next x) o k' → Finishes A (.ask call next) o (k + k' + 1)
  | failed {β : Type} {call : Call α} {next : call.Answer → Plan α β} {f : Fault} {k : Nat} :
      Finishes A (call.plan A) (.error f) k → Finishes A (.ask call next) (.error f) (k + 1)

variable {A : Arithmetic α}

/-- **Plans finish in one way**, after one number of calls. -/
theorem Finishes.unique {p : Plan α β} {o o' : Except Fault β} {k k' : Nat}
    (h : Finishes A p o k) (h' : Finishes A p o' k') : o = o' ∧ k = k' := by
  induction h generalizing k' with
  | pure b =>
      cases h'
      exact ⟨rfl, rfl⟩
  | fail f =>
      cases h'
      exact ⟨rfl, rfl⟩
  | answered _ _ ihcall ihnext =>
      cases h' with
      | answered hcall hnext =>
          obtain ⟨heq, rfl⟩ := ihcall hcall
          cases heq
          obtain ⟨rfl, rfl⟩ := ihnext hnext
          exact ⟨rfl, rfl⟩
      | failed hcall => cases (ihcall hcall).1
  | failed _ ihcall =>
      cases h' with
      | answered hcall _ => cases (ihcall hcall).1
      | failed hcall =>
          obtain ⟨heq, rfl⟩ := ihcall hcall
          cases heq
          exact ⟨rfl, rfl⟩

/-- A plan finishes if all the calls that it asks for do, with the answers of the rules. -/
theorem finishes_of_asks {p : Plan α β}
    (h : p.Asks (Call.reply A) fun call => ∃ k, Finishes A (call.plan A) (call.reply A) k) :
    ∃ k, Finishes A p (p.run (Call.reply A)) k := by
  induction p with
  | pure b => exact ⟨0, .pure b⟩
  | fail f => exact ⟨0, .fail f⟩
  | ask call next ih =>
      obtain ⟨⟨k, hcall⟩, hnext⟩ := h
      rw [Plan.run]
      cases hreply : call.reply A with
      | error f =>
          rw [hreply] at hcall
          exact ⟨k + 1, hcall.failed⟩
      | ok x =>
          rw [hreply] at hcall
          obtain ⟨k', hfinish⟩ := ih x (hnext x hreply)
          exact ⟨k + k' + 1, hcall.answered hfinish⟩

/-- **Every call finishes** with its answer, by induction on its measure. -/
theorem plan_finishes (call : Call α) : ∃ k, Finishes A (call.plan A) (call.reply A) k := by
  induction call using (InvImage.wf Call.measure wellFounded_lt).induction with
  | _ call ih =>
      have hfinishes := finishes_of_asks ((asks_plan (A := A) call).mono ih)
      rwa [run_plan] at hfinishes

/-- **Simplification terminates** on all operands, whatever comes of the arithmetic. Every call of a
rule or a helper asks only for calls of smaller measure, if these are answered as the rules say; and
carried out by the plans alone, it finishes with the answer of the rules after some number of calls,
and in no other way. -/
theorem simplification_terminates (A : Arithmetic α) (call : Call α) :
    (call.plan A).run (Call.reply A) = call.reply A ∧
    (call.plan A).Asks (Call.reply A) (fun call' => call'.measure < call.measure) ∧
    ∃ k, ∀ o k', Finishes A (call.plan A) o k' ↔ o = call.reply A ∧ k' = k := by
  obtain ⟨k, hk⟩ := plan_finishes (A := A) call
  refine ⟨run_plan call, asks_plan call, k, fun o k' => ⟨fun h => h.unique hk, ?_⟩⟩
  rintro ⟨rfl, rfl⟩
  exact hk

end Simplify

end Argand
