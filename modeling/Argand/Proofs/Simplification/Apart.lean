import Argand.Proofs.Refinement
import Argand.Proofs.Simplification.Occurrences

/-!
# How often a variable occurs in a simplified formula

A variable that occurs once in a formula stays single when the formula is simplified, unless it is
spread over the terms of a sum on the way. With exact arithmetic it does not stay single then: it
is lost by a zero or stands in two places. And it is lost only by a zero.

## Main definitions

* `Argand.Expr.KeepsApart`: formulas in which nothing is spread.
* `Argand.Expr.HasZeroFactor`: formulas in which a variable is multiplied with zero.

## Main results

* `Argand.length_names_simplify`: in a formula that keeps apart a variable stays single.
* `Argand.two_le_length_names`: in one that does not it stays single no more.
* `Argand.length_unbound_le`: without a zero factor no variable is lost.
-/

namespace Argand

open Simplify

variable {α K : Type} {A : Arithmetic α} {ops : Operator → Prop}

/-! ### Single occurrences -/

/-- A formula **keeps apart** in a scope if nothing in it is spread, once simplified. -/
def Expr.KeepsApart (A : Arithmetic α) (scope : Scope α) : Expr α → Prop
  | .atom _ => True
  | .node l op r => l.KeepsApart A scope ∧ r.KeepsApart A scope ∧
      Yields (fun _ => True) (fun l' => Yields (fun _ => True) (fun r' => ¬ Spreads A op l' r')
        (r.simplify A scope)) (l.simplify A scope)

instance : (e : Expr α) → Decidable e.IsScaled
  | .scaled .. => inferInstanceAs (Decidable True)
  | .atom (.number _) | .atom (.list _) | .atom (.constant _) | .atom (.stray _) | .node .. =>
      inferInstanceAs (Decidable False)

instance : (op : Operator) → (l r : Expr α) → Decidable (BesideSum op l r)
  | .multiply, l, r =>
      inferInstanceAs (Decidable ((l.IsScaled ∧ r.IsSum) ∨ (l.IsSum ∧ r.IsScaled)))
  | .divide, l, r => inferInstanceAs (Decidable (l.IsSum ∧ r.IsScaled))
  | .add, _, _ | .subtract, _, _ | .power, _, _ | .plusMinus, _, _ | .other _, _, _ => .isFalse id

instance (op : Operator) (l r : Expr α) : Decidable (Spreads A op l r) :=
  inferInstanceAs (Decidable (_ ∧ _))

instance Expr.decidableKeepsApart (A : Arithmetic α) (scope : Scope α) :
    (e : Expr α) → Decidable (e.KeepsApart A scope)
  | .atom _ => inferInstanceAs (Decidable True)
  | .node l op r =>
      have := decidableKeepsApart A scope l
      have := decidableKeepsApart A scope r
      inferInstanceAs (Decidable (_ ∧ _ ∧
        Yields _ (fun _ => Yields _ (fun _ => ¬ Spreads A op _ _) _) _))

/-- Formulas with a single occurrence at most have one operand without variables. -/
theorem length_names_of_besideSum {op : Operator} {l r : Expr α} (h : BesideSum op l r)
    (hone : l.names = [] ∨ r.names = []) : l.names.length + r.names.length = 1 := by
  obtain hs | hs := h.isScaled
  · obtain ⟨v, k, rfl⟩ := hs.exists_eq
    simp [Expr.names, hone.resolve_left (List.cons_ne_nil _ _)]
  · obtain ⟨v, k, rfl⟩ := hs.exists_eq
    simp [Expr.names, hone.resolve_right (List.cons_ne_nil _ _)]

/-- **A variable stays single** in a formula that keeps apart. -/
theorem length_names_simplify (hops : OperatorKind ops) {scope : Scope α} {e e' : Expr α}
    (he : e.HasOperators ops) (hone : (e.unbound scope).length ≤ 1) (hk : e.KeepsApart A scope)
    (h : e.simplify A scope = .ok e') : e'.names.length ≤ (e.unbound scope).length := by
  induction e generalizing e' with
  | atom x =>
      obtain ⟨rfl, hnone⟩ | ⟨-, -, -, w, -, -, -, rfl⟩ := atom_cases h
      · rw [Expr.unbound_eq_names hnone]
      · simp
  | node l op r ihl ihr =>
      rw [Expr.unbound_node, List.length_append] at hone ⊢
      obtain ⟨l', r', hl, hr, hrw⟩ := rewrites_of_simplify h
      have hll := ihl he.2.1 (by omega) hk.1 hl
      have hrl := ihr he.2.2 (by omega) hk.2.1 hr
      obtain ⟨hl', hln⟩ := isTidy_simplify hops he.2.1 (by omega) hl
      obtain ⟨hr', hrn⟩ := isTidy_simplify hops he.2.2 (by omega) hr
      have hclosed := names_eq_nil_or hone hln hrn
      by_cases hbeside : BesideSum op l' r'
      · have hcopies := hrw.length_names_eq_copies hbeside hclosed
        have hspread : ¬ Spreads A op l' r' := (hk.2.2.of_ok hl).of_ok hr
        have hfew : ¬ 2 ≤ copies A op l' r' := fun h => hspread ⟨hbeside, h⟩
        have hsingle := length_names_of_besideSum hbeside hclosed
        omega
      · have := hrw.length_names_le hops he.1 (fun _ => hclosed) hl' hr' hbeside
        omega

/-- A formula without unbound variables keeps apart. -/
theorem keepsApart_of_unbound_eq_nil (hops : OperatorKind ops) {scope : Scope α} {e : Expr α}
    (he : e.HasOperators ops) (hnone : e.unbound scope = []) : e.KeepsApart A scope := by
  induction e with
  | atom x => trivial
  | node l op r ihl ihr =>
      rw [Expr.unbound_node, List.append_eq_nil_iff] at hnone
      refine ⟨ihl he.2.1 hnone.1, ihr he.2.2 hnone.2, ?_⟩
      refine yields_iff.mpr ⟨fun l' hl => yields_iff.mpr ⟨fun r' hr => ?_, fun _ _ => trivial⟩,
        fun _ _ => trivial⟩
      have nil {e e' : Expr α} (he : e.HasOperators ops) (hnone : e.unbound scope = [])
          (h : e.simplify A scope = .ok e') : e'.names = [] :=
        names_eq_nil_of_forall (isTidy_simplify hops he (by simp [hnone]) h).2 hnone
      have hl' := nil he.2.1 hnone.1 hl
      have hr' := nil he.2.2 hnone.2 hr
      intro hs
      have hsingle := length_names_of_besideSum hs.1 (.inl hl')
      simp [hl', hr'] at hsingle

/-- **A variable stays single no more** in a formula that does not keep apart: in exact arithmetic
it is lost or comes to stand in two places. -/
theorem two_le_length_names [Field K] [DecidableEq K] {val : α → K} (hA : A.IsExact val)
    (hops : OperatorKind ops) {scope : Scope α} {e e' : Expr α} (he : e.HasOperators ops)
    (hone : (e.unbound scope).length ≤ 1) (hk : ¬ e.KeepsApart A scope)
    (h : e.simplify A scope = .ok e') : e'.names = [] ∨ 2 ≤ e'.names.length := by
  induction e generalizing e' with
  | atom x => exact absurd trivial hk
  | node l op r ihl ihr =>
      rw [Expr.unbound_node, List.length_append] at hone
      obtain ⟨l', hl, h⟩ := bind_eq_ok.mp h
      obtain ⟨r', hr, h⟩ := bind_eq_ok.mp h
      obtain ⟨hl', hln⟩ := isTidy_simplify hops he.2.1 (by omega) hl
      obtain ⟨hr', hrn⟩ := isTidy_simplify hops he.2.2 (by omega) hr
      have hclosed := names_eq_nil_or hone hln hrn
      have hrw := rewrites_of_rule h
      by_cases hspread : Spreads A op l' r'
      · rw [hrw.length_names_eq_copies hspread.1 hclosed]
        exact .inr hspread.2
      -- what is lost or doubled in an operand is lost or doubled in the node
      have node (hlr : l'.names = [] ∧ r'.names = [] ∨ 2 ≤ l'.names.length + r'.names.length) :
          e'.names = [] ∨ 2 ≤ e'.names.length := by
        obtain ⟨hln, hrn⟩ | hlr := hlr
        · exact .inl (hrw.names_eq_nil hln hrn)
        · have hbeside : ¬ BesideSum op l' r' := fun hb => by
            have := length_names_of_besideSum hb hclosed
            omega
          exact (names_eq_nil_or_le hA hops h he.1 (fun _ => hclosed) hl' hr' hbeside).imp_right
            (le_trans hlr)
      have nonempty {e : Expr α} (he : e.HasOperators ops) (hk : ¬ e.KeepsApart A scope) :
          1 ≤ (e.unbound scope).length :=
        List.length_pos_iff.mpr fun hnone => hk (keepsApart_of_unbound_eq_nil hops he hnone)
      by_cases hkl : l.KeepsApart A scope
      · have hkr : ¬ r.KeepsApart A scope := by
          refine fun hkr => hk ⟨hkl, hkr, yields_iff.mpr ⟨fun a ha => ?_, fun _ _ => trivial⟩⟩
          refine yields_iff.mpr ⟨fun b hb => ?_, fun _ _ => trivial⟩
          obtain rfl : a = l' := Except.ok.inj (ha.symm.trans hl)
          obtain rfl : b = r' := Except.ok.inj (hb.symm.trans hr)
          exact hspread
        have hsome := nonempty he.2.2 hkr
        have hlnil := names_eq_nil_of_forall hln (List.length_eq_zero_iff.mp (by omega))
        refine node ((ihr he.2.2 (by omega) hkr hr).imp (fun h => ⟨hlnil, h⟩) fun h => ?_)
        omega
      · have hsome := nonempty he.2.1 hkl
        have hrnil := names_eq_nil_of_forall hrn (List.length_eq_zero_iff.mp (by omega))
        refine node ((ihl he.2.1 (by omega) hkl hl).imp (fun h => ⟨h, hrnil⟩) fun h => ?_)
        omega

/-- A formula keeps apart with any arithmetic that computes the same and more. -/
theorem Expr.KeepsApart.of_refines {B : Arithmetic α} (hAB : A.Refines B) (hops : OperatorKind ops)
    {scope : Scope α} {e e' : Expr α} (he : e.HasOperators ops)
    (hone : (e.unbound scope).length ≤ 1) (hk : e.KeepsApart A scope)
    (h : e.simplify A scope = .ok e') : e.KeepsApart B scope := by
  induction e generalizing e' with
  | atom x => trivial
  | node l op r ihl ihr =>
      rw [Expr.unbound_node, List.length_append] at hone
      obtain ⟨l', hl, h⟩ := bind_eq_ok.mp h
      obtain ⟨r', hr, h⟩ := bind_eq_ok.mp h
      refine ⟨ihl he.2.1 (by omega) hk.1 hl, ihr he.2.2 (by omega) hk.2.1 hr, ?_⟩
      rw [refines_simplify hAB scope l l' hl, refines_simplify hAB scope r r' hr]
      show ¬ Spreads B op l' r'
      rintro ⟨hbeside, hcopies⟩
      have hln := (isTidy_simplify hops he.2.1 (by omega) hl).2
      have hrn := (isTidy_simplify hops he.2.2 (by omega) hr).2
      have hclosed := names_eq_nil_or hone hln hrn
      -- both arithmetics find the same formula, and with it the same copies
      have hA := (rewrites_of_rule h).length_names_eq_copies hbeside hclosed
      have hB := (rewrites_of_rule (refines_rule hAB op l' r' e' h)).length_names_eq_copies hbeside
        hclosed
      exact (hk.2.2.of_ok hl).of_ok hr ⟨hbeside, hA ▸ hB ▸ hcopies⟩

/-! ### Lost occurrences -/

/-- An inert sum does not end with zero. -/
theorem Inert.not_equals_zero {op : Operator} {s : Sign} (hs : op.sign? = some s) {l : Expr α}
    {m : α} (h : Inert A op l (.number m)) : A.equals m A.zero ≠ .ok true := by
  intro h0
  have hfixed := h.fixed
  rw [rule_of_sign? A hs] at hfixed
  cases l with
  | atom x =>
      cases x with
      | number n =>
          obtain ⟨c, -, hc⟩ := bind_eq_ok.mp hfixed
          cases pure_eq_ok.mp hc
      | _ =>
          simp only [combine, h0] at hfixed
          cases Except.ok.inj hfixed
  | node a op' b =>
      simp only [combine, h0] at hfixed
      have hl : Expr.node a op' b = .node (.node a op' b) op (.number m) := Except.ok.inj hfixed
      have hsize := congrArg Expr.size hl
      simp [Expr.size] at hsize

/-- A tidy formula that is not zero has a term that is not zero. -/
theorem Expr.IsTidy.weight_pos {e : Expr α} (he : e.IsTidy A ops)
    (h0 : ∀ m, e = .number m → A.equals m A.zero ≠ .ok true) : 1 ≤ e.weight A := by
  induction e with
  | atom x =>
      cases x with
      | number m =>
          have := h0 m rfl
          simp only [Expr.weight]
          split
          · exact le_rfl
          · contradiction
          · exact le_rfl
      | _ => exact le_rfl
  | node a op b _ ihb =>
      cases hs : op.sign? with
      | none => rw [Expr.weight_eq_one (by simp [Expr.IsSum, hs])]
      | some s =>
          rw [Expr.weight_node hs]
          have hb := ihb he.2.2.2.2 fun m hm => (hm ▸ he.2.1).not_equals_zero hs
          omega

/-- A sum has a term. -/
theorem Expr.terms_pos (e : Expr α) : 1 ≤ e.terms := by
  induction e with
  | atom x => exact le_rfl
  | node a op b iha _ =>
      unfold Expr.terms
      split <;> omega

/-- A variable beside a tidy sum comes to stand in one term at least. -/
theorem copies_pos {op : Operator} {l r : Expr α} (h : BesideSum op l r) (hl : l.IsTidy A ops)
    (hr : r.IsTidy A ops) : 1 ≤ copies A op l r := by
  have sum {e : Expr α} (he : e.IsTidy A ops) (hsum : e.IsSum) : 1 ≤ e.weight A := by
    refine he.weight_pos ?_
    rintro m rfl
    exact hsum.elim
  cases op with
  | multiply =>
      obtain ⟨hx, hsum⟩ | ⟨hsum, hx⟩ := h
      · cases r with
        | atom y => exact hsum.elim
        | node a op' b => exact sum hr hsum
      · obtain ⟨v, k, rfl⟩ := hx.exists_eq
        exact sum hl hsum
  | divide => exact l.terms_pos
  | add => exact h.elim
  | subtract => exact h.elim
  | power => exact h.elim
  | plusMinus => exact h.elim
  | other => exact h.elim

/-- A formula has **a zero factor** in a scope if something with a variable in it is multiplied with
zero, once simplified. -/
def Expr.HasZeroFactor [Field K] (A : Arithmetic α) (val : α → K) (scope : Scope α) :
    Expr α → Prop
  | .atom _ => False
  | .node l op r => l.HasZeroFactor A val scope ∨ r.HasZeroFactor A val scope ∨
      op = .multiply ∧ ∃ l' r', l.simplify A scope = .ok l' ∧ r.simplify A scope = .ok r' ∧
        (l'.IsZero val ∧ r'.names ≠ [] ∨ l'.names ≠ [] ∧ r'.IsZero val)

/-- A formula has a zero factor with any arithmetic that computes the same and more. -/
theorem Expr.HasZeroFactor.of_refines [Field K] {B : Arithmetic α} (hAB : A.Refines B) {val : α → K}
    {scope : Scope α} {e : Expr α} (h : e.HasZeroFactor A val scope) :
    e.HasZeroFactor B val scope := by
  induction e with
  | atom x => exact h
  | node l op r ihl ihr =>
      obtain h | h | ⟨hop, l', r', hl, hr, hzero⟩ := h
      · exact .inl (ihl h)
      · exact .inr (.inl (ihr h))
      · exact .inr (.inr ⟨hop, l', r', refines_simplify hAB scope l l' hl,
          refines_simplify hAB scope r r' hr, hzero⟩)

/-- **A variable is lost only by a zero factor** in exact arithmetic. -/
theorem length_unbound_le [Field K] [DecidableEq K] {val : α → K} (hA : A.IsExact val)
    (hops : OperatorKind ops) {scope : Scope α} {e e' : Expr α} (he : e.HasOperators ops)
    (hone : (e.unbound scope).length ≤ 1) (hz : ¬ e.HasZeroFactor A val scope)
    (h : e.simplify A scope = .ok e') : (e.unbound scope).length ≤ e'.names.length := by
  induction e generalizing e' with
  | atom x =>
      obtain ⟨rfl, hnone⟩ | ⟨y, c, v, w, rfl, hv, -, -⟩ := atom_cases h
      · rw [Expr.unbound_eq_names hnone]
      · simp [Expr.unbound, Expr.names, hv]
  | node l op r ihl ihr =>
      rw [Expr.unbound_node, List.length_append] at hone ⊢
      obtain ⟨l', r', hl, hr, hrw⟩ := rewrites_of_simplify h
      have hll := ihl he.2.1 (by omega) (fun h => hz (.inl h)) hl
      have hrl := ihr he.2.2 (by omega) (fun h => hz (.inr (.inl h))) hr
      obtain ⟨hl', hln⟩ := isTidy_simplify hops he.2.1 (by omega) hl
      obtain ⟨hr', hrn⟩ := isTidy_simplify hops he.2.2 (by omega) hr
      have hclosed := names_eq_nil_or hone hln hrn
      by_cases hbeside : BesideSum op l' r'
      · rw [hrw.length_names_eq_copies hbeside hclosed]
        have := copies_pos hbeside hl' hr'
        omega
      · have hzero : op = .multiply →
            (r'.names ≠ [] → ¬ l'.IsZero val) ∧ (l'.names ≠ [] → ¬ r'.IsZero val) := fun hop =>
          ⟨fun hn h0 => hz (.inr (.inr ⟨hop, l', r', hl, hr, .inl ⟨h0, hn⟩⟩)),
            fun hn h0 => hz (.inr (.inr ⟨hop, l', r', hl, hr, .inr ⟨hn, h0⟩⟩))⟩
        have := hrw.le_length_names hA hops he.1 (fun _ => hclosed) hl' hr' hbeside hzero
        omega

end Argand
