import Argand.Primitive
import Argand.Proofs.Grammar.Following

/-!
# Printed formulas

A formula is printed with all its operators, and with brackets around an operand exactly where it
does not bind tightly enough. The brackets of a pair may be of any kind, and a variable may be
written in either case. However it is printed, the grammar reads it back.

## Main definitions

* `Argand.Operator.rank`, `Argand.Expr.rank`: how tightly operators and formulas bind.
* `Argand.Printed`: the ways to print a formula.
* `Argand.Expr.IsPrintable`: the formulas that can be printed.

## Main results

* `Argand.exists_printed`: every printable formula can be printed.
* `Argand.printed_formula_read`: the grammar reads back what is printed.
-/

namespace Argand

variable {α : Type}

/-! ### Ranks -/

/-- How tightly an operator **binds** its operands. -/
def Operator.rank : Operator → Nat
  | .power => 2
  | .multiply | .divide => 1
  | _ => 0

/-- How tightly a formula **binds**; leaves do most. -/
def Expr.rank : Expr α → Nat
  | .node _ op _ => op.rank
  | .atom _ => 3

/-- How tightly the left operand of an operator has to bind. All operators but `^` associate to
the left. -/
def Operator.leftNeed : Operator → Nat
  | .power => 3
  | .multiply | .divide => 1
  | _ => 0

/-- How tightly the right operand of an operator has to bind. -/
def Operator.rightNeed : Operator → Nat
  | .power | .multiply | .divide => 2
  | _ => 1

/-! ### Printing -/

/-- The operators of formulas. -/
def arithmeticOperators : List Operator := [.add, .subtract, .multiply, .divide, .power]

/-- The ways to **print** a formula that has to bind as tightly as needed. -/
inductive Printed (A : Arithmetic α) : Nat → Expr α → List Token → Prop
  | numeral {need : Nat} {t : Token} {text : String} : need ≤ 3 → t.kind = .number →
      t.text = text → Printed A need (Expr.number (A.literal text)) [t]
  | constant {need : Nat} {t : Token} {name : String} : need ≤ 3 → t.kind = .constant →
      t.text = name → Printed A need (.atom (.constant name)) [t]
  | letter {need : Nat} {t : Token} {name : String} : need ≤ 3 → t.kind = .letter →
      name ∈ Grammar.variableNames → t.text.toLower = name →
      Printed A need (Expr.scaled name A.one) [t]
  | node {need : Nat} {l r : Expr α} {op : Operator} {ls rs : List Token} {t : Token} :
      need ≤ op.rank → op ∈ arithmeticOperators → t.kind = .operator → t.text = op.symbol →
      Printed A op.leftNeed l ls → Printed A op.rightNeed r rs →
      Printed A need (.node l op r) (ls ++ t :: rs)
  | bracketed {need : Nat} {e : Expr α} {ts : List Token} {t t' : Token} {b : Bracket} :
      e.rank < need → t.kind = .opening b → t'.kind = .closing b → Printed A 0 e ts →
      Printed A need e (t :: ts ++ [t'])

/-- A formula that **can be printed**: its leaves are numerals, constants and variables without a
factor. -/
def Expr.IsPrintable (A : Arithmetic α) : Expr α → Prop
  | .number a => ∃ text, a = A.literal text
  | .scaled name c => name ∈ Grammar.variableNames ∧ c = A.one
  | .atom (.constant _) => True
  | .atom _ => False
  | .node l op r => op ∈ arithmeticOperators ∧ l.IsPrintable A ∧ r.IsPrintable A

variable {A : Arithmetic α}

/-- **Every printable formula can be printed**, however tightly it has to bind. -/
theorem exists_printed {e : Expr α} (he : e.IsPrintable A) {need : Nat} (hneed : need ≤ 3) :
    ∃ ts, Printed A need e ts := by
  induction e generalizing need with
  | atom a =>
      cases a with
      | number a =>
          obtain ⟨text, rfl⟩ := he
          exact ⟨[⟨.number, text, 0⟩], .numeral hneed rfl rfl⟩
      | scaled name c =>
          obtain ⟨hname, rfl⟩ := he
          have hlower : ∀ x ∈ Grammar.variableNames, x.toLower = x := by decide +kernel
          exact ⟨[⟨.letter, name, 0⟩], .letter hneed rfl hname (hlower name hname)⟩
      | constant x => exact ⟨[⟨.constant, x, 0⟩], .constant hneed rfl rfl⟩
      | list | stray => exact absurd he id
  | node l op r ihl ihr =>
      obtain ⟨hop, hl, hr⟩ := he
      have hneeds : ∀ op ∈ arithmeticOperators, op.leftNeed ≤ 3 ∧ op.rightNeed ≤ 3 := by decide
      obtain ⟨ls, hls⟩ := ihl hl (hneeds op hop).1
      obtain ⟨rs, hrs⟩ := ihr hr (hneeds op hop).2
      have node {need : Nat} (hrank : need ≤ op.rank) :
          Printed A need (.node l op r) (ls ++ ⟨.operator, op.symbol, 0⟩ :: rs) :=
        .node hrank hop rfl rfl hls hrs
      obtain hrank | hrank := Nat.lt_or_ge op.rank need
      · have h : Printed A need (.node l op r) (⟨.opening .paren, "(", 0⟩ ::
            (ls ++ ⟨.operator, op.symbol, 0⟩ :: rs) ++ [⟨.closing .paren, ")", 0⟩]) :=
          .bracketed hrank rfl rfl (node (Nat.zero_le _))
        exact ⟨_, h⟩
      · exact ⟨_, node hrank⟩

namespace Grammar

/-! ### Where rules stop -/

/-- All rules stop at the end. -/
theorem Name.StopsAt.nil (name : Name) : name.StopsAt [] :=
  fun _ _ => ⟨rfl, fun _ => rfl⟩

/-- All rules stop in front of a closing bracket. -/
theorem Name.StopsAt.of_closing (name : Name) {t : Token} {b : Bracket}
    (ht : t.kind = .closing b) (ts : List Token) : name.StopsAt (t :: ts) := by
  intro part _
  constructor
  · refine Option.eq_none_iff_forall_ne_some.mpr fun op hop => ?_
    obtain ⟨_, _, heq, hkind, -⟩ := exists_of_operatorAt? hop
    cases heq
    cases ht.symm.trans hkind
  · exact fun _ => by simp [valueAt, Cursor.atValue, Cursor.current?, Cursor.start, ht,
      TokenKind.beginsValue]

/-- A rule stops in front of an operator of none of the rules that end with it. -/
theorem Name.StopsAt.of_operator {name : Name} {t : Token} {op : Operator}
    (ht : t.kind = .operator) (htext : Operator.ofSymbol t.text = op)
    (h : ∀ part ∈ name.parts, op ∉ part.operators) (ts : List Token) : name.StopsAt (t :: ts) := by
  intro part hpart
  constructor
  · refine Option.eq_none_iff_forall_ne_some.mpr fun op' hop => ?_
    obtain ⟨_, _, heq, -, hsymbol, hmem⟩ := exists_of_operatorAt? hop
    cases heq
    obtain rfl := hsymbol.symm.trans htext
    exact h part hpart hmem
  · exact fun _ => by simp [valueAt, Cursor.atValue, Cursor.current?, Cursor.start, ht,
      TokenKind.beginsValue]

/-- An operator in front of some tokens. -/
theorem operatorAt?_cons {t : Token} {op : Operator} {among : List Operator}
    (ht : t.kind = .operator) (htext : Operator.ofSymbol t.text = op) (hmem : op ∈ among)
    (ts : List Token) : operatorAt? (t :: ts) among = some op := by
  simp [operatorAt?, Cursor.operator?, Cursor.current?, Cursor.start, ht, htext, hmem]

/-! ### Reading back -/

/-- Some tokens are **read back** as a formula that binds as tightly as needed: by the rule of that
rank, in front of whatever that rule stops at. A chain may go on after its first operands. -/
def ReadBack (A : Arithmetic α) (e : Expr α) (ts : List Token) : Nat → Prop
  | 0 => ∀ rest r, Name.multiplication.StopsAt rest →
    Derives A (.more .addition (.ok (e, rest))) r → Derives A (.rule .addition (ts ++ rest)) r
  | 1 => ∀ rest r, Name.powerValue.StopsAt rest →
    Derives A (.more .multiplication (.ok (e, rest))) r →
    Derives A (.rule .multiplication (ts ++ rest)) r
  | 2 => ∀ rest, Name.powerValue.StopsAt rest →
    Derives A (.rule .power (ts ++ rest)) (.ok (e, rest))
  | _ => ∀ rest, Derives A (.rule .value (ts ++ rest)) (.ok (e, rest))

section

variable {e l r : Expr α} {ts ls rs : List Token} {t : Token} {op : Operator} {m n : Nat}

/-- What binds more tightly is read back where it need not. -/
theorem ReadBack.pred (h : ReadBack A e ts (n + 1)) : ReadBack A e ts n := by
  match n with
  | 0 =>
      intro rest r hstop hmore
      have hend := hstop .multiplication (by decide)
      exact .operand rfl (h rest _ (.of_factor rfl hstop) (.stop hend)) hmore
  | 1 =>
      intro rest r hstop hmore
      exact .operand rfl (h rest hstop) hmore
  | 2 =>
      intro rest hstop
      exact .operand rfl (h rest) (.stop (hstop .power (by decide)))
  | n + 3 => exact h

theorem ReadBack.mono (h : ReadBack A e ts n) (hle : m ≤ n) : ReadBack A e ts m := by
  induction n with
  | zero =>
      obtain rfl := Nat.le_zero.mp hle
      exact h
  | succ n ih =>
      obtain rfl | hlt := Nat.eq_or_lt_of_le hle
      · exact h
      · exact ih h.pred (Nat.le_of_lt_succ hlt)

/-- What is read back as a value is so wherever it stands. -/
theorem ReadBack.of_value (h : ReadBack A e ts 3) : ReadBack A e ts n := by
  obtain hle | hle := Nat.le_total n 3
  · exact h.mono hle
  · obtain ⟨k, rfl⟩ := Nat.exists_eq_add_of_le' hle
    exact h

/-- A single token. -/
theorem readBack_token (h : ∀ rest, tokenReading? A t rest = some (.ok (e, rest))) :
    ReadBack A e [t] 3 :=
  fun rest => .token (h rest)

/-- A formula in brackets. -/
theorem ReadBack.bracketed (h : ReadBack A e ts 0) {t' : Token} {b : Bracket}
    (ht : t.kind = .opening b) (ht' : t'.kind = .closing b) :
    ReadBack A e (t :: ts ++ [t']) 3 := by
  intro rest
  have hstop (name : Name) : name.StopsAt (t' :: rest) := .of_closing name ht' rest
  have hsum : Derives A (.rule .addition (ts ++ t' :: rest)) (.ok (e, t' :: rest)) :=
    h _ _ (hstop _) (.stop (hstop .addition _ (by decide)))
  have hinner : Derives A (.rule .expression (ts ++ t' :: rest)) (.ok (e, t' :: rest)) :=
    .operand rfl hsum (.stop (hstop .expression _ (by decide)))
  have hbracket := Derives.bracket ht hinner
  rw [Reading.within, if_pos ht'] at hbracket
  simpa using hbracket

/-- A power. -/
theorem ReadBack.power (hl : ReadBack A l ls 3) (hr : ReadBack A r rs 2)
    (ht : t.kind = .operator) (htext : Operator.ofSymbol t.text = .power) :
    ReadBack A (.node l .power r) (ls ++ t :: rs) 2 := by
  intro rest hstop
  have hexponent : Derives A (.rule .powerValue (rs ++ rest)) (.ok (r, rest)) :=
    .operand rfl (hr rest hstop) (.stop (hstop .powerValue (by decide)))
  have hmore := Derives.exponent (e := l) (operatorAt?_cons ht htext (by decide) _) hexponent
  rw [List.append_assoc, List.cons_append]
  exact .operand rfl (hl _) hmore

/-- A link of a product. -/
theorem ReadBack.product (hl : ReadBack A l ls 1) (hr : ReadBack A r rs 2)
    (ht : t.kind = .operator) (htext : Operator.ofSymbol t.text = op)
    (hop : op ∈ Name.multiplication.operators) :
    ReadBack A (.node l op r) (ls ++ t :: rs) 1 := by
  intro rest r' hstop hmore
  -- the left operand ends in front of the operator, which continues no power
  have hnone : ∀ op ∈ Name.multiplication.operators, ∀ part ∈ Name.powerValue.parts,
      op ∉ part.operators := by decide
  rw [List.append_assoc, List.cons_append]
  exact hl _ _ (.of_operator ht htext (hnone op hop) _)
    (.link (by decide) (operatorAt?_cons ht htext hop _) rfl (hr rest hstop) hmore)

/-- A link of a sum. -/
theorem ReadBack.sum (hl : ReadBack A l ls 0) (hr : ReadBack A r rs 1)
    (ht : t.kind = .operator) (htext : Operator.ofSymbol t.text = op)
    (hop : op ∈ Name.addition.operators) :
    ReadBack A (.node l op r) (ls ++ t :: rs) 0 := by
  intro rest r' hstop hmore
  have hnone : ∀ op ∈ Name.addition.operators, ∀ part ∈ Name.multiplication.parts,
      op ∉ part.operators := by decide
  have hright : Derives A (.rule .multiplication (rs ++ rest)) (.ok (r, rest)) :=
    hr _ _ (.of_factor rfl hstop) (.stop (hstop .multiplication (by decide)))
  rw [List.append_assoc, List.cons_append]
  exact hl _ _ (.of_operator ht htext (hnone op hop) _)
    (.link (by decide) (operatorAt?_cons ht htext hop _) rfl hright hmore)

/-- A formula of two operands. -/
theorem ReadBack.node (hop : op ∈ arithmeticOperators) (hl : ReadBack A l ls op.leftNeed)
    (hr : ReadBack A r rs op.rightNeed) (ht : t.kind = .operator) (htext : t.text = op.symbol) :
    ReadBack A (.node l op r) (ls ++ t :: rs) op.rank := by
  have hsymbol : ∀ op ∈ arithmeticOperators, Operator.ofSymbol op.symbol = op := by decide
  have htext : Operator.ofSymbol t.text = op := htext ▸ hsymbol op hop
  cases op with
  | power => exact hl.power hr ht htext
  | multiply | divide => exact hl.product hr ht htext (by decide)
  | add | subtract => exact hl.sum hr ht htext (by decide)
  | plusMinus => exact absurd hop (by decide)
  | other => simp [arithmeticOperators] at hop

end

/-- **Everything printed is read back.** -/
theorem readBack_of_printed {e : Expr α} {ts : List Token} {need : Nat}
    (h : Printed A need e ts) : ReadBack A e ts need := by
  induction h with
  | numeral _ ht htext | constant _ ht htext =>
      exact (readBack_token fun _ => by simp [tokenReading?, ht, htext]).of_value
  | letter _ ht hname hlower =>
      have hfree : ∀ name ∈ variableNames, reservedNames.contains name = false := by
        decide +kernel
      refine (readBack_token fun _ => ?_).of_value
      simp only [tokenReading?, ht, hlower, hfree _ hname, Bool.false_eq_true, if_false]
  | node hneed hop ht htext _ _ ihl ihr => exact (ihl.node hop ihr ht htext).mono hneed
  | bracketed _ ht ht' _ ih => exact (ih.bracketed ht ht').of_value

end Grammar

/-- **The grammar reads back what is printed**: every printable formula can be printed, and
whatever brackets and cases are chosen, with three levels for each token and three more it is read
from what is printed. -/
theorem printed_formula_read {e : Expr α} (he : e.IsPrintable A) :
    (∃ tokens, Printed A 0 e tokens) ∧
      ∀ tokens, Printed A 0 e tokens → ∀ n : Int, 3 * (tokens.length + 1) ≤ n →
        (Grammar.formula A (.ofInt n) (!tokens.isEmpty) (Cursor.start tokens)).toExcept = .ok e := by
  refine ⟨exists_printed he (by decide), fun tokens h n hn => ?_⟩
  have hstop (name : Grammar.Name) : name.StopsAt [] := .nil name
  have hsum : Grammar.Derives A (.rule .addition (tokens ++ [])) (.ok (e, [])) :=
    Grammar.readBack_of_printed h [] _ (hstop _) (.stop (hstop .addition _ (by decide)))
  have hread : Grammar.Derives A (.rule .expression tokens) (.ok (e, [])) :=
    .operand rfl (List.append_nil tokens ▸ hsum) (.stop (hstop .expression _ (by decide)))
  rw [Grammar.toExcept_formula (Grammar.allows_ofInt (by push_cast; exact hn)) hread]
  rfl

/-- `2^[X-y]` is a power with a difference as exponent. -/
theorem printed_formula_read_power :
    (Grammar.formula calculator (.ofInt 24) true (Cursor.start
      [⟨.number, "2", 0⟩, ⟨.operator, "^", 1⟩, ⟨.opening .square, "[", 2⟩, ⟨.letter, "X", 3⟩,
        ⟨.operator, "-", 4⟩, ⟨.letter, "y", 5⟩, ⟨.closing .square, "]", 6⟩])).toExcept =
      .ok (.node (Expr.number (calculator.literal "2")) .power
        (.node (Expr.scaled "x" calculator.one) .subtract (Expr.scaled "y" calculator.one))) := by
  have hx : Printed calculator 0 (Expr.scaled "x" calculator.one) [⟨.letter, "X", 3⟩] :=
    .letter (by decide) rfl (by decide +kernel) (by decide +kernel)
  have hy : Printed calculator 1 (Expr.scaled "y" calculator.one) [⟨.letter, "y", 5⟩] :=
    .letter (by decide) rfl (by decide +kernel) (by decide +kernel)
  have hdifference : Printed calculator 0
      (.node (Expr.scaled "x" calculator.one) .subtract (Expr.scaled "y" calculator.one))
      ([⟨.letter, "X", 3⟩] ++ ⟨.operator, "-", 4⟩ :: [⟨.letter, "y", 5⟩]) :=
    .node (by decide) (by decide) rfl rfl hx hy
  have hexponent : Printed calculator 2
      (.node (Expr.scaled "x" calculator.one) .subtract (Expr.scaled "y" calculator.one))
      (⟨.opening .square, "[", 2⟩ ::
        [⟨.letter, "X", 3⟩, ⟨.operator, "-", 4⟩, ⟨.letter, "y", 5⟩] ++
          [⟨.closing .square, "]", 6⟩]) :=
    .bracketed (by decide) rfl rfl hdifference
  have hbase : Printed calculator 3 (Expr.number (calculator.literal "2")) [⟨.number, "2", 0⟩] :=
    .numeral (by decide) rfl rfl
  have hprinted : Printed calculator 0 _ (_ ++ ⟨.operator, "^", 1⟩ :: _) :=
    .node (Nat.zero_le _) (by decide : Operator.power ∈ arithmeticOperators) rfl rfl hbase hexponent
  have hprintable : (Expr.node (Expr.number (calculator.literal "2")) .power
      (.node (Expr.scaled "x" calculator.one) .subtract
        (Expr.scaled "y" calculator.one))).IsPrintable calculator :=
    ⟨by decide, ⟨"2", rfl⟩, by decide, ⟨by decide +kernel, rfl⟩, by decide +kernel, rfl⟩
  exact (printed_formula_read hprintable).2 _ hprinted 24 (by decide)

end Argand
