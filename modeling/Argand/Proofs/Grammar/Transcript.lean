import Argand.Primitive
import Argand.Proofs.Grammar.Cursors
import Argand.Proofs.Grammar.Following

/-!
# Reading loses, invents and reorders nothing

A formula read from left to right, its leaves and operators in the order of the tree, is the row of
tokens it was read from, with three changes: brackets are left out, a product sign stands wherever a
value begins directly after another one, and a zero stands in front of every minus sign where a
value is wanted. Each step of a derivation keeps what is written so far in front of what is still to
be read, so the rules need not be looked at under a budget.

## Main definitions

* `Argand.Symbol`, `Argand.Expr.symbols`: the leaves and operators of a formula in a row.
* `Argand.symbolsOf`: those that some tokens stand for.

## Main results

* `Argand.Grammar.Derives.symbols`: a derivation keeps the row of symbols.
* `Argand.symbols_of_formula`: a formula is its tokens, and all of them are read.
-/

namespace Argand

variable {α : Type}

/-! ### Rows of symbols -/

/-- A **symbol** of a formula: a leaf or an operator. -/
inductive Symbol (α : Type) where
  | leaf (x : Atom α)
  | operator (op : Operator)
deriving Repr, DecidableEq

/-- The **symbols of a formula**, from left to right. -/
def Expr.symbols : Expr α → List (Symbol α)
  | .atom x => [.leaf x]
  | .node l op r => l.symbols ++ .operator op :: r.symbols

variable (A : Arithmetic α)

/-- The leaf that a token is, if it is one. -/
def Token.leaf? (t : Token) : Option (Atom α) :=
  match t.kind with
  | .number => some (.number (A.literal t.text))
  | .letter => some (.scaled t.text.toLower A.one)
  | .constant => some (.constant t.text)
  | .opening _ | .closing _ | .operator => none

/-- The product sign between a value and what begins another one directly after it. -/
def productSign (hasValue : Bool) : List (Symbol α) :=
  if hasValue then [.operator .multiply] else []

/-- The zero in front of a minus sign that stands where a value is wanted. -/
def signZero (hasValue : Bool) (t : Token) : List (Symbol α) :=
  if hasValue = false ∧ t.text = "-" then [.leaf (.number A.zero)] else []

/-- The **symbols that tokens stand for**, directly after a value or where one is wanted. -/
def symbolsOf (hasValue : Bool) : List Token → List (Symbol α)
  | [] => []
  | t :: ts =>
    match t.kind, t.leaf? A with
    | .closing _, _ => symbolsOf true ts
    | .operator, _ =>
      signZero A hasValue t ++ .operator (Operator.ofSymbol t.text) :: symbolsOf false ts
    | _, some x => productSign hasValue ++ .leaf x :: symbolsOf true ts
    | _, none => productSign hasValue ++ symbolsOf false ts

variable {A}

/-- After a value, an operator stands for itself. -/
theorem symbolsOf_operator {t : Token} {ts : List Token} {among : List Operator} {op : Operator}
    (h : Grammar.operatorAt? (t :: ts) among = some op) :
    symbolsOf A true (t :: ts) = .operator op :: symbolsOf A false ts := by
  obtain ⟨_, _, heq, hkind, hop, -⟩ := Grammar.exists_of_operatorAt? h
  cases heq
  simp [symbolsOf, hkind, hop, signZero]

/-- A value directly after another one is a factor. -/
theorem symbolsOf_value {ts : List Token} (h : Grammar.valueAt ts = true) :
    symbolsOf A true ts = .operator .multiply :: symbolsOf A false ts := by
  cases ts with
  | nil => cases h
  | cons t ts =>
      have hbegins : t.kind.beginsValue = true := h
      cases hkind : t.kind <;>
        simp_all [symbolsOf, Token.leaf?, productSign, TokenKind.beginsValue]

/-- A bracket stands for nothing. -/
theorem symbolsOf_opening {t : Token} {b : Bracket} (ht : t.kind = .opening b) (ts : List Token) :
    symbolsOf A false (t :: ts) = symbolsOf A false ts := by
  simp [symbolsOf, ht, Token.leaf?, productSign]

theorem symbolsOf_closing {t : Token} {b : Bracket} (ht : t.kind = .closing b) (ts : List Token) :
    symbolsOf A true (t :: ts) = symbolsOf A true ts := by
  simp [symbolsOf, ht]

/-- A minus sign where a value is wanted is a difference from zero. -/
theorem symbolsOf_minus {t : Token} (ht : t.kind = .operator) (htext : t.text = "-")
    (ts : List Token) : symbolsOf A false (t :: ts) =
      .leaf (.number A.zero) :: .operator .subtract :: symbolsOf A false ts := by
  simp [symbolsOf, ht, htext, signZero, Operator.ofSymbol]

/-! ### Derivations keep them -/

namespace Grammar

/-- A value that is a single token is its leaf. -/
theorem symbols_of_tokenReading? {t : Token} {ts us : List Token} {e : Expr α}
    (h : tokenReading? A t ts = some (.ok (e, us))) :
    symbolsOf A false (t :: ts) = e.symbols ++ symbolsOf A true us := by
  obtain rfl := eq_of_tokenReading? h
  obtain ⟨hkind, rfl⟩ | ⟨hkind, rfl⟩ | ⟨hkind, -, rfl⟩ := leaf_of_tokenReading? h <;>
    simp [symbolsOf, hkind, Token.leaf?, productSign, Expr.symbols]

/-- The symbols of a reading: those of its formula, and those that the tokens left stand for. -/
def Reading.symbols (A : Arithmetic α) : Reading α → List (Symbol α)
  | .ok (e, ts) => e.symbols ++ symbolsOf A true ts
  | .error _ => []

/-- The symbols of a goal. A rule begins where a value is wanted. -/
def Goal.symbols (A : Arithmetic α) : Goal α → List (Symbol α)
  | .rule _ ts => symbolsOf A false ts
  | .more _ r => r.symbols A

/-- What comes after an operator comes after its first operand in the row. -/
theorem Reading.symbols_after (e e' : Expr α) (op : Operator) (ts : List Token) :
    (Reading.after e op (.ok (e', ts))).symbols A =
      e.symbols ++ .operator op :: Reading.symbols A (.ok (e', ts)) := by
  simp [Reading.symbols, Expr.symbols]

/-- **A derivation keeps the symbols**: those that its tokens stand for are those of the formula and
of the tokens left. -/
theorem Derives.symbols {g : Goal α} {r : Reading α} (h : Derives A g r) {e : Expr α}
    {ts : List Token} (hr : r = .ok (e, ts)) : g.symbols A = r.symbols A := by
  induction h generalizing e ts with
  | @operand _ _ _ r _ _ _ hmore ih ihmore =>
      rcases r with f | ⟨e', us⟩
      · cases hmore
        cases hr
      · exact (ih rfl).trans (ihmore hr)
  | failed => cases hr
  | stop => rfl
  | @link _ _ e₁ op t us r _ _ hop _ _ hmore ih ihmore =>
      rcases r with f | ⟨e', vs⟩
      · cases hmore
        cases hr
      · rw [← ihmore hr, Goal.symbols, Goal.symbols, Reading.symbols_after, ← ih rfl,
          Reading.symbols, symbolsOf_operator hop]
        rfl
  | @exponent e₁ op t us r hop _ ih =>
      obtain ⟨e', rfl, -⟩ := Reading.after_eq_ok hr
      obtain ⟨_, _, -, -, -, hmem⟩ := exists_of_operatorAt? hop
      obtain rfl := List.mem_singleton.mp hmem
      rw [Goal.symbols, Reading.symbols_after, ← ih rfl, Reading.symbols, symbolsOf_operator hop]
      rfl
  | factor _ _ hvalue _ ih =>
      obtain ⟨e', rfl, -⟩ := Reading.after_eq_ok hr
      rw [Goal.symbols, Reading.symbols_after, ← ih rfl, Reading.symbols, symbolsOf_value hvalue]
      rfl
  | nothing => cases hr
  | bracket hkind _ ih =>
      obtain ⟨t', hclosing, rfl⟩ := Reading.within_eq_ok hr
      rw [hr, Goal.symbols, symbolsOf_opening hkind, Reading.symbols, ← symbolsOf_closing hclosing]
      exact ih rfl
  | token ht =>
      subst hr
      exact symbols_of_tokenReading? ht
  | negative hkind htext _ ih =>
      obtain ⟨e', rfl, -⟩ := Reading.after_eq_ok hr
      rw [Goal.symbols, symbolsOf_minus hkind htext, Reading.symbols_after, ← ih rfl]
      rfl

end Grammar

/-! ### Formulas -/

/-- **A formula that is read is its tokens**, without the brackets, with the product signs and the
zeros that are left out in them; and all of the tokens are read. -/
theorem symbols_of_formula {l : DepthLimit} {tokens : List Token} {e : Expr α} {c : Cursor}
    (h : Grammar.formula A l (!tokens.isEmpty) (.start tokens) = .done e c) :
    e.symbols = symbolsOf A false tokens ∧ c.rest = [] ∧ c.consumed = tokens.length := by
  have hderives : Grammar.Derives A (.rule .expression tokens) (.ok (e, [])) :=
    Grammar.derives_of_formula (congrArg Outcome.toExcept h)
  refine ⟨?_, Grammar.consumed_of_formula h⟩
  calc e.symbols = e.symbols ++ symbolsOf A true [] := (List.append_nil _).symm
    _ = symbolsOf A false tokens := (hderives.symbols rfl).symm

/-- In `-(X)2`, a zero and a product sign are left out. -/
theorem symbols_of_formula_factor :
    let tokens : List Token := [⟨.operator, "-", 0⟩, ⟨.opening .paren, "(", 1⟩, ⟨.letter, "X", 2⟩,
      ⟨.closing .paren, ")", 3⟩, ⟨.number, "2", 4⟩]
    ∃ e c, Grammar.formula calculator (.ofInt 10) true (.start tokens) = .done e c ∧
      e.symbols = [.leaf (.number calculator.zero), .operator .subtract,
        .leaf (.scaled "x" calculator.one), .operator .multiply,
        .leaf (.number (calculator.literal "2"))] ∧
      c.consumed = 5 := by
  intro tokens
  have hread : (Grammar.formula calculator (.ofInt 10) (!tokens.isEmpty) (.start tokens)).fault? =
      none := by decide +kernel
  cases h : Grammar.formula calculator (.ofInt 10) (!tokens.isEmpty) (.start tokens) with
  | failed f c =>
      rw [h] at hread
      cases hread
  | done e c =>
      obtain ⟨hsymbols, -, hconsumed⟩ := symbols_of_formula h
      refine ⟨e, c, h, hsymbols.trans ?_, hconsumed⟩
      have hname : "X".toLower = "x" := by decide +kernel
      simp [symbolsOf, tokens, signZero, productSign, Token.leaf?, Operator.ofSymbol, hname]

end Argand
