import Argand.Primitive
import Argand.Proofs.Grammar.Following
import Argand.Proofs.Tokens

/-!
# In front of which tokens rules end

A rule that has read a formula stops in front of a token that none of the rules ending with it can
go on with. The operators of a text are five, so little is left: a power ends in front of anything
but `^`, a product in front of `+`, `-`, a closing bracket or the end, and a sum in front of a
closing bracket or the end. A sum therefore never leaves a factor to the expression around it, and
all that can be wrong after a whole formula is a closing bracket too many.

## Main definitions

* `Argand.Grammar.Name.EndsBefore`: the tokens that may follow what a rule has read.

## Main results

* `Argand.Grammar.endsBefore_of_rule`: what follows a rule.
* `Argand.Grammar.expression_eq_addition`: an expression is a sum.
* `Argand.Grammar.finish_of_rule`: what is left after a whole formula.
* `Argand.Grammar.rules_stop`: all of this for the tokens of a text.
-/

namespace Argand

variable {α : Type}

/-- A token that is **an operator** with some symbol. -/
def Token.IsOperator (t : Token) (symbol : String) : Prop :=
  t.kind = .operator ∧ t.text = symbol

/-- A token that is **a closing bracket**. -/
def Token.IsClosing (t : Token) : Prop :=
  ∃ b, t.kind = .closing b

/-- No value begins with a closing bracket. -/
theorem Token.IsClosing.beginsValue {t : Token} (h : t.IsClosing) :
    t.kind.beginsValue = false := by
  obtain ⟨b, hb⟩ := h
  rw [hb]
  rfl

namespace Grammar

/-- The tokens that **may follow** what a rule has read. -/
def Name.EndsBefore (t : Token) : Name → Prop
  | .value => True
  | .power => ¬ t.IsOperator "^"
  | .powerValue => ¬ t.IsOperator "^" ∧ t.kind.beginsValue = false
  | .multiplication => t.IsOperator "+" ∨ t.IsOperator "-" ∨ t.IsClosing
  | .addition | .expression => t.IsClosing

/-! ### Tokens that stop rules -/

section Tokens

variable {t : Token} {ts : List Token}

/-- A token is no operator with a symbol that was looked for in vain. -/
theorem not_isOperator_of_operatorAt? {among : List Operator} {symbol : String}
    (h : operatorAt? (t :: ts) among = none) (hsymbol : Operator.ofSymbol symbol ∈ among) :
    ¬ t.IsOperator symbol := by
  rintro ⟨hkind, rfl⟩
  have h : (if t.kind = .operator && among.contains (Operator.ofSymbol t.text) then
    some (Operator.ofSymbol t.text) else none) = none := h
  simp [hkind, hsymbol] at h

/-- A power is not left in front of an exponent. -/
theorem Name.StopsAt.not_exponent {name : Name} (h : name.StopsAt (t :: ts))
    (hname : .power ∈ name.parts) : ¬ t.IsOperator "^" :=
  not_isOperator_of_operatorAt? (h .power hname).1 (by decide)

/-- A product is left in front of nothing but a sum and a closing bracket. -/
theorem Name.StopsAt.sum_or_closing {name : Name} (h : name.StopsAt (t :: ts))
    (hname : .multiplication ∈ name.parts) (hpower : .power ∈ name.parts) (ht : t.IsProper) :
    t.IsOperator "+" ∨ t.IsOperator "-" ∨ t.IsClosing := by
  obtain ⟨hnone, hvalue⟩ := h .multiplication hname
  have hbegins : t.kind.beginsValue = false := hvalue rfl
  cases hkind : t.kind with
  | operator =>
      have hpow := h.not_exponent hpower
      have htimes : ¬ t.IsOperator "*" := not_isOperator_of_operatorAt? hnone (by decide)
      have hover : ¬ t.IsOperator "/" := not_isOperator_of_operatorAt? hnone (by decide)
      simp only [Token.IsOperator, hkind, true_and] at hpow htimes hover ⊢
      have hfive := ht.operator hkind
      simp only [List.mem_cons, List.not_mem_nil, or_false] at hfive
      tauto
  | closing b => exact .inr (.inr ⟨b, hkind⟩)
  | opening | constant | letter | number =>
      rw [hkind] at hbegins
      cases hbegins

/-- **What stops a rule** may follow it. -/
theorem Name.StopsAt.endsBefore {name : Name} (h : name.StopsAt (t :: ts)) (ht : t.IsProper) :
    name.EndsBefore t := by
  have closing (hname : .addition ∈ name.parts) (hmul : .multiplication ∈ name.parts)
      (hpower : .power ∈ name.parts) : t.IsClosing := by
    have hnone := (h .addition hname).1
    obtain hplus | hminus | hclosing := h.sum_or_closing hmul hpower ht
    · exact absurd hplus (not_isOperator_of_operatorAt? hnone (by decide))
    · exact absurd hminus (not_isOperator_of_operatorAt? hnone (by decide))
    · exact hclosing
  cases name with
  | value => trivial
  | power => exact h.not_exponent (by decide)
  | powerValue => exact ⟨h.not_exponent (by decide), (h .powerValue (by decide)).2 rfl⟩
  | multiplication => exact h.sum_or_closing (by decide) (by decide) ht
  | addition | expression => exact closing (by decide) (by decide) (by decide)

end Tokens

/-! ### Rules -/

section Rules

variable {A : Arithmetic α} {l : DepthLimit} {budget : Nat} {c c' : Cursor} {e : Expr α}

/-- What a rule has read is derived. -/
theorem derives_of_rule {name : Name} (h : rule A l name budget c = .done e c') :
    Derives A (.rule name c.rest) (.ok (e, c'.rest)) := by
  have hends := (follows (A := A) (l := l) budget).rule name c
  unfold Rule.Ends at hends
  rw [h] at hends
  exact hends.1

/-- **What follows a rule**, under every budget and every depth limit. -/
theorem endsBefore_of_rule {name : Name} (hproper : ∀ t ∈ c.rest, t.IsProper)
    (h : rule A l name budget c = .done e c') {t : Token} (ht : c'.current? = some t) :
    name.EndsBefore t := by
  have hderives := derives_of_rule h
  obtain ⟨ts, hrest⟩ : ∃ ts, c'.rest = t :: ts := List.head?_eq_some_iff.mp ht
  have hmem : t ∈ c.rest := hderives.suffix.subset (by simp [Reading.tokens, hrest])
  have hstop : name.StopsAt c'.rest := hderives.stopsAt rfl
  rw [hrest] at hstop
  exact hstop.endsBefore (hproper t hmem)

/-- No factor is left after a sum. -/
theorem atValue_of_addition (hproper : ∀ t ∈ c.rest, t.IsProper)
    (h : addition A l budget c = .done e c') : c'.atValue = false := by
  unfold Cursor.atValue
  cases ht : c'.current? with
  | none => rfl
  | some t =>
      have hrule : rule A l .addition budget c = .done e c' := h
      have hclosing : t.IsClosing := endsBefore_of_rule hproper hrule ht
      exact hclosing.beginsValue

/-- **An expression is a sum**: its own factor never comes. -/
theorem expression_eq_addition (hproper : ∀ t ∈ c.rest, t.IsProper) :
    expression A l (budget + 1) c = addition A l budget c := by
  show Rule.andThen (addition A l budget) _ c = _
  unfold Rule.andThen
  cases h : addition A l budget c with
  | failed f c' => rfl
  | done left c' =>
      have hvalue := atValue_of_addition hproper h
      show Rule.andThen Rule.cursor _ c' = _
      simp only [Rule.andThen, Rule.cursor, hvalue]
      rfl

/-- **What is left after a whole formula** is nothing, or a closing bracket too many. -/
theorem finish_of_rule (hproper : ∀ t ∈ c.rest, t.IsProper)
    (h : rule A l .expression budget c = .done e c') :
    finish c' = match c'.current? with
      | none => .done () c'
      | some t => .failed (.missingOpening t.text t.position) c' := by
  unfold finish
  cases ht : c'.current? with
  | none => rfl
  | some t =>
      obtain ⟨b, hb⟩ : t.IsClosing := endsBefore_of_rule hproper h ht
      simp [hb]

end Rules

/-- **The rules stop at the right token.** In the tokens of a text, from every position and depth
and under every limit and budget: what follows a rule that has read a formula may follow it; an
expression is a sum, so its own factor is never reached; and after a whole formula there is nothing
or a closing bracket, so its end is never an unexpected token. -/
theorem rules_stop {source : String} {tokens : List Token} (h : tokenize source = .ok tokens)
    (A : Arithmetic α) (l : DepthLimit) (budget position depth : Nat) :
    let c : Cursor := ⟨tokens.drop position, position, depth⟩
    (∀ name e c' t, rule A l name budget c = .done e c' → c'.current? = some t →
      name.EndsBefore t) ∧
    expression A l (budget + 1) c = addition A l budget c ∧
    (∀ e c', rule A l .expression budget c = .done e c' →
      finish c' = match c'.current? with
        | none => .done () c'
        | some t => .failed (.missingOpening t.text t.position) c') := by
  intro c
  have hproper : ∀ t ∈ c.rest, t.IsProper := fun t ht =>
    isProper_of_tokenize h t (List.mem_of_mem_drop ht)
  exact ⟨fun name e c' t hread => endsBefore_of_rule hproper hread, expression_eq_addition hproper,
    fun e c' => finish_of_rule hproper⟩

/-- In `2^3x+1)` an expression ends before the bracket, which is one too many, and the exponent
before the sum. -/
theorem rules_stop_unopened :
    let tokens : List Token := [⟨.number, "2", 0⟩, ⟨.operator, "^", 1⟩, ⟨.number, "3", 2⟩,
      ⟨.letter, "x", 3⟩, ⟨.operator, "+", 4⟩, ⟨.number, "1", 5⟩, ⟨.closing .paren, ")", 6⟩]
    tokenize "2^3x+1)" = .ok tokens ∧
    (∃ e c, rule calculator (.ofInt 9) .expression 30 ⟨tokens, 0, 0⟩ = .done e c ∧
      finish c = .failed (.missingOpening ")" 6) c) ∧
    ∃ e c, rule calculator (.ofInt 9) .powerValue 30 ⟨tokens.drop 2, 2, 0⟩ = .done e c ∧
      c.current? = some ⟨.operator, "+", 4⟩ ∧
      Name.powerValue.EndsBefore ⟨.operator, "+", 4⟩ := by
  intro tokens
  have htokens : tokenize "2^3x+1)" = .ok tokens := by decide +kernel
  have current (name : Name) (position : Nat) (t : Token)
      (h : (match rule calculator (.ofInt 9) name 30 ⟨tokens.drop position, position, 0⟩ with
        | .done _ c => c.current?
        | .failed _ _ => none) = some t) :
      ∃ e c, rule calculator (.ofInt 9) name 30 ⟨tokens.drop position, position, 0⟩ = .done e c ∧
        c.current? = some t := by
    split at h
    · exact ⟨_, _, ‹_›, h⟩
    · cases h
  obtain ⟨e, c, hread, hend⟩ :=
    current .expression 0 ⟨.closing .paren, ")", 6⟩ (by decide +kernel)
  obtain ⟨e', c', hread', hend'⟩ :=
    current .powerValue 2 ⟨.operator, "+", 4⟩ (by decide +kernel)
  have hfinish := (rules_stop htokens calculator (.ofInt 9) 30 0 0).2.2 e c hread
  rw [hend] at hfinish
  exact ⟨htokens, ⟨e, c, hread, hfinish⟩, e', c', hread', hend',
    (rules_stop htokens calculator (.ofInt 9) 30 2 0).1 .powerValue e' c' _ hread' hend'⟩

end Grammar

end Argand
