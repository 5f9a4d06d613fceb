import Argand.Expr.Grammar
import Mathlib.Data.List.Forall2

/-!
# Formulas from alike tokens

Of a letter the grammar looks at its lower case only, and of no token at its position, other than
to name it in a fault. Two runs of a rule from cursors with alike tokens and the same depth thus
stay alike: they end with the same tree at alike cursors, or with faults of the same class and
code. Each way of combining rules keeps this, and by induction on the budget all rules do.

## Main definitions

* `Argand.Token.Alike`, `Argand.Fault.Alike`, `Argand.Cursor.Alike`, `Argand.Outcome.Alike`.
* `Argand.SameResult`: the same result, or alike faults.
* `Argand.Rule.Agree`: two rules that end alike from alike cursors.

## Main results

* `Argand.Grammar.agrees`: every rule agrees with itself.
* `Argand.Grammar.alike_formula`: alike tokens have the same formula or alike faults.
-/

namespace Argand

variable {α β γ : Type}

/-! ### Tokens, cursors and outcomes -/

/-- **Alike** tokens: of the same kind and with the same text, except for the case of a letter. -/
structure Token.Alike (t u : Token) : Prop where
  kind : t.kind = u.kind
  lower : t.text.toLower = u.text.toLower
  text : t.kind ≠ .letter → t.text = u.text

/-- A token is like itself. -/
@[refl] theorem Token.Alike.refl (t : Token) : t.Alike t := ⟨rfl, rfl, fun _ => rfl⟩

/-- Likeness of tokens is transitive. -/
theorem Token.Alike.trans {t u v : Token} (h : t.Alike u) (h' : u.Alike v) : t.Alike v :=
  ⟨h.kind.trans h'.kind, h.lower.trans h'.lower,
    fun hne => (h.text hne).trans (h'.text (h.kind ▸ hne))⟩

/-- Tokens are like themselves, one by one. -/
theorem forall₂_alike_refl (ts : List Token) : List.Forall₂ Token.Alike ts ts :=
  List.forall₂_same.mpr fun t _ => .refl t

/-- Likeness of tokens one by one is transitive. -/
theorem forall₂_alike_trans {ts us vs : List Token} (h : List.Forall₂ Token.Alike ts us)
    (h' : List.Forall₂ Token.Alike us vs) : List.Forall₂ Token.Alike ts vs := by
  induction h generalizing vs with
  | nil => exact h'
  | cons htu _ ih =>
      obtain ⟨v, vs, huv, hrest, rfl⟩ := List.forall₂_cons_left_iff.mp h'
      exact .cons (htu.trans huv) (ih hrest)

/-- **Alike** faults: of the same class and with the same code. -/
structure Fault.Alike (f g : Fault) : Prop where
  faultClass : f.faultClass = g.faultClass
  code : f.code? = g.code?

/-- A fault is like itself. -/
@[refl] theorem Fault.Alike.refl (f : Fault) : f.Alike f := ⟨rfl, rfl⟩

/-- Two computations have the **same result**, or alike faults. -/
def SameResult : Except Fault β → Except Fault β → Prop
  | .ok b, .ok b' => b = b'
  | .error f, .error g => f.Alike g
  | _, _ => False

/-- A computation has the same result as itself. -/
@[refl] theorem SameResult.refl (x : Except Fault β) : SameResult x x := by
  cases x with
  | ok b => exact rfl
  | error f => exact Fault.Alike.refl f

/-- **Alike** cursors: with alike tokens left, at the same depth. -/
structure Cursor.Alike (c d : Cursor) : Prop where
  rest : List.Forall₂ Token.Alike c.rest d.rest
  depth : c.depth = d.depth

/-- **Alike** outcomes: related results at alike cursors, or alike faults. -/
def Outcome.Alike (R : β → β → Prop) : Outcome β → Outcome β → Prop
  | .done b c, .done b' c' => R b b' ∧ c.Alike c'
  | .failed f _, .failed g _ => f.Alike g
  | _, _ => False

namespace Cursor.Alike

variable {c d : Cursor}

/-- Alike cursors are both at the end or at alike tokens. -/
theorem current? (h : c.Alike d) :
    c.current? = none ∧ d.current? = none ∨
      ∃ t u, t.Alike u ∧ c.current? = some t ∧ d.current? = some u := by
  obtain ⟨rest, _, _⟩ := c
  obtain ⟨rest', _, _⟩ := d
  cases (show List.Forall₂ Token.Alike rest rest' from h.rest) with
  | nil => exact .inl ⟨rfl, rfl⟩
  | cons htu _ => exact .inr ⟨_, _, htu, rfl, rfl⟩

/-- One token further on they are alike. -/
theorem advance (h : c.Alike d) : c.advance.Alike d.advance := by
  refine ⟨?_, h.depth⟩
  obtain ⟨rest, _, _⟩ := c
  obtain ⟨rest', _, _⟩ := d
  cases (show List.Forall₂ Token.Alike rest rest' from h.rest) with
  | nil => exact .nil
  | cons _ hrest => exact hrest

/-- A value can begin at both or at none. -/
theorem atValue (h : c.Alike d) : c.atValue = d.atValue := by
  obtain ⟨hc, hd⟩ | ⟨t, u, htu, hc, hd⟩ := h.current?
  · rw [Cursor.atValue, Cursor.atValue, hc, hd]
  · simp only [Cursor.atValue, hc, hd, Option.any_some, htu.kind]

/-- At both there is the same operator or none. -/
theorem operator? (h : c.Alike d) (among : List Operator) :
    c.operator? among = d.operator? among := by
  obtain ⟨hc, hd⟩ | ⟨t, u, htu, hc, hd⟩ := h.current?
  · rw [Cursor.operator?, Cursor.operator?, hc, hd]
  · by_cases hop : t.kind = .operator
    · have hne : t.kind ≠ .letter := by rw [hop]; decide
      simp only [Cursor.operator?, hc, hd, Option.bind_some, htu.kind, htu.text hne]
    · have hop' : u.kind ≠ .operator := htu.kind ▸ hop
      simp [Cursor.operator?, hc, hd, hop, hop']

end Cursor.Alike

/-! ### Rules -/

/-- Two rules **agree** up to a relation of their results if they end alike from alike cursors. -/
def Rule.Agree (R : β → β → Prop) (p q : Rule β) : Prop :=
  ∀ c d, c.Alike d → Outcome.Alike R (p c) (q d)

namespace Rule.Agree

variable {R : β → β → Prop} {S : γ → γ → Prop} {p q : Rule β}

theorem pure {b b' : β} (h : R b b') : Agree R (Pure.pure b) (Pure.pure b') :=
  fun _ _ hcd => ⟨h, hcd⟩

theorem fail {f g : Fault} (h : f.Alike g) : Agree R (Rule.fail f : Rule β) (Rule.fail g) :=
  fun _ _ _ => h

theorem cursor : Agree Cursor.Alike Rule.cursor Rule.cursor :=
  fun _ _ hcd => ⟨hcd, hcd⟩

/-- Rules one after another agree if the second ones do on related results. -/
theorem bind {p' q' : β → Rule γ} (h : Agree R p q)
    (h' : ∀ b b', R b b' → Agree S (p' b) (q' b')) : Agree S (p >>= p') (q >>= q') := by
  intro c d hcd
  have hends := h c d hcd
  show Outcome.Alike S (Rule.andThen p p' c) (Rule.andThen q q' d)
  rw [Rule.andThen, Rule.andThen]
  match p c, q d, hends with
  | .done b c', .done b' d', ⟨hb, hcd'⟩ => exact h' b b' hb c' d' hcd'
  | .failed _ _, .failed _ _, hfg => exact hfg

/-- The token at the cursor is read. -/
theorem eat : Agree Token.Alike Rule.eat Rule.eat := by
  intro c d hcd
  rw [Rule.eat, Rule.eat]
  obtain ⟨hc, hd⟩ | ⟨t, u, htu, hc, hd⟩ := hcd.current?
  · rw [hc, hd]
    exact Fault.Alike.refl _
  · rw [hc, hd]
    exact ⟨htu, hcd.advance⟩

/-- One level deeper. -/
theorem deepen (l : DepthLimit) : Agree Eq (Rule.deepen l) (Rule.deepen l) := by
  intro c d hcd
  simp only [Rule.deepen, hcd.depth]
  split
  · exact ⟨rfl, hcd.rest, rfl⟩
  · exact Fault.Alike.refl _

/-- Rules that change the depth of the cursor at their end in the same way. -/
theorem mapCursor {x y : Outcome β} {g g' : Cursor → Cursor} (h : Outcome.Alike R x y)
    (hg : ∀ c d, c.Alike d → (g c).Alike (g' d)) :
    Outcome.Alike R (x.mapCursor g) (y.mapCursor g') := by
  match x, y, h with
  | .done _ _, .done _ _, ⟨hb, hcd⟩ => exact ⟨hb, hg _ _ hcd⟩
  | .failed _ _, .failed _ _, hfg => exact hfg

/-- Rules that run one level deeper. -/
theorem nested (l : DepthLimit) (h : Agree R p q) :
    Agree R (Rule.nested l p) (Rule.nested l q) := by
  intro c d hcd
  simp only [Rule.nested, Rule.deepen, hcd.depth]
  cases l.allows (d.depth + 1) with
  | true =>
      refine mapCursor (h _ _ ⟨hcd.rest, rfl⟩) fun c' d' hcd' => ⟨hcd'.rest, ?_⟩
      exact congrArg (· - 1) hcd'.depth
  | false => exact Fault.Alike.refl _

/-- Rules that run a chain. -/
theorem chained (h : Agree R p q) : Agree R (Rule.chained p) (Rule.chained q) := by
  intro c d hcd
  exact mapCursor (h c d hcd) fun c' d' hcd' => ⟨hcd'.rest, hcd.depth⟩

end Rule.Agree

/-! ### The rules of the grammar -/

namespace Grammar

variable (A : Arithmetic α) (l : DepthLimit)

/-- A variable has the same name in both cases. -/
theorem agree_variableNode {t u : Token} (h : t.Alike u) :
    Rule.Agree Eq (variableNode A t) (variableNode A u) := by
  rw [variableNode, variableNode, h.lower]
  split
  · exact .fail ⟨rfl, rfl⟩
  · exact .pure rfl

/-- Closing brackets agree. -/
theorem agree_closeBracket {t u : Token} (b : Bracket) :
    Rule.Agree Eq (closeBracket t b) (closeBracket u b) := by
  intro c d hcd
  obtain ⟨hc, hd⟩ | ⟨t', u', htu', hc, hd⟩ := hcd.current?
  · simp only [closeBracket, hc, hd]
    exact ⟨rfl, rfl⟩
  · simp only [closeBracket, hc, hd, htu'.kind]
    split
    · exact ⟨rfl, hcd.advance⟩
    · exact ⟨rfl, rfl⟩

/-- All rules and chains **agree with themselves** under a budget. -/
structure Agrees (n : Nat) : Prop where
  rule : ∀ name, Rule.Agree Eq (rule A l name n) (rule A l name n)
  additionLinks : ∀ e, Rule.Agree Eq (additionLinks A l n e) (additionLinks A l n e)
  multiplicationLinks :
    ∀ e, Rule.Agree Eq (multiplicationLinks A l n e) (multiplicationLinks A l n e)

variable {A l} {n : Nat}

/-- A tree stands alone, or is multiplied by a further factor if a value can begin after it. -/
theorem agree_factor {p : Rule (Expr α)} (h : Rule.Agree Eq p p) (e : Expr α) {c d : Cursor}
    (hcd : c.Alike d) :
    Rule.Agree Eq (if c.atValue then do return .node e .multiply (← p) else return e)
      (if d.atValue then do return .node e .multiply (← p) else return e) := by
  rw [hcd.atValue]
  split
  · exact h.bind fun right right' hright => .pure (by rw [hright])
  · exact .pure rfl

theorem agree_expression (h : Agrees A l n) :
    Rule.Agree Eq (expression A l (n + 1)) (expression A l (n + 1)) := by
  refine (h.rule .addition).bind ?_
  rintro left _ rfl
  exact Rule.Agree.cursor.bind fun c d hcd => agree_factor (h.rule .expression) left hcd

theorem agree_powerValue (h : Agrees A l n) :
    Rule.Agree Eq (powerValue A l (n + 1)) (powerValue A l (n + 1)) := by
  refine (h.rule .power).bind ?_
  rintro exponent _ rfl
  exact Rule.Agree.cursor.bind fun c d hcd => agree_factor (h.rule .multiplication) exponent hcd

theorem agree_addition (h : Agrees A l n) :
    Rule.Agree Eq (addition A l (n + 1)) (addition A l (n + 1)) := by
  refine (h.rule .multiplication).bind ?_
  rintro first _ rfl
  exact .chained (h.additionLinks first)

theorem agree_multiplication (h : Agrees A l n) :
    Rule.Agree Eq (multiplication A l (n + 1)) (multiplication A l (n + 1)) := by
  refine .nested l (.chained ((h.rule .power).bind ?_))
  rintro first _ rfl
  exact h.multiplicationLinks first

/-- A link of a chain: an operator, an operand, and the rest of the chain. -/
theorem agree_link {part : Rule (Expr α)} {links : Expr α → Rule (Expr α)}
    (hpart : Rule.Agree Eq part part) (hlinks : ∀ e, Rule.Agree Eq (links e) (links e))
    (e : Expr α) (op : Operator) :
    Rule.Agree Eq
      (do
        Rule.deepen l
        let _ ← Rule.eat
        let right ← part
        links (.node e op right))
      (do
        Rule.deepen l
        let _ ← Rule.eat
        let right ← part
        links (.node e op right)) := by
  refine (Rule.Agree.deepen l).bind fun _ _ _ => Rule.Agree.eat.bind fun _ _ _ => hpart.bind ?_
  rintro right _ rfl
  exact hlinks _

theorem agree_additionLinks (h : Agrees A l n) (e : Expr α) :
    Rule.Agree Eq (additionLinks A l (n + 1) e) (additionLinks A l (n + 1) e) := by
  refine Rule.Agree.cursor.bind fun c d hcd => ?_
  rw [hcd.operator?]
  split
  · exact agree_link (h.rule .multiplication) h.additionLinks e _
  · exact .pure rfl

theorem agree_multiplicationLinks (h : Agrees A l n) (e : Expr α) :
    Rule.Agree Eq (multiplicationLinks A l (n + 1) e) (multiplicationLinks A l (n + 1) e) := by
  refine Rule.Agree.cursor.bind fun c d hcd => ?_
  rw [hcd.operator?]
  split
  · exact agree_link (h.rule .power) h.multiplicationLinks e _
  · exact agree_factor (h.rule .multiplication) e hcd

theorem agree_power (h : Agrees A l n) :
    Rule.Agree Eq (power A l (n + 1)) (power A l (n + 1)) := by
  refine .nested l ((h.rule .value).bind ?_)
  rintro base _ rfl
  refine Rule.Agree.cursor.bind fun c d hcd => ?_
  rw [hcd.operator?]
  split
  · refine Rule.Agree.eat.bind fun _ _ _ => (h.rule .powerValue).bind ?_
    rintro exponent _ rfl
    exact .pure rfl
  · exact .pure rfl

/-- The value that a token begins. -/
theorem agree_value (h : Agrees A l n) :
    Rule.Agree Eq (value A l (n + 1)) (value A l (n + 1)) := by
  refine .nested l (Rule.Agree.cursor.bind fun c d hcd => ?_)
  obtain ⟨hc, hd⟩ | ⟨t, u, htu, hc, hd⟩ := hcd.current?
  · rw [hc, hd]
    exact .fail (Fault.Alike.refl _)
  rw [hc, hd]
  simp only [← htu.kind]
  cases hkind : t.kind with
  | opening b =>
      refine Rule.Agree.eat.bind fun _ _ _ => (h.rule .expression).bind ?_
      rintro inner _ rfl
      exact (agree_closeBracket b).bind fun _ _ _ => .pure rfl
  | constant =>
      have htext : t.text = u.text := htu.text (by rw [hkind]; decide)
      exact Rule.Agree.eat.bind fun _ _ _ => .pure (by rw [htext])
  | letter => exact Rule.Agree.eat.bind fun _ _ _ => agree_variableNode A htu
  | number =>
      have htext : t.text = u.text := htu.text (by rw [hkind]; decide)
      exact Rule.Agree.eat.bind fun _ _ _ => .pure (by rw [htext])
  | operator =>
      have htext : t.text = u.text := htu.text (by rw [hkind]; decide)
      simp only [htext]
      split
      · refine Rule.Agree.eat.bind fun _ _ _ => (h.rule .value).bind ?_
        rintro operand _ rfl
        exact .pure rfl
      · exact .fail ⟨rfl, rfl⟩
  | closing b => exact .fail ⟨rfl, rfl⟩

/-- **All rules agree with themselves**, whatever the budget and the limit. -/
theorem agrees (A : Arithmetic α) (l : DepthLimit) (n : Nat) : Agrees A l n := by
  induction n with
  | zero =>
      exact {
        rule := fun name => by cases name <;> exact .fail (Fault.Alike.refl _)
        additionLinks := fun _ => .fail (Fault.Alike.refl _)
        multiplicationLinks := fun _ => .fail (Fault.Alike.refl _) }
  | succ n ih =>
      exact {
        rule := fun
          | .expression => agree_expression ih
          | .addition => agree_addition ih
          | .multiplication => agree_multiplication ih
          | .power => agree_power ih
          | .powerValue => agree_powerValue ih
          | .value => agree_value ih
        additionLinks := agree_additionLinks ih
        multiplicationLinks := agree_multiplicationLinks ih }

/-! ### Formulas -/

/-- Nothing is left at both cursors, or at none. -/
theorem agree_finish : Rule.Agree Eq finish finish := by
  intro c d hcd
  obtain ⟨hc, hd⟩ | ⟨t, u, htu, hc, hd⟩ := hcd.current?
  · simp only [finish, hc, hd]
    exact ⟨rfl, hcd⟩
  · simp only [finish, hc, hd, ← htu.kind]
    split <;> exact ⟨rfl, rfl⟩

/-- With enough budget, which depends on the number of tokens, a rule agrees with itself. -/
theorem agree_apply (A : Arithmetic α) (l : DepthLimit) (name : Name) :
    Rule.Agree Eq (apply A l name) (apply A l name) := by
  intro c d hcd
  have hbudget : budget c = budget d := by
    rw [budget, budget, hcd.rest.length_eq]
  simp only [apply, hbudget]
  exact (agrees A l _).rule name c d hcd

/-- The whole formula. -/
theorem agree_formula (A : Arithmetic α) (l : DepthLimit) (any : Bool) :
    Rule.Agree Eq (formula A l any) (formula A l any) := by
  cases any with
  | false => exact .fail (Fault.Alike.refl _)
  | true =>
      refine (agree_apply A l .expression).bind ?_
      rintro tree _ rfl
      exact agree_finish.bind fun _ _ _ => .pure rfl

/-- **Alike tokens have the same formula, or alike faults.** -/
theorem alike_formula (A : Arithmetic α) (l : DepthLimit) {ts us : List Token}
    (h : List.Forall₂ Token.Alike ts us) :
    SameResult (formula A l (!ts.isEmpty) (Cursor.start ts)).toExcept
      (formula A l (!us.isEmpty) (Cursor.start us)).toExcept := by
  have hempty : ts.isEmpty = us.isEmpty := by cases h <;> rfl
  have hends := agree_formula A l (!us.isEmpty) (Cursor.start ts) (Cursor.start us) ⟨h, rfl⟩
  rw [hempty]
  match formula A l (!us.isEmpty) (Cursor.start ts), formula A l (!us.isEmpty) (Cursor.start us),
    hends with
  | .done _ _, .done _ _, ⟨htree, _⟩ => exact htree
  | .failed _ _, .failed _ _, hfault => exact hfault

end Grammar

end Argand
