import Argand.Proofs.Grammar.Tiling
import Argand.Proofs.Reader
import Argand.Proofs.Simplification.Tidy
import Argand.Settings

/-!
# How reading ends

A rule of the grammar ends with a formula over the operators of the calculator, or with a fault of
syntax, unless the depth limit has a fault of its own. So does a whole text, whose tokens may have a
fault too. The depth limit of the settings has only faults without a code, or that of a formula
nested too deeply.

## Main definitions

* `Argand.Operator.IsKnown`: the operators that have a value.
* `Argand.Fault.IsSyntax`: the faults of texts that are no formulas.
* `Argand.Rule.EndsIn`: what holds of all ends of a rule.

## Main results

* `Argand.Grammar.allEndKnown`: the ends of the rules.
* `Argand.yields_read`: the outcomes of reading a text.
* `Argand.yields_depthLimit`: the faults of the depth limit.
-/

namespace Argand

variable {α β γ : Type}

/-- An operator that **is known**: it has a value and can be undone. -/
def Operator.IsKnown : Operator → Prop
  | .add | .subtract | .multiply | .divide | .power | .plusMinus => True
  | .other _ => False

/-- A formula over **known operators**. -/
abbrev Expr.HasKnownOperators (e : Expr α) : Prop :=
  e.HasOperators Operator.IsKnown

/-- A fault **of syntax**: a text that cannot be cut into tokens, tokens that are no formula, or a
formula that is nested too deeply. -/
def Fault.IsSyntax (f : Fault) : Prop :=
  f.faultClass = .token ∨ f.faultClass = .grammar ∨ f = .nestingExhausted

/-! ### Ends of rules -/

/-- A rule **ends in** `Q` up to `P`, wherever it starts: its result satisfies `Q`, its fault
`P`. -/
def Rule.EndsIn (P : Fault → Prop) (Q : β → Prop) (p : Rule β) : Prop :=
  ∀ c, p.Ends c (fun b _ => Q b) P

namespace Rule.EndsIn

variable {P : Fault → Prop} {Q : β → Prop} {R : γ → Prop} {l : DepthLimit}

theorem pure {b : β} (h : Q b) : EndsIn P Q (Pure.pure b) := fun _ => .pure h

theorem fail {f : Fault} (h : P f) : EndsIn P Q (Rule.fail f) := fun _ => .fail h

/-- Two rules one after another. -/
theorem bind {p : Rule β} {q : β → Rule γ} (hp : EndsIn P Q p) (hq : ∀ b, Q b → EndsIn P R (q b)) :
    EndsIn P R (p >>= q) :=
  fun c => (hp c).bind (fun _ => id) fun b c' hb => hq b hb c'

/-- The cursor is looked at. -/
theorem cursor_bind {q : Cursor → Rule γ} (hq : ∀ c, EndsIn P R (q c)) :
    EndsIn P R (Rule.cursor >>= q) :=
  fun c => hq c c

/-- A token is read, if there is one. -/
theorem eat (h : P .missingNumber) : EndsIn P (fun _ => True) Rule.eat := by
  intro c
  unfold Rule.Ends Rule.eat
  cases c.current? with
  | some t => trivial
  | none => exact h

/-- One level deeper, if the limit allows it. -/
theorem deepen (h : P l.fault) : EndsIn P (fun _ => True) (Rule.deepen l) := by
  intro c
  unfold Rule.Ends Rule.deepen
  cases hl : l.allows (c.depth + 1) with
  | true => simp only [hl, if_true]
  | false => simpa only [hl, Bool.false_eq_true, if_false] using h

/-- A rule that runs one level deeper. -/
theorem nested {p : Rule β} (h : P l.fault) (hp : EndsIn P Q p) : EndsIn P Q (Rule.nested l p) :=
  fun _ => .nested (fun _ c _ _ => (hp c).mono (fun _ _ hb _ _ _ => hb) fun _ => id) fun _ => h

/-- A rule that runs a chain. -/
theorem chained {p : Rule β} (hp : EndsIn P Q p) : EndsIn P Q (Rule.chained p) :=
  fun c => .chained ((hp c).mono (fun _ _ hb _ _ _ => hb) fun _ => id)

end Rule.EndsIn

namespace Grammar

/-! ### Ends of the grammar's rules -/

/-- An operator in front of some tokens is known, if those are that it is looked for among. -/
theorem isKnown_of_operator? {c : Cursor} {among : List Operator} {op : Operator}
    (h : c.operator? among = some op) (hamong : ∀ op ∈ among, op.IsKnown) : op.IsKnown := by
  have h : operatorAt? c.rest among = some op := h
  obtain ⟨_, _, -, -, -, hmem⟩ := exists_of_operatorAt? h
  exact hamong op hmem

variable (A : Arithmetic α) (l : DepthLimit)

/-- A fault **of the grammar**: one of syntax, or that of the depth limit. -/
def IsFault (f : Fault) : Prop :=
  f.IsSyntax ∨ f = l.fault

/-- A rule that **ends in a formula** over known operators, or in a fault of the grammar. -/
abbrev EndsKnown (p : Rule (Expr α)) : Prop :=
  p.EndsIn (IsFault l) Expr.HasKnownOperators

/-- All rules and chains do so under a budget. -/
structure AllEndKnown (n : Nat) : Prop where
  rule : ∀ name, EndsKnown l (rule A l name n)
  additionLinks : ∀ e, e.HasKnownOperators → EndsKnown l (additionLinks A l n e)
  multiplicationLinks : ∀ e, e.HasKnownOperators → EndsKnown l (multiplicationLinks A l n e)

variable {A l} {n : Nat}

/-- A fault of the class of the grammar. -/
theorem isFault_of_grammar {f : Fault} (h : f.faultClass = .grammar) : IsFault l f :=
  .inl (.inr (.inl h))

theorem isFault_limit : IsFault l l.fault := .inr rfl

theorem isFault_nestingExhausted : IsFault l .nestingExhausted := .inl (.inr (.inr rfl))

/-- A token is read, if there is one. -/
theorem endsIn_eat : Rule.eat.EndsIn (IsFault l) fun _ => True :=
  .eat (isFault_of_grammar rfl)

theorem endsKnown_expression (h : AllEndKnown A l n) : EndsKnown l (expression A l (n + 1)) := by
  refine (h.rule .addition).bind fun left hleft => .cursor_bind fun c => ?_
  split
  · exact (h.rule .expression).bind fun right hright => .pure ⟨trivial, hleft, hright⟩
  · exact .pure hleft

theorem endsKnown_addition (h : AllEndKnown A l n) : EndsKnown l (addition A l (n + 1)) :=
  (h.rule .multiplication).bind fun first hfirst => .chained (h.additionLinks first hfirst)

/-- A link of a chain: an operator, an operand, and the rest of the chain. -/
theorem endsKnown_link {part : Name} {links : Expr α → Rule (Expr α)} {e : Expr α} {op : Operator}
    (hop : op.IsKnown) (he : e.HasKnownOperators) (hpart : EndsKnown l (rule A l part n))
    (hlinks : ∀ e, e.HasKnownOperators → EndsKnown l (links e)) :
    EndsKnown l (do
      Rule.deepen l
      let _ ← Rule.eat
      let right ← rule A l part n
      links (.node e op right)) :=
  (Rule.EndsIn.deepen isFault_limit).bind fun _ _ => endsIn_eat.bind fun _ _ =>
    hpart.bind fun _ hright => hlinks _ ⟨hop, he, hright⟩

theorem endsKnown_additionLinks (h : AllEndKnown A l n) (e : Expr α) (he : e.HasKnownOperators) :
    EndsKnown l (additionLinks A l (n + 1) e) := by
  refine .cursor_bind fun c => ?_
  split
  · rename_i op hop
    have hknown := isKnown_of_operator? hop (by simp [Operator.IsKnown])
    exact endsKnown_link hknown he (h.rule .multiplication) h.additionLinks
  · exact .pure he

theorem endsKnown_multiplicationLinks (h : AllEndKnown A l n) (e : Expr α)
    (he : e.HasKnownOperators) : EndsKnown l (multiplicationLinks A l (n + 1) e) := by
  refine .cursor_bind fun c => ?_
  split
  · rename_i op hop
    have hknown := isKnown_of_operator? hop (by simp [Operator.IsKnown])
    exact endsKnown_link hknown he (h.rule .power) h.multiplicationLinks
  · split
    · exact (h.rule .multiplication).bind fun right hright => .pure ⟨trivial, he, hright⟩
    · exact .pure he

theorem endsKnown_multiplication (h : AllEndKnown A l n) :
    EndsKnown l (multiplication A l (n + 1)) :=
  .nested isFault_limit <| .chained <|
    (h.rule .power).bind fun first hfirst => h.multiplicationLinks first hfirst

theorem endsKnown_power (h : AllEndKnown A l n) : EndsKnown l (power A l (n + 1)) := by
  refine .nested isFault_limit ((h.rule .value).bind fun base hbase => .cursor_bind fun c => ?_)
  split
  · exact endsIn_eat.bind fun _ _ => (h.rule .powerValue).bind fun exponent hexponent =>
      .pure ⟨trivial, hbase, hexponent⟩
  · exact .pure hbase

theorem endsKnown_powerValue (h : AllEndKnown A l n) : EndsKnown l (powerValue A l (n + 1)) := by
  refine (h.rule .power).bind fun exponent hexponent => .cursor_bind fun c => ?_
  split
  · exact (h.rule .multiplication).bind fun right hright => .pure ⟨trivial, hexponent, hright⟩
  · exact .pure hexponent

/-- The closing bracket of a value in brackets. -/
theorem endsIn_closeBracket (t : Token) (b : Bracket) :
    (closeBracket t b).EndsIn (IsFault l) fun _ => True := by
  intro c
  unfold Rule.Ends closeBracket
  cases c.current? with
  | none => exact isFault_of_grammar rfl
  | some t' =>
      by_cases hkind : t'.kind = .closing b
      · simp [hkind]
      · simpa [hkind] using isFault_of_grammar rfl

theorem endsKnown_value (h : AllEndKnown A l n) : EndsKnown l (value A l (n + 1)) := by
  refine .nested isFault_limit (.cursor_bind fun c => ?_)
  split
  · exact .fail (isFault_of_grammar rfl)
  · split
    · exact endsIn_eat.bind fun _ _ => (h.rule .expression).bind fun inner hinner =>
        (endsIn_closeBracket _ _).bind fun _ _ => .pure hinner
    · exact endsIn_eat.bind fun _ _ => .pure trivial
    · refine endsIn_eat.bind fun _ _ => ?_
      simp only [variableNode]
      split
      · exact .fail (isFault_of_grammar rfl)
      · exact .pure trivial
    · exact endsIn_eat.bind fun _ _ => .pure trivial
    · split
      · exact endsIn_eat.bind fun _ _ => (h.rule .value).bind fun e he =>
          .pure ⟨trivial, trivial, he⟩
      · exact .fail (isFault_of_grammar rfl)
    · exact .fail (isFault_of_grammar rfl)

/-- **The rules end** in formulas over known operators, or in faults of the grammar. -/
theorem allEndKnown (n : Nat) : AllEndKnown A l n := by
  induction n with
  | zero =>
      refine ⟨fun name => ?_, fun _ _ => .fail isFault_nestingExhausted,
        fun _ _ => .fail isFault_nestingExhausted⟩
      cases name <;> exact .fail isFault_nestingExhausted
  | succ n ih =>
      refine ⟨fun name => ?_, endsKnown_additionLinks ih, endsKnown_multiplicationLinks ih⟩
      cases name with
      | expression => exact endsKnown_expression ih
      | addition => exact endsKnown_addition ih
      | multiplication => exact endsKnown_multiplication ih
      | power => exact endsKnown_power ih
      | powerValue => exact endsKnown_powerValue ih
      | value => exact endsKnown_value ih

/-- Nothing is left after a formula, or there is a fault. -/
theorem endsIn_finish : finish.EndsIn (IsFault l) fun _ => True := by
  intro c
  unfold Rule.Ends finish
  cases c.current? with
  | none => trivial
  | some t => cases hkind : t.kind <;> simpa [hkind] using isFault_of_grammar rfl

/-- A rule with the budget of the grammar. -/
theorem endsKnown_apply (name : Name) : EndsKnown l (apply A l name) := by
  intro c
  have h := (allEndKnown (A := A) (l := l) (budget c)).rule name c
  unfold Rule.Ends at h ⊢
  exact h

/-- **A whole formula** is one over known operators. -/
theorem endsKnown_formula (any : Bool) : EndsKnown l (formula A l any) := by
  unfold formula
  split
  · exact .fail (isFault_of_grammar rfl)
  · exact (endsKnown_apply .expression).bind fun e he => endsIn_finish.bind fun _ _ => .pure he

end Grammar

/-! ### Texts -/

/-- A text has tokens, or a fault of the class of tokens. -/
theorem yields_tokenize (source : String) :
    Yields (fun f => f.faultClass = .token) (fun _ => True) (tokenize source) :=
  (scans_tokenize source).mono (fun _ ⟨_, _, hnames⟩ => hnames.1) fun _ _ => trivial

/-- **Reading a text** gives a formula over known operators, or a fault of syntax, or one of the
depth limit. -/
theorem yields_read (A : Arithmetic α) {P : Fault → Prop} {limit : Except Fault DepthLimit}
    (hform : ∀ f, f.IsSyntax → P f) (hlimit : Yields P (fun l => P l.fault) limit)
    (source : String) :
    Yields P Expr.HasKnownOperators (Formula.read A limit source).outcome := by
  simp only [Formula.read, Traced.outcome_bind]
  refine ((yields_tokenize source).mono (fun f hf => hform f (.inl hf)) fun _ => id).bind
    fun tokens _ => ?_
  refine hlimit.bind fun l hl => ?_
  have hends := Grammar.endsKnown_formula (A := A) (l := l) (!tokens.isEmpty) (Cursor.start tokens)
  have hfault : ∀ f, Grammar.IsFault l f → P f := by
    rintro f (hf | rfl)
    · exact hform f hf
    · exact hl
  have htree : Yields P Expr.HasKnownOperators
      (Grammar.formula A l (!tokens.isEmpty) (Cursor.start tokens)).toExcept := by
    unfold Rule.Ends at hends
    split at hends
    · rename_i hdone
      rw [hdone]
      exact hends
    · rename_i hfailed
      rw [hfailed]
      exact hfault _ hends
  exact htree.bind fun e he => he

/-! ### The depth limit -/

/-- A settings text has a value or none, unless a number in it is too long. -/
theorem yields_jsonRead (text : String) :
    Yields (fun f => f.isOwn = false) (fun _ => True) (Json.read text) := by
  unfold Json.read
  split
  · trivial
  · trivial
  · rfl

/-- **One setting**: a mishap without a code. -/
theorem yields_get (file : SettingsFile) (key : Key) :
    Yields (fun f => f.isOwn = false) (fun _ => True) (file.get key) := by
  have hvalue : Yields (fun f => f.isOwn = false) (fun _ => True) file.value := by
    refine Yields.bind (Q := fun _ => True) ?_ fun _ _ => trivial
    unfold valueOf
    split
    · exact yields_jsonRead _
    · trivial
  refine hvalue.bind fun v _ => ?_
  split
  · trivial
  · rfl

/-- The fault of a depth limit is that of a formula nested too deeply, or has no code. -/
theorem fault_ofSetting (v : Json) :
    (DepthLimit.ofSetting v).fault.IsSyntax ∨ (DepthLimit.ofSetting v).fault.isOwn = false := by
  have hdeep (text : String) : (Fault.tooDeep text).IsSyntax := .inr (.inl rfl)
  unfold DepthLimit.ofSetting
  split
  · exact .inl (hdeep _)
  · unfold DepthLimit.ofJson
    split
    · exact .inl (hdeep _)
    · exact .inl (hdeep _)
    · dsimp only
      split
      · exact .inl (hdeep _)
      · split <;> exact .inl (hdeep _)
    · exact .inr rfl

/-- **The depth limit of the settings** is a mishap without a code, and so is its own fault, unless
it is that of a formula nested too deeply. -/
theorem yields_depthLimit (file : SettingsFile) :
    Yields (fun f => f.IsSyntax ∨ f.isOwn = false)
      (fun l => l.fault.IsSyntax ∨ l.fault.isOwn = false) file.depthLimit :=
  ((yields_get file "max_depth").mono (fun _ => .inr) fun _ => id).bind fun v _ =>
    fault_ofSetting v

end Argand
