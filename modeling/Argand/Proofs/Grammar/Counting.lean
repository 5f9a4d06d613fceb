import Argand.Proofs.Grammar.Cursors
import Argand.Proofs.Grammar.Following

/-!
# How many calls of rules it takes to read

A rule under a budget cannot be nested deeper than that, but nothing in it says how often rules call
one another. The counted rules do: they are the rules of the grammar, clause for clause, with a count
of the calls, their own included. Each token that is read pays for five calls. What a rule has read
has paid for all its calls, with some credit left, and a fault leaves a debt of as many calls as lead
from the rule to a value. So there are five calls at most for each token left and five more; and a
budget of as many calls is as good as any larger one.

## Main definitions

* `Argand.Counted`: rules that count calls.
* `Argand.Counted.rule`, `Argand.Counted.apply`: the counted rules of the grammar.
* `Argand.Counted.Accounts`: a counted rule and the rule that it counts for.

## Main results

* `Argand.Counted.accounts`: the counted rules account for the rules of the grammar.
* `Argand.Counted.outcome_apply`: forgetting the count.
* `Argand.Counted.calls_apply_le`: the number of calls.
* `Argand.Grammar.rule_eq_apply`: no rule runs out of its budget.
-/

namespace Argand

variable {α β γ : Type}

/-! ### Counted rules -/

/-- An outcome, and **the number of calls** of rules that it took. -/
structure Tally (β : Type) where
  outcome : Outcome β
  calls : Nat
deriving Repr

/-- A **counted rule** reads tokens from a cursor on and counts the calls of rules. -/
abbrev Counted (β : Type) := Cursor → Tally β

namespace Counted

/-- A rule that calls no others. -/
def ofRule (p : Rule β) : Counted β := fun c => ⟨p c, 0⟩

/-- One rule after another: their calls add up. -/
def andThen (p : Counted β) (q : β → Counted γ) : Counted γ := fun c =>
  match (p c).outcome with
  | .done b c' => ⟨(q b c').outcome, (p c).calls + (q b c').calls⟩
  | .failed f c' => ⟨.failed f c', (p c).calls⟩

instance : Monad Counted where
  pure b := ofRule (Rule.pure b)
  bind := andThen

/-- A rule that **is called**. -/
def call (p : Counted β) : Counted β := fun c => ⟨(p c).outcome, (p c).calls + 1⟩

/-- A rule that runs one level deeper. -/
def nested (l : DepthLimit) (p : Counted β) : Counted β := fun c =>
  match Rule.deepen l c with
  | .done _ c => ⟨(p c).outcome.mapCursor fun c => { c with depth := c.depth - 1 }, (p c).calls⟩
  | .failed f c => ⟨.failed f c, 0⟩

/-- A rule whose chain gives back its levels. -/
def chained (p : Counted β) : Counted β := fun c =>
  ⟨(p c).outcome.mapCursor fun c' => { c' with depth := c.depth }, (p c).calls⟩

variable (A : Arithmetic α) (l : DepthLimit)

mutual

/-- A counted sum, perhaps followed by a factor. -/
def expression : Nat → Counted (Expr α)
  | 0 => call (ofRule (Rule.fail .nestingExhausted))
  | n + 1 => call do
    let left ← addition n
    if (← ofRule Rule.cursor).atValue then return .node left .multiply (← expression n)
    return left

/-- A counted chain of products. -/
def addition : Nat → Counted (Expr α)
  | 0 => call (ofRule (Rule.fail .nestingExhausted))
  | n + 1 => call do
    let first ← multiplication n
    chained (additionLinks n first)

/-- The counted links of a chain of products. A link is no call of its own. -/
def additionLinks : Nat → Expr α → Counted (Expr α)
  | 0, _ => ofRule (Rule.fail .nestingExhausted)
  | n + 1, tree => do
    match (← ofRule Rule.cursor).operator? [.add, .subtract] with
    | some op =>
      ofRule (Rule.deepen l)
      let _ ← ofRule Rule.eat
      let right ← multiplication n
      additionLinks n (.node tree op right)
    | none => return tree

/-- A counted chain of powers, perhaps followed by a factor. -/
def multiplication : Nat → Counted (Expr α)
  | 0 => call (ofRule (Rule.fail .nestingExhausted))
  | n + 1 => call <|
    nested l <| chained do
      let first ← power n
      multiplicationLinks n first

/-- The counted links of a chain of powers. -/
def multiplicationLinks : Nat → Expr α → Counted (Expr α)
  | 0, _ => ofRule (Rule.fail .nestingExhausted)
  | n + 1, tree => do
    let c ← ofRule Rule.cursor
    match c.operator? [.multiply, .divide] with
    | some op =>
      ofRule (Rule.deepen l)
      let _ ← ofRule Rule.eat
      let right ← power n
      multiplicationLinks n (.node tree op right)
    | none =>
      if c.atValue then return .node tree .multiply (← multiplication n)
      return tree

/-- A counted value, perhaps raised to an exponent. -/
def power : Nat → Counted (Expr α)
  | 0 => call (ofRule (Rule.fail .nestingExhausted))
  | n + 1 => call <|
    nested l do
      let base ← value n
      match (← ofRule Rule.cursor).operator? [.power] with
      | some _ =>
        let _ ← ofRule Rule.eat
        let exponent ← powerValue n
        return .node base .power exponent
      | none => return base

/-- A counted exponent. -/
def powerValue : Nat → Counted (Expr α)
  | 0 => call (ofRule (Rule.fail .nestingExhausted))
  | n + 1 => call do
    let exponent ← power n
    if (← ofRule Rule.cursor).atValue then
      return .node exponent .multiply (← multiplication n)
    return exponent

/-- A counted value. -/
def value : Nat → Counted (Expr α)
  | 0 => call (ofRule (Rule.fail .nestingExhausted))
  | n + 1 => call <|
    nested l do
      match (← ofRule Rule.cursor).current? with
      | none => ofRule (Rule.fail .missingNumber)
      | some t =>
        match t.kind with
        | .opening b =>
          let _ ← ofRule Rule.eat
          let inner ← expression n
          ofRule (Grammar.closeBracket t b)
          return inner
        | .constant =>
          let _ ← ofRule Rule.eat
          return .atom (.constant t.text)
        | .letter =>
          let _ ← ofRule Rule.eat
          ofRule (Grammar.variableNode A t)
        | .number =>
          let _ ← ofRule Rule.eat
          return Expr.number (A.literal t.text)
        | .operator =>
          if t.text = "-" then
            let _ ← ofRule Rule.eat
            return .node (Expr.number A.zero) .subtract (← value n)
          else ofRule (Rule.fail (.unexpectedToken t.text t.position))
        | .closing _ => ofRule (Rule.fail (.unexpectedToken t.text t.position))

end

open Grammar (Name)

/-- The counted rule of a name under a budget. -/
def rule : Name → Nat → Counted (Expr α)
  | .expression => expression A l
  | .addition => addition A l
  | .multiplication => multiplication A l
  | .power => power A l
  | .powerValue => powerValue A l
  | .value => value A l

/-- A **counted rule of the grammar** with the budget of the grammar. -/
def apply (name : Name) : Counted (Expr α) := fun c =>
  rule A l name (Grammar.budget c) c

/-! ### Accounts -/

variable {A l} {n credit debt : Nat}

variable (l) in
/-- A counted rule **accounts for** a rule. Each token that is read pays for five calls: a result
has paid for its calls and leaves a credit, a fault leaves a debt of calls that are not paid for.
Fewer than `n` calls have the outcome of the rule, and have not run out of budget. -/
structure Accounts (n credit debt : Nat) (p : Counted β) (q : Rule β) : Prop where
  done : ∀ c b c', (p c).outcome = .done b c' →
    (p c).calls + 5 * c'.rest.length + credit ≤ 5 * c.rest.length
  failed : ∀ c f c', (p c).outcome = .failed f c' →
    (p c).calls + 5 * c'.rest.length ≤ 5 * c.rest.length + debt
  /-- Forgetting the count. -/
  outcome : ∀ c, (p c).calls < n → q c = (p c).outcome
  /-- The budget was enough. -/
  ends : ∀ c, (p c).calls < n → (p c).outcome.fault? = some .nestingExhausted →
    l.fault = .nestingExhausted

namespace Accounts

/-- A rule that calls no others. -/
theorem ofRule {q : Rule β}
    (hdone : ∀ c b c', q c = .done b c' → 5 * c'.rest.length + credit ≤ 5 * c.rest.length)
    (hfailed : ∀ c f c', q c = .failed f c' → c'.rest = c.rest ∧
      (f = .nestingExhausted → l.fault = .nestingExhausted)) :
    Accounts l n credit 0 (Counted.ofRule q) q where
  done c b c' h := by simpa [Counted.ofRule] using hdone c b c' h
  failed c f c' h := by simp [Counted.ofRule, (hfailed c f c' h).1]
  outcome _ _ := rfl
  ends c _ h := by
    cases hq : q c with
    | done b c' => simp [Counted.ofRule, hq, Outcome.fault?] at h
    | failed f c' =>
        simp only [Counted.ofRule, hq, Outcome.fault?, Option.some.injEq] at h
        exact (hfailed c f c' hq).2 h

theorem mono {p : Counted β} {q : Rule β} {credit' debt' : Nat}
    (hp : Accounts l n credit debt p q) (hcredit : credit' ≤ credit) (hdebt : debt ≤ debt') :
    Accounts l n credit' debt' p q where
  done c b c' h := by have := hp.done c b c' h; omega
  failed c f c' h := by have := hp.failed c f c' h; omega
  outcome := hp.outcome
  ends := hp.ends

theorem pure (b : β) : Accounts l n 0 debt (Pure.pure b) (Pure.pure b) :=
  (ofRule (fun c b c' h => by cases h; exact Nat.le_refl _) fun c f c' h => by cases h).mono
    (Nat.le_refl 0) (Nat.zero_le _)

theorem fail {f : Fault} (hf : f ≠ .nestingExhausted) :
    Accounts l n credit debt (Counted.ofRule (Rule.fail f)) (Rule.fail f : Rule β) :=
  (ofRule (fun c b c' h => by cases h) fun c f' c' h => by
    cases h
    exact ⟨rfl, fun h => absurd h hf⟩).mono (Nat.le_refl _) (Nat.zero_le _)

theorem cursor : Accounts l n 0 0 (Counted.ofRule Rule.cursor) Rule.cursor :=
  ofRule (fun c b c' h => by cases h; exact Nat.le_refl _) fun c f c' h => by cases h

/-- A token that is read pays for five calls. -/
theorem eat : Accounts l n 5 0 (Counted.ofRule Rule.eat) Rule.eat := by
  refine ofRule (fun c t c' h => ?_) fun c f c' h => ?_ <;>
    unfold Rule.eat Cursor.current? at h <;> cases hc : c.rest <;> rw [hc] at h <;> cases h
  · simp [Cursor.advance, hc, Nat.mul_add]
  · exact ⟨hc, fun h => by cases h⟩

theorem closeBracket (t : Token) (b : Bracket) :
    Accounts l n 5 0 (Counted.ofRule (Grammar.closeBracket t b)) (Grammar.closeBracket t b) := by
  refine ofRule (fun c u c' h => ?_) fun c f c' h => ?_
  · obtain ⟨t', ts, hc, hdone⟩ | ⟨f, hfailed⟩ := Grammar.closeBracket_cases t b c
    · cases hdone.symm.trans h
      simp [Cursor.advance, hc, Nat.mul_add]
    · cases hfailed.symm.trans h
  · unfold Grammar.closeBracket at h
    split at h
    · split at h <;> cases h
      exact ⟨rfl, fun h => by cases h⟩
    · cases h
      exact ⟨rfl, fun h => by cases h⟩

theorem variableNode (t : Token) : Accounts l n 0 0 (Counted.ofRule (Grammar.variableNode A t))
    (Grammar.variableNode A t) := by
  unfold Grammar.variableNode
  dsimp only
  split
  · exact fail (by simp)
  · exact pure _

theorem deepen : Accounts l n 0 0 (Counted.ofRule (Rule.deepen l)) (Rule.deepen l) := by
  refine ofRule (fun c u c' h => ?_) fun c f c' h => ?_ <;>
    rw [Rule.deepen_apply] at h <;> split at h <;> cases h
  · exact Nat.le_refl _
  · exact ⟨rfl, id⟩

variable {p : Counted β} {q : Rule β} {f : β → Counted γ} {g : β → Rule γ} {credit₁ debt₁ : Nat}

/-- **One rule after another**, of which the first makes some calls at least. The second may count
on a smaller budget, it leaves what is missing of the credit, and the credit of the first pays for
its debt. -/
theorem bind_of_paid {paid : Nat} (hpaid : ∀ c, paid ≤ (p c).calls)
    (hp : Accounts l (n + paid) credit₁ debt₁ p q) (hdebt : debt₁ ≤ debt)
    (hf : ∀ b, Accounts l n (credit - credit₁) (credit₁ + debt) (f b) (g b)) :
    Accounts l (n + paid) credit debt (p >>= f) (q >>= g) := by
  -- each field follows from the same field of the two rules; `omega` adds up what they have cost
  have hbind (c : Cursor) : (p >>= f) c = match (p c).outcome with
    | .done b c' => ⟨(f b c').outcome, (p c).calls + (f b c').calls⟩
    | .failed fault c' => ⟨.failed fault c', (p c).calls⟩ := rfl
  constructor
  · intro c x c' h
    rw [hbind] at h ⊢
    cases hpc : (p c).outcome with
    | failed fault c₁ =>
        rw [hpc] at h
        cases h
    | done b c₁ =>
        rw [hpc] at h
        have hfirst := hp.done c b c₁ hpc
        have hsecond := (hf b).done c₁ x c' h
        dsimp only
        omega
  · intro c fault c' h
    rw [hbind] at h ⊢
    cases hpc : (p c).outcome with
    | failed fault₁ c₁ =>
        rw [hpc] at h
        cases h
        have hfirst := hp.failed c fault c' hpc
        dsimp only
        omega
    | done b c₁ =>
        rw [hpc] at h
        have hfirst := hp.done c b c₁ hpc
        have hsecond := (hf b).failed c₁ fault c' h
        dsimp only
        omega
  · intro c h
    show Rule.andThen q g c = _
    rw [hbind] at h ⊢
    unfold Rule.andThen
    have hcalls := hpaid c
    cases hpc : (p c).outcome with
    | failed fault c₁ =>
        rw [hpc] at h
        rw [hp.outcome c h, hpc]
    | done b c₁ =>
        rw [hpc] at h
        dsimp only at h
        rw [hp.outcome c (by omega), hpc]
        exact (hf b).outcome c₁ (by omega)
  · intro c h hfault
    rw [hbind] at h hfault
    have hcalls := hpaid c
    cases hpc : (p c).outcome with
    | failed fault c₁ =>
        rw [hpc] at h hfault
        exact hp.ends c h (hpc ▸ hfault)
    | done b c₁ =>
        rw [hpc] at h hfault
        dsimp only at h
        exact (hf b).ends c₁ (by omega) hfault

/-- One rule after another. -/
theorem bind (hp : Accounts l n credit₁ debt₁ p q) (hdebt : debt₁ ≤ debt)
    (hf : ∀ b, Accounts l n (credit - credit₁) (credit₁ + debt) (f b) (g b)) :
    Accounts l n credit debt (p >>= f) (q >>= g) :=
  bind_of_paid (fun _ => Nat.zero_le _) hp hdebt hf

/-- The cursor is looked at. -/
theorem cursor_bind {f : Cursor → Counted γ} {g : Cursor → Rule γ}
    (hf : ∀ c, Accounts l n credit debt (f c) (g c)) :
    Accounts l n credit debt (Counted.ofRule Rule.cursor >>= f) (Rule.cursor >>= g) :=
  bind cursor (Nat.zero_le _) fun c => (hf c).mono (Nat.le_refl _) (Nat.le_add_left _ _)

/-- Levels make no difference: a rule may start and end at other depths, or be refused a level. -/
theorem at_depth {p' : Counted β} {q' : Rule β} (hp : Accounts l n credit debt p q)
    (h : ∀ c, (∃ (c₁ : Cursor) (g : Cursor → Cursor), c₁.rest = c.rest ∧
        (∀ x, (g x).rest = x.rest) ∧ p' c = ⟨(p c₁).outcome.mapCursor g, (p c₁).calls⟩ ∧
        q' c = (q c₁).mapCursor g) ∨
      ∃ c₁ : Cursor, c₁.rest = c.rest ∧ p' c = ⟨.failed l.fault c₁, 0⟩ ∧
        q' c = .failed l.fault c₁) : Accounts l n credit debt p' q' := by
  constructor
  · intro c b c' hdone
    obtain ⟨c₁, g, hrest, hg, hp', -⟩ | ⟨c₁, -, hp', -⟩ := h c <;> rw [hp'] at hdone ⊢
    · cases hpc : (p c₁).outcome with
      | failed f c₂ =>
          rw [hpc] at hdone
          cases hdone
      | done b' c₂ =>
          rw [hpc] at hdone
          cases hdone
          rw [hg, ← hrest]
          exact hp.done c₁ b c₂ hpc
    · cases hdone
  · intro c f c' hfailed
    obtain ⟨c₁, g, hrest, hg, hp', -⟩ | ⟨c₁, hrest, hp', -⟩ := h c <;> rw [hp'] at hfailed ⊢
    · cases hpc : (p c₁).outcome with
      | done b c₂ =>
          rw [hpc] at hfailed
          cases hfailed
      | failed f' c₂ =>
          rw [hpc] at hfailed
          cases hfailed
          rw [hg, ← hrest]
          exact hp.failed c₁ f c₂ hpc
    · cases hfailed
      rw [hrest]
      simp
  · intro c hcalls
    obtain ⟨c₁, g, -, -, hp', hq'⟩ | ⟨c₁, -, hp', hq'⟩ := h c <;> rw [hp'] at hcalls ⊢ <;> rw [hq']
    rw [hp.outcome c₁ hcalls]
  · intro c hcalls hfault
    obtain ⟨c₁, g, -, -, hp', -⟩ | ⟨c₁, -, hp', -⟩ := h c <;> rw [hp'] at hcalls hfault
    · rw [Outcome.fault?_mapCursor] at hfault
      exact hp.ends c₁ hcalls hfault
    · exact Option.some.inj hfault

theorem nested (hp : Accounts l n credit debt p q) :
    Accounts l n credit debt (Counted.nested l p) (Rule.nested l q) := by
  refine hp.at_depth fun c => ?_
  cases hl : l.allows (c.depth + 1) with
  | true =>
      refine .inl ⟨{ c with depth := c.depth + 1 }, fun c => { c with depth := c.depth - 1 }, rfl,
        fun _ => rfl, ?_, ?_⟩
      · simp [Counted.nested, Rule.deepen_apply, hl]
      · simp [Rule.nested_apply, hl]
  | false =>
      refine .inr ⟨{ c with depth := c.depth + 1 }, rfl, ?_, ?_⟩
      · simp [Counted.nested, Rule.deepen_apply, hl]
      · simp [Rule.nested_apply, hl]

theorem chained (hp : Accounts l n credit debt p q) :
    Accounts l n credit debt (Counted.chained p) (Rule.chained q) :=
  hp.at_depth fun c => .inl ⟨c, fun c' => { c' with depth := c.depth }, rfl, fun _ => rfl, rfl, rfl⟩

/-- A call is one more call, and a larger budget by one. -/
theorem call (hp : Accounts l n (credit + 1) debt p q) :
    Accounts l (n + 1) credit (debt + 1) (Counted.call p) q where
  done c b c' h := by
    have := hp.done c b c' h
    simp only [Counted.call]
    omega
  failed c f c' h := by
    have := hp.failed c f c' h
    simp only [Counted.call]
    omega
  outcome c h := hp.outcome c (Nat.lt_of_succ_lt_succ h)
  ends c h := hp.ends c (Nat.lt_of_succ_lt_succ h)

/-- Without a budget nothing is accounted for but the call itself. -/
theorem exhausted {q : Rule β} : Accounts l 1 credit (debt + 1)
    (Counted.call (Counted.ofRule (Rule.fail .nestingExhausted))) q where
  done c b c' h := by cases h
  failed c f c' h := by
    cases h
    simp [Counted.call, Counted.ofRule]
    omega
  outcome c h := absurd h (Nat.not_lt_of_le (Nat.le_add_left 1 _))
  ends c h := absurd h (Nat.not_lt_of_le (Nat.le_add_left 1 _))

/-- Nor for a chain, which is no call. -/
theorem out_of_budget {q : Rule β} : Accounts l 0 credit debt
    (Counted.ofRule (Rule.fail .nestingExhausted)) q where
  done c b c' h := by cases h
  failed c f c' h := by
    cases h
    simp [Counted.ofRule]
  outcome c h := absurd h (Nat.not_lt_zero _)
  ends c h := absurd h (Nat.not_lt_zero _)

end Accounts

/-! ### The rules of the grammar -/

/-- Every call of a rule counts. -/
theorem one_le_calls (name : Name) (n : Nat) (c : Cursor) : 1 ≤ (rule A l name n c).calls := by
  cases name <;> cases n <;> exact Nat.le_add_left 1 _

variable (A l) in
/-- All counted rules and chains account for the rules of the grammar under budgets `n ≤ m`. -/
structure AllAccount (n m : Nat) : Prop where
  rule : ∀ name, Accounts l (n + 1) (5 - name.calls) name.calls (rule A l name n)
    (Grammar.rule A l name m)
  additionLinks : ∀ e, Accounts l n 0 0 (additionLinks A l n e) (Grammar.additionLinks A l m e)
  multiplicationLinks : ∀ e, Accounts l n 0 3 (multiplicationLinks A l n e)
    (Grammar.multiplicationLinks A l m e)

variable {m : Nat}

theorem accounts_expression (h : AllAccount A l n m) :
    Accounts l (n + 2) 0 5 (expression A l (n + 1)) (Grammar.expression A l (m + 1)) := by
  refine .call (.bind (h.rule .addition) (by decide) fun left => .cursor_bind fun c => ?_)
  split
  · exact .bind (h.rule .expression) (by decide) fun right => .pure _
  · exact .pure _

theorem accounts_addition (h : AllAccount A l n m) :
    Accounts l (n + 2) 1 4 (addition A l (n + 1)) (Grammar.addition A l (m + 1)) :=
  .call (.bind_of_paid (one_le_calls .multiplication n) (h.rule .multiplication) (by decide)
    fun first => .chained ((h.additionLinks first).mono (by decide) (by decide)))

/-- A link of a chain: an operator, an operand, and the rest of the chain. -/
theorem accounts_link {part : Name} {links : Expr α → Counted (Expr α)}
    {links' : Expr α → Rule (Expr α)} {e : Expr α} {op : Operator}
    (hpart : Accounts l (n + 1) (5 - part.calls) part.calls (rule A l part n)
      (Grammar.rule A l part m)) (hcalls : part.calls ≤ 5)
    (hlinks : ∀ e, Accounts l n 0 debt (links e) (links' e)) :
    Accounts l (n + 1) 0 debt
      (do
        Counted.ofRule (Rule.deepen l)
        let _ ← Counted.ofRule Rule.eat
        let right ← rule A l part n
        links (.node e op right))
      (do
        Rule.deepen l
        let _ ← Rule.eat
        let right ← Grammar.rule A l part m
        links' (.node e op right)) := by
  refine .bind .deepen (Nat.zero_le _) fun _ => .bind .eat (Nat.zero_le _) fun _ => ?_
  refine .bind_of_paid (one_le_calls part n) hpart (by omega) fun right => ?_
  exact (hlinks _).mono (by omega) (by omega)

theorem accounts_additionLinks (h : AllAccount A l n m) (e : Expr α) :
    Accounts l (n + 1) 0 0 (additionLinks A l (n + 1) e)
      (Grammar.additionLinks A l (m + 1) e) := by
  refine .cursor_bind fun c => ?_
  cases hop : c.operator? [.add, .subtract] with
  | some op => exact accounts_link (h.rule .multiplication) (by decide) h.additionLinks
  | none => exact .pure _

theorem accounts_multiplicationLinks (h : AllAccount A l n m) (e : Expr α) :
    Accounts l (n + 1) 0 3 (multiplicationLinks A l (n + 1) e)
      (Grammar.multiplicationLinks A l (m + 1) e) := by
  refine .cursor_bind fun c => ?_
  cases hop : c.operator? [.multiply, .divide] with
  | some op => exact accounts_link (h.rule .power) (by decide) h.multiplicationLinks
  | none =>
      dsimp only
      split
      · exact .bind (h.rule .multiplication) (by decide) fun right => .pure _
      · exact .pure _

theorem accounts_multiplication (h : AllAccount A l n m) :
    Accounts l (n + 2) 2 3 (multiplication A l (n + 1)) (Grammar.multiplication A l (m + 1)) :=
  .call <| .nested <| .chained <|
    .bind_of_paid (one_le_calls .power n) (h.rule .power) (by decide) fun first =>
      (h.multiplicationLinks first).mono (by decide) (by decide)

theorem accounts_power (h : AllAccount A l n m) :
    Accounts l (n + 2) 3 2 (power A l (n + 1)) (Grammar.power A l (m + 1)) := by
  refine .call <| .nested <| .bind (h.rule .value) (by decide) fun base => .cursor_bind fun c => ?_
  cases hop : c.operator? [.power] with
  | some op =>
      exact .bind .eat (by decide) fun _ => .bind (h.rule .powerValue) (by decide) fun exponent =>
        .pure _
  | none => exact .pure _

theorem accounts_powerValue (h : AllAccount A l n m) :
    Accounts l (n + 2) 2 3 (powerValue A l (n + 1)) (Grammar.powerValue A l (m + 1)) := by
  refine .call <| .bind (h.rule .power) (by decide) fun exponent => .cursor_bind fun c => ?_
  split
  · exact .bind (h.rule .multiplication) (by decide) fun right => .pure _
  · exact .pure _

theorem accounts_value (h : AllAccount A l n m) :
    Accounts l (n + 2) 4 1 (value A l (n + 1)) (Grammar.value A l (m + 1)) := by
  refine .call <| .nested <| .cursor_bind fun c => ?_
  cases hc : c.current? with
  | none => exact .fail (by simp)
  | some t =>
      dsimp only
      cases hkind : t.kind with
      | opening b =>
          exact .bind .eat (by decide) fun _ => .bind (h.rule .expression) (by decide) fun inner =>
            .bind (.closeBracket _ _) (by decide) fun _ => .pure _
      | closing b => exact .fail (by simp)
      | constant => exact .bind .eat (by decide) fun _ => .pure _
      | letter =>
          exact .bind .eat (by decide) fun _ =>
            (Accounts.variableNode _).mono (by decide) (by decide)
      | number => exact .bind .eat (by decide) fun _ => .pure _
      | operator =>
          dsimp only
          split
          · exact .bind .eat (by decide) fun _ => .bind (h.rule .value) (by decide) fun e => .pure _
          · exact .fail (by simp)

/-- **The counted rules account for the rules** of the grammar under every larger budget. -/
theorem accounts {m : Nat} (h : n ≤ m) : AllAccount A l n m := by
  -- by induction on the budget of the counted rules; the other one always has as much left
  induction n generalizing m with
  | zero =>
      refine ⟨fun name => ?_, fun _ => .out_of_budget, fun _ => .out_of_budget⟩
      cases name <;> exact .exhausted
  | succ n ih =>
      cases m with
      | zero => omega
      | succ m =>
      have ih := ih (Nat.le_of_succ_le_succ h)
      refine ⟨fun name => ?_, accounts_additionLinks ih, accounts_multiplicationLinks ih⟩
      cases name with
      | expression => exact accounts_expression ih
      | addition => exact accounts_addition ih
      | multiplication => exact accounts_multiplication ih
      | power => exact accounts_power ih
      | powerValue => exact accounts_powerValue ih
      | value => exact accounts_value ih

/-- **What a rule costs**: the tokens it has read pay for its calls, but for those that lead to a
value. -/
theorem calls_add_le (name : Name) (n : Nat) (c : Cursor) :
    (rule A l name n c).calls + 5 * (rule A l name n c).outcome.cursor.rest.length ≤
      5 * c.rest.length + name.calls := by
  have haccounts := (accounts (A := A) (l := l) (Nat.le_refl n)).rule name
  cases h : (rule A l name n c).outcome with
  | done e c' =>
      have := haccounts.done c e c' h
      simp only [Outcome.cursor]
      omega
  | failed f c' => exact haccounts.failed c f c' h

/-- **The number of calls**: five for each token left, and those that lead to a value. -/
theorem calls_le (name : Name) (n : Nat) (c : Cursor) :
    (rule A l name n c).calls ≤ 5 * c.rest.length + name.calls :=
  Nat.le_trans (Nat.le_add_right _ _) (calls_add_le name n c)

/-- With a budget of as many calls, forgetting the count leaves the rule under any larger budget. -/
theorem rule_eq_outcome {name : Name} {c : Cursor}
    (hn : 5 * c.rest.length + name.calls ≤ n) (hm : n ≤ m) :
    Grammar.rule A l name m c = (rule A l name n c).outcome :=
  ((accounts hm).rule name).outcome c (Nat.lt_succ_of_le (Nat.le_trans (calls_le name n c) hn))

/-- The budget of the grammar is at least as large as the number of calls. -/
theorem calls_le_budget (name : Name) (c : Cursor) :
    5 * c.rest.length + name.calls ≤ Grammar.budget c := by
  have hcalls : name.calls ≤ 5 := by cases name <;> decide
  unfold Grammar.budget
  omega

/-- **Forgetting the count** leaves the rule of the grammar. -/
theorem outcome_apply (name : Name) (c : Cursor) :
    (apply A l name c).outcome = Grammar.apply A l name c :=
  (rule_eq_outcome (calls_le_budget name c) (Nat.le_refl _)).symm

/-- **What a rule of the grammar costs**. -/
theorem calls_apply_add_le (name : Name) (c : Cursor) :
    (apply A l name c).calls + 5 * (Grammar.apply A l name c).cursor.rest.length ≤
      5 * c.rest.length + name.calls :=
  outcome_apply (A := A) (l := l) name c ▸ calls_add_le name _ c

/-- **The calls of a rule** of the grammar. -/
theorem calls_apply_le (name : Name) (c : Cursor) :
    (apply A l name c).calls ≤ 5 * c.rest.length + name.calls :=
  calls_le name _ c

/-- Brackets that are never closed cost the most: each is read by an expression of its own. -/
example : (apply calculator ⟨none, .divisionByZero⟩ .expression
    (.start [⟨.opening .paren, "(", 0⟩, ⟨.opening .paren, "(", 1⟩])).calls = 5 * 2 + 5 := by
  decide +kernel

end Counted

/-- **No rule runs out of its budget**: one of as many calls as there may be is as good as any
larger one. -/
theorem Grammar.rule_eq_apply {A : Arithmetic α} {l : DepthLimit} {name : Name} {c : Cursor}
    {n : Nat} (h : 5 * c.rest.length + name.calls ≤ n) : rule A l name n c = apply A l name c := by
  rw [Counted.rule_eq_outcome (Nat.le_refl _) h, apply,
    Counted.rule_eq_outcome (Nat.le_refl _) (Counted.calls_le_budget name c)]

/-- The fault of the budget is never seen, unless the depth limit has the same. -/
theorem Grammar.fault_of_exhausted {A : Arithmetic α} {l : DepthLimit} {name : Name} {c : Cursor}
    (h : (apply A l name c).fault? = some .nestingExhausted) : l.fault = .nestingExhausted := by
  rw [← Counted.outcome_apply] at h
  refine ((Counted.accounts (Nat.le_refl _)).rule name).ends c ?_ h
  exact Nat.lt_succ_of_le
    (Nat.le_trans (Counted.calls_apply_le name c) (Counted.calls_le_budget name c))

end Argand
