import Argand.Expr.Grammar
import Mathlib.Tactic.Common

/-!
# Derivations of the grammar

The rules of the grammar read tokens under a budget of calls and a depth limit. What they read does
not depend on either: `Derives A g r` says that the goal `g` has the reading `r`, without counting
calls or levels. A goal is a rule at some tokens, or what is left to do of a rule once its operands
so far are read. All rules but that of values have the same shape, and differ only in what their
operands, their operators and the factors after them are.

## Main definitions

* `Argand.Grammar.Reading`, `Argand.Grammar.Goal`.
* `Argand.Grammar.Derives`: the derivations.
* `Argand.Grammar.Name.StopsAt`: the tokens in front of which a rule stops.

## Main results

* `Argand.Grammar.Derives.unique`: a goal has one reading at most.
* `Argand.Grammar.Derives.suffix`: rules read from left to right.
* `Argand.Grammar.Derives.length_lt`: every rule reads a token.
* `Argand.Grammar.Derives.stopsAt`: no rule stops too early.
-/

namespace Argand

variable {α : Type}

namespace Grammar

/-! ### The shape of the rules -/

/-- The rule of the **operands** of a rule. A value has none. -/
def Name.operand? : Name → Option Name
  | .expression => some .addition
  | .addition => some .multiplication
  | .multiplication => some .power
  | .power => some .value
  | .powerValue => some .power
  | .value => none

/-- The **operators** between the operands of a rule. -/
def Name.operators : Name → List Operator
  | .addition => [.add, .subtract]
  | .multiplication => [.multiply, .divide]
  | .power => [.power]
  | .expression | .powerValue | .value => []

/-- The rule of a **factor** that may follow the operands of a rule without an operator. -/
def Name.factor? : Name → Option Name
  | .expression => some .expression
  | .multiplication => some .multiplication
  | .powerValue => some .multiplication
  | .addition | .power | .value => none

/-- The operator in front of some tokens, if it is among some operators. -/
def operatorAt? (tokens : List Token) (among : List Operator) : Option Operator :=
  (Cursor.start tokens).operator? among

/-- Whether a value can begin in front of some tokens. -/
def valueAt (tokens : List Token) : Bool :=
  (Cursor.start tokens).atValue

/-- An operator stands in front of some tokens only if there are any. -/
theorem exists_of_operatorAt? {ts : List Token} {among : List Operator} {op : Operator}
    (h : operatorAt? ts among = some op) :
    ∃ t us, ts = t :: us ∧ t.kind = .operator ∧ Operator.ofSymbol t.text = op ∧ op ∈ among := by
  cases ts with
  | nil => cases h
  | cons t us =>
      have h : (if t.kind = .operator && among.contains (Operator.ofSymbol t.text) then
        some (Operator.ofSymbol t.text) else none) = some op := h
      split at h
      · rename_i hcond
        obtain rfl := Option.some.inj h
        exact ⟨t, us, rfl, by simpa using hcond⟩
      · cases h

/-- A rule may **stop** in front of tokens that it cannot go on with. -/
def Name.MayStop (name : Name) (tokens : List Token) : Prop :=
  operatorAt? tokens name.operators = none ∧ (name.factor?.isSome → valueAt tokens = false)

/-! ### Readings and goals -/

/-- What a rule makes of some tokens: a formula and the tokens after it, or a fault. -/
abbrev Reading (α : Type) := Except Fault (Expr α × List Token)

/-- A reading as the second operand of an operator. -/
def Reading.after (e : Expr α) (op : Operator) (r : Reading α) : Reading α :=
  r.map fun (e', ts) => (.node e op e', ts)

/-- A reading in brackets, of which the closing one comes next. -/
def Reading.within (opening : Token) (b : Bracket) : Reading α → Reading α
  | .ok (e, t :: ts) =>
    if t.kind = .closing b then .ok (e, ts)
    else .error (.missingClosing opening.text opening.position)
  | .ok (_, []) => .error (.missingClosing opening.text opening.position)
  | .error f => .error f

/-- The reading of a value that is a single token, or a fault at it. An opening bracket and a minus
sign begin longer values. -/
def tokenReading? (A : Arithmetic α) (t : Token) (ts : List Token) : Option (Reading α) :=
  match t.kind with
  | .constant => some (.ok (.atom (.constant t.text), ts))
  | .number => some (.ok (Expr.number (A.literal t.text), ts))
  | .letter =>
    if reservedNames.contains t.text.toLower then some (.error (.reservedName t.text t.position))
    else some (.ok (Expr.scaled t.text.toLower A.one, ts))
  | .operator =>
    if t.text = "-" then none else some (.error (.unexpectedToken t.text t.position))
  | .closing _ => some (.error (.unexpectedToken t.text t.position))
  | .opening _ => none

/-- What is to be read. -/
inductive Goal (α : Type) where
  | rule (name : Name) (tokens : List Token)
  | more (name : Name) (sofar : Reading α)

/-- The **derivations** of the grammar: which goals have which readings. -/
inductive Derives (A : Arithmetic α) : Goal α → Reading α → Prop
  | operand {name part : Name} {ts : List Token} {r r' : Reading α} :
      name.operand? = some part → Derives A (.rule part ts) r → Derives A (.more name r) r' →
      Derives A (.rule name ts) r'
  | failed {name : Name} {f : Fault} : Derives A (.more name (.error f)) (.error f)
  | stop {name : Name} {e : Expr α} {ts : List Token} : name.MayStop ts →
      Derives A (.more name (.ok (e, ts))) (.ok (e, ts))
  | link {name part : Name} {e : Expr α} {op : Operator} {t : Token} {ts : List Token}
      {r r' : Reading α} : name ≠ .power → operatorAt? (t :: ts) name.operators = some op →
      name.operand? = some part → Derives A (.rule part ts) r →
      Derives A (.more name (r.after e op)) r' → Derives A (.more name (.ok (e, t :: ts))) r'
  | exponent {e : Expr α} {op : Operator} {t : Token} {ts : List Token} {r : Reading α} :
      operatorAt? (t :: ts) Name.power.operators = some op → Derives A (.rule .powerValue ts) r →
      Derives A (.more .power (.ok (e, t :: ts))) (r.after e .power)
  /-- A factor without an operator ends a rule. -/
  | factor {name part : Name} {e : Expr α} {ts : List Token} {r : Reading α} :
      operatorAt? ts name.operators = none → name.factor? = some part → valueAt ts = true →
      Derives A (.rule part ts) r → Derives A (.more name (.ok (e, ts))) (r.after e .multiply)
  | nothing : Derives A (.rule .value []) (.error .missingNumber)
  | bracket {t : Token} {b : Bracket} {ts : List Token} {r : Reading α} : t.kind = .opening b →
      Derives A (.rule .expression ts) r → Derives A (.rule .value (t :: ts)) (r.within t b)
  | token {t : Token} {ts : List Token} {r : Reading α} : tokenReading? A t ts = some r →
      Derives A (.rule .value (t :: ts)) r
  /-- The negative of a value is zero minus it. -/
  | negative {t : Token} {ts : List Token} {r : Reading α} : t.kind = .operator → t.text = "-" →
      Derives A (.rule .value ts) r →
      Derives A (.rule .value (t :: ts)) (r.after (Expr.number A.zero) .subtract)

variable {A : Arithmetic α}

@[simp] theorem Reading.after_ok (e e' : Expr α) (op : Operator) (ts : List Token) :
    Reading.after e op (.ok (e', ts)) = .ok (.node e op e', ts) := rfl

/-- An operand that is read is read after an operator too. -/
theorem Reading.after_eq_ok {e x : Expr α} {op : Operator} {r : Reading α} {ts : List Token}
    (h : r.after e op = .ok (x, ts)) : ∃ e', r = .ok (e', ts) ∧ x = .node e op e' := by
  cases r with
  | error f => cases h
  | ok p =>
      obtain ⟨e', us⟩ := p
      cases h
      exact ⟨e', rfl, rfl⟩

/-- What is read in brackets ends with the closing one. -/
theorem Reading.within_eq_ok {t : Token} {b : Bracket} {r : Reading α} {e : Expr α}
    {ts : List Token} (h : r.within t b = .ok (e, ts)) :
    ∃ t', t'.kind = .closing b ∧ r = .ok (e, t' :: ts) := by
  unfold Reading.within at h
  split at h
  · split at h
    · cases h
      exact ⟨_, ‹_›, rfl⟩
    · cases h
  · cases h
  · cases h

/-- No token alone is a value in brackets. -/
theorem tokenReading?_opening {t : Token} {b : Bracket} (ht : t.kind = .opening b)
    (ts : List Token) : tokenReading? A t ts = none := by
  simp [tokenReading?, ht]

/-- No token alone is a negative value. -/
theorem tokenReading?_minus {t : Token} (ht : t.kind = .operator) (htext : t.text = "-")
    (ts : List Token) : tokenReading? A t ts = none := by
  simp [tokenReading?, ht, htext]

/-- A single token leaves the tokens after it. -/
theorem eq_of_tokenReading? {t : Token} {ts us : List Token} {e : Expr α}
    (h : tokenReading? A t ts = some (.ok (e, us))) : us = ts := by
  unfold tokenReading? at h
  split at h <;> (try split at h) <;> cases h <;> rfl

/-- The leaves that single tokens are. -/
theorem leaf_of_tokenReading? {t : Token} {ts us : List Token} {e : Expr α}
    (h : tokenReading? A t ts = some (.ok (e, us))) :
    t.kind = .constant ∧ e = .atom (.constant t.text) ∨
      t.kind = .number ∧ e = Expr.number (A.literal t.text) ∨
      t.kind = .letter ∧ t.text.toLower ∉ reservedNames ∧
        e = Expr.scaled t.text.toLower A.one := by
  unfold tokenReading? at h
  split at h
  · cases h
    exact .inl ⟨‹_›, rfl⟩
  · cases h
    exact .inr (.inl ⟨‹_›, rfl⟩)
  · split at h
    · cases h
    · rename_i hname
      cases h
      exact .inr (.inr ⟨‹_›, by simpa using hname, rfl⟩)
  · split at h <;> cases h
  · cases h
  · cases h

/-! ### Uniqueness -/

/-- **A goal has one reading** at most: the next token decides how a rule goes on. -/
theorem Derives.unique {g : Goal α} {r r' : Reading α} (h : Derives A g r)
    (h' : Derives A g r') : r = r' := by
  induction h generalizing r' with
  | operand hpart _ _ ih ihmore =>
      cases h' with
      | operand hpart' hr hmore =>
          obtain rfl := Option.some.inj (hpart.symm.trans hpart')
          obtain rfl := ih hr
          exact ihmore hmore
      | _ => cases hpart
  | failed => cases h'; rfl
  | stop hstop =>
      cases h' with
      | stop => rfl
      | link _ hop => cases hstop.1.symm.trans hop
      | exponent hop => cases hstop.1.symm.trans hop
      | factor _ hpart hvalue =>
          cases (hstop.2 (by rw [hpart]; rfl)).symm.trans hvalue
  | link hne hop hpart _ _ ih ihmore =>
      cases h' with
      | stop hstop => cases hstop.1.symm.trans hop
      | link _ hop' hpart' hr hmore =>
          obtain rfl := Option.some.inj (hop.symm.trans hop')
          obtain rfl := Option.some.inj (hpart.symm.trans hpart')
          obtain rfl := ih hr
          exact ihmore hmore
      | exponent => exact absurd rfl hne
      | factor hop' => cases hop.symm.trans hop'
  | exponent hop _ ih =>
      cases h' with
      | stop hstop => cases hstop.1.symm.trans hop
      | link hne => exact absurd rfl hne
      | exponent _ hr => rw [ih hr]
      | factor hop' => cases hop.symm.trans hop'
  | factor hop hpart hvalue _ ih =>
      cases h' with
      | stop hstop => cases (hstop.2 (by rw [hpart]; rfl)).symm.trans hvalue
      | link _ hop' => cases hop.symm.trans hop'
      | exponent hop' => cases hop.symm.trans hop'
      | factor _ hpart' _ hr =>
          obtain rfl := Option.some.inj (hpart.symm.trans hpart')
          rw [ih hr]
  | nothing =>
      cases h' with
      | operand hpart => cases hpart
      | nothing => rfl
  | bracket hkind _ ih =>
      cases h' with
      | operand hpart => cases hpart
      | bracket hkind' hr =>
          obtain rfl := TokenKind.opening.inj (hkind.symm.trans hkind')
          rw [ih hr]
      | token ht => cases (tokenReading?_opening hkind _).symm.trans ht
      | negative hkind' => cases hkind.symm.trans hkind'
  | token ht =>
      cases h' with
      | operand hpart => cases hpart
      | bracket hkind => cases (tokenReading?_opening hkind _).symm.trans ht
      | token ht' => exact Option.some.inj (ht.symm.trans ht')
      | negative hkind htext => cases (tokenReading?_minus hkind htext _).symm.trans ht
  | negative hkind htext _ ih =>
      cases h' with
      | operand hpart => cases hpart
      | bracket hkind' => cases hkind.symm.trans hkind'
      | token ht => cases (tokenReading?_minus hkind htext _).symm.trans ht
      | negative _ _ hr => rw [ih hr]

/-! ### Where rules stop -/

/-- The tokens that a reading leaves. -/
def Reading.tokens : Reading α → List Token
  | .ok (_, ts) => ts
  | .error _ => []

/-- The tokens that a goal has left to read. -/
def Goal.tokens : Goal α → List Token
  | .rule _ ts => ts
  | .more _ r => r.tokens

@[simp] theorem Reading.tokens_after (e : Expr α) (op : Operator) (r : Reading α) :
    (r.after e op).tokens = r.tokens := by
  cases r <;> rfl

/-- Brackets leave no more than what is in them does. -/
theorem Reading.tokens_within (t : Token) (b : Bracket) (r : Reading α) :
    (r.within t b).tokens <:+ r.tokens := by
  rcases r with f | ⟨e, _ | ⟨t', ts⟩⟩
  · exact List.suffix_rfl
  · exact List.suffix_rfl
  · simp only [Reading.within]
    split
    · exact List.suffix_cons t' ts
    · exact List.nil_suffix

/-- **Rules read from left to right**: what they leave is the end of what they were given. -/
theorem Derives.suffix {g : Goal α} {r : Reading α} (h : Derives A g r) :
    r.tokens <:+ g.tokens := by
  induction h with
  | operand _ _ _ ih ihmore => exact ihmore.trans ih
  | failed | stop | nothing => exact List.suffix_rfl
  | link _ _ _ _ _ ih ihmore =>
      have hmore := ihmore.trans (Reading.tokens_after _ _ _ ▸ ih)
      exact hmore.trans (List.suffix_cons _ _)
  | exponent _ _ ih =>
      rw [Reading.tokens_after]
      exact ih.trans (List.suffix_cons _ _)
  | factor _ _ _ _ ih =>
      rw [Reading.tokens_after]
      exact ih
  | bracket _ _ ih =>
      exact (Reading.tokens_within _ _ _).trans (ih.trans (List.suffix_cons _ _))
  | @token t ts r ht =>
      rcases r with f | ⟨e, us⟩
      · exact List.nil_suffix
      · obtain rfl := eq_of_tokenReading? ht
        exact List.suffix_cons t us
  | negative _ _ _ ih =>
      rw [Reading.tokens_after]
      exact ih.trans (List.suffix_cons _ _)

/-- The number of tokens of a goal. A reading counts as one token more than it leaves. -/
def Goal.length : Goal α → Nat
  | .rule _ ts => ts.length
  | .more _ (.ok (_, ts)) => ts.length + 1
  | .more _ (.error _) => 0

/-- **Every rule reads a token**, and no rule gives one back. -/
theorem Derives.length_lt {g : Goal α} {r : Reading α} (h : Derives A g r) {e : Expr α}
    {ts : List Token} (hr : r = .ok (e, ts)) : ts.length < g.length := by
  induction h generalizing e ts with
  | @operand _ _ _ r _ _ _ hmore ihpart ih =>
      rcases r with f | ⟨e', us⟩
      · cases hmore
        cases hr
      · have hpart := ihpart rfl
        have hmore := ih hr
        simp only [Goal.length] at hpart hmore ⊢
        omega
  | failed => cases hr
  | stop _ =>
      cases hr
      exact Nat.lt_succ_self _
  | @link _ _ _ _ _ _ r _ _ _ _ _ hmore ihpart ih =>
      rcases r with f | ⟨e', us⟩
      · cases hmore
        cases hr
      · have hpart := ihpart rfl
        have hmore := ih hr
        simp only [Goal.length, List.length_cons, Reading.after_ok] at hpart hmore ⊢
        omega
  | exponent _ _ ih =>
      obtain ⟨e', rfl, -⟩ := Reading.after_eq_ok hr
      have := ih rfl
      simp only [Goal.length, List.length_cons] at this ⊢
      omega
  | factor _ _ _ _ ih =>
      obtain ⟨e', rfl, -⟩ := Reading.after_eq_ok hr
      have := ih rfl
      simp only [Goal.length] at this ⊢
      omega
  | nothing => cases hr
  | bracket _ _ ih =>
      obtain ⟨t', -, rfl⟩ := Reading.within_eq_ok hr
      have := ih rfl
      simp only [Goal.length, List.length_cons] at this ⊢
      omega
  | token ht =>
      subst hr
      obtain rfl := eq_of_tokenReading? ht
      exact Nat.lt_succ_self _
  | negative _ _ _ ih =>
      obtain ⟨e', rfl, -⟩ := Reading.after_eq_ok hr
      have := ih rfl
      simp only [Goal.length, List.length_cons] at this ⊢
      omega

/-- The rules that **end together** with a rule: itself and the rules of its last operands. -/
def Name.parts : Name → List Name
  | .expression => [.expression, .addition, .multiplication, .power]
  | .addition => [.addition, .multiplication, .power]
  | .multiplication => [.multiplication, .power]
  | .powerValue => [.powerValue, .power]
  | .power => [.power]
  | .value => []

/-- A finished rule **stops** in front of tokens that none of the rules ending with it can go on
with. -/
def Name.StopsAt (name : Name) (tokens : List Token) : Prop :=
  ∀ part ∈ name.parts, part.MayStop tokens

/-- A rule stops where it and its operand do. -/
theorem Name.StopsAt.of_operand {name part : Name} {ts : List Token}
    (hpart : name.operand? = some part) (hstop : part.StopsAt ts) (h : name.MayStop ts) :
    name.StopsAt ts := by
  have hparts : name.parts = name :: part.parts := by
    cases name <;> cases hpart <;> rfl
  intro p hp
  rw [hparts] at hp
  obtain rfl | hp := List.mem_cons.mp hp
  · exact h
  · exact hstop p hp

/-- An exponent stops where a power does. -/
theorem Name.StopsAt.power {ts : List Token} (h : Name.powerValue.StopsAt ts) :
    Name.power.StopsAt ts :=
  fun p hp => h p (List.mem_cons_of_mem _ hp)

theorem operatorAt?_nil (ts : List Token) : operatorAt? ts [] = none := by
  cases h : operatorAt? ts [] with
  | none => rfl
  | some op =>
      obtain ⟨_, _, _, _, _, hmem⟩ := exists_of_operatorAt? h
      cases hmem

/-- A rule stops where the factor after it does. -/
theorem Name.StopsAt.of_factor {name part : Name} {ts : List Token}
    (hpart : name.factor? = some part) (h : part.StopsAt ts) : name.StopsAt ts := by
  cases name with
  | powerValue =>
      cases hpart
      have hvalue : valueAt ts = false := (h .multiplication (by decide)).2 rfl
      intro p hp
      obtain rfl | rfl : p = .powerValue ∨ p = .power := by simpa [Name.parts] using hp
      · exact ⟨operatorAt?_nil ts, fun _ => hvalue⟩
      · exact h .power (by decide)
  | _ => cases hpart <;> exact h

/-- Where a goal stops: the rest of a rule stops where the rule does, if its operands so far stop
where they were left. -/
def Goal.StopsAt : Goal α → List Token → Prop
  | .rule name _, us => name.StopsAt us
  | .more name (.ok (_, ts)), us =>
    (∀ part, name.operand? = some part → part.StopsAt ts) → name.StopsAt us
  | .more _ (.error _), _ => False

/-- **No rule stops too early**: what follows a rule cannot go on with it. -/
theorem Derives.stopsAt {g : Goal α} {r : Reading α} (h : Derives A g r) {e : Expr α}
    {ts : List Token} (hr : r = .ok (e, ts)) : g.StopsAt ts := by
  have value : ∀ us, Name.value.StopsAt us := fun us p hp => absurd hp List.not_mem_nil
  induction h generalizing e ts with
  | @operand _ _ _ r _ hpart _ hmore ihpart ih =>
      rcases r with f | ⟨e', us⟩
      · cases hmore
        cases hr
      · refine ih hr fun part' hpart' => ?_
        obtain rfl := Option.some.inj (hpart.symm.trans hpart')
        exact ihpart rfl
  | failed => cases hr
  | @stop name _ _ hstop =>
      cases hr
      intro hparts
      cases hpart : name.operand? with
      | none => cases name <;> first | exact value _ | cases hpart
      | some part => exact .of_operand hpart (hparts part hpart) hstop
  | @link _ _ _ _ _ _ r _ _ _ hpart _ hmore ihpart ih =>
      rcases r with f | ⟨e', us⟩
      · cases hmore
        cases hr
      · intro _
        refine ih hr fun part' hpart' => ?_
        obtain rfl := Option.some.inj (hpart.symm.trans hpart')
        exact ihpart rfl
  | exponent _ _ ih =>
      obtain ⟨e', rfl, -⟩ := Reading.after_eq_ok hr
      exact fun _ => Name.StopsAt.power (ih rfl)
  | factor _ hpart _ _ ih =>
      obtain ⟨e', rfl, -⟩ := Reading.after_eq_ok hr
      exact fun _ => .of_factor hpart (ih rfl)
  | nothing => cases hr
  | bracket | token | negative => exact value _

end Grammar

end Argand
