import Argand.Proofs.Grammar.Counting
import Argand.Proofs.Grammar.Stopping

/-!
# Steps in a row make progress

On one cursor, tokens may be looked at and read and rules called in any order, each step where the
one before it ended, be it with a fault. The cursor never goes back and never passes the end of the
tokens; a rule that answers with a tree has read a token; and the calls of a rule are no more than
five for each token that was left, and those that lead to a value. Nothing of this depends on the
depth limit. So the calls of a whole row of steps are five for each token and five for each step at
most.

## Main definitions

* `Argand.Grammar.Step`, `Argand.Grammar.Step.perform`: what can be done at a cursor.
* `Argand.Grammar.performed`: steps in a row.

## Main results

* `Argand.Grammar.Step.movesOn`, `Argand.Grammar.Step.reads`: what one step does to the cursor.
* `Argand.Grammar.Step.calls_add_le`: what one step costs.
* `Argand.Grammar.progress`: what is true of all steps in a row.
* `Argand.Grammar.callsInRow_le`: what they cost together.
-/

namespace Argand

namespace Cursor.MovesOn

variable {c c' : Cursor}

theorem consumed_le (h : c.MovesOn c') : c.consumed ≤ c'.consumed := by
  obtain ⟨read, -, hcount⟩ := h
  omega

theorem length_le (h : c.MovesOn c') : c'.rest.length ≤ c.rest.length := by
  have := h.consumed_add_length
  have := h.consumed_le
  omega

/-- Where a cursor is that has moved on from the start. -/
theorem of_start {tokens : List Token} (h : (Cursor.start tokens).MovesOn c) :
    c.consumed ≤ tokens.length ∧ c.rest = tokens.drop c.consumed := by
  obtain ⟨read, htokens, hconsumed⟩ := h
  have htokens : tokens = read ++ c.rest := htokens
  have hconsumed : c.consumed = read.length := hconsumed.trans (Nat.zero_add _)
  rw [hconsumed, htokens]
  exact ⟨by simp, by simp⟩

end Cursor.MovesOn

namespace Grammar

variable {α : Type}

/-! ### Steps -/

/-- A **step** at a cursor. -/
inductive Step where
  | current
  | following
  | eat
  | rule (name : Name)
deriving DecidableEq, Repr

/-- What a step **answers**. -/
inductive StepAnswer (α : Type) where
  | token (t : Option Token)
  | tree (e : Expr α)

variable (A : Arithmetic α) (l : DepthLimit)

/-- A step is **performed** at a cursor. -/
def Step.perform : Step → Rule (StepAnswer α)
  | .current => do return .token (← Rule.cursor).current?
  | .following => do return .token (← Rule.cursor).following?
  | .eat => do return .token (← Rule.eat)
  | .rule name => do return .tree (← apply A l name)

/-- The calls of rules in a step. -/
def Step.calls : Step → Cursor → Nat
  | .current, _ | .following, _ | .eat, _ => 0
  | .rule name, c => (Counted.apply A l name c).calls

variable {A l}

/-- The cursor **moves on** in every step. -/
theorem Step.movesOn (s : Step) : (s.perform A l).MovesOn := by
  have hclosed := closed_movesOn l
  cases s with
  | current | following => exact hclosed.bind hclosed.cursor fun _ => hclosed.pure _
  | eat => exact hclosed.bind hclosed.eat fun _ => hclosed.pure _
  | rule name => exact hclosed.bind (movesOn_apply name) fun _ => hclosed.pure _

/-- **A step that answers with a tree** has read a token. -/
theorem Step.reads {s : Step} {c c' : Cursor} {e : Expr α}
    (h : s.perform A l c = .done (.tree e) c') : c.consumed < c'.consumed := by
  have hmoves : c.MovesOn c' := by
    have := s.movesOn (A := A) (l := l) c
    rwa [h] at this
  obtain ⟨name, hread⟩ : ∃ name, apply A l name c = .done e c' := by
    cases s with
    | current | following =>
        obtain ⟨_, _, -, h⟩ := Rule.bind_eq_done.mp h
        cases h
    | eat =>
        obtain ⟨_, _, -, h⟩ := Rule.bind_eq_done.mp h
        cases h
    | rule name =>
        obtain ⟨_, _, hread, h⟩ := Rule.bind_eq_done.mp h
        cases h
        exact ⟨name, hread⟩
  have hlength : c'.rest.length < c.rest.length := (derives_of_rule hread).shorter
  have hcount := hmoves.consumed_add_length
  omega

/-- **What a step costs**: the tokens it has read pay for its calls, but for five. -/
theorem Step.calls_add_le (s : Step) (c : Cursor) :
    s.calls A l c + 5 * (s.perform A l c).cursor.rest.length ≤ 5 * c.rest.length + 5 := by
  have hlength : (s.perform A l c).cursor.rest.length ≤ c.rest.length := (s.movesOn c).length_le
  cases s with
  | rule name =>
      have hname : name.calls ≤ 5 := by cases name <;> decide
      have hcost := Counted.calls_apply_add_le (A := A) (l := l) name c
      have hcursor : ((Step.rule name).perform A l c).cursor = (apply A l name c).cursor := by
        show (Rule.andThen (apply A l name) _ c).cursor = _
        unfold Rule.andThen
        cases apply A l name c <;> rfl
      rw [hcursor, Step.calls]
      omega
  | current | following | eat =>
      simp only [Step.calls]
      omega

/-! ### Steps in a row -/

/-- **A step performed** at a cursor, and what came of it. -/
structure Performed (α : Type) where
  step : Step
  before : Cursor
  outcome : Outcome (StepAnswer α)

/-- The cursor after a step. -/
def Performed.after (p : Performed α) : Cursor := p.outcome.cursor

variable (A l) in
/-- **Steps in a row**, each where the one before it ended, be it with a fault. -/
def performed : List Step → Cursor → List (Performed α)
  | [], _ => []
  | s :: steps, c =>
    let outcome := s.perform A l c
    ⟨s, c, outcome⟩ :: performed steps outcome.cursor

variable (A l) in
/-- The calls of rules in steps in a row. -/
def callsInRow : List Step → Cursor → Nat
  | [], _ => 0
  | s :: steps, c => s.calls A l c + callsInRow steps (s.perform A l c).cursor

/-- The cursor **moves on** to each step in a row, and in it. -/
theorem movesOn_of_mem_performed {steps : List Step} {c : Cursor} {p : Performed α}
    (h : p ∈ performed A l steps c) :
    p.outcome = p.step.perform A l p.before ∧ c.MovesOn p.before ∧ p.before.MovesOn p.after := by
  induction steps generalizing c with
  | nil => cases h
  | cons s steps ih =>
      obtain rfl | h := List.mem_cons.mp h
      · exact ⟨rfl, .of_eq rfl rfl, s.movesOn c⟩
      · obtain ⟨houtcome, hbefore, hafter⟩ := ih h
        exact ⟨houtcome, (s.movesOn c).trans hbefore, hafter⟩

/-- The cursor **never goes back** between steps. -/
theorem pairwise_performed (steps : List Step) (c : Cursor) :
    (performed A l steps c).Pairwise fun p q => p.after.MovesOn q.before := by
  induction steps generalizing c with
  | nil => exact .nil
  | cons s steps ih => exact .cons (fun q hq => (movesOn_of_mem_performed hq).2.1) (ih _)

/-- **Steps in a row make progress**, whatever they are, on all tokens and under every depth limit.
The cursor never goes back between steps or in one and never passes the end; before it stand the
tokens that have been read. A step that answers with a tree has read a token. And a rule ends within
as many calls as the tokens left and the rule itself allow: with that budget or any larger one it has
the same outcome, which is not that the budget has run out. -/
theorem progress (A : Arithmetic α) (l : DepthLimit) (tokens : List Token) (steps : List Step) :
    (performed A l steps (.start tokens)).Pairwise
      (fun p q => p.after.consumed ≤ q.before.consumed) ∧
    ∀ p ∈ performed A l steps (.start tokens),
      p.before.consumed ≤ p.after.consumed ∧ p.after.consumed ≤ tokens.length ∧
      p.after.rest = tokens.drop p.after.consumed ∧
      (∀ e c, p.outcome = .done (.tree e) c → p.before.consumed < p.after.consumed) ∧
      ∀ name, p.step = .rule name →
        let bound := 5 * (tokens.length - p.before.consumed) + name.calls
        (Counted.apply A l name p.before).outcome = apply A l name p.before ∧
        (Counted.apply A l name p.before).calls ≤ bound ∧
        (∀ n, bound ≤ n → rule A l name n p.before = apply A l name p.before) ∧
        ((apply A l name p.before).fault? = some .nestingExhausted →
          l.fault = .nestingExhausted) := by
  refine ⟨(pairwise_performed steps _).imp fun h => h.consumed_le, fun p hp => ?_⟩
  obtain ⟨houtcome, hbefore, hmoves⟩ := movesOn_of_mem_performed hp
  obtain ⟨hle, hrest⟩ := (hbefore.trans hmoves).of_start
  refine ⟨hmoves.consumed_le, hle, hrest, fun e c h => ?_, fun name _ => ?_⟩
  · have hread : p.before.consumed < c.consumed := Step.reads (houtcome ▸ h)
    rwa [Performed.after, h]
  · have hleft : tokens.length - p.before.consumed = p.before.rest.length := by
      rw [hbefore.of_start.2, List.length_drop]
    rw [hleft]
    exact ⟨Counted.outcome_apply name _, Counted.calls_apply_le name _, fun n => rule_eq_apply,
      fault_of_exhausted⟩

/-- A value that lacks its closing bracket fails at the end, where nothing more is read. -/
example : (performed calculator (.ofInt 9) [.following, .rule .value, .rule .power, .eat]
      (.start [⟨.opening .paren, "(", 0⟩, ⟨.number, "1", 1⟩])).map
      (fun p => (p.before.consumed, p.after.consumed, p.outcome.fault?)) =
    [(0, 0, none), (0, 2, some (.missingClosing "(" 0)), (2, 2, some .missingNumber),
      (2, 2, some .missingNumber)] := by
  decide +kernel

/-- **The calls of steps in a row** are five for each token and five for each step at most. -/
theorem callsInRow_le (steps : List Step) (c : Cursor) :
    callsInRow A l steps c ≤ 5 * c.rest.length + 5 * steps.length := by
  induction steps generalizing c with
  | nil => exact Nat.zero_le _
  | cons s steps ih =>
      have hstep := s.calls_add_le (A := A) (l := l) c
      have hrest := ih (s.perform A l c).cursor
      simp only [callsInRow, List.length_cons]
      omega

end Grammar

end Argand
