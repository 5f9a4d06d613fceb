import Argand.Expr.Basic
import Argand.Token

/-!
# Traced computations

Reading and solving can be watched: each step leaves a note, and the notes stay even if a later
step fails. A traced computation is its notes together with its outcome.

## Main definitions

* `Argand.Note`: what can be watched, with `Note.lines`.
* `Argand.Traced`: notes and an outcome; a monad that appends the notes.

## Main results

* `Argand.Traced.outcome_bind`: the outcome does not depend on the notes.
* `Argand.Traced.bind_congr`: a step matters only for the result that there is before it.
-/

namespace Argand

/-- A **note** of a step. -/
inductive Note (α : Type) where
  | tokens (ts : List Token)
  | tree (e : Expr α)
  | equation (left right : Expr α)

/-- A formula **as a line shows it**. -/
def Expr.line {α : Type} (A : Arithmetic α) : Expr α → String
  | .atom (.stray x) => A.spell x
  | e => e.describe A

/-- The lines of a note. -/
def Note.lines {α : Type} (A : Arithmetic α) : Note α → List String
  | tokens ts => [describeTokens ts]
  | tree e => ["Final AST:", e.describe A]
  | equation left right => ["Resolving: " ++ left.line A ++ " = " ++ right.line A]

/-- A **traced** computation. -/
structure Traced (α β : Type) where
  notes : List (Note α)
  outcome : Except Fault β

namespace Traced

variable {α β γ : Type}

/-- A result without notes. -/
def pure (b : β) : Traced α β := ⟨[], .ok b⟩

/-- One computation after another. -/
def andThen (x : Traced α β) (f : β → Traced α γ) : Traced α γ :=
  match x.outcome with
  | .ok b => ⟨x.notes ++ (f b).notes, (f b).outcome⟩
  | .error e => ⟨x.notes, .error e⟩

instance : Monad (Traced α) where
  pure := pure
  bind := andThen

/-- A computation without notes. -/
def lift (x : Except Fault β) : Traced α β := ⟨[], x⟩

instance : MonadLift (Except Fault) (Traced α) where
  monadLift := lift

/-- A fault. -/
def fail (f : Fault) : Traced α β := ⟨[], .error f⟩

/-- A note. -/
def note (n : Note α) : Traced α Unit := ⟨[n], .ok ()⟩

@[simp] theorem outcome_pure (b : β) : (Pure.pure b : Traced α β).outcome = .ok b := rfl

@[simp] theorem outcome_lift (x : Except Fault β) : (lift x : Traced α β).outcome = x := rfl

@[simp] theorem outcome_fail (f : Fault) : (fail f : Traced α β).outcome = .error f := rfl

@[simp] theorem outcome_note (n : Note α) : (note n).outcome = .ok () := rfl

/-- The outcome of two steps is that of the second on the result of the first. -/
@[simp] theorem outcome_bind (x : Traced α β) (f : β → Traced α γ) :
    (x >>= f).outcome = (x.outcome >>= fun b => (f b).outcome) := by
  show (andThen x f).outcome = _
  unfold andThen
  cases x.outcome <;> rfl

/-- What follows a computation matters only for the result it has. -/
theorem bind_congr {x : Traced α β} {f g : β → Traced α γ}
    (h : ∀ b, x.outcome = .ok b → f b = g b) : x >>= f = x >>= g := by
  show andThen x f = andThen x g
  unfold andThen
  split
  · rw [h _ ‹_›]
  · rfl

/-- What follows a plain computation matters only for the result it has. -/
theorem lift_bind_congr {x : Except Fault β} {f g : β → Traced α γ}
    (h : ∀ b, x = .ok b → f b = g b) : lift x >>= f = lift x >>= g :=
  bind_congr h

end Traced

end Argand
