import Argand.Expr.Grammar
import Argand.Primitive
import Mathlib.Tactic.Common

/-!
# What rules do to the cursor

The rules of the grammar are put together from a few primitive ones, so what the primitives keep,
all rules keep. Two such properties are followed here, for rules that succeed and rules that fail.
The cursor moves on over the tokens it has read. And a rule gives back the levels it has counted,
with one exception: the level that a depth limit refuses has been counted already, and the rule that
asked for it keeps it.

Rules may be called in a row on one cursor, each where the one before it ended, be it with a fault.

## Main definitions

* `Argand.Rule.Closed`: properties that the rules of the grammar have if their primitives do.
* `Argand.Rule.MovesOn`, `Argand.Rule.GivesBack`: the two properties.
* `Argand.Grammar.Call`, `Argand.Grammar.calls`: rules called in a row.

## Main results

* `Argand.Rule.Closed.all`: all rules have a closed property.
* `Argand.Grammar.movesOn_apply`: the cursor moves on.
* `Argand.Grammar.depth_apply`, `Argand.Grammar.depth_apply_product`: levels are given back.
* `Argand.Grammar.depth_of_calls`: the depth stays in a row of calls that are refused no level.
* `Argand.Grammar.depth_restored`: what is true of every call in a row.
-/

namespace Argand

variable {α β γ : Type}

namespace Outcome

/-- The fault of an outcome. -/
def fault? : Outcome β → Option Fault
  | done _ _ => none
  | failed f _ => some f

@[simp] theorem cursor_mapCursor (g : Cursor → Cursor) (o : Outcome β) :
    (o.mapCursor g).cursor = g o.cursor := by
  cases o <;> rfl

@[simp] theorem fault?_mapCursor (g : Cursor → Cursor) (o : Outcome β) :
    (o.mapCursor g).fault? = o.fault? := by
  cases o <;> rfl

end Outcome

/-- A level is counted, be it allowed or not. -/
theorem Rule.deepen_apply (l : DepthLimit) (c : Cursor) :
    Rule.deepen l c = if l.allows (c.depth + 1) then .done () { c with depth := c.depth + 1 }
      else .failed l.fault { c with depth := c.depth + 1 } := rfl

/-- A nested rule runs one level deeper, or is refused there. -/
theorem Rule.nested_apply (l : DepthLimit) (p : Rule β) (c : Cursor) :
    Rule.nested l p c = if l.allows (c.depth + 1) then
      (p { c with depth := c.depth + 1 }).mapCursor fun c' => { c' with depth := c'.depth - 1 }
    else .failed l.fault { c with depth := c.depth + 1 } := by
  rw [Rule.nested, Rule.deepen_apply]
  cases l.allows (c.depth + 1) <;> rfl

/-! ### Properties of all rules -/

/-- A property `P` of rules and a property `L` of the links of chains are **closed** if the
primitive rules have them, and rules have them that are put together from such rules. The links need
not give back the levels they count, since their chain does. -/
structure Rule.Closed (l : DepthLimit) (P L : ∀ β : Type, Rule β → Prop) : Prop where
  pure : ∀ {β : Type} (b : β), P β (Pure.pure b)
  fail : ∀ {β : Type} (f : Fault), P β (Rule.fail f)
  cursor : P Cursor Rule.cursor
  eat : P Token Rule.eat
  closeBracket : ∀ t b, P Unit (Grammar.closeBracket t b)
  bind : ∀ {β γ : Type} {p : Rule β} {q : β → Rule γ}, P β p → (∀ b, P γ (q b)) → P γ (p >>= q)
  nested : ∀ {β : Type} {p : Rule β}, P β p → P β (Rule.nested l p)
  chained : ∀ {β : Type} {p : Rule β}, L β p → P β (Rule.chained p)
  /-- What all rules have, links have too. -/
  link : ∀ {β : Type} {p : Rule β}, P β p → L β p
  deepen : L Unit (Rule.deepen l)
  bindLinks : ∀ {β γ : Type} {p : Rule β} {q : β → Rule γ}, L β p → (∀ b, L γ (q b)) →
    L γ (p >>= q)

namespace Rule.Closed

open Grammar

variable {A : Arithmetic α} {l : DepthLimit} {P L : ∀ β : Type, Rule β → Prop}

/-- All rules and chains have a property under a budget. -/
structure All (A : Arithmetic α) (l : DepthLimit) (P L : ∀ β : Type, Rule β → Prop) (n : Nat) :
    Prop where
  rule : ∀ name, P _ (rule A l name n)
  additionLinks : ∀ e, L _ (additionLinks A l n e)
  multiplicationLinks : ∀ e, L _ (multiplicationLinks A l n e)

variable (hP : Closed l P L) {n : Nat}

include hP

theorem expression (h : All A l P L n) : P _ (expression A l (n + 1)) := by
  refine hP.bind (h.rule .addition) fun left => hP.bind hP.cursor fun c => ?_
  split
  · exact hP.bind (h.rule .expression) fun right => hP.pure _
  · exact hP.pure left

theorem addition (h : All A l P L n) : P _ (addition A l (n + 1)) :=
  hP.bind (h.rule .multiplication) fun first => hP.chained (h.additionLinks first)

/-- A link of a chain: an operator, an operand, and the rest of the chain. -/
theorem chain {part : Name} {links : Expr α → Rule (Expr α)} {e : Expr α} {op : Operator}
    (hpart : P _ (Grammar.rule A l part n)) (hlinks : ∀ e, L _ (links e)) :
    L _ (do
      Rule.deepen l
      let _ ← Rule.eat
      let right ← Grammar.rule A l part n
      links (.node e op right)) :=
  hP.bindLinks hP.deepen fun _ => hP.bindLinks (hP.link hP.eat) fun _ =>
    hP.bindLinks (hP.link hpart) fun _ => hlinks _

theorem additionLinks (h : All A l P L n) (e : Expr α) :
    L _ (Grammar.additionLinks A l (n + 1) e) := by
  refine hP.bindLinks (hP.link hP.cursor) fun c => ?_
  split
  · exact hP.chain (h.rule .multiplication) h.additionLinks
  · exact hP.link (hP.pure e)

theorem multiplicationLinks (h : All A l P L n) (e : Expr α) :
    L _ (Grammar.multiplicationLinks A l (n + 1) e) := by
  refine hP.bindLinks (hP.link hP.cursor) fun c => ?_
  split
  · exact hP.chain (h.rule .power) h.multiplicationLinks
  · split
    · exact hP.link (hP.bind (h.rule .multiplication) fun right => hP.pure _)
    · exact hP.link (hP.pure e)

theorem multiplication (h : All A l P L n) : P _ (Grammar.multiplication A l (n + 1)) :=
  hP.nested <| hP.chained <|
    hP.bindLinks (hP.link (h.rule .power)) fun first => h.multiplicationLinks first

theorem power (h : All A l P L n) : P _ (Grammar.power A l (n + 1)) := by
  refine hP.nested (hP.bind (h.rule .value) fun base => hP.bind hP.cursor fun c => ?_)
  split
  · exact hP.bind hP.eat fun _ => hP.bind (h.rule .powerValue) fun exponent => hP.pure _
  · exact hP.pure base

theorem powerValue (h : All A l P L n) : P _ (Grammar.powerValue A l (n + 1)) := by
  refine hP.bind (h.rule .power) fun exponent => hP.bind hP.cursor fun c => ?_
  split
  · exact hP.bind (h.rule .multiplication) fun right => hP.pure _
  · exact hP.pure exponent

theorem value (h : All A l P L n) : P _ (Grammar.value A l (n + 1)) := by
  refine hP.nested (hP.bind hP.cursor fun c => ?_)
  split
  · exact hP.fail _
  · split
    · exact hP.bind hP.eat fun _ => hP.bind (h.rule .expression) fun inner =>
        hP.bind (hP.closeBracket _ _) fun _ => hP.pure inner
    · exact hP.bind hP.eat fun _ => hP.pure _
    · refine hP.bind hP.eat fun _ => ?_
      simp only [variableNode]
      split
      · exact hP.fail _
      · exact hP.pure _
    · exact hP.bind hP.eat fun _ => hP.pure _
    · split
      · exact hP.bind hP.eat fun _ => hP.bind (h.rule .value) fun e => hP.pure _
      · exact hP.fail _
    · exact hP.fail _

/-- **All rules** have a closed property, under every budget. -/
theorem all (n : Nat) : All A l P L n := by
  induction n with
  | zero =>
      refine ⟨fun name => ?_, fun _ => hP.link (hP.fail _), fun _ => hP.link (hP.fail _)⟩
      cases name <;> exact hP.fail _
  | succ n ih =>
      refine ⟨fun name => ?_, hP.additionLinks ih, hP.multiplicationLinks ih⟩
      cases name with
      | expression => exact hP.expression ih
      | addition => exact hP.addition ih
      | multiplication => exact hP.multiplication ih
      | power => exact hP.power ih
      | powerValue => exact hP.powerValue ih
      | value => exact hP.value ih

end Rule.Closed

/-! ### What rules do to the cursor -/

/-- A rule **relates** the cursor where it starts, and the one where it ends with a result or a
fault. -/
def Rule.Relates (R : Option Fault → Cursor → Cursor → Prop) (p : Rule β) : Prop :=
  ∀ c, R (p c).fault? c (p c).cursor

/-- Two rules one after another relate what both of them relate in a row. -/
theorem Rule.Relates.bind {R : Option Fault → Cursor → Cursor → Prop}
    (htrans : ∀ {f c c' c''}, R none c c' → R f c' c'' → R f c c'') {p : Rule β} {q : β → Rule γ}
    (hp : p.Relates R) (hq : ∀ b, (q b).Relates R) : (p >>= q).Relates R := by
  intro c
  have hpc := hp c
  show R (Rule.andThen p q c).fault? c (Rule.andThen p q c).cursor
  unfold Rule.andThen
  cases h : p c with
  | failed f c' =>
      rw [h] at hpc
      exact hpc
  | done b c' =>
      rw [h] at hpc
      exact htrans hpc (hq b c')

/-- Two rules one after another succeed exactly when both do. -/
theorem Rule.bind_eq_done {p : Rule β} {q : β → Rule γ} {c c' : Cursor} {x : γ} :
    (p >>= q) c = .done x c' ↔ ∃ b c₁, p c = .done b c₁ ∧ q b c₁ = .done x c' := by
  show Rule.andThen p q c = _ ↔ _
  unfold Rule.andThen
  cases h : p c <;> simp

/-- The closing bracket is read, or the cursor stays. -/
theorem Grammar.closeBracket_cases (t : Token) (b : Bracket) (c : Cursor) :
    (∃ t' ts, c.rest = t' :: ts ∧ closeBracket t b c = .done () c.advance) ∨
      ∃ f, closeBracket t b c = .failed f c := by
  unfold closeBracket Cursor.current?
  cases hc : c.rest with
  | nil => exact .inr ⟨_, rfl⟩
  | cons t' ts =>
      by_cases hkind : t'.kind = .closing b
      · exact .inl ⟨t', ts, rfl, by simp [hkind]⟩
      · exact .inr ⟨_, by simp [hkind]; rfl⟩

/-- The cursor **moves on** over the tokens that are read, and counts them. -/
def Cursor.MovesOn (c c' : Cursor) : Prop :=
  ∃ read, c.rest = read ++ c'.rest ∧ c'.consumed = c.consumed + read.length

namespace Cursor.MovesOn

variable {c c' c'' : Cursor}

/-- A cursor that only changes its depth. -/
theorem of_eq (hrest : c'.rest = c.rest) (hconsumed : c'.consumed = c.consumed) : c.MovesOn c' :=
  ⟨[], hrest.symm, hconsumed⟩

theorem trans (h : c.MovesOn c') (h' : c'.MovesOn c'') : c.MovesOn c'' := by
  obtain ⟨read, hread, hcount⟩ := h
  obtain ⟨read', hread', hcount'⟩ := h'
  refine ⟨read ++ read', ?_, ?_⟩
  · rw [hread, hread', List.append_assoc]
  · rw [hcount', hcount, List.length_append, Nat.add_assoc]

theorem advance {t : Token} {ts : List Token} (h : c.rest = t :: ts) : c.MovesOn c.advance :=
  ⟨[t], by simp [Cursor.advance, h], rfl⟩

/-- **The cursor never passes the end** of the tokens. -/
theorem consumed_add_length (h : c.MovesOn c') :
    c'.consumed + c'.rest.length = c.consumed + c.rest.length := by
  obtain ⟨read, hread, hcount⟩ := h
  rw [hread, hcount, List.length_append]
  omega

end Cursor.MovesOn

/-- A rule **moves on** wherever it ends. -/
def Rule.MovesOn (p : Rule β) : Prop :=
  p.Relates fun _ c c' => c.MovesOn c'

/-- All that rules are put together from moves on. -/
theorem closed_movesOn (l : DepthLimit) :
    Rule.Closed l (fun _ p => p.MovesOn) (fun _ p => p.MovesOn) where
  pure _ _ := .of_eq rfl rfl
  fail _ _ := .of_eq rfl rfl
  cursor _ := .of_eq rfl rfl
  eat c := by
    unfold Rule.eat Cursor.current?
    cases hc : c.rest with
    | nil => exact .of_eq rfl rfl
    | cons t ts => exact .advance hc
  closeBracket t b c := by
    obtain ⟨t', ts, hc, h⟩ | ⟨f, h⟩ := Grammar.closeBracket_cases t b c
    · rw [h]
      exact .advance hc
    · rw [h]
      exact .of_eq rfl rfl
  bind := .bind fun h h' => h.trans h'
  nested {β p} hp c := by
    rw [Rule.nested_apply]
    split
    · rw [Outcome.cursor_mapCursor]
      exact hp { c with depth := c.depth + 1 }
    · exact .of_eq rfl rfl
  chained hp c := by
    rw [Rule.chained, Outcome.cursor_mapCursor]
    exact hp c
  link hp := hp
  deepen c := by
    rw [Rule.deepen_apply]
    split <;> exact .of_eq rfl rfl
  bindLinks := .bind fun h h' => h.trans h'

/-! ### Giving levels back -/

/-- A rule **gives back** its levels: it ends at the depth where it started, or with the fault of
the depth limit one level deeper. -/
def Rule.GivesBack (l : DepthLimit) (p : Rule β) : Prop :=
  p.Relates fun f c c' => c'.depth = c.depth ∨ f = some l.fault ∧ c'.depth = c.depth + 1

/-- All that rules are put together from gives back its levels; a chain does, whatever its links
do. -/
theorem closed_givesBack (l : DepthLimit) :
    Rule.Closed l (fun _ p => p.GivesBack l) (fun _ _ => True) where
  pure _ _ := .inl rfl
  fail _ _ := .inl rfl
  cursor _ := .inl rfl
  eat c := by
    unfold Rule.eat
    split <;> exact .inl rfl
  closeBracket t b c := by
    obtain ⟨_, _, -, h⟩ | ⟨f, h⟩ := Grammar.closeBracket_cases t b c
    · rw [h]
      exact .inl rfl
    · rw [h]
      exact .inl rfl
  bind := .bind fun {f c c' c''} h h' => by
    obtain h | ⟨h, -⟩ := h
    · exact h ▸ h'
    · cases h
  nested {β p} hp c := by
    rw [Rule.nested_apply]
    split
    · -- one level less than where the rule inside ends
      rw [Outcome.cursor_mapCursor, Outcome.fault?_mapCursor]
      refine (hp { c with depth := c.depth + 1 }).imp (fun h => ?_) fun h => ⟨h.1, ?_⟩
      · exact congrArg (· - 1) h
      · exact congrArg (· - 1) h.2
    · exact .inr ⟨rfl, rfl⟩
  chained _ c := by
    rw [Rule.chained, Outcome.cursor_mapCursor]
    exact .inl rfl
  link _ := trivial
  deepen := trivial
  bindLinks _ _ := trivial

/-- A rule **restores** the depth, if it starts where the limit allows one level more. -/
def Rule.Restores (l : DepthLimit) (p : Rule β) : Prop :=
  p.Relates fun _ c c' => l.allows (c.depth + 1) = true → c'.depth = c.depth

namespace Rule.Restores

variable {l : DepthLimit}

theorem pure (b : β) : Restores l (Pure.pure b) := fun _ _ => rfl

theorem fail (f : Fault) : Restores l (Rule.fail f : Rule β) := fun _ _ => rfl

theorem cursor : Restores l Rule.cursor := fun _ _ => rfl

theorem bind {p : Rule β} {q : β → Rule γ} (hp : p.Restores l) (hq : ∀ b, (q b).Restores l) :
    (p >>= q).Restores l :=
  Rule.Relates.bind (fun {f c c' c''} h h' hl => by
    have hdepth := h hl
    exact (h' (hdepth ▸ hl)).trans hdepth) hp hq

/-- A chain gives back all its levels. -/
theorem chained (p : Rule β) : (Rule.chained p).Restores l := by
  intro c _
  rw [Rule.chained, Outcome.cursor_mapCursor]

/-- So does a rule that runs one level deeper and leaves the depth there to a chain. -/
theorem nested_chained (p : Rule β) : (Rule.nested l (Rule.chained p)).Restores l := by
  intro c hl
  rw [Rule.nested_apply, if_pos hl, Rule.chained, Outcome.cursor_mapCursor,
    Outcome.cursor_mapCursor]
  rfl

end Rule.Restores

namespace Grammar

variable (A : Arithmetic α) (l : DepthLimit)

/-- **A product** restores the depth, if its own level is allowed. -/
theorem restores_multiplication (n : Nat) : (multiplication A l n).Restores l := by
  cases n with
  | zero => exact .fail _
  | succ n => exact .nested_chained _

/-- **A sum** restores the depth, if the level of its first product is allowed. -/
theorem restores_addition (n : Nat) : (addition A l n).Restores l := by
  cases n with
  | zero => exact .fail _
  | succ n => exact (restores_multiplication A l n).bind fun _ => .chained _

/-- **An expression** restores the depth, if the level of its first product is allowed. -/
theorem restores_expression (n : Nat) : (expression A l n).Restores l := by
  induction n with
  | zero => exact .fail _
  | succ n ih =>
      refine (restores_addition A l n).bind fun left => Rule.Restores.cursor.bind fun c => ?_
      split
      · exact ih.bind fun _ => .pure _
      · exact .pure _

/-! ### Rules in a row -/

/-- **A rule called** at a cursor, and what came of it. -/
structure Call (α : Type) where
  name : Name
  before : Cursor
  outcome : Outcome (Expr α)

/-- The cursor after a call. -/
def Call.after (call : Call α) : Cursor := call.outcome.cursor

/-- **Rules called in a row**, each where the one before it ended, be it with a fault. -/
def calls : List Name → Cursor → List (Call α)
  | [], _ => []
  | name :: names, c =>
    let outcome := apply A l name c
    ⟨name, c, outcome⟩ :: calls names outcome.cursor

variable {A l}

/-- Each of the calls is one of its rule at its cursor. -/
theorem outcome_of_mem_calls {names : List Name} {c : Cursor} {call : Call α}
    (h : call ∈ calls A l names c) : call.outcome = apply A l call.name call.before := by
  induction names generalizing c with
  | nil => cases h
  | cons name names ih =>
      obtain rfl | h := List.mem_cons.mp h
      · rfl
      · exact ih h

/-- The cursor moves on in every rule. -/
theorem movesOn_apply (name : Name) (c : Cursor) : c.MovesOn (apply A l name c).cursor :=
  ((closed_movesOn l).all (budget c)).rule name c

/-- Nothing is left after a formula. -/
theorem rest_of_finish {c c' : Cursor} {u : Unit} (h : finish c = .done u c') :
    c' = c ∧ c.rest = [] := by
  unfold finish Cursor.current? at h
  cases hc : c.rest with
  | nil =>
      rw [hc] at h
      cases h
      exact ⟨rfl, rfl⟩
  | cons t ts =>
      rw [hc, List.head?_cons] at h
      dsimp only at h
      split at h <;> cases h

/-- A whole formula is an expression with nothing left after it. -/
theorem apply_of_formula {any : Bool} {c c' : Cursor} {e : Expr α}
    (h : formula A l any c = .done e c') : apply A l .expression c = .done e c' ∧ c'.rest = [] := by
  unfold formula at h
  split at h
  · cases h
  · obtain ⟨tree, c₁, htree, h⟩ := Rule.bind_eq_done.mp h
    obtain ⟨_, c₂, hfinish, h⟩ := Rule.bind_eq_done.mp h
    cases h
    obtain ⟨rfl, hrest⟩ := rest_of_finish hfinish
    exact ⟨htree, hrest⟩

/-- **A whole formula** ends with the tokens, after all of them. -/
theorem consumed_of_formula {any : Bool} {tokens : List Token} {e : Expr α} {c : Cursor}
    (h : formula A l any (.start tokens) = .done e c) :
    c.rest = [] ∧ c.consumed = tokens.length := by
  obtain ⟨htree, hrest⟩ := apply_of_formula h
  have hcount := (movesOn_apply (A := A) (l := l) .expression (.start tokens)).consumed_add_length
  rw [htree] at hcount
  exact ⟨hrest, by simpa [Outcome.cursor, Cursor.start, hrest] using hcount⟩

/-- A rule ends at the depth where it started, or with the fault of the depth limit one level
deeper. -/
theorem depth_apply (name : Name) (c : Cursor) :
    (apply A l name c).cursor.depth = c.depth ∨
      (apply A l name c).fault? = some l.fault ∧ (apply A l name c).cursor.depth = c.depth + 1 :=
  ((closed_givesBack l).all (budget c)).rule name c

/-- **Between calls that the depth limit refuses nothing**, the depth is always the same. -/
theorem depth_of_calls {names : List Name} {c : Cursor}
    (hfree : ∀ call ∈ calls A l names c, call.outcome.fault? ≠ some l.fault) :
    ∀ call ∈ calls A l names c, call.before.depth = c.depth ∧ call.after.depth = c.depth := by
  induction names generalizing c with
  | nil => exact fun _ hcall => absurd hcall List.not_mem_nil
  | cons name names ih =>
      rw [calls, List.forall_mem_cons] at hfree
      have hfirst : (apply A l name c).cursor.depth = c.depth :=
        (depth_apply name c).resolve_right fun hrefused => hfree.1 hrefused.1
      rw [calls, List.forall_mem_cons]
      refine ⟨⟨rfl, hfirst⟩, fun call hcall => ?_⟩
      rw [← hfirst]
      exact ih hfree.2 call hcall

/-- The rules that begin with a product. -/
def Name.beginsProduct : Name → Bool
  | .expression | .addition | .multiplication => true
  | .power | .powerValue | .value => false

/-- A rule that begins with a product restores the depth, if the level of that is allowed. -/
theorem depth_apply_product {name : Name} (hname : name.beginsProduct = true) {c : Cursor}
    (hl : l.allows (c.depth + 1) = true) : (apply A l name c).cursor.depth = c.depth := by
  cases name with
  | expression => exact restores_expression A l _ c hl
  | addition => exact restores_addition A l _ c hl
  | multiplication => exact restores_multiplication A l _ c hl
  | power | powerValue | value => cases hname

/-- **The depth is restored** after each of any rules called in a row, whatever its outcome is,
unless the depth limit refused a level. A rule that begins with a product restores it even then, if
the level of that product was allowed; and no rule keeps more than one level. -/
theorem depth_restored {tokens : List Token} {names : List Name} {call : Call α}
    (h : call ∈ calls A l names (Cursor.start tokens)) :
    (call.outcome.fault? ≠ some l.fault ∨
        call.name.beginsProduct = true ∧ l.allows (call.before.depth + 1) = true →
      call.after.depth = call.before.depth) ∧
    call.after.depth ≤ call.before.depth + 1 := by
  rw [Call.after, outcome_of_mem_calls h]
  have hdepth := depth_apply (A := A) (l := l) call.name call.before
  refine ⟨?_, by omega⟩
  rintro (hfault | ⟨hname, hl⟩)
  · exact hdepth.resolve_right fun hrefused => hfault hrefused.1
  · exact depth_apply_product hname hl

/-- A bracket that is not closed: the value fails, and the power after it reads the rest. -/
theorem depth_restored_unclosed :
    let tokens : List Token := [⟨.opening .paren, "(", 0⟩, ⟨.number, "1", 1⟩]
    let call : Call Operand :=
      ⟨.value, .start tokens, apply calculator (.ofInt 9) .value (.start tokens)⟩
    call ∈ calls calculator (.ofInt 9) [.value, .power] (.start tokens) ∧
      call.outcome.fault? = some (.missingClosing "(" 0) ∧ call.after.depth = 0 := by
  intro tokens call
  have hcall : call ∈ calls calculator (.ofInt 9) [.value, .power] (.start tokens) :=
    List.mem_cons_self
  have hfault : call.outcome.fault? = some (.missingClosing "(" 0) := by decide +kernel
  exact ⟨hcall, hfault, (depth_restored hcall).1 (.inl (hfault ▸ by decide))⟩

/-- **A level that is refused is kept**: where one level is allowed, the power of a numeral is
refused the level of its value, and the value alone, which needs one level, is refused after it. -/
theorem refused_level_kept :
    let tokens : List Token := [⟨.number, "1", 0⟩]
    (calls calculator (.ofInt 1) [.power, .value] (.start tokens)).map
        (fun call => (call.before.depth, call.after.depth, call.outcome.fault?)) =
      [(0, 1, some (.tooDeep "1")), (1, 2, some (.tooDeep "1"))] ∧
    (apply calculator (.ofInt 1) .value (.start tokens)).fault? = none := by
  decide +kernel

end Grammar

end Argand
