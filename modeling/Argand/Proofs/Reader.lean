import Argand.Answer
import Argand.Proofs.Grammar.Following
import Argand.Proofs.Tokens

/-!
# What is read

The leaves of a formula that is read are those of its tokens, and the zeros of which values are
subtracted to negate them. So its leaves are numerals, zeros, variables without a factor and
constants, only constants for which there is a token, and only variables of which the text has the
letter.

## Main definitions

* `Argand.Expr.HasLeaves`: formulas with leaves of a kind.
* `Argand.Expr.IsEntered`: formulas with leaves as entered.

## Main results

* `Argand.Grammar.Derives.hasLeaves`: the leaves of a derived formula.
* `Argand.isEntered_of_read`: every formula that is read is as entered.
* `Argand.letter_of_read`: the variables of a formula that is read are letters of its text.
-/

namespace Argand

variable {α : Type} {A : Arithmetic α}

/-! ### Leaves -/

/-- A formula all **leaves** of which are of a kind. -/
def Expr.HasLeaves (leaf : Atom α → Prop) : Expr α → Prop
  | .atom x => leaf x
  | .node l _ r => l.HasLeaves leaf ∧ r.HasLeaves leaf

/-- A formula **as entered**: numerals and zeros, variables without a factor, and constants of a
given kind. -/
def Expr.IsEntered (A : Arithmetic α) (constant : String → Prop) : Expr α → Prop
  | .number a => a = A.zero ∨ ∃ text, a = A.literal text
  | .scaled _ c => c = A.one
  | .atom (.constant x) => constant x
  | .atom _ => False
  | .node l _ r => l.IsEntered A constant ∧ r.IsEntered A constant

/-- Leaves as entered make a formula as entered. -/
theorem Expr.HasLeaves.isEntered {constant : String → Prop} {e : Expr α}
    (he : e.HasLeaves fun x => (Expr.atom x).IsEntered A constant) : e.IsEntered A constant := by
  induction e with
  | atom x => exact he
  | node l op r ihl ihr => exact he.imp ihl ihr

/-- The names in a formula are those in its leaves. -/
theorem Expr.HasLeaves.of_mem_names {P : String → Prop} {e : Expr α}
    (he : e.HasLeaves fun x => ∀ y ∈ (Expr.atom x).names, P y) : ∀ y ∈ e.names, P y := by
  induction e with
  | atom x => exact he
  | node l op r ihl ihr =>
      exact fun y hy => (List.mem_append.mp hy).elim (ihl he.1 y) (ihr he.2 y)

namespace Grammar

/-- A reading of a formula all leaves of which are of a kind. -/
def Reading.HasLeaves (leaf : Atom α → Prop) : Reading α → Prop
  | .ok (e, _) => e.HasLeaves leaf
  | .error _ => True

/-- What is read before a goal has leaves of a kind only. -/
def Goal.HasLeaves (leaf : Atom α → Prop) : Goal α → Prop
  | .rule _ _ => True
  | .more _ r => r.HasLeaves leaf

variable {leaf : Atom α → Prop}

theorem Reading.HasLeaves.after {e : Expr α} {r : Reading α} (he : e.HasLeaves leaf)
    (hr : r.HasLeaves leaf) (op : Operator) : (r.after e op).HasLeaves leaf := by
  cases r with
  | error f => trivial
  | ok p => exact ⟨he, hr⟩

theorem Reading.HasLeaves.within {r : Reading α} (hr : r.HasLeaves leaf) (t : Token) (b : Bracket) :
    (r.within t b).HasLeaves leaf := by
  rcases r with f | ⟨e, _ | ⟨t', ts⟩⟩
  · trivial
  · trivial
  · simp only [Reading.within]
    split
    · exact hr
    · trivial

/-- **The leaves of a derived formula** are those of its tokens, and zeros. -/
theorem Derives.hasLeaves (hzero : leaf (.number A.zero)) {g : Goal α} {r : Reading α}
    (h : Derives A g r)
    (htoken : ∀ t ∈ g.tokens, ∀ ts e us, tokenReading? A t ts = some (.ok (e, us)) →
      e.HasLeaves leaf)
    (hg : g.HasLeaves leaf) : r.HasLeaves leaf := by
  induction h with
  | operand _ hr _ ih ihmore =>
      exact ihmore (fun t ht => htoken t (hr.suffix.subset ht)) (ih htoken trivial)
  | failed => trivial
  | stop => exact hg
  | link _ _ _ hr _ ih ihmore =>
      have hrest := fun t ht => htoken t (List.mem_cons_of_mem _ ht)
      refine ihmore (fun t ht => hrest t (hr.suffix.subset ?_)) (.after hg (ih hrest trivial) _)
      exact Reading.tokens_after _ _ _ ▸ ht
  | exponent _ _ ih =>
      exact .after hg (ih (fun t ht => htoken t (List.mem_cons_of_mem _ ht)) trivial) _
  | factor _ _ _ _ ih => exact .after hg (ih htoken trivial) _
  | nothing => trivial
  | bracket _ _ ih =>
      exact (ih (fun t ht => htoken t (List.mem_cons_of_mem _ ht)) trivial).within _ _
  | @token t ts r ht =>
      rcases r with f | ⟨e, us⟩
      · trivial
      · exact htoken t List.mem_cons_self ts e us ht
  | negative _ _ _ ih =>
      have hrest := fun t ht => htoken t (List.mem_cons_of_mem _ ht)
      exact .after (show (Expr.number A.zero).HasLeaves leaf from hzero) (ih hrest trivial) _

end Grammar

/-! ### Texts -/

/-- A formula that is read is derived from the tokens of its text. -/
theorem derives_of_read {limit : Except Fault DepthLimit} {source : String} {e : Expr α}
    (h : (Formula.read A limit source).outcome = .ok e) :
    ∃ tokens, tokenize source = .ok tokens ∧
      Grammar.Derives A (.rule .expression tokens) (.ok (e, [])) := by
  simp only [Formula.read, Traced.outcome_bind, Traced.outcome_note, Traced.outcome_pure] at h
  obtain ⟨tokens, htokens, h⟩ := bind_eq_ok.mp h
  obtain ⟨l, -, h⟩ := bind_eq_ok.mp h
  obtain ⟨_, -, h⟩ := bind_eq_ok.mp h
  obtain ⟨e', he', h⟩ := bind_eq_ok.mp h
  obtain ⟨_, -, h⟩ := bind_eq_ok.mp h
  obtain rfl := Except.ok.inj h
  exact ⟨tokens, htokens, Grammar.derives_of_formula he'⟩

/-- **The leaves of a formula that is read** are zeros, numerals, the three constants and variables
without a factor, of which the text has the letter. -/
theorem hasLeaves_of_read {leaf : Atom α → Prop} {limit : Except Fault DepthLimit}
    {source : String} (hzero : leaf (.number A.zero)) (hliteral : ∀ x, leaf (.number (A.literal x)))
    (hconstant : ∀ x ∈ ["i", "e", "π"], leaf (.constant x))
    (hletter : ∀ c ∈ source.toList, isLetter c = true →
      c.toString.toLower ∉ Grammar.reservedNames → leaf (.scaled c.toString.toLower A.one))
    {e : Expr α} (h : (Formula.read A limit source).outcome = .ok e) : e.HasLeaves leaf := by
  obtain ⟨tokens, htokens, hderives⟩ := derives_of_read h
  refine hderives.hasLeaves hzero (fun t ht ts e us hread => ?_) trivial
  have hsingle := isSingle_of_tokenize htokens t ht
  obtain ⟨hkind, rfl⟩ | ⟨hkind, rfl⟩ | ⟨hkind, hname, rfl⟩ := Grammar.leaf_of_tokenReading? hread
  · exact hconstant _ ((hsingle (by rw [hkind]; decide)).constant hkind)
  · exact hliteral _
  · obtain ⟨c, hc, htext, hisletter, -⟩ := (hsingle (by rw [hkind]; decide)).letter hkind
    rw [htext] at hname ⊢
    exact hletter c hc hisletter hname

/-- **Every formula that is read** has numerals, zeros, variables without a factor and the three
constants as leaves. -/
theorem isEntered_of_read {A : Arithmetic α} {limit : Except Fault DepthLimit} {source : String}
    {e : Expr α} (h : (Formula.read A limit source).outcome = .ok e) :
    e.IsEntered A fun x => x ∈ ["i", "e", "π"] := by
  refine (hasLeaves_of_read ?_ ?_ ?_ ?_ h).isEntered
  · exact .inl rfl
  · exact fun x => .inr ⟨x, rfl⟩
  · exact fun x hx => hx
  · exact fun c _ _ _ => rfl

/-- **Every variable of a formula that is read** has its letter in the text, in either case. -/
theorem letter_of_read {limit : Except Fault DepthLimit} {source : String} {e : Expr α}
    (h : (Formula.read A limit source).outcome = .ok e) :
    ∀ y ∈ e.names, y ∈ Grammar.variableNames ∧ ∃ c ∈ source.toList, c.toLower.toString = y := by
  have none {x : Atom α} (hx : (Expr.atom x).names = []) : ∀ y ∈ (Expr.atom x).names,
      y ∈ Grammar.variableNames ∧ ∃ c ∈ source.toList, c.toLower.toString = y := by simp [hx]
  refine (hasLeaves_of_read (none rfl) (fun _ => none rfl) (fun _ _ => none rfl) ?_ h).of_mem_names
  intro c hc hletter hname y hy
  obtain rfl := List.mem_singleton.mp hy
  obtain ⟨hlower, hmem⟩ := toLower_mem_variableNames hletter hname
  exact ⟨hmem, c, hc, hlower.symm⟩

end Argand
