import Argand.Primitive
import Argand.Proofs.Computation
import Argand.Proofs.Grammar.Cursors
import Argand.Proofs.Grammar.Following
import Mathlib.Data.List.Infix

/-!
# How deep a formula is that was read under a depth limit

A chain counts its links from its start on, and gives them back at its end. Its tree grows to the
left: the first operand lies under all links, though it was read before they were counted. A chain
of `k` links needs three levels beside those of the links, so its tree is no deeper than the limit
as long as its operands are no deeper than three. An operand that is deeper, with further links
after it, can lie deeper than the limit, by as much as it is deeper than three.

## Main definitions

* `Argand.Grammar.ChainsWithin`: operands with links after them are not too deep.
* `Argand.Grammar.Bounded`: what a rule that was read can be as deep as.
* `Argand.Grammar.ChainBounded`: what the tree of a chain can be as deep as, between its links.

## Main results

* `Argand.Grammar.allBounded`: the rules keep these bounds.
* `Argand.depth_of_formula`: a formula is no deeper than the limit, but for deep operands in chains.
-/

namespace Argand

variable {α : Type}

/-- No limit at all. -/
def DepthLimit.unlimited : DepthLimit := ⟨none, .nestingExhausted⟩

namespace Grammar

/-! ### Operands in chains -/

/-- An operand of a rule is **no deeper** than some depth, if it was read and the rule goes on with
an operator after it. -/
def StaysWithin (d : Nat) (name : Name) : Outcome (Expr α) → Prop
  | .done e c => operatorAt? c.rest name.operators = none ∨ e.depth ≤ d
  | .failed _ _ => True

instance (d : Nat) (name : Name) : (o : Outcome (Expr α)) → Decidable (StaysWithin d name o)
  | .done e c => inferInstanceAs
    (Decidable (operatorAt? c.rest name.operators = none ∨ e.depth ≤ d))
  | .failed _ _ => inferInstanceAs (Decidable True)

/-- **Chains with operands within a depth**: in some tokens, no product of a sum with a further link
after it is deeper, and no power of a product with a further link after it. -/
def ChainsWithin (A : Arithmetic α) (d : Nat) (tokens : List Token) : Prop :=
  ∀ ts ∈ tokens.tails,
    StaysWithin d .addition (apply A .unlimited .multiplication (.start ts)) ∧
      StaysWithin d .multiplication (apply A .unlimited .power (.start ts))

instance (A : Arithmetic α) (d : Nat) (tokens : List Token) :
    Decidable (ChainsWithin A d tokens) :=
  inferInstanceAs (Decidable (∀ ts ∈ tokens.tails, _))

/-- The rules of chains. -/
def Name.IsChain (name : Name) : Prop :=
  name = .addition ∨ name = .multiplication

variable {A : Arithmetic α} {d : Nat} {n : Int} {tokens : List Token}

/-- A derived operand is the one that is read without a limit. -/
theorem StaysWithin.depth_le {name part : Name} {ts us : List Token}
    (h : StaysWithin d name (apply A .unlimited part (.start ts))) {e : Expr α}
    (he : Derives A (.rule part ts) (.ok (e, us))) {op : Operator}
    (hop : operatorAt? us name.operators = some op) : e.depth ≤ d := by
  have hends := ends_apply (A := A) (l := .unlimited) part (.start ts)
  unfold Rule.Ends at hends
  split at hends
  · rename_i e' c hdone
    rw [hdone] at h
    cases he.unique hends.1
    exact h.resolve_left fun hnone => by cases hnone.symm.trans hop
  · rename_i f c hfailed
    obtain hf | hnot := hends
    · cases he.unique hf
    · refine absurd ⟨?_, fun _ _ => rfl⟩ hnot
      cases part <;> simp [Name.calls, budget, Cursor.start]

theorem ChainsWithin.depth_le (h : ChainsWithin A d tokens) {name part : Name}
    (hname : name.IsChain) (hpart : name.operand? = some part) {ts us : List Token}
    (hts : ts <:+ tokens) {e : Expr α} (he : Derives A (.rule part ts) (.ok (e, us)))
    {op : Operator} (hop : operatorAt? us name.operators = some op) : e.depth ≤ d := by
  have hwithin := h ts ((List.mem_tails _ _).mpr hts)
  obtain rfl | rfl := hname
  · cases hpart
    exact hwithin.1.depth_le he hop
  · cases hpart
    exact hwithin.2.depth_le he hop

/-! ### Bounds -/

/-- The depth of what a rule reads, if it may count so many levels and no operand of a chain is
deeper than three. -/
def Name.bound : Name → Int → Int
  | .value, m => m - 1
  | .power, m | .powerValue, m => m + 1
  | .expression, m | .addition, m | .multiplication, m => m

/-- The **bounds of a rule** that was read with `m` levels left: it needed some of these, and is not
deeper than they allow. A power in front of a value has no exponent, so it is a value. -/
structure Bounded (excess : Nat) (name : Name) (m : Int) (e : Expr α) (ts : List Token) : Prop where
  levels : (name.levels : Int) ≤ m
  depth : (e.depth : Int) ≤ name.bound m + excess
  factor : name = .power → valueAt ts = true → (e.depth : Int) ≤ m - 2 + excess

/-- The bounds of a rule that is not that of powers. -/
theorem Bounded.of_ne {excess : Nat} {name : Name} {m : Int} {e : Expr α} {ts : List Token}
    (hname : name ≠ .power) (hlevels : (name.levels : Int) ≤ m)
    (hdepth : (e.depth : Int) ≤ name.bound m + excess) : Bounded excess name m e ts :=
  ⟨hlevels, hdepth, fun h => absurd h hname⟩

/-- The levels that a chain counts before its first operand. -/
def Name.own : Name → Int
  | .multiplication => 1
  | _ => 0

/-- The **bounds of a chain** that began with `m` levels left and has `j` of them left: each link
has put its tree one level deeper. A product in front of a value takes it as a factor. -/
structure ChainBounded (excess : Nat) (name : Name) (m j : Int) (e : Expr α) (ts : List Token) :
    Prop where
  levels : j ≤ m - name.own
  whole : (e.depth : Int) ≤ m + excess
  goesOn : ∀ {op}, operatorAt? ts name.operators = some op →
    (e.depth : Int) ≤ 3 + excess + (m - name.own - j)
  factor : name = .multiplication → valueAt ts = true → 3 ≤ j → (e.depth : Int) + 1 ≤ m + excess

variable {excess : Nat}

/-- The operands of chains need three levels together with those of the chain, and are as deep as
that allows. -/
theorem Name.IsChain.operand {name part : Name} (hname : name.IsChain)
    (hpart : name.operand? = some part) :
    (part.levels : Int) = 3 - name.own ∧ ∀ j, part.bound j = j + name.own := by
  obtain rfl | rfl := hname <;> cases hpart <;> simp [Name.levels, Name.own, Name.bound]

/-- The first operand of a chain. -/
theorem ChainBounded.first {name part : Name} (hname : name.IsChain)
    (hpart : name.operand? = some part) {m j : Int} (hj : j = m - name.own) {e : Expr α}
    {ts : List Token} (he : Bounded excess part j e ts)
    (hgoes : ∀ {op}, operatorAt? ts name.operators = some op → e.depth ≤ 3 + excess) :
    ChainBounded excess name m j e ts := by
  obtain ⟨hlevels, hbound⟩ := hname.operand hpart
  have hdepth := he.depth
  rw [hbound] at hdepth
  refine ⟨by omega, by omega, fun hop => ?_, fun hmul hvalue hthree => ?_⟩
  · have := hgoes hop
    omega
  · subst hmul
    cases hpart
    have := he.factor rfl hvalue
    simp only [Name.own] at hj
    omega

/-- **A link of a chain**: the tree so far and an operand, one level less left. -/
theorem ChainBounded.link {name part : Name} (hname : name.IsChain)
    (hpart : name.operand? = some part) {m j : Int} {e e' : Expr α} {ts us : List Token}
    {op : Operator} (h : ChainBounded excess name m j e ts)
    (hop : operatorAt? ts name.operators = some op) (he' : Bounded excess part (j - 1) e' us)
    (hgoes : ∀ {op}, operatorAt? us name.operators = some op → e'.depth ≤ 3 + excess) :
    ChainBounded excess name m (j - 1) (.node e op e') us := by
  obtain ⟨hlevels, hbound⟩ := hname.operand hpart
  have hj := h.levels
  have htree := h.goesOn hop
  have hneeds := he'.levels
  have hdepth := he'.depth
  rw [hlevels] at hneeds
  rw [hbound] at hdepth
  refine ⟨by omega, ?_, fun hop' => ?_, fun hmul hvalue hthree => ?_⟩
  · simp only [Expr.depth]
    omega
  · have := hgoes hop'
    simp only [Expr.depth]
    omega
  · subst hmul
    cases hpart
    have := he'.factor rfl hvalue
    simp only [Expr.depth, Name.own] at *
    omega

/-! ### The rules keep them -/

variable (A n tokens) in
/-- A rule **is bounded** under a budget, wherever it starts in some tokens. `n` is the limit. -/
def RuleBounded (excess budget : Nat) (name : Name) : Prop :=
  ∀ c, c.rest <:+ tokens → (rule A (.ofInt n) name budget).Ends c
    (fun e c' => Bounded excess name (n - c.depth) e c'.rest) fun _ => True

variable (n tokens) in
/-- The links of a chain are bounded: its tree stays within the bounds that it has so far. -/
def LinksBounded (excess : Nat) (name : Name) (links : Expr α → Rule (Expr α)) : Prop :=
  ∀ m e c, c.rest <:+ tokens → ChainBounded excess name m (n - c.depth) e c.rest →
    (links e).Ends c (fun e' _ => (e'.depth : Int) ≤ m + excess) fun _ => True

variable (A n tokens) in
/-- All rules and chains are bounded under a budget. -/
structure AllBounded (excess budget : Nat) : Prop where
  rule : ∀ name, RuleBounded A n tokens excess budget name
  additionLinks : LinksBounded n tokens excess .addition (additionLinks A (.ofInt n) budget)
  multiplicationLinks :
    LinksBounded n tokens excess .multiplication (multiplicationLinks A (.ofInt n) budget)

variable {budget : Nat}

/-- What is known of a rule that was read. -/
structure Known (A : Arithmetic α) (n : Int) (tokens : List Token) (excess : Nat) (name : Name)
    (c : Cursor) (e : Expr α) (c' : Cursor) : Prop where
  derives : Derives A (.rule name c.rest) (.ok (e, c'.rest))
  depth : c'.depth = c.depth
  suffix : c'.rest <:+ tokens
  bounded : Bounded excess name (n - c.depth) e c'.rest

/-- A bounded rule follows its derivations, too. -/
theorem RuleBounded.ends {name : Name} (h : RuleBounded A n tokens excess budget name) {c : Cursor}
    (hc : c.rest <:+ tokens) :
    (rule A (.ofInt n) name budget).Ends c (Known A n tokens excess name c) fun _ => True := by
  refine (((follows (A := A) (l := .ofInt n) budget).rule name c).and (h c hc)).mono ?_
    fun _ _ => trivial
  rintro e c' ⟨⟨hderives, hdepth⟩, hbounded⟩
  exact ⟨hderives, hdepth, hderives.suffix.trans hc, hbounded⟩

theorem bounded_expression (h : AllBounded A n tokens excess budget) :
    RuleBounded A n tokens excess (budget + 1) .expression := by
  intro c hc
  refine ((h.rule .addition).ends hc).bind (fun _ => id) fun left c₁ hleft => .cursor_bind ?_
  -- a sum leaves no factor to an expression
  have hnone : valueAt c₁.rest = false :=
    ((hleft.derives.stopsAt rfl : Name.addition.StopsAt c₁.rest) .multiplication (by decide)).2 rfl
  have hvalue : c₁.atValue = false := hnone
  rw [hvalue]
  exact .pure (.of_ne (by decide) hleft.bounded.levels hleft.bounded.depth)

theorem bounded_addition (hchains : ChainsWithin A d tokens) (hd : d ≤ 3 + excess)
    (h : AllBounded A n tokens excess budget) :
    RuleBounded A n tokens excess (budget + 1) .addition := by
  intro c hc
  refine ((h.rule .multiplication).ends hc).bind (fun _ => id) fun first c₁ hfirst => ?_
  have hchain : ChainBounded excess .addition (n - c.depth) (n - c₁.depth) first c₁.rest := by
    rw [hfirst.depth]
    refine .first (.inl rfl) rfl (by simp [Name.own]) hfirst.bounded fun hop => ?_
    exact (hchains.depth_le (.inl rfl) rfl hc hfirst.derives hop).trans hd
  refine .chained ((h.additionLinks _ first c₁ hfirst.suffix hchain).mono ?_ fun _ => id)
  exact fun e c₂ he c₃ _ _ => .of_ne (by decide) hfirst.bounded.levels he

/-- A link of a chain. -/
theorem bounded_link (hchains : ChainsWithin A d tokens) (hd : d ≤ 3 + excess) {name part : Name}
    (hname : name.IsChain) (hpart : name.operand? = some part)
    (hrule : RuleBounded A n tokens excess budget part) {links : Expr α → Rule (Expr α)}
    (hlinks : LinksBounded n tokens excess name links) {m : Int} {e : Expr α} {c : Cursor}
    (hc : c.rest <:+ tokens) (he : ChainBounded excess name m (n - c.depth) e c.rest)
    {op : Operator} (hop : operatorAt? c.rest name.operators = some op) :
    (do
      Rule.deepen (.ofInt n)
      let _ ← Rule.eat
      let right ← rule A (.ofInt n) part budget
      links (.node e op right)).Ends c (fun e' _ => (e'.depth : Int) ≤ m + excess)
      fun _ => True := by
  obtain ⟨t, ts, hcons, -⟩ := exists_of_operatorAt? hop
  refine .deepen_bind (fun _ c₁ hrest₁ hdepth₁ => .eat_bind (hrest₁.trans hcons) ?_)
    fun _ => trivial
  rintro c₂ rfl hdepth₂
  have hsuffix : c₂.rest <:+ tokens := (hcons ▸ List.suffix_cons t c₂.rest).trans hc
  refine (hrule.ends hsuffix).bind (fun _ => id) fun right c₃ hright => ?_
  have hlevels : n - (c₃.depth : Int) = n - c.depth - 1 := by
    rw [hright.depth, hdepth₂, hdepth₁]
    omega
  refine hlinks m _ c₃ hright.suffix ?_
  rw [hlevels]
  refine he.link hname hpart hop ?_ fun hop' => ?_
  · rw [← hlevels, hright.depth]
    exact hright.bounded
  · exact (hchains.depth_le hname hpart hsuffix hright.derives hop').trans hd

theorem bounded_additionLinks (hchains : ChainsWithin A d tokens) (hd : d ≤ 3 + excess)
    (h : AllBounded A n tokens excess budget) :
    LinksBounded n tokens excess .addition (additionLinks A (.ofInt n) (budget + 1)) := by
  intro m e c hc he
  refine Rule.Ends.cursor_bind ?_
  split
  · rename_i op hop
    exact bounded_link hchains hd (.inl rfl) rfl (h.rule .multiplication) h.additionLinks hc he hop
  · exact .pure he.whole

theorem bounded_multiplicationLinks (hchains : ChainsWithin A d tokens) (hd : d ≤ 3 + excess)
    (h : AllBounded A n tokens excess budget) :
    LinksBounded n tokens excess .multiplication
      (multiplicationLinks A (.ofInt n) (budget + 1)) := by
  intro m e c hc he
  refine Rule.Ends.cursor_bind ?_
  split
  · rename_i op hop
    exact bounded_link hchains hd (.inr rfl) rfl (h.rule .power) h.multiplicationLinks hc he hop
  · split
    · rename_i hvalue
      refine ((h.rule .multiplication).ends hc).bind (fun _ => id) fun right c₁ hright => .pure ?_
      have hneeds : 3 ≤ n - (c.depth : Int) := hright.bounded.levels
      have hleft := he.factor rfl hvalue hneeds
      have hdepth : (right.depth : Int) ≤ n - c.depth + excess := hright.bounded.depth
      have hown : n - (c.depth : Int) ≤ m - 1 := he.levels
      simp only [Expr.depth]
      omega
    · exact .pure he.whole

theorem bounded_multiplication (hchains : ChainsWithin A d tokens) (hd : d ≤ 3 + excess)
    (h : AllBounded A n tokens excess budget) :
    RuleBounded A n tokens excess (budget + 1) .multiplication := by
  intro c hc
  refine .nested (fun _ c₀ hrest₀ hdepth₀ => .chained ?_) fun _ => trivial
  rw [← hrest₀] at hc
  refine ((h.rule .power).ends hc).bind (fun _ => id) fun first c₁ hfirst => ?_
  have hchain : ChainBounded excess .multiplication (n - c.depth) (n - c₁.depth) first c₁.rest := by
    rw [hfirst.depth]
    refine .first (.inr rfl) rfl (by simp [Name.own, hdepth₀]; omega) hfirst.bounded fun hop => ?_
    exact (hchains.depth_le (.inr rfl) rfl hc hfirst.derives hop).trans hd
  refine (h.multiplicationLinks _ first c₁ hfirst.suffix hchain).mono ?_ fun _ => id
  have hneeds : 2 ≤ n - (c₀.depth : Int) := hfirst.bounded.levels
  refine fun e c₂ he c₃ _ _ c₄ _ _ => .of_ne (by decide) ?_ he
  simp only [Name.levels]
  omega

theorem bounded_power (h : AllBounded A n tokens excess budget) :
    RuleBounded A n tokens excess (budget + 1) .power := by
  intro c hc
  refine .nested (fun _ c₀ hrest₀ hdepth₀ => ?_) fun _ => trivial
  rw [← hrest₀] at hc
  refine ((h.rule .value).ends hc).bind (fun _ => id) fun base c₁ hbase => .cursor_bind ?_
  have hneeds : 1 ≤ n - (c₀.depth : Int) := hbase.bounded.levels
  have hdepth : (base.depth : Int) ≤ n - c₀.depth - 1 + excess := hbase.bounded.depth
  split
  · rename_i op hop
    have hop : operatorAt? c₁.rest Name.power.operators = some op := hop
    obtain ⟨t, ts, hcons, -⟩ := exists_of_operatorAt? hop
    refine .eat_bind hcons ?_
    rintro c₂ rfl hdepth₂
    have hsuffix : c₂.rest <:+ tokens := (hcons ▸ List.suffix_cons t c₂.rest).trans hbase.suffix
    refine ((h.rule .powerValue).ends hsuffix).bind (fun _ => id) fun exponent c₃ hexponent =>
      .pure fun c₄ hrest₄ _ => ?_
    have hdepth' : (exponent.depth : Int) ≤ n - c₂.depth + 1 + excess := hexponent.bounded.depth
    have hsame := hbase.depth
    refine ⟨?_, ?_, fun _ hvalue => ?_⟩
    · simp only [Name.levels]
      omega
    · simp only [Expr.depth, Name.bound]
      omega
    · -- an exponent takes the factors after it along
      have hstop : valueAt c₃.rest = false :=
        ((hexponent.derives.stopsAt rfl : Name.powerValue.StopsAt c₃.rest) .powerValue
          (by decide)).2 rfl
      rw [hrest₄, hstop] at hvalue
      cases hvalue
  · refine .pure fun c₂ _ _ => ⟨?_, ?_, fun _ _ => ?_⟩
    · simp only [Name.levels]
      omega
    · simp only [Name.bound]
      omega
    · omega

theorem bounded_powerValue (h : AllBounded A n tokens excess budget) :
    RuleBounded A n tokens excess (budget + 1) .powerValue := by
  intro c hc
  refine ((h.rule .power).ends hc).bind (fun _ => id) fun first c₁ hfirst => .cursor_bind ?_
  split
  · rename_i hvalue
    refine ((h.rule .multiplication).ends hfirst.suffix).bind (fun _ => id) fun right c₂ hright =>
      .pure (.of_ne (by decide) hfirst.bounded.levels ?_)
    have hleft := hfirst.bounded.factor rfl hvalue
    have hdepth : (right.depth : Int) ≤ n - c₁.depth + excess := hright.bounded.depth
    have hsame := hfirst.depth
    simp only [Expr.depth, Name.bound]
    omega
  · exact .pure (.of_ne (by decide) hfirst.bounded.levels hfirst.bounded.depth)

theorem bounded_value (h : AllBounded A n tokens excess budget) :
    RuleBounded A n tokens excess (budget + 1) .value := by
  intro c hc
  refine .nested (fun hl c₀ hrest₀ hdepth₀ => .cursor_bind ?_) fun _ => trivial
  have hallowed : ((c.depth + 1 : Nat) : Int) ≤ n := allows_ofInt_iff.mp hl
  have leaf {x : Atom α} {ts : List Token} :
      Bounded excess .value (n - c.depth) (.atom x) ts := by
    refine .of_ne (by decide) ?_ ?_
    · simp only [Name.levels]
      omega
    · simp only [Expr.depth, Name.bound]
      omega
  cases hcons : c₀.rest with
  | nil =>
      rw [Cursor.current?, hcons]
      exact .fail trivial
  | cons t ts =>
      rw [Cursor.current?, hcons]
      dsimp only [List.head?_cons]
      have hsuffix : ts <:+ tokens := by
        rw [← hrest₀, hcons] at hc
        exact (List.suffix_cons t ts).trans hc
      split
      · refine .eat_bind hcons ?_
        rintro c₁ rfl hdepth₁
        refine ((h.rule .expression).ends hsuffix).bind (fun _ => id) fun inner c₂ hinner => ?_
        refine (ends_closeBracket (e := inner) (Q := fun _ _ => True) (fun _ _ _ => trivial)
          fun _ _ => trivial).bind (fun _ => id) fun _ _ _ => .pure fun _ _ _ =>
            .of_ne (by decide) ?_ ?_
        · simp only [Name.levels]
          omega
        · have hdepth : (inner.depth : Int) ≤ n - c₁.depth + excess := hinner.bounded.depth
          simp only [Name.bound]
          omega
      · exact .eat_bind hcons fun _ _ _ => .pure fun _ _ _ => leaf
      · refine .eat_bind hcons fun _ _ _ => ?_
        simp only [variableNode]
        split
        · exact .fail trivial
        · exact .pure fun _ _ _ => leaf
      · exact .eat_bind hcons fun _ _ _ => .pure fun _ _ _ => leaf
      · split
        · refine .eat_bind hcons ?_
          rintro c₁ rfl hdepth₁
          refine ((h.rule .value).ends hsuffix).bind (fun _ => id) fun e c₂ he =>
            .pure fun _ _ _ => .of_ne (by decide) ?_ ?_
          · simp only [Name.levels]
            omega
          · have hneeds : 1 ≤ n - (c₁.depth : Int) := he.bounded.levels
            have hdepth : (e.depth : Int) ≤ n - c₁.depth - 1 + excess := he.bounded.depth
            simp only [Expr.depth, Name.bound]
            omega
        · exact .fail trivial
      · exact .fail trivial

/-- **All rules are bounded**, up to an excess: what the operands of chains with links after them are
deeper than three. -/
theorem allBounded (hchains : ChainsWithin A d tokens) (hd : d ≤ 3 + excess) (budget : Nat) :
    AllBounded A n tokens excess budget := by
  induction budget with
  | zero =>
      refine ⟨fun name c _ => ?_, fun _ _ _ _ _ => .fail trivial, fun _ _ _ _ _ => .fail trivial⟩
      cases name <;> exact .fail trivial
  | succ budget ih =>
      refine ⟨fun name => ?_, bounded_additionLinks hchains hd ih,
        bounded_multiplicationLinks hchains hd ih⟩
      cases name with
      | expression => exact bounded_expression ih
      | addition => exact bounded_addition hchains hd ih
      | multiplication => exact bounded_multiplication hchains hd ih
      | power => exact bounded_power ih
      | powerValue => exact bounded_powerValue ih
      | value => exact bounded_value ih

end Grammar

/-! ### Formulas -/

/-- **A formula is no deeper than the limit it was read under**, if no operand of a chain with a
further link after it is deeper than three; and if one is, by no more than it is deeper than
three. -/
theorem depth_of_formula {A : Arithmetic α} {n : Int} {d : Nat} {tokens : List Token} {e : Expr α}
    (h : (Grammar.formula A (.ofInt n) (!tokens.isEmpty) (.start tokens)).toExcept = .ok e)
    (hchains : Grammar.ChainsWithin A d tokens) : (e.depth : Int) ≤ n + (d - 3 : Nat) := by
  cases hread : Grammar.formula A (.ofInt n) (!tokens.isEmpty) (.start tokens) with
  | failed f c =>
      rw [hread] at h
      cases h
  | done e' c =>
      rw [hread] at h
      obtain rfl := Except.ok.inj h
      have hrule := (Grammar.apply_of_formula hread).1
      have hall : Grammar.AllBounded A n tokens (d - 3) (Grammar.budget (.start tokens)) :=
        Grammar.allBounded hchains (by omega) _
      have hbounded := hall.rule .expression (.start tokens) List.suffix_rfl
      unfold Rule.Ends at hbounded
      rw [show Grammar.rule A (.ofInt n) .expression (Grammar.budget (.start tokens))
        (.start tokens) = .done e' c from hrule] at hbounded
      simpa [Grammar.Name.bound, Cursor.start] using hbounded.depth

/-- `1*1*1*1+1+1+1` takes all levels of a limit of six. -/
theorem depth_of_formula_chain :
    ∃ tokens e, tokenize "1*1*1*1+1+1+1" = .ok tokens ∧
      (Grammar.formula calculator (.ofInt 6) (!tokens.isEmpty) (.start tokens)).toExcept = .ok e ∧
      Grammar.ChainsWithin calculator 3 tokens ∧ e.depth = 6 ∧ (e.depth : Int) ≤ 6 := by
  let one (i : Nat) : Token := ⟨.number, "1", i⟩
  let times (i : Nat) : Token := ⟨.operator, "*", i⟩
  let plus (i : Nat) : Token := ⟨.operator, "+", i⟩
  let tokens := [one 0, times 1, one 2, times 3, one 4, times 5, one 6, plus 7, one 8, plus 9,
    one 10, plus 11, one 12]
  have htokens : tokenize "1*1*1*1+1+1+1" = .ok tokens := by decide +kernel
  have hchains : Grammar.ChainsWithin calculator 3 tokens := by decide +kernel
  have hdepth : (Grammar.formula calculator (.ofInt 6) (!tokens.isEmpty)
      (.start tokens)).toExcept.map Expr.depth = .ok 6 := by decide +kernel
  obtain ⟨e, he, hsix⟩ := map_eq_ok.mp hdepth
  exact ⟨tokens, e, htokens, he, hchains, hsix, depth_of_formula he hchains⟩

/-- **A deep operand with links after it**: a product of five factors, four deep, and four more
terms are read under a limit of seven, though their tree is eight deep. -/
theorem formula_deeper_than_limit :
    (do
      let tokens ← tokenize "1*1*1*1*1+1+1+1+1"
      let e ← (Grammar.formula calculator (.ofInt 7) (!tokens.isEmpty) (.start tokens)).toExcept
      return e.depth) = .ok 8 := by
  decide +kernel

end Argand
