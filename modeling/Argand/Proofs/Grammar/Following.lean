import Argand.Proofs.Grammar.Derivation

/-!
# The rules of the grammar follow its derivations

What a rule reads is derived, under every budget of calls and every depth limit; and so is its
fault, unless budget or limit run out. Six calls and three levels for each token, and as many
beyond the last one, are enough.

## Main definitions

* `Argand.Rule.Ends`: what holds of the end of a rule.
* `Argand.Grammar.Enough`: budgets and depth limits that do not run out.
* `Argand.Grammar.Reading.whole`: what is made of a reading that has to go to the last token.

## Main results

* `Argand.Grammar.follows`: the rules follow the derivations.
* `Argand.Grammar.exists_derives`: all tokens have a reading.
* `Argand.Grammar.toExcept_formula`: with enough depth, the grammar reads what is derived.
* `Argand.Grammar.derives_of_formula`: whatever the depth, a formula that is read is derived.
-/

namespace Argand

variable {α β γ : Type}

/-! ### How rules end -/

/-- A rule **ends** from a cursor with `Q`: its result and the cursor after it satisfy `Q`, its
fault `P`. -/
def Rule.Ends (p : Rule β) (c : Cursor) (Q : β → Cursor → Prop) (P : Fault → Prop) : Prop :=
  match p c with
  | .done b c' => Q b c'
  | .failed f _ => P f

namespace Rule.Ends

variable {p : Rule β} {c : Cursor} {Q Q' : β → Cursor → Prop} {P P' : Fault → Prop}
  {R : γ → Cursor → Prop}

theorem pure {b : β} (h : Q b c) : Ends (Pure.pure b) c Q P := h

theorem fail {f : Fault} (h : P f) : Ends (Rule.fail f : Rule β) c Q P := h

/-- The cursor is looked at. -/
theorem cursor_bind {q : Cursor → Rule γ} (h : Ends (q c) c R P) :
    Ends (Rule.cursor >>= q) c R P := h

theorem mono (hp : Ends p c Q' P') (hQ : ∀ b c', Q' b c' → Q b c') (hP : ∀ f, P' f → P f) :
    Ends p c Q P := by
  unfold Ends at hp ⊢
  cases h : p c with
  | done b c' => exact hQ b c' (by simpa [h] using hp)
  | failed f c' => exact hP f (by simpa [h] using hp)

/-- What is known of a rule twice is known of it at once. -/
theorem and (hp : Ends p c Q P) (hp' : Ends p c Q' P') :
    Ends p c (fun b c' => Q b c' ∧ Q' b c') fun f => P f ∧ P' f := by
  unfold Ends at hp hp' ⊢
  cases h : p c with
  | done b c' => exact ⟨by simpa [h] using hp, by simpa [h] using hp'⟩
  | failed f c' => exact ⟨by simpa [h] using hp, by simpa [h] using hp'⟩

/-- Two rules one after another. -/
theorem bind {q : β → Rule γ} (hp : Ends p c Q P') (hP : ∀ f, P' f → P f)
    (hq : ∀ b c', Q b c' → Ends (q b) c' R P) : Ends (p >>= q) c R P := by
  show Ends (Rule.andThen p q) c R P
  unfold Ends at hp ⊢
  rw [Rule.andThen]
  cases h : p c with
  | done b c' => exact hq b c' (by simpa [h] using hp)
  | failed f c' => exact hP f (by simpa [h] using hp)

/-- The token at the cursor is read. -/
theorem eat_bind {q : Token → Rule γ} {t : Token} {ts : List Token} (hc : c.rest = t :: ts)
    (h : ∀ c', c'.rest = ts → c'.depth = c.depth → Ends (q t) c' R P) :
    Ends (Rule.eat >>= q) c R P := by
  show Ends (Rule.andThen Rule.eat q) c R P
  unfold Ends Rule.andThen Rule.eat Cursor.current?
  rw [hc]
  exact h _ (by simp [Cursor.advance, hc]) rfl

/-- One level deeper. -/
theorem deepen_bind {l : DepthLimit} {q : Unit → Rule γ}
    (h : l.allows (c.depth + 1) = true → ∀ c', c'.rest = c.rest → c'.depth = c.depth + 1 →
      Ends (q ()) c' R P)
    (hP : l.allows (c.depth + 1) = false → P l.fault) : Ends (Rule.deepen l >>= q) c R P := by
  show Ends (Rule.andThen (Rule.deepen l) q) c R P
  unfold Ends Rule.andThen Rule.deepen
  cases hl : l.allows (c.depth + 1) with
  | true =>
      simp only [hl, if_true]
      exact h hl _ rfl rfl
  | false =>
      simp only [hl, Bool.false_eq_true, if_false]
      exact hP hl

/-- A rule that runs one level deeper. -/
theorem nested {l : DepthLimit}
    (hp : l.allows (c.depth + 1) = true → ∀ c₁, c₁.rest = c.rest → c₁.depth = c.depth + 1 →
      Ends p c₁ (fun b c' => ∀ c'', c''.rest = c'.rest → c''.depth = c'.depth - 1 → Q b c'') P)
    (hP : l.allows (c.depth + 1) = false → P l.fault) : Ends (Rule.nested l p) c Q P := by
  unfold Ends Rule.nested Rule.deepen
  cases hl : l.allows (c.depth + 1) with
  | false => simpa [hl] using hP hl
  | true =>
      have h := hp hl { c with depth := c.depth + 1 } rfl rfl
      unfold Ends at h
      simp only [hl, if_true]
      cases hpc : p { c with depth := c.depth + 1 } with
      | done b c' =>
          rw [hpc] at h
          exact h _ rfl rfl
      | failed f c' =>
          rw [hpc] at h
          exact h

/-- A rule that runs a chain. -/
theorem chained (hp : Ends p c (fun b c' => ∀ c'', c''.rest = c'.rest → c''.depth = c.depth →
    Q b c'') P) : Ends (Rule.chained p) c Q P := by
  unfold Ends Rule.chained at *
  cases h : p c with
  | done b c' =>
      rw [h] at hp
      exact hp _ rfl rfl
  | failed f c' =>
      rw [h] at hp
      exact hp

end Rule.Ends

namespace Grammar

/-! ### The rules follow the derivations -/

/-- A budget and a depth limit are **enough** for all that can come from a cursor on, if so many
calls and levels are enough before the next token is read. -/
structure Enough (l : DepthLimit) (calls levels budget : Nat) (c : Cursor) : Prop where
  calls : 6 * c.rest.length + calls ≤ budget
  levels : ∀ d ≤ c.depth + 3 * c.rest.length + levels, l.allows d = true

/-- What is enough for a rule is enough for the rules it calls. -/
theorem Enough.call {l : DepthLimit} {calls levels calls' levels' budget : Nat} {c c' : Cursor}
    (h : Enough l calls levels (budget + 1) c)
    (hcalls : 6 * c'.rest.length + calls' < 6 * c.rest.length + calls)
    (hlevels : c'.depth + 3 * c'.rest.length + levels' ≤ c.depth + 3 * c.rest.length + levels) :
    Enough l calls' levels' budget c' :=
  ⟨by have := h.calls; omega, fun d hd => h.levels d (by omega)⟩

/-- The nested calls of a rule before it reads a token. -/
def Name.calls : Name → Nat
  | .value => 1
  | .power => 2
  | .powerValue | .multiplication => 3
  | .addition => 4
  | .expression => 5

/-- The levels of a rule before it reads a token. -/
def Name.levels : Name → Nat
  | .value => 1
  | .power | .powerValue => 2
  | .multiplication | .addition | .expression => 3

/-- The calls and levels of a chain before it reads a token. -/
def chainCalls : Nat := 4

@[inherit_doc chainCalls] def chainLevels : Nat := 3

variable (A : Arithmetic α) (l : DepthLimit)

/-- A rule follows its derivations under a budget: what it reads is derived, and so is its fault,
unless budget or limit are not enough. -/
def RuleFollows (n : Nat) (name : Name) : Prop :=
  ∀ c, (rule A l name n).Ends c
    (fun e c' => Derives A (.rule name c.rest) (.ok (e, c'.rest)) ∧ c'.depth = c.depth)
    fun f => Derives A (.rule name c.rest) (.error f) ∨ ¬ Enough l name.calls name.levels n c

/-- The chain of a rule follows its derivations. -/
def ChainFollows (n : Nat) (name : Name) (links : Expr α → Rule (Expr α)) : Prop :=
  ∀ e c, (links e).Ends c
    (fun e' c' => Derives A (.more name (.ok (e, c.rest))) (.ok (e', c'.rest)))
    fun f => Derives A (.more name (.ok (e, c.rest))) (.error f) ∨
      ¬ Enough l chainCalls chainLevels n c

/-- All rules and chains follow their derivations under a budget. -/
structure Follows (n : Nat) : Prop where
  rule : ∀ name, RuleFollows A l n name
  additionLinks : ChainFollows A l n .addition (additionLinks A l n)
  multiplicationLinks : ChainFollows A l n .multiplication (multiplicationLinks A l n)

variable {A l} {n : Nat}

/-- A derived operand is shorter than the tokens it is read from. -/
theorem Derives.shorter {name : Name} {ts us : List Token} {e : Expr α}
    (h : Derives A (.rule name ts) (.ok (e, us))) : us.length < ts.length :=
  h.length_lt rfl

/-- A fault in the first operand of a rule. -/
theorem Derives.operand_failed {name part : Name} {ts : List Token} {f : Fault}
    (hpart : name.operand? = some part) (h : Derives A (.rule part ts) (.error f)) :
    Derives A (.rule name ts) (.error f) :=
  .operand hpart h .failed

theorem follows_expression (h : Follows A l n) : RuleFollows A l (n + 1) .expression := by
  intro c
  refine (h.rule .addition c).bind (fun f hf => hf.imp (.operand_failed rfl) ?_) ?_
  · exact fun hf henough => hf (henough.call (by simp [Name.calls]) (by simp [Name.levels]))
  · rintro left c₁ ⟨hleft, hdepth⟩
    have hlt := hleft.shorter
    refine Rule.Ends.cursor_bind ?_
    split
    · rename_i hvalue
      have factor {r : Reading α} (hr : Derives A (.rule .expression c₁.rest) r) :
          Derives A (.rule .expression c.rest) (r.after left .multiply) :=
        .operand rfl hleft (.factor (operatorAt?_nil _) rfl hvalue hr)
      refine (h.rule .expression c₁).bind (fun f hf => hf.imp factor ?_) ?_
      · exact fun hf henough => hf (henough.call (by omega) (by omega))
      · rintro right c₂ ⟨hright, hdepth₂⟩
        exact .pure ⟨factor hright, hdepth₂.trans hdepth⟩
    · rename_i hvalue
      refine .pure ⟨.operand rfl hleft (.stop ⟨operatorAt?_nil _, fun _ => ?_⟩), hdepth⟩
      exact Bool.eq_false_iff.mpr hvalue

theorem follows_addition (h : Follows A l n) : RuleFollows A l (n + 1) .addition := by
  intro c
  refine (h.rule .multiplication c).bind (fun f hf => hf.imp (.operand_failed rfl) ?_) ?_
  · exact fun hf henough => hf (henough.call (by simp [Name.calls]) (by simp [Name.levels]))
  · rintro first c₁ ⟨hfirst, hdepth⟩
    have hlt := hfirst.shorter
    refine .chained ((h.additionLinks first c₁).mono ?_ ?_)
    · intro e c₂ he c₃ hrest hdepth₃
      rw [hrest]
      exact ⟨.operand rfl hfirst he, hdepth₃.trans hdepth⟩
    · exact fun f hf => hf.imp (.operand rfl hfirst) fun hf henough =>
        hf (henough.call (by simp [chainCalls, Name.calls]; omega)
          (by simp [chainLevels, Name.levels]; omega))

/-- A rule that nests is refused only if the depth limit is not enough. -/
theorem not_enough_of_refused {calls levels : Nat} {c : Cursor} (hlevels : 1 ≤ levels)
    (h : l.allows (c.depth + 1) = false) : ¬ Enough l calls levels n c := by
  intro henough
  have := henough.levels (c.depth + 1) (by omega)
  simp [this] at h

/-- A link of a chain: an operator, an operand, and the rest of the chain. -/
theorem ends_link {name part : Name} {links : Expr α → Rule (Expr α)} (hne : name ≠ .power)
    (hpart : name.operand? = some part) (hcalls : part.calls ≤ 3) (hlevels : part.levels ≤ 3)
    (hrule : RuleFollows A l n part) (hlinks : ChainFollows A l n name links) {e : Expr α}
    {c : Cursor} {op : Operator} (hop : operatorAt? c.rest name.operators = some op) :
    (do
      Rule.deepen l
      let _ ← Rule.eat
      let right ← rule A l part n
      links (.node e op right)).Ends c
      (fun e' c' => Derives A (.more name (.ok (e, c.rest))) (.ok (e', c'.rest)))
      fun f => Derives A (.more name (.ok (e, c.rest))) (.error f) ∨
        ¬ Enough l chainCalls chainLevels (n + 1) c := by
  obtain ⟨t, ts, hc, -⟩ := exists_of_operatorAt? hop
  have hlength : c.rest.length = ts.length + 1 := by rw [hc, List.length_cons]
  refine .deepen_bind (fun _ c₁ hrest₁ hdepth₁ => .eat_bind (hrest₁.trans hc) ?_)
    fun hrefused => .inr (not_enough_of_refused (by decide) hrefused)
  rintro c₂ rfl hdepth₂
  have link {r r' : Reading α} (hr : Derives A (.rule part c₂.rest) r)
      (hmore : Derives A (.more name (r.after e op)) r') :
      Derives A (.more name (.ok (e, c.rest))) r' :=
    hc ▸ .link hne (hc ▸ hop) hpart hr hmore
  refine (hrule c₂).bind (fun f hf => hf.imp (link · .failed) ?_) ?_
  · exact fun hf henough => hf (henough.call (by simp only [chainCalls]; omega)
      (by simp only [chainLevels]; omega))
  rintro right c₃ ⟨hright, hdepth₃⟩
  have hlt := hright.shorter
  refine (hlinks _ c₃).mono (fun e' c₄ he' => link hright he') (fun f hf => hf.imp (link hright) ?_)
  exact fun hf henough => hf (henough.call (by omega) (by omega))

theorem follows_additionLinks (h : Follows A l n) :
    ChainFollows A l (n + 1) .addition (additionLinks A l (n + 1)) := by
  intro e c
  refine Rule.Ends.cursor_bind ?_
  split
  · rename_i op hop
    exact ends_link (by decide) rfl (by decide) (by decide) (h.rule .multiplication)
      h.additionLinks hop
  · rename_i hop
    exact .pure (.stop ⟨hop, nofun⟩)

theorem follows_multiplicationLinks (h : Follows A l n) :
    ChainFollows A l (n + 1) .multiplication (multiplicationLinks A l (n + 1)) := by
  intro e c
  refine Rule.Ends.cursor_bind ?_
  split
  · rename_i op hop
    exact ends_link (by decide) rfl (by decide) (by decide) (h.rule .power)
      h.multiplicationLinks hop
  · rename_i hop
    split
    · rename_i hvalue
      have factor {r : Reading α} (hr : Derives A (.rule .multiplication c.rest) r) :
          Derives A (.more .multiplication (.ok (e, c.rest))) (r.after e .multiply) :=
        .factor hop rfl hvalue hr
      refine (h.rule .multiplication c).bind (fun f hf => hf.imp factor ?_) ?_
      · exact fun hf henough => hf (henough.call (by simp [chainCalls, Name.calls])
          (by simp [chainLevels, Name.levels]))
      · rintro right c₁ ⟨hright, -⟩
        exact .pure (factor hright)
    · rename_i hvalue
      exact .pure (.stop ⟨hop, fun _ => Bool.eq_false_iff.mpr hvalue⟩)

theorem follows_multiplication (h : Follows A l n) : RuleFollows A l (n + 1) .multiplication := by
  intro c
  refine .nested (fun _ c₀ hrest₀ hdepth₀ => .chained ?_)
    fun hrefused => .inr (not_enough_of_refused (by decide) hrefused)
  refine (h.rule .power c₀).bind (fun f hf => hf.imp (fun hf => ?_) ?_) ?_
  · exact .operand_failed rfl (hrest₀ ▸ hf)
  · exact fun hf henough => hf (henough.call (by simp [hrest₀, Name.calls])
      (by simp [hrest₀, Name.levels]; omega))
  · rintro first c₁ ⟨hfirst, hdepth₁⟩
    rw [hrest₀] at hfirst
    have hlt := hfirst.shorter
    refine (h.multiplicationLinks first c₁).mono ?_ ?_
    · intro e c₂ he c₃ hrest₃ hdepth₃ c₄ hrest₄ hdepth₄
      rw [hrest₄, hrest₃]
      exact ⟨.operand rfl hfirst he, by omega⟩
    · exact fun f hf => hf.imp (.operand rfl hfirst) fun hf henough =>
        hf (henough.call (by simp [chainCalls, Name.calls]; omega)
          (by simp [chainLevels, Name.levels]; omega))

theorem follows_powerValue (h : Follows A l n) : RuleFollows A l (n + 1) .powerValue := by
  intro c
  refine (h.rule .power c).bind (fun f hf => hf.imp (.operand_failed rfl) ?_) ?_
  · exact fun hf henough => hf (henough.call (by simp [Name.calls]) (by simp [Name.levels]))
  · rintro first c₁ ⟨hfirst, hdepth⟩
    have hlt := hfirst.shorter
    refine Rule.Ends.cursor_bind ?_
    split
    · rename_i hvalue
      have factor {r : Reading α} (hr : Derives A (.rule .multiplication c₁.rest) r) :
          Derives A (.rule .powerValue c.rest) (r.after first .multiply) :=
        .operand rfl hfirst (.factor (operatorAt?_nil _) rfl hvalue hr)
      refine (h.rule .multiplication c₁).bind (fun f hf => hf.imp factor ?_) ?_
      · exact fun hf henough => hf (henough.call (by simp [Name.calls]; omega)
          (by simp [Name.levels]; omega))
      · rintro right c₂ ⟨hright, hdepth₂⟩
        exact .pure ⟨factor hright, hdepth₂.trans hdepth⟩
    · rename_i hvalue
      refine .pure ⟨.operand rfl hfirst (.stop ⟨operatorAt?_nil _, fun _ => ?_⟩), hdepth⟩
      exact Bool.eq_false_iff.mpr hvalue

theorem follows_power (h : Follows A l n) : RuleFollows A l (n + 1) .power := by
  intro c
  refine .nested (fun _ c₀ hrest₀ hdepth₀ => ?_)
    fun hrefused => .inr (not_enough_of_refused (by decide) hrefused)
  refine (h.rule .value c₀).bind (fun f hf => hf.imp (fun hf => ?_) ?_) ?_
  · exact .operand_failed rfl (hrest₀ ▸ hf)
  · exact fun hf henough => hf (henough.call (by simp [hrest₀, Name.calls])
      (by simp [hrest₀, Name.levels]; omega))
  rintro base c₁ ⟨hbase, hdepth₁⟩
  rw [hrest₀] at hbase
  have hlt := hbase.shorter
  refine Rule.Ends.cursor_bind ?_
  split
  · rename_i op hop
    have hop : operatorAt? c₁.rest Name.power.operators = some op := hop
    obtain ⟨t, ts, hc, -⟩ := exists_of_operatorAt? hop
    refine .eat_bind hc ?_
    rintro c₂ rfl hdepth₂
    rw [hc] at hbase hop
    have hlength : c₁.rest.length = c₂.rest.length + 1 := by rw [hc, List.length_cons]
    have exponent {r : Reading α} (hr : Derives A (.rule .powerValue c₂.rest) r) :
        Derives A (.rule .power c.rest) (r.after base .power) :=
      .operand rfl hbase (.exponent hop hr)
    refine (h.rule .powerValue c₂).bind (fun f hf => hf.imp exponent ?_) ?_
    · exact fun hf henough => hf (henough.call (by simp [Name.calls]; omega)
        (by simp [Name.levels]; omega))
    · rintro e c₃ ⟨he, hdepth₃⟩
      refine .pure fun c₄ hrest₄ hdepth₄ => ?_
      rw [hrest₄]
      exact ⟨exponent he, by omega⟩
  · rename_i hop
    refine .pure fun c₂ hrest₂ hdepth₂ => ?_
    rw [hrest₂]
    exact ⟨.operand rfl hbase (.stop ⟨hop, nofun⟩), by omega⟩

/-- The closing bracket of a value in brackets. -/
theorem ends_closeBracket {c : Cursor} {t : Token} {b : Bracket} {e : Expr α}
    {Q : Unit → Cursor → Prop} {P : Fault → Prop}
    (hQ : ∀ c', Reading.within t b (.ok (e, c.rest)) = .ok (e, c'.rest) → c'.depth = c.depth →
      Q () c')
    (hP : ∀ f, Reading.within t b (.ok (e, c.rest)) = .error f → P f) :
    (closeBracket t b).Ends c Q P := by
  unfold Rule.Ends closeBracket Cursor.current?
  cases hc : c.rest with
  | nil => exact hP _ (by rw [hc]; rfl)
  | cons t' ts =>
      simp only [List.head?_cons]
      by_cases hkind : t'.kind = .closing b
      · simp only [hkind, if_true]
        refine hQ _ ?_ rfl
        simp [hc, Reading.within, hkind, Cursor.advance]
      · simp only [hkind, if_false]
        exact hP _ (by simp [hc, Reading.within, hkind])

theorem follows_value (h : Follows A l n) : RuleFollows A l (n + 1) .value := by
  intro c
  refine .nested (fun _ c₀ hrest₀ hdepth₀ => Rule.Ends.cursor_bind ?_)
    fun hrefused => .inr (not_enough_of_refused (by decide) hrefused)
  rw [← hrest₀]
  cases hc : c₀.rest with
  | nil =>
      rw [Cursor.current?, hc]
      exact .fail (.inl .nothing)
  | cons t ts =>
      rw [Cursor.current?, hc]
      have hlength : c₀.rest.length = ts.length + 1 := by rw [hc, List.length_cons]
      -- a token that is a value of its own
      have token {e : Expr α} (ht : tokenReading? A t ts = some (.ok (e, ts))) {c₁ c₂ : Cursor}
          (hrest₁ : c₁.rest = ts) (hdepth₁ : c₁.depth = c₀.depth) (hrest₂ : c₂.rest = c₁.rest)
          (hdepth₂ : c₂.depth = c₁.depth - 1) :
          Derives A (.rule .value (t :: ts)) (.ok (e, c₂.rest)) ∧ c₂.depth = c.depth := by
        rw [hrest₂, hrest₁]
        exact ⟨.token ht, by omega⟩
      dsimp only [List.head?_cons]
      split
      · rename_i b hkind
        refine .eat_bind hc fun c₁ hrest₁ hdepth₁ => ?_
        subst hrest₁
        refine (h.rule .expression c₁).bind (fun f hf => hf.imp (.bracket hkind) ?_) ?_
        · exact fun hf henough => hf (henough.call (by simp [← hrest₀, Name.calls]; omega)
            (by simp [← hrest₀, Name.levels]; omega))
        rintro inner c₂ ⟨hinner, hdepth₂⟩
        have bracket := Derives.bracket hkind hinner
        refine (ends_closeBracket (e := inner) (fun c₃ hc₃ hdepth₃ => ?_) fun f hf => ?_).bind
          (fun _ => id) fun _ _ hQ => .pure hQ
        · intro c₄ hrest₄ hdepth₄
          rw [hrest₄]
          exact ⟨hc₃ ▸ bracket, by omega⟩
        · exact .inl (hf ▸ bracket)
      · rename_i hkind
        refine .eat_bind hc fun c₁ hrest₁ hdepth₁ => .pure fun c₂ => token ?_ hrest₁ hdepth₁
        simp [tokenReading?, hkind]
      · rename_i hkind
        refine .eat_bind hc fun c₁ hrest₁ hdepth₁ => ?_
        simp only [variableNode]
        split
        · rename_i hname
          exact .fail (.inl (.token (by simp only [tokenReading?, hkind, if_pos hname])))
        · rename_i hname
          refine .pure fun c₂ => token ?_ hrest₁ hdepth₁
          simp only [tokenReading?, hkind, if_neg hname]
      · rename_i hkind
        refine .eat_bind hc fun c₁ hrest₁ hdepth₁ => .pure fun c₂ => token ?_ hrest₁ hdepth₁
        simp [tokenReading?, hkind]
      · rename_i hkind
        split
        · rename_i htext
          refine .eat_bind hc fun c₁ hrest₁ hdepth₁ => ?_
          subst hrest₁
          have negative {r : Reading α} (hr : Derives A (.rule .value c₁.rest) r) :=
            Derives.negative hkind htext hr
          refine (h.rule .value c₁).bind (fun f hf => hf.imp negative ?_) ?_
          · exact fun hf henough => hf (henough.call (by simp [← hrest₀, Name.calls]; omega)
              (by simp [← hrest₀, Name.levels]; omega))
          rintro e c₂ ⟨he, hdepth₂⟩
          refine .pure fun c₃ hrest₃ hdepth₃ => ?_
          rw [hrest₃]
          exact ⟨negative he, by omega⟩
        · rename_i htext
          exact .fail (.inl (.token (by simp [tokenReading?, hkind, htext])))
      · rename_i hkind
        exact .fail (.inl (.token (by simp [tokenReading?, hkind])))

/-- **The rules follow the derivations** under every budget and every depth limit. -/
theorem follows (n : Nat) : Follows A l n := by
  induction n with
  | zero =>
      have exhausted {calls levels : Nat} (hcalls : 0 < calls) (c : Cursor) :
          ¬ Enough l calls levels 0 c := fun h => by have := h.calls; omega
      refine ⟨fun name c => ?_, fun e c => ?_, fun e c => ?_⟩
      · cases name <;> exact .fail (.inr (exhausted (by decide) c))
      · exact .fail (.inr (exhausted (by decide) c))
      · exact .fail (.inr (exhausted (by decide) c))
  | succ n ih =>
      refine ⟨fun name => ?_, follows_additionLinks ih, follows_multiplicationLinks ih⟩
      cases name with
      | expression => exact follows_expression ih
      | addition => exact follows_addition ih
      | multiplication => exact follows_multiplication ih
      | power => exact follows_power ih
      | powerValue => exact follows_powerValue ih
      | value => exact follows_value ih

/-! ### Whole formulas -/

/-- What is made of a reading that **has to go to the last token**. -/
def Reading.whole : Reading α → Except Fault (Expr α)
  | .ok (e, []) => .ok e
  | .ok (_, t :: _) =>
    match t.kind with
    | .closing _ => .error (.missingOpening t.text t.position)
    | _ => .error (.unexpectedToken t.text t.position)
  | .error f => .error f

/-- A rule with the budget of the grammar follows its derivations. -/
theorem ends_apply (name : Name) (c : Cursor) : (apply A l name).Ends c
    (fun e c' => Derives A (.rule name c.rest) (.ok (e, c'.rest)) ∧ c'.depth = c.depth)
    fun f => Derives A (.rule name c.rest) (.error f) ∨
      ¬ Enough l name.calls name.levels (budget c) c := by
  have h := (follows (A := A) (l := l) (budget c)).rule name c
  unfold Rule.Ends at h ⊢
  exact h

/-- A cursor at the start is budgeted for. -/
theorem enough_start {ts : List Token}
    (hl : ∀ d ≤ 3 * (ts.length + 1), l.allows d = true) :
    Enough l Name.expression.calls Name.expression.levels (budget (Cursor.start ts))
      (Cursor.start ts) :=
  ⟨by simp [Name.calls, budget, Cursor.start],
    fun d hd => hl d (by simp only [Cursor.start, Name.levels] at hd; omega)⟩

/-- The end of a formula. -/
theorem ends_finish {c : Cursor} {e : Expr α} {Q : Unit → Cursor → Prop} {P : Fault → Prop}
    (hQ : c.rest = [] → Q () c)
    (hP : ∀ f, Reading.whole (.ok (e, c.rest)) = .error f → P f) : finish.Ends c Q P := by
  unfold Rule.Ends finish Cursor.current?
  cases hc : c.rest with
  | nil => exact hQ hc
  | cons t ts =>
      simp only [hc, Reading.whole] at hP
      simp only [List.head?_cons]
      cases hkind : t.kind <;> rw [hkind] at hP <;> exact hP _ rfl

/-- A whole formula follows the derivations. -/
theorem ends_formula (ts : List Token) : (formula A l (!ts.isEmpty)).Ends (Cursor.start ts)
    (fun e _ => Derives A (.rule .expression ts) (.ok (e, [])))
    fun f => (∃ r, Derives A (.rule .expression ts) r ∧ r.whole = .error f) ∨
      ¬ ∀ d ≤ 3 * (ts.length + 1), l.allows d = true := by
  cases ts with
  | nil =>
      have hnothing : Derives A (.rule .expression []) (.error .missingNumber) :=
        .operand_failed rfl (.operand_failed rfl (.operand_failed rfl (.operand_failed rfl .nothing)))
      exact .fail (.inl ⟨_, hnothing, rfl⟩)
  | cons t ts =>
      rw [formula, if_neg (by simp)]
      refine (ends_apply .expression _).bind (fun f hf => hf.imp (⟨_, ·, rfl⟩) ?_) ?_
      · exact fun hf hl => hf (enough_start hl)
      rintro e c ⟨he, -⟩
      refine (ends_finish (e := e) (Q := fun _ _ => Derives A (.rule .expression (t :: ts))
        (.ok (e, []))) (fun hc => ?_) fun f hf => ?_).bind (fun _ => id) fun _ _ hQ => .pure hQ
      · exact hc ▸ he
      · exact .inl ⟨_, he, hf⟩

/-- **A formula that is read is derived**, whatever the depth limit. -/
theorem derives_of_formula {ts : List Token} {e : Expr α}
    (h : (formula A l (!ts.isEmpty) (Cursor.start ts)).toExcept = .ok e) :
    Derives A (.rule .expression ts) (.ok (e, [])) := by
  have hends := ends_formula (A := A) (l := l) ts
  unfold Rule.Ends at hends
  split at hends
  · rename_i e' c hdone
    rw [hdone] at h
    obtain rfl := Except.ok.inj h
    exact hends
  · rename_i f c hfailed
    rw [hfailed] at h
    cases h

/-- **All tokens have a reading.** -/
theorem exists_derives (A : Arithmetic α) (ts : List Token) :
    ∃ r, Derives A (.rule .expression ts) r := by
  have hends := ends_formula (A := A) (l := ⟨none, .nestingExhausted⟩) ts
  unfold Rule.Ends at hends
  split at hends
  · exact ⟨_, hends⟩
  · obtain ⟨r, hr, -⟩ | hl := hends
    · exact ⟨r, hr⟩
    · exact absurd (fun _ _ => rfl) hl

/-- With **three levels for each token** and three more, the grammar reads what is derived. -/
theorem toExcept_formula {ts : List Token} (hl : ∀ d ≤ 3 * (ts.length + 1), l.allows d = true)
    {r : Reading α} (h : Derives A (.rule .expression ts) r) :
    (formula A l (!ts.isEmpty) (Cursor.start ts)).toExcept = r.whole := by
  have hends := ends_formula (A := A) (l := l) ts
  unfold Rule.Ends at hends
  split at hends
  · rename_i e c hdone
    rw [hdone, h.unique hends]
    rfl
  · rename_i f c hfailed
    obtain ⟨r', hr', hwhole⟩ | hnot := hends
    · rw [hfailed, h.unique hr', hwhole]
      rfl
    · exact absurd hl hnot

/-- A whole number as limit **allows the depths up to it**. -/
theorem allows_ofInt_iff {n : Int} {depth : Nat} :
    (DepthLimit.ofInt n).allows depth = true ↔ (depth : Int) ≤ n := by
  simp [DepthLimit.allows, DepthLimit.ofInt]

/-- A large limit allows all small depths. -/
theorem allows_ofInt {n : Int} {levels : Nat} (hn : (levels : Int) ≤ n) :
    ∀ d ≤ levels, (DepthLimit.ofInt n).allows d = true :=
  fun d hd => allows_ofInt_iff.mpr (by omega)

end Grammar

end Argand
