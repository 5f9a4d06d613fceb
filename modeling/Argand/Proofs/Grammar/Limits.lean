import Argand.Proofs.Grammar.Cursors
import Argand.Proofs.Grammar.Outcomes
import Argand.Proofs.Grammar.Spelling

/-!
# The depth limit is only a limit

A depth limit refuses levels, and does nothing else. Two runs of a rule under two limits, of which
the second allows whatever the first does, take the same steps until the first limit refuses one:
so a rule that ends with anything but the fault of its limit ends the same way under every larger
limit. And three levels for each token, with three more, are never refused, since with these the
grammar reads what is derived, and no derivation knows of a limit.

## Main definitions

* `Argand.DepthLimit.IsWithin`: a limit that allows no more than another one.
* `Argand.Rule.PersistsIn`: a rule whose end, if it is refused no level, is that of another one.

## Main results

* `Argand.Grammar.allPersist`: the ends of all rules persist under a larger limit.
* `Argand.Grammar.Derives.isRefused`: no derivation refuses a level.
* `Argand.limit_only_refuses`: texts under two limits, and under a limit that is large enough.
-/

namespace Argand

variable {α β γ : Type}

/-- A depth limit **within** another one, which allows whatever it does. -/
def DepthLimit.IsWithin (l l' : DepthLimit) : Prop :=
  ∀ depth, l.allows depth = true → l'.allows depth = true

/-- A smaller whole number is a limit within a larger one. -/
theorem DepthLimit.isWithin_ofInt {n m : Int} (h : n ≤ m) : (ofInt n).IsWithin (ofInt m) := by
  intro depth hdepth
  rw [Grammar.allows_ofInt_iff] at hdepth ⊢
  exact hdepth.trans h

/-- The fault of a rule is what it comes to. -/
theorem Outcome.toExcept_of_fault? {o : Outcome β} {f : Fault} (h : o.fault? = some f) :
    o.toExcept = .error f := by
  cases o with
  | done b c => cases h
  | failed f' c =>
      obtain rfl := Option.some.inj h
      rfl

/-! ### Two runs of a rule -/

/-- The end of a rule **persists in** another one: unless the rule is refused a level, the other ends
with the same result or fault, at the same cursor. -/
def Rule.PersistsIn (l : DepthLimit) (p q : Rule β) : Prop :=
  ∀ c, (p c).fault? = some l.fault ∨ q c = p c

namespace Rule.PersistsIn

variable {l l' : DepthLimit} {p q : Rule β}

/-- A rule that counts no levels. -/
theorem refl (p : Rule β) : PersistsIn l p p := fun _ => .inr rfl

/-- One rule after another: unless the first is refused a level, the second begins at the same
cursor in both runs. -/
theorem bind {f g : β → Rule γ} (hp : PersistsIn l p q) (hf : ∀ b, PersistsIn l (f b) (g b)) :
    PersistsIn l (p >>= f) (q >>= g) := by
  intro c
  show (Rule.andThen p f c).fault? = _ ∨ Rule.andThen q g c = Rule.andThen p f c
  unfold Rule.andThen
  obtain hrefused | hsame := hp c
  · cases h : p c with
    | done b c' =>
        rw [h] at hrefused
        cases hrefused
    | failed fault c' =>
        rw [h] at hrefused
        exact .inl hrefused
  · rw [hsame]
    cases p c with
    | done b c' => exact hf b c'
    | failed fault c' => exact .inr rfl

/-- A level that is allowed under the smaller limit is allowed under the larger one. -/
theorem deepen (hl : l.IsWithin l') : PersistsIn l (Rule.deepen l) (Rule.deepen l') := by
  intro c
  rw [Rule.deepen_apply, Rule.deepen_apply]
  cases hallowed : l.allows (c.depth + 1) with
  | true =>
      rw [hl _ hallowed]
      exact .inr rfl
  | false => exact .inl rfl

/-- What is done to the cursor afterwards makes no difference. -/
theorem mapCursor (g : Cursor → Cursor) {o o' : Outcome β}
    (h : o.fault? = some l.fault ∨ o' = o) :
    (o.mapCursor g).fault? = some l.fault ∨ o'.mapCursor g = o.mapCursor g := by
  rw [Outcome.fault?_mapCursor]
  exact h.imp_right (congrArg _)

theorem nested (hl : l.IsWithin l') (hp : PersistsIn l p q) :
    PersistsIn l (Rule.nested l p) (Rule.nested l' q) := by
  intro c
  rw [Rule.nested_apply, Rule.nested_apply]
  cases hallowed : l.allows (c.depth + 1) with
  | true =>
      rw [hl _ hallowed]
      exact mapCursor _ (hp _)
  | false => exact .inl rfl

theorem chained (hp : PersistsIn l p q) : PersistsIn l (Rule.chained p) (Rule.chained q) :=
  fun c => mapCursor _ (hp c)

end Rule.PersistsIn

namespace Grammar

open Rule (PersistsIn)

/-- The ends of all rules and chains persist under a budget. -/
structure AllPersist (A : Arithmetic α) (l l' : DepthLimit) (n : Nat) : Prop where
  rule : ∀ name, PersistsIn l (rule A l name n) (rule A l' name n)
  additionLinks : ∀ e, PersistsIn l (additionLinks A l n e) (additionLinks A l' n e)
  multiplicationLinks : ∀ e, PersistsIn l (multiplicationLinks A l n e) (multiplicationLinks A l' n e)

variable {A : Arithmetic α} {l l' : DepthLimit} {n : Nat}

theorem persists_expression (h : AllPersist A l l' n) :
    PersistsIn l (expression A l (n + 1)) (expression A l' (n + 1)) := by
  refine (h.rule .addition).bind fun left => (PersistsIn.refl Rule.cursor).bind fun c => ?_
  split
  · exact (h.rule .expression).bind fun right => .refl _
  · exact .refl _

theorem persists_addition (h : AllPersist A l l' n) :
    PersistsIn l (addition A l (n + 1)) (addition A l' (n + 1)) :=
  (h.rule .multiplication).bind fun first => .chained (h.additionLinks first)

/-- A link of a chain: an operator, an operand, and the rest of the chain. -/
theorem persists_link (hl : l.IsWithin l') {part : Name} {links links' : Expr α → Rule (Expr α)}
    {e : Expr α} {op : Operator} (hpart : PersistsIn l (rule A l part n) (rule A l' part n))
    (hlinks : ∀ e, PersistsIn l (links e) (links' e)) :
    PersistsIn l
      (do
        Rule.deepen l
        let _ ← Rule.eat
        let right ← rule A l part n
        links (.node e op right))
      (do
        Rule.deepen l'
        let _ ← Rule.eat
        let right ← rule A l' part n
        links' (.node e op right)) :=
  (PersistsIn.deepen hl).bind fun _ => (PersistsIn.refl Rule.eat).bind fun _ =>
    hpart.bind fun _ => hlinks _

theorem persists_additionLinks (hl : l.IsWithin l') (h : AllPersist A l l' n) (e : Expr α) :
    PersistsIn l (additionLinks A l (n + 1) e) (additionLinks A l' (n + 1) e) := by
  refine (PersistsIn.refl Rule.cursor).bind fun c => ?_
  split
  · exact persists_link hl (h.rule .multiplication) h.additionLinks
  · exact .refl _

theorem persists_multiplicationLinks (hl : l.IsWithin l') (h : AllPersist A l l' n) (e : Expr α) :
    PersistsIn l (multiplicationLinks A l (n + 1) e) (multiplicationLinks A l' (n + 1) e) := by
  refine (PersistsIn.refl Rule.cursor).bind fun c => ?_
  split
  · exact persists_link hl (h.rule .power) h.multiplicationLinks
  · split
    · exact (h.rule .multiplication).bind fun right => .refl _
    · exact .refl _

theorem persists_multiplication (hl : l.IsWithin l') (h : AllPersist A l l' n) :
    PersistsIn l (multiplication A l (n + 1)) (multiplication A l' (n + 1)) :=
  .nested hl <| .chained <| (h.rule .power).bind fun first => h.multiplicationLinks first

theorem persists_power (hl : l.IsWithin l') (h : AllPersist A l l' n) :
    PersistsIn l (power A l (n + 1)) (power A l' (n + 1)) := by
  refine .nested hl ((h.rule .value).bind fun base => (PersistsIn.refl Rule.cursor).bind fun c => ?_)
  split
  · exact (PersistsIn.refl Rule.eat).bind fun _ => (h.rule .powerValue).bind fun exponent => .refl _
  · exact .refl _

theorem persists_powerValue (h : AllPersist A l l' n) :
    PersistsIn l (powerValue A l (n + 1)) (powerValue A l' (n + 1)) := by
  refine (h.rule .power).bind fun exponent => (PersistsIn.refl Rule.cursor).bind fun c => ?_
  split
  · exact (h.rule .multiplication).bind fun right => .refl _
  · exact .refl _

theorem persists_value (hl : l.IsWithin l') (h : AllPersist A l l' n) :
    PersistsIn l (value A l (n + 1)) (value A l' (n + 1)) := by
  refine .nested hl ((PersistsIn.refl Rule.cursor).bind fun c => ?_)
  split
  · exact .refl _
  · -- only brackets and a minus sign go on with rules that count levels
    split
    · exact (PersistsIn.refl Rule.eat).bind fun _ => (h.rule .expression).bind fun inner => .refl _
    · exact .refl _
    · exact .refl _
    · exact .refl _
    · split
      · exact (PersistsIn.refl Rule.eat).bind fun _ => (h.rule .value).bind fun e => .refl _
      · exact .refl _
    · exact .refl _

/-- **The ends of all rules persist** under a limit that allows whatever the first one does. -/
theorem allPersist (hl : l.IsWithin l') (n : Nat) : AllPersist A l l' n := by
  induction n with
  | zero =>
      refine ⟨fun name => ?_, fun _ => .refl _, fun _ => .refl _⟩
      cases name <;> exact .refl _
  | succ n ih =>
      refine ⟨fun name => ?_, persists_additionLinks hl ih, persists_multiplicationLinks hl ih⟩
      cases name with
      | expression => exact persists_expression ih
      | addition => exact persists_addition ih
      | multiplication => exact persists_multiplication hl ih
      | power => exact persists_power hl ih
      | powerValue => exact persists_powerValue ih
      | value => exact persists_value hl ih

/-- The end of a whole formula persists under a limit that allows whatever the first one does. -/
theorem persists_formula (hl : l.IsWithin l') (any : Bool) :
    PersistsIn l (formula A l any) (formula A l' any) := by
  have happly : PersistsIn l (apply A l .expression) (apply A l' .expression) :=
    fun c => (allPersist hl (budget c)).rule .expression c
  unfold formula
  split
  · exact .refl _
  · exact happly.bind fun tree => .refl _

/-! ### Faults of derivations -/

/-- A reading that **is refused**: its fault has the code of formulas that are nested too deeply. -/
def Reading.IsRefused (r : Reading α) : Prop :=
  ∃ f, r = .error f ∧ f.code? = some "3033"

/-- A goal is refused if what it goes on from is. -/
def Goal.IsRefused : Goal α → Prop
  | .rule _ _ => False
  | .more _ sofar => sofar.IsRefused

theorem Reading.isRefused_after {e : Expr α} {op : Operator} {r : Reading α} :
    (r.after e op).IsRefused ↔ r.IsRefused := by
  cases r <;> simp [Reading.IsRefused, Reading.after, Except.map]

/-- A missing bracket is not a level that is refused. -/
theorem Reading.IsRefused.of_within {t : Token} {b : Bracket} {r : Reading α}
    (h : (r.within t b).IsRefused) : r.IsRefused := by
  obtain ⟨f, hf, hcode⟩ := h
  unfold Reading.within at hf
  split at hf
  · split at hf <;> cases hf
    simp [Fault.code?] at hcode
  · cases hf
    simp [Fault.code?] at hcode
  · exact ⟨f, hf, hcode⟩

/-- A single token is refused no level. -/
theorem not_isRefused_of_tokenReading? {t : Token} {ts : List Token} {r : Reading α}
    (h : tokenReading? A t ts = some r) : ¬ r.IsRefused := by
  rintro ⟨f, rfl, hcode⟩
  unfold tokenReading? at h
  split at h
  · cases h
  · cases h
  · split at h <;> cases h
    simp [Fault.code?] at hcode
  · split at h <;> cases h
    simp [Fault.code?] at hcode
  · cases h
    simp [Fault.code?] at hcode
  · cases h

/-- **No derivation refuses a level**: it has such a fault only from where it began. -/
theorem Derives.isRefused {g : Goal α} {r : Reading α} (h : Derives A g r) (hr : r.IsRefused) :
    g.IsRefused := by
  induction h with
  | operand _ _ _ ih ihmore => exact ih (ihmore hr)
  | failed => exact hr
  | stop _ =>
      obtain ⟨f, hf, -⟩ := hr
      cases hf
  | link _ _ _ _ _ ih ihmore => exact (ih (Reading.isRefused_after.mp (ihmore hr))).elim
  | exponent _ _ ih => exact (ih (Reading.isRefused_after.mp hr)).elim
  | factor _ _ _ _ ih => exact (ih (Reading.isRefused_after.mp hr)).elim
  | nothing =>
      obtain ⟨f, hf, hcode⟩ := hr
      cases hf
      simp [Fault.code?] at hcode
  | bracket _ _ ih => exact ih hr.of_within
  | token ht => exact not_isRefused_of_tokenReading? ht hr
  | negative _ _ _ ih => exact ih (Reading.isRefused_after.mp hr)

/-- **A whole formula is refused no level** under a limit of three levels for each token and three
more. -/
theorem code?_ne_of_formula {ts : List Token} (hl : ∀ d ≤ 3 * (ts.length + 1), l.allows d = true)
    {f : Fault} (h : (formula A l (!ts.isEmpty) (Cursor.start ts)).toExcept = .error f) :
    f.code? ≠ some "3033" := by
  obtain ⟨r, hr⟩ := exists_derives A ts
  rw [toExcept_formula hl hr] at h
  unfold Reading.whole at h
  split at h
  · cases h
  · split at h <;> cases h <;> simp [Fault.code?]
  · exact fun hcode => hr.isRefused ⟨_, rfl, Except.error.inj h ▸ hcode⟩

end Grammar

/-! ### Texts -/

/-- The class of tokens has no fault of depth. -/
theorem Fault.code?_ne_of_token {f : Fault} (h : f.faultClass = .token) :
    f.code? ≠ some "3033" := by
  cases f <;> simp_all [Fault.faultClass, Fault.code?]

/-- Reading a text depends on the depth limit only by what the grammar makes of its tokens. -/
theorem read_congr {A : Arithmetic α} {l l' : DepthLimit} {source : String}
    (h : ∀ tokens, tokenize source = .ok tokens →
      (Grammar.formula A l (!tokens.isEmpty) (Cursor.start tokens)).toExcept =
        (Grammar.formula A l' (!tokens.isEmpty) (Cursor.start tokens)).toExcept) :
    Formula.read A (.ok l) source = Formula.read A (.ok l') source :=
  Traced.lift_bind_congr fun tokens htokens =>
    congrArg (fun r : Except Fault (Expr α) => (do
      Traced.note (.tokens tokens)
      let tree ← r
      Traced.note (.tree tree)
      return tree : Traced α (Expr α))) (h tokens htokens)

/-- **The depth limit is only a limit.** A text whose reading ends in anything but the fault of the
depth limit, be it a formula or another fault, is read in the same way under every larger limit. And
under a limit of three levels for each of its tokens and three more, a text never has that fault. -/
theorem limit_only_refuses (A : Arithmetic α) (source : String) {n m : Int} (hnm : n ≤ m) :
    ((∀ f, (Formula.read A (.ok (.ofInt n)) source).outcome = .error f →
        f.code? ≠ some "3033") →
      Formula.read A (.ok (.ofInt m)) source = Formula.read A (.ok (.ofInt n)) source) ∧
    ((∀ tokens, tokenize source = .ok tokens → 3 * (tokens.length + 1) ≤ n) →
      ∀ f, (Formula.read A (.ok (.ofInt n)) source).outcome = .error f →
        f.code? ≠ some "3033") := by
  refine ⟨fun h => read_congr fun tokens htokens => ?_, fun hn f hf => ?_⟩
  · obtain hrefused | hsame := Grammar.persists_formula (A := A) (DepthLimit.isWithin_ofInt hnm)
      (!tokens.isEmpty) (Cursor.start tokens)
    · refine absurd rfl (h (.tooDeep (toString n)) ?_)
      rw [outcome_read_of_tokenize A _ htokens]
      exact Outcome.toExcept_of_fault? hrefused
    · rw [hsame]
  · cases htokens : tokenize source with
    | error fault =>
        have hfault : fault.faultClass = .token := (yields_tokenize source).of_error htokens
        rw [Formula.read, htokens] at hf
        obtain rfl := Except.error.inj hf
        exact Fault.code?_ne_of_token hfault
    | ok tokens =>
        rw [outcome_read_of_tokenize A _ htokens] at hf
        refine Grammar.code?_ne_of_formula (Grammar.allows_ofInt ?_) hf
        have := hn tokens htokens
        push_cast
        exact this

/-- Nine levels are enough for `-2^(x]`, whose bracket is not closed, and so are more. -/
theorem limit_only_refuses_unclosed :
    Formula.read calculator (.ok (.ofInt 21)) "-2^(x]" =
        Formula.read calculator (.ok (.ofInt 9)) "-2^(x]" ∧
      ∀ f, (Formula.read calculator (.ok (.ofInt 21)) "-2^(x]").outcome = .error f →
        f.code? ≠ some "3033" := by
  have hnine : Yields (fun f => f.code? ≠ some "3033") (fun _ => True)
      (Formula.read calculator (.ok (.ofInt 9)) "-2^(x]").outcome := by decide +kernel
  have htokens : Yields (fun _ => True) (fun tokens => 3 * (tokens.length + 1) ≤ (21 : Int))
      (tokenize "-2^(x]") := by decide +kernel
  exact ⟨(limit_only_refuses calculator "-2^(x]" (by decide)).1 fun _ => hnine.of_error,
    (limit_only_refuses calculator "-2^(x]" (le_refl 21)).2 fun _ => htokens.of_ok⟩

end Argand
