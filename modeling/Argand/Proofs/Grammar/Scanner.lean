import Argand.Primitive
import Argand.Proofs.Grammar.Following
import Argand.Proofs.Tokens

/-!
# The language of formulas

Whether some tokens are a formula can be told in one pass from left to right, by a scanner that
remembers which brackets are open and whether a value is wanted or was just read. The grammar
reads the same formulas, and its fault is always the first one that the scanner meets.

## Main definitions

* `Argand.Scanner`: what the scanner remembers, with `Scanner.step`, `Scanner.finish` and
  `Scanner.run`.

## Main results

* `Argand.Grammar.Derives.scan`: every derivation is followed by the scanner.
* `Argand.formula_scanned`: the grammar accepts what the scanner does, and reports the same fault.
-/

namespace Argand

/-! ### The scanner -/

/-- A **scanner** of tokens. -/
structure Scanner where
  /-- Whether a value was just read; else one is wanted. -/
  hasValue : Bool
  /-- The open brackets, the innermost first. -/
  opened : List Token
deriving DecidableEq, Repr

namespace Scanner

/-- A token where a value is **wanted**. -/
def want (opened : List Token) (t : Token) : Except Fault Scanner :=
  match t.kind with
  | .opening _ => .ok ⟨false, t :: opened⟩
  | .number | .constant => .ok ⟨true, opened⟩
  | .letter =>
    if t.text = "E" ∨ t.text = "I" then .error (.reservedName t.text t.position)
    else .ok ⟨true, opened⟩
  | .operator =>
    if t.text = "-" then .ok ⟨false, opened⟩ else .error (.unexpectedToken t.text t.position)
  | .closing _ => .error (.unexpectedToken t.text t.position)

/-- A **closing** bracket after a value. -/
def close (b : Bracket) (t : Token) : List Token → Except Fault Scanner
  | [] => .error (.missingOpening t.text t.position)
  | o :: opened =>
    if o.kind = .opening b then .ok ⟨true, opened⟩
    else .error (.missingClosing o.text o.position)

/-- A token **after** a value. What can begin a value is a factor. -/
def follow (opened : List Token) (t : Token) : Except Fault Scanner :=
  match t.kind with
  | .operator => .ok ⟨false, opened⟩
  | .closing b => close b t opened
  | .opening _ | .number | .constant | .letter => want opened t

/-- One token. -/
def step (s : Scanner) (t : Token) : Except Fault Scanner :=
  if s.hasValue then follow s.opened t else want s.opened t

/-- The **end** of the tokens. -/
def finish (s : Scanner) : Except Fault Unit :=
  if s.hasValue then
    match s.opened with
    | [] => .ok ()
    | o :: _ => .error (.missingClosing o.text o.position)
  else .error .missingNumber

/-- All tokens from left to right, and their end. -/
def run (s : Scanner) (tokens : List Token) : Except Fault Unit :=
  tokens.foldlM step s >>= finish

/-- At the start, a value is wanted and no bracket is open. -/
def start : Scanner := ⟨false, []⟩

theorem run_cons (s : Scanner) (t : Token) (ts : List Token) :
    s.run (t :: ts) = (s.step t >>= fun s' => s'.run ts) := by
  simp only [run, List.foldlM_cons, bind_assoc]

/-- After a value, a token that begins one is read as if a value were wanted. -/
theorem run_of_valueAt {opened ts : List Token} (h : Grammar.valueAt ts = true) :
    run ⟨true, opened⟩ ts = run ⟨false, opened⟩ ts := by
  cases ts with
  | nil => cases h
  | cons t ts =>
      have hbegins : t.kind.beginsValue = true := h
      rw [run_cons, run_cons]
      cases hkind : t.kind <;> simp_all [step, follow, TokenKind.beginsValue]

/-- After a value, an operator wants another one. -/
theorem run_of_operatorAt? {opened ts : List Token} {t : Token} {among : List Operator}
    {op : Operator} (h : Grammar.operatorAt? (t :: ts) among = some op) :
    run ⟨true, opened⟩ (t :: ts) = run ⟨false, opened⟩ ts := by
  obtain ⟨_, _, heq, hkind, -⟩ := Grammar.exists_of_operatorAt? h
  cases heq
  rw [run_cons, step, if_pos rfl, follow, hkind]
  rfl

end Scanner

namespace Grammar

variable {α : Type}

/-! ### The scanner follows the derivations -/

/-- What the scanner makes of the tokens that a reading leaves. -/
def Reading.scan (opened : List Token) : Reading α → Except Fault Unit
  | .ok (_, ts) => Scanner.run ⟨true, opened⟩ ts
  | .error f => .error f

/-- What the scanner makes of the tokens of a goal. -/
def Goal.scan (opened : List Token) : Goal α → Except Fault Unit
  | .rule _ ts => Scanner.run ⟨false, opened⟩ ts
  | .more _ r => r.scan opened

@[simp] theorem Reading.scan_after (opened : List Token) (e : Expr α) (op : Operator)
    (r : Reading α) : (r.after e op).scan opened = r.scan opened := by
  cases r <;> rfl

/-- An expression ends in front of nothing but a closing bracket. -/
theorem closing_of_stopsAt {t : Token} {ts : List Token} (ht : t.IsProper)
    (h : Name.expression.StopsAt (t :: ts)) : ∃ b, t.kind = .closing b := by
  have hvalue : t.kind.beginsValue = false := (h .expression (by decide)).2 rfl
  have hadd := (h .addition (by decide)).1
  have hmul := (h .multiplication (by decide)).1
  have hpow := (h .power (by decide)).1
  cases hkind : t.kind with
  | closing b => exact ⟨b, rfl⟩
  | operator =>
      simp only [operatorAt?, Cursor.operator?, Cursor.current?, Cursor.start, List.head?_cons,
        Option.bind_some, hkind] at hadd hmul hpow
      have htext := ht.operator hkind
      simp only [List.mem_cons, List.not_mem_nil, or_false] at htext
      obtain htext | htext | htext | htext | htext := htext <;> rw [htext] at hadd hmul hpow
      · cases hadd
      · cases hadd
      · cases hmul
      · cases hmul
      · cases hpow
  | opening | constant | letter | number => rw [hkind] at hvalue; cases hvalue

/-- A value in brackets: the scanner opens the bracket, and closes it where the grammar does. -/
theorem Reading.scan_within {t : Token} {b : Bracket} (ht : t.kind = .opening b) {r : Reading α}
    (hr : ∀ e t' us, r = .ok (e, t' :: us) → ∃ b', t'.kind = .closing b') (opened : List Token) :
    (r.within t b).scan opened = r.scan (t :: opened) := by
  rcases r with f | ⟨e, _ | ⟨t', us⟩⟩
  · rfl
  · rfl
  · obtain ⟨b', hclosing⟩ := hr e t' us rfl
    simp only [Reading.within, Reading.scan, Scanner.run_cons, Scanner.step, if_true,
      Scanner.follow, hclosing, Scanner.close, ht, TokenKind.closing.injEq,
      TokenKind.opening.injEq]
    by_cases hb : b' = b
    · rw [if_pos hb, if_pos hb.symm]
      rfl
    · rw [if_neg hb, if_neg (Ne.symm hb)]
      rfl

/-- A value that is a single token. -/
theorem scan_token {A : Arithmetic α} {t : Token} (ht : t.IsProper) {ts : List Token}
    {r : Reading α} (h : tokenReading? A t ts = some r) (opened : List Token) :
    Scanner.run ⟨false, opened⟩ (t :: ts) = r.scan opened := by
  rw [Scanner.run_cons, Scanner.step, if_neg Bool.false_ne_true, Scanner.want]
  unfold tokenReading? at h
  cases hkind : t.kind with
  | number | constant =>
      simp only [hkind, Option.some.injEq] at h ⊢
      subst h
      rfl
  | opening b => simp [hkind] at h
  | closing b =>
      simp only [hkind, Option.some.injEq] at h ⊢
      subst h
      rfl
  | letter =>
      simp only [hkind, List.contains_iff_mem, ht.letter hkind] at h ⊢
      split at h <;> rename_i hname <;> cases h
      · rw [if_pos hname]
        rfl
      · rw [if_neg hname]
        rfl
  | operator =>
      simp only [hkind] at h ⊢
      split at h <;> rename_i htext <;> cases h
      rw [if_neg htext]
      rfl

/-- **Every derivation is followed by the scanner**, whatever brackets are open. -/
theorem Derives.scan {A : Arithmetic α} {g : Goal α} {r : Reading α} (h : Derives A g r)
    (hproper : ∀ t ∈ g.tokens, t.IsProper) (opened : List Token) :
    g.scan opened = r.scan opened := by
  induction h generalizing opened with
  | operand _ hr _ ih ihmore =>
      rw [← ihmore (fun t ht => hproper t (hr.suffix.subset ht))]
      exact ih hproper opened
  | failed => rfl
  | stop => rfl
  | link _ hop _ hr _ ih ihmore =>
      have hrest := fun t ht => hproper t (List.mem_cons_of_mem _ ht)
      rw [← ihmore (fun t ht => hrest t (hr.suffix.subset (Reading.tokens_after _ _ _ ▸ ht)))]
      rw [Goal.scan, Goal.scan, Reading.scan_after, ← ih hrest]
      exact Scanner.run_of_operatorAt? hop
  | exponent hop _ ih =>
      rw [Reading.scan_after, ← ih fun t ht => hproper t (List.mem_cons_of_mem _ ht)]
      exact Scanner.run_of_operatorAt? hop
  | factor _ _ hvalue _ ih =>
      rw [Reading.scan_after, ← ih hproper]
      exact Scanner.run_of_valueAt hvalue
  | nothing => rfl
  | @bracket t b ts r ht hr ih =>
      -- the expression runs on the stack with its bracket, and only a closing one can follow it
      have hrest := fun t' ht' => hproper t' (List.mem_cons_of_mem t ht')
      rw [Reading.scan_within ht ?_, ← ih hrest]
      · rw [Goal.scan, Scanner.run_cons, Scanner.step, if_neg Bool.false_ne_true, Scanner.want, ht]
        rfl
      · rintro e t' us rfl
        exact closing_of_stopsAt (hrest t' (hr.suffix.subset List.mem_cons_self)) (hr.stopsAt rfl)
  | token ht => exact scan_token (hproper _ List.mem_cons_self) ht opened
  | negative hkind htext _ ih =>
      rw [Reading.scan_after, ← ih fun t ht => hproper t (List.mem_cons_of_mem _ ht)]
      rw [Goal.scan, Scanner.run_cons, Scanner.step, if_neg Bool.false_ne_true, Scanner.want, hkind]
      simp only [htext, if_true]
      rfl

/-- What is left after an expression is too much, as it is for the scanner. -/
theorem Derives.whole_eq_scan {A : Arithmetic α} {ts : List Token} {r : Reading α}
    (h : Derives A (.rule .expression ts) r) (hproper : ∀ t ∈ ts, t.IsProper) :
    r.whole.map (fun _ => ()) = Scanner.start.run ts := by
  have hscan : Scanner.start.run ts = r.scan [] := h.scan hproper []
  rw [hscan]
  rcases r with f | ⟨e, _ | ⟨t, us⟩⟩
  · rfl
  · rfl
  · obtain ⟨b, hb⟩ := closing_of_stopsAt (hproper t (h.suffix.subset List.mem_cons_self))
      (h.stopsAt rfl)
    simp only [Reading.whole, Reading.scan, Scanner.run_cons, Scanner.step, if_true,
      Scanner.follow, hb, Scanner.close]
    rfl

end Grammar

/-! ### Texts -/

/-- **The grammar accepts what the scanner does**, and reports the same fault. -/
theorem formula_scanned {α : Type} (A : Arithmetic α) {source : String} {tokens : List Token}
    (h : tokenize source = .ok tokens) {n : Int} (hn : 3 * (tokens.length + 1) ≤ n) :
    (Grammar.formula A (.ofInt n) (!tokens.isEmpty) (Cursor.start tokens)).toExcept.map
      (fun _ => ()) = Scanner.start.run tokens := by
  obtain ⟨r, hr⟩ := Grammar.exists_derives A tokens
  rw [Grammar.toExcept_formula (Grammar.allows_ofInt (by push_cast; exact hn)) hr]
  exact hr.whole_eq_scan (isProper_of_tokenize h)

/-- In `-2^(x]`, the round bracket is not closed. -/
theorem formula_scanned_mismatch :
    ∃ tokens, tokenize "-2^(x]" = .ok tokens ∧ 3 * (tokens.length + 1) ≤ (21 : Int) ∧
      (Grammar.formula calculator (.ofInt 21) (!tokens.isEmpty)
        (Cursor.start tokens)).toExcept.map (fun _ => ()) = .error (.missingClosing "(" 3) := by
  let tokens : List Token :=
    [⟨.operator, "-", 0⟩, ⟨.number, "2", 1⟩, ⟨.operator, "^", 2⟩, ⟨.opening .paren, "(", 3⟩,
      ⟨.letter, "x", 4⟩, ⟨.closing .square, "]", 5⟩]
  have htokens : tokenize "-2^(x]" = .ok tokens := by decide +kernel
  have hlimit : 3 * (tokens.length + 1) ≤ (21 : Int) := by decide
  have hrun : Scanner.start.run tokens = .error (.missingClosing "(" 3) := by decide +kernel
  exact ⟨tokens, htokens, hlimit, (formula_scanned calculator htokens hlimit).trans hrun⟩

end Argand
