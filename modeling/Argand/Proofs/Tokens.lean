import Argand.Expr.Grammar
import Argand.Proofs.Computation

/-!
# The tokens of a text

A token that is no numeral is a single character of its text, and its kind is that of the
character. So there are only five operators, three constants, and the letters, of which just `E`
and `I` name no variable.

## Main results

* `Argand.isSingle_of_tokenize`: every other token than a numeral is a single character.
* `Argand.mem_reservedNames_iff`: the letters that name no variable.
* `Argand.toLower_mem_variableNames`: all other letters do.
-/

namespace Argand

/-! ### Single characters -/

/-- The kind of a bracket is that of a bracket. -/
theorem bracketKind?_eq_some {c : Char} {kind : TokenKind} (h : bracketKind? c = some kind) :
    ∃ b, kind = .opening b ∨ kind = .closing b := by
  unfold bracketKind? at h
  split at h <;> cases h <;> first | exact ⟨_, .inl rfl⟩ | exact ⟨_, .inr rfl⟩

/-- What a character is that is a token of some kind. -/
theorem singleKind?_eq_some {c : Char} {kind : TokenKind} (h : singleKind? c = some kind) :
    (∃ b, kind = .opening b ∨ kind = .closing b) ∨ kind = .operator ∧ isOperator c ∨
      kind = .constant ∧ isConstant c ∨ kind = .letter ∧ isLetter c ∧ isConstant c = false := by
  rw [singleKind?] at h
  split at h
  · cases h
    exact .inl (bracketKind?_eq_some ‹_›)
  · split at h
    · cases h
      exact .inr (.inl ⟨rfl, ‹_›⟩)
    · split at h
      · cases h
        exact .inr (.inr (.inl ⟨rfl, ‹_›⟩))
      · split at h
        · cases h
          exact .inr (.inr (.inr ⟨rfl, ‹_›, Bool.eq_false_iff.mpr ‹_›⟩))
        · cases h

/-- A token is **single** among some characters if it is one of them. -/
def Token.IsSingle (cs : List Char) (t : Token) : Prop :=
  ∃ c ∈ cs, singleKind? c = some t.kind ∧ t.text = c.toString

/-- Every other token than a numeral is a single one of the characters. -/
theorem isSingle_of_ofChars {position : Nat} {cs : List Char} {tokens : List Token}
    (h : Token.ofChars position cs = .ok tokens) :
    ∀ t ∈ tokens, t.kind ≠ .number → t.IsSingle cs := by
  induction position, cs using Token.ofChars.induct generalizing tokens with
  | case1 position =>
      rw [Token.ofChars] at h
      obtain rfl := Except.ok.inj h
      exact fun t ht => absurd ht List.not_mem_nil
  | case2 position c rest kind hkind ih =>
      rw [Token.ofChars] at h
      simp only [hkind, bind_eq_ok, pure_eq_ok] at h
      obtain ⟨after, hafter, rfl⟩ := h
      intro t ht hne
      obtain rfl | ht := List.mem_cons.mp ht
      · exact ⟨c, List.mem_cons_self, hkind, rfl⟩
      · obtain ⟨c', hc', hsingle⟩ := ih hafter t ht hne
        exact ⟨c', List.mem_cons_of_mem _ hc', hsingle⟩
  | case3 position c rest hkind hdigit ih =>
      rw [Token.ofChars] at h
      simp only [hkind, hdigit, if_true, bind_eq_ok, pure_eq_ok] at h
      obtain ⟨numeral, hnumeral, after, hafter, rfl⟩ := h
      intro t ht hne
      obtain rfl | ht := List.mem_cons.mp ht
      · exact absurd rfl hne
      · obtain ⟨c', hc', hsingle⟩ := ih numeral hafter t ht hne
        have hrest : c' ∈ rest := (List.dropWhile_sublist _).subset hc'
        exact ⟨c', List.mem_cons_of_mem _ hrest, hsingle⟩
  | case4 position c rest hkind hdigit hblank ih =>
      rw [Token.ofChars] at h
      simp only [hkind, hdigit, hblank, if_true] at h
      intro t ht hne
      obtain ⟨c', hc', hsingle⟩ := ih h t ht hne
      exact ⟨c', List.mem_cons_of_mem _ hc', hsingle⟩
  | case5 position c rest hkind hdigit hblank =>
      rw [Token.ofChars] at h
      simp [hkind, hdigit, hblank] at h

/-- **Every other token than a numeral** is a single character of the text. -/
theorem isSingle_of_tokenize {source : String} {tokens : List Token}
    (h : tokenize source = .ok tokens) :
    ∀ t ∈ tokens, t.kind ≠ .number → t.IsSingle source.toList :=
  isSingle_of_ofChars h

/-! ### Operators, constants and letters -/

namespace Token.IsSingle

variable {cs : List Char} {t : Token}

/-- An operator is one of five. -/
theorem operator (h : t.IsSingle cs) (ht : t.kind = .operator) :
    t.text ∈ ["+", "-", "*", "/", "^"] := by
  obtain ⟨c, -, hkind, htext⟩ := h
  rw [ht] at hkind
  rw [htext]
  obtain ⟨b, hb | hb⟩ | ⟨-, hc⟩ | ⟨hb, -⟩ | ⟨hb, -⟩ := singleKind?_eq_some hkind <;>
    [cases hb; cases hb; skip; cases hb; cases hb]
  simp only [isOperator, Bool.or_eq_true, decide_eq_true_eq] at hc
  obtain (((rfl | rfl) | rfl) | rfl) | rfl := hc <;> decide

/-- A constant is one of three. -/
theorem constant (h : t.IsSingle cs) (ht : t.kind = .constant) : t.text ∈ ["i", "e", "π"] := by
  obtain ⟨c, -, hkind, htext⟩ := h
  rw [ht] at hkind
  rw [htext]
  obtain ⟨b, hb | hb⟩ | ⟨hb, -⟩ | ⟨-, hc⟩ | ⟨hb, -⟩ := singleKind?_eq_some hkind <;>
    [cases hb; cases hb; cases hb; skip; cases hb]
  simp only [isConstant, Bool.or_eq_true, decide_eq_true_eq] at hc
  obtain (rfl | rfl) | rfl := hc <;> decide

/-- A variable is a letter of which no constant is made. -/
theorem letter (h : t.IsSingle cs) (ht : t.kind = .letter) :
    ∃ c ∈ cs, t.text = c.toString ∧ isLetter c = true ∧ isConstant c = false := by
  obtain ⟨c, hc, hkind, htext⟩ := h
  rw [ht] at hkind
  obtain ⟨b, hb | hb⟩ | ⟨hb, -⟩ | ⟨hb, -⟩ | ⟨-, hletter⟩ := singleKind?_eq_some hkind <;>
    [cases hb; cases hb; cases hb; cases hb; exact ⟨c, hc, htext, hletter⟩]

end Token.IsSingle

/-- Letters are among the first 128 characters. -/
theorem forall_isLetter {P : Char → Prop}
    (h : ∀ n < 128, isLetter (Char.ofNat n) = true → P (Char.ofNat n)) {c : Char}
    (hc : isLetter c = true) : P c := by
  have hlt : c.toNat < 128 := by
    have hbound := hc
    simp only [isLetter, Bool.or_eq_true, Bool.and_eq_true, decide_eq_true_eq, Char.le_def,
      UInt32.le_iff_toNat_le] at hbound
    show c.val.toNat < 128
    obtain ⟨-, hle⟩ | ⟨-, hle⟩ := hbound
    · have : c.val.toNat ≤ 122 := hle
      omega
    · have : c.val.toNat ≤ 90 := hle
      omega
  have hP := h c.toNat hlt
  rw [Char.ofNat_toNat] at hP
  exact hP hc

/-- Of the letters that are no constants, just `E` and `I` **name no variable**. -/
theorem mem_reservedNames_iff {c : Char} (hc : isLetter c = true)
    (hconstant : isConstant c = false) :
    c.toString.toLower ∈ Grammar.reservedNames ↔ c.toString = "E" ∨ c.toString = "I" := by
  revert hconstant
  refine forall_isLetter (P := fun c => isConstant c = false →
    (c.toString.toLower ∈ Grammar.reservedNames ↔ c.toString = "E" ∨ c.toString = "I")) ?_ hc
  decide +kernel

/-- All other letters do, **in either case**. -/
theorem toLower_mem_variableNames {c : Char} (hc : isLetter c = true)
    (hname : c.toString.toLower ∉ Grammar.reservedNames) :
    c.toString.toLower = c.toLower.toString ∧ c.toString.toLower ∈ Grammar.variableNames := by
  revert hname
  refine forall_isLetter (P := fun c => c.toString.toLower ∉ Grammar.reservedNames →
    c.toString.toLower = c.toLower.toString ∧ c.toString.toLower ∈ Grammar.variableNames) ?_ hc
  decide +kernel

/-! ### Proper tokens -/

/-- A token **as in a text**: an operator is one of five, and a letter is one of no constant. -/
structure Token.IsProper (t : Token) : Prop where
  operator : t.kind = .operator → t.text ∈ ["+", "-", "*", "/", "^"]
  letter : t.kind = .letter →
    (t.text.toLower ∈ Grammar.reservedNames ↔ t.text = "E" ∨ t.text = "I")

/-- **The tokens of a text are proper.** -/
theorem isProper_of_tokenize {source : String} {tokens : List Token}
    (h : tokenize source = .ok tokens) : ∀ t ∈ tokens, t.IsProper := by
  intro t ht
  have hsingle := isSingle_of_tokenize h t ht
  refine ⟨fun hkind => ?_, fun hkind => ?_⟩
  · exact (hsingle (by rw [hkind]; decide)).operator hkind
  · obtain ⟨c, -, htext, hletter, hconstant⟩ := (hsingle (by rw [hkind]; decide)).letter hkind
    rw [htext]
    exact mem_reservedNames_iff hletter hconstant

end Argand
