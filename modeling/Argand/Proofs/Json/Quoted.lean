import Argand.Json.Token
import Argand.Json.Writer
import Mathlib.Data.List.Basic

/-!
# Quoted texts read back

A written text has one escape for each character that is not plain, and two for one beyond the
basic plane: its units as UTF-16 has them. The machine that cuts a settings text into tokens
collects units, so after a character it holds those of the character, and at the closing quote
they are joined to the characters that were written.

## Main definitions

* `Argand.Json.units`: the units of a character.

## Main results

* `Argand.Json.joinSurrogates_units`: the units of characters are joined to the characters.
* `Argand.Json.tokensFrom_escapeChar`: a written character adds its units.
* `Argand.Json.tokensFrom_textPiece`: a written text is its own token.
-/

namespace Argand.Json

/-! ### Units -/

/-- The **units** of a character: its code, or two surrogates beyond the basic plane. -/
def units (c : Char) : List Nat :=
  if c.toNat < 0x10000 then [c.toNat]
  else [0xD800 + (c.toNat - 0x10000) / 0x400, 0xDC00 + (c.toNat - 0x10000) % 0x400]

/-- The code of a character is no surrogate. -/
theorem toNat_bounds (c : Char) : c.toNat < 0xD800 ∨ 0xDFFF < c.toNat ∧ c.toNat < 0x110000 :=
  c.valid

/-- A unit that is no surrogate stands for itself. -/
theorem joinSurrogates_cons {n : Nat} (h : n < 0xD800 ∨ 0xDFFF < n) (us : List Nat) :
    joinSurrogates (n :: us) = Char.ofNat n :: joinSurrogates us := by
  have hhigh : isHighSurrogate n = false := by
    simp only [isHighSurrogate, Bool.and_eq_false_iff, decide_eq_false_iff_not]
    omega
  have hlow : isLowSurrogate n = false := by
    simp only [isLowSurrogate, Bool.and_eq_false_iff, decide_eq_false_iff_not]
    omega
  have hchar : unitChar n = Char.ofNat n := by simp [unitChar, hhigh, hlow]
  cases us with
  | nil => exact congrArg (· :: []) hchar
  | cons m us => simp [joinSurrogates, hhigh, hchar]

/-- A pair of surrogates stands for one character. -/
theorem joinSurrogates_pair {n : Nat} (hn : n < 0x100000) (us : List Nat) :
    joinSurrogates ((0xD800 + n / 0x400) :: (0xDC00 + n % 0x400) :: us) =
      Char.ofNat (0x10000 + n) :: joinSurrogates us := by
  have hhigh : isHighSurrogate (0xD800 + n / 0x400) = true := by
    simp only [isHighSurrogate, Bool.and_eq_true, decide_eq_true_eq]
    omega
  have hlow : isLowSurrogate (0xDC00 + n % 0x400) = true := by
    simp only [isLowSurrogate, Bool.and_eq_true, decide_eq_true_eq]
    omega
  have hcode : 0x10000 + (0xD800 + n / 0x400 - 0xD800) * 0x400 +
      (0xDC00 + n % 0x400 - 0xDC00) = 0x10000 + n := by
    omega
  simp only [joinSurrogates, hhigh, hlow, hcode, Bool.and_self, if_true]

/-- **The units of characters** are joined to the characters. -/
theorem joinSurrogates_units (cs : List Char) : joinSurrogates (cs.flatMap units) = cs := by
  induction cs with
  | nil => rfl
  | cons c cs ih =>
      have hbounds := toNat_bounds c
      rw [List.flatMap_cons, units]
      split
      · rw [List.singleton_append, joinSurrogates_cons (by omega), ih, Char.ofNat_toNat]
      · rw [List.cons_append, List.singleton_append, joinSurrogates_pair (by omega), ih,
          Nat.add_sub_cancel' (by omega), Char.ofNat_toNat]

/-! ### Escapes -/

/-- A hexadecimal digit is read as its value. -/
theorem hexValue?_digitChar : ∀ n < 16, hexValue? n.digitChar = some n := by
  decide

/-- The last of several hexadecimal digits. -/
theorem hexDigits_succ {width : Nat} (h : 0 < width) (n : Nat) :
    Text.hexDigits (width + 1) n = Text.hexDigits width (n / 16) ++ [(n % 16).digitChar] := by
  obtain hlt | hle := Nat.lt_or_ge n 16
  · have hzeros : List.replicate width '0' = List.replicate (width - 1) '0' ++ ['0'] := by
      rw [← List.replicate_succ', Nat.sub_add_cancel h]
    rw [Text.hexDigits, Text.hexDigits, Nat.toDigits_of_lt_base hlt, Nat.div_eq_of_lt hlt,
      Nat.toDigits_zero, Nat.mod_eq_of_lt hlt]
    simp [hzeros]
  · rw [Text.hexDigits, Text.hexDigits, Nat.toDigits_of_base_le (by decide) hle]
    simp

/-- The four hexadecimal digits of a unit. -/
theorem hexDigits_four {n : Nat} (h : n < 0x10000) :
    Text.hexDigits 4 n = [(n / 16 / 16 / 16).digitChar, (n / 16 / 16 % 16).digitChar,
      (n / 16 % 16).digitChar, (n % 16).digitChar] := by
  have hfirst : Text.hexDigits 1 (n / 16 / 16 / 16) = [(n / 16 / 16 / 16).digitChar] := by
    rw [Text.hexDigits, Nat.toDigits_of_lt_base (by omega)]
    rfl
  rw [hexDigits_succ (by decide), hexDigits_succ (by decide), hexDigits_succ (by decide), hfirst]
  rfl

/-- One digit of an escape by code. -/
theorem tokensFrom_digitChar {d : Nat} (h : d < 16) (us : List Nat) (missing value : Nat)
    (rest : List Char) :
    tokensFrom (.code us (missing + 2) value) (d.digitChar :: rest) =
      tokensFrom (.code us (missing + 1) (16 * value + d)) rest := by
  simp [tokensFrom, step, hexValue?_digitChar d h]

/-- The last digit of an escape by code. -/
theorem tokensFrom_last_digitChar {d : Nat} (h : d < 16) (us : List Nat) (value : Nat)
    (rest : List Char) :
    tokensFrom (.code us 1 value) (d.digitChar :: rest) =
      tokensFrom (.inText ((16 * value + d) :: us)) rest := by
  simp [tokensFrom, step, hexValue?_digitChar d h]

/-- An escape by code **adds its unit**. -/
theorem tokensFrom_escapeUnit {n : Nat} (h : n < 0x10000) (us : List Nat) (rest : List Char) :
    tokensFrom (.inText us) (escapeUnit n ++ rest) = tokensFrom (.inText (n :: us)) rest := by
  rw [escapeUnit, hexDigits_four h]
  show tokensFrom (.code us 4 0) ((n / 16 / 16 / 16).digitChar :: (n / 16 / 16 % 16).digitChar ::
    (n / 16 % 16).digitChar :: (n % 16).digitChar :: rest) = _
  have hvalue : 16 * (16 * (16 * (16 * 0 + n / 16 / 16 / 16) + n / 16 / 16 % 16) + n / 16 % 16) +
      n % 16 = n := by
    omega
  rw [tokensFrom_digitChar (by omega), tokensFrom_digitChar (by omega),
    tokensFrom_digitChar (by omega), tokensFrom_last_digitChar (by omega), hvalue]

/-- **A written character** adds its units. -/
theorem tokensFrom_escapeChar (c : Char) (us : List Nat) (rest : List Char) :
    tokensFrom (.inText us) (escapeChar c ++ rest) =
      tokensFrom (.inText ((units c).reverse ++ us)) rest := by
  have hbounds := toNat_bounds c
  unfold escapeChar
  split_ifs with hquote hbackslash hnewline hreturn htab hfeed hback hplain hbasic
  · subst hquote; rfl
  · subst hbackslash; rfl
  · subst hnewline; rfl
  · subst hreturn; rfl
  · subst htab; rfl
  · subst hfeed; rfl
  · subst hback; rfl
  · simp only [Bool.and_eq_true, decide_eq_true_eq] at hplain
    rw [units, if_pos (by omega), List.singleton_append, tokensFrom, step, if_neg hquote,
      if_neg hbackslash, if_neg (by omega)]
    rfl
  · rw [units, if_pos hbasic, tokensFrom_escapeUnit hbasic]
    rfl
  · rw [units, if_neg hbasic, List.append_assoc, tokensFrom_escapeUnit (by omega),
      tokensFrom_escapeUnit (by omega)]
    rfl

/-! ### Texts -/

/-- Inside a text, written characters add their units, and the quote ends it. -/
theorem tokensFrom_inText (cs : List Char) (us : List Nat) (rest : List Char) :
    tokensFrom (.inText us) (cs.flatMap escapeChar ++ '"' :: rest) =
      .text (String.ofList (joinSurrogates (us.reverse ++ cs.flatMap units))) ::
        tokensFrom .between rest := by
  induction cs generalizing us with
  | nil => 
      rw [List.flatMap_nil, List.flatMap_nil, List.nil_append, List.append_nil]
      rfl
  | cons c cs ih =>
      rw [List.flatMap_cons, List.flatMap_cons, List.append_assoc, tokensFrom_escapeChar, ih,
        List.reverse_append, List.reverse_reverse, List.append_assoc]

/-- **A written text** is its own token. -/
theorem tokensFrom_textPiece (s : String) (rest : List Char) :
    tokensFrom .between ((textPiece s).toList ++ rest) = .text s :: tokensFrom .between rest := by
  rw [textPiece, String.toList_ofList, List.cons_append, List.cons_append, List.append_assoc]
  show tokensFrom (.inText []) (s.toList.flatMap escapeChar ++ '"' :: rest) = _
  rw [tokensFrom_inText, List.reverse_nil, List.nil_append, joinSurrogates_units,
    String.ofList_toList]

end Argand.Json
