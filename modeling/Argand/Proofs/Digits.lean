import Argand.Decimal.Text
import Mathlib.Data.List.TakeDrop
import Mathlib.Tactic.IntervalCases

/-!
# Decimal digits

Digits are spanned up to the first other character. Those that a natural number is written with
are read as that number, and they begin with a zero for zero alone.

## Main results

* `Argand.span_isAsciiDigit`: digits are spanned up to where none follows.
* `Argand.Text.digitsToNat_toDigits`: the digits of a number are read as it.
* `Argand.Text.head?_toDigits`: those of a positive number do not begin with a zero.
* `Argand.Text.toList_toString_int`: the text of a whole number is its digits after a sign.
-/

namespace Argand

/-! ### Runs of digits -/

/-- The ten digits. -/
theorem mem_digits {c : Char} (h : Text.isAsciiDigit c = true) :
    c ∈ ['0', '1', '2', '3', '4', '5', '6', '7', '8', '9'] := by
  simp only [Text.isAsciiDigit, Bool.and_eq_true, decide_eq_true_eq, Char.le_def,
    UInt32.le_iff_toNat_le] at h
  have hlo : 48 ≤ c.toNat := h.1
  have hhi : c.toNat ≤ 57 := h.2
  rw [← Char.ofNat_toNat c]
  generalize c.toNat = n at hlo hhi
  interval_cases n <;> decide

/-- Digits are spanned up to where none follows. -/
theorem span_isAsciiDigit {whole rest : List Char}
    (hwhole : ∀ c ∈ whole, Text.isAsciiDigit c = true)
    (hrest : ∀ c ∈ rest.head?, Text.isAsciiDigit c = false) :
    (whole ++ rest).span Text.isAsciiDigit = (whole, rest) := by
  rw [List.span_eq_takeWhile_dropWhile, List.takeWhile_append_of_pos hwhole,
    List.dropWhile_append_of_pos hwhole]
  cases rest with
  | nil => simp
  | cons d rest => simp [hrest d rfl]

/-- Nothing but digits is spanned whole. -/
theorem span_isAsciiDigit_all {whole : List Char}
    (hwhole : ∀ c ∈ whole, Text.isAsciiDigit c = true) :
    whole.span Text.isAsciiDigit = (whole, []) := by
  have hnone : ∀ c ∈ ([] : List Char).head?, Text.isAsciiDigit c = false := by simp
  simpa using span_isAsciiDigit hwhole hnone

/-- A text that a digit begins has no sign. -/
theorem readSign_of_isAsciiDigit {c : Char} {cs : List Char} (h : Text.isAsciiDigit c = true) :
    readSign (c :: cs) = (false, c :: cs) := by
  rw [readSign.eq_def]
  split
  · simp_all [Text.isAsciiDigit]
  · simp_all [Text.isAsciiDigit]
  · rfl

namespace Text

/-! ### The digits of a number -/

/-- **The digits of a number** are read as the number. -/
@[simp] theorem digitsToNat_toDigits (n : Nat) : digitsToNat (Nat.toDigits 10 n) = n :=
  Nat.ofDigitChars_ten_toDigits

/-- Digits are digits. -/
theorem isAsciiDigit_of_isDigit {c : Char} (h : c.isDigit = true) : isAsciiDigit c = true := by
  simpa [Char.isDigit, isAsciiDigit, Char.le_def, UInt32.le_iff_toNat_le] using h

/-- The digits of a number are digits. -/
theorem isAsciiDigit_of_mem_toDigits {n : Nat} : ∀ c ∈ Nat.toDigits 10 n, isAsciiDigit c = true :=
  fun _ hc => isAsciiDigit_of_isDigit (Nat.isDigit_of_mem_toDigits (by decide) (by decide) hc)

/-- A digit of a value from one to nine is not zero. -/
theorem digitChar_ne_zero : ∀ n < 10, 0 < n → n.digitChar ≠ '0' := by
  decide

/-- The digits of a positive number do **not begin with a zero**. -/
theorem head?_toDigits {n : Nat} (h : 0 < n) : (Nat.toDigits 10 n).head? ≠ some '0' := by
  induction n using Nat.strongRecOn with
  | ind n ih =>
      obtain hlt | hle := Nat.lt_or_ge n 10
      · rw [Nat.toDigits_of_lt_base hlt, List.head?_cons]
        exact fun heq => digitChar_ne_zero n hlt h (Option.some.inj heq)
      · have hless := ih _ (Nat.div_lt_self h (by decide)) (Nat.div_pos hle (by decide))
        obtain ⟨c, cs, hcs⟩ := List.exists_cons_of_ne_nil (@Nat.toDigits_ne_nil (n / 10) 10)
        rw [Nat.toDigits_of_base_le (by decide) hle, hcs]
        rwa [hcs] at hless

/-- The text of a whole number is **its digits after a sign**. -/
theorem toList_toString_int (n : Int) :
    (toString n).toList = (if n < 0 then ['-'] else []) ++ Nat.toDigits 10 n.natAbs := by
  cases n with
  | ofNat n =>
      have hsign : ¬ (Int.ofNat n) < 0 := by simp
      rw [if_neg hsign, List.nil_append]
      exact Nat.toList_repr
  | negSucc n =>
      rw [if_pos (Int.negSucc_lt_zero n)]
      show ("-" ++ (n + 1).repr).toList = _
      rw [String.toList_append, Nat.toList_repr]
      rfl

end Text

end Argand
