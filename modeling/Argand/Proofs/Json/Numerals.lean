import Argand.Proofs.Json.RoundTrip

/-!
# Written floats

A finite float is written with its digits and a point or an exponent among them, so its text is one
run of characters, and what the reader takes it for is a float. A whole number of that many digits
might be too long to be read; a float never is.

## Main definitions

* `Argand.Json.IsRealNumeral`: a run with a point or an exponent after its first digits.

## Main results

* `Argand.Json.isRealNumeral_digits`: the text of a decimal number is such a run.
* `Argand.Json.exists_floatText`: so is that of a finite float, after its sign.
* `Argand.Json.IsRealNumeral.tooLong_notMem_ofScalar`: such a run is no number that is too long.
-/

namespace Argand.Json

/-- **The numeral of a float**: one run of characters, of which the first after the digits at its
front begin a fraction or an exponent. -/
structure IsRealNumeral (cs : List Char) : Prop where
  endsRun : ∀ c ∈ cs, endsRun c = false
  parts : ∃ whole rest d ds, cs = whole ++ rest ∧ (∀ c ∈ whole, Text.isAsciiDigit c = true) ∧
    Text.isAsciiDigit d = true ∧
    (rest = '.' :: d :: ds ∨ ∃ sign, (sign = '+' ∨ sign = '-') ∧ rest = 'e' :: sign :: d :: ds)

/-! ### Texts of decimal numbers -/

/-- Zeros are digits. -/
theorem isAsciiDigit_of_mem_replicate (n : Nat) :
    ∀ c ∈ List.replicate n '0', Text.isAsciiDigit c = true := by
  intro c hc
  rw [List.eq_of_mem_replicate hc]
  rfl

/-- **The exponent** of scientific notation has a sign and digits. -/
theorem exists_exponentText (e : Int) :
    ∃ sign d ds, (exponentText e).toList = 'e' :: sign :: d :: ds ∧
      (sign = '+' ∨ sign = '-') ∧ ∀ c ∈ d :: ds, Text.isAsciiDigit c = true := by
  have hdigits : ∀ c ∈ (zeros (2 - (toString e.natAbs).length) ++ toString e.natAbs).toList,
      Text.isAsciiDigit c = true := by
    intro c hc
    rw [String.toList_append, List.mem_append, zeros, String.toList_ofList] at hc
    obtain hc | hc := hc
    · exact isAsciiDigit_of_mem_replicate _ c hc
    · exact Text.isAsciiDigit_of_mem_toDigits c (by rwa [← Nat.toList_repr])
  have hne : (zeros (2 - (toString e.natAbs).length) ++ toString e.natAbs).toList ≠ [] := by
    simp
  obtain ⟨d, ds, hds⟩ := List.exists_cons_of_ne_nil hne
  rw [hds] at hdigits
  refine ⟨if e < 0 then '-' else '+', d, ds, ?_, ?_, hdigits⟩
  · rw [exponentText, String.append_assoc, String.toList_append, hds]
    split <;> rfl
  · split
    · exact .inr rfl
    · exact .inl rfl

section Numerals

variable {whole fraction more : List Char} (hwhole : ∀ c ∈ whole, Text.isAsciiDigit c = true)

include hwhole

/-- Digits, a point and digits, and perhaps more of the run. -/
theorem isRealNumeral_point (hne : fraction ≠ [])
    (hfraction : ∀ c ∈ fraction, Text.isAsciiDigit c = true)
    (hmore : ∀ c ∈ more, endsRun c = false) :
    IsRealNumeral (whole ++ '.' :: (fraction ++ more)) where
  endsRun := by
    simp only [List.forall_mem_append, List.forall_mem_cons]
    exact ⟨fun c hc => endsRun_of_isAsciiDigit (hwhole c hc), rfl,
      fun c hc => endsRun_of_isAsciiDigit (hfraction c hc), hmore⟩
  parts := by
    obtain ⟨d, ds, rfl⟩ := List.exists_cons_of_ne_nil hne
    exact ⟨whole, _, d, ds ++ more, rfl, hwhole, hfraction d List.mem_cons_self, .inl rfl⟩

/-- Digits and an exponent. -/
theorem isRealNumeral_exponent (e : Int) :
    IsRealNumeral (whole ++ (exponentText e).toList) := by
  obtain ⟨sign, d, ds, hexponent, hsign, hdigits⟩ := exists_exponentText e
  rw [hexponent]
  refine ⟨?_, whole, _, d, ds, rfl, hwhole, hdigits d List.mem_cons_self,
    .inr ⟨sign, hsign, rfl⟩⟩
  have hsign' : Json.endsRun sign = false := by
    obtain rfl | rfl := hsign <;> rfl
  simp only [List.forall_mem_append, List.forall_mem_cons]
  exact ⟨fun c hc => endsRun_of_isAsciiDigit (hwhole c hc), rfl, hsign',
    endsRun_of_isAsciiDigit (hdigits d List.mem_cons_self),
    fun c hc => endsRun_of_isAsciiDigit (hdigits c (List.mem_cons_of_mem d hc))⟩

end Numerals

/-- **The text of a decimal number** is such a numeral. -/
theorem isRealNumeral_digits (d : Decimal) :
    IsRealNumeral (Layout.standard.digits d).toList := by
  have hdigits := @Text.isAsciiDigit_of_mem_toDigits d.coefficient
  have hne := @Nat.toDigits_ne_nil d.coefficient 10
  have hzeros := isAsciiDigit_of_mem_replicate
  simp only [Layout.digits]
  generalize Nat.toDigits 10 d.coefficient = ds at hdigits hne ⊢
  generalize horder : (ds.length : Int) - 1 + d.exponent = order
  have htake (n : Nat) : ∀ c ∈ ds.take n, Text.isAsciiDigit c = true :=
    fun c hc => hdigits c (List.mem_of_mem_take hc)
  have hdrop (n : Nat) : ∀ c ∈ ds.drop n, Text.isAsciiDigit c = true :=
    fun c hc => hdigits c (List.mem_of_mem_drop hc)
  split_ifs with hpositional hsmall hwhole hdigit
  · have hfraction : ∀ c ∈ List.replicate (-order - 1).toNat '0' ++ ds,
        Text.isAsciiDigit c = true :=
      List.forall_mem_append.mpr ⟨hzeros _, hdigits⟩
    have h := isRealNumeral_point (hzeros 1) (List.append_ne_nil_of_right_ne_nil _ hne) hfraction
      (List.forall_mem_nil _)
    simpa [zeros] using h
  · have h := isRealNumeral_point (List.forall_mem_append.mpr ⟨hdigits, hzeros d.exponent.toNat⟩)
      (List.cons_ne_nil '0' []) (hzeros 1) (List.forall_mem_nil _)
    simpa [zeros, Layout.standard] using h
  · have hpart : ds.drop (order + 1).toNat ≠ [] := by
      rw [ne_eq, List.drop_eq_nil_iff]
      omega
    have h := isRealNumeral_point (htake (order + 1).toNat) hpart (hdrop _) (List.forall_mem_nil _)
    simpa using h
  · have h := isRealNumeral_exponent (htake 1) order
    simpa using h
  · have hpart : ds.drop 1 ≠ [] := by simpa using hdigit
    have hexponent := (isRealNumeral_exponent (List.forall_mem_nil _) order).endsRun
    have h := isRealNumeral_point (htake 1) hpart (hdrop 1) hexponent
    simpa using h

/-! ### Reading runs -/

/-- The whole part of a number is all digits at its front, or the zero that they begin with. -/
theorem splitWhole_append {whole rest : List Char}
    (hwhole : ∀ c ∈ whole, Text.isAsciiDigit c = true)
    (hrest : ∀ c ∈ rest.head?, Text.isAsciiDigit c = false) :
    splitWhole (whole ++ rest) = (whole, rest) ∨ (splitWhole (whole ++ rest)).1 = ['0'] := by
  unfold splitWhole
  split
  · exact .inr rfl
  · exact .inl (span_isAsciiDigit hwhole hrest)

/-- A number that is too long is whole: nothing of a fraction or an exponent follows its digits. -/
theorem of_tooLong_mem_ofNumber {negative : Bool} {cs : List Char} {n : Nat}
    (h : .tooLong n ∈ Token.ofNumber negative cs) :
    Text.mostWholeDigits < (splitWhole cs).1.length ∧
      (splitFraction (splitWhole cs).2).1 = [] ∧
      (splitExponent (splitFraction (splitWhole cs).2).2).1 = [] := by
  simp only [Token.ofNumber] at h
  split at h
  · simp at h
  · obtain hhead | htail := List.mem_cons.mp h
    · split at hhead
      · rename_i hwhole
        simp only [Bool.and_eq_true, List.isEmpty_iff] at hwhole
        refine ⟨?_, hwhole⟩
        by_contra hshort
        simp [Token.ofWhole, Text.boundedDigits, hshort] at hhead
      · unfold Token.ofReal at hhead
        split at hhead <;> cases hhead
    · split at htail <;> simp at htail

/-- **A number with such a numeral** is a float, unless it is a zero with something behind it. -/
theorem IsRealNumeral.tooLong_notMem_ofNumber {cs : List Char} (h : IsRealNumeral cs)
    (negative : Bool) (n : Nat) : .tooLong n ∉ Token.ofNumber negative cs := by
  intro hmem
  obtain ⟨hlong, hfraction, hexponent⟩ := of_tooLong_mem_ofNumber hmem
  obtain ⟨whole, rest, d, ds, rfl, hwhole, hd, hrest⟩ := h.parts
  have hhead : ∀ c ∈ rest.head?, Text.isAsciiDigit c = false := by
    rintro c hc
    obtain rfl | ⟨sign, -, rfl⟩ := hrest <;> obtain rfl := Option.some.inj hc <;> rfl
  obtain hsplit | hzero := splitWhole_append hwhole hhead
  · rw [hsplit] at hfraction hexponent
    obtain rfl | ⟨sign, hsign, rfl⟩ := hrest
    · simp [splitFraction, readFraction, List.span_eq_takeWhile_dropWhile, hd] at hfraction
    · obtain rfl | rfl := hsign <;>
        simp [splitFraction, readFraction, splitExponent, readSign,
          List.span_eq_takeWhile_dropWhile, hd] at hexponent
  · rw [hzero] at hlong
    exact absurd hlong (by decide)

/-- A sign is no part of such a numeral. -/
theorem IsRealNumeral.head?_ne {cs : List Char} (h : IsRealNumeral cs) : cs.head? ≠ some '-' := by
  obtain ⟨whole, rest, d, ds, rfl, hwhole, -, hrest⟩ := h.parts
  cases whole with
  | nil => obtain rfl | ⟨sign, -, rfl⟩ := hrest <;> simp
  | cons c whole =>
      intro hhead
      obtain rfl : c = '-' := Option.some.inj hhead
      exact absurd (hwhole '-' List.mem_cons_self) (by decide)

/-- A run with a number that is too long is the number, perhaps after a sign. -/
theorem of_tooLong_mem_ofScalar {cs : List Char} {n : Nat} (h : .tooLong n ∈ Token.ofScalar cs) :
    (∃ rest, cs = '-' :: rest ∧ .tooLong n ∈ Token.ofNumber true rest) ∨
      cs.head? ≠ some '-' ∧ .tooLong n ∈ Token.ofNumber false cs := by
  unfold Token.ofScalar at h
  split at h
  case h_7 =>
    split at h
    · exact .inl ⟨_, rfl, h⟩
    · rename_i hsign
      refine .inr ⟨fun hhead => ?_, h⟩
      obtain ⟨rest, rfl⟩ := List.head?_eq_some_iff.mp hhead
      exact hsign rest rfl
  all_goals simp at h

/-- A run with the numeral of a float is no number that is too long. -/
theorem IsRealNumeral.tooLong_notMem_ofScalar {cs : List Char} (h : IsRealNumeral cs)
    (negative : Bool) (n : Nat) :
    .tooLong n ∉ Token.ofScalar ((if negative then ['-'] else []) ++ cs) := by
  intro hmem
  obtain ⟨rest, hrest, hmem⟩ | ⟨hhead, hmem⟩ := of_tooLong_mem_ofScalar hmem
  · cases negative with
    | false => exact h.head?_ne (by rw [show cs = '-' :: rest from hrest]; rfl)
    | true =>
        obtain rfl : cs = rest := List.cons.inj hrest |>.2
        exact h.tooLong_notMem_ofNumber true n hmem
  · cases negative with
    | false => exact h.tooLong_notMem_ofNumber false n hmem
    | true => exact hhead rfl

/-! ### Texts of floats -/

/-- **The text of a finite float** is such a numeral after a sign. -/
theorem exists_floatText {x : Float} (hnumber : x.isNaN = false) (hfinite : x.isInf = false) :
    ∃ cs, IsRealNumeral cs ∧
      (floatText x).toList = (if isNegative x then ['-'] else []) ++ cs := by
  have hsign : (if isNegative x then "-" else "").toList = if isNegative x then ['-'] else [] := by
    split <;> rfl
  rw [floatText, writeFloat]
  simp only [hnumber, hfinite, Bool.false_eq_true, if_false]
  split
  · have hzero := isAsciiDigit_of_mem_replicate 1
    have h := isRealNumeral_point hzero (List.cons_ne_nil _ _) hzero (List.forall_mem_nil _)
    refine ⟨_, h, ?_⟩
    rw [String.append_assoc, String.toList_append, hsign]
    rfl
  · exact ⟨_, isRealNumeral_digits (shortestDecimal x), by rw [String.toList_append, hsign]⟩

end Argand.Json
