import Argand.Display
import Argand.Proofs.Display.Rounding
import Argand.Proofs.Valid

/-!
# Shown values

A value of numbers can be shown with any number of places after the point, and so can a scope of
such values. The text of a number has no blanks, so the text of a value neither begins nor ends
with one: taking blanks off its ends does nothing.

## Main definitions

* `Argand.Text.IsSolid`: a text that is not empty and has no blanks.
* `Argand.Text.IsTrimmed`: a text whose first and last characters are no blanks.

## Main results

* `Argand.Text.IsTrimmed.trim`: taking blanks off the ends of a trimmed text does nothing.
* `Argand.showValue_isTrimmed`: a valid value can be shown, and its text is trimmed.
* `Argand.exists_showScope`: a valid scope can be shown.
-/

namespace Argand

/-! ### Texts without blanks -/

namespace Text

/-- A text **without blanks**. -/
def HasNoBlanks (s : String) : Prop :=
  ∀ c ∈ s.toList, isBlank c = false

/-- A text that is **not empty and has no blanks**. -/
structure IsSolid (s : String) : Prop where
  ne_empty : s ≠ ""
  hasNoBlanks : HasNoBlanks s

/-- A text whose first and last characters are **no blanks**. -/
structure IsTrimmed (s : String) : Prop where
  first : ∃ c ∈ s.toList.head?, isBlank c = false
  last : ∃ c ∈ s.toList.getLast?, isBlank c = false

instance (s : String) : Decidable (HasNoBlanks s) :=
  List.decidableBAll (fun c => isBlank c = false) s.toList

instance (s : String) : Decidable (IsSolid s) :=
  decidable_of_iff (s ≠ "" ∧ HasNoBlanks s) ⟨fun h => ⟨h.1, h.2⟩, fun h => ⟨h.1, h.2⟩⟩

@[simp] theorem hasNoBlanks_append {s t : String} :
    HasNoBlanks (s ++ t) ↔ HasNoBlanks s ∧ HasNoBlanks t := by
  simp [HasNoBlanks, or_imp, forall_and]

/-- A solid text after some without blanks. -/
theorem IsSolid.append_left {s t : String} (hs : HasNoBlanks s) (ht : IsSolid t) :
    IsSolid (s ++ t) :=
  ⟨fun h => ht.ne_empty (String.append_eq_empty_iff.mp h).2, hasNoBlanks_append.mpr ⟨hs, ht.2⟩⟩

/-- A solid text before some without blanks. -/
theorem IsSolid.append_right {s t : String} (hs : IsSolid s) (ht : HasNoBlanks t) :
    IsSolid (s ++ t) :=
  ⟨fun h => hs.ne_empty (String.append_eq_empty_iff.mp h).1, hasNoBlanks_append.mpr ⟨hs.2, ht⟩⟩

/-- A solid text is trimmed. -/
theorem IsSolid.isTrimmed {s : String} (h : IsSolid s) : IsTrimmed s := by
  have hne : s.toList ≠ [] := by simpa using h.ne_empty
  exact ⟨⟨_, List.head_mem_head? hne, h.2 _ (List.head_mem hne)⟩,
    ⟨_, List.getLast_mem_getLast? hne, h.2 _ (List.getLast_mem hne)⟩⟩

/-- A text between two trimmed ones does not matter. -/
theorem IsTrimmed.append {s m t : String} (hs : IsTrimmed s) (ht : IsTrimmed t) :
    IsTrimmed (s ++ m ++ t) := by
  obtain ⟨c, hc, hblank⟩ := hs.first
  obtain ⟨c', hc', hblank'⟩ := ht.last
  refine ⟨⟨c, ?_, hblank⟩, ⟨c', ?_, hblank'⟩⟩
  · simp only [String.toList_append, List.head?_append, Option.mem_def] at hc ⊢
    simp [hc]
  · simp only [String.toList_append, List.getLast?_append, Option.mem_def] at hc' ⊢
    simp [hc']

/-- A trimmed text has a character. -/
theorem IsTrimmed.ne_empty {s : String} (h : IsTrimmed s) : s ≠ "" := by
  rintro rfl
  obtain ⟨c, hc, -⟩ := h.first
  cases hc

/-- **Taking blanks off the ends** of a trimmed text does nothing. -/
theorem IsTrimmed.trim {s : String} (h : IsTrimmed s) : trim s = s := by
  obtain ⟨c, hc, hblank⟩ := h.first
  obtain ⟨c', hc', hblank'⟩ := h.last
  have hfirst : s.toList.dropWhile isBlank = s.toList := by
    obtain ⟨rest, hrest⟩ := List.head?_eq_some_iff.mp hc
    rw [hrest, List.dropWhile_cons, hblank]
    rfl
  have hlast : s.toList.reverse.dropWhile isBlank = s.toList.reverse := by
    obtain ⟨rest, hrest⟩ := List.getLast?_eq_some_iff.mp hc'
    rw [hrest, List.reverse_append, List.reverse_singleton, List.singleton_append,
      List.dropWhile_cons, hblank']
    rfl
  rw [Text.trim, trimChars, hfirst, hlast, List.reverse_reverse, String.ofList_toList]

/-- Trimmed texts joined by commas are one. -/
theorem isTrimmed_intercalate {separator : String} {texts : List String} (hne : texts ≠ [])
    (h : ∀ s ∈ texts, IsTrimmed s) : IsTrimmed (separator.intercalate texts) := by
  induction texts with
  | nil => exact absurd rfl hne
  | cons s rest ih =>
      cases rest with
      | nil =>
          rw [String.intercalate_singleton]
          exact h s List.mem_cons_self
      | cons t rest =>
          rw [String.intercalate_cons_cons]
          exact (h s List.mem_cons_self).append
            (ih (List.cons_ne_nil _ _) fun u hu => h u (List.mem_cons_of_mem _ hu))

end Text

open Text

/-! ### Numbers -/

/-- A digit is no blank. -/
theorem isBlank_of_isDigit {c : Char} (h : c.isDigit = true) : isBlank c = false := by
  have hbounds : 48 ≤ c.toNat ∧ c.toNat ≤ 57 := by
    simpa [Char.isDigit, UInt32.le_iff_toNat_le] using h
  simp only [isBlank, Bool.or_eq_false_iff, Bool.and_eq_false_iff, decide_eq_false_iff_not]
  omega

/-- The digits of a whole number have no blanks, nor have some of them. -/
theorem hasNoBlanks_ofList {n : Nat} {ds : List Char} (h : ds ⊆ Nat.toDigits 10 n) :
    HasNoBlanks (String.ofList ds) := by
  intro c hc
  rw [String.toList_ofList] at hc
  exact isBlank_of_isDigit (Nat.isDigit_of_mem_toDigits (by decide) (by decide) (h hc))

/-- Zeros are no blanks. -/
theorem hasNoBlanks_zeros (n : Nat) : HasNoBlanks (zeros n) := by
  intro c hc
  rw [zeros, String.toList_ofList] at hc
  rw [List.eq_of_mem_replicate hc]
  rfl

/-- A natural number in digits is solid. -/
theorem isSolid_toString_nat (n : Nat) : IsSolid (toString n) := by
  have h : toString n = String.ofList (Nat.toDigits 10 n) := Nat.repr_eq_ofList_toDigits
  rw [h]
  exact ⟨by simp [Nat.toDigits_ne_nil], hasNoBlanks_ofList (List.Subset.refl _)⟩

/-- A whole number in digits is solid. -/
theorem isSolid_toString (n : Int) : IsSolid (toString n) := by
  cases n with
  | ofNat n => exact isSolid_toString_nat n
  | negSucc n => exact .append_left (by decide) (isSolid_toString_nat (n + 1))

/-- The exponent of scientific notation is solid. -/
theorem isSolid_exponentText (e : Int) : IsSolid (exponentText e) := by
  refine .append_left (hasNoBlanks_append.mpr ⟨?_, hasNoBlanks_zeros _⟩)
    (isSolid_toString_nat e.natAbs)
  split <;> decide

/-- The digits of a decimal number with a point in place are solid. -/
theorem isSolid_digits (d : Decimal) : IsSolid (Layout.standard.digits d) := by
  have hds : HasNoBlanks (String.ofList (Nat.toDigits 10 d.coefficient)) :=
    hasNoBlanks_ofList (List.Subset.refl _)
  have hne : String.ofList (Nat.toDigits 10 d.coefficient) ≠ "" := by
    simp [Nat.toDigits_ne_nil]
  have htake (n : Nat) : HasNoBlanks (String.ofList ((Nat.toDigits 10 d.coefficient).take n)) :=
    hasNoBlanks_ofList (List.take_subset _ _)
  have hdrop (n : Nat) : HasNoBlanks (String.ofList ((Nat.toDigits 10 d.coefficient).drop n)) :=
    hasNoBlanks_ofList (List.drop_subset _ _)
  have hpoint : IsSolid "." := by decide
  simp only [Layout.digits]
  split
  · split
    · exact .append_right (.append_right (by decide) (hasNoBlanks_zeros _)) hds
    · split
      · exact .append_right (.append_right ⟨hne, hds⟩ (hasNoBlanks_zeros _)) (by decide)
      · exact .append_right (.append_left (htake _) hpoint) (hdrop _)
  · refine .append_left (hasNoBlanks_append.mpr ⟨htake 1, ?_⟩) (isSolid_exponentText _)
    split
    · decide
    · exact hasNoBlanks_append.mpr ⟨hpoint.2, hdrop 1⟩

/-- The text of a float is solid. -/
theorem isSolid_floatText (x : Float) : IsSolid (floatText x) := by
  have hsign : HasNoBlanks (if isNegative x then "-" else "") := by
    split <;> decide
  unfold floatText writeFloat
  split
  · decide
  · dsimp only
    split
    · exact .append_left hsign (by decide)
    · split
      · exact .append_right (.append_left hsign (by decide)) (by decide)
      · exact .append_left hsign (isSolid_digits _)

/-- The text of a part is solid. -/
theorem isSolid_partText (x : Float) : IsSolid (Number.partText x) := by
  unfold Number.partText
  split
  · exact isSolid_toString _
  · exact isSolid_floatText x

/-- **The text of a number is solid.** -/
theorem isSolid_text (z : Number) : IsSolid z.text := by
  have himaginary : IsSolid (if z.im.abs == 1 then "i" else Number.partText z.im.abs ++ "i") := by
    split
    · decide
    · exact .append_left (isSolid_partText _).2 (by decide)
  unfold Number.text
  dsimp only
  split
  · exact isSolid_partText _
  · split
    · refine .append_left ?_ himaginary
      split <;> decide
    · refine .append_left (hasNoBlanks_append.mpr ⟨(isSolid_partText _).2, ?_⟩) himaginary
      split <;> decide

/-! ### Values -/

/-- Every name of a valid scope has a valid value. -/
theorem Scope.IsValid.get? {ok : Operand → Prop} {scope : Scope Operand}
    (h : scope.IsValid ok) {name : String} (hname : name ∈ sortedNames scope) :
    ∃ v, (Entries.get? scope name).join = some v ∧ v.IsValid ok := by
  obtain ⟨entry, hentry, rfl⟩ := List.mem_map.mp (List.mem_mergeSort.mp hname)
  have hfound : (scope.find? (·.1 == entry.1)).isSome :=
    List.find?_isSome.mpr ⟨entry, hentry, beq_self_eq_true _⟩
  obtain ⟨found, hfound⟩ := Option.isSome_iff_exists.mp hfound
  obtain ⟨v, hv, hvalid⟩ := h found (List.mem_of_find?_eq_some hfound)
  refine ⟨v, ?_, hvalid⟩
  rw [Entries.get?, hfound, Option.map_some, hv]
  rfl

section Shown

variable {n : Int} (hn : 0 ≤ n)

include hn

/-- A number can be shown, and its text is solid. -/
theorem showNumber_isSolid (z : Number) :
    Yields (fun _ => False) (fun shown => IsSolid shown.text) (showNumber (.count n) z) := by
  unfold showNumber
  split
  · exact (by decide : IsSolid "NaN")
  · simp only [Places.round, roundPart_eq_ok _ hn]
    exact isSolid_text _

/-- An operand that is a number can be shown. -/
theorem showOperand_isSolid {x : Operand} (hx : x.IsNumeric) :
    Yields (fun _ => False) (fun shown => IsSolid shown.text) (showOperand (.count n) x) := by
  obtain ⟨z, hz⟩ := hx
  cases x with
  | list items => cases hz
  | _ =>
      simp only [showOperand, hz]
      exact showNumber_isSolid hn z

/-- Numbers can be shown one by one. -/
theorem showItems_isSolid {items : List Operand} (h : ∀ x ∈ items, x.IsNumeric) :
    Yields (fun _ => False) (fun shown => shown.length = items.length ∧
      ∀ s ∈ shown, IsSolid s.text) (showItems (.count n) items) := by
  induction items with
  | nil => exact ⟨rfl, nofun⟩
  | cons x rest ih =>
      rw [showItems]
      refine (showOperand_isSolid hn (h x List.mem_cons_self)).bind fun first hfirst => ?_
      refine (ih fun y hy => h y (List.mem_cons_of_mem _ hy)).bind fun others hothers => ?_
      exact ⟨congrArg Nat.succ hothers.1, List.forall_mem_cons.mpr ⟨hfirst, hothers.2⟩⟩

/-- **A valid value can be shown**, and its text is trimmed. -/
theorem showValue_isTrimmed {v : Value Operand} (hv : v.IsValid Operand.IsNumeric) :
    Yields (fun _ => False) (fun shown => IsTrimmed shown.text) (showValue (.count n) v) := by
  cases v with
  | one x =>
      exact (showOperand_isSolid hn (hv.items x (List.mem_singleton.mpr rfl))).mono
        (fun _ => id) fun _ => IsSolid.isTrimmed
  | many items =>
      refine (showItems_isSolid hn hv.items).map fun shown hshown => ?_
      refine isTrimmed_intercalate ?_ ?_
      · intro hnil
        have hlength : shown.length = 0 := by simpa using congrArg List.length hnil
        exact hv.ne_nil (List.eq_nil_of_length_eq_zero (hshown.1.symm.trans hlength))
      · intro s hs
        obtain ⟨part, hpart, rfl⟩ := List.mem_map.mp hs
        exact (hshown.2 part hpart).isTrimmed

/-- **A valid scope can be shown.** -/
theorem exists_showScope {scope : Scope Operand} (h : scope.IsValid Operand.IsNumeric) :
    ∃ text, showScope (.count n) scope = .ok text := by
  have shown : Yields (fun _ => False) (fun _ => True) (showScope (.count n) scope) := by
    refine (Yields.mapM (Q := fun _ => True) fun name hname => ?_).bind fun _ _ => trivial
    obtain ⟨v, hv, hvalid⟩ := h.get? hname
    rw [hv]
    exact ((showValue_isTrimmed hn hvalid).mono (fun _ => id) fun _ _ => trivial).bind
      fun _ _ => trivial
  obtain ⟨text, htext, -⟩ := shown.exists_ok
  exact ⟨text, htext⟩

end Shown

/-- Without variables nothing is shown. -/
theorem showScope_nil (places : Places) : showScope places [] = .ok "" := by
  simp only [showScope, sortedNames, List.map_nil, List.mergeSort_nil, List.mapM_nil, pure_bind]
  rfl

end Argand
