import Argand.Proofs.Display.Snapping
import Argand.Proofs.Reports

/-!
# Exact display

A number is snapped, each of its parts is rounded, and what the parts were rounded to is snapped
again before it is written. If rounding changes no part, the second snapping has to give the number
back: equal floats are snapped alike, and snapping twice is snapping once. So the text of a value is
exact unless it is told that rounding changed some part of it.

This holds of lists in lists, too. The texts of all numbers are separated by commas in order, as if
there was one list; only a list without items among the others leaves an empty text between two
separators.

## Main definitions

* `Argand.Operand.IsNested`: numbers, and lists of them at any depth.
* `Argand.Operand.numbers`: the numbers in an operand, snapped.
* `Argand.Operand.exactTexts`: the texts of these numbers without rounding.
* `Argand.Operand.IsFilled`: no list among those in an operand is empty.

## Main results

* `Argand.Number.snap_of_beq`: a number with the parts of a snapped one is snapped to that.
* `Argand.showOperand_isShownBy`: what is shown of an operand, by induction on its lists.
* `Argand.showValue_exact`: a value that is not rounded is shown exactly.
-/

namespace Argand

/-! ### Numbers that rounding leaves as they are -/

/-- **Equal floats** are snapped alike. -/
theorem snapPart_eq_of_beq {x y : Float} (h : (x == y) = true) : snapPart x = snapPart y := by
  have hzero {z : Float} (hz : ∃ s, z.toModel.unpack = .zero s) : snapPart z = 0 := by
    obtain ⟨s, hs⟩ := hz
    obtain rfl | rfl := eq_zero_or_neg_zero hs <;> decide +kernel
  obtain ⟨rfl, -⟩ | ⟨hx, hy⟩ := float_beq_iff.mp h
  · rfl
  · rw [hzero hx, hzero hy]

namespace Number

/-- A number **with the parts of a snapped one** is snapped to that. -/
theorem snap_of_beq {z w : Number} (hz : z.IsSnapped) (hre : (w.re == z.re) = true)
    (him : (w.im == z.im) = true) : w.snap = z := by
  rw [← show z.snap = z from hz]
  unfold snap
  rw [snapPart_eq_of_beq hre, snapPart_eq_of_beq him]

/-- A number **as results show it without rounding**. -/
def exactText (z : Number) : String :=
  if z.isNaN then "NaN" else z.text

/-- A snapped number that rounding leaves as it is **is shown as it is**. -/
theorem text_of_not_rounded {places : Places} {z : Number} (hz : z.IsSnapped) {shown : Shown}
    (h : showNumber places z = .ok shown) (hrounded : shown.rounded = false) :
    shown.text = z.exactText := by
  obtain ⟨⟨hnan, htext⟩ | ⟨hnan, w, hw, htext⟩, hchanged⟩ := showNumber_spec h
  · rw [htext, exactText, if_pos hnan]
  · have hsame : (w.re != z.re || w.im != z.im) = false := by
      rw [Bool.eq_false_iff]
      intro hne
      rw [hchanged.mpr ⟨hnan, w, hw, hne⟩] at hrounded
      cases hrounded
    simp only [bne, Bool.or_eq_false_iff, Bool.not_eq_false'] at hsame
    rw [htext, exactText, hnan, if_neg Bool.false_ne_true, snap_of_beq hz hsame.1 hsame.2]

end Number

/-! ### Numbers in lists -/

namespace Operand

/-- An operand is a number, or a list of **such operands at any depth**. -/
inductive IsNested : Operand → Prop
  | number {x : Operand} (h : x.IsNumeric) : IsNested x
  | list {items : List Operand} (h : ∀ x ∈ items, x.IsNested) : IsNested (.list items)

/-- **No list is empty** among an operand and what it contains. -/
inductive IsFilled : Operand → Prop
  | number {x : Operand} (h : x.IsNumeric) : IsFilled x
  | list {items : List Operand} (hne : items ≠ []) (h : ∀ x ∈ items, x.IsFilled) :
    IsFilled (.list items)

mutual

/-- The **numbers** in an operand, snapped, in order. -/
def numbers : Operand → List Number
  | .list items => itemNumbers items
  | x => x.toNumber.toOption.toList

/-- The numbers in several operands. -/
def itemNumbers : List Operand → List Number
  | [] => []
  | x :: rest => numbers x ++ itemNumbers rest

end

mutual

/-- The **texts** of the numbers in an operand without rounding, in order; a list without items has
the empty text. -/
def exactTexts : Operand → List String
  | .list [] => [""]
  | .list items => itemTexts items
  | x => x.toNumber.toOption.toList.map Number.exactText

/-- The texts of several operands. -/
def itemTexts : List Operand → List String
  | [] => []
  | x :: rest => exactTexts x ++ itemTexts rest

end

theorem itemNumbers_eq (items : List Operand) : itemNumbers items = items.flatMap numbers := by
  induction items with
  | nil => rfl
  | cons x rest ih => rw [itemNumbers, ih, List.flatMap_cons]

theorem itemTexts_eq (items : List Operand) : itemTexts items = items.flatMap exactTexts := by
  induction items with
  | nil => rfl
  | cons x rest ih => rw [itemTexts, ih, List.flatMap_cons]

/-- The numbers of a list are those of its items. -/
@[simp] theorem numbers_list (items : List Operand) :
    (list items).numbers = items.flatMap numbers := by
  rw [numbers, itemNumbers_eq]

/-- The texts of a list with items are those of the items. -/
theorem exactTexts_list {items : List Operand} (hne : items ≠ []) :
    (list items).exactTexts = items.flatMap exactTexts := by
  obtain ⟨x, rest, rfl⟩ := List.exists_cons_of_ne_nil hne
  exact itemTexts_eq _

section Leaves

variable {x : Operand} {z : Number}

/-- An operand that is a number has just that. -/
theorem numbers_of_toNumber (h : x.toNumber = .ok z) : x.numbers = [z] := by
  cases x with
  | list items => cases h
  | _ => simp [numbers, h, Except.toOption]

theorem exactTexts_of_toNumber (h : x.toNumber = .ok z) : x.exactTexts = [z.exactText] := by
  cases x with
  | list items => cases h
  | _ => simp [exactTexts, h, Except.toOption]

/-- The number of an operand is snapped. -/
theorem isSnapped_of_toNumber (h : x.toNumber = .ok z) : z.IsSnapped := by
  cases x with
  | whole n =>
      obtain ⟨y, -, rfl⟩ := map_eq_ok.mp h
      exact Number.isSnapped_snap _
  | number w | pair w | real y =>
      obtain rfl := Except.ok.inj h
      exact Number.isSnapped_snap _
  | list items | other v => cases h

end Leaves

/-- An operand has a text, even if it has no number. -/
theorem IsNested.exactTexts_ne_nil {x : Operand} (h : x.IsNested) : x.exactTexts ≠ [] := by
  induction h with
  | number h =>
      obtain ⟨z, hz⟩ := h
      rw [exactTexts_of_toNumber hz]
      exact List.cons_ne_nil _ _
  | @list items h ih =>
      cases items with
      | nil => exact List.cons_ne_nil _ _
      | cons x rest =>
          rw [exactTexts_list (List.cons_ne_nil x rest), List.flatMap_cons]
          exact List.append_ne_nil_of_left_ne_nil (ih x List.mem_cons_self) _

/-- Without empty lists the texts are **those of the numbers**. -/
theorem IsFilled.exactTexts_eq {x : Operand} (h : x.IsFilled) :
    x.exactTexts = x.numbers.map Number.exactText := by
  induction h with
  | number h =>
      obtain ⟨z, hz⟩ := h
      rw [exactTexts_of_toNumber hz, numbers_of_toNumber hz]
      rfl
  | @list items hne h ih =>
      rw [exactTexts_list hne, numbers_list, List.map_flatMap]
      exact List.flatMap_congr ih

end Operand

/-! ### What is shown -/

/-- Separated texts of separated texts are **all of them, separated**. -/
theorem intercalate_flatMap {α : Type} (separator : String) {f : α → List String} {xs : List α}
    (h : ∀ x ∈ xs, f x ≠ []) : separator.intercalate (xs.flatMap f) =
      separator.intercalate (xs.map fun x => separator.intercalate (f x)) := by
  induction xs with
  | nil => rfl
  | cons x rest ih =>
      have hx := h x List.mem_cons_self
      have hrest : ∀ y ∈ rest, f y ≠ [] := fun y hy => h y (List.mem_cons_of_mem _ hy)
      rw [List.flatMap_cons, List.map_cons]
      cases rest with
      | nil => simp
      | cons y rest =>
          have hne : (y :: rest).flatMap f ≠ [] := by
            rw [List.flatMap_cons]
            exact List.append_ne_nil_of_left_ne_nil (hrest y List.mem_cons_self) _
          rw [String.intercalate_append_of_ne_nil hx hne, ih hrest,
            String.intercalate_cons_of_ne_nil (by simp)]

/-- What is **shown** of an operand: whether rounding changed some number in it, and if not, the
texts of its numbers. -/
structure Operand.IsShownBy (places : Places) (x : Operand) (shown : Shown) : Prop where
  rounded_iff : shown.rounded = true ↔ ∃ z ∈ x.numbers, z.ChangedBy places
  exact_text : shown.rounded = false → shown.text = ", ".intercalate x.exactTexts

section Shown

variable {places : Places}

/-- A shown number. -/
theorem isShownBy_of_showNumber {x : Operand} {z : Number} (hz : x.toNumber = .ok z) {shown : Shown}
    (h : showNumber places z = .ok shown) : x.IsShownBy places shown where
  rounded_iff := by
    rw [Operand.numbers_of_toNumber hz]
    simpa using (showNumber_spec h).2
  exact_text hrounded := by
    rw [Operand.exactTexts_of_toNumber hz, String.intercalate_singleton]
    exact Number.text_of_not_rounded (Operand.isSnapped_of_toNumber hz) h hrounded

/-- Shown items are **a shown list**. -/
theorem isShownBy_join {items : List Operand} (hitems : ∀ x ∈ items, x.IsNested)
    {parts : List Shown} (h : List.Forall₂ (Operand.IsShownBy places) items parts) :
    (Operand.list items).IsShownBy places (Shown.join parts) where
  rounded_iff := by
    rw [Operand.numbers_list]
    show parts.any (·.rounded) = true ↔ _
    clear hitems
    induction h with
    | nil => simp
    | cons hx _ ih =>
        rw [List.any_cons, Bool.or_eq_true, hx.rounded_iff, ih, List.flatMap_cons]
        simp only [List.mem_append, or_and_right, exists_or]
  exact_text hrounded := by
    have htexts : parts.map (·.text) = items.map fun x => ", ".intercalate x.exactTexts := by
      replace hrounded : parts.any (·.rounded) = false := hrounded
      clear hitems
      induction h with
      | nil => rfl
      | cons hx _ ih =>
          rw [List.any_cons, Bool.or_eq_false_iff] at hrounded
          rw [List.map_cons, List.map_cons, hx.exact_text hrounded.1, ih hrounded.2]
    show ", ".intercalate (parts.map (·.text)) = _
    rw [htexts]
    by_cases hne : items = []
    · subst hne
      rfl
    · rw [Operand.exactTexts_list hne]
      exact (intercalate_flatMap _ fun x hx => (hitems x hx).exactTexts_ne_nil).symm

/-- Items that are shown one by one. -/
theorem exists_showItems {items : List Operand}
    (h : ∀ x ∈ items, ∃ shown, showOperand places x = .ok shown ∧ x.IsShownBy places shown) :
    ∃ parts, showItems places items = .ok parts ∧
      List.Forall₂ (Operand.IsShownBy places) items parts := by
  induction items with
  | nil => exact ⟨[], rfl, .nil⟩
  | cons x rest ih =>
      obtain ⟨first, hfirst, hx⟩ := h x List.mem_cons_self
      obtain ⟨others, hothers, hrest⟩ := ih fun y hy => h y (List.mem_cons_of_mem _ hy)
      refine ⟨first :: others, ?_, .cons hx hrest⟩
      rw [showItems, hfirst, hothers]
      rfl

/-- **Numbers in lists can be shown** with any number of places after the point. The induction is on
the lists. -/
theorem showOperand_isShownBy {n : Int} (hn : 0 ≤ n) {x : Operand} (hx : x.IsNested) :
    ∃ shown, showOperand (.count n) x = .ok shown ∧ x.IsShownBy (.count n) shown := by
  induction hx with
  | number h =>
      obtain ⟨z, hz⟩ := h
      obtain ⟨shown, hshown, -⟩ := (showNumber_isSolid hn z).exists_ok
      exact ⟨shown, (showOperand_eq hz).trans hshown, isShownBy_of_showNumber hz hshown⟩
  | list h ih =>
      obtain ⟨parts, hparts, hall⟩ := exists_showItems ih
      exact ⟨Shown.join parts, map_eq_ok.mpr ⟨parts, hparts, rfl⟩, isShownBy_join h hall⟩

end Shown

/-- **An exact display is exact.** Numbers in lists of any depth can be shown with any number of
places after the point. It is told whether rounding changed a part of some number, other than NaN;
if it did not, the text is that of all numbers in order, separated by commas, with an empty text for
each list without items among the others. So if there is no such list, it is the texts of the
numbers and nothing else. -/
theorem showValue_exact {v : Value Operand} {n : Int} (hn : 0 ≤ n)
    (hv : ∀ x ∈ v.items, x.IsNested) : ∃ shown, showValue (.count n) v = .ok shown ∧
      (shown.rounded = true ↔ ∃ z ∈ v.items.flatMap Operand.numbers, z.ChangedBy (.count n)) ∧
      (shown.rounded = false →
        shown.text = ", ".intercalate (v.items.flatMap Operand.exactTexts)) ∧
      ((∀ x ∈ v.items, x.IsFilled) → v.items.flatMap Operand.exactTexts =
        (v.items.flatMap Operand.numbers).map Number.exactText) := by
  have hfilled : (∀ x ∈ v.items, x.IsFilled) → v.items.flatMap Operand.exactTexts =
      (v.items.flatMap Operand.numbers).map Number.exactText := fun h => by
    rw [List.map_flatMap]
    exact List.flatMap_congr fun x hx => (h x hx).exactTexts_eq
  cases v with
  | one x =>
      obtain ⟨shown, hshown, hrounded, htext⟩ :=
        showOperand_isShownBy hn (hv x (List.mem_singleton.mpr rfl))
      refine ⟨shown, hshown, ?_, ?_, hfilled⟩
      · simpa [Value.items] using hrounded
      · simpa [Value.items] using htext
  | many items =>
      obtain ⟨shown, hshown, hrounded, htext⟩ :=
        showOperand_isShownBy hn (Operand.IsNested.list hv)
      refine ⟨shown, hshown, ?_, fun h => (htext h).trans ?_, hfilled⟩
      · rwa [Operand.numbers_list] at hrounded
      · cases items with
        | nil => rfl
        | cons x rest => exact congrArg _ (Operand.exactTexts_list (List.cons_ne_nil x rest))

/-- Two numbers in a list, one of them NaN, and a number beside it are shown exactly. -/
theorem showValue_exact_nested :
    let v := Value.many [.list [.number Number.two, .number Number.nan], .number ⟨1.5, -2⟩]
    showValue (.count 4) v = .ok ⟨"2, NaN, 1.5-2i", false⟩ ∧
    "2, NaN, 1.5-2i" =
      ", ".intercalate ((v.items.flatMap Operand.numbers).map Number.exactText) := by
  intro v
  have hshown : showValue (.count 4) v = .ok ⟨"2, NaN, 1.5-2i", false⟩ := by decide +kernel
  have hnested : ∀ x ∈ v.items, x.IsNested := by
    simp only [v, Value.items, List.forall_mem_cons]
    refine ⟨.list ?_, .number ⟨_, rfl⟩, List.forall_mem_nil _⟩
    simp only [List.forall_mem_cons]
    exact ⟨.number ⟨_, rfl⟩, .number ⟨_, rfl⟩, List.forall_mem_nil _⟩
  have hfilled : ∀ x ∈ v.items, x.IsFilled := by
    simp only [v, Value.items, List.forall_mem_cons]
    refine ⟨.list (List.cons_ne_nil _ _) ?_, .number ⟨_, rfl⟩, List.forall_mem_nil _⟩
    simp only [List.forall_mem_cons]
    exact ⟨.number ⟨_, rfl⟩, .number ⟨_, rfl⟩, List.forall_mem_nil _⟩
  obtain ⟨shown, h, -, htext, htexts⟩ := showValue_exact (n := 4) (by decide) hnested
  obtain rfl := Except.ok.inj (h.symm.trans hshown)
  exact ⟨hshown, htexts hfilled ▸ htext rfl⟩

/-- **An empty list leaves an empty text.** Beside a number it is shown as a separator more than the
text of the one number there is. -/
theorem empty_list_shown :
    let v := Value.many [.list [], .number Number.one]
    showValue (.count 10) v = .ok ⟨", 1", false⟩ ∧
    ", ".intercalate ((v.items.flatMap Operand.numbers).map Number.exactText) = "1" := by
  decide +kernel

end Argand
