import Argand.Primitive
import Argand.Proofs.Digits
import Argand.Proofs.Tokens
import Mathlib.Data.List.TakeDrop
import Mathlib.Order.Bounds.Basic
import Mathlib.Tactic.FinCases
import Mathlib.Tactic.IntervalCases

/-!
# What the tokenizer accepts

A text is cut into tokens exactly if it has no **bad position**: a character that no formula has,
a point in a block of digits and points that a point begins, or the second point of a block that
a digit begins. The first bad position is the one a fault names. The tokens of any other text
tile it: they are slices of the text in order, and only blanks lie outside them.

All of this is said of positions in the text, without the scanner's state. The scanner reaches a
position with everything before it done, so each of its steps extends what it has tiled, and the
only thing it has to know about the past is that no block reaches over its position.

## Main definitions

* `Argand.IsBlock`: a maximal block of digits and points.
* `Argand.IsBad`: a bad position, of one of three kinds.
* `Argand.Fault.NamesBad`: the fault for a bad position.
* `Argand.Tiles`: tokens that tile a text from a position on.

## Main results

* `Argand.scans_ofChars`: one induction over the scanner, for texts with and without bad positions.
* `Argand.tokenize_tiles`: the tokens tile the text, or the first bad position is named.
-/

namespace Argand

/-! ### Blocks of digits and points -/

/-- There is a digit or a point at a position. -/
def NumeralAt (cs : List Char) (k : Nat) : Prop :=
  ∃ c ∈ cs[k]?, isNumeralChar c = true

/-- There is a digit at a position. -/
def DigitAt (cs : List Char) (k : Nat) : Prop :=
  ∃ c ∈ cs[k]?, Text.isAsciiDigit c = true

/-- A **block** from `start` to before `stop`: digits and points that no digit or point precedes
or follows. -/
structure IsBlock (cs : List Char) (start stop : Nat) : Prop where
  nonempty : start < stop
  numeral : ∀ k, start ≤ k → k < stop → NumeralAt cs k
  before : ∀ k, k + 1 = start → ¬ NumeralAt cs k
  after : ¬ NumeralAt cs stop

/-- The number of points from `start` to before `k`. -/
def pointsBetween (cs : List Char) (start k : Nat) : Nat :=
  ((cs.drop start).take (k - start)).count '.'

/-! ### Bad positions -/

/-- The characters that formulas have. -/
def isFormulaChar (c : Char) : Bool :=
  (bracketKind? c).isSome || isOperator c || isLetter c || c = 'π' || Text.isAsciiDigit c ||
    Text.isBlank c || c = '.'

/-- A position of a character that **no formula has**. -/
def IsForeign (cs : List Char) (i : Nat) : Prop :=
  ∃ c ∈ cs[i]?, isFormulaChar c = false

/-- A **stray** point: its block does not begin with a digit. -/
def IsStrayPoint (cs : List Char) (i : Nat) : Prop :=
  cs[i]? = some '.' ∧
    ∃ start stop, IsBlock cs start stop ∧ start ≤ i ∧ i < stop ∧ ¬ DigitAt cs start

/-- The **second** point of a block that begins with a digit. -/
def IsSecondPoint (cs : List Char) (i : Nat) : Prop :=
  cs[i]? = some '.' ∧ ∃ start stop, IsBlock cs start stop ∧ start ≤ i ∧ i < stop ∧
    DigitAt cs start ∧ pointsBetween cs start i = 1

/-- A **bad** position. -/
def IsBad (cs : List Char) (i : Nat) : Prop :=
  IsForeign cs i ∨ IsStrayPoint cs i ∨ IsSecondPoint cs i

/-- The fault that **names** a bad position: a second point with its block up to there, any other
with its character. -/
def Fault.NamesBad (cs : List Char) (i : Nat) (f : Fault) : Prop :=
  f.faultClass = .token ∧
    (IsSecondPoint cs i ∧ f.code? = some "3008" ∧ (∃ start stop, IsBlock cs start stop ∧
        start ≤ i ∧ i < stop ∧
        f = .secondPoint i (String.ofList ((cs.drop start).take (i + 1 - start)))) ∨
      ¬ IsSecondPoint cs i ∧ f.code? = some "3011" ∧ ∃ c ∈ cs[i]?, f = .unknownCharacter c i)

/-! ### Tilings -/

/-- The position after a token. -/
def Token.stop (t : Token) : Nat :=
  t.position + t.text.toList.length

/-- The shape of a **numeral**: digits, or digits and a point and maybe digits. -/
def IsPlainNumeral (cs : List Char) : Prop :=
  ∃ whole, whole ≠ [] ∧ (∀ c ∈ whole, Text.isAsciiDigit c = true) ∧
    (cs = whole ∨
      ∃ fraction, (∀ c ∈ fraction, Text.isAsciiDigit c = true) ∧ cs = whole ++ '.' :: fraction)

/-- A token that is a **tile** of a text: what the text has at its position. A number is a whole
block and can be read, any other token is one character of its kind. -/
structure Token.IsTile (cs : List Char) (t : Token) : Prop where
  nonempty : t.text.toList ≠ []
  slice : t.text.toList <+: cs.drop t.position
  block : t.kind = .number → IsBlock cs t.position t.stop
  plain : t.kind = .number → IsPlainNumeral t.text.toList
  reads : t.kind = .number → ∃ d, readNumeral? t.text.toList = some d
  single : t.kind ≠ .number → ∃ c, t.text.toList = [c] ∧ singleKind? c = some t.kind

/-- Tokens that **tile** a text from a position on: tiles that begin there or later and do not
overlap, with blanks only outside them. -/
structure Tiles (cs : List Char) (start : Nat) (tokens : List Token) : Prop where
  starts : ∀ t ∈ tokens, start ≤ t.position
  tile : ∀ t ∈ tokens, t.IsTile cs
  ordered : tokens.Pairwise fun t u => t.stop ≤ u.position
  blanks : ∀ k, start ≤ k → (∀ t ∈ tokens, ¬ (t.position ≤ k ∧ k < t.stop)) →
    ∀ c ∈ cs[k]?, Text.isBlank c = true

namespace Tiles

variable {cs : List Char} {start : Nat} {tokens : List Token}

/-- At the end of a text there is nothing to tile. -/
theorem nil (h : cs.length ≤ start) : Tiles cs start [] where
  starts t ht := absurd ht List.not_mem_nil
  tile t ht := absurd ht List.not_mem_nil
  ordered := List.Pairwise.nil
  blanks k hk _ c hc := by
    rw [List.getElem?_eq_none (h.trans hk)] at hc
    cases hc

/-- A token is laid before a tiling that begins where it ends. -/
theorem cons {t : Token} (htile : t.IsTile cs) (h : Tiles cs t.stop tokens) :
    Tiles cs t.position (t :: tokens) where
  starts u hu := by
    obtain rfl | hu := List.mem_cons.mp hu
    · exact le_rfl
    · exact (Nat.le_add_right _ _).trans (h.starts u hu)
  tile u hu := by
    obtain rfl | hu := List.mem_cons.mp hu
    · exact htile
    · exact h.tile u hu
  ordered := List.Pairwise.cons h.starts h.ordered
  blanks k hk hout c hc := by
    have hstop : t.stop ≤ k := by
      by_contra hlt
      exact hout t List.mem_cons_self ⟨hk, by omega⟩
    exact h.blanks k hstop (fun u hu => hout u (List.mem_cons_of_mem _ hu)) c hc

/-- A blank is passed over. -/
theorem skip {c : Char} (hc : cs[start]? = some c) (hblank : Text.isBlank c = true)
    (h : Tiles cs (start + 1) tokens) : Tiles cs start tokens where
  starts t ht := (Nat.le_succ _).trans (h.starts t ht)
  tile := h.tile
  ordered := h.ordered
  blanks k hk hout c' hc' := by
    obtain rfl | hlt := Nat.eq_or_lt_of_le hk
    · rw [hc] at hc'
      obtain rfl := Option.some.inj hc'
      exact hblank
    · exact h.blanks k hlt hout c' hc'

end Tiles

/-! ### Characters -/

/-- Digits and points are no tokens of their own and no blanks. -/
theorem singleKind?_of_isNumeralChar {c : Char} (h : isNumeralChar c = true) :
    singleKind? c = none ∧ Text.isBlank c = false := by
  rw [isNumeralChar, Bool.or_eq_true, decide_eq_true_eq] at h
  obtain h | rfl := h
  · have hc := mem_digits h
    fin_cases hc <;> decide
  · decide

/-- A character that is a token, a digit, a blank or a point is one that formulas have. -/
theorem isFormulaChar_iff {c : Char} :
    isFormulaChar c = true ↔
      (singleKind? c).isSome = true ∨ Text.isAsciiDigit c = true ∨ Text.isBlank c = true ∨
        c = '.' := by
  rw [singleKind?]
  cases hbracket : bracketKind? c with
  | some kind => simp [isFormulaChar, hbracket]
  | none =>
      by_cases hoperator : isOperator c = true
      · simp [isFormulaChar, hbracket, hoperator]
      by_cases hletter : isLetter c = true
      · by_cases hconstant : isConstant c = true <;>
          simp [isFormulaChar, hbracket, hoperator, hletter, hconstant]
      · by_cases hpi : c = 'π'
        · subst hpi
          decide
        · have hconstant : isConstant c = false := by
            by_contra hc
            rw [Bool.not_eq_false, isConstant, Bool.or_eq_true, Bool.or_eq_true, decide_eq_true_eq,
              decide_eq_true_eq, decide_eq_true_eq] at hc
            obtain (rfl | rfl) | rfl := hc
            · exact hletter rfl
            · exact hletter rfl
            · exact hpi rfl
          simp [isFormulaChar, hbracket, hoperator, hletter, hconstant, hpi, or_assoc]

/-! ### The scanner of numerals -/

/-- The scanner finds **the second point**: one with a single point before it, counted with the
one it has seen. It finds none if there is at most one. -/
theorem secondPoint?_spec (seen : Bool) (index : Nat) (cs : List Char) :
    (∃ n, secondPoint? seen index cs = some (index + n) ∧ cs[n]? = some '.' ∧
        seen.toNat + (cs.take n).count '.' = 1) ∨
      secondPoint? seen index cs = none ∧ seen.toNat + cs.count '.' ≤ 1 := by
  induction cs generalizing seen index with
  | nil => exact .inr ⟨rfl, by cases seen <;> decide⟩
  | cons c rest ih =>
      rw [secondPoint?]
      by_cases hc : c = '.'
      · subst hc
        rw [if_pos rfl]
        cases seen with
        | true => exact .inl ⟨0, rfl, rfl, rfl⟩
        | false =>
            obtain ⟨n, hfound, hpoint, hcount⟩ | ⟨hnone, hcount⟩ := ih true (index + 1)
            · refine .inl ⟨n + 1, ?_, by simpa using hpoint, ?_⟩
              · rw [if_neg Bool.false_ne_true, hfound, Nat.add_right_comm, Nat.add_assoc]
              · rw [List.take_succ_cons, List.count_cons_self]
                simpa [Nat.add_comm] using hcount
            · refine .inr ⟨by rw [if_neg Bool.false_ne_true, hnone], ?_⟩
              rw [List.count_cons_self]
              simpa [Nat.add_comm] using hcount
      · rw [if_neg hc]
        obtain ⟨n, hfound, hpoint, hcount⟩ | ⟨hnone, hcount⟩ := ih seen (index + 1)
        · refine .inl ⟨n + 1, ?_, by simpa using hpoint, ?_⟩
          · rw [hfound, Nat.add_right_comm, Nat.add_assoc]
          · rwa [List.take_succ_cons, List.count_cons_of_ne hc]
        · exact .inr ⟨hnone, by rwa [List.count_cons_of_ne hc]⟩

/-- Digits and points that a digit begins, with at most one point, have the shape of a numeral. -/
theorem isPlainNumeral_of_count_le {c : Char} {cs : List Char}
    (hdigit : Text.isAsciiDigit c = true) (hall : ∀ d ∈ cs, isNumeralChar d = true)
    (hcount : cs.count '.' ≤ 1) : IsPlainNumeral (c :: cs) := by
  have digit_of : ∀ d ∈ cs, d ≠ '.' → Text.isAsciiDigit d = true := by
    intro d hd hne
    simpa [isNumeralChar, hne] using hall d hd
  by_cases hpoint : '.' ∈ cs
  · obtain ⟨whole, fraction, rfl⟩ := List.append_of_mem hpoint
    rw [List.count_append, List.count_cons_self] at hcount
    have hwhole : '.' ∉ whole := List.count_eq_zero.mp (by omega)
    have hfraction : '.' ∉ fraction := List.count_eq_zero.mp (by omega)
    refine ⟨c :: whole, List.cons_ne_nil _ _, ?_, .inr ⟨fraction, ?_, rfl⟩⟩
    · intro d hd
      obtain rfl | hd := List.mem_cons.mp hd
      · exact hdigit
      · exact digit_of d (List.mem_append_left _ hd) fun h => hwhole (h ▸ hd)
    · intro d hd
      exact digit_of d (by simp [hd]) fun h => hfraction (h ▸ hd)
  · refine ⟨c :: cs, List.cons_ne_nil _ _, ?_, .inl rfl⟩
    intro d hd
    obtain rfl | hd := List.mem_cons.mp hd
    · exact hdigit
    · exact digit_of d hd fun h => hpoint (h ▸ hd)

/-- **A numeral can be read.** -/
theorem exists_readNumeral? {cs : List Char} (h : IsPlainNumeral cs) :
    ∃ d, readNumeral? cs = some d := by
  obtain ⟨whole, hne, hwhole, hcs⟩ := h
  obtain ⟨c, whole, rfl⟩ := List.exists_cons_of_ne_nil hne
  have hsign : readSign cs = (false, cs) := by
    obtain rfl | ⟨fraction, -, rfl⟩ := hcs <;>
      exact readSign_of_isAsciiDigit (hwhole c List.mem_cons_self)
  rw [readNumeral?, hsign]
  simp only [readUnsigned?]
  obtain rfl | ⟨fraction, hfraction, rfl⟩ := hcs
  · rw [span_isAsciiDigit_all hwhole]
    simp [readFraction, readExponent?]
  · rw [span_isAsciiDigit hwhole (by simp; decide)]
    simp only [readFraction, span_isAsciiDigit_all hfraction]
    simp [readExponent?]

/-! ### Positions -/

section Positions

variable {cs rest : List Char} {start stop i k : Nat}

/-- What stands at a position of what is left. -/
theorem getElem?_of_drop_eq (h : cs.drop start = rest) (n : Nat) :
    cs[start + n]? = rest[n]? := by
  rw [← h, List.getElem?_drop]

/-- What is left after one more character. -/
theorem drop_succ_of_drop_eq {c : Char} (h : cs.drop start = c :: rest) :
    cs.drop (start + 1) = rest := by
  rw [← List.drop_drop, h, List.drop_one, List.tail_cons]

/-- Some of the points of a text stand before a point of it. -/
theorem count_take_lt {n : Nat} (h : rest[n]? = some '.') :
    (rest.take n).count '.' < rest.count '.' := by
  have hsplit : rest.count '.' = (rest.take (n + 1) ++ rest.drop (n + 1)).count '.' := by
    rw [List.take_append_drop]
  rw [hsplit, List.count_append, List.take_add_one, h, List.count_append]
  simp
  omega

/-- **Blocks do not overlap.** -/
theorem IsBlock.unique {start' stop' : Nat} (h : IsBlock cs start stop)
    (h' : IsBlock cs start' stop') (hk : start ≤ k ∧ k < stop) (hk' : start' ≤ k ∧ k < stop') :
    start = start' ∧ stop = stop' := by
  refine ⟨?_, ?_⟩
  · by_contra hne
    obtain hlt | hlt := Nat.lt_or_gt_of_ne hne
    · exact h'.before (start' - 1) (by omega) (h.numeral _ (by omega) (by omega))
    · exact h.before (start - 1) (by omega) (h'.numeral _ (by omega) (by omega))
  · by_contra hne
    obtain hlt | hlt := Nat.lt_or_gt_of_ne hne
    · exact h.after (h'.numeral _ (by omega) (by omega))
    · exact h'.after (h.numeral _ (by omega) (by omega))

/-- **No block reaches over** a position. -/
def IsBoundary (cs : List Char) (start : Nat) : Prop :=
  ∀ k, k + 1 = start → NumeralAt cs k → ¬ NumeralAt cs start

/-- No block reaches over the position after another character than a digit or point. -/
theorem isBoundary_succ {c : Char} (hc : cs[start]? = some c) (h : isNumeralChar c = false) :
    IsBoundary cs (start + 1) := by
  rintro k hk ⟨d, hd, hnumeral⟩
  obtain rfl := Nat.succ_injective hk
  obtain rfl := Option.some.inj (hc.symm.trans hd)
  rw [h] at hnumeral
  cases hnumeral

/-- Where no block reaches over, the longest run of digits and points is a block. -/
theorem isBlock_takeWhile {c : Char} (hrest : cs.drop start = c :: rest)
    (hc : isNumeralChar c = true) (hstart : IsBoundary cs start) :
    IsBlock cs start (start + ((c :: rest).takeWhile isNumeralChar).length) := by
  have hget := getElem?_of_drop_eq hrest
  have hat : NumeralAt cs start := ⟨c, hget 0, hc⟩
  set block := (c :: rest).takeWhile isNumeralChar with hblock
  have hsplit : c :: rest = block ++ (c :: rest).dropWhile isNumeralChar :=
    List.takeWhile_append_dropWhile.symm
  refine ⟨?_, ?_, fun k hk hnumeral => hstart k hk hnumeral hat, ?_⟩
  · rw [hblock, List.takeWhile_cons_of_pos hc]
    simp
  · intro k hk hlt
    obtain ⟨n, rfl⟩ := Nat.exists_eq_add_of_le hk
    have hn : n < block.length := by omega
    refine ⟨block[n], ?_, List.all_eq_true.mp List.all_takeWhile _ (List.getElem_mem hn)⟩
    rw [hget, hsplit, List.getElem?_append_left hn, List.getElem?_eq_getElem hn]
    exact rfl
  · rintro ⟨d, hd, hnumeral⟩
    rw [hget, hsplit, List.getElem?_append_right le_rfl, Nat.sub_self] at hd
    have hhead := List.head?_dropWhile_not isNumeralChar (c :: rest)
    rw [List.head?_eq_getElem?, hd] at hhead
    simp [hnumeral] at hhead

/-! ### Positions that are not bad -/

/-- Another character than a point is not bad if formulas have it. -/
theorem not_isBad_of_ne_point {c : Char} (hc : cs[k]? = some c) (hknown : isFormulaChar c = true)
    (hne : c ≠ '.') : ¬ IsBad cs k := by
  have hpoint : cs[k]? ≠ some '.' := by
    rw [hc]
    exact fun h => hne (Option.some.inj h)
  rintro (⟨d, hd, hforeign⟩ | hstray | hsecond)
  · rw [hc] at hd
    obtain rfl := Option.some.inj hd
    rw [hknown] at hforeign
    cases hforeign
  · exact hpoint hstray.1
  · exact hpoint hsecond.1

/-- In a block that a digit begins, only a second point is bad. -/
theorem IsBlock.not_isBad (h : IsBlock cs start stop) (hdigit : DigitAt cs start)
    (hk : start ≤ k ∧ k < stop) (hpoint : cs[k]? = some '.' → pointsBetween cs start k ≠ 1) :
    ¬ IsBad cs k := by
  obtain ⟨c, hc, hnumeral⟩ := h.numeral k hk.1 hk.2
  by_cases hne : c = '.'
  · subst hne
    rintro (⟨d, hd, hforeign⟩ | ⟨-, start', stop', h', hlo, hhi, hnot⟩ |
      ⟨-, start', stop', h', hlo, hhi, -, hcount⟩)
    · obtain rfl := Option.some.inj (hc.symm.trans hd)
      cases hforeign
    · obtain ⟨rfl, -⟩ := h.unique h' hk ⟨hlo, hhi⟩
      exact hnot hdigit
    · obtain ⟨rfl, -⟩ := h.unique h' hk ⟨hlo, hhi⟩
      exact hpoint hc hcount
  · refine not_isBad_of_ne_point hc (isFormulaChar_iff.mpr (.inr (.inl ?_))) hne
    simpa [isNumeralChar, hne] using hnumeral

/-- Up to a place with at most one point before it, no position of such a block is bad. -/
theorem IsBlock.not_isBad_of_count_le (h : IsBlock cs start stop) (hdigit : DigitAt cs start)
    {m : Nat} (hm : start + m ≤ stop) (hcount : ((cs.drop start).take m).count '.' ≤ 1)
    (hlo : start ≤ k) (hhi : k < start + m) : ¬ IsBad cs k := by
  obtain ⟨n, rfl⟩ := Nat.exists_eq_add_of_le hlo
  have hn : n < m := Nat.lt_of_add_lt_add_left hhi
  refine h.not_isBad hdigit ⟨hlo, hhi.trans_le hm⟩ fun hpoint => ?_
  rw [← List.getElem?_drop] at hpoint
  have hless : (((cs.drop start).take m).take n).count '.' <
      ((cs.drop start).take m).count '.' :=
    count_take_lt (by rwa [List.getElem?_take_of_lt hn])
  rw [List.take_take, Nat.min_eq_left hn.le] at hless
  rw [pointsBetween, Nat.add_sub_cancel_left]
  omega

/-- A point that no block reaches is stray, and no second point. -/
theorem isStrayPoint_of_isBoundary (hrest : cs.drop start = '.' :: rest)
    (hstart : IsBoundary cs start) : IsStrayPoint cs start ∧ ¬ IsSecondPoint cs start := by
  have hc : cs[start]? = some '.' := getElem?_of_drop_eq hrest 0
  have his := isBlock_takeWhile hrest rfl hstart
  have hnot : ¬ DigitAt cs start := by
    rintro ⟨d, hd, hdigit⟩
    obtain rfl := Option.some.inj (hc.symm.trans hd)
    cases hdigit
  refine ⟨⟨hc, start, _, his, le_rfl, his.nonempty, hnot⟩, ?_⟩
  rintro ⟨-, start', stop', h', hlo, hhi, hdigit, -⟩
  obtain ⟨rfl, -⟩ := his.unique h' ⟨le_rfl, his.nonempty⟩ ⟨hlo, hhi⟩
  exact hnot hdigit

end Positions

/-! ### The scanner -/

/-- The **first bad position** from a position on: it is bad, and none before it is. -/
structure IsFirstBad (cs : List Char) (start i : Nat) : Prop where
  from_start : start ≤ i
  bad : IsBad cs i
  first : ∀ k, start ≤ k → k < i → ¬ IsBad cs k

/-- What the scanner **yields** from a position on: a tiling of the rest, which has no bad
position, or the fault of its first bad position. -/
def Scans (cs : List Char) (start : Nat) : Except Fault (List Token) → Prop :=
  Yields (fun f => ∃ i, IsFirstBad cs start i ∧ f.NamesBad cs i)
    fun tokens => (∀ k, start ≤ k → ¬ IsBad cs k) ∧ Tiles cs start tokens

/-- **A step of the scanner**: over positions none of which is bad, with what it makes of the
tiling of the rest. -/
theorem Scans.step {cs : List Char} {start stop : Nat} {x : Except Fault (List Token)}
    (g : List Token → List Token) (h : Scans cs stop x)
    (hle : start ≤ stop) (hclean : ∀ k, start ≤ k → k < stop → ¬ IsBad cs k)
    (hg : ∀ tokens, Tiles cs stop tokens → Tiles cs start (g tokens)) :
    Scans cs start (x >>= fun tokens => pure (g tokens)) := by
  refine (h.mono ?_ fun _ => id).bind ?_
  · rintro f ⟨i, hi, hnames⟩
    refine ⟨i, ⟨hle.trans hi.from_start, hi.bad, fun k hk hlt => ?_⟩, hnames⟩
    obtain hbefore | hafter := Nat.lt_or_ge k stop
    · exact hclean k hk hbefore
    · exact hi.first k hafter hlt
  · rintro tokens ⟨hrest, htiles⟩
    refine ⟨fun k hk => ?_, hg tokens htiles⟩
    obtain hbefore | hafter := Nat.lt_or_ge k stop
    · exact hclean k hk hbefore
    · exact hrest k hafter

/-- A token of one character is a tile. -/
theorem isTile_single {cs rest : List Char} {start : Nat} {c : Char} {kind : TokenKind}
    (hrest : cs.drop start = c :: rest) (hkind : singleKind? c = some kind) :
    Token.IsTile cs ⟨kind, c.toString, start⟩ := by
  have hne : kind ≠ .number := by
    rintro rfl
    obtain ⟨b, hb | hb⟩ | ⟨hb, -⟩ | ⟨hb, -⟩ | ⟨hb, -⟩ := singleKind?_eq_some hkind <;> cases hb
  have htext : c.toString.toList = [c] := by simp [Char.toString]
  exact {
    nonempty := by simp
    slice := by simp [hrest]
    block := fun h => absurd h hne
    plain := fun h => absurd h hne
    reads := fun h => absurd h hne
    single := fun _ => ⟨c, htext, hkind⟩ }

/-- A block with at most one point, which a digit begins, is a tile. -/
theorem isTile_block {cs rest block : List Char} {start : Nat} {c : Char}
    (hrest : cs.drop start = c :: rest) (hdigit : Text.isAsciiDigit c = true)
    (hblock : block = (c :: rest).takeWhile isNumeralChar)
    (his : IsBlock cs start (start + block.length)) (hcount : block.count '.' ≤ 1) :
    Token.IsTile cs ⟨.number, String.ofList block, start⟩ := by
  have hc : isNumeralChar c = true := by rw [isNumeralChar, hdigit, Bool.true_or]
  have hcons : block = c :: rest.takeWhile isNumeralChar := by
    rw [hblock, List.takeWhile_cons_of_pos hc]
  have hplain : IsPlainNumeral block := by
    rw [hcons] at hcount ⊢
    refine isPlainNumeral_of_count_le hdigit (List.all_eq_true.mp List.all_takeWhile) ?_
    exact (List.count_le_count_cons).trans hcount
  exact {
    nonempty := by simp [hcons]
    slice := by
      rw [String.toList_ofList, hrest, hblock]
      exact List.takeWhile_prefix _
    block := fun _ => by simpa [Token.stop] using his
    plain := fun _ => by simpa using hplain
    reads := fun _ => by simpa using exists_readNumeral? hplain
    single := fun h => absurd rfl h }

/-- **The scanner of numerals** gives a block that is a tile and has no bad position, or names the
second point of the block. -/
theorem yields_scanNumeral {cs rest : List Char} {start : Nat} {c : Char}
    (hrest : cs.drop start = c :: rest) (hdigit : Text.isAsciiDigit c = true)
    (hstart : IsBoundary cs start) :
    Yields (fun f => ∃ i, IsFirstBad cs start i ∧ f.NamesBad cs i)
      (fun block => Token.IsTile cs ⟨.number, String.ofList block, start⟩ ∧
        cs.drop (start + block.length) = rest.dropWhile isNumeralChar ∧
        IsBoundary cs (start + block.length) ∧
        ∀ k, start ≤ k → k < start + block.length → ¬ IsBad cs k)
      (scanNumeral start (c :: rest)) := by
  have hnumeral : isNumeralChar c = true := by rw [isNumeralChar, hdigit, Bool.true_or]
  have hat : DigitAt cs start := ⟨c, getElem?_of_drop_eq hrest 0, hdigit⟩
  have his := isBlock_takeWhile hrest hnumeral hstart
  have hsplit :
      (c :: rest).takeWhile isNumeralChar ++ rest.dropWhile isNumeralChar = c :: rest := by
    rw [← List.dropWhile_cons_of_pos (p := isNumeralChar) (l := rest) hnumeral,
      List.takeWhile_append_dropWhile]
  rw [scanNumeral]
  generalize hblock : (c :: rest).takeWhile isNumeralChar = block at *
  have htake : ∀ n ≤ block.length, (cs.drop start).take n = block.take n := by
    intro n hn
    rw [hrest, ← hsplit, List.take_append_of_le_length hn]
  have hclean : ∀ m ≤ block.length, (block.take m).count '.' ≤ 1 →
      ∀ k, start ≤ k → k < start + m → ¬ IsBad cs k := by
    intro m hm hcount k hlo hhi
    refine his.not_isBad_of_count_le hat (Nat.add_le_add_left hm _) ?_ hlo hhi
    rwa [htake m hm]
  obtain ⟨n, hfound, hpoint, hcount⟩ | ⟨hnone, hcount⟩ := secondPoint?_spec false 0 block
  · have hn : n < block.length := (List.getElem?_eq_some_iff.mp hpoint).1
    rw [Bool.toNat_false, Nat.zero_add] at hcount
    rw [Nat.zero_add] at hfound
    have hin : start ≤ start + n ∧ start + n < start + block.length := by omega
    have hchar : cs[start + n]? = some '.' := by
      rwa [getElem?_of_drop_eq hrest, ← hsplit, List.getElem?_append_left hn]
    have hsecond : IsSecondPoint cs (start + n) := by
      refine ⟨hchar, start, _, his, hin.1, hin.2, hat, ?_⟩
      rw [pointsBetween, Nat.add_sub_cancel_left, htake n hn.le, hcount]
    simp only [hfound]
    refine ⟨start + n, ⟨hin.1, .inr (.inr hsecond), hclean n hn.le hcount.le⟩, rfl, ?_⟩
    refine .inl ⟨hsecond, rfl, start, _, his, hin.1, hin.2, ?_⟩
    rw [Nat.add_assoc, Nat.add_sub_cancel_left, htake (n + 1) hn]
  · rw [Bool.toNat_false, Nat.zero_add] at hcount
    simp only [hnone]
    refine ⟨isTile_block hrest hdigit hblock.symm his hcount, ?_, ?_, ?_⟩
    · rw [← List.drop_drop, hrest, ← hsplit, List.drop_left]
    · exact fun k _ _ => his.after
    · exact hclean block.length le_rfl (by rwa [List.take_length])

/-- **The scanner tiles what is left or names the first bad position of it.** The induction is on
the scanner; all that a position owes to the characters before it is that no block reaches over
it. -/
theorem scans_ofChars (cs : List Char) (start : Nat) (rest : List Char)
    (hrest : cs.drop start = rest) (hstart : IsBoundary cs start) :
    Scans cs start (Token.ofChars start rest) := by
  induction start, rest using Token.ofChars.induct with
  | case1 start =>
      have hend : cs.length ≤ start := List.drop_eq_nil_iff.mp hrest
      rw [Token.ofChars]
      refine ⟨fun k hk hbad => ?_, Tiles.nil hend⟩
      have hnone : cs[k]? = none := List.getElem?_eq_none (hend.trans hk)
      obtain ⟨c, hc, -⟩ | ⟨hc, -⟩ | ⟨hc, -⟩ := hbad <;> rw [hnone] at hc <;> cases hc
  | case2 start c rest kind hkind ih =>
      have hc : cs[start]? = some c := getElem?_of_drop_eq hrest 0
      have hnumeral : isNumeralChar c = false := Bool.eq_false_iff.mpr fun h => by
        rw [(singleKind?_of_isNumeralChar h).1] at hkind
        cases hkind
      rw [Token.ofChars]
      simp only [hkind]
      refine Scans.step (⟨kind, c.toString, start⟩ :: ·)
        (ih (drop_succ_of_drop_eq hrest) (isBoundary_succ hc hnumeral)) (Nat.le_succ start) ?_ ?_
      · intro k hk hlt
        obtain rfl : k = start := by omega
        refine not_isBad_of_ne_point hc (isFormulaChar_iff.mpr (.inl ?_)) ?_
        · rw [hkind, Option.isSome_some]
        · rintro rfl
          cases hnumeral
      · intro tokens htiles
        refine Tiles.cons (isTile_single hrest hkind) ?_
        simpa [Token.stop] using htiles
  | case3 start c rest hkind hdigit ih =>
      rw [Token.ofChars]
      simp only [hkind, hdigit, if_true]
      refine (yields_scanNumeral hrest hdigit hstart).bind ?_
      rintro block ⟨htile, hafter, hboundary, hclean⟩
      refine Scans.step (⟨.number, String.ofList block, start⟩ :: ·) (ih block hafter hboundary)
        (Nat.le_add_right _ _) hclean ?_
      intro tokens htiles
      refine Tiles.cons htile ?_
      simpa [Token.stop] using htiles
  | case4 start c rest hkind hdigit hblank ih =>
      have hc : cs[start]? = some c := getElem?_of_drop_eq hrest 0
      have hnumeral : isNumeralChar c = false := Bool.eq_false_iff.mpr fun h => by
        rw [(singleKind?_of_isNumeralChar h).2] at hblank
        cases hblank
      rw [Token.ofChars]
      simp only [hkind, hdigit, hblank, if_true]
      have hstep := Scans.step id (ih (drop_succ_of_drop_eq hrest) (isBoundary_succ hc hnumeral))
        (Nat.le_succ start) ?_ fun tokens => Tiles.skip hc hblank
      · simpa using hstep
      · intro k hk hlt
        obtain rfl : k = start := by omega
        refine not_isBad_of_ne_point hc (isFormulaChar_iff.mpr (.inr (.inr (.inl hblank)))) ?_
        rintro rfl
        cases hnumeral
  | case5 start c rest hkind hdigit hblank =>
      have hc : cs[start]? = some c := getElem?_of_drop_eq hrest 0
      rw [Token.ofChars]
      simp only [hkind, hdigit, hblank]
      have hnames : IsBad cs start ∧ ¬ IsSecondPoint cs start := by
        by_cases hne : c = '.'
        · subst hne
          obtain ⟨hstray, hsecond⟩ := isStrayPoint_of_isBoundary hrest hstart
          exact ⟨.inr (.inl hstray), hsecond⟩
        · refine ⟨.inl ⟨c, hc, Bool.eq_false_iff.mpr fun h => ?_⟩, fun h => ?_⟩
          · simp [isFormulaChar_iff, hkind, hdigit, hblank, hne] at h
          · exact hne (Option.some.inj (hc.symm.trans h.1))
      refine ⟨start, ⟨le_rfl, hnames.1, fun k hk hlt => absurd hk (by omega)⟩, rfl, ?_⟩
      exact .inr ⟨hnames.2, rfl, c, hc, rfl⟩

/-- The tokens of a text tile it, and its fault names its first bad position. -/
theorem scans_tokenize (source : String) : Scans source.toList 0 (tokenize source) :=
  scans_ofChars source.toList 0 source.toList rfl fun k hk => by omega

/-- **A text has tokens that tile it, or its first bad position is named.** A text without bad
positions has tokens: they tile it, so they are its numbers, which can all be read, and its other
characters, one by one, with blanks between them. Otherwise the fault is that of the first bad
position. -/
theorem tokenize_tiles (source : String) :
    (∀ i, ¬ IsBad source.toList i) ∧
        (∃ tokens, tokenize source = .ok tokens ∧ Tiles source.toList 0 tokens) ∨
      ∃ i f, IsLeast {k | IsBad source.toList k} i ∧ tokenize source = .error f ∧
        f.NamesBad source.toList i := by
  have hscans := scans_tokenize source
  cases hx : tokenize source with
  | ok tokens =>
      rw [hx] at hscans
      obtain ⟨hclean, htiles⟩ := hscans
      exact .inl ⟨fun i => hclean i (Nat.zero_le i), tokens, rfl, htiles⟩
  | error f =>
      rw [hx] at hscans
      obtain ⟨i, hi, hnames⟩ := hscans
      refine .inr ⟨i, f, ⟨hi.bad, fun k hk => ?_⟩, rfl, hnames⟩
      by_contra hlt
      exact hi.first k (Nat.zero_le k) (Nat.lt_of_not_le hlt) hk

/-- A stray point comes before the second point of a later block. -/
example : tokenize "1.5 + .2 - 3.4.5" = .error (.unknownCharacter '.' 6) := by decide +kernel

end Argand
