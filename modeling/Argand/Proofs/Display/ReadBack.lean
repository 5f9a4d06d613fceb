import Argand.Proofs.Answer
import Argand.Proofs.Display.Snapping
import Argand.Proofs.Grammar.Printing
import Argand.Proofs.Grammar.Spelling

/-!
# Shown numbers are read back

A number is shown as a sum of its real part and a product of its imaginary part with the unit `i`,
without an operator between them. A text denotes a number if its tokens are read as a formula whose
value is the number: a numeral denotes its float, a minus sign gives the negative, a unit behind a
text the imaginary number, and an operator of sums between two texts their sum or difference. On
snapped numbers none of these rounds. So the text of a number, which is composed of these pieces,
denotes the number, unless a part is so small that its digits have an exponent.

## Main definitions

* `Argand.IsCut`: a text that is cut into tokens with a property, wherever it stands.
* `Argand.Denotes`: a text whose tokens are a formula for a number.
* `Argand.IsLegible`: a part whose text denotes it.

## Main results

* `Argand.denotes_text`: the text of a number with legible parts denotes the number.
* `Argand.evaluate_text`: a shown number is evaluated to the number.
* `Argand.evaluate_text_exponent`: but not if a part is shown with an exponent.
-/

namespace Argand

open Float.Model Float.Model.UnpackedFloat

variable {α : Type} {A : Arithmetic α}

namespace Grammar

/-! ### Products without an operator -/

/-- Some tokens are **read back as a product**: as a whole operand of a sum. A product without an
operator ends with its last factor, so no chain of products goes on after it. -/
def ReadProduct (A : Arithmetic α) (e : Expr α) (ts : List Token) : Prop :=
  ∀ rest, Name.multiplication.StopsAt rest →
    Derives A (.rule .multiplication (ts ++ rest)) (.ok (e, rest))

section

variable {e l r : Expr α} {ts ls rs : List Token} {t : Token} {op : Operator}

/-- A value is a product. -/
theorem ReadBack.readProduct (h : ReadBack A e ts 3) : ReadProduct A e ts := by
  intro rest hstop
  have hproduct : ReadBack A e ts 1 := h.mono (by decide)
  exact hproduct rest _ (.of_factor rfl hstop) (.stop (hstop .multiplication (by decide)))

/-- A product is read back as a sum. -/
theorem ReadProduct.readBack (h : ReadProduct A e ts) : ReadBack A e ts 0 :=
  fun rest _ hstop hmore => .operand rfl (h rest hstop) hmore

/-- The **negative** of a value. -/
theorem ReadBack.negative (h : ReadBack A e ts 3) (ht : t.kind = .operator) (htext : t.text = "-") :
    ReadBack A (.node (Expr.number A.zero) .subtract e) (t :: ts) 3 :=
  fun rest => .negative ht htext (h rest)

/-- A value **with a factor after it**. -/
theorem ReadBack.juxtaposed (hl : ReadBack A l ls 3) (hr : ReadProduct A r (t :: rs))
    (ht : t.kind.beginsValue = true) : ReadProduct A (.node l .multiply r) (ls ++ t :: rs) := by
  intro rest hstop
  have hvalue : valueAt (t :: rs ++ rest) = true := by
    simpa [valueAt, Cursor.atValue, Cursor.current?, Cursor.start] using ht
  have hoperator (among : List Operator) : operatorAt? (t :: rs ++ rest) among = none := by
    refine Option.eq_none_iff_forall_ne_some.mpr fun op hop => ?_
    obtain ⟨_, _, heq, hkind, -⟩ := exists_of_operatorAt? hop
    cases heq
    rw [hkind] at ht
    cases ht
  have hpower : Derives A (.rule .power (ls ++ (t :: rs ++ rest))) (.ok (l, t :: rs ++ rest)) :=
    .operand rfl (hl _) (.stop ⟨hoperator _, fun hfactor => absurd hfactor Bool.false_ne_true⟩)
  rw [List.append_assoc]
  exact .operand rfl hpower (.factor (hoperator _) rfl hvalue (hr rest hstop))

/-- A sum **that ends with a product**. -/
theorem ReadBack.sum_product (hl : ReadBack A l ls 0) (hr : ReadProduct A r rs)
    (ht : t.kind = .operator) (htext : Operator.ofSymbol t.text = op)
    (hop : op ∈ Name.addition.operators) : ReadBack A (.node l op r) (ls ++ t :: rs) 0 := by
  intro rest r' hstop hmore
  have hnone : ∀ op ∈ Name.addition.operators, ∀ part ∈ Name.multiplication.parts,
      op ∉ part.operators := by decide
  rw [List.append_assoc, List.cons_append]
  exact hl _ _ (.of_operator ht htext (hnone op hop) _)
    (.link (by decide) (operatorAt?_cons ht htext hop _) rfl (hr rest hstop) hmore)

/-- What is read back as a sum is a formula. -/
theorem ReadBack.derives (h : ReadBack A e ts 0) :
    Derives A (.rule .expression ts) (.ok (e, [])) := by
  have hstop (name : Name) : name.StopsAt [] := .nil name
  have hsum : Derives A (.rule .addition (ts ++ [])) (.ok (e, [])) :=
    h [] _ (hstop _) (.stop (hstop .addition _ (by decide)))
  exact .operand rfl (List.append_nil ts ▸ hsum) (.stop (hstop .expression _ (by decide)))

end

end Grammar

/-! ### Texts and their tokens -/

/-- A text **is cut** into so many tokens at most, wherever it stands, and they have a property. -/
def IsCut (P : List Token → Prop) (count : Nat) (cs : List Char) : Prop :=
  ∀ position, ∃ ts, Token.ofChars position cs = .ok ts ∧ ts.length ≤ count ∧ P ts

namespace IsCut

variable {P Q R : List Token → Prop} {m n : Nat} {cs ds : List Char}

/-- A single character. -/
theorem single {c : Char} {kind : TokenKind} (h : singleKind? c = some kind)
    (hP : ∀ position, P [⟨kind, c.toString, position⟩]) : IsCut P 1 [c] := by
  intro position
  refine ⟨_, ?_, le_rfl, hP position⟩
  rw [ofChars_single h, Token.ofChars]
  rfl

/-- A numeral. -/
theorem numeral {text : String} (h : IsPlainNumeral text.toList)
    (hP : ∀ position, P [⟨.number, text, position⟩]) : IsCut P 1 text.toList := by
  intro position
  have hall := h.isNumeralChar
  have htake : text.toList.takeWhile isNumeralChar = text.toList :=
    List.takeWhile_eq_self_iff.mpr hall
  have hscan : scanNumeral position text.toList = .ok text.toList := by
    obtain ⟨n, -, hpoint, hcount⟩ | ⟨hnone, -⟩ := secondPoint?_spec false 0 text.toList
    · -- a second point would be one too many
      have hless := count_take_lt hpoint
      have hmost := h.count_le
      rw [Bool.toNat_false, Nat.zero_add] at hcount
      omega
    · rw [scanNumeral, htake]
      simp only [hnone]
  obtain ⟨c, rest, hcs, hdigit⟩ := h.exists_cons
  refine ⟨_, ?_, le_rfl, hP position⟩
  rw [hcs] at hall hscan ⊢
  have hdrop : rest.dropWhile isNumeralChar = [] :=
    List.dropWhile_eq_nil_iff.mpr fun d hd => hall d (List.mem_cons_of_mem c hd)
  rw [ofChars_digit hdigit, hscan, hdrop]
  simp only [Token.ofChars, bind_eq_ok, pure_eq_ok]
  exact ⟨_, rfl, _, rfl, by rw [← hcs, String.ofList_toList]⟩

/-- **Two texts** with no numeral that reaches from one into the other. -/
theorem append (h : IsCut P m cs) (h' : IsCut Q n ds) (hapart : AreApart cs ds)
    (hR : ∀ ts us, P ts → Q us → R (ts ++ us)) : IsCut R (m + n) (cs ++ ds) := by
  intro position
  obtain ⟨ts, hts, htsLength, hP⟩ := h position
  obtain ⟨us, hus, husLength, hQ⟩ := h' (position + cs.length)
  refine ⟨ts ++ us, (ofChars_append_eq_ok hapart).mpr ⟨ts, us, hts, hus, rfl⟩, ?_, hR ts us hP hQ⟩
  rw [List.length_append]
  omega

/-- A text **after a single character** that is a token. -/
theorem cons (h : IsCut P n cs) {c : Char} {kind : TokenKind} (hc : singleKind? c = some kind)
    (hR : ∀ position ts, P ts → R (⟨kind, c.toString, position⟩ :: ts)) :
    IsCut R (n + 1) (c :: cs) := by
  have hapart : AreApart [c] cs := by
    rintro _ ⟨⟩ _ _ hnumeral
    cases (isNumeralChar_of_singleKind? hc).symm.trans hnumeral
  have hsingle : IsCut (fun ts => ∃ position, ts = [⟨kind, c.toString, position⟩]) 1 [c] :=
    .single hc fun position => ⟨position, rfl⟩
  have happend := hsingle.append (R := R) h hapart ?_
  · rwa [Nat.add_comm] at happend
  · rintro _ us ⟨position, rfl⟩ hus
    exact hR position us hus

end IsCut

/-! ### Texts that denote numbers -/

open Grammar (ReadBack ReadProduct)

/-- A text of so many tokens at most **denotes a number**: its tokens are read in some way as a
formula whose value is the number. -/
def Denotes (reads : Expr Operand → List Token → Prop) (count : Nat) (cs : List Char)
    (z : Number) : Prop :=
  ∃ e, IsCut (reads e) count cs ∧ e.depth ≤ count ∧
    ∀ scope, e.value calculator scope = .ok (.one (.number z))

/-- An operator **acts as** an operation on two numbers. -/
def Operator.ActsAs (op : Operator) (f : Number → Number → Number) : Prop :=
  ∀ x y, Expr.operate calculator op (.one x) (.one y) =
    ((Primitive.binary (fun z w => .ok (f z w)) x y).map Operand.number).map .one

theorem actsAs_add : Operator.add.ActsAs Number.add := fun _ _ => rfl

theorem actsAs_subtract : Operator.subtract.ActsAs Number.sub := fun _ _ => rfl

theorem actsAs_multiply : Operator.multiply.ActsAs Number.mul := fun _ _ => rfl

/-- The value of an operator on two snapped numbers. -/
theorem value_node {op : Operator} {f : Number → Number → Number} (hop : op.ActsAs f)
    {l r : Expr Operand} {z w : Number} {scope : Scope Operand}
    (hl : l.value calculator scope = .ok (.one (.number z)))
    (hr : r.value calculator scope = .ok (.one (.number w))) (hz : z.IsSnapped)
    (hw : w.IsSnapped) :
    (Expr.node l op r).value calculator scope = .ok (.one (.number (f z w).snap)) := by
  have hz : z.snap = z := hz
  have hw : w.snap = w := hw
  rw [Expr.value, hl, hr]
  show Expr.operate calculator op (.one (.number z)) (.one (.number w)) = _
  rw [hop]
  show Except.ok (Value.one (Operand.number (f z.snap w.snap).snap)) = _
  rw [hz, hw]

section Texts

variable {reads : Expr Operand → List Token → Prop} {m n : Nat} {cs ds : List Char}
  {z w : Number}

theorem Denotes.mono {reads' : Expr Operand → List Token → Prop} (h : Denotes reads m cs z)
    (hreads : ∀ e ts, reads e ts → reads' e ts) (hle : m ≤ n) : Denotes reads' n cs z := by
  obtain ⟨e, hcut, hdepth, hvalue⟩ := h
  refine ⟨e, fun position => ?_, hdepth.trans hle, hvalue⟩
  obtain ⟨ts, hts, hlength, hread⟩ := hcut position
  exact ⟨ts, hts, hlength.trans hle, hreads e ts hread⟩

/-- The negative of a text. -/
theorem Denotes.negative (h : Denotes (ReadBack calculator · · 3) n cs z) (hz : z.IsSnapped) :
    Denotes (ReadBack calculator · · 3) (n + 1) ('-' :: cs) (Number.zero.sub z).snap := by
  obtain ⟨e, hcut, hdepth, hvalue⟩ := h
  refine ⟨.node (Expr.number calculator.zero) .subtract e,
    hcut.cons (show singleKind? '-' = some .operator by decide)
      fun _ _ hread => hread.negative rfl rfl,
    ?_, fun scope => ?_⟩
  · simp [Expr.depth, hdepth]
  · exact value_node actsAs_subtract rfl (hvalue scope) (by decide +kernel) hz

/-- A text **with the imaginary unit after it**. -/
theorem Denotes.timesUnit (h : Denotes (ReadBack calculator · · 3) n cs z) (hz : z.IsSnapped) :
    Denotes (ReadProduct calculator) (n + 1) (cs ++ ['i']) (z.mul Number.unit).snap := by
  obtain ⟨e, hcut, hdepth, hvalue⟩ := h
  have hunit : IsCut (fun ts => ∃ position, ts = [⟨.constant, "i", position⟩]) 1 ['i'] :=
    .single (by decide) fun position => ⟨position, rfl⟩
  refine ⟨.node e .multiply (.atom (.constant "i")),
    hcut.append hunit (.of_head (by decide)) ?_, ?_, fun scope => ?_⟩
  · rintro ts _ hread ⟨position, rfl⟩
    exact hread.juxtaposed (Grammar.readBack_token fun _ => rfl).readProduct rfl
  · simp [Expr.depth, hdepth]
  · exact value_node actsAs_multiply (hvalue scope) rfl hz (by decide +kernel)

/-- **Two texts with an operator of sums between them.** -/
theorem Denotes.sum (h : Denotes (ReadBack calculator · · 3) m cs z)
    (h' : Denotes (ReadProduct calculator) n ds w) (hz : z.IsSnapped) (hw : w.IsSnapped) {c : Char}
    {op : Operator} (hc : singleKind? c = some .operator)
    (htext : Operator.ofSymbol c.toString = op) (hmem : op ∈ Grammar.Name.addition.operators)
    {f : Number → Number → Number} (hop : op.ActsAs f) :
    Denotes (ReadBack calculator · · 0) (m + (n + 1)) (cs ++ c :: ds) (f z w).snap := by
  obtain ⟨l, hl, hldepth, hlvalue⟩ := h
  obtain ⟨r, hr, hrdepth, hrvalue⟩ := h'
  have hright : IsCut (fun ts => ∃ position us, ts = ⟨.operator, c.toString, position⟩ :: us ∧
      ReadProduct calculator r us) (n + 1) (c :: ds) :=
    hr.cons hc fun position us hus => ⟨position, us, rfl, hus⟩
  refine ⟨.node l op r, hl.append hright (.of_head (isNumeralChar_of_singleKind? hc)) ?_, ?_,
    fun scope => value_node hop (hlvalue scope) (hrvalue scope) hz hw⟩
  · rintro ts _ hread ⟨position, us, rfl, hus⟩
    exact (hread.mono (Nat.zero_le 3)).sum_product hus rfl htext hmem
  · rw [Expr.depth]
    omega

end Texts

/-! ### Real and imaginary numbers -/

theorem IsPositive.unpack_ne_zero {y : Float} (hy : IsPositive y) (s : UnpackedFloat.Sign) :
    y.toModel.unpack ≠ .zero s := by
  obtain ⟨m, e, hm, hu⟩ := hy
  intro h
  cases hu.symm.trans h

section Arithmetic

variable {x y : Float}

/-- A stable part **times the imaginary unit**. -/
theorem snap_mul_unit (hx : IsStable x) : ((Number.ofReal x).mul Number.unit).snap = ⟨0, x⟩ := by
  have hzero : (0 : Float) * 0 = 0 := by decide +kernel
  have hre : snapPart (x * 0 - 0 * 1) = 0 := by
    rw [float_mul_one, float_sub_zero]
    obtain h | h := float_mul_zero hx.finite <;> rw [h] <;> decide +kernel
  have him : x * 1 + 0 * 0 = x := by
    rw [float_mul_one, hzero, float_add_zero hx.ne_negative_zero]
  show Number.snap ⟨x * 0 - 0 * 1, x * 1 + 0 * 0⟩ = _
  have hsnap : Number.snap ⟨0, x⟩ = ⟨0, x⟩ := IsStable.isSnapped .zero hx
  rw [him, Number.snap, hre]
  rw [Number.snap, IsStable.zero.snapped] at hsnap
  exact hsnap

/-- A sum of a real and an imaginary number. -/
theorem snap_add_imaginary (hx : IsStable x) (hy : IsStable y) :
    ((Number.ofReal x).add ⟨0, y⟩).snap = ⟨x, y⟩ := by
  show Number.snap ⟨x + 0, 0 + y⟩ = _
  rw [float_add_zero hx.ne_negative_zero, float_zero_add hy.ne_negative_zero]
  exact IsStable.isSnapped hx hy

theorem snap_sub_imaginary (hx : IsStable x) (hy : IsPositive y) (hneg : IsStable (-y)) :
    ((Number.ofReal x).sub ⟨0, y⟩).snap = ⟨x, -y⟩ := by
  show Number.snap ⟨x - 0, 0 - y⟩ = _
  rw [float_sub_zero, float_zero_sub (hy.unpack_ne_zero _)]
  exact IsStable.isSnapped hx hneg

theorem snap_zero_sub (hy : IsPositive y) (hneg : IsStable (-y)) :
    (Number.zero.sub (Number.ofReal y)).snap = Number.ofReal (-y) := by
  show Number.snap ⟨0 - y, 0 - 0⟩ = _
  rw [float_sub_zero, float_zero_sub (hy.unpack_ne_zero _)]
  exact IsStable.isSnapped hneg .zero

end Arithmetic

/-! ### The texts of parts -/

/-- A numeral denotes the number it is read as. -/
theorem denotes_numeral {text : String} {x : Float} (h : IsPlainNumeral text.toList)
    (hread : readFloat? text = some x) (hx : IsStable x) :
    Denotes (ReadBack calculator · · 3) 1 text.toList (Number.ofReal x) := by
  have hliteral : numeralValue text = Number.ofReal x := by
    rw [readFloat?_of_isPlainNumeral h] at hread
    obtain ⟨d, hd, rfl⟩ := Option.map_eq_some_iff.mp hread
    rw [numeralValue, hd]
    exact IsStable.isSnapped hx .zero
  refine ⟨Expr.number (calculator.literal text),
    .numeral h fun _ => Grammar.readBack_token fun _ => rfl, Nat.zero_le 1, fun scope => ?_⟩
  show Except.ok (Value.one (Operand.number (numeralValue text))) = _
  rw [hliteral]

/-- The imaginary unit denotes itself. -/
theorem denotes_unit : Denotes (ReadBack calculator · · 3) 1 ['i'] Number.unit :=
  ⟨.atom (.constant "i"),
    .single (show singleKind? 'i' = some .constant by decide)
      fun _ => Grammar.readBack_token fun _ => rfl,
    Nat.zero_le 1, fun _ => rfl⟩

/-- A part **that is read back**: it is zero, or not too small and its shortest digits denote it. -/
structure IsLegible (x : Float) : Prop where
  stable : IsStable x
  large : x = 0 ∨ 1e-4 ≤ x.abs
  reads : readFloat? (floatText x.abs) = some x.abs

/-- The characters of a sign and a text. -/
theorem toList_sign (negative : Bool) (text : String) :
    ((if negative then "-" else "") ++ text).toList =
      (if negative then ['-'] else []) ++ text.toList := by
  cases negative <;> simp

section Legible

variable {x y : Float} {negative : Bool}

/-- The absolute value of a legible part is legible. -/
theorem IsLegible.of_withSign (hx : IsLegible (withSign negative y)) (hy : IsPositive y) :
    IsLegible y where
  stable := ⟨hy.isFinite, hy.snapPart_of_withSign negative hx.stable.snapped⟩
  large := by
    have hlarge := hx.large
    rw [hy.abs_withSign] at hlarge
    have hne : withSign negative y ≠ 0 := by
      intro hzero
      have hbeq : (withSign negative y == 0) = true := by rw [hzero]; rfl
      rw [withSign_beq_zero, hy.beq_zero] at hbeq
      cases hbeq
    have habs : y.abs = y := hy.abs_withSign false
    exact .inr (habs.symm ▸ hlarge.resolve_left hne)
  reads := by
    have hreads := hx.reads
    rw [hy.abs_withSign] at hreads
    have habs : y.abs = y := hy.abs_withSign false
    rwa [habs]

/-- The text of a positive legible part denotes it. -/
theorem IsLegible.denotes_positive (hx : IsLegible y) (hy : IsPositive y) :
    Denotes (ReadBack calculator · · 3) 1 (Number.partText y).toList (Number.ofReal y) := by
  have habs : y.abs = y := hy.abs_withSign false
  have hlarge := hx.large
  have hreads := hx.reads
  rw [habs] at hlarge hreads
  have hne : y ≠ 0 := by
    rintro rfl
    cases hy.beq_zero
  obtain ⟨hplain, hread⟩ := hy.partText_spec (hlarge.resolve_left hne) hreads
  exact denotes_numeral hplain hread hx.stable

/-- The text of **a legible part with a sign** denotes it. -/
theorem IsLegible.denotes_withSign (hx : IsLegible (withSign negative y)) (hy : IsPositive y) :
    Denotes (ReadBack calculator · · 3) (1 + negative.toNat)
      (Number.partText (withSign negative y)).toList (Number.ofReal (withSign negative y)) := by
  have hlegible := hx.of_withSign hy
  have hdenotes := hlegible.denotes_positive hy
  rw [hy.partText_withSign, toList_sign]
  cases negative with
  | false => exact hdenotes
  | true =>
      have hnegative := hdenotes.negative (IsStable.isSnapped hlegible.stable .zero)
      rwa [snap_zero_sub hy hx.stable] at hnegative

/-- **The text of a legible part** denotes it. -/
theorem IsLegible.denotes (hx : IsLegible x) :
    Denotes (ReadBack calculator · · 3) 2 (Number.partText x).toList (Number.ofReal x) := by
  obtain rfl | ⟨negative, y, rfl, hy⟩ := exists_withSign hx.stable.finite hx.stable.snapped
  · have htext : Number.partText 0 = "0" := by decide +kernel
    have hzero : IsPlainNumeral "0".toList :=
      ⟨['0'], by decide, fun c hc => List.mem_singleton.mp hc ▸ rfl, .inl rfl⟩
    rw [htext]
    exact (denotes_numeral hzero (by decide +kernel) .zero).mono (fun _ _ => id) (by decide)
  · exact (hx.denotes_withSign hy).mono (fun _ _ => id) (by cases negative <;> decide)

/-- The text of **an imaginary part with its sign** denotes it. -/
theorem IsLegible.denotes_imaginary (hx : IsLegible (withSign negative y)) (hy : IsPositive y) :
    Denotes (ReadProduct calculator) (2 + negative.toNat) ((if negative then ['-'] else []) ++
      (if y == 1 then "i" else Number.partText y ++ "i").toList) ⟨0, withSign negative y⟩ := by
  by_cases hone : (y == 1) = true
  · obtain rfl : y = 1 := by
      obtain ⟨rfl, -⟩ | ⟨⟨s, hs⟩, -⟩ := float_beq_iff.mp hone
      · rfl
      · exact absurd hs (hy.unpack_ne_zero s)
    rw [if_pos hone]
    cases negative with
    | false => exact denotes_unit.mono (fun _ _ h => h.readProduct) (by decide)
    | true =>
        have hunit : Number.unit.IsSnapped := by decide +kernel
        have hnegative : (Number.zero.sub Number.unit).snap = ⟨0, -1⟩ := by decide +kernel
        exact hnegative ▸
          (denotes_unit.negative hunit).mono (fun _ _ h => h.readProduct) (by decide)
  · have hdenotes := (hx.denotes_withSign hy).timesUnit (IsStable.isSnapped hx.stable .zero)
    rw [snap_mul_unit hx.stable, hy.partText_withSign, toList_sign, List.append_assoc] at hdenotes
    rw [if_neg hone, String.toList_append]
    exact hdenotes.mono (fun _ _ => id) (by omega)

end Legible

/-! ### The text of a number -/

/-- A number is shown **with the sign of its imaginary part**. -/
theorem text_withSign {x y : Float} (hy : IsPositive y) (negative : Bool) :
    (⟨x, withSign negative y⟩ : Number).text =
      let imaginary := if y == 1 then "i" else Number.partText y ++ "i"
      if x == 0 then (if negative then "-" else "") ++ imaginary
      else Number.partText x ++ (if negative then "-" else "+") ++ imaginary := by
  have hsign (s s' : String) : (if withSign negative y < 0 then s else s') =
      if negative then s else s' := by
    have hdecide := hy.withSign_lt_zero negative
    cases negative with
    | false => rw [if_neg (of_decide_eq_false hdecide), if_neg Bool.false_ne_true]
    | true => rw [if_pos (of_decide_eq_true hdecide), if_pos rfl]
  simp only [Number.text, hsign, hy.abs_withSign, withSign_beq_zero, hy.beq_zero,
    Bool.false_eq_true, if_false]

/-- **The text of a number with legible parts** denotes the number. -/
theorem denotes_text {x y : Float} (hre : IsLegible x) (him : IsLegible y) :
    Denotes (ReadBack calculator · · 0) 5 (⟨x, y⟩ : Number).text.toList ⟨x, y⟩ := by
  obtain rfl | ⟨negative, y, rfl, hy⟩ := exists_withSign him.stable.finite him.stable.snapped
  · have htext : (⟨x, 0⟩ : Number).text = Number.partText x := by
      have hzero : ((0 : Float) == 0) = true := by decide +kernel
      simp only [Number.text, hzero, if_true]
    rw [htext]
    exact hre.denotes.mono (fun _ _ h => h.mono (by decide)) (by decide)
  · rw [text_withSign hy]
    obtain rfl | ⟨sign, x, rfl, hx⟩ := exists_withSign hre.stable.finite hre.stable.snapped
    · have himaginary := him.denotes_imaginary hy
      rw [← toList_sign] at himaginary
      exact himaginary.mono (fun _ _ h => h.readBack) (by cases negative <;> decide)
    · have hlegible := him.of_withSign hy
      have himaginary : Denotes (ReadProduct calculator) 2
          (if y == 1 then "i" else Number.partText y ++ "i").toList ⟨0, y⟩ :=
        IsLegible.denotes_imaginary (show IsLegible (withSign false y) from hlegible) hy
      have hsnapped : (Number.ofReal (withSign sign x)).IsSnapped :=
        IsStable.isSnapped hre.stable .zero
      have hsnapped' : (⟨0, y⟩ : Number).IsSnapped := IsStable.isSnapped .zero hlegible.stable
      dsimp only
      rw [withSign_beq_zero, hx.beq_zero, if_neg Bool.false_ne_true, String.toList_append,
        String.toList_append, List.append_assoc]
      cases negative with
      | false =>
          have hsum := hre.denotes.sum himaginary hsnapped hsnapped'
            (show singleKind? '+' = some .operator by decide) rfl (by decide) actsAs_add
          rwa [snap_add_imaginary hre.stable hlegible.stable] at hsum
      | true =>
          have hsum := hre.denotes.sum himaginary hsnapped hsnapped'
            (show singleKind? '-' = some .operator by decide) rfl (by decide) actsAs_subtract
          rwa [snap_sub_imaginary hre.stable hy him.stable] at hsum

/-! ### The value of a shown number -/

/-- **What a text denotes is its value**, if the depth limit leaves three levels for each token and
three more. -/
theorem Denotes.outcome_evaluate {text : String} {n : Nat} {z : Number}
    (h : Denotes (ReadBack calculator · · 0) n text.toList z)
    {l : DepthLimit} (hl : ∀ depth ≤ 3 * (n + 1), l.allows depth = true) (scope : Scope Operand) :
    (Formula.evaluate calculator (.ok l) text scope).outcome = .ok (.one (.number z)) := by
  obtain ⟨e, hcut, hdepth, hvalue⟩ := h
  obtain ⟨ts, htokens, hlength, hread⟩ := hcut 0
  have hformula : (Formula.read calculator (.ok l) text).outcome = .ok e := by
    rw [outcome_read_of_tokenize calculator (.ok l) htokens]
    exact Grammar.toExcept_formula (fun depth hdepth => hl depth (by omega)) hread.derives
  rw [Argand.outcome_evaluate hformula]
  exact hvalue scope

/-- **A shown number is a text for the same number.** The text of every finite snapped number of
which no part is so small that it is shown with an exponent is evaluated to the number, in every
scope. -/
theorem evaluate_text (w : Number) (hfinite : w.snap.isFinite)
    (hlarge : ∀ x ∈ [w.snap.re, w.snap.im], x = 0 ∨ 1e-4 ≤ x.abs)
    (hreads : ∀ x ∈ [w.snap.re, w.snap.im], readFloat? (floatText x.abs) = some x.abs)
    {l : DepthLimit} (hl : ∀ depth ≤ 18, l.allows depth = true) (scope : Scope Operand) :
    (Formula.evaluate calculator (.ok l) w.snap.text scope).outcome =
      .ok (.one (.number w.snap)) := by
  obtain ⟨hre, him⟩ := Number.isStable_snap hfinite
  have hdenotes := denotes_text ⟨hre, hlarge _ (by simp), hreads _ (by simp)⟩
    ⟨him, hlarge _ (by simp), hreads _ (by simp)⟩
  exact hdenotes.outcome_evaluate hl scope

/-- `2.5-3i` is read back. -/
theorem evaluate_text_fraction : (⟨2.5, -3⟩ : Number).snap.text = "2.5-3i" ∧
    (Formula.evaluate calculator (.ok (.ofInt 120)) (⟨2.5, -3⟩ : Number).snap.text []).outcome =
      .ok (.one (.number (⟨2.5, -3⟩ : Number).snap)) := by
  have hsnap : (⟨2.5, -3⟩ : Number).snap = ⟨2.5, -3⟩ := by decide +kernel
  refine ⟨by decide +kernel, evaluate_text ⟨2.5, -3⟩ (by decide +kernel) ?_ ?_
    (Grammar.allows_ofInt (by decide)) []⟩
  · rw [hsnap]
    decide +kernel
  · rw [hsnap]
    decide +kernel

/-- Whether a value is a single number other than a given one. -/
def Value.isOtherThan (z : Number) : Value Operand → Bool
  | .one (.number w) => !w.equals z
  | _ => false

/-- **A part below `1e-4`** is shown with an exponent, which no formula has: `1e-05` is read as `1`
times the constant `e`, minus `05`. -/
theorem evaluate_text_exponent :
    (⟨1e-5, 0⟩ : Number).snap = ⟨1e-5, 0⟩ ∧ (⟨1e-5, 0⟩ : Number).isFinite ∧
      readFloat? (floatText 1e-5) = some 1e-5 ∧ (⟨1e-5, 0⟩ : Number).text = "1e-05" ∧
      ∃ z : Number, (Formula.evaluate calculator (.ok (.ofInt 120)) "1e-05" []).outcome =
        .ok (.one (.number z)) ∧ z.equals ⟨1e-5, 0⟩ = false := by
  refine ⟨by decide +kernel, by decide +kernel, by decide +kernel, by decide +kernel, ?_⟩
  obtain ⟨v, hv, hother⟩ := (show Yields (fun _ => False)
    (fun v => v.isOtherThan ⟨1e-5, 0⟩ = true)
    (Formula.evaluate calculator (.ok (.ofInt 120)) "1e-05" []).outcome by
      decide +kernel).exists_ok
  match v, hv, hother with
  | .one (.number z), hv, hother => exact ⟨z, hv, by simpa [Value.isOtherThan] using hother⟩

end Argand
