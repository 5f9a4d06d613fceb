import Argand.Proofs.Equation.Isolation
import Argand.Proofs.Simplification.Meaning

/-!
# Solutions are solutions

Undoing an operator turns an equation into one with the same solutions, wherever both sides of
the given equation have readings: then no divisor in it is zero, and a number that is divided by
on the way is not zero either, since the quotient has a value. So with exact arithmetic both
sides of an equation read the same element once the unknown reads the solution.

## Main definitions

* `Argand.Arithmetic.IsExactSolver`: what is asked of the arithmetic.
* `Argand.Expr.IsReduced`, `Argand.Expr.IsClosed`: simplified formulas, and those without
  variables.

## Main results

* `Argand.Isolates.sound`: the two sides read the same at the solution.
-/

namespace Argand

open Simplify

variable {α K : Type} [Field K] [DecidableEq K]

/-! ### Assumptions -/

/-- A number that **stands for itself** in a formula. -/
def Arithmetic.IsNumber (A : Arithmetic α) (a : α) : Prop :=
  A.contents a = .one a

/-- A scope that binds variables to **single numbers**. -/
def Scope.HasNumbers (A : Arithmetic α) (scope : Scope α) : Prop :=
  ∀ x v, scope.value? x = some v → ∃ a, v = .one a ∧ A.IsNumber a

/-- An exact arithmetic whose results are numbers and whose square roots are square roots. -/
structure Arithmetic.IsExactSolver (A : Arithmetic α) (val : α → K) : Prop where
  exact : A.IsExact val
  handles : A.Handles (fun _ => True) A.IsNumber fun _ => True
  constant : ∀ {x a}, A.constant? x = some a → A.IsNumber a
  roots : ∀ {a n rs}, A.roots a n = .ok rs → ∀ c ∈ rs, A.IsNumber c
  square_of_root : ∀ {a rs}, A.roots a A.two = .ok rs → ∀ c ∈ rs, val c * val c = val a
  two_ne_zero : (2 : K) ≠ 0

/-! ### Kinds of formulas -/

/-- A leaf of a **simplified** formula. -/
def Atom.IsFree (scope : Scope α) : Atom α → Prop
  | .number _ | .constant _ => True
  | .scaled x _ => scope.value? x = none
  | .list _ | .stray _ => False

/-- A leaf **without variables**. -/
def Atom.IsClosed : Atom α → Prop
  | .number _ | .constant _ => True
  | .scaled .. | .list _ | .stray _ => False

/-- A **simplified** rational formula: its variables are free, and it may have squares of them. -/
def Expr.IsReduced (A : Arithmetic α) (scope : Scope α) (e : Expr α) : Prop :=
  e.Over A (Atom.IsFree scope) fun x => scope.value? x = none

/-- A rational formula **without variables**. -/
def Expr.IsClosed (A : Arithmetic α) (e : Expr α) : Prop :=
  e.Over A Atom.IsClosed fun _ => False

/-- The numbers of a formula are numbers. -/
abbrev Expr.HasNumbers (A : Arithmetic α) (e : Expr α) : Prop :=
  e.Sound A.IsNumber fun _ => True

variable {A : Arithmetic α} {scope : Scope α}

theorem Scope.HasNumbers.isSingle (hs : scope.HasNumbers A) : scope.IsSingle := fun x v hv =>
  (hs x v hv).imp fun _ h => h.1

theorem Scope.HasNumbers.isNumber (hs : scope.HasNumbers A) {x : String} {v : Value α}
    (hv : scope.value? x = some v) : ∀ a ∈ v.items, A.IsNumber a := by
  obtain ⟨a, rfl, ha⟩ := hs x v hv
  exact fun b hb => List.mem_singleton.mp hb ▸ ha

theorem leafKind_isFree :
    LeafKind (Atom.IsFree scope) fun x => scope.value? x = none :=
  ⟨fun _ => trivial, fun _ h => h, fun h => h⟩

theorem leafKind_isClosed : LeafKind (α := α) Atom.IsClosed fun _ => False :=
  ⟨fun _ => trivial, fun _ h => h, fun h => h⟩

/-- A simplified formula without variables is closed. -/
theorem Expr.IsReduced.isClosed {e : Expr α} (he : e.IsReduced A scope)
    (hv : e.hasVariable = false) : e.IsClosed A := by
  induction he with
  | @atom x hx =>
      cases x with
      | scaled => cases hv
      | number | constant => exact .atom trivial
      | list | stray => exact hx.elim
  | node hop _ _ ihl ihr =>
      simp only [Expr.hasVariable, Bool.or_eq_false_iff] at hv
      exact .node hop (ihl hv.1) (ihr hv.2)
  | square _ => cases hv

/-- A closed formula is rational. -/
theorem Expr.IsClosed.isRational {e : Expr α} (he : e.IsClosed A) : e.IsRational := by
  induction he with
  | @atom x hx => cases x <;> trivial
  | node hop _ _ ihl ihr => exact ⟨hop, ihl, ihr⟩
  | square hx => exact hx.elim

/-- A closed formula is reduced. -/
theorem Expr.IsClosed.isReduced {e : Expr α} (he : e.IsClosed A) : e.IsReduced A scope := by
  induction he with
  | @atom x hx =>
      cases x with
      | number | constant => exact .atom trivial
      | scaled | list | stray => exact hx.elim
  | node hop _ _ ihl ihr => exact .node hop ihl ihr
  | square hx => exact hx.elim

/-- A closed formula has no variables. -/
theorem Expr.IsClosed.names_eq_nil {e : Expr α} (he : e.IsClosed A) : e.names = [] := by
  induction he with
  | @atom x hx => cases x <;> first | rfl | exact hx.elim
  | node _ _ _ ihl ihr => simp [Expr.names, ihl, ihr]
  | square hx => exact hx.elim

/-! ### Simplification again -/

/-- In a single scope a rational formula is simplified to a reduced one. -/
theorem Expr.IsRational.isReduced (hs : scope.IsSingle) {e e' : Expr α} (he : e.IsRational)
    (h : e.simplify A scope = .ok e') : e'.IsReduced A scope := by
  have hover : e.Over A Atom.IsPlain (fun _ => False) := he.over
  refine over_simplify leafKind_isFree (fun x hx e h => ?_) nofun hover h
  obtain ⟨rfl, hnone⟩ | ⟨d, rfl⟩ := hs.atom_cases h
  · refine .atom ?_
    cases x with
    | scaled name c => exact hnone name List.mem_cons_self
    | number | constant => trivial
    | list | stray => exact hx.elim
  · exact .atom trivial

/-- A closed formula stays closed. -/
theorem Expr.IsClosed.simplify {e e' : Expr α} (he : e.IsClosed A)
    (h : e.simplify A scope = .ok e') : e'.IsClosed A := by
  refine over_simplify leafKind_isClosed (fun x hx e h => ?_) nofun he h
  obtain ⟨rfl, -⟩ | ⟨y, c, v, w, rfl, -, -, -⟩ := atom_cases h
  · exact .atom hx
  · exact hx.elim

variable {val : α → K} (hA : A.IsExactSolver val)

include hA

omit [DecidableEq K] in
/-- The square of a free variable is simplified already. -/
theorem simplify_squareOf {x : String} (hx : scope.value? x = none) {e : Expr α}
    (h : (Expr.squareOf A x).simplify A scope = .ok e) : e = Expr.squareOf A x := by
  have hplain : (plain A x).simplify A scope = .ok (plain A x) := by
    simp only [plain, Expr.simplify, Simplify.atom, hx]
  have h : raise A (plain A x) (.number A.two) = .ok e := by
    rw [Expr.squareOf, Expr.simplify, hplain] at h
    exact h
  cases raises_of_raise h with
  | zero h0 =>
      have h20 := hA.exact.eq_of_equals h0
      rw [hA.exact.two, hA.exact.zero] at h20
      exact absurd h20 hA.two_ne_zero
  | one h1 =>
      have h21 := hA.exact.eq_of_equals h1
      rw [hA.exact.two, hA.exact.one, ← sub_eq_zero] at h21
      exact absurd h21 (by norm_num)
  | kept => rfl

omit [DecidableEq K] in
/-- A reduced formula stays reduced. -/
theorem isReduced_simplify {e e' : Expr α} (he : e.IsReduced A scope)
    (h : e.simplify A scope = .ok e') : e'.IsReduced A scope := by
  refine over_simplify leafKind_isFree (fun x hx e h => ?_) (fun x hx e h => ?_) he h
  · obtain ⟨rfl, -⟩ | ⟨y, c, v, w, rfl, hv, -, -⟩ := atom_cases h
    · exact .atom hx
    · cases hv.symm.trans hx
  · obtain rfl := simplify_squareOf hA hx h
    exact .square hx

/-- Simplification keeps the readings of a reduced formula. -/
theorem reads_simplify_reduced {ρ : String → List K} (hρ : scope.Respects val ρ) {e e' : Expr α}
    (he : e.IsReduced A scope) (h : e.simplify A scope = .ok e') {v : K}
    (hv : Reads A val ρ e v) : Reads A val ρ e' v :=
  (reads_simplify hA.exact hρ (fun _ hx _ h => ⟨simplify_squareOf hA hx h, hx⟩) he h hv).mono
    fun _ _ hb => (Scope.mem_of_mem_free hb).2

omit [DecidableEq K] in
/-- The numbers of a simplified formula are numbers. -/
theorem hasNumbers_simplify (hs : scope.HasNumbers A) {leaf : Atom α → Prop} {e e' : Expr α}
    (he : e.Over A leaf fun x => scope.value? x = none) (hok : e.HasNumbers A)
    (h : e.simplify A scope = .ok e') : e'.HasNumbers A := by
  refine (yields_simplify hA.handles (fun x v hv => hs.isNumber hv) (fun x hx => ?_) he hok).of_ok h
  refine yields_iff.mpr ⟨fun e he => ?_, fun _ _ => trivial⟩
  obtain rfl := simplify_squareOf hA hx he
  exact .node hA.handles.one hA.handles.two nofun

/-! ### Values and readings -/

omit hA in
/-- A formula without lists has one reading at most, if each variable has. -/
theorem Reads.unique {ρ : String → List K} (hρ : ∀ x, ∀ a ∈ ρ x, ∀ b ∈ ρ x, a = b)
    {leaf : Atom α → Prop} {squared : String → Prop} (hleaf : ∀ items, ¬ leaf (.list items))
    {e : Expr α} (he : e.Over A leaf squared) {v w : K} (hv : Reads A val ρ e v)
    (hw : Reads A val ρ e w) : v = w := by
  have scaled {x : String} {c : α} {v w : K} (hv : Reads A val ρ (.scaled x c) v)
      (hw : Reads A val ρ (.scaled x c) w) : v = w := by
    obtain ⟨a, ha, rfl⟩ := reads_scaled.mp hv
    obtain ⟨b, hb, rfl⟩ := reads_scaled.mp hw
    rw [hρ x a ha b hb]
  induction he generalizing v w with
  | @atom x hx =>
      cases x with
      | number a => rw [reads_number.mp hv, reads_number.mp hw]
      | scaled x c => exact scaled hv hw
      | constant x =>
          cases hv with
          | constant ha =>
          cases hw with
          | constant hb =>
          obtain rfl := Option.some.inj (ha.symm.trans hb)
          rfl
      | list items => exact absurd hx (hleaf items)
      | stray a => cases hv
  | node _ _ _ ihl ihr =>
      obtain ⟨a, b, ha, hb, hab⟩ := reads_node.mp hv
      obtain ⟨c, d, hc, hd, hcd⟩ := reads_node.mp hw
      obtain rfl := ihl ha hc
      obtain rfl := ihr hb hd
      exact Option.some.inj (hab.symm.trans hcd)
  | square _ =>
      obtain ⟨a, b, ha, hb, hab⟩ := reads_node.mp hv
      obtain ⟨c, d, hc, hd, hcd⟩ := reads_node.mp hw
      obtain rfl := scaled ha hc
      rw [reads_number] at hb hd
      rw [hb] at hab
      rw [hd] at hcd
      exact Option.some.inj (hab.symm.trans hcd)

/-- **The value of a closed formula** is one number, and its one reading. -/
theorem exists_value_of_isClosed (hs : scope.IsSingle) {e : Expr α} (he : e.IsClosed A)
    (hok : e.HasNumbers A) {w : Value α} (h : e.value A scope = .ok w) :
    ∃ r, w = .one r ∧ A.IsNumber r ∧ ∀ ρ v, Reads A val ρ e v ↔ v = val r := by
  obtain ⟨r, rfl⟩ := exists_one_of_value (fun a ha => ha) hs he.isRational hok h
  have hread := reads_of_value hA.exact (fun a ha => ha) hA.handles.two he hok h r
    (List.mem_singleton.mpr rfl)
  have hread (ρ : String → List K) : Reads A val ρ e (val r) :=
    hread.congr fun x hx => by simp [he.names_eq_nil] at hx
  refine ⟨r, rfl, ?_, fun ρ v => ⟨fun hv => ?_, fun hv => hv ▸ hread ρ⟩⟩
  · exact ok_of_value hA.handles (fun a ha => ha) (fun x a => hA.constant)
      (fun x c hc => hc.elim) he hok h r (List.mem_singleton.mpr rfl)
  · have hv : Reads A val (fun _ => []) e v := hv.congr fun x hx => by
      simp [he.names_eq_nil] at hx
    exact hv.unique (fun x a ha => by cases ha) (fun items h => h) he (hread _)

/-- A formula that divides a number, where the quotient has a value, does not read zero. -/
theorem ne_zero_of_quotient (hs : scope.HasNumbers A) {r : α} (hr : A.IsNumber r) {b e : Expr α}
    (hb : b.IsClosed A) (hbok : b.HasNumbers A)
    (h : (Expr.node (.number r) .divide b).simplify A scope = .ok e) {w : Value α}
    (hw : e.value A scope = .ok w) {ρ : String → List K} (hρ : scope.Respects val ρ) {y : K}
    (hy : Reads A val ρ b y) : y ≠ 0 := by
  obtain ⟨r', hr', h⟩ := bind_eq_ok.mp h
  obtain rfl := Except.ok.inj hr'
  obtain ⟨b', hb', h⟩ := bind_eq_ok.mp h
  have hy' : Reads A val ρ b' y := reads_simplify_reduced hA hρ hb.isReduced hb' hy
  have hclosed := hb.simplify hb'
  have hok : b'.HasNumbers A := hasNumbers_simplify hA hs hb.isReduced hbok hb'
  -- a divisor that stays divides a number when the quotient is evaluated
  have kept : e = .node (.number r) .divide b' → y ≠ 0 := by
    rintro rfl
    obtain ⟨u, hu, hw⟩ := bind_eq_ok.mp hw
    obtain ⟨q, hq, hw⟩ := bind_eq_ok.mp hw
    obtain rfl : u = .one r := (Except.ok.inj hu).symm.trans hr
    obtain ⟨q, rfl, -, hread⟩ := exists_value_of_isClosed hA hs.isSingle hclosed hok hq
    obtain ⟨c, hc, -⟩ := map_eq_ok.mp hw
    rw [(hread ρ y).mp hy']
    exact hA.exact.divisor_ne_zero hc
  cases b' with
  | node a op b => exact kept (Except.ok.inj h).symm
  | atom x =>
      cases x with
      | number m =>
          obtain ⟨c, hc, -⟩ := bind_eq_ok.mp h
          rw [reads_number.mp hy']
          exact hA.exact.divisor_ne_zero hc
      | constant x => exact kept (Except.ok.inj h).symm
      | scaled | list | stray => exact hclosed.leaf_of.elim

/-! ### Steps -/

omit [Field K] [DecidableEq K] hA in
/-- A solution kept in a scope is the value of its name. -/
theorem Scope.value?_bind (s : Solution α) (x : String) :
    (scope.bind s).value? x = if s.name = x then some s.value else scope.value? x := by
  simp only [Scope.value?, Scope.bind, Entries.get?_insert, beq_iff_eq]
  split <;> rfl

omit [Field K] [DecidableEq K] hA in
/-- The readings in a scope with a new number respect the scope. -/
theorem respects_bind (val : α → K) {x : String}
    (hx : scope.value? x = none) (c : α) :
    scope.Respects val ((scope.bind ⟨x, .one c⟩).readings val) := by
  constructor
  · intro y v hy
    have hxy : x ≠ y := by
      rintro rfl
      simp [hx] at hy
    simp [Scope.readings, Scope.value?_bind, hxy, hy]
  · intro y hy a ha b hb
    simp only [Scope.readings, Scope.value?_bind, hy] at ha hb
    split at ha
    · simp_all [Value.items]
    · simp at ha

omit hA in
/-- **Undoing an operator** gives two sides that read the same only if the given ones do. -/
theorem exists_reads_undo {ρ : String → List K} {op : Operator} (hop : op.IsField)
    {inFirst : Bool} {a b l q : Expr α} {r : α}
    (h : Equation.undo A scope inFirst a op b (.number r) = .ok (l, q)) {x y z : K}
    (ha : Reads A val ρ a x) (hb : Reads A val ρ b y) (hz : op.result? x y = some z)
    (hdiv : op = .multiply → (if inFirst then y else x) ≠ 0) :
    ∃ u v, Reads A val ρ l u ∧ Reads A val ρ q v ∧ (u = v → z = val r) := by
  have number : Reads A val ρ (.number r) (val r) := .number r
  cases op with
  | add =>
      obtain rfl := Option.some.inj hz
      cases inFirst with
      | true =>
          cases h
          exact ⟨x, val r - y, ha, .node number hb rfl, fun h => by rw [h]; ring⟩
      | false =>
          cases h
          exact ⟨y, val r - x, hb, .node number ha rfl, fun h => by rw [h]; ring⟩
  | subtract =>
      obtain rfl := Option.some.inj hz
      cases inFirst with
      | true =>
          cases h
          exact ⟨x, val r + y, ha, .node number hb rfl, fun h => by rw [h]; ring⟩
      | false =>
          cases h
          exact ⟨y, x - val r, hb, .node ha number rfl, fun h => by rw [h]; ring⟩
  | multiply =>
      obtain rfl := Option.some.inj hz
      cases inFirst with
      | true =>
          have hy : y ≠ 0 := hdiv rfl
          cases h
          refine ⟨x, val r / y, ha, .node number hb ?_, fun h => by rw [h]; field_simp⟩
          exact Operator.result?_divide.mpr ⟨hy, rfl⟩
      | false =>
          have hx : x ≠ 0 := hdiv rfl
          cases h
          refine ⟨y, val r / x, hb, .node number ha ?_, fun h => by rw [h]; field_simp⟩
          exact Operator.result?_divide.mpr ⟨hx, rfl⟩
  | divide =>
      obtain ⟨hy, rfl⟩ := Operator.result?_divide.mp hz
      cases inFirst with
      | true =>
          cases h
          exact ⟨x, val r * y, ha, .node number hb rfl, fun h => by rw [h]; field_simp⟩
      | false =>
          cases h
          exact ⟨val r * y, x, .node number hb rfl, ha, fun h => by rw [← h]; field_simp⟩
  | power => exact hop.elim
  | plusMinus => exact hop.elim
  | other => exact hop.elim

omit [Field K] [DecidableEq K] hA in
/-- The two sides after a step are reduced formulas of numbers. -/
theorem isReduced_undo {op : Operator} (hop : op.IsField) {inFirst : Bool} {a b l q : Expr α}
    {r : α} (h : Equation.undo A scope inFirst a op b (.number r) = .ok (l, q))
    (ha : a.IsReduced A scope) (hb : b.IsReduced A scope) (hr : A.IsNumber r)
    (han : a.HasNumbers A) (hbn : b.HasNumbers A) :
    (l.IsReduced A scope ∧ l.HasNumbers A) ∧ q.IsReduced A scope ∧ q.HasNumbers A := by
  have number : (Expr.number r).IsReduced A scope := .atom trivial
  have both {e e' : Expr α} (op : Operator) (hop : op.IsField) (he : e.IsReduced A scope)
      (hen : e.HasNumbers A) (he' : e'.IsReduced A scope) (hen' : e'.HasNumbers A) :
      (Expr.node e op e').IsReduced A scope ∧ (Expr.node e op e').HasNumbers A :=
    ⟨.node hop he he', hen, hen', fun _ => e'.divides_true⟩
  cases op with
  | add =>
      cases inFirst with
      | true => cases h; exact ⟨⟨ha, han⟩, both _ trivial number hr hb hbn⟩
      | false => cases h; exact ⟨⟨hb, hbn⟩, both _ trivial number hr ha han⟩
  | subtract =>
      cases inFirst with
      | true => cases h; exact ⟨⟨ha, han⟩, both _ trivial number hr hb hbn⟩
      | false => cases h; exact ⟨⟨hb, hbn⟩, both _ trivial ha han number hr⟩
  | multiply =>
      cases inFirst with
      | true => cases h; exact ⟨⟨ha, han⟩, both _ trivial number hr hb hbn⟩
      | false => cases h; exact ⟨⟨hb, hbn⟩, both _ trivial number hr ha han⟩
  | divide =>
      cases inFirst with
      | true => cases h; exact ⟨⟨ha, han⟩, both _ trivial number hr hb hbn⟩
      | false => cases h; exact ⟨both _ trivial number hr hb hbn, ha, han⟩
  | power => exact hop.elim
  | plusMinus => exact hop.elim
  | other => exact hop.elim

omit [DecidableEq K] in
/-- The roots of a number as a formula. -/
theorem exists_roots {r : α} (hr : A.IsNumber r) {e : Expr α}
    (h : (Expr.number r).roots A A.two = .ok e) :
    ∃ items, e = Expr.ofItems items ∧ ∀ c ∈ items, A.IsNumber c ∧ val c * val c = val r := by
  obtain ⟨v, hv, h⟩ := bind_eq_ok.mp h
  obtain ⟨items, hitems, h⟩ := bind_eq_ok.mp h
  obtain rfl := pure_eq_ok.mp h
  obtain rfl : v = .one r := (Except.ok.inj hv).symm.trans hr
  refine ⟨items, rfl, fun c hc => ?_⟩
  obtain ⟨a, ha, n, hn, w, hw, hc⟩ := isCombination_of_lift hitems c hc
  rw [hA.handles.two] at hn
  obtain rfl := List.mem_singleton.mp ha
  obtain rfl := List.mem_singleton.mp hn
  obtain ⟨rs, hrs, rfl⟩ := map_eq_ok.mp hw
  exact ⟨hA.roots hrs c hc, hA.square_of_root hrs c hc⟩

omit [Field K] [DecidableEq K] hA in
/-- The numbers of a list as a formula are its value. -/
theorem value_ofItems {items : List α} (hitems : ∀ c ∈ items, A.IsNumber c) :
    ∃ w, (Expr.ofItems items).value A scope = .ok w ∧ w.items = items := by
  rcases items with - | ⟨a, - | ⟨b, rest⟩⟩
  · exact ⟨.many [], rfl, rfl⟩
  · refine ⟨.one a, ?_, rfl⟩
    show Except.ok (A.contents a) = _
    rw [hitems a (List.mem_singleton.mpr rfl)]
  · exact ⟨.many (a :: b :: rest), rfl, rfl⟩

omit [Field K] [DecidableEq K] hA in
/-- A list as a formula is simplified already. -/
theorem simplify_ofItems (items : List α) :
    (Expr.ofItems items).simplify A scope = .ok (Expr.ofItems items) := by
  rcases items with - | ⟨a, - | ⟨b, rest⟩⟩ <;> rfl

omit [DecidableEq K] in
/-- A multiple of the unknown alone on the left is divided by its factor. -/
theorem Isolates.alone_sound {x : String} {c : α} {right : Expr α} {s : Solution α}
    (h : Isolates A scope (.scaled x c) right s) {w : Value α}
    (hw : right.value A scope = .ok w) (hwn : ∀ a ∈ w.items, A.IsNumber a) :
    s.name = x ∧ ∀ d ∈ s.value.items, ∃ a ∈ w.items, val d = val a / val c ∧ val c ≠ 0 := by
  cases h with
  | @alone x c right w' v u _ hw' hv hu =>
      obtain rfl : w' = w := Except.ok.inj ((value_of_evaluate hw').symm.trans hw)
      refine ⟨rfl, fun d hd => ?_⟩
      obtain ⟨a, ha, hac⟩ := mem_valueMapM hu hd
      have hvw : v.items = w'.items := by
        obtain ⟨w'', hw'', hitems⟩ : ∃ w'', (Expr.ofValue w').value A scope = .ok w'' ∧
            w''.items = w'.items := by
          cases w' with
          | one b =>
              have hb : ∀ a ∈ [b], A.IsNumber a := hwn
              exact value_ofItems hb
          | many items => exact value_ofItems hwn
        obtain rfl := Except.ok.inj ((value_of_evaluate hv).symm.trans hw'')
        exact hitems
      exact ⟨a, hvw ▸ ha, hA.exact.divide hac, hA.exact.divisor_ne_zero hac⟩

/-- **A solution solves the equation.** Where both simplified sides have readings once the unknown
reads one of its values, they have the same. -/
theorem Isolates.sound (hs : scope.HasNumbers A) {left right : Expr α} {s : Solution α}
    (h : Isolates A scope left right s) (hl : left.IsReduced A scope)
    (hr : right.IsReduced A scope) (hln : left.HasNumbers A) (hrn : right.HasNumbers A) :
    scope.value? s.name = none ∧ ∀ c ∈ s.value.items, ∀ x y,
      Reads A val ((scope.bind ⟨s.name, .one c⟩).readings val) left x →
      Reads A val ((scope.bind ⟨s.name, .one c⟩).readings val) right y → x = y := by
  induction h with
  | @alone x c right w v u hright hw hv hu =>
      have hx : scope.value? x = none := hl.leaf_of
      obtain ⟨r, rfl, hrnum, hread⟩ :=
        exists_value_of_isClosed hA hs.isSingle (hr.isClosed hright) hrn (value_of_evaluate hw)
      refine ⟨hx, fun d hd p q hp hq => ?_⟩
      have hrn' : ∀ a ∈ (Value.one r).items, A.IsNumber a :=
        fun a ha => List.mem_singleton.mp ha ▸ hrnum
      obtain ⟨-, hsol⟩ := Isolates.alone_sound hA (.alone hright hw hv hu)
        (value_of_evaluate hw) hrn'
      obtain ⟨a, ha, hda, hc⟩ := hsol d hd
      obtain rfl := List.mem_singleton.mp ha
      obtain ⟨t, ht, rfl⟩ := reads_scaled.mp hp
      obtain rfl : t = val d := by
        simpa [Scope.readings, Scope.value?_bind, Value.items] using ht
      rw [(hread _ q).mp hq, hda]
      field_simp
  | @undone a b right l q l' q' op w s hright hor hand hw hundo hl' hq' hrest ih =>
      obtain ⟨r, rfl, hrnum, hread⟩ :=
        exists_value_of_isClosed hA hs.isSingle (hr.isClosed hright) hrn (value_of_evaluate hw)
      cases hl with
      | node hop ha hb =>
          obtain ⟨⟨hlred, hlnum⟩, hqred, hqnum⟩ :=
            isReduced_undo hop hundo ha hb hrnum hln.1 hln.2.1
          obtain ⟨hname, ih⟩ := ih (isReduced_simplify hA hlred hl')
            (isReduced_simplify hA hqred hq') (hasNumbers_simplify hA hs hlred hlnum hl')
            (hasNumbers_simplify hA hs hqred hqnum hq')
          refine ⟨hname, fun c hc x y hx hy => ?_⟩
          have hρ := respects_bind val hname c
          obtain ⟨xa, xb, hxa, hxb, hab⟩ := reads_node.mp hx
          -- the other factor is divided by, and the quotient has a value
          have hdiv : op = .multiply → (if a.hasVariable then xb else xa) ≠ 0 := by
            rintro rfl
            obtain ⟨w', hw'⟩ := hrest.evaluate_right
            have hw' := value_of_evaluate hw'
            cases hav : a.hasVariable with
            | true =>
                rw [hav, Bool.true_and] at hand
                rw [hav] at hundo
                cases hundo
                have hbc := Expr.IsReduced.isClosed hb hand
                exact ne_zero_of_quotient hA hs hrnum hbc hln.2.1 hq' hw' hρ hxb
            | false =>
                rw [hav] at hundo
                cases hundo
                have hac := Expr.IsReduced.isClosed ha hav
                exact ne_zero_of_quotient hA hs hrnum hac hln.1 hq' hw' hρ hxa
          obtain ⟨u, v, hu, hv, huv⟩ := exists_reads_undo hop hundo hxa hxb hab hdiv
          rw [(hread _ y).mp hy]
          exact huv (ih c hc u v (reads_simplify_reduced hA hρ hlred hl' hu)
            (reads_simplify_reduced hA hρ hqred hq' hv))
      | @square x hx =>
          -- the unknown is one of the roots
          obtain ⟨e, he, h⟩ := bind_eq_ok.mp hundo
          obtain ⟨rfl, rfl⟩ := Prod.mk.inj (pure_eq_ok.mp h)
          obtain ⟨items, rfl, hitems⟩ := exists_roots hA hrnum he
          obtain rfl : plain A x = l' := by
            simp only [plain, Expr.simplify, Simplify.atom, hx] at hl'
            exact Except.ok.inj hl'
          obtain rfl := Except.ok.inj (hq'.symm.trans (simplify_ofItems items))
          obtain ⟨w, hw, hwi⟩ : ∃ w, (Expr.ofItems items).value A scope = .ok w ∧ w.items = items :=
            value_ofItems fun c hc => (hitems c hc).1
          obtain ⟨hsx, hsol⟩ := hrest.alone_sound hA hw (hwi ▸ fun c hc => (hitems c hc).1)
          refine ⟨hsx ▸ hx, fun c hc p q hp hq => ?_⟩
          obtain ⟨d, hd, hcd, -⟩ := hsol c hc
          rw [hA.exact.one, div_one] at hcd
          obtain ⟨t, u, ht, hu, hp⟩ := reads_node.mp hp
          obtain ⟨b, hb, rfl⟩ := reads_scaled.mp ht
          obtain rfl : b = val c := by
            simpa [Scope.readings, Scope.value?_bind, hsx, Value.items] using hb
          rw [reads_number.mp hu, hA.exact.one, one_mul, hA.exact.two] at hp
          obtain rfl : val c * val c = p := by simpa [Operator.result?] using hp
          rw [hcd, (hitems d (hwi ▸ hd)).2, (hread _ q).mp hq]

end Argand
