import Argand.Proofs.Display.Canonical
import Argand.Proofs.Roots
import Mathlib.Data.List.ProdSigma

/-!
# Lifted operations

An operation is lifted to all combinations of the numbers of two values by three nested loops, the
innermost of which looks for an equal number among those kept so far. Together they are one loop
over the cartesian product: it carries out the operation on each pair, in order, and keeps of what
that produces the first of equal numbers. Equality is that of floats. It is symmetric and
transitive, so that comparing with the numbers kept is as good as comparing with all before; but a
NaN is not equal to itself, so that each is kept.

## Main definitions

* `Argand.distinctItems`: a list without the items that equal one kept before them.
* `Argand.firstOccurrences`: the items of a list that equal none before them.
* `Argand.Operand.KeepsFirst`: the operands kept of those produced.

## Main results

* `Argand.distinctItems_eq_firstOccurrences`: what is kept is what occurs first.
* `Argand.lift_eq`: a lifted operation as one loop over the cartesian product.
* `Argand.lift_keeps_first`: what a lifted operation keeps, and its fault.
-/

namespace Argand

/-! ### The first of equal items -/

section Distinct

variable {α : Type} (same : α → α → Bool)

/-- A list **without the items that equal one kept** before them. -/
def distinctItems (xs : List α) : List α :=
  xs.eraseDupsBy fun c k => same k c

/-- The items of a list that **equal none before** them, in order. -/
def firstOccurrences (xs : List α) : List α :=
  (xs.zipIdx.filter fun p => !(xs.take p.2).any (same · p.1)).map Prod.fst

variable {same}

/-- The last item is kept unless one kept before it is equal. -/
theorem distinctItems_concat (xs : List α) (c : α) :
    distinctItems same (xs ++ [c]) =
      if (distinctItems same xs).any (same · c) then distinctItems same xs
      else distinctItems same xs ++ [c] := by
  have loop (xs kept : List α) : List.eraseDupsBy.loop (fun c k => same k c) (xs ++ [c]) kept =
      let kept' := List.eraseDupsBy.loop (fun c k => same k c) xs kept
      if kept'.any (same · c) then kept' else kept' ++ [c] := by
    induction xs generalizing kept with
    | nil =>
        simp only [List.nil_append, List.eraseDupsBy.loop, List.any_reverse]
        cases kept.any (same · c) <;> simp
    | cons x xs ih =>
        rw [List.cons_append, List.eraseDupsBy.loop, List.eraseDupsBy.loop]
        split <;> exact ih _
  exact loop xs []

/-- What is kept is part of the list. -/
theorem distinctItems_sublist (xs : List α) : (distinctItems same xs).Sublist xs := by
  induction xs using List.reverseRecOn with
  | nil => exact List.Sublist.refl _
  | append_singleton xs c ih =>
      rw [distinctItems_concat]
      split
      · exact ih.trans (List.sublist_append_left _ _)
      · exact ih.append (List.Sublist.refl _)

/-- No item kept equals one kept **before it**. -/
theorem pairwise_distinctItems (xs : List α) :
    (distinctItems same xs).Pairwise fun k c => same k c = false := by
  induction xs using List.reverseRecOn with
  | nil => exact .nil
  | append_singleton xs c ih =>
      rw [distinctItems_concat]
      split
      · exact ih
      · rename_i hnone
        refine List.pairwise_append.mpr ⟨ih, List.pairwise_singleton _ _, fun k hk d hd => ?_⟩
        obtain rfl := List.mem_singleton.mp hd
        exact Bool.eq_false_iff.mpr fun hsame => hnone (List.any_eq_true.mpr ⟨k, hk, hsame⟩)

/-- An item is kept, or **one that it equals**. -/
theorem mem_distinctItems_or (same : α → α → Bool) {xs : List α} {c : α} (hc : c ∈ xs) :
    c ∈ distinctItems same xs ∨ ∃ k ∈ distinctItems same xs, same k c = true := by
  induction xs using List.reverseRecOn with
  | nil => cases hc
  | append_singleton xs d ih =>
      rw [distinctItems_concat]
      split
      · rename_i hany
        obtain hc | hc := List.mem_append.mp hc
        · exact ih hc
        · obtain rfl := List.mem_singleton.mp hc
          exact .inr (List.any_eq_true.mp hany)
      · obtain hc | hc := List.mem_append.mp hc
        · exact (ih hc).imp (List.mem_append_left _)
            fun ⟨k, hk, hsame⟩ => ⟨k, List.mem_append_left _ hk, hsame⟩
        · exact .inl (List.mem_append_right _ hc)

/-- The last item occurs first unless one before it is equal. -/
theorem firstOccurrences_concat (xs : List α) (c : α) :
    firstOccurrences same (xs ++ [c]) =
      if xs.any (same · c) then firstOccurrences same xs
      else firstOccurrences same xs ++ [c] := by
  have hbefore : xs.zipIdx.filter (fun p => !((xs ++ [c]).take p.2).any (same · p.1)) =
      xs.zipIdx.filter fun p => !(xs.take p.2).any (same · p.1) := by
    refine List.filter_congr fun p hp => ?_
    have hlt : p.2 < xs.length := List.snd_lt_of_mem_zipIdx hp
    rw [List.take_append_of_le_length hlt.le]
  rw [firstOccurrences, List.zipIdx_append, List.filter_append, hbefore]
  cases h : xs.any (same · c) <;> simp [h, firstOccurrences]

/-- If equality is transitive, **what is kept is what occurs first**: an item that equals one before
it equals the one that was kept in place of that. -/
theorem distinctItems_eq_firstOccurrences {same : α → α → Bool}
    (htrans : ∀ a b c, same a b = true → same b c = true → same a c = true) (xs : List α) :
    distinctItems same xs = firstOccurrences same xs := by
  induction xs using List.reverseRecOn with
  | nil => rfl
  | append_singleton xs c ih =>
      have hany : (distinctItems same xs).any (same · c) = xs.any (same · c) := by
        rw [Bool.eq_iff_iff, List.any_eq_true, List.any_eq_true]
        constructor
        · rintro ⟨k, hk, hsame⟩
          exact ⟨k, (distinctItems_sublist xs).subset hk, hsame⟩
        · rintro ⟨d, hd, hsame⟩
          obtain hd | ⟨k, hk, hkd⟩ := mem_distinctItems_or same hd
          · exact ⟨d, hd, hsame⟩
          · exact ⟨k, hk, htrans k d c hkd hsame⟩
      rw [distinctItems_concat, firstOccurrences_concat, hany, ih]

end Distinct

/-! ### Equality of operands -/

namespace Number

theorem equals_symm {z w : Number} (h : z.equals w = true) : w.equals z = true := by
  rw [equals, Bool.and_eq_true] at h ⊢
  exact h.imp float_beq_symm float_beq_symm

theorem equals_trans {z w u : Number} (hzw : z.equals w = true) (hwu : w.equals u = true) :
    z.equals u = true := by
  rw [equals, Bool.and_eq_true] at hzw hwu ⊢
  exact ⟨float_beq_trans hzw.1 hwu.1, float_beq_trans hzw.2 hwu.2⟩

/-- A number is equal to itself unless it is a NaN. -/
theorem equals_self (z : Number) : z.equals z = !z.isNaN := by
  rw [equals, isNaN, float_beq_self, float_beq_self, Bool.not_or]

end Number

namespace Operand

/-- Whether two operands are **equal** as numbers. -/
def isEqual (a b : Operand) : Bool :=
  match Primitive.equals a b with
  | .ok t => t
  | .error _ => false

/-- An operand whose number is a **NaN**. -/
def IsNaN (x : Operand) : Prop :=
  ∃ z, x.toNumber = .ok z ∧ z.isNaN = true

variable {a b c : Operand}

/-- Operands are equal if their numbers are. -/
theorem isEqual_iff : a.isEqual b = true ↔
    ∃ z w, a.toNumber = .ok z ∧ b.toNumber = .ok w ∧ z.equals w = true := by
  rw [isEqual, Primitive.equals, Primitive.relation]
  cases a.toNumber with
  | error _ => simp [bind, Except.bind]
  | ok z => cases b.toNumber <;> simp [bind, Except.bind, pure, Except.pure]

/-- Comparing numbers succeeds. -/
theorem equals_eq (ha : a.IsNumeric) (hb : b.IsNumeric) :
    Primitive.equals a b = .ok (a.isEqual b) := by
  obtain ⟨z, hz⟩ := ha
  obtain ⟨w, hw⟩ := hb
  simp only [isEqual, Primitive.equals, Primitive.relation, hz, hw]
  rfl

theorem isEqual_symm (h : a.isEqual b = true) : b.isEqual a = true := by
  obtain ⟨z, w, hz, hw, heq⟩ := isEqual_iff.mp h
  exact isEqual_iff.mpr ⟨w, z, hw, hz, Number.equals_symm heq⟩

theorem isEqual_trans (hab : a.isEqual b = true) (hbc : b.isEqual c = true) :
    a.isEqual c = true := by
  obtain ⟨z, w, hz, hw, hzw⟩ := isEqual_iff.mp hab
  obtain ⟨w', u, hw', hu, hwu⟩ := isEqual_iff.mp hbc
  obtain rfl : w = w' := Except.ok.inj (hw.symm.trans hw')
  exact isEqual_iff.mpr ⟨z, u, hz, hu, Number.equals_trans hzw hwu⟩

/-- A number is equal to itself, or it is a NaN. -/
theorem IsNumeric.isEqual_self_or (ha : a.IsNumeric) : a.isEqual a = true ∨ a.IsNaN := by
  obtain ⟨z, hz⟩ := ha
  cases hnan : z.isNaN with
  | false => exact .inl (isEqual_iff.mpr ⟨z, z, hz, hz, by rw [Number.equals_self, hnan]; rfl⟩)
  | true => exact .inr ⟨z, hz, hnan⟩

end Operand

/-! ### The loops -/

section Loops

variable {f : Operand → Operand → Except Fault (Value Operand)}

/-- A new number is kept, or dropped, as it is from the list of all so far. -/
theorem keepDistinct_distinctItems {seen : List Operand} {c : Operand}
    (hseen : ∀ a ∈ seen, a.IsNumeric) (hc : c.IsNumeric) :
    keepDistinct Primitive.equals (distinctItems Operand.isEqual seen) c =
      .ok (distinctItems Operand.isEqual (seen ++ [c])) := by
  have hany (kept : List Operand) (hkept : ∀ k ∈ kept, k.IsNumeric) :
      kept.anyM (Primitive.equals · c) = .ok (kept.any (Operand.isEqual · c)) := by
    induction kept with
    | nil => rfl
    | cons k kept ih =>
        rw [List.anyM_cons, Operand.equals_eq (hkept k List.mem_cons_self) hc, List.any_cons,
          ih fun k hk => hkept k (List.mem_cons_of_mem _ hk)]
        cases k.isEqual c <;> rfl
  rw [keepDistinct, hany _ fun k hk => hseen k ((distinctItems_sublist seen).subset hk),
    distinctItems_concat]
  cases (distinctItems Operand.isEqual seen).any (Operand.isEqual · c) <;> rfl

/-- The innermost **loop** adds what it is given to the numbers so far. -/
theorem foldlM_keepDistinct {seen items : List Operand} (hseen : ∀ a ∈ seen, a.IsNumeric)
    (hitems : ∀ c ∈ items, c.IsNumeric) :
    items.foldlM (keepDistinct Primitive.equals) (distinctItems Operand.isEqual seen) =
      .ok (distinctItems Operand.isEqual (seen ++ items)) := by
  induction items generalizing seen with
  | nil => rw [List.append_nil]; rfl
  | cons c items ih =>
      have hc := hitems c List.mem_cons_self
      have hseen' : ∀ a ∈ seen ++ [c], a.IsNumeric := by
        simpa [or_imp, forall_and] using ⟨hseen, hc⟩
      rw [List.foldlM_cons, keepDistinct_distinctItems hseen hc]
      have hrest := ih hseen' fun d hd => hitems d (List.mem_cons_of_mem _ hd)
      rwa [List.append_assoc, List.singleton_append] at hrest

/-- The two outer loops are one over the **cartesian product**. -/
theorem lift_eq_foldlM {α : Type} (equals : α → α → Except Fault Bool)
    (f : α → α → Except Fault (Value α)) (x y : Value α) :
    lift equals f x y = (x.items ×ˢ y.items).foldlM (fun kept p => do
      (← f p.1 p.2).items.foldlM (keepDistinct equals) kept) [] := by
  rw [lift]
  generalize ([] : List α) = kept
  induction x.items generalizing kept with
  | nil => rfl
  | cons a as ih =>
      rw [List.product_cons, List.foldlM_append, List.foldlM_map, List.foldlM_cons]
      exact congrArg _ (funext fun kept => ih kept)

/-- The loop over some pairs: the operation is carried out **on all of them**, and the first of
equal results are kept. -/
theorem foldlM_results {pairs : List (Operand × Operand)}
    (hf : ∀ p ∈ pairs, ∀ v, f p.1 p.2 = .ok v → ∀ c ∈ v.items, c.IsNumeric)
    {seen : List Operand} (hseen : ∀ a ∈ seen, a.IsNumeric) :
    pairs.foldlM (fun kept p => do
        (← f p.1 p.2).items.foldlM (keepDistinct Primitive.equals) kept)
        (distinctItems Operand.isEqual seen) =
      (pairs.mapM fun p => f p.1 p.2).map fun results =>
        distinctItems Operand.isEqual (seen ++ results.flatMap Value.items) := by
  induction pairs generalizing seen with
  | nil =>
      show _ = Except.ok (distinctItems Operand.isEqual (seen ++ []))
      rw [List.append_nil]
      rfl
  | cons p pairs ih =>
      rw [List.foldlM_cons, List.mapM_cons]
      cases hp : f p.1 p.2 with
      | error fault => rfl
      | ok v =>
          have hv := hf p List.mem_cons_self v hp
          have hseen' : ∀ a ∈ seen ++ v.items, a.IsNumeric :=
            fun a ha => (List.mem_append.mp ha).elim (hseen a) (hv a)
          have hrest := ih (fun q hq => hf q (List.mem_cons_of_mem _ hq)) hseen'
          show (v.items.foldlM (keepDistinct Primitive.equals) _ >>= _) = _
          rw [foldlM_keepDistinct hseen hv]
          refine hrest.trans ?_
          cases pairs.mapM fun p => f p.1 p.2 with
          | error fault => rfl
          | ok results =>
              show _ = Except.ok (distinctItems _ (seen ++ (v :: results).flatMap Value.items))
              rw [List.flatMap_cons, ← List.append_assoc]
              rfl

/-- A **lifted operation** whose results are numbers: it is carried out on the cartesian product in
order, and of equal numbers the first are kept. -/
theorem lift_eq {x y : Value Operand} (hf : ∀ a ∈ x.items, ∀ b ∈ y.items, ∀ v, f a b = .ok v →
    ∀ c ∈ v.items, c.IsNumeric) :
    lift Primitive.equals f x y =
      ((x.items ×ˢ y.items).mapM fun p => f p.1 p.2).map fun results =>
        distinctItems Operand.isEqual (results.flatMap Value.items) := by
  have hpairs : ∀ p ∈ x.items ×ˢ y.items, ∀ v, f p.1 p.2 = .ok v → ∀ c ∈ v.items, c.IsNumeric := by
    intro p hp
    obtain ⟨ha, hb⟩ := List.mem_product.mp hp
    exact hf p.1 ha p.2 hb
  have hnil : ∀ a ∈ ([] : List Operand), a.IsNumeric := nofun
  rw [lift_eq_foldlM]
  exact foldlM_results hpairs hnil

end Loops

/-! ### What is kept -/

/-- The operands **kept** of those produced: of equal ones the first. -/
structure Operand.KeepsFirst (produced kept : List Operand) : Prop where
  drops : kept = distinctItems isEqual produced
  apart : kept.Pairwise fun a b =>
    Primitive.equals a b = .ok false ∧ Primitive.equals b a = .ok false
  covers : ∀ c ∈ produced,
    (∃ k ∈ kept, Primitive.equals k c = .ok true) ∨ c.IsNaN ∧ c ∈ kept
  inOrder : kept = firstOccurrences isEqual produced

/-- Of numbers the first of equal ones are kept. -/
theorem keepsFirst_distinctItems {produced : List Operand} (h : ∀ c ∈ produced, c.IsNumeric) :
    Operand.KeepsFirst produced (distinctItems Operand.isEqual produced) := by
  have hkept : ∀ k ∈ distinctItems Operand.isEqual produced, k.IsNumeric :=
    fun k hk => h k ((distinctItems_sublist produced).subset hk)
  have htrans : ∀ a b c : Operand, a.isEqual b = true → b.isEqual c = true →
      a.isEqual c = true := fun _ _ _ => Operand.isEqual_trans
  refine ⟨rfl, ?_, fun c hc => ?_, distinctItems_eq_firstOccurrences htrans produced⟩
  · refine (pairwise_distinctItems produced).imp_of_mem fun {a b} ha hb hab => ?_
    have hba : b.isEqual a = false := by
      rw [Bool.eq_false_iff] at hab ⊢
      exact mt Operand.isEqual_symm hab
    rw [Operand.equals_eq (hkept a ha) (hkept b hb), Operand.equals_eq (hkept b hb) (hkept a ha),
      hab, hba]
    exact ⟨rfl, rfl⟩
  · have equal {k : Operand} (hk : k ∈ distinctItems Operand.isEqual produced)
        (hkc : k.isEqual c = true) :
        ∃ k ∈ distinctItems Operand.isEqual produced, Primitive.equals k c = .ok true :=
      ⟨k, hk, by rw [Operand.equals_eq (hkept k hk) (h c hc), hkc]⟩
    obtain hmem | ⟨k, hk, hkc⟩ := mem_distinctItems_or Operand.isEqual hc
    · obtain hself | hnan := (h c hc).isEqual_self_or
      · exact .inl (equal hmem hself)
      · exact .inr ⟨hnan, hmem⟩
    · exact .inl (equal hk hkc)

/-- What is kept of the **results for all pairs**, if there are such. -/
theorem exists_results_of_lift {f : Operand → Operand → Except Fault (Value Operand)}
    {x y : Value Operand} {kept : List Operand}
    (hf : ∀ a ∈ x.items, ∀ b ∈ y.items, ∀ v, f a b = .ok v → ∀ c ∈ v.items, c.IsNumeric)
    (h : lift Primitive.equals f x y = .ok kept) :
    ∃ results, List.Forall₂ (fun p v => f p.1 p.2 = .ok v) (x.items ×ˢ y.items) results ∧
      Operand.KeepsFirst (results.flatMap Value.items) kept := by
  rw [lift_eq hf, map_eq_ok] at h
  obtain ⟨results, hresults, rfl⟩ := h
  refine ⟨results, mapM_eq_ok.mp hresults, keepsFirst_distinctItems fun c hc => ?_⟩
  obtain ⟨v, hv, hc⟩ := List.mem_flatMap.mp hc
  obtain ⟨p, hp, hpv⟩ := exists_of_mem_mapM hresults hv
  obtain ⟨ha, hb⟩ := List.mem_product.mp hp
  exact hf p.1 ha p.2 hb v hpv c hc

/-- **A lifted operation** whose results are numbers is carried out on all pairs of the first and
the second value's numbers, those of the first outermost. It fails if it fails on a pair, with the
fault of the first such pair; else it keeps, of all the results in order, the first of equal
numbers. -/
theorem lift_keeps_first (f : Operand → Operand → Except Fault (Value Operand))
    (x y : Value Operand)
    (hf : ∀ a ∈ x.items, ∀ b ∈ y.items, ∀ v, f a b = .ok v → ∀ c ∈ v.items, c.IsNumeric) :
    (∀ fault, lift Primitive.equals f x y = .error fault ↔
      ∃ before a b after, x.items ×ˢ y.items = before ++ (a, b) :: after ∧
        (∀ p ∈ before, ∃ v, f p.1 p.2 = .ok v) ∧ f a b = .error fault) ∧
    ∀ kept, lift Primitive.equals f x y = .ok kept ↔
      ∃ results, List.Forall₂ (fun p v => f p.1 p.2 = .ok v) (x.items ×ˢ y.items) results ∧
        Operand.KeepsFirst (results.flatMap Value.items) kept := by
  refine ⟨fun fault => ?_, fun kept => ?_⟩
  · have hmap {β γ : Type} {e : Except Fault β} {g : β → γ} :
        e.map g = .error fault ↔ e = .error fault := by
      cases e <;> simp [Except.map]
    rw [lift_eq hf, hmap, mapM_eq_error]
    constructor
    · rintro ⟨before, ⟨a, b⟩, after, hpairs, hbefore, hab⟩
      exact ⟨before, a, b, after, hpairs, hbefore, hab⟩
    · rintro ⟨before, a, b, after, hpairs, hbefore, hab⟩
      exact ⟨before, (a, b), after, hpairs, hbefore, hab⟩
  · constructor
    · exact exists_results_of_lift hf
    · rintro ⟨results, hresults, hkept⟩
      rw [lift_eq hf, mapM_eq_ok.mpr hresults]
      exact congrArg Except.ok hkept.drops.symm

/-- Sum and difference of `0` and of NaN, each with `0` twice: of the four zeros the first is kept,
and all four NaNs are. -/
theorem lift_keeps_first_plusMinus :
    let zero := Operand.number Number.zero
    let x := Value.many [zero, .number Number.nan]
    let y := Value.many [zero, zero]
    ∃ kept results, lift Primitive.equals (Expr.plusMinus calculator) x y = .ok kept ∧
      List.Forall₂ (fun p v => Expr.plusMinus calculator p.1 p.2 = .ok v)
        (x.items ×ˢ y.items) results ∧
      Operand.KeepsFirst (results.flatMap Value.items) kept ∧ kept.length = 5 := by
  obtain ⟨kept, hkept, hlength⟩ : ∃ kept, lift Primitive.equals (Expr.plusMinus calculator)
      (.many [.number Number.zero, .number Number.nan])
      (.many [.number Number.zero, .number Number.zero]) = .ok kept ∧ kept.length = 5 :=
    Yields.exists_ok (by decide +kernel)
  obtain ⟨results, hresults, hfirst⟩ := ((lift_keeps_first _ _ _ fun _ _ _ _ _ hv =>
    (isValid_of_plusMinus gives_calculator hv).items).2 kept).mp hkept
  exact ⟨kept, results, hkept, hresults, hfirst, hlength⟩

end Argand
