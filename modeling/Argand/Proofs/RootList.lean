import Argand.Proofs.Display.Mirror
import Argand.Proofs.Roots

/-!
# Which roots are listed

The candidates for a root are tried in the order of their angles until one equals a candidate before
it, or until there are as many as the index says. So the roots are a start of the candidates,
without equal numbers, and the longest one. An index that is no positive whole number sets no limit
of its own; then a hundred candidates are tried.

The same hundred cut off the candidates of a greater index: no more are ever listed. Equality of
numbers is that of floats, so that candidates which are all NaN are all distinct.

## Main definitions

* `Argand.Number.positiveWhole?`: the positive whole number that a number is.
* `Argand.IsDistinctStart`: the first of some candidates, no two of which are equal.
* `Argand.IsLongestStart`: the longest such start.

## Main results

* `Argand.IsLongestStart.isPrefix`: every start without equal numbers is part of the longest.
* `Argand.isLongestStart_of_roots`: the roots are the longest start of at most a hundred candidates.
* `Argand.roots_longest_start`: up to an index of a hundred the index alone is the limit.
-/

namespace Argand

/-! ### Starts without equal numbers -/

/-- Some numbers are the first ones of a row of candidates, `count` of them or fewer, and **no two
of them are equal**. -/
structure IsDistinctStart (candidate : Nat → Except Fault Number) (count : Nat)
    (zs : List Number) : Prop where
  inOrder : ∀ k (h : k < zs.length), candidate k = .ok zs[k]
  length_le : zs.length ≤ count
  distinct : zs.Pairwise fun z w => z.equals w = false

/-- Such a start is the **longest** one: there is no further candidate, or the next one equals one
of those before it. -/
structure IsLongestStart (candidate : Nat → Except Fault Number) (count : Nat)
    (zs : List Number) : Prop extends IsDistinctStart candidate count zs where
  complete : zs.length = count ∨ ∃ z, candidate zs.length = .ok z ∧ ∃ w ∈ zs, w.equals z = true

section Starts

variable {candidate : Nat → Except Fault Number} {count : Nat} {zs ws : List Number}

/-- **Every start without equal numbers** is part of the longest one. -/
theorem IsLongestStart.isPrefix (h : IsLongestStart candidate count zs)
    (hws : IsDistinctStart candidate count ws) : ws <+: zs := by
  have hlength : ws.length ≤ zs.length := by
    by_contra hlt
    rw [Nat.not_le] at hlt
    obtain hcount | ⟨z, hz, w, hw, heq⟩ := h.complete
    · have := hws.length_le
      omega
    · -- the next candidate and the one that it equals are both in the longer start
      obtain ⟨k, hk, rfl⟩ := List.mem_iff_getElem.mp hw
      have hkw : ws[k] = zs[k] :=
        Except.ok.inj ((hws.inOrder k (hk.trans hlt)).symm.trans (h.inOrder k hk))
      have hzw : ws[zs.length] = z := Except.ok.inj ((hws.inOrder _ hlt).symm.trans hz)
      have hne := List.pairwise_iff_getElem.mp hws.distinct k zs.length (hk.trans hlt) hlt hk
      rw [hkw, hzw, heq] at hne
      cases hne
  refine List.prefix_iff_getElem.mpr ⟨hlength, fun k hk => ?_⟩
  exact Except.ok.inj
    ((hws.inOrder k hk).symm.trans (h.inOrder k (hk.trans_le hlength)))

/-- A start is continued by **the next candidate**, if it equals none of those before. -/
theorem IsDistinctStart.concat {z : Number} (h : IsDistinctStart candidate zs.length zs)
    (hz : candidate zs.length = .ok z) (hnew : ∀ w ∈ zs, w.equals z = false) :
    IsDistinctStart candidate (zs ++ [z]).length (zs ++ [z]) where
  inOrder k hk := by
    rw [List.length_append, List.length_singleton, Nat.lt_succ_iff] at hk
    obtain hlt | rfl := hk.lt_or_eq
    · rw [List.getElem_append_left hlt]
      exact h.inOrder k hlt
    · rw [List.getElem_concat_length rfl]
      exact hz
  length_le := le_rfl
  distinct := List.pairwise_append.mpr
    ⟨h.distinct, List.pairwise_singleton _ _, fun w hw z' hz' => by
      rw [List.mem_singleton.mp hz']
      exact hnew w hw⟩

/-- **Trying candidates** one after another, from a start on, gives the longest start. The induction
is on the candidates still to be tried. -/
theorem isLongestStart_of_distinctCandidates {found : List Number}
    (hfound : IsDistinctStart candidate found.length found)
    (h : Primitive.distinctCandidates candidate count found.length found = .ok zs) :
    IsLongestStart candidate (found.length + count) zs := by
  induction count generalizing found with
  | zero =>
      obtain rfl := Except.ok.inj h
      exact { hfound with complete := .inl rfl }
  | succ count ih =>
      obtain ⟨z, hz, h⟩ := bind_eq_ok.mp h
      split at h
      · rename_i hany
        obtain rfl := pure_eq_ok.mp h
        exact { hfound with
          length_le := Nat.le_add_right _ _
          complete := .inr ⟨z, hz, List.any_eq_true.mp hany⟩ }
      · rename_i hany
        have hnext := hfound.concat hz fun w hw =>
          Bool.eq_false_iff.mpr fun heq => hany (List.any_eq_true.mpr ⟨w, hw, heq⟩)
        have hlength : (found ++ [z]).length = found.length + 1 := by simp
        have hrest := ih hnext (hlength ▸ h)
        rwa [hlength, Nat.add_right_comm, Nat.add_assoc] at hrest

end Starts

/-! ### The limit that an index sets -/

/-- The **positive whole number** that a number is, if it is one. -/
def Number.positiveWhole? (z : Number) : Option Nat :=
  match wholePart? z.re with
  | some n => if 0 < n ∧ z.im == 0 then some n.toNat else none
  | none => none

/-- A float that is a positive whole number **is positive**. -/
theorem pos_of_wholePart? {x : Float} {n : Int} (h : wholePart? x = some n) (hn : 0 < n) :
    0 < x := by
  have hfinite : x.isFinite = true := by
    by_contra hnot
    rw [wholePart?, if_pos (by simpa using hnot)] at h
    cases h
  obtain ⟨s, hu⟩ | ⟨negative, y, rfl, hy⟩ := isZero_or_withSign hfinite
  · have hzero : wholePart? x = some 0 := by
      obtain rfl | rfl := eq_zero_or_neg_zero hu <;> decide +kernel
    cases hzero.symm.trans h
    cases hn
  · rw [hy.wholePart?_withSign] at h
    obtain ⟨k, hk, rfl⟩ := Option.map_eq_some_iff.mp h
    obtain ⟨m, e, hm, hu⟩ := hy
    obtain ⟨k, rfl, -, -⟩ := exists_of_wholePart? hu hk
    cases negative with
    | false => exact IsPositive.pos ⟨m, e, hm, hu⟩
    | true =>
        rw [if_pos rfl] at hn
        omega

/-- **The number of candidates**: the index, if it is a positive whole number, but a hundred at
most. -/
theorem rootLimit_eq (index : Number) : Primitive.rootLimit index =
    min (index.positiveWhole?.getD Primitive.mostRoots) Primitive.mostRoots := by
  unfold Primitive.rootLimit Primitive.isWholeNumber Number.positiveWhole?
  cases hwhole : wholePart? index.re with
  | none => simp
  | some n =>
      have hpos : 0 < index.re ↔ 0 < n :=
        ⟨fun h => wholePart_pos h hwhole, pos_of_wholePart? hwhole⟩
      simp only [Option.isSome_some, Bool.true_and, Bool.and_eq_true, decide_eq_true_eq,
        Option.getD_some, gt_iff_lt, hpos, and_comm]
      split <;> simp

/-! ### The roots -/

section Roots

variable {x index : Operand} {n : Number} {zs : List Number}

/-- **The roots** are the longest start without equal numbers of the candidates up to the index, but
of a hundred candidates at most. -/
theorem isLongestStart_of_roots (hindex : index.toNumber = .ok n)
    (h : Primitive.roots x index = .ok zs) : ∃ z p length, x.toNumber = .ok z ∧
      Polar.ofNumber z = .ok p ∧ Primitive.root (.real p.magnitude) (.number n) = .ok length ∧
      IsLongestStart (Primitive.rootCandidate length p.angle n)
        (min (n.positiveWhole?.getD Primitive.mostRoots) Primitive.mostRoots) zs := by
  obtain ⟨n', hn, h⟩ := bind_eq_ok.mp h
  obtain rfl := Except.ok.inj (hindex.symm.trans hn)
  obtain ⟨z, hz, h⟩ := bind_eq_ok.mp h
  obtain ⟨p, hp, h⟩ := bind_eq_ok.mp h
  obtain ⟨w, hw, h⟩ := bind_eq_ok.mp h
  obtain ⟨length, hlength, h⟩ := bind_eq_ok.mp h
  refine ⟨z, p, length, hz, hp, bind_eq_ok.mpr ⟨w, hw, hlength⟩, ?_⟩
  have hnil : IsDistinctStart (Primitive.rootCandidate length p.angle n) ([] : List Number).length
      [] := ⟨nofun, le_rfl, .nil⟩
  have hlongest := isLongestStart_of_distinctCandidates hnil h
  rwa [List.length_nil, Nat.zero_add, rootLimit_eq] at hlongest

/-- **All distinct roots are listed**, if the index is no whole number above a hundred: the roots
are the longest start without equal numbers of the candidates, in their order, and every such start
is part of it. There is one at least. For a positive whole index there are no more roots than it
says, and if all candidates are distinct, they are the roots. -/
theorem roots_longest_start (hindex : index.toNumber = .ok n)
    (hcap : ∀ m, n.positiveWhole? = some m → m ≤ Primitive.mostRoots)
    (h : Primitive.roots x index = .ok zs) : ∃ z p length, x.toNumber = .ok z ∧
      Polar.ofNumber z = .ok p ∧ Primitive.root (.real p.magnitude) (.number n) = .ok length ∧
      let candidate := Primitive.rootCandidate length p.angle n
      let count := n.positiveWhole?.getD Primitive.mostRoots
      IsLongestStart candidate count zs ∧
      (∀ ws, IsDistinctStart candidate count ws → ws <+: zs) ∧ zs ≠ [] ∧
      ∀ m, n.positiveWhole? = some m → zs.length ≤ m ∧
        ∀ ws, IsDistinctStart candidate m ws → ws.length = m → zs = ws := by
  obtain ⟨z, p, length, hz, hp, hlength, hlongest⟩ := isLongestStart_of_roots hindex h
  have hcount : n.positiveWhole?.getD Primitive.mostRoots ≤ Primitive.mostRoots := by
    cases hm : n.positiveWhole? with
    | none => exact le_rfl
    | some m => exact hcap m hm
  rw [min_eq_left hcount] at hlongest
  refine ⟨z, p, length, hz, hp, hlength, hlongest, fun ws => hlongest.isPrefix, roots_ne_nil h,
    fun m hm => ?_⟩
  rw [hm, Option.getD_some] at hlongest
  refine ⟨hlongest.length_le, fun ws hws hall => ?_⟩
  exact ((hlongest.isPrefix hws).eq_of_length_le (hall ▸ hlongest.length_le)).symm

end Roots

/-- The one candidate for the first root of NaN is NaN, and that is the root. -/
theorem roots_longest_start_nan :
    Number.one.positiveWhole? = some 1 ∧
    Primitive.roots (.number Number.nan) (.number Number.one) = .ok [Number.nan] ∧
    ∃ length angle, IsLongestStart (Primitive.rootCandidate length angle Number.one) 1
      [Number.nan] := by
  have hwhole : Number.one.positiveWhole? = some 1 := by decide +kernel
  have hroots : Primitive.roots (.number Number.nan) (.number Number.one) = .ok [Number.nan] := by
    decide +kernel
  have hcap : ∀ m, Number.one.positiveWhole? = some m → m ≤ Primitive.mostRoots := by
    intro m hm
    obtain rfl := Option.some.inj (hwhole.symm.trans hm)
    decide
  obtain ⟨z, p, length, -, -, -, hlongest, -⟩ :=
    roots_longest_start (by decide +kernel) hcap hroots
  rw [hwhole, Option.getD_some] at hlongest
  exact ⟨hwhole, hroots, length, p.angle, hlongest⟩

/-- **A greater index is cut off.** All candidates for a root of NaN are NaN and so distinct. For
the index `10 ^ 15` only a hundred of them are listed, and those are not the longest start of so many
candidates, whatever these are. -/
theorem roots_cut_off : ∃ n, (Operand.whole (10 ^ 15)).toNumber = .ok n ∧
    n.positiveWhole? = some (10 ^ 15) ∧
    Primitive.roots (.number Number.nan) (.whole (10 ^ 15)) =
      .ok (List.replicate 100 Number.nan) ∧
    ∀ candidate, ¬ IsLongestStart candidate (10 ^ 15) (List.replicate 100 Number.nan) := by
  refine ⟨⟨1e15, 0⟩, by decide +kernel, by decide +kernel, by decide +kernel, fun candidate h => ?_⟩
  obtain hlength | ⟨z, -, w, hw, heq⟩ := h.complete
  · rw [List.length_replicate] at hlength
    omega
  · rw [List.eq_of_mem_replicate hw] at heq
    obtain ⟨hre, -⟩ := Bool.and_eq_true_iff.mp heq
    obtain ⟨-, hnan⟩ | ⟨⟨s, hs⟩, -⟩ := float_beq_iff.mp hre
    · exact hnan rfl
    · cases hs

end Argand
