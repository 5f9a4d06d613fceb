import Argand.Proofs.Reading

/-!
# Values in a field

The value of a formula, read in a field, is one element or a list of them. An operation on values
is carried out on every combination, those of the first value outermost. The calculator leaves
out repeats; `Value.distinct` does so afterwards, and it makes no difference whether the repeats
in the operands are left out first.

## Main definitions

* `Argand.Value.map`, `Argand.Value.product`: functions on values.
* `Argand.Value.distinct`: a value without repeats.

## Main results

* `Argand.Value.distinct_product`: repeats in the operands make no difference.
* `Argand.distinct_combineValues`: an exact operation gives the combinations without repeats.
-/

namespace Argand

/-! ### Lists without repeats -/

section EraseDups

variable {K : Type} [BEq K] [LawfulBEq K]

/-- What is left of a list has no repeats. -/
theorem nodup_eraseDups (xs : List K) : xs.eraseDups.Nodup := by
  induction hn : xs.length using Nat.strong_induction_on generalizing xs with
  | _ n ih =>
      cases xs with
      | nil => exact .nil
      | cons a xs =>
          rw [List.eraseDups_cons, List.nodup_cons, List.mem_eraseDups]
          refine ⟨by simp, ih _ ?_ _ rfl⟩
          have := List.length_filter_le (fun b => !b == a) xs
          simp only [List.length_cons] at hn
          omega

/-- A list without repeats is left alone. -/
theorem eraseDups_eq_self {xs : List K} (h : xs.Nodup) : xs.eraseDups = xs := by
  induction xs with
  | nil => rfl
  | cons a xs ih =>
      obtain ⟨ha, hxs⟩ := List.nodup_cons.mp h
      have hfilter : xs.filter (fun b => !b == a) = xs := by
        refine List.filter_eq_self.mpr fun b hb => ?_
        have hne : b ≠ a := fun hba => ha (hba ▸ hb)
        simpa using hne
      rw [List.eraseDups_cons, hfilter, ih hxs]

/-- Items that came before can be left out. -/
theorem eraseDups_append_of_subset {p xs : List K} (h : ∀ a ∈ xs, a ∈ p) (ys : List K) :
    (p ++ (xs ++ ys)).eraseDups = (p ++ ys).eraseDups := by
  have hxs : xs.removeAll p = [] :=
    List.filter_eq_nil_iff.mpr fun a ha => by simpa using h a ha
  have hys : ys.removeAll (p ++ xs) = ys.removeAll p := by
    refine List.filter_congr fun a _ => ?_
    have hmem : a ∈ p ++ xs ↔ a ∈ p := by
      rw [List.mem_append]
      exact or_iff_left_of_imp (h a)
    simp only [List.elem_eq_mem, hmem]
  rw [← List.append_assoc, List.eraseDups_append, List.eraseDups_append, hxs, hys,
    List.eraseDups_nil, List.append_nil, List.eraseDups_append]

section FlatMap

variable {J : Type} [BEq J] [LawfulBEq J]

/-- Items whose images came before can be left out. -/
theorem eraseDups_flatMap_removeAll {g : J → List K} {p : List K} {seen : List J}
    (h : ∀ a ∈ seen, ∀ c ∈ g a, c ∈ p) (xs : List J) :
    (p ++ (xs.removeAll seen).flatMap g).eraseDups = (p ++ xs.flatMap g).eraseDups := by
  induction xs generalizing p with
  | nil => rfl
  | cons a xs ih =>
      by_cases ha : a ∈ seen
      · rw [List.cons_removeAll, if_neg (by simpa using ha), List.flatMap_cons,
          eraseDups_append_of_subset (h a ha), ih h]
      · rw [List.cons_removeAll, if_pos (by simpa using ha), List.flatMap_cons,
          List.flatMap_cons, ← List.append_assoc, ← List.append_assoc]
        exact ih fun b hb c hc => List.mem_append_left _ (h b hb c hc)

/-- Repeats in a list make no difference to its images. -/
theorem eraseDups_flatMap_eraseDups (g : J → List K) (p : List K) (xs : List J) :
    (p ++ xs.eraseDups.flatMap g).eraseDups = (p ++ xs.flatMap g).eraseDups := by
  induction hn : xs.length using Nat.strong_induction_on generalizing xs p with
  | _ n ih =>
      cases xs with
      | nil => rfl
      | cons a xs =>
          have hfilter : xs.filter (fun b => !b == a) = xs.removeAll [a] :=
            List.filter_congr fun b _ => by simp
          have hlength : (xs.removeAll [a]).length < n := by
            have := List.length_filter_le (fun b => !b == a) xs
            rw [hfilter] at this
            simp only [List.length_cons] at hn
            omega
          have hseen : ∀ b ∈ [a], ∀ c ∈ g b, c ∈ p ++ g a := by
            intro b hb c hc
            obtain rfl := List.mem_singleton.mp hb
            exact List.mem_append_right _ hc
          rw [List.eraseDups_cons, hfilter, List.flatMap_cons, List.flatMap_cons,
            ← List.append_assoc, ← List.append_assoc, ih _ hlength _ _ rfl,
            eraseDups_flatMap_removeAll hseen]

end FlatMap

/-- Repeats in a second part make no difference. -/
theorem eraseDups_append_eraseDups (p xs : List K) :
    (p ++ xs.eraseDups).eraseDups = (p ++ xs).eraseDups := by
  simpa using eraseDups_flatMap_eraseDups (fun a => [a]) p xs

/-- Images with the same items, up to repeats, are the same up to repeats. -/
theorem eraseDups_flatMap_congr {J : Type} {g h : J → List K}
    (hgh : ∀ a, (g a).eraseDups = (h a).eraseDups) (p : List K) (xs : List J) :
    (p ++ xs.flatMap g).eraseDups = (p ++ xs.flatMap h).eraseDups := by
  induction xs generalizing p with
  | nil => rfl
  | cons a xs ih =>
      have happend (q : List K) :
          (p ++ g a ++ q).eraseDups = (p ++ h a ++ q).eraseDups := by
        have hpa : (p ++ g a).eraseDups = (p ++ h a).eraseDups := by
          rw [← eraseDups_append_eraseDups, hgh, eraseDups_append_eraseDups]
        have hq : q.removeAll (p ++ g a) = q.removeAll (p ++ h a) := by
          refine List.filter_congr fun b _ => ?_
          have hmem : b ∈ p ++ g a ↔ b ∈ p ++ h a := by
            rw [← List.mem_eraseDups, hpa, List.mem_eraseDups]
          simp only [List.elem_eq_mem, hmem]
        calc (p ++ g a ++ q).eraseDups
            = (p ++ g a).eraseDups ++ (q.removeAll (p ++ g a)).eraseDups := List.eraseDups_append
          _ = (p ++ h a).eraseDups ++ (q.removeAll (p ++ h a)).eraseDups := by rw [hpa, hq]
          _ = (p ++ h a ++ q).eraseDups := List.eraseDups_append.symm
      rw [List.flatMap_cons, List.flatMap_cons, ← List.append_assoc, ← List.append_assoc,
        ih, happend]

/-- Repeats in two lists make no difference to their combinations. -/
theorem eraseDups_combinations {I J : Type} [BEq I] [LawfulBEq I] [BEq J] [LawfulBEq J]
    (f : I → J → K) (xs : List I) (ys : List J) :
    (xs.eraseDups.flatMap fun a => ys.eraseDups.map (f a)).eraseDups =
      (xs.flatMap fun a => ys.map (f a)).eraseDups := by
  have hrow (a : I) : (ys.eraseDups.map (f a)).eraseDups = (ys.map (f a)).eraseDups := by
    rw [List.map_eq_flatMap, List.map_eq_flatMap]
    exact eraseDups_flatMap_eraseDups (fun b => [f a b]) [] ys
  calc (xs.eraseDups.flatMap fun a => ys.eraseDups.map (f a)).eraseDups
      = (xs.eraseDups.flatMap fun a => ys.map (f a)).eraseDups :=
        eraseDups_flatMap_congr hrow [] _
    _ = (xs.flatMap fun a => ys.map (f a)).eraseDups := eraseDups_flatMap_eraseDups _ [] xs

end EraseDups

/-! ### Values -/

namespace Value

variable {α β γ δ : Type}

/-- A function on each number of a value. -/
def map (f : α → β) : Value α → Value β
  | one a => one (f a)
  | many as => many (as.map f)

/-- A function on **all combinations** of the numbers of two values: a single one for single
numbers. -/
def product (f : α → β → γ) : Value α → Value β → Value γ
  | one a, one b => one (f a b)
  | x, y => many (x.items.flatMap fun a => y.items.map (f a))

/-- Whether a value is a list. -/
def isList : Value α → Bool
  | one _ => false
  | many _ => true

/-- A value **without repeats**. -/
def distinct [BEq α] : Value α → Value α
  | one a => one a
  | many as => many as.eraseDups

@[simp] theorem items_map (f : α → β) (v : Value α) : (v.map f).items = v.items.map f := by
  cases v <;> rfl

@[simp] theorem map_map (g : β → γ) (f : α → β) (v : Value α) :
    (v.map f).map g = v.map fun a => g (f a) := by
  cases v <;> simp [map]

@[simp] theorem map_id (v : Value α) : v.map (fun a => a) = v := by
  cases v <;> simp [map]

theorem map_congr {f g : α → β} (hfg : ∀ a, f a = g a) (v : Value α) : v.map f = v.map g :=
  congrArg (v.map ·) (funext hfg)

theorem product_congr {f g : α → β → γ} (hfg : ∀ a b, f a b = g a b) (x : Value α)
    (y : Value β) : product f x y = product g x y :=
  congrArg (product · x y) (funext fun a => funext (hfg a))

@[simp] theorem items_product (f : α → β → γ) (x : Value α) (y : Value β) :
    (product f x y).items = x.items.flatMap fun a => y.items.map (f a) := by
  cases x <;> cases y <;> simp [product, items]

@[simp] theorem product_one_left (f : α → β → γ) (a : α) (y : Value β) :
    product f (one a) y = y.map (f a) := by
  cases y <;> simp [product, map, items]

@[simp] theorem product_one_right (f : α → β → γ) (x : Value α) (b : β) :
    product f x (one b) = x.map (f · b) := by
  cases x <;> simp [product, map, items, List.map_eq_flatMap]

/-- Functions on the operands of a combination become part of it. -/
@[simp] theorem product_map (f : γ → δ → β) {α' : Type} (g : α → γ) (h : α' → δ) (x : Value α)
    (y : Value α') :
    product f (x.map g) (y.map h) = product (fun a b => f (g a) (h b)) x y := by
  cases x <;> cases y <;> simp [product, map, items, List.flatMap_map, Function.comp_def]

/-- A function on a combination becomes part of it. -/
@[simp] theorem map_product (g : γ → δ) (f : α → β → γ) (x : Value α) (y : Value β) :
    (product f x y).map g = product (fun a b => g (f a b)) x y := by
  cases x <;> cases y <;> simp [product, map, items, List.map_flatMap, Function.comp_def]

/-- A list of one taken as the number in it. -/
def unwrapped : Value α → Value α
  | many [a] => one a
  | v => v

@[simp] theorem items_unwrapped (v : Value α) : v.unwrapped.items = v.items := by
  unfold unwrapped
  split <;> rfl

/-- A value that is no list of one is left alone. -/
theorem unwrapped_eq_self {v : Value α} (h : ∀ a, v ≠ many [a]) : v.unwrapped = v := by
  unfold unwrapped
  split
  · exact absurd rfl (h _)
  · rfl

theorem unwrapped_map (f : α → β) (v : Value α) : (v.map f).unwrapped = v.unwrapped.map f := by
  rcases v with a | (- | ⟨a, - | ⟨b, rest⟩⟩) <;> rfl

section Distinct

variable [BEq α] [LawfulBEq α] [BEq β] [LawfulBEq β] [BEq γ] [LawfulBEq γ]

omit [LawfulBEq α] in
@[simp] theorem items_distinct (v : Value α) : v.distinct.items = v.items.eraseDups := by
  cases v with
  | one a => simp [distinct, items, List.eraseDups_cons]
  | many as => rfl

/-- A value without repeats is left alone. -/
theorem distinct_eq_self {v : Value α} (h : v.items.Nodup) : v.distinct = v := by
  cases v with
  | one a => rfl
  | many as => exact congrArg many (eraseDups_eq_self h)

omit [LawfulBEq β] [LawfulBEq γ] [BEq β] [BEq γ] in
@[simp] theorem distinct_distinct (v : Value α) : v.distinct.distinct = v.distinct := by
  refine distinct_eq_self ?_
  rw [items_distinct]
  exact nodup_eraseDups _

/-- **Repeats in the operands** make no difference, up to repeats. -/
theorem distinct_product (f : α → β → γ) (x : Value α) (y : Value β) :
    (product f x.distinct y.distinct).distinct = (product f x y).distinct := by
  have h := eraseDups_combinations f x.items y.items
  cases x with
  | one a =>
      cases y with
      | one b => rfl
      | many bs => simpa [product, distinct, items, List.eraseDups_cons] using h
  | many as =>
      cases y with
      | one b => simpa [product, distinct, items, List.eraseDups_cons] using h
      | many bs => exact congrArg many h

end Distinct

end Value

/-! ### Exact operations -/

section Exact

variable {α K : Type} {val : α → K}

/-- Items computed one by one are read as the images of the readings. -/
theorem map_eq_of_mapM {f : α → Except Fault α} {g : K → K}
    (hf : ∀ a b, f a = .ok b → val b = g (val a)) {as bs : List α} (h : as.mapM f = .ok bs) :
    bs.map val = (as.map val).map g := by
  rw [mapM_eq_ok] at h
  induction h with
  | nil => rfl
  | cons hab _ ih => exact congrArg₂ List.cons (hf _ _ hab) ih

/-- A mapped value is read as the map of its reading. -/
theorem map_eq_of_valueMapM {f : α → Except Fault α} {g : K → K}
    (hf : ∀ a b, f a = .ok b → val b = g (val a)) {v w : Value α} (h : v.mapM f = .ok w) :
    w.map val = (v.map val).map g := by
  cases v with
  | one a =>
      obtain ⟨b, hb, rfl⟩ := map_eq_ok.mp h
      exact congrArg Value.one (hf a b hb)
  | many as =>
      obtain ⟨bs, hbs, rfl⟩ := map_eq_ok.mp h
      exact congrArg Value.many (map_eq_of_mapM hf hbs)

variable [Field K] [DecidableEq K] {A : Arithmetic α} (hA : A.IsExact val)

/-- A step **collects** numbers: it adds them to those kept before and leaves out repeats. -/
def Collects (val : α → K) (f : List α → Except Fault (List α)) (new : List K) : Prop :=
  ∀ kept kept' seen, kept.map val = seen.eraseDups → f kept = .ok kept' →
    kept'.map val = (seen ++ new).eraseDups

omit [Field K] in
/-- A loop collects what its steps collect. -/
theorem Collects.foldlM {γ : Type} {f : List α → γ → Except Fault (List α)} {g : γ → List K}
    {xs : List γ} (h : ∀ x ∈ xs, Collects val (f · x) (g x)) :
    Collects val (fun kept => xs.foldlM f kept) (xs.flatMap g) := by
  intro kept kept' seen hkept hf
  induction xs generalizing kept seen with
  | nil =>
      obtain rfl := pure_eq_ok.mp hf
      simpa using hkept
  | cons x xs ih =>
      have hsteps : (x :: xs).foldlM f kept = .ok kept' := hf
      rw [List.foldlM_cons] at hsteps
      obtain ⟨kept₁, h₁, hsteps⟩ := bind_eq_ok.mp hsteps
      have hkept₁ := h x List.mem_cons_self kept kept₁ seen hkept h₁
      rw [List.flatMap_cons, ← List.append_assoc]
      exact ih (fun y hy => h y (List.mem_cons_of_mem _ hy)) kept₁ _ hkept₁ hsteps

include hA

omit [DecidableEq K] in
/-- Looking for an equal number is exact. -/
theorem anyM_equals {kept : List α} {item : α} {t : Bool}
    (h : kept.anyM (A.equals · item) = .ok t) : t = true ↔ val item ∈ kept.map val := by
  induction kept with
  | nil =>
      obtain rfl := pure_eq_ok.mp h
      simp
  | cons a kept ih =>
      rw [List.anyM_cons, bind_eq_ok] at h
      obtain ⟨t', ht', h⟩ := h
      rw [List.map_cons, List.mem_cons, eq_comm (a := val item), ← hA.equals ht']
      cases t' with
      | true =>
          obtain rfl := pure_eq_ok.mp h
          simp
      | false => simpa using ih h

/-- A number is kept unless it is a repeat. -/
theorem collects_keepDistinct (item : α) :
    Collects val (keepDistinct A.equals · item) [val item] := by
  intro kept kept' seen hkept h
  unfold keepDistinct at h
  obtain ⟨t, ht, h⟩ := bind_eq_ok.mp h
  have hmem : t = true ↔ val item ∈ seen := by
    rw [anyM_equals hA ht, hkept, List.mem_eraseDups]
  rw [List.eraseDups_append]
  cases t with
  | true =>
      obtain rfl := pure_eq_ok.mp h
      simp [List.removeAll, hmem.mp rfl, hkept]
  | false =>
      obtain rfl := pure_eq_ok.mp h
      have hnot : val item ∉ seen := fun h => Bool.false_ne_true (hmem.mpr h)
      simp [List.removeAll, hnot, hkept, List.eraseDups_cons]

/-- An exact operation on all combinations collects its results. -/
theorem map_eq_of_lift {f : α → α → Except Fault α} {g : K → K → K}
    (hf : ∀ a b c, f a b = .ok c → val c = g (val a) (val b)) {x y : Value α} {items : List α}
    (h : lift A.equals (fun a b => (f a b).map .one) x y = .ok items) :
    items.map val = ((x.map val).items.flatMap fun a => (y.map val).items.map (g a)).eraseDups := by
  have hinner (a b : α) : Collects val (fun kept => do
      (← (f a b).map Value.one).items.foldlM (keepDistinct A.equals) kept) [g (val a) (val b)] := by
    intro kept kept' seen hkept h
    obtain ⟨w, hw, h⟩ := bind_eq_ok.mp h
    obtain ⟨c, hc, rfl⟩ := map_eq_ok.mp hw
    rw [← hf a b c hc]
    have hone : Collects val (fun kept => [c].foldlM (keepDistinct A.equals) kept)
        ([c].flatMap fun c => [val c]) := .foldlM fun c _ => collects_keepDistinct hA c
    exact hone kept kept' seen hkept h
  have houter : Collects val (fun kept => x.items.foldlM (fun kept a =>
      y.items.foldlM (fun kept b => do
        (← (f a b).map Value.one).items.foldlM (keepDistinct A.equals) kept) kept) kept)
      (x.items.flatMap fun a => y.items.flatMap fun b => [g (val a) (val b)]) :=
    .foldlM fun a _ => .foldlM fun b _ => hinner a b
  rw [houter [] items [] rfl h, List.nil_append, Value.items_map, Value.items_map,
    List.flatMap_map]
  simp only [List.map_map, Function.comp_def, ← List.map_eq_flatMap]

/-- **An exact operation** on two values gives its results for all combinations without repeats. -/
theorem map_eq_of_combineValues {f : α → α → Except Fault α} {g : K → K → K}
    (hf : ∀ a b c, f a b = .ok c → val c = g (val a) (val b)) {x y w : Value α}
    (h : combineValues A.equals f x y = .ok w) :
    w.map val = (Value.product g (x.map val) (y.map val)).distinct := by
  have lifted (h : (lift A.equals (fun a b => (f a b).map .one) x y).map .many = .ok w) :
      w.map val = .many ((x.map val).items.flatMap fun a =>
        (y.map val).items.map (g a)).eraseDups := by
    obtain ⟨items, hitems, rfl⟩ := map_eq_ok.mp h
    exact congrArg Value.many (map_eq_of_lift hA hf hitems)
  cases x with
  | one a =>
      cases y with
      | one b =>
          obtain ⟨c, hc, rfl⟩ := map_eq_ok.mp h
          exact congrArg Value.one (hf a b c hc)
      | many bs => exact lifted h
  | many as => exact lifted h

end Exact

end Argand
