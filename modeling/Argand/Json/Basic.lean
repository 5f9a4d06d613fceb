import Argand.Decimal.Text
import Argand.Text.Quoted

/-!
# Structured values

Settings are structured values: null, truth values, whole numbers of any size, floats, texts,
lists and records. A record keeps its entries in the order in which their keys first came.

## Main definitions

* `Argand.Json`: the values.
* `Argand.Entries`: the entries of a record, with `Entries.get?` and `Entries.insert`.
* `Argand.Json.kind`: the kind of a value as messages call it.
* `Argand.Json.describe`: a value as messages show it.
* `Argand.Json.same`: equality of values.
* `Argand.Json.identical`: being one and the same value, part by part.
-/

namespace Argand

/-- A **structured value**. -/
inductive Json where
  | null
  | truth (b : Bool)
  | whole (n : Int)
  | real (x : Float)
  | text (s : String)
  | list (items : List Json)
  | record (entries : List (String × Json))
  /-- Something that has no written form. -/
  | foreign
deriving Inhabited, Repr

/-! ### Entries -/

/-- Entries under distinct texts as keys, in the order in which the keys first came. -/
abbrev Entries (β : Type) := List (String × β)

namespace Entries

variable {κ β : Type} [BEq κ]

/-- The value under a key. -/
def get? (entries : List (κ × β)) (key : κ) : Option β :=
  (entries.find? (·.1 == key)).map (·.2)

/-- The value under a key is set: in place if an equal key is there, which stays as it is, else
at the end. -/
def insert (entries : List (κ × β)) (key : κ) (value : β) : List (κ × β) :=
  match entries with
  | [] => [(key, value)]
  | (k, v) :: rest => if k == key then (k, value) :: rest else (k, v) :: insert rest key value

/-- The entries without a key. -/
def erase (entries : List (κ × β)) (key : κ) : List (κ × β) :=
  entries.filter (·.1 != key)

/-- One set of entries overlaid by another. -/
def overlay (below above : List (κ × β)) : List (κ × β) :=
  above.foldl (fun entries (k, v) => insert entries k v) below

/-- The entries of a list of pairs, of which the last for a key counts. -/
def ofPairs (pairs : List (κ × β)) : List (κ × β) :=
  overlay [] pairs

@[simp] theorem get?_nil (key : κ) : get? ([] : List (κ × β)) key = none := rfl

theorem get?_cons (k : κ) (v : β) (rest : List (κ × β)) (key : κ) :
    get? ((k, v) :: rest) key = if k == key then some v else get? rest key := by
  unfold get?
  simp only [List.find?_cons]
  cases k == key <;> simp

/-- After an insertion the key has the new value, and every other key its old one. -/
theorem get?_insert [EquivBEq κ] (entries : List (κ × β)) (key : κ) (value : β) (k : κ) :
    get? (insert entries key value) k = if key == k then some value else get? entries k := by
  induction entries with
  | nil => simp [insert, get?_cons]
  | cons e rest ih =>
    obtain ⟨k', v'⟩ := e
    simp only [insert]
    by_cases h : k' == key
    · have hk : (k' == k) = (key == k) := BEq.congr_left h
      simp only [h, if_true, get?_cons, hk]
      by_cases h2 : key == k <;> simp [h2]
    · simp only [h, Bool.false_eq_true, if_false, get?_cons, ih]
      by_cases h2 : key == k
      · have hk : (k' == k) = (k' == key) := (BEq.congr_right h2).symm
        simp [h2, hk, h]
      · simp [h2]

theorem get?_insert_self [EquivBEq κ] (entries : List (κ × β)) (key : κ) (value : β) :
    get? (insert entries key value) key = some value := by
  rw [get?_insert, if_pos BEq.rfl]

theorem get?_insert_of_ne [LawfulBEq κ] {entries : List (κ × β)} {key k : κ} {value : β}
    (h : k ≠ key) : get? (insert entries key value) k = get? entries k := by
  rw [get?_insert, if_neg]
  simpa using h.symm

end Entries

namespace Json

/-! ### Description -/

/-- The **kind** of a value as messages call it. -/
def kind : Json → String
  | null => "NoneType"
  | truth _ => "bool"
  | whole _ => "int"
  | real _ => "float"
  | text _ => "str"
  | list _ => "list"
  | record _ => "dict"
  | foreign => "object"

mutual

/-- A value **as messages show it**. -/
def describe : Json → String
  | null => "None"
  | truth b => if b then "True" else "False"
  | whole n => toString n
  | real x => floatText x
  | text s => Text.quote s
  | list items => "[" ++ describeItems items ++ "]"
  | record entries => "\x7b" ++ describeEntries entries ++ "\x7d"
  | foreign => "<object object>"

/-- The values of a list, separated by commas. -/
def describeItems : List Json → String
  | [] => ""
  | [x] => describe x
  | x :: rest => describe x ++ ", " ++ describeItems rest

/-- The entries of a record, separated by commas. -/
def describeEntries : List (String × Json) → String
  | [] => ""
  | [(k, v)] => Text.quote k ++ ": " ++ describe v
  | (k, v) :: rest => Text.quote k ++ ": " ++ describe v ++ ", " ++ describeEntries rest

end

/-! ### Equality -/

/-- A value as a number, truth values as zero and one: whole, or a float. -/
def asNumber? : Json → Option (Int ⊕ Float)
  | truth b => some (.inl (if b then 1 else 0))
  | whole n => some (.inl n)
  | real x => some (.inr x)
  | _ => none

mutual

/-- **Equality** of values: numbers by their exact values, records without regard to order. -/
def same : Json → Json → Bool
  | null, null => true
  | text s, text t => s == t
  | list xs, list ys => sameItems xs ys
  | record xs, record ys => xs.length == ys.length && sameEntries xs ys
  | v, w =>
    match v.asNumber?, w.asNumber? with
    | some (.inl n), some (.inl m) => n == m
    | some (.inl n), some (.inr x) | some (.inr x), some (.inl n) => wholePart? x == some n
    | some (.inr x), some (.inr y) => x == y
    | _, _ => false

/-- Equality of several values in order. -/
def sameItems : List Json → List Json → Bool
  | [], [] => true
  | x :: xs, y :: ys => same x y && sameItems xs ys
  | _, _ => false

/-- Every entry of the first record is equal to one of the second. -/
def sameEntries : List (String × Json) → List (String × Json) → Bool
  | [], _ => true
  | (k, v) :: rest, ys =>
    (match Entries.get? ys k with
      | some w => same v w
      | none => false) && sameEntries rest ys

end

/-! ### Identity -/

mutual

/-- Whether two values are **one and the same**: of one form, with the same parts. -/
def identical : Json → Json → Bool
  | null, null | foreign, foreign => true
  | truth b, truth c => b == c
  | whole n, whole m => n == m
  | real x, real y => decide (x = y)
  | text s, text t => s == t
  | list xs, list ys => identicalItems xs ys
  | record xs, record ys => identicalEntries xs ys
  | _, _ => false

/-- Whether the values of two lists are the same. -/
def identicalItems : List Json → List Json → Bool
  | [], [] => true
  | x :: xs, y :: ys => identical x y && identicalItems xs ys
  | _, _ => false

/-- Whether the entries of two records are the same. -/
def identicalEntries : List (String × Json) → List (String × Json) → Bool
  | [], [] => true
  | (k, x) :: xs, (l, y) :: ys => k == l && identical x y && identicalEntries xs ys
  | _, _ => false

end

mutual

/-- Values are one and the same exactly if they are equal terms. -/
theorem identical_iff (x y : Json) : identical x y = true ↔ x = y := by
  cases x with
  | list xs => cases y <;> simp [identical, identicalItems_iff xs]
  | record xs => cases y <;> simp [identical, identicalEntries_iff xs]
  | _ => cases y <;> simp [identical]

theorem identicalItems_iff (xs ys : List Json) : identicalItems xs ys = true ↔ xs = ys := by
  cases xs with
  | nil => cases ys <;> simp [identicalItems]
  | cons x xs => cases ys <;> simp [identicalItems, identical_iff x, identicalItems_iff xs]

theorem identicalEntries_iff (xs ys : List (String × Json)) :
    identicalEntries xs ys = true ↔ xs = ys := by
  cases xs with
  | nil => cases ys <;> simp [identicalEntries]
  | cons x xs =>
      obtain ⟨k, x⟩ := x
      cases ys with
      | nil => simp [identicalEntries]
      | cons y ys =>
          obtain ⟨l, y⟩ := y
          simp [identicalEntries, identical_iff x, identicalEntries_iff xs]

end

instance : DecidableEq Json := fun x y => decidable_of_iff _ (identical_iff x y)

/-! ### Truth -/

/-- A value that counts as **nothing**: null, false, zero, and an empty text, list or record. -/
def isVoid : Json → Bool
  | null => true
  | truth b => !b
  | whole n => n = 0
  | real x => x == 0
  | text s => s.isEmpty
  | list items => items.isEmpty
  | record entries => entries.isEmpty
  | foreign => false

/-- A value that counts as **set**: true, or a number equal to one. -/
def isSet : Json → Bool
  | truth b => b
  | whole n => n = 1
  | real x => x == 1
  | _ => false

/-- A value that counts as **unset**: false, or a number equal to zero. -/
def isUnset : Json → Bool
  | truth b => !b
  | whole n => n = 0
  | real x => x == 0
  | _ => false

end Json

end Argand
