import Argand.Json.Writer

/-!
# Keys of settings

The keys of a record are texts. Settings may also come as a list of pairs, and then any plain
value can be a key. Keys that are numbers are equal if their values are, with truth values as
zero and one, so that a key may have several written forms.

## Main definitions

* `Argand.Key`: the keys, with `Key.ofJson` and `Key.toJson`.
* `Argand.Key.identity`: what decides whether two keys are equal.
* `Argand.Key.written`, `Argand.Key.shown`: a key in a settings text, and in running text.
* `Argand.Settings`: values under keys, with `Settings.ofEntries`, `toJson` and `describe`.

## Main results

* `Argand.Key.beq_iff`: keys are equal if and only if they have the same identity.
* `Argand.Key.text_beq_text`: keys that are texts are equal if and only if the texts are.
-/

namespace Argand

/-- A **key** of a setting. -/
inductive Key where
  | text (s : String)
  | whole (n : Int)
  | real (x : Float)
  | truth (b : Bool)
  | null
deriving Inhabited, Repr

instance : Coe String Key := ⟨Key.text⟩

namespace Key

/-! ### Identity -/

/-- What a key stands for, whatever its form. -/
inductive Identity where
  | text (s : String)
  | whole (n : Int)
  /-- A float that is no whole number, by its bits. -/
  | broken (bits : UInt64)
  | null
deriving DecidableEq, Repr

/-- The **identity** of a key. -/
def identity : Key → Identity
  | text s => .text s
  | whole n => .whole n
  | real x =>
    match wholePart? x with
    | some n => .whole n
    | none => .broken x.toBits
  | truth b => .whole (if b then 1 else 0)
  | null => .null

instance : BEq Key := ⟨fun k l => decide (k.identity = l.identity)⟩

/-- Keys are equal if and only if they have the same identity. -/
theorem beq_iff {k l : Key} : (k == l) = true ↔ k.identity = l.identity :=
  decide_eq_true_iff

instance : EquivBEq Key where
  rfl := beq_iff.2 rfl
  symm h := beq_iff.2 (beq_iff.1 h).symm
  trans h h' := beq_iff.2 ((beq_iff.1 h).trans (beq_iff.1 h'))

/-- Keys that are texts are equal if and only if the texts are. -/
theorem text_beq_text {s t : String} : (text s == text t) = true ↔ s = t := by
  simp [beq_iff, identity]

/-! ### Forms -/

/-- The key that a value is; lists and records are none. -/
def ofJson : Json → Except Fault Key
  | .text s => .ok (text s)
  | .whole n => .ok (whole n)
  | .real x => .ok (real x)
  | .truth b => .ok (truth b)
  | .null => .ok null
  | v => .error (.notAKey v.kind)

/-- A key as a value. -/
def toJson : Key → Json
  | text s => .text s
  | whole n => .whole n
  | real x => .real x
  | truth b => .truth b
  | null => .null

/-- A key **as a settings text writes it**, where all keys are texts. -/
def written : Key → String
  | text s => s
  | k => k.toJson.flat

/-- A key **in running text**. -/
def shown : Key → String
  | text s => s
  | k => k.toJson.describe

end Key

/-! ### Settings -/

/-- **Settings**: values under distinct keys, in the order in which the keys first came. -/
abbrev Settings := List (Key × Json)

namespace Settings

/-- The settings of a record. -/
def ofEntries (entries : Entries Json) : Settings :=
  entries.map fun (k, v) => (.text k, v)

/-- Settings as a record, with their keys as written. -/
def toJson (settings : Settings) : Json :=
  .record (settings.map fun (k, v) => (k.written, v))

/-- Settings as messages show them. -/
def describe (settings : Settings) : String :=
  "\x7b" ++ ", ".intercalate (settings.map fun (k, v) => k.toJson.describe ++ ": " ++ v.describe) ++
    "\x7d"

end Settings

end Argand
