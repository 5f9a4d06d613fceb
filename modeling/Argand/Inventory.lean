/-!
# Inventory

Before it starts, the program can check that the files it needs are in their places. Files are
given by paths from one directory, the root. A path leads through places, and it may take
detours: `.` stays where it is and `..` goes back out. All places that the path of a present
file leads through are there.

## Main definitions

* `Argand.places`: the places that a path leads through.
* `Argand.Inventory`: the needed and the present files, by their paths.
* `Argand.Inventory.missing`: the needed files that are not there.
* `Argand.Inventory.report`: the message about them.

## Main results

* `Argand.Inventory.mem_missing`: which files are missing.
* `Argand.Inventory.isComplete_iff`: the inventory is complete when every needed file is there.
-/

namespace Argand

/-! ### Paths -/

/-- A **place** below the root: the names that lead to it, innermost first. -/
abbrev Place := List String

/-- The places that some names lead through, from a place on, up to where they leave the root. -/
def placesFrom (place : Place) : List String → List Place
  | [] => []
  | name :: rest =>
    if name = "" || name = "." then placesFrom place rest
    else if name = ".." then
      match place with
      | [] => []
      | _ :: outer => outer :: placesFrom outer rest
    else (name :: place) :: placesFrom (name :: place) rest

/-- The **places** that a path leads through. A path with a slash in front does not begin at the
root and leads through none. -/
def places (path : String) : List Place :=
  match path.splitOn "/" with
  | "" :: _ => []
  | names => placesFrom [] names

/-- The place that a path leads to; the root if it leads through none. -/
def placeOf (path : String) : Place :=
  (places path).getLast?.getD []

/-! ### The inventory -/

/-- The files that are **needed** and those that are **present**, by paths from the root. -/
structure Inventory where
  needed : List String
  present : List String
deriving DecidableEq, Repr

namespace Inventory

/-- Whether a file is there. -/
def has (i : Inventory) (path : String) : Bool :=
  i.present.any fun p => (places p).contains (placeOf path)

/-- The needed files that are **not there**, in their order. -/
def missing (i : Inventory) : List String :=
  i.needed.filter fun path => !i.has path

/-- No file is missing. -/
def isComplete (i : Inventory) : Bool :=
  i.missing.isEmpty

/-- A file is there when the path of a present one leads through its place. -/
theorem has_iff {i : Inventory} {path : String} :
    i.has path = true ↔ ∃ p ∈ i.present, placeOf path ∈ places p := by
  simp [has]

theorem mem_missing {i : Inventory} {path : String} :
    path ∈ i.missing ↔ path ∈ i.needed ∧ i.has path = false := by
  simp [missing]

theorem isComplete_iff {i : Inventory} :
    i.isComplete = true ↔ ∀ path ∈ i.needed, i.has path = true := by
  simp [isComplete, missing, List.filter_eq_nil_iff]

/-- The name of a file: its path without the directories. -/
def fileName (path : String) : String :=
  String.ofList (path.toList.reverse.takeWhile (· ≠ '/')).reverse

/-- The **message** about missing files: one line for each, by name. It is empty if there are
none. -/
def report (i : Inventory) : String :=
  if i.isComplete then ""
  else
    "Error: The following files are missing or in the wrong location:\n" ++
      String.join (i.missing.map fun path => "- " ++ fileName path ++ "\n")

end Inventory

end Argand
