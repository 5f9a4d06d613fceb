import Argand.Proofs.Saved

/-!
# Single settings and all settings

All settings are the defaults overlaid with the record that the settings file holds; a single one is
looked up in the record first and then among the defaults. The keys of a record that was read are
distinct, so both ways find the same value, and for a key that neither has both find none, which
counts as zero.

A file that is missing or not structured text counts as an empty record. One whose text is another
structured value does not: all settings may be read from it, if it is a list of pairs, but no single
one. Nor is there any setting in a file with a number that is too long.

## Main definitions

* `Argand.SettingsFile.IsVoid`: the file is missing or not structured text.
* `Argand.SettingsFile.HoldsRecord`: the file holds a record.

## Main results

* `Argand.SettingsFile.exists_record_iff`: in these two cases there is a record to look in.
* `Argand.SettingsFile.get_agrees_with_all`: just then the two ways agree.
* `Argand.SettingsFile.list_not_looked_up`: an empty list has all settings and no single one.
-/

namespace Argand.SettingsFile

/-- The file **holds no structured text**: it is missing, or its text is not of the form. -/
def IsVoid (file : SettingsFile) : Prop :=
  valueOf file.text = .ok none

/-- The file **holds a record**. -/
def HoldsRecord (file : SettingsFile) : Prop :=
  ∃ entries, valueOf file.text = .ok (some (.record entries))

variable {file : SettingsFile}

/-- A void file counts as an empty record. -/
theorem IsVoid.value_eq (h : file.IsVoid) : file.value = .ok (.record []) := by
  rw [value, show valueOf file.text = .ok none from h]
  rfl

/-- **There is a record to look in** if the file is void or holds one. -/
theorem exists_record_iff :
    (∃ entries, file.value = .ok (.record entries)) ↔ file.IsVoid ∨ file.HoldsRecord := by
  constructor
  · rintro ⟨entries, hvalue⟩
    obtain ⟨held, hheld, hvalue⟩ := bind_eq_ok.mp hvalue
    cases held with
    | none => exact .inl hheld
    | some v =>
        obtain rfl : v = .record entries := pure_eq_ok.mp hvalue
        exact .inr ⟨entries, hheld⟩
  · rintro (hvoid | ⟨entries, hheld⟩)
    · exact ⟨[], hvoid.value_eq⟩
    · refine ⟨entries, ?_⟩
      rw [value, hheld]
      rfl

section Record

variable {entries : Entries Json} (h : file.value = .ok (.record entries))

include h

/-- A single setting is looked up in the record, then among the defaults. -/
theorem get_of_record (key : Key) : file.get key =
    .ok ((Entries.get? (Settings.ofEntries entries) key).getD
      ((Entries.get? defaultSettings key).getD (.whole 0))) := by
  rw [get, h]
  rfl

/-- All settings are the defaults overlaid with the record. -/
theorem all_of_record :
    file.all = .ok (Entries.overlay defaultSettings (Settings.ofEntries entries)) := by
  rw [all, h]
  rfl

/-- In a record **a single setting is found as among all of them**. -/
theorem get_eq_of_record : ∃ settings, file.all = .ok settings ∧
    ∀ key, file.get key = .ok ((Entries.get? settings key).getD (.whole 0)) := by
  refine ⟨_, all_of_record h, fun key => ?_⟩
  rw [get_of_record h, Entries.get?_overlay (areDistinct_ofEntries (hasDistinctKeys_value h))]
  cases Entries.get? (Settings.ofEntries entries) key <;> rfl

end Record

variable (file)

/-- **The two ways of reading a setting agree** if and only if the file is missing, holds no
structured text or holds a record: then all settings can be read, and a single one is what stands
under its key among them, or zero. Without a record to look in no single setting can be read. A void
file gives the defaults. -/
theorem get_agrees_with_all :
    ((∃ settings, file.all = .ok settings ∧
        ∀ key, file.get key = .ok ((Entries.get? settings key).getD (.whole 0))) ↔
      file.IsVoid ∨ file.HoldsRecord) ∧
    (∀ key, (∃ v, file.get key = .ok v) ↔ file.IsVoid ∨ file.HoldsRecord) ∧
    (file.IsVoid → file.all = .ok defaultSettings) := by
  have hread (key : Key) : (∃ v, file.get key = .ok v) ↔ file.IsVoid ∨ file.HoldsRecord := by
    rw [← exists_record_iff]
    constructor
    · rintro ⟨v, hv⟩
      exact exists_record_of_get hv
    · rintro ⟨entries, hvalue⟩
      obtain ⟨settings, -, hget⟩ := get_eq_of_record hvalue
      exact ⟨_, hget key⟩
  refine ⟨⟨?_, fun h => ?_⟩, hread, fun h => ?_⟩
  · rintro ⟨settings, -, hget⟩
    exact (hread .null).mp ⟨_, hget .null⟩
  · obtain ⟨entries, hvalue⟩ := exists_record_iff.mpr h
    exact get_eq_of_record hvalue
  · exact all_of_record h.value_eq

/-- **A file with an empty list** has all settings, which are the defaults, and no single one. -/
theorem list_not_looked_up :
    all ⟨some "[]", true⟩ = .ok defaultSettings ∧
    Entries.get? defaultSettings (.text "max_depth") = some (.whole 120) ∧
    get ⟨some "[]", true⟩ (.text "max_depth") = .error (.noMember "list" "get") :=
  ⟨rfl, rfl, rfl⟩

end Argand.SettingsFile
