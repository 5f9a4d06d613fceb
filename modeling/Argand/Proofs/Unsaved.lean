import Argand.Proofs.Json.Unfinished
import Argand.Proofs.Lookup

/-!
# Settings that cannot be saved

Nothing comes back from saving in two cases. Without a directory the settings file is not touched.
At a value without written form, wherever it stands in the settings, the file was opened before, so
what was written up to there takes the place of what it held. This is not structured text, so from
then on every setting has its default.

## Main definitions

* `Argand.Json.IsWritable`: the values that have written form.
* `Argand.SettingsFile.GivesDefaults`: every setting is read as its default.

## Main results

* `Argand.Json.firstFault?_pieces`: writing stops in just the other values.
* `Argand.SettingsFile.save_cases`: what saving does.
* `Argand.SettingsFile.isVoid_draft`: what is written before a failure is not structured text.
* `Argand.SettingsFile.save_failed`: when the file, and what is read from it, stay as they were.
* `Argand.SettingsFile.setting_lost`: a setting that is lost.
-/

namespace Argand

namespace Json

/-! ### Values with written form -/

/-- A value **with written form**: no part of it is foreign or a whole number that is too long. -/
inductive IsWritable : Json → Prop
  | null : IsWritable .null
  | truth (b : Bool) : IsWritable (.truth b)
  | whole {n : Int} (h : (toString n.natAbs).length ≤ Text.mostWholeDigits) : IsWritable (.whole n)
  | real (x : Float) : IsWritable (.real x)
  | text (s : String) : IsWritable (.text s)
  | list {items : List Json} (h : ∀ v ∈ items, v.IsWritable) : IsWritable (.list items)
  | record {entries : Entries Json} (h : ∀ e ∈ entries, e.2.IsWritable) :
    IsWritable (.record entries)

mutual

/-- **All of a value is written** if and only if it has written form. -/
theorem firstFault?_pieces (l : Layout) (depth : Nat) : ∀ v : Json,
    firstFault? (pieces l depth v) = none ↔ v.IsWritable
  | .null => ⟨fun _ => .null, fun _ => rfl⟩
  | .truth b => ⟨fun _ => .truth b, fun _ => rfl⟩
  | .whole n => by
      rw [pieces, wholePiece]
      split
      · refine ⟨nofun, fun h => ?_⟩
        cases h with
        | whole h => exact absurd h (Nat.not_le.mpr ‹_›)
      · exact ⟨fun _ => .whole (Nat.not_lt.mp ‹_›), fun _ => rfl⟩
  | .real x => ⟨fun _ => .real x, fun _ => rfl⟩
  | .text s => ⟨fun _ => .text s, fun _ => rfl⟩
  | .list [] => ⟨fun _ => .list (List.forall_mem_nil _), fun _ => rfl⟩
  | .list (x :: rest) => by
      have hitems := firstFault?_itemPieces l (depth + 1) (x :: rest)
      rw [pieces, List.cons_append, firstFault?, firstFault?_append_eq_none, hitems]
      · refine ⟨fun h => .list h.1, fun h => ?_⟩
        cases h with
        | list h => exact ⟨h, rfl⟩
      · exact List.cons_ne_nil x rest
  | .record [] => ⟨fun _ => .record (List.forall_mem_nil _), fun _ => rfl⟩
  | .record (e :: rest) => by
      have hentries := firstFault?_entryPieces l (depth + 1) (e :: rest)
      rw [pieces, List.cons_append, firstFault?, firstFault?_append_eq_none, hentries]
      · refine ⟨fun h => .record h.1, fun h => ?_⟩
        cases h with
        | record h => exact ⟨h, rfl⟩
      · exact List.cons_ne_nil e rest
  | .foreign => ⟨nofun, nofun⟩

/-- All items are written. -/
theorem firstFault?_itemPieces (l : Layout) (depth : Nat) : ∀ items : List Json,
    firstFault? (itemPieces l depth items) = none ↔ ∀ v ∈ items, v.IsWritable
  | [] => ⟨fun _ => List.forall_mem_nil _, fun _ => rfl⟩
  | [x] => by rw [itemPieces, firstFault?_pieces l depth x, List.forall_mem_singleton]
  | x :: y :: rest => by
      rw [itemPieces, firstFault?_append_eq_none, firstFault?, firstFault?_pieces l depth x,
        firstFault?_itemPieces l depth (y :: rest)]
      · exact List.forall_mem_cons.symm
      · exact List.cons_ne_nil y rest

/-- All entries are written. -/
theorem firstFault?_entryPieces (l : Layout) (depth : Nat) : ∀ entries : List (String × Json),
    firstFault? (entryPieces l depth entries) = none ↔ ∀ e ∈ entries, e.2.IsWritable
  | [] => ⟨fun _ => List.forall_mem_nil _, fun _ => rfl⟩
  | [(k, v)] => by
      rw [entryPieces, firstFault?, firstFault?_pieces l depth v, List.forall_mem_singleton]
  | (k, v) :: e :: rest => by
      rw [entryPieces, List.cons_append, firstFault?, firstFault?_append_eq_none, firstFault?,
        firstFault?_pieces l depth v, firstFault?_entryPieces l depth (e :: rest)]
      · simp only [List.forall_mem_cons]
      · exact List.cons_ne_nil e rest

end

end Json

namespace SettingsFile

open Json (draft)

variable {file : SettingsFile} {settings : Settings}

/-- All settings are written if and only if each of them has written form. -/
theorem draft_eq_none_iff :
    (draft .indented settings.toJson).2 = none ↔ ∀ e ∈ settings, e.2.IsWritable := by
  refine (Json.firstFault?_pieces .indented 0 settings.toJson).trans ⟨fun h => ?_, fun h => ?_⟩
  · cases h with
    | record h => exact fun e he => h _ (List.mem_map_of_mem he)
  · refine .record fun e he => ?_
    obtain ⟨e, hmem, rfl⟩ := List.mem_map.mp he
    exact h e hmem

variable (file settings)

/-- **Saving** does nothing without a directory. In a directory it writes what it can: all settings,
and they come back; or what stands before the first fault, and then nothing comes back or the fault
does. -/
theorem save_cases :
    file.inDirectory = false ∧ file.save settings = (file, .ok []) ∨
    file.inDirectory = true ∧
      (file.save settings).1 = ⟨some (draft .indented settings.toJson).1, true⟩ ∧
      ((∀ e ∈ settings, e.2.IsWritable) ∧ (file.save settings).2 = .ok settings ∨
        (∃ e ∈ settings, ¬ e.2.IsWritable) ∧
          ((file.save settings).2 = .ok [] ∨ ∃ fault, (file.save settings).2 = .error fault)) := by
  obtain ⟨text, inDirectory⟩ := file
  cases inDirectory with
  | false => exact .inl ⟨rfl, rfl⟩
  | true =>
      refine .inr ⟨rfl, ?_⟩
      simp only [save]
      cases hfault : (draft .indented settings.toJson).2 with
      | none => exact ⟨rfl, .inl ⟨draft_eq_none_iff.mp hfault, rfl⟩⟩
      | some fault =>
          have hstops : ∃ e ∈ settings, ¬ e.2.IsWritable := by
            by_contra hall
            push Not at hall
            rw [draft_eq_none_iff.mpr hall] at hfault
            cases hfault
          refine ⟨rfl, .inr ⟨hstops, ?_⟩⟩
          by_cases hkind : fault.faultClass = .wrongKind
          · exact .inl (if_pos hkind)
          · exact .inr ⟨fault, if_neg hkind⟩

variable {file settings}

/-- **What is written before a fault** is not structured text. -/
theorem isVoid_draft (h : ∃ e ∈ settings, ¬ e.2.IsWritable) :
    IsVoid ⟨some (draft .indented settings.toJson).1, true⟩ := by
  refine Json.read_draft_of_fault Json.Layout.isPlain_indented fun hnone => ?_
  obtain ⟨e, he, hfault⟩ := h
  exact hfault (draft_eq_none_iff.mp hnone e he)

/-- The file **gives the defaults**: each setting has its default or counts as zero, and all
settings together are the defaults. -/
def GivesDefaults (file : SettingsFile) : Prop :=
  (∀ key, file.get key = .ok ((Entries.get? defaultSettings key).getD (.whole 0))) ∧
    file.all = .ok defaultSettings

/-- A void file gives the defaults. -/
theorem IsVoid.givesDefaults (h : file.IsVoid) : file.GivesDefaults :=
  ⟨get_of_record h.value_eq, all_of_record h.value_eq⟩

/-- **After a failed save** the file is as it was if and only if it is in no directory or held just
what is written before the fault, and what is read from it is as it was if and only if it is in no
directory or gave the defaults. In a directory there was a fault in some setting; then what is
written before it is all that the file holds, and it gives the defaults. -/
theorem save_failed (hne : settings ≠ []) (hfailed : (file.save settings).2 = .ok []) :
    let after := (file.save settings).1
    let written := (draft .indented settings.toJson).1
    (after = file ↔ file.inDirectory = false ∨ file.text = some written) ∧
    ((∀ key, after.get key = file.get key) ∧ after.all = file.all ↔
      file.inDirectory = false ∨ file.GivesDefaults) ∧
    (file.inDirectory = true → (∃ e ∈ settings, ¬ e.2.IsWritable) ∧
      after.text = some written ∧ after.GivesDefaults) := by
  intro after written
  obtain ⟨hdirectory, hsave⟩ | ⟨hdirectory, hafter, ⟨-, hsaved⟩ | ⟨hfault, -⟩⟩ :=
    save_cases file settings
  · have hsame : after = file := congrArg Prod.fst hsave
    rw [hsame, hdirectory]
    exact ⟨⟨fun _ => .inl rfl, fun _ => rfl⟩,
      ⟨fun _ => .inl rfl, fun _ => ⟨fun _ => rfl, rfl⟩⟩, nofun⟩
  · rw [hsaved] at hfailed
    exact absurd (Except.ok.inj hfailed) hne
  · have hlost : after = ⟨some written, true⟩ := hafter
    have hdefaults : after.GivesDefaults := by
      rw [hlost]
      exact (isVoid_draft hfault).givesDefaults
    refine ⟨?_, ?_, fun _ => ⟨hfault, congrArg text hlost, hdefaults⟩⟩
    · rw [hlost, hdirectory]
      constructor
      · intro hsame
        exact .inr (congrArg text hsame).symm
      · rintro (hnone | htext)
        · cases hnone
        · obtain ⟨text, inDirectory⟩ := file
          obtain rfl : text = some written := htext
          obtain rfl : inDirectory = true := hdirectory
          rfl
    · rw [hdirectory]
      constructor
      · rintro ⟨hget, hall⟩
        exact .inr ⟨fun key => (hget key).symm.trans (hdefaults.1 key),
          hall.symm.trans hdefaults.2⟩
      · rintro (hnone | ⟨hget, hall⟩)
        · cases hnone
        · exact ⟨fun key => (hdefaults.1 key).trans (hget key).symm, hdefaults.2.trans hall.symm⟩

/-- A value in a record in a list has no written form. What stands before it is written to where
there was no file. -/
theorem save_failed_nested :
    let settings : Settings := [("debug", .truth true),
      ("marks", .list [.whole 1, .record [("of", .text "a"), ("by", .foreign)]])]
    (save ⟨none, true⟩ settings).2 = .ok [] ∧
    (save ⟨none, true⟩ settings).1.text = some
      ("\x7b\n    \"debug\": true,\n    \"marks\": [\n        1,\n        \x7b\n" ++
        "            \"of\": \"a\",\n            \"by\": ") ∧
    (save ⟨none, true⟩ settings).1.GivesDefaults := by
  intro settings
  have hfailed : (save ⟨none, true⟩ settings).2 = .ok [] := rfl
  obtain ⟨-, -, hlost⟩ := save_failed (List.cons_ne_nil _ _) hfailed
  obtain ⟨-, htext, hdefaults⟩ := hlost rfl
  refine ⟨hfailed, ?_, hdefaults⟩
  rw [htext]
  decide +kernel

/-- **A setting is lost**: seven is read from the file, and after a failed save the default. -/
theorem setting_lost :
    let file : SettingsFile := ⟨some "\x7b\"max_depth\": 7\x7d", true⟩
    file.get (.text "max_depth") = .ok (.whole 7) ∧
    (file.save [("darkmode", .foreign)]).2 = .ok [] ∧
    (file.save [("darkmode", .foreign)]).1 = ⟨some "\x7b\n    \"darkmode\": ", true⟩ ∧
    (file.save [("darkmode", .foreign)]).1.get (.text "max_depth") = .ok (.whole 120) := by
  intro file
  refine ⟨rfl, rfl, ?_, rfl⟩
  decide +kernel

end SettingsFile

end Argand
