import Argand.Proofs.Json.RoundTrip

/-!
# Saved settings are read back

Settings that are saved in a directory that is there replace whatever the settings file held, and
from then on each of them is read as it was saved, however it nests. Other settings have their
defaults again.

## Main results

* `Argand.SettingsFile.value_save`: the file holds what was saved.
* `Argand.SettingsFile.save_readBack`: single settings and all settings after saving.
-/

namespace Argand

/-- Settings with texts as keys, as a record. -/
@[simp] theorem Settings.toJson_ofEntries (entries : Entries Json) :
    (Settings.ofEntries entries).toJson = .record entries := by
  simp [Settings.toJson, Settings.ofEntries, Key.written, Function.comp_def]

/-- The defaults have distinct keys. -/
theorem areDistinct_defaultSettings : Entries.AreDistinct defaultSettings := by
  rw [Entries.AreDistinct]
  decide

namespace SettingsFile

variable {entries : Entries Json}

variable (file : SettingsFile)

/-- **What was saved is in the file**, and all of it comes back from saving. -/
theorem value_save (hdirectory : file.inDirectory = true) (hkeys : (entries.map Prod.fst).Nodup)
    (hvalues : ∀ e ∈ entries, e.2.IsStorable) :
    (file.save (Settings.ofEntries entries)).2 = .ok (Settings.ofEntries entries) ∧
      (file.save (Settings.ofEntries entries)).1.value = .ok (.record entries) := by
  obtain ⟨hfault, hread⟩ := Json.read_draft Json.Layout.isPlain_indented
    (Json.IsStorable.record hkeys hvalues)
  have hsaved : file.save (Settings.ofEntries entries) =
      (⟨some (Json.draft Json.Layout.indented (.record entries)).1, true⟩,
        .ok (Settings.ofEntries entries)) := by
    simp only [save, hdirectory, Settings.toJson_ofEntries, hfault]
    rfl
  rw [hsaved]
  exact ⟨rfl, by simp only [value, valueOf, hread]; rfl⟩

/-- **Saved settings are read back.** Whatever the file held, saving gives back the settings; then a
saved setting has its value, any other its default or zero, and all settings are the defaults in
their order, each with its saved value if it has one, and then the other saved settings in theirs. -/
theorem save_readBack (hdirectory : file.inDirectory = true)
    (hkeys : (entries.map Prod.fst).Nodup) (hvalues : ∀ e ∈ entries, e.2.IsStorable) :
    let settings := Settings.ofEntries entries
    let saved := (file.save settings).1
    (file.save settings).2 = .ok settings ∧
    (∀ key v, (key, v) ∈ entries → saved.get (.text key) = .ok v) ∧
    (∀ key, key ∉ entries.map Prod.fst →
      saved.get (.text key) = .ok ((Entries.get? defaultSettings key).getD (.whole 0))) ∧
    saved.all = .ok
      (defaultSettings.map (fun e => (e.1, (Entries.get? settings e.1).getD e.2)) ++
        settings.filter fun e => (Entries.get? defaultSettings e.1).isNone) := by
  intro settings saved
  obtain ⟨hreturned, hvalue⟩ := value_save file hdirectory hkeys hvalues
  have hdistinct : Entries.AreDistinct settings := areDistinct_ofEntries hkeys
  have hget (key : Key) : saved.get key = .ok ((Entries.get? settings key).getD
      ((Entries.get? defaultSettings key).getD (.whole 0))) := by
    rw [get, hvalue]
    rfl
  refine ⟨hreturned, fun key v hmem => ?_, fun key hnew => ?_, ?_⟩
  · have hmem' : (Key.text key, v) ∈ settings := List.mem_map.mpr ⟨(key, v), hmem, rfl⟩
    rw [hget, Entries.get?_of_mem hdistinct hmem']
    rfl
  · have hnone : Entries.get? settings (.text key) = none := by
      refine Entries.get?_eq_none_iff.mpr fun k hk => ?_
      obtain ⟨e, he, rfl⟩ := List.mem_map.mp hk
      obtain ⟨⟨k, v⟩, hmem, rfl⟩ := List.mem_map.mp he
      refine Bool.eq_false_iff.mpr fun heq => hnew ?_
      obtain rfl := Key.text_beq_text.mp heq
      exact List.mem_map_of_mem hmem
    rw [hget, hnone]
    rfl
  · have hall : saved.all = .ok (Entries.overlay defaultSettings settings) := by
      rw [all, hvalue]
      rfl
    rw [hall, Entries.overlay_eq areDistinct_defaultSettings hdistinct]

/-- A setting in place of its default and a nested one with an empty list, an empty key, a quote and
a character beyond the basic plane are saved over a file without structured text. -/
theorem save_readBack_nested :
    let entries : Entries Json := [("max_depth", .whole (-7)),
      ("", .record [("a\"", .list [.list [], .null, .text "😀\n"]), ("b", .truth true)])]
    let saved := (save ⟨some "[", true⟩ (Settings.ofEntries entries)).1
    (∀ key v, (key, v) ∈ entries → saved.get (.text key) = .ok v) ∧
    saved.get (.text "decimal_places") = .ok (.whole 10) ∧
    saved.all = .ok
      [ ("decimal_places", .whole 10), ("darkmode", .truth false), ("shift_to_copy", .truth true),
        ("keep_scope", .truth true), ("debug", .truth false), ("max_depth", .whole (-7)),
        ("", .record [("a\"", .list [.list [], .null, .text "😀\n"]), ("b", .truth true)]) ] := by
  intro entries saved
  have hvalues : ∀ e ∈ entries, e.2.IsStorable := by
    simp only [entries, List.forall_mem_cons]
    refine ⟨.whole (by decide), .record (by decide) ?_, nofun⟩
    simp only [List.forall_mem_cons]
    refine ⟨.list ?_, .truth true, nofun⟩
    simp only [List.forall_mem_cons]
    exact ⟨.list nofun, .null, .text _, nofun⟩
  obtain ⟨-, hsaved, hothers, hall⟩ :=
    save_readBack ⟨some "[", true⟩ rfl (by decide) hvalues
  exact ⟨hsaved, hothers "decimal_places" (by decide), hall⟩

end SettingsFile

/-- A whole number **of too many digits** has no written form. -/
theorem Json.wholePiece_of_le {n : Int} (h : 10 ^ Text.mostWholeDigits ≤ n.natAbs) :
    Json.wholePiece n = .error .tooLongToWrite := by
  have hlength : Text.mostWholeDigits < (toString n.natAbs).length := by
    rw [← Nat.not_le]
    intro hle
    have hlt := (Nat.length_toDigits_le_iff (by decide) (by decide)).mp
      (by rwa [← Nat.toList_repr] : (Nat.toDigits 10 n.natAbs).length ≤ Text.mostWholeDigits)
    exact absurd h (Nat.not_le.mpr hlt)
  rw [Json.wholePiece, if_pos hlength]

/-- Nothing comes back from saving it. -/
theorem SettingsFile.save_whole_of_le {n : Int} (h : 10 ^ Text.mostWholeDigits ≤ n.natAbs)
    (key : String) (text : Option String) :
    (SettingsFile.save ⟨text, true⟩ (Settings.ofEntries [(key, .whole n)])).2 =
      .error .tooLongToWrite := by
  simp only [save, Settings.toJson_ofEntries, Json.draft, Json.pieces, Json.entryPieces,
    Json.wholePiece_of_le h]
  rfl

/-- **The least number of 4301 digits** is not saved. -/
theorem SettingsFile.save_too_long :
    (SettingsFile.save ⟨none, true⟩
        (Settings.ofEntries [("a", .whole ((10 ^ 4300 : Nat) : Int))])).2 ≠
      .ok (Settings.ofEntries [("a", .whole ((10 ^ 4300 : Nat) : Int))]) := by
  have hlong : 10 ^ Text.mostWholeDigits ≤ ((10 ^ 4300 : Nat) : Int).natAbs := by
    rw [Int.natAbs_natCast, Text.mostWholeDigits]
  rw [SettingsFile.save_whole_of_le hlong]
  exact nofun

end Argand
