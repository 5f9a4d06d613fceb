import Argand.Proofs.Settings
import Argand.Window.Dialog

/-!
# The settings dialog as a transaction

While the dialog is open its controls are edited and its buttons pressed, in any order. Only an OK
at which every field is blank or acceptable writes the file. What it writes are the settings at the
opening of the dialog, overlaid with the states of the check boxes and the numbers in the fields
that are not blank.

There is one exception. An OK that is refused has taken over the numbers of the fields before the
one that is not acceptable. If such a field is made blank afterwards, the next OK saves its number
all the same.

## Main definitions

* `Argand.Press`, `Argand.Opened`: what is done to an open dialog beside the settings file.
* `Argand.Dialog.IsAcceptable`: no field stands against saving.
* `Argand.enteredOver`: a setting as the controls have it, over the settings at the opening.
* `Argand.Opened.StaysBlank`: a blank field was blank at every OK before.

## Main results

* `Argand.Opened.kept_run`: what an open dialog carries in its settings.
* `Argand.ok_saves_entered`: what OK writes, and that nothing else writes.
-/

namespace Argand

/-! ### Controls -/

/-- A control that is a **blank** field. -/
def Control.IsBlank : Control → Prop
  | .flag .. => False
  | .field _ text => (Text.trim text).isEmpty = true

/-- A control that **may be saved**: a check box, a blank field, or one with a whole number that is
not too small for its key. -/
def Control.IsAcceptable (key : Key) : Control → Prop
  | .flag .. => True
  | .field _ text => (Text.trim text).isEmpty = true ∨
      ∃ n, Text.readWhole (Text.trim text) = .ok n ∧ minimumOf key ≤ n

instance (c : Control) : Decidable c.IsBlank :=
  match c with
  | .flag .. => .isFalse id
  | .field _ text => inferInstanceAs (Decidable ((Text.trim text).isEmpty = true))

instance (key : Key) (c : Control) : Decidable (c.IsAcceptable key) :=
  match c with
  | .flag .. => .isTrue trivial
  | .field _ text =>
    match h : Text.readWhole (Text.trim text) with
    | .ok n => decidable_of_iff ((Text.trim text).isEmpty = true ∨ minimumOf key ≤ n)
        (by simp [Control.IsAcceptable, h])
    | .error _ => decidable_of_iff ((Text.trim text).isEmpty = true)
        (by simp [Control.IsAcceptable, h])

/-- What is **entered** in a control, if it is not blank. -/
def Control.entered? : Control → Option Json
  | .flag _ checked => some (.truth checked)
  | .field _ text =>
    if (Text.trim text).isEmpty then none
    else (Text.readWhole (Text.trim text)).toOption.map .whole

/-- **No field stands against saving.** -/
def Dialog.IsAcceptable (d : Dialog) : Prop :=
  ∀ kc ∈ d.controls, kc.2.IsAcceptable kc.1

instance (d : Dialog) : Decidable d.IsAcceptable :=
  inferInstanceAs (Decidable (∀ kc ∈ d.controls, kc.2.IsAcceptable kc.1))

/-- A setting **as the controls have it**, over some settings: what is entered in its control, else
what it was. -/
def enteredOver (settings : Settings) (controls : List (Key × Control)) (key : Key) :
    Option Json :=
  ((Entries.get? controls key).bind Control.entered?).or (Entries.get? settings key)

namespace Dialog

/-- The number in a field is its whole number, if that is not too small. -/
theorem fieldValue_eq_ok {key : Key} {text : String} {n : Int} :
    fieldValue key text = .ok n ↔ Text.readWhole text = .ok n ∧ minimumOf key ≤ n := by
  rw [fieldValue, bind_eq_ok]
  constructor
  · rintro ⟨m, hm, h⟩
    by_cases hlt : m < minimumOf key
    · rw [if_pos hlt] at h
      cases h
    · rw [if_neg hlt] at h
      obtain rfl := pure_eq_ok.mp h
      exact ⟨hm, Int.not_lt.mp hlt⟩
  · rintro ⟨hn, hle⟩
    exact ⟨n, hn, by rw [if_neg (Int.not_lt.mpr hle)]; rfl⟩

section Step

variable {key : Key} (settings : Settings) (rest : List (Key × Control))

/-- A blank field is passed over. -/
theorem takeOver_blank {shown text : String} (h : (Text.trim text).isEmpty = true) :
    takeOver settings ((key, .field shown text) :: rest) = takeOver settings rest := by
  rw [takeOver, if_pos h]

/-- An acceptable number is taken over. -/
theorem takeOver_number {shown text : String} {n : Int} (h : (Text.trim text).isEmpty ≠ true)
    (hn : Text.readWhole (Text.trim text) = .ok n) (hle : minimumOf key ≤ n) :
    takeOver settings ((key, .field shown text) :: rest) =
      takeOver (Entries.insert settings key (.whole n)) rest := by
  rw [takeOver, if_neg h, fieldValue_eq_ok.mpr ⟨hn, hle⟩]

/-- A field that is not acceptable is refused. -/
theorem takeOver_refused {c : Control} (h : ¬ c.IsAcceptable key) :
    ∃ f, takeOver settings ((key, c) :: rest) = (settings, some (key, f)) := by
  cases c with
  | flag label checked => exact absurd trivial h
  | field shown text =>
      rw [Control.IsAcceptable, not_or] at h
      rw [takeOver, if_neg h.1]
      cases hvalue : fieldValue key (Text.trim text) with
      | error f => exact ⟨f, rfl⟩
      | ok n => exact absurd ⟨n, fieldValue_eq_ok.mp hvalue⟩ h.2

/-- A control that may be saved is **blank and passed over, or what is entered is taken over**. -/
theorem takeOver_accepted {c : Control} (h : c.IsAcceptable key) :
    c.entered? = none ∧ c.IsBlank ∧
        takeOver settings ((key, c) :: rest) = takeOver settings rest ∨
      ∃ v, c.entered? = some v ∧ ¬ c.IsBlank ∧
        takeOver settings ((key, c) :: rest) = takeOver (Entries.insert settings key v) rest := by
  cases c with
  | flag label checked => exact .inr ⟨_, rfl, id, rfl⟩
  | field shown text =>
      by_cases hblank : (Text.trim text).isEmpty = true
      · exact .inl ⟨if_pos hblank, hblank, takeOver_blank settings rest hblank⟩
      · obtain hempty | ⟨n, hn, hle⟩ := h
        · exact absurd hempty hblank
        · refine .inr ⟨.whole n, ?_, hblank, takeOver_number settings rest hblank hn hle⟩
          rw [Control.entered?, if_neg hblank, hn]
          rfl

end Step

/-- OK refuses the controls just if one of them is not acceptable. -/
theorem takeOver_refuses_iff (settings : Settings) (controls : List (Key × Control)) :
    (takeOver settings controls).2 = none ↔ ∀ kc ∈ controls, kc.2.IsAcceptable kc.1 := by
  induction controls generalizing settings with
  | nil => exact ⟨fun _ => List.forall_mem_nil _, fun _ => rfl⟩
  | cons kc rest ih =>
      obtain ⟨key, c⟩ := kc
      rw [List.forall_mem_cons]
      by_cases hc : c.IsAcceptable key
      · obtain ⟨-, -, h⟩ | ⟨v, -, -, h⟩ := takeOver_accepted settings rest hc
        · rw [h, ih]
          exact ⟨fun h => ⟨hc, h⟩, And.right⟩
        · rw [h, ih]
          exact ⟨fun h => ⟨hc, h⟩, And.right⟩
      · obtain ⟨f, h⟩ := takeOver_refused settings rest hc
        rw [h]
        exact ⟨nofun, fun h => absurd h.1 hc⟩

/-- **An acceptable OK takes over what is entered.** -/
theorem get?_takeOver {controls : List (Key × Control)} (hdistinct : Entries.AreDistinct controls)
    (h : ∀ kc ∈ controls, kc.2.IsAcceptable kc.1) (settings : Settings) (key : Key) :
    Entries.get? (takeOver settings controls).1 key = enteredOver settings controls key := by
  induction controls generalizing settings with
  | nil => rfl
  | cons kc rest ih =>
      obtain ⟨k, c⟩ := kc
      obtain ⟨hc, hrest⟩ := List.forall_mem_cons.mp h
      have ih := ih (Entries.areDistinct_cons.mp hdistinct).2 hrest
      obtain ⟨hnone, -, htake⟩ | ⟨v, hv, -, htake⟩ :=
        takeOver_accepted settings rest hc
      · rw [htake, ih, enteredOver, enteredOver, Entries.get?_cons]
        by_cases hk : (k == key) = true
        · simp [hk, hnone, Entries.get?_rest_eq_none hdistinct hk]
        · simp [hk]
      · rw [htake, ih, enteredOver, enteredOver, Entries.get?_cons, Entries.get?_insert]
        by_cases hk : (k == key) = true
        · simp [hk, hv, Entries.get?_rest_eq_none hdistinct hk]
        · simp [hk]

/-- OK, refused or not, **leaves the settings of blank controls alone**. -/
theorem get?_takeOver_of_isBlank {controls : List (Key × Control)} {key : Key}
    (h : ∀ kc ∈ controls, (kc.1 == key) = true → kc.2.IsBlank) (settings : Settings) :
    Entries.get? (takeOver settings controls).1 key = Entries.get? settings key := by
  induction controls generalizing settings with
  | nil => rfl
  | cons kc rest ih =>
      obtain ⟨k, c⟩ := kc
      obtain ⟨hblank, hrest⟩ := List.forall_mem_cons.mp h
      have ih := ih hrest
      by_cases hc : c.IsAcceptable k
      · obtain ⟨-, -, htake⟩ | ⟨v, -, hentered, htake⟩ := takeOver_accepted settings rest hc
        · rw [htake, ih]
        · have hk : ¬ (k == key) = true := fun hk => hentered (hblank hk)
          rw [htake, ih, Entries.get?_insert, if_neg hk]
      · obtain ⟨f, htake⟩ := takeOver_refused settings rest hc
        rw [htake]

/-- OK, refused or not, keeps the keys of the settings. -/
theorem keys_takeOver {controls : List (Key × Control)} {settings : Settings}
    (h : ∀ kc ∈ controls, kc.1 ∈ settings.map Prod.fst) :
    (takeOver settings controls).1.map Prod.fst = settings.map Prod.fst := by
  induction controls generalizing settings with
  | nil => rfl
  | cons kc rest ih =>
      obtain ⟨k, c⟩ := kc
      obtain ⟨hk, hrest⟩ := List.forall_mem_cons.mp h
      by_cases hc : c.IsAcceptable k
      · obtain ⟨-, -, htake⟩ | ⟨v, -, -, htake⟩ := takeOver_accepted settings rest hc
        · rw [htake, ih hrest]
        · have hkeys := Entries.keys_insert_of_mem hk v
          rw [htake, ih (by rwa [hkeys]), hkeys]
      · obtain ⟨f, htake⟩ := takeOver_refused settings rest hc
        rw [htake]

/-! ### Opening -/

/-- There are controls for some of the settings, in their order. -/
theorem keys_controlsFor {labels : Json} {settings : Settings} {controls : List (Key × Control)}
    (h : controlsFor labels settings = .ok controls) :
    (controls.map Prod.fst).Sublist (settings.map Prod.fst) := by
  induction settings generalizing controls with
  | nil =>
      obtain rfl := Except.ok.inj h
      exact List.Sublist.refl _
  | cons e rest ih =>
      obtain ⟨k, v⟩ := e
      obtain ⟨label, -, h⟩ := bind_eq_ok.mp h
      obtain ⟨others, hothers, h⟩ := bind_eq_ok.mp h
      have hsub := ih hothers
      split at h
      · obtain rfl := pure_eq_ok.mp h
        exact hsub.cons_cons k
      · obtain rfl := pure_eq_ok.mp h
        exact hsub.cons_cons k
      · obtain rfl := pure_eq_ok.mp h
        exact hsub.cons k

/-- The keys of all settings are distinct. -/
theorem areDistinct_all {file : SettingsFile} {settings : Settings}
    (h : file.all = .ok settings) : Entries.AreDistinct settings := by
  have hdefault : Entries.AreDistinct defaultSettings := by
    unfold Entries.AreDistinct
    decide
  obtain ⟨v, -, h⟩ := bind_eq_ok.mp h
  unfold overlaidWith at h
  split at h
  · obtain rfl := Except.ok.inj h
    exact Entries.areDistinct_overlay hdefault _
  · obtain ⟨above, -, rfl⟩ := map_eq_ok.mp h
    exact Entries.areDistinct_overlay hdefault _
  · obtain ⟨above, -, rfl⟩ := map_eq_ok.mp h
    exact Entries.areDistinct_overlay hdefault _
  · cases h

end Dialog

/-- A dialog **as it is opened**: on all settings, with controls for some of them. -/
structure Dialog.IsOpenedOn (file : SettingsFile) (d : Dialog) : Prop where
  settings : file.all = .ok d.settings
  controls : (d.controls.map Prod.fst).Sublist (d.settings.map Prod.fst)
  closing : d.closing = none

/-- The dialog is opened so. -/
theorem isOpenedOn_of_ofFile {file : SettingsFile} {labels : Option String} {d : Dialog}
    (h : Dialog.ofFile file labels = .ok d) : d.IsOpenedOn file := by
  obtain ⟨settings, hall, h⟩ := bind_eq_ok.mp h
  obtain ⟨held, -, h⟩ := bind_eq_ok.mp h
  obtain ⟨controls, hcontrols, h⟩ := bind_eq_ok.mp h
  obtain rfl := pure_eq_ok.mp h
  exact ⟨hall, Dialog.keys_controlsFor hcontrols, rfl⟩

/-! ### Presses -/

/-- What is **done to an open dialog**. -/
inductive Press where
  | edit (key : Key) (e : Edit)
  | ok
  | cancel

/-- A dialog **beside the settings file**. -/
structure Opened where
  dialog : Dialog
  file : SettingsFile

namespace Opened

/-- **One press**; a dialog that was closed takes none. -/
def press (o : Opened) (p : Press) : Opened :=
  if o.dialog.closing.isSome then o
  else
    match p with
    | .edit key e => { o with dialog := o.dialog.edit key e }
    | .ok => ⟨(o.dialog.ok o.file).dialog, (o.dialog.ok o.file).file⟩
    | .cancel => { o with dialog := o.dialog.cancel }

/-- Several presses **in order**. -/
def run (o : Opened) (ps : List Press) : Opened :=
  ps.foldl press o

/-- What the presses of OK met. -/
def atOks (o : Opened) : List Press → List Opened
  | [] => []
  | .ok :: rest => o :: (o.press .ok).atOks rest
  | p :: rest => (o.press p).atOks rest

/-- The control of a key, if there is one, is **blank**. -/
def IsBlankAt (o : Opened) (key : Key) : Prop :=
  ∀ kc ∈ o.dialog.controls, (kc.1 == key) = true → kc.2.IsBlank

/-- A field that is blank after some presses **was blank at every OK** before. -/
def StaysBlank (o : Opened) (ps : List Press) : Prop :=
  ∀ kc ∈ (o.run ps).dialog.controls, kc.2.IsBlank → ∀ before ∈ o.atOks ps, before.IsBlankAt kc.1

instance (o : Opened) (key : Key) : Decidable (o.IsBlankAt key) :=
  inferInstanceAs (Decidable (∀ kc ∈ o.dialog.controls, (kc.1 == key) = true → kc.2.IsBlank))

instance (o : Opened) (ps : List Press) : Decidable (o.StaysBlank ps) :=
  inferInstanceAs (Decidable (∀ kc ∈ (o.run ps).dialog.controls, kc.2.IsBlank →
    ∀ before ∈ o.atOks ps, before.IsBlankAt kc.1))

/-- The dialog has controls for some of its settings, whose keys are distinct. -/
structure IsRegular (o : Opened) : Prop where
  controls : (o.dialog.controls.map Prod.fst).Sublist (o.dialog.settings.map Prod.fst)
  distinct : Entries.AreDistinct o.dialog.settings

/-- What **OK** does: it takes over what it can, and saves if no field stands against it. -/
theorem ok_spec (d : Dialog) (file : SettingsFile) :
    (d.ok file).dialog.controls = d.controls ∧
      (d.ok file).dialog.settings = (Dialog.takeOver d.settings d.controls).1 ∧
      (¬ d.IsAcceptable → (d.ok file).file = file) ∧
      (d.IsAcceptable →
        (d.ok file).file = (file.save (Dialog.takeOver d.settings d.controls).1).1) := by
  have hrefuses := Dialog.takeOver_refuses_iff d.settings d.controls
  rw [Dialog.ok]
  generalize Dialog.takeOver d.settings d.controls = taken at hrefuses ⊢
  obtain ⟨settings, refused⟩ := taken
  cases refused with
  | some refusal =>
      obtain ⟨key, f⟩ := refusal
      exact ⟨rfl, rfl, fun _ => rfl, fun h => nomatch hrefuses.mpr h⟩
  | none =>
      refine ⟨?_, ?_, fun h => absurd (hrefuses.mp rfl) h, fun _ => ?_⟩ <;>
        dsimp only <;> generalize file.save settings = saved <;>
        obtain ⟨file', result⟩ := saved <;> split <;> simp_all

variable {o : Opened}

/-- An edit keeps the keys of the controls. -/
theorem keys_edit (d : Dialog) (key : Key) (e : Edit) :
    (d.edit key e).controls.map Prod.fst = d.controls.map Prod.fst := by
  simp [Dialog.edit, Function.comp_def]

/-- A press leaves the dialog alone, edits a control, takes over what OK can, or cancels. -/
theorem press_cases (o : Opened) (p : Press) :
    o.press p = o ∨
    (∃ key e, p = .edit key e ∧ o.press p = { o with dialog := o.dialog.edit key e }) ∨
    (p = .ok ∧ o.dialog.closing = none ∧
      o.press p = ⟨(o.dialog.ok o.file).dialog, (o.dialog.ok o.file).file⟩) ∨
    o.press p = { o with dialog := o.dialog.cancel } := by
  simp only [press]
  cases hclosing : o.dialog.closing with
  | some closing => exact .inl rfl
  | none =>
      cases p with
      | edit key e => exact .inr (.inl ⟨key, e, rfl, rfl⟩)
      | ok => exact .inr (.inr (.inl ⟨rfl, rfl, rfl⟩))
      | cancel => exact .inr (.inr (.inr rfl))

/-- A press keeps the keys of the controls. -/
theorem keys_controls_press (o : Opened) (p : Press) :
    (o.press p).dialog.controls.map Prod.fst = o.dialog.controls.map Prod.fst := by
  obtain h | ⟨key, e, -, h⟩ | ⟨-, -, h⟩ | h := o.press_cases p
  · rw [h]
  · rw [h]
    exact keys_edit _ _ _
  · rw [h, (ok_spec o.dialog o.file).1]
  · rw [h]
    rfl

/-- A press keeps the keys of the settings. -/
theorem IsRegular.keys_settings_press (h : o.IsRegular) (p : Press) :
    (o.press p).dialog.settings.map Prod.fst = o.dialog.settings.map Prod.fst := by
  obtain hp | ⟨key, e, -, hp⟩ | ⟨-, -, hp⟩ | hp := o.press_cases p
  · rw [hp]
  · rw [hp]
    rfl
  · rw [hp, (ok_spec o.dialog o.file).2.1]
    refine Dialog.keys_takeOver fun kc hkc => ?_
    exact h.controls.subset (List.mem_map_of_mem hkc)
  · rw [hp]
    rfl

/-- A press keeps an open dialog regular. -/
theorem IsRegular.press (h : o.IsRegular) (p : Press) : (o.press p).IsRegular where
  controls := by
    rw [keys_controls_press, h.keys_settings_press]
    exact h.controls
  distinct := by
    rw [Entries.AreDistinct, h.keys_settings_press]
    exact h.distinct

/-- **A press keeps the setting of a key** whose control is blank, if the press is OK. -/
theorem get?_settings_press {key : Key} {p : Press} (h : p = .ok → o.IsBlankAt key) :
    Entries.get? (o.press p).dialog.settings key = Entries.get? o.dialog.settings key := by
  obtain hp | ⟨_, _, -, hp⟩ | ⟨rfl, -, hp⟩ | hp := o.press_cases p
  · rw [hp]
  · rw [hp]
    rfl
  · rw [hp, (ok_spec o.dialog o.file).2.1]
    exact Dialog.get?_takeOver_of_isBlank (h rfl) _
  · rw [hp]
    rfl

/-- **Only an OK without a field against it writes the file.** -/
theorem file_press {p : Press} (h : (o.press p).file ≠ o.file) :
    p = .ok ∧ o.dialog.closing = none ∧ o.dialog.IsAcceptable := by
  obtain hp | ⟨_, _, -, hp⟩ | ⟨rfl, hclosing, hp⟩ | hp := o.press_cases p
  · exact absurd (congrArg Opened.file hp) h
  · exact absurd (congrArg Opened.file hp) h
  · refine ⟨rfl, hclosing, ?_⟩
    by_contra hnot
    rw [hp] at h
    exact h ((ok_spec o.dialog o.file).2.2.1 hnot)
  · exact absurd (congrArg Opened.file hp) h

/-! ### Runs -/

/-- Every OK meets the controls of the same keys. -/
theorem keys_controls_of_mem_atOks {ps : List Press} {before : Opened} (h : before ∈ o.atOks ps) :
    before.dialog.controls.map Prod.fst = o.dialog.controls.map Prod.fst := by
  induction ps generalizing o with
  | nil => cases h
  | cons p rest ih =>
      have hrest : before ∈ (o.press p).atOks rest →
          before.dialog.controls.map Prod.fst = o.dialog.controls.map Prod.fst :=
        fun h => (ih h).trans (keys_controls_press o p)
      cases p with
      | ok =>
          obtain rfl | h := List.mem_cons.mp h
          · rfl
          · exact hrest h
      | _ => exact hrest h

/-- What presses keep: the keys of controls and settings, and the setting of a key whose control is
**blank at every OK**. -/
theorem kept_run (h : o.IsRegular) (ps : List Press) :
    (o.run ps).IsRegular ∧
      (o.run ps).dialog.controls.map Prod.fst = o.dialog.controls.map Prod.fst ∧
      (o.run ps).dialog.settings.map Prod.fst = o.dialog.settings.map Prod.fst ∧
      ∀ key, (∀ before ∈ o.atOks ps, before.IsBlankAt key) →
        Entries.get? (o.run ps).dialog.settings key = Entries.get? o.dialog.settings key := by
  induction ps generalizing o with
  | nil => exact ⟨h, rfl, rfl, fun _ _ => rfl⟩
  | cons p rest ih =>
      obtain ⟨hregular, hcontrols, hsettings, hkept⟩ := ih (h.press p)
      refine ⟨hregular, hcontrols.trans (keys_controls_press o p),
        hsettings.trans (h.keys_settings_press p), fun key hblank => ?_⟩
      have hafter : ∀ before ∈ (o.press p).atOks rest, before.IsBlankAt key := by
        intro before hbefore
        refine hblank before ?_
        cases p with
        | ok => exact List.mem_cons_of_mem _ hbefore
        | _ => exact hbefore
      refine (hkept key hafter).trans (get?_settings_press ?_)
      rintro rfl
      exact hblank o List.mem_cons_self

end Opened

/-- A control that may be saved is blank, or something is entered in it. -/
theorem Control.isBlank_of_entered?_eq_none {c : Control} {key : Key} (h : c.IsAcceptable key)
    (hnone : c.entered? = none) : c.IsBlank := by
  obtain ⟨-, hblank, -⟩ | ⟨v, hv, -⟩ := Dialog.takeOver_accepted [] [] h
  · exact hblank
  · cases hnone.symm.trans hv

/-- If nothing is entered for a key, it has no control or a blank one. -/
theorem Dialog.IsAcceptable.none_or_isBlank {d : Dialog} (h : d.IsAcceptable) {key : Key}
    (hnone : (Entries.get? d.controls key).bind Control.entered? = none) :
    Entries.get? d.controls key = none ∨
      ∃ kc ∈ d.controls, (kc.1 == key) = true ∧ kc.2.IsBlank := by
  cases hfound : Entries.get? d.controls key with
  | none => exact .inl rfl
  | some c =>
      obtain ⟨k, hmem, hk⟩ := Entries.exists_of_get? hfound
      rw [hfound, Option.bind_some] at hnone
      exact .inr ⟨(k, c), hmem, hk, Control.isBlank_of_entered?_eq_none (h _ hmem) hnone⟩

/-- Where nothing is entered, only the settings count. -/
theorem enteredOver_congr {settings settings' : Settings} {controls : List (Key × Control)}
    {key : Key} (h : (Entries.get? controls key).bind Control.entered? = none →
      Entries.get? settings key = Entries.get? settings' key) :
    enteredOver settings controls key = enteredOver settings' controls key := by
  rw [enteredOver, enteredOver]
  cases hentered : (Entries.get? controls key).bind Control.entered? with
  | none => rw [h hentered]
  | some v => rfl

/-- **OK saves what is entered over the settings at the opening.** Whatever was pressed before, the
file is written only by an OK at which no field stands against it. If every field that is blank at
that OK was blank at every OK before it, what is written are all settings of the file as it was when
the dialog was opened, except those with a check box or with a field that is not blank. -/
theorem ok_saves_entered {file : SettingsFile} {labels : Option String} {d : Dialog}
    (hopened : Dialog.ofFile file labels = .ok d) (ps : List Press) :
    let o := Opened.run ⟨d, file⟩ ps
    file.all = .ok d.settings ∧
    (∀ p, (o.press p).file ≠ o.file →
      p = .ok ∧ o.dialog.closing = none ∧ o.dialog.IsAcceptable) ∧
    (o.dialog.closing = none → o.dialog.IsAcceptable → Opened.StaysBlank ⟨d, file⟩ ps →
      ∃ written : Settings, (o.press .ok).file = (o.file.save written).1 ∧
        written.map Prod.fst = d.settings.map Prod.fst ∧
        ∀ key, Entries.get? written key = enteredOver d.settings o.dialog.controls key) := by
  intro o
  have his := isOpenedOn_of_ofFile hopened
  have hregular : Opened.IsRegular ⟨d, file⟩ := ⟨his.controls, Dialog.areDistinct_all his.settings⟩
  obtain ⟨hafter, hcontrols, hsettings, hkept⟩ : o.IsRegular ∧ _ ∧ _ ∧ _ :=
    Opened.kept_run hregular ps
  refine ⟨his.settings, fun p => Opened.file_press, fun hclosing hacceptable hblank => ?_⟩
  have hkeys : ∀ before ∈ Opened.atOks ⟨d, file⟩ ps,
      before.dialog.controls.map Prod.fst = o.dialog.controls.map Prod.fst :=
    fun before h => (Opened.keys_controls_of_mem_atOks h).trans hcontrols.symm
  obtain ⟨-, -, -, hfile⟩ := Opened.ok_spec o.dialog o.file
  refine ⟨(Dialog.takeOver o.dialog.settings o.dialog.controls).1, ?_, ?_, fun key => ?_⟩
  · rw [Opened.press, hclosing]
    exact hfile hacceptable
  · refine (Dialog.keys_takeOver fun kc hkc => ?_).trans hsettings
    exact hafter.controls.subset (List.mem_map_of_mem hkc)
  · have hdistinct : Entries.AreDistinct o.dialog.controls :=
      List.Pairwise.sublist hafter.controls hafter.distinct
    rw [Dialog.get?_takeOver hdistinct hacceptable]
    refine enteredOver_congr fun hnone => hkept key fun before hbefore kc hkc hkey => ?_
    obtain hfree | ⟨kc', hkc', hkey', hnow⟩ := hacceptable.none_or_isBlank hnone
    · -- without a control at this OK there was none before
      have hne := Entries.get?_eq_none_iff.mp hfree kc.1
        (hkeys before hbefore ▸ List.mem_map_of_mem hkc)
      cases hne.symm.trans hkey
    · exact hblank kc' hkc' hnow before hbefore kc hkc (BEq.trans hkey (BEq.symm hkey'))

/-- A file without settings, so that all have their defaults. -/
def emptyFile : SettingsFile :=
  ⟨some "\x7b\x7d", true⟩

/-- The dialog on the defaults, without labels. -/
def defaultDialog : Dialog where
  settings := defaultSettings
  controls :=
    [ ("decimal_places", .field "10" ""),
      ("darkmode", .flag (.text "darkmode") false),
      ("shift_to_copy", .flag (.text "shift_to_copy") true),
      ("keep_scope", .flag (.text "keep_scope") true),
      ("debug", .flag (.text "debug") false),
      ("max_depth", .field "120" "") ]
  dark := false
  closing := none

/-- A depth that is refused and then corrected is saved, with everything else as it was. -/
theorem ok_saves_corrected :
    let o := Opened.run ⟨defaultDialog, emptyFile⟩
      [.edit "max_depth" (.write "3"), .ok, .edit "max_depth" (.write "20")]
    ∃ written : Settings, (o.press .ok).file = (o.file.save written).1 ∧
      written.map Prod.fst = defaultSettings.map Prod.fst ∧
      ∀ key, Entries.get? written key = enteredOver defaultSettings o.dialog.controls key := by
  intro o
  have hopened : Dialog.ofFile emptyFile none = .ok defaultDialog := rfl
  exact (ok_saves_entered hopened _).2.2 rfl (by decide +kernel) (by decide +kernel)

/-- A setting that is a whole number. -/
theorem eq_ok_whole {x : Except Fault Json} {n : Int}
    (h : (match x with | .ok (.whole m) => m == n | _ => false) = true) : x = .ok (.whole n) := by
  split at h
  · rw [eq_of_beq h]
  · cases h

/-- **A number taken over by a refused OK is saved** although its field is blank at the next one:
five places instead of the ten at the opening. -/
theorem refused_number_saved :
    let o := Opened.run ⟨defaultDialog, emptyFile⟩
      [.edit "decimal_places" (.write "5"), .edit "max_depth" (.write "3"), .ok,
        .edit "decimal_places" (.write ""), .edit "max_depth" (.write "20")]
    Dialog.ofFile emptyFile none = .ok defaultDialog ∧ o.dialog.closing = none ∧
      o.dialog.IsAcceptable ∧ o.IsBlankAt "decimal_places" ∧
      enteredOver defaultSettings o.dialog.controls "decimal_places" = some (.whole 10) ∧
      (o.press .ok).file.get "decimal_places" = .ok (.whole 5) := by
  intro o
  exact ⟨rfl, rfl, by decide +kernel, by decide +kernel, rfl, eq_ok_whole (by decide +kernel)⟩

/-- A key that is no text is saved as a text. Here another setting has that text for its key, and
a single OK loses the setting of the whole number. -/
example :
    let file : SettingsFile := ⟨some "[[1, 5], [\"1\", 6]]", true⟩
    Yields (fun _ => False) (fun opened => opened.IsAcceptable ∧
        (Entries.get? opened.settings (.whole 1)).isSome ∧
        Yields (fun _ => False) (fun saved => Entries.get? saved (.whole 1) = none)
          (opened.ok file).file.all)
      (Dialog.ofFile file none) := by
  decide +kernel

end Argand
