import Argand.Proofs.Window.SingleFlight

/-!
# Forgetting variables

Variables are forgotten by a button, and whenever the settings dialog is closed while the setting
to keep them is unset. As long as it is unset no variable is bound, and each calculation works on
an empty scope. While it is set, what was forgotten stays forgotten only if no calculation was
running: one that was started before works on its own copy of the variables, and the window takes
that copy over when it ends with a result.

## Main definitions

* `Argand.Move.HoldsSettings`: a move puts no other file in place than one that holds settings.
* `Argand.Ending.isTaken`: the scope of a calculation that ends is taken over.
* `Argand.Ending.Binds`: a calculation binds a name.
* `Argand.Desk.Clears`: an event that forgets all variables.

## Main results

* `Argand.nothing_remembered`: no variables while the setting to keep them is unset.
* `Argand.forgotten_stays_forgotten`: what is bound after variables were forgotten was bound by a
  calculation that was started since, or handed over by one that was running.
* `Argand.forgotten_comes_back`: the latter happens.
-/

namespace Argand

/-! ### Settings that are unset -/

open Float.Model in
/-- What is unset is not set. -/
theorem Json.isSet_of_isUnset {v : Json} (h : v.isUnset = true) : v.isSet = false := by
  cases v with
  | truth b => cases b <;> first | rfl | cases h
  | whole n =>
      have hn : n = 0 := of_decide_eq_true h
      rw [hn]
      rfl
  | real x =>
      have h : x.toModel.unpack.beq (Float.toModel 0).unpack = true := h
      show x.toModel.unpack.beq (Float.toModel 1).unpack = false
      have hzero : (Float.toModel 0).unpack = .zero .positive := by rfl
      have hone : ∃ m e, ∃ hm : 0 < m, (Float.toModel 1).unpack = .finite .positive m e hm :=
        ⟨_, _, _, rfl⟩
      obtain ⟨m, e, hm, hone⟩ := hone
      rw [hzero] at h
      rw [hone]
      generalize x.toModel.unpack = u at h
      cases u with
      | finite sign m' e' hm' => cases sign <;> cases h
      | notANumber => cases h
      | infinity sign => cases sign <;> cases h
      | zero sign => rfl
  | _ => cases h

/-- What is forgotten when the dialog is closed is not kept. -/
theorem Status.keepsScope_of_forgets {s : Status} (h : s.forgets = true) : s.keepsScope = false :=
  Json.isSet_of_isUnset h

/-- Without variables nothing is shown. -/
theorem SettingsFile.scopeText_nil {file : SettingsFile} {v : Json}
    (h : file.get "decimal_places" = .ok v) : file.scopeText [] = .ok "" := by
  rw [scopeText, h]
  exact showScope_nil _

/-- Without variables the label is empty, or it stays as it is. -/
theorem Status.labelOf_nil (s : Status) : s.labelOf [] = "" ∨ s.labelOf [] = s.label := by
  cases hget : s.file.get "decimal_places" with
  | error f =>
      right
      rw [labelOf, SettingsFile.scopeText, hget]
      rfl
  | ok v => exact .inl (labelOf_eq (SettingsFile.scopeText_nil hget))

/-- Without variables the label is empty, if the file holds settings. -/
theorem Status.labelOf_nil_of_all {s : Status} (h : s.file.HoldsSettings) {settings : Settings}
    (hall : s.file.all = .ok settings) : s.labelOf [] = "" := by
  obtain ⟨v, hv⟩ := SettingsFile.exists_get_of_all h hall "decimal_places"
  exact labelOf_eq (SettingsFile.scopeText_nil hv)

/-! ### While variables are not kept -/

/-- No scope is kept. -/
theorem Ending.scope_eq_nil {e : Ending} (hkeeps : e.desk.window.keepsScope = false)
    (hscope : e.desk.window.scope = []) : e.scope = [] := by
  unfold scope
  split
  · rw [hkeeps]
    rfl
  · exact hscope

/-- The label stays empty. -/
theorem Ending.label_eq_empty {e : Ending} (hscope : e.scope = [])
    (hlabel : e.desk.window.scopeLabel = "") : e.label = "" := by
  unfold label
  split
  · rw [hscope]
    exact (e.desk.status.labelOf_nil).elim id fun h => h.trans hlabel
  · exact hlabel

/-- While variables are not kept a step **binds none**. -/
theorem Step.scope_eq_nil {s t : Status} {m : Move} (h : Step s m t)
    (hs : s.forgets = true → s.scope = []) (ht : t.forgets = true) : t.scope = [] := by
  cases h with
  | replace file => exact hs ht
  | start hbusy hscope => exact hs ht
  | @finish e rest hrunning hdesk =>
      have hkeeps : e.desk.window.keepsScope = s.keepsScope := congrArg Status.keepsScope hdesk
      have hwindow : e.desk.window.scope = s.scope := congrArg Status.scope hdesk
      exact Ending.scope_eq_nil (hkeeps.trans (Status.keepsScope_of_forgets ht))
        (hwindow.trans (hs ht))
  | forget => rfl
  | load hall => exact if_pos ht

/-- While variables are not kept **none is bound**. -/
theorem Steps.scope_eq_nil {s t : Status} {ms : List Move} (h : Steps s ms t)
    (hs : s.forgets = true → s.scope = []) : t.forgets = true → t.scope = [] :=
  h.keeps (P := fun _ u => u.forgets = true → u.scope = [])
    (fun hstep hu => hstep.scope_eq_nil hu) [] hs

/-- Whether a move **leaves settings** in the file. -/
def Move.HoldsSettings : Move → Prop
  | replace file => file.HoldsSettings
  | _ => True

/-- The file holds settings, and while variables are not kept none is bound and none is shown. -/
structure Status.IsForgetful (s : Status) : Prop where
  file : s.file.HoldsSettings
  scope : s.forgets = true → s.scope = []
  label : s.forgets = true → s.label = ""

/-- A step keeps the label empty. -/
theorem Status.IsForgetful.step {s t : Status} {m : Move} (hstep : Step s m t)
    (hm : m.HoldsSettings) (h : s.IsForgetful) : t.IsForgetful := by
  have hscope := hstep.scope_eq_nil h.scope
  cases hstep with
  | replace file => exact ⟨hm, h.scope, h.label⟩
  | start hbusy hjob => exact ⟨h.file, h.scope, h.label⟩
  | @finish e rest hrunning hdesk =>
      have hlabel : e.desk.window.scopeLabel = s.label := congrArg Status.label hdesk
      exact ⟨h.file, hscope, fun hu =>
        Ending.label_eq_empty (hscope hu) (hlabel.trans (h.label hu))⟩
  | forget =>
      exact ⟨h.file, hscope, fun hu => s.labelOf_nil.elim id fun hl => hl.trans (h.label hu)⟩
  | load hall =>
      refine ⟨h.file, hscope, fun hu => ?_⟩
      exact (if_pos hu).trans (Status.labelOf_nil_of_all h.file hall)

/-- So does a history. -/
theorem Steps.isForgetful {s t : Status} {ms : List Move} (h : Steps s ms t)
    (hms : ∀ m ∈ ms, m.HoldsSettings) (hs : s.IsForgetful) : t.IsForgetful := by
  induction h with
  | nil => exact hs
  | cons hstep _ ih =>
      exact ih (fun m hm => hms m (List.mem_cons_of_mem _ hm))
        (hs.step hstep (hms _ List.mem_cons_self))

/-- A new desk binds nothing and shows nothing. -/
theorem isForgetful_of_ofFiles {file : SettingsFile} {labels : Option String} {d : Desk}
    (h : Desk.ofFiles file labels = .ok d) (hfile : file.HoldsSettings) :
    d.status.IsForgetful := by
  obtain ⟨settings, -, rfl⟩ := Desk.eq_of_ofFiles h
  exact ⟨hfile, fun _ => rfl, fun _ => rfl⟩

namespace Desk

/-- The settings dialog leaves settings in the file. -/
theorem holdsSettings_ok {dialog : Dialog} {file : SettingsFile} (h : file.HoldsSettings) :
    (dialog.ok file).file.HoldsSettings := by
  unfold Dialog.ok
  dsimp only
  split
  · exact h
  · have hsaved := SettingsFile.holdsSettings_save h
      (Dialog.takeOver dialog.settings dialog.controls).1
    split <;> rename_i hsave <;> rw [hsave] at hsaved <;> exact hsaved

/-- Starting a calculation replaces no file. -/
theorem holdsSettings_startMoves (d : Desk) : ∀ m ∈ d.startMoves, m.HoldsSettings := by
  obtain h | h | h := d.startMoves_cases <;> rw [h] <;> simp [Move.HoldsSettings]

/-- Nor does the end of calculations. -/
theorem holdsSettings_finishMoves (d : Desk) (jobs : List Job) :
    ∀ m ∈ d.finishMoves jobs, m.HoldsSettings := by
  induction jobs generalizing d with
  | nil => exact fun m hm => absurd hm List.not_mem_nil
  | cons job rest ih => exact List.forall_mem_cons.mpr ⟨trivial, ih _⟩

/-- The settings dialog leaves settings in the file. -/
theorem holdsSettings_dialogMoves {d : Desk} (h : d.file.HoldsSettings)
    (edits : List (Key × Edit)) (leaving : Leaving) :
    ∀ m ∈ d.dialogMoves edits leaving, m.HoldsSettings := by
  obtain ⟨replaced, loaded, hmoves, hreplaced, hloaded⟩ := d.dialogMoves_cases edits leaving
  rw [hmoves, List.forall_mem_append]
  constructor
  · obtain rfl | ⟨dialog, rfl⟩ := hreplaced
    · exact fun m hm => absurd hm List.not_mem_nil
    · exact List.forall_mem_singleton.mpr (holdsSettings_ok h)
  · obtain rfl | ⟨settings, rfl⟩ := hloaded
    · exact fun m hm => absurd hm List.not_mem_nil
    · exact List.forall_mem_singleton.mpr trivial

/-- An event leaves settings in the file, if a new file holds settings. -/
theorem holdsSettings_moves {d : Desk} {e : WindowEvent} (h : d.file.HoldsSettings)
    (he : ∀ file, e = .file file → file.HoldsSettings) : ∀ m ∈ d.moves e, m.HoldsSettings := by
  intro m hm
  cases e with
  | press button =>
      rw [moves] at hm
      split at hm
      · exact holdsSettings_startMoves d m hm
      · split at hm
        · obtain rfl := List.mem_singleton.mp hm
          trivial
        · cases hm
  | enter => exact holdsSettings_startMoves d m hm
  | finish => exact holdsSettings_finishMoves _ d.running m hm
  | settings edits leaving => exact holdsSettings_dialogMoves h edits leaving m hm
  | file file =>
      obtain rfl := List.mem_singleton.mp hm
      exact he file rfl
  | _ => cases hm

end Desk

/-- **The file goes on holding settings**, and without keeping variables none is shown. -/
theorem isForgetful_after {d : Desk} (hsingle : d.status.IsSingle) (h : d.status.IsForgetful)
    {events : List WindowEvent} (hevents : ∀ file, .file file ∈ events → file.HoldsSettings) :
    (d.after events).status.IsForgetful := by
  induction events generalizing d with
  | nil => exact h
  | cons e rest ih =>
      have hreact := Desk.steps_react hsingle e
      refine ih (hsingle.steps hreact) (hreact.isForgetful ?_ h)
        fun file hfile => hevents file (List.mem_cons_of_mem _ hfile)
      exact Desk.holdsSettings_moves h.file
        fun file hfile => hevents file (hfile ▸ List.mem_cons_self)

/-- While variables are not kept none is bound. -/
theorem scope_after_eq_nil {file : SettingsFile} {labels : Option String} {d₀ : Desk}
    (h : Desk.ofFiles file labels = .ok d₀) (events : List WindowEvent)
    (hunset : ((d₀.after events).window.setting "keep_scope").isUnset = true) :
    (d₀.after events).window.scope = [] := by
  refine (steps_of_history (isSingle_of_ofFiles h) events).scope_eq_nil (fun _ => ?_) hunset
  obtain ⟨settings, -, rfl⟩ := Desk.eq_of_ofFiles h
  rfl

/-- **Nothing is remembered** while the setting to keep variables is unset. None is bound; none is
shown, if all settings files hold settings; and a calculation that is started works on an empty
scope, so that whenever it ends, what it hands over first is what comes of its text alone, and its
end consists in what it hands over. -/
theorem nothing_remembered {file : SettingsFile} {labels : Option String} {d₀ : Desk}
    (h : Desk.ofFiles file labels = .ok d₀) (before : List WindowEvent)
    (hunset : ((d₀.after before).window.setting "keep_scope").isUnset = true) :
    let d := d₀.after before
    d.window.scope = [] ∧
    (file.HoldsSettings → (∀ f, .file f ∈ before → f.HoldsSettings) →
      d.window.scopeLabel = "") ∧
    ∀ e job, job ∈ startedIn (d.moves e) →
      job = ⟨Text.trim d.window.display, []⟩ ∧
      ∀ after ending,
        (endingsIn (d₀.history (before ++ e :: after)))[(startedIn (d₀.history before)).length]? =
          some ending →
        ending.job = job ∧
        (ending.desk.handovers ending.job).head? =
          some (.ofCalculation job.problem (calculate ending.desk.file job.problem [])) ∧
        ending.desk.receiveAll (ending.desk.handovers ending.job) =
          ((ending.desk.finishJob ending.job).desk, (ending.desk.finishJob ending.job).boxes) := by
  intro d
  refine ⟨scope_after_eq_nil h before hunset, fun hfile hevents => ?_, fun e job hjob => ?_⟩
  · have hforgetful := isForgetful_after (isSingle_of_ofFiles h) (isForgetful_of_ofFiles h hfile)
      hevents
    exact hforgetful.label hunset
  have hkeeps : d.window.keepsScope = false :=
    Status.keepsScope_of_forgets (s := d.status) hunset
  have hnext : d.nextJob = ⟨Text.trim d.window.display, []⟩ := by
    rw [Desk.nextJob, hkeeps]
    rfl
  have hstarted : startedIn (d.moves e) = [d.nextJob] := by
    rw [Desk.startedIn_moves] at hjob ⊢
    split at hjob
    · exact if_pos ‹_›
    · cases hjob
  obtain rfl : job = d.nextJob := List.mem_singleton.mp (hstarted ▸ hjob)
  refine ⟨hnext, fun after ending hending => ?_⟩
  have heq : ending.job = d.nextJob := job_of_started h hstarted hending
  refine ⟨heq, ?_, ending.desk.receiveAll_handovers ending.job⟩
  rw [heq, hnext]
  rfl

/-- A settings file in which variables are not kept. -/
def forgettingFile : SettingsFile :=
  ⟨some "\x7b\"keep_scope\":false\x7d", true⟩

/-- A variable is solved, then the setting is unset: the variable is unknown afterwards. -/
theorem nothing_remembered_unset :
    let before : List WindowEvent :=
      [.typed "x=1", .enter, .file forgettingFile, .settings [] .cancel, .typed "x+1"]
    (Desk.plain.after before).window.scope = [] ∧
    (Desk.plain.after before).window.scopeLabel = "" ∧
    startedIn ((Desk.plain.after before).moves .enter) = [⟨"x+1", []⟩] ∧
    (endingsIn (Desk.plain.history (before ++ [.enter]))).length = 2 ∧
    ∀ ending, (endingsIn (Desk.plain.history (before ++ [.enter])))[1]? = some ending →
      (ending.desk.handovers ending.job).head? =
        some (.ofCalculation "x+1" (calculate ending.desk.file "x+1" [])) := by
  intro before
  obtain ⟨hunset, haccepts, hdisplay, hcount, hlength⟩ :
      ((Desk.plain.after before).window.setting "keep_scope").isUnset = true ∧
      (WindowEvent.enter.isReturn && (Desk.plain.after before).accepts) = true ∧
      Text.trim (Desk.plain.after before).window.display = "x+1" ∧
      (startedIn (Desk.plain.history before)).length = 1 ∧
      (endingsIn (Desk.plain.history (before ++ [.enter]))).length = 2 := by
    decide +kernel
  have hstarted : startedIn ((Desk.plain.after before).moves .enter) =
      [(Desk.plain.after before).nextJob] := by
    rw [Desk.startedIn_moves, if_pos haccepts]
  have hplain : SettingsFile.HoldsSettings ⟨none, true⟩ :=
    @SettingsFile.holdsSettings_of_get _ "keep_scope" (.truth true) rfl
  have hfile : forgettingFile.HoldsSettings :=
    SettingsFile.holdsSettings_of_opening _ rfl
  obtain ⟨hscope, hlabel, hstart⟩ := nothing_remembered Desk.ofFiles_none before hunset
  obtain ⟨hjob, hended⟩ := hstart .enter _ (hstarted ▸ List.mem_singleton_self _)
  rw [hdisplay] at hjob
  rw [hjob] at hstarted hended
  rw [hcount] at hended
  exact ⟨hscope, hlabel hplain (by simp [before, hfile]), hstarted, hlength,
    fun ending hending => (hended [] ending hending).2.1⟩

/-! ### After variables were forgotten -/

/-- Whether a name is **bound** in a scope. -/
def Scope.binds {α : Type} (scope : Scope α) (name : String) : Bool :=
  (Entries.get? scope name).isSome

namespace Ending

/-- Whether the scope of a calculation that ends **is taken over**: it has a result, and variables
are kept. -/
def isTaken (e : Ending) : Bool :=
  e.calculation.outcome.isOk && e.desk.window.keepsScope

/-- A calculation **binds a name**: it is bound in the scope it leaves, and was not in its copy. -/
def Binds (e : Ending) (name : String) : Prop :=
  e.calculation.scope.binds name = true ∧ e.job.scope.binds name = false

/-- What is bound after a calculation ended was bound before, or is taken over. -/
theorem binds_scope {e : Ending} {name : String} (h : e.scope.binds name = true) :
    e.desk.window.scope.binds name = true ∨
      e.isTaken = true ∧ e.calculation.scope.binds name = true := by
  unfold scope at h
  split at h
  · rename_i r hr
    split at h
    · rename_i hkeeps
      exact .inr ⟨by rw [isTaken, hr, hkeeps]; rfl, h⟩
    · cases h
  · exact .inl h

end Ending

/-- Why a name is bound, some calculations after variables were forgotten while some number of
others were running: a calculation **started since binds it**, or one that was **running hands it
over**. -/
def Accounted (name : String) (running : Nat) (endings : List Ending) : Prop :=
  (∃ e ∈ endings.drop running, e.isTaken = true ∧ e.Binds name) ∨
    ∃ e ∈ endings.take running, e.isTaken = true ∧ e.calculation.scope.binds name = true

/-- More calculations end. -/
theorem Accounted.append {name : String} {running : Nat} {endings : List Ending}
    (h : Accounted name running endings) (more : List Ending) :
    Accounted name running (endings ++ more) := by
  obtain ⟨e, he, h⟩ | ⟨e, he, h⟩ := h
  · exact .inl ⟨e, by rw [List.drop_append]; exact List.mem_append_left _ he, h⟩
  · exact .inr ⟨e, by rw [List.take_append]; exact List.mem_append_left _ he, h⟩

/-- A calculation is taken over. If it was started since, its copy is accounted for. -/
theorem accounted_of_taken {name : String} {running : Nat} {endings : List Ending} {e : Ending}
    (htaken : e.isTaken = true) (hbinds : e.calculation.scope.binds name = true)
    (hcopy : running ≤ endings.length → e.job.scope.binds name = true →
      Accounted name running endings) :
    Accounted name running (endings ++ [e]) := by
  by_cases hsince : running ≤ endings.length
  · by_cases hjob : e.job.scope.binds name = true
    · exact (hcopy hsince hjob).append [e]
    · refine .inl ⟨e, ?_, htaken, hbinds, Bool.eq_false_iff.mpr hjob⟩
      rw [List.drop_append, Nat.sub_eq_zero_of_le hsince]
      exact List.mem_append_right _ (List.mem_singleton_self e)
  · refine .inr ⟨e, ?_, htaken, hbinds⟩
    rw [List.take_append, List.take_of_length_le (l := [e]) (by simp; omega)]
    exact List.mem_append_right _ (List.mem_singleton_self e)

/-- If a name is bound in the window, or in the copy of a calculation started since, it is
accounted for. -/
structure IsAccounted (name : String) (running : Nat) (done : List Move) (s : Status) : Prop where
  scope : s.scope.binds name = true → Accounted name running (endingsIn done)
  copies : ∀ i job, s.running[i]? = some job → running ≤ (endingsIn done).length + i →
    job.scope.binds name = true → Accounted name running (endingsIn done)

namespace IsAccounted

variable {name : String} {running : Nat} {done : List Move} {s t : Status} {m : Move}

/-- A move that ends no calculation binds nothing: scope and copies come from those there are. -/
theorem of_no_ending (h : IsAccounted name running done s) (hm : endingsIn [m] = [])
    (hscope : t.scope.binds name = true → s.scope.binds name = true)
    (hcopies : ∀ (i : Nat) (job : Job), t.running[i]? = some job →
      s.running[i]? = some job ∨ (job.scope.binds name = true → s.scope.binds name = true)) :
    IsAccounted name running (done ++ [m]) t := by
  have hendings : endingsIn (done ++ [m]) = endingsIn done := by
    rw [endingsIn_append, hm, List.append_nil]
  refine ⟨fun hbinds => ?_, fun i job hjob hi hbinds => ?_⟩
  · rw [hendings]
    exact h.scope (hscope hbinds)
  · rw [hendings] at hi ⊢
    obtain hjob | hjob := hcopies i job hjob
    · exact h.copies i job hjob hi hbinds
    · exact h.scope (hjob hbinds)

/-- A copy that is started with binds what the window does. -/
theorem binds_of_started {job : Job} (hjob : job.scope = if s.keepsScope then s.scope else [])
    (hbinds : job.scope.binds name = true) : s.scope.binds name = true := by
  rw [hjob] at hbinds
  split at hbinds
  · exact hbinds
  · cases hbinds

/-- **A step** keeps bound names accounted for. -/
theorem step (hstep : Step s m t) (h : IsAccounted name running done s) :
    IsAccounted name running (done ++ [m]) t := by
  cases hstep with
  | replace file => exact h.of_no_ending rfl id fun i job => .inl
  | @start job hbusy hscope =>
      refine h.of_no_ending rfl id fun i job' hjob' => ?_
      rw [List.getElem?_append] at hjob'
      split at hjob'
      · exact .inl hjob'
      · obtain rfl := List.mem_singleton.mp (List.mem_of_getElem? hjob')
        exact .inr (binds_of_started hscope)
  | @finish e rest hrunning hdesk =>
      have hwindow : e.desk.window.scope = s.scope := congrArg Status.scope hdesk
      have hendings : endingsIn (done ++ [.finish e]) = endingsIn done ++ [e] :=
        endingsIn_append done _
      refine ⟨fun hbinds => ?_, fun i job hjob hi hbinds => ?_⟩
      · rw [hendings]
        obtain hbinds | ⟨htaken, hbinds⟩ := Ending.binds_scope hbinds
        · exact (h.scope (hwindow ▸ hbinds)).append [e]
        · -- the calculation that ends is the first of those that run
          exact accounted_of_taken htaken hbinds fun hsince =>
            h.copies 0 e.job (by rw [hrunning]; rfl) hsince
      · rw [hendings] at hi ⊢
        refine (h.copies (i + 1) job ?_ ?_ hbinds).append [e]
        · rw [hrunning]
          exact hjob
        · rw [List.length_append, List.length_singleton] at hi
          omega
  | forget => exact h.of_no_ending rfl nofun fun i job => .inl
  | load hall =>
      refine h.of_no_ending rfl (fun hbinds => ?_) fun i job => .inl
      dsimp only at hbinds
      split at hbinds
      · cases hbinds
      · exact hbinds

end IsAccounted

/-- **What is bound** after variables were forgotten is accounted for. -/
theorem Steps.accounted {s t : Status} {ms : List Move} (h : Steps s ms t) (hs : s.scope = [])
    {name : String} (ht : t.scope.binds name = true) :
    Accounted name s.running.length (endingsIn ms) := by
  have hinit : IsAccounted name s.running.length [] s := by
    refine ⟨fun hbinds => ?_, fun i job hjob hi => ?_⟩
    · rw [hs] at hbinds
      cases hbinds
    · have hlt := (List.getElem?_eq_some_iff.mp hjob).1
      simp only [endingsIn, List.filterMap_nil, List.length_nil] at hi
      omega
  exact (h.keeps (P := IsAccounted name s.running.length) IsAccounted.step [] hinit).scope ht

/-- Whether an event **forgets all variables**: the button for it is pressed, or the settings dialog
is closed and variables are not kept from then on. -/
def Desk.Clears (d : Desk) : WindowEvent → Prop
  | .press button => button = "↺"
  | .settings edits leaving =>
    ((d.settingsDialog edits leaving).desk.window.setting "keep_scope").isUnset = true
  | _ => False

/-- No variables are left. -/
theorem scope_of_clears {file : SettingsFile} {labels : Option String} {d₀ : Desk}
    (h : Desk.ofFiles file labels = .ok d₀) {before : List WindowEvent} {e : WindowEvent}
    (he : (d₀.after before).Clears e) : (d₀.after (before ++ [e])).window.scope = [] := by
  have hafter : d₀.after (before ++ [e]) = ((d₀.after before).react e).desk :=
    Desk.after_append d₀ before [e]
  cases e with
  | press button =>
      obtain rfl : button = "↺" := he
      rw [hafter]
      exact congrArg Status.scope (Desk.status_forgotten _)
  | settings edits leaving =>
      refine scope_after_eq_nil h (before ++ [.settings edits leaving]) ?_
      rw [hafter]
      exact he
  | _ => exact he.elim

/-- **What was forgotten stays forgotten**: a name that is bound after variables were forgotten was
bound by a calculation started since, unless one that was running then hands the name over. -/
theorem forgotten_stays_forgotten {file : SettingsFile} {labels : Option String} {d₀ : Desk}
    (h : Desk.ofFiles file labels = .ok d₀) {before : List WindowEvent} {e : WindowEvent}
    (he : (d₀.after before).Clears e) (after : List WindowEvent) (name : String)
    (hrunning : ∀ ending ∈
      (endingsIn ((d₀.after (before ++ [e])).history after)).take
        (d₀.after (before ++ [e])).running.length,
      ending.isTaken = true → ending.calculation.scope.binds name = false) :
    let d := d₀.after (before ++ [e])
    let since := (endingsIn (d.history after)).drop d.running.length
    d.window.scope = [] ∧
    since.map Ending.job <+: startedIn (d.history after) ∧
    ((d.after after).window.scope.binds name = true →
      ∃ ending ∈ since, ending.isTaken = true ∧ ending.Binds name) := by
  intro d since
  have hsingle : d.status.IsSingle :=
    (isSingle_of_ofFiles h).steps (steps_of_history (isSingle_of_ofFiles h) _)
  have hsteps := steps_of_history hsingle after
  have hscope : d.window.scope = [] := scope_of_clears h he
  refine ⟨hscope, ?_, fun hbinds => ?_⟩
  · have hlength : d.status.running.length = d.running.length := rfl
    have hstarted := congrArg (List.drop d.running.length) hsteps.running_eq
    rw [List.drop_left' hlength, List.drop_append, ← List.map_drop] at hstarted
    exact ⟨_, hstarted.symm⟩
  · obtain haccounted | ⟨ending, hending, htaken, hover⟩ := hsteps.accounted hscope hbinds
    · exact haccounted
    · cases (hrunning ending hending htaken).symm.trans hover

/-- A variable that is forgotten is bound again by solving another equation. -/
theorem forgotten_stays_forgotten_solved :
    let before : List WindowEvent := [.typed "x=1", .enter]
    let after : List WindowEvent := [.typed "x=2", .enter]
    (Desk.plain.after (before ++ [.press "↺"])).window.scope = [] ∧
    ∃ ending ∈ (endingsIn ((Desk.plain.after (before ++ [.press "↺"])).history after)).drop
        (Desk.plain.after (before ++ [.press "↺"])).running.length,
      ending.isTaken = true ∧ ending.Binds "x" := by
  intro before after
  have hidle : (Desk.plain.after (before ++ [.press "↺"])).running.length = 0 := by decide +kernel
  have hstays := @forgotten_stays_forgotten _ _ _ Desk.ofFiles_none before (.press "↺") rfl after
    "x" fun ending hending => by
      rw [hidle, List.take_zero] at hending
      exact absurd hending List.not_mem_nil
  exact ⟨hstays.1, hstays.2.2 (by decide +kernel)⟩

/-- **What was forgotten comes back**: the variable is solved, another calculation is started, the
variable is forgotten, and the calculation ends. No calculation was started since. -/
theorem forgotten_comes_back :
    let before : List WindowEvent :=
      [.typed "x=1", .enter, .defer true, .typed "x", .enter]
    let d := Desk.plain.after (before ++ [.press "↺"])
    Desk.ofFiles ⟨none, true⟩ none = .ok Desk.plain ∧
    (Desk.plain.after before).window.scope.binds "x" = true ∧
    (Desk.plain.after before).Clears (.press "↺") ∧
    d.window.scope = [] ∧
    startedIn (d.history [.finish]) = [] ∧
    (d.after [.finish]).window.scope.binds "x" = true := by
  intro before d
  have hscope : d.window.scope = [] :=
    @scope_of_clears _ _ _ Desk.ofFiles_none before (.press "↺") rfl
  refine ⟨Desk.ofFiles_none, by decide +kernel, rfl, hscope, ?_, by decide +kernel⟩
  rw [Desk.history, startedIn_append, Desk.startedIn_moves]
  rfl

end Argand
