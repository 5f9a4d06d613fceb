import Argand.Proofs.Session
import Argand.Proofs.Window.Steps

/-!
# Single flight

Calculations end in the order in which they are started, and only one runs at a time. A
calculation that ends hands its result or a report over to the window. With a count of places in
the settings file one handover is enough, since the scope can always be shown.

## Main definitions

* `Argand.Handover`: what a calculation hands over, with `Handover.ofCalculation`.
* `Argand.Desk.handovers`: the handovers of a calculation that ends.
* `Argand.Status.IsValid`: the scopes of the window and of the running calculations are valid.

## Main results

* `Argand.Steps.running_eq`: what was started has ended, in order, or still runs.
* `Argand.Steps.isValid`: scopes stay valid.
* `Argand.Desk.receiveAll_handovers`: the end of a calculation consists in its handovers.
* `Argand.single_flight`: at most one calculation runs, the window shows whether one does, and
  each that ends is handed over once.
-/

namespace Argand

/-! ### Order -/

/-- **What was started** has ended, in order, or still runs. -/
theorem Steps.running_eq {s t : Status} {ms : List Move} (h : Steps s ms t) :
    s.running ++ startedIn ms = (endingsIn ms).map Ending.job ++ t.running := by
  refine h.keeps (P := fun done u =>
    s.running ++ startedIn done = (endingsIn done).map Ending.job ++ u.running)
    (fun {done u m v} hstep hu => ?_) [] (List.append_nil _)
  rw [startedIn_append, endingsIn_append, ← List.append_assoc, hu]
  cases hstep with
  | finish hrunning hdesk =>
      rw [hrunning]
      simp [startedIn, endingsIn, Move.started?, Move.ending?]
  | start hbusy hscope => simp [startedIn, endingsIn, Move.started?, Move.ending?]
  | _ =>
      show _ ++ [] = List.map Ending.job (_ ++ []) ++ _
      rw [List.append_nil, List.append_nil]

/-- The calculation that ends at an index is the one that was **started at that index**. -/
theorem Steps.started_of_ending {s t : Status} {ms : List Move} (h : Steps s ms t)
    (hs : s.running = []) {i : Nat} {e : Ending} (he : (endingsIn ms)[i]? = some e) :
    (startedIn ms)[i]? = some e.job := by
  have horder := h.running_eq
  rw [hs, List.nil_append] at horder
  have hi : i < ((endingsIn ms).map Ending.job).length := by
    rw [List.length_map]
    exact (List.getElem?_eq_some_iff.mp he).1
  rw [horder, List.getElem?_append_left hi, List.getElem?_map, he]
  rfl

/-- The calculation that an event of a new window **starts is the one that ends** at its index. -/
theorem job_of_started {file : SettingsFile} {labels : Option String} {d₀ : Desk}
    (h : Desk.ofFiles file labels = .ok d₀) {before after : List WindowEvent} {e : WindowEvent}
    {job : Job} (hjob : startedIn ((d₀.after before).moves e) = [job]) {ending : Ending}
    (hending : (endingsIn (d₀.history (before ++ e :: after)))[
      (startedIn (d₀.history before)).length]? = some ending) : ending.job = job := by
  have hstarted := (steps_of_history (isSingle_of_ofFiles h) _).started_of_ending
    (running_of_ofFiles h) hending
  rw [Desk.history_append, startedIn_append, List.getElem?_append_right (le_refl _), Nat.sub_self,
    Desk.history, startedIn_append, hjob] at hstarted
  exact (Option.some.inj hstarted).symm

/-! ### Valid scopes -/

/-- The scopes of the window and of the running calculations **are valid**. -/
structure Status.IsValid (s : Status) : Prop where
  scope : s.scope.IsValid Operand.IsNumeric
  running : ∀ job ∈ s.running, job.scope.IsValid Operand.IsNumeric

/-- The scope that a calculation leaves is valid. -/
theorem Ending.isValid_scope {e : Ending}
    (hdesk : e.desk.window.scope.IsValid Operand.IsNumeric)
    (hjob : e.job.scope.IsValid Operand.IsNumeric) : e.scope.IsValid Operand.IsNumeric := by
  unfold Ending.scope
  split
  · split
    · exact isValid_calculate hjob
    · exact fun entry h => absurd h List.not_mem_nil
  · exact hdesk

/-- A step keeps scopes valid. -/
theorem Status.IsValid.step {s t : Status} {m : Move} (hstep : Step s m t) (h : s.IsValid) :
    t.IsValid := by
  have hnil : Scope.IsValid Operand.IsNumeric ([] : Scope Operand) :=
    fun entry h => absurd h List.not_mem_nil
  cases hstep with
  | replace file => exact ⟨h.scope, h.running⟩
  | start hbusy hscope =>
      refine ⟨h.scope, fun job hjob => ?_⟩
      obtain hjob | hjob := List.mem_append.mp hjob
      · exact h.running job hjob
      · rw [List.mem_singleton.mp hjob, hscope]
        split
        · exact h.scope
        · exact hnil
  | @finish e rest hrunning hdesk =>
      have hwindow : e.desk.window.scope = s.scope := congrArg Status.scope hdesk
      refine ⟨Ending.isValid_scope (hwindow ▸ h.scope) ?_, fun job hjob => ?_⟩
      · exact h.running e.job (hrunning ▸ List.mem_cons_self)
      · exact h.running job (hrunning ▸ List.mem_cons_of_mem _ hjob)
  | forget => exact ⟨hnil, h.running⟩
  | load hall =>
      refine ⟨?_, h.running⟩
      dsimp only
      split
      · exact hnil
      · exact h.scope

/-- **Scopes stay valid**, and so are those of all calculations that ended. -/
theorem Steps.isValid {s t : Status} {ms : List Move} (h : Steps s ms t) (hs : s.IsValid) :
    t.IsValid ∧ ∀ e ∈ endingsIn ms, e.job.scope.IsValid Operand.IsNumeric := by
  refine h.keeps (P := fun done u =>
    u.IsValid ∧ ∀ e ∈ endingsIn done, e.job.scope.IsValid Operand.IsNumeric)
    (fun {done u m v} hstep hu => ⟨hu.1.step hstep, fun e he => ?_⟩)
    [] ⟨hs, fun e he => absurd he List.not_mem_nil⟩
  rw [endingsIn_append] at he
  obtain he | he := List.mem_append.mp he
  · exact hu.2 e he
  · cases hstep with
    | finish hrunning hdesk =>
        obtain rfl := List.mem_singleton.mp he
        exact hu.1.running e.job (hrunning ▸ List.mem_cons_self)
    | _ => cases he

/-- A new desk binds nothing. -/
theorem isValid_of_ofFiles {file : SettingsFile} {labels : Option String} {d : Desk}
    (h : Desk.ofFiles file labels = .ok d) : d.status.IsValid := by
  obtain ⟨settings, -, rfl⟩ := Desk.eq_of_ofFiles h
  exact ⟨fun entry h => absurd h List.not_mem_nil, fun job h => absurd h List.not_mem_nil⟩

/-! ### Handovers -/

/-- What a calculation that ends **hands over** to the window. -/
inductive Handover where
  | result (r : Result) (scope : Scope Operand)
  | report (r : Report)

/-- What is handed over **first**. A fault that is not one of the calculation itself is reported
as a crash. -/
def Handover.ofCalculation (problem : String) (c : Calculation) : Handover :=
  match c.outcome with
  | .ok r => .result r c.scope
  | .error r => .report (if r.fault.isOwn then r else Desk.crashReport problem r.fault)

namespace Desk

/-- A handover is **received**. -/
def receive (d : Desk) : Handover → Reaction
  | .result r scope => d.receiveResult r scope
  | .report r => d.receiveReport r

/-- Handovers are received in turn: the desk afterwards, and the boxes shown. -/
def receiveAll (d : Desk) : List Handover → Desk × List Box
  | [] => (d, [])
  | h :: rest =>
    let s := (d.receive h).desk.receiveAll rest
    (s.1, (d.receive h).boxes ++ s.2)

/-- The **handovers** of a calculation that ends. A report follows a result that cannot be taken
over. -/
def handovers (d : Desk) (job : Job) : List Handover :=
  let first := Handover.ofCalculation job.problem (calculate d.file job.problem job.scope)
  first ::
    match (d.receive first).fault with
    | none => []
    | some f => [.report (crashReport job.problem f)]

/-- A scope label that cannot be replaced shows no box. -/
theorem boxes_showingScope (d : Desk) : d.showingScope.boxes = [] := by
  unfold showingScope
  cases d.scopeText <;> rfl

/-- The scope label is replaced if there is a text for it. -/
theorem fault_showingScope {d : Desk} {text : String} (h : d.scopeText = .ok text) :
    d.showingScope.fault = none := by
  rw [showingScope, h]
  rfl

/-- **The end of a calculation** consists in its handovers. -/
theorem receiveAll_handovers (d : Desk) (job : Job) :
    d.receiveAll (d.handovers job) = ((d.finishJob job).desk, (d.finishJob job).boxes) := by
  simp only [handovers, finishJob, Handover.ofCalculation]
  cases (calculate d.file job.problem job.scope).outcome with
  | error report =>
      dsimp only
      split <;> rfl
  | ok result =>
      have hboxes : (d.receiveResult result
          (calculate d.file job.problem job.scope).scope).boxes = [] := boxes_showingScope _
      simp only [receive]
      cases (d.receiveResult result (calculate d.file job.problem job.scope).scope).fault with
      | none => simp only [receiveAll, receive, hboxes, List.append_nil]
      | some f => simp only [receiveAll, receive, hboxes, List.append_nil, List.nil_append]

/-- With a count of places a valid scope is taken over. -/
theorem fault_receiveResult {d : Desk} {n : Int} (hn : 0 ≤ n)
    (hfile : d.file.get "decimal_places" = .ok (.whole n)) {scope : Scope Operand}
    (hs : scope.IsValid Operand.IsNumeric) (r : Result) :
    (d.receiveResult r scope).fault = none := by
  have hkept : Scope.IsValid Operand.IsNumeric (if d.window.keepsScope then scope else []) := by
    split
    · exact hs
    · exact fun entry h => absurd h List.not_mem_nil
  obtain ⟨text, htext⟩ := exists_showScope hn hkept
  refine @fault_showingScope _ text ?_
  rw [scopeText]
  show (do showScope (.ofJson (← d.file.get "decimal_places")) _) = _
  rw [hfile]
  exact htext

/-- **One handover** is enough with a count of places. -/
theorem length_handovers {d : Desk} {n : Int} (hn : 0 ≤ n)
    (hfile : d.file.get "decimal_places" = .ok (.whole n)) {job : Job}
    (hs : job.scope.IsValid Operand.IsNumeric) : (d.handovers job).length = 1 := by
  have hfault : (d.receive (.ofCalculation job.problem
      (calculate d.file job.problem job.scope))).fault = none := by
    unfold Handover.ofCalculation
    split
    · exact fault_receiveResult hn hfile (isValid_calculate hs) _
    · rfl
  rw [handovers, hfault]
  rfl

end Desk

/-- The box that is shown while a calculation runs. -/
def busyBox (w : Window) : Box :=
  .calculation "Error 4002: Calculation already Running!"
    ("Details: A calculation is already running!\nEquation: " ++ Text.trim w.display)
    (isDark w.settings)

/-- **Single flight.** Whatever happens to a new window, at most one calculation runs, the flag
and the return button show whether one does, and while it runs the return key and the return
button only show a box. What was started has ended, in order, or still runs. The end of each
calculation consisted in its handovers, and with a count of places in the settings file there was
exactly one. -/
theorem single_flight {file : SettingsFile} {labels : Option String} {d₀ : Desk}
    (h : Desk.ofFiles file labels = .ok d₀) (events : List WindowEvent) :
    let d := d₀.after events
    let moves := d₀.history events
    (d.running.length ≤ 1 ∧ (d.window.busy = true ↔ d.running.length = 1)) ∧
    ((d.window.enterButton = "X" ↔ d.window.busy = true) ∧
      (d.window.enterButton = "⏎" ↔ d.window.busy = false)) ∧
    (d.window.busy = true → (Text.trim d.window.display).isEmpty = false →
      d.react .enter = .showing d (busyBox d.window) ∧
      d.react (.press "⏎") = .showing d (busyBox d.window)) ∧
    startedIn moves = (endingsIn moves).map Ending.job ++ d.running ∧
    (∀ e ∈ endingsIn moves,
      e.desk.receiveAll (e.desk.handovers e.job) =
        ((e.desk.finishJob e.job).desk, (e.desk.finishJob e.job).boxes) ∧
      ∀ n : Int, 0 ≤ n → e.desk.file.get "decimal_places" = .ok (.whole n) →
        (e.desk.handovers e.job).length = 1) ∧
    (d.react .finish).desk.running = [] := by
  intro d moves
  have hsteps := steps_of_history (isSingle_of_ofFiles h) events
  have hsingle : d.status.IsSingle := (isSingle_of_ofFiles h).steps hsteps
  have hlength : d.running.length = if d.window.busy then 1 else 0 := hsingle.length_running
  have hbutton : d.window.enterButton = buttonOf d.window.busy := hsingle.button_eq
  refine ⟨⟨?_, ?_⟩, ⟨?_, ?_⟩, fun hbusy hblank => ?_, ?_, fun e he => ?_, ?_⟩
  · rw [hlength]
    split <;> omega
  · rw [hlength]
    cases d.window.busy <;> simp
  · rw [hbutton]
    cases d.window.busy <;> decide
  · rw [hbutton]
    cases d.window.busy <;> decide
  · have hstart : d.startCalculation = .showing d (busyBox d.window) :=
      Desk.startCalculation_of_busy hblank hbusy
    exact ⟨hstart, hstart⟩
  · have horder := hsteps.running_eq
    rwa [running_of_ofFiles h, List.nil_append] at horder
  · refine ⟨e.desk.receiveAll_handovers e.job, fun n hn hfile => ?_⟩
    exact Desk.length_handovers hn hfile ((hsteps.isValid (isValid_of_ofFiles h)).2 e he)
  · exact Desk.running_finishAll hsingle

/-- A calculation that waits keeps the return key from starting another one, and is handed over
once. -/
theorem single_flight_waiting :
    (Desk.plain.after [.defer true, .typed "x=1", .enter]).running.length = 1 ∧
    ((Desk.plain.after [.defer true, .typed "x=1", .enter]).react .enter).boxes =
      [.calculation "Error 4002: Calculation already Running!"
        "Details: A calculation is already running!\nEquation: x=1" false] ∧
    (endingsIn (Desk.plain.history [.defer true, .typed "x=1", .enter, .finish])).length = 1 ∧
    ∀ e ∈ endingsIn (Desk.plain.history [.defer true, .typed "x=1", .enter, .finish]),
      (e.desk.handovers e.job).length = 1 := by
  obtain ⟨⟨-, hbusy⟩, -, henter, -⟩ :=
    single_flight Desk.ofFiles_none [.defer true, .typed "x=1", .enter]
  obtain ⟨-, -, -, -, hended, -⟩ :=
    single_flight Desk.ofFiles_none [.defer true, .typed "x=1", .enter, .finish]
  refine ⟨hbusy.mp rfl, ?_, rfl, fun e he => (hended e he).2 10 (by decide) ?_⟩
  · rw [(henter rfl (by decide +kernel)).1]
    decide +kernel
  · have hfile : ∀ e ∈ endingsIn (Desk.plain.history
        [.defer true, .typed "x=1", .enter, .finish]), e.desk.file = ⟨none, true⟩ := by
      decide +kernel
    rw [hfile e he]
    rfl

end Argand
