import Argand.Console
import Argand.Proofs.Reports

/-!
# The console is a session

Whatever is entered, the console calculates the texts before the first blank line one after
another and prints each result or error. It prompts once more for the line that ends it. Errors of
a text always have a code, so only the end of the input and the settings can end it early.

## Main definitions

* `Argand.session`: the calculations of some texts, each in the scope that the one before it left.
* `Argand.Calculation.Prints`: the text printed for a calculation.
* `Argand.Console.problems`: the texts that are calculated.

## Main results

* `Argand.Fault.exists_codeText`: every code stands in the table.
* `Argand.Console.reply_problem`: the reply to a line that is not blank.
* `Argand.Console.run_session`: the console is the session of the entered texts.
* `Argand.Console.run_unreadable`: settings that cannot be read end it.
-/

namespace Argand

/-! ### Sessions -/

/-- The **session** of some texts: each is calculated in the scope that the one before it left. -/
def session (file : SettingsFile) : Scope Operand → List String → List Calculation
  | _, [] => []
  | scope, problem :: rest =>
    calculate file problem scope ::
      session file (calculate file problem scope).scope rest

/-- A calculation **prints** the text of its result, or the code of its error, what the table says
about the code, and the text of the error. -/
inductive Calculation.Prints (c : Calculation) : String → Prop
  | result {r : Result} (h : c.outcome = .ok r) : c.Prints r.text
  | error {r : Report} {code text : String} (h : c.outcome = .error r)
      (hcode : r.fault.code? = some code) (htext : Entries.get? codeTexts code = some text) :
      c.Prints ("Error " ++ code ++ ": " ++ text ++ r.fault.message)

/-- A **plain** mishap: none of the calculator's own faults, which have codes. -/
def Fault.IsPlain (f : Fault) : Prop :=
  f.code? = none

/-- **Every code stands in the table** of texts. -/
theorem Fault.exists_codeText {f : Fault} {code : String} (h : f.code? = some code) :
    ∃ text, Entries.get? codeTexts code = some text := by
  refine Option.isSome_iff_exists.mp ?_
  cases f <;> cases h <;> decide

/-- What is reported for a text **has a code**: a mishap counts as unexpected. -/
theorem Report.exists_code (problem : String) (f : Fault) :
    ∃ code, (Report.ofFault problem f).fault.code? = some code := by
  rw [Report.ofFault]
  by_cases hown : f.isOwn = true
  · rw [if_pos hown]
    exact Option.isSome_iff_exists.mp hown
  · rw [if_neg hown]
    exact ⟨"9999", rfl⟩

/-! ### Settings that can be read, and others -/

namespace SettingsFile

variable {file : SettingsFile}

/-- A settings file that holds a record, holds no structured text or is missing **has settings**. -/
theorem exists_all (hfile : ∃ entries, file.value = .ok (.record entries)) :
    ∃ settings, file.all = .ok settings := by
  obtain ⟨entries, hvalue⟩ := hfile
  exact ⟨_, by rw [all, hvalue]; rfl⟩

/-- Reading structured text fails plainly. -/
theorem yields_value : Yields Fault.IsPlain (fun _ => True) file.value := by
  cases htext : file.text with
  | none => simp only [value, valueOf, htext]; trivial
  | some s =>
      simp only [value, valueOf, htext, Json.read]
      split <;> trivial

/-- A pair fails plainly. -/
theorem yields_pairOf (index : Nat) (parts : List Json) :
    Yields Fault.IsPlain (fun _ => True) (pairOf index parts) := by
  unfold pairOf
  split
  · rename_i k v
    cases k <;> trivial
  · trivial

/-- A list of entries fails plainly. -/
theorem yields_entriesOf (index : Nat) (items : List Json) :
    Yields Fault.IsPlain (fun _ => True) (entriesOf index items) := by
  induction items generalizing index with
  | nil => trivial
  | cons v rest ih =>
      have hentry : Yields Fault.IsPlain (fun _ => True) (entryOf index v) := by
        cases v <;> first | exact yields_pairOf index _ | trivial
      exact hentry.bind fun entry _ => (ih (index + 1)).bind fun _ _ => trivial

/-- **Settings that cannot be read** fail plainly. -/
theorem isPlain_of_all {f : Fault} (h : file.all = .error f) : f.IsPlain := by
  have hall : Yields Fault.IsPlain (fun _ => True) file.all := by
    rw [all]
    refine yields_value.bind fun v _ => ?_
    cases v <;> first | exact (yields_entriesOf 0 _).map fun _ _ => trivial | trivial
  exact hall.of_error h

end SettingsFile

namespace Console

/-- The texts **entered** in some lines: the trimmed lines before the first blank one. -/
def problems (lines : List String) : List String :=
  (lines.map Text.trim).takeWhile fun problem => !problem.isEmpty

/-- A **turn** of a console: a prompt, the notes of a calculation if it is watched, and a line. -/
def turn (watched : Bool) (c : Calculation) (text : String) : String :=
  prompt ++ notesText watched c.notes ++ line text

/-- A console that is not watched shows no notes. -/
@[simp] theorem notesText_false (notes : List (Note Operand)) : notesText false notes = "" := rfl

@[simp] theorem problems_nil : problems [] = [] := rfl

theorem problems_cons_blank {entered : String} (h : Text.trim entered = "") (rest : List String) :
    problems (entered :: rest) = [] := by
  simp [problems, h]

theorem problems_cons {entered : String} (h : Text.trim entered ≠ "") (rest : List String) :
    problems (entered :: rest) = Text.trim entered :: problems rest := by
  simp [problems, h]

/-! ### One line -/

section Reply

variable {file : SettingsFile} {settings : Settings} {watched : Bool} {scope : Scope Operand}
  {entered : String}

/-- A blank line ends the console. -/
theorem reply_blank (h : Text.trim entered = "") :
    reply file watched scope entered = ⟨"", .ended none⟩ := by
  simp [reply, h]

/-- **Any other line** is calculated and its result or error is printed; the next line meets the
scope that it leaves. -/
theorem reply_problem (hall : file.all = .ok settings) (h : Text.trim entered ≠ "") :
    ∃ text, (calculate file (Text.trim entered) scope).Prints text ∧
      reply file watched scope entered =
        ⟨notesText watched (calculate file (Text.trim entered) scope).notes ++ line text,
          .more (calculate file (Text.trim entered) scope).scope⟩ := by
  have hne : (Text.trim entered).isEmpty = false := by simpa using h
  cases houtcome : (calculate file (Text.trim entered) scope).outcome with
  | ok r => exact ⟨r.text, .result houtcome, by simp [reply, hne, houtcome]⟩
  | error r =>
      -- the settings are there, so the error belongs to the text
      obtain ⟨f, rfl⟩ : ∃ f, r = .ofFault (Text.trim entered) f := by
        obtain ⟨f, herror, -⟩ | ⟨_, -, ⟨f, hf, -⟩ | ⟨a, -, hshown, -⟩⟩ :=
          calculate_stages file (Text.trim entered) scope
        · cases hall.symm.trans herror
        · exact ⟨f, Except.error.inj (houtcome.symm.trans hf)⟩
        · rw [houtcome] at hshown
          cases ha : a.report _ with
          | ok r => rw [ha] at hshown; cases hshown
          | error f => rw [ha] at hshown; exact ⟨f, Except.error.inj hshown⟩
      obtain ⟨code, hcode⟩ := Report.exists_code (Text.trim entered) f
      obtain ⟨text, htext⟩ := Fault.exists_codeText hcode
      refine ⟨_, .error houtcome hcode htext, ?_⟩
      simp [reply, hne, houtcome, hcode, reportText, htext]

/-- Without settings that can be read it **ends** the console. -/
theorem reply_unreadable {f : Fault} (hall : file.all = .error f)
    (h : Text.trim entered ≠ "") : reply file watched scope entered = ⟨"", .ended (some f)⟩ := by
  have hne : (Text.trim entered).isEmpty = false := by simpa using h
  have hnotes : notesText watched [] = "" := by cases watched <;> rfl
  have hcode : f.code? = none := SettingsFile.isPlain_of_all hall
  simp [reply, calculate, Calculation.ofResolution, hne, hall, hcode, hnotes]

end Reply

/-! ### Runs -/

section Run

variable {file : SettingsFile} {settings : Settings} (watched : Bool)

/-- From any scope on, the console makes a turn for each calculation of the session, and prompts
once more. -/
theorem output_loop (hall : file.all = .ok settings) (scope : Scope Operand)
    (lines : List String) :
    ∃ printed, List.Forall₂ Calculation.Prints (session file scope (problems lines)) printed ∧
      (loop file watched scope lines).output =
        String.join (List.zipWith (turn watched) (session file scope (problems lines)) printed) ++
          prompt := by
  induction lines generalizing scope with
  | nil => exact ⟨[], .nil, rfl⟩
  | cons entered rest ih =>
      by_cases h : Text.trim entered = ""
      · rw [problems_cons_blank h]
        exact ⟨[], .nil, by rw [loop, reply_blank h]; rfl⟩
      · obtain ⟨text, htext, hreply⟩ := @reply_problem file settings watched scope entered hall h
        obtain ⟨printed, hprinted, houtput⟩ :=
          ih (calculate file (Text.trim entered) scope).scope
        rw [problems_cons h, session]
        refine ⟨text :: printed, .cons htext hprinted, ?_⟩
        simp only [loop, hreply, houtput, List.zipWith_cons_cons, String.join_cons, turn,
          String.append_assoc]

/-- The console **ends** with a blank line, and otherwise with the input. -/
theorem fault_loop (hall : file.all = .ok settings) (scope : Scope Operand)
    (lines : List String) :
    (loop file watched scope lines).fault =
      if ∃ entered ∈ lines, Text.trim entered = "" then none else some .endOfInput := by
  induction lines generalizing scope with
  | nil => simp [loop]
  | cons entered rest ih =>
      by_cases h : Text.trim entered = ""
      · rw [loop, reply_blank h]
        simp [h]
      · obtain ⟨text, -, hreply⟩ := @reply_problem file settings watched scope entered hall h
        rw [loop, hreply]
        simp [h, ih]

/-- Lines **after a blank one** are never read, whatever the settings file holds. -/
theorem loop_append_blank {blank : String} (h : Text.trim blank = "") (scope : Scope Operand)
    (before after : List String) :
    loop file watched scope (before ++ blank :: after) =
      loop file watched scope (before ++ [blank]) := by
  induction before generalizing scope with
  | nil => simp only [List.nil_append, loop, reply_blank h]
  | cons entered rest ih =>
      simp only [List.cons_append, loop]
      cases (reply file watched scope entered).next with
      | more scope => simp only [ih]
      | ended fault => rfl

/-- **The console is the session of the texts entered before the first blank line**, if the
settings file holds a record, holds no structured text or is missing. After its header it makes one
turn for each calculation, which begin with no variable, and prompts once more. It ends as it
should if there is a blank line, and at the end of the input otherwise; lines after a blank one
have no part in it. -/
theorem run_session (hfile : ∃ entries, file.value = .ok (.record entries))
    (lines : List String) :
    (∃ printed, List.Forall₂ Calculation.Prints (session file [] (problems lines)) printed ∧
      (run file watched lines).output =
        header ++
          String.join (List.zipWith (turn watched) (session file [] (problems lines)) printed) ++
          prompt) ∧
    (run file watched lines).fault =
      (if ∃ entered ∈ lines, Text.trim entered = "" then none else some .endOfInput) ∧
    ∀ before blank after, lines = before ++ blank :: after → Text.trim blank = "" →
      run file watched lines = run file watched (before ++ [blank]) := by
  obtain ⟨settings, hall⟩ := SettingsFile.exists_all hfile
  refine ⟨?_, fault_loop watched hall [] lines, ?_⟩
  · obtain ⟨printed, hprinted, houtput⟩ := output_loop watched hall [] lines
    exact ⟨printed, hprinted, by rw [run, houtput, String.append_assoc]⟩
  · rintro before blank after rfl hblank
    rw [run, loop_append_blank watched hblank]
    rfl

/-- **Settings that cannot be read end the console** at its first text, and with a fault of their
own. -/
theorem run_unreadable {f : Fault} (hall : file.all = .error f) {entered : String}
    (h : Text.trim entered ≠ "") (rest : List String) :
    run file watched (entered :: rest) = ⟨header ++ prompt, some f⟩ := by
  rw [run, loop, reply_unreadable hall h]
  simp

end Run

/-- Two texts of a session with an error between them, up to a blank line. -/
theorem run_session_unknown :
    let file := SettingsFile.ofText "\x7b\"decimal_places\": 3\x7d"
    let lines := ["y=1/3", " 2y+ ", "y", "\t", "y=4"]
    (∃ printed, List.Forall₂ Calculation.Prints (session file [] (problems lines)) printed ∧
      (run file false lines).output =
        header ++
          String.join (List.zipWith (turn false) (session file [] (problems lines)) printed) ++
          prompt) ∧
    (run file false lines).fault = none ∧
    run file false lines = run file false ["y=1/3", " 2y+ ", "y", "\t"] := by
  intro file lines
  have hrecord : file.value = .ok (.record [("decimal_places", .whole 3)]) := rfl
  obtain ⟨houtput, hfault, hrest⟩ := run_session false ⟨_, hrecord⟩ lines
  refine ⟨houtput, ?_, hrest ["y=1/3", " 2y+ ", "y"] "\t" ["y=4"] rfl (by decide)⟩
  rw [hfault, if_pos ⟨"\t", by decide, by decide⟩]

example :
    (run ⟨none, true⟩ false ["y=1/3", " 2y+ ", "y", "\t", "y=4"]).output =
      "Enter the problem (empty line quits): \n> y ≈ 0.3333333333\n" ++
        "> Error 3027: Missing Number.Missing Number.\n> 0.3333333333\n> " := by
  decide +kernel

/-- **A prompt stands before the line that ends the console**: with a blank line alone, the header
is not all that is written. -/
theorem output_prompts_once_more :
    ¬ ∃ printed,
      List.Forall₂ Calculation.Prints (session ⟨none, true⟩ [] (problems [""])) printed ∧
        (run ⟨none, true⟩ false [""]).output =
          header ++ String.join
            (List.zipWith (turn false) (session ⟨none, true⟩ [] (problems [""])) printed) := by
  rintro ⟨printed, -, houtput⟩
  revert houtput
  rw [show problems [""] = [] by decide, session, List.zipWith_nil_left]
  decide +kernel

end Console

end Argand
