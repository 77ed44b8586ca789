import QLanguage.Proofs.Prompt.Stripping
import QLanguage.Proofs.Session.Lines
import QLanguage.Prompt.Shell

/-!
# The prompt survives every input

A line at the prompt is a command, is held back with what is held back already, or completes a text,
which is then executed under the reporter (`Shell.step_cases`). Between lines the session is
`Ready`: no result is left, faults are not fatal, and the machine is idle; and text that is held
back is stripped and unclosed. Each line keeps this, and so does every sequence of lines, as long as
no integer in a text that is executed is too long.
-/

namespace QLanguage

open Step

/-! ## Executing a text -/

namespace Workspace

variable {w : Workspace}

/-- What the machine of the session binds. -/
def root (w : Workspace) : Scope := w.machine.env.root

/-- The session waits for a line: no result is left, faults are not fatal, and the machine is
idle. -/
structure Ready (w : Workspace) : Prop where
  /-- All results have been taken. -/
  results : w.session.results = []
  /-- Faults are reported and do not end the program. -/
  tolerant : w.reporter.fatal = false
  /-- The machine is idle. -/
  idle : w.machine.Idle

namespace Ready

/-- A session may note the line that it reads. -/
theorem noting (h : w.Ready) (line : String) : (w.noting line).Ready :=
  ⟨h.results, h.tolerant, h.idle⟩

/-- A session may keep an idle machine. -/
theorem keeping (h : w.Ready) {machine : Machine} (hidle : machine.Idle) :
    (w.keeping machine).Ready :=
  ⟨h.results, h.tolerant, hidle.of_env rfl hidle.pending rfl⟩

/-- A session may write. -/
theorem writing (h : w.Ready) (texts : List String) : (w.writing texts).Ready :=
  ⟨h.results, h.tolerant, h.idle⟩

/-- Where only what is reportable ends a step, the step gives a result under the reporter, and what
the machine binds is as the step has left it. -/
theorem guarded {α : Type} {step : Work α} (hready : (step.run w).2.Ready)
    (hreport : ∀ abort, (step.run w).1 = .error abort → abort.Reportable) :
    ∃ shown w', (Work.guarded step).run w = (.ok shown, w') ∧ w'.Ready ∧
      w'.root = (step.run w).2.root := by
  rcases hrun : step.run w with ⟨abort | a, w'⟩ <;> rw [hrun] at hready hreport
  · have hguard := hreport abort rfl w'.reporter hready.tolerant
    exact ⟨none, _, Work.run_guarded_error hrun hguard, hready.writing _, rfl⟩
  · exact ⟨some a, w', Work.run_guarded_ok hrun, hready, rfl⟩

end Ready

end Workspace

/-- Where no result is left, executing a text leaves none: the value of an expression is shown and
taken away. -/
theorem run_execute {w : Workspace} (hresults : w.session.results = []) (text : String) :
    (Shell.execute text).run w =
      match readLine text with
      | .error e => (.error (.ofLine w.reporter.colours e), w.noting text)
      | .ok (.declarations items) =>
        (((Eval.declareAll nestingLimit items).run w.machine).1.mapError
            (.ofHalt w.reporter.colours),
          (w.noting text).keeping ((Eval.declareAll nestingLimit items).run w.machine).2)
      | .ok (.expression e) =>
        match (Eval.eval nestingLimit e).run w.machine with
        | (.ok value, machine) =>
          (.ok (), ((w.noting text).keeping machine).writing [value.source ++ "\n"])
        | (.error halt, machine) =>
          (.error (.ofHalt w.reporter.colours halt), (w.noting text).keeping machine) := by
  have hadd := Work.run_addLine text w
  obtain ⟨⟨path, source, diagnostics, module?, machine?, results⟩, reporter, output⟩ := w
  obtain rfl : results = [] := hresults
  -- Behind the line there is a result to take just where it was an expression with a value.
  rcases hread : readLine text with e | ⟨items⟩ | e <;> rw [hread] at hadd
  · exact run_bind_error hadd
  · dsimp only at hadd ⊢
    rcases hrun : (Eval.declareAll nestingLimit items).run _ with ⟨halt | _, machine⟩ <;>
      rw [hrun] at hadd
    · exact run_bind_error hadd
    · exact run_bind_ok hadd
  · dsimp only at hadd ⊢
    rcases hrun : (Eval.eval nestingLimit e).run _ with ⟨halt | value, machine⟩ <;>
      rw [hrun] at hadd
    · exact run_bind_error hadd
    · exact run_bind_ok hadd

/-- What becomes of the root scope of a machine when a text is executed, or none is. Declarations
are evaluated on the machine, so that the first so many of their names are bound to values, and
nothing else changes the scope. -/
structure Rebinds (text? : Option String) (m : Machine) (root : Scope) : Prop where
  /-- Declarations are evaluated. -/
  declarations : ∀ text items, text? = some text → readLine text = .ok (.declarations items) →
    root = ((Eval.declareAll nestingLimit items).run m).2.env.root ∧
      ∃ entries, entries.map Prod.fst <+: items.map Declaration.name ∧
        root = m.env.root.setAll entries
  /-- Anything else leaves the scope as it was. -/
  otherwise : (∀ text items, text? = some text → readLine text ≠ .ok (.declarations items)) →
    root = m.env.root

/-- Where there are no declarations, it is enough that nothing changes. -/
theorem Rebinds.of_ne {text? : Option String} {m : Machine} {root : Scope}
    (hne : ∀ text items, text? = some text → readLine text ≠ .ok (.declarations items))
    (h : root = m.env.root) : Rebinds text? m root :=
  ⟨fun text items htext hread => absurd hread (hne text items htext), fun _ => h⟩

/-- However the execution of a text ends, the session waits for a line again, and what has ended it
early can be reported. -/
theorem Workspace.Ready.execute {w : Workspace} (h : w.Ready) {text : String}
    (hshort : ShortIntegers text) :
    ((Shell.execute text).run w).2.Ready ∧
      Rebinds (some text) w.machine ((Shell.execute text).run w).2.root ∧
      ∀ abort, ((Shell.execute text).run w).1 = .error abort → abort.Reportable := by
  rw [run_execute h.results text]
  rcases hread : readLine text with e | ⟨items⟩ | e
  · refine ⟨h.noting text, .of_ne ?_ rfl, ?_⟩
    · rintro _ items ⟨⟩ hdeclares
      cases hread.symm.trans hdeclares
    · rintro _ ⟨⟩
      exact reportable_of_readLine hshort hread _
  · obtain ⟨hidle, hentries⟩ := h.idle.declareAll nestingLimit items
    -- Those before the one that halts, if one does, stay bound.
    refine ⟨(h.noting text).keeping hidle, ⟨?_, ?_⟩, fun _ => Abort.reportable_of_mapError⟩
    · rintro _ items' ⟨⟩ hdeclares
      cases hread.symm.trans hdeclares
      exact ⟨rfl, hentries⟩
    · exact fun hne => absurd hread (hne text items rfl)
  · obtain ⟨henv, hidle⟩ := h.idle.eval nestingLimit e
    have hne : ∀ text' items, some text = some text' →
        readLine text' ≠ .ok (.declarations items) := by
      rintro _ items ⟨⟩ hdeclares
      cases hread.symm.trans hdeclares
    dsimp only
    rcases hrun : (Eval.eval nestingLimit e).run w.machine with ⟨halt | value, machine⟩ <;>
      rw [hrun] at henv hidle
    · refine ⟨(h.noting text).keeping hidle, .of_ne hne (congrArg Environment.root henv), ?_⟩
      rintro _ ⟨⟩
      exact (Abort.announced_ofHalt _ halt).reportable
    · refine ⟨((h.noting text).keeping hidle).writing _,
        .of_ne hne (congrArg Environment.root henv), ?_⟩
      rintro _ ⟨⟩

namespace Shell

variable {shell : Shell} {line : String}

/-! ## Taking a line -/

/-- The text that a line completes, if it completes one: the line is source text, and together with
what is held back it is closed and not empty. -/
def completed? (shell : Shell) (line : String) : Option String :=
  match classifyLine line (!shell.pending.isEmpty) with
  | .source text =>
    let text := stripBlanks (shell.pending ++ " " ++ text)
    if isUnclosed text || text.isEmpty then none else some text
  | _ => none

/-- Text that may be held back: none, or stripped text that is unclosed. -/
def Held (text : String) : Prop := text ≠ "" → stripBlanks text = text ∧ isUnclosed text = true

/-- The prompt that tells whether text is held back. -/
def promptFor (text : String) : String := if text = "" then primaryPrompt else secondaryPrompt

/-- A line that completes no text writes something at most, or changes the text that is held back
and the prompt with it; any other line executes the text that it completes. -/
theorem step_cases (shell : Shell) (line : String) :
    (shell.completed? line = none ∧
      ((∃ left texts, shell.step line =
          (.ok left, { shell with workspace := shell.workspace.writing texts })) ∨
        ∃ text, Held text ∧ shell.step line =
          (.ok false, { shell with pending := text, prompt := promptFor text }))) ∨
      ∃ text, shell.completed? line = some text ∧ shell.step line =
        (((Work.guarded (execute text)).run shell.workspace).1.map fun _ => false,
          ⟨((Work.guarded (execute text)).run shell.workspace).2, "", primaryPrompt⟩) := by
  have hwriting : shell.workspace.writing [] = shell.workspace := by
    unfold Workspace.writing
    rw [List.append_nil]
  unfold step completed?
  rcases classifyLine line (!shell.pending.isEmpty) with _ | ⟨command, topic, text⟩ | text
  · exact .inl ⟨rfl, .inl ⟨false, [], by rw [hwriting]⟩⟩
  · refine .inl ⟨rfl, .inl ?_⟩
    cases command with
    | exit => exact ⟨true, [], by rw [hwriting]⟩
    | help => exact ⟨false, [helpText], rfl⟩
    | endOfFile => exact ⟨true, ["\n"], rfl⟩
  · have hstripped := stripBlanks_stripBlanks (shell.pending ++ " " ++ text)
    dsimp only [enter]
    generalize stripBlanks (shell.pending ++ " " ++ text) = joined at hstripped ⊢
    by_cases hunclosed : isUnclosed joined = true
    · have hne : joined ≠ "" := by
        rintro rfl
        exact absurd hunclosed (by decide)
      rw [if_pos hunclosed, if_pos (by rw [hunclosed]; rfl)]
      refine .inl ⟨rfl, .inr ⟨joined, fun _ => ⟨hstripped, hunclosed⟩, ?_⟩⟩
      rw [promptFor, if_neg hne]
      rfl
    · rw [if_neg hunclosed]
      by_cases hempty : joined.isEmpty = true
      · rw [if_pos hempty, if_pos (by rw [hempty, Bool.or_true])]
        exact .inl ⟨rfl, .inr ⟨"", fun h => absurd rfl h, rfl⟩⟩
      · rw [if_neg hempty, if_neg (by simp [hunclosed, hempty])]
        refine .inr ⟨joined, rfl, ?_⟩
        rcases (Work.guarded (execute joined)).run shell.workspace with ⟨abort | shown, w'⟩ <;> rfl

/-! ## Between lines -/

/-- The prompt waits for a line. -/
structure Ready (shell : Shell) : Prop where
  /-- The session waits for a line. -/
  workspace : shell.workspace.Ready
  /-- The text that is held back may be. -/
  held : Held shell.pending
  /-- The prompt tells whether text is held back. -/
  prompt : shell.prompt = promptFor shell.pending

/-- A fresh prompt waits for a line. -/
theorem ready_fresh (reporter : Reporter) (output : List String) :
    (fresh reporter output).Ready :=
  ⟨⟨rfl, rfl, .empty⟩, fun h => absurd rfl h, rfl⟩

/-- A prompt that waits for a line takes it without being aborted, and waits again. -/
theorem Ready.step (h : shell.Ready)
    (hshort : ∀ text, shell.completed? line = some text → ShortIntegers text) :
    (∃ left, (shell.step line).1 = .ok left) ∧ (shell.step line).2.Ready ∧
      Rebinds (shell.completed? line) shell.workspace.machine
        (shell.step line).2.workspace.root := by
  rcases shell.step_cases line with ⟨hnone, hstep⟩ | ⟨text, hcompleted, hstep⟩
  · have hne : ∀ text items, shell.completed? line = some text →
        readLine text ≠ .ok (.declarations items) := by
      intro text items htext
      cases hnone.symm.trans htext
    rcases hstep with ⟨left, texts, hstep⟩ | ⟨text, hheld, hstep⟩ <;> rw [hstep]
    · exact ⟨⟨left, rfl⟩, ⟨h.workspace.writing texts, h.held, h.prompt⟩, .of_ne hne rfl⟩
    · exact ⟨⟨false, rfl⟩, ⟨h.workspace, hheld, rfl⟩, .of_ne hne rfl⟩
  · obtain ⟨hready, hrebinds, hreport⟩ := h.workspace.execute (hshort text hcompleted)
    obtain ⟨shown, w', hrun, hready', hroot⟩ := Workspace.Ready.guarded hready hreport
    rw [← hroot, ← hcompleted] at hrebinds
    rw [hstep, hrun]
    exact ⟨⟨false, rfl⟩, ⟨hready', fun h => absurd rfl h, rfl⟩, hrebinds⟩

/-- The prompt after some lines, each taken whatever became of those before. -/
def after (shell : Shell) (lines : List String) : Shell :=
  lines.foldl (fun shell line => (shell.step line).2) shell

/-- After the first line the others are taken. -/
theorem after_cons (shell : Shell) (line : String) (lines : List String) :
    shell.after (line :: lines) = (shell.step line).2.after lines := List.foldl_cons ..

/-- The last line is taken after the others. -/
theorem after_append (shell : Shell) (lines : List String) (line : String) :
    shell.after (lines ++ [line]) = ((shell.after lines).step line).2 := by
  rw [after, List.foldl_append]
  rfl

/-- No text that is executed in the course of some lines has an integer that is too long. -/
def TakesShort (shell : Shell) (lines : List String) : Prop :=
  ∀ before line later text, lines = before ++ line :: later →
    (shell.after before).completed? line = some text → ShortIntegers text

/-- A prompt that waits for a line waits for one after any lines. -/
theorem Ready.after {lines : List String} (h : shell.Ready) (hshort : shell.TakesShort lines) :
    (shell.after lines).Ready := by
  induction lines generalizing shell with
  | nil => exact h
  | cons line lines ih =>
    have hfirst : ∀ text, shell.completed? line = some text → ShortIntegers text :=
      fun text => hshort [] line lines text rfl
    have hrest : (shell.step line).2.TakesShort lines := by
      intro before line' later text hlines hcompleted
      refine hshort (line :: before) line' later text (congrArg (line :: ·) hlines) ?_
      rw [after_cons]
      exact hcompleted
    rw [after_cons]
    exact ih (h.step hfirst).2.1 hrest

/-- The state of the prompt between two lines. -/
structure Consistent (shell : Shell) : Prop where
  /-- No result is left. -/
  results : shell.workspace.session.results = []
  /-- The machine is idle, once there is one. -/
  idle : ∀ machine, shell.workspace.session.machine? = some machine → machine.Idle
  /-- The prompt tells whether text is held back. -/
  prompt : shell.prompt = secondaryPrompt ↔ shell.pending ≠ ""
  /-- Text that is held back is stripped and unclosed. -/
  held : shell.pending ≠ "" →
    stripBlanks shell.pending = shell.pending ∧ isUnclosed shell.pending = true

/-- A prompt that waits for a line is in a consistent state. -/
theorem Ready.consistent (h : shell.Ready) : shell.Consistent where
  results := h.workspace.results
  idle := by
    intro machine hmachine
    have hidle := h.workspace.idle
    rw [Workspace.machine, hmachine] at hidle
    exact hidle
  prompt := by
    rw [h.prompt, promptFor]
    by_cases hempty : shell.pending = ""
    · rw [if_pos hempty]
      exact iff_of_false (by decide) (not_not_intro hempty)
    · rw [if_neg hempty]
      exact iff_of_true rfl hempty
  held := h.held

end Shell

open Shell in
/-- A fresh prompt survives every sequence of lines: none of them aborts it, after each of them it
is in a consistent state, and what its machine binds is changed only by declarations that a line
completes. -/
theorem prompt_survives (reporter : Reporter) (output : List String) {lines : List String}
    (hshort : (fresh reporter output).TakesShort lines) (before : List String) (line : String)
    (later : List String) (hlines : lines = before ++ line :: later) :
    (∃ left, (((fresh reporter output).after before).step line).1 = .ok left) ∧
      ((fresh reporter output).after (before ++ [line])).Consistent ∧
      Rebinds (((fresh reporter output).after before).completed? line)
        ((fresh reporter output).after before).workspace.machine
        ((fresh reporter output).after (before ++ [line])).workspace.root := by
  have hbefore : (fresh reporter output).TakesShort before := by
    rintro before' line' later' text rfl
    refine hshort before' line' (later' ++ line :: later) text ?_
    rw [hlines, List.append_assoc, List.cons_append]
  have hready := (ready_fresh reporter output).after hbefore
  obtain ⟨hok, hready', hrebinds⟩ := hready.step fun text => hshort before line later text hlines
  rw [Shell.after_append]
  exact ⟨hok, hready'.consistent, hrebinds⟩

/-- A line that opens a clause, and is held back. -/
def openingLine : String := "f = (x) \x7b"

/-- A line that closes the clause, and declares a name that has no value. -/
def closingLine : String := "x \x7d y = nope"

open Shell in
/-- Two lines that are executed as one text bind the first of its declarations, although the second
one fails, and the prompt waits for the next line. -/
theorem prompt_survives_continued :
    (fresh (.fresh true false) []).TakesShort [openingLine, closingLine] ∧
      (∃ left, (((fresh (.fresh true false) []).after [openingLine]).step closingLine).1 =
        .ok left) ∧
      ((fresh (.fresh true false) []).after [openingLine, closingLine]).Consistent ∧
      ((fresh (.fresh true false) []).after [openingLine, closingLine]).workspace.root.names =
        ["f"] := by
  have hopening : (fresh (.fresh true false) []).completed? openingLine = none := by decide
  have hclosing : ((fresh (.fresh true false) []).after [openingLine]).completed? closingLine =
      some "f = (x) \x7b x \x7d y = nope" := by decide
  obtain ⟨ts, htokens, -⟩ :
      ∃ ts, tokens "f = (x) \x7b x \x7d y = nope" = .ok ts ∧ ts.length = 11 :=
    Step.exists_ok_of_map (by decide +kernel)
  have hread : readLine "f = (x) \x7b x \x7d y = nope" = .ok (.declarations
      [⟨"f", .function (.mk [.bind "x"] (.variable "x")) []⟩, ⟨"y", .variable "nope"⟩]) := by
    decide +kernel
  have hshort : (fresh (.fresh true false) []).TakesShort [openingLine, closingLine] := by
    rintro (_ | ⟨first, _ | ⟨second, more⟩⟩) line later text hlines hcompleted
    · cases hlines
      cases hopening.symm.trans hcompleted
    · cases hlines
      cases hclosing.symm.trans hcompleted
      rw [ShortIntegers, tokens_eq_ok_iff.mp htokens]
      simp
    · simp at hlines
  obtain ⟨hok, hconsistent, hrebinds⟩ :=
    prompt_survives (.fresh true false) [] hshort [openingLine] closingLine [] rfl
  rw [List.singleton_append] at hconsistent hrebinds
  have hmachine :
      ((fresh (.fresh true false) []).after [openingLine]).workspace.machine = .empty := by
    decide
  refine ⟨hshort, hok, hconsistent, ?_⟩
  rw [(hrebinds.declarations _ _ hclosing hread).1, hmachine]
  decide

end QLanguage
