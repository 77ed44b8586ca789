import QLanguage.Proofs.Colours.CommandLines

/-!
# Colours are presentation

A program, a session or the prompt runs on a terminal with colours or without. The flag is there
from the start: it paints the arguments of every message when that is made, and every report when
that is written. `Seen` has what a caller sees after a step: the result or what was raised, the
session with its module, results and machine, the traceback and whether faults are fatal, the
diagnostics with their messages, and what has been written. `colours_are_presentation` says that
where no text that goes in has an escape, deleting the sequences of paints from what is seen of the
run with colours gives what is seen of the run without: after every step of a session and of the
prompt, and for the outcome of a command line.

The two runs are compared step by step. They start in workspaces of which one is the other with
colours, every step keeps them so (`Request.Clean.work`, `Shell.Coloured.accept`), and what is seen
of two such workspaces is the same without the sequences (`Workspace.Coloured.seen`).
-/

namespace QLanguage

open Step

/-! ## What is seen of a step -/

/-- What is seen after a step of a session. -/
structure Seen (α : Type) where
  /-- The result of the step, or what it raised. -/
  result : Except Abort α
  /-- The session. -/
  session : Session
  /-- Whether faults are fatal. -/
  fatal : Bool
  /-- The files at work. -/
  files : Table (Option String)
  /-- The diagnostics of the session, with their messages. -/
  diagnostics : List Abort
  /-- What has been written. -/
  written : String

/-- The end of a step as it is seen. -/
def Workspace.seen {α : Type} (w : Workspace) (result : Except Abort α) : Seen α :=
  { result := result
    session := w.session
    fatal := w.reporter.fatal
    files := w.reporter.files
    diagnostics := w.session.diagnostics.map (.ofDiagnostic w.reporter.colours)
    written := String.join w.output }

/-- What is seen, with the sequences of paints deleted from all that is said or written. -/
def Seen.uncoloured {α : Type} (seen : Seen α) : Seen α :=
  { seen with
    result := seen.result.mapError Abort.uncoloured
    diagnostics := seen.diagnostics.map Abort.uncoloured
    written := QLanguage.uncoloured seen.written }

/-- Results are the same and aborts are alike, so without the sequences both are the same. -/
theorem mapError_uncoloured {α : Type} {result result' : Except Abort α}
    (h : Alike Abort.Coloured Eq result result') :
    result.mapError Abort.uncoloured = result' := by
  cases h with
  | ok h => exact congrArg Except.ok h
  | error h => exact congrArg Except.error h.uncoloured_eq

/-- The ends of two steps are seen alike, but for the sequences. -/
theorem Workspace.Coloured.seen {α : Type} {w w' : Workspace} (h : w.Coloured w')
    {result result' : Except Abort α} (hresult : Alike Abort.Coloured Eq result result') :
    (w.seen result).uncoloured = w'.seen result' := by
  have hdiagnostics :
      (w.session.diagnostics.map (Abort.ofDiagnostic true)).map Abort.uncoloured =
        w.session.diagnostics.map (Abort.ofDiagnostic false) := by
    rw [List.map_map]
    exact List.map_congr_left fun d hd =>
      (Abort.Coloured.ofDiagnostic (h.clean.diagnostics d hd)).uncoloured_eq
  unfold Workspace.seen Seen.uncoloured
  rw [h.session, h.reporter.same.1, h.reporter.same.2, h.reporter.colours_eq.1,
    h.reporter.colours_eq.2, hdiagnostics, mapError_uncoloured hresult,
    h.output.join.uncoloured_eq]

/-! ## Sessions -/

/-- A line that a session is to take has no escapes. -/
def Request.Clean : Request → Prop
  | .add line => EscapeFree line
  | _ => True

/-- A session does alike what it is asked for. -/
theorem Request.Clean.work {request : Request} (h : request.Clean) (guarded : Bool) :
    Work.Coloured (fun _ => True) (request.work guarded) (request.work guarded) := by
  have hstep : Work.Coloured (fun _ => True) request.step request.step := by
    cases request with
    | parse =>
      exact .bind Work.coloured_parse fun _ _ hm => .pure ⟨congrArg Answer.module hm.1, trivial⟩
    | run =>
      exact .bind Work.coloured_runProgram fun _ _ he => .pure ⟨congrArg Answer.value he.1, trivial⟩
    | add line => exact .bind (Work.coloured_addLine h) fun _ _ _ => Work.coloured_pure trivial
    | take =>
      exact .bind Work.coloured_takeResult fun _ _ he => .pure ⟨congrArg Answer.value he.1, trivial⟩
  unfold Request.work
  split
  · intro w w' hw
    obtain ⟨hend, hleft⟩ := hstep.guarded w w' hw
    refine ⟨?_, hleft⟩
    generalize ((Work.guarded request.step).run w).1 = result at hend ⊢
    generalize ((Work.guarded request.step).run w').1 = result' at hend ⊢
    cases hend with
    | ok h => exact .ok ⟨h.1, trivial⟩
    | error h => exact .error h
  · exact .bind hstep fun _ _ ha => .pure ⟨congrArg some ha.1, trivial⟩

/-- What is seen after each of some requests, which are made one after another, whatever became of
those before. -/
def Workspace.view : Workspace → List (Request × Bool) → List (Seen (Option Answer))
  | _, [] => []
  | w, (request, guarded) :: more =>
    let (result, w) := (request.work guarded).run w
    w.seen result :: Workspace.view w more

/-- Requests without escapes are seen alike, but for the sequences. -/
theorem Workspace.Coloured.view {w w' : Workspace} (h : w.Coloured w')
    {requests : List (Request × Bool)} (hrequests : ∀ request ∈ requests, request.1.Clean) :
    (w.view requests).map Seen.uncoloured = w'.view requests := by
  induction requests generalizing w w' with
  | nil => rfl
  | cons request more ih =>
    obtain ⟨request, guarded⟩ := request
    obtain ⟨hrequest, hmore⟩ := List.forall_mem_cons.1 hrequests
    obtain ⟨hend, hleft⟩ := hrequest.work guarded w w' h
    unfold Workspace.view
    generalize (request.work guarded).run w = ended at hend hleft
    generalize (request.work guarded).run w' = ended' at hend hleft
    obtain ⟨result, w⟩ := ended
    obtain ⟨result', w'⟩ := ended'
    have hresult : Alike Abort.Coloured Eq result result' := by
      cases hend with
      | ok h => exact .ok h.1.symm
      | error h => exact .error h
    exact List.cons_eq_cons.2 ⟨hleft.seen hresult, ih hleft hmore⟩

/-- How a session is opened. -/
inductive Opening where
  /-- For a file, or for a text under the name of a file. -/
  | file (path source : Option String)
  /-- For the prompt. -/
  | prompt

/-- The workspace of a session that has been opened under a reporter. -/
def Opening.workspace (read : FileReader) (reporter : Reporter) :
    Opening → Except Abort Workspace
  | .file path source => Workspace.openFile read path source reporter []
  | .prompt => .ok (.openPrompt reporter [])

/-- The name of the source has no escapes, and neither has its text, if it is given, or the text of
the file. -/
def Opening.Clean (read : FileReader) : Opening → Prop
  | .file path source =>
    (∀ name ∈ path, EscapeFree name ∧ (source = none → read.CleanAt name)) ∧
      ∀ text ∈ source, EscapeFree text
  | .prompt => True

/-- Sessions without escapes are opened alike. -/
theorem Opening.Clean.workspace {read : FileReader} {opening : Opening} (h : opening.Clean read)
    {r r' : Reporter} (hr : r.Coloured r') :
    Alike Abort.Coloured Workspace.Coloured (opening.workspace read r)
      (opening.workspace read r') := by
  cases opening with
  | file path source => exact coloured_openFile h.1 h.2 hr .nil
  | prompt => exact .ok (Shell.Coloured.fresh hr).workspace

/-- What is seen of a session under a reporter: what was raised when it was to be opened, or what is
seen when it has been opened and after each of some requests. -/
def Opening.view (opening : Opening) (read : FileReader) (reporter : Reporter)
    (requests : List (Request × Bool)) : Except Abort (List (Seen (Option Answer))) := do
  let w ← opening.workspace read reporter
  return w.seen (.ok none) :: w.view requests

/-- A session without escapes is seen alike, but for the sequences. -/
theorem Opening.Clean.view {read : FileReader} {opening : Opening} (h : opening.Clean read)
    {r r' : Reporter} (hr : r.Coloured r') {requests : List (Request × Bool)}
    (hrequests : ∀ request ∈ requests, request.1.Clean) :
    ((opening.view read r requests).mapError Abort.uncoloured).map (List.map Seen.uncoloured) =
      opening.view read r' requests := by
  have hopened := h.workspace hr
  unfold Opening.view
  generalize opening.workspace read r = result at hopened
  generalize opening.workspace read r' = result' at hopened
  cases hopened with
  | error h => exact congrArg Except.error h.uncoloured_eq
  | ok hw => exact congrArg Except.ok (List.cons_eq_cons.2 ⟨hw.seen (.ok rfl), hw.view hrequests⟩)

/-! ## Prompts -/

namespace Shell

/-- What the prompt is given. -/
inductive Entry where
  /-- A line, which may be a command. -/
  | line (text : String)
  /-- Source text, which is no command. -/
  | source (text : String)

/-- What the prompt is given has no escapes. -/
def Entry.Clean : Entry → Prop
  | .line text => EscapeFree text
  | .source text => EscapeFree text

/-- Takes what the prompt is given. The result says whether the prompt is left. -/
def accept (shell : Shell) : Entry → Except Abort Bool × Shell
  | .line text => shell.step text
  | .source text => ((shell.enter text).1.map fun _ => false, (shell.enter text).2)

/-- What is given to two prompts is taken alike. -/
theorem Coloured.accept {shell shell' : Shell} (h : shell.Coloured shell') {entry : Entry}
    (hentry : entry.Clean) :
    Alike Abort.Coloured Eq (shell.accept entry).1 (shell'.accept entry).1 ∧
      (shell.accept entry).2.Coloured (shell'.accept entry).2 := by
  cases entry with
  | line text =>
    dsimp only [Shell.accept]
    exact h.step hentry
  | source text =>
    dsimp only [Shell.accept]
    exact h.entered hentry

/-- What is seen of the prompt after a step, with the text that is held back and the prompt for the
next line. -/
structure Seen where
  /-- What is seen of the session, and whether the prompt is left. -/
  session : QLanguage.Seen Bool
  /-- The text that is held back. -/
  pending : String
  /-- The prompt for the next line. -/
  prompt : String

/-- What is seen of the prompt, with the sequences of paints deleted from all that is said or
written. -/
def Seen.uncoloured (seen : Seen) : Seen := { seen with session := seen.session.uncoloured }

/-- What is seen after each of some entries. All of them are taken, whatever became of those
before. -/
def view : Shell → List Entry → List Seen
  | _, [] => []
  | shell, entry :: more =>
    let (result, shell) := shell.accept entry
    ⟨shell.workspace.seen result, shell.pending, shell.prompt⟩ :: view shell more

/-- Entries without escapes are seen alike, but for the sequences. -/
theorem Coloured.view {shell shell' : Shell} (h : shell.Coloured shell') {entries : List Entry}
    (hentries : ∀ entry ∈ entries, entry.Clean) :
    (shell.view entries).map Seen.uncoloured = shell'.view entries := by
  induction entries generalizing shell shell' with
  | nil => rfl
  | cons entry more ih =>
    obtain ⟨hentry, hmore⟩ := List.forall_mem_cons.1 hentries
    have haccepted := h.accept hentry
    unfold Shell.view
    generalize shell.accept entry = accepted at haccepted
    generalize shell'.accept entry = accepted' at haccepted
    obtain ⟨result, next⟩ := accepted
    obtain ⟨result', next'⟩ := accepted'
    obtain ⟨hend, hnext⟩ := haccepted
    refine List.cons_eq_cons.2 ⟨?_, ih hnext hmore⟩
    unfold Seen.uncoloured
    dsimp only
    rw [hnext.workspace.seen hend, hnext.pending, hnext.prompt]

end Shell

/-! ## Command lines -/

/-- What is seen of a run of the program. -/
structure SeenOutcome where
  /-- What is written to the standard output. -/
  output : String
  /-- What is written to the standard error. -/
  errors : String
  /-- What ends the run early. -/
  abort : Option Abort

/-- An outcome as it is seen. -/
def Outcome.seen (outcome : Outcome) : SeenOutcome :=
  ⟨String.join outcome.output, outcome.errors, outcome.abort⟩

/-- An outcome as it is seen, with the sequences of paints deleted from all that is said or
written. -/
def SeenOutcome.uncoloured (seen : SeenOutcome) : SeenOutcome :=
  { output := QLanguage.uncoloured seen.output
    errors := QLanguage.uncoloured seen.errors
    abort := seen.abort.map Abort.uncoloured }

/-- Two outcomes are seen alike, but for the sequences. -/
theorem Outcome.Coloured.seen {outcome outcome' : Outcome} (h : outcome.Coloured outcome') :
    outcome.seen.uncoloured = outcome'.seen := by
  have habort : outcome.abort.map Abort.uncoloured = outcome'.abort := by
    have hrel := h.abort
    generalize outcome.abort = abort at hrel
    generalize outcome'.abort = abort' at hrel
    cases hrel with
    | none => rfl
    | some habort => exact congrArg some habort.uncoloured_eq
  unfold Outcome.seen SeenOutcome.uncoloured
  rw [habort, h.output.join.uncoloured_eq, h.errors.uncoloured_eq]

/-! ## The law -/

/-- Colours are presentation. Where no text that goes in has an escape, a session that is opened
under any reporter and asked for anything, the prompt, and the program do the same with colours and
without: what is seen of them with colours, when the sequences of paints are deleted from all that
is said and written, is what is seen of them without. -/
theorem colours_are_presentation :
    (∀ (read : FileReader) (reporter : Reporter) (opening : Opening)
        (requests : List (Request × Bool)),
      reporter.Clean → opening.Clean read → (∀ request ∈ requests, request.1.Clean) →
        ((opening.view read (reporter.withColours true) requests).mapError Abort.uncoloured).map
            (List.map Seen.uncoloured) =
          opening.view read (reporter.withColours false) requests) ∧
    (∀ (reporter : Reporter) (entries : List Shell.Entry),
      reporter.Clean → (∀ entry ∈ entries, entry.Clean) →
        ((Shell.fresh (reporter.withColours true) []).view entries).map Shell.Seen.uncoloured =
          (Shell.fresh (reporter.withColours false) []).view entries) ∧
    (∀ (read : FileReader) (arguments : List String) (input : String),
      CommandLine.Clean read arguments input →
        (CommandLine.run true read arguments input).seen.uncoloured =
          (CommandLine.run false read arguments input).seen) :=
  ⟨fun _ _ _ _ hreporter hopening hrequests => hopening.view (.mk _ hreporter) hrequests,
    fun _ _ hreporter hentries => (Shell.Coloured.fresh (.mk _ hreporter)).view hentries,
    fun _ _ _ hclean => (CommandLine.coloured_run hclean).seen⟩

/-- A call of an undefined name that goes over two lines of the prompt is reported with colours, and
alike without. So is a source that is run in spite of its diagnostic, and a file that is missing. -/
theorem colours_are_presentation_undefined :
    (((Shell.fresh (.fresh true true) []).view [.line "f(", .line ")"]).map fun seen =>
      seen.session.written) = ["", "\x1b[1m<in>: \x1b[0m\x1b[1m\x1b[31merror: \x1b[0m" ++
        "'\x1b[1mf\x1b[0m' has not been defined\n"] ∧
    (((Shell.fresh (.fresh true false) []).view [.line "f(", .line ")"]).map fun seen =>
      seen.session.written) = ["", "<in>: error: 'f' has not been defined\n"] ∧
    ((Shell.fresh (.fresh true true) []).view [.line "f(", .line ")"]).map Shell.Seen.uncoloured =
      (Shell.fresh (.fresh true false) []).view [.line "f(", .line ")"] ∧
    (((Opening.file (some "m.q") (some "broken =")).view (fun _ => none) (.fresh true true)
        [(.run, true), (.run, false)]).mapError Abort.uncoloured).map (List.map Seen.uncoloured) =
      (Opening.file (some "m.q") (some "broken =")).view (fun _ => none) (.fresh true false)
        [(.run, true), (.run, false)] ∧
    (CommandLine.run true (fun _ => none) ["m.q"] "").seen.uncoloured =
      (CommandLine.run false (fun _ => none) ["m.q"] "").seen := by
  have hreporter : (Reporter.fresh true false).Clean :=
    fun _ hentry => absurd hentry List.not_mem_nil
  refine ⟨by decide +kernel, by decide +kernel, ?_, ?_, ?_⟩
  · refine colours_are_presentation.2.1 (.fresh true false) _ hreporter ?_
    simp [Shell.Entry.Clean, EscapeFree]
  · refine colours_are_presentation.1 (fun _ => none) (.fresh true false) _ _ hreporter ?_ ?_
    · simp [Opening.Clean, EscapeFree]
    · simp [Request.Clean]
  · refine colours_are_presentation.2.2 (fun _ => none) ["m.q"] "" ⟨by decide, ?_⟩
    intro options _
    split
    · decide
    · intro path _ text htext
      cases htext

end QLanguage
