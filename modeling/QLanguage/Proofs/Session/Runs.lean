import QLanguage.Proofs.Report.Messages
import QLanguage.Session.Line
import QLanguage.Session.Program

/-!
# The runs of a session

What each operation of a session does to its workspace, by the cases it distinguishes. A program is
read, and then its module is run (`Work.runModule`); a line is read as declarations or as an
expression (`readLine`), and then these are evaluated on the machine of the session. Later modules
use these equations and do not open the operations again. Whoever uses a session asks it for one
operation after another (`Request`).
-/

namespace QLanguage

open Step

/-! ## Changes of a workspace -/

namespace Workspace

/-- The machine of the session, which is one without declarations as long as there is none. -/
def machine (w : Workspace) : Machine := w.session.machine?.getD .empty

/-- The workspace when its source has been read. -/
def reading (w : Workspace) (parsed : Parsed) : Workspace :=
  { w with
    session := { w.session with
      module? := some parsed.module
      diagnostics := w.session.diagnostics ++ parsed.diagnostics } }

/-- The workspace when a machine is kept and what it has printed is written. -/
def keeping (w : Workspace) (machine : Machine) : Workspace :=
  { w with
    session := { w.session with machine? := some { machine with output := "" } }
    output := w.output ++ [machine.output] }

/-- The workspace when a line is about to be read. -/
def noting (w : Workspace) (line : String) : Workspace :=
  { w with
    session := { w.session with machine? := some w.machine }
    reporter := w.reporter.register promptName (some line) }

/-- The workspace with one more result. -/
def resulting (w : Workspace) (value : Expr) : Workspace :=
  { w with session := { w.session with results := w.session.results ++ [value] } }

/-- The workspace when texts have been written. -/
def writing (w : Workspace) (texts : List String) : Workspace :=
  { w with output := w.output ++ texts }

/-- The workspace when the reporter has forgotten the source. -/
def forgetting (w : Workspace) : Workspace :=
  { w with reporter := w.reporter.remove w.session.path }

end Workspace

/-- What a reporter warns of: the declarations that the built-in function hides. -/
def Reporter.warnings (reporter : Reporter) (items : List Declaration) : List String :=
  (items.filter (·.name = printName)).flatMap fun _ =>
    reporter.report .warning (.notice (hiddenMessage reporter.colours))

namespace Work

variable {w : Workspace}

/-! ## Parts of operations -/

/-- A reading that gives a result changes nothing. -/
theorem run_ofReading_ok {α : Type} (a : α) (w : Workspace) :
    (ofReading (.ok a)).run w = (.ok a, w) := rfl

/-- Changing the session changes nothing else. -/
theorem run_modifySession (change : Session → Session) (w : Workspace) :
    (modifySession change).run w = (.ok (), { w with session := change w.session }) := rfl

/-- An evaluation is run on a machine, which is kept however the evaluation ends. -/
theorem run_evaluate {α : Type} (machine : Machine) (step : Eval α) (w : Workspace) :
    (evaluate machine step).run w =
      ((step.run machine).1.mapError (.ofHalt w.reporter.colours),
        w.keeping (step.run machine).2) := by
  rcases hrun : step.run machine with ⟨halt | a, last⟩
  · unfold evaluate
    rw [hrun]
    rfl
  · unfold evaluate
    rw [hrun]
    rfl

/-- A module that is loaded leaves its machine, and one that is not what it has printed. -/
theorem run_load (m : Module) (w : Workspace) :
    (load m).run w =
      match Machine.load nestingLimit m with
      | (.ok _, machine) => (.ok { machine with output := "" }, w.keeping machine)
      | (.error halt, machine) =>
        (.error (.ofHalt w.reporter.colours halt), w.writing [machine.output]) := by
  unfold load
  rcases Machine.load nestingLimit m with ⟨halt | _, machine⟩ <;> rfl

/-- What ends a step is reported, and what the reporter lets go on ends the guarded step. -/
theorem run_guarded_of_error {α : Type} {step : Work α} {abort : Abort} {w' : Workspace}
    (h : step.run w = (.error abort, w')) :
    (guarded step).run w = ((w'.reporter.guard abort).2.elim (.ok none) .error,
      w'.writing (w'.reporter.guard abort).1) := by
  unfold guarded
  rw [run_tryCatch, run_bind_error h]
  dsimp only
  rw [run_bind_ok (run_get w')]
  rcases w'.reporter.guard abort with ⟨texts, _ | onward⟩ <;> rfl

/-- An abort that the reporter lets go no further leaves its report. -/
theorem run_guarded_error {α : Type} {step : Work α} {abort : Abort} {w' : Workspace}
    (h : step.run w = (.error abort, w')) (hguard : (w'.reporter.guard abort).2 = none) :
    (guarded step).run w = (.ok none, w'.writing (w'.reporter.guard abort).1) := by
  rw [run_guarded_of_error h, hguard]
  rfl

/-- A step that gives a result is not seen by the reporter. -/
theorem run_guarded_ok {α : Type} {step : Work α} {a : α} {w' : Workspace}
    (h : step.run w = (.ok a, w')) : (guarded step).run w = (.ok (some a), w') := by
  unfold guarded
  rw [run_tryCatch, run_bind_ok h]
  rfl

/-- Declarations that the built-in function hides are warned of, and nothing else happens. -/
theorem run_warnOfHidden (items : List Declaration) (w : Workspace) :
    (warnOfHidden items).run w = (.ok (), w.writing (w.reporter.warnings items)) := by
  induction items generalizing w with
  | nil => exact congrArg (Prod.mk _) (by simp [Workspace.writing, Reporter.warnings])
  | cons d ds ih =>
    unfold warnOfHidden
    by_cases hname : d.name = printName
    · have hwarn : (warn "'\x7b\x7d' is a built-in, calls will not reach this declaration"
          [d.name]).run w = (.ok (), w.writing
            (w.reporter.report .warning (.notice (hiddenMessage w.reporter.colours)))) := by
        unfold warn
        rw [run_bind_ok (run_get w), hname]
        dsimp only
        rw [Abort.note_hidden]
        rfl
      rw [if_pos hname, run_bind_ok hwarn, ih]
      simp [Workspace.writing, Reporter.warnings, hname]
    · rw [if_neg hname]
      dsimp only
      rw [ih]
      simp [Reporter.warnings, hname]

/-! ## Programs -/

/-- A source is read whatever its diagnostics are, and given up if there are or were some. -/
theorem run_parse (w : Workspace) :
    parse.run w =
      match parseModule nestingLimit w.session.path w.session.source with
      | .error stop => (.error (.ofStop w.reporter.colours stop), w)
      | .ok parsed =>
        if w.session.diagnostics ++ parsed.diagnostics = [] then
          (.ok parsed.module,
            (w.reading parsed).writing (w.reporter.warnings parsed.module.items))
        else
          (.error (.ofDiagnostics w.reporter.colours w.session.path
            (w.session.diagnostics ++ parsed.diagnostics)), w.reading parsed) := by
  unfold parse
  rw [run_bind_ok (run_get w)]
  dsimp only
  rcases parseModule nestingLimit w.session.path w.session.source with stop | parsed
  · rfl
  · dsimp only
    rw [run_bind_ok (run_ofReading_ok parsed w), run_bind_ok (run_modifySession _ w)]
    by_cases hclean : w.session.diagnostics ++ parsed.diagnostics = []
    · have hempty : ¬(!(w.session.diagnostics ++ parsed.diagnostics).isEmpty) = true := by
        rw [hclean]
        decide
      rw [if_pos hclean, if_neg hempty, run_bind_ok (run_warnOfHidden _ _)]
      rfl
    · have hnonempty : (!(w.session.diagnostics ++ parsed.diagnostics).isEmpty) = true := by
        rw [Bool.not_eq_true', List.isEmpty_eq_false_iff]
        exact hclean
      rw [if_neg hclean, if_pos hnonempty]
      rfl

/-- What stops the reading of a source leaves the session as it was. -/
theorem run_parse_unread {stop : Stop}
    (hparse : parseModule nestingLimit w.session.path w.session.source = .error stop) :
    parse.run w = (.error (.ofStop w.reporter.colours stop), w) := by
  rw [run_parse, hparse]

/-- A source without diagnostics is read, and only warned about. -/
theorem run_parse_clean {parsed : Parsed}
    (hparse : parseModule nestingLimit w.session.path w.session.source = .ok parsed)
    (hclean : w.session.diagnostics ++ parsed.diagnostics = []) :
    parse.run w =
      (.ok parsed.module,
        (w.reading parsed).writing (w.reporter.warnings parsed.module.items)) := by
  rw [run_parse, hparse]
  exact if_pos hclean

/-- A source with diagnostics, or that had some when it was read before, is given up. Its module is
kept all the same. -/
theorem run_parse_faulty {parsed : Parsed}
    (hparse : parseModule nestingLimit w.session.path w.session.source = .ok parsed)
    (hfaulty : w.session.diagnostics ++ parsed.diagnostics ≠ []) :
    parse.run w =
      (.error (.ofDiagnostics w.reporter.colours w.session.path
        (w.session.diagnostics ++ parsed.diagnostics)), w.reading parsed) := by
  rw [run_parse, hparse]
  exact if_neg hfaulty

/-- Loads a module and calls the function that a program starts with. -/
def runModule (m : Module) : Work Expr := do
  let machine ← load m
  let result ← evaluate machine (Eval.callEntry nestingLimit)
  modifySession fun s => { s with results := s.results ++ [result] }
  modify fun w => { w with reporter := w.reporter.remove w.session.path }
  return result

/-- A module that runs to its end leaves its result, and its source is forgotten. -/
theorem run_runModule (m : Module) (w : Workspace) :
    (runModule m).run w =
      match Machine.load nestingLimit m with
      | (.error halt, machine) =>
        (.error (.ofHalt w.reporter.colours halt), w.writing [machine.output])
      | (.ok _, machine) =>
        match (Eval.callEntry nestingLimit).run { machine with output := "" } with
        | (.error halt, last) =>
          (.error (.ofHalt w.reporter.colours halt), (w.keeping machine).keeping last)
        | (.ok value, last) =>
          (.ok value, (((w.keeping machine).keeping last).resulting value).forgetting) := by
  unfold runModule
  have hload := run_load m w
  rcases hmachine : Machine.load nestingLimit m with ⟨halt | _, machine⟩ <;>
    rw [hmachine] at hload
  · exact run_bind_error hload
  · rw [run_bind_ok hload]
    dsimp only
    have hcall := run_evaluate { machine with output := "" } (Eval.callEntry nestingLimit)
      (w.keeping machine)
    rcases hresult : (Eval.callEntry nestingLimit).run { machine with output := "" } with
      ⟨halt | value, last⟩ <;> rw [hresult] at hcall
    · exact run_bind_error hcall
    · exact run_bind_ok hcall

/-- A program whose source has been read before runs what could be read of it. -/
theorem run_runProgram_read {m : Module} (h : w.session.module? = some m) :
    runProgram.run w = (runModule m).run w := by
  unfold runProgram
  rw [run_bind_ok (run_get w), h]
  rfl

/-- A program whose source has not been read is read and then run. -/
theorem run_runProgram_unread (h : w.session.module? = none) :
    runProgram.run w = (parse >>= runModule).run w := by
  unfold runProgram
  rw [run_bind_ok (run_get w), h]
  rfl

/-- A program whose source has not been read and is given up does not run. -/
theorem run_runProgram_faulty {abort : Abort} {w' : Workspace} (h : w.session.module? = none)
    (hparse : parse.run w = (.error abort, w')) : runProgram.run w = (.error abort, w') := by
  rw [run_runProgram_unread h, run_bind_error hparse]

end Work

/-! ## Lines -/

/-- What a line is read as. -/
inductive Line where
  /-- Declarations, to be evaluated one after another. -/
  | declarations (items : List Declaration)
  /-- An expression, whose value is a result. -/
  | expression (e : Expr)
deriving DecidableEq

/-- Why a line is not read. -/
inductive LineError where
  /-- The reading stops. -/
  | stop (stop : Stop)
  /-- There are diagnostics. -/
  | diagnostics (ds : List Diagnostic)
deriving DecidableEq

/-- The abort of a line that is not read. -/
def Abort.ofLine (colours : Bool) : LineError → Abort
  | .stop stop => ofStop colours stop
  | .diagnostics ds => ofDiagnostics colours promptName ds

/-- Reads a line. All its diagnostics are raised together if it starts as a declaration. -/
def readLine (line : String) : Except LineError Line :=
  match isDeclaration line with
  | .error stop => .error (.stop stop)
  | .ok true =>
    match parseModule nestingLimit promptName line with
    | .error stop => .error (.stop stop)
    | .ok parsed =>
      if parsed.diagnostics = [] then .ok (.declarations parsed.module.items)
      else .error (.diagnostics parsed.diagnostics)
  | .ok false =>
    match parseExpression nestingLimit line with
    | .error stop => .error (.stop stop)
    | .ok e => .ok (.expression e)

namespace Work

/-- A line that is read has its declarations or its expression evaluated on the machine of the
session, and only the value of an expression becomes a result. -/
theorem run_addLine (line : String) (w : Workspace) :
    (addLine line).run w =
      match readLine line with
      | .error e => (.error (.ofLine w.reporter.colours e), w.noting line)
      | .ok (.declarations items) =>
        (((Eval.declareAll nestingLimit items).run w.machine).1.mapError
            (.ofHalt w.reporter.colours),
          (w.noting line).keeping ((Eval.declareAll nestingLimit items).run w.machine).2)
      | .ok (.expression e) =>
        match (Eval.eval nestingLimit e).run w.machine with
        | (.ok value, machine) => (.ok (), ((w.noting line).keeping machine).resulting value)
        | (.error halt, machine) =>
          (.error (.ofHalt w.reporter.colours halt), (w.noting line).keeping machine) := by
  -- Before anything is read, the machine is there and the reporter knows the line.
  have hnoting : (addLine line).run w = (do
      if ← ofReading (isDeclaration line) then
        let parsed ← ofReading (parseModule nestingLimit promptName line)
        if !parsed.diagnostics.isEmpty then
          abort (Abort.ofDiagnostics · promptName parsed.diagnostics)
        evaluate w.machine (Eval.declareAll nestingLimit parsed.module.items)
      else
        let expr ← ofReading (parseExpression nestingLimit line)
        let result ← evaluate w.machine (Eval.eval nestingLimit expr)
        modifySession fun s => { s with results := s.results ++ [result] } : Work Unit).run
        (w.noting line) := rfl
  rw [hnoting, readLine]
  rcases isDeclaration line with stop | declares
  · rfl
  · cases declares with
    | true =>
      rcases parseModule nestingLimit promptName line with stop | ⟨program, diagnostics⟩
      · rfl
      · cases diagnostics with
        | nil => exact run_evaluate _ _ _
        | cons d ds => rfl
    | false =>
      rcases parseExpression nestingLimit line with stop | e
      · rfl
      · refine (run_bind_ok (run_ofReading_ok false (w.noting line))).trans ?_
        refine (run_bind_ok (run_ofReading_ok e (w.noting line))).trans ?_
        dsimp only
        have hevaluate := run_evaluate w.machine (Eval.eval nestingLimit e) (w.noting line)
        rcases hrun : (Eval.eval nestingLimit e).run w.machine with ⟨halt | value, machine⟩ <;>
          rw [hrun] at hevaluate
        · exact run_bind_error hevaluate
        · exact run_bind_ok hevaluate

end Work

/-! ## Requests -/

/-- What a session is asked for. -/
inductive Request where
  /-- To read its source. -/
  | parse
  /-- To run its program. -/
  | run
  /-- To take a line. -/
  | add (line : String)
  /-- To give its latest result away. -/
  | take

/-- What a session answers. -/
inductive Answer where
  /-- A module that has been read. -/
  | module (m : Module)
  /-- A value. -/
  | value (e : Expr)
  /-- Nothing but that it is done. -/
  | done

/-- What a session does when it is asked for something. -/
def Request.step : Request → Work Answer
  | .parse => do return .module (← Work.parse)
  | .run => do return .value (← Work.runProgram)
  | .add line => do
    Work.addLine line
    return .done
  | .take => do return .value (← Work.takeResult)

/-- What a session does when it is asked for something, under the reporter or not. Nothing is
answered when the reporter lets nothing go on. -/
def Request.work (request : Request) (guarded : Bool) : Work (Option Answer) :=
  if guarded then Work.guarded request.step else do return some (← request.step)

end QLanguage
