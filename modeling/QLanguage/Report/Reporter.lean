import QLanguage.Report.Fault
import QLanguage.Report.Location
import QLanguage.Table

/-!
# Reports

A reporter knows the files at work and writes faults as one line each, `file:line:column: error:
message`, with the place quoted below it. The file is the last of the table, and its text, if it is
known, gives the line and the column. A reporter also knows what the terminal is like, and what
stands out in a report is painted when the report is made.

`guard` decides what becomes of an abort: faults, interrupts and too deep a nesting are reported and
go no further, or end the program where faults are fatal; exits pass; and a failure is reported as
internal and goes on.
-/

namespace QLanguage

/-- How serious a report is. -/
inductive Severity where
  /-- Something failed. -/
  | error
  /-- Something looks wrong. -/
  | warning
deriving Repr, DecidableEq

/-- The word in front of a message. -/
def Severity.label : Severity → String
  | .error => "error"
  | .warning => "warning"

/-- The paint of a report. -/
def Severity.paint : Severity → Paint
  | .error => .red
  | .warning => .magenta

/-- The state of reporting. -/
structure Reporter where
  /-- Whether a fault ends the program. -/
  fatal : Bool
  /-- Whether what is said and written is for a terminal with colours. -/
  colours : Bool
  /-- The files at work, with their texts where these are known. -/
  files : Table (Option String)
deriving Repr, DecidableEq

namespace Reporter

/-- A reporter that knows no file. -/
def fresh (fatal colours : Bool) : Reporter := ⟨fatal, colours, .empty⟩

/-- Makes a file known. A file that is known keeps its place. -/
def register (r : Reporter) (path : String) (source : Option String) : Reporter :=
  { r with files := r.files.set path source }

/-- Forgets a file. -/
def remove (r : Reporter) (path : String) : Reporter := { r with files := r.files.erase path }

/-- The text of the file that reports refer to. -/
def source? (r : Reporter) : Option String := r.files.last?.bind Prod.snd

/-- A text as it stands out in reports. -/
def paint (r : Reporter) (paint : Paint) (text : String) : String := painted r.colours paint text

/-- Where a report says that a fault lies: nothing without a file, and line and column only with the
file's text. -/
def heading (r : Reporter) (fault : Fault) : String :=
  match r.files.last? with
  | none => ""
  | some (path, source) =>
    match source, fault.start with
    | some source, some start =>
      let place := locate source start
      r.paint .bold (path ++ ":" ++ toString place.number ++ ":" ++ toString place.column ++ ": ")
    | _, _ => r.paint .bold (path ++ ": ")

/-- The place of a fault quoted from the file's text. -/
def quote (r : Reporter) (severity : Severity) (fault : Fault) : List String :=
  match r.source?, fault.start, fault.stop, fault.quotes with
  | some source, some start, some stop, true =>
    [quotation r.colours severity.paint source start stop ++ "\n"]
  | _, _, _, _ => []

/-- The report of a fault: its line, and the quotation of its place. -/
def report (r : Reporter) (severity : Severity) (fault : Fault) : List String :=
  let mark := if fault.internal then r.paint severity.paint "[internal] " else ""
  (r.heading fault ++ mark ++ r.paint severity.paint (severity.label ++ ": ") ++ fault.message ++
    "\n") :: r.quote severity fault

/-- The reports of aborts one after another. Only faults can be reported: anything else has neither
a place nor a nature, and the first of these that a report asks for is missed. -/
def reportEach (r : Reporter) : List Abort → List String × Option Failure
  | [] => ([], none)
  | .fault f :: more =>
    let (texts, failure) := r.reportEach more
    (r.report .error f ++ texts, failure)
  | abort :: _ =>
    let property := if r.source?.isSome then "start" else "internal"
    ([], abort.kind?.map fun kind => .unreportable kind property)

/-- The exit of a program that a fault ends, where faults are fatal. -/
def exit? (r : Reporter) : Option Abort := if r.fatal then some (.exit 1) else none

/-- What is written when an abort is reported, and the abort that goes on, if one does. -/
def announce (r : Reporter) (abort : Abort) : List String × Option Abort :=
  match r.reportEach abort.parts with
  | (texts, some f) => (texts, some (.failure f))
  | (texts, none) => (texts, r.exit?)

/-- Reports of faults leave no failure behind. -/
theorem reportEach_faults (r : Reporter) (faults : List Fault) :
    r.reportEach (faults.map .fault) = (faults.flatMap (r.report .error), none) := by
  induction faults with
  | nil => rfl
  | cons f faults ih => simp [reportEach, ih]

/-- What a failure is reported as. The report is a template without arguments, so that braces in the
message of a failure are themselves a failure. -/
def internalError (r : Reporter) (f : Failure) : Abort :=
  .raise r.colours (.notice none none true)
    ("unknown error: '" ++ f.kind ++ ": " ++ f.message ++ "'") []

/-- What is written when an abort reaches a reporter, and the abort that goes on, if one does. -/
def guard (r : Reporter) : Abort → List String × Option Abort
  | .fault f => r.announce (.fault f)
  | .tooDeep =>
    r.announce (.note r.colours "maximum recursion depth exceeded while evaluating" [])
  | .interrupted => r.announce (.note r.colours "keyboard interrupt" [])
  | .exit status => ([], some (.exit status))
  | .failure f =>
    match r.internalError f with
    | .fault fault => (r.report .error fault, r.exit?.or (some (.failure f)))
    | abort => ([], some abort)

end Reporter

end QLanguage
