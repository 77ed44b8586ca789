import QLanguage.Token.Cursor
import QLanguage.Evaluation.Error
import QLanguage.Text.Paint
import QLanguage.Text.Template

/-!
# Faults and aborts

A fault is what can be reported of a source or a program: it has a message and may point at a place.
The message is made with the fault, from a template and arguments that are painted before they are
filled in. A failure is a limit or a mistake of the program that reads and runs it, or of its
caller. An abort is whatever ends an operation early: a fault, a failure, an exit, and so on.

A collection of faults is made from aborts, because a caller may collect anything that ended an
operation.
-/

namespace QLanguage

/-- A failure of this program or of its caller. -/
inductive Failure where
  /-- A text that is not read as a number. -/
  | numeral (e : NumeralError)
  /-- A message template that cannot be filled. -/
  | template (e : TemplateError)
  /-- There is no result to take. -/
  | noResult
  /-- The name of a file has a null character. -/
  | nullInPath
  /-- A function without clauses. -/
  | noClauses
  /-- A text that is no punctuation mark. -/
  | notPunctuation (text : String)
  /-- Something of a kind was to be reported that has not what a report asks for. -/
  | unreportable (kind property : String)
  /-- Any other failure, by its kind and its message. -/
  | other (kind message : String)
deriving Repr, DecidableEq

namespace Failure

/-- The kind that a failure is reported under. -/
def kind : Failure → String
  | .numeral _ | .nullInPath => "ValueError"
  | .template (.noArgument _) | .template (.noEntry _) | .noResult => "IndexError"
  | .template (.noName _) => "KeyError"
  | .template (.namedEntry _) | .template (.noEntries _) | .template (.noFormats _) => "TypeError"
  | .template (.noProperty _ _) | .unreportable _ _ => "AttributeError"
  | .template (.format .tooWide) => "MemoryError"
  | .template _ => "ValueError"
  | .noClauses | .notPunctuation _ => "AssertionError"
  | .other kind _ => kind

/-- What is said of a failure. -/
def message : Failure → String
  | .numeral e => e.message
  | .template e => e.message
  | .noResult => "pop from empty list"
  | .nullInPath => "embedded null byte"
  | .noClauses => "a function needs at least one clause"
  | .notPunctuation text => text ++ " is not punctuation"
  | .unreportable kind property =>
    "'" ++ kind ++ "' object has no attribute '" ++ property ++ "'"
  | .other _ message => message

end Failure

mutual

/-- What a fault is about. -/
inductive Cause where
  /-- A source that cannot be read at one place. -/
  | diagnostic (d : Diagnostic)
  /-- An evaluation error. -/
  | evaluation (e : EvalError)
  /-- All that was found in one source. -/
  | collected (sourceName : String) (members : List Abort)
  /-- Nothing but what its message says. `stop` stands behind what it points at, and `internal`
  marks a failure of this program. -/
  | notice (start stop : Option Int) (internal : Bool)

/-- Something to report. -/
inductive Fault where
  /-- A fault with what is said of it. -/
  | mk (cause : Cause) (message : String)

/-- A reason why an operation ends early. -/
inductive Abort where
  /-- A fault. -/
  | fault (f : Fault)
  /-- Reading or evaluation nests too deeply. -/
  | tooDeep
  /-- An interrupt from the keyboard. -/
  | interrupted
  /-- The program ends with an exit status. -/
  | exit (status : Int)
  /-- A failure. -/
  | failure (f : Failure)

end

namespace Fault

/-- What a fault is about. -/
def cause : Fault → Cause
  | .mk cause _ => cause

/-- What is said of a fault. -/
def message : Fault → String
  | .mk _ message => message

/-- The offset that a fault points at. -/
def start (fault : Fault) : Option Int :=
  match fault.cause with
  | .diagnostic d => d.start
  | .notice start _ _ => start
  | _ => none

/-- The offset behind what a fault points at: where it points, if nothing else is said. -/
def stop (fault : Fault) : Option Int :=
  match fault.cause with
  | .diagnostic d => d.stop
  | .notice start stop _ => stop.or start
  | _ => none

/-- Whether a fault is a failure of this program. -/
def internal (fault : Fault) : Bool :=
  match fault.cause with
  | .evaluation .underflow => true
  | .notice _ _ internal => internal
  | _ => false

/-- Whether the place of a fault is quoted. -/
def quotes (fault : Fault) : Bool := fault.start.isSome && !fault.internal

end Fault

namespace Abort

/-- An abort by a fault, whose message is made from a template and its arguments. These stand in
bold, and they are painted before they are filled in, so that the template has to do with what is
written. Where it cannot be filled, that is what goes wrong instead. -/
def raise (colours : Bool) (cause : Cause) (template : String) (args : List String) : Abort :=
  match fillTemplate template (args.map (painted colours .bold)) with
  | .ok message => .fault (.mk cause message)
  | .error e => .failure (.template e)

/-- An abort by a diagnostic. -/
def ofDiagnostic (colours : Bool) (d : Diagnostic) : Abort :=
  raise colours (.diagnostic d) d.template d.arguments

/-- An abort by an evaluation error. -/
def ofEvalError (colours : Bool) (e : EvalError) : Abort :=
  raise colours (.evaluation e) e.template e.arguments

/-- An abort by things that were collected in one source. -/
def ofMembers (colours : Bool) (sourceName : String) (members : List Abort) : Abort :=
  raise colours (.collected sourceName members) "'\x7b\x7d' has \x7b\x7d parse error(s)"
    [sourceName, toString members.length]

/-- An abort by the diagnostics of one source. -/
def ofDiagnostics (colours : Bool) (sourceName : String) (diagnostics : List Diagnostic) : Abort :=
  ofMembers colours sourceName (diagnostics.map (ofDiagnostic colours))

/-- An abort by a message that points at no place. -/
def note (colours : Bool) (template : String) (args : List String) : Abort :=
  raise colours (.notice none none false) template args

/-- The abort of a reading that stops. -/
def ofStop (colours : Bool) : Stop → Abort
  | .diagnostic d => ofDiagnostic colours d
  | .overlong digits => .failure (.numeral (.overlong digits))
  | .tooDeep => .tooDeep

/-- The abort of an evaluation that halts. -/
def ofHalt (colours : Bool) : Halt → Abort
  | .error e => ofEvalError colours e
  | .tooDeep => .tooDeep

/-- What is reported one by one: the members of a collection that has some, or else the abort
itself. -/
def parts : Abort → List Abort
  | .fault (.mk (.collected _ (member :: members)) _) => member :: members
  | abort => [abort]

/-- The kind of an abort that is no fault. -/
def kind? : Abort → Option String
  | .fault _ => none
  | .tooDeep => some "RecursionError"
  | .interrupted => some "KeyboardInterrupt"
  | .exit _ => some "SystemExit"
  | .failure f => some f.kind

end Abort

end QLanguage
