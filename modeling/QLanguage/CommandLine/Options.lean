import QLanguage.Text.Digit
import QLanguage.Text.Joined
import QLanguage.Text.Quoted

/-!
# Command-line options

All arguments are classified before any is acted upon. An option may be shortened to a unique start
of its long name. Arguments that do not start with a dash, a single dash, negative numbers and
unknown options with a space in them are files, and so is everything behind `--`. The files are the
first unbroken row of such arguments; later ones, and unknown options, are refused in the end.
-/

namespace QLanguage

/-- The options. -/
inductive Flag where
  /-- Shows the help text. -/
  | help
  /-- Reads the files without running them. -/
  | parseOnly
deriving Repr, DecidableEq

/-- How an option is named in messages: by all its names. -/
def Flag.names : Flag → String
  | .help => "-h/--help"
  | .parseOnly => "--parse-only"

/-- The spellings of the options. -/
def Flag.spellings : List (String × Flag) :=
  [("-h", .help), ("--help", .help), ("--parse-only", .parseOnly)]

/-- What the arguments ask for. -/
structure Options where
  /-- Whether files are read without being run. -/
  parseOnly : Bool
  /-- The files, in order. -/
  files : List String
deriving Repr, DecidableEq

/-- Why the program does not start. -/
inductive Refusal where
  /-- The help text is asked for. -/
  | help
  /-- The arguments make no sense. -/
  | misuse (message : String)
deriving Repr, DecidableEq

/-- What an argument is taken for. -/
inductive Argument where
  /-- A file. -/
  | file
  /-- A long option, with the value behind an equals sign. -/
  | long (flag : Flag) (value : Option String)
  /-- The one-letter option, with what stands behind it. -/
  | short (tail : Option String)
  /-- An unknown option. -/
  | unknown
deriving Repr, DecidableEq

namespace Options

/-- The two sides of the first equals sign. -/
def splitValue (argument : String) : String × Option String :=
  match argument.toList.span (· != '=') with
  | (name, _ :: value) => (String.ofList name, some (String.ofList value))
  | (name, []) => (String.ofList name, none)

/-- A negative number, with digits of any script and at most a line feed behind it. -/
def isNegativeNumber (argument : String) : Bool :=
  match argument.toList with
  | '-' :: body =>
    let body := if body.getLast? == some '\n' then body.dropLast else body
    match body.span isDecimalDigit with
    | (whole, []) => !whole.isEmpty
    | (_, '.' :: fraction) => !fraction.isEmpty && fraction.all isDecimalDigit
    | _ => false
  | _ => false

/-- Classifies an argument that starts with two dashes: an exact name, or a start of exactly one
name. -/
def classifyLong (argument : String) : Except Refusal Argument :=
  let (name, value) := splitValue argument
  match Flag.spellings.lookup name with
  | some flag => .ok (.long flag value)
  | none =>
    match Flag.spellings.filter fun (spelling, _) => name.toList.isPrefixOf spelling.toList with
    | [] => .ok (if argument.toList.contains ' ' then .file else .unknown)
    | [(_, flag)] => .ok (.long flag value)
    | matching =>
      .error (.misuse ("ambiguous option: " ++ argument ++ " could match " ++
        ", ".intercalate (matching.map Prod.fst)))

/-- Classifies an argument. -/
def classify (argument : String) : Except Refusal Argument :=
  match argument.toList with
  | '-' :: '-' :: _ => classifyLong argument
  | ['-', 'h'] => .ok (.short none)
  | '-' :: 'h' :: '=' :: tail => .ok (.short (some (String.ofList tail)))
  | '-' :: 'h' :: tail => .ok (.short (some (String.ofList tail)))
  | '-' :: _ :: _ =>
    .ok (if isNegativeNumber argument || argument.toList.contains ' ' then .file else .unknown)
  | _ => .ok .file

/-- Classifies all arguments. Behind `--` there are only files. -/
def classifyAll : List String → Except Refusal (List (String × Argument))
  | [] => .ok []
  | argument :: more =>
    if argument == "--" then .ok ((argument :: more).map fun a => (a, .file))
    else do
      let taken ← classify argument
      return (argument, taken) :: (← classifyAll more)

/-- The refusal of a value that an option does not take. -/
def ignored (flag : Flag) (value : String) : Refusal :=
  .misuse ("argument " ++ flag.names ++ ": ignored explicit argument " ++ quoted value)

/-- What the letters behind the one-letter option come to: the same letter again asks for help, and
anything else is a value that is not taken. -/
def clustered : List Char → Refusal
  | ['h'] => .help
  | 'h' :: more => clustered more
  | value => ignored .help (String.ofList value)

/-- How far the row of files has come. -/
inductive Row where
  /-- No file yet. -/
  | ahead
  /-- In the row. -/
  | within
  /-- Behind the row. -/
  | behind
deriving Repr, DecidableEq

/-- The row of files after something that is not a file. -/
def Row.break : Row → Row
  | .ahead => .ahead
  | _ => .behind

/-- Acts upon classified arguments in order. The result has the options and what is refused. -/
def interpret (row : Row) :
    List (String × Argument) → Except Refusal (Options × List String)
  | [] => .ok (⟨false, []⟩, [])
  | (argument, taken) :: more =>
    match taken with
    | .file => do
      if row == .behind then
        let (options, refused) ← interpret row more
        return (options, argument :: refused)
      else
        let (options, refused) ← interpret .within more
        return ({ options with files := argument :: options.files }, refused)
    | .unknown => do
      let (options, refused) ← interpret row.break more
      return (options, argument :: refused)
    | .long flag (some value) => .error (ignored flag value)
    | .long .help none | .short none => .error .help
    | .long .parseOnly none => do
      let (options, refused) ← interpret row.break more
      return ({ options with parseOnly := true }, refused)
    | .short (some tail) => .error (clustered tail.toList)

/-- Reads the arguments of the command line. -/
def parse (arguments : List String) : Except Refusal Options := do
  let (options, refused) ← interpret .ahead (← classifyAll arguments)
  -- The first `--` only announces files and is none itself.
  if refused.isEmpty then return { options with files := options.files.erase "--" }
  else throw (.misuse ("unrecognized arguments: " ++ " ".intercalate refused))

/-- How the program is called. -/
def usage : String := "usage: qlang [-h] [--parse-only] [files ...]\n"

/-- The help text. -/
def helpText : String :=
  usage ++ "\n" ++
  "Q language interpreter\n\n" ++
  "positional arguments:\n" ++
  "  files         files to parse and run (if empty, goes to command-line mode)\n\n" ++
  "options:\n" ++
  "  -h, --help    show this help message and exit\n" ++
  "  --parse-only  report parse diagnostics without running main\n"

/-- What is said of arguments that make no sense. -/
def misuseText (message : String) : String := usage ++ "qlang: error: " ++ message ++ "\n"

end Options

end QLanguage
