import Mathlib.Data.List.Basic
import QLanguage.Proofs.Templates
import QLanguage.Session.Basic

/-!
# Messages

A message is made by filling a template with painted arguments, which may fail. The templates of the
program's own messages are fixed words without braces and an empty field in each gap between them,
and such a template is always filled (`fillTemplate_worded`). What is filled in is not looked at
again, so that no brace and no terminal sequence in an argument makes a difference. From this
follows the message of every fault that reading and running raise: `Abort.ofDiagnostic_eq` and the
equations behind it say what is raised, with colours and without.
-/

namespace QLanguage

open Step

/-! ## Words and gaps -/

/-- Fixed words with something in the gap before each of them but the first. -/
def worded (first : String) (gaps words : List String) : String :=
  (gaps.zip words).foldl (fun text (gap, words) => text ++ gap ++ words) first

/-- The characters of the words and of what stands in the gaps, in their order. -/
theorem toList_worded (first : String) (gaps words : List String) :
    (worded first gaps words).toList =
      first.toList ++ (gaps.zip words).flatMap fun (gap, words) => gap.toList ++ words.toList := by
  unfold worded
  induction gaps.zip words generalizing first with
  | nil => exact (List.append_nil _).symm
  | cons entry more ih =>
    rw [List.foldl_cons, ih, List.flatMap_cons, String.toList_append, String.toList_append,
      List.append_assoc, List.append_assoc, List.append_assoc]

/-- The template of a message with fixed words: an empty field in each gap. -/
def wordedTemplate (first : String) (words : List String) : String :=
  worded first (List.replicate words.length "\x7b\x7d") words

/-- Behind arguments that have been used, each gap takes the next argument. -/
theorem run_fillParts_worded {args words : List String} (hlength : args.length = words.length)
    (hwords : ∀ text ∈ words, Braceless text) (fill : List Char → Filling (List Char))
    (before : List String) :
    ∃ numbering, (fillParts (before ++ args) fill (templateParts
        (((List.replicate words.length "\x7b\x7d").zip words).flatMap
          fun (gap, words) => gap.toList ++ words.toList))).run (.afterEmpty before.length) =
      (.ok ((args.zip words).flatMap fun (gap, words) => gap.toList ++ words.toList),
        numbering) := by
  induction words generalizing args before with
  | nil =>
    rw [List.length_eq_zero_iff.1 hlength]
    exact ⟨_, rfl⟩
  | cons text words ih =>
    obtain ⟨arg, args, rfl⟩ := List.exists_cons_of_length_eq_add_one hlength
    obtain ⟨htext, hwords⟩ := List.forall_mem_cons.1 hwords
    obtain ⟨numbering, hfill⟩ := ih (Nat.succ.inj hlength) hwords (before ++ [arg])
    rw [List.append_assoc, List.length_append] at hfill
    refine ⟨numbering, ?_⟩
    rw [List.length_cons, List.replicate_succ, List.zip_cons_cons, List.flatMap_cons,
      List.zip_cons_cons, List.flatMap_cons, List.append_assoc, List.append_assoc]
    have hparts := run_fillParts_append hfill text.toList
    rw [← templateParts_append htext] at hparts
    exact run_fillParts_next (by simp) hparts

/-- A template with an empty field in each gap is filled with its arguments, whatever they are, if
its words have no braces. -/
theorem fillTemplate_worded {first : String} {args words : List String}
    (hlength : args.length = words.length) (hwords : ∀ text ∈ first :: words, Braceless text) :
    fillTemplate (wordedTemplate first words) args = .ok (worded first args words) := by
  obtain ⟨hfirst, hwords⟩ := List.forall_mem_cons.1 hwords
  obtain ⟨numbering, hfill⟩ := run_fillParts_worded hlength hwords (fillWithin args 1) []
  have hrun : (fillWithin args templateLevels (wordedTemplate first words).toList).run .undecided =
      (.ok (worded first args words).toList, numbering) := by
    rw [wordedTemplate, toList_worded, toList_worded, templateLevels, fillWithin,
      templateParts_append hfirst]
    exact run_fillParts_append hfill first.toList
  rw [fillTemplate, hrun]
  exact congrArg Except.ok String.ofList_toList

/-! ## What is said -/

/-- What is said of a diagnostic. -/
def Diagnostic.message (colours : Bool) : Diagnostic → String
  | .unexpected expected found =>
    "expected " ++ painted colours .bold expected.describe ++ ", but found '" ++
      painted colours .bold found.lexeme.display ++ "'"
  | .expectedExpression found =>
    "expected an expression, but found '" ++ painted colours .bold found.lexeme.display ++ "'"
  | .expectedPattern found =>
    "expected a pattern, but found '" ++ painted colours .bold found.lexeme.display ++ "'"
  | .missingValue name _ _ _ =>
    "declaration of '" ++ painted colours .bold name ++ "' has no value"
  | .endOfInput _ => "reached the end of the input"

/-- What is said of an evaluation error. -/
def EvalError.message (colours : Bool) : EvalError → String
  | .undefined name => "'" ++ painted colours .bold name ++ "' has not been defined"
  | .underflow => "attempted to pop the root scope"
  | .notFunction name value =>
    "'" ++ painted colours .bold name ++ "' is not a function, it is bound to '" ++
      painted colours .bold value.source ++ "'"
  | .cyclic name => "the value of '" ++ painted colours .bold name ++ "' depends on itself"
  | .noClause name arity =>
    "no clause of '" ++ painted colours .bold name ++ "' matches " ++
      painted colours .bold (toString arity) ++ " argument(s)"

/-- What is said of a source with so many diagnostics. -/
def countMessage (colours : Bool) (sourceName : String) (count : Nat) : String :=
  "'" ++ painted colours .bold sourceName ++ "' has " ++ painted colours .bold (toString count) ++
    " parse error(s)"

/-- What is said of a session that gets no source. A name with a null character is no fault. -/
def SourceError.message (colours : Bool) : SourceError → String
  | .noFile => "a session needs a file unless it is in command-line mode"
  | .reservedName => "'" ++ painted colours .bold promptName ++ "' is a reserved filename"
  | .nullInPath => ""
  | .unreadable path => "'" ++ painted colours .bold path ++ "' could not be opened"

/-- What is warned of when a declaration has the name of the built-in function. -/
def hiddenMessage (colours : Bool) : String :=
  "'" ++ painted colours .bold printName ++
    "' is a built-in, calls will not reach this declaration"

namespace Diagnostic

/-- A diagnostic as a fault. -/
def fault (colours : Bool) (d : Diagnostic) : Fault := .mk (.diagnostic d) (d.message colours)

/-- The diagnostics of one source as a fault. -/
def faults (colours : Bool) (sourceName : String) (ds : List Diagnostic) : Fault :=
  .mk (.collected sourceName (ds.map fun d => .fault (d.fault colours)))
    (countMessage colours sourceName ds.length)

end Diagnostic

/-- A message that points at no place as a fault. -/
def Fault.notice (message : String) : Fault := .mk (.notice none none false) message

namespace Abort

/-- An abort with an argument for each gap of its template is a fault. -/
theorem raise_worded (colours : Bool) (cause : Cause) (first : String) (words : List String)
    {args : List String} (hlength : args.length = words.length)
    (hwords : (first :: words).Forall Braceless := by
      and_intros <;> exact braceless_ofList.2 (by decide)) :
    raise colours cause (wordedTemplate first words) args =
      .fault (.mk cause (worded first (args.map (painted colours .bold)) words)) := by
  rw [raise, fillTemplate_worded ((List.length_map _).trans hlength)
    (List.forall_iff_forall_mem.1 hwords)]

/-- A diagnostic is raised with its message. -/
theorem ofDiagnostic_eq (colours : Bool) (d : Diagnostic) :
    ofDiagnostic colours d = .fault (d.fault colours) := by
  cases d with
  | unexpected => exact raise_worded colours _ "expected " [", but found '", "'"] rfl
  | expectedExpression =>
    exact raise_worded colours _ "expected an expression, but found '" ["'"] rfl
  | expectedPattern =>
    exact raise_worded colours _ "expected a pattern, but found '" ["'"] rfl
  | missingValue =>
    exact raise_worded colours _ "declaration of '" ["' has no value"] rfl
  | endOfInput => exact raise_worded colours _ "reached the end of the input" [] rfl

/-- An evaluation error is raised with its message. -/
theorem ofEvalError_eq (colours : Bool) (e : EvalError) :
    ofEvalError colours e = .fault (.mk (.evaluation e) (e.message colours)) := by
  cases e with
  | undefined => exact raise_worded colours _ "'" ["' has not been defined"] rfl
  | underflow => exact raise_worded colours _ "attempted to pop the root scope" [] rfl
  | notFunction =>
    exact raise_worded colours _ "'" ["' is not a function, it is bound to '", "'"] rfl
  | cyclic => exact raise_worded colours _ "the value of '" ["' depends on itself"] rfl
  | noClause =>
    exact raise_worded colours _ "no clause of '" ["' matches ", " argument(s)"] rfl

/-- The diagnostics of a source are raised with their number. -/
theorem ofDiagnostics_eq (colours : Bool) (sourceName : String) (ds : List Diagnostic) :
    ofDiagnostics colours sourceName ds = .fault (Diagnostic.faults colours sourceName ds) := by
  have hmembers : ds.map (ofDiagnostic colours) = ds.map fun d => .fault (d.fault colours) :=
    List.map_congr_left fun d _ => ofDiagnostic_eq colours d
  rw [ofDiagnostics, ofMembers, hmembers, List.length_map]
  exact raise_worded colours _ "'" ["' has ", " parse error(s)"] rfl

/-- A session that gets no source is refused with its message. -/
theorem ofSource_eq (colours : Bool) {e : SourceError} (h : e ≠ .nullInPath) :
    ofSource colours e = .fault (.notice (e.message colours)) := by
  cases e with
  | noFile =>
    exact raise_worded colours _ "a session needs a file unless it is in command-line mode" [] rfl
  | reservedName => exact raise_worded colours _ "'" ["' is a reserved filename"] rfl
  | nullInPath => exact absurd rfl h
  | unreadable => exact raise_worded colours _ "'" ["' could not be opened"] rfl

/-- Too deep a nesting is announced in fixed words. -/
theorem note_tooDeep (colours : Bool) :
    note colours "maximum recursion depth exceeded while evaluating" [] =
      .fault (.notice "maximum recursion depth exceeded while evaluating") :=
  raise_worded colours _ "maximum recursion depth exceeded while evaluating" [] rfl

/-- An interrupt is announced in fixed words. -/
theorem note_interrupted (colours : Bool) :
    note colours "keyboard interrupt" [] = .fault (.notice "keyboard interrupt") :=
  raise_worded colours _ "keyboard interrupt" [] rfl

/-- A declaration that the built-in function hides is warned of with its message. -/
theorem note_hidden (colours : Bool) :
    note colours "'\x7b\x7d' is a built-in, calls will not reach this declaration" [printName] =
      .fault (.notice (hiddenMessage colours)) :=
  raise_worded colours _ "'" ["' is a built-in, calls will not reach this declaration"] rfl

end Abort

end QLanguage
