import QLanguage.Proofs.CommandLine.Files
import QLanguage.Proofs.Report.Handling
import QLanguage.Proofs.RoundTrip

/-!
# Files run one after another

All files of a command line share one reporter. The run of a file comes to its end or fails at one
of its stages (`CommandLine.FileRun`). A file that comes to its end is forgotten by the reporter,
which then is as fresh as it was before; so the next file starts as the first one does, and what
several files come to is what each comes to alone, up to the first that fails. Whatever the reason
is for which a file fails, it is reported, and the program ends with status 1 (`Abort.EndsRun`).
-/

namespace QLanguage

open Step

/-! ## Aborts that end the program -/

/-- A reporter for which faults are fatal lets the program end with status 1. -/
def Abort.EndsRun (abort : Abort) : Prop :=
  ∀ reporter : Reporter, reporter.fatal = true → (reporter.guard abort).2 = some (.exit 1)

namespace Abort

/-- What is announced ends the program. -/
theorem Announced.endsRun {abort : Abort} (h : abort.Announced) : abort.EndsRun := by
  intro reporter hfatal
  rw [h, Reporter.exit?, if_pos hfatal]

/-- A failure whose kind and message have no braces ends the program. -/
theorem endsRun_failure {f : Failure} (h : Braceless f.kind ∧ Braceless f.message) :
    (Abort.failure f).EndsRun := by
  intro reporter hfatal
  rw [reporter.guard_failure_of_braceless h, if_pos hfatal]

/-- What stops a reading ends the program. -/
theorem endsRun_ofStop (colours : Bool) (stop : Stop) : (ofStop colours stop).EndsRun := by
  cases stop with
  | diagnostic d => exact (announced_ofDiagnostic colours d).endsRun
  | tooDeep => exact announced_tooDeep.endsRun
  | overlong digits => exact endsRun_failure (Failure.braceless_overlong digits)

/-- What keeps a file from being opened ends the program. -/
theorem endsRun_ofSource (colours : Bool) (e : SourceError) : (ofSource colours e).EndsRun := by
  by_cases hnull : e = .nullInPath
  · subst hnull
    exact endsRun_failure (by decide)
  · rw [ofSource_eq colours hnull]
    exact (announced_of_parts [_] rfl).endsRun

end Abort

/-! ## One file -/

namespace CommandLine

/-- How the run of a file ends: with what ends it early, if anything does, with the reporter that it
leaves, and with what it has written. A file fails because it cannot be opened, because the reading
of it stops, for its diagnostics, or because a declaration or the call of its entry has no value. -/
inductive FileRun (colours : Bool) (read : FileReader) (path : String) :
    Except Abort Unit → Reporter → List String → Prop where
  /-- The file cannot be opened, or has a name that no file may have. -/
  | unopened {e : SourceError} (hopen : sessionSource read (some path) none = .error e) :
    FileRun colours read path (.error (.ofSource colours e)) (.fresh true colours) []
  /-- The reading stops: it nests too deeply, or an integer is too long. -/
  | unread {source : String} {stop : Stop}
    (hopen : sessionSource read (some path) none = .ok (baseName path, source))
    (hread : parseModule nestingLimit (baseName path) source = .error stop) :
    FileRun colours read path (.error (.ofStop colours stop))
      ((Reporter.fresh true colours).register (baseName path) (some source)) []
  /-- The source has diagnostics. -/
  | diagnosed {source : String} {parsed : Parsed} (hread : ReadsAs read path source parsed)
    (hdiagnosed : parsed.diagnostics ≠ []) :
    FileRun colours read path
      (.error (.ofDiagnostics colours (baseName path) parsed.diagnostics))
      ((Reporter.fresh true colours).register (baseName path) (some source)) []
  /-- The evaluation of a declaration halts, for an error or because it nests too deeply. -/
  | unloaded {source : String} {parsed : Parsed} {halt : Halt} {machine : Machine}
    (hread : ReadsAs read path source parsed) (hclean : parsed.diagnostics = [])
    (hload : Machine.load nestingLimit parsed.module = (.error halt, machine)) :
    FileRun colours read path (.error (.ofHalt colours halt))
      ((Reporter.fresh true colours).register (baseName path) (some source))
      (((Reporter.fresh true colours).register (baseName path) (some source)).warnings
        parsed.module.items ++ [machine.output])
  /-- The call of the entry halts, for an error or because it nests too deeply. -/
  | halted {source : String} {parsed : Parsed} {machine last : Machine} {halt : Halt}
    (hread : ReadsAs read path source parsed) (hclean : parsed.diagnostics = [])
    (hload : Machine.load nestingLimit parsed.module = (.ok (), machine))
    (hcall : (Eval.callEntry nestingLimit).run { machine with output := "" } =
      (.error halt, last)) :
    FileRun colours read path (.error (.ofHalt colours halt))
      ((Reporter.fresh true colours).register (baseName path) (some source))
      (((Reporter.fresh true colours).register (baseName path) (some source)).warnings
        parsed.module.items ++ [machine.output] ++ [last.output])
  /-- The call of the entry has a value. -/
  | finished {source : String} {parsed : Parsed} {machine last : Machine} {value : Expr}
    (hread : ReadsAs read path source parsed) (hclean : parsed.diagnostics = [])
    (hload : Machine.load nestingLimit parsed.module = (.ok (), machine))
    (hcall : (Eval.callEntry nestingLimit).run { machine with output := "" } =
      (.ok value, last)) :
    FileRun colours read path (.ok ()) (.fresh true colours)
      (((Reporter.fresh true colours).register (baseName path) (some source)).warnings
        parsed.module.items ++ [machine.output] ++ [last.output])

/-- A reporter that knows no file is the same once a file has come and gone. -/
theorem remove_register_fresh (fatal colours : Bool) (path : String) (source : Option String) :
    ((Reporter.fresh fatal colours).register path source).remove path =
      .fresh fatal colours := by
  simp [Reporter.fresh, Reporter.register, Reporter.remove, Table.empty, Table.set,
    Table.setEntries, Table.erase]

section

variable {colours : Bool} {read : FileReader} {path : String}

/-- A file that has been opened ends as its program does. -/
theorem handleFile_of_run {name source : String} {result : Except Abort Expr} {w : Workspace}
    (hopen : sessionSource read (some path) none = .ok (name, source))
    (hrun : Work.runProgram.run (opened (.fresh true colours) [] name source) = (result, w)) :
    handleFile read false path (.fresh true colours) [] =
      (result.map fun _ => (), w.reporter, w.output) := by
  have hstep : (fileStep false).run (opened (.fresh true colours) [] name source) =
      (result.map fun _ => (), w) := by
    cases result with
    | error abort => exact run_bind_error hrun
    | ok value => exact run_bind_ok hrun
  rw [handleFile_eq, hopen]
  dsimp only
  rw [hstep]

/-- A file that is read without diagnostics ends as its module does. -/
theorem handleFile_eq_runModule {source : String} {parsed : Parsed}
    (hread : ReadsAs read path source parsed) (hclean : parsed.diagnostics = []) :
    handleFile read false path (.fresh true colours) [] =
      let ended := (Work.runModule parsed.module).run
        (((opened (.fresh true colours) [] (baseName path) source).reading parsed).writing
          (((Reporter.fresh true colours).register (baseName path) (some source)).warnings
            parsed.module.items))
      (ended.1.map fun _ => (), ended.2.reporter, ended.2.output) := by
  refine handleFile_of_run hread.opens ?_
  have hparse := Work.run_parse_clean
    (w := opened (.fresh true colours) [] (baseName path) source) hread.reads hclean
  rw [Work.run_runProgram_unread rfl, run_bind_ok hparse]
  rfl

/-- The run of a file is what its handling comes to. -/
theorem FileRun.handleFile_eq {result : Except Abort Unit} {reporter : Reporter}
    {written : List String} (h : FileRun colours read path result reporter written) :
    handleFile read false path (.fresh true colours) [] = (result, reporter, written) := by
  cases h with
  | unopened hopen =>
    rw [CommandLine.handleFile_eq, hopen]
    rfl
  | unread hopen hread =>
    exact handleFile_of_run hopen (Work.run_runProgram_faulty rfl (Work.run_parse_unread hread))
  | diagnosed hread hdiagnosed =>
    exact handleFile_of_run hread.opens (Work.run_runProgram_faulty rfl
      (Work.run_parse_faulty hread.reads hdiagnosed))
  | unloaded hread hclean hload =>
    rw [handleFile_eq_runModule hread hclean, Work.run_runModule, hload]
    rfl
  | halted hread hclean hload hcall =>
    rw [handleFile_eq_runModule hread hclean, Work.run_runModule, hload]
    dsimp only
    rw [hcall]
    rfl
  | finished hread hclean hload hcall =>
    rw [handleFile_eq_runModule hread hclean, Work.run_runModule, hload]
    dsimp only
    rw [hcall]
    exact congrArg (fun reporter => (_, reporter, _)) (remove_register_fresh true colours _ _)

/-- The run of a file comes to one of its stages, and ends there. -/
theorem exists_fileRun (colours : Bool) (read : FileReader) (path : String) :
    ∃ result reporter written, FileRun colours read path result reporter written := by
  rcases hopen : sessionSource read (some path) none with e | ⟨name, source⟩
  · exact ⟨_, _, _, .unopened hopen⟩
  · obtain rfl : name = baseName path := ((sessionSource_eq_ok_iff read path).1 hopen).2.2.1
    rcases hparse : parseModule nestingLimit (baseName path) source with stop | parsed
    · exact ⟨_, _, _, .unread hopen hparse⟩
    · have hread : ReadsAs read path source parsed := ⟨hopen, hparse⟩
      by_cases hclean : parsed.diagnostics = []
      · rcases hload : Machine.load nestingLimit parsed.module with ⟨halt | _, machine⟩
        · exact ⟨_, _, _, .unloaded hread hclean hload⟩
        · rcases hcall : (Eval.callEntry nestingLimit).run { machine with output := "" } with
            ⟨halt | value, last⟩
          · exact ⟨_, _, _, .halted hread hclean hload hcall⟩
          · exact ⟨_, _, _, .finished hread hclean hload hcall⟩
      · exact ⟨_, _, _, .diagnosed hread hclean⟩

/-- Whatever the reason is for which a file fails, it ends the program. -/
theorem FileRun.endsRun {abort : Abort} {reporter : Reporter} {written : List String}
    (h : FileRun colours read path (.error abort) reporter written) :
    (reporter.guard abort).2 = some (.exit 1) := by
  have hends : abort.EndsRun ∧ reporter.fatal = true := by
    cases h with
    | unopened => exact ⟨Abort.endsRun_ofSource _ _, rfl⟩
    | unread => exact ⟨Abort.endsRun_ofStop _ _, rfl⟩
    | diagnosed => exact ⟨(Abort.announced_ofDiagnostics _ _ _).endsRun, rfl⟩
    | unloaded | halted => exact ⟨(Abort.announced_ofHalt _ _).endsRun, rfl⟩
  exact hends.1 reporter hends.2

/-- The run of the file comes to its end. -/
def Finishes (colours : Bool) (read : FileReader) (path : String) : Prop :=
  ∃ reporter written, FileRun colours read path (.ok ()) reporter written

/-- A file that is run to its end leaves the reporter fresh. -/
theorem Finishes.handleFile_eq (h : Finishes colours read path) (output : List String) :
    ∃ written, handleFile read false path (.fresh true colours) output =
      (.ok (), .fresh true colours, written) := by
  obtain ⟨reporter, written, hrun⟩ := h
  have hfresh : reporter = .fresh true colours := by
    cases hrun
    rfl
  rw [handleFile_output, hrun.handleFile_eq, hfresh]
  exact ⟨_, rfl⟩

/-- A file that fails does not come to its end. -/
theorem FileRun.not_finishes {abort : Abort} {reporter : Reporter} {written : List String}
    (h : FileRun colours read path (.error abort) reporter written) :
    ¬Finishes colours read path := by
  rintro ⟨_, _, hrun⟩
  cases h.handleFile_eq.symm.trans hrun.handleFile_eq

/-- A file that is run alone writes what it writes, and what is reported of it if it fails. -/
theorem FileRun.run_eq {result : Except Abort Unit} {reporter : Reporter} {written : List String}
    (h : FileRun colours read path result reporter written) (hpath : Options.ArePaths [path])
    (input : String) : run colours read [path] input = conclude (result, reporter, written) := by
  rw [run_paths read hpath (List.cons_ne_nil _ _), handleFiles, h.handleFile_eq]
  rcases result with abort | _ <;> rfl

/-- A file that is run alone comes to one of the stages: it writes what its run has written, and if
it fails, the report of what ended it, and the program ends with status 1. -/
theorem run_alone (hpath : Options.ArePaths [path]) (input : String) :
    (∃ result reporter written, FileRun colours read path result reporter written) ∧
      (∀ reporter written, FileRun colours read path (.ok ()) reporter written →
        run colours read [path] input = ⟨written, "", none⟩) ∧
      ∀ abort reporter written, FileRun colours read path (.error abort) reporter written →
        run colours read [path] input =
          ⟨written ++ (reporter.guard abort).1, "", some (.exit 1)⟩ := by
  refine ⟨exists_fileRun colours read path, fun _ _ hfile => hfile.run_eq hpath input, ?_⟩
  intro abort reporter written hfile
  rw [hfile.run_eq hpath, conclude]
  exact congrArg (Outcome.mk _ _) hfile.endsRun

/-- All of some files are run to their ends and leave the reporter fresh, or there is a first one
among them that fails. -/
theorem handleFiles_cases (colours : Bool) (read : FileReader) (paths : List String)
    (output : List String) :
    ((∀ path ∈ paths, Finishes colours read path) ∧
      ∃ written, handleFiles read false paths (.fresh true colours) output =
        (.ok (), .fresh true colours, written)) ∨
    (∃ before path after, paths = before ++ path :: after ∧
      (handleFiles read false before (.fresh true colours) output).1 = .ok () ∧
      ∃ abort reporter own written, FileRun colours read path (.error abort) reporter own ∧
        handleFiles read false (before ++ [path]) (.fresh true colours) output =
          (.error abort, reporter, written)) := by
  induction paths generalizing output with
  | nil => exact .inl ⟨fun _ h => absurd h List.not_mem_nil, output, rfl⟩
  | cons path paths ih =>
    obtain ⟨result, reporter, own, hfile⟩ := exists_fileRun colours read path
    cases result with
    | error abort =>
      refine .inr ⟨[], path, paths, rfl, rfl, abort, reporter, own, output ++ own, hfile, ?_⟩
      rw [List.nil_append, handleFiles, handleFile_output, hfile.handleFile_eq]
    | ok _ =>
      have hfinishes : Finishes colours read path := ⟨reporter, own, hfile⟩
      obtain ⟨written, hwritten⟩ := hfinishes.handleFile_eq output
      have hnext : ∀ more, handleFiles read false (path :: more) (.fresh true colours) output =
          handleFiles read false more (.fresh true colours) written := by
        intro more
        rw [handleFiles, hwritten]
      rcases ih written with ⟨hall, all, hrun⟩ |
        ⟨before, failing, after, rfl, hbefore, abort, reporter, own, all, hfails, hrun⟩
      · exact .inl ⟨List.forall_mem_cons.2 ⟨hfinishes, hall⟩, all, (hnext paths).trans hrun⟩
      · exact .inr ⟨path :: before, failing, after, rfl,
          (congrArg Prod.fst (hnext before)).trans hbefore, abort, reporter, own, all, hfails,
          (hnext (before ++ [failing])).trans hrun⟩

end

/-! ## Several files -/

/-- What has been written before comes first. -/
theorem conclude_output (result : Except Abort Unit) (reporter : Reporter)
    (before after : List String) :
    conclude (result, reporter, before ++ after) =
      { conclude (result, reporter, after) with
        output := before ++ (conclude (result, reporter, after)).output } := by
  cases result with
  | ok => rfl
  | error abort => exact congrArg (Outcome.mk · "" _) (List.append_assoc ..)

/-- A run whose files are all done ends normally. -/
theorem conclude_abort_of_ok {ended : Except Abort Unit × Reporter × List String}
    (h : ended.1 = .ok ()) : (conclude ended).abort = none := by
  obtain ⟨result, reporter, output⟩ := ended
  cases h
  rfl

/-- Files that fail fail the same whatever follows them. -/
theorem handleFiles_append_of_error {read : FileReader} {paths : List String} {reporter : Reporter}
    {output written : List String} {abort : Abort} {reporter' : Reporter}
    (h : handleFiles read false paths reporter output = (.error abort, reporter', written))
    (more : List String) :
    handleFiles read false (paths ++ more) reporter output =
      (.error abort, reporter', written) := by
  rw [handleFiles_append, h]

end CommandLine

open CommandLine Options

/-- Files that are run do not influence each other: a run of them ends normally or with status 1.
If it ends normally, a run of these and of other files behind them writes what the two runs write,
one after the other, and ends as the second. If it ends with status 1, there is a first file that
fails, and whatever stands behind that file, even if it were not there or had another text, makes no
difference.

A run ends normally exactly when each of its files comes to its end. Each file does, or fails at one
of the stages of a `FileRun`: because it cannot be opened, because the reading of it stops, for its
diagnostics, or because the evaluation of a declaration or of the call of the entry halts. A file
that comes to its end writes what its program does; one that fails writes what it has come to and
the report of what ended it, and whatever that is, the program ends with status 1. -/
theorem files_run_independently (colours : Bool) (read : FileReader) (fs gs : List String)
    (hfs : fs ≠ []) (hgs : gs ≠ []) (hpaths : ArePaths (fs ++ gs)) (input : String) :
    let first := run colours read fs input
    let second := run colours read gs input
    (first.abort = none ∨ first.abort = some (.exit 1)) ∧
    (first.abort = none → run colours read (fs ++ gs) input =
      ⟨first.output ++ second.output, first.errors ++ second.errors, second.abort⟩) ∧
    (first.abort = some (.exit 1) → run colours read (fs ++ gs) input = first ∧
      ∃ before path after, fs = before ++ path :: after ∧
        (before = [] ∨ (run colours read before input).abort = none) ∧
        ∀ read' others, (∀ p ∈ before ++ [path], read' p = read p) → ArePaths others →
          run colours read' (before ++ path :: others) input = first) ∧
    (first.abort = none ↔ ∀ path ∈ fs, Finishes colours read path) ∧
    ∀ path ∈ fs,
      (∃ result reporter written, FileRun colours read path result reporter written) ∧
      (∀ reporter written, FileRun colours read path (.ok ()) reporter written →
        run colours read [path] input = ⟨written, "", none⟩) ∧
      ∀ abort reporter written, FileRun colours read path (.error abort) reporter written →
        run colours read [path] input =
          ⟨written ++ (reporter.guard abort).1, "", some (.exit 1)⟩ := by
  intro first second
  have hfiles : ArePaths fs := fun path hpath => hpaths path (List.mem_append_left gs hpath)
  have hothers : ArePaths gs := fun path hpath => hpaths path (List.mem_append_right fs hpath)
  have hboth : fs ++ gs ≠ [] := List.append_ne_nil_of_left_ne_nil hfs gs
  have hfirst : first = conclude (handleFiles read false fs (.fresh true colours) []) :=
    run_paths read hfiles hfs colours input
  have hrun : run colours read (fs ++ gs) input =
      conclude (handleFiles read false (fs ++ gs) (.fresh true colours) []) :=
    run_paths read hpaths hboth colours input
  have hone : ∀ path ∈ fs, ArePaths [path] := fun path hpath =>
    List.forall_mem_singleton.2 (hfiles path hpath)
  rcases handleFiles_cases colours read fs [] with ⟨hfinish, written, hall⟩ |
    ⟨before, path, after, rfl, hbefore, abort, reporter, own, written, hfails, hfailing⟩
  · -- All files are run: the others start with a fresh reporter, behind what has been written.
    rw [hall] at hfirst
    have habort : first.abort = none := by rw [hfirst]; rfl
    refine ⟨.inl habort, fun _ => ?_, fun hexit => ?_, ⟨fun _ => hfinish, fun _ => habort⟩,
      fun path hpath => run_alone (hone path hpath) input⟩
    · have hsecond : second = conclude (handleFiles read false gs (.fresh true colours) []) :=
        run_paths read hothers hgs colours input
      rw [hrun, handleFiles_append, hall]
      dsimp only
      rw [handleFiles_output, conclude_output, hfirst, hsecond]
      rfl
    · rw [habort] at hexit
      cases hexit
  · -- A file fails: nothing that stands behind it is looked at.
    have hstop : ∀ more,
        conclude (handleFiles read false (before ++ path :: more) (.fresh true colours) []) =
          conclude (.error abort, reporter, written) := by
      intro more
      rw [List.append_cons, handleFiles_append_of_error hfailing]
    rw [hstop] at hfirst
    have habort : first.abort = some (.exit 1) := by
      rw [hfirst]
      exact hfails.endsRun
    have hnormally : first.abort ≠ none := by
      rw [habort]
      exact Option.some_ne_none _
    refine ⟨.inr habort, fun hnone => absurd hnone hnormally,
      fun _ => ⟨?_, before, path, after, rfl, ?_, ?_⟩, ⟨fun hnone => absurd hnone hnormally,
        fun hfinish => absurd (hfinish path (by simp)) hfails.not_finishes⟩,
      fun path hpath => run_alone (hone path hpath) input⟩
    · rw [hrun, List.append_assoc, List.cons_append, hstop, hfirst]
    · rcases List.eq_nil_or_concat before with rfl | ⟨_, _, hsome⟩
      · exact .inl rfl
      · right
        rw [run_paths read (fun p hp => hfiles p (List.mem_append_left _ hp)) (by simp [hsome])]
        exact conclude_abort_of_ok hbefore
    · intro read' others hread hothers
      have hnew : ArePaths (before ++ path :: others) := by
        intro p hp
        rw [List.append_cons, List.mem_append] at hp
        refine hp.elim (fun hp => hfiles p ?_) (hothers p)
        rw [List.append_cons]
        exact List.mem_append_left after hp
      rw [← handleFiles_congr false hread] at hfailing
      rw [run_paths read' hnew (by simp), List.append_cons, handleFiles_append_of_error hfailing,
        hfirst]

/-- A program that prints a line. -/
def printingModule : Module :=
  ⟨"m.q", [⟨"main", .function (.mk [.bind "x"] (.call "print" [.string "1"])) []⟩]⟩

/-- Its source. -/
def printingSource : String := "main = (x) \x7b print(\"1\") \x7d"

/-- That program, a declaration of a name that is not defined, and a declaration without a value. -/
def someFiles : FileReader :=
  textFiles [("a/m.q", printingSource), ("n.q", "x = nope"), ("o.q", "broken =")]

/-- The program comes to its end and prints its line. -/
theorem fileRun_printing : FileRun false someFiles "a/m.q" (.ok ()) (.fresh true false)
    ["", "[LiteralString(value='1')]\n"] := by
  have hread : ReadsAs someFiles "a/m.q" printingSource ⟨printingModule, []⟩ :=
    ⟨sessionSource_textFiles (by decide) (by simp) (by decide),
      parseModule_source (m := printingModule) (by decide) (by decide)⟩
  exact .finished hread rfl rfl rfl

/-- The name has no value, which is found when the module is loaded. -/
theorem fileRun_undefined : FileRun false someFiles "n.q"
    (.error (.ofHalt false (.error (.undefined "nope"))))
    ((Reporter.fresh true false).register "n.q" (some "x = nope")) [""] := by
  have hread : ReadsAs someFiles "n.q" "x = nope" ⟨⟨"n.q", [⟨"x", .variable "nope"⟩]⟩, []⟩ :=
    ⟨sessionSource_textFiles (by decide) (by simp) (by decide),
      parseModule_source (m := ⟨"n.q", [⟨"x", .variable "nope"⟩]⟩) (by decide) (by decide)⟩
  have hload : Machine.load nestingLimit ⟨"n.q", [⟨"x", .variable "nope"⟩]⟩ =
      (.error (.error (.undefined "nope")), .start [⟨"x", .variable "nope"⟩]) := rfl
  have hname : baseName "n.q" = "n.q" := by decide
  have hrun : FileRun false someFiles "n.q" _ _ _ := .unloaded hread rfl hload
  rw [hname] at hrun
  exact hrun

/-- What is wrong with the broken declaration. -/
def brokenDiagnostic : Diagnostic := .missingValue "broken" ⟨8, 8⟩ (some "broken =") (some "o.q")

/-- The broken declaration has a diagnostic. -/
theorem fileRun_broken : FileRun false someFiles "o.q"
    (.error (.ofDiagnostics false "o.q" [brokenDiagnostic]))
    ((Reporter.fresh true false).register "o.q" (some "broken =")) [] := by
  have hread : ReadsAs someFiles "o.q" "broken =" ⟨⟨"o.q", []⟩, [brokenDiagnostic]⟩ :=
    ⟨sessionSource_textFiles (by decide) (by simp) (by decide), by decide +kernel⟩
  have hname : baseName "o.q" = "o.q" := by decide
  have hrun : FileRun false someFiles "o.q" _ _ _ := .diagnosed hread (List.cons_ne_nil _ _)
  rw [hname] at hrun
  exact hrun

/-- Behind the program that prints its line, a name that is not defined, a declaration without a
value and a missing file each end the program with status 1, and the program is not run again. -/
theorem files_run_independently_failing :
    run false someFiles ["a/m.q"] "" = ⟨["", "[LiteralString(value='1')]\n"], "", none⟩ ∧
    run false someFiles ["a/m.q", "n.q"] "" =
      ⟨["", "[LiteralString(value='1')]\n", "", "n.q: error: 'nope' has not been defined\n"], "",
        some (.exit 1)⟩ ∧
    run false someFiles ["a/m.q", "o.q"] "" =
      ⟨["", "[LiteralString(value='1')]\n",
        "o.q:1:9: error: declaration of 'broken' has no value\n", "  broken =\n          ^\n"], "",
        some (.exit 1)⟩ ∧
    (run false someFiles ["a/m.q", "b/m.q"] "").abort = some (.exit 1) ∧
    run false someFiles ["a/m.q", "n.q", "a/m.q"] "" = run false someFiles ["a/m.q", "n.q"] "" := by
  have hprints : run false someFiles ["a/m.q"] "" =
      ⟨["", "[LiteralString(value='1')]\n"], "", none⟩ :=
    ((files_run_independently false someFiles ["a/m.q"] ["n.q"] (by decide) (by decide)
      (by simp [ArePaths]) "").2.2.2.2 "a/m.q" (by simp)).2.1 _ _ fileRun_printing
  have hbehind : ∀ path, ArePaths [path] → run false someFiles ["a/m.q", path] "" =
      ⟨["", "[LiteralString(value='1')]\n"] ++ (run false someFiles [path] "").output,
        (run false someFiles [path] "").errors, (run false someFiles [path] "").abort⟩ := by
    intro path hpath
    have hboth := (files_run_independently false someFiles ["a/m.q"] [path] (by decide)
      (List.cons_ne_nil _ _) (by simpa [ArePaths] using hpath) "").2.1
      (congrArg Outcome.abort hprints)
    rw [hprints] at hboth
    simpa using hboth
  have hundefined : run false someFiles ["n.q"] "" =
      ⟨["", "n.q: error: 'nope' has not been defined\n"], "", some (.exit 1)⟩ := by
    rw [((files_run_independently false someFiles ["n.q"] ["a/m.q"] (by decide) (by decide)
      (by simp [ArePaths]) "").2.2.2.2 "n.q" (by simp)).2.2 _ _ _ fileRun_undefined, Abort.ofHalt,
      Abort.ofEvalError_eq]
    rfl
  have hbroken : run false someFiles ["o.q"] "" =
      ⟨["o.q:1:9: error: declaration of 'broken' has no value\n", "  broken =\n          ^\n"], "",
        some (.exit 1)⟩ := by
    rw [((files_run_independently false someFiles ["o.q"] ["a/m.q"] (by decide) (by decide)
      (by simp [ArePaths]) "").2.2.2.2 "o.q" (by simp)).2.2 _ _ _ fileRun_broken,
      Abort.ofDiagnostics_eq]
    rfl
  have hmissing : (run false someFiles ["b/m.q"] "").abort = some (.exit 1) := by
    have hopen : sessionSource someFiles (some "b/m.q") none = .error (.unreadable "b/m.q") := by
      decide
    rw [((files_run_independently false someFiles ["b/m.q"] ["a/m.q"] (by decide) (by decide)
      (by simp [ArePaths]) "").2.2.2.2 "b/m.q" (by simp)).2.2 _ _ _ (.unopened hopen)]
  have hfails : run false someFiles ["a/m.q", "n.q"] "" = _ := hbehind "n.q" (by simp [ArePaths])
  refine ⟨hprints, ?_, ?_, ?_, ?_⟩
  · rw [hfails, hundefined]
    rfl
  · rw [hbehind "o.q" (by simp [ArePaths]), hbroken]
    rfl
  · rw [hbehind "b/m.q" (by simp [ArePaths])]
    exact hmissing
  · refine ((files_run_independently false someFiles ["a/m.q", "n.q"] ["a/m.q"] (by decide)
      (by decide) (by simp [ArePaths]) "").2.2.1 ?_).1
    rw [hfails, hundefined]

end QLanguage
