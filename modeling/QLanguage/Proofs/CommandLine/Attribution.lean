import Mathlib.Data.List.Basic
import QLanguage.Proofs.CommandLine.Files
import QLanguage.Proofs.Reading.Places
import QLanguage.Proofs.RoundTrip
import QLanguage.Proofs.Session.Lines
import QLanguage.Proofs.Tables

/-!
# Whose diagnostics are reported

When files are only read, the reporter keeps all of them, under their base names, and a base name
that is known keeps its place. Reports are about the file in the last place. So the diagnostics of a
file are reported as its own exactly when no other base name has come in since its base name first
did; otherwise they are reported as diagnostics of the file whose base name came in last, with
lines, columns and quotations from that file's text (`diagnostics_attributed_iff`).
-/

namespace QLanguage

open Step

/-! ## Reports of diagnostics -/

/-- A diagnostic of a file of a given name and text as it is reported: the heading has the name and
the line and the column of the place in the text, and the place is quoted from the text. -/
def Diagnostic.reportIn (colours : Bool) (name text : String) (d : Diagnostic) :
    Option (List String) := do
  let start ← d.start
  let stop ← d.stop
  let place := locate text start
  let heading := name ++ ":" ++ toString place.number ++ ":" ++ toString place.column ++ ": "
  return [painted colours .bold heading ++ painted colours .red "error: " ++ d.message colours ++
    "\n", quotation colours .red text start stop ++ "\n"]

namespace Diagnostic

variable {colours : Bool} {d : Diagnostic} {name text : String}

/-- A reporter reports a diagnostic as one of the last file. -/
theorem Placed.reportIn_eq (h : d.Placed) {reporter : Reporter}
    (hcolours : reporter.colours = colours)
    (hlast : reporter.files.last? = some (name, some text)) :
    d.reportIn colours name text = some (reporter.report .error (d.fault colours)) := by
  obtain ⟨start, stop, hstart, hstop⟩ := h
  have hfault : (d.fault colours).start = some start := hstart
  have hend : (d.fault colours).stop = some stop := hstop
  have hquotes : (d.fault colours).quotes = true := by
    rw [Fault.quotes, hfault]
    rfl
  have hsource : reporter.source? = some text := by
    rw [Reporter.source?, hlast]
    rfl
  unfold reportIn Reporter.report Reporter.heading Reporter.quote
  rw [hstart, hstop, hlast, hsource, hfault, hend, hquotes]
  subst hcolours
  have hinternal : (d.fault reporter.colours).internal = false := rfl
  dsimp only
  rw [hinternal, if_neg Bool.false_ne_true, String.append_empty]
  rfl

end Diagnostic

/-- What stands before the last colon and what stands behind it are known from the whole. -/
theorem append_colon_inj {a b u v : List Char} (hu : ':' ∉ u) (hv : ':' ∉ v)
    (h : a ++ ':' :: u = b ++ ':' :: v) : a = b := by
  have hreverse : u.reverse ++ ':' :: a.reverse = v.reverse ++ ':' :: b.reverse := by
    simpa using congrArg List.reverse h
  have hdrop : ∀ (w rest : List Char), ':' ∉ w →
      (w.reverse ++ ':' :: rest).dropWhile (· != ':') = ':' :: rest := by
    intro w rest hw
    rw [List.dropWhile_append_of_pos]
    · rfl
    · intro c hc
      have hne : c ≠ ':' := by
        rintro rfl
        exact hw (List.mem_reverse.1 hc)
      simpa using hne
  have hrest := congrArg (List.dropWhile (· != ':')) hreverse
  rw [hdrop u _ hu, hdrop v _ hv, List.cons.injEq] at hrest
  exact List.reverse_injective hrest.2

/-- A number has no colon. -/
theorem colon_not_mem_toString (n : Nat) : ':' ∉ (toString n).toList := by
  intro h
  cases isDigit_of_mem_toString h

/-- A text is known from how it is painted. -/
theorem painted_injective {colours : Bool} {paint : Paint} :
    Function.Injective (painted colours paint) := by
  intro a b h
  cases colours with
  | false => exact h
  | true => simpa [painted] using h

/-- A heading names one file. -/
theorem eq_of_heading_eq {name name' : String} {line line' column column' : Nat}
    (h : name ++ ":" ++ toString line ++ ":" ++ toString column ++ ": " =
      name' ++ ":" ++ toString line' ++ ":" ++ toString column' ++ ": ") : name = name' := by
  have hchars : ∀ (name : String) (line column : Nat),
      (name ++ ":" ++ toString line ++ ":" ++ toString column ++ ": ").toList =
        ((name.toList ++ ':' :: (toString line).toList) ++ ':' :: (toString column).toList) ++
          ':' :: [' '] := by
    intro name line column
    simp [String.toList_append]
  have hlists := congrArg String.toList h
  rw [hchars, hchars] at hlists
  have hcolumns := append_colon_inj (by decide) (by decide) hlists
  have hlines := append_colon_inj (colon_not_mem_toString _) (colon_not_mem_toString _) hcolumns
  have hnames := append_colon_inj (colon_not_mem_toString _) (colon_not_mem_toString _) hlines
  exact String.toList_injective hnames

/-- A report names one file. -/
theorem Diagnostic.eq_of_reportIn_eq {colours : Bool} {d : Diagnostic}
    {name name' text text' : String} {report : List String}
    (h : d.reportIn colours name text = some report)
    (h' : d.reportIn colours name' text' = some report) : name = name' := by
  obtain ⟨start, -, h⟩ := Option.bind_eq_some_iff.1 h
  obtain ⟨stop, -, h⟩ := Option.bind_eq_some_iff.1 h
  obtain ⟨start', -, h'⟩ := Option.bind_eq_some_iff.1 h'
  obtain ⟨stop', -, h'⟩ := Option.bind_eq_some_iff.1 h'
  have hreports := (Option.some.inj h).trans (Option.some.inj h').symm
  -- Behind the heading, the line is the same whatever the file is.
  have hlines := (List.cons.inj hreports).1
  simp only [String.append_left_inj] at hlines
  exact eq_of_heading_eq (painted_injective hlines)

/-! ## Files that are only read -/

/-- A file is read without diagnostics. -/
def ReadsCleanly (read : FileReader) (path : String) : Prop :=
  ∃ source parsed, ReadsAs read path source parsed ∧ parsed.diagnostics = []

/-- What the reporter knows of a file. -/
def fileEntry (read : FileReader) (path : String) : String × Option String :=
  (baseName path, readText? read path)

/-- The file that is at a base name is the one that came in last. -/
theorem lookup_fileEntry (read : FileReader) (paths : List String) (name : String) :
    (paths.map (fileEntry read)).lookup name =
      (paths.find? fun path => name == baseName path).map (readText? read) := by
  induction paths with
  | nil => rfl
  | cons path paths ih =>
    rw [List.map_cons, fileEntry, List.lookup_cons, List.find?_cons, ih]
    cases name == baseName path <;> rfl

namespace CommandLine

variable {read : FileReader} {path source : String} {parsed : Parsed}

/-- The text of a file that is read. -/
theorem readText?_of_readsAs (h : ReadsAs read path source parsed) :
    readText? read path = some source := ((sessionSource_eq_ok_iff read path).1 h.opens).2.2.2

/-- A file that is read without diagnostics stays known to the reporter, and is only warned
about. -/
theorem handleFile_of_clean (h : ReadsAs read path source parsed) (hclean : parsed.diagnostics = [])
    (reporter : Reporter) (output : List String) :
    handleFile read true path reporter output =
      (.ok (), reporter.register (baseName path) (readText? read path),
        output ++ (reporter.register (baseName path) (readText? read path)).warnings
          parsed.module.items) := by
  have hparse := Work.run_parse_clean (w := opened reporter output (baseName path) source)
    h.reads hclean
  have hstep : (fileStep true).run (opened reporter output (baseName path) source) = (.ok (), _) :=
    run_bind_ok hparse
  rw [handleFile_eq, h.opens, readText?_of_readsAs h]
  dsimp only
  rw [hstep]
  rfl

/-- Files that are read without diagnostics stay known to the reporter. -/
theorem handleFiles_of_clean {paths : List String} (h : ∀ path ∈ paths, ReadsCleanly read path)
    (reporter : Reporter) (output : List String) :
    ∃ written, handleFiles read true paths reporter output =
      (.ok (), { reporter with files := reporter.files.setAll (paths.map (fileEntry read)) },
        written) := by
  induction paths generalizing reporter output with
  | nil => exact ⟨output, rfl⟩
  | cons path paths ih =>
    obtain ⟨⟨source, parsed, hreads, hclean⟩, hpaths⟩ := List.forall_mem_cons.1 h
    rw [handleFiles, handleFile_of_clean hreads hclean]
    exact ih hpaths _ _

/-- A file with diagnostics is given up for them, and writes nothing. -/
theorem handleFile_of_faulty (h : ReadsAs read path source parsed)
    (hfaulty : parsed.diagnostics ≠ []) (reporter : Reporter) (output : List String) :
    handleFile read true path reporter output =
      (.error (.ofDiagnostics reporter.colours (baseName path) parsed.diagnostics),
        reporter.register (baseName path) (readText? read path), output) := by
  have hparse := Work.run_parse_faulty (w := opened reporter output (baseName path) source)
    h.reads hfaulty
  have hstep : (fileStep true).run (opened reporter output (baseName path) source) = (_, _) :=
    run_bind_error hparse
  rw [handleFile_eq, h.opens, readText?_of_readsAs h]
  dsimp only
  rw [hstep]
  rfl

/-- The reporter when some files have been read. -/
def readReporter (colours : Bool) (read : FileReader) (paths : List String) : Reporter :=
  ⟨true, colours, Table.empty.setAll (paths.map (fileEntry read))⟩

/-- A run that ends for diagnostics reports them one by one. -/
theorem conclude_of_diagnostics (colours : Bool) (name : String) {diagnostics : List Diagnostic}
    (h : diagnostics ≠ []) (paths : List String) (output : List String) :
    conclude (.error (.ofDiagnostics colours name diagnostics), readReporter colours read paths,
        output) =
      ⟨output ++ diagnostics.flatMap fun d =>
        (readReporter colours read paths).report .error (d.fault colours), "",
        some (.exit 1)⟩ := by
  have hguard := (readReporter colours read paths).announce_faults
    (Abort.parts_ofDiagnostics colours name h)
  rw [List.flatMap_map] at hguard
  rw [Abort.ofDiagnostics_eq, conclude, Reporter.guard, hguard]
  rfl

/-- When the first file that is not read cleanly has diagnostics, these are reported behind what has
been written for the files before it, as the reporter has it that knows all these files. -/
theorem run_parseOnly_of_faulty {before after : List String}
    (hpaths : Options.ArePaths (before ++ path :: after))
    (hclean : ∀ p ∈ before, ReadsCleanly read p) (hread : ReadsAs read path source parsed)
    (hfaulty : parsed.diagnostics ≠ []) (colours : Bool) (input : String) :
    run colours read ("--parse-only" :: (before ++ path :: after)) input =
      ⟨(handleFiles read true before (.fresh true colours) []).2.2 ++
          parsed.diagnostics.flatMap fun d =>
            (readReporter colours read (before ++ [path])).report .error (d.fault colours), "",
        some (.exit 1)⟩ := by
  obtain ⟨written, hbefore⟩ := handleFiles_of_clean hclean (.fresh true colours) []
  have hreporter : Reporter.register
      ⟨true, colours, Table.empty.setAll (before.map (fileEntry read))⟩
      (baseName path) (readText? read path) = readReporter colours read (before ++ [path]) := by
    unfold readReporter Table.setAll
    rw [List.map_append, List.foldl_append]
    rfl
  rw [run_parseOnly read hpaths (by simp), handleFiles_append, hbefore]
  dsimp only
  rw [handleFiles, handleFile_of_faulty hread hfaulty]
  exact (congrArg (fun reporter => conclude (_, reporter, written)) hreporter).trans
    (conclude_of_diagnostics colours _ hfaulty _ _)

/-- The last file of a reporter that has read some is the one whose base name came in last, with the
latest text of that name. -/
theorem last?_readReporter (colours : Bool) {paths : List String}
    (h : ∀ p ∈ paths, ∃ text, readText? read p = some text) (hsome : paths ≠ []) :
    ∃ name p text, (paths.map baseName).eraseDups.getLast? = some name ∧
      paths.reverse.find? (fun p => name == baseName p) = some p ∧ readText? read p = some text ∧
      (readReporter colours read paths).files.last? = some (name, some text) := by
  obtain ⟨hnames, hnodup⟩ := Table.names_setAll (paths.map (fileEntry read))
  have hbases : (paths.map (fileEntry read)).map Prod.fst = paths.map baseName := by
    rw [List.map_map]
    rfl
  rw [hbases] at hnames
  obtain ⟨first, hfirst⟩ := List.exists_mem_of_ne_nil paths hsome
  have hne : (paths.map baseName).eraseDups ≠ [] :=
    List.ne_nil_of_mem (List.mem_eraseDups.2 (List.mem_map_of_mem hfirst))
  obtain ⟨name, hname⟩ : ∃ name, (paths.map baseName).eraseDups.getLast? = some name :=
    ⟨_, List.getLast?_eq_some_getLast hne⟩
  -- A path with that base name is there, and the latest one has the text.
  obtain ⟨known, hknown, hbase⟩ := List.mem_map.1
    (List.mem_eraseDups.1 (List.mem_of_getLast? hname))
  obtain ⟨p, hp⟩ := Option.isSome_iff_exists.1 (List.find?_isSome.2
    ⟨known, List.mem_reverse.2 hknown, beq_iff_eq.2 hbase.symm⟩ :
      (paths.reverse.find? fun p => name == baseName p).isSome = true)
  obtain ⟨text, htext⟩ := h p (List.mem_reverse.1 (List.mem_of_find?_eq_some hp))
  refine ⟨name, p, text, hname, hp, htext, ?_⟩
  change (Table.empty.setAll (paths.map (fileEntry read))).last? = _
  rw [Table.last?_eq hnodup (hnames ▸ hname), Table.get?_setAll, ← List.map_reverse,
    lookup_fileEntry, hp]
  exact congrArg (fun found => some (name, found)) htext

end CommandLine

open CommandLine Options

/-- When files are only read, the diagnostics of the first file that is not read cleanly are
reported as diagnostics of the file whose base name came in last, with the latest text of that base
name. They are reported as its own exactly when that is its base name. -/
theorem diagnostics_attributed_iff {read : FileReader} {before after : List String}
    {path source : String} {parsed : Parsed} (hpaths : ArePaths (before ++ path :: after))
    (hclean : ∀ p ∈ before, ReadsCleanly read p) (hread : ReadsAs read path source parsed)
    (hfaulty : parsed.diagnostics ≠ []) (colours : Bool) (input : String) :
    ∃ (name p text : String) (reports : List (List String)),
      ((before ++ [path]).map baseName).eraseDups.getLast? = some name ∧
      (before ++ [path]).reverse.find? (fun p => name == baseName p) = some p ∧
      readText? read p = some text ∧
      parsed.diagnostics.map (Diagnostic.reportIn colours name text) = reports.map some ∧
      run colours read ("--parse-only" :: (before ++ path :: after)) input =
        ⟨(handleFiles read true before (.fresh true colours) []).2.2 ++ reports.flatten, "",
          some (.exit 1)⟩ ∧
      (parsed.diagnostics.map (Diagnostic.reportIn colours (baseName path) source) =
          reports.map some ↔
        name = baseName path) := by
  have htexts : ∀ p ∈ before ++ [path], ∃ text, readText? read p = some text := by
    intro p hp
    rcases List.mem_append.1 hp with hp | hp
    · obtain ⟨text, _, hreads, -⟩ := hclean p hp
      exact ⟨text, readText?_of_readsAs hreads⟩
    · rw [List.mem_singleton.1 hp]
      exact ⟨source, readText?_of_readsAs hread⟩
  obtain ⟨name, p, text, hname, hp, htext, hlast⟩ := last?_readReporter colours htexts (by simp)
  have hreport : ∀ d ∈ parsed.diagnostics, d.reportIn colours name text =
      some ((readReporter colours read (before ++ [path])).report .error (d.fault colours)) :=
    fun d hd => (placed_of_parseModule hread.reads hd).reportIn_eq rfl hlast
  refine ⟨name, p, text, parsed.diagnostics.map fun d =>
    (readReporter colours read (before ++ [path])).report .error (d.fault colours), hname, hp,
    htext, ?_, ?_, ?_⟩
  · rw [List.map_map]
    exact List.map_congr_left hreport
  · rw [run_parseOnly_of_faulty hpaths hclean hread hfaulty, List.flatMap_def]
  · rw [List.map_map, List.map_inj_left]
    constructor
    · -- One report is enough to tell which file is named.
      intro hown
      obtain ⟨d, hd⟩ := List.exists_mem_of_ne_nil _ hfaulty
      exact Diagnostic.eq_of_reportIn_eq (hreport d hd) (hown d hd)
    · -- The file came in last under its base name, so the text is its own.
      rintro rfl
      rw [List.reverse_append, List.reverse_singleton, List.singleton_append, List.find?_cons,
        beq_self_eq_true] at hp
      obtain rfl := Option.some.inj hp
      rw [readText?_of_readsAs hread, Option.some.injEq] at htext
      rw [htext]
      exact hreport

/-! ## Two files of one base name -/

/-- Two files of one base name, the second with a declaration that has no value, and a file of
another base name. -/
def sameNameFiles : FileReader :=
  textFiles [("a/m.q", "x = \"1\""), ("n.q", "y = \"2\""), ("b/m.q", "broken =")]

/-- What is read of the second file. -/
def sameNameParsed : Parsed :=
  ⟨⟨"m.q", []⟩, [.missingValue "broken" ⟨8, 8⟩ (some "broken =") (some "m.q")]⟩

/-- The first file is read cleanly. -/
theorem readsAs_first :
    ReadsAs sameNameFiles "a/m.q" "x = \"1\"" ⟨⟨"m.q", [⟨"x", .string "1"⟩]⟩, []⟩ where
  opens := sessionSource_textFiles (by decide) (by simp) (by decide)
  reads := parseModule_source (m := ⟨"m.q", [⟨"x", .string "1"⟩]⟩) (by decide) (by decide)

/-- The file of another base name is read cleanly. -/
theorem readsAs_other :
    ReadsAs sameNameFiles "n.q" "y = \"2\"" ⟨⟨"n.q", [⟨"y", .string "2"⟩]⟩, []⟩ where
  opens := sessionSource_textFiles (by decide) (by simp) (by decide)
  reads := parseModule_source (m := ⟨"n.q", [⟨"y", .string "2"⟩]⟩) (by decide) (by decide)

/-- The second file has a diagnostic. -/
theorem readsAs_second : ReadsAs sameNameFiles "b/m.q" "broken =" sameNameParsed where
  opens := sessionSource_textFiles (by decide) (by simp) (by decide)
  reads := by decide +kernel

/-- With the other file between them, the diagnostic of the second file is reported as one of the
other file, at a place of that file's text. -/
theorem diagnostics_of_second_file_misattributed :
    ReadsCleanly sameNameFiles "a/m.q" ∧ ReadsCleanly sameNameFiles "n.q" ∧
    ReadsAs sameNameFiles "b/m.q" "broken =" sameNameParsed ∧ sameNameParsed.diagnostics ≠ [] ∧
    String.join (run false sameNameFiles ["--parse-only", "a/m.q", "n.q", "b/m.q"] "").output =
      "n.q:1:8: error: declaration of 'broken' has no value\n  y = \"2\"\n         ^\n" ∧
    sameNameParsed.diagnostics.map
        (fun d => (d.reportIn false "m.q" "broken =").map String.join) =
      [some "m.q:1:9: error: declaration of 'broken' has no value\n  broken =\n          ^\n"] := by
  have hfirst : ReadsCleanly sameNameFiles "a/m.q" := ⟨_, _, readsAs_first, rfl⟩
  have hother : ReadsCleanly sameNameFiles "n.q" := ⟨_, _, readsAs_other, rfl⟩
  have hfaulty : sameNameParsed.diagnostics ≠ [] := List.cons_ne_nil _ _
  have hrun :
      run false sameNameFiles ("--parse-only" :: (["a/m.q", "n.q"] ++ "b/m.q" :: [])) "" = _ :=
    run_parseOnly_of_faulty (by simp [ArePaths]) (by simp [hfirst, hother]) readsAs_second hfaulty
      false ""
  have hsilent :
      (handleFiles sameNameFiles true ["a/m.q", "n.q"] (.fresh true false) []).2.2 = [] := by
    rw [handleFiles, handleFile_of_clean readsAs_first rfl]
    dsimp only
    rw [handleFiles, handleFile_of_clean readsAs_other rfl]
    rfl
  refine ⟨hfirst, hother, readsAs_second, hfaulty, ?_, by decide⟩
  have houtput := congrArg Outcome.output hrun
  rw [hsilent] at houtput
  refine (congrArg String.join houtput).trans ?_
  simp only [readReporter, List.cons_append, List.nil_append, List.map_cons, List.map_nil,
    fileEntry, readText?_of_readsAs readsAs_first, readText?_of_readsAs readsAs_other,
    readText?_of_readsAs readsAs_second]
  decide

/-- Without the other file between them, the diagnostic of the second file is reported as its
own. -/
theorem diagnostics_attributed_iff_adjacent :
    ArePaths ["a/m.q", "b/m.q", "n.q"] ∧ ReadsCleanly sameNameFiles "a/m.q" ∧
    ReadsAs sameNameFiles "b/m.q" "broken =" sameNameParsed ∧ sameNameParsed.diagnostics ≠ [] ∧
    ∃ reports : List (List String),
      sameNameParsed.diagnostics.map (Diagnostic.reportIn false "m.q" "broken =") =
        reports.map some ∧
      (run false sameNameFiles ["--parse-only", "a/m.q", "b/m.q", "n.q"] "").output =
        reports.flatten := by
  have hpaths : ArePaths ["a/m.q", "b/m.q", "n.q"] := by simp [ArePaths]
  have hfirst : ReadsCleanly sameNameFiles "a/m.q" := ⟨_, _, readsAs_first, rfl⟩
  have hfaulty : sameNameParsed.diagnostics ≠ [] := List.cons_ne_nil _ _
  have hsilent : (handleFiles sameNameFiles true ["a/m.q"] (.fresh true false) []).2.2 = [] := by
    rw [handleFiles, handleFile_of_clean readsAs_first rfl]
    rfl
  have hbase : baseName "b/m.q" = "m.q" := by decide
  have hnames : (["a/m.q", "b/m.q"].map baseName).eraseDups.getLast? = some "m.q" := by decide
  obtain ⟨name, p, text, reports, hname, -, -, -, hrun, hiff⟩ :=
    diagnostics_attributed_iff (show ArePaths (["a/m.q"] ++ "b/m.q" :: ["n.q"]) from hpaths)
      (by simpa using hfirst) readsAs_second hfaulty false ""
  have hown : name = "m.q" := Option.some.inj (hname.symm.trans hnames)
  rw [hbase] at hiff
  refine ⟨hpaths, hfirst, readsAs_second, hfaulty, reports, hiff.2 hown, ?_⟩
  have houtput := congrArg Outcome.output hrun
  rw [hsilent] at houtput
  exact houtput

end QLanguage
