import QLanguage.CommandLine.Run
import QLanguage.Proofs.Session.Runs

/-!
# The files of a command line

Arguments that do not start with a dash are files (`Options.parse_paths`), and files are read or run
one after another up to the first that fails (`handleFiles_append`). What has been written before a
file is not looked at: whatever comes of the file, its output goes behind that
(`handleFiles_output`). So what files come to is known from what they come to when nothing has been
written, and from the reporter that they find.
-/

namespace QLanguage

open Step

/-! ## Arguments -/

namespace Options

/-- No argument starts with a dash. -/
def ArePaths (arguments : List String) : Prop :=
  ∀ argument ∈ arguments, argument.toList.head? ≠ some '-'

/-- An argument that does not start with a dash is a file. -/
theorem classify_path {argument : String} (h : argument.toList.head? ≠ some '-') :
    classify argument = .ok .file := by
  unfold classify
  split
  case h_6 => rfl
  all_goals
    rename_i hdash
    rw [hdash] at h
    exact absurd rfl h

/-- Arguments that do not start with a dash are files. -/
theorem classifyAll_paths {arguments : List String} (h : ArePaths arguments) :
    classifyAll arguments = .ok (arguments.map fun argument => (argument, .file)) := by
  induction arguments with
  | nil => rfl
  | cons argument more ih =>
    obtain ⟨hargument, hmore⟩ := List.forall_mem_cons.1 h
    have hdashes : ¬(argument == "--") = true := by
      intro heq
      rw [eq_of_beq heq] at hargument
      exact absurd (by decide) hargument
    rw [classifyAll, if_neg hdashes, classify_path hargument, ih hmore]
    rfl

/-- A row of files that is not over takes all the files that follow. -/
theorem interpret_files {row : Row} (h : (row == .behind) = false) (paths : List String) :
    interpret row (paths.map fun path => (path, .file)) = .ok (⟨false, paths⟩, []) := by
  induction paths generalizing row with
  | nil => rfl
  | cons path paths ih =>
    rw [List.map_cons, interpret]
    simp only [h, Bool.false_eq_true, if_false]
    rw [ih rfl]
    rfl

/-- Paths alone are files to run. -/
theorem parse_paths {paths : List String} (h : ArePaths paths) :
    parse paths = .ok ⟨false, paths⟩ := by
  have hmark : "--" ∉ paths := fun hmem => h "--" hmem (by decide)
  unfold parse
  rw [classifyAll_paths h]
  change (interpret .ahead (paths.map fun path => (path, .file)) >>= _) = _
  rw [interpret_files rfl]
  change Except.ok (Options.mk false (paths.erase "--")) = _
  rw [List.erase_of_not_mem hmark]

/-- Paths behind the option are files to read. -/
theorem parse_parseOnly {paths : List String} (h : ArePaths paths) :
    parse ("--parse-only" :: paths) = .ok ⟨true, paths⟩ := by
  have hmark : "--" ∉ paths := fun hmem => h "--" hmem (by decide)
  have hoption : classifyAll ("--parse-only" :: paths) =
      .ok (("--parse-only", .long .parseOnly none) ::
        paths.map fun path => (path, .file)) := by
    have hclassify : classify "--parse-only" = .ok (.long .parseOnly none) := by rfl
    rw [classifyAll, if_neg (by decide), hclassify, classifyAll_paths h]
    rfl
  unfold parse
  rw [hoption]
  change (interpret .ahead (_ :: paths.map fun path => (path, .file)) >>= _) = _
  rw [interpret]
  change (interpret .ahead (paths.map fun path => (path, .file)) >>= _ >>= _) = _
  rw [interpret_files rfl]
  change Except.ok (Options.mk true (paths.erase "--")) = _
  rw [List.erase_of_not_mem hmark]

end Options

/-! ## Opening a file -/

/-- A file can be opened and read, with its text and what is read of it. -/
structure ReadsAs (read : FileReader) (path source : String) (parsed : Parsed) : Prop where
  /-- The file has its base name and its text. -/
  opens : sessionSource read (some path) none = .ok (baseName path, source)
  /-- The text is read. -/
  reads : parseModule nestingLimit (baseName path) source = .ok parsed

/-! ## Output -/

/-- The workspace with texts in front of what has been written. -/
def Workspace.prepend (texts : List String) (w : Workspace) : Workspace :=
  { w with output := texts ++ w.output }

namespace Work

variable (texts : List String)

/-- Reading a source does not see what has been written. -/
theorem commutes_parse : Commutes (Workspace.prepend texts) parse := by
  intro w
  have hsame : parseModule nestingLimit (w.prepend texts).session.path
      (w.prepend texts).session.source =
        parseModule nestingLimit w.session.path w.session.source := rfl
  rw [run_parse, run_parse, hsame]
  rcases parseModule nestingLimit w.session.path w.session.source with stop | parsed
  · rfl
  · by_cases hclean : w.session.diagnostics ++ parsed.diagnostics = []
    · simp only [Workspace.prepend, hclean, if_true, Workspace.reading, Workspace.writing,
        List.append_assoc]
    · simp only [Workspace.prepend, hclean, if_false, Workspace.reading]

/-- Running a module does not see what has been written. -/
theorem commutes_runModule (m : Module) : Commutes (Workspace.prepend texts) (runModule m) := by
  intro w
  rw [run_runModule, run_runModule]
  split
  · simp [Workspace.prepend, Workspace.writing]
  · split <;> simp [Workspace.prepend, Workspace.keeping, Workspace.resulting, Workspace.forgetting]

/-- Running a program does not see what has been written. -/
theorem commutes_runProgram : Commutes (Workspace.prepend texts) runProgram := by
  intro w
  rcases hmodule : w.session.module? with _ | m
  · rw [run_runProgram_unread hmodule, run_runProgram_unread (w := w.prepend texts) hmodule]
    exact (commutes_parse texts).bind (commutes_runModule texts) w
  · rw [run_runProgram_read hmodule, run_runProgram_read (w := w.prepend texts) hmodule]
    exact commutes_runModule texts m w

end Work

namespace CommandLine

variable (read : FileReader) (parseOnly : Bool) (path : String) (reporter : Reporter)
  (output : List String)

/-- What is done with a file that has been opened. -/
def fileStep : Work Unit :=
  if parseOnly then do let _ ← Work.parse
  else do let _ ← Work.runProgram

/-- What is done with a file does not see what has been written. -/
theorem commutes_fileStep (texts : List String) :
    Commutes (Workspace.prepend texts) (fileStep parseOnly) := by
  cases parseOnly with
  | true => exact (Work.commutes_parse texts).bind fun _ => .pure _
  | false => exact (Work.commutes_runProgram texts).bind fun _ => .pure _

/-- The workspace of a file that has been opened. -/
def opened (name source : String) : Workspace :=
  ⟨.fresh name source, reporter.register name (some source), output⟩

/-- A file is opened under its base name if it can be read and its path is neither the name of the
prompt nor has a null character. -/
theorem sessionSource_eq_ok_iff {name source : String} :
    sessionSource read (some path) none = .ok (name, source) ↔
      path ≠ promptName ∧ '\x00' ∉ path.toList ∧ name = baseName path ∧
        readText? read path = some source := by
  unfold sessionSource fileSource
  dsimp only
  by_cases hname : path = promptName
  · simp [hname]
  · by_cases hnull : '\x00' ∈ path.toList
    · simp [hname, hnull]
    · cases readText? read path with
      | none => simp [hname, hnull]
      | some text =>
        simp only [beq_iff_eq, hname, List.contains_iff_mem, hnull, if_false, Except.ok.injEq,
          Prod.mk.injEq, ne_eq, not_false_eq_true, true_and, Option.some.injEq]
        exact and_congr_left fun _ => eq_comm

/-- A file is opened and then read or run. -/
theorem handleFile_eq :
    handleFile read parseOnly path reporter output =
      match sessionSource read (some path) none with
      | .error e => (.error (.ofSource reporter.colours e), reporter, output)
      | .ok (name, source) =>
        let ended := (fileStep parseOnly).run (opened reporter output name source)
        (ended.1, ended.2.reporter, ended.2.output) := by
  unfold handleFile Workspace.openFile
  rcases sessionSource read (some path) none with e | ⟨name, source⟩ <;> rfl

/-- The output of a file goes behind what has been written. -/
theorem handleFile_output :
    handleFile read parseOnly path reporter output =
      ((handleFile read parseOnly path reporter []).1,
        (handleFile read parseOnly path reporter []).2.1,
        output ++ (handleFile read parseOnly path reporter []).2.2) := by
  rw [handleFile_eq, handleFile_eq]
  rcases sessionSource read (some path) none with e | ⟨name, source⟩
  · simp
  · have hopened : opened reporter output name source =
        (opened reporter [] name source).prepend output := by
      simp [opened, Workspace.prepend]
    dsimp only
    rw [hopened, commutes_fileStep parseOnly output]
    rfl

/-- Files are handled in order, and after one that fails no other. -/
theorem handleFiles_append (paths more : List String) :
    handleFiles read parseOnly (paths ++ more) reporter output =
      match handleFiles read parseOnly paths reporter output with
      | (.ok _, reporter, output) => handleFiles read parseOnly more reporter output
      | failed => failed := by
  induction paths generalizing reporter output with
  | nil => rfl
  | cons path paths ih =>
    rw [List.cons_append, handleFiles, handleFiles]
    rcases handleFile read parseOnly path reporter output with ⟨abort | _, reporter, output⟩
    · rfl
    · exact ih reporter output

/-- The output of files goes behind what has been written. -/
theorem handleFiles_output (paths : List String) :
    handleFiles read parseOnly paths reporter output =
      ((handleFiles read parseOnly paths reporter []).1,
        (handleFiles read parseOnly paths reporter []).2.1,
        output ++ (handleFiles read parseOnly paths reporter []).2.2) := by
  induction paths generalizing reporter output with
  | nil => simp [handleFiles]
  | cons path paths ih =>
    rw [handleFiles, handleFiles, handleFile_output]
    rcases handleFile read parseOnly path reporter [] with ⟨abort | _, reporter, written⟩
    · rfl
    · dsimp only
      rw [ih reporter (output ++ written), ih reporter written, List.append_assoc]

/-- A file is known from what is found behind its path. -/
theorem handleFile_congr {read read' : FileReader} {path : String} (h : read' path = read path) :
    handleFile read' parseOnly path = handleFile read parseOnly path := by
  have hsource : sessionSource read' (some path) none = sessionSource read (some path) none := by
    simp only [sessionSource, fileSource, readText?, h]
  funext reporter output
  rw [handleFile_eq, handleFile_eq, hsource]

/-- Files are known from what is found behind their paths. -/
theorem handleFiles_congr {read read' : FileReader} {paths : List String}
    (h : ∀ path ∈ paths, read' path = read path) :
    handleFiles read' parseOnly paths = handleFiles read parseOnly paths := by
  induction paths with
  | nil => rfl
  | cons path paths ih =>
    obtain ⟨hpath, hpaths⟩ := List.forall_mem_cons.1 h
    funext reporter output
    rw [handleFiles, handleFiles, handleFile_congr parseOnly hpath, ih hpaths]

/-- Files with given texts and no others. -/
def textFiles (files : List (String × String)) : FileReader := fun path =>
  (files.lookup path).map String.toUTF8

/-- The text of such a file is its own, with the line ends normalised. -/
theorem readText?_textFiles (files : List (String × String)) :
    readText? (textFiles files) path =
      (files.lookup path).map fun text => String.ofList (normaliseLineEnds text.toList) := by
  unfold readText? textFiles decodeText?
  cases files.lookup path with
  | none => rfl
  | some text =>
    have hdecode : String.fromUTF8? text.toUTF8 = some text := dif_pos text.isValidUTF8
    change (String.fromUTF8? text.toUTF8).map _ = _
    rw [hdecode]

/-- Such a file is opened under its base name. -/
theorem sessionSource_textFiles {files : List (String × String)} {path source : String}
    (hname : path ≠ promptName) (hnull : '\x00' ∉ path.toList)
    (htext : (files.lookup path).map (fun text => String.ofList (normaliseLineEnds text.toList)) =
      some source) :
    sessionSource (textFiles files) (some path) none = .ok (baseName path, source) :=
  (sessionSource_eq_ok_iff _ _).2
    ⟨hname, hnull, rfl, (readText?_textFiles path files).trans htext⟩

/-- Paths alone are run as files. -/
theorem run_paths {paths : List String} (hpaths : Options.ArePaths paths) (hsome : paths ≠ [])
    (colours : Bool) (input : String) :
    run colours read paths input =
      conclude (handleFiles read false paths (.fresh true colours) []) := by
  have hfiles : ¬paths.isEmpty = true := by simpa using hsome
  rw [run, Options.parse_paths hpaths]
  exact if_neg hfiles

/-- Paths behind the option are read as files. -/
theorem run_parseOnly {paths : List String} (hpaths : Options.ArePaths paths) (hsome : paths ≠ [])
    (colours : Bool) (input : String) :
    run colours read ("--parse-only" :: paths) input =
      conclude (handleFiles read true paths (.fresh true colours) []) := by
  have hfiles : ¬paths.isEmpty = true := by simpa using hsome
  rw [run, Options.parse_parseOnly hpaths]
  exact if_neg hfiles

end CommandLine

end QLanguage
