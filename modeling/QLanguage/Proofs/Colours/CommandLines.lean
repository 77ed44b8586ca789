import QLanguage.Proofs.Colours.Sessions
import QLanguage.Proofs.CommandLine.Files

/-!
# Command lines with colours and without

What a command line comes to is made of its arguments, of the files that they name and of the input
of the prompt. Where these have no escapes, a run with colours and one without come to the same, but
for the paint on what is written (`CommandLine.coloured_run`): file by file, both go from one file
to the next or fail alike, with reporters that know the same files. Arguments are looked at before
anything depends on colours, and a message about misuse shows them as they stand or in quotes.
-/

namespace QLanguage

open Step

/-! ## Arguments -/

/-- The message about misuse has no escapes. -/
def Refusal.Clean : Refusal → Prop
  | .help => True
  | .misuse message => EscapeFree message

namespace Options

/-- A value that is not taken is shown in quotes. -/
theorem clean_ignored (flag : Flag) (value : String) : (ignored flag value).Clean := by
  have hmarks : EscapeFree "argument " ∧ EscapeFree ": ignored explicit argument " := by
    and_intros <;> exact escapeFree_ofList.2 (by decide)
  have hnames : EscapeFree flag.names := by
    cases flag <;> exact escapeFree_ofList.2 (by decide)
  unfold ignored Refusal.Clean
  simp only [escapeFree_append]
  exact ⟨⟨⟨hmarks.1, hnames⟩, hmarks.2⟩, escapeFree_quoted value⟩

/-- An argument without escapes is classified, or refused without escapes. -/
theorem classify_ends {argument : String} (h : EscapeFree argument) :
    Ends Refusal.Clean (fun _ => True) (classify argument) := by
  have hlong : Ends Refusal.Clean (fun _ => True) (classifyLong argument) := by
    have hspellings : ∀ spelling ∈ Flag.spellings, EscapeFree spelling.1 := by decide
    have hmarks : EscapeFree "ambiguous option: " ∧ EscapeFree " could match " := by
      and_intros <;> exact escapeFree_ofList.2 (by decide)
    unfold classifyLong
    dsimp only
    split
    · trivial
    · split
      · trivial
      · trivial
      · refine escapeFree_append.2 ⟨escapeFree_append.2
          ⟨escapeFree_append.2 ⟨hmarks.1, h⟩, hmarks.2⟩, escapeFree_intercalate (by decide) ?_⟩
        intro name hname
        obtain ⟨spelling, hspelling, rfl⟩ := List.mem_map.1 hname
        exact hspellings spelling (List.mem_filter.1 hspelling).1
  unfold classify
  split
  · exact hlong
  all_goals trivial

/-- Arguments without escapes are classified, or refused without escapes. -/
theorem classifyAll_ends {arguments : List String} (h : ∀ a ∈ arguments, EscapeFree a) :
    Ends Refusal.Clean (fun taken => taken.map Prod.fst = arguments) (classifyAll arguments) := by
  induction arguments with
  | nil => rfl
  | cons argument more ih =>
    obtain ⟨hargument, hmore⟩ := List.forall_mem_cons.1 h
    unfold classifyAll
    split
    · simp [Ends, List.map_map, Function.comp_def]
    · refine (classify_ends hargument).bind fun taken _ => (ih hmore).bind fun rest hrest => ?_
      exact congrArg (argument :: ·) hrest

/-- The letters behind the one-letter option ask for help or are refused without escapes. -/
theorem clean_clustered (letters : List Char) : (clustered letters).Clean := by
  fun_induction clustered letters with
  | case1 => trivial
  | case2 more _ ih => exact ih
  | case3 value _ _ => exact clean_ignored .help _

/-- What is acted upon are arguments, and what is refused is refused without escapes. -/
theorem interpret_ends (row : Row) (taken : List (String × Argument)) :
    Ends Refusal.Clean
      (fun acted => acted.1.files ⊆ taken.map Prod.fst ∧ acted.2 ⊆ taken.map Prod.fst)
      (interpret row taken) := by
  have hkeep : ∀ {x : String} {xs ys : List String}, xs ⊆ ys → xs ⊆ x :: ys :=
    fun h => List.Subset.trans h (List.subset_cons_self _ _)
  fun_induction interpret row taken with
  | case1 => exact ⟨List.nil_subset _, List.nil_subset _⟩
  | case2 row argument more hbehind ih =>
    refine ih.bind fun acted h => ⟨hkeep h.1, List.cons_subset_cons _ h.2⟩
  | case3 row argument more hbehind ih =>
    refine ih.bind fun acted h => ⟨List.cons_subset_cons _ h.1, hkeep h.2⟩
  | case4 row argument more ih =>
    refine ih.bind fun acted h => ⟨hkeep h.1, List.cons_subset_cons _ h.2⟩
  | case5 row argument more flag value => exact clean_ignored flag value
  | case6 => trivial
  | case7 => trivial
  | case8 row argument more ih => exact ih.bind fun acted h => ⟨hkeep h.1, hkeep h.2⟩
  | case9 row argument more tail => exact clean_clustered _

/-- The files are arguments, and what is refused is refused without escapes. -/
theorem parse_ends {arguments : List String} (h : ∀ a ∈ arguments, EscapeFree a) :
    Ends Refusal.Clean (fun options => options.files ⊆ arguments) (parse arguments) := by
  refine (classifyAll_ends h).bind fun taken htaken => ?_
  refine (interpret_ends .ahead taken).bind fun acted hacted => ?_
  rw [htaken] at hacted
  dsimp only
  split
  · exact fun file hfile => hacted.1 (List.mem_of_mem_erase hfile)
  · have hmark : EscapeFree "unrecognized arguments: " := escapeFree_ofList.2 (by decide)
    refine escapeFree_append.2 ⟨hmark, escapeFree_intercalate (by decide) ?_⟩
    exact fun argument hrefused => h argument (hacted.2 hrefused)

/-- Arguments are refused without escapes. -/
theorem escapeFree_misuseText {message : String} (h : EscapeFree message) :
    EscapeFree (misuseText message) := by
  have hmarks : EscapeFree usage ∧ EscapeFree "qlang: error: " ∧ EscapeFree "\n" := by
    and_intros <;> exact escapeFree_ofList.2 (by decide)
  unfold misuseText
  simp only [escapeFree_append]
  exact ⟨⟨⟨hmarks.1, hmarks.2.1⟩, h⟩, hmarks.2.2⟩

/-- The help text has no escapes. -/
theorem escapeFree_helpText : EscapeFree helpText := by
  unfold helpText usage
  simp only [escapeFree_append]
  and_intros <;> exact escapeFree_ofList.2 (by decide)

end Options

/-! ## Lines and paths -/

/-- What stands between separators are characters of the text. -/
theorem subset_of_mem_pieces {separator : Char} {cs piece : List Char}
    (h : piece ∈ pieces separator cs) : piece ⊆ cs := by
  fun_induction pieces separator cs generalizing piece with
  | case1 =>
    rw [List.mem_singleton.1 h]
    exact List.nil_subset _
  | case2 rest ih =>
    rcases List.mem_cons.1 h with rfl | h
    · exact List.nil_subset _
    · exact List.subset_cons_of_subset _ (ih h)
  | case3 c rest _ first more hpieces ih =>
    rw [hpieces] at ih
    rcases List.mem_cons.1 h with rfl | h
    · exact List.cons_subset_cons c (ih List.mem_cons_self)
    · exact List.subset_cons_of_subset _ (ih (List.mem_cons_of_mem _ h))
  | case4 c rest _ hpieces ih =>
    rw [List.mem_singleton.1 h]
    exact List.cons_subset_cons c (List.nil_subset _)

/-- The lines of an input without escapes have none. -/
theorem EscapeFree.inputLines {input : String} (h : EscapeFree input) :
    ∀ line ∈ inputLines input, EscapeFree line := by
  intro line hline
  obtain ⟨cs, hcs, rfl⟩ := List.mem_map.1 hline
  have hpiece : cs ∈ pieces '\n' input.toList := by
    split at hcs
    · exact List.mem_of_mem_dropLast hcs
    · exact hcs
  refine h.ofList fun c hc => subset_of_mem_pieces hpiece ?_
  exact List.mem_reverse.1 ((List.dropWhile_sublist _).mem (List.mem_reverse.1 hc))

/-- A file whose path has no escapes is named without escapes. -/
theorem EscapeFree.baseName {path : String} (h : EscapeFree path) : EscapeFree (baseName path) := by
  have hcomponents : ∀ component ∈ components path, EscapeFree component := by
    intro component hcomponent
    obtain ⟨cs, hcs, rfl⟩ := List.mem_map.1 hcomponent
    exact h.ofList (subset_of_mem_pieces hcs)
  unfold QLanguage.baseName
  rcases hlast : (components path).getLast? with _ | last
  · rw [List.getLastD_eq_getLast?, hlast]
    exact escapeFree_empty
  · rw [List.getLastD_eq_getLast?, hlast]
    exact hcomponents last (List.mem_of_getLast? hlast)

/-! ## Files -/

/-- The text behind a path, if there is one, has no escapes. -/
def FileReader.CleanAt (read : FileReader) (path : String) : Prop :=
  ∀ text ∈ readText? read path, EscapeFree text

/-- What is shown when a session gets no source has no escapes. -/
def SourceError.Clean : SourceError → Prop
  | .unreadable path => EscapeFree path
  | _ => True

/-- A session that gets no source is refused alike. -/
theorem SourceError.Clean.coloured {e : SourceError} (h : e.Clean) :
    (Abort.ofSource true e).Coloured (.ofSource false e) := by
  have hnotice : Painting (e.message true) (e.message false) := by
    cases e with
    | noFile =>
      have hmessage : EscapeFree "a session needs a file unless it is in command-line mode" :=
        escapeFree_ofList.2 (by decide)
      exact hmessage.painting
    | reservedName =>
      have hargs : ∀ arg ∈ [promptName], EscapeFree arg := by decide
      exact painting_message hargs "'" ["' is a reserved filename"]
    | nullInPath => exact escapeFree_empty.painting
    | unreadable path =>
      have hargs : ∀ arg ∈ [path], EscapeFree arg := List.forall_mem_singleton.2 h
      exact painting_message hargs "'" ["' could not be opened"]
  by_cases hnull : e = .nullInPath
  · subst hnull
    have hbraces : Braceless "ValueError" ∧ Braceless "embedded null byte" := by
      and_intros <;> exact braceless_ofList.2 (by decide)
    have hescapes : EscapeFree "ValueError" ∧ EscapeFree "embedded null byte" := by
      and_intros <;> exact escapeFree_ofList.2 (by decide)
    exact .failure hbraces hescapes.1 hescapes.2
  · rw [Abort.ofSource_eq true hnull, Abort.ofSource_eq false hnull]
    exact .notice hnotice

/-- The source of a session has no escapes, or it is refused without escapes. -/
theorem sessionSource_ends {read : FileReader} {path source : Option String}
    (hpath : ∀ name ∈ path, EscapeFree name ∧ (source = none → read.CleanAt name))
    (hsource : ∀ text ∈ source, EscapeFree text) :
    Ends SourceError.Clean (fun found => EscapeFree found.1 ∧ EscapeFree found.2)
      (sessionSource read path source) := by
  unfold sessionSource
  split
  · trivial
  · next name =>
    obtain ⟨hname, hread⟩ := hpath name rfl
    split
    · trivial
    · split
      · next text => exact ⟨hname, hsource text rfl⟩
      · unfold fileSource
        split
        · trivial
        · split
          · next text htext => exact ⟨hname.baseName, hread rfl text htext⟩
          · exact hname

/-- Sessions for files are opened alike. -/
theorem coloured_openFile {read : FileReader} {path source : Option String}
    (hpath : ∀ name ∈ path, EscapeFree name ∧ (source = none → read.CleanAt name))
    (hsource : ∀ text ∈ source, EscapeFree text) {r r' : Reporter} (hr : r.Coloured r')
    {output output' : List String} (houtput : Paintings output output') :
    Alike Abort.Coloured Workspace.Coloured (Workspace.openFile read path source r output)
      (Workspace.openFile read path source r' output') := by
  have hfound := sessionSource_ends hpath hsource
  unfold Workspace.openFile
  rw [hr.colours_eq.1, hr.colours_eq.2]
  generalize sessionSource read path source = found at hfound ⊢
  rcases found with e | ⟨name, text⟩
  · exact .error (SourceError.Clean.coloured hfound)
  · have htext : ∀ known ∈ some text, EscapeFree known := by simpa using hfound.2
    exact .ok ⟨rfl, .fresh hfound.1 hfound.2, hr.register hfound.1 htext, houtput⟩

namespace CommandLine

/-- What has come of some files with colours and without: both were done with or failed alike, the
reporters know the same files, and what was written is alike. -/
structure Coloured (ended ended' : Except Abort Unit × Reporter × List String) : Prop where
  /-- How it ended. -/
  result : Alike Abort.Coloured Eq ended.1 ended'.1
  /-- The reporters. -/
  reporter : ended.2.1.Coloured ended'.2.1
  /-- What was written. -/
  output : Paintings ended.2.2 ended'.2.2

section

variable {read : FileReader} {r r' : Reporter} {output output' : List String}

/-- A file without escapes is handled alike. -/
theorem coloured_handleFile (parseOnly : Bool) {path : String} (hpath : EscapeFree path)
    (hread : read.CleanAt path) (hr : r.Coloured r') (houtput : Paintings output output') :
    Coloured (handleFile read parseOnly path r output)
      (handleFile read parseOnly path r' output') := by
  have hstep : Work.Coloured (fun _ => True) (fileStep parseOnly) (fileStep parseOnly) := by
    cases parseOnly with
    | true => exact .bind Work.coloured_parse fun _ _ _ => Work.coloured_pure trivial
    | false => exact .bind Work.coloured_runProgram fun _ _ _ => Work.coloured_pure trivial
  have hnone : ∀ text ∈ (none : Option String), EscapeFree text := by simp
  have hnamed : ∀ name ∈ some path,
      EscapeFree name ∧ ((none : Option String) = none → read.CleanAt name) := by
    rintro _ ⟨⟩
    exact ⟨hpath, fun _ => hread⟩
  have hopened := coloured_openFile hnamed hnone hr houtput
  unfold handleFile
  generalize Workspace.openFile read (some path) none r output = opened at hopened ⊢
  generalize Workspace.openFile read (some path) none r' output' = opened' at hopened ⊢
  cases hopened with
  | error h => exact ⟨.error h, hr, houtput⟩
  | @ok w w' hw =>
    obtain ⟨hend, hleft⟩ := hstep w w' hw
    refine ⟨?_, hleft.reporter, hleft.output⟩
    change Alike Abort.Coloured Eq ((fileStep parseOnly).run w).1 ((fileStep parseOnly).run w').1
    generalize ((fileStep parseOnly).run w).1 = result at hend ⊢
    generalize ((fileStep parseOnly).run w').1 = result' at hend ⊢
    cases hend with
    | ok _ => exact .ok rfl
    | error h => exact .error h

/-- Files without escapes are handled alike. -/
theorem coloured_handleFiles (parseOnly : Bool) {paths : List String}
    (hpaths : ∀ path ∈ paths, EscapeFree path ∧ read.CleanAt path) (hr : r.Coloured r')
    (houtput : Paintings output output') :
    Coloured (handleFiles read parseOnly paths r output)
      (handleFiles read parseOnly paths r' output') := by
  induction paths generalizing r r' output output' with
  | nil => exact ⟨.ok rfl, hr, houtput⟩
  | cons path more ih =>
    obtain ⟨hpath, hmore⟩ := List.forall_mem_cons.1 hpaths
    have hfile := coloured_handleFile parseOnly hpath.1 hpath.2 hr houtput
    unfold handleFiles
    generalize handleFile read parseOnly path r output = ended at hfile ⊢
    generalize handleFile read parseOnly path r' output' = ended' at hfile ⊢
    obtain ⟨result, reporter, written⟩ := ended
    obtain ⟨result', reporter', written'⟩ := ended'
    obtain ⟨hend, hreporter, hwritten⟩ := hfile
    cases hend with
    | error h => exact ⟨.error h, hreporter, hwritten⟩
    | ok _ => exact ih hmore hreporter hwritten

end

end CommandLine

/-! ## Outcomes -/

/-- The first outcome is the second one with colours. -/
structure Outcome.Coloured (outcome outcome' : Outcome) : Prop where
  /-- The standard output. -/
  output : Paintings outcome.output outcome'.output
  /-- The standard error. -/
  errors : Painting outcome.errors outcome'.errors
  /-- The abort. -/
  abort : Option.Rel Abort.Coloured outcome.abort outcome'.abort

namespace CommandLine

/-- Both runs end alike. -/
theorem Coloured.conclude {ended ended' : Except Abort Unit × Reporter × List String}
    (h : Coloured ended ended') : (conclude ended).Coloured (conclude ended') := by
  obtain ⟨result, reporter, output⟩ := ended
  obtain ⟨result', reporter', output'⟩ := ended'
  obtain ⟨hend, hreporter, houtput⟩ := h
  cases hend with
  | ok _ => exact ⟨houtput, escapeFree_empty.painting, .none⟩
  | error habort =>
    obtain ⟨htexts, honward⟩ := hreporter.guard habort
    have houtputs := List.rel_append houtput htexts
    unfold CommandLine.conclude
    dsimp only
    exact ⟨houtputs, escapeFree_empty.painting, honward⟩

/-- The prompt runs alike over an input without escapes. -/
theorem coloured_runPrompt {input : String} (hinput : EscapeFree input) :
    (runPrompt true input).Coloured (runPrompt false input) := by
  have hlines : ∀ line ∈ inputLines input ++ [Command.endOfFile.word], EscapeFree line :=
    List.forall_mem_append.2 ⟨hinput.inputLines, List.forall_mem_singleton.2 (by decide)⟩
  have hintroduction : EscapeFree Shell.introduction := escapeFree_ofList.2 (by decide)
  have hsteps := ((Shell.Coloured.fresh (.fresh true)).write hintroduction).steps hlines
  unfold runPrompt Shell.run
  dsimp only
  refine Coloured.conclude ⟨hsteps.1, hsteps.2.workspace.reporter, hsteps.2.workspace.output⟩

/-- What is shown instead of a run has no escapes. -/
theorem coloured_refuse {refusal : Refusal} (h : refusal.Clean) :
    (refuse refusal).Coloured (refuse refusal) := by
  cases refusal with
  | help =>
    have hhelp : Paintings [Options.helpText] [Options.helpText] :=
      .cons Options.escapeFree_helpText.painting .nil
    exact ⟨hhelp, escapeFree_empty.painting, .some (.exit 0)⟩
  | misuse message =>
    exact ⟨.nil, (Options.escapeFree_misuseText h).painting, .some (.exit 2)⟩

/-- The arguments have no escapes, and neither have the files that they name or, if they name none,
the input. -/
def Clean (read : FileReader) (arguments : List String) (input : String) : Prop :=
  (∀ argument ∈ arguments, EscapeFree argument) ∧
    ∀ options, Options.parse arguments = .ok options →
      if options.files.isEmpty then EscapeFree input else ∀ path ∈ options.files, read.CleanAt path

/-- A command line without escapes runs alike with colours and without. -/
theorem coloured_run {read : FileReader} {arguments : List String} {input : String}
    (h : Clean read arguments input) :
    (run true read arguments input).Coloured (run false read arguments input) := by
  obtain ⟨harguments, htexts⟩ := h
  have hparse := Options.parse_ends harguments
  unfold run
  rcases hoptions : Options.parse arguments with refusal | options <;> rw [hoptions] at hparse
  · exact coloured_refuse hparse
  · have htexts := htexts options hoptions
    dsimp only
    split at htexts
    · next hempty =>
      rw [if_pos hempty, if_pos hempty]
      exact coloured_runPrompt htexts
    · next hsome =>
      rw [if_neg hsome, if_neg hsome]
      refine (coloured_handleFiles _ ?_ (.fresh true) .nil).conclude
      exact fun path hpath => ⟨harguments path (hparse hpath), htexts path hpath⟩

end CommandLine

end QLanguage
