import Mathlib.Data.List.Induction
import QLanguage.Proofs.Prompt.Commands
import QLanguage.Proofs.Prompt.Survival

/-!
# Lines that continue each other

Text that is held back is the text of the lines that have been entered: each of them stripped, with
single spaces between them, and without those that are blank (`lineText`). One more line is held
back with them as long as the text stays unclosed (`Shell.step_lineText`), so nothing happens before
the line that closes it. Then the whole text is taken as one line: it is added to the session, its
result is shown or what has ended it is reported, and nothing is held back any more.
-/

namespace QLanguage

open Step

/-! ## The text of lines -/

/-- The text of some lines: all that are not blank, stripped, with single spaces between them. -/
def lineText (lines : List String) : String :=
  " ".intercalate ((lines.map stripBlanks).filter fun text => !text.isEmpty)

/-- A row of texts that are not empty is empty only if it has none. -/
theorem intercalate_eq_empty {separator : String} {texts : List String}
    (htexts : ∀ text ∈ texts, text ≠ "") (h : separator.intercalate texts = "") : texts = [] := by
  cases texts with
  | nil => rfl
  | cons first more =>
    refine absurd ?_ (htexts first List.mem_cons_self)
    cases more with
    | nil => rwa [String.intercalate_singleton] at h
    | cons second more =>
      rw [String.intercalate_cons_cons, String.append_eq_empty_iff] at h
      exact (String.append_eq_empty_iff.mp h.1).1

/-- One more line is stripped and stands behind the others, unless it is blank. -/
theorem lineText_concat (lines : List String) (line : String) :
    lineText (lines ++ [line]) =
      if stripBlanks line = "" then lineText lines
      else if lineText lines = "" then stripBlanks line
      else lineText lines ++ " " ++ stripBlanks line := by
  have hsplit : ((lines ++ [line]).map stripBlanks).filter (fun text => !text.isEmpty) =
      (lines.map stripBlanks).filter (fun text => !text.isEmpty) ++
        [stripBlanks line].filter (fun text => !text.isEmpty) := by
    rw [List.map_append, List.filter_append]
    rfl
  have hsolid : ∀ text ∈ (lines.map stripBlanks).filter (fun text => !text.isEmpty),
      text ≠ "" := by
    intro text htext
    simpa [String.isEmpty_iff] using (List.mem_filter.mp htext).2
  unfold lineText
  rw [hsplit]
  generalize (lines.map stripBlanks).filter (fun text => !text.isEmpty) = texts at hsolid ⊢
  split
  · next hblank => rw [hblank]; exact congrArg _ (List.append_nil texts)
  · next hline =>
    have hkept : [stripBlanks line].filter (fun text => !text.isEmpty) = [stripBlanks line] := by
      simp [hline]
    rw [hkept]
    split
    · next hempty =>
      rw [intercalate_eq_empty hsolid hempty]
      exact String.intercalate_singleton
    · next hne =>
      have htexts : texts ≠ [] := by
        rintro rfl
        exact hne String.intercalate_nil
      rw [String.intercalate_append_of_ne_nil htexts (List.cons_ne_nil _ _),
        String.intercalate_singleton]

/-- The text of lines is stripped. -/
theorem stripped_lineText (lines : List String) : Stripped (lineText lines) := by
  induction lines using List.reverseRecOn with
  | nil => constructor <;> intro c hc <;> cases hc
  | append_singleton lines line ih =>
    rw [lineText_concat]
    split
    · exact ih
    · next hline =>
      split
      · exact stripped_stripBlanks line
      · next hne => exact ih.append (stripped_stripBlanks line) hne hline " "

/-- A stripped line behind the text of others, stripped as a whole, is the text of all of them. -/
theorem stripBlanks_lineText_append (lines : List String) (line : String) :
    stripBlanks (lineText lines ++ " " ++ stripBlanks line) = lineText (lines ++ [line]) := by
  by_cases hnone : lineText lines = ""
  · rw [lineText_concat, hnone, String.empty_append, stripBlanks_space_append,
      stripBlanks_stripBlanks, if_pos rfl]
    split
    · assumption
    · rfl
  · rw [lineText_concat, if_neg hnone]
    split
    · next hline =>
      -- The space that stands for a blank line is stripped again.
      rw [hline]
      refine stripBlanks_of_blanks [] [' '] (stripped_lineText lines) (by simp)
        (List.forall_mem_singleton.mpr (by decide)) ?_
      simp
    · next hline =>
      exact ((stripped_lineText lines).append (stripped_stripBlanks line) hnone hline
        " ").stripBlanks_eq

/-! ## Taking a line -/

/-- An unclosed text has a punctuation mark. -/
theorem exists_mem_of_isUnclosed {text : String} (h : isUnclosed text = true) :
    ∃ p : Punct, p.char ∈ text.toList := by
  simp only [isUnclosed, Bool.or_eq_true, decide_eq_true_eq] at h
  rcases h with hparen | hbrace
  · exact ⟨.openParen, List.count_pos_iff.mp (Nat.zero_lt_of_lt hparen)⟩
  · exact ⟨.openBrace, List.count_pos_iff.mp (Nat.zero_lt_of_lt hbrace)⟩

namespace Shell

variable {shell : Shell} {lines : List String} {line : String}

/-- The shell when a text is held back, and the prompt says so. -/
def holding (shell : Shell) (text : String) : Shell :=
  if text = "" then shell else { shell with pending := text, prompt := secondaryPrompt }

/-- A shell that has held nothing back holds back what it is made to. -/
theorem pending_holding (hpending : shell.pending = "") (text : String) :
    (shell.holding text).pending = text := by
  unfold holding
  split
  · next hempty => rw [hpending, hempty]
  · rfl

/-- What was held back before does not matter. -/
theorem holding_with (shell : Shell) (before : String) {text : String} (hne : text ≠ "") :
    { shell.holding before with pending := text, prompt := secondaryPrompt } =
      shell.holding text := by
  rw [holding, holding, if_neg hne]
  split <;> rfl

/-- Holding back a text does not touch the session. -/
theorem workspace_holding (shell : Shell) (text : String) :
    (shell.holding text).workspace = shell.workspace := by
  unfold holding
  split <;> rfl

/-- A blank line does nothing. -/
theorem step_blank (hblank : stripBlanks line = "") : shell.step line = (.ok false, shell) := by
  unfold step classifyLine
  rw [hblank]
  rfl

section

variable (hpending : shell.pending = lineText lines) (hne : stripBlanks line ≠ "")
  (hquestion : (stripBlanks line).toList.head? ≠ some '?')

include hpending hne hquestion

/-- A line is source text behind text that is held back, and else if it is no command. -/
theorem classifyLine_lineText
    (hcommand : lineText lines = "" →
      ∀ command topic text, classifyLine line false ≠ .command command topic text) :
    classifyLine line (!shell.pending.isEmpty) = .source (stripBlanks line) := by
  rw [classifyLine_eq_classifyWords hne hquestion]
  rcases classifyWords_cases (stripBlanks line) (!shell.pending.isEmpty) with
    hsource | ⟨hholding, command, topic, hwords⟩
  · exact hsource
  · have hnone : lineText lines = "" := by
      rw [Bool.not_eq_false', String.isEmpty_iff] at hholding
      rw [← hpending, hholding]
    refine absurd ?_ (hcommand hnone command topic (stripBlanks line))
    rw [classifyLine_eq_classifyWords hne hquestion, ← hholding, hwords]

/-- A line that is no command is entered with the text that is held back. -/
theorem step_eq_enter
    (hcommand : lineText lines = "" →
      ∀ command topic text, classifyLine line false ≠ .command command topic text) :
    shell.step line = ((shell.enter (stripBlanks line)).1.map fun _ => false,
      (shell.enter (stripBlanks line)).2) :=
  step_of_source (classifyLine_lineText hpending hne hquestion hcommand)

end

/-- While the text of the lines is unclosed, one more line is held back with it. -/
theorem step_lineText (hpending : shell.pending = "")
    (hquestion : (stripBlanks line).toList.head? ≠ some '?')
    (hopen : lineText (lines ++ [line]) ≠ "" → isUnclosed (lineText (lines ++ [line])) = true) :
    (shell.holding (lineText lines)).step line =
      (.ok false, shell.holding (lineText (lines ++ [line]))) := by
  have hheld := pending_holding hpending (lineText lines)
  by_cases hblank : stripBlanks line = ""
  · rw [step_blank hblank, lineText_concat, if_pos hblank]
  · have hne : lineText (lines ++ [line]) ≠ "" := by
      rw [lineText_concat, if_neg hblank]
      split
      · exact hblank
      · exact fun h => hblank (String.append_eq_empty_iff.mp h).2
    have hunclosed := hopen hne
    have hcommand : lineText lines = "" →
        ∀ command topic text, classifyLine line false ≠ .command command topic text := by
      intro hnone command topic text hclassify
      -- The line is unclosed on its own, and a bracket stands in no command.
      rw [lineText_concat, if_neg hblank, if_pos hnone, isUnclosed_stripBlanks] at hunclosed
      obtain ⟨p, hp⟩ := exists_mem_of_isUnclosed hunclosed
      rw [classifyLine_of_mem hblank hquestion hp (isCommandCharacter_mark.2 p)] at hclassify
      cases hclassify
    rw [step_eq_enter hheld hblank hquestion hcommand]
    unfold enter
    dsimp only
    rw [hheld, stripBlanks_lineText_append, if_pos hunclosed, holding_with shell _ hne]
    rfl

/-- Lines that leave their text unclosed are all held back, and nothing else happens. -/
theorem after_lineText (hpending : shell.pending = "")
    (hquestion : ∀ line ∈ lines, (stripBlanks line).toList.head? ≠ some '?')
    (hopen : ∀ front, front <+: lines → lineText front ≠ "" →
      isUnclosed (lineText front) = true) :
    shell.after lines = shell.holding (lineText lines) := by
  induction lines using List.reverseRecOn with
  | nil => rfl
  | append_singleton lines line ih =>
    have hlines := ih (fun line hline => hquestion line (List.mem_append_left _ hline))
      fun front hfront => hopen front (hfront.trans (List.prefix_append _ _))
    rw [after_append, hlines,
      step_lineText hpending (hquestion line (by simp)) (hopen _ List.prefix_rfl)]

end Shell

/-! ## Completing a text -/

/-- The workspace when its latest result, if there is one, has been shown and taken away. -/
def Workspace.shown (w : Workspace) : Workspace :=
  match w.session.results.getLast? with
  | none => w
  | some value =>
    { w with session := { w.session with results := w.session.results.dropLast } }.writing
      [value.source ++ "\n"]

/-- What the prompt makes of a line that has been added to its session. The latest result is shown;
what has ended the line is reported, and goes on if the reporter lets it. Nothing is held back, and
the prompt is that of a fresh line. -/
def Shell.concluded : Except Abort Unit × Workspace → Except Abort Bool × Shell
  | (.ok (), w) => (.ok false, ⟨w.shown, "", primaryPrompt⟩)
  | (.error abort, w) =>
    ((w.reporter.guard abort).2.elim (.ok false) .error,
      ⟨w.writing (w.reporter.guard abort).1, "", primaryPrompt⟩)

/-- A text is executed by adding it to the session and showing the latest result. -/
theorem Shell.run_execute_eq (text : String) (w : Workspace) :
    (execute text).run w =
      match (Work.addLine text).run w with
      | (.ok (), w') => (.ok (), w'.shown)
      | (.error abort, w') => (.error abort, w') := by
  unfold execute
  rcases hadd : (Work.addLine text).run w with ⟨abort | _, w'⟩
  · rw [run_bind_error hadd]
  · rw [run_bind_ok hadd, run_bind_ok (run_get w')]
    dsimp only
    unfold Workspace.shown
    rcases hresults : w'.session.results.getLast? with _ | value
    · rw [List.getLast?_eq_none_iff.mp hresults]
      rfl
    · have htake : Work.takeResult.run w' = (.ok value,
          { w' with session := { w'.session with results := w'.session.results.dropLast } }) := by
        unfold Work.takeResult
        rw [run_bind_ok (run_get w')]
        dsimp only
        rw [hresults]
        rfl
      have hsome : (!w'.session.results.isEmpty) = true := by
        rw [Bool.not_eq_true', List.isEmpty_eq_false_iff]
        rintro hnil
        rw [hnil] at hresults
        cases hresults
      rw [if_pos hsome, run_bind_ok htake]
      rfl

/-- Source text that completes the text that is held back is added to the session as one line. -/
theorem Shell.enter_of_closed {shell : Shell} {line text : String}
    (htext : stripBlanks (shell.pending ++ " " ++ line) = text) (hne : text ≠ "")
    (hclosed : isUnclosed text = false) :
    ((shell.enter line).1.map fun _ => false, (shell.enter line).2) =
      concluded ((Work.addLine text).run shell.workspace) := by
  have hopen : ¬isUnclosed text = true := by rw [hclosed]; exact Bool.false_ne_true
  have hempty : ¬text.isEmpty = true := by rwa [String.isEmpty_iff]
  unfold enter
  dsimp only
  rw [htext, if_neg hopen, if_neg hempty]
  have hexecute := run_execute_eq text shell.workspace
  rcases hadd : (Work.addLine text).run shell.workspace with ⟨abort | _, w⟩ <;>
    rw [hadd] at hexecute
  · unfold concluded
    dsimp only
    rw [Work.run_guarded_of_error hexecute]
    rcases (w.reporter.guard abort).2 with _ | onward <;> rfl
  · rw [Work.run_guarded_ok hexecute]
    rfl

/-- Showing a result takes the latest one away. -/
theorem Workspace.results_shown (w : Workspace) :
    w.shown.session.results = w.session.results.dropLast := by
  unfold Workspace.shown
  rcases hresults : w.session.results.getLast? with _ | value
  · change w.session.results = w.session.results.dropLast
    rw [List.getLast?_eq_none_iff.mp hresults]
    rfl
  · rfl

/-- Where no result was left, none is left of a line: its result is the one that is shown. -/
theorem Shell.results_concluded (text : String) {w : Workspace} (h : w.session.results = []) :
    (concluded ((Work.addLine text).run w)).2.workspace.session.results = [] := by
  rw [Work.run_addLine]
  split
  case h_1 abort hread => exact h
  case h_2 items hread =>
    generalize (Eval.declareAll nestingLimit items).run w.machine = result
    obtain ⟨halt | _, machine⟩ := result
    · exact h
    · change (((w.noting text).keeping machine).shown).session.results = []
      rw [Workspace.results_shown]
      exact congrArg List.dropLast h
  case h_3 e hread =>
    generalize (Eval.eval nestingLimit e).run w.machine = result
    obtain ⟨halt | value, machine⟩ := result
    · exact h
    · change ((((w.noting text).keeping machine).resulting value).shown).session.results = []
      rw [Workspace.results_shown]
      change (w.session.results ++ [value]).dropLast = []
      rw [List.dropLast_concat, h]

/-- Lines that continue each other add up to one line. Let nothing be held back, and let lines be
entered of which none starts with a question mark, with a last one that is not blank and, if all
before it are, no command. Let their text be unclosed up to each line but the last, and closed with
it. Then every line but the last is held back with those before it, or is blank, and nothing else
happens. The last line adds the text of all to the session as one line, shows its result or reports
what has ended it, and in any case nothing is held back and the prompt is that of a fresh line.
Where no result was left before, none is left behind. -/
theorem continued_lines_add_up {shell : Shell} (hpending : shell.pending = "")
    {before : List String} {last : String} (hlast : stripBlanks last ≠ "")
    (hquestion : ∀ line ∈ before ++ [last], (stripBlanks line).toList.head? ≠ some '?')
    (hcommand : lineText before = "" →
      ∀ command topic text, classifyLine last false ≠ .command command topic text)
    (hopen : ∀ front, front <+: before → lineText front ≠ "" →
      isUnclosed (lineText front) = true)
    (hclosed : isUnclosed (lineText (before ++ [last])) = false) :
    (∀ front line behind, before = front ++ line :: behind →
      (shell.after front).step line =
        (.ok false, shell.holding (lineText (front ++ [line])))) ∧
    (shell.after before).step last =
      Shell.concluded ((Work.addLine (lineText (before ++ [last]))).run shell.workspace) ∧
    (shell.after (before ++ [last])).pending = "" ∧
    (shell.after (before ++ [last])).prompt = Shell.primaryPrompt ∧
    (shell.workspace.session.results = [] →
      (shell.after (before ++ [last])).workspace.session.results = []) := by
  have hafter : ∀ front, front <+: before →
      shell.after front = shell.holding (lineText front) := by
    intro front hfront
    refine Shell.after_lineText hpending (fun line hline => hquestion line ?_)
      fun front' hfront' => hopen front' (hfront'.trans hfront)
    exact List.mem_append_left _ (hfront.subset hline)
  have hstep : (shell.after before).step last =
      Shell.concluded ((Work.addLine (lineText (before ++ [last]))).run shell.workspace) := by
    have hne : lineText (before ++ [last]) ≠ "" := by
      rw [lineText_concat, if_neg hlast]
      split
      · exact hlast
      · exact fun h => hlast (String.append_eq_empty_iff.mp h).2
    have hheld := Shell.pending_holding hpending (lineText before)
    have htext : stripBlanks ((shell.holding (lineText before)).pending ++ " " ++
        stripBlanks last) = lineText (before ++ [last]) := by
      rw [hheld, stripBlanks_lineText_append]
    rw [hafter before List.prefix_rfl,
      Shell.step_eq_enter hheld hlast (hquestion last (by simp)) hcommand,
      Shell.enter_of_closed htext hne hclosed, Shell.workspace_holding]
  have hconcluded : ∀ ending, (Shell.concluded ending).2.pending = "" ∧
      (Shell.concluded ending).2.prompt = Shell.primaryPrompt := by
    rintro ⟨abort | _, w⟩ <;> exact ⟨rfl, rfl⟩
  refine ⟨?_, hstep, ?_, ?_, ?_⟩
  · intro front line behind hbefore
    have hprefix : front ++ [line] <+: before := ⟨behind, by rw [hbefore]; simp⟩
    rw [hafter front ((List.prefix_append _ _).trans hprefix)]
    refine Shell.step_lineText hpending (hquestion line ?_) (hopen _ hprefix)
    rw [hbefore]
    simp
  · rw [Shell.after_append, hstep]
    exact (hconcluded _).1
  · rw [Shell.after_append, hstep]
    exact (hconcluded _).2
  · intro hresults
    rw [Shell.after_append, hstep]
    exact Shell.results_concluded _ hresults

/-- A call over three lines, with a blank line among them, is one call. It fails, since nothing has
the name, and still nothing is held back. -/
theorem continued_lines_add_up_call :
    ((Shell.fresh (.fresh true false) []).after ["f(", " ", " \"a\""]).step ")" =
        Shell.concluded
          ((Work.addLine "f( \"a\" )").run (.openPrompt (.fresh true false) [])) ∧
      ((Shell.fresh (.fresh true false) []).after ["f(", " ", " \"a\"", ")"]).pending = "" ∧
      ((Work.addLine "f( \"a\" )").run (.openPrompt (.fresh true false) [])).1 =
        .error (.ofEvalError false (.undefined "f")) := by
  have hpending : (Shell.fresh (.fresh true false) []).pending = "" := rfl
  have hlast : stripBlanks ")" ≠ "" := by decide
  have hquestion : ∀ line ∈ ["f(", " ", " \"a\""] ++ [")"],
      (stripBlanks line).toList.head? ≠ some '?' := by decide
  have hopen : ∀ front ∈ ["f(", " ", " \"a\""].inits, lineText front ≠ "" →
      isUnclosed (lineText front) = true := by decide
  have htext : lineText (["f(", " ", " \"a\""] ++ [")"]) = "f( \"a\" )" := by decide
  obtain ⟨-, hstep, hnone, -, -⟩ :=
    continued_lines_add_up hpending hlast hquestion
      (fun hempty => absurd hempty (by decide))
      (fun front hfront => hopen front ((List.mem_inits front _).mpr hfront)) (by decide)
  rw [htext] at hstep
  refine ⟨hstep, hnone, ?_⟩
  have hread : readLine "f( \"a\" )" = .ok (.expression (.call "f" [.string "a"])) := by
    decide +kernel
  have hmachine : (Workspace.openPrompt (.fresh true false) []).machine = .empty := rfl
  have hhalt : ((Eval.eval nestingLimit (.call "f" [.string "a"])).run .empty).1 =
      .error (.error (.undefined "f")) := by decide
  rw [Work.run_addLine, hread]
  dsimp only
  rw [hmachine]
  generalize (Eval.eval nestingLimit (.call "f" [.string "a"])).run .empty = result at hhalt ⊢
  obtain ⟨halt | value, machine⟩ := result <;> cases hhalt
  rfl

end QLanguage
