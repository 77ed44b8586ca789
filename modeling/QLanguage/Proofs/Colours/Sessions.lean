import QLanguage.Proofs.Colours.Programs
import QLanguage.Prompt.Shell

/-!
# Sessions with colours and without

A workspace with colours stands beside one without them: they have the same session, their reporters
know the same files, and what the first has written is what the second has written with paint on it
(`Workspace.Coloured`). Where no text at work has an escape, every step of a session keeps two
workspaces so, and both steps give the same result or are aborted alike. A step is put together of
steps that read, change and write, so this is shown once for each of these, and then for every
operation by going through its parts. Prompts are made of these operations, and they keep it line by
line.
-/

namespace QLanguage

open Step

/-! ## Workspaces -/

/-- No text of the session has an escape: not the source, nor what has been read of it, nor the
machine and the results. -/
structure Session.Clean (s : Session) : Prop where
  /-- The name of the source. -/
  path : EscapeFree s.path
  /-- The text of the source. -/
  source : EscapeFree s.source
  /-- The diagnostics. -/
  diagnostics : ∀ d ∈ s.diagnostics, d.Clean
  /-- The module. -/
  module? : ∀ m ∈ s.module?, ∀ d ∈ m.items, d.Texts EscapeFree
  /-- The machine. -/
  machine? : ∀ m ∈ s.machine?, m.Clean
  /-- The results. -/
  results : ∀ e ∈ s.results, e.Texts EscapeFree

namespace Session.Clean

variable {s : Session}

/-- A session of a source without escapes starts clean. -/
theorem fresh {path source : String} (hpath : EscapeFree path) (hsource : EscapeFree source) :
    (Session.fresh path source).Clean where
  path := hpath
  source := hsource
  diagnostics := by simp [Session.fresh]
  module? := by simp [Session.fresh]
  machine? := by simp [Session.fresh]
  results := by simp [Session.fresh]

/-- The machine of a clean session is clean. -/
theorem machine (h : s.Clean) : (s.machine?.getD .empty).Clean := by
  rcases hmachine : s.machine? with _ | m
  · exact .empty
  · exact h.machine? m hmachine

/-- A session may be read. -/
theorem reading (h : s.Clean) {parsed : Parsed} (hparsed : parsed.Clean) {ds : List Diagnostic}
    (hds : ∀ d ∈ ds, d.Clean) :
    Session.Clean { s with module? := some parsed.module, diagnostics := ds } where
  path := h.path
  source := h.source
  diagnostics := hds
  module? := by
    rintro _ ⟨⟩
    exact hparsed.items
  machine? := h.machine?
  results := h.results

/-- A session may keep a machine. -/
theorem keeping (h : s.Clean) {m : Machine} (hm : m.Clean) :
    Session.Clean { s with machine? := some m } where
  path := h.path
  source := h.source
  diagnostics := h.diagnostics
  module? := h.module?
  machine? := by
    rintro _ ⟨⟩
    exact hm
  results := h.results

/-- A session may have other results. -/
theorem resulting (h : s.Clean) {results : List Expr}
    (hresults : ∀ e ∈ results, e.Texts EscapeFree) :
    Session.Clean { s with results := results } where
  path := h.path
  source := h.source
  diagnostics := h.diagnostics
  module? := h.module?
  machine? := h.machine?
  results := hresults

end Session.Clean

/-- The first workspace is the second one with colours: the sessions are the same, and without
escapes. -/
structure Workspace.Coloured (w w' : Workspace) : Prop where
  /-- The sessions. -/
  session : w'.session = w.session
  /-- No text of the session has an escape. -/
  clean : w.session.Clean
  /-- The reporters. -/
  reporter : w.reporter.Coloured w'.reporter
  /-- What has been written. -/
  output : Paintings w.output w'.output

/-- Both steps go from workspaces with colours and without to such workspaces. They give the same
result, which has a property, or they are aborted alike. -/
abbrev Work.Coloured {α : Type} (P : α → Prop) (step step' : Work α) : Prop :=
  Relates Workspace.Coloured Abort.Coloured (SameWith P) step step'

namespace Work

/-! ## Parts of operations -/

/-- Steps that give the same result. -/
theorem coloured_pure {α : Type} {P : α → Prop} {a : α} (h : P a) :
    Coloured P (pure a : Work α) (pure a) :=
  .pure ⟨rfl, h⟩

/-- Aborts that depend on what the terminal is like. -/
theorem coloured_abort {α : Type} {P : α → Prop} {raised : Bool → Abort}
    (h : (raised true).Coloured (raised false)) :
    Coloured P (abort raised : Work α) (abort raised) := by
  refine .bind .get fun w w' hw => ?_
  rw [hw.reporter.colours_eq.1, hw.reporter.colours_eq.2]
  exact .throw h

/-- The result of a reading. -/
theorem coloured_ofReading {α : Type} {P : α → Prop} {result : Except Stop α}
    (h : Ends Stop.Clean P result) : Coloured P (ofReading result) (ofReading result) := by
  cases result with
  | ok a => exact coloured_pure h
  | error stop => exact coloured_abort (Abort.Coloured.ofStop h)

/-- The result of an evaluation. -/
theorem coloured_ofEvaluation {α : Type} {P : α → Prop} {result : Except Halt α}
    (h : Ends Halt.Clean P result) : Coloured P (ofEvaluation result) (ofEvaluation result) := by
  cases result with
  | ok a => exact coloured_pure h
  | error halt => exact coloured_abort (Abort.Coloured.ofHalt h)

/-- Changes of the workspace. -/
theorem coloured_modify {change change' : Workspace → Workspace}
    (h : ∀ w w', w.Coloured w' → (change w).Coloured (change' w')) :
    Coloured (fun _ => True) (modify change) (modify change') :=
  fun w w' hw => ⟨.ok ⟨rfl, trivial⟩, h w w' hw⟩

/-- Texts that are written. -/
theorem coloured_write {texts texts' : List String} (h : Paintings texts texts') :
    Coloured (fun _ => True) (write texts) (write texts') :=
  coloured_modify fun _ _ hw => ⟨hw.session, hw.clean, hw.reporter, List.rel_append hw.output h⟩

/-- A change of the session. -/
theorem coloured_modifySession {change : Session → Session}
    (h : ∀ s, s.Clean → (change s).Clean) :
    Coloured (fun _ => True) (modifySession change) (modifySession change) :=
  coloured_modify fun _ _ hw => ⟨congrArg change hw.session, h _ hw.clean, hw.reporter, hw.output⟩

/-- A machine that is kept. -/
theorem coloured_keepMachine {m : Machine} (hm : m.Clean) :
    Coloured (fun _ => True) (keepMachine m) (keepMachine m) :=
  .bind (coloured_write (.cons hm.output.painting .nil)) fun _ _ _ =>
    coloured_modifySession fun _ hs => hs.keeping hm.flushed

/-- An evaluation on a machine. -/
theorem coloured_evaluate {α : Type} {P : α → Prop} {m : Machine} {step : Eval α}
    (hstep : Maintains Machine.Clean Halt.Clean P step) (hm : m.Clean) :
    Coloured P (evaluate m step) (evaluate m step) := by
  obtain ⟨hend, hmachine⟩ := maintains_iff.1 hstep m hm
  unfold evaluate
  generalize step.run m = ended at hend hmachine
  obtain ⟨result, machine⟩ := ended
  exact .bind (coloured_keepMachine hmachine) fun _ _ _ => coloured_ofEvaluation hend

/-- Warnings. -/
theorem coloured_warnOfHidden (items : List Declaration) :
    Coloured (fun _ => True) (warnOfHidden items) (warnOfHidden items) := by
  have hwarn : Coloured (fun _ => True)
      (warn "'\x7b\x7d' is a built-in, calls will not reach this declaration" [printName])
      (warn "'\x7b\x7d' is a built-in, calls will not reach this declaration" [printName]) := by
    refine .bind .get fun w w' hw => ?_
    dsimp only
    rw [Abort.note_hidden, Abort.note_hidden, hw.reporter.colours_eq.1, hw.reporter.colours_eq.2]
    exact coloured_write (hw.reporter.report (.mk _ painting_hiddenMessage) .warning)
  induction items with
  | nil => exact coloured_pure trivial
  | cons d ds ih =>
    unfold warnOfHidden
    split
    · next hname =>
      rw [hname]
      exact .bind hwarn fun _ _ _ => ih
    · exact ih

/-! ## Operations -/

/-- Reading a source. -/
theorem coloured_parse : Coloured (fun m => ∀ d ∈ m.items, d.Texts EscapeFree) parse parse := by
  refine .bind .get fun w w' hw => ?_
  rw [hw.session]
  refine .bind (coloured_ofReading (hw.clean.source.parseModule _ _)) ?_
  rintro _ parsed ⟨rfl, hparsed⟩
  have hds := List.forall_mem_append.2 ⟨hw.clean.diagnostics, hparsed.diagnostics⟩
  have hrest : Coloured (fun m : Module => ∀ d ∈ m.items, d.Texts EscapeFree)
      (do warnOfHidden parsed.module.items; return parsed.module)
      (do warnOfHidden parsed.module.items; return parsed.module) :=
    .bind (coloured_warnOfHidden _) fun _ _ _ => coloured_pure hparsed.items
  refine .bind (coloured_modifySession fun s hs => hs.reading hparsed hds) fun _ _ _ => ?_
  dsimp only
  split
  · next hsome =>
    have hraised := Abort.Coloured.ofDiagnostics hw.clean.path (by simpa using hsome) hds
    exact .bind (coloured_abort (P := fun _ : Unit => True) hraised) fun _ _ _ => hrest
  · exact hrest

/-- Loading a module. -/
theorem coloured_load {m : Module} (hm : ∀ d ∈ m.items, d.Texts EscapeFree) :
    Coloured Machine.Clean (load m) (load m) := by
  have hforced := parallel_clean.forceAll nestingLimit fun d hd => (hm d hd).1
  obtain ⟨hend, hmachine⟩ := maintains_iff.1 hforced _ (Machine.Clean.start hm)
  unfold load Machine.load
  generalize (Eval.forceAll nestingLimit m.items).run (Machine.start m.items) = loaded
    at hend hmachine
  obtain ⟨halt | _, machine⟩ := loaded
  · exact .bind (coloured_write (.cons hmachine.output.painting .nil)) fun _ _ _ =>
      coloured_abort (Abort.Coloured.ofHalt hend)
  · exact .bind (coloured_keepMachine hmachine) fun _ _ _ => coloured_pure hmachine.flushed

/-- Running a module. -/
theorem coloured_runModule {m : Module} (hm : ∀ d ∈ m.items, d.Texts EscapeFree) :
    Coloured (Expr.Texts EscapeFree) (runModule m) (runModule m) := by
  have hentry : (Expr.call entryName [.string greeting]).Texts EscapeFree := by
    simp only [Expr.Texts, Expr.AllTexts]
    decide
  refine .bind (coloured_load hm) ?_
  rintro _ machine ⟨rfl, hmachine⟩
  refine .bind (coloured_evaluate (parallel_clean.eval nestingLimit hentry) hmachine) ?_
  rintro _ value ⟨rfl, hvalue⟩
  refine .bind (coloured_modifySession fun s hs => hs.resulting ?_) fun _ _ _ => ?_
  · exact List.forall_mem_append.2 ⟨hs.results, List.forall_mem_singleton.2 hvalue⟩
  · refine .bind (coloured_modify fun w w' hw => ?_) fun _ _ _ => coloured_pure hvalue
    exact ⟨hw.session, hw.clean, hw.session ▸ hw.reporter.remove _, hw.output⟩

/-- Running a program. -/
theorem coloured_runProgram : Coloured (Expr.Texts EscapeFree) runProgram runProgram := by
  intro w w' hw
  rcases hmodule : w.session.module? with _ | m
  · have hmodule' : w'.session.module? = none := by rwa [hw.session]
    rw [run_runProgram_unread hmodule, run_runProgram_unread hmodule']
    refine Relates.bind coloured_parse ?_ w w' hw
    rintro _ m ⟨rfl, hm⟩
    exact coloured_runModule hm
  · have hmodule' : w'.session.module? = some m := by rwa [hw.session]
    rw [run_runProgram_read hmodule, run_runProgram_read hmodule']
    exact coloured_runModule (hw.clean.module? m hmodule) w w' hw

/-- Taking a line. -/
theorem coloured_addLine {line : String} (hline : EscapeFree line) :
    Coloured (fun _ => True) (addLine line) (addLine line) := by
  refine .bind .get fun w w' hw => ?_
  rw [hw.session]
  have hmachine := hw.clean.machine
  refine .bind (coloured_modifySession fun s hs => hs.keeping hmachine) fun _ _ _ => ?_
  refine .bind (coloured_modify fun w w' hw => ?_) fun _ _ _ => ?_
  · have hsource : ∀ text ∈ some line, EscapeFree text := by simpa using hline
    exact ⟨hw.session, hw.clean, hw.reporter.register (by decide) hsource, hw.output⟩
  refine .bind (coloured_ofReading hline.isDeclaration) ?_
  rintro _ declares ⟨rfl, -⟩
  cases declares with
  | true =>
    have hname : EscapeFree promptName := by decide
    refine .bind (coloured_ofReading (hline.parseModule nestingLimit promptName)) ?_
    rintro _ parsed ⟨rfl, hparsed⟩
    have hevaluated := coloured_evaluate
      (parallel_clean.declareAll nestingLimit fun d hd => (hparsed.items d hd).2) hmachine
    dsimp only
    split
    · next hsome =>
      have hraised := Abort.Coloured.ofDiagnostics hname (by simpa using hsome)
        hparsed.diagnostics
      exact .bind (coloured_abort (P := fun _ : Unit => True) hraised) fun _ _ _ => hevaluated
    · exact hevaluated
  | false =>
    refine .bind (coloured_ofReading (hline.parseExpression nestingLimit)) ?_
    rintro _ e ⟨rfl, he⟩
    refine .bind (coloured_evaluate (parallel_clean.eval nestingLimit he) hmachine) ?_
    rintro _ value ⟨rfl, hvalue⟩
    refine coloured_modifySession fun s hs => hs.resulting ?_
    exact List.forall_mem_append.2 ⟨hs.results, List.forall_mem_singleton.2 hvalue⟩

/-- Taking the latest result. -/
theorem coloured_takeResult : Coloured (Expr.Texts EscapeFree) takeResult takeResult := by
  refine .bind .get fun w w' hw => ?_
  rw [hw.session]
  dsimp only
  split
  · refine .throw (.failure ?_ ?_ ?_)
    · exact ⟨braceless_ofList.2 (by decide), braceless_ofList.2 (by decide)⟩
    · exact escapeFree_ofList.2 (by decide)
    · exact escapeFree_ofList.2 (by decide)
  · next result hlast =>
    have hresult := hw.clean.results _ (List.mem_of_getLast? hlast)
    refine .bind (coloured_modifySession fun s hs => hs.resulting ?_) fun _ _ _ =>
      coloured_pure hresult
    exact fun e he => hw.clean.results e (List.mem_of_mem_dropLast he)

/-- Steps under the reporter. -/
theorem Coloured.guarded {α : Type} {P : α → Prop} {step step' : Work α}
    (hstep : Coloured P step step') :
    Coloured (fun result => ∀ a ∈ result, P a) (guarded step) (guarded step') := by
  refine .tryCatch (.bind hstep ?_) fun abort abort' habort => ?_
  · rintro _ a ⟨rfl, ha⟩
    exact coloured_pure (by simpa using ha)
  · refine .bind .get fun w w' hw => ?_
    obtain ⟨htexts, honward⟩ := hw.reporter.guard habort
    dsimp only
    refine .bind (coloured_write htexts) fun _ _ _ => ?_
    generalize (w.reporter.guard abort).2 = onward at honward
    generalize (w'.reporter.guard abort').2 = onward' at honward
    cases honward with
    | some h => exact .throw h
    | none => exact coloured_pure (by simp)

end Work

/-! ## Prompts -/

/-- Executing a text. -/
theorem Shell.coloured_execute {line : String} (hline : EscapeFree line) :
    Work.Coloured (fun _ => True) (execute line) (execute line) := by
  refine .bind (Work.coloured_addLine hline) fun _ _ _ => .bind .get fun w w' hw => ?_
  rw [hw.session]
  split
  · refine .bind Work.coloured_takeResult ?_
    rintro _ result ⟨rfl, hresult⟩
    have hshown : EscapeFree (result.source ++ "\n") :=
      escapeFree_append.2 ⟨hresult.escapeFree_source, by decide⟩
    exact Work.coloured_write (.cons hshown.painting .nil)
  · exact Work.coloured_pure trivial

/-- The prompt of a fresh line has no escapes. -/
theorem Shell.escapeFree_primaryPrompt : EscapeFree primaryPrompt := by decide

/-- The prompt of a line that continues held back text has no escapes. -/
theorem Shell.escapeFree_secondaryPrompt : EscapeFree secondaryPrompt := by decide

/-- The help text has no escapes. -/
theorem Shell.escapeFree_helpText : EscapeFree helpText := by
  unfold helpText
  simp only [escapeFree_append]
  and_intros <;> exact escapeFree_ofList.2 (by decide)

/-- What a line without escapes gives as source text has none. -/
theorem EscapeFree.classifyLine {line : String} (h : EscapeFree line) {holding : Bool}
    {text : String} (htext : classifyLine line holding = .source text) : EscapeFree text := by
  have hwords : ∀ {words : String}, EscapeFree words → classifyWords words holding = .source text →
      EscapeFree text := by
    intro words hwords hsource
    unfold classifyWords at hsource
    dsimp only at hsource
    split at hsource
    · split at hsource <;> cases hsource
      exact hwords
    · cases hsource
      exact hwords
  unfold QLanguage.classifyLine at htext
  dsimp only at htext
  split at htext
  · cases htext
  · next rest hline =>
    refine hwords ?_ htext
    have hrest : EscapeFree (String.ofList rest) :=
      h.stripBlanks.ofList fun c hc => hline ▸ List.mem_cons_of_mem _ hc
    exact escapeFree_append.2 ⟨by decide, hrest⟩
  · cases htext
    exact h.stripBlanks
  · exact hwords h.stripBlanks htext

/-- The first prompt is the second one with colours: the same text is held back, and the prompt for
the next line is the same. -/
structure Shell.Coloured (shell shell' : Shell) : Prop where
  /-- The sessions. -/
  workspace : shell.workspace.Coloured shell'.workspace
  /-- The text that is held back. -/
  pending : shell'.pending = shell.pending
  /-- The text that is held back has no escapes. -/
  cleanPending : EscapeFree shell.pending
  /-- The prompt for the next line. -/
  prompt : shell'.prompt = shell.prompt
  /-- The prompt for the next line has no escapes. -/
  cleanPrompt : EscapeFree shell.prompt

namespace Shell.Coloured

variable {shell shell' : Shell}

/-- A fresh prompt. -/
theorem fresh {r r' : Reporter} (hr : r.Coloured r') :
    (Shell.fresh r []).Coloured (.fresh r' []) where
  workspace := {
    session := rfl
    clean := .fresh (by decide) escapeFree_empty
    reporter := hr.unfatal.register (by decide) (by simp [escapeFree_empty])
    output := .nil }
  pending := rfl
  cleanPending := escapeFree_empty
  prompt := rfl
  cleanPrompt := Shell.escapeFree_primaryPrompt

/-- Text may be written. -/
theorem write (h : shell.Coloured shell') {text : String} (htext : EscapeFree text) :
    (shell.write text).Coloured (shell'.write text) where
  workspace := ⟨h.workspace.session, h.workspace.clean, h.workspace.reporter,
    List.rel_append h.workspace.output (.cons htext.painting .nil)⟩
  pending := h.pending
  cleanPending := h.cleanPending
  prompt := h.prompt
  cleanPrompt := h.cleanPrompt

/-- Source text is taken alike. -/
theorem enter (h : shell.Coloured shell') {text : String} (htext : EscapeFree text) :
    Alike Abort.Coloured Eq (shell.enter text).1 (shell'.enter text).1 ∧
      (shell.enter text).2.Coloured (shell'.enter text).2 := by
  have hline : EscapeFree (stripBlanks (shell.pending ++ " " ++ text)) := by
    refine EscapeFree.stripBlanks ?_
    exact escapeFree_append.2 ⟨escapeFree_append.2 ⟨h.cleanPending, by decide⟩, htext⟩
  unfold Shell.enter
  rw [h.pending]
  dsimp only
  split
  · exact ⟨.ok rfl, h.workspace, rfl, hline, rfl, Shell.escapeFree_secondaryPrompt⟩
  · split
    · exact ⟨.ok rfl, h.workspace, rfl, escapeFree_empty, rfl, Shell.escapeFree_primaryPrompt⟩
    · rcases (Shell.coloured_execute hline).guarded.run_cases h.workspace with
        ⟨a, a', w, w', hrun, hrun', -, hw⟩ | ⟨e, e', w, w', hrun, hrun', he, hw⟩ <;>
        rw [hrun, hrun']
      · exact ⟨.ok rfl, hw, rfl, escapeFree_empty, rfl, Shell.escapeFree_primaryPrompt⟩
      · exact ⟨.error he, hw, rfl, escapeFree_empty, rfl, Shell.escapeFree_primaryPrompt⟩

/-- Source text is taken alike, also as the end of a step that does not leave the prompt. -/
theorem entered (h : shell.Coloured shell') {text : String} (htext : EscapeFree text) :
    Alike Abort.Coloured Eq ((shell.enter text).1.map fun _ => false)
        ((shell'.enter text).1.map fun _ => false) ∧
      (shell.enter text).2.Coloured (shell'.enter text).2 := by
  have hentered := h.enter htext
  generalize shell.enter text = entered at hentered ⊢
  generalize shell'.enter text = entered' at hentered ⊢
  obtain ⟨result, next⟩ := entered
  obtain ⟨result', next'⟩ := entered'
  obtain ⟨hend, hnext⟩ := hentered
  refine ⟨?_, hnext⟩
  cases hend with
  | ok _ => exact .ok rfl
  | error he => exact .error he

/-- A line is taken alike. -/
theorem step (h : shell.Coloured shell') {line : String} (hline : EscapeFree line) :
    Alike Abort.Coloured Eq (shell.step line).1 (shell'.step line).1 ∧
      (shell.step line).2.Coloured (shell'.step line).2 := by
  unfold Shell.step
  rw [h.pending]
  rcases hsource : classifyLine line (!shell.pending.isEmpty) with _ | ⟨command, _, _⟩ | text
  · exact ⟨.ok rfl, h⟩
  · cases command with
    | exit => exact ⟨.ok rfl, h⟩
    | endOfFile => exact ⟨.ok rfl, h.write (by decide)⟩
    | help => exact ⟨.ok rfl, h.write Shell.escapeFree_helpText⟩
  · dsimp only
    exact h.entered (hline.classifyLine hsource)

/-- Lines are taken alike. -/
theorem steps (h : shell.Coloured shell') {lines : List String}
    (hlines : ∀ line ∈ lines, EscapeFree line) :
    Alike Abort.Coloured Eq (shell.steps lines).1 (shell'.steps lines).1 ∧
      (shell.steps lines).2.Coloured (shell'.steps lines).2 := by
  induction lines generalizing shell shell' with
  | nil => exact ⟨.ok rfl, h⟩
  | cons line more ih =>
    obtain ⟨hline, hmore⟩ := List.forall_mem_cons.1 hlines
    obtain ⟨hend, hnext⟩ := (h.write h.cleanPrompt).step hline
    unfold Shell.steps
    rw [h.prompt]
    generalize (shell.write shell.prompt).step line = taken at hend hnext
    generalize (shell'.write shell.prompt).step line = taken' at hend hnext
    obtain ⟨result, next⟩ := taken
    obtain ⟨result', next'⟩ := taken'
    cases hend with
    | error he => exact ⟨.error he, hnext⟩
    | @ok left _ heq =>
      subst heq
      cases left with
      | true => exact ⟨.ok rfl, hnext⟩
      | false => exact ih hnext hmore

end Shell.Coloured

end QLanguage
