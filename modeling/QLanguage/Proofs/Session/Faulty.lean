import Mathlib.Data.List.Basic
import QLanguage.Proofs.Session.Runs

/-!
# Sessions of a source with diagnostics

A caller who catches what a session raises may call it again. When the source has diagnostics, the
first call raises them, and so does every call that reads the source. But the first call has left
the module in the session, with the declarations that could be read, and a run that finds a module
does not read the source: from the second call on, every run loads that module and calls its entry.
So the program is kept from running exactly when no call but the first is a run, and there are
sources whose second run prints and succeeds.
-/

namespace QLanguage

open Step

/-! ## Calls of a session -/

/-- What the caller of a session for files asks for. -/
inductive SessionCall where
  /-- To read the source. -/
  | parse
  /-- To run the program. -/
  | run
deriving DecidableEq

/-- What a call does. -/
def SessionCall.step : SessionCall → Work Unit
  | .parse => do let _ ← Work.parse
  | .run => do let _ ← Work.runProgram

namespace Workspace

/-- The workspace after some calls, each of them made whatever became of those before. -/
def after (w : Workspace) (calls : List SessionCall) : Workspace :=
  calls.foldl (fun w call => (call.step.run w).2) w

/-- No call of a sequence runs the program: each of them raises diagnostics of the source, and
leaves no machine, no result and nothing written. -/
def KeptFromRunning (w : Workspace) (calls : List SessionCall) : Prop :=
  ∀ before call later, calls = before ++ call :: later →
    (∃ diagnostics, diagnostics ≠ [] ∧ (call.step.run (w.after before)).1 =
      .error (.ofDiagnostics (w.after before).reporter.colours w.session.path diagnostics)) ∧
    (w.after (before ++ [call])).session.machine? = none ∧
    (w.after (before ++ [call])).session.results = [] ∧
    (w.after (before ++ [call])).output = w.output

/-- The source of the session and what has been read of it are the same. -/
structure SameSource (w w' : Workspace) : Prop where
  /-- The source has its name. -/
  path : w'.session.path = w.session.path
  /-- The source has its text. -/
  source : w'.session.source = w.session.source
  /-- The module is the same, or there is none. -/
  module? : w'.session.module? = w.session.module?

instance : Std.Refl SameSource := ⟨fun _ => ⟨rfl, rfl, rfl⟩⟩

instance : Trans SameSource SameSource SameSource where
  trans h h' := ⟨h'.path.trans h.path, h'.source.trans h.source, h'.module?.trans h.module?⟩

end Workspace

/-! ## Running a module that has been read -/

namespace Work

variable {w w' : Workspace}

/-- Loading a module does not touch the source. -/
theorem keeps_load (m : Module) : Keeps Workspace.SameSource (load m) := by
  intro w
  rw [run_load]
  rcases Machine.load nestingLimit m with ⟨halt | _, machine⟩ <;> exact ⟨rfl, rfl, rfl⟩

/-- Evaluating does not touch the source. -/
theorem keeps_evaluate {α : Type} (machine : Machine) (step : Eval α) :
    Keeps Workspace.SameSource (evaluate machine step) := by
  intro w
  rw [run_evaluate]
  exact ⟨rfl, rfl, rfl⟩

/-- Running a module does not touch the source. -/
theorem keeps_runModule (m : Module) : Keeps Workspace.SameSource (runModule m) :=
  Keeps.bind (keeps_load m) fun machine =>
    Keeps.bind (keeps_evaluate machine _) fun _ =>
      Keeps.bind (fun _ => ⟨rfl, rfl, rfl⟩) fun _ =>
        Keeps.bind (fun _ => ⟨rfl, rfl, rfl⟩) fun _ => Keeps.pure _

/-- What ends the running of a module early is an evaluation. -/
theorem exists_halt_of_run_runModule {m : Module} {abort : Abort}
    (h : (runModule m).run w = (.error abort, w')) :
    ∃ halt, abort = .ofHalt w.reporter.colours halt := by
  rw [run_runModule] at h
  split at h
  case h_1 halt machine hload =>
    cases h
    exact ⟨halt, rfl⟩
  case h_2 machine hload =>
    split at h
    case h_1 halt last hcall =>
      cases h
      exact ⟨halt, rfl⟩
    case h_2 => cases h

end Work

/-! ## A source with diagnostics -/

/-- The source of the session is read with diagnostics. -/
structure Workspace.Faulty (w : Workspace) (parsed : Parsed) : Prop where
  /-- What is read. -/
  reads : parseModule nestingLimit w.session.path w.session.source = .ok parsed
  /-- There are diagnostics. -/
  diagnosed : parsed.diagnostics ≠ []

namespace Workspace.Faulty

variable {w w' : Workspace} {parsed : Parsed} {call : SessionCall}

/-- A source has its diagnostics as long as it is the same. -/
theorem same (h : w.Faulty parsed) (hsame : w.SameSource w') : w'.Faulty parsed where
  reads := by
    rw [hsame.path, hsame.source]
    exact h.reads
  diagnosed := h.diagnosed

/-- A source that has been read keeps its diagnostics. -/
theorem reading (h : w.Faulty parsed) : (w.reading parsed).Faulty parsed := ⟨h.reads, h.diagnosed⟩

/-- A call that reads the source raises diagnostics, and leaves the module in the session. -/
theorem run_reads (h : w.Faulty parsed) (call : SessionCall)
    (hcall : call = .parse ∨ w.session.module? = none) :
    ∃ diagnostics, diagnostics ≠ [] ∧ call.step.run w =
      (.error (.ofDiagnostics w.reporter.colours w.session.path diagnostics),
        w.reading parsed) := by
  have hnonempty : w.session.diagnostics ++ parsed.diagnostics ≠ [] :=
    List.append_ne_nil_of_right_ne_nil _ h.diagnosed
  have hparse := Work.run_parse_faulty h.reads hnonempty
  refine ⟨_, hnonempty, ?_⟩
  cases call with
  | parse => exact run_bind_error hparse
  | run =>
    have hunread : w.session.module? = none := hcall.resolve_left SessionCall.noConfusion
    exact run_bind_error (Work.run_runProgram_faulty hunread hparse)

/-- A run that finds a module does not read the source. -/
theorem run_run_read (h : w.session.module? = some parsed.module) :
    SessionCall.run.step.run w = (do let _ ← Work.runModule parsed.module : Work Unit).run w := by
  rw [SessionCall.step, run_bind, run_bind, Work.run_runProgram_read h]

/-- Once the source has been read, no call changes what has been read of it. -/
theorem sameSource_step (h : w.Faulty parsed) (hread : w.session.module? = some parsed.module)
    (call : SessionCall) : w.SameSource (call.step.run w).2 := by
  cases call with
  | parse =>
    obtain ⟨diagnostics, -, hrun⟩ := h.run_reads .parse (.inl rfl)
    rw [hrun]
    exact ⟨rfl, rfl, hread.symm⟩
  | run =>
    rw [run_run_read hread]
    exact Keeps.bind (Work.keeps_runModule parsed.module) (fun _ => Keeps.pure _) w

/-- Nor do any calls in a row. -/
theorem sameSource_after (h : w.Faulty parsed) (hread : w.session.module? = some parsed.module)
    (calls : List SessionCall) : w.SameSource (w.after calls) := by
  induction calls generalizing w with
  | nil => exact Std.Refl.refl w
  | cons call calls ih =>
    have hstep := h.sameSource_step hread call
    exact Trans.trans hstep (ih (h.same hstep) (hstep.module?.trans hread))

/-- The first call of all reads the source, whatever it asks for. -/
theorem after_cons (h : w.Faulty parsed) (hunread : w.session.module? = none) (call : SessionCall)
    (calls : List SessionCall) : w.after (call :: calls) = (w.reading parsed).after calls := by
  obtain ⟨diagnostics, -, hrun⟩ := h.run_reads call (.inr hunread)
  change (call.step.run w).2.after calls = _
  rw [hrun]

/-- Calls that read the source change neither the machine nor the results, and write nothing. -/
theorem after_parses (h : w.Faulty parsed) {calls : List SessionCall}
    (hcalls : ∀ call ∈ calls, call = .parse) :
    (w.after calls).session.machine? = w.session.machine? ∧
      (w.after calls).session.results = w.session.results ∧
      (w.after calls).output = w.output := by
  induction calls generalizing w with
  | nil => exact ⟨rfl, rfl, rfl⟩
  | cons call calls ih =>
    obtain ⟨hcall, hcalls⟩ := List.forall_mem_cons.1 hcalls
    obtain ⟨diagnostics, -, hrun⟩ := h.run_reads call (.inl hcall)
    change ((call.step.run w).2.after calls).session.machine? = _ ∧
      ((call.step.run w).2.after calls).session.results = _ ∧
      ((call.step.run w).2.after calls).output = _
    rw [hrun]
    exact ih h.reading hcalls

/-- Behind any call, a run loads the module and calls its entry. -/
theorem run_run_after (h : w.Faulty parsed) (hunread : w.session.module? = none)
    {before : List SessionCall} (hbefore : before ≠ []) :
    SessionCall.run.step.run (w.after before) =
      (do let _ ← Work.runModule parsed.module : Work Unit).run (w.after before) := by
  obtain ⟨first, more, rfl⟩ := List.exists_cons_of_ne_nil hbefore
  rw [h.after_cons hunread]
  exact run_run_read (h.reading.sameSource_after rfl more).module?

/-- As long as the calls behind the first one read the source, the program does not run. -/
theorem keptFromRunning {path source : String} (h : w.Faulty parsed)
    (hsession : w.session = .fresh path source) {calls : List SessionCall}
    (hcalls : ∀ call ∈ calls.tail, call = .parse) : w.KeptFromRunning calls := by
  have hunread : w.session.module? = none := by
    rw [hsession]
    rfl
  have hmachine : w.session.machine? = none := by
    rw [hsession]
    rfl
  have hresults : w.session.results = [] := by
    rw [hsession]
    rfl
  rintro before call later rfl
  cases before with
  | nil =>
    obtain ⟨diagnostics, hsome, hrun⟩ := h.run_reads call (.inr hunread)
    refine ⟨⟨diagnostics, hsome, congrArg Prod.fst hrun⟩, ?_⟩
    rw [List.nil_append, h.after_cons hunread]
    exact ⟨hmachine, hresults, rfl⟩
  | cons first more =>
    have hparses : ∀ c ∈ more ++ [call], c = .parse := by
      intro c hc
      refine hcalls c ?_
      change c ∈ more ++ call :: later
      rw [List.append_cons]
      exact List.mem_append_left _ hc
    have hcall : call = .parse := hparses call (List.mem_append_right _ List.mem_cons_self)
    have hsame := h.reading.sameSource_after rfl more
    obtain ⟨diagnostics, hsome, hrun⟩ := (h.reading.same hsame).run_reads call (.inl hcall)
    obtain ⟨hmachine', hresults', houtput⟩ := h.reading.after_parses hparses
    rw [h.after_cons hunread, List.cons_append, h.after_cons hunread]
    refine ⟨⟨diagnostics, hsome, ?_⟩, hmachine'.trans hmachine, hresults'.trans hresults, houtput⟩
    rw [hrun, hsame.path]
    rfl

end Workspace.Faulty

/-- The name and the text that a session for files is opened with are those of its source, which has
not been read. -/
theorem session_of_openFile {read : FileReader} {path source : String} {reporter : Reporter}
    {output : List String} {w : Workspace}
    (h : Workspace.openFile read (some path) (some source) reporter output = .ok w) :
    w.session = .fresh path source := by
  by_cases hname : (path == promptName) = true
  · rw [Workspace.openFile, sessionSource, if_pos hname] at h
    cases h
  · rw [Workspace.openFile, sessionSource, if_neg hname] at h
    cases h
    rfl

/-- Nothing keeps a program from running that has been read, so diagnostics do not end its run. -/
theorem Work.run_runModule_ne (m : Module) (w : Workspace) (colours : Bool) (path : String)
    (diagnostics : List Diagnostic) :
    ((do let _ ← runModule m : Work Unit).run w).1 ≠
      .error (.ofDiagnostics colours path diagnostics) := by
  rw [Abort.ofDiagnostics_eq]
  intro h
  rcases hrun : (runModule m).run w with ⟨abort | result, w'⟩
  · rw [run_bind_error hrun] at h
    obtain ⟨halt, rfl⟩ := exists_halt_of_run_runModule hrun
    cases halt with
    | error e =>
      rw [Abort.ofHalt, Abort.ofEvalError_eq] at h
      cases h
    | tooDeep => cases h
  · rw [run_bind_ok hrun] at h
    cases h

/-- A program whose source has diagnostics is kept from running exactly when no call but the first
is a run: every run behind another call runs the declarations that could be read. -/
theorem kept_from_running_iff {read : FileReader} {path source : String} {reporter : Reporter}
    {output : List String} {w : Workspace} {parsed : Parsed}
    (hopen : Workspace.openFile read (some path) (some source) reporter output = .ok w)
    (hreads : parseModule nestingLimit path source = .ok parsed)
    (hdiagnosed : parsed.diagnostics ≠ []) (calls : List SessionCall) :
    (w.KeptFromRunning calls ↔ ∀ call ∈ calls.tail, call = .parse) ∧
      ∀ before, before ≠ [] → SessionCall.run.step.run (w.after before) =
        (do let _ ← Work.runModule parsed.module : Work Unit).run (w.after before) := by
  have hsession := session_of_openFile hopen
  have hunread : w.session.module? = none := by
    rw [hsession]
    rfl
  have hfaulty : w.Faulty parsed := by
    refine ⟨?_, hdiagnosed⟩
    rw [hsession]
    exact hreads
  refine ⟨⟨fun hkept call hcall => ?_, hfaulty.keptFromRunning hsession⟩,
    fun before => hfaulty.run_run_after hunread⟩
  -- A run behind the first call would not be ended by diagnostics.
  cases calls with
  | nil => cases hcall
  | cons first more =>
    cases call with
    | parse => rfl
    | run =>
      obtain ⟨before, later, rfl⟩ := List.append_of_mem hcall
      obtain ⟨⟨diagnostics, -, hraised⟩, -⟩ := hkept (first :: before) .run later rfl
      rw [hfaulty.run_run_after hunread (List.cons_ne_nil _ _)] at hraised
      exact absurd hraised (Work.run_runModule_ne _ _ _ _ _)

/-- No file can be read. -/
def noFiles : FileReader := fun _ => none

/-- A program that prints what it is called with, and behind it a declaration without a value. -/
def brokenSource : String := "main = (x) \x7b print(x) \x7d broken ="

/-- A session for that program. -/
def brokenWorkspace : Workspace :=
  { session := .fresh "t.q" brokenSource
    reporter := (Reporter.fresh true false).register "t.q" (some brokenSource)
    output := [] }

/-- What is read of it. -/
def brokenParsed : Parsed :=
  ⟨⟨"t.q", [⟨"main", .function (.mk [.bind "x"] (.call "print" [.variable "x"])) []⟩]⟩,
    [.missingValue "broken" ⟨32, 32⟩ (some brokenSource) (some "t.q")]⟩

/-- The second declaration has a diagnostic, and the first one is read. -/
theorem faulty_brokenWorkspace : brokenWorkspace.Faulty brokenParsed := by
  refine ⟨?_, List.cons_ne_nil _ _⟩
  change parseModule nestingLimit "t.q" brokenSource = .ok brokenParsed
  decide +kernel

/-- A session whose source is broken is not run when it is asked to run and then to read. -/
theorem kept_from_running_iff_broken :
    Workspace.openFile noFiles (some "t.q") (some brokenSource) (.fresh true false) [] =
        .ok brokenWorkspace ∧
      parseModule nestingLimit "t.q" brokenSource = .ok brokenParsed ∧
      brokenParsed.diagnostics ≠ [] ∧ brokenWorkspace.KeptFromRunning [.run, .parse, .parse] := by
  have hopen : Workspace.openFile noFiles (some "t.q") (some brokenSource) (.fresh true false) [] =
      .ok brokenWorkspace := rfl
  obtain ⟨hreads, hdiagnosed⟩ := faulty_brokenWorkspace
  have hiff := (kept_from_running_iff hopen hreads hdiagnosed [.run, .parse, .parse]).1
  exact ⟨hopen, hreads, hdiagnosed, hiff.2 (by decide)⟩

/-- A session whose source is broken is run when it is asked to run a second time: the entry is
called, prints its line, and its value is the result of the run. -/
theorem faulty_program_runs :
    Workspace.openFile noFiles (some "t.q") (some brokenSource) (.fresh true false) [] =
        .ok brokenWorkspace ∧
      parseModule nestingLimit "t.q" brokenSource = .ok brokenParsed ∧
      brokenParsed.diagnostics ≠ [] ∧ ¬ brokenWorkspace.KeptFromRunning [.run, .run] ∧
      (SessionCall.run.step.run (brokenWorkspace.after [.run])).1 = .ok () ∧
      (brokenWorkspace.after [.run, .run]).session.results = [.string "ok"] ∧
      String.join (brokenWorkspace.after [.run, .run]).output =
        "[LiteralString(value='hello world')]\n" := by
  have hfirst : brokenWorkspace.after [.run] = brokenWorkspace.reading brokenParsed :=
    faulty_brokenWorkspace.after_cons rfl .run []
  have hsecond : brokenWorkspace.after [.run, .run] =
      (SessionCall.run.step.run (brokenWorkspace.reading brokenParsed)).2 := by
    rw [← hfirst]
    rfl
  have hsucceeds : (SessionCall.run.step.run (brokenWorkspace.after [.run])).1 = .ok () := by
    rw [hfirst]
    rfl
  obtain ⟨hreads, hdiagnosed⟩ := faulty_brokenWorkspace
  refine ⟨rfl, hreads, hdiagnosed, ?_, hsucceeds, ?_, ?_⟩
  · intro hkept
    obtain ⟨⟨diagnostics, -, hraised⟩, -⟩ := hkept [.run] .run [] rfl
    rw [hsucceeds] at hraised
    cases hraised
  · rw [hsecond]
    rfl
  · rw [hsecond]
    decide

end QLanguage
