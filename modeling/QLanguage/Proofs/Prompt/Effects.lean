import QLanguage.Proofs.Evaluation.Loading
import QLanguage.Proofs.Prompt.Survival
import QLanguage.Proofs.Session.Classification

/-!
# Lines have whole effects

Whatever a session has been asked for before, its machine is idle: every request leaves an idle
machine idle, or loads a module, and a machine that has loaded one is idle. So a line that is added
finds nothing pending, and an evaluation that halts inside it leaves the scopes as they were. What
is left of the line is what was declared before: nothing if it is not read, the declarations before
the one that fails, and of an expression nothing but its value.
-/

namespace QLanguage

open Step

/-! ## Machines that stay idle -/

/-- A machine that has loaded a module is idle. -/
theorem Machine.Idle.load {depth : Nat} {m : Module} {machine : Machine}
    (h : Machine.load depth m = (.ok (), machine)) : machine.Idle where
  depth := by
    rw [Environment.depth, (growsBy_load h).inner]
    rfl
  pending := pending_load h
  evaluating := (growsBy_load h).evaluating
  values := by
    have hvalues := onlyValues_load depth m
    rw [h] at hvalues
    exact (Environment.all_iff.1 hvalues).1

/-- An idle machine stays idle when what it has printed is taken from it. -/
theorem Machine.Idle.flushed {m : Machine} (h : m.Idle) : Machine.Idle { m with output := "" } :=
  h.of_env rfl h.pending rfl

/-- If the first workspace has an idle machine, so has the second. -/
def Workspace.StaysIdle (w w' : Workspace) : Prop := w.machine.Idle → w'.machine.Idle

instance : Std.Refl Workspace.StaysIdle := ⟨fun _ => id⟩

instance : Trans Workspace.StaysIdle Workspace.StaysIdle Workspace.StaysIdle :=
  ⟨fun h h' hidle => h' (h hidle)⟩

/-- A workspace that keeps an idle machine has one. -/
theorem Workspace.idle_keeping (w : Workspace) {machine : Machine} (h : machine.Idle) :
    (w.keeping machine).machine.Idle := h.flushed

namespace Work

/-- Reading the source does not touch the machine. -/
theorem staysIdle_parse : Keeps Workspace.StaysIdle parse := by
  intro w hidle
  rw [run_parse]
  split
  · exact hidle
  · split <;> exact hidle

/-- A module that is loaded leaves an idle machine, and so does the call of its entry. -/
theorem staysIdle_runModule (m : Module) : Keeps Workspace.StaysIdle (runModule m) := by
  intro w hidle
  rw [run_runModule]
  split
  case h_1 halt machine hload => exact hidle
  case h_2 machine hload =>
    have hloaded := (Machine.Idle.load hload).flushed
    have hcalled : ((Eval.callEntry nestingLimit).run { machine with output := "" }).2.Idle :=
      (hloaded.eval nestingLimit _).2
    generalize (Eval.callEntry nestingLimit).run { machine with output := "" } = result at hcalled ⊢
    obtain ⟨halt | value, last⟩ := result <;> exact (w.keeping machine).idle_keeping hcalled

/-- A program that runs leaves an idle machine. -/
theorem staysIdle_runProgram : Keeps Workspace.StaysIdle runProgram := by
  intro w
  rcases hmodule : w.session.module? with _ | m
  · rw [run_runProgram_unread hmodule]
    exact Keeps.bind staysIdle_parse staysIdle_runModule w
  · rw [run_runProgram_read hmodule]
    exact staysIdle_runModule m w

/-- A line leaves an idle machine. -/
theorem staysIdle_addLine (line : String) : Keeps Workspace.StaysIdle (addLine line) := by
  intro w hidle
  rw [run_addLine]
  split
  case h_1 abort hread => exact hidle
  case h_2 items hread =>
    exact (w.noting line).idle_keeping (hidle.declareAll nestingLimit items).1
  case h_3 e hread =>
    have hevaluated := (hidle.eval nestingLimit e).2
    generalize (Eval.eval nestingLimit e).run w.machine = result at hevaluated ⊢
    obtain ⟨halt | value, machine⟩ := result <;> exact (w.noting line).idle_keeping hevaluated

/-- Taking a result does not touch the machine. -/
theorem staysIdle_takeResult : Keeps Workspace.StaysIdle takeResult := by
  intro w hidle
  unfold takeResult
  rw [run_bind_ok (run_get w)]
  dsimp only
  split <;> exact hidle

/-- What is reported does not touch the machine. -/
theorem staysIdle_guarded {α : Type} {step : Work α} (h : Keeps Workspace.StaysIdle step) :
    Keeps Workspace.StaysIdle (guarded step) := by
  refine .tryCatch (.bind h fun _ => .pure _) fun abort w hidle => ?_
  rw [run_bind_ok (run_get w)]
  rcases w.reporter.guard abort with ⟨text, _ | onward⟩ <;> exact hidle

end Work

/-- Whatever a session is asked for leaves an idle machine. -/
theorem Request.staysIdle_work (request : Request) (guarded : Bool) :
    Keeps Workspace.StaysIdle (request.work guarded) := by
  have hstep : Keeps Workspace.StaysIdle request.step := by
    cases request with
    | parse => exact .bind Work.staysIdle_parse fun _ => .pure _
    | run => exact .bind Work.staysIdle_runProgram fun _ => .pure _
    | add line => exact .bind (Work.staysIdle_addLine line) fun _ => .pure _
    | take => exact .bind Work.staysIdle_takeResult fun _ => .pure _
  unfold Request.work
  split
  · exact Work.staysIdle_guarded hstep
  · exact .bind hstep fun _ => .pure _

namespace Workspace

/-- The workspace after some requests, each made under the reporter or not, and whatever became of
those before. -/
def answering (w : Workspace) (requests : List (Request × Bool)) : Workspace :=
  requests.foldl (fun w request => ((request.1.work request.2).run w).2) w

/-- Requests leave an idle machine. -/
theorem idle_answering {w : Workspace} (h : w.machine.Idle) (requests : List (Request × Bool)) :
    (w.answering requests).machine.Idle := by
  induction requests generalizing w with
  | nil => exact h
  | cons request more ih => exact ih (request.1.staysIdle_work request.2 w h)

/-- A session of the prompt, after whatever it has been asked for. -/
def Reachable (w : Workspace) : Prop :=
  ∃ reporter output requests, w = (openPrompt reporter output).answering requests

/-- Every session of the prompt has an idle machine. -/
theorem Reachable.idle {w : Workspace} (h : w.Reachable) : w.machine.Idle := by
  obtain ⟨reporter, output, requests, rfl⟩ := h
  have hopened : (openPrompt reporter output).machine.Idle := Machine.Idle.empty
  exact idle_answering hopened requests

end Workspace

/-! ## What is left of a line -/

/-- The abort is a diagnostic, or the diagnostics of a source together. -/
def Abort.IsDiagnosed : Abort → Prop
  | .fault (.mk (.diagnostic _) _) => True
  | .fault (.mk (.collected _ _) _) => True
  | _ => False

/-- The halt of an evaluation is no diagnostic. -/
theorem Abort.not_isDiagnosed_ofHalt (colours : Bool) (halt : Halt) :
    ¬(Abort.ofHalt colours halt).IsDiagnosed := by
  cases halt with
  | error e =>
    rw [ofHalt, ofEvalError_eq]
    exact id
  | tooDeep => exact id

/-- A line that ends with diagnostics has only been noted. -/
theorem Work.eq_noting_of_isDiagnosed {w w' : Workspace} {line : String} {abort : Abort}
    (h : (addLine line).run w = (.error abort, w')) (hdiagnosed : abort.IsDiagnosed) :
    w' = w.noting line := by
  rw [run_addLine] at h
  split at h
  case h_1 abort hread =>
    cases h
    rfl
  case h_2 items hread =>
    -- What ends the declarations early is an evaluation.
    generalize (Eval.declareAll nestingLimit items).run w.machine = result at h
    obtain ⟨halt | _, machine⟩ := result <;> cases h
    exact absurd hdiagnosed (Abort.not_isDiagnosed_ofHalt _ halt)
  case h_3 e hread =>
    generalize (Eval.eval nestingLimit e).run w.machine = result at h
    obtain ⟨halt | value, machine⟩ := result <;> cases h
    exact absurd hdiagnosed (Abort.not_isDiagnosed_ofHalt _ halt)

/-- Declarations in a row are declared in two parts. -/
theorem Eval.declareAll_append (depth : Nat) (items more : List Declaration) :
    declareAll depth (items ++ more) =
      declareAll depth items >>= fun _ => declareAll depth more := by
  induction items with
  | nil => rfl
  | cons d ds ih =>
    rw [List.cons_append, declareAll, ih, declareAll, bind_assoc]

/-- Where one of some declarations fails, an idle machine is left with what those before it have
bound. -/
theorem Machine.Idle.declareAll_error {depth : Nat} {m mid : Machine} (h : m.Idle)
    {before : List Declaration} {d : Declaration} {halt : Halt}
    (hbefore : (Eval.declareAll depth before).run m = (.ok (), mid))
    (hfails : ((Eval.declare depth d).run mid).1 = .error halt) (after : List Declaration) :
    ∃ last, (Eval.declareAll depth (before ++ d :: after)).run m = (.error halt, last) ∧
      last.env = mid.env := by
  have hmid : mid.Idle := by
    have hidle := (h.declareAll depth before).1
    rwa [hbefore] at hidle
  have henv := (hmid.eval depth d.value).1
  rcases hrun : (Eval.eval depth d.value).run mid with ⟨halt' | value, last⟩
  · have hdeclare : (Eval.declare depth d).run mid = (.error halt', last) := run_bind_error hrun
    rw [hdeclare] at hfails
    cases hfails
    rw [hrun] at henv
    refine ⟨last, ?_, henv⟩
    rw [Eval.declareAll_append, run_bind_ok hbefore]
    exact run_bind_error hdeclare
  · have hdeclare : ((Eval.declare depth d).run mid).1 = .ok value := by
      rw [Eval.declare, run_bind_ok hrun]
      rfl
    rw [hdeclare] at hfails
    cases hfails

/-- A line that is added to a session of the prompt has whole effects only. If it ends with
diagnostics, nothing is bound, no result is there and nothing is written that was not before. If it
is a list of declarations, one of which is the first to fail, then what is bound is what those
before it have bound, and the results stay. If it is an expression, what is bound stays in every
case, and its value, if it has one, is the one new result. -/
theorem line_has_whole_effects {w : Workspace} (hreachable : w.Reachable) (line : String) :
    (∀ abort w', (Work.addLine line).run w = (.error abort, w') → abort.IsDiagnosed →
      w'.root = w.root ∧ w'.session.results = w.session.results ∧ w'.output = w.output) ∧
    (∀ before d after m halt,
      parseModule nestingLimit promptName line = .ok ⟨⟨promptName, before ++ d :: after⟩, []⟩ →
      (Eval.declareAll nestingLimit before).run w.machine = (.ok (), m) →
      ((Eval.declare nestingLimit d).run m).1 = .error halt →
      ∃ w', (Work.addLine line).run w = (.error (.ofHalt w.reporter.colours halt), w') ∧
        w'.root = m.env.root ∧ w'.session.results = w.session.results) ∧
    ∀ e, parseExpression nestingLimit line = .ok e →
      ((Work.addLine line).run w).2.root = w.root ∧
      (∀ value, ((Eval.eval nestingLimit e).run w.machine).1 = .ok value →
        ((Work.addLine line).run w).1 = .ok () ∧
        ((Work.addLine line).run w).2.session.results = w.session.results ++ [value]) ∧
      ∀ halt, ((Eval.eval nestingLimit e).run w.machine).1 = .error halt →
        ((Work.addLine line).run w).1 = .error (.ofHalt w.reporter.colours halt) ∧
        ((Work.addLine line).run w).2.session.results = w.session.results := by
  refine ⟨fun abort w' hrun hdiagnosed => ?_, fun before d after m halt hparse hbefore hfails => ?_,
    fun e hparse => ?_⟩
  · rw [Work.eq_noting_of_isDiagnosed hrun hdiagnosed]
    exact ⟨rfl, rfl, rfl⟩
  · obtain ⟨last, hrun, henv⟩ := hreachable.idle.declareAll_error hbefore hfails after
    refine ⟨(w.noting line).keeping last, ?_, congrArg Environment.root henv, rfl⟩
    rw [Work.run_addLine, readLine_of_parseModule hparse (by simp)]
    dsimp only
    rw [hrun]
    rfl
  · have henv := (hreachable.idle.eval nestingLimit e).1
    rw [Work.run_addLine, readLine_of_parseExpression hparse]
    dsimp only
    generalize (Eval.eval nestingLimit e).run w.machine = result at henv
    obtain ⟨halt | value, machine⟩ := result
    · refine ⟨congrArg Environment.root henv, ?_, ?_⟩
      · rintro value ⟨⟩
      · rintro _ ⟨⟩
        exact ⟨rfl, rfl⟩
    · refine ⟨congrArg Environment.root henv, ?_, ?_⟩
      · rintro _ ⟨⟩
        exact ⟨rfl, rfl⟩
      · rintro halt ⟨⟩

/-- The prompt after a run that has found no entry, and the declaration of a function. -/
def declaredWorkspace : Workspace :=
  (Workspace.openPrompt (.fresh true false) []).answering
    [(.run, true), (.add "f = (x) \x7b x \x7d", false)]

/-- A line whose second declaration fails binds its first one, to what the function gives. -/
theorem line_has_whole_effects_second_fails :
    declaredWorkspace.Reachable ∧ declaredWorkspace.root.names = ["f"] ∧
      ∃ halt w', (Work.addLine "y = f(\"b\") z = nope").run declaredWorkspace =
          (.error (.ofHalt declaredWorkspace.reporter.colours halt), w') ∧
        w'.root.names = ["f", "y"] ∧ w'.root.get? "y" = some (.string "b") ∧
        w'.session.results = [] := by
  have hreachable : declaredWorkspace.Reachable := ⟨_, _, _, rfl⟩
  have hparse : parseModule nestingLimit promptName "y = f(\"b\") z = nope" =
      .ok ⟨⟨promptName, [⟨"y", .call "f" [.string "b"]⟩] ++ ⟨"z", .variable "nope"⟩ :: []⟩,
        []⟩ := by decide +kernel
  let identity : Expr := .function (.mk [.bind "x"] (.variable "x")) []
  have hmachine : declaredWorkspace.machine =
      { Machine.empty with env := ⟨⟨[("f", identity)]⟩, []⟩ } := by decide +kernel
  have hfirst : (Eval.declareAll nestingLimit [⟨"y", .call "f" [.string "b"]⟩]).run
      declaredWorkspace.machine =
        (.ok (), { Machine.empty with env := ⟨⟨[("f", identity), ("y", .string "b")]⟩, []⟩ }) := by
    rw [hmachine]
    decide +kernel
  have hsecond : ((Eval.declare nestingLimit ⟨"z", .variable "nope"⟩).run
      { Machine.empty with env := ⟨⟨[("f", identity), ("y", .string "b")]⟩, []⟩ }).1 =
        .error (.error (.undefined "nope")) := by decide
  obtain ⟨w', hrun, hroot, hresults⟩ :=
    (line_has_whole_effects hreachable _).2.1 _ _ _ _ _ hparse hfirst hsecond
  refine ⟨hreachable, ?_, _, w', hrun, ?_, ?_, ?_⟩
  · rw [Workspace.root, hmachine]
    rfl
  · rw [hroot]
    rfl
  · rw [hroot]
    rfl
  · rw [hresults]
    decide +kernel

end QLanguage
