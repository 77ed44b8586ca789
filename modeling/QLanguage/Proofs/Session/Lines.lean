import QLanguage.Proofs.Evaluation.Frame
import QLanguage.Proofs.Evaluation.Values
import QLanguage.Proofs.Reading.Recovery
import QLanguage.Proofs.Session.Runs

/-!
# What a line can do

A line ends in one of three ways: it is not read, its evaluation halts, or it is done. Unless an
integer in it is too long, what ends it early is `Reportable`: a reporter for which faults are not
fatal writes a report and lets nothing go on. And however it ends, it leaves the machine `Idle`, as
it found it, with no call or declaration under way; only declarations change what the machine binds,
and they bind values, in their order and up to the first that fails.
-/

namespace QLanguage

open Step

/-! ## Reading -/

/-- No integer of the text is too long. -/
def ShortIntegers (text : String) : Prop :=
  ∀ digits span, Lexed.overlong digits span ∉ lexemes text

/-- All lexemes of such a text are tokens. -/
theorem ShortIntegers.allTokens {text : String} (h : ShortIntegers text) :
    (Cursor.ofSource text).AllTokens := by
  intro l hl
  cases l with
  | token t => exact ⟨t, rfl⟩
  | overlong digits span => exact absurd hl (h digits span)

/-- Lexemes that are all tokens are a list of tokens. -/
theorem exists_eq_map_token {ls : List Lexed} (h : ∀ l ∈ ls, ∃ t, l = Lexed.token t) :
    ∃ ts : List Token, ls = ts.map .token := by
  induction ls with
  | nil => exact ⟨[], rfl⟩
  | cons l ls ih =>
    obtain ⟨⟨t, rfl⟩, hls⟩ := List.forall_mem_cons.1 h
    obtain ⟨ts, rfl⟩ := ih hls
    exact ⟨t :: ts, rfl⟩

namespace Reading

variable {n : Nat}

/-- Whether a line is a list of declarations settles. -/
theorem settles_startsDeclaration : Settles n startsDeclaration := by
  refine Settles.bind settles_peek fun first => ?_
  cases first with
  | none => exact .pure _
  | some first =>
    dsimp only
    split
    · refine Settles.afterNext fun _ _ _ => ?_
      refine Settles.bind settles_peek fun second => ?_
      cases second <;> exact .pure _
    · exact .pure _

/-- An expression with the end of the source behind it settles before fewer tokens than there are
levels. -/
theorem settles_wholeExpression {depth : Nat} (h : n < depth) :
    Settles n (wholeExpression depth) := by
  refine Settles.bind (settles_expression h) fun e => ?_
  refine Settles.bind settles_peek fun found => ?_
  cases found with
  | none => exact .pure _
  | some _ => exact Settles.afterNext fun _ _ _ => .throw _

/-- More levels change no finished reading of an expression with the end of the source behind
it. -/
theorem agrees_wholeExpression {depth depth' : Nat} (h : depth ≤ depth') :
    AgreesUnlessDeep (wholeExpression depth) (wholeExpression depth') :=
  Step.AgreesUnless.bind (agrees_expression h) fun _ => .refl _

end Reading

section

variable {text : String} {stop : Stop} (hshort : ShortIntegers text)

include hshort

/-- Only a diagnostic can end the look at the start of a line. -/
theorem stop_of_isDeclaration (h : isDeclaration text = .error stop) :
    ∃ d, stop = .diagnostic d :=
  Reading.settles_startsDeclaration.exists_diagnostic hshort.allTokens (Nat.le_refl _) h

/-- An expression is refused for a diagnostic or for want of levels. -/
theorem stop_of_parseExpression {depth : Nat} (h : parseExpression depth text = .error stop) :
    stop = .tooDeep ∨ ∃ d, stop = .diagnostic d := by
  -- With as many levels more as there are lexemes, only a diagnostic is left.
  have hlevels : (Cursor.ofSource text).rest.length <
      max depth ((Cursor.ofSource text).rest.length + 1) := by omega
  rcases Reading.agrees_wholeExpression (Nat.le_max_left depth _) (Cursor.ofSource text) with
    hdeep | heq
  · rw [parseExpression, hdeep] at h
    exact .inl (Except.error.inj h).symm
  · rw [parseExpression, heq] at h
    exact .inr ((Reading.settles_wholeExpression hlevels).exists_diagnostic hshort.allTokens
      (Nat.le_refl _) h)

/-- A module is refused for want of levels. -/
theorem stop_of_parseModule {depth : Nat} {name : String}
    (h : parseModule depth name text = .error stop) : stop = .tooDeep := by
  obtain ⟨ts, hts⟩ := exists_eq_map_token hshort.allTokens
  obtain ⟨entries, -, hread⟩ := exists_segments name (tokens_eq_ok_iff.mpr hts)
  rcases parseModule_ok_or_tooDeep hread depth with hok | hdeep
  · rw [hok] at h
    cases h
  · rw [hdeep] at h
    exact (Except.error.inj h).symm

end

/-! ## Reporting -/

/-- A reporter for which faults are not fatal lets nothing go on. -/
def Abort.Reportable (abort : Abort) : Prop :=
  ∀ reporter : Reporter, reporter.fatal = false → (reporter.guard abort).2 = none

/-- A reporter lets its exit go on, if it has one. -/
def Abort.Announced (abort : Abort) : Prop :=
  ∀ reporter : Reporter, (reporter.guard abort).2 = reporter.exit?

/-- What goes on from an abort that is reported fault by fault is the exit of the reporter. -/
theorem Reporter.announce_faults (reporter : Reporter) {abort : Abort} {faults : List Fault}
    (h : abort.parts = faults.map .fault) :
    reporter.announce abort = (faults.flatMap (reporter.report .error), reporter.exit?) := by
  rw [announce, h, reportEach_faults]

namespace Abort

/-- What is announced is reportable. -/
theorem Announced.reportable {abort : Abort} (h : abort.Announced) : abort.Reportable := by
  intro reporter hfatal
  rw [h, Reporter.exit?, hfatal]
  rfl

/-- A fault whose parts are faults is announced. -/
theorem announced_of_parts {f : Fault} (faults : List Fault)
    (h : (Abort.fault f).parts = faults.map .fault) : (Abort.fault f).Announced := by
  intro reporter
  rw [Reporter.guard, reporter.announce_faults h]

/-- Want of levels is announced. -/
theorem announced_tooDeep : Abort.tooDeep.Announced := by
  intro reporter
  rw [Reporter.guard, note_tooDeep]
  exact announced_of_parts [_] rfl reporter

/-- A diagnostic is announced. -/
theorem announced_ofDiagnostic (colours : Bool) (d : Diagnostic) :
    (ofDiagnostic colours d).Announced := by
  rw [ofDiagnostic_eq]
  exact announced_of_parts [d.fault colours] rfl

/-- The parts of a collection of diagnostics are the diagnostics. -/
theorem parts_ofDiagnostics (colours : Bool) (name : String) {diagnostics : List Diagnostic}
    (h : diagnostics ≠ []) :
    (Abort.fault (Diagnostic.faults colours name diagnostics)).parts =
      (diagnostics.map (Diagnostic.fault colours)).map .fault := by
  obtain ⟨d, ds, rfl⟩ := List.exists_cons_of_ne_nil h
  rw [List.map_map]
  rfl

/-- Diagnostics are announced together. -/
theorem announced_ofDiagnostics (colours : Bool) (name : String) (diagnostics : List Diagnostic) :
    (ofDiagnostics colours name diagnostics).Announced := by
  rw [ofDiagnostics_eq]
  by_cases h : diagnostics = []
  · subst h
    exact announced_of_parts [Diagnostic.faults colours name []] rfl
  · exact announced_of_parts _ (parts_ofDiagnostics colours name h)

/-- The halt of an evaluation is announced. -/
theorem announced_ofHalt (colours : Bool) (halt : Halt) : (ofHalt colours halt).Announced := by
  cases halt with
  | error e =>
    rw [ofHalt, ofEvalError_eq]
    exact announced_of_parts [_] rfl
  | tooDeep => exact announced_tooDeep

/-- What aborts an operation because an evaluation halts is reportable. -/
theorem reportable_of_mapError {α : Type} {result : Except Halt α} {colours : Bool} {abort : Abort}
    (h : result.mapError (.ofHalt colours) = .error abort) : abort.Reportable := by
  cases result with
  | ok a => cases h
  | error halt =>
    cases h
    exact (announced_ofHalt colours halt).reportable

end Abort

/-- What keeps a line from being read is reportable, unless an integer in it is too long. -/
theorem reportable_of_readLine {line : String} {e : LineError} (hshort : ShortIntegers line)
    (h : readLine line = .error e) (colours : Bool) : (Abort.ofLine colours e).Reportable := by
  unfold readLine at h
  split at h
  case h_1 stop hdeclares =>
    cases h
    obtain ⟨d, rfl⟩ := stop_of_isDeclaration hshort hdeclares
    exact (Abort.announced_ofDiagnostic colours d).reportable
  case h_2 hdeclares =>
    split at h
    case h_1 stop hparse =>
      cases h
      rw [stop_of_parseModule hshort hparse]
      exact Abort.announced_tooDeep.reportable
    case h_2 parsed hparse =>
      split at h
      · cases h
      · cases h
        exact (Abort.announced_ofDiagnostics colours promptName parsed.diagnostics).reportable
  case h_3 hdeclares =>
    split at h
    case h_1 stop hparse =>
      cases h
      rcases stop_of_parseExpression hshort hparse with rfl | ⟨d, rfl⟩
      · exact Abort.announced_tooDeep.reportable
      · exact (Abort.announced_ofDiagnostic colours d).reportable
    case h_2 e hparse => cases h

/-! ## Evaluating -/

/-- The machine has only its root scope, which binds only values, and no declaration is pending or
under way. -/
structure Machine.Idle (m : Machine) : Prop where
  /-- The root is the only scope. -/
  depth : m.env.depth = 1
  /-- Nothing is pending. -/
  pending : m.pending = .empty
  /-- Nothing is under way. -/
  evaluating : m.evaluating = []
  /-- The root binds values. -/
  values : m.env.root.All fun value => value.isValue = true

namespace Machine.Idle

variable {m m' : Machine}

/-- The machine without declarations is idle. -/
theorem empty : Machine.empty.Idle := ⟨rfl, rfl, rfl, fun _ h => absurd h List.not_mem_nil⟩

/-- What a machine has printed does not matter. -/
theorem of_env (h : m.Idle) (henv : m'.env = m.env) (hpending : m'.pending = .empty)
    (hevaluating : m'.evaluating = m.evaluating) : m'.Idle where
  depth := henv ▸ h.depth
  pending := hpending
  evaluating := hevaluating.trans h.evaluating
  values := henv ▸ h.values

/-- The scopes of an idle machine bind only values. -/
theorem onlyValues (h : m.Idle) : m.env.OnlyValues := by
  have hinner : m.env.inner = [] := List.eq_nil_of_length_eq_zero (Nat.succ.inj h.depth)
  refine Environment.all_iff.2 ⟨h.values, ?_⟩
  rw [hinner]
  exact fun _ hscope => absurd hscope List.not_mem_nil

/-- An idle machine may bind a value. -/
theorem define (h : m.Idle) (name : String) {value : Expr} (hvalue : value.isValue = true) :
    Machine.Idle { m with env := m.env.define name value } :=
  ⟨h.depth, h.pending, h.evaluating, h.values.set name hvalue⟩

/-- However an evaluation ends, it leaves the scopes of an idle machine, and leaves it idle. -/
theorem eval (h : m.Idle) (depth : Nat) (e : Expr) :
    ((Eval.eval depth e).run m).2.env = m.env ∧ ((Eval.eval depth e).run m).2.Idle := by
  obtain ⟨henv, hpending, hevaluating⟩ := (grows_eval depth e m).unchanged h.pending
  exact ⟨henv, h.of_env henv hpending hevaluating⟩

/-- However the evaluation of declarations ends, it leaves an idle machine idle, with values bound
to the names of the first so many of them. -/
theorem declareAll (h : m.Idle) (depth : Nat) (items : List Declaration) :
    ((Eval.declareAll depth items).run m).2.Idle ∧
      ∃ entries, entries.map Prod.fst <+: items.map Declaration.name ∧
        ((Eval.declareAll depth items).run m).2.env.root = m.env.root.setAll entries := by
  induction items generalizing m with
  | nil => exact ⟨h, [], List.nil_prefix, rfl⟩
  | cons d ds ih =>
    obtain ⟨henv, hidle⟩ := h.eval depth d.value
    have hvalue := (yields_eval depth d.value m h.onlyValues).2
    rcases hrun : (Eval.eval depth d.value).run m with ⟨halt | value, mid⟩ <;>
      rw [hrun] at henv hidle hvalue
    · have hdeclare : (Eval.declareAll depth (d :: ds)).run m = (.error halt, mid) :=
        run_bind_error (run_bind_error hrun)
      rw [hdeclare]
      refine ⟨hidle, [], List.nil_prefix, ?_⟩
      rw [henv]
      rfl
    · have hdeclare : (Eval.declareAll depth (d :: ds)).run m =
          (Eval.declareAll depth ds).run { mid with env := mid.env.define d.name value } :=
        run_bind_ok (run_bind_ok hrun)
      rw [hdeclare]
      obtain ⟨hlast, entries, hnames, hroot⟩ := ih (hidle.define d.name (hvalue value rfl))
      refine ⟨hlast, (d.name, value) :: entries, ?_, ?_⟩
      · exact List.cons_prefix_cons.2 ⟨rfl, hnames⟩
      · rw [hroot]
        change (mid.env.root.set d.name value).setAll entries = _
        rw [henv]
        rfl

end Machine.Idle

end QLanguage
