import Mathlib.Data.Set.List
import QLanguage.Proofs.Session.Lines
import QLanguage.Proofs.Templates

/-!
# What becomes of an abort

`Reporter.Handles` says what a reporter owes to an abort that reaches it: an exit passes in silence;
a fault, an interrupt and too deep a nesting are reported, and nothing goes on but the exit of a
reporter for which faults are fatal; and a failure is reported as internal with its kind and its
message, and goes on. A reporter pays what it owes to all aborts but some failures
(`guard_handles_iff`). It reports a failure by a template, so the text of the failure should have no
braces. Where they are all doubled, half of them are left out of the report. Otherwise the template
cannot be filled: there is no report, and a failure to fill the template goes on in place of the
failure, or of the exit.
-/

namespace QLanguage

/-! ## What a reporter owes to an abort -/

/-- The faults that an abort has to be reported as: the members of a collection that has some, and
one fault otherwise. -/
def Abort.IsReportedAs : Abort → List Fault → Prop
  | .fault f, faults => (Abort.fault f).parts = faults.map .fault
  | .tooDeep, faults => faults = [.notice "maximum recursion depth exceeded while evaluating"]
  | .interrupted, faults => faults = [.notice "keyboard interrupt"]
  | .exit _, _ | .failure _, _ => False

/-- The report of a failure of this program with a text. -/
def Reporter.internalReport (r : Reporter) (text : String) : List String :=
  r.report .error (.mk (.notice none none true) text)

/-- What a reporter owes to an abort: what it should write, and what should go on. -/
def Reporter.Handles (r : Reporter) : Abort → List String × Option Abort → Prop
  | .exit status, handled => handled = ([], some (.exit status))
  | .failure f, handled =>
    (∃ text : String, (f.kind ++ ": " ++ f.message).toList <:+: text.toList ∧
      handled.1 = r.internalReport text) ∧
    handled.2 = some (if r.fatal then .exit 1 else .failure f)
  | abort, handled =>
    ∃ faults, abort.IsReportedAs faults ∧
      handled = (faults.flatMap (r.report .error), if r.fatal then some (.exit 1) else none)

/-- The members of a collection are faults, and the kind and the message of a failure have no
braces. -/
def Abort.Tellable : Abort → Prop
  | .fault f => ∀ part ∈ (Abort.fault f).parts, ∃ fault, part = .fault fault
  | .failure f => Braceless f.kind ∧ Braceless f.message
  | .tooDeep | .interrupted | .exit _ => True

/-! ## Failures -/

namespace Failure

/-- The template that a failure is reported with. -/
def reportTemplate (f : Failure) : String :=
  "unknown error: '" ++ f.kind ++ ": " ++ f.message ++ "'"

/-- The braces of the template are those of the kind and of the message. -/
theorem countP_reportTemplate (f : Failure) :
    f.reportTemplate.toList.countP isBrace =
      f.kind.toList.countP isBrace + f.message.toList.countP isBrace := by
  have hopen : "unknown error: '".toList.countP isBrace = 0 := by decide
  have hmark : ": ".toList.countP isBrace = 0 := by decide
  have hclose : "'".toList.countP isBrace = 0 := by decide
  unfold reportTemplate
  simp only [String.toList_append, List.countP_append, hopen, hmark, hclose, Nat.zero_add,
    Nat.add_zero]

/-- The template has no braces exactly when the kind and the message have none. -/
theorem braceless_reportTemplate_iff (f : Failure) :
    Braceless f.reportTemplate ↔ Braceless f.kind ∧ Braceless f.message := by
  rw [braceless_iff_countP, braceless_iff_countP, braceless_iff_countP, countP_reportTemplate]
  omega

/-- The kind and the message stand in the template. -/
theorem infix_reportTemplate (f : Failure) :
    (f.kind ++ ": " ++ f.message).toList <:+: f.reportTemplate.toList := by
  refine ⟨"unknown error: '".toList, "'".toList, ?_⟩
  unfold reportTemplate
  simp only [String.toList_append, List.append_assoc]

/-- An integer that is too long is refused without braces. -/
theorem braceless_overlong (digits : Nat) :
    Braceless (Failure.numeral (.overlong digits)).kind ∧
      Braceless (Failure.numeral (.overlong digits)).message := by
  have hmarks : Braceless "Exceeds the limit (" ∧
      Braceless " digits) for integer string conversion: value has " ∧
      Braceless " digits; use sys.set_int_max_str_digits() to increase the limit" := by
    and_intros <;> exact braceless_ofList.2 (by decide)
  have hkind : Braceless "ValueError" := braceless_ofList.2 (by decide)
  obtain ⟨hstart, hmiddle, hstop⟩ := hmarks
  refine ⟨hkind, ?_⟩
  exact (((hstart.append (braceless_toString digitLimit)).append hmiddle).append
    (braceless_toString digits)).append hstop

end Failure

/-- A failure whose braces are all doubled is reported with one brace for each pair; another one is
not reported, and a failure to fill its template goes on. -/
theorem Reporter.guard_failure_cases (r : Reporter) (f : Failure) :
    match undoubled? f.reportTemplate.toList with
    | some text => r.guard (.failure f) =
        (r.internalReport (String.ofList text), some (if r.fatal then .exit 1 else .failure f))
    | none => ∃ e, r.guard (.failure f) = ([], some (.failure (.template e))) := by
  have hraise : r.internalError f =
      .raise r.colours (.notice none none true) f.reportTemplate [] := rfl
  have hfill := fillTemplate_nil f.reportTemplate
  rcases hcut : undoubled? f.reportTemplate.toList with _ | text <;> rw [hcut] at hfill
  · obtain ⟨e, he⟩ := hfill
    exact ⟨e, by rw [guard, hraise, Abort.raise, List.map_nil, he]⟩
  · dsimp only at hfill ⊢
    rw [guard, hraise, Abort.raise, List.map_nil, hfill]
    dsimp only
    rw [exit?]
    cases r.fatal <;> rfl

/-- A failure without braces is reported as it is. -/
theorem Reporter.guard_failure_of_braceless (r : Reporter) {f : Failure}
    (h : Braceless f.kind ∧ Braceless f.message) :
    r.guard (.failure f) =
      (r.internalReport f.reportTemplate, some (if r.fatal then .exit 1 else .failure f)) := by
  have hcases := r.guard_failure_cases f
  have hplain := fillTemplate_plain (f.braceless_reportTemplate_iff.2 h) []
  have hfill := fillTemplate_nil f.reportTemplate
  rcases hcut : undoubled? f.reportTemplate.toList with _ | cut <;> rw [hcut] at hcases hfill
  · obtain ⟨e, he⟩ := hfill
    cases hplain.symm.trans he
  · dsimp only at hcases hfill
    have htext : String.ofList cut = f.reportTemplate := Except.ok.inj (hfill.symm.trans hplain)
    rw [hcases, htext]

/-- The report of a failure is one line that ends with its text. -/
theorem Reporter.exists_internalReport_eq (r : Reporter) :
    ∃ before : String, ∀ text, r.internalReport text = [before ++ text ++ "\n"] := by
  refine ⟨r.heading (.mk (.notice none none true) "") ++ r.paint .red "[internal] " ++
    r.paint .red "error: ", fun text => ?_⟩
  have hquote : r.quote .error (.mk (.notice none none true) text) = [] := by
    rw [quote]
    cases r.source? <;> rfl
  rw [internalReport, report, hquote]
  rfl

/-- A failure is handled exactly when its kind and its message have no braces. -/
theorem Reporter.handles_failure_iff (r : Reporter) (f : Failure) :
    r.Handles (.failure f) (r.guard (.failure f)) ↔ Braceless f.kind ∧ Braceless f.message := by
  have hcases := r.guard_failure_cases f
  obtain ⟨before, hreport⟩ := r.exists_internalReport_eq
  constructor
  · rintro ⟨⟨text, hinfix, hwritten⟩, -⟩
    rw [← f.braceless_reportTemplate_iff, braceless_iff_countP]
    rcases hcut : undoubled? f.reportTemplate.toList with _ | cut <;> rw [hcut] at hcases
    · obtain ⟨e, he⟩ := hcases
      rw [he, hreport] at hwritten
      cases hwritten
    · -- Half of the braces are left, but all those of the kind and the message should be there.
      dsimp only at hcases
      rw [hcases, hreport, hreport] at hwritten
      have htext : String.ofList cut = text := by
        simpa [String.ext_iff] using hwritten
      rw [← htext, String.toList_ofList] at hinfix
      have hall := hinfix.sublist.countP_le (p := isBrace)
      have hhalf := countP_of_undoubled? hcut
      have hmark : ": ".toList.countP isBrace = 0 := by decide
      simp only [String.toList_append, List.countP_append, hmark] at hall
      rw [f.countP_reportTemplate] at hhalf ⊢
      omega
  · intro hbraceless
    rw [r.guard_failure_of_braceless hbraceless]
    exact ⟨⟨_, f.infix_reportTemplate, rfl⟩, rfl⟩

/-! ## All aborts -/

/-- Aborts that are all faults are a list of faults. -/
theorem exists_eq_map_fault {parts : List Abort} (h : ∀ part ∈ parts, ∃ f, part = .fault f) :
    ∃ faults : List Fault, parts = faults.map .fault := by
  have hrange : parts ∈ Set.range (List.map Abort.fault) := by
    rw [Set.range_list_map]
    exact fun part hpart => (h part hpart).imp fun _ => Eq.symm
  exact hrange.imp fun _ => Eq.symm

/-- A fault is handled exactly when whatever it is reported as is a fault. -/
theorem Reporter.handles_fault_iff (r : Reporter) (f : Fault) :
    r.Handles (.fault f) (r.guard (.fault f)) ↔
      ∀ part ∈ (Abort.fault f).parts, ∃ fault, part = .fault fault := by
  constructor
  · rintro ⟨faults, hparts : (Abort.fault f).parts = faults.map .fault, -⟩ part hpart
    rw [hparts] at hpart
    exact (List.mem_map.1 hpart).imp fun _ h => h.2.symm
  · intro hall
    obtain ⟨faults, hparts⟩ := exists_eq_map_fault hall
    exact ⟨faults, hparts, r.announce_faults hparts⟩

/-- A reporter does what it owes to every abort, if only the members of a collection are faults and
the kind and the message of a failure have no braces, and not otherwise. A failure all of whose
braces are doubled is reported with half of them. For any other failure with braces nothing is
written, and a failure to fill a template goes on, whether faults are fatal or not. -/
theorem guard_handles_iff (r : Reporter) :
    (∀ abort, r.Handles abort (r.guard abort) ↔ abort.Tellable) ∧
    ∀ f : Failure,
      match undoubled? f.reportTemplate.toList with
      | some text => r.guard (.failure f) =
          (r.internalReport (String.ofList text), some (if r.fatal then .exit 1 else .failure f))
      | none => ∃ e, r.guard (.failure f) = ([], some (.failure (.template e))) := by
  refine ⟨fun abort => ?_, r.guard_failure_cases⟩
  cases abort with
  | fault f => exact r.handles_fault_iff f
  | failure f => exact r.handles_failure_iff f
  | exit status => exact ⟨fun _ => trivial, fun _ => rfl⟩
  | tooDeep =>
    refine ⟨fun _ => trivial, fun _ => ⟨_, rfl, ?_⟩⟩
    rw [Reporter.guard, Abort.note_tooDeep]
    exact r.announce_faults rfl
  | interrupted =>
    refine ⟨fun _ => trivial, fun _ => ⟨_, rfl, ?_⟩⟩
    rw [Reporter.guard, Abort.note_interrupted]
    exact r.announce_faults rfl

/-- A failure with a field of a template for its message: no report is written, and it is not this
failure that goes on, nor an exit. -/
theorem failure_with_field_unreported :
    ((Reporter.fresh false false).register "f.q" (some "src")).guard
        (.failure (.other "ValueError" "\x7b\x7d")) =
      ([], some (.failure (.template (.noArgument 0)))) ∧
    (Reporter.fresh true false).guard (.failure (.other "ValueError" "\x7b\x7d")) =
      ([], some (.failure (.template (.noArgument 0)))) ∧
    ¬ (Reporter.fresh false false).Handles (.failure (.other "ValueError" "\x7b\x7d"))
      ((Reporter.fresh false false).guard (.failure (.other "ValueError" "\x7b\x7d"))) := by
  refine ⟨by rfl, by rfl, fun h => ?_⟩
  have hbraceless := ((Reporter.fresh false false).handles_failure_iff _).1 h
  exact (hbraceless.2 '\x7b' (by simp [Failure.message])).1 rfl

end QLanguage
