import QLanguage.Proofs.Colours.Escapes
import QLanguage.Proofs.Report.Handling

/-!
# Reports with colours and without

A reporter with colours paints what it writes, and the faults that it is given have painted
messages. Beside it stands the same reporter without colours, with the same faults. A message is
fixed words with painted arguments in the gaps, so with colours it is the other message with paint
on it, whatever braces the arguments have (`painting_message`). A report is put together
of the message, painted marks and stretches of the file's text, and so it is the other report with
paint on it (`Reporter.Coloured.report`). Which reports are written, and whether an abort goes on,
is decided by what both reporters have in common (`Reporter.Coloured.guard`).
-/

namespace QLanguage

/-! ## Messages -/

/-- Texts without escapes that stand out. -/
theorem paintings_painted (paint : Paint) {texts : List String}
    (h : ∀ text ∈ texts, EscapeFree text) :
    Paintings (texts.map (painted true paint)) (texts.map (painted false paint)) :=
  List.forall₂_map_left_iff.2 <| List.forall₂_map_right_iff.2 <|
    List.forall₂_same.2 fun text htext => (h text htext).painted paint

/-- Behind texts with paint on them, fixed words with painted texts in their gaps. -/
theorem Painting.worded {first first' : String} (hfirst : Painting first first')
    {gaps gaps' words : List String} (hgaps : Paintings gaps gaps')
    (hwords : ∀ text ∈ words, EscapeFree text) :
    Painting (QLanguage.worded first gaps words) (QLanguage.worded first' gaps' words) := by
  induction hgaps generalizing first first' words with
  | nil => exact hfirst
  | @cons gap gap' gaps gaps' hgap _ ih =>
    cases words with
    | nil => exact hfirst
    | cons text words =>
      obtain ⟨htext, hwords⟩ := List.forall_mem_cons.1 hwords
      exact ih ((hfirst.append hgap).append htext.painting) hwords

/-- A message with colours is the one without them with paint on it, if no argument has an
escape. -/
theorem painting_message {args : List String} (hargs : ∀ arg ∈ args, EscapeFree arg)
    (first : String) (words : List String)
    (hwords : (first :: words).Forall EscapeFree := by
      and_intros <;> exact escapeFree_ofList.2 (by decide)) :
    Painting (worded first (args.map (painted true .bold)) words)
      (worded first (args.map (painted false .bold)) words) := by
  obtain ⟨hfirst, hwords⟩ := List.forall_mem_cons.1 (List.forall_iff_forall_mem.1 hwords)
  exact hfirst.painting.worded (paintings_painted .bold hargs) hwords

/-- What is shown of a diagnostic has no escapes. -/
def Diagnostic.Clean (d : Diagnostic) : Prop := ∀ arg ∈ d.arguments, EscapeFree arg

/-- What is said of a diagnostic. -/
theorem Diagnostic.Clean.painting {d : Diagnostic} (h : d.Clean) :
    Painting (d.message true) (d.message false) := by
  cases d with
  | unexpected => exact painting_message h "expected " [", but found '", "'"]
  | expectedExpression =>
    exact painting_message h "expected an expression, but found '" ["'"]
  | expectedPattern =>
    exact painting_message h "expected a pattern, but found '" ["'"]
  | missingValue =>
    exact painting_message h "declaration of '" ["' has no value"]
  | endOfInput => exact painting_message h "reached the end of the input" []

/-- What is shown of an evaluation error has no escapes. -/
def EvalError.Clean (e : EvalError) : Prop := ∀ arg ∈ e.arguments, EscapeFree arg

/-- What is said of an evaluation error. -/
theorem EvalError.Clean.painting {e : EvalError} (h : e.Clean) :
    Painting (e.message true) (e.message false) := by
  cases e with
  | undefined => exact painting_message h "'" ["' has not been defined"]
  | underflow => exact painting_message h "attempted to pop the root scope" []
  | notFunction =>
    exact painting_message h "'" ["' is not a function, it is bound to '", "'"]
  | cyclic => exact painting_message h "the value of '" ["' depends on itself"]
  | noClause =>
    exact painting_message h "no clause of '" ["' matches ", " argument(s)"]

/-- What is said of the number of diagnostics that a source has. -/
theorem EscapeFree.countMessage {name : String} (h : EscapeFree name) (count : Nat) :
    Painting (countMessage true name count) (countMessage false name count) := by
  have hargs : ∀ arg ∈ [name, toString count], EscapeFree arg :=
    List.forall_mem_cons.2 ⟨h, List.forall_mem_singleton.2 (escapeFree_repr count)⟩
  exact painting_message hargs "'" ["' has ", " parse error(s)"]

/-- What is warned of. -/
theorem painting_hiddenMessage : Painting (hiddenMessage true) (hiddenMessage false) := by
  have hargs : ∀ arg ∈ [printName], EscapeFree arg := by decide
  exact painting_message hargs "'" ["' is a built-in, calls will not reach this declaration"]

/-! ## Faults and aborts -/

/-- The first fault is the second one with paint on its message. -/
inductive Fault.Coloured : Fault → Fault → Prop where
  /-- Both are about the same. -/
  | mk (cause : Cause) {message message' : String} (h : Painting message message') :
      Coloured (.mk cause message) (.mk cause message')

/-- The first abort is the second one with paint on its messages, and both come up when texts
without escapes are read and run: no template that they are made of has a brace in its words. -/
inductive Abort.Coloured : Abort → Abort → Prop where
  /-- A fault that is no collection. -/
  | fault {f f' : Fault} (hsingle : ∀ name members, f.cause ≠ .collected name members)
      (h : f.Coloured f') : Coloured (.fault f) (.fault f')
  /-- The diagnostics of a source. -/
  | diagnostics {name : String} {ds : List Diagnostic} (hname : EscapeFree name) (hsome : ds ≠ [])
      (hds : ∀ d ∈ ds, d.Clean) :
      Coloured (.fault (Diagnostic.faults true name ds)) (.fault (Diagnostic.faults false name ds))
  /-- Too deep a nesting. -/
  | tooDeep : Coloured .tooDeep .tooDeep
  /-- An exit. -/
  | exit (status : Int) : Coloured (.exit status) (.exit status)
  /-- A failure. -/
  | failure {f : Failure} (hbraces : Braceless f.kind ∧ Braceless f.message)
      (hkind : EscapeFree f.kind) (hmessage : EscapeFree f.message) :
      Coloured (.failure f) (.failure f)

/-- A diagnostic is a fault with a painted message. -/
theorem Diagnostic.Clean.fault {d : Diagnostic} (h : d.Clean) :
    (d.fault true).Coloured (d.fault false) :=
  .mk _ h.painting

namespace Abort.Coloured

/-- Faults are reported one by one, each beside its counterpart. -/
theorem exists_parts {f f' : Fault} (h : (Abort.fault f).Coloured (.fault f')) :
    ∃ faults faults' : List Fault, (Abort.fault f).parts = faults.map .fault ∧
      (Abort.fault f').parts = faults'.map .fault ∧ List.Forall₂ Fault.Coloured faults faults' := by
  cases h with
  | fault hsingle h =>
    refine ⟨[f], [f'], ?_, ?_, .cons h .nil⟩ <;> cases h with
    | mk cause h =>
      cases cause with
      | collected name members => exact absurd rfl (hsingle name members)
      | _ => rfl
  | @diagnostics name ds hname hsome hds =>
    refine ⟨_, _, parts_ofDiagnostics true name hsome, parts_ofDiagnostics false name hsome, ?_⟩
    exact List.forall₂_map_left_iff.2 <| List.forall₂_map_right_iff.2 <|
      List.forall₂_same.2 fun d hd => (hds d hd).fault

/-- A note in fixed words. -/
theorem notice {message message' : String} (h : Painting message message') :
    (Abort.fault (.notice message)).Coloured (.fault (.notice message')) :=
  .fault (fun _ _ => Cause.noConfusion) (.mk _ h)

/-- A diagnostic that is raised. -/
theorem ofDiagnostic {d : Diagnostic} (h : d.Clean) :
    (Abort.ofDiagnostic true d).Coloured (.ofDiagnostic false d) := by
  rw [Abort.ofDiagnostic_eq, Abort.ofDiagnostic_eq]
  exact .fault (fun _ _ => Cause.noConfusion) h.fault

/-- The diagnostics of a source, raised together. -/
theorem ofDiagnostics {name : String} {ds : List Diagnostic} (hname : EscapeFree name)
    (hsome : ds ≠ []) (hds : ∀ d ∈ ds, d.Clean) :
    (Abort.ofDiagnostics true name ds).Coloured (.ofDiagnostics false name ds) := by
  rw [Abort.ofDiagnostics_eq, Abort.ofDiagnostics_eq]
  exact .diagnostics hname hsome hds

/-- An integer that is too long is refused in fixed words and numbers. -/
theorem overlong (digits : Nat) :
    (Abort.failure (.numeral (.overlong digits))).Coloured
      (.failure (.numeral (.overlong digits))) := by
  have hescapes : EscapeFree "Exceeds the limit (" ∧
      EscapeFree " digits) for integer string conversion: value has " ∧
      EscapeFree " digits; use sys.set_int_max_str_digits() to increase the limit" ∧
      EscapeFree "ValueError" := by
    and_intros <;> exact escapeFree_ofList.2 (by decide)
  obtain ⟨hstart, hmiddle, hstop, hkind⟩ := hescapes
  refine .failure (Failure.braceless_overlong digits) hkind ?_
  exact escapeFree_append.2 ⟨escapeFree_append.2 ⟨escapeFree_append.2 ⟨escapeFree_append.2
    ⟨hstart, escapeFree_repr _⟩, hmiddle⟩, escapeFree_repr _⟩, hstop⟩

/-- A reading stops, maybe at a diagnostic. -/
theorem ofStop {stop : Stop} (h : ∀ d, stop = .diagnostic d → d.Clean) :
    (Abort.ofStop true stop).Coloured (.ofStop false stop) := by
  cases stop with
  | diagnostic d => exact ofDiagnostic (h d rfl)
  | tooDeep => exact .tooDeep
  | overlong digits => exact overlong digits

/-- An evaluation halts, maybe because of an error. -/
theorem ofHalt {halt : Halt}
    (h : ∀ e, halt = .error e → e.Clean) :
    (Abort.ofHalt true halt).Coloured (.ofHalt false halt) := by
  cases halt with
  | error e =>
    rw [Abort.ofHalt, Abort.ofHalt, Abort.ofEvalError_eq, Abort.ofEvalError_eq]
    exact .fault (fun _ _ => Cause.noConfusion) (.mk _ (h e rfl).painting)
  | tooDeep => exact .tooDeep

end Abort.Coloured

/-! ## Reporters -/

/-- The names and the texts of the files at work have no escapes. -/
def Reporter.Clean (r : Reporter) : Prop :=
  ∀ entry ∈ r.files.entries, EscapeFree entry.1 ∧ ∀ text ∈ entry.2, EscapeFree text

/-- The reporter on a terminal with or without colours. -/
def Reporter.withColours (r : Reporter) (colours : Bool) : Reporter := { r with colours := colours }

/-- The first reporter is the second one with colours: both know the same files, and faults are
fatal for both or for none. -/
inductive Reporter.Coloured : Reporter → Reporter → Prop where
  /-- A clean reporter stands beside itself. -/
  | mk (r : Reporter) (h : r.Clean) : Coloured (r.withColours true) (r.withColours false)

/-- A place shows characters of its source. -/
theorem locate_line_subset (source : String) (offset : Int) :
    (locate source offset).line.toList ⊆ source.toList := by
  intro c hc
  simp only [locate, String.toList_ofList, List.mem_append, List.mem_reverse] at hc
  rcases hc with hlead | htrail
  · have hbefore := List.mem_reverse.1 ((List.takeWhile_sublist _).mem hlead)
    exact List.mem_of_mem_take hbefore
  · exact List.mem_of_mem_drop ((List.takeWhile_sublist _).mem htrail)

/-- A quotation with colours is the one without them with paint on it, if its text has no
escapes. -/
theorem EscapeFree.quotation {source : String} (h : EscapeFree source) (paint : Paint)
    (start stop : Int) :
    Painting (quotation true paint source start stop)
      (quotation false paint source start stop) := by
  have hline : ∀ {cs}, cs ⊆ (locate source start).line.toList → EscapeFree (String.ofList cs) :=
    fun hcs => h.ofList (List.Subset.trans hcs (locate_line_subset source start))
  have hindent : EscapeFree "  " ∧ EscapeFree "\n" := by decide
  unfold QLanguage.quotation
  dsimp only
  generalize (locate source start).line.toList = line at hline ⊢
  generalize (locate source start).column - 1 = place
  generalize markWidth start stop line.length place = width
  have hleft := (hline (List.take_subset place line)).painting
  have hmarked := (hline (List.Subset.trans (List.take_subset width (line.drop place))
    (List.drop_subset place line))).painted paint
  have hright := (hline (List.drop_subset (place + width) line)).painting
  have hplace : EscapeFree (String.ofList (List.replicate place ' ')) := by
    simp [List.mem_replicate]
  have hmark : EscapeFree (String.ofList ('^' :: List.replicate (width - 1) '~')) :=
    escapeFree_ofList.2 (by simp [List.mem_replicate])
  exact ((((((hindent.1.painting.append hleft).append hmarked).append hright).append
    hindent.2.painting).append hindent.1.painting).append hplace.painting).append
      (hmark.painted paint)

namespace Reporter.Coloured

variable {r r' : Reporter}

/-- A reporter that knows no file. -/
theorem fresh (fatal : Bool) : (Reporter.fresh fatal true).Coloured (.fresh fatal false) :=
  .mk (.fresh fatal false) fun _ hentry => absurd hentry List.not_mem_nil

/-- The flag of the first reporter is set. -/
theorem colours_eq (h : r.Coloured r') : r.colours = true ∧ r'.colours = false := by
  cases h
  exact ⟨rfl, rfl⟩

/-- Both reporters know the same files, and faults are fatal for both or for none. -/
theorem same (h : r.Coloured r') : r'.fatal = r.fatal ∧ r'.files = r.files := by
  cases h
  exact ⟨rfl, rfl⟩

/-- A file without escapes may be made known. -/
theorem register (h : r.Coloured r') {path : String} (hpath : EscapeFree path)
    {source : Option String} (hsource : ∀ text ∈ source, EscapeFree text) :
    (r.register path source).Coloured (r'.register path source) := by
  cases h with
  | mk r h =>
    refine .mk (r.register path source) fun entry hentry => ?_
    rcases Table.mem_of_mem_set hentry with rfl | hentry
    · exact ⟨hpath, hsource⟩
    · exact h entry hentry

/-- A file may be forgotten. -/
theorem remove (h : r.Coloured r') (path : String) : (r.remove path).Coloured (r'.remove path) := by
  cases h with
  | mk r h =>
    exact .mk (r.remove path) fun entry hentry => h entry (List.mem_of_mem_filter hentry)

/-- Faults need not be fatal. -/
theorem unfatal (h : r.Coloured r') :
    Reporter.Coloured { r with fatal := false } { r' with fatal := false } := by
  cases h with
  | mk r h => exact .mk { r with fatal := false } h

/-- The heading of a report. -/
theorem heading (h : r.Coloured r') {f f' : Fault} (hf : f.Coloured f') :
    Painting (r.heading f) (r'.heading f') := by
  cases h with
  | mk r h =>
    cases hf with
    | mk cause hmessage =>
      have hmarks : EscapeFree ":" ∧ EscapeFree ": " := by decide
      unfold Reporter.heading
      dsimp only [Reporter.withColours, Fault.start, Fault.cause]
      generalize hlast : Table.last? _ = last
      rcases last with _ | ⟨path, source⟩
      · exact escapeFree_empty.painting
      · have hpath : EscapeFree path := (h _ (List.mem_of_getLast? hlast)).1
        dsimp only
        split <;> exact EscapeFree.painted (by simp [hpath, hmarks]) .bold

/-- The quotation of a report. -/
theorem quote (h : r.Coloured r') {f f' : Fault} (hf : f.Coloured f') (severity : Severity) :
    Paintings (r.quote severity f) (r'.quote severity f') := by
  cases h with
  | mk r h =>
    cases hf with
    | mk cause hmessage =>
      unfold Reporter.quote
      dsimp only [Reporter.withColours, Reporter.source?, Fault.quotes, Fault.internal, Fault.stop,
        Fault.start, Fault.cause]
      split
      · next source start stop hsource _ _ _ =>
        obtain ⟨⟨path, found⟩, hlast, hfound⟩ := Option.bind_eq_some_iff.1 hsource
        have htext := (h _ (List.mem_of_getLast? hlast)).2 source hfound
        have hend : EscapeFree "\n" := by decide
        exact .cons ((htext.quotation severity.paint start stop).append hend.painting) .nil
      · exact .nil

/-- The report of a fault. -/
theorem report (h : r.Coloured r') {f f' : Fault} (hf : f.Coloured f') (severity : Severity) :
    Paintings (r.report severity f) (r'.report severity f') := by
  have hheading := h.heading hf
  have hquote := h.quote hf severity
  have hlabel : EscapeFree (severity.label ++ ": ") := by cases severity <;> decide
  have hinternal : EscapeFree "[internal] " := escapeFree_ofList.2 (by decide)
  have hend : EscapeFree "\n" := by decide
  cases h with
  | mk r h =>
    cases hf with
    | @mk cause message message' hmessage =>
      have hmark : Painting
          (if (Fault.mk cause message).internal then painted true severity.paint "[internal] "
            else "")
          (if (Fault.mk cause message').internal then painted false severity.paint "[internal] "
            else "") := by
        change Painting (if (Fault.mk cause message).internal then _ else _)
          (if (Fault.mk cause message).internal then _ else _)
        split
        · exact hinternal.painted severity.paint
        · exact escapeFree_empty.painting
      exact .cons ((((hheading.append hmark).append (hlabel.painted severity.paint)).append
        hmessage).append hend.painting) hquote

/-- The reports of faults. -/
theorem reports (h : r.Coloured r') {faults faults' : List Fault}
    (hfaults : List.Forall₂ Fault.Coloured faults faults') (severity : Severity) :
    Paintings (faults.flatMap (r.report severity)) (faults'.flatMap (r'.report severity)) := by
  induction hfaults with
  | nil => exact .nil
  | cons hf _ ih =>
    rw [List.flatMap_cons, List.flatMap_cons]
    exact List.rel_append (h.report hf severity) ih

/-- The exits of both reporters. -/
theorem exit? (h : r.Coloured r') : Option.Rel Abort.Coloured r.exit? r'.exit? := by
  cases h with
  | mk r h =>
    change Option.Rel Abort.Coloured r.exit? r.exit?
    unfold Reporter.exit?
    split
    · exact .some (.exit 1)
    · exact .none

/-- An abort that reaches both reporters is written alike, and what goes on is alike again. -/
theorem guard (h : r.Coloured r') {abort abort' : Abort} (habort : abort.Coloured abort') :
    Paintings (r.guard abort).1 (r'.guard abort').1 ∧
      Option.Rel Abort.Coloured (r.guard abort).2 (r'.guard abort').2 := by
  -- What is announced leaves nothing to go on but the exit of the reporter.
  have hannounce : ∀ {f f' : Fault}, (Abort.fault f).Coloured (.fault f') →
      Paintings (r.announce (.fault f)).1 (r'.announce (.fault f')).1 ∧
        Option.Rel Abort.Coloured (r.announce (.fault f)).2 (r'.announce (.fault f')).2 := by
    intro f f' hf
    obtain ⟨faults, faults', hparts, hparts', hfaults⟩ := hf.exists_parts
    rw [r.announce_faults hparts, r'.announce_faults hparts']
    exact ⟨h.reports hfaults .error, h.exit?⟩
  cases habort with
  | fault hsingle hf => exact hannounce (.fault hsingle hf)
  | diagnostics hname hsome hds => exact hannounce (.diagnostics hname hsome hds)
  | tooDeep =>
    have hnote : EscapeFree "maximum recursion depth exceeded while evaluating" :=
      escapeFree_ofList.2 (by decide)
    rw [Reporter.guard, Reporter.guard, Abort.note_tooDeep, Abort.note_tooDeep]
    exact hannounce (.notice hnote.painting)
  | exit status => exact ⟨.nil, .some (.exit status)⟩
  | @failure f hbraces hkind hmessage =>
    have hmarks : EscapeFree "unknown error: '" ∧ EscapeFree ": " ∧ EscapeFree "'" := by
      and_intros <;> exact escapeFree_ofList.2 (by decide)
    have hreport : EscapeFree f.reportTemplate := by
      unfold Failure.reportTemplate
      simp only [escapeFree_append]
      exact ⟨⟨⟨⟨hmarks.1, hkind⟩, hmarks.2.1⟩, hmessage⟩, hmarks.2.2⟩
    rw [r.guard_failure_of_braceless hbraces, r'.guard_failure_of_braceless hbraces]
    refine ⟨h.report (.mk _ hreport.painting) .error, .some ?_⟩
    cases h with
    | mk r h =>
      change (if r.fatal then Abort.exit 1 else Abort.failure f).Coloured
        (if r.fatal then Abort.exit 1 else Abort.failure f)
      cases r.fatal with
      | true => exact .exit 1
      | false => exact .failure hbraces hkind hmessage

end Reporter.Coloured

/-! ## What is left without the sequences -/

mutual

/-- What a fault is about, without the sequences of paints in what is said of its members. -/
def Cause.uncoloured : Cause → Cause
  | .collected sourceName members => .collected sourceName (Abort.allUncoloured members)
  | cause => cause

/-- A fault without the sequences of paints in what is said. -/
def Fault.uncoloured : Fault → Fault
  | .mk cause message => .mk cause.uncoloured (QLanguage.uncoloured message)

/-- An abort without the sequences of paints in what is said. Nothing that is said of a failure is
painted. -/
def Abort.uncoloured : Abort → Abort
  | .fault f => .fault f.uncoloured
  | abort => abort

/-- Aborts without the sequences of paints in what is said. -/
def Abort.allUncoloured : List Abort → List Abort
  | [] => []
  | abort :: more => abort.uncoloured :: Abort.allUncoloured more

end

/-- Aborts are taken one by one. -/
theorem Abort.allUncoloured_eq_map (aborts : List Abort) :
    Abort.allUncoloured aborts = aborts.map Abort.uncoloured := by
  induction aborts with
  | nil => rfl
  | cons abort more ih => rw [Abort.allUncoloured, ih, List.map_cons]

/-- What is left of a fault that is no collection. -/
theorem Fault.Coloured.uncoloured_eq {f f' : Fault} (h : f.Coloured f')
    (hsingle : ∀ name members, f.cause ≠ .collected name members) : f.uncoloured = f' := by
  cases h with
  | mk cause h =>
    have hcause : cause.uncoloured = cause := by
      cases cause with
      | collected name members => exact absurd rfl (hsingle name members)
      | _ => rw [Cause.uncoloured]; exact fun _ _ => Cause.noConfusion
    rw [Fault.uncoloured, hcause, h.uncoloured_eq]

/-- What is left of an abort. -/
theorem Abort.Coloured.uncoloured_eq {abort abort' : Abort} (h : abort.Coloured abort') :
    abort.uncoloured = abort' := by
  cases h with
  | fault hsingle h => rw [Abort.uncoloured, h.uncoloured_eq hsingle]
  | @diagnostics name ds hname _ hds =>
    have hmembers : Abort.allUncoloured (ds.map fun d => .fault (d.fault true)) =
        ds.map fun d => .fault (d.fault false) := by
      rw [Abort.allUncoloured_eq_map, List.map_map]
      refine List.map_congr_left fun d hd => ?_
      exact congrArg Abort.fault ((hds d hd).fault.uncoloured_eq fun _ _ => Cause.noConfusion)
    rw [Abort.uncoloured, Diagnostic.faults, Fault.uncoloured, Cause.uncoloured, hmembers,
      (hname.countMessage _).uncoloured_eq, Diagnostic.faults]
  | tooDeep => rfl
  | exit => rfl
  | failure => rfl

end QLanguage
