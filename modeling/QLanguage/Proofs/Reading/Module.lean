import QLanguage.Proofs.Reading.Complete
import QLanguage.Proofs.Reading.Levels

/-!
# Reading accepts exactly the grammar

The reading of one declaration is sound and complete for its rule, and so is the loop over the
declarations of a module as long as none of them is malformed. Put together, a module is read
without diagnostics exactly when the tokens of its source derive it, and an expression exactly when
they derive it and it nests within the levels that are given.

The grammar has no ambiguity because the reader is complete for it: two trees of the same lexemes
would both be what one and the same reading gives.
-/

namespace QLanguage

open Grammar

/-- The tokens of a source derive a tree by a rule. -/
def Derives {α : Type} (rule : List Lexeme → α → Prop) (source : String) (a : α) : Prop :=
  ∃ ts : List Token, tokens source = .ok ts ∧ rule (ts.map Token.lexeme) a

namespace Reading

variable {α : Type} {depth : Nat} {sourceName source : String}

/-! ## Recovery gives no result -/

/-- A reading that skips behind a malformed source gives a result only if it met none. -/
theorem run_orSkip_ok {reading : Reading α} {c c' : Cursor} {a : α}
    (h : (orSkip reading).run c = (.ok a, c')) : reading.run c = (.ok a, c') := by
  unfold orSkip at h
  rw [Step.run_tryCatch] at h
  rcases hrun : reading.run c with ⟨stop | b, mid⟩ <;> rw [hrun] at h <;> dsimp only at h
  · cases stop with
    | diagnostic d =>
      obtain ⟨_, _, _, hthrow⟩ := Step.run_bind_eq_ok_iff.mp h
      cases hthrow
    | overlong digits => cases h
    | tooDeep => cases h
  · exact h

/-- A reading that gives a result does not skip. -/
theorem run_orSkip_of_ok {reading : Reading α} {c c' : Cursor} {a : α}
    (h : reading.run c = (.ok a, c')) : (orSkip reading).run c = (.ok a, c') := by
  unfold orSkip
  rw [Step.run_tryCatch, h]

/-- A recorded result is the result of the reading. -/
theorem run_recorded_ok {reading : Reading α} {c c' : Cursor} {a : α}
    (h : (recorded reading).run c = (.ok (.ok a), c')) : reading.run c = (.ok a, c') := by
  unfold recorded at h
  rw [Step.run_tryCatch] at h
  rcases hrun : reading.run c with ⟨stop | b, mid⟩
  · rw [Step.run_bind_error hrun] at h
    dsimp only at h
    cases stop <;> cases h
  · rw [Step.run_bind_ok hrun] at h
    cases h
    rfl

/-- A result is recorded as it is. -/
theorem run_recorded_of_ok {reading : Reading α} {c c' : Cursor} {a : α}
    (h : reading.run c = (.ok a, c')) : (recorded reading).run c = (.ok (.ok a), c') := by
  unfold recorded
  rw [Step.run_tryCatch, Step.run_bind_ok h]
  rfl

/-! ## Declarations -/

/-- Values are read soundly. -/
theorem sound_value (name : String) :
    Sound (IsExpressionWithin depth) (value depth sourceName source name) := by
  intro c c' e hc h
  obtain ⟨found, c₁, hpeek, h⟩ := Step.run_bind_eq_ok_iff.mp h
  cases run_peek_ok hpeek
  cases found with
  | none =>
    obtain ⟨_, _, _, hthrow⟩ := Step.run_bind_eq_ok_iff.mp h
    cases hthrow
  | some token =>
    dsimp only at h
    split at h
    · exact sound_expression depth hc h
    · obtain ⟨_, _, _, hthrow⟩ := Step.run_bind_eq_ok_iff.mp h
      cases hthrow

/-- Declarations are read soundly. -/
theorem sound_declaration :
    Sound (IsDeclarationWithin depth) (declaration depth sourceName source) := by
  intro c c' d hc h
  obtain ⟨head, c₁, hnext, h⟩ := Step.run_bind_eq_ok_iff.mp h
  have hmoves := run_next_ok hnext
  have hc₁ := hc.leaves hmoves.leaves
  obtain ⟨lexeme, span⟩ := head
  cases lexeme with
  | identifier name =>
    obtain ⟨t, c₂, hexpect, h⟩ := Step.run_bind_eq_ok_iff.mp h
    obtain ⟨e, c₃, hvalue, h⟩ := Step.run_bind_eq_ok_iff.mp h
    cases h
    obtain ⟨hmoves₁, hlexeme⟩ := sound_expect hc₁ hexpect
    obtain ⟨ts, hmoves₂, hexpression⟩ :=
      sound_value name (hc₁.leaves hmoves₁.leaves) (run_orSkip_ok hvalue)
    refine ⟨_, hmoves.trans (hmoves₁.trans hmoves₂), ?_⟩
    rw [isDeclarationWithin_iff]
    refine ⟨ts.map Token.lexeme, ?_, hexpression⟩
    simp [hlexeme]
  | _ =>
    obtain ⟨_, _, _, hthrow⟩ := Step.run_bind_eq_ok_iff.mp h
    cases hthrow

/-- Declarations whose values nest within the levels that are given are all read. -/
theorem complete_declaration (sourceName source : String) :
    Complete AfterExpression (IsDeclarationWithin depth) (declaration depth sourceName source) := by
  intro ts d rest span length hrule hrest
  obtain ⟨ls, hls, hexpression⟩ := isDeclarationWithin_iff.mp hrule
  obtain ⟨t, ts₁, rfl, hname, hls₁⟩ := List.map_eq_cons_iff.mp hls
  obtain ⟨t', ts₂, rfl, hequal, rfl⟩ := List.map_eq_cons_iff.mp hls₁
  obtain ⟨span', hrun⟩ := complete_expression depth rest t'.span length hexpression hrest
  -- The value is tried only where an expression can start, and one starts there.
  obtain ⟨l, ls', hls', hstarts⟩ := hexpression.1.exists_first
  obtain ⟨t'', ts₃, rfl, rfl, -⟩ := List.map_eq_cons_iff.mp hls'
  have hvalue : (value depth sourceName source d.name).run
      ⟨(t'' :: ts₃).map .token ++ rest, t'.span, length⟩ =
        (.ok d.value, ⟨rest, span', length⟩) := by
    unfold value
    rw [List.map_cons, List.cons_append, Step.run_bind_ok (run_peek_token _ _ _ _)]
    dsimp only
    rw [if_pos hstarts]
    exact hrun
  refine ⟨span', ?_⟩
  unfold declaration
  rw [List.map_cons, List.map_cons, List.cons_append, List.cons_append,
    Step.run_bind_ok (run_next_token _ _ _ _), hname]
  dsimp only
  rw [Step.run_bind_ok (run_expect_token (kind_of_lexeme hequal) _ t.span length),
    Step.run_bind_ok (run_orSkip_of_ok hvalue)]
  rfl

/-! ## The declarations of a module -/

/-- Where every entry is a declaration, the tokens up to the end of the source derive them. -/
theorem sound_entriesWithin {fuel : Nat} {c c' : Cursor} {ds : List Declaration} (hc : c.InSource)
    (hfuel : c.rest.length ≤ fuel)
    (h : (entriesWithin depth sourceName source fuel).run c = (.ok (ds.map .ok), c')) :
    ∃ ts : List Token, c.rest = ts.map .token ∧ IsModule (ts.map Token.lexeme) ds ∧
      ∀ d ∈ ds, d.value.nesting ≤ depth := by
  induction fuel generalizing c ds with
  | zero =>
    have hrest : c.rest = [] := List.eq_nil_of_length_eq_zero (Nat.le_zero.mp hfuel)
    have hds : ds = [] := by
      cases ds with
      | nil => rfl
      | cons d ds => cases h
    subst hds
    exact ⟨[], hrest, .nil, by simp⟩
  | succ fuel ih =>
    obtain ⟨found, c₁, hpeek, h⟩ := Step.run_bind_eq_ok_iff.mp h
    cases run_peek_ok hpeek
    cases found with
    | none =>
      have hds : ds = [] := by
        cases ds with
        | nil => rfl
        | cons d ds => cases h
      subst hds
      exact ⟨[], run_peek_none hpeek, .nil, by simp⟩
    | some token =>
      obtain ⟨entry, c₂, hentry, h⟩ := Step.run_bind_eq_ok_iff.mp h
      obtain ⟨more, c₃, hmore, h⟩ := Step.run_bind_eq_ok_iff.mp h
      cases ds with
      | nil => cases h
      | cons d ds =>
        cases h
        obtain ⟨ts, hmoves, hrule⟩ := sound_declaration hc (run_recorded_ok hentry)
        -- A declaration moves over a token at least, so the fuel lasts for the others.
        have hlength : c₂.rest.length ≤ fuel := by
          have hpos : 0 < ts.length := by
            obtain ⟨ls, hls⟩ := hrule.1.exists_identifier
            obtain ⟨t, ts', rfl, -, -⟩ := List.map_eq_cons_iff.mp hls
            exact Nat.succ_pos _
          rw [hmoves.1, List.length_append, List.length_map] at hfuel
          omega
        obtain ⟨ts', hrest, hmodule, hall⟩ := ih (hc.leaves hmoves.leaves) hlength hmore
        refine ⟨ts ++ ts', ?_, ?_, ?_⟩
        · rw [hmoves.1, hrest, List.map_append]
        · rw [List.map_append]
          exact .cons hrule.1 hmodule
        · rw [List.forall_mem_cons]
          exact ⟨hrule.2, hall⟩

/-- Declarations are all read, up to what follows them, and the reading goes on from there. -/
theorem run_entriesWithin_declarations (sourceName source : String) {ts : List Token}
    {ds : List Declaration} {rest : List Lexed} (span : Span) (length more : Nat)
    (hmodule : IsModule (ts.map Token.lexeme) ds) (hall : ∀ d ∈ ds, d.value.nesting ≤ depth)
    (hrest : AfterExpression rest) :
    ∃ span', (entriesWithin depth sourceName source (ds.length + more)).run
        ⟨ts.map .token ++ rest, span, length⟩ =
      (do return ds.map Except.ok ++ (← entriesWithin depth sourceName source more)).run
        ⟨rest, span', length⟩ := by
  -- The induction is on the derivation, so each declaration comes with the rule that made it.
  generalize hls : ts.map Token.lexeme = ls at hmodule
  induction hmodule generalizing ts span with
  | nil =>
    rw [List.map_eq_nil_iff] at hls
    subst hls
    exact ⟨span, by simp⟩
  | @cons _ _ d ds first others ih =>
    obtain ⟨ts₁, ts₂, rfl, rfl, rfl⟩ := List.map_eq_append_iff.mp hls
    rw [List.forall_mem_cons] at hall
    -- Behind a declaration comes another one, which starts with a name, or what follows all.
    have hbehind : AfterExpression (ts₂.map .token ++ rest) := by
      rcases others.eq_nil_or_identifier with hnil | ⟨name, ls', hcons⟩
      · rw [List.map_eq_nil_iff] at hnil
        subst hnil
        exact hrest
      · obtain ⟨t, ts', rfl, hlexeme, -⟩ := List.map_eq_cons_iff.mp hcons
        apply notNext_cons
        intro p _
        rw [Token.kind, hlexeme]
        simp [Lexeme.kind]
    obtain ⟨span₁, hrun⟩ := complete_declaration sourceName source _ span length
      ⟨first, hall.1⟩ hbehind
    obtain ⟨span₂, hothers⟩ := ih span₁ hall.2 rfl
    obtain ⟨ls, hls⟩ := first.exists_identifier
    obtain ⟨t, ts', rfl, -, -⟩ := List.map_eq_cons_iff.mp hls
    refine ⟨span₂, ?_⟩
    rw [List.length_cons, Nat.add_right_comm, entriesWithin, List.map_append, List.append_assoc]
    rw [List.map_cons, List.cons_append] at hrun ⊢
    rw [Step.run_bind_ok (run_peek_token _ _ _ _)]
    dsimp only
    rw [Step.run_bind_ok (run_recorded_of_ok hrun), Step.run_bind, hothers, ← Step.run_bind]
    simp

/-- Declarations up to the end of the source are all read. -/
theorem complete_entriesWithin (sourceName source : String) {fuel : Nat} {ts : List Token}
    {ds : List Declaration} (span : Span) (length : Nat) (hfuel : ts.length ≤ fuel)
    (hmodule : IsModule (ts.map Token.lexeme) ds) (hall : ∀ d ∈ ds, d.value.nesting ≤ depth) :
    ((entriesWithin depth sourceName source fuel).run ⟨ts.map .token, span, length⟩).1 =
      .ok (ds.map .ok) := by
  have hlength := hmodule.length_le
  rw [List.length_map] at hlength
  obtain ⟨more, rfl⟩ := Nat.exists_eq_add_of_le (Nat.le_trans hlength hfuel)
  obtain ⟨span', hrun⟩ := run_entriesWithin_declarations sourceName source span length more hmodule
    hall (notNext_nil _)
  have hend : (entriesWithin depth sourceName source more).run ⟨[], span', length⟩ =
      (.ok [], ⟨[], span', length⟩) := by
    cases more <;> rfl
  rw [List.append_nil] at hrun
  rw [hrun, Step.run_bind_ok hend, List.append_nil]
  rfl

end Reading

/-! ## Whole sources -/

section Sources

variable {depth : Nat} {name source : String}

/-- Entries that are all declarations make a module without diagnostics. -/
theorem Parsed.ofEntries_declarations (name : String) (ds : List Declaration) :
    Parsed.ofEntries name (ds.map .ok) = ⟨⟨name, ds⟩, []⟩ := by
  unfold Parsed.ofEntries
  rw [List.filterMap_map, List.filterMap_map]
  have hitems : ds.filterMap some = ds := List.filterMap_some
  have hnone : (ds.filterMap fun _ => none : List Diagnostic) = [] := by simp
  exact congr (congrArg Parsed.mk (congrArg (Module.mk name) hitems)) hnone

/-- Where there are no diagnostics, all entries are declarations. -/
theorem Parsed.entries_of_diagnostics_nil {name : String} {es : List Entry}
    (h : (Parsed.ofEntries name es).diagnostics = []) :
    es = (Parsed.ofEntries name es).module.items.map .ok := by
  induction es with
  | nil => rfl
  | cons entry es ih =>
    cases entry with
    | error d => cases h
    | ok d => exact congrArg _ (ih h)

/-- A module that is read without diagnostics derives from the tokens of its source. -/
theorem parseModule_sound {parsed : Parsed} (h : parseModule depth name source = .ok parsed)
    (hnone : parsed.diagnostics = []) :
    ∃ ds, parsed = ⟨⟨name, ds⟩, []⟩ ∧ Derives IsModule source ds ∧
      ∀ d ∈ ds, d.value.nesting ≤ depth := by
  unfold parseModule at h
  rcases hrun : (Reading.entries depth name source).run (Cursor.ofSource source) with
    ⟨stop | es, last⟩ <;> rw [hrun] at h <;> cases h
  -- Without diagnostics the entries are the declarations, and they go up to the end of the source.
  have hes := Parsed.entries_of_diagnostics_nil hnone
  generalize (Parsed.ofEntries name es).module.items = ds at hes
  subst hes
  obtain ⟨ts, hrest, hmodule, hall⟩ := Reading.sound_entriesWithin
    (Cursor.inSource_ofSource source) (Nat.le_refl _) hrun
  exact ⟨ds, Parsed.ofEntries_declarations name ds, ⟨ts, tokens_eq_ok_iff.mpr hrest, hmodule⟩, hall⟩

/-- A module that derives from the tokens of a source, within the levels that are given, is read
without diagnostics. -/
theorem parseModule_complete (name : String) {ds : List Declaration}
    (hderives : Derives IsModule source ds) (hall : ∀ d ∈ ds, d.value.nesting ≤ depth) :
    parseModule depth name source = .ok ⟨⟨name, ds⟩, []⟩ := by
  obtain ⟨ts, htokens, hmodule⟩ := hderives
  have hrest := tokens_eq_ok_iff.mp htokens
  have hlength : (lexemes source).length = ts.length := by rw [hrest, List.length_map]
  have hfuel : ts.length ≤ (lexemes source).length := Nat.le_of_eq hlength.symm
  have hentries := Reading.complete_entriesWithin name source .origin source.length hfuel hmodule
    hall
  rw [← hrest] at hentries
  have hrun : ((Reading.entries depth name source).run (Cursor.ofSource source)).1 =
      .ok (ds.map .ok) := hentries
  unfold parseModule
  rw [hrun, Except.map, Parsed.ofEntries_declarations]

/-- An expression is read exactly when it derives from the tokens of the source and nests within
the levels that are given. -/
theorem parseExpression_eq_ok_iff {e : Expr} :
    parseExpression depth source = .ok e ↔ Derives IsExpression source e ∧ e.nesting ≤ depth := by
  constructor
  · intro h
    unfold parseExpression at h
    rcases hrun : (Reading.wholeExpression depth).run (Cursor.ofSource source) with
      ⟨stop | e', last⟩ <;> rw [hrun] at h <;> cases h
    obtain ⟨e', c₁, hexpression, h⟩ := Step.run_bind_eq_ok_iff.mp hrun
    obtain ⟨found, c₂, hpeek, h⟩ := Step.run_bind_eq_ok_iff.mp h
    cases found with
    | none =>
      cases h
      obtain ⟨ts, hmoves, hrule⟩ :=
        Reading.sound_expression depth (Cursor.inSource_ofSource source) hexpression
      have hrest : (Cursor.ofSource source).rest = ts.map .token := by
        rw [hmoves.1, Reading.run_peek_none hpeek, List.append_nil]
      exact ⟨⟨ts, tokens_eq_ok_iff.mpr hrest, hrule.1⟩, hrule.2⟩
    | some token =>
      obtain ⟨_, _, _, hthrow⟩ := Step.run_bind_eq_ok_iff.mp h
      cases hthrow
  · rintro ⟨⟨ts, htokens, hexpression⟩, hnesting⟩
    obtain ⟨span, hrun⟩ := Reading.complete_expression depth [] .origin source.length
      ⟨hexpression, hnesting⟩ (Reading.notNext_nil _)
    rw [List.append_nil, ← tokens_eq_ok_iff.mp htokens] at hrun
    unfold parseExpression Reading.wholeExpression Cursor.ofSource
    rw [Step.run_bind_ok hrun]
    rfl

/-! ## One tree for the lexemes of a source -/

/-- The tokens of a source derive one expression at most. -/
theorem Derives.expression_unique {e e' : Expr} (h : Derives IsExpression source e)
    (h' : Derives IsExpression source e') : e = e' := by
  have hread : parseExpression (max e.nesting e'.nesting) source = .ok e :=
    parseExpression_eq_ok_iff.mpr ⟨h, Nat.le_max_left _ _⟩
  have hread' : parseExpression (max e.nesting e'.nesting) source = .ok e' :=
    parseExpression_eq_ok_iff.mpr ⟨h', Nat.le_max_right _ _⟩
  rw [hread, Except.ok.injEq] at hread'
  exact hread'

/-- The tokens of a source derive one module at most. -/
theorem Derives.module_unique {ds ds' : List Declaration} (h : Derives IsModule source ds)
    (h' : Derives IsModule source ds') : ds = ds' := by
  -- Enough levels for the values of both.
  let depth := max (Module.mk "" ds).nesting (Module.mk "" ds').nesting
  have hall : ∀ d ∈ ds, d.value.nesting ≤ depth := fun d hd =>
    Nat.le_trans (Module.nesting_le hd) (Nat.le_max_left _ _)
  have hall' : ∀ d ∈ ds', d.value.nesting ≤ depth := fun d hd =>
    Nat.le_trans (Module.nesting_le hd) (Nat.le_max_right _ _)
  have hread := parseModule_complete "" h hall
  have hread' := parseModule_complete "" h' hall'
  rw [hread] at hread'
  cases hread'
  rfl

/-- A module is read without diagnostics exactly when the tokens of its source derive one, which is
then the module that is read and the only one; it is read whenever it nests within the levels that
are given. An expression is read exactly when the tokens of the source derive it, within the
levels that are given, and it is the only one that they derive. -/
theorem parse_iff_derives (depth : Nat) (name source : String) :
    (∀ parsed, parseModule depth name source = .ok parsed →
      (parsed.diagnostics = [] ↔ ∃ ds, Derives IsModule source ds) ∧
      ∀ ds, Derives IsModule source ds → parsed.module = ⟨name, ds⟩) ∧
    (∀ ds, Derives IsModule source ds → (∀ d ∈ ds, d.value.nesting ≤ depth) →
      parseModule depth name source = .ok ⟨⟨name, ds⟩, []⟩) ∧
    (∀ ds ds', Derives IsModule source ds → Derives IsModule source ds' → ds = ds') ∧
    (∀ e, parseExpression depth source = .ok e ↔
      Derives IsExpression source e ∧ e.nesting ≤ depth) ∧
    ∀ e e', Derives IsExpression source e → Derives IsExpression source e' → e = e' := by
  refine ⟨?_, fun ds => parseModule_complete name, fun ds ds' => Derives.module_unique,
    fun e => parseExpression_eq_ok_iff, fun e e' => Derives.expression_unique⟩
  intro parsed hparse
  -- With enough levels for the derived module, the reading is the same and finds just that.
  have hderived : ∀ ds, Derives IsModule source ds → parsed = ⟨⟨name, ds⟩, []⟩ := by
    intro ds hderives
    let enough := max depth (Module.mk name ds).nesting
    have hread := parseModule_levels (Nat.le_max_left depth (Module.mk name ds).nesting) hparse
    have hread' : parseModule enough name source = .ok ⟨⟨name, ds⟩, []⟩ :=
      parseModule_complete name hderives fun d hd =>
        Nat.le_trans (Module.nesting_le hd) (Nat.le_max_right _ _)
    rw [hread, Except.ok.injEq] at hread'
    exact hread'
  refine ⟨⟨?_, ?_⟩, ?_⟩
  · intro hnone
    obtain ⟨ds, -, hderives, -⟩ := parseModule_sound hparse hnone
    exact ⟨ds, hderives⟩
  · rintro ⟨ds, hderives⟩
    rw [hderived ds hderives]
  · intro ds hderives
    rw [hderived ds hderives]

/-- A function of two clauses is derived and read; a comma without arguments around it is not. -/
theorem parse_iff_derives_two_clauses :
    (∃ ds, parseModule 3 "m" "f = (x) \x7b x \x7d; () \x7b g(f, \"y\") \x7d" = .ok ⟨⟨"m", ds⟩, []⟩ ∧
      Derives IsModule "f = (x) \x7b x \x7d; () \x7b g(f, \"y\") \x7d" ds) ∧
    ¬∃ ds, Derives IsModule "f = g(,)" ds := by
  refine ⟨?_, ?_⟩
  · have hread : parseModule 3 "m" "f = (x) \x7b x \x7d; () \x7b g(f, \"y\") \x7d" = .ok ⟨⟨"m",
        [⟨"f", .function (.mk [.bind "x"] (.variable "x"))
          [.mk [] (.call "g" [.variable "f", .string "y"])]⟩]⟩, []⟩ := by decide +kernel
    obtain ⟨hderivable, hmodule⟩ := (parse_iff_derives 3 "m" _).1 _ hread
    obtain ⟨ds, hderives⟩ := hderivable.1 rfl
    refine ⟨ds, ?_, hderives⟩
    rw [hread, ← hmodule ds hderives]
  · have hread : parseModule 3 "m" "f = g(,)" =
        .ok ⟨⟨"m", []⟩, [.expectedExpression ⟨.punct .comma, ⟨6, 7⟩⟩]⟩ := by decide +kernel
    intro hderivable
    exact List.cons_ne_nil _ _ (((parse_iff_derives 3 "m" _).1 _ hread).1.2 hderivable)

end Sources

end QLanguage
