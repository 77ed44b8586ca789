import QLanguage.Proofs.Reading.Leaves
import QLanguage.Proofs.Reading.Module
import QLanguage.Proofs.Spelling

/-!
# Source forms read back

The source form of a well-formed tree spells lexemes that derive it, so reading it gives the tree
back. Whatever is read from a source is well formed, also behind a malformed declaration: a
declaration derives from tokens of the source, and those have the shape that well-formed trees ask
for. So every module that was read reads back from its source form.
-/

namespace QLanguage

open Grammar

/-! ## Reading a source form -/

/-- A source that spells some lexemes has tokens of just these. -/
theorem tokens_of_spells {source : String} {ls : List Lexeme} (h : Spells source.toList ls []) :
    ∃ ts : List Token, tokens source = .ok ts ∧ ts.map Token.lexeme = ls := by
  obtain ⟨ts, hlexemes, hcut⟩ := h 0
  refine ⟨ts, tokens_eq_ok_iff.mpr ?_, hlexemes⟩
  rw [List.append_nil, lexemesFrom, List.append_nil] at hcut
  exact hcut

/-- The source form of a well-formed expression derives the expression. -/
theorem Expr.derives_source {e : Expr} (h : e.wellFormed = true) :
    Derives IsExpression e.source e := by
  obtain ⟨ls, hexpression, hspells⟩ := spells_expression h [] noLetter_nil
  obtain ⟨ts, htokens, rfl⟩ := tokens_of_spells hspells
  exact ⟨ts, htokens, hexpression⟩

/-- The source form of a well-formed module derives the module. -/
theorem Module.derives_source {m : Module} (h : m.wellFormed = true) :
    Derives IsModule m.source m.items := by
  unfold Module.wellFormed at h
  rw [List.all_eq_true] at h
  obtain ⟨ls, hmodule, hspells⟩ := spells_lines h
  obtain ⟨ts, htokens, rfl⟩ := tokens_of_spells hspells
  exact ⟨ts, htokens, hmodule⟩

/-- The source form of a well-formed expression reads as the expression. -/
theorem parseExpression_source {depth : Nat} {e : Expr} (h : e.wellFormed = true)
    (hnesting : e.nesting ≤ depth) : parseExpression depth e.source = .ok e :=
  parseExpression_eq_ok_iff.mpr ⟨Expr.derives_source h, hnesting⟩

/-- The source form of a well-formed module reads as the module. -/
theorem parseModule_source {depth : Nat} {m : Module} (h : m.wellFormed = true)
    (hnesting : m.nesting ≤ depth) : parseModule depth m.name m.source = .ok ⟨m, []⟩ :=
  parseModule_complete m.name (Module.derives_source h) fun _ hd =>
    Nat.le_trans (Module.nesting_le hd) hnesting

/-! ## What is read is well formed -/

/-- An expression that derives from lexemes of a source is well formed. The induction is on the
levels to which it nests. -/
theorem wellFormed_of_isExpressionWithin (depth : Nat) {ls : List Lexeme} {e : Expr}
    (h : IsExpressionWithin depth ls e) (hls : ∀ l ∈ ls, l.inSource = true) :
    e.wellFormed = true := by
  induction depth generalizing ls e with
  | zero =>
    have hpos := e.nesting_pos
    have hle := h.2
    omega
  | succ depth ih =>
    cases e with
    | string text =>
      obtain ⟨hstring, -⟩ := h
      cases hstring
      exact hls (.string text) (List.mem_singleton_self _)
    | «variable» name =>
      obtain ⟨hvariable, -⟩ := h
      cases hvariable
      exact hls (.identifier name) (List.mem_singleton_self _)
    | call name args =>
      obtain ⟨ls', rfl, harguments⟩ := isExpressionWithin_call_iff.mp h
      rw [Expr.wellFormed, Bool.and_eq_true, Expr.allWellFormed_iff]
      refine ⟨hls (.identifier name) List.mem_cons_self, ?_⟩
      intro e he
      -- An argument derives from lexemes of the call, and these are from the source.
      obtain ⟨ls'', hexpression, hsub⟩ := harguments.exists_of_mem he
      exact ih hexpression fun l hl => hls l (List.mem_cons_of_mem _ (hsub hl))
    | function first others =>
      have hrow := isExpressionWithin_function_iff.mp h
      have hclauses : ∀ c ∈ first :: others, c.wellFormed = true := by
        rintro ⟨patterns, body⟩ hc
        obtain ⟨ls', hclause, hsub⟩ := hrow.exists_of_mem hc
        obtain ⟨ls₁, ls₂, rfl, hparameters, hinside⟩ := isClauseWithin_iff.mp hclause
        rw [Clause.wellFormed, Bool.and_eq_true, List.all_eq_true]
        refine ⟨?_, ih hinside fun l hl => hls l (hsub ?_)⟩
        · intro p hp
          obtain ⟨ls'', hpattern, hsub'⟩ := hparameters.exists_of_mem hp
          obtain ⟨name⟩ := hpattern
          have hname := hsub' (List.mem_singleton_self (Lexeme.identifier name))
          exact hls (.identifier name) (hsub (List.mem_append_left _ hname))
        · exact List.mem_append_right _ (List.mem_cons_of_mem _ (List.mem_append_left _ hl))
      rw [List.forall_mem_cons] at hclauses
      rw [Expr.wellFormed, Bool.and_eq_true, Clause.allWellFormed_iff]
      exact hclauses

/-- A declaration that derives from lexemes of a source is well formed. -/
theorem wellFormed_of_isDeclarationWithin {depth : Nat} {ls : List Lexeme} {d : Declaration}
    (h : IsDeclarationWithin depth ls d) (hls : ∀ l ∈ ls, l.inSource = true) :
    d.wellFormed = true := by
  obtain ⟨ls', rfl, hexpression⟩ := isDeclarationWithin_iff.mp h
  unfold Declaration.wellFormed
  rw [Bool.and_eq_true]
  refine ⟨hls (.identifier d.name) List.mem_cons_self, ?_⟩
  exact wellFormed_of_isExpressionWithin depth hexpression fun l hl =>
    hls l (List.mem_cons_of_mem _ (List.mem_cons_of_mem _ hl))

/-- Every declaration among the entries of a source, whatever the others are, is well formed and
nests within the levels that are given. -/
theorem Reading.wellFormed_of_mem_entriesWithin {depth fuel : Nat} {sourceName source : String}
    {c c' : Cursor} {es : List Entry} (hc : c.InSource)
    (h : (Reading.entriesWithin depth sourceName source fuel).run c = (.ok es, c'))
    {d : Declaration} (hd : Except.ok d ∈ es) :
    d.wellFormed = true ∧ d.value.nesting ≤ depth := by
  induction fuel generalizing c es with
  | zero =>
    cases h
    cases hd
  | succ fuel ih =>
    obtain ⟨found, c₁, hpeek, h⟩ := Step.run_bind_eq_ok_iff.mp h
    cases Reading.run_peek_ok hpeek
    cases found with
    | none =>
      cases h
      cases hd
    | some token =>
      obtain ⟨entry, c₂, hentry, h⟩ := Step.run_bind_eq_ok_iff.mp h
      obtain ⟨more, c₃, hmore, h⟩ := Step.run_bind_eq_ok_iff.mp h
      cases h
      rcases List.mem_cons.mp hd with hhead | htail
      · subst hhead
        obtain ⟨ts, hmoves, hrule⟩ := Reading.sound_declaration hc (Reading.run_recorded_ok hentry)
        refine ⟨wellFormed_of_isDeclarationWithin hrule ?_, hrule.2⟩
        intro l hl
        obtain ⟨t, ht, rfl⟩ := List.mem_map.mp hl
        exact hc.moves hmoves t ht
      · -- Behind any entry, also a malformed one, a suffix of the source is left.
        have hleaves := Reading.keeps_recorded (Reading.keeps_declaration depth sourceName source) c
        rw [hentry] at hleaves
        exact ih (hc.leaves hleaves) hmore htail

/-- Every module that is read, with diagnostics or without, is well formed and nests within the
levels that are given. -/
theorem parseModule_wellFormed {depth : Nat} {name source : String} {parsed : Parsed}
    (h : parseModule depth name source = .ok parsed) :
    parsed.module.name = name ∧ parsed.module.wellFormed = true ∧
      parsed.module.nesting ≤ depth := by
  unfold parseModule at h
  rcases hrun : (Reading.entries depth name source).run (Cursor.ofSource source) with
    ⟨stop | es, last⟩ <;> rw [hrun] at h <;> cases h
  have hitems : ∀ d ∈ (Parsed.ofEntries name es).module.items,
      d.wellFormed = true ∧ d.value.nesting ≤ depth := by
    intro d hd
    obtain ⟨entry, hentry, hd⟩ := List.mem_filterMap.mp hd
    cases entry with
    | error _ => cases hd
    | ok d' =>
      cases hd
      exact Reading.wellFormed_of_mem_entriesWithin (Cursor.inSource_ofSource source) hrun hentry
  refine ⟨rfl, ?_, ?_⟩
  · unfold Module.wellFormed
    rw [List.all_eq_true]
    exact fun d hd => (hitems d hd).1
  · unfold Module.nesting
    rw [Expr.nestingAll_le_iff]
    intro e he
    obtain ⟨d, hd, rfl⟩ := List.mem_map.mp he
    exact (hitems d hd).2

/-- Well-formed expressions and modules that nest within the levels that are given read back from
their source forms. Every module that is read, with diagnostics or without, is well formed and
reads back too. -/
theorem source_reads_back (depth : Nat) :
    (∀ e : Expr, e.wellFormed = true → e.nesting ≤ depth →
      parseExpression depth e.source = .ok e) ∧
    (∀ m : Module, m.wellFormed = true → m.nesting ≤ depth →
      parseModule depth m.name m.source = .ok ⟨m, []⟩) ∧
    ∀ (name source : String) (parsed : Parsed), parseModule depth name source = .ok parsed →
      parsed.module.wellFormed = true ∧
        parseModule depth name parsed.module.source = .ok ⟨parsed.module, []⟩ := by
  refine ⟨fun e => parseExpression_source, fun m => parseModule_source, ?_⟩
  intro name source parsed h
  obtain ⟨hname, hwell, hnesting⟩ := parseModule_wellFormed h
  refine ⟨hwell, ?_⟩
  rw [← hname]
  exact parseModule_source hwell hnesting

/-- A call with two clauses as its argument, one of which has a function inside it. -/
def nestedCall : Expr :=
  .call "f" [.function (.mk [.bind "x"] (.function (.mk [] (.string "a\\\"b")) []))
    [.mk [] (.variable "x")]]

/-- An escaped quote inside two functions reads back, and so does what is left of a source whose
first declaration is malformed. -/
theorem source_reads_back_escaped :
    parseExpression 4 nestedCall.source = .ok nestedCall ∧
    ∃ parsed, parseModule 2 "m" "f = ) g = \"a\\\"b\"" = .ok parsed ∧ parsed.diagnostics ≠ [] ∧
      parsed.module.wellFormed = true ∧
      parseModule 2 "m" parsed.module.source = .ok ⟨parsed.module, []⟩ := by
  refine ⟨(source_reads_back 4).1 nestedCall (by decide) (by decide), ?_⟩
  obtain ⟨parsed, hparsed, hcount⟩ : ∃ parsed,
      parseModule 2 "m" "f = ) g = \"a\\\"b\"" = .ok parsed ∧ parsed.diagnostics.length = 1 :=
    Step.exists_ok_of_map (by decide +kernel)
  have hdiagnostics : parsed.diagnostics ≠ [] := List.length_pos_iff.1 (by rw [hcount]; decide)
  exact ⟨parsed, hparsed, hdiagnostics, (source_reads_back 2).2.2 "m" _ parsed hparsed⟩

end QLanguage
