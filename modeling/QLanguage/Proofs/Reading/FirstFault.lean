import Mathlib.Order.Nat
import QLanguage.Proofs.Reading.Recovery

/-!
# The first diagnostic stands at the first fault

Tokens that derive no module stop being viable at one of them, or stay viable up to the end of the
source. The first diagnostic tells which: it points at that token, or it is the only one and points
at the end (`FirstFault`).

The segments of a source give this from the front. In front of the first diagnostic stand segments
of declarations, and a declaration is read as far as it goes, so every module that starts with the
tokens of its segment starts with that declaration (`isModule_of_append`).
-/

namespace QLanguage

open Grammar

/-! ## Declarations in front of a module -/

/-- No expression is another one with a name behind it. -/
theorem not_isExpression_append_identifier {ls ls' : List Lexeme} {e : Expr} {name : String}
    (h : IsExpression ls e) (e' : Expr) : ¬IsExpression (ls ++ .identifier name :: ls') e' := by
  intro h'
  -- One reading, with levels enough for both, would stop before the name and behind it.
  have hts := Reading.map_lexeme_tokensOf (ls ++ .identifier name :: ls')
  obtain ⟨left, span, hleft, hread⟩ := Reading.run_expression_of_derived h
    (Nat.le_max_left e.nesting e'.nesting) (.inr ⟨name, ls', rfl⟩) hts .origin 0
  obtain ⟨left', span', hleft', hread'⟩ := Reading.run_expression_of_derived h'
    (Nat.le_max_right e.nesting e'.nesting) (.inl rfl) (hts.trans (List.append_nil _).symm)
    .origin 0
  rw [hread, Prod.mk.injEq, Cursor.mk.injEq] at hread'
  have hlength := congrArg List.length hread'.2.1
  rw [List.length_map, List.length_map, ← List.length_map Token.lexeme, hleft,
    ← List.length_map Token.lexeme, hleft'] at hlength
  cases hlength

/-- No declaration is another one with a name behind it. -/
theorem not_isDeclaration_append_identifier {ls ls' : List Lexeme} {d : Declaration} {name : String}
    (h : IsDeclaration ls d) (d' : Declaration) :
    ¬IsDeclaration (ls ++ .identifier name :: ls') d' := by
  obtain ⟨name', hvalue⟩ := h
  intro h'
  cases h' with
  | mk _ hvalue' => exact not_isExpression_append_identifier hvalue _ hvalue'

/-- A module that starts with a declaration, which does not go on over the next lexeme, goes on with
a module. -/
theorem isModule_of_append {ls ls' : List Lexeme} {l : Lexeme} {d : Declaration}
    {ds : List Declaration} (hd : IsDeclaration ls d) (hends : ¬Viable IsDeclaration (ls ++ [l]))
    (h : IsModule (ls ++ l :: ls') ds) : ∃ ds', IsModule (l :: ls') ds' := by
  generalize hall : ls ++ l :: ls' = all at h
  cases h with
  | nil =>
    rw [List.append_eq_nil_iff] at hall
    cases hall.2
  | @cons first others d' ds' hfirst hothers =>
    rcases List.append_eq_append_iff.mp hall with ⟨between, rfl, hbetween⟩ | ⟨between, rfl, rfl⟩
    · cases between with
      | nil => exact ⟨ds', by rwa [hbetween]⟩
      | cons l' between =>
        -- The first declaration of the module would go on over the next lexeme.
        rw [List.cons_append, List.cons.injEq] at hbetween
        obtain ⟨rfl, -⟩ := hbetween
        refine absurd ⟨between, d', ?_⟩ hends
        rwa [List.append_assoc, List.singleton_append]
    · cases between with
      | nil => exact ⟨ds', hothers⟩
      | cons l' between =>
        -- The declaration would be the first of the module with a name behind it.
        rcases hothers.eq_nil_or_identifier with hnil | ⟨name, others, hcons⟩
        · cases hnil
        · rw [List.cons_append, List.cons.injEq] at hcons
          obtain ⟨rfl, -⟩ := hcons
          exact absurd hd (not_isDeclaration_append_identifier hfirst d)

/-- In front of what is viable as a module may stand a declaration. -/
theorem Viable.module_cons {ls ls' : List Lexeme} {d : Declaration} (h : Viable IsModule ls')
    (hd : IsDeclaration ls d) : Viable IsModule (ls ++ ls') := by
  obtain ⟨more, ds, hds⟩ := h
  refine ⟨more, d :: ds, ?_⟩
  rw [List.append_assoc]
  exact .cons hd hds

/-- What is viable as an expression is viable in a module behind a name and an equals sign. -/
theorem Viable.module_value {ls : List Lexeme} (h : Viable IsExpression ls) (name : String) :
    Viable IsModule (.identifier name :: .punct .equal :: ls) := by
  obtain ⟨more, e, he⟩ := h
  refine ⟨more, [⟨name, e⟩], ?_⟩
  have hmodule : IsModule (.identifier name :: .punct .equal :: (ls ++ more) ++ []) [⟨name, e⟩] :=
    .cons (.mk name he) .nil
  rwa [List.append_nil] at hmodule

/-- A module starts with a name and an equals sign. -/
theorem Viable.module_first {l : Lexeme} {ls : List Lexeme} (h : Viable IsModule (l :: ls)) :
    (∃ name, l = .identifier name) ∧ ∀ l' ls', ls = l' :: ls' → l' = .punct .equal := by
  obtain ⟨more, ds, hds⟩ := h
  generalize hall : l :: ls ++ more = all at hds
  cases hds with
  | nil => cases hall
  | cons first others =>
    obtain ⟨name, hvalue⟩ := first
    rw [List.cons_append, List.cons_append, List.cons_append, List.cons.injEq] at hall
    refine ⟨⟨name, hall.1⟩, ?_⟩
    rintro l' ls' rfl
    rw [List.cons_append, List.cons.injEq] at hall
    exact hall.2.1

/-! ## The first fault of some tokens -/

/-- How the entries of some tokens tell where these stop being viable. -/
inductive FirstFault (sourceName source : String) : List Token → List Entry → Prop where
  /-- Without a diagnostic the tokens derive a module. -/
  | none {ts : List Token} {ds : List Declaration} (derives : IsModule (ts.map Token.lexeme) ds) :
      FirstFault sourceName source ts (ds.map .ok)
  /-- The first diagnostic points at the first token with which they are not viable. -/
  | atToken {before after : List Token} {t : Token} {ds : List Declaration} {d : Diagnostic}
      {more : List Entry} (viable : Viable IsModule (before.map Token.lexeme))
      (offends : ¬Viable IsModule ((before ++ [t]).map Token.lexeme))
      (start : d.start = some t.span.start) :
      FirstFault sourceName source (before ++ t :: after) (ds.map .ok ++ .error d :: more)
  /-- The only diagnostic points at the end of the source, and all tokens are viable. -/
  | atEnd {ts : List Token} {ds : List Declaration} {d : Diagnostic}
      (viable : Viable IsModule (ts.map Token.lexeme))
      (reported : d = .endOfInput (some source.length) ∨
        ∃ name, d = .missingValue name ⟨source.length, source.length⟩ (some source)
          (some sourceName)) :
      FirstFault sourceName source ts (ds.map .ok ++ [.error d])

variable {sourceName source : String}

/-- A diagnostic about a token points at it. -/
theorem Diagnostic.start_of_found? {d : Diagnostic} {t : Token} (h : d.found? = some t) :
    d.start = some t.span.start := by
  cases d <;> cases h <;> rfl

/-- A declaration in front, which does not go on over the next token, leaves the first fault where
it is. -/
theorem FirstFault.cons_item {ts following : List Token} {d : Declaration} {entries : List Entry}
    (h : FirstFault sourceName source following entries)
    (derives : IsDeclaration (ts.map Token.lexeme) d)
    (ends : ∀ t rest, following = t :: rest →
      ¬Viable IsDeclaration ((ts ++ [t]).map Token.lexeme)) :
    FirstFault sourceName source (ts ++ following) (.ok d :: entries) := by
  cases h with
  | @none _ ds module =>
    change FirstFault sourceName source _ ((d :: ds).map .ok)
    refine .none ?_
    rw [List.map_append]
    exact .cons derives module
  | @atToken before after t ds fault more viable offends start =>
    change FirstFault sourceName source _ ((d :: ds).map .ok ++ .error fault :: more)
    rw [← List.append_assoc]
    refine .atToken ?_ ?_ start
    · rw [List.map_append]
      exact viable.module_cons derives
    · -- The tokens behind the declaration would be viable with the one at fault.
      rintro ⟨continued, ds', hmodule⟩
      have hne : before ++ [t] ≠ [] :=
        List.append_ne_nil_of_right_ne_nil before (List.cons_ne_nil t [])
      obtain ⟨next, rest, hnext⟩ := List.exists_cons_of_ne_nil hne
      have hfollowing : before ++ t :: after = next :: (rest ++ after) := by
        rw [← List.cons_append, ← hnext, List.append_assoc, List.singleton_append]
      have hends := ends next (rest ++ after) hfollowing
      rw [List.append_assoc, hnext, List.map_append, List.map_cons, List.append_assoc,
        List.cons_append] at hmodule
      rw [List.map_append] at hends
      obtain ⟨ds'', hmodule'⟩ := isModule_of_append derives hends hmodule
      refine offends ⟨continued, ds'', ?_⟩
      rwa [hnext, List.map_cons, List.cons_append]
  | @atEnd _ ds fault viable reported =>
    change FirstFault sourceName source _ ((d :: ds).map .ok ++ [.error fault])
    refine .atEnd ?_ reported
    rw [List.map_append]
    exact viable.module_cons derives

/-- A segment is not empty. -/
theorem Segment.ne_nil {ts following : List Token} {entry : Entry}
    (h : Segment sourceName source ts entry following) : ts ≠ [] := by
  cases h with
  | item derives =>
    rintro rfl
    obtain ⟨ls, hls⟩ := derives.exists_identifier
    cases hls
  | _ => exact List.cons_ne_nil _ _

/-- Without tokens there are no entries. -/
theorem Segments.entries_eq_nil {entries : List Entry}
    (h : Segments sourceName source [] entries) : entries = [] := by
  generalize hts : [] = ts at h
  cases h with
  | nil => rfl
  | cons first more => exact absurd (List.nil_eq_append_iff.mp hts).1 first.ne_nil

/-- A name can be continued to a module. -/
theorem viable_module_name (name : String) : Viable IsModule [.identifier name] := by
  have hvalue : Viable IsExpression [] := ⟨_, _, isExpression_string⟩
  have hmodule : Viable IsModule ([.identifier name] ++ [.punct .equal]) := hvalue.module_value name
  exact hmodule.of_append

/-- A diagnostic in front of all entries points at the first fault, if that is a token. -/
theorem FirstFault.first_atToken {ts before after : List Token} {t : Token} {d : Diagnostic}
    {more : List Entry} (hts : ts = before ++ t :: after)
    (viable : Viable IsModule (before.map Token.lexeme))
    (offends : ¬Viable IsModule ((before ++ [t]).map Token.lexeme))
    (start : d.start = some t.span.start) :
    FirstFault sourceName source ts (.error d :: more) := by
  subst hts
  exact @FirstFault.atToken sourceName source before after t [] d more viable offends start

/-- A segment of a diagnostic has the first fault of all tokens from it on. -/
theorem Segment.firstFault {ts following : List Token} {d : Diagnostic} {entries : List Entry}
    (h : Segment sourceName source ts (.error d) following)
    (hmore : Segments sourceName source following entries) :
    FirstFault sourceName source (ts ++ following) (.error d :: entries) := by
  cases h with
  | @head t skipped _ hhead _ =>
    refine .first_atToken (List.nil_append _).symm ⟨[], [], .nil⟩ ?_ rfl
    intro hviable
    obtain ⟨⟨name, hname⟩, -⟩ := hviable.module_first
    rw [Token.kind, hname] at hhead
    exact hhead rfl
  | @mark head t name _ hname hmark =>
    refine .first_atToken (List.singleton_append (x := head)).symm ?_ ?_ rfl
    · rw [List.map_singleton, hname]
      exact viable_module_name name
    · intro hviable
      exact hmark (Reading.kind_of_lexeme (hviable.module_first.2 _ _ rfl))
  | @name head name hname =>
    obtain rfl := hmore.entries_eq_nil
    refine @FirstFault.atEnd sourceName source _ [] _ ?_ (.inl rfl)
    rw [List.append_nil, List.map_singleton, hname]
    exact viable_module_name name
  | @value head mark t name before skipped _ _ hname hmark hbreaks _ =>
    have hlexemes : ∀ inside : List Token, (head :: mark :: inside).map Token.lexeme =
        .identifier name :: .punct .equal :: inside.map Token.lexeme := by
      intro inside
      rw [List.map_cons, List.map_cons, hname, hmark]
    have hts : head :: mark :: (before ++ t :: skipped) ++ following =
        (head :: mark :: before) ++ t :: (skipped ++ following) := by simp
    refine .first_atToken hts ?_ ?_ ?_
    · rw [hlexemes]
      exact hbreaks.viable.module_value name
    · rw [List.cons_append, List.cons_append, hlexemes]
      exact hbreaks.offends
    · -- A value that is missing is missed at the token that stands in its place.
      have hreported := hbreaks.reported
      split at hreported
      · rw [hreported]
        rfl
      · exact Diagnostic.start_of_found? hreported
  | @valueEnd head mark name inside _ hname hmark hbreaks =>
    obtain rfl := hmore.entries_eq_nil
    refine @FirstFault.atEnd sourceName source _ [] _ ?_ ?_
    · rw [List.append_nil, List.map_cons, List.map_cons, hname, hmark]
      exact hbreaks.viable.module_value name
    · have hreported := hbreaks.reported
      split at hreported
      · exact .inr ⟨name, hreported⟩
      · exact .inl hreported

/-- The entries of segments tell the first fault of the tokens. -/
theorem Segments.firstFault {ts : List Token} {entries : List Entry}
    (h : Segments sourceName source ts entries) : FirstFault sourceName source ts entries := by
  induction h with
  | nil => exact @FirstFault.none sourceName source [] [] .nil
  | @cons ts following entry entries first more ih =>
    cases entry with
    | error d => exact first.firstFault more
    | ok d =>
      cases first with
      | item derives ends => exact ih.cons_item derives ends

/-! ## The diagnostics of a source -/

/-- The front of viable tokens is viable. -/
theorem Viable.take_map {α : Type} {rule : List Lexeme → α → Prop} {ts : List Token}
    (h : Viable rule (ts.map Token.lexeme)) (k : Nat) :
    Viable rule ((ts.take k).map Token.lexeme) := by
  rw [← List.take_append_drop k ts, List.map_append] at h
  exact h.of_append

/-- Behind declarations, the first diagnostic is the first one of all. -/
theorem Parsed.diagnostics_ofEntries (name : String) (ds : List Declaration) (d : Diagnostic)
    (more : List Entry) :
    (Parsed.ofEntries name (ds.map .ok ++ .error d :: more)).diagnostics =
      d :: (Parsed.ofEntries name more).diagnostics := by
  induction ds with
  | nil => rfl
  | cons first ds ih => exact ih

/-- A source of tokens that derive no module is read, unless it nests too deeply for the levels that
are given, with diagnostics. If the tokens cannot be continued to a module from one of them on, the
first diagnostic points at the first such token. If they all can, there is one diagnostic, that the
source ends too early or that a value is missing, and it points at the end. -/
theorem first_diagnostic_at_first_fault (name : String) {source : String} {ts : List Token}
    (htokens : tokens source = .ok ts) (hnot : ∀ ds, ¬IsModule (ts.map Token.lexeme) ds) :
    ∃ parsed,
      (∀ depth, (parseModule depth name source = .ok parsed ∨
          parseModule depth name source = .error .tooDeep) ∧
        (ts.length ≤ depth → parseModule depth name source = .ok parsed)) ∧
      (∀ k, IsLeast {k | ¬Viable IsModule ((ts.take k).map Token.lexeme)} k →
        ∃ before t after d more, ts = before ++ t :: after ∧ k = before.length + 1 ∧
          parsed.diagnostics = d :: more ∧ d.start = some t.span.start) ∧
      ((∀ k, Viable IsModule ((ts.take k).map Token.lexeme)) →
        ∃ d, parsed.diagnostics = [d] ∧ (d = .endOfInput (some source.length) ∨
          ∃ x, d = .missingValue x ⟨source.length, source.length⟩ (some source) (some name))) := by
  obtain ⟨entries, hsegments, hread⟩ := exists_segments name htokens
  refine ⟨Parsed.ofEntries name entries,
    fun depth => ⟨parseModule_ok_or_tooDeep hread depth, hread depth⟩, ?_⟩
  have hfault := hsegments.firstFault
  cases hfault with
  | none derives => exact absurd derives (hnot _)
  | @atToken before after t ds d more viable offends start =>
    -- The tokens are viable up to the one at fault and not with it.
    have htake : (before ++ t :: after).take (before.length + 1) = before ++ [t] := by
      rw [← List.singleton_append, ← List.append_assoc]
      exact List.take_left' (List.length_append)
    have hfails : ¬Viable IsModule (((before ++ t :: after).take (before.length + 1)).map
        Token.lexeme) := by rwa [htake]
    refine ⟨fun k hk => ⟨before, t, after, d, _, rfl, ?_, Parsed.diagnostics_ofEntries .., start⟩,
      fun hall => absurd (hall (before.length + 1)) hfails⟩
    refine Nat.le_antisymm (hk.2 hfails) (Nat.lt_of_not_le fun hle => hk.1 ?_)
    rw [List.take_append_of_le_length hle]
    exact viable.take_map k
  | @atEnd _ ds d viable reported =>
    exact ⟨fun k hk => absurd (viable.take_map k) hk.1,
      fun _ => ⟨d, Parsed.diagnostics_ofEntries .., reported⟩⟩

/-- Tokens of a source that is read with diagnostics derive no module. -/
theorem not_isModule_of_diagnostics {depth : Nat} {name source : String} {ts : List Token}
    {parsed : Parsed} (htokens : tokens source = .ok ts)
    (hparse : parseModule depth name source = .ok parsed) (hne : parsed.diagnostics ≠ [])
    (ds : List Declaration) : ¬IsModule (ts.map Token.lexeme) ds := by
  intro hmodule
  -- With levels enough for the module, the reading would give it without a diagnostic.
  let enough := max depth (Module.mk name ds).nesting
  have hread : parseModule enough name source = .ok ⟨⟨name, ds⟩, []⟩ :=
    parseModule_complete name ⟨ts, htokens, hmodule⟩ fun d hd =>
      Nat.le_trans (Module.nesting_le hd) (Nat.le_max_right _ _)
  rw [parseModule_levels (Nat.le_max_left _ _) hparse, Except.ok.injEq] at hread
  exact hne (by rw [hread])

/-- Inside a function, a brace that stands in the arguments of a call is the first token with which
the tokens are not viable. -/
theorem first_diagnostic_at_first_fault_brace :
    ∃ ts k before t after, tokens "f = (x) \x7b g(x \x7d y" = .ok ts ∧
      IsLeast {k | ¬Viable IsModule ((ts.take k).map Token.lexeme)} k ∧
      ts = before ++ t :: after ∧ k = before.length + 1 ∧ t.span.start = 14 := by
  obtain ⟨ts, htokens, -⟩ : ∃ ts, tokens "f = (x) \x7b g(x \x7d y" = .ok ts ∧ ts.length = 11 :=
    Step.exists_ok_of_map (by decide +kernel)
  have hparse : parseModule 12 "m" "f = (x) \x7b g(x \x7d y" = .ok ⟨⟨"m", []⟩,
      [.unexpected (.punct .closeParen) ⟨.punct .closeBrace, ⟨14, 15⟩⟩]⟩ := by decide +kernel
  have hnot := not_isModule_of_diagnostics htokens hparse (by simp)
  obtain ⟨parsed, hread, htoken, hend⟩ := first_diagnostic_at_first_fault "m" htokens hnot
  rcases (hread 12).1 with hok | hdeep
  · rw [hparse, Except.ok.injEq] at hok
    subst hok
    -- The only diagnostic does not point at the end, so not all tokens are viable.
    have hfails : ∃ k, ¬Viable IsModule ((ts.take k).map Token.lexeme) := by
      by_contra hall
      rw [not_exists_not] at hall
      obtain ⟨d, hd, hreported⟩ := hend hall
      cases hd
      simp at hreported
    classical
    have hleast := Nat.isLeast_find hfails
    obtain ⟨before, t, after, d, more, hts, hk, hd, hstart⟩ := htoken _ hleast
    cases hd
    exact ⟨ts, _, before, t, after, htokens, hleast, hts, hk, (Option.some.inj hstart).symm⟩
  · rw [hparse] at hdeep
    cases hdeep

end QLanguage
