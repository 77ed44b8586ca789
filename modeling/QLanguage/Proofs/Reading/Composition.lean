import Mathlib.Data.Option.Basic
import QLanguage.Proofs.Cutting.Joining
import QLanguage.Proofs.Reading.Loops
import QLanguage.Proofs.Reading.Module
import QLanguage.Proofs.Reading.Parallel
import QLanguage.Proofs.RoundTrip

/-!
# Reading joined sources

A source without diagnostics and any other source behind it, on a new line, are read as each would
be alone (`parse_joined`). The lexemes of both are those of the one and of the other. The
declarations of the first are read to the end of each, since the grammar has no invalid lexeme and
what follows starts with no mark that an expression takes along. And the second is read from where
it starts side by side with a reading of it alone, at a distance of all that stands before it.
-/

namespace QLanguage

open Grammar Step

/-! ## Lexemes of the grammar -/

/-- The lexeme is not an invalid one. -/
def Lexeme.Valid (l : Lexeme) : Prop := ∀ text, l ≠ .invalid text

/-- A punctuation mark is valid. -/
theorem Lexeme.valid_punct (p : Punct) : (Lexeme.punct p).Valid := fun _ => Lexeme.noConfusion

/-- Every rule of the grammar keeps its lexemes valid. -/
theorem Grammar.hereditary_valid : Hereditary fun ls => ∀ l ∈ ls, l.Valid where
  nil := fun _ hl => absurd hl List.not_mem_nil
  append h h' := List.forall_mem_append.2 ⟨h, h'⟩
  identifier _ := List.forall_mem_singleton.2 fun _ => Lexeme.noConfusion
  string _ := List.forall_mem_singleton.2 fun _ => Lexeme.noConfusion
  separator mark _ := List.forall_mem_singleton.2 (Lexeme.valid_punct mark)
  parentheses h := List.forall_mem_cons.2 ⟨Lexeme.valid_punct _,
    List.forall_mem_append.2 ⟨h, List.forall_mem_singleton.2 (Lexeme.valid_punct _)⟩⟩
  braces h := List.forall_mem_cons.2 ⟨Lexeme.valid_punct _,
    List.forall_mem_append.2 ⟨h, List.forall_mem_singleton.2 (Lexeme.valid_punct _)⟩⟩

/-! ## Enough fuel -/

namespace Reading

variable {depth : Nat} {sourceName source : String}

/-- Once there is as much fuel as there are lexemes, more of it makes no difference. -/
theorem run_entriesWithin_fuel {fuel fuel' : Nat} {c : Cursor} (hfuel : c.rest.length ≤ fuel)
    (hfuel' : c.rest.length ≤ fuel') :
    (entriesWithin depth sourceName source fuel).run c =
      (entriesWithin depth sourceName source fuel').run c :=
  (loopRuns_entriesWithin hfuel).unique (loopRuns_entriesWithin hfuel')

end Reading

/-- A module may be read with any fuel that is enough. -/
theorem parseModule_of_fuel (depth : Nat) (name : String) {source : String} {fuel : Nat}
    (hfuel : (lexemes source).length ≤ fuel) :
    parseModule depth name source =
      ((Reading.entriesWithin depth name source fuel).run (Cursor.ofSource source)).1.map
        (Parsed.ofEntries name) := by
  have hrun : (Reading.entriesWithin depth name source fuel).run (Cursor.ofSource source) =
      (Reading.entries depth name source).run (Cursor.ofSource source) :=
    Reading.run_entriesWithin_fuel hfuel (Nat.le_refl _)
  rw [hrun]
  rfl

/-! ## A source at a distance -/

/-- The same finding further behind, in another source. -/
def Diagnostic.moved (distance : Nat) (source : String) : Diagnostic → Diagnostic
  | .unexpected expected found => .unexpected expected (found.moved distance)
  | .expectedExpression found => .expectedExpression (found.moved distance)
  | .expectedPattern found => .expectedPattern (found.moved distance)
  | .missingValue name span kept sourceName =>
    .missingValue name (span.moved distance) (kept.map fun _ => source) sourceName
  | .endOfInput offset => .endOfInput (offset.map (· + (distance : Int)))

/-- A source is read side by side with a longer one that ends with it. -/
theorem companions_moved (sourceName : String) {source joined : String} {distance : Nat}
    (hlength : joined.length = source.length + distance) :
    Companions sourceName source joined (fun _ => True) (fun t t' => t' = t.moved distance)
      (fun d d' => d' = d.moved distance joined) where
  lexeme := by
    rintro t _ rfl
    rfl
  name _ _ := trivial
  text _ _ := trivial
  unexpected := by
    rintro kind t _ - rfl
    rfl
  expectedExpression := by
    rintro t _ rfl
    rfl
  expectedPattern := by
    rintro t _ rfl
    rfl
  missingValue := by
    rintro name t _ - rfl
    rfl
  missingAtEnd _ := by
    rw [hlength]
    simp [Diagnostic.moved, Span.moved]
  endOfInput := by
    rw [hlength]
    simp [Diagnostic.moved]

/-- Lexemes and the same further behind are in pairs. -/
theorem forall₂_moved (distance : Nat) (ls : List Lexed) :
    List.Forall₂ (Lexed.Paired fun t t' => t' = t.moved distance) ls
      (ls.map (Lexed.moved distance)) := by
  induction ls with
  | nil => exact .nil
  | cons l ls ih =>
    refine .cons ?_ ih
    cases l with
    | token t => exact .token rfl
    | overlong digits span => exact .overlong digits span _

/-- What is in pairs with its own image is the list of images. -/
theorem eq_map_of_forall₂ {α β : Type} {f : α → β} {as : List α} {bs : List β}
    (h : List.Forall₂ (fun a b => b = f a) as bs) : bs = as.map f := by
  rw [← List.forall₂_eq_eq_eq, List.forall₂_map_right_iff]
  exact h.flip

/-- Entries in pairs make the same declarations, and the same diagnostics further behind. -/
theorem Parsed.ofEntries_moved (name : String) {distance : Nat} {source : String}
    {es es' : List Entry}
    (h : List.Forall₂ (Entry.Paired (fun _ => True) fun d d' => d' = d.moved distance source)
      es es') :
    Parsed.ofEntries name es' =
      ⟨⟨name, (Parsed.ofEntries name es).module.items⟩,
        (Parsed.ofEntries name es).diagnostics.map (Diagnostic.moved distance source)⟩ := by
  have hpaired := Parsed.ofEntries_paired name h
  rw [← eq_map_of_forall₂ hpaired.diagnostics]
  exact congrArg (Parsed.mk · _) hpaired.module

/-- Declarations in front of entries are declarations in front of the others. -/
theorem Parsed.ofEntries_append (name : String) (ds : List Declaration) (es : List Entry) :
    Parsed.ofEntries name (ds.map .ok ++ es) =
      ⟨⟨name, ds ++ (Parsed.ofEntries name es).module.items⟩,
        (Parsed.ofEntries name es).diagnostics⟩ := by
  induction ds with
  | nil => rfl
  | cons d ds ih =>
    simp only [Parsed.ofEntries, Parsed.mk.injEq, Module.mk.injEq, true_and] at ih ⊢
    simp

/-! ## Joined sources -/

/-- What may follow an expression may follow it further behind. -/
theorem afterExpression_moved (distance : Nat) {b : String}
    (h : ∀ l ∈ (lexemes b).head?, ∃ t, l = .token t ∧ t.lexeme ≠ .punct .openParen ∧
      t.lexeme ≠ .punct .semicolon) :
    Reading.AfterExpression ((lexemes b).map (Lexed.moved distance)) := by
  intro l hl
  rw [List.head?_map, Option.mem_map] at hl
  obtain ⟨l', hl', rfl⟩ := hl
  obtain ⟨t, rfl, hopen, hsemicolon⟩ := h l' hl'
  have hsource : t.lexeme.inSource = true :=
    inSource_of_mem_lexemesFrom (List.mem_of_mem_head? hl')
  refine ⟨t.moved distance, rfl, fun p hp hkind => ?_⟩
  have hlexeme : t.lexeme = .punct p := (Lexeme.kind_eq_punct_iff hsource p).1 hkind
  simp only [List.mem_cons, List.not_mem_nil, or_false] at hp
  rcases hp with rfl | rfl
  · exact hopen hlexeme
  · exact hsemicolon hlexeme

/-- Sources are read piece by piece. Let a source be read without diagnostics, and let another
source, which may be malformed, start with no integer that is too long, no opening parenthesis and
no semicolon. Then both, with a line break between them, are read as the declarations of the first
and then those of the second, with the diagnostics of the second, in their order and further behind
by all that stands before it. If the second is not read at all, neither are both. -/
theorem parse_joined {depth : Nat} {name a b : String} {first : Module}
    (hfirst : parseModule depth name a = .ok ⟨first, []⟩)
    (hnext : ∀ l ∈ (lexemes b).head?, ∃ t, l = .token t ∧ t.lexeme ≠ .punct .openParen ∧
      t.lexeme ≠ .punct .semicolon) :
    parseModule depth name (a ++ "\n" ++ b) =
      (parseModule depth name b).map fun second =>
        ⟨⟨name, first.items ++ second.module.items⟩,
          second.diagnostics.map (Diagnostic.moved (a.length + 1) (a ++ "\n" ++ b))⟩ := by
  obtain ⟨ds, hparsed, ⟨ts, htokens, hmodule⟩, hall⟩ := parseModule_sound hfirst rfl
  cases hparsed
  have hlexemes : lexemes a = ts.map .token := tokens_eq_ok_iff.mp htokens
  have hvalid : ∀ t text, Lexed.token t ∈ lexemes a → t.lexeme ≠ .invalid text := by
    intro t text ht
    rw [hlexemes, List.mem_map_of_injective fun _ _ => Lexed.token.inj] at ht
    exact hereditary_valid.module hmodule _ (List.mem_map_of_mem ht) text
  have hjoined : lexemes (a ++ "\n" ++ b) =
      ts.map .token ++ (lexemes b).map (Lexed.moved (a.length + 1)) := by
    rw [lexemes_joined hvalid b, hlexemes]
  have hlength : (a ++ "\n" ++ b).length = b.length + (a.length + 1) := by
    rw [String.length_append, String.length_append, Nat.add_comm]
    rfl
  -- There is fuel for the declarations of the first source, and enough is left for the second.
  let fuel := ts.length + (lexemes b).length
  have hfuel : (lexemes (a ++ "\n" ++ b)).length ≤ ds.length + fuel := by
    rw [hjoined, List.length_append, List.length_map, List.length_map]
    omega
  obtain ⟨span, hrun⟩ := Reading.run_entriesWithin_declarations name (a ++ "\n" ++ b) .origin
    (a ++ "\n" ++ b).length fuel hmodule hall (afterExpression_moved (a.length + 1) hnext)
  obtain ⟨hend, -⟩ := (companions_moved name hlength).entriesWithin depth fuel
    (Cursor.ofSource b)
    ⟨(lexemes b).map (Lexed.moved (a.length + 1)), span, (a ++ "\n" ++ b).length⟩
    ⟨forall₂_moved _ _, rfl, rfl⟩
  rw [parseModule_of_fuel depth name hfuel, Cursor.ofSource, hjoined, hrun,
    parseModule_of_fuel depth name (Nat.le_add_left _ _ : _ ≤ fuel), run_bind]
  rcases halone : (Reading.entriesWithin depth name b fuel).run (Cursor.ofSource b) with
    ⟨alone, left⟩
  rcases hbehind : (Reading.entriesWithin depth name (a ++ "\n" ++ b) fuel).run
    ⟨(lexemes b).map (Lexed.moved (a.length + 1)), span, (a ++ "\n" ++ b).length⟩ with
    ⟨behind, left'⟩
  rw [halone, hbehind] at hend
  cases hend with
  | error hstop =>
    cases hstop with
    | diagnostic h => exact h.elim
    | overlong digits => rfl
    | tooDeep => rfl
  | ok hentries =>
    refine congrArg Except.ok ?_
    rw [Parsed.ofEntries_append, Parsed.ofEntries_moved name hentries]

/-- A variable at the end of a source stays a variable before a declaration that has no value, and
the place of the missing value is counted from the start of both sources. -/
theorem parse_joined_missing_value :
    parseModule 9 "m" "x = y" = .ok ⟨⟨"m", [⟨"x", .variable "y"⟩]⟩, []⟩ ∧
    parseModule 9 "m" ("x = y" ++ "\n" ++ "z =") =
      .ok ⟨⟨"m", [⟨"x", .variable "y"⟩]⟩,
        [.missingValue "z" ⟨9, 9⟩ (some ("x = y" ++ "\n" ++ "z =")) (some "m")]⟩ := by
  have hfirst : parseModule 9 "m" "x = y" = .ok ⟨⟨"m", [⟨"x", .variable "y"⟩]⟩, []⟩ :=
    parseModule_source (m := ⟨"m", [⟨"x", .variable "y"⟩]⟩) (by decide) (by decide)
  have hsecond : parseModule 9 "m" "z =" =
      .ok ⟨⟨"m", []⟩, [.missingValue "z" ⟨3, 3⟩ (some "z =") (some "m")]⟩ := by decide +kernel
  have hhead : (lexemes "z =").head? = some (.token ⟨.identifier "z", ⟨0, 1⟩⟩) := by decide +kernel
  refine ⟨hfirst, ?_⟩
  rw [parse_joined hfirst, hsecond]
  · rfl
  · intro l hl
    rw [hhead] at hl
    cases hl
    exact ⟨_, rfl, Lexeme.noConfusion, Lexeme.noConfusion⟩

end QLanguage
