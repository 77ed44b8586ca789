import Mathlib.Data.List.Infix
import QLanguage.Proofs.Colours.Reports
import QLanguage.Proofs.Evaluation.Parallel

/-!
# Programs without escapes

Reading and evaluation know nothing of colours: what stops them is painted when it is raised. What
is shown then are texts of the trees and the lexemes of a source. Reading takes the texts of trees
and of diagnostics from the lexemes, and evaluation takes those of values and of errors from trees,
so neither brings an escape into a program whose source has none. Both follow from the lemmas on two
runs side by side, with a source that is its own companion (`companions_clean`) and a machine that
is related only to itself (`parallel_clean`).
-/

namespace QLanguage

open Step

/-! ## Reading -/

/-- A lexeme that is cut out of characters without escapes is shown without escapes. -/
theorem escapeFree_display_of_ofCut {kind : Kind} {text : List Char} (h : '\x1b' ∉ text)
    {span : Span} {t : Token} (ht : Lexed.ofCut kind text span = .token t) :
    EscapeFree t.lexeme.display := by
  have hmark : EscapeFree "\"" := by decide
  have hlayout : Lexeme.floatLayout.Clean := ⟨by decide, by decide, by decide, by decide⟩
  have hpunct : ∀ p : Punct, EscapeFree p.text := by
    intro p
    cases p <;> decide
  unfold Lexed.ofCut at ht
  split at ht
  case h_1 =>
    cases ht
    exact escapeFree_ofList.2 h
  case h_2 =>
    cases ht
    have hinside : '\x1b' ∉ (text.drop 1).dropLast := fun hmem =>
      h (List.mem_of_mem_drop (List.mem_of_mem_dropLast hmem))
    exact escapeFree_append.2 ⟨escapeFree_append.2 ⟨hmark, escapeFree_ofList.2 hinside⟩, hmark⟩
  case h_3 =>
    cases ht
    exact hlayout.text _
  case h_4 =>
    split at ht <;> cases ht
    exact escapeFree_intRepr _
  case h_5 p =>
    cases ht
    exact hpunct p
  case h_6 =>
    cases ht
    exact escapeFree_ofList.2 h

/-- The lexemes of a text without escapes are shown without escapes. -/
theorem EscapeFree.display {source : String} (h : EscapeFree source) {t : Token}
    (ht : .token t ∈ lexemes source) : EscapeFree t.lexeme.display := by
  have hfrom : ∀ offset cs, '\x1b' ∉ cs → .token t ∈ lexemesFrom offset cs →
      EscapeFree t.lexeme.display := by
    intro offset cs hcs ht
    fun_induction lexemesFrom offset cs with
    | case1 => cases ht
    | case2 offset c cs hblank ih => exact ih (fun hmem => hcs (List.mem_cons_of_mem _ hmem)) ht
    | case3 offset c cs hblank stop ih =>
      rw [← cut_append, List.mem_append, not_or] at hcs
      rcases List.mem_cons.1 ht with ht | ht
      · exact escapeFree_display_of_ofCut hcs.1 ht.symm
      · exact ih hcs.2 ht
  exact hfrom 0 source.toList h ht

/-- The token is shown without escapes. -/
def Token.Clean (t : Token) : Prop := EscapeFree t.lexeme.display

/-- The kinds that readings ask for are described without escapes. -/
theorem Kind.Asked.escapeFree {kind : Kind} (h : kind.Asked) : EscapeFree kind.describe := by
  cases kind with
  | other label =>
    cases h
    exact escapeFree_ofList.2 (by decide)
  | punct p => cases p <;> decide
  | _ => exact escapeFree_ofList.2 (by decide)

/-- A source is read side by side with itself, and what is shown of tokens that are shown without
escapes has none. -/
theorem companions_clean (sourceName source : String) :
    Companions sourceName source source EscapeFree (SameWith Token.Clean)
      (SameWith Diagnostic.Clean) where
  lexeme := by
    rintro t _ ⟨rfl, -⟩
    rfl
  name := by
    rintro t _ name ⟨rfl, ht⟩ hname
    rwa [Token.Clean, hname] at ht
  text := by
    rintro t _ text ⟨rfl, ht⟩ htext
    rw [Token.Clean, htext, Lexeme.display] at ht
    exact (escapeFree_append.1 (escapeFree_append.1 ht).1).2
  unexpected := by
    rintro kind t _ hkind ⟨rfl, ht⟩
    exact ⟨rfl, List.forall_mem_cons.2 ⟨hkind.escapeFree, List.forall_mem_singleton.2 ht⟩⟩
  expectedExpression := by
    rintro t _ ⟨rfl, ht⟩
    exact ⟨rfl, List.forall_mem_singleton.2 ht⟩
  expectedPattern := by
    rintro t _ ⟨rfl, ht⟩
    exact ⟨rfl, List.forall_mem_singleton.2 ht⟩
  missingValue := by
    rintro name t _ hname ⟨rfl, -⟩
    exact ⟨rfl, List.forall_mem_singleton.2 hname⟩
  missingAtEnd hname := ⟨rfl, List.forall_mem_singleton.2 hname⟩
  endOfInput := ⟨rfl, fun _ harg => absurd harg List.not_mem_nil⟩

/-- The names and the strings of the module have no escapes, and neither has what is shown of its
diagnostics. -/
structure Parsed.Clean (parsed : Parsed) : Prop where
  /-- The declarations. -/
  items : ∀ d ∈ parsed.module.items, d.Texts EscapeFree
  /-- The diagnostics. -/
  diagnostics : ∀ d ∈ parsed.diagnostics, d.Clean

/-- What is shown of a diagnostic at which a reading stops has no escapes. -/
def Stop.Clean (stop : Stop) : Prop := ∀ d, stop = .diagnostic d → d.Clean

/-- What is shown of an error for which an evaluation halts has no escapes. -/
def Halt.Clean (halt : Halt) : Prop := ∀ e, halt = .error e → e.Clean

namespace EscapeFree

variable {source : String} (h : EscapeFree source)

include h

/-- The start of a source without escapes is in a pair with itself. -/
theorem cursor :
    Cursor.Paired source source (SameWith Token.Clean) (.ofSource source) (.ofSource source) :=
  Cursor.paired_self fun _ ht => ⟨rfl, h.display ht⟩

/-- A reading of a source without escapes gives what it should, or stops without escapes. -/
theorem reads {α : Type} {A : α → α → Prop} {reading : Reading α}
    (hreading : Companions.Reads source source (SameWith Token.Clean) (SameWith Diagnostic.Clean)
      A reading reading) :
    Ends Stop.Clean (fun a => A a a) (reading.run (.ofSource source)).1 := by
  obtain ⟨hend, -⟩ := hreading _ _ h.cursor
  generalize (reading.run (.ofSource source)).1 = result at hend
  cases hend with
  | ok ha => exact ha
  | error hstop =>
    rintro d rfl
    cases hstop with
    | diagnostic hd => exact hd.2

/-- A module is read from a source without escapes without any, or the reading stops so. -/
theorem parseModule (depth : Nat) (name : String) :
    Ends Stop.Clean Parsed.Clean (QLanguage.parseModule depth name source) := by
  have hend := (companions_clean name source).parseModule depth h.cursor
  generalize QLanguage.parseModule depth name source = read at hend ⊢
  cases hend with
  | ok hparsed =>
    exact ⟨hparsed.texts, fun d hd => (List.forall₂_same.1 hparsed.diagnostics d hd).2⟩
  | error hstop => exact fun d hd => absurd hd (hstop.2 d)

/-- A line without escapes is found to be one of declarations or not, or the look at it stops
without escapes. -/
theorem isDeclaration : Ends Stop.Clean (fun _ => True) (QLanguage.isDeclaration source) := by
  have hread := h.reads (companions_clean promptName source).startsDeclaration
  unfold QLanguage.isDeclaration
  generalize (Reading.startsDeclaration.run (.ofSource source)).1 = result at hread
  cases result with
  | ok declares => trivial
  | error stop => exact hread

/-- An expression without escapes is read without any, or the reading stops so. -/
theorem parseExpression (depth : Nat) :
    Ends Stop.Clean (Expr.Texts EscapeFree) (QLanguage.parseExpression depth source) := by
  have hread := h.reads ((companions_clean promptName source).wholeExpression depth)
  unfold QLanguage.parseExpression
  generalize ((Reading.wholeExpression depth).run (.ofSource source)).1 = result at hread
  cases result with
  | ok e => exact hread.2
  | error stop => exact hread

end EscapeFree

/-! ## Evaluation -/

/-- The expressions in the machine have no escapes in them, and neither has what it has printed. -/
structure Machine.Clean (m : Machine) : Prop where
  /-- What is bound. -/
  env : m.env.All (Expr.Texts EscapeFree)
  /-- What is pending. -/
  pending : m.pending.All (Expr.Texts EscapeFree)
  /-- What has been printed. -/
  output : EscapeFree m.output

namespace Machine.Clean

/-- A machine without declarations is clean. -/
theorem empty : Machine.empty.Clean where
  env := Environment.all_iff.2 ⟨Table.all_empty, fun _ hscope => absurd hscope List.not_mem_nil⟩
  pending := Table.all_empty
  output := escapeFree_empty

/-- A clean machine whose output has been taken away is clean. -/
theorem flushed {m : Machine} (h : m.Clean) : Machine.Clean { m with output := "" } :=
  ⟨h.env, h.pending, escapeFree_empty⟩

/-- The machine of declarations without escapes is clean. -/
theorem start {items : List Declaration} (h : ∀ d ∈ items, d.Texts EscapeFree) :
    (Machine.start items).Clean where
  env := empty.env
  pending := Table.all_empty.setAll (List.forall_mem_map.2 fun d hd => (h d hd).2)
  output := escapeFree_empty

end Machine.Clean

/-- Values are printed without escapes. -/
theorem escapeFree_printedLine (values : List Expr) : EscapeFree (printedLine values) := by
  have hvalues := (printable_listText (Expr.printable_debugs values)).escapeFree
  exact escapeFree_append.2 ⟨hvalues, by decide⟩

/-- A clean machine runs side by side with itself, and no evaluation brings an escape into it. -/
theorem parallel_clean :
    Parallel (Expr.Texts EscapeFree) EscapeFree Halt.Clean (SameWith Machine.Clean) where
  tooDeep := fun _ hhalt => Halt.noConfusion hhalt
  undefined := by
    rintro name hname _ ⟨⟩
    exact List.forall_mem_singleton.2 hname
  cyclic := by
    rintro name hname _ ⟨⟩
    exact List.forall_mem_singleton.2 hname
  notFunction := by
    rintro name value hname hvalue _ ⟨⟩
    exact List.forall_mem_cons.2 ⟨hname, List.forall_mem_singleton.2 hvalue.escapeFree_source⟩
  noClause := by
    rintro name arity hname _ ⟨⟩
    exact List.forall_mem_cons.2 ⟨hname, List.forall_mem_singleton.2 (escapeFree_intRepr arity)⟩
  done := by
    rw [Expr.Texts]
    decide
  ofVariable h := by rwa [Expr.Texts] at h
  ofCall h _ := by
    rw [Expr.Texts] at h
    exact h.1
  args h := by
    rw [Expr.Texts] at h
    exact Expr.allTexts_iff.1 h.2
  body h := by
    rw [Expr.Texts] at h
    rintro ⟨patterns, body⟩ hclause
    have htexts : (Clause.mk patterns body).Texts EscapeFree :=
      List.forall_mem_cons.2 ⟨h.1, Clause.allTexts_iff.1 h.2⟩ _ hclause
    rw [Clause.Texts] at htexts
    exact htexts.2
  evaluating := by
    rintro m _ ⟨rfl, -⟩
    rfl
  lookup := by
    rintro m _ name ⟨rfl, -⟩ -
    rfl
  ofLookup h _ hvalue := h.2.env.lookup? hvalue
  pending := by
    rintro m _ name ⟨rfl, -⟩ -
    rfl
  ofPending h _ hexpr := h.2.pending.get? hexpr
  begun := by
    rintro m _ name ⟨rfl, hm⟩ -
    exact ⟨rfl, hm.env, hm.pending, hm.output⟩
  ended := by
    rintro m _ name ⟨rfl, hm⟩ -
    exact ⟨rfl, hm.env, hm.pending, hm.output⟩
  bound := by
    rintro m _ name value ⟨rfl, hm⟩ - hvalue
    exact ⟨rfl, hm.env.define name hvalue, Table.All.erase hm.pending name, hm.output⟩
  defined := by
    rintro m _ name value ⟨rfl, hm⟩ hvalue
    exact ⟨rfl, hm.env.define name hvalue, hm.pending, hm.output⟩
  entered := by
    rintro m _ bindings ⟨rfl, hm⟩ hbindings
    exact ⟨rfl, hm.env.enter hbindings, hm.pending, hm.output⟩
  left := by
    rintro m _ ⟨rfl, hm⟩
    exact ⟨rfl, hm.env.leave, hm.pending, hm.output⟩
  printed := by
    rintro m _ values ⟨rfl, hm⟩ -
    exact ⟨rfl, hm.env, hm.pending,
      escapeFree_append.2 ⟨hm.output, escapeFree_printedLine values⟩⟩

end QLanguage
