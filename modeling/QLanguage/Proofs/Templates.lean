import Mathlib.Tactic.SplitIfs
import QLanguage.Proofs.Steps
import QLanguage.Text.Digit
import QLanguage.Text.Template

/-!
# Templates without arguments

A template that is filled without arguments has no use for fields: every field asks for an argument
and finds none. So such a template is filled exactly when all its braces are doubled, and then each
pair of braces becomes one (`undoubled?`). It comes out as it went in only if it has no braces at
all.
-/

namespace QLanguage

open Step

/-! ## Texts without braces -/

/-- The text has no brace, and so no field of a template. -/
def Braceless (text : String) : Prop := ∀ c ∈ text.toList, c ≠ '\x7b' ∧ c ≠ '\x7d'

-- Through the characters of the text, and not through all characters there are.
instance : DecidablePred Braceless := fun text => List.decidableBAll _ text.toList

/-- A text of characters has no braces exactly when neither brace is among them. A text that is
spelled out is such a text, and its characters need not be read off it again. -/
theorem braceless_ofList {cs : List Char} :
    Braceless (String.ofList cs) ↔ '\x7b' ∉ cs ∧ '\x7d' ∉ cs := by
  rw [Braceless, String.toList_ofList]
  exact ⟨fun h => ⟨fun hopen => (h _ hopen).1 rfl, fun hclose => (h _ hclose).2 rfl⟩,
    fun h c hc => ⟨fun heq => h.1 (heq ▸ hc), fun heq => h.2 (heq ▸ hc)⟩⟩

/-- Texts without braces have none together. -/
theorem Braceless.append {a b : String} (ha : Braceless a) (hb : Braceless b) :
    Braceless (a ++ b) := by
  intro c hc
  rw [String.toList_append, List.mem_append] at hc
  exact hc.elim (ha c) (hb c)

/-- The digits of a number are no braces. -/
theorem braceless_toString (n : Nat) : Braceless (toString n) := by
  intro c hc
  have hdigit := isDigit_of_mem_toString hc
  constructor <;> rintro rfl <;> cases hdigit

/-! ## Doubled braces -/

/-- The characters with one brace for each pair of braces, or `none` if a brace has no partner right
behind it. -/
def undoubled? : List Char → Option (List Char)
  | [] => some []
  | '\x7b' :: '\x7b' :: rest => (undoubled? rest).map ('\x7b' :: ·)
  | '\x7d' :: '\x7d' :: rest => (undoubled? rest).map ('\x7d' :: ·)
  | c :: rest => if c = '\x7b' ∨ c = '\x7d' then none else (undoubled? rest).map (c :: ·)

/-- Whether a character is a brace. -/
def isBrace (c : Char) : Bool := c == '\x7b' || c == '\x7d'

/-- Half of the braces are left. -/
theorem countP_of_undoubled? {cs text : List Char} (h : undoubled? cs = some text) :
    cs.countP isBrace = 2 * text.countP isBrace := by
  fun_induction undoubled? cs generalizing text with
  | case1 =>
    cases h
    rfl
  | case2 rest ih | case3 rest ih =>
    obtain ⟨inner, hinner, rfl⟩ := Option.map_eq_some_iff.1 h
    simp [ih hinner, isBrace]
    omega
  | case4 => cases h
  | case5 c rest _ _ hbrace ih =>
    obtain ⟨inner, hinner, rfl⟩ := Option.map_eq_some_iff.1 h
    simpa [isBrace, hbrace] using ih hinner

/-- A text has no braces exactly when there are none to count. -/
theorem braceless_iff_countP {text : String} :
    Braceless text ↔ text.toList.countP isBrace = 0 := by
  simp [Braceless, List.countP_eq_zero, isBrace]

/-! ## Cutting -/

/-- The part is not a character that stands for itself. -/
def TemplatePart.Special (part : TemplatePart) : Prop := ∀ c, part ≠ .literal c

/-- A field is special. -/
theorem TemplatePart.special_field (f : TemplateField) : (TemplatePart.field f).Special :=
  fun _ => TemplatePart.noConfusion

/-- A fault is special. -/
theorem TemplatePart.special_fault (e : TemplateError) : (TemplatePart.fault e).Special :=
  fun _ => TemplatePart.noConfusion

open TemplatePart

/-- Inside a field, the cutting comes to the end of the field or to a fault. -/
theorem exists_special_of_inside (cutting : Cutting) (hinside : cutting ≠ .outside)
    (cs : List Char) : ∃ part ∈ partsFrom cutting cs, part.Special := by
  have hfield : ∀ f more, ∃ part ∈ TemplatePart.field f :: more, part.Special :=
    fun f _ => ⟨_, List.mem_cons_self, special_field f⟩
  have hfault : ∀ e, ∃ part ∈ [TemplatePart.fault e], part.Special :=
    fun e => ⟨_, List.mem_cons_self, special_fault e⟩
  induction cs generalizing cutting with
  | nil =>
    cases cutting with
    | outside => exact absurd rfl hinside
    | _ => exact hfault _
  | cons c rest ih =>
    cases cutting with
    | outside => exact absurd rfl hinside
    | conversion name => exact ih _ Cutting.noConfusion
    | brackets name =>
      rw [partsFrom]
      refine ih _ ?_
      split <;> exact Cutting.noConfusion
    | name name =>
      rw [partsFrom]
      split_ifs
      · exact hfault _
      · exact hfield _ _
      all_goals exact ih _ Cutting.noConfusion
    | converted name conversion =>
      rw [partsFrom]
      split_ifs
      · exact hfield _ _
      · exact ih _ Cutting.noConfusion
      · exact hfault _
    | format name conversion braces format =>
      cases braces with
      | zero =>
        rw [partsFrom]
        split_ifs
        · exact ih _ Cutting.noConfusion
        · exact hfield _ _
        · exact ih _ Cutting.noConfusion
      | succ braces =>
        rw [partsFrom]
        split_ifs <;> exact ih _ Cutting.noConfusion

/-- A brace without its partner makes a field or a fault. -/
theorem exists_special_of_brace {c : Char} (hbrace : c = '\x7b' ∨ c = '\x7d') {rest : List Char}
    (hopen : ∀ more, c = '\x7b' → rest ≠ '\x7b' :: more)
    (hclose : ∀ more, c = '\x7d' → rest ≠ '\x7d' :: more) :
    ∃ part ∈ templateParts (c :: rest), part.Special := by
  rcases hbrace with rfl | rfl
  · cases rest with
    | nil => exact ⟨_, List.mem_cons_self, special_fault .loneOpen⟩
    | cons d more =>
      have hparts : templateParts ('\x7b' :: d :: more) = partsFrom (.name []) (d :: more) := by
        rw [templateParts, partsFrom]
        · exact List.cons_ne_nil d more
        · exact fun more h => hopen more rfl h
      rw [hparts]
      exact exists_special_of_inside _ Cutting.noConfusion _
  · have hparts : templateParts ('\x7d' :: rest) = [.fault .loneClose] := by
      rw [templateParts, partsFrom]
      exact fun more h => hclose more rfl h
    rw [hparts]
    exact ⟨_, List.mem_cons_self, special_fault .loneClose⟩

/-- Where all braces are doubled, the parts of a template are characters, one for each pair of
braces; otherwise one of them is something else. -/
theorem templateParts_cases (cs : List Char) :
    match undoubled? cs with
    | some text => templateParts cs = text.map .literal
    | none => ∃ part ∈ templateParts cs, part.Special := by
  -- A part in front of the others leaves both cases as they are.
  have hcons : ∀ (c : Char) (cs rest : List Char),
      templateParts cs = .literal c :: templateParts rest →
      (match undoubled? rest with
        | some text => templateParts rest = text.map .literal
        | none => ∃ part ∈ templateParts rest, part.Special) →
      match (undoubled? rest).map (c :: ·) with
      | some text => templateParts cs = text.map .literal
      | none => ∃ part ∈ templateParts cs, part.Special := by
    intro c cs rest hparts ih
    rcases hrest : undoubled? rest with _ | text <;> rw [hrest] at ih
    · obtain ⟨part, hpart, hspecial⟩ := ih
      exact ⟨part, hparts ▸ List.mem_cons_of_mem _ hpart, hspecial⟩
    · exact hparts.trans (congrArg (TemplatePart.literal c :: ·) ih)
  fun_induction undoubled? cs with
  | case1 => rfl
  | case2 rest ih => exact hcons _ _ rest rfl ih
  | case3 rest ih => exact hcons _ _ rest rfl ih
  | case4 c rest hopen hclose hbrace =>
    exact exists_special_of_brace hbrace hopen hclose
  | case5 c rest _ _ hbrace ih =>
    obtain ⟨hopen, hclose⟩ := not_or.1 hbrace
    exact hcons c _ rest (partsFrom_cons hopen hclose rest) ih

/-! ## Filling without arguments -/

/-- A field asks in vain for an argument. -/
theorem run_fillField_nil (fill : List Char → Filling (List Char)) (f : TemplateField)
    (numbering : Numbering) : ∃ e, ((fillField [] fill f).run numbering).1 = .error e := by
  rcases hchosen : numbering.choose (f.name.takeWhile fun c => !isSelector c) with
    e | ⟨index, next⟩
  · refine ⟨e, ?_⟩
    rw [fillField, run_bind_ok (run_get _), hchosen]
    rfl
  · refine ⟨.noArgument index, ?_⟩
    rw [fillField, run_bind_ok (run_get _), hchosen]
    rfl

/-- Parts of which one is special cannot be filled. -/
theorem run_fillParts_nil_of_special (fill : List Char → Filling (List Char))
    {parts : List TemplatePart} (h : ∃ part ∈ parts, part.Special) (numbering : Numbering) :
    ∃ e, ((fillParts [] fill parts).run numbering).1 = .error e := by
  induction parts generalizing numbering with
  | nil =>
    obtain ⟨part, hmem, -⟩ := h
    exact absurd hmem List.not_mem_nil
  | cons part more ih =>
    cases part with
    | fault e => exact ⟨e, rfl⟩
    | field f =>
      obtain ⟨e, he⟩ := run_fillField_nil fill f numbering
      rcases hrun : (fillField [] fill f).run numbering with ⟨e | text, next⟩ <;> rw [hrun] at he
      · exact ⟨e, by rw [fillParts, run_bind_error hrun]⟩
      · cases he
    | literal c =>
      obtain ⟨special, hmem, hspecial⟩ := h
      have hmore := (List.mem_cons.1 hmem).resolve_left (hspecial c)
      obtain ⟨e, he⟩ := ih ⟨special, hmore, hspecial⟩ numbering
      rcases hrun : (fillParts [] fill more).run numbering with ⟨e | text, next⟩ <;>
        rw [hrun] at he
      · exact ⟨e, by rw [fillParts, run_bind_error hrun]⟩
      · cases he

/-- A template without arguments is filled exactly when all its braces are doubled, and each pair
becomes one brace. -/
theorem fillTemplate_nil (template : String) :
    match undoubled? template.toList with
    | some text => fillTemplate template [] = .ok (String.ofList text)
    | none => ∃ e, fillTemplate template [] = .error e := by
  have hparts := templateParts_cases template.toList
  rcases hcut : undoubled? template.toList with _ | text <;> rw [hcut] at hparts
  · obtain ⟨e, he⟩ := run_fillParts_nil_of_special (fillWithin [] 1) hparts .undecided
    exact ⟨e, congrArg (Except.map String.ofList) he⟩
  · dsimp only at hparts ⊢
    rw [fillTemplate, templateLevels, fillWithin, hparts, run_fillParts_literals]
    rfl

/-! ## Empty fields -/

/-- The field that takes the next argument as it is. -/
def TemplateField.next : TemplateField := ⟨[], none, []⟩

/-- Text without braces in front of a template is cut into its characters. -/
theorem templateParts_append {text : List Char} (h : ∀ c ∈ text, c ≠ '\x7b' ∧ c ≠ '\x7d')
    (rest : List Char) :
    templateParts (text ++ rest) = text.map .literal ++ templateParts rest := by
  induction text with
  | nil => rfl
  | cons c text ih =>
    obtain ⟨⟨hopen, hclose⟩, htext⟩ := List.forall_mem_cons.1 h
    have hcut : templateParts (c :: (text ++ rest)) = .literal c :: templateParts (text ++ rest) :=
      partsFrom_cons hopen hclose _
    rw [List.cons_append, hcut, ih htext, List.map_cons, List.cons_append]

/-- The numbering when so many empty fields have been filled and no others. -/
def Numbering.afterEmpty : Nat → Numbering
  | 0 => .undecided
  | used + 1 => .automatic (used + 1)

/-- An empty field takes the next argument. -/
theorem run_fillField_next {args : List String} {used : Nat} {arg : String}
    (harg : args[used]? = some arg) (fill : List Char → Filling (List Char)) :
    (fillField args fill .next).run (.afterEmpty used) =
      (.ok arg.toList, .afterEmpty (used + 1)) := by
  have hchoose : (Numbering.afterEmpty used).choose
      (TemplateField.next.name.takeWhile fun c => !isSelector c) =
        .ok (used, .afterEmpty (used + 1)) := by
    cases used <;> rfl
  have hselect : selectFrom (.text arg.toList)
      (TemplateField.next.name.dropWhile fun c => !isSelector c) = .ok (.text arg.toList) := by
    change selectFrom (.text arg.toList) [] = _
    rw [selectFrom]
  rw [fillField, run_bind_ok (run_get _), hchoose, Filling.ofExcept, run_bind_ok (run_pure _ _)]
  dsimp only
  rw [run_bind_ok (run_set _ _), harg]
  dsimp only
  rw [hselect, Filling.ofExcept, run_bind_ok (run_pure _ _)]
  rfl

/-- Characters in front are filled in as they are. -/
theorem run_fillParts_append {args : List String} {fill : List Char → Filling (List Char)}
    {parts : List TemplatePart} {numbering numbering' : Numbering} {filled : List Char}
    (h : (fillParts args fill parts).run numbering = (.ok filled, numbering')) (text : List Char) :
    (fillParts args fill (text.map .literal ++ parts)).run numbering =
      (.ok (text ++ filled), numbering') := by
  induction text with
  | nil => exact h
  | cons c text ih =>
    rw [List.map_cons, List.cons_append, fillParts, run_bind_ok ih]
    rfl

/-- An empty field in front is filled with the next argument. -/
theorem run_fillParts_next {args : List String} {fill : List Char → Filling (List Char)}
    {parts : List TemplatePart} {used : Nat} {arg : String} {numbering : Numbering}
    {filled : List Char} (harg : args[used]? = some arg)
    (h : (fillParts args fill parts).run (.afterEmpty (used + 1)) = (.ok filled, numbering)) :
    (fillParts args fill (.field .next :: parts)).run (.afterEmpty used) =
      (.ok (arg.toList ++ filled), numbering) := by
  rw [fillParts, run_bind_ok (run_fillField_next harg fill), run_bind_ok h]
  rfl

end QLanguage
