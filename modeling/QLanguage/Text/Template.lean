import QLanguage.Step
import QLanguage.Text.Format
import QLanguage.Text.Item

/-!
# Message templates

A template is a text with fields in braces, and a doubled brace stands for itself. A field names an
argument, and may say how it is converted and formatted, as in `{0!r:>8}`. An empty name takes the
next argument and a numeral the argument of that number. Selectors behind the name lead on from the
argument, indices in brackets to its characters and names behind points to its properties. A format
may have fields of its own, which are filled first.

`templateParts` cuts a template into characters and fields, and `fillTemplate` fills it. Fields are
filled from left to right, so the first fault in that order is the one reported: a part that is
malformed counts only when the filling reaches it.
-/

namespace QLanguage

/-- Why a template cannot be filled. -/
inductive TemplateError where
  /-- An opening brace ends the text. -/
  | loneOpen
  /-- A closing brace stands outside a field. -/
  | loneClose
  /-- A field is not closed. -/
  | unclosed
  /-- The name of a field has an opening brace in it. -/
  | nestedOpen
  /-- The text ends where a conversion should stand. -/
  | noConversion
  /-- Something else than a format follows a conversion. -/
  | noColon
  /-- The format of a field is not closed. -/
  | unclosedFormat
  /-- A field in a format of a field in a format. -/
  | tooNested
  /-- There is no argument of this number. -/
  | noArgument (index : Nat)
  /-- There are no named arguments. -/
  | noName (name : String)
  /-- An empty field after a numbered one. -/
  | emptyAfterNumbered
  /-- A numbered field after an empty one. -/
  | numberedAfterEmpty
  /-- Nothing stands behind a point or between brackets. -/
  | emptySelector
  /-- Something else than a point or a bracket follows a closing bracket. -/
  | strayCharacter
  /-- An item has no property of this name. -/
  | noProperty (item : Item) (name : String)
  /-- An item has no entries. -/
  | noEntries (item : Item)
  /-- The entries of an item are numbered and not named. -/
  | namedEntry (k : ItemKind)
  /-- An item has no entry of this number. -/
  | noEntry (k : ItemKind)
  /-- There is no such conversion. -/
  | unknownConversion (c : Char)
  /-- Only a text has formats. -/
  | noFormats (k : ItemKind)
  /-- The argument cannot be formatted. -/
  | format (e : FormatError)
deriving Repr, DecidableEq

/-- What is said of a template that cannot be filled. -/
def TemplateError.message : TemplateError → String
  | .loneOpen => "Single '\x7b' encountered in format string"
  | .loneClose => "Single '\x7d' encountered in format string"
  | .unclosed => "expected '\x7d' before end of string"
  | .nestedOpen => "unexpected '\x7b' in field name"
  | .noConversion => "end of string while looking for conversion specifier"
  | .noColon => "expected ':' after conversion specifier"
  | .unclosedFormat => "unmatched '\x7b' in format spec"
  | .tooNested => "Max string recursion exceeded"
  | .noArgument index =>
    "Replacement index " ++ toString index ++ " out of range for positional args tuple"
  | .noName name => quoted name
  | .emptyAfterNumbered =>
    "cannot switch from manual field specification to automatic field numbering"
  | .numberedAfterEmpty =>
    "cannot switch from automatic field numbering to manual field specification"
  | .emptySelector => "Empty attribute in format string"
  | .strayCharacter => "Only '.' or '[' may follow ']' in format field specifier"
  | .noProperty (.kind k) name =>
    "type object '" ++ k.name ++ "' has no attribute '" ++ name ++ "'"
  | .noProperty item name =>
    "'" ++ item.kindOf.name ++ "' object has no attribute '" ++ name ++ "'"
  | .noEntries (.kind k) => "type '" ++ k.name ++ "' is not subscriptable"
  | .noEntries item => "'" ++ item.kindOf.name ++ "' object is not subscriptable"
  | .namedEntry .text => "string indices must be integers, not 'str'"
  | .namedEntry k => k.name ++ " indices must be integers or slices, not str"
  | .noEntry .text => "string index out of range"
  | .noEntry k => k.name ++ " index out of range"
  | .unknownConversion c => "Unknown conversion specifier " ++ shownCharacter 127 c
  | .noFormats k => "unsupported format string passed to " ++ k.name ++ ".__format__"
  | .format e => e.message

/-- A field of a template. -/
structure TemplateField where
  /-- The name of the argument, with its selectors. -/
  name : List Char
  /-- The conversion. -/
  conversion : Option Char
  /-- The format. -/
  format : List Char
deriving Repr, DecidableEq

/-- A part of a template. -/
inductive TemplatePart where
  /-- A character that stands for itself. -/
  | literal (c : Char)
  /-- A field. -/
  | field (f : TemplateField)
  /-- The place where the template turns out to be malformed. -/
  | fault (e : TemplateError)
deriving Repr, DecidableEq

/-- Where the cutting of a template stands. The characters of a piece that is not complete are kept
with the last one first. -/
inductive Cutting where
  /-- Outside the fields. -/
  | outside
  /-- In the name of a field. -/
  | name (name : List Char)
  /-- Between brackets in the name of a field. -/
  | brackets (name : List Char)
  /-- Before the conversion of a field. -/
  | conversion (name : List Char)
  /-- Behind the conversion of a field. -/
  | converted (name : List Char) (conversion : Char)
  /-- In the format of a field, inside some more braces. -/
  | format (name : List Char) (conversion : Option Char) (braces : Nat) (format : List Char)

/-- The parts of the rest of a template. -/
def partsFrom : Cutting → List Char → List TemplatePart
  | .outside, [] => []
  | .outside, ['\x7b'] => [.fault .loneOpen]
  | .outside, '\x7b' :: '\x7b' :: rest => .literal '\x7b' :: partsFrom .outside rest
  | .outside, '\x7b' :: rest => partsFrom (.name []) rest
  | .outside, '\x7d' :: '\x7d' :: rest => .literal '\x7d' :: partsFrom .outside rest
  | .outside, '\x7d' :: _ => [.fault .loneClose]
  | .outside, c :: rest => .literal c :: partsFrom .outside rest
  | .name _, [] | .brackets _, [] => [.fault .unclosed]
  | .name name, c :: rest =>
    if c == '\x7b' then [.fault .nestedOpen]
    else if c == '\x7d' then .field ⟨name.reverse, none, []⟩ :: partsFrom .outside rest
    else if c == ':' then partsFrom (.format name none 0 []) rest
    else if c == '!' then partsFrom (.conversion name) rest
    else if c == '[' then partsFrom (.brackets (c :: name)) rest
    else partsFrom (.name (c :: name)) rest
  | .brackets name, c :: rest =>
    partsFrom (if c == ']' then .name (c :: name) else .brackets (c :: name)) rest
  | .conversion _, [] => [.fault .noConversion]
  | .conversion name, c :: rest => partsFrom (.converted name c) rest
  | .converted _ _, [] => [.fault .unclosedFormat]
  | .converted name conversion, c :: rest =>
    if c == '\x7d' then .field ⟨name.reverse, some conversion, []⟩ :: partsFrom .outside rest
    else if c == ':' then partsFrom (.format name (some conversion) 0 []) rest
    else [.fault .noColon]
  | .format _ _ _ _, [] => [.fault .unclosedFormat]
  | .format name conversion braces format, c :: rest =>
    if c == '\x7b' then partsFrom (.format name conversion (braces + 1) (c :: format)) rest
    else if c == '\x7d' then
      match braces with
      | 0 => .field ⟨name.reverse, conversion, format.reverse⟩ :: partsFrom .outside rest
      | braces + 1 => partsFrom (.format name conversion braces (c :: format)) rest
    else partsFrom (.format name conversion braces (c :: format)) rest

/-- The parts of a template. -/
def templateParts (template : List Char) : List TemplatePart := partsFrom .outside template

/-- A character that is no brace is a part by itself. -/
theorem partsFrom_cons {c : Char} (hopen : c ≠ '\x7b') (hclose : c ≠ '\x7d') (rest : List Char) :
    partsFrom .outside (c :: rest) = .literal c :: partsFrom .outside rest := by
  rw [partsFrom] <;> simp_all

/-- A template without braces has only characters as its parts. -/
theorem templateParts_plain {template : List Char}
    (h : ∀ c ∈ template, c ≠ '\x7b' ∧ c ≠ '\x7d') :
    templateParts template = template.map .literal := by
  induction template with
  | nil => rfl
  | cons c rest ih =>
    have hc := h c (by simp)
    have hrest := ih fun d hd => h d (by simp [hd])
    rw [templateParts] at hrest ⊢
    rw [partsFrom_cons hc.1 hc.2, hrest, List.map_cons]

/-- How the fields met so far were numbered. -/
inductive Numbering where
  /-- No field yet. -/
  | undecided
  /-- Empty fields; the next one takes the argument of this number. -/
  | automatic (next : Nat)
  /-- Numbered fields. -/
  | manual
deriving Repr, DecidableEq

/-- The number that a name is, or `none` if it is not a numeral. A number that is too great is
refused even where other characters follow it. -/
def readIndex (name : List Char) : Except TemplateError (Option Nat) :=
  let digits := name.takeWhile isDecimalDigit
  if decimalNumber digits > greatestNumber then .error (.format .manyDigits)
  else if digits.isEmpty || digits.length < name.length then .ok none
  else .ok (some (decimalNumber digits))

/-- The argument number that a name asks for, and the numbering after it. -/
def Numbering.choose (numbering : Numbering) (name : List Char) :
    Except TemplateError (Nat × Numbering) := do
  match ← readIndex name, numbering with
  | some _, .automatic _ => .error .numberedAfterEmpty
  | some index, _ => .ok (index, .manual)
  | none, _ =>
    if !name.isEmpty then .error (.noName (String.ofList name))
    else
      match numbering with
      | .undecided => .ok (0, .automatic 1)
      | .automatic next => .ok (next, .automatic (next + 1))
      | .manual => .error .emptyAfterNumbered

/-- Whether a character starts a selector. -/
def isSelector (c : Char) : Bool := c == '.' || c == '['

/-- The entry of an item that has a number, or a name if there is no number. The entries of a text
are its characters. -/
def Item.entry : Item → Option Nat → Except TemplateError Item
  | .text _, none => .error (.namedEntry .text)
  | .row _, none => .error (.namedEntry .row)
  | .text chars, some index =>
    match chars[index]? with
    | none => .error (.noEntry .text)
    | some c => .ok (.text [c])
  | .row kinds, some index =>
    match kinds[index]? with
    | none => .error (.noEntry .row)
    | some k => .ok (.kind k)
  | item, _ => .error (.noEntries item)

/-- What the selectors behind a name lead to from an item. -/
def selectFrom (item : Item) : List Char → Except TemplateError Item
  | [] => .ok item
  | '.' :: rest =>
    let name := rest.takeWhile fun c => !isSelector c
    if name.isEmpty then .error .emptySelector
    else
      match item.property? (String.ofList name) with
      | none => .error (.noProperty item (String.ofList name))
      | some item => selectFrom item (rest.drop name.length)
  | '[' :: rest =>
    let key := rest.takeWhile (· != ']')
    match readIndex key with
    | .error e => .error e
    | .ok index =>
      if key.isEmpty then .error .emptySelector
      else
        match item.entry index with
        | .error e => .error e
        | .ok item => selectFrom item (rest.drop (key.length + 1))
  | _ :: _ => .error .strayCharacter
termination_by selectors => selectors.length
decreasing_by all_goals rw [List.length_cons, List.length_drop]; omega

/-- An item after a conversion. The null character counts as none. -/
def Item.convert (item : Item) : Option Char → Except TemplateError Item
  | none | some '\x00' => .ok item
  | some 's' => .ok (.text item.shown)
  | some 'r' => .ok (.text item.debugged.toList)
  | some 'a' => .ok (.text (asciiOnly item.debugged).toList)
  | some c => .error (.unknownConversion c)

/-- An item as a format lays it out. An item that is no text is shown as it is, and takes no
format. -/
def Item.format (format : List Char) : Item → Except TemplateError (List Char)
  | .text chars =>
    match formatText format chars with
    | .ok laidOut => .ok laidOut
    | .error e => .error (.format e)
  | item => if format.isEmpty then .ok item.shown else .error (.noFormats item.kindOf)

/-- A step in filling a template. -/
abbrev Filling := Step TemplateError Numbering

/-- A result that is there already. -/
def Filling.ofExcept {α : Type} : Except TemplateError α → Filling α
  | .ok a => return a
  | .error e => throw e

/-- Fills a field with one of some arguments. `fill` fills the fields of its format. -/
def fillField (args : List String) (fill : List Char → Filling (List Char)) (f : TemplateField) :
    Filling (List Char) := do
  let (index, numbering) ← Filling.ofExcept
    ((← get).choose (f.name.takeWhile fun c => !isSelector c))
  set numbering
  match args[index]? with
  | none => throw (.noArgument index)
  | some arg =>
    let item ← Filling.ofExcept
      (selectFrom (.text arg.toList) (f.name.dropWhile fun c => !isSelector c))
    let item ← Filling.ofExcept (item.convert f.conversion)
    let format ← if f.format.contains '\x7b' then fill f.format else pure f.format
    Filling.ofExcept (item.format format)

/-- Fills the parts of a template one after another. -/
def fillParts (args : List String) (fill : List Char → Filling (List Char)) :
    List TemplatePart → Filling (List Char)
  | [] => return []
  | .literal c :: more => return c :: (← fillParts args fill more)
  | .field f :: more => do
    let text ← fillField args fill f
    return text ++ (← fillParts args fill more)
  | .fault e :: _ => throw e

/-- Characters are filled in as they are. -/
theorem run_fillParts_literals (args : List String) (fill : List Char → Filling (List Char))
    (text : List Char) (numbering : Numbering) :
    (fillParts args fill (text.map .literal)).run numbering = (.ok text, numbering) := by
  induction text with
  | nil => rfl
  | cons c rest ih =>
    rw [List.map_cons, fillParts, Step.run_bind, ih]
    rfl

/-- Fills a template whose formats have fields in them to at most `depth` levels. -/
def fillWithin (args : List String) : Nat → List Char → Filling (List Char)
  | 0, _ => throw .tooNested
  | depth + 1, template => fillParts args (fillWithin args depth) (templateParts template)

/-- The levels of templates: the template itself and the formats of its fields. -/
def templateLevels : Nat := 2

/-- Fills a template with arguments. -/
def fillTemplate (template : String) (args : List String) : Except TemplateError String :=
  ((fillWithin args templateLevels template.toList).run .undecided).1.map String.ofList

/-- A template without braces is filled by itself, whatever the arguments. -/
theorem fillTemplate_plain {template : String}
    (h : ∀ c ∈ template.toList, c ≠ '\x7b' ∧ c ≠ '\x7d') (args : List String) :
    fillTemplate template args = .ok template := by
  rw [fillTemplate, templateLevels, fillWithin, templateParts_plain h, run_fillParts_literals]
  simp [Except.map]

end QLanguage
