import QLanguage.Text.CharClass

/-!
# Blank characters

The characters that separate lexemes and that are cut from the ends of a line: the white space of
Unicode together with the four information separators U+001C to U+001F.
-/

namespace QLanguage

/-- The blank characters. -/
def blanks : CharClass :=
  [(0x09, 0x0d), (0x1c, 0x20), (0x85, 0x85), (0xa0, 0xa0), (0x1680, 0x1680), (0x2000, 0x200a),
   (0x2028, 0x2029), (0x202f, 0x202f), (0x205f, 0x205f), (0x3000, 0x3000)]

/-- Whether a character is blank. -/
def isBlank (c : Char) : Bool := blanks.contains c

/-- The text without its blank characters at both ends. -/
def stripBlanks (text : String) : String :=
  String.ofList ((text.toList.dropWhile isBlank).reverse.dropWhile isBlank).reverse

end QLanguage
