import QLanguage.Text.Printable

/-!
# Quoted text

The debug form of a text: between quotes, on one line, with every character that is not printable
spelled in hexadecimal. The quote is the apostrophe, or the quotation mark for a text that has an
apostrophe and no quotation mark.
-/

namespace QLanguage

/-- The apostrophe. -/
def apostrophe : Char := '\x27'

/-- The quotation mark. -/
def quotationMark : Char := '\x22'

/-- A number in lower-case hexadecimal digits, padded with zeros to a width. -/
def hexadecimal (width n : Nat) : List Char :=
  let digits := Nat.toDigits 16 n
  List.replicate (width - digits.length) '0' ++ digits

/-- A character spelled in hexadecimal, by the shortest escape that fits. -/
def spelled (c : Char) : List Char :=
  if c.toNat < 0x100 then '\\' :: 'x' :: hexadecimal 2 c.toNat
  else if c.toNat < 0x10000 then '\\' :: 'u' :: hexadecimal 4 c.toNat
  else '\\' :: 'U' :: hexadecimal 8 c.toNat

/-- One character inside quotes: the quote and the backslash are escaped, line ends and tabs have
letters of their own, and what is not printable is spelled. -/
def escaped (quote c : Char) : List Char :=
  if c == quote || c == '\\' then ['\\', c]
  else if c == '\n' then ['\\', 'n']
  else if c == '\r' then ['\\', 'r']
  else if c == '\t' then ['\\', 't']
  else if isPrintable c then [c]
  else spelled c

/-- The quote that a text is written in. -/
def quoteOf (cs : List Char) : Char :=
  if cs.contains apostrophe && !cs.contains quotationMark then quotationMark else apostrophe

/-- A text in quotes. -/
def quoted (text : String) : String :=
  let cs := text.toList
  let quote := quoteOf cs
  String.ofList (quote :: cs.flatMap (escaped quote) ++ [quote])

/-- A text with everything beyond ASCII spelled. -/
def asciiOnly (text : String) : String :=
  String.ofList (text.toList.flatMap fun c => if c.toNat < 0x80 then [c] else spelled c)

end QLanguage
