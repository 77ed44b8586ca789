/-!
# Lines of text

A text is cut into pieces at a character, such as the line feed. A file's text has its line ends
normalised when it is read. Input at the prompt is split at line feeds only, and each line loses the
carriage returns at its end.
-/

namespace QLanguage

/-- The pieces of a text between the occurrences of a character, one more than there are of
these. -/
def pieces (separator : Char) : List Char → List (List Char)
  | [] => [[]]
  | c :: rest =>
    if c = separator then [] :: pieces separator rest
    else
      match pieces separator rest with
      | piece :: more => (c :: piece) :: more
      | [] => [[c]]

/-- Turns a carriage return, alone or before a line feed, into a line feed. -/
def normaliseLineEnds : List Char → List Char
  | [] => []
  | '\r' :: '\n' :: rest => '\n' :: normaliseLineEnds rest
  | '\r' :: rest => '\n' :: normaliseLineEnds rest
  | c :: rest => c :: normaliseLineEnds rest

/-- The text of a file: strict UTF-8 with its line ends normalised. -/
def decodeText? (bytes : ByteArray) : Option String :=
  (String.fromUTF8? bytes).map fun text => String.ofList (normaliseLineEnds text.toList)

/-- A line without the line ends behind it. -/
def stripLineEnd (line : List Char) : List Char :=
  (line.reverse.dropWhile fun c => c == '\r' || c == '\n').reverse

/-- The lines of an input, without their line ends. What follows the last line feed is a line if it
is not empty. -/
def inputLines (text : String) : List String :=
  let lines := pieces '\n' text.toList
  let lines := if lines.getLast? == some [] then lines.dropLast else lines
  lines.map fun line => String.ofList (stripLineEnd line)

end QLanguage
