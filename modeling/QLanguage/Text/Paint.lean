/-!
# Painted text

Parts of what is said and written stand out. On a terminal with colours such a part is wrapped in
terminal sequences, and on one without it is written as it is. A text is painted when it is made, so
whoever makes one has to know what the terminal is like.
-/

namespace QLanguage

/-- How a part of a text stands out. -/
inductive Paint where
  /-- Bold, in the terminal's own colour. -/
  | bold
  /-- Bold and red, the mark of errors. -/
  | red
  /-- Bold and magenta, the mark of warnings. -/
  | magenta
deriving Repr, DecidableEq

/-- The terminal sequence that starts a paint. -/
def Paint.start : Paint → String
  | .bold => "\x1b[1m"
  | .red => "\x1b[1m\x1b[31m"
  | .magenta => "\x1b[1m\x1b[35m"

/-- The terminal sequence that ends every paint. -/
def Paint.reset : String := "\x1b[0m"

/-- A text that stands out, on a terminal with or without colours. An empty text is wrapped, too. -/
def painted (colours : Bool) (paint : Paint) (text : String) : String :=
  if colours then paint.start ++ text ++ Paint.reset else text

end QLanguage
