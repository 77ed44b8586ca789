import QLanguage.Text.Paint

/-!
# Places in a source

An offset into a source lies on a line and at a column, both counted from one. An offset outside
the source counts as the nearer end of it. The quotation of a place shows its line and, below it, a
caret under the first character and tildes under the others, up to the end of the line.
-/

namespace QLanguage

/-- A place in a source. -/
structure Location where
  /-- The line, without its line end. -/
  line : String
  /-- The number of the line. -/
  number : Nat
  /-- The column of the place. -/
  column : Nat
deriving Repr, DecidableEq

/-- The nearest offset inside a text of a given length. -/
def clampOffset (offset : Int) (length : Nat) : Nat := min offset.toNat length

/-- Where an offset lies. -/
def locate (source : String) (offset : Int) : Location :=
  let place := clampOffset offset source.length
  let before := source.toList.take place
  -- The line runs from the last line feed before the place to the next one behind it.
  let lead := (before.reverse.takeWhile (· != '\n')).reverse
  let trail := (source.toList.drop place).takeWhile (· != '\n')
  { line := String.ofList (lead ++ trail)
    number := before.count '\n' + 1
    column := lead.length + 1 }

/-- How many characters a mark covers: as many as it spans, at least one, and none behind the end of
the line but the first. -/
def markWidth (start stop : Int) (lineLength place : Nat) : Nat :=
  min (max (stop - start).toNat 1) (max (lineLength - place) 1)

/-- The line of a place with a stretch of it marked, and the mark below it. -/
def quotation (colours : Bool) (paint : Paint) (source : String) (start stop : Int) : String :=
  let location := locate source start
  let line := location.line.toList
  let place := location.column - 1
  let width := markWidth start stop line.length place
  "  " ++ String.ofList (line.take place) ++
    painted colours paint (String.ofList ((line.drop place).take width)) ++
    String.ofList (line.drop (place + width)) ++ "\n" ++
    "  " ++ String.ofList (List.replicate place ' ') ++
    painted colours paint (String.ofList ('^' :: List.replicate (width - 1) '~'))

end QLanguage
