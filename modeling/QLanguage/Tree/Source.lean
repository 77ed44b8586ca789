import QLanguage.Text.Joined
import QLanguage.Tree.Basic

/-!
# The source form of trees

Every tree that was read from a source is written so that reading it again gives the same tree.
-/

namespace QLanguage

mutual

/-- An expression in source form. -/
def Expr.source : Expr → String
  | .string text => "\"" ++ text ++ "\""
  | .variable name => name
  | .call name args => name ++ "(" ++ ", ".intercalate (Expr.sources args) ++ ")"
  | .function first others => "; ".intercalate (first.source :: Clause.sources others)

/-- Expressions in source form. -/
def Expr.sources : List Expr → List String
  | [] => []
  | e :: es => e.source :: Expr.sources es

/-- A pattern in source form. -/
def Pattern.source : Pattern → String
  | .bind name => name
  | .wildcard => "_"
  | .literal value => value.source

/-- Patterns in source form. -/
def Pattern.sources : List Pattern → List String
  | [] => []
  | p :: ps => p.source :: Pattern.sources ps

/-- A clause in source form. -/
def Clause.source : Clause → String
  | .mk patterns body =>
    "(" ++ ", ".intercalate (Pattern.sources patterns) ++ ") \x7b " ++ body.source ++ " \x7d"

/-- Clauses in source form. -/
def Clause.sources : List Clause → List String
  | [] => []
  | c :: cs => c.source :: Clause.sources cs

end

/-- A declaration in source form. -/
def Declaration.source (d : Declaration) : String := d.name ++ " = " ++ d.value.source

/-- A module in source form, one declaration a line. -/
def Module.source (m : Module) : String := "\n".intercalate (m.items.map Declaration.source)

end QLanguage
