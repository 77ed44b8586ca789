import QLanguage.Text.Joined
import QLanguage.Text.Quoted
import QLanguage.Tree.Basic

/-!
# The debug form of trees

The debug form names every node and its fields and quotes every text, so it is one line whatever
the texts hold.
-/

namespace QLanguage

/-- A name in debug form. -/
def nameDebug (name : String) : String := "Id(name=" ++ quoted name ++ ")"

mutual

/-- An expression in debug form. -/
def Expr.debug : Expr → String
  | .string text => "LiteralString(value=" ++ quoted text ++ ")"
  | .variable name => "Variable(id=" ++ nameDebug name ++ ")"
  | .call name args =>
    "Call(id=" ++ nameDebug name ++ ", args=" ++ tupleText (Expr.debugs args) ++ ")"
  | .function first others =>
    "Function(clauses=" ++ tupleText (first.debug :: Clause.debugs others) ++ ")"

/-- Expressions in debug form. -/
def Expr.debugs : List Expr → List String
  | [] => []
  | e :: es => e.debug :: Expr.debugs es

/-- A pattern in debug form. -/
def Pattern.debug : Pattern → String
  | .bind name => "Bind(id=" ++ nameDebug name ++ ")"
  | .wildcard => "Wildcard()"
  | .literal value => "Literal(value=" ++ value.debug ++ ")"

/-- Patterns in debug form. -/
def Pattern.debugs : List Pattern → List String
  | [] => []
  | p :: ps => p.debug :: Pattern.debugs ps

/-- A clause in debug form. -/
def Clause.debug : Clause → String
  | .mk patterns body =>
    "FunClause(args=" ++ tupleText (Pattern.debugs patterns) ++ ", body=" ++ body.debug ++ ")"

/-- Clauses in debug form. -/
def Clause.debugs : List Clause → List String
  | [] => []
  | c :: cs => c.debug :: Clause.debugs cs

end

/-- A declaration in debug form. -/
def Declaration.debug (d : Declaration) : String :=
  "ValueDeclaration(name=" ++ nameDebug d.name ++ ", value=" ++ d.value.debug ++ ")"

/-- A module in debug form. -/
def Module.debug (m : Module) : String :=
  "Module(name=" ++ nameDebug m.name ++ ", items=" ++ tupleText (m.items.map Declaration.debug) ++
    ")"

end QLanguage
