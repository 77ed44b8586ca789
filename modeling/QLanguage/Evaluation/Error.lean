import QLanguage.Tree.Source

/-!
# Evaluation errors

What can go wrong in evaluation. The first error ends the evaluation.
-/

namespace QLanguage

/-- A reason why an expression has no value. -/
inductive EvalError where
  /-- A name has no value. -/
  | undefined (name : String)
  /-- The root scope cannot be closed. -/
  | underflow
  /-- The name of a call stands for something that is not a function. -/
  | notFunction (name : String) (value : Expr)
  /-- The value of a declaration depends on itself. -/
  | cyclic (name : String)
  /-- No clause accepts the arguments. -/
  | noClause (name : String) (arity : Int)
deriving DecidableEq

namespace EvalError

/-- The template of what is said of an evaluation error. -/
def template : EvalError → String
  | .undefined _ => "'\x7b\x7d' has not been defined"
  | .underflow => "attempted to pop the root scope"
  | .notFunction _ _ => "'\x7b\x7d' is not a function, it is bound to '\x7b\x7d'"
  | .cyclic _ => "the value of '\x7b\x7d' depends on itself"
  | .noClause _ _ => "no clause of '\x7b\x7d' matches \x7b\x7d argument(s)"

/-- What the template of an evaluation error is filled with. -/
def arguments : EvalError → List String
  | .undefined name | .cyclic name => [name]
  | .underflow => []
  | .notFunction name value => [name, value.source]
  | .noClause name arity => [name, toString arity]

end EvalError

/-- Why an evaluation ends without a value. -/
inductive Halt where
  /-- An error of the program. -/
  | error (e : EvalError)
  /-- Evaluations nest too deeply. -/
  | tooDeep
deriving DecidableEq

end QLanguage
