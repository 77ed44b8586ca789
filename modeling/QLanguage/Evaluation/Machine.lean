import QLanguage.Evaluation.Environment
import QLanguage.Evaluation.Error
import QLanguage.Step

/-!
# Evaluation

Declarations are evaluated in source order and their values bound in the root scope. A name that is
declared and not evaluated yet is evaluated where it is first needed, so declarations may refer to
each other in any order. Scoping is dynamic: the scope of a call lies inside the scope of its
caller.

`eval` counts the levels that are left and halts when there are none. The helpers take the evaluator
of the next level as an argument.
-/

namespace QLanguage

/-- The state of an evaluation. -/
structure Machine where
  /-- The scopes. -/
  env : Environment
  /-- The declarations that are not evaluated yet. -/
  pending : Table Expr
  /-- The declarations whose evaluation has begun and not ended, the latest first. -/
  evaluating : List String
  /-- What has been printed. -/
  output : String
deriving DecidableEq

/-- The machine without declarations. -/
def Machine.empty : Machine := ⟨.empty, .empty, [], ""⟩

/-- The name of the built-in function, which no binding can replace. -/
def printName : String := "print"

/-- The name of the function that a program starts with. -/
def entryName : String := "main"

/-- What a program is started with. -/
def greeting : String := "hello world"

/-- A step that changes a machine and gives a result or halts. -/
abbrev Eval := Step Halt Machine

namespace Eval

/-- Evaluates expressions from left to right. -/
def all (ev : Expr → Eval Expr) : List Expr → Eval (List Expr)
  | [] => return []
  | e :: es => do
    let value ← ev e
    return value :: (← all ev es)

/-- Evaluates a declaration that is still pending and binds its value in the root scope. -/
def force (ev : Expr → Eval Expr) (name : String) (expr : Expr) : Eval Expr := do
  if (← get).evaluating.contains name then throw (.error (.cyclic name))
  modify fun m => { m with evaluating := name :: m.evaluating }
  -- The mark goes on both ways out, and the declaration stays pending on the bad one.
  let value ← (ev expr).andThen fun m => { m with evaluating := m.evaluating.erase name }
  modify fun m => { m with pending := m.pending.erase name, env := m.env.define name value }
  return value

/-- The value of a name: from the scopes, or else from a declaration that is still pending. -/
def resolve (ev : Expr → Eval Expr) (name : String) : Eval Expr := do
  let m ← get
  match m.env.lookup? name with
  | some value => return value
  | none =>
    match m.pending.get? name with
    | some expr => force ev name expr
    | none => throw (.error (.undefined name))

/-- Runs a step in a fresh scope with some bindings, which is closed whether the step halts or
not. -/
def inScope {α : Type} (bindings : List (String × Expr)) (step : Eval α) : Eval α := do
  modify fun m => { m with env := m.env.enter bindings }
  step.andThen fun m => { m with env := m.env.leave }

end Eval

/-- What patterns bind when each accepts the argument in its place and there are as many of them as
arguments. -/
def matchAll? : List Pattern → List Expr → Option (List (String × Expr))
  | [], [] => some []
  | p :: ps, v :: vs =>
    match p.match? v, matchAll? ps vs with
    | some bindings, some more => some (bindings ++ more)
    | _, _ => none
  | _, _ => none

/-- The bindings and the body of the first clause that accepts the arguments. -/
def selectClause? (clauses : List Clause) (args : List Expr) :
    Option (List (String × Expr) × Expr) :=
  clauses.findSome? fun clause =>
    (matchAll? clause.patterns args).map fun bindings => (bindings, clause.body)

namespace Eval

/-- Applies the clauses of a named function to arguments. -/
def dispatch (ev : Expr → Eval Expr) (name : String) (clauses : List Clause) (args : List Expr) :
    Eval Expr :=
  match selectClause? clauses args with
  | some (bindings, body) => inScope bindings (ev body)
  | none => throw (.error (.noClause name args.length))

/-- Prints values in debug form, one line for each call. -/
def print (ev : Expr → Eval Expr) (args : List Expr) : Eval Expr := do
  let values ← all ev args
  modify fun m => { m with output := m.output ++ listText (Expr.debugs values) ++ "\n" }
  return .string "ok"

/-- Evaluates an expression in at most `depth` nested evaluations. -/
def eval : Nat → Expr → Eval Expr
  | 0, _ => throw .tooDeep
  | depth + 1, .call name args => do
    if name = printName then print (eval depth) args
    else
      match ← resolve (eval depth) name with
      | .function first others =>
        let values ← all (eval depth) args
        dispatch (eval depth) name (first :: others) values
      | value => throw (.error (.notFunction name value))
  | depth + 1, .variable name => resolve (eval depth) name
  | _ + 1, .string text => return .string text
  | _ + 1, .function first others => return .function first others

/-- Evaluates those of some declarations that are still pending, in order. -/
def forceAll (depth : Nat) : List Declaration → Eval Unit
  | [] => return ()
  | d :: ds => do
    match (← get).pending.get? d.name with
    | some expr =>
      let _ ← force (eval depth) d.name expr
      forceAll depth ds
    | none => forceAll depth ds

/-- Evaluates one more declaration and binds it in the root scope. Nothing is bound if that
halts. -/
def declare (depth : Nat) (d : Declaration) : Eval Expr := do
  let value ← eval depth d.value
  modify fun m => { m with env := m.env.define d.name value }
  return value

/-- Evaluates declarations one after another. -/
def declareAll (depth : Nat) : List Declaration → Eval Unit
  | [] => return ()
  | d :: ds => do
    let _ ← declare depth d
    declareAll depth ds

/-- Calls the function that a program starts with. -/
def callEntry (depth : Nat) : Eval Expr := eval depth (.call entryName [.string greeting])

end Eval

/-- The machine of some declarations before any is evaluated. The last declaration of a name
counts. -/
def Machine.start (items : List Declaration) : Machine :=
  { Machine.empty with pending := Table.empty.setAll (items.map fun d => (d.name, d.value)) }

/-- Evaluates the declarations of a module. -/
def Machine.load (depth : Nat) (m : Module) : Except Halt Unit × Machine :=
  (Eval.forceAll depth m.items).run (Machine.start m.items)

end QLanguage
