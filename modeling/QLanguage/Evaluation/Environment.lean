import QLanguage.Table
import QLanguage.Tree.Debug

/-!
# Environments

Names are looked up in a stack of scopes, the innermost first and the root last. Scopes come and go
in nested pairs; the root always stays.
-/

namespace QLanguage

/-- The bindings of one level. -/
abbrev Scope := Table Expr

/-- A stack of scopes. -/
structure Environment where
  /-- The outermost scope. -/
  root : Scope
  /-- The scopes inside it, the innermost first. -/
  inner : List Scope
deriving DecidableEq

namespace Environment

/-- The environment that binds nothing. -/
def empty : Environment := ⟨.empty, []⟩

/-- The number of scopes, the root included. -/
def depth (env : Environment) : Nat := env.inner.length + 1

/-- The scopes by number, the root first. -/
def scopes (env : Environment) : List Scope := env.root :: env.inner.reverse

/-- The number of the innermost scope. -/
def current (env : Environment) : Nat := env.depth - 1

/-- The number of the scope around a scope. -/
def parent? (index : Nat) : Option Nat := if index = 0 then none else some (index - 1)

/-- The innermost scope. -/
def innermost (env : Environment) : Scope := env.inner.headD env.root

/-- Opens a scope inside the innermost one. -/
def push (env : Environment) : Environment := { env with inner := .empty :: env.inner }

/-- Closes the innermost scope, unless it is the root. -/
def pop? (env : Environment) : Option Environment :=
  match env.inner with
  | [] => none
  | _ :: inner => some { env with inner := inner }

/-- Opens a scope with some bindings inside the innermost one. The last binding of a name counts. -/
def enter (env : Environment) (bindings : List (String × Expr)) : Environment :=
  { env with inner := Table.empty.setAll bindings :: env.inner }

/-- Closes the innermost scope. The root stays. -/
def leave (env : Environment) : Environment := { env with inner := env.inner.drop 1 }

/-- Binds a name in the innermost scope. -/
def bind (env : Environment) (name : String) (value : Expr) : Environment :=
  match env.inner with
  | [] => { env with root := env.root.set name value }
  | scope :: inner => { env with inner := scope.set name value :: inner }

/-- Binds a name in the root, whatever the innermost scope is. -/
def define (env : Environment) (name : String) (value : Expr) : Environment :=
  { env with root := env.root.set name value }

/-- The value of a name in the innermost scope that binds it. -/
def lookup? (env : Environment) (name : String) : Option Expr :=
  (env.inner.findSome? (·.get? name)).or (env.root.get? name)

/-- A fresh scope hides nothing. -/
theorem lookup?_push (env : Environment) (name : String) :
    env.push.lookup? name = env.lookup? name := rfl

/-- Closing a scope that was just opened gives the environment back. -/
theorem pop?_push (env : Environment) : env.push.pop? = some env := rfl

/-- Closing a scope that was opened with bindings gives the environment back. -/
theorem leave_enter (env : Environment) (bindings : List (String × Expr)) :
    (env.enter bindings).leave = env := rfl

/-- A name that is bound has its value, and the other names keep theirs. -/
theorem lookup?_bind (env : Environment) (name other : String) (value : Expr) :
    (env.bind name value).lookup? other =
      if other = name then some value else env.lookup? other := by
  obtain ⟨root, inner⟩ := env
  cases inner with
  | nil => simp [lookup?, bind, Table.get?_set]
  | cons scope inner =>
    simp only [lookup?, bind, List.findSome?_cons, Table.get?_set]
    by_cases h : other = name <;> simp [h]

/-- A scope in debug form, with the number of the scope around it. -/
def scopeDebug (parent : Option Nat) (scope : Scope) : String :=
  "Scope(parent=" ++ (parent.map toString).getD "None" ++ ", bindings=" ++
    tableText (scope.entries.map fun (name, value) => (nameDebug name, value.debug)) ++ ")"

end Environment

end QLanguage
