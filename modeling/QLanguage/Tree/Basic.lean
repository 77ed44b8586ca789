/-!
# Trees

The trees that sources are read into. A string and a function are values; a variable stands for
the value of a name, and a call applies the function of a name to arguments. A function has one
clause at least, which the type says by setting the first one apart.

Equality of trees is decidable: `Expr.beq_iff` says that the comparison by structure is equality.
-/

namespace QLanguage

mutual

/-- An expression. -/
inductive Expr where
  /-- A string, with its escapes as they stand in the source. -/
  | string (text : String)
  /-- The value of a name. -/
  | variable (name : String)
  /-- A call of the function of a name. -/
  | call (name : String) (args : List Expr)
  /-- A function of one clause or more, tried in this order. -/
  | function (first : Clause) (others : List Clause)

/-- A pattern for one argument. Sources only hold names; the other two are for callers that build
clauses themselves. -/
inductive Pattern where
  /-- Accepts every value and binds it to a name. -/
  | bind (name : String)
  /-- Accepts every value and binds nothing. -/
  | wildcard
  /-- Accepts one value only and binds nothing. -/
  | literal (value : Expr)

/-- One clause of a function. -/
inductive Clause where
  /-- The patterns of the arguments and the body. -/
  | mk (patterns : List Pattern) (body : Expr)

end

/-- The patterns of a clause. -/
def Clause.patterns : Clause → List Pattern
  | .mk patterns _ => patterns

/-- The body of a clause. -/
def Clause.body : Clause → Expr
  | .mk _ body => body

/-- The number of arguments that a clause takes. -/
def Clause.arity (clause : Clause) : Nat := clause.patterns.length

/-- The function of some clauses, if there is one. -/
def Expr.function? : List Clause → Option Expr
  | [] => none
  | first :: others => some (.function first others)

/-- Whether an expression is a value, which evaluates to itself. -/
def Expr.isValue : Expr → Bool
  | .string _ | .function _ _ => true
  | .variable _ | .call _ _ => false

/-- A name and the expression that it stands for. -/
structure Declaration where
  /-- The name. -/
  name : String
  /-- The expression. -/
  value : Expr

/-- Declarations under the name of their source. -/
structure Module where
  /-- The name of the source. -/
  name : String
  /-- The declarations in source order. -/
  items : List Declaration

mutual

/-- Compares two expressions by structure. -/
def Expr.beq : Expr → Expr → Bool
  | .string a, .string b => a == b
  | .variable a, .variable b => a == b
  | .call f as, .call g bs => f == g && Expr.beqAll as bs
  | .function c cs, .function d ds => c.beq d && Clause.beqAll cs ds
  | _, _ => false

/-- Compares two lists of expressions by structure. -/
def Expr.beqAll : List Expr → List Expr → Bool
  | [], [] => true
  | a :: as, b :: bs => a.beq b && Expr.beqAll as bs
  | _, _ => false

/-- Compares two patterns by structure. -/
def Pattern.beq : Pattern → Pattern → Bool
  | .bind a, .bind b => a == b
  | .wildcard, .wildcard => true
  | .literal a, .literal b => a.beq b
  | _, _ => false

/-- Compares two lists of patterns by structure. -/
def Pattern.beqAll : List Pattern → List Pattern → Bool
  | [], [] => true
  | a :: as, b :: bs => a.beq b && Pattern.beqAll as bs
  | _, _ => false

/-- Compares two clauses by structure. -/
def Clause.beq : Clause → Clause → Bool
  | .mk ps a, .mk qs b => Pattern.beqAll ps qs && a.beq b

/-- Compares two lists of clauses by structure. -/
def Clause.beqAll : List Clause → List Clause → Bool
  | [], [] => true
  | a :: as, b :: bs => a.beq b && Clause.beqAll as bs
  | _, _ => false

end

mutual

/-- Comparison of expressions by structure is equality. -/
theorem Expr.beq_iff : ∀ a b : Expr, a.beq b = true ↔ a = b
  | .string a, b => by cases b <;> simp [Expr.beq]
  | .variable a, b => by cases b <;> simp [Expr.beq]
  | .call f as, b => by
    cases b with
    | call g bs => simp [Expr.beq, Expr.beqAll_iff as bs]
    | _ => simp [Expr.beq]
  | .function c cs, b => by
    cases b with
    | function d ds => simp [Expr.beq, Clause.beq_iff c d, Clause.beqAll_iff cs ds]
    | _ => simp [Expr.beq]

/-- Comparison of lists of expressions by structure is equality. -/
theorem Expr.beqAll_iff : ∀ as bs : List Expr, Expr.beqAll as bs = true ↔ as = bs
  | [], bs => by cases bs <;> simp [Expr.beqAll]
  | a :: as, bs => by
    cases bs with
    | nil => simp [Expr.beqAll]
    | cons b bs => simp [Expr.beqAll, Expr.beq_iff a b, Expr.beqAll_iff as bs]

/-- Comparison of patterns by structure is equality. -/
theorem Pattern.beq_iff : ∀ a b : Pattern, a.beq b = true ↔ a = b
  | .bind a, b => by cases b <;> simp [Pattern.beq]
  | .wildcard, b => by cases b <;> simp [Pattern.beq]
  | .literal a, b => by
    cases b with
    | literal b => simp [Pattern.beq, Expr.beq_iff a b]
    | _ => simp [Pattern.beq]

/-- Comparison of lists of patterns by structure is equality. -/
theorem Pattern.beqAll_iff : ∀ as bs : List Pattern, Pattern.beqAll as bs = true ↔ as = bs
  | [], bs => by cases bs <;> simp [Pattern.beqAll]
  | a :: as, bs => by
    cases bs with
    | nil => simp [Pattern.beqAll]
    | cons b bs => simp [Pattern.beqAll, Pattern.beq_iff a b, Pattern.beqAll_iff as bs]

/-- Comparison of clauses by structure is equality. -/
theorem Clause.beq_iff : ∀ a b : Clause, a.beq b = true ↔ a = b
  | .mk ps a, .mk qs b => by
    simp [Clause.beq, Pattern.beqAll_iff ps qs, Expr.beq_iff a b]

/-- Comparison of lists of clauses by structure is equality. -/
theorem Clause.beqAll_iff : ∀ as bs : List Clause, Clause.beqAll as bs = true ↔ as = bs
  | [], bs => by cases bs <;> simp [Clause.beqAll]
  | a :: as, bs => by
    cases bs with
    | nil => simp [Clause.beqAll]
    | cons b bs => simp [Clause.beqAll, Clause.beq_iff a b, Clause.beqAll_iff as bs]

end

instance : DecidableEq Expr := fun a b => decidable_of_iff _ (Expr.beq_iff a b)

instance : DecidableEq Pattern := fun a b => decidable_of_iff _ (Pattern.beq_iff a b)

instance : DecidableEq Clause := fun a b => decidable_of_iff _ (Clause.beq_iff a b)

instance : DecidableEq Declaration := fun a b =>
  decidable_of_iff (a.name = b.name ∧ a.value = b.value) (by cases a; cases b; simp)

instance : DecidableEq Module := fun a b =>
  decidable_of_iff (a.name = b.name ∧ a.items = b.items) (by cases a; cases b; simp)

/-- What a pattern binds when it accepts a value, or `none` when it does not. -/
def Pattern.match? : Pattern → Expr → Option (List (String × Expr))
  | .bind name, value => some [(name, value)]
  | .wildcard, _ => some []
  | .literal expected, value => if value = expected then some [] else none

end QLanguage
