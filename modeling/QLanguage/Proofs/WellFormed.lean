import QLanguage.Token.Cut
import QLanguage.Tree.Basic

/-!
# Well-formed trees

A tree is well formed when a source can hold it: its names are words, its strings close where they
end, and its patterns are names. The nesting of a tree counts the levels that its reading needs.
-/

namespace QLanguage

/-- Whether a text is a word over the letters and the low line. -/
def isName (text : String) : Bool := !text.toList.isEmpty && text.toList.all isLetter

/-- Whether characters may stand between quotation marks: every quotation mark has a backslash
before it that no other backslash has taken, and no backslash is left over at the end. -/
def isRaw : List Char → Bool
  | [] => true
  | '\x22' :: _ => false
  | ['\\'] => false
  | '\\' :: _ :: rest => isRaw rest
  | _ :: rest => isRaw rest

/-- Whether a pattern is a name. -/
def Pattern.wellFormed : Pattern → Bool
  | .bind name => isName name
  | .wildcard | .literal _ => false

mutual

/-- Whether a source can hold an expression. -/
def Expr.wellFormed : Expr → Bool
  | .string text => isRaw text.toList
  | .variable name => isName name
  | .call name args => isName name && Expr.allWellFormed args
  | .function first others => first.wellFormed && Clause.allWellFormed others

/-- Whether a source can hold each of some expressions. -/
def Expr.allWellFormed : List Expr → Bool
  | [] => true
  | e :: es => e.wellFormed && Expr.allWellFormed es

/-- Whether a source can hold a clause. -/
def Clause.wellFormed : Clause → Bool
  | .mk patterns body => patterns.all Pattern.wellFormed && body.wellFormed

/-- Whether a source can hold each of some clauses. -/
def Clause.allWellFormed : List Clause → Bool
  | [] => true
  | c :: cs => c.wellFormed && Clause.allWellFormed cs

end

/-- Whether a source can hold a declaration. -/
def Declaration.wellFormed (d : Declaration) : Bool := isName d.name && d.value.wellFormed

/-- Whether a source can hold a module. -/
def Module.wellFormed (m : Module) : Bool := m.items.all Declaration.wellFormed

mutual

/-- The levels to which an expression nests. -/
def Expr.nesting : Expr → Nat
  | .string _ | .variable _ => 1
  | .call _ args => Expr.nestingAll args + 1
  | .function first others => max first.nesting (Clause.nestingAll others) + 1

/-- The levels to which the deepest of some expressions nests. -/
def Expr.nestingAll : List Expr → Nat
  | [] => 0
  | e :: es => max e.nesting (Expr.nestingAll es)

/-- The levels to which the body of a clause nests. -/
def Clause.nesting : Clause → Nat
  | .mk _ body => body.nesting

/-- The levels to which the deepest of some clauses nests. -/
def Clause.nestingAll : List Clause → Nat
  | [] => 0
  | c :: cs => max c.nesting (Clause.nestingAll cs)

end

/-- The levels to which the deepest value of a module nests. -/
def Module.nesting (m : Module) : Nat := Expr.nestingAll (m.items.map Declaration.value)

/-! ## Every one of some trees -/

/-- Some expressions are well formed when each of them is. -/
theorem Expr.allWellFormed_iff (es : List Expr) :
    Expr.allWellFormed es = true ↔ ∀ e ∈ es, e.wellFormed = true := by
  induction es with
  | nil => simp [Expr.allWellFormed]
  | cons e es ih => simp [Expr.allWellFormed, ih]

/-- Some clauses are well formed when each of them is. -/
theorem Clause.allWellFormed_iff (cs : List Clause) :
    Clause.allWellFormed cs = true ↔ ∀ c ∈ cs, c.wellFormed = true := by
  induction cs with
  | nil => simp [Clause.allWellFormed]
  | cons c cs ih => simp [Clause.allWellFormed, ih]

/-- Some expressions nest within a depth when each of them does. -/
theorem Expr.nestingAll_le_iff (es : List Expr) (depth : Nat) :
    Expr.nestingAll es ≤ depth ↔ ∀ e ∈ es, e.nesting ≤ depth := by
  induction es with
  | nil => simp [Expr.nestingAll]
  | cons e es ih => rw [Expr.nestingAll, Nat.max_le, ih, List.forall_mem_cons]

/-- Some clauses nest within a depth when each of them does. -/
theorem Clause.nestingAll_le_iff (cs : List Clause) (depth : Nat) :
    Clause.nestingAll cs ≤ depth ↔ ∀ c ∈ cs, c.nesting ≤ depth := by
  induction cs with
  | nil => simp [Clause.nestingAll]
  | cons c cs ih => rw [Clause.nestingAll, Nat.max_le, ih, List.forall_mem_cons]

/-- A call nests one level deeper than its arguments. -/
theorem Expr.nesting_call_le_iff (name : String) (args : List Expr) (depth : Nat) :
    (Expr.call name args).nesting ≤ depth + 1 ↔ ∀ e ∈ args, e.nesting ≤ depth := by
  rw [← Expr.nestingAll_le_iff, Expr.nesting]
  omega

/-- A function nests one level deeper than its clauses. -/
theorem Expr.nesting_function_le_iff (first : Clause) (others : List Clause) (depth : Nat) :
    (Expr.function first others).nesting ≤ depth + 1 ↔
      ∀ c ∈ first :: others, c.nesting ≤ depth := by
  rw [← Clause.nestingAll_le_iff, Expr.nesting, Clause.nestingAll]
  omega

/-- The value of each declaration nests within the levels of the module. -/
theorem Module.nesting_le {name : String} {ds : List Declaration} {d : Declaration} (hd : d ∈ ds) :
    d.value.nesting ≤ (Module.mk name ds).nesting :=
  (Expr.nestingAll_le_iff _ _).mp (Nat.le_refl _) d.value (List.mem_map_of_mem hd)

/-- Every expression nests to one level at least. -/
theorem Expr.nesting_pos (e : Expr) : 0 < e.nesting := by
  cases e <;> simp [Expr.nesting]

end QLanguage
