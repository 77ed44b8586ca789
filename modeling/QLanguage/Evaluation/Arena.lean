import QLanguage.Evaluation.Environment
import QLanguage.Evaluation.Error
import QLanguage.Step

/-!
# Scope arenas

An arena holds the live scopes by number and knows the number of the current one. Each scope knows
the number of the scope around it, and names are looked up from the current scope outwards along
these numbers. The scope around a scope is older and has a smaller number, so every such walk ends.
-/

namespace QLanguage

/-- A scope with the number of the scope around it. -/
structure NestedScope where
  /-- The number of the scope around it, or `none` for the root. -/
  parent : Option Nat
  /-- What it binds. -/
  bindings : Scope
deriving DecidableEq

/-- Scopes by number, one of them the current one. -/
@[ext] structure Arena where
  /-- The live scopes, the root first. -/
  scopes : List NestedScope
  /-- The number of the current scope. -/
  current : Nat
  /-- The current scope is live. -/
  current_lt : current < scopes.length
  /-- The scope around a scope has a smaller number. -/
  parent_lt : ∀ (i : Nat) (scope : NestedScope) (parent : Nat), scopes[i]? = some scope →
    scope.parent = some parent → parent < i

namespace Arena

/-- The arena of the root alone, which binds nothing. -/
def fresh : Arena where
  scopes := [⟨none, .empty⟩]
  current := 0
  current_lt := Nat.zero_lt_one
  parent_lt := by
    intro i scope parent hscope hparent
    cases i with
    | zero =>
      cases hscope
      cases hparent
    | succ i => cases hscope

/-- The number of live scopes, the root included. -/
def depth (arena : Arena) : Nat := arena.scopes.length

/-- The current scope. -/
def currentScope (arena : Arena) : NestedScope := arena.scopes.get ⟨arena.current, arena.current_lt⟩

/-- The current scope is the one with the current number. -/
theorem getElem?_current (arena : Arena) :
    arena.scopes[arena.current]? = some arena.currentScope :=
  List.getElem?_eq_getElem arena.current_lt

/-- Opens a scope inside the current one. -/
def push (arena : Arena) : Arena where
  scopes := arena.scopes ++ [⟨some arena.current, .empty⟩]
  current := arena.scopes.length
  current_lt := by
    rw [List.length_append]
    exact Nat.lt_succ_self _
  parent_lt := by
    intro i scope parent hscope hparent
    rcases Nat.lt_trichotomy i arena.scopes.length with hlt | rfl | hgt
    · rw [List.getElem?_append_left hlt] at hscope
      exact arena.parent_lt i scope parent hscope hparent
    · rw [List.getElem?_concat_length] at hscope
      cases hscope
      cases hparent
      exact arena.current_lt
    · have hend : (arena.scopes ++ [NestedScope.mk (some arena.current) .empty]).length ≤ i := by
        rw [List.length_append]
        exact hgt
      rw [List.getElem?_eq_none hend] at hscope
      cases hscope

/-- Drops the last scope and goes to the scope around the current one. -/
def close (arena : Arena) (parent : Nat) (h : arena.currentScope.parent = some parent) : Arena where
  scopes := arena.scopes.dropLast
  current := parent
  current_lt := by
    have hparent := arena.parent_lt arena.current _ parent arena.getElem?_current h
    have hcurrent := arena.current_lt
    rw [List.length_dropLast]
    omega
  parent_lt := by
    intro i scope parent hscope hparent
    rw [List.getElem?_dropLast] at hscope
    split at hscope
    · exact arena.parent_lt i scope parent hscope hparent
    · cases hscope

/-- Changes what the scope of a number binds. -/
def rebind (arena : Arena) (index : Nat) (change : Scope → Scope) : Arena where
  scopes := arena.scopes.modify index fun scope => { scope with bindings := change scope.bindings }
  current := arena.current
  current_lt := by
    rw [List.length_modify]
    exact arena.current_lt
  parent_lt := by
    intro i scope parent hscope hparent
    rw [List.getElem?_modify, Option.map_eq_map, Option.map_eq_some_iff] at hscope
    obtain ⟨old, hold, rfl⟩ := hscope
    refine arena.parent_lt i old parent hold ?_
    split at hparent <;> exact hparent

/-- Binds a name in the current scope. -/
def bind (arena : Arena) (name : String) (value : Expr) : Arena :=
  arena.rebind arena.current (·.set name value)

/-- Binds a name in the root, whatever the current scope is. -/
def define (arena : Arena) (name : String) (value : Expr) : Arena :=
  arena.rebind 0 (·.set name value)

/-- The value of a name in the first scope that binds it, on the way outwards from the scope of a
number. -/
def find? (arena : Arena) (name : String) (index : Nat) : Option Expr :=
  match hscope : arena.scopes[index]? with
  | none => none
  | some scope =>
    match scope.bindings.get? name with
    | some value => some value
    | none =>
      match hparent : scope.parent with
      | none => none
      | some parent =>
        have : parent < index := arena.parent_lt index scope parent hscope hparent
        arena.find? name parent
termination_by index

/-- A scope that does not bind a name passes the question on to the scope around it. -/
theorem find?_eq {arena : Arena} {index : Nat} {scope : NestedScope}
    (h : arena.scopes[index]? = some scope) (name : String) :
    arena.find? name index =
      (scope.bindings.get? name).or (scope.parent.bind (arena.find? name)) := by
  rw [find?]
  split
  · next hnone =>
    rw [h] at hnone
    cases hnone
  · next found hfound =>
    obtain rfl : found = scope := Option.some.inj (hfound.symm.trans h)
    cases found.bindings.get? name with
    | some value => rfl
    | none =>
      dsimp only
      split
      · next hroot => rw [hroot]; rfl
      · next parent hparent => rw [hparent]; rfl

/-- Closes the current scope, unless it is the root. -/
def pop : Step EvalError Arena Unit := do
  let arena ← get
  match h : arena.currentScope.parent with
  | none => throw .underflow
  | some parent => set (arena.close parent h)

/-- The root cannot be closed. -/
theorem run_pop_root {arena : Arena} (h : arena.currentScope.parent = none) :
    pop.run arena = (.error .underflow, arena) := by
  unfold pop
  rw [Step.run_bind]
  dsimp only [Step.run_get]
  split
  · rfl
  · next parent hparent =>
    rw [h] at hparent
    cases hparent

/-- Closing any other scope leads to the scope around it. -/
theorem run_pop_close {arena : Arena} {parent : Nat} (h : arena.currentScope.parent = some parent) :
    pop.run arena = (.ok ⟨⟩, arena.close parent h) := by
  unfold pop
  rw [Step.run_bind]
  dsimp only [Step.run_get]
  split
  · next hparent =>
    rw [h] at hparent
    cases hparent
  · next parent' hparent =>
    obtain rfl : parent' = parent := Option.some.inj (hparent.symm.trans h)
    rfl

/-- The value of a name, from the current scope outwards. -/
def lookup (name : String) : Step EvalError Arena Expr := do
  let arena ← get
  match arena.find? name arena.current with
  | some value => return value
  | none => throw (.undefined name)

end Arena

end QLanguage
