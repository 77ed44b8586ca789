import QLanguage.Evaluation.Arena
import QLanguage.Proofs.Steps
import QLanguage.Proofs.Tables

/-!
# Arenas are stacks of maps

Each environment has an arena, with a scope for each of its scopes, numbered from the root
(`Environment.arena`), and whatever is done to an environment, the same done to its arena leaves the
arena of the environment that comes of it. So the arenas that are ever reached are those of
environments: the current scope is the last one and the scope around a scope is the one before it.

What a name is looked up to is told by the writes to the live scopes alone (`writes`), and calls
that close just the scopes that they open (`Balanced`) leave nothing behind in the scopes around
them but what they have defined in the root.
-/

namespace QLanguage

open Step

/-! ## Calls -/

/-- What can be asked of scopes. -/
inductive ScopeCall where
  /-- To open a scope. -/
  | push
  /-- To close the current scope. -/
  | pop
  /-- To bind a name in the current scope. -/
  | bind (name : String) (value : Expr)
  /-- To bind a name in the root. -/
  | define (name : String) (value : Expr)
  /-- To look a name up. -/
  | lookup (name : String)

namespace ScopeCall

/-- The call on an arena. -/
def onArena : ScopeCall → Step EvalError Arena (Option Expr)
  | .push => do
    modify Arena.push
    return none
  | .pop => do
    Arena.pop
    return none
  | .bind name value => do
    modify fun arena => arena.bind name value
    return none
  | .define name value => do
    modify fun arena => arena.define name value
    return none
  | .lookup name => do return some (← Arena.lookup name)

/-- The call on an environment. -/
def onEnvironment : ScopeCall → Step EvalError Environment (Option Expr)
  | .push => do
    modify Environment.push
    return none
  | .pop => do
    match (← get).pop? with
    | some env =>
      set env
      return none
    | none => throw .underflow
  | .bind name value => do
    modify fun env => env.bind name value
    return none
  | .define name value => do
    modify fun env => env.define name value
    return none
  | .lookup name => do
    match (← get).lookup? name with
    | some value => return some value
    | none => throw (.undefined name)

/-- Looking a name up changes nothing. -/
theorem run_onEnvironment_lookup (name : String) (env : Environment) :
    (lookup name).onEnvironment.run env =
      ((env.lookup? name).elim (.error (.undefined name)) fun value => .ok (some value), env) := by
  change (match env.lookup? name with
    | some value => (pure (some value) : Step EvalError Environment (Option Expr))
    | none => throw (EvalError.undefined name)).run env = _
  cases env.lookup? name <;> rfl

end ScopeCall

/-- An arena after some calls, each made whatever came of those before. -/
def Arena.after (arena : Arena) (calls : List ScopeCall) : Arena :=
  calls.foldl (fun arena call => (call.onArena.run arena).2) arena

/-- An environment after some calls, each made whatever came of those before. -/
def Environment.after (env : Environment) (calls : List ScopeCall) : Environment :=
  calls.foldl (fun env call => (call.onEnvironment.run env).2) env

/-! ## The arena of an environment -/

namespace Environment

variable (env : Environment) (name : String) (value : Expr)

/-- The number of scopes is the depth. -/
theorem length_scopes : env.scopes.length = env.depth := by
  rw [scopes, List.length_cons, List.length_reverse, depth]

/-- The arena of an environment has its scopes by number. -/
def arena : Arena where
  scopes := env.scopes.mapIdx fun i scope => ⟨parent? i, scope⟩
  current := env.current
  current_lt := by
    rw [List.length_mapIdx, length_scopes]
    unfold current depth
    omega
  parent_lt := by
    intro i scope parent hscope hparent
    rw [List.getElem?_mapIdx, Option.map_eq_some_iff] at hscope
    obtain ⟨bindings, -, rfl⟩ := hscope
    dsimp only [parent?] at hparent
    split at hparent
    · cases hparent
    · cases hparent
      omega

/-- An arena has a scope for each scope of its environment, with the number before its own. -/
theorem getElem?_scopes_arena (i : Nat) :
    env.arena.scopes[i]? = env.scopes[i]?.map fun scope => ⟨parent? i, scope⟩ :=
  List.getElem?_mapIdx

/-- An arena without calls is that of an environment without bindings. -/
theorem arena_empty : empty.arena = Arena.fresh := rfl

/-- Opening a scope. -/
theorem arena_push : env.push.arena = env.arena.push := by
  have hscopes : env.push.scopes = env.scopes ++ [.empty] := by
    simp [scopes, push]
  refine Arena.ext ?_ ?_
  · change env.push.scopes.mapIdx _ = env.scopes.mapIdx _ ++ [_]
    rw [hscopes, List.mapIdx_concat, length_scopes]
    rfl
  · change env.push.current = env.arena.scopes.length
    change _ = (env.scopes.mapIdx _).length
    rw [List.length_mapIdx, length_scopes]
    rfl

/-- Changing what a scope binds. -/
theorem arena_rebind {env env' : Environment} {index : Nat} {change : Scope → Scope}
    (hscopes : env'.scopes = env.scopes.modify index change)
    (hcurrent : env'.current = env.current) :
    env'.arena = env.arena.rebind index change := by
  refine Arena.ext (List.ext_getElem? fun i => ?_) hcurrent
  change _ = (env.arena.scopes.modify index _)[i]?
  rw [List.getElem?_modify, getElem?_scopes_arena, getElem?_scopes_arena, hscopes,
    List.getElem?_modify]
  cases env.scopes[i]? with
  | none => rfl
  | some scope => by_cases hi : index = i <;> simp [hi]

/-- Binding a name in the root. -/
theorem arena_define : (env.define name value).arena = env.arena.define name value :=
  arena_rebind rfl rfl

/-- Binding a name in the innermost scope, which is the current one. -/
theorem arena_bind : (env.bind name value).arena = env.arena.bind name value := by
  obtain ⟨root, inner⟩ := env
  cases inner with
  | nil => exact arena_rebind rfl rfl
  | cons scope inner =>
    refine arena_rebind ?_ rfl
    have hlast : ∀ front : List Scope, (front ++ [scope]).modify front.length (·.set name value) =
        front ++ [scope.set name value] := by
      intro front
      rw [List.modify_eq_take_drop, List.take_left, List.drop_left]
      rfl
    have hindex : (root :: inner.reverse).length = inner.length + 1 := by simp
    have hmodify := hlast (root :: inner.reverse)
    rw [hindex] at hmodify
    simpa [scopes, bind, arena, current, depth] using hmodify.symm

/-- The scope around the current one is the one before it. -/
theorem parent_currentScope_arena : env.arena.currentScope.parent = parent? env.current := by
  have hcurrent := env.arena.getElem?_current
  rw [getElem?_scopes_arena, Option.map_eq_some_iff] at hcurrent
  obtain ⟨bindings, -, hscope⟩ := hcurrent
  rw [← hscope]
  rfl

/-- In the root alone, the root is asked. -/
theorem findSome?_root : [env.root].findSome? (·.get? name) = env.root.get? name := by
  rw [List.findSome?_cons, List.findSome?_nil]
  cases env.root.get? name <;> rfl

/-- An arena is as deep as its environment. -/
theorem depth_arena : env.arena.depth = env.depth := by
  rw [Arena.depth, arena, List.length_mapIdx, length_scopes]

/-- On the way outwards from the scope of a number, the scopes up to that number are asked, the
innermost first. -/
theorem find?_arena {i : Nat} (hi : i < env.depth) :
    env.arena.find? name i = (env.scopes.take (i + 1)).reverse.findSome? (·.get? name) := by
  induction i with
  | zero =>
    have hscope : env.arena.scopes[0]? = some ⟨none, env.root⟩ := env.getElem?_scopes_arena 0
    rw [Arena.find?_eq hscope]
    change (env.root.get? name).or none = [env.root].findSome? _
    rw [Option.or_none, findSome?_root]
  | succ i ih =>
    have hlt : i + 1 < env.scopes.length := by
      rw [length_scopes]
      exact hi
    have hscope : env.arena.scopes[i + 1]? = some ⟨some i, env.scopes[i + 1]⟩ := by
      rw [getElem?_scopes_arena, List.getElem?_eq_getElem hlt]
      rfl
    have htake : env.scopes.take (i + 2) = env.scopes.take (i + 1) ++ [env.scopes[i + 1]] :=
      (List.take_append_getElem hlt).symm
    rw [Arena.find?_eq hscope, htake, List.reverse_append, List.reverse_singleton,
      List.singleton_append, List.findSome?_cons, Option.bind_some, ih (by omega)]
    cases env.scopes[i + 1].get? name <;> rfl

/-- A name is looked up in the current scope first and in the root last. -/
theorem find?_current_arena : env.arena.find? name env.current = env.lookup? name := by
  have hall : env.scopes.take (env.current + 1) = env.scopes := by
    apply List.take_of_length_le
    rw [length_scopes]
    unfold current
    omega
  rw [find?_arena env name (by unfold current depth; omega), hall, scopes, List.reverse_cons,
    List.reverse_reverse, List.findSome?_append, lookup?]
  exact congrArg _ (env.findSome?_root name)

end Environment

/-! ## Calls on arenas -/

/-- Closing the root of an environment fails, and so does closing that of its arena. -/
theorem run_pop_arena_root (root : Scope) :
    Arena.pop.run (Environment.arena ⟨root, []⟩) =
      (.error .underflow, Environment.arena ⟨root, []⟩) :=
  Arena.run_pop_root (Environment.parent_currentScope_arena ⟨root, []⟩)

/-- Closing any other scope of an environment closes it in its arena. -/
theorem run_pop_arena (root scope : Scope) (inner : List Scope) :
    Arena.pop.run (Environment.arena ⟨root, scope :: inner⟩) =
      (.ok ⟨⟩, Environment.arena ⟨root, inner⟩) := by
  have hparent : (Environment.arena ⟨root, scope :: inner⟩).currentScope.parent =
      some inner.length := Environment.parent_currentScope_arena ⟨root, scope :: inner⟩
  have hscopes : Environment.scopes ⟨root, scope :: inner⟩ =
      Environment.scopes ⟨root, inner⟩ ++ [scope] := by
    simp [Environment.scopes]
  rw [Arena.run_pop_close hparent]
  refine congrArg (Prod.mk _) (Arena.ext ?_ rfl)
  change ((Environment.scopes ⟨root, scope :: inner⟩).mapIdx _).dropLast = _
  rw [hscopes, List.mapIdx_concat, List.dropLast_concat]
  rfl

/-- Closing a scope fails exactly at the root, and then changes nothing. -/
theorem run_pop_arena_depth (env : Environment) :
    ((Arena.pop.run env.arena).1 = .error .underflow ↔ env.arena.depth = 1) ∧
      (env.arena.depth = 1 → (Arena.pop.run env.arena).2 = env.arena) := by
  obtain ⟨root, inner⟩ := env
  rw [Environment.depth_arena]
  cases inner with
  | nil =>
    rw [run_pop_arena_root]
    exact ⟨⟨fun _ => rfl, fun _ => rfl⟩, fun _ => rfl⟩
  | cons scope inner =>
    rw [run_pop_arena]
    exact ⟨⟨fun h => (by cases h), fun h => (by cases h)⟩, fun h => (by cases h)⟩

/-- Looking a name up in the arena of an environment gives its value there. -/
theorem run_lookup_arena (env : Environment) (name : String) :
    (Arena.lookup name).run env.arena =
      ((env.lookup? name).elim (.error (.undefined name)) .ok, env.arena) := by
  change (match env.arena.find? name env.current with
    | some value => (pure value : Step EvalError Arena Expr)
    | none => throw (EvalError.undefined name)).run env.arena = _
  rw [env.find?_current_arena name]
  cases env.lookup? name <;> rfl

/-- Whatever is done to an environment does the same to its arena. -/
theorem simulates_onArena (call : ScopeCall) :
    Simulates Environment.arena call.onEnvironment call.onArena := by
  rintro ⟨root, inner⟩
  cases call with
  | push => exact congrArg (Prod.mk _) (Environment.arena_push ⟨root, inner⟩).symm
  | pop =>
    cases inner with
    | nil => exact run_bind_error (run_pop_arena_root root)
    | cons scope inner => exact run_bind_ok (run_pop_arena root scope inner)
  | bind name value =>
    exact congrArg (Prod.mk _) (Environment.arena_bind ⟨root, inner⟩ name value).symm
  | define name value =>
    exact congrArg (Prod.mk _) (Environment.arena_define ⟨root, inner⟩ name value).symm
  | lookup name =>
    have harena := run_lookup_arena ⟨root, inner⟩ name
    rw [ScopeCall.run_onEnvironment_lookup]
    cases hvalue : Environment.lookup? ⟨root, inner⟩ name <;> rw [hvalue] at harena
    · exact run_bind_error harena
    · exact run_bind_ok harena

/-- After the same calls, an arena is that of the environment. -/
theorem Environment.arena_after (env : Environment) (calls : List ScopeCall) :
    (env.after calls).arena = env.arena.after calls := by
  induction calls generalizing env with
  | nil => rfl
  | cons call calls ih =>
    change ((call.onEnvironment.run env).2.after calls).arena =
      (call.onArena.run env.arena).2.after calls
    rw [simulates_onArena call env, ih]

/-! ## Writes -/

/-- The writes to the live scopes, to each scope the oldest first. -/
structure Written where
  /-- The writes to the root. -/
  root : List (String × Expr)
  /-- The writes to the scopes inside it, those to the innermost first. -/
  inner : List (List (String × Expr))

namespace Written

/-- What a call writes, and to which scope. What was written to a scope is gone with the scope. -/
def note (written : Written) : ScopeCall → Written
  | .push => { written with inner := [] :: written.inner }
  | .pop => { written with inner := written.inner.tail }
  | .bind name value =>
    match written.inner with
    | [] => { written with root := written.root ++ [(name, value)] }
    | log :: logs => { written with inner := (log ++ [(name, value)]) :: logs }
  | .define name value => { written with root := written.root ++ [(name, value)] }
  | .lookup _ => written

/-- The writes of some calls to the scopes that are live behind them. -/
def byCalls (calls : List ScopeCall) : Written := calls.foldl note ⟨[], []⟩

/-- The writes by scope, those to the innermost scope first. -/
def logs (written : Written) : List (List (String × Expr)) := written.inner ++ [written.root]

/-- The value that was last written for a name to the innermost scope to which one was written. -/
def latest? (written : Written) (name : String) : Option Expr :=
  written.logs.findSome? fun log => log.reverse.lookup name

/-- The environment that binds what has been written. -/
def environment (written : Written) : Environment :=
  ⟨Table.empty.setAll written.root, written.inner.map (Table.empty.setAll ·)⟩

/-- A call leaves an environment that binds what has been written with it. -/
theorem run_onEnvironment (written : Written) (call : ScopeCall) :
    (call.onEnvironment.run written.environment).2 = (written.note call).environment := by
  have hset : ∀ (log : List (String × Expr)) name value,
      (Table.empty.setAll log).set name value = Table.empty.setAll (log ++ [(name, value)]) := by
    intro log name value
    rw [Table.setAll, Table.setAll, List.foldl_append]
    rfl
  obtain ⟨root, inner⟩ := written
  cases call with
  | push => rfl
  | pop => cases inner <;> rfl
  | bind name value =>
    cases inner with
    | nil => exact congrArg (Environment.mk · _) (hset root name value)
    | cons log logs => exact congrArg (Environment.mk _ <| · :: _) (hset log name value)
  | define name value => exact congrArg (Environment.mk · _) (hset root name value)
  | lookup name => rw [ScopeCall.run_onEnvironment_lookup, note]

/-- After some calls, an environment binds what they have written. -/
theorem environment_byCalls (calls : List ScopeCall) :
    (byCalls calls).environment = Environment.empty.after calls := by
  -- The calls are gone through from the front, so what was written before them is left open.
  suffices h : ∀ written : Written,
      (calls.foldl note written).environment = written.environment.after calls from h ⟨[], []⟩
  induction calls with
  | nil => exact fun _ => rfl
  | cons call calls ih =>
    intro written
    change ((calls.foldl note (written.note call))).environment =
      (call.onEnvironment.run written.environment).2.after calls
    rw [run_onEnvironment, ih]

/-- What has been written is found where it was last written furthest inside. -/
theorem lookup?_environment (written : Written) (name : String) :
    written.environment.lookup? name = written.latest? name := by
  have hget : ∀ log : List (String × Expr),
      (Table.empty.setAll log).get? name = log.reverse.lookup name := by
    intro log
    rw [Table.get?_setAll]
    exact Option.or_none
  have hroot : [written.root].findSome? (fun log => log.reverse.lookup name) =
      written.root.reverse.lookup name := by
    rw [List.findSome?_cons, List.findSome?_nil]
    cases written.root.reverse.lookup name <;> rfl
  rw [latest?, logs, List.findSome?_append, hroot, ← hget, Environment.lookup?]
  simp only [environment, List.findSome?_map, Function.comp_def, hget]

/-- There is no latest value exactly when nothing has been written for the name. -/
theorem latest?_eq_none_iff (written : Written) (name : String) :
    written.latest? name = none ↔ ∀ log ∈ written.logs, ∀ value, (name, value) ∉ log := by
  rw [latest?, List.findSome?_eq_none_iff]
  refine forall₂_congr fun log _ => ?_
  rw [List.lookup_eq_none_iff]
  constructor
  · intro h value hmem
    have hne := h (name, value) (List.mem_reverse.2 hmem)
    simp at hne
  · rintro h ⟨key, value⟩ hmem
    have hne : name ≠ key := by
      rintro rfl
      exact h value (List.mem_reverse.1 hmem)
    simpa using hne

end Written

/-! ## Balanced calls -/

/-- Calls that close just the scopes that they open. -/
inductive Balanced : List ScopeCall → Prop where
  /-- No calls. -/
  | nil : Balanced []
  /-- A binding first. -/
  | bind (name : String) (value : Expr) {calls : List ScopeCall} (hcalls : Balanced calls) :
    Balanced (.bind name value :: calls)
  /-- A definition first. -/
  | define (name : String) (value : Expr) {calls : List ScopeCall} (hcalls : Balanced calls) :
    Balanced (.define name value :: calls)
  /-- A look-up first. -/
  | lookup (name : String) {calls : List ScopeCall} (hcalls : Balanced calls) :
    Balanced (.lookup name :: calls)
  /-- A scope first that is opened, used and closed. -/
  | scope {inside calls : List ScopeCall} (hinside : Balanced inside) (hcalls : Balanced calls) :
    Balanced (.push :: inside ++ .pop :: calls)

/-- The definitions among some calls. -/
def definitions (calls : List ScopeCall) : List (String × Expr) :=
  calls.filterMap fun
    | .define name value => some (name, value)
    | _ => none

namespace Environment

/-- Calls in a row. -/
theorem after_append (env : Environment) (calls more : List ScopeCall) :
    env.after (calls ++ more) = (env.after calls).after more := List.foldl_append

/-- Inside a scope, balanced calls change that scope and define names in the root. -/
theorem after_balanced {calls : List ScopeCall} (h : Balanced calls) (root scope : Scope)
    (outer : List Scope) :
    ∃ scope', after ⟨root, scope :: outer⟩ calls =
      ⟨root.setAll (definitions calls), scope' :: outer⟩ := by
  induction h generalizing root scope outer with
  | nil => exact ⟨scope, rfl⟩
  | bind name value _ ih => exact ih root (scope.set name value) outer
  | define name value _ ih => exact ih (root.set name value) scope outer
  | @lookup name calls _ ih =>
    have hstep : after ⟨root, scope :: outer⟩ (.lookup name :: calls) =
        after ((ScopeCall.lookup name).onEnvironment.run ⟨root, scope :: outer⟩).2 calls := rfl
    rw [hstep, ScopeCall.run_onEnvironment_lookup]
    exact ih root scope outer
  | @scope inside calls _ _ ihinside ihcalls =>
    -- What the scope bound inside goes when it is closed; its definitions are in the root.
    obtain ⟨inner, hinner⟩ := ihinside root .empty (scope :: outer)
    have hdefinitions : definitions (.push :: inside ++ .pop :: calls) =
        definitions inside ++ definitions calls := List.filterMap_append
    have hafter : after ⟨root, scope :: outer⟩ (.push :: inside ++ .pop :: calls) =
        after (after ⟨root, .empty :: scope :: outer⟩ inside) (.pop :: calls) :=
      after_append (push ⟨root, scope :: outer⟩) inside (.pop :: calls)
    have hsetAll : root.setAll (definitions inside ++ definitions calls) =
        (root.setAll (definitions inside)).setAll (definitions calls) := List.foldl_append
    rw [hafter, hinner, hdefinitions, hsetAll]
    exact ihcalls _ scope outer

/-- A scope that is opened, used and closed leaves nothing but its definitions in the root. -/
theorem after_scope {inside : List ScopeCall} (h : Balanced inside) (env : Environment) :
    env.after (.push :: inside ++ [.pop]) =
      { env with root := env.root.setAll (definitions inside) } := by
  obtain ⟨scope, hscope⟩ := after_balanced h env.root .empty env.inner
  have hafter : env.after (.push :: inside ++ [.pop]) = (env.push.after inside).after [.pop] :=
    after_append env.push inside [.pop]
  rw [hafter, push, hscope]
  rfl

end Environment

/-! ## Every run of an arena -/

/-- After any calls on a fresh arena, the arena is a stack of maps, which binds what has been
written to the live scopes. -/
theorem arena_is_stack_of_maps (calls : List ScopeCall) :
    let arena := Arena.fresh.after calls
    let written := Written.byCalls calls
    arena = (Environment.empty.after calls).arena ∧
    arena.depth = written.logs.length ∧
    arena.current = arena.depth - 1 ∧
    (∀ i scope, arena.scopes[i]? = some scope →
      scope.parent = if i = 0 then none else some (i - 1)) ∧
    (∀ name, (Arena.lookup name).run arena =
      ((written.latest? name).elim (.error (.undefined name)) .ok, arena)) ∧
    (∀ name, ((Arena.lookup name).run arena).1 = .error (.undefined name) ↔
      ∀ log ∈ written.logs, ∀ value, (name, value) ∉ log) ∧
    ((Arena.pop.run arena).1 = .error .underflow ↔ arena.depth = 1) ∧
    (arena.depth = 1 → (Arena.pop.run arena).2 = arena) ∧
    (∀ inside, Balanced inside →
      arena.after (.push :: inside ++ [.pop]) =
        arena.rebind 0 (·.setAll (definitions inside))) := by
  intro arena written
  have harena : arena = written.environment.arena := by
    rw [Written.environment_byCalls, Environment.arena_after, Environment.arena_empty]
  have hlookup : ∀ name, (Arena.lookup name).run arena =
      ((written.latest? name).elim (.error (.undefined name)) .ok, arena) := by
    intro name
    rw [harena, run_lookup_arena, Written.lookup?_environment]
  have hpop := run_pop_arena_depth written.environment
  rw [← harena] at hpop
  refine ⟨(Environment.empty.arena_after calls).symm, ?_, ?_, ?_, hlookup, ?_, hpop.1, hpop.2, ?_⟩
  · rw [harena, Environment.depth_arena, Written.logs, List.length_append]
    exact congrArg (· + 1) (List.length_map _)
  · rw [harena, Environment.depth_arena]
    rfl
  · intro i scope hscope
    rw [harena, Environment.getElem?_scopes_arena, Option.map_eq_some_iff] at hscope
    obtain ⟨bindings, -, rfl⟩ := hscope
    rfl
  · intro name
    rw [hlookup, ← Written.latest?_eq_none_iff]
    cases written.latest? name with
    | none => exact ⟨fun _ => rfl, fun _ => rfl⟩
    | some value => exact ⟨(fun h => by cases h), fun h => by cases h⟩
  · intro inside hinside
    rw [harena, ← Environment.arena_after, Environment.after_scope hinside]
    exact Environment.arena_rebind rfl rfl

/-- A root and a scope that hide each other's names, with a definition from inside a third scope:
the value of `a` is the one bound last, and the third scope leaves only its definition behind. -/
theorem arena_is_stack_of_maps_nested :
    let before : List ScopeCall :=
      [.pop, .define "a" (.string "1"), .push, .bind "a" (.string "2"),
        .bind "a" (.string "3")]
    let inside : List ScopeCall :=
      [.bind "a" (.string "4"), .push, .define "b" (.string "5"), .pop,
        .lookup "a"]
    let arena := Arena.fresh.after before
    arena.current = 1 ∧
    ((Arena.lookup "a").run arena).1 = .ok (.string "3") ∧
    ((Arena.lookup "b").run arena).1 = .error (.undefined "b") ∧
    Balanced inside ∧
    arena.after (.push :: inside ++ [.pop]) =
      arena.rebind 0 (·.setAll [("b", .string "5")]) := by
  intro before inside arena
  have hbalanced : Balanced inside := .bind _ _ (.scope (.define _ _ .nil) (.lookup _ .nil))
  obtain ⟨-, hdepth, hcurrent, -, hlookup, -, -, -, hscope⟩ := arena_is_stack_of_maps before
  refine ⟨?_, ?_, ?_, hbalanced, hscope inside hbalanced⟩
  · rw [hcurrent, hdepth]
    rfl
  · rw [hlookup]
    rfl
  · rw [hlookup]
    rfl

end QLanguage
