import Mathlib.Data.List.Forall2
import QLanguage.Proofs.Evaluation.Frame
import QLanguage.Proofs.Evaluation.Values

/-!
# The clause that is called

A call evaluates the body of the first clause that accepts the arguments. A clause accepts them when
it has as many patterns and each accepts the argument in its place (`Clause.Accepts`). The scope of
the body binds each name of the patterns to the argument at its last place (`Clause.Binds`), and
nothing else; it is closed again when the body is evaluated, however that ends.
-/

namespace QLanguage

open Step Eval

/-! ## Patterns -/

/-- A pattern accepts a value: a literal only the value that it is, every other pattern any. -/
def Pattern.Accepts : Pattern → Expr → Prop
  | .bind _, _ => True
  | .wildcard, _ => True
  | .literal expected, value => value = expected

/-- A clause has as many patterns as there are arguments, and each accepts its argument. -/
def Clause.Accepts (clause : Clause) (args : List Expr) : Prop :=
  List.Forall₂ Pattern.Accepts clause.patterns args

/-- Patterns bind a name to the argument at the last place where the name stands. -/
def BindsLast (ps : List Pattern) (args : List Expr) (name : String) (value : Expr) : Prop :=
  ∃ i : Nat, ps[i]? = some (.bind name) ∧ args[i]? = some value ∧
    ∀ j : Nat, i < j → ps[j]? ≠ some (.bind name)

/-- A clause binds a name to the argument at the last place where the name stands. -/
def Clause.Binds (clause : Clause) (args : List Expr) (name : String) (value : Expr) : Prop :=
  BindsLast clause.patterns args name value

section Patterns

variable {p : Pattern} {ps : List Pattern} {v : Expr} {vs : List Expr} {name : String}
  {value : Expr} {bindings : List (String × Expr)}

/-- A pattern that accepts a value matches it. -/
theorem Pattern.Accepts.exists_match? (h : p.Accepts v) :
    ∃ bindings, p.match? v = some bindings := by
  cases p with
  | bind name => exact ⟨_, rfl⟩
  | wildcard => exact ⟨_, rfl⟩
  | literal expected => exact ⟨[], if_pos h⟩

/-- A pattern that matches a value accepts it. -/
theorem Pattern.accepts_of_match? (h : p.match? v = some bindings) : p.Accepts v := by
  cases p with
  | bind name => trivial
  | wildcard => trivial
  | literal expected =>
    rw [match?] at h
    split at h
    · assumption
    · cases h

/-- Patterns that accept arguments match them. -/
theorem exists_matchAll? (h : List.Forall₂ Pattern.Accepts ps vs) :
    ∃ bindings, matchAll? ps vs = some bindings := by
  induction h with
  | nil => exact ⟨[], rfl⟩
  | cons first more ih =>
    obtain ⟨bindings, hfirst⟩ := first.exists_match?
    obtain ⟨others, hmore⟩ := ih
    exact ⟨bindings ++ others, by rw [matchAll?, hfirst, hmore]⟩

/-- Patterns that match arguments accept them. -/
theorem accepts_of_matchAll? (h : matchAll? ps vs = some bindings) :
    List.Forall₂ Pattern.Accepts ps vs := by
  fun_induction matchAll? ps vs generalizing bindings with
  | case1 => exact .nil
  | case2 p ps v vs found more hmore hfound ih =>
    exact .cons (Pattern.accepts_of_match? hfound) (ih hmore)
  | case3 => cases h
  | case4 => cases h

/-! ## Bindings -/

/-- A pattern binds a name if it is the name. -/
theorem lookup_match?_eq_some_iff (h : p.match? v = some bindings) :
    bindings.reverse.lookup name = some value ↔ p = .bind name ∧ v = value := by
  cases p with
  | bind other =>
    cases h
    by_cases hname : name = other
    · simp [hname]
    · have hb : (name == other) = false := by simp [hname]
      simp [List.lookup_cons, hb, Ne.symm hname]
  | wildcard =>
    cases h
    simp
  | literal expected =>
    rw [Pattern.match?] at h
    split at h <;> cases h
    simp

/-- A name has no binding where it is none of the patterns. -/
theorem lookup_matchAll?_eq_none_iff (h : matchAll? ps vs = some bindings) :
    bindings.reverse.lookup name = none ↔ .bind name ∉ ps := by
  fun_induction matchAll? ps vs generalizing bindings with
  | case1 =>
    cases h
    simp
  | case2 p ps v vs found more hmore hfound ih =>
    cases h
    have hfirst : found.reverse.lookup name = none ↔ .bind name ≠ p := by
      rw [Option.eq_none_iff_forall_ne_some]
      simp [lookup_match?_eq_some_iff hfound, eq_comm]
    rw [List.reverse_append, List.lookup_append, Option.or_eq_none_iff, ih hmore, hfirst,
      List.mem_cons, not_or, and_comm]
  | case3 => cases h
  | case4 => cases h

/-- In front of other patterns, a pattern binds the name that it is unless that comes again. -/
theorem bindsLast_cons_iff :
    BindsLast (p :: ps) (v :: vs) name value ↔
      BindsLast ps vs name value ∨ .bind name ∉ ps ∧ p = .bind name ∧ v = value := by
  constructor
  · rintro ⟨i, hp, hv, hlast⟩
    cases i with
    | zero =>
      refine .inr ⟨fun hmem => ?_, Option.some.inj hp, Option.some.inj hv⟩
      obtain ⟨j, hj⟩ := List.mem_iff_getElem?.mp hmem
      exact hlast (j + 1) (Nat.succ_pos j) hj
    | succ i => exact .inl ⟨i, hp, hv, fun j hj => hlast (j + 1) (Nat.succ_lt_succ hj)⟩
  · rintro (⟨i, hp, hv, hlast⟩ | ⟨hnot, rfl, rfl⟩)
    · refine ⟨i + 1, hp, hv, fun j hj => ?_⟩
      cases j with
      | zero => cases hj
      | succ j => exact hlast j (Nat.lt_of_succ_lt_succ hj)
    · refine ⟨0, rfl, rfl, fun j hj hmem => ?_⟩
      cases j with
      | zero => cases hj
      | succ j => exact hnot (List.mem_iff_getElem?.mpr ⟨j, hmem⟩)

/-- Patterns that match arguments bind each name to the argument at its last place. -/
theorem lookup_matchAll?_eq_some_iff (h : matchAll? ps vs = some bindings) :
    bindings.reverse.lookup name = some value ↔ BindsLast ps vs name value := by
  fun_induction matchAll? ps vs generalizing bindings with
  | case1 =>
    cases h
    simp [BindsLast]
  | case2 p ps v vs found more hmore hfound ih =>
    cases h
    rw [List.reverse_append, List.lookup_append, Option.or_eq_some_iff, ih hmore,
      lookup_matchAll?_eq_none_iff hmore, lookup_match?_eq_some_iff hfound, bindsLast_cons_iff]
  | case3 => cases h
  | case4 => cases h

end Patterns

/-! ## Clauses -/

section Clauses

variable {clauses : List Clause} {clause : Clause} {args : List Expr}

/-- The scope of a clause binds each of its names to the argument at the last place, each once, and
nothing else. -/
theorem scope_of_matchAll? {bindings : List (String × Expr)}
    (h : matchAll? clause.patterns args = some bindings) (name : String) (value : Expr) :
    (Table.empty.setAll bindings).get? name = some value ↔ clause.Binds args name value := by
  rw [Table.get?_setAll]
  show (bindings.reverse.lookup name).or none = _ ↔ _
  rw [Option.or_none, lookup_matchAll?_eq_some_iff h]
  rfl

/-- A clause that does not accept the arguments is passed over. -/
theorem matchAll?_eq_none (h : ¬clause.Accepts args) : matchAll? clause.patterns args = none :=
  Option.eq_none_iff_forall_ne_some.mpr fun _ hmatch => h (accepts_of_matchAll? hmatch)

/-- Where no clause accepts the arguments, none is selected. -/
theorem selectClause?_eq_none (h : ∀ clause ∈ clauses, ¬clause.Accepts args) :
    selectClause? clauses args = none := by
  refine List.findSome?_eq_none_iff.mpr fun clause hclause => ?_
  rw [matchAll?_eq_none (h clause hclause)]
  rfl

/-- The first clause that accepts the arguments is selected, whatever comes behind it. -/
theorem selectClause?_first {before : List Clause} (after : List Clause)
    {bindings : List (String × Expr)} (hbefore : ∀ other ∈ before, ¬other.Accepts args)
    (h : matchAll? clause.patterns args = some bindings) :
    selectClause? (before ++ clause :: after) args = some (bindings, clause.body) := by
  have hnone := selectClause?_eq_none hbefore
  unfold selectClause? at hnone ⊢
  rw [List.findSome?_append, hnone, List.findSome?_cons, h]
  rfl

/-- Before the first clause that accepts the arguments stand only clauses that do not. -/
theorem exists_eq_append_of_first {i : Nat} (hclause : clauses[i]? = some clause)
    (hfirst : ∀ j other, j < i → clauses[j]? = some other → ¬other.Accepts args) :
    ∃ before after, clauses = before ++ clause :: after ∧
      ∀ other ∈ before, ¬other.Accepts args := by
  obtain ⟨hlt, rfl⟩ := List.getElem?_eq_some_iff.mp hclause
  refine ⟨clauses.take i, clauses.drop (i + 1), ?_, fun other hother => ?_⟩
  · rw [← List.drop_eq_getElem_cons hlt, List.take_append_drop]
  · obtain ⟨j, hj, rfl⟩ := List.mem_take_iff_getElem.mp hother
    refine hfirst j _ (by omega) (List.getElem?_eq_getElem (by omega))

end Clauses

/-- The machine with other inner scopes. -/
def Machine.withInner (m : Machine) (inner : List Scope) : Machine :=
  { m with env := { m.env with inner := inner } }

/-- The first clause that accepts the arguments is called, as if it were the only one. Its body is
evaluated in one more scope, which binds each of its names to the argument at the last place of the
name and nothing else, and stands there unchanged when the body is evaluated; then it is dropped.
Where no clause accepts the arguments, the call halts for that, and nothing changes. -/
theorem dispatch_first_match (depth : Nat) (name : String) (clauses : List Clause)
    (args : List Expr) (m : Machine) :
    (∀ (i : Nat) (clause : Clause), clauses[i]? = some clause → clause.Accepts args →
      (∀ (j : Nat) (other : Clause), j < i → clauses[j]? = some other → ¬other.Accepts args) →
      (dispatch (eval depth) name clauses args).run m =
          (dispatch (eval depth) name [clause] args).run m ∧
        ∃ scope : Scope, scope.names.Nodup ∧
          (∀ bound value, scope.get? bound = some value ↔ clause.Binds args bound value) ∧
          ∃ result m',
            (eval depth clause.body).run (m.withInner (scope :: m.env.inner)) = (result, m') ∧
            m'.env.inner = scope :: m.env.inner ∧
            (dispatch (eval depth) name clauses args).run m =
              (result, m'.withInner m.env.inner)) ∧
    ((∀ clause ∈ clauses, ¬clause.Accepts args) →
      (dispatch (eval depth) name clauses args).run m =
        (.error (.error (.noClause name args.length)), m)) := by
  refine ⟨fun i clause hclause haccepts hfirst => ?_, fun hnone => ?_⟩
  · obtain ⟨before, after, rfl, hbefore⟩ := exists_eq_append_of_first hclause hfirst
    obtain ⟨bindings, hmatch⟩ := exists_matchAll? haccepts
    have hone : selectClause? ([] ++ [clause]) args = some (bindings, clause.body) :=
      selectClause?_first [] (fun _ h => absurd h List.not_mem_nil) hmatch
    have hinner := (grows_eval depth clause.body (m.entered bindings)).inner_eq
    unfold dispatch
    rw [selectClause?_first after hbefore hmatch, ← List.nil_append [clause], hone]
    refine ⟨rfl, Table.empty.setAll bindings, (Table.names_setAll bindings).2,
      scope_of_matchAll? hmatch, _, _, rfl, hinner, ?_⟩
    dsimp only
    rw [run_inScope]
    -- The scope that is closed is the one that was opened.
    rw [Machine.left, Environment.leave, hinner]
    rfl
  · unfold dispatch
    rw [selectClause?_eq_none hnone]
    rfl

/-- Clauses of which the third is the first that accepts three strings. -/
def fourClauses : List Clause :=
  [.mk [.bind "x", .literal (.string "b"), .wildcard] (.string "literal"),
    .mk [.bind "x"] (.string "short"),
    .mk [.bind "x", .wildcard, .bind "x"] (.variable "x"),
    .mk [.wildcard, .wildcard, .wildcard] (.string "later")]

/-- A literal that differs, too few patterns and a clause that comes later have no part in a call;
of the places of a repeated name the last one counts. -/
theorem dispatch_first_match_repeated :
    (dispatch (eval 1) "f" fourClauses [.string "a", .string "c", .string "d"]).run .empty =
      (.ok (.string "d"), .empty) := by
  have haccepts : (Clause.mk [.bind "x", .wildcard, .bind "x"] (.variable "x")).Accepts
      [.string "a", .string "c", .string "d"] :=
    .cons trivial (.cons trivial (.cons trivial .nil))
  have hfirst : ∀ (j : Nat) (other : Clause), j < 2 → fourClauses[j]? = some other →
      ¬other.Accepts [.string "a", .string "c", .string "d"] := by
    rintro (_ | _ | j) other hj hother
    · cases hother
      rintro (_ | ⟨_, _ | ⟨hliteral, _⟩⟩)
      simp [Pattern.Accepts] at hliteral
    · cases hother
      rintro (_ | ⟨_, _ | _⟩)
    · omega
  obtain ⟨-, scope, -, hscope, result, m', hbody, -, hcall⟩ :=
    (dispatch_first_match 1 "f" fourClauses [.string "a", .string "c", .string "d"] .empty).1 2 _
      rfl haccepts hfirst
  have hx : scope.get? "x" = some (.string "d") := by
    refine (hscope _ _).mpr ⟨2, rfl, rfl, fun j hj => ?_⟩
    rw [Clause.patterns, List.getElem?_eq_none hj]
    nofun
  have hvariable : (eval 1 (.variable "x")).run
      (Machine.empty.withInner (scope :: Machine.empty.env.inner)) =
      (.ok (.string "d"), Machine.empty.withInner (scope :: Machine.empty.env.inner)) := by
    refine run_resolve_bound ?_
    simp [Machine.withInner, Environment.lookup?, hx]
  rw [Clause.body, hvariable] at hbody
  cases hbody
  rw [hcall]
  rfl

end QLanguage
