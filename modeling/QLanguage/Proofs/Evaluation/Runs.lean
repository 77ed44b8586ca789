import QLanguage.Evaluation.Machine
import QLanguage.Proofs.Steps

/-!
# The runs of an evaluation

What each part of an evaluation does to a machine, by the cases it distinguishes: a name is bound,
or pending, or neither; a pending declaration is being evaluated already, or its evaluation gives a
value, or halts. Later modules use these equations and do not open the parts again.
-/

namespace QLanguage

open Step

/-! ## Changes of a machine -/

/-- The machine when the evaluation of a declaration begins. -/
def Machine.begun (m : Machine) (name : String) : Machine :=
  { m with evaluating := name :: m.evaluating }

/-- The machine when the evaluation of a declaration has ended. -/
def Machine.ended (m : Machine) (name : String) : Machine :=
  { m with evaluating := m.evaluating.erase name }

/-- The machine when a pending declaration is bound to its value. -/
def Machine.bound (m : Machine) (name : String) (value : Expr) : Machine :=
  { m with pending := m.pending.erase name, env := m.env.define name value }

/-- The machine inside a fresh scope. -/
def Machine.entered (m : Machine) (bindings : List (String × Expr)) : Machine :=
  { m with env := m.env.enter bindings }

/-- The machine when its innermost scope is closed. -/
def Machine.left (m : Machine) : Machine := { m with env := m.env.leave }

/-- The machine when a text has been printed. -/
def Machine.printed (m : Machine) (text : String) : Machine := { m with output := m.output ++ text }

/-- Printing nothing changes nothing. -/
@[simp] theorem Machine.printed_empty (m : Machine) : m.printed "" = m := by
  simp [Machine.printed]

/-- Printing a text and another one is printing both at once. -/
@[simp] theorem Machine.printed_printed (m : Machine) (text more : String) :
    (m.printed text).printed more = m.printed (text ++ more) := by
  simp [Machine.printed, String.append_assoc]

/-- What a call of the built-in function prints. -/
def printedLine (values : List Expr) : String := listText (Expr.debugs values) ++ "\n"

/-! ## What a call binds -/

/-- A pattern binds nothing but what it accepts. -/
theorem eq_of_match? {p : Pattern} {v : Expr} {bindings : List (String × Expr)}
    (h : p.match? v = some bindings) : ∀ entry ∈ bindings, entry.2 = v := by
  cases p with
  | bind name =>
    cases h
    simp
  | wildcard =>
    cases h
    simp
  | literal expected =>
    rw [Pattern.match?] at h
    split at h <;> cases h
    simp

/-- What patterns bind are the arguments that they accept. -/
theorem mem_of_matchAll? {ps : List Pattern} {vs : List Expr} {bindings : List (String × Expr)}
    (h : matchAll? ps vs = some bindings) : ∀ entry ∈ bindings, entry.2 ∈ vs := by
  fun_induction matchAll? ps vs generalizing bindings with
  | case1 =>
    cases h
    simp
  | case2 p ps v vs found more hmore hfound ih =>
    cases h
    refine List.forall_mem_append.2 ⟨fun entry hentry => ?_, fun entry hentry => ?_⟩
    · exact List.mem_cons.2 (.inl (eq_of_match? hfound entry hentry))
    · exact List.mem_cons_of_mem v (ih hmore entry hentry)
  | case3 => cases h
  | case4 => cases h

/-- A function that is called binds arguments and nothing else, and goes on with the body of one of
its clauses. -/
theorem of_selectClause? {clauses : List Clause} {args : List Expr}
    {bindings : List (String × Expr)} {body : Expr}
    (h : selectClause? clauses args = some (bindings, body)) :
    (∀ entry ∈ bindings, entry.2 ∈ args) ∧ ∃ clause ∈ clauses, clause.body = body := by
  obtain ⟨clause, hmem, hclause⟩ := List.exists_of_findSome?_eq_some h
  obtain ⟨found, hfound, heq⟩ := Option.map_eq_some_iff.1 hclause
  cases heq
  exact ⟨mem_of_matchAll? hfound, clause, hmem, rfl⟩

namespace Eval

variable {ev : Expr → Eval Expr} {name : String} {expr : Expr} {m : Machine}

/-! ## Pending declarations -/

/-- A declaration that is being evaluated depends on itself. -/
theorem run_force_cyclic (h : name ∈ m.evaluating) :
    (force ev name expr).run m = (.error (.error (.cyclic name)), m) := by
  have hc : m.evaluating.contains name = true := List.contains_iff_mem.2 h
  unfold force
  rw [run_bind_ok (run_get m), if_pos hc]
  rfl

/-- A pending declaration is marked while it is evaluated, and bound when it has a value. -/
theorem run_force (h : name ∉ m.evaluating) :
    (force ev name expr).run m =
      match (ev expr).run (m.begun name) with
      | (.ok value, m') => (.ok value, (m'.ended name).bound name value)
      | (.error halt, m') => (.error halt, m'.ended name) := by
  have hc : ¬m.evaluating.contains name = true := fun hc => h (List.contains_iff_mem.1 hc)
  unfold force
  rw [run_bind_ok (run_get m), if_neg hc]
  dsimp only
  rw [run_bind_ok (run_modify _ m), run_bind, run_andThen]
  -- What is left is the evaluation from the marked machine, and what follows it on both ways out.
  have hbegun : { m with evaluating := name :: m.evaluating } = m.begun name := rfl
  rw [hbegun]
  rcases (ev expr).run (m.begun name) with ⟨halt | value, m'⟩ <;> rfl

/-- A pending declaration gets a value exactly when it is not being evaluated and its evaluation
gives that value. -/
theorem run_force_eq_ok_iff {value : Expr} {m' : Machine} :
    (force ev name expr).run m = (.ok value, m') ↔
      name ∉ m.evaluating ∧ ∃ mid, (ev expr).run (m.begun name) = (.ok value, mid) ∧
        m' = (mid.ended name).bound name value := by
  by_cases h : name ∈ m.evaluating
  · rw [run_force_cyclic h]
    simp [h]
  · rw [run_force h]
    rcases (ev expr).run (m.begun name) with ⟨halt | other, mid⟩
    · simp
    · simp only [Prod.mk.injEq, Except.ok.injEq, h, not_false_eq_true, true_and]
      constructor
      · rintro ⟨rfl, rfl⟩
        exact ⟨mid, ⟨rfl, rfl⟩, rfl⟩
      · rintro ⟨_, ⟨rfl, rfl⟩, rfl⟩
        exact ⟨rfl, rfl⟩

/-! ## Names -/

/-- A name that is bound has its value. -/
theorem run_resolve_bound {value : Expr} (h : m.env.lookup? name = some value) :
    (resolve ev name).run m = (.ok value, m) := by
  unfold resolve
  rw [run_bind_ok (run_get m), h]
  rfl

/-- A name that is not bound has the value of its pending declaration. -/
theorem run_resolve_pending (hnone : m.env.lookup? name = none)
    (h : m.pending.get? name = some expr) :
    (resolve ev name).run m = (force ev name expr).run m := by
  unfold resolve
  rw [run_bind_ok (run_get m), hnone, h]

/-- A name that is neither bound nor pending is undefined. -/
theorem run_resolve_undefined (hnone : m.env.lookup? name = none)
    (h : m.pending.get? name = none) :
    (resolve ev name).run m = (.error (.error (.undefined name)), m) := by
  unfold resolve
  rw [run_bind_ok (run_get m), hnone, h]
  rfl

/-! ## Arguments and scopes -/

/-- The first of some expressions is evaluated, and then the others from there. -/
theorem run_all_cons_eq_ok_iff {e : Expr} {es values : List Expr} {m' : Machine} :
    (all ev (e :: es)).run m = (.ok values, m') ↔
      ∃ value mid more, (ev e).run m = (.ok value, mid) ∧ (all ev es).run mid = (.ok more, m') ∧
        values = value :: more := by
  rw [all, run_bind_eq_ok_iff]
  refine exists_congr fun value => exists_congr fun mid => ?_
  rw [exists_and_left]
  refine and_congr_right fun _ => ?_
  rw [run_bind_eq_ok_iff]
  constructor
  · rintro ⟨more, last, hmore, hpure⟩
    cases hpure
    exact ⟨more, hmore, rfl⟩
  · rintro ⟨more, hmore, rfl⟩
    exact ⟨more, m', hmore, rfl⟩

/-- A scope is open while the step in it is taken, and closed on both ways out. -/
theorem run_inScope {α : Type} (bindings : List (String × Expr)) (step : Eval α) (m : Machine) :
    (inScope bindings step).run m =
      ((step.run (m.entered bindings)).1, (step.run (m.entered bindings)).2.left) := rfl

/-- The built-in function evaluates its arguments and prints one line. -/
theorem run_print (args : List Expr) :
    (print ev args).run m =
      match (all ev args).run m with
      | (.ok values, m') => (.ok (.string "ok"), m'.printed (printedLine values))
      | (.error halt, m') => (.error halt, m') := by
  rw [print, run_bind]
  rcases (all ev args).run m with ⟨halt | values, m'⟩
  · rfl
  · have hline : m'.printed (printedLine values) =
        { m' with output := m'.output ++ listText (Expr.debugs values) ++ "\n" } := by
      rw [Machine.printed, printedLine, String.append_assoc]
    dsimp only
    rw [hline]
    rfl

/-! ## Expressions -/

/-- Applies what the name of a call stands for. -/
def apply (ev : Expr → Eval Expr) (name : String) (args : List Expr) : Expr → Eval Expr
  | .function first others => do
    let values ← all ev args
    dispatch ev name (first :: others) values
  | value => throw (.error (.notFunction name value))

/-- A call of the built-in function does not look at the scopes for it. -/
theorem eval_print (depth : Nat) (args : List Expr) :
    eval (depth + 1) (.call printName args) = print (eval depth) args := by
  rw [eval, if_pos rfl]

/-- Any other call looks its name up before its arguments are evaluated. -/
theorem eval_call (depth : Nat) {name : String} (h : name ≠ printName) (args : List Expr) :
    eval (depth + 1) (.call name args) =
      resolve (eval depth) name >>= apply (eval depth) name args := by
  rw [eval, if_neg h]
  rfl

/-! ## Declarations -/

/-- A declaration that is still pending in its turn is evaluated before the others. -/
theorem run_forceAll_pending {depth : Nat} {d : Declaration} {ds : List Declaration}
    (h : m.pending.get? d.name = some expr) :
    (forceAll depth (d :: ds)).run m =
      (force (eval depth) d.name expr >>= fun _ => forceAll depth ds).run m := by
  rw [forceAll, run_bind_ok (run_get m), h]

/-- A declaration that is not pending any more is passed over. -/
theorem run_forceAll_done {depth : Nat} {d : Declaration} {ds : List Declaration}
    (h : m.pending.get? d.name = none) :
    (forceAll depth (d :: ds)).run m = (forceAll depth ds).run m := by
  rw [forceAll, run_bind_ok (run_get m), h]

end Eval

end QLanguage
