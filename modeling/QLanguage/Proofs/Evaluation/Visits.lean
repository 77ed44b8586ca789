import QLanguage.Proofs.Evaluation.Runs

/-!
# The visits of an evaluation

A visit is one entry to the evaluator: an expression, the machine it is evaluated from and the
levels that are left. Evaluating an expression makes further visits, to a pending declaration, to
the arguments of a call and to the body of a clause, and `Visit.Calls` says which, with the machine
that each of them starts from. `Visited` collects all visits that loading some declarations makes.

`Framed` lists what a relation on machines has to satisfy, part by part, so that it holds before and
after every visit of a set that is closed under calls. `Framed.eval` goes through the evaluator for
it, once and for all.
-/

namespace QLanguage

open Step Eval

/-- One entry to the evaluator. -/
structure Visit where
  /-- The levels that are left. -/
  depth : Nat
  /-- The expression that is evaluated. -/
  expr : Expr
  /-- The machine it is evaluated from. -/
  machine : Machine

/-- The name that an expression looks up first. -/
def Expr.head? : Expr → Option String
  | .variable name => some name
  | .call name _ => if name = printName then none else some name
  | .string _ => none
  | .function _ _ => none

namespace Visit

/-- The visit comes to a name that is not bound and whose pending declaration has to be
evaluated. -/
structure Asks (visit : Visit) (name : String) (expr : Expr) : Prop where
  /-- The name is what the expression looks up. -/
  head : visit.expr.head? = some name
  /-- No scope binds it. -/
  unbound : visit.machine.env.lookup? name = none
  /-- Its declaration is pending. -/
  pending : visit.machine.pending.get? name = some expr
  /-- The evaluation of its declaration has not begun. -/
  fresh : name ∉ visit.machine.evaluating

/-- The visits that a visit makes. -/
inductive Calls : Visit → Visit → Prop where
  /-- A pending declaration is evaluated where its name is first needed. -/
  | pending {depth : Nat} {e expr : Expr} {m : Machine} {name : String}
      (asks : Asks ⟨depth + 1, e, m⟩ name expr) :
      Calls ⟨depth + 1, e, m⟩ ⟨depth, expr, m.begun name⟩
  /-- An argument of the built-in function is evaluated behind the arguments before it. -/
  | printed {depth : Nat} {before after values : List Expr} {arg : Expr} {m mid : Machine}
      (hbefore : (all (eval depth) before).run m = (.ok values, mid)) :
      Calls ⟨depth + 1, .call printName (before ++ arg :: after), m⟩ ⟨depth, arg, mid⟩
  /-- An argument of a function is evaluated behind the name and the arguments before it. -/
  | argument {depth : Nat} {name : String} {before after values : List Expr} {arg : Expr}
      {first : Clause} {others : List Clause} {m resolved mid : Machine} (hname : name ≠ printName)
      (hresolve : (resolve (eval depth) name).run m = (.ok (.function first others), resolved))
      (hbefore : (all (eval depth) before).run resolved = (.ok values, mid)) :
      Calls ⟨depth + 1, .call name (before ++ arg :: after), m⟩ ⟨depth, arg, mid⟩
  /-- The body of the clause that accepts the arguments is evaluated in a scope of its own. -/
  | body {depth : Nat} {name : String} {args values : List Expr} {first : Clause}
      {others : List Clause} {bindings : List (String × Expr)} {body : Expr}
      {m resolved mid : Machine} (hname : name ≠ printName)
      (hresolve : (resolve (eval depth) name).run m = (.ok (.function first others), resolved))
      (hargs : (all (eval depth) args).run resolved = (.ok values, mid))
      (hclause : selectClause? (first :: others) values = some (bindings, body)) :
      Calls ⟨depth + 1, .call name args, m⟩ ⟨depth, body, mid.entered bindings⟩

/-- A visit has one level less than the visit that makes it. -/
theorem Calls.depth_eq {visit next : Visit} (h : visit.Calls next) :
    visit.depth = next.depth + 1 := by
  cases h <;> rfl

end Visit

/-- The visits that loading some declarations makes. -/
inductive Visited (depth : Nat) (items : List Declaration) : Visit → Prop where
  /-- A declaration that is still pending in its turn is evaluated. -/
  | start {before after : List Declaration} {d : Declaration} {expr : Expr} {m : Machine}
      (hitems : items = before ++ d :: after)
      (hbefore : (forceAll depth before).run (Machine.start items) = (.ok (), m))
      (hpending : m.pending.get? d.name = some expr) :
      Visited depth items ⟨depth, expr, m.begun d.name⟩
  /-- A visit makes further visits. -/
  | call {visit next : Visit} (hvisit : Visited depth items visit) (hcalls : visit.Calls next) :
      Visited depth items next

/-- No visit of a loading has more levels than the loading was given. -/
theorem Visited.depth_le {depth : Nat} {items : List Declaration} {visit : Visit}
    (h : Visited depth items visit) : visit.depth ≤ depth := by
  induction h with
  | start => exact Nat.le_refl depth
  | call _ hcalls ih =>
    have hdepth := hcalls.depth_eq
    omega

/-! ## Relations between the machines before and after -/

/-- What a relation has to satisfy so that it holds before and after every visit in `A`. -/
structure Framed (A : Visit → Prop) (R : Machine → Machine → Prop) : Prop where
  /-- Whatever a visit in `A` calls is in `A`. -/
  calls : ∀ {visit next : Visit}, A visit → visit.Calls next → A next
  /-- Printing keeps the relation. -/
  printed : ∀ (m : Machine) (text : String), R m (m.printed text)
  /-- The evaluation of a declaration may halt, which takes the mark off again. -/
  ended : ∀ {depth : Nat} {e expr : Expr} {name : String} {m m' : Machine},
    A ⟨depth + 1, e, m⟩ → Visit.Asks ⟨depth + 1, e, m⟩ name expr → R (m.begun name) m' →
      R m (m'.ended name)
  /-- The evaluation of a declaration may give a value, which is bound. -/
  bound : ∀ {depth : Nat} {e expr value : Expr} {name : String} {m m' : Machine},
    A ⟨depth + 1, e, m⟩ → Visit.Asks ⟨depth + 1, e, m⟩ name expr →
      (eval depth expr).run (m.begun name) = (.ok value, m') → R (m.begun name) m' →
      R m ((m'.ended name).bound name value)
  /-- A scope that was opened is closed again. -/
  left : ∀ {m m' : Machine} (bindings : List (String × Expr)), R (m.entered bindings) m' →
    R m m'.left

/-- A relation that holds before and after each of some expressions, from where the ones before it
ended, holds before and after all of them. -/
theorem all_keeps {R : Machine → Machine → Prop} [Std.Refl R] [Trans R R R]
    {ev : Expr → Eval Expr} {args : List Expr} {m : Machine}
    (h : ∀ before arg after values mid, args = before ++ arg :: after →
      (all ev before).run m = (.ok values, mid) → R mid ((ev arg).run mid).2) :
    R m ((all ev args).run m).2 := by
  induction args generalizing m with
  | nil => exact Std.Refl.refl m
  | cons e es ih =>
    rw [all]
    refine run_bind_keeps (h [] e es [] m rfl rfl) fun value mid hvalue => ?_
    refine run_bind_keeps (ih fun before arg after values last hes hbefore => ?_)
      fun _ last _ => Std.Refl.refl last
    refine h (e :: before) arg after (value :: values) last (by rw [hes]; rfl) ?_
    exact run_all_cons_eq_ok_iff.2 ⟨value, mid, values, hvalue, hbefore, rfl⟩

namespace Framed

variable {A : Visit → Prop} {R : Machine → Machine → Prop} [Std.Refl R] [Trans R R R]

omit [Trans R R R] in
/-- The relation holds before and after a name is looked up, if it holds before and after the
evaluation of a pending declaration. -/
theorem resolve (h : Framed A R) {depth : Nat} {e : Expr} {name : String} {m : Machine}
    (hA : A ⟨depth + 1, e, m⟩) (hhead : e.head? = some name)
    (hev : ∀ expr m, A ⟨depth, expr, m⟩ → R m ((eval depth expr).run m).2) :
    R m ((Eval.resolve (eval depth) name).run m).2 := by
  rcases hlookup : m.env.lookup? name with _ | value
  · rcases hpending : m.pending.get? name with _ | expr
    · rw [run_resolve_undefined hlookup hpending]
      exact Std.Refl.refl m
    · rw [run_resolve_pending hlookup hpending]
      by_cases hmem : name ∈ m.evaluating
      · rw [run_force_cyclic hmem]
        exact Std.Refl.refl m
      · have hasks : Visit.Asks ⟨depth + 1, e, m⟩ name expr := ⟨hhead, hlookup, hpending, hmem⟩
        have hvisit := hev expr (m.begun name) (h.calls hA (.pending hasks))
        rw [run_force hmem]
        rcases hrun : (eval depth expr).run (m.begun name) with ⟨halt | value, m'⟩ <;>
          rw [hrun] at hvisit
        · exact h.ended hA hasks hvisit
        · exact h.bound hA hasks hrun hvisit
  · rw [run_resolve_bound hlookup]
    exact Std.Refl.refl m

/-- The relation holds before and after every visit. -/
theorem eval (h : Framed A R) (depth : Nat) (e : Expr) (m : Machine) (hA : A ⟨depth, e, m⟩) :
    R m ((Eval.eval depth e).run m).2 := by
  induction depth generalizing e m with
  | zero => exact Std.Refl.refl m
  | succ depth ih =>
    cases e with
    | string text => exact Std.Refl.refl m
    | function first others => exact Std.Refl.refl m
    | «variable» name => exact h.resolve hA rfl ih
    | call name args =>
      by_cases hname : name = printName
      · -- The built-in function: its arguments are visited, and then a line is printed.
        subst hname
        rw [eval_print]
        have hall : R m ((all (Eval.eval depth) args).run m).2 := all_keeps
          fun before arg after values mid hargs hbefore =>
            ih arg mid (h.calls (hargs ▸ hA) (.printed hbefore))
        rw [run_print]
        rcases hrun : (all (Eval.eval depth) args).run m with ⟨halt | values, m'⟩ <;>
          rw [hrun] at hall
        · exact hall
        · exact Trans.trans hall (h.printed m' _)
      · -- Any other function: its name, its arguments and a body are visited, in this order.
        rw [eval_call depth hname]
        have hhead : (Expr.call name args).head? = some name := if_neg hname
        refine run_bind_keeps (h.resolve hA hhead ih) fun value resolved hresolve => ?_
        -- Only a function goes on from there.
        cases value with
        | string text => exact Std.Refl.refl resolved
        | «variable» other => exact Std.Refl.refl resolved
        | call other more => exact Std.Refl.refl resolved
        | function first others =>
          have hall : R resolved ((all (Eval.eval depth) args).run resolved).2 := all_keeps
            fun before arg after values mid hargs hbefore =>
              ih arg mid (h.calls (hargs ▸ hA) (.argument hname hresolve hbefore))
          refine run_bind_keeps hall fun values mid hvalues => ?_
          rw [dispatch]
          rcases hclause : selectClause? (first :: others) values with _ | ⟨bindings, body⟩
          · exact Std.Refl.refl mid
          · dsimp only
            rw [run_inScope]
            have hbody := Visit.Calls.body hname hresolve hvalues hclause
            exact h.left bindings (ih body (mid.entered bindings) (h.calls hA hbody))

end Framed

end QLanguage
