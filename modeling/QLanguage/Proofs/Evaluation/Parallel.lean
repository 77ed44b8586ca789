import QLanguage.Proofs.Evaluation.Runs

/-!
# Evaluations side by side

Two machines may differ and still do the same on some expressions. `Parallel` collects what has to
be known of the expressions, the names that they look up, and the machines: the parts of such an
expression are such expressions, both machines find the same under such a name, and whatever both do
next keeps them related. From that, by going through the parts of an evaluation, both machines give
the same value or halt for the same reason, and are related again (`Parallel.eval`).

With machines that are related only to themselves this is a statement about one machine: what
evaluation keeps of the expressions in it.
-/

namespace QLanguage

open Step Eval

/-- The machine when one more declaration is bound. -/
def Machine.defined (m : Machine) (name : String) (value : Expr) : Machine :=
  { m with env := m.env.define name value }

/-- What is needed of expressions with `P`, names with `N`, reasons to halt with `H` and machines
that `R` relates, for two evaluations to run side by side. -/
structure Parallel (P : Expr → Prop) (N : String → Prop) (H : Halt → Prop)
    (R : Machine → Machine → Prop) : Prop where
  /-- Evaluation may run out of levels. -/
  tooDeep : H .tooDeep
  /-- A name may have no value. -/
  undefined {name : String} : N name → H (.error (.undefined name))
  /-- A name may depend on itself. -/
  cyclic {name : String} : N name → H (.error (.cyclic name))
  /-- A name may stand for no function. -/
  notFunction {name : String} {value : Expr} :
    N name → P value → H (.error (.notFunction name value))
  /-- A function may accept no such arguments. -/
  noClause {name : String} {arity : Int} : N name → H (.error (.noClause name arity))
  /-- The result of the built-in function. -/
  done : P (.string "ok")
  /-- A variable looks its name up. -/
  ofVariable {name : String} : P (.variable name) → N name
  /-- A call looks its name up, unless it is of the built-in function. -/
  ofCall {name : String} {args : List Expr} : P (.call name args) → name ≠ printName → N name
  /-- A call evaluates its arguments. -/
  args {name : String} {args : List Expr} : P (.call name args) → ∀ arg ∈ args, P arg
  /-- A function evaluates the body of a clause. -/
  body {first : Clause} {others : List Clause} :
    P (.function first others) → ∀ clause ∈ first :: others, P clause.body
  /-- The same declarations are being evaluated. -/
  evaluating {m m' : Machine} : R m m' → m'.evaluating = m.evaluating
  /-- A name is bound to the same. -/
  lookup {m m' : Machine} {name : String} :
    R m m' → N name → m'.env.lookup? name = m.env.lookup? name
  /-- What a name is bound to. -/
  ofLookup {m m' : Machine} {name : String} {value : Expr} :
    R m m' → N name → m.env.lookup? name = some value → P value
  /-- The same is pending for a name. -/
  pending {m m' : Machine} {name : String} :
    R m m' → N name → m'.pending.get? name = m.pending.get? name
  /-- What is pending for a name. -/
  ofPending {m m' : Machine} {name : String} {expr : Expr} :
    R m m' → N name → m.pending.get? name = some expr → P expr
  /-- The evaluation of a declaration begins. -/
  begun {m m' : Machine} {name : String} : R m m' → N name → R (m.begun name) (m'.begun name)
  /-- The evaluation of a declaration has ended. -/
  ended {m m' : Machine} {name : String} : R m m' → N name → R (m.ended name) (m'.ended name)
  /-- A declaration is bound to its value. -/
  bound {m m' : Machine} {name : String} {value : Expr} :
    R m m' → N name → P value → R (m.bound name value) (m'.bound name value)
  /-- One more declaration is bound. -/
  defined {m m' : Machine} {name : String} {value : Expr} :
    R m m' → P value → R (m.defined name value) (m'.defined name value)
  /-- A scope is opened. -/
  entered {m m' : Machine} {bindings : List (String × Expr)} :
    R m m' → (∀ entry ∈ bindings, P entry.2) → R (m.entered bindings) (m'.entered bindings)
  /-- A scope is closed. -/
  left {m m' : Machine} : R m m' → R m.left m'.left
  /-- Values are printed. -/
  printed {m m' : Machine} {values : List Expr} :
    R m m' → (∀ value ∈ values, P value) →
      R (m.printed (printedLine values)) (m'.printed (printedLine values))

/-- Both steps give the same result with a property, or halt for the same reason, and leave related
machines. -/
abbrev Runs {α : Type} (H : Halt → Prop) (R : Machine → Machine → Prop) (P : α → Prop)
    (step : Eval α) : Prop :=
  Relates R (SameWith H) (SameWith P) step step

namespace Parallel

variable {P : Expr → Prop} {N : String → Prop} {H : Halt → Prop} {R : Machine → Machine → Prop}

section Parts

variable {ev : Expr → Eval Expr} (h : Parallel P N H R) (hev : ∀ e, P e → Runs H R P (ev e))

include hev

/-- Expressions are evaluated side by side. -/
theorem all {es : List Expr} (hes : ∀ e ∈ es, P e) :
    Runs H R (fun values => ∀ value ∈ values, P value) (Eval.all ev es) := by
  induction es with
  | nil => exact .pure ⟨rfl, fun _ hv => absurd hv List.not_mem_nil⟩
  | cons e es ih =>
    obtain ⟨he, hes⟩ := List.forall_mem_cons.1 hes
    refine .bind (hev e he) ?_
    rintro value _ ⟨rfl, hvalue⟩
    refine .bind (ih hes) ?_
    rintro values _ ⟨rfl, hvalues⟩
    exact .pure ⟨rfl, List.forall_mem_cons.2 ⟨hvalue, hvalues⟩⟩

include h

/-- A pending declaration is evaluated side by side. -/
theorem force {name : String} (hname : N name) {expr : Expr} (hexpr : P expr) :
    Runs H R P (Eval.force ev name expr) := by
  intro m m' hm
  by_cases hmem : name ∈ m.evaluating
  · have hmem' : name ∈ m'.evaluating := by rwa [h.evaluating hm]
    rw [run_force_cyclic hmem, run_force_cyclic hmem']
    exact ⟨.error ⟨rfl, h.cyclic hname⟩, hm⟩
  · have hmem' : name ∉ m'.evaluating := by rwa [h.evaluating hm]
    rw [run_force hmem, run_force hmem']
    rcases (hev expr hexpr).run_cases (h.begun hm hname) with
      ⟨value, _, mid, mid', hrun, hrun', ⟨rfl, hvalue⟩, hmid⟩ |
      ⟨halt, halt', mid, mid', hrun, hrun', hhalt, hmid⟩ <;> rw [hrun, hrun']
    · exact ⟨.ok ⟨rfl, hvalue⟩, h.bound (h.ended hmid hname) hname hvalue⟩
    · exact ⟨.error hhalt, h.ended hmid hname⟩

/-- A name is looked up side by side. -/
theorem resolve {name : String} (hname : N name) : Runs H R P (Eval.resolve ev name) := by
  intro m m' hm
  have hlookup' := h.lookup hm hname
  have hpending' := h.pending hm hname
  rcases hlookup : m.env.lookup? name with _ | value <;> rw [hlookup] at hlookup'
  · rcases hpending : m.pending.get? name with _ | expr <;> rw [hpending] at hpending'
    · rw [run_resolve_undefined hlookup hpending, run_resolve_undefined hlookup' hpending']
      exact ⟨.error ⟨rfl, h.undefined hname⟩, hm⟩
    · rw [run_resolve_pending hlookup hpending, run_resolve_pending hlookup' hpending']
      exact h.force hev hname (h.ofPending hm hname hpending) m m' hm
  · rw [run_resolve_bound hlookup, run_resolve_bound hlookup']
    exact ⟨.ok ⟨rfl, h.ofLookup hm hname hlookup⟩, hm⟩

/-- The built-in function is called side by side. -/
theorem print {args : List Expr} (hargs : ∀ arg ∈ args, P arg) :
    Runs H R P (Eval.print ev args) := by
  intro m m' hm
  rw [run_print, run_print]
  rcases (all hev hargs).run_cases hm with
    ⟨values, _, mid, mid', hrun, hrun', ⟨rfl, hvalues⟩, hmid⟩ |
    ⟨halt, halt', mid, mid', hrun, hrun', hhalt, hmid⟩ <;> rw [hrun, hrun']
  · exact ⟨.ok ⟨rfl, h.done⟩, h.printed hmid hvalues⟩
  · exact ⟨.error hhalt, hmid⟩

/-- The clauses of a function are applied side by side. -/
theorem dispatch {name : String} (hname : N name) {clauses : List Clause}
    (hclauses : ∀ clause ∈ clauses, P clause.body) {args : List Expr} (hargs : ∀ v ∈ args, P v) :
    Runs H R P (Eval.dispatch ev name clauses args) := by
  rw [Eval.dispatch]
  rcases hclause : selectClause? clauses args with _ | ⟨bindings, body⟩
  · exact .throw ⟨rfl, h.noClause hname⟩
  · obtain ⟨hbindings, clause, hmem, rfl⟩ := of_selectClause? hclause
    intro m m' hm
    have hentered := h.entered hm fun entry hentry => hargs _ (hbindings entry hentry)
    obtain ⟨hend, hmid⟩ := hev _ (hclauses clause hmem) _ _ hentered
    exact ⟨hend, h.left hmid⟩

/-- What a name stands for is applied side by side. -/
theorem apply {name : String} (hname : N name) {args : List Expr} (hargs : ∀ arg ∈ args, P arg)
    {value : Expr} (hvalue : P value) : Runs H R P (Eval.apply ev name args value) := by
  cases value with
  | function first others =>
    refine .bind (all hev hargs) ?_
    rintro values _ ⟨rfl, hvalues⟩
    exact h.dispatch hev hname (h.body hvalue) hvalues
  | _ => exact .throw ⟨rfl, h.notFunction hname hvalue⟩

end Parts

variable (h : Parallel P N H R)

include h

/-- Expressions are evaluated side by side. -/
theorem eval (depth : Nat) {e : Expr} (he : P e) : Runs H R P (Eval.eval depth e) := by
  induction depth generalizing e with
  | zero => exact .throw ⟨rfl, h.tooDeep⟩
  | succ depth ih =>
    have hev : ∀ e, P e → Runs H R P (Eval.eval depth e) := fun _ => ih
    cases e with
    | string text => exact .pure ⟨rfl, he⟩
    | function first others => exact .pure ⟨rfl, he⟩
    | «variable» name => exact h.resolve hev (h.ofVariable he)
    | call name args =>
      by_cases hprint : name = printName
      · rw [hprint, eval_print]
        exact h.print hev (h.args he)
      · rw [eval_call depth hprint]
        refine .bind (h.resolve hev (h.ofCall he hprint)) ?_
        rintro value _ ⟨rfl, hvalue⟩
        exact h.apply hev (h.ofCall he hprint) (h.args he) hvalue

/-- Declarations are evaluated in their turn side by side. -/
theorem forceAll (depth : Nat) {items : List Declaration} (hitems : ∀ d ∈ items, N d.name) :
    Runs H R (fun _ => True) (Eval.forceAll depth items) := by
  induction items with
  | nil => exact .pure ⟨rfl, trivial⟩
  | cons d ds ih =>
    obtain ⟨hd, hds⟩ := List.forall_mem_cons.1 hitems
    intro m m' hm
    have hpending' := h.pending hm hd
    rcases hpending : m.pending.get? d.name with _ | expr <;> rw [hpending] at hpending'
    · rw [run_forceAll_done hpending, run_forceAll_done hpending']
      exact ih hds m m' hm
    · rw [run_forceAll_pending hpending, run_forceAll_pending hpending']
      refine Relates.bind (h.force (fun _ => h.eval depth) hd (h.ofPending hm hd hpending)) ?_
        m m' hm
      exact fun _ _ _ => ih hds

/-- One more declaration is evaluated and bound side by side. -/
theorem declare (depth : Nat) {d : Declaration} (hd : P d.value) :
    Runs H R P (Eval.declare depth d) := by
  refine .bind (h.eval depth hd) ?_
  rintro value _ ⟨rfl, hvalue⟩
  refine .bind (.modify fun m m' hm => h.defined hm hvalue) fun _ _ _ => ?_
  exact .pure ⟨rfl, hvalue⟩

/-- Declarations are evaluated and bound one after another side by side. -/
theorem declareAll (depth : Nat) {items : List Declaration} (hitems : ∀ d ∈ items, P d.value) :
    Runs H R (fun _ => True) (Eval.declareAll depth items) := by
  induction items with
  | nil => exact .pure ⟨rfl, trivial⟩
  | cons d ds ih =>
    obtain ⟨hd, hds⟩ := List.forall_mem_cons.1 hitems
    exact .bind (h.declare depth hd) fun _ _ _ => ih hds

end Parallel

/-! ## Operations -/

/-- What may be asked of a loaded machine. -/
inductive Operation where
  /-- A call of the function that a program starts with. -/
  | callEntry
  /-- The value of an expression. -/
  | eval (e : Expr)
  /-- The value of a name. -/
  | lookup (name : String)
  /-- One more declaration. -/
  | declare (d : Declaration)

namespace Operation

/-- Carries an operation out within a number of levels. -/
def step (depth : Nat) : Operation → Eval Expr
  | .callEntry => Eval.callEntry depth
  | .eval e => Eval.eval depth e
  | .lookup name => resolve (Eval.eval depth) name
  | .declare d => Eval.declare depth d

end Operation

/-- The machine after some operations, each with its levels, whether they gave a value or not. -/
def Machine.perform (m : Machine) (history : List (Nat × Operation)) : Machine :=
  history.foldl (fun m past => ((past.2.step past.1).run m).2) m

/-- An operation evaluates expressions with `P` and looks names with `N` up. -/
def Operation.Uses (P : Expr → Prop) (N : String → Prop) : Operation → Prop
  | .callEntry => P (.call entryName [.string greeting])
  | .eval e => P e
  | .lookup name => N name
  | .declare d => P d.value

namespace Parallel

variable {P : Expr → Prop} {N : String → Prop} {H : Halt → Prop} {R : Machine → Machine → Prop}
  (h : Parallel P N H R)

include h

/-- Operations are carried out side by side. -/
theorem step (depth : Nat) {op : Operation} (hop : op.Uses P N) : Runs H R P (op.step depth) := by
  cases op with
  | callEntry => exact h.eval depth hop
  | eval e => exact h.eval depth hop
  | lookup name => exact h.resolve (fun _ => h.eval depth) hop
  | declare d => exact h.declare depth hop

/-- Machines that are related are so after any operations. -/
theorem perform {history : List (Nat × Operation)} (hhistory : ∀ past ∈ history, past.2.Uses P N)
    {m m' : Machine} (hm : R m m') : R (m.perform history) (m'.perform history) := by
  induction history generalizing m m' with
  | nil => exact hm
  | cons past more ih =>
    obtain ⟨hpast, hmore⟩ := List.forall_mem_cons.1 hhistory
    exact ih hmore (h.step past.1 hpast m m' hm).2

end Parallel

end QLanguage
