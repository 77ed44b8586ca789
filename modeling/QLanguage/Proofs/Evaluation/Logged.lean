import Mathlib.Logic.Relation
import QLanguage.Proofs.Evaluation.Demands
import QLanguage.Proofs.Evaluation.Loading
import QLanguage.Proofs.Evaluation.Parallel

/-!
# An evaluator that keeps a log

The evaluator once more, with a log in its state: whenever it is entered it notes the visit, and
whenever the evaluation of a declaration begins it notes the name and the expression. It does
nothing else besides what the evaluator does (`Logs`), so the log of an evaluation says what
happens in it.

The lists and relations on visits are compared with that log. The evaluations of declarations in it
are those of `demands` and `demandsAll`, in this order, and its visits are those of `visits` and
`visitsAll`, in this order. These in turn are what can be reached by `Visit.Calls`, so a visit is in
the log of a loading exactly if it is `Visited`.
-/

namespace QLanguage

open Step

/-- What an evaluation leaves in a log. -/
structure Log where
  /-- The entries to the evaluator, in their order. -/
  visits : List Visit
  /-- The evaluations of declarations that have begun, in their order. -/
  begun : List (String × Expr)

namespace Log

/-- The log of nothing. -/
def empty : Log := ⟨[], []⟩

instance : Append Log := ⟨fun log more => ⟨log.visits ++ more.visits, log.begun ++ more.begun⟩⟩

/-- The visits of two logs. -/
@[simp] theorem visits_append (log more : Log) : (log ++ more).visits = log.visits ++ more.visits :=
  rfl

/-- Logs may be grouped freely. -/
theorem append_assoc (log more last : Log) : log ++ more ++ last = log ++ (more ++ last) :=
  congrArg₂ Log.mk (List.append_assoc ..) (List.append_assoc ..)

/-- Nothing may be added to a log. -/
@[simp] theorem append_empty (log : Log) : log ++ empty = log :=
  congrArg₂ Log.mk (List.append_nil _) (List.append_nil _)

end Log

/-! ## The evaluator -/

/-- A step that changes a machine, keeps a log, and gives a result or halts. -/
abbrev Logging := Step Halt (Machine × Log)

namespace Logging

/-- Notes an entry to the evaluator. -/
def visit (depth : Nat) (e : Expr) : Logging Unit :=
  modify fun (m, log) => (m, log ++ ⟨[⟨depth, e, m⟩], []⟩)

/-- Notes that the evaluation of a declaration begins. -/
def begin (name : String) (expr : Expr) : Logging Unit :=
  modify fun (m, log) => (m, log ++ ⟨[], [(name, expr)]⟩)

/-- A change of the machine alone. -/
def onMachine (change : Machine → Machine) : Machine × Log → Machine × Log :=
  fun (m, log) => (change m, log)

/-- Evaluates expressions from left to right. -/
def all (ev : Expr → Logging Expr) : List Expr → Logging (List Expr)
  | [] => return []
  | e :: es => do
    let value ← ev e
    return value :: (← all ev es)

/-- Evaluates a declaration that is still pending and binds its value in the root scope. -/
def force (ev : Expr → Logging Expr) (name : String) (expr : Expr) : Logging Expr := do
  if (← get).1.evaluating.contains name then throw (.error (.cyclic name))
  begin name expr
  modify (onMachine fun m => m.begun name)
  let value ← (ev expr).andThen (onMachine fun m => m.ended name)
  modify (onMachine fun m => m.bound name value)
  return value

/-- The value of a name: from the scopes, or else from a declaration that is still pending. -/
def resolve (ev : Expr → Logging Expr) (name : String) : Logging Expr := do
  let (m, _) ← get
  match m.env.lookup? name with
  | some value => return value
  | none =>
    match m.pending.get? name with
    | some expr => force ev name expr
    | none => throw (.error (.undefined name))

/-- Runs a step in a fresh scope with some bindings, which is closed whether the step halts or
not. -/
def inScope {α : Type} (bindings : List (String × Expr)) (step : Logging α) : Logging α := do
  modify (onMachine fun m => m.entered bindings)
  step.andThen (onMachine Machine.left)

/-- Applies the clauses of a named function to arguments. -/
def dispatch (ev : Expr → Logging Expr) (name : String) (clauses : List Clause)
    (args : List Expr) : Logging Expr :=
  match selectClause? clauses args with
  | some (bindings, body) => inScope bindings (ev body)
  | none => throw (.error (.noClause name args.length))

/-- Prints values in debug form, one line for each call. -/
def print (ev : Expr → Logging Expr) (args : List Expr) : Logging Expr := do
  let values ← all ev args
  modify (onMachine fun m => { m with
    output := m.output ++ listText (Expr.debugs values) ++ "\n" })
  return .string "ok"

/-- Evaluates an expression in at most `depth` nested evaluations. -/
def eval : Nat → Expr → Logging Expr
  | 0, e => do
    visit 0 e
    throw .tooDeep
  | depth + 1, .call name args => do
    visit (depth + 1) (.call name args)
    if name = printName then print (eval depth) args
    else
      match ← resolve (eval depth) name with
      | .function first others =>
        let values ← all (eval depth) args
        dispatch (eval depth) name (first :: others) values
      | value => throw (.error (.notFunction name value))
  | depth + 1, .variable name => do
    visit (depth + 1) (.variable name)
    resolve (eval depth) name
  | depth + 1, .string text => do
    visit (depth + 1) (.string text)
    return .string text
  | depth + 1, .function first others => do
    visit (depth + 1) (.function first others)
    return .function first others

/-- Evaluates those of some declarations that are still pending, in order. -/
def forceAll (depth : Nat) : List Declaration → Logging Unit
  | [] => return ()
  | d :: ds => do
    match (← get).1.pending.get? d.name with
    | some expr =>
      let _ ← force (eval depth) d.name expr
      forceAll depth ds
    | none => forceAll depth ds

end Logging

/-! ## What is logged -/

/-- The second step does on a machine what the first one does, and adds the given entries to the
log. -/
def Logs {α : Type} (added : Log) (step : Eval α) (logging : Logging α) (m : Machine) : Prop :=
  ∀ log, logging.run (m, log) = ((step.run m).1, (step.run m).2, log ++ added)

namespace Logs

variable {α β : Type} {m : Machine} {added more : Log}

/-- A step of its result alone adds nothing. -/
theorem pure (a : α) (m : Machine) :
    Logs .empty (Pure.pure a : Eval α) (Pure.pure a : Logging α) m := by
  intro log
  rw [Log.append_empty]
  rfl

/-- An error adds nothing. -/
theorem throw (halt : Halt) (m : Machine) :
    Logs .empty (throw halt : Eval α) (throw halt : Logging α) m := by
  intro log
  rw [Log.append_empty]
  rfl

/-- Behind a step that halts nothing is added. -/
theorem bind_error {step : Eval α} {logging : Logging α} {next : α → Eval β}
    {next' : α → Logging β} {halt : Halt} {mid : Machine} (hstep : Logs added step logging m)
    (hhalt : step.run m = (.error halt, mid)) :
    Logs added (step >>= next) (logging >>= next') m := by
  intro log
  have hlogged := hstep log
  rw [hhalt] at hlogged
  rw [run_bind_error hlogged, run_bind_error hhalt]

/-- Two steps in a row add what the first one adds and then what the second one adds, which is
nothing if the first one halts. -/
theorem bind {step : Eval α} {logging : Logging α} {next : α → Eval β} {next' : α → Logging β}
    (hstep : Logs added step logging m)
    (hnext : ∀ a mid, step.run m = (.ok a, mid) → Logs more (next a) (next' a) mid)
    (hhalt : ∀ halt mid, step.run m = (.error halt, mid) → more = .empty) :
    Logs (added ++ more) (step >>= next) (logging >>= next') m := by
  rcases hrun : step.run m with ⟨halt | a, mid⟩
  · rw [hhalt halt mid hrun, Log.append_empty]
    exact hstep.bind_error hrun
  · intro log
    have hlogged := hstep log
    rw [hrun] at hlogged
    rw [run_bind_ok hlogged, run_bind_ok hrun, hnext a mid hrun, Log.append_assoc]

/-- A step adds the same with something behind it that adds nothing. -/
theorem bind_empty {step : Eval α} {logging : Logging α} {next : α → Eval β}
    {next' : α → Logging β} (hstep : Logs added step logging m)
    (hnext : ∀ a mid, Logs .empty (next a) (next' a) mid) :
    Logs added (step >>= next) (logging >>= next') m :=
  added.append_empty ▸ hstep.bind (fun a mid _ => hnext a mid) fun _ _ _ => rfl

/-- An entry that is noted comes before what the evaluation adds. -/
theorem visit {step : Eval α} {logging : Logging α} (depth : Nat) (e : Expr)
    (hstep : Logs added step logging m) :
    Logs (⟨[⟨depth, e, m⟩], []⟩ ++ added) step (Logging.visit depth e >>= fun _ => logging) m := by
  intro log
  rw [Logging.visit, run_bind_ok (run_modify _ _), hstep, Log.append_assoc]

end Logs

/-! ## The visits of an evaluation -/

/-- The visits that looking the first name of an expression up makes: those of the evaluation of the
declaration that the expression demands. -/
def headVisits (next : Expr → Machine → List Visit) (e : Expr) (m : Machine) : List Visit :=
  match demand? e m with
  | some (name, expr) => next expr (m.begun name)
  | none => []

/-- The visits that an evaluation makes, in their order: its own, those of what it demands, and
those of its parts. -/
def visits : Nat → Expr → Machine → List Visit
  | 0, e, m => [⟨0, e, m⟩]
  | depth + 1, e, m =>
    ⟨depth + 1, e, m⟩ :: (headVisits (visits depth) e m ++
      (parts depth e m).flatMap fun part => visits depth part.expr part.machine)

/-- The visits that are made when declarations are evaluated in their turn. -/
def visitsAll (depth : Nat) (items : List Declaration) (m : Machine) : List Visit :=
  (turns depth items m).flatMap fun (_, visit) => visits depth visit.expr visit.machine

/-- What the evaluation of an expression logs. -/
def entries (depth : Nat) (e : Expr) (m : Machine) : Log := ⟨visits depth e m, demands depth e m⟩

/-- What the evaluations of expressions in a row log. -/
def rowEntries (depth : Nat) (row : List Visit) : Log :=
  ⟨row.flatMap fun part => visits depth part.expr part.machine,
    row.flatMap fun part => demands depth part.expr part.machine⟩

/-- No expressions log nothing. -/
theorem rowEntries_nil (depth : Nat) : rowEntries depth [] = .empty := rfl

/-- What a first expression logs comes first. -/
theorem rowEntries_cons (depth : Nat) (part : Visit) (row : List Visit) :
    rowEntries depth (part :: row) = entries depth part.expr part.machine ++ rowEntries depth row :=
  rfl

/-- What expressions in a row log comes in their order. -/
theorem rowEntries_append (depth : Nat) (row more : List Visit) :
    rowEntries depth (row ++ more) = rowEntries depth row ++ rowEntries depth more :=
  congrArg₂ Log.mk List.flatMap_append List.flatMap_append

/-! ## The parts of an evaluation -/

/-- A declaration that is being evaluated is not evaluated again. -/
theorem logs_force_cyclic {depth : Nat} {name : String} {expr : Expr} {m : Machine}
    (h : name ∈ m.evaluating) :
    Logs .empty (Eval.force (Eval.eval depth) name expr)
      (Logging.force (Logging.eval depth) name expr) m := by
  intro log
  have hc : m.evaluating.contains name = true := List.contains_iff_mem.2 h
  rw [Eval.run_force_cyclic h, Logging.force, run_bind_ok (run_get _), if_pos hc, Log.append_empty]
  rfl

/-- A declaration that is evaluated is noted when that begins. -/
theorem logs_force {depth : Nat} {name : String} {expr : Expr} {m : Machine} {added : Log}
    (hev : Logs added (Eval.eval depth expr) (Logging.eval depth expr) (m.begun name))
    (hfresh : name ∉ m.evaluating) :
    Logs (⟨[], [(name, expr)]⟩ ++ added) (Eval.force (Eval.eval depth) name expr)
      (Logging.force (Logging.eval depth) name expr) m := by
  intro log
  have hc : ¬m.evaluating.contains name = true := fun hc => hfresh (List.contains_iff_mem.1 hc)
  have hlogged : (Logging.eval depth expr).run
      (Logging.onMachine (fun m => m.begun name) (m, log ++ ⟨[], [(name, expr)]⟩)) = _ := hev _
  rw [Eval.run_force hfresh, Logging.force, run_bind_ok (run_get _), if_neg hc]
  dsimp only
  rw [Logging.begin, run_bind_ok (run_modify _ _), run_bind_ok (run_modify _ _), run_bind,
    run_andThen, hlogged]
  rw [← Log.append_assoc]
  rcases (Eval.eval depth expr).run (m.begun name) with ⟨halt | value, mid⟩ <;> rfl

section Parts

variable {depth : Nat}
  (hev : ∀ e m, Logs (entries depth e m) (Eval.eval depth e) (Logging.eval depth e) m)

include hev

/-- Looking a name up logs the evaluation of its declaration if that is what the expression
demands. -/
theorem logs_resolve {e : Expr} {name : String} (hhead : e.head? = some name) (m : Machine) :
    Logs ⟨headVisits (visits depth) e m, headDemands (demands depth) e m⟩
      (Eval.resolve (Eval.eval depth) name) (Logging.resolve (Logging.eval depth) name) m := by
  have hresolve : ∀ log, (Logging.resolve (Logging.eval depth) name).run (m, log) =
      (match m.env.lookup? name with
        | some value => (pure value : Logging Expr)
        | none =>
          match m.pending.get? name with
          | some expr => Logging.force (Logging.eval depth) name expr
          | none => throw (Halt.error (.undefined name))).run (m, log) := fun _ => rfl
  intro log
  rw [hresolve, headVisits, headDemands, demand?, hhead]
  dsimp only
  rcases hlookup : m.env.lookup? name with _ | value
  · rcases hpending : m.pending.get? name with _ | expr
    · rw [Eval.run_resolve_undefined hlookup hpending]
      exact Logs.throw _ m log
    · rw [Eval.run_resolve_pending hlookup hpending]
      dsimp only
      by_cases hmem : name ∈ m.evaluating
      · rw [if_pos hmem]
        exact logs_force_cyclic hmem log
      · rw [if_neg hmem]
        exact logs_force (hev expr (m.begun name)) hmem log
  · rw [Eval.run_resolve_bound hlookup]
    exact Logs.pure _ m log

/-- Expressions in a row log what each of them logs. -/
theorem logs_all (args : List Expr) (m : Machine) :
    Logs (rowEntries depth (rowVisits depth args m)) (Eval.all (Eval.eval depth) args)
      (Logging.all (Logging.eval depth) args) m := by
  induction args generalizing m with
  | nil => exact .pure [] m
  | cons e es ih =>
    rw [rowVisits, rowEntries_cons]
    refine (hev e m).bind (fun value mid hrun => ?_) fun halt mid hrun => ?_
    · rw [hrun]
      exact (ih mid).bind_empty fun more last => .pure (value :: more) last
    · rw [hrun]
      rfl

/-- A function logs what its arguments log and then what the body of a clause logs. -/
theorem logs_apply (name : String) (args : List Expr) (first : Clause) (others : List Clause)
    (m : Machine) :
    Logs (rowEntries depth
        (rowVisits depth args m ++ bodyVisits depth (first :: others) args m))
      (Eval.apply (Eval.eval depth) name args (.function first others))
      (do
        let values ← Logging.all (Logging.eval depth) args
        Logging.dispatch (Logging.eval depth) name (first :: others) values) m := by
  rw [rowEntries_append]
  refine (logs_all hev args m).bind (fun values mid hargs => ?_) fun halt mid hargs => ?_
  · rw [bodyVisits, hargs, Eval.dispatch, Logging.dispatch]
    dsimp only
    rcases selectClause? (first :: others) values with _ | ⟨bindings, body⟩
    · exact .throw _ mid
    · intro log
      have hbody : (Logging.eval depth body).run
          (Logging.onMachine (fun m => m.entered bindings) (mid, log)) = _ :=
        hev body (mid.entered bindings) log
      dsimp only
      rw [rowEntries_cons, rowEntries_nil, Log.append_empty, Logging.inScope,
        run_bind_ok (run_modify _ _), run_andThen, hbody, Eval.run_inScope]
      rfl
  · rw [bodyVisits, hargs]
    rfl

end Parts

/-! ## The whole evaluation -/

/-- An evaluation logs its visits and the evaluations of declarations that it demands. -/
theorem logs_eval (depth : Nat) (e : Expr) (m : Machine) :
    Logs (entries depth e m) (Eval.eval depth e) (Logging.eval depth e) m := by
  induction depth generalizing e m with
  | zero => exact .visit 0 e (.throw .tooDeep m)
  | succ depth ih =>
    have hentries : entries (depth + 1) e m = ⟨[⟨depth + 1, e, m⟩], []⟩ ++
        (⟨headVisits (visits depth) e m, headDemands (demands depth) e m⟩ ++
          rowEntries depth (parts depth e m)) := rfl
    rw [hentries]
    cases e with
    | string text => exact .visit _ _ (.pure _ m)
    | function first others => exact .visit _ _ (.pure _ m)
    | «variable» name =>
      refine .visit _ _ ?_
      have hparts : rowEntries depth (parts depth (.variable name) m) = .empty := rfl
      rw [hparts, Log.append_empty]
      exact logs_resolve ih rfl m
    | call name args =>
      rw [Logging.eval]
      refine .visit _ _ ?_
      by_cases hname : name = printName
      · subst hname
        rw [Eval.eval_print, parts, if_pos rfl, if_pos rfl]
        refine (logs_all ih args m).bind_empty fun values mid log => ?_
        rw [Log.append_empty]
        rfl
      · rw [Eval.eval_call depth hname, parts, if_neg hname, if_neg hname]
        have hhead : (Expr.call name args).head? = some name := if_neg hname
        refine (logs_resolve ih hhead m).bind (fun callee mid hrun => ?_) fun halt mid hrun => ?_
        · rw [hrun]
          cases callee with
          | function first others => exact logs_apply ih name args first others mid
          | _ => exact .throw _ mid
        · rw [hrun]
          rfl

/-- The same for declarations that are evaluated in their turn. -/
theorem logs_forceAll (depth : Nat) (items : List Declaration) (m : Machine) :
    Logs ⟨visitsAll depth items m, demandsAll depth items m⟩ (Eval.forceAll depth items)
      (Logging.forceAll depth items) m := by
  induction items generalizing m with
  | nil => exact .pure () m
  | cons d ds ih =>
    intro log
    rw [visitsAll, turns, demandsAll, Logging.forceAll, run_bind_ok (run_get _)]
    dsimp only
    rcases hpending : m.pending.get? d.name with _ | expr
    · rw [Eval.run_forceAll_done hpending]
      exact ih m log
    · rw [Eval.run_forceAll_pending hpending]
      dsimp only
      by_cases hmem : d.name ∈ m.evaluating
      · rw [if_pos hmem, if_pos hmem]
        exact (logs_force_cyclic hmem).bind_error (Eval.run_force_cyclic hmem) log
      · rw [if_neg hmem, if_neg hmem]
        have hforce := logs_force (logs_eval depth expr (m.begun d.name)) hmem
        refine (hforce.bind (fun value mid hrun => ?_) fun halt mid hrun => ?_ :
          Logs (_ ++ ⟨_, _⟩) _ _ m) log
        · rw [hrun]
          exact ih mid
        · rw [hrun]
          rfl

/-! ## Visits that can be reached -/

/-- The visits that an evaluation makes are those that can be reached by going from visits to
visits that they make. -/
theorem mem_visits_iff {depth : Nat} {e : Expr} {m : Machine} {visit : Visit} :
    visit ∈ visits depth e m ↔ Relation.ReflTransGen Visit.Calls ⟨depth, e, m⟩ visit := by
  induction depth generalizing e m with
  | zero =>
    rw [visits, List.mem_singleton]
    constructor
    · rintro rfl
      exact .refl
    · intro h
      rcases Relation.ReflTransGen.cases_head h with heq | ⟨next, hcalls, -⟩
      · exact heq.symm
      · exact absurd hcalls.depth_eq (Nat.succ_ne_zero _).symm
  | succ depth ih =>
    have hmem : visit ∈ visits (depth + 1) e m ↔ visit = ⟨depth + 1, e, m⟩ ∨
        (∃ name expr, demand? e m = some (name, expr) ∧
          visit ∈ visits depth expr (m.begun name)) ∨
        ∃ part ∈ parts depth e m, visit ∈ visits depth part.expr part.machine := by
      rw [visits, List.mem_cons, List.mem_append, List.mem_flatMap, headVisits]
      refine or_congr_right (or_congr_left ?_)
      rcases demand? e m with _ | ⟨name, expr⟩ <;> simp [and_assoc]
    rw [hmem, Relation.ReflTransGen.cases_head_iff, eq_comm]
    refine or_congr_right ?_
    constructor
    · rintro (⟨name, expr, hdemand, hvisit⟩ | ⟨part, hpart, hvisit⟩)
      · exact ⟨_, calls_iff.2 (.inl ⟨name, expr, hdemand, rfl⟩), ih.1 hvisit⟩
      · have hcalls : Visit.Calls ⟨depth + 1, e, m⟩ part := calls_iff.2 (.inr hpart)
        obtain ⟨levels, e', m'⟩ := part
        obtain rfl : depth = levels := Nat.succ.inj hcalls.depth_eq
        exact ⟨_, hcalls, ih.1 hvisit⟩
    · rintro ⟨next, hcalls, hvisit⟩
      obtain ⟨levels, e', m'⟩ := next
      obtain rfl : depth = levels := Nat.succ.inj hcalls.depth_eq
      rcases calls_iff.1 hcalls with ⟨name, expr, hdemand, hnext⟩ | hpart
      · obtain ⟨rfl, rfl⟩ : e' = expr ∧ m' = m.begun name := by simpa using hnext
        exact .inl ⟨name, e', hdemand, ih.2 hvisit⟩
      · exact .inr ⟨_, hpart, ih.2 hvisit⟩

/-- The visits of a loading are those that it is known to make. -/
theorem mem_visitsAll_start_iff {depth : Nat} {items : List Declaration} {visit : Visit} :
    visit ∈ visitsAll depth items (Machine.start items) ↔ Visited depth items visit := by
  rw [visitsAll, List.mem_flatMap]
  constructor
  · rintro ⟨turn, hturn, hvisit⟩
    obtain ⟨before, d, after, expr, mid, hitems, hbefore, hpending, -, rfl⟩ := mem_turns_iff.1 hturn
    have hreach := mem_visits_iff.1 hvisit
    induction hreach with
    | refl => exact .start hitems hbefore hpending
    | tail hfront hcalls ih => exact .call (ih (mem_visits_iff.2 hfront)) hcalls
  · intro h
    induction h with
    | @start before after d expr mid hitems hbefore hpending =>
      refine ⟨(d.name, ⟨depth, expr, mid.begun d.name⟩), ?_, mem_visits_iff.2 .refl⟩
      exact mem_turns_iff.2 ⟨before, d, after, expr, mid, hitems, hbefore, hpending,
        not_mem_evaluating_forceAll hbefore d.name, rfl⟩
    | call _ hcalls ih =>
      obtain ⟨turn, hturn, hvisit⟩ := ih
      refine ⟨turn, hturn, mem_visits_iff.2 ?_⟩
      exact (mem_visits_iff.1 hvisit).tail hcalls

/-! ## Whole runs -/

namespace Operation

/-- The entry to the evaluator that an operation makes. A name is looked up as a variable is, which
takes a level of its own. -/
def visit (depth : Nat) (m : Machine) : Operation → Visit
  | .callEntry => ⟨depth, .call entryName [.string greeting], m⟩
  | .eval e => ⟨depth, e, m⟩
  | .lookup name => ⟨depth + 1, .variable name, m⟩
  | .declare d => ⟨depth, d.value, m⟩

/-- An operation starts from the machine that it is asked of. -/
theorem visit_machine (depth : Nat) (m : Machine) (op : Operation) :
    (op.visit depth m).machine = m := by
  cases op <;> rfl

end Operation

namespace Logging

/-- Evaluates the declarations of a module. -/
def load (depth : Nat) (program : Module) : Except Halt Unit × Machine × Log :=
  (forceAll depth program.items).run (Machine.start program.items, .empty)

/-- Evaluates one more declaration and binds it in the root scope. -/
def declare (depth : Nat) (d : Declaration) : Logging Expr := do
  let value ← eval depth d.value
  modify (onMachine fun m => { m with env := m.env.define d.name value })
  return value

/-- Carries an operation out within a number of levels. A name is looked up as a variable is. -/
def step (depth : Nat) : Operation → Logging Expr
  | .callEntry => eval depth (.call entryName [.string greeting])
  | .eval e => eval depth e
  | .lookup name => eval (depth + 1) (.variable name)
  | .declare d => declare depth d

/-- The machine and the log after some operations, each with its levels, whether they gave a value
or not. -/
def perform (history : List (Nat × Operation)) (state : Machine × Log) : Machine × Log :=
  history.foldl (fun state past => ((step past.1 past.2).run state).2) state

/-- The machine and the log after a module has been loaded and, if that succeeded, some operations
have been carried out on it. -/
def loadAndPerform (levels : Nat) (program : Module) (history : List (Nat × Operation)) :
    Machine × Log :=
  match load levels program with
  | (.ok (), state) => perform history state
  | (.error _, state) => state

end Logging

/-- Loading a module does the same with a log, and logs the visits that it makes and the evaluations
of declarations that it demands. -/
theorem logging_load (depth : Nat) (program : Module) :
    Logging.load depth program = ((Machine.load depth program).1, (Machine.load depth program).2,
      ⟨visitsAll depth program.items (Machine.start program.items),
        demandsAll depth program.items (Machine.start program.items)⟩) :=
  logs_forceAll depth program.items (Machine.start program.items) .empty

/-- An operation logs what its visit logs. -/
theorem logs_step (depth : Nat) (op : Operation) (m : Machine) :
    Logs (entries (op.visit depth m).depth (op.visit depth m).expr (op.visit depth m).machine)
      (op.step depth) (Logging.step depth op) m := by
  cases op with
  | callEntry => exact logs_eval depth _ m
  | eval e => exact logs_eval depth e m
  | lookup name => exact logs_eval (depth + 1) (.variable name) m
  | declare d =>
    refine (logs_eval depth d.value m).bind_empty fun value mid log => ?_
    rw [Log.append_empty]
    rfl

/-- Operations do the same with a log, and each of them logs the visits that can be reached from its
own. -/
theorem logging_perform (history : List (Nat × Operation)) (m : Machine) (log : Log) :
    (Logging.perform history (m, log)).1 = m.perform history ∧
    ∀ visit, visit ∈ (Logging.perform history (m, log)).2.visits ↔ visit ∈ log.visits ∨
      ∃ before depth op after, history = before ++ (depth, op) :: after ∧
        Relation.ReflTransGen Visit.Calls (op.visit depth (m.perform before)) visit := by
  induction history generalizing m log with
  | nil => exact ⟨rfl, fun visit => by simp [Logging.perform]⟩
  | cons past more ih =>
    obtain ⟨depth, op⟩ := past
    have hstep := logs_step depth op m log
    have hperform : Logging.perform ((depth, op) :: more) (m, log) =
        Logging.perform more ((Logging.step depth op).run (m, log)).2 := rfl
    rw [hperform, hstep]
    refine (ih ((op.step depth).run m).2 _).imp_right fun hvisits visit => ?_
    rw [hvisits, Log.visits_append, List.mem_append, or_assoc, entries, mem_visits_iff]
    refine or_congr_right ?_
    constructor
    · rintro (hreach | ⟨before, levels, other, after, rfl, hreach⟩)
      · exact ⟨[], depth, op, more, rfl, hreach⟩
      · exact ⟨(depth, op) :: before, levels, other, after, rfl, hreach⟩
    · rintro ⟨before, levels, other, after, hhistory, hreach⟩
      cases before with
      | nil =>
        cases hhistory
        exact .inl hreach
      | cons first before =>
        cases hhistory
        exact .inr ⟨before, levels, other, after, rfl, hreach⟩

/-- A module that has been loaded has the same done to it with a log. -/
theorem loadAndPerform_machine {levels : Nat} {program : Module} {m : Machine}
    (hload : Machine.load levels program = (.ok (), m)) (history : List (Nat × Operation)) :
    (Logging.loadAndPerform levels program history).1 = m.perform history := by
  rw [Logging.loadAndPerform, logging_load, hload]
  exact (logging_perform history m _).1

/-- What a run logs are the visits of the loading and those that can be reached from the visits of
the operations. -/
theorem mem_loadAndPerform_iff {levels : Nat} {program : Module} {history : List (Nat × Operation)}
    {visit : Visit} :
    visit ∈ (Logging.loadAndPerform levels program history).2.visits ↔
      Visited levels program.items visit ∨
      ∃ m before depth op after, Machine.load levels program = (.ok (), m) ∧
        history = before ++ (depth, op) :: after ∧
        Relation.ReflTransGen Visit.Calls (op.visit depth (m.perform before)) visit := by
  rw [Logging.loadAndPerform, logging_load]
  rcases Machine.load levels program with ⟨halt | ⟨⟩, m⟩
  · simp [mem_visitsAll_start_iff]
  · refine ((logging_perform history m _).2 visit).trans ?_
    simp [mem_visitsAll_start_iff]

end QLanguage
