import QLanguage.Proofs.Evaluation.Logged

/-!
# Only values are bound and returned

A machine that binds only strings and functions goes on to bind only those, whatever is evaluated on
it and however that ends, and every result is a string or a function again (`Yields`). The one place
where an expression that is no value lies in wait is the table of pending declarations, and what
comes from there is evaluated before it is bound.

`Reached` collects the entries to the evaluator of a whole run: while a module is loaded, and while
any operations are carried out on the loaded machine. They are the entries that runs with a log note
(`reached_iff_logged`), and the invariant holds at each of them.
-/

namespace QLanguage

open Step Eval

/-! ## Tables of values -/

/-- All entries of a table have values with a property. -/
def Table.All {α : Type} (P : α → Prop) (table : Table α) : Prop :=
  ∀ entry ∈ table.entries, P entry.2

namespace Table

variable {α : Type} {P : α → Prop} {table : Table α}

/-- What a name is set to is the only new entry. -/
theorem mem_of_mem_set {name : String} {value : α} {entry : String × α}
    (h : entry ∈ (table.set name value).entries) :
    entry = (name, value) ∨ entry ∈ table.entries := by
  obtain ⟨entries⟩ := table
  induction entries with
  | nil => exact .inl (List.mem_singleton.1 h)
  | cons first more ih =>
    by_cases hname : first.1 = name
    · simp only [Table.set, setEntries, if_pos hname, List.mem_cons] at h
      exact h.imp_right (List.mem_cons_of_mem _)
    · simp only [Table.set, setEntries, if_neg hname, List.mem_cons] at h
      rcases h with rfl | h
      · exact .inr List.mem_cons_self
      · exact (ih h).imp_right (List.mem_cons_of_mem _)

/-- What a name is set to is the only new value. -/
theorem All.set (h : table.All P) (name : String) {value : α} (hvalue : P value) :
    (table.set name value).All P := by
  intro entry hentry
  rcases mem_of_mem_set hentry with rfl | hentry
  · exact hvalue
  · exact h entry hentry

/-- What names are set to one after another are the only new values. -/
theorem All.setAll (h : table.All P) {entries : List (String × α)}
    (hentries : ∀ entry ∈ entries, P entry.2) : (table.setAll entries).All P := by
  induction entries generalizing table with
  | nil => exact h
  | cons entry more ih =>
    obtain ⟨hentry, hmore⟩ := List.forall_mem_cons.1 hentries
    exact ih (h.set entry.1 hentry) hmore

/-- Taking a name out adds no value. -/
theorem All.erase (h : table.All P) (name : String) : (table.erase name).All P :=
  fun entry hentry => h entry (List.mem_filter.1 hentry).1

/-- What is looked up has the property of all values. -/
theorem All.get? (h : table.All P) {name : String} {value : α}
    (hvalue : table.get? name = some value) : P value := by
  obtain ⟨before, after, hentries, -⟩ := List.lookup_eq_some_iff.1 hvalue
  refine h (name, value) ?_
  rw [hentries]
  exact List.mem_append_right _ List.mem_cons_self

end Table

/-- No entry of an empty table lacks a property. -/
theorem Table.all_empty {α : Type} {P : α → Prop} : (Table.empty : Table α).All P :=
  fun _ hentry => absurd hentry List.not_mem_nil

/-! ## Scopes of values -/

/-- Every binding of every scope has a property. -/
def Environment.All (P : Expr → Prop) (env : Environment) : Prop :=
  ∀ scope ∈ env.scopes, scope.All P

/-- Every binding of every scope is a string or a function. -/
def Environment.OnlyValues (env : Environment) : Prop :=
  ∀ scope ∈ env.scopes, scope.All fun value => value.isValue = true

namespace Environment

variable {P : Expr → Prop} {env : Environment}

/-- All bindings have a property when those of the root and of the inner scopes do. -/
theorem all_iff : env.All P ↔ env.root.All P ∧ ∀ scope ∈ env.inner, scope.All P := by
  simp [All, scopes]

namespace All

/-- What is looked up has the property of all bindings. -/
theorem lookup? (h : env.All P) {name : String} {value : Expr}
    (hvalue : env.lookup? name = some value) : P value := by
  obtain ⟨hroot, hinner⟩ := all_iff.1 h
  rw [Environment.lookup?, Option.or_eq_some_iff] at hvalue
  rcases hvalue with hvalue | ⟨-, hvalue⟩
  · obtain ⟨scope, hscope, hget⟩ := List.exists_of_findSome?_eq_some hvalue
    exact (hinner scope hscope).get? hget
  · exact hroot.get? hvalue

/-- What is bound in the root is the only new binding. -/
theorem define (h : env.All P) (name : String) {value : Expr} (hvalue : P value) :
    (env.define name value).All P := by
  obtain ⟨hroot, hinner⟩ := all_iff.1 h
  exact all_iff.2 ⟨hroot.set name hvalue, hinner⟩

/-- What a scope is opened with are the only new bindings. -/
theorem enter (h : env.All P) {bindings : List (String × Expr)}
    (hbindings : ∀ entry ∈ bindings, P entry.2) : (env.enter bindings).All P := by
  obtain ⟨hroot, hinner⟩ := all_iff.1 h
  refine all_iff.2 ⟨hroot, ?_⟩
  exact List.forall_mem_cons.2 ⟨Table.all_empty.setAll hbindings, hinner⟩

/-- A scope may be closed. -/
theorem leave (h : env.All P) : env.leave.All P := by
  obtain ⟨hroot, hinner⟩ := all_iff.1 h
  exact all_iff.2 ⟨hroot, fun scope hscope => hinner scope (List.mem_of_mem_drop hscope)⟩

end All

end Environment

/-! ## Steps that keep it so -/

/-- From a machine that binds only values a step leads to one that does, however it ends, and gives
a result with a property if it gives one. -/
def Yields {α : Type} (P : α → Prop) (step : Eval α) : Prop :=
  ∀ m : Machine, m.env.OnlyValues →
    (step.run m).2.env.OnlyValues ∧ ∀ a, (step.run m).1 = .ok a → P a

/-- A step leads from a machine that binds only values to one that does, and gives a value. -/
abbrev YieldsValue (step : Eval Expr) : Prop := Yields (fun value => value.isValue = true) step

namespace Yields

variable {α β : Type} {P : α → Prop} {Q : β → Prop}

/-- A step of its result alone yields it. -/
theorem pure {a : α} (h : P a) : Yields P (Pure.pure a : Eval α) := by
  refine fun m hm => ⟨hm, fun b hb => ?_⟩
  cases hb
  exact h

/-- An error yields nothing. -/
theorem throw (halt : Halt) : Yields P (throw halt : Eval α) :=
  fun _ hm => ⟨hm, fun _ ha => by cases ha⟩

/-- Two steps in a row yield what the second one yields behind a result of the first. -/
theorem bind {step : Eval α} {next : α → Eval β} (hstep : Yields P step)
    (hnext : ∀ a, P a → Yields Q (next a)) : Yields Q (step >>= next) := by
  intro m hm
  obtain ⟨hmid, hresult⟩ := hstep m hm
  rcases hrun : step.run m with ⟨halt | a, mid⟩ <;> rw [hrun] at hmid hresult
  · rw [run_bind_error hrun]
    exact ⟨hmid, fun _ hb => by cases hb⟩
  · rw [run_bind_ok hrun]
    exact hnext a (hresult a rfl) mid hmid

end Yields

section Parts

variable {ev : Expr → Eval Expr} (hev : ∀ e, YieldsValue (ev e))

include hev

/-- Expressions evaluate to values, one after another. -/
theorem yields_all (args : List Expr) :
    Yields (fun values => ∀ v ∈ values, v.isValue = true) (all ev args) := by
  induction args with
  | nil => exact Yields.pure fun _ hv => absurd hv List.not_mem_nil
  | cons e es ih =>
    refine Yields.bind (hev e) fun value hvalue => ?_
    refine Yields.bind ih fun more hmore => ?_
    exact Yields.pure (List.forall_mem_cons.2 ⟨hvalue, hmore⟩)

/-- A pending declaration is bound to the value that it evaluates to, never to itself. -/
theorem yields_force (name : String) (expr : Expr) : YieldsValue (force ev name expr) := by
  intro m hm
  by_cases hmem : name ∈ m.evaluating
  · rw [run_force_cyclic hmem]
    exact ⟨hm, fun _ hv => by cases hv⟩
  · obtain ⟨hmid, hresult⟩ := hev expr (m.begun name) hm
    rw [run_force hmem]
    rcases hrun : (ev expr).run (m.begun name) with ⟨halt | value, mid⟩ <;>
      rw [hrun] at hmid hresult
    · exact ⟨hmid, fun _ hv => by cases hv⟩
    · refine ⟨Environment.All.define hmid name (hresult value rfl), fun v hv => ?_⟩
      cases hv
      exact hresult value rfl

/-- What a name stands for is a value, whether it is bound or still pending. -/
theorem yields_resolve (name : String) : YieldsValue (resolve ev name) := by
  intro m hm
  rcases hlookup : m.env.lookup? name with _ | value
  · rcases hpending : m.pending.get? name with _ | expr
    · rw [run_resolve_undefined hlookup hpending]
      exact ⟨hm, fun _ hv => by cases hv⟩
    · rw [run_resolve_pending hlookup hpending]
      exact yields_force hev name expr m hm
  · rw [run_resolve_bound hlookup]
    refine ⟨hm, fun v hv => ?_⟩
    cases hv
    exact Environment.All.lookup? hm hlookup

/-- The built-in function gives a string. -/
theorem yields_print (args : List Expr) : YieldsValue (print ev args) := by
  intro m hm
  obtain ⟨hmid, -⟩ := yields_all hev args m hm
  rw [run_print]
  rcases hrun : (all ev args).run m with ⟨halt | values, mid⟩ <;> rw [hrun] at hmid
  · exact ⟨hmid, fun _ hv => by cases hv⟩
  · refine ⟨hmid, fun v hv => ?_⟩
    cases hv
    rfl

/-- A function that is applied to values binds those, and gives what its body gives. -/
theorem yields_dispatch (name : String) (clauses : List Clause) {args : List Expr}
    (hargs : ∀ v ∈ args, v.isValue = true) :
    YieldsValue (dispatch ev name clauses args) := by
  rw [dispatch]
  rcases hclause : selectClause? clauses args with _ | ⟨bindings, body⟩
  · exact Yields.throw _
  · intro m hm
    have hentered := Environment.All.enter hm fun entry hentry =>
      hargs _ ((of_selectClause? hclause).1 entry hentry)
    obtain ⟨hmid, hresult⟩ := hev body (m.entered bindings) hentered
    dsimp only
    rw [run_inScope]
    exact ⟨Environment.All.leave hmid, hresult⟩

/-- What a name stands for is applied to values if it is a function, and is not applied at all
otherwise. -/
theorem yields_apply (name : String) (args : List Expr) (value : Expr) :
    YieldsValue (apply ev name args value) := by
  cases value with
  | function first others =>
    exact Yields.bind (yields_all hev args) fun values hvalues =>
      yields_dispatch hev name (first :: others) hvalues
  | _ => exact Yields.throw _

end Parts

/-- Expressions evaluate to values, and nothing else is bound on the way. -/
theorem yields_eval (depth : Nat) (e : Expr) : YieldsValue (eval depth e) := by
  induction depth generalizing e with
  | zero => exact Yields.throw _
  | succ depth ih =>
    cases e with
    | string text => exact Yields.pure rfl
    | function first others => exact Yields.pure rfl
    | «variable» name => exact yields_resolve ih name
    | call name args =>
      by_cases hname : name = printName
      · rw [hname, eval_print]
        exact yields_print ih args
      · rw [eval_call depth hname]
        exact Yields.bind (yields_resolve ih name) fun value _ => yields_apply ih name args value

/-- Declarations that are evaluated in their turn are bound to values. -/
theorem yields_forceAll (depth : Nat) (items : List Declaration) :
    Yields (fun _ => True) (forceAll depth items) := by
  induction items with
  | nil => exact Yields.pure trivial
  | cons d ds ih =>
    intro m hm
    rcases hpending : m.pending.get? d.name with _ | expr
    · rw [run_forceAll_done hpending]
      exact ih m hm
    · rw [run_forceAll_pending hpending]
      exact Yields.bind (yields_force (yields_eval depth) d.name expr) (fun _ _ => ih) m hm

/-- A value evaluates to itself, and nothing happens. -/
theorem run_eval_value {value : Expr} (h : value.isValue = true) (depth : Nat) (m : Machine) :
    (eval (depth + 1) value).run m = (.ok value, m) := by
  cases value with
  | string text => rfl
  | function first others => rfl
  | _ => cases h

/-! ## Operations on a loaded machine -/

namespace Operation

/-- An operation gives a value and binds only values. -/
theorem yields_step (depth : Nat) (op : Operation) : YieldsValue (op.step depth) := by
  cases op with
  | callEntry => exact yields_eval depth _
  | eval e => exact yields_eval depth e
  | lookup name => exact yields_resolve (yields_eval depth) name
  | declare d =>
    refine Yields.bind (yields_eval depth d.value) fun value hvalue m hm => ?_
    refine ⟨Environment.All.define hm d.name hvalue, fun v hv => ?_⟩
    cases hv
    exact hvalue

end Operation

/-- Operations bind only values. -/
theorem Machine.onlyValues_perform {m : Machine} (hm : m.env.OnlyValues)
    (history : List (Nat × Operation)) : (m.perform history).env.OnlyValues := by
  induction history generalizing m with
  | nil => exact hm
  | cons past more ih => exact ih (past.2.yields_step past.1 m hm).1

/-! ## Every entry to the evaluator -/

/-- A visit from a machine that binds only values makes further visits from such machines. -/
theorem Visit.Calls.onlyValues {visit next : Visit} (h : visit.Calls next)
    (hvisit : visit.machine.env.OnlyValues) : next.machine.env.OnlyValues := by
  cases h with
  | pending asks => exact hvisit
  | @printed depth before after values arg m mid hbefore =>
    have hmid := (yields_all (yields_eval depth) before m hvisit).1
    rw [hbefore] at hmid
    exact hmid
  | @argument depth name before after values arg first others m resolved mid hname hresolve
      hbefore =>
    have hresolved := (yields_resolve (yields_eval depth) name m hvisit).1
    rw [hresolve] at hresolved
    have hmid := (yields_all (yields_eval depth) before resolved hresolved).1
    rw [hbefore] at hmid
    exact hmid
  | @body depth name args values first others bindings body m resolved mid hname hresolve hargs
      hclause =>
    have hresolved := (yields_resolve (yields_eval depth) name m hvisit).1
    rw [hresolve] at hresolved
    obtain ⟨hmid, hvalues⟩ := yields_all (yields_eval depth) args resolved hresolved
    rw [hargs] at hmid hvalues
    exact Environment.All.enter hmid fun entry hentry =>
      hvalues values rfl _ ((of_selectClause? hclause).1 entry hentry)

/-- Before loading, nothing is bound. -/
theorem onlyValues_start (items : List Declaration) : (Machine.start items).env.OnlyValues := by
  refine Environment.all_iff.2 ⟨Table.all_empty, ?_⟩
  exact fun _ hscope => absurd hscope List.not_mem_nil

/-- Every visit of a loading starts from a machine that binds only values. -/
theorem Visited.onlyValues {depth : Nat} {items : List Declaration} {visit : Visit}
    (h : Visited depth items visit) : visit.machine.env.OnlyValues := by
  induction h with
  | @start before after d expr m hitems hbefore hpending =>
    have hm := (yields_forceAll depth before _ (onlyValues_start items)).1
    rw [hbefore] at hm
    exact hm
  | call _ hcalls ih => exact hcalls.onlyValues ih

/-- The entries to the evaluator in all runs of a module: while it is loaded, and while operations
are carried out on the loaded machine. -/
inductive Reached (levels : Nat) (program : Module) : Visit → Prop where
  /-- Loading makes a visit. -/
  | loading {visit : Visit} (hvisit : Visited levels program.items visit) :
      Reached levels program visit
  /-- An operation makes a visit, after whatever operations came before it. -/
  | operation {m : Machine} (hload : Machine.load levels program = (.ok (), m))
      (history : List (Nat × Operation)) (depth : Nat) (op : Operation) :
      Reached levels program (op.visit depth (m.perform history))
  /-- A visit makes further visits. -/
  | call {visit next : Visit} (hvisit : Reached levels program visit)
      (hcalls : visit.Calls next) : Reached levels program next

/-- The entries to the evaluator in all runs are those that runs with a log note. -/
theorem reached_iff_logged {levels : Nat} {program : Module} {visit : Visit} :
    Reached levels program visit ↔
      ∃ history, visit ∈ (Logging.loadAndPerform levels program history).2.visits := by
  simp only [mem_loadAndPerform_iff]
  constructor
  · intro h
    induction h with
    | loading hvisit => exact ⟨[], .inl hvisit⟩
    | @operation m hload history depth op =>
      exact ⟨history ++ [(depth, op)], .inr ⟨m, history, depth, op, [], hload, rfl, .refl⟩⟩
    | call _ hcalls ih =>
      obtain ⟨history, hvisit | ⟨m, before, depth, op, after, hload, hhistory, hreach⟩⟩ := ih
      · exact ⟨history, .inl (.call hvisit hcalls)⟩
      · exact ⟨history, .inr ⟨m, before, depth, op, after, hload, hhistory, hreach.tail hcalls⟩⟩
  · rintro ⟨history, hvisit | ⟨m, before, depth, op, after, hload, -, hreach⟩⟩
    · exact .loading hvisit
    · induction hreach with
      | refl => exact .operation hload before depth op
      | tail _ hcalls ih => exact .call ih hcalls

/-- However loading ends, only values are bound. -/
theorem onlyValues_load (levels : Nat) (program : Module) :
    (Machine.load levels program).2.env.OnlyValues :=
  (yields_forceAll levels program.items _ (onlyValues_start program.items)).1

/-- Every visit of a run starts from a machine that binds only values. -/
theorem Reached.onlyValues {levels : Nat} {program : Module} {visit : Visit}
    (h : Reached levels program visit) : visit.machine.env.OnlyValues := by
  induction h with
  | loading hvisit => exact hvisit.onlyValues
  | operation hload history depth op =>
    have hm := onlyValues_load levels program
    rw [hload] at hm
    rw [Operation.visit_machine]
    exact Machine.onlyValues_perform hm history
  | call _ hcalls ih => exact hcalls.onlyValues ih

/-- Only values are bound and returned. At every entry to the evaluator, and when it is left again,
every binding of every scope is a value, and what the evaluator gives is one. These entries are
those that are logged in the runs of the evaluator that keeps a log, which does the same besides.
Loading a module, however that ends, and any operations on the loaded machine leave only values
bound. Every result of an operation is a value, so evaluating it again gives it back and changes and
prints nothing. -/
theorem run_binds_only_values (levels : Nat) (program : Module) :
    (∀ visit, Reached levels program visit →
      visit.machine.env.OnlyValues ∧
      ((eval visit.depth visit.expr).run visit.machine).2.env.OnlyValues ∧
      ∀ value, ((eval visit.depth visit.expr).run visit.machine).1 = .ok value →
        value.isValue = true) ∧
    (∀ visit, Reached levels program visit ↔
      ∃ history, visit ∈ (Logging.loadAndPerform levels program history).2.visits) ∧
    (Machine.load levels program).2.env.OnlyValues ∧
    ∀ m, Machine.load levels program = (.ok (), m) → ∀ history : List (Nat × Operation),
      (m.perform history).env.OnlyValues ∧
      (Logging.loadAndPerform levels program history).1 = m.perform history ∧
      ∀ depth op value, ((Operation.step depth op).run (m.perform history)).1 = .ok value →
        value.isValue = true ∧
        ∀ again m', (eval (again + 1) value).run m' = (.ok value, m') := by
  refine ⟨?_, fun visit => reached_iff_logged, onlyValues_load levels program, ?_⟩
  · intro visit hvisit
    have hmachine := hvisit.onlyValues
    exact ⟨hmachine, yields_eval visit.depth visit.expr visit.machine hmachine⟩
  · intro m hload history
    have hm := onlyValues_load levels program
    rw [hload] at hm
    have hperform := Machine.onlyValues_perform hm history
    refine ⟨hperform, loadAndPerform_machine hload history, fun depth op value hvalue => ?_⟩
    have hresult := (op.yields_step depth (m.perform history) hperform).2 value hvalue
    exact ⟨hresult, fun again m' => run_eval_value hresult again m'⟩

/-- Declares a name by a call of a function that is declared behind it. -/
def aheadModule : Module :=
  ⟨"m", [⟨"a", .call "f" [.variable "b"]⟩, ⟨"f", .function (.mk [.bind "x"] (.variable "x")) []⟩,
    ⟨"b", .string "s"⟩]⟩

/-- A call of the function that a program starts with, which is not declared, and then one more
declaration. -/
def aheadHistory : List (Nat × Operation) :=
  [(3, .callEntry), (3, .declare ⟨"c", .call "f" [.variable "a"]⟩)]

/-- A name whose declaration calls a function that was still pending, with an argument that was
pending too, is bound to a string; and so is one that is declared by a call later on, behind an
operation that failed. -/
theorem run_binds_only_values_ahead :
    ∃ m, Machine.load 3 aheadModule = (.ok (), m) ∧
      m.env.root.get? "a" = some (.string "s") ∧
      (m.perform aheadHistory).env.root.get? "c" = some (.string "s") ∧
      (m.perform aheadHistory).env.OnlyValues ∧
      ∀ m', (eval 1 (.string "s")).run m' = (.ok (.string "s"), m') := by
  refine ⟨_, rfl, rfl, rfl, ?_⟩
  obtain ⟨-, -, -, hloaded⟩ := run_binds_only_values 3 aheadModule
  obtain ⟨hvalues, -, hresults⟩ := hloaded _ rfl aheadHistory
  exact ⟨hvalues, (hresults 3 (.lookup "c") (.string "s") rfl).2 0⟩

end QLanguage
