import QLanguage.Proofs.Evaluation.Loading
import QLanguage.Proofs.Evaluation.Values

/-!
# Bindings that nothing reaches

Scoping is dynamic, and functions are passed on as values and called under the names of parameters,
so it is not plain from a module alone which bindings a run can come to. But every expression that
is ever evaluated stands somewhere in the module or in what is asked of it. Where all of these avoid
a name (`Expr.avoids`), so does whatever is bound or pending in the run, apart from that name itself
(`Machine.Avoids`). Two machines that are the same without the name then do the same
(`parallel_alikeBut`), and a declaration of the name changes nothing but its own entry.

A call of the built-in function does not look its name up, so `print` is avoided by calls.
-/

namespace QLanguage

open Step Eval

/-! ## Expressions that avoid a name -/

mutual

/-- Whether evaluating an expression never looks a name up: no variable in it has the name, and no
call has it unless it is the name of the built-in function. -/
def Expr.avoids (n : String) : Expr → Bool
  | .string _ => true
  | .variable name => name != n
  | .call name args => (n == printName || name != n) && Expr.allAvoid n args
  | .function first others => first.avoids n && Clause.allAvoid n others

/-- Whether none of some expressions looks a name up. -/
def Expr.allAvoid (n : String) : List Expr → Bool
  | [] => true
  | e :: es => e.avoids n && Expr.allAvoid n es

/-- Whether the body of a clause never looks a name up. -/
def Clause.avoids (n : String) : Clause → Bool
  | .mk _ body => body.avoids n

/-- Whether the body of none of some clauses looks a name up. -/
def Clause.allAvoid (n : String) : List Clause → Bool
  | [] => true
  | c :: cs => c.avoids n && Clause.allAvoid n cs

end

/-- Some expressions avoid a name when each of them does. -/
theorem Expr.allAvoid_iff {n : String} {es : List Expr} :
    Expr.allAvoid n es = true ↔ ∀ e ∈ es, e.avoids n = true := by
  induction es with
  | nil => simp [Expr.allAvoid]
  | cons e es ih => simp [Expr.allAvoid, ih]

/-- Some clauses avoid a name when each of their bodies does. -/
theorem Clause.allAvoid_iff {n : String} {cs : List Clause} :
    Clause.allAvoid n cs = true ↔ ∀ c ∈ cs, c.body.avoids n = true := by
  induction cs with
  | nil => simp [Clause.allAvoid]
  | cons c cs ih =>
    obtain ⟨patterns, body⟩ := c
    simp [Clause.allAvoid, Clause.avoids, Clause.body, ih]

/-- Whether an operation never looks a name up. -/
def Operation.avoids (n : String) : Operation → Bool
  | .callEntry => true
  | .eval e => e.avoids n
  | .lookup name => name != n
  | .declare d => d.value.avoids n

/-! ## Machines without a name -/

namespace Table

variable {α : Type} {name other : String}

/-- What a name was set to goes with it. -/
theorem erase_set_self (table : Table α) (name : String) (value : α) :
    (table.set name value).erase name = table.erase name := by
  obtain ⟨entries⟩ := table
  induction entries with
  | nil => simp [set, setEntries, erase]
  | cons entry more ih =>
    simp only [set, erase] at ih ⊢
    by_cases hname : entry.1 = name
    · simp [setEntries, hname]
    · simpa [setEntries, hname] using ih

/-- Another name may as well be set afterwards. -/
theorem erase_set_of_ne (table : Table α) (h : other ≠ name) (value : α) :
    (table.set other value).erase name = (table.erase name).set other value := by
  obtain ⟨entries⟩ := table
  induction entries with
  | nil => simp [set, setEntries, erase, h]
  | cons entry more ih =>
    simp only [set, erase, Table.mk.injEq] at ih ⊢
    by_cases hother : entry.1 = other
    · simp [setEntries, hother, h]
    · rw [setEntries, if_neg hother]
      by_cases hname : entry.1 = name
      · rw [List.filter_cons_of_neg (by simpa using hname),
          List.filter_cons_of_neg (by simpa using hname), ih]
      · rw [List.filter_cons_of_pos (by simpa using hname),
          List.filter_cons_of_pos (by simpa using hname), setEntries, if_neg hother, ih]

/-- Of the names that are set, one may as well be left out as taken out. -/
theorem erase_setAll (table : Table α) (entries : List (String × α)) (name : String) :
    (table.setAll entries).erase name =
      (table.erase name).setAll (entries.filter fun entry => entry.1 ≠ name) := by
  induction entries generalizing table with
  | nil => rfl
  | cons entry more ih =>
    have hcons : table.setAll (entry :: more) = (table.set entry.1 entry.2).setAll more := rfl
    rw [hcons, ih]
    by_cases hname : entry.1 = name
    · rw [hname, erase_set_self, List.filter_cons_of_neg (by simpa using hname)]
    · rw [erase_set_of_ne table hname, List.filter_cons_of_pos (by simpa using hname)]
      rfl

/-- Names may be taken out in any order. -/
theorem erase_comm (table : Table α) (name other : String) :
    (table.erase name).erase other = (table.erase other).erase name := by
  simp [erase, List.filter_filter, Bool.and_comm]

end Table

/-- The environment with no binding of a name. -/
def Environment.without (n : String) (env : Environment) : Environment :=
  ⟨env.root.erase n, env.inner.map (·.erase n)⟩

/-- The machine with no binding and no declaration of a name. -/
def Machine.without (n : String) (m : Machine) : Machine :=
  { m with env := m.env.without n, pending := m.pending.erase n }

/-- Whatever is bound or pending avoids a name. -/
def Machine.Avoids (n : String) (m : Machine) : Prop :=
  m.env.All (fun e => e.avoids n = true) ∧ m.pending.All fun e => e.avoids n = true

/-- The other names are looked up as before. -/
theorem Environment.lookup?_without {n name : String} (h : name ≠ n) (env : Environment) :
    (env.without n).lookup? name = env.lookup? name := by
  have hget : ∀ scope : Scope, (scope.erase n).get? name = scope.get? name := fun scope => by
    rw [Table.get?_erase, if_neg h]
  rw [lookup?, lookup?, without, List.findSome?_map, hget]
  exact congrArg (Option.or · _) (congrArg (List.findSome? · env.inner) (funext hget))

namespace Machine

variable {n name : String} {m : Machine}

/-- A scope that is opened lacks the name as well. -/
theorem without_entered (n : String) (m : Machine) (bindings : List (String × Expr)) :
    (m.entered bindings).without n =
      (m.without n).entered (bindings.filter fun entry => entry.1 ≠ n) := by
  have hscope := Table.erase_setAll (Table.empty : Scope) bindings n
  simp only [without, entered, Environment.without, Environment.enter, List.map_cons, hscope]
  rfl

/-- A scope that is closed is closed without the name as well. -/
theorem without_left (n : String) (m : Machine) : m.left.without n = (m.without n).left := by
  simp [without, left, Environment.without, Environment.leave]

/-- Another name may be bound in the root before or afterwards. -/
theorem without_defined_of_ne (h : name ≠ n) (m : Machine) (value : Expr) :
    (m.defined name value).without n = (m.without n).defined name value := by
  simp only [without, defined, Environment.without, Environment.define,
    Table.erase_set_of_ne _ h]

/-- A name that is bound in the root is not there without it. -/
theorem without_defined_self (n : String) (m : Machine) (value : Expr) :
    (m.defined n value).without n = m.without n := by
  simp only [without, defined, Environment.without, Environment.define, Table.erase_set_self]

/-- The pending declaration of another name may be bound before or afterwards. -/
theorem without_bound_of_ne (h : name ≠ n) (m : Machine) (value : Expr) :
    (m.bound name value).without n = (m.without n).bound name value := by
  simp only [without, bound, Environment.without, Environment.define, Table.erase_set_of_ne _ h,
    Table.erase_comm _ name n]

/-- When the declaration of a name is bound, nothing has changed but for the name. -/
theorem without_bound_self (n : String) (m : Machine) (value : Expr) :
    (m.bound n value).without n = m.without n := by
  have herase : (m.pending.erase n).erase n = m.pending.erase n := by
    simp [Table.erase, List.filter_filter]
  simp only [without, bound, Environment.without, Environment.define, Table.erase_set_self, herase]

/-- The machine of some declarations lacks a name when they do. -/
theorem without_start (n : String) (items : List Declaration) :
    (Machine.start items).without n = Machine.start (items.filter fun d => d.name ≠ n) := by
  have hfilter : (items.map fun d => (d.name, d.value)).filter (fun entry => entry.1 ≠ n) =
      (items.filter fun d => d.name ≠ n).map fun d => (d.name, d.value) := List.filter_map
  simp only [Machine.without, Machine.start, Table.erase_setAll, hfilter]
  rfl

end Machine

/-! ## Machines that differ in a name -/

/-- Two machines are the same without a name, which nothing else in them looks up; and the first has
a certain declaration of it pending, or none. -/
structure AlikeBut (n : String) (held : Option Expr) (m m' : Machine) : Prop where
  /-- They are the same without the name. -/
  same : m'.without n = m.without n
  /-- Nothing else looks the name up. -/
  avoids : (m.without n).Avoids n
  /-- The declaration of the name that is pending. -/
  held : m.pending.get? n = held

/-- Machines that differ in a name evaluate expressions that avoid it side by side. -/
theorem parallel_alikeBut (n : String) (held : Option Expr) :
    Parallel (fun e => e.avoids n = true) (· ≠ n) (fun _ => True) (AlikeBut n held) where
  tooDeep := trivial
  undefined _ := trivial
  cyclic _ := trivial
  notFunction _ _ := trivial
  noClause _ := trivial
  done := rfl
  ofVariable h := by simpa [Expr.avoids] using h
  ofCall h hprint := by
    simp only [Expr.avoids, Bool.and_eq_true, Bool.or_eq_true, beq_iff_eq, bne_iff_ne] at h
    rcases h.1 with rfl | hne
    · exact hprint
    · exact hne
  args h := by
    simp only [Expr.avoids, Bool.and_eq_true] at h
    exact Expr.allAvoid_iff.1 h.2
  body {first others} h := by
    have hall : Clause.allAvoid n (first :: others) = true := h
    exact Clause.allAvoid_iff.1 hall
  evaluating {m m'} h := by
    have hsame : (m'.without n).evaluating = (m.without n).evaluating := by rw [h.same]
    exact hsame
  lookup {m m' name} h hname := by
    have henv : m'.env.without n = m.env.without n := congrArg Machine.env h.same
    rw [← m'.env.lookup?_without hname, henv, m.env.lookup?_without hname]
  ofLookup {m m' name value} h hname hlookup := by
    rw [← m.env.lookup?_without hname] at hlookup
    exact h.avoids.1.lookup? hlookup
  pending {m m' name} h hname := by
    have hpending : m'.pending.erase n = m.pending.erase n := congrArg Machine.pending h.same
    have hget := congrArg (Table.get? · name) hpending
    simpa [Table.get?_erase, hname] using hget
  ofPending {m m' name expr} h hname hpending := by
    have hget : (m.pending.erase n).get? name = some expr := by
      rw [Table.get?_erase, if_neg hname, hpending]
    exact h.avoids.2.get? hget
  begun h _ := ⟨congrArg (Machine.begun · _) h.same, h.avoids, h.held⟩
  ended h _ := ⟨congrArg (Machine.ended · _) h.same, h.avoids, h.held⟩
  bound {m m' name value} h hname hvalue := by
    refine ⟨?_, ?_, ?_⟩
    · rw [m.without_bound_of_ne hname, m'.without_bound_of_ne hname, h.same]
    · rw [m.without_bound_of_ne hname]
      exact ⟨h.avoids.1.define name hvalue, h.avoids.2.erase name⟩
    · rw [← h.held]
      exact (Table.get?_erase ..).trans (if_neg (Ne.symm hname))
  defined {m m' name value} h hvalue := by
    by_cases hname : name = n
    · subst hname
      refine ⟨?_, ?_, h.held⟩
      · rw [m.without_defined_self, m'.without_defined_self, h.same]
      · rw [m.without_defined_self]
        exact h.avoids
    · refine ⟨?_, ?_, h.held⟩
      · rw [m.without_defined_of_ne hname, m'.without_defined_of_ne hname, h.same]
      · rw [m.without_defined_of_ne hname]
        exact ⟨h.avoids.1.define name hvalue, h.avoids.2⟩
  entered {m m' bindings} h hbindings := by
    refine ⟨?_, ?_, h.held⟩
    · rw [m.without_entered, m'.without_entered, h.same]
    · rw [m.without_entered]
      refine ⟨h.avoids.1.enter fun entry hentry => ?_, h.avoids.2⟩
      exact hbindings entry (List.mem_filter.1 hentry).1
  left {m m'} h := by
    refine ⟨?_, ?_, h.held⟩
    · rw [m.without_left, m'.without_left, h.same]
    · rw [m.without_left]
      exact ⟨h.avoids.1.leave, h.avoids.2⟩
  printed h _ := ⟨congrArg (Machine.printed · _) h.same, h.avoids, h.held⟩

/-! ## Loading -/

/-- Declarations in a row are evaluated in two parts. -/
theorem Eval.forceAll_append (depth : Nat) (items more : List Declaration) :
    forceAll depth (items ++ more) = forceAll depth items >>= fun _ => forceAll depth more := by
  induction items with
  | nil => rfl
  | cons d ds ih =>
    refine Step.ext fun m => ?_
    rw [List.cons_append]
    rcases hpending : m.pending.get? d.name with _ | expr
    · rw [run_forceAll_done hpending, ih, run_bind, run_bind, run_forceAll_done hpending]
    · rw [run_forceAll_pending hpending, ih, run_bind (forceAll depth (d :: ds)),
        run_forceAll_pending hpending, ← run_bind, bind_assoc]

section

variable {n : String} {v : Expr} {before after : List Declaration}

/-- Before loading, two modules that differ in the declaration of a name give machines that differ
in that name. -/
theorem alikeBut_start (hdeclared : ∀ d ∈ before ++ after, d.name ≠ n)
    (havoids : ∀ d ∈ before ++ after, d.value.avoids n = true) :
    AlikeBut n (some v) (Machine.start (before ++ ⟨n, v⟩ :: after))
      (Machine.start (before ++ after)) := by
  have hbare : (before ++ after).filter (fun d => d.name ≠ n) = before ++ after :=
    List.filter_eq_self.2 fun d hd => by simpa using hdeclared d hd
  have hextended : (before ++ ⟨n, v⟩ :: after).filter (fun d => d.name ≠ n) = before ++ after := by
    rw [List.filter_append, List.filter_cons_of_neg (by simp), ← List.filter_append, hbare]
  refine ⟨?_, ?_, ?_⟩
  · rw [Machine.without_start, Machine.without_start, hbare, hextended]
  · rw [Machine.without_start, hextended]
    refine ⟨?_, Table.all_empty.setAll fun entry hentry => ?_⟩
    · exact Environment.all_iff.2 ⟨Table.all_empty, fun _ hscope => absurd hscope List.not_mem_nil⟩
    · obtain ⟨d, hd, rfl⟩ := List.mem_map.1 hentry
      exact havoids d hd
  · refine pending_start_of_last (d := ⟨n, v⟩) fun hmem => ?_
    obtain ⟨d, hd, hname⟩ := List.mem_map.1 hmem
    exact hdeclared d (List.mem_append_right before hd) hname

/-- In its turn the declaration of a name is bound to its value, and nothing else happens. -/
theorem run_forceAll_value (hv : v.isValue = true) {m : Machine}
    (hheld : m.pending.get? n = some v) (hidle : n ∉ m.evaluating) (levels : Nat) :
    (forceAll (levels + 1) (⟨n, v⟩ :: after)).run m =
      (forceAll (levels + 1) after).run (m.bound n v) := by
  have hforce : (force (eval (levels + 1)) n v).run m = (.ok v, m.bound n v) := by
    rw [run_force hidle, run_eval_value hv]
    simp [Machine.begun, Machine.ended]
  rw [run_forceAll_pending hheld, run_bind_ok hforce]

/-- A declaration of a name that nothing reaches leaves loading as it is, up to the name. -/
theorem alikeBut_load (hv : v.isValue = true) (hdeclared : ∀ d ∈ before ++ after, d.name ≠ n)
    (havoids : ∀ d ∈ before ++ after, d.value.avoids n = true) (name : String) (levels : Nat) :
    let extended := Machine.load (levels + 1) ⟨name, before ++ ⟨n, v⟩ :: after⟩
    let bare := Machine.load (levels + 1) ⟨name, before ++ after⟩
    bare.1 = extended.1 ∧ ∃ held, AlikeBut n held extended.2 bare.2 := by
  obtain ⟨hbefore, hafter⟩ := List.forall_mem_append.1 hdeclared
  have hstart : AlikeBut n (some v) _ _ := alikeBut_start hdeclared havoids
  have hgrows := grows_forceAll (levels + 1) before
    (Machine.apart_start (before ++ ⟨n, v⟩ :: after))
  obtain ⟨hend, hmid⟩ := (parallel_alikeBut n (some v)).forceAll (levels + 1) hbefore _ _ hstart
  dsimp only [Machine.load]
  rw [forceAll_append, forceAll_append]
  rcases hrun : (forceAll (levels + 1) before).run (Machine.start (before ++ ⟨n, v⟩ :: after)) with
    ⟨end_, mid⟩
  rcases hrun' : (forceAll (levels + 1) before).run (Machine.start (before ++ after)) with
    ⟨end_', mid'⟩
  rw [hrun, hrun'] at hend hmid
  rw [hrun] at hgrows
  cases hend with
  | error hhalt =>
    rw [run_bind_error hrun, run_bind_error hrun', hhalt.1]
    exact ⟨rfl, some v, hmid⟩
  | ok hunit =>
    obtain ⟨_, hgrows⟩ := hgrows
    have hidle : n ∉ mid.evaluating := by
      rw [hgrows.evaluating]
      exact List.not_mem_nil
    rw [run_bind_ok hrun, run_bind_ok hrun', run_forceAll_value hv hmid.held hidle]
    -- The name is bound in its turn, and from here on no declaration of it is pending.
    have hbound : AlikeBut n none (mid.bound n v) mid' := by
      refine ⟨?_, ?_, ?_⟩
      · rw [mid.without_bound_self, hmid.same]
      · rw [mid.without_bound_self]
        exact hmid.avoids
      · exact (Table.get?_erase ..).trans (if_pos rfl)
    obtain ⟨hlast, halike⟩ := (parallel_alikeBut n none).forceAll (levels + 1) hafter _ _ hbound
    exact ⟨hlast.eq, none, halike⟩

end

/-! ## Operations -/

/-- What an operation evaluates avoids a name that the operation avoids, and that is not the name of
the function that a program starts with. -/
theorem Operation.uses_of_avoids {n : String} (hentry : n ≠ entryName) {op : Operation}
    (h : op.avoids n = true) : op.Uses (fun e => e.avoids n = true) (· ≠ n) := by
  cases op with
  | callEntry =>
    have hne : entryName ≠ n := Ne.symm hentry
    simp [Operation.Uses, Expr.avoids, Expr.allAvoid, hne]
  | eval e => exact h
  | lookup name => exact bne_iff_ne.1 h
  | declare d => exact h

/-- A binding that nothing reaches changes nothing. Let a module not declare a name, other than that
of the function that a program starts with, and avoid it, and let the name be declared as a value in
any place among the others. Then loading gives the same value or halts for the same reason, and the
machine is the same up to the name; and so it is after any operations that avoid the name, and these
give the same values or halt for the same reasons. As for the name of the built-in function, a call
of it is the built-in function whatever a machine binds, and bindings of it in any scope make no
difference to expressions that do not use the name as a variable. -/
theorem unreachable_binding_changes_nothing (before after : List Declaration) (n : String)
    (v : Expr) (hv : v.isValue = true) (hentry : n ≠ entryName)
    (hdeclared : ∀ d ∈ before ++ after, d.name ≠ n)
    (havoids : ∀ d ∈ before ++ after, d.value.avoids n = true) (name : String) (levels : Nat) :
    let extended := Machine.load (levels + 1) ⟨name, before ++ ⟨n, v⟩ :: after⟩
    let bare := Machine.load (levels + 1) ⟨name, before ++ after⟩
    (extended.1 = bare.1 ∧ extended.2.without n = bare.2.without n ∧
      ∀ history : List (Nat × Operation), (∀ past ∈ history, past.2.avoids n = true) →
        (extended.2.perform history).without n = (bare.2.perform history).without n ∧
        ∀ depth op, Operation.avoids n op = true →
          ((op.step depth).run (extended.2.perform history)).1 =
            ((op.step depth).run (bare.2.perform history)).1) ∧
    (∀ depth args, eval (depth + 1) (.call printName args) = Eval.print (eval depth) args) ∧
    ∀ m : Machine, (m.without printName).Avoids printName →
      ∀ depth e, Expr.avoids printName e = true →
        ((eval depth e).run m).1 = ((eval depth e).run (m.without printName)).1 ∧
        ((eval depth e).run m).2.without printName =
          ((eval depth e).run (m.without printName)).2.without printName := by
  intro extended bare
  obtain ⟨hend, held, halike⟩ := alikeBut_load hv hdeclared havoids name levels
  refine ⟨⟨hend.symm, halike.same.symm, fun history hhistory => ?_⟩, eval_print, ?_⟩
  · have hlater : AlikeBut n held (extended.2.perform history) (bare.2.perform history) :=
      (parallel_alikeBut n held).perform
        (fun past hpast => Operation.uses_of_avoids hentry (hhistory past hpast)) halike
    refine ⟨hlater.same.symm, fun depth op hop => ?_⟩
    have hstep := (parallel_alikeBut n held).step depth (Operation.uses_of_avoids hentry hop)
    exact (hstep _ _ hlater).1.eq.symm
  · intro m hm depth e he
    have hself : (m.without printName).without printName = m.without printName := by
      simp [Machine.without, Environment.without, Table.erase, List.filter_filter]
    have hrun := (parallel_alikeBut printName (m.pending.get? printName)).eval depth he m
      (m.without printName) ⟨hself, hm, rfl⟩
    exact ⟨hrun.1.eq.symm, hrun.2.same.symm⟩

/-- A function with a parameter that has the name of the built-in function, which it calls. -/
def tellDeclaration : Declaration :=
  ⟨"tell", .function (.mk [.bind "print"] (.call "print" [.string "told"])) []⟩

/-- A program that calls this function. -/
def tellingEntry : Declaration :=
  ⟨"main", .function (.mk [.bind "x"] (.call "tell" [.variable "x"])) []⟩

/-- A function in the place of the built-in one is bound in the root, and yet the call inside
`tell` prints. -/
theorem unreachable_binding_changes_nothing_print :
    let shadow : Expr := .function (.mk [.bind "x"] (.string "shadowed")) []
    let extended := Machine.load 9 ⟨"m", [tellDeclaration] ++ ⟨"print", shadow⟩ :: [tellingEntry]⟩
    let bare := Machine.load 9 ⟨"m", [tellDeclaration] ++ [tellingEntry]⟩
    extended.2.env.root.get? "print" = some shadow ∧
      (Operation.callEntry.step 9).run extended.2 =
        (.ok (.string "ok"), extended.2.printed "[LiteralString(value='told')]\n") ∧
      ((Operation.callEntry.step 9).run extended.2).1 =
        ((Operation.callEntry.step 9).run bare.2).1 ∧
      (extended.2.perform [(9, .callEntry)]).without "print" =
        (bare.2.perform [(9, .callEntry)]).without "print" := by
  intro shadow extended bare
  obtain ⟨⟨-, -, hlater⟩, -⟩ := unreachable_binding_changes_nothing [tellDeclaration]
    [tellingEntry] "print" shadow rfl (by decide) (by decide) (by decide) "m" 8
  refine ⟨by decide +kernel, by decide +kernel, ?_, ?_⟩
  · exact (hlater [] (by decide)).2 9 .callEntry rfl
  · exact (hlater [(9, .callEntry)] (by decide)).1

end QLanguage
