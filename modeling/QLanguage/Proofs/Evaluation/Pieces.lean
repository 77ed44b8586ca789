import QLanguage.Proofs.Evaluation.Loading

/-!
# Loading at once and in pieces

A module may be loaded at once, with all of its declarations pending from the start, or its
declarations may be evaluated one after another on a machine where nothing is ever pending. When the
second way succeeds the first one does the same: every name that an expression looks up is bound by
then, so nobody sees that others are pending (`Overlooks`), and each declaration is evaluated in its
own turn. The converse fails, as a declaration may refer to a later one only where that is pending.
-/

namespace QLanguage

open Step Eval

/-! ## What is not seen -/

/-- The machine with some declarations pending and some being evaluated. -/
def Machine.awaiting (pending : Table Expr) (evaluating : List String) (m : Machine) : Machine :=
  { m with pending := pending, evaluating := evaluating }

/-- A result that the step gives where nothing is pending comes about in the same way where some
declarations are. -/
def Overlooks {α : Type} (pending : Table Expr) (evaluating : List String) (step : Eval α) : Prop :=
  ∀ (m m' : Machine) (a : α), m.pending = .empty → step.run m = (.ok a, m') →
    m'.pending = .empty ∧
      step.run (m.awaiting pending evaluating) = (.ok a, m'.awaiting pending evaluating)

section Overlooks

variable {α β : Type} {pending : Table Expr} {evaluating : List String}

/-- A step of its result alone looks at nothing. -/
theorem Overlooks.pure (a : α) : Overlooks pending evaluating (Pure.pure a : Eval α) := by
  intro m m' b hm h
  cases h
  exact ⟨hm, rfl⟩

/-- An error is no result. -/
theorem Overlooks.throw (halt : Halt) : Overlooks pending evaluating (throw halt : Eval α) := by
  intro m m' a hm h
  cases h

/-- Steps in a row overlook what each of them does. -/
theorem Overlooks.bind {step : Eval α} {next : α → Eval β}
    (hstep : Overlooks pending evaluating step)
    (hnext : ∀ a, Overlooks pending evaluating (next a)) :
    Overlooks pending evaluating (step >>= next) := by
  intro m m' b hm h
  obtain ⟨a, mid, hfirst, hsecond⟩ := run_bind_eq_ok_iff.1 h
  obtain ⟨hmid, hfirst'⟩ := hstep m mid a hm hfirst
  obtain ⟨hlast, hsecond'⟩ := hnext a mid m' b hmid hsecond
  refine ⟨hlast, ?_⟩
  rw [run_bind_ok hfirst', hsecond']

/-! ## The parts of an evaluation -/

/-- A name that has a value where nothing is pending is bound. -/
theorem overlooks_resolve (ev : Expr → Eval Expr) (name : String) :
    Overlooks pending evaluating (resolve ev name) := by
  intro m m' value hm h
  rcases hlookup : m.env.lookup? name with _ | found
  · have hnone : m.pending.get? name = none := by
      rw [hm]
      rfl
    rw [run_resolve_undefined hlookup hnone] at h
    cases h
  · rw [run_resolve_bound hlookup] at h
    cases h
    exact ⟨hm, run_resolve_bound (m := m.awaiting pending evaluating) hlookup⟩

variable {ev : Expr → Eval Expr} (hev : ∀ e, Overlooks pending evaluating (ev e))

include hev

/-- Expressions in a row overlook what each of them does. -/
theorem overlooks_all (args : List Expr) : Overlooks pending evaluating (all ev args) := by
  induction args with
  | nil => exact .pure []
  | cons e es ih => exact (hev e).bind fun value => ih.bind fun more => .pure (value :: more)

/-- Printing looks at no declaration. -/
theorem overlooks_print (args : List Expr) : Overlooks pending evaluating (print ev args) := by
  refine (overlooks_all hev args).bind fun values => ?_
  intro m m' value hm h
  cases h
  exact ⟨hm, rfl⟩

/-- A scope around a step makes no difference. -/
theorem overlooks_inScope (bindings : List (String × Expr)) (body : Expr) :
    Overlooks pending evaluating (inScope bindings (ev body)) := by
  intro m m' value hm h
  rw [run_inScope] at h
  rcases hrun : (ev body).run (m.entered bindings) with ⟨halt | found, last⟩ <;> rw [hrun] at h <;>
    cases h
  obtain ⟨hlast, hrun'⟩ := hev body (m.entered bindings) last value hm hrun
  refine ⟨hlast, ?_⟩
  have hentered : (m.awaiting pending evaluating).entered bindings =
      (m.entered bindings).awaiting pending evaluating := rfl
  rw [run_inScope, hentered, hrun']
  rfl

/-- A function overlooks what its arguments and its bodies do. -/
theorem overlooks_apply (name : String) (args : List Expr) (callee : Expr) :
    Overlooks pending evaluating (apply ev name args callee) := by
  cases callee with
  | function first others =>
    refine (overlooks_all hev args).bind fun values => ?_
    rw [dispatch]
    rcases selectClause? (first :: others) values with _ | ⟨bindings, body⟩
    · exact .throw _
    · exact overlooks_inScope hev bindings body
  | _ => exact .throw _

end Overlooks

/-- An expression that has a value where nothing is pending does not see what is. -/
theorem overlooks_eval (pending : Table Expr) (evaluating : List String) (depth : Nat) (e : Expr) :
    Overlooks pending evaluating (eval depth e) := by
  induction depth generalizing e with
  | zero => exact .throw _
  | succ depth ih =>
    cases e with
    | string text => exact .pure _
    | function first others => exact .pure _
    | «variable» name => exact overlooks_resolve _ name
    | call name args =>
      by_cases hname : name = printName
      · rw [hname, eval_print]
        exact overlooks_print ih args
      · rw [eval_call depth hname]
        exact (overlooks_resolve _ name).bind fun callee => overlooks_apply ih name args callee

/-! ## Declarations one after another -/

/-- A declaration that can be evaluated where nothing is pending is evaluated in the same way when
it is pending itself, among others. -/
theorem run_force_of_declare {depth : Nat} {d : Declaration} {value : Expr} {m m' : Machine}
    (hm : m.pending = .empty) (h : (declare depth d).run m = (.ok value, m'))
    (pending : Table Expr) :
    m'.pending = .empty ∧ m'.evaluating = m.evaluating ∧
      (force (eval depth) d.name d.value).run (m.awaiting pending []) =
        (.ok value, m'.awaiting (pending.erase d.name) []) := by
  obtain ⟨found, mid, heval, hbound⟩ := run_bind_eq_ok_iff.1 h
  obtain ⟨rfl, rfl⟩ : found = value ∧ { mid with env := mid.env.define d.name found } = m' := by
    cases hbound
    exact ⟨rfl, rfl⟩
  -- The declaration itself is marked meanwhile, and nobody sees that either.
  obtain ⟨hmid, hmarked⟩ := overlooks_eval pending [d.name] depth d.value m mid found hm heval
  have hgrows := grows_eval depth d.value m
  rw [heval] at hgrows
  have hevaluating := (hgrows.unchanged hm).2.2
  refine ⟨hmid, hevaluating, run_force_eq_ok_iff.2 ⟨List.not_mem_nil, _, hmarked, ?_⟩⟩
  have herase : [d.name].erase d.name = [] := List.erase_cons_head d.name []
  simp only [Machine.ended, Machine.bound, Machine.awaiting, herase]

/-- Declarations that can be evaluated one after another where nothing is pending are evaluated in
the same way when they are pending themselves, and no others are. -/
theorem run_forceAll_of_declareAll {depth : Nat} {items : List Declaration} {m m' : Machine}
    {pending : Table Expr} (hnodup : (items.map Declaration.name).Nodup)
    (hdeclared : ∀ d ∈ items, pending.get? d.name = some d.value)
    (hothers : ∀ name, name ∉ items.map Declaration.name → pending.get? name = none)
    (hm : m.pending = .empty) (h : (declareAll depth items).run m = (.ok (), m')) :
    m'.pending = .empty ∧ m'.evaluating = m.evaluating ∧
      (forceAll depth items).run (m.awaiting pending []) = (.ok (), m'.awaiting .empty []) := by
  induction items generalizing m pending with
  | nil =>
    cases h
    have hempty : pending = .empty :=
      Table.eq_empty_of_get?_eq_none fun name => hothers name List.not_mem_nil
    rw [hempty]
    exact ⟨hm, rfl, rfl⟩
  | cons d ds ih =>
    obtain ⟨value, mid, hdeclare, hmore⟩ := run_bind_eq_ok_iff.1 h
    obtain ⟨hmid, hmarks, hforce⟩ := run_force_of_declare hm hdeclare pending
    rw [List.map_cons, List.nodup_cons] at hnodup
    -- What is pending for the others is not touched by the first one.
    have hdeclared' : ∀ other ∈ ds, (pending.erase d.name).get? other.name = some other.value := by
      intro other hother
      have hne : other.name ≠ d.name := fun heq => hnodup.1 (heq ▸ List.mem_map_of_mem hother)
      rw [Table.get?_erase, if_neg hne]
      exact hdeclared other (List.mem_cons_of_mem d hother)
    have hothers' : ∀ name, name ∉ ds.map Declaration.name →
        (pending.erase d.name).get? name = none := by
      intro name hname
      rw [Table.get?_erase]
      by_cases hfirst : name = d.name
      · rw [if_pos hfirst]
      · rw [if_neg hfirst]
        exact hothers name (by simp [hfirst, hname])
    obtain ⟨hlast, hmarks', hrest⟩ := ih hnodup.2 hdeclared' hothers' hmid hmore
    refine ⟨hlast, hmarks'.trans hmarks, ?_⟩
    have hfirst : (m.awaiting pending []).pending.get? d.name = some d.value :=
      hdeclared d List.mem_cons_self
    rw [run_forceAll_pending hfirst, run_bind_ok hforce, hrest]

/-- A module whose declarations have different names, and can be evaluated one after another from
the machine of a module without declarations, can be loaded at once, and that leads to the same
machine: the same names are bound to the same values in the same order, and the same is printed. -/
theorem load_eq_of_declareAll {depth : Nat} {name : String} {program : Module} {m : Machine}
    (hnodup : (program.items.map Declaration.name).Nodup)
    (h : (declareAll depth program.items).run (Machine.load depth ⟨name, []⟩).2 = (.ok (), m)) :
    Machine.load depth program = (.ok (), m) := by
  have hempty : (Machine.load depth ⟨name, []⟩).2 = Machine.empty := rfl
  rw [hempty] at h
  have hdeclared : ∀ d ∈ program.items,
      (Machine.start program.items).pending.get? d.name = some d.value :=
    fun d hd => pending_start_of_nodup hnodup hd
  have hothers : ∀ other, other ∉ program.items.map Declaration.name →
      (Machine.start program.items).pending.get? other = none := by
    intro other hother
    refine Classical.byContradiction fun hsome => hother ?_
    exact List.mem_map.2 (pending_start_ne_none_iff.1 hsome)
  obtain ⟨hpending, hevaluating, hrun⟩ :=
    run_forceAll_of_declareAll hnodup hdeclared hothers rfl h
  -- On the machine that is left nothing is pending, whichever way it came about.
  have hlast : m.awaiting .empty [] = m := by
    unfold Machine.awaiting
    rw [← hpending]
    have hnone : m.evaluating = [] := hevaluating
    rw [← hnone]
  rw [hlast] at hrun
  exact hrun

/-- Prints when it is called, and is called by another declaration. -/
def announcingModule : Module :=
  ⟨"m", [⟨"f", .function (.mk [.bind "x"] (.call "print" [.variable "x"])) []⟩,
    ⟨"a", .string "s"⟩, ⟨"b", .call "f" [.variable "a"]⟩]⟩

/-- A module that prints while it is loaded prints the same line and binds the same names, in the
order of their declarations. -/
theorem load_eq_of_declareAll_announcing :
    ∃ m, (declareAll 4 announcingModule.items).run (Machine.load 4 ⟨"m", []⟩).2 =
        (.ok (), m) ∧
      Machine.load 4 announcingModule = (.ok (), m) ∧
      m.env.root.names = ["f", "a", "b"] ∧ m.output = "[LiteralString(value='s')]\n" := by
  have hdeclared : (declareAll 4 announcingModule.items).run (Machine.load 4 ⟨"m", []⟩).2 =
      (.ok (), ((declareAll 4 announcingModule.items).run Machine.empty).2) := rfl
  exact ⟨_, hdeclared, load_eq_of_declareAll (by decide) hdeclared, rfl, by decide⟩

end QLanguage
