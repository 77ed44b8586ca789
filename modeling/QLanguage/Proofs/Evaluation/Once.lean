import Mathlib.Data.List.Dedup
import Mathlib.Data.List.Perm.Subperm
import QLanguage.Proofs.Evaluation.Logged

/-!
# Each declaration is evaluated once

While a module is loaded, every declared name is either bound in the root or still pending, and
what is being evaluated is pending (`Machine.Loading`). So a declaration that is taken up is there
to be taken up, and it is there to be taken out when its value has come. As no name is being
evaluated twice at a time, declarations are nested no deeper in each other than there are names
(`Nested`).

`demandsAll` has just those evaluations of declarations that begin (`Begins`), and is what a loading
that keeps a log notes of them. When loading succeeds nothing is pending, and then each declared
name stands in it once, with the value of its last declaration.
-/

namespace QLanguage

open Step Eval

/-! ## What holds while a module is loaded -/

/-- How the names of some declarations are spread over a machine while these are loaded. -/
structure Machine.Loading (items : List Declaration) (m : Machine) : Prop where
  /-- What is being evaluated is pending. -/
  evaluating : ∀ name ∈ m.evaluating, name ∈ m.pending.names
  /-- Nothing is being evaluated twice at a time. -/
  nodup : m.evaluating.Nodup
  /-- What is bound in the root is not pending. -/
  apart : ∀ name ∈ m.env.root.names, name ∉ m.pending.names
  /-- What is bound in the root or pending are the declared names. -/
  declared : ∀ name, name ∈ m.env.root.names ∨ name ∈ m.pending.names ↔
    name ∈ items.map Declaration.name

namespace Machine

variable {items : List Declaration} {m m' : Machine}

/-- Before loading, all declared names are pending. -/
theorem loading_start (items : List Declaration) : (Machine.start items).Loading items := by
  have hroot : ∀ name, name ∉ (Machine.start items).env.root.names := fun _ => List.not_mem_nil
  refine ⟨fun _ hname => absurd hname List.not_mem_nil, List.nodup_nil,
    fun name hname => absurd hname (hroot name), fun name => ?_⟩
  have hpending : name ∈ (Machine.start items).pending.names ↔
      name ∈ items.map Declaration.name := by
    rw [Table.mem_names_iff, pending_start_ne_none_iff, List.mem_map]
  rw [hpending]
  simp [hroot name]

/-- The names that are pending after growth are those that were pending and have not been bound. -/
theorem GrowsBy.mem_pending_iff {added : List (String × Expr)} (h : m.GrowsBy added m')
    {name : String} :
    name ∈ m'.pending.names ↔ name ∉ added.map Prod.fst ∧ name ∈ m.pending.names := by
  rw [Table.mem_names_iff, Table.mem_names_iff, h.pending]
  by_cases hadded : name ∈ added.map Prod.fst
  · simp [hadded]
  · rw [if_neg hadded]
    exact ⟨fun hname => ⟨hadded, hname⟩, fun hname => hname.2⟩

/-- Growth moves names from what is pending to the root. -/
theorem Loading.grows (hm : m.Loading items) (h : m.Grows m') : m'.Loading items := by
  obtain ⟨added, h⟩ := h
  have hroot : ∀ name, name ∈ m'.env.root.names ↔
      name ∈ m.env.root.names ∨ name ∈ added.map Prod.fst := by
    intro name
    rw [Table.names, h.root, List.map_append, List.mem_append]
    rfl
  have hadded : ∀ name ∈ added.map Prod.fst, name ∈ m.pending.names := fun name hname =>
    Table.mem_names_iff.2 (h.fresh name hname).1
  refine ⟨fun name hname => ?_, ?_, fun name hname => ?_, fun name => ?_⟩
  · -- A name that is being evaluated is not bound meanwhile.
    rw [h.evaluating] at hname
    exact h.mem_pending_iff.2 ⟨fun hmem => (h.fresh name hmem).2.1 hname, hm.evaluating name hname⟩
  · rw [h.evaluating]
    exact hm.nodup
  · rw [h.mem_pending_iff]
    rintro ⟨hnew, hpending⟩
    rcases (hroot name).1 hname with hold | hmem
    · exact hm.apart name hold hpending
    · exact hnew hmem
  · have hdeclared := hm.declared name
    have hmoved := hadded name
    rw [hroot, h.mem_pending_iff]
    by_cases hmem : name ∈ added.map Prod.fst
    · simp only [hmem, or_true, true_or, true_iff]
      exact hdeclared.1 (.inr (hmoved hmem))
    · simp only [hmem, or_false, not_false_eq_true, true_and]
      exact hdeclared

/-- The evaluation of a pending declaration may begin. -/
theorem Loading.begun (hm : m.Loading items) {name : String} (hpending : name ∈ m.pending.names)
    (hfresh : name ∉ m.evaluating) : (m.begun name).Loading items where
  evaluating := List.forall_mem_cons.2 ⟨hpending, hm.evaluating⟩
  nodup := List.nodup_cons.2 ⟨hfresh, hm.nodup⟩
  apart := hm.apart
  declared := hm.declared

/-- Scopes inside the root make no difference. -/
theorem Loading.entered (hm : m.Loading items) (bindings : List (String × Expr)) :
    (m.entered bindings).Loading items :=
  ⟨hm.evaluating, hm.nodup, hm.apart, hm.declared⟩

/-- Declarations in evaluation are no more than the names there are. -/
theorem Loading.length_evaluating_le (hm : m.Loading items) :
    m.evaluating.length ≤ (items.map Declaration.name).dedup.length := by
  have hsubset : m.evaluating ⊆ (items.map Declaration.name).dedup := by
    intro name hname
    have hdeclared := (hm.declared name).1 (.inr (hm.evaluating name hname))
    exact List.mem_dedup.2 hdeclared
  exact (List.subperm_of_subset hm.nodup hsubset).length_le

/-- However an evaluation ends, what was being evaluated before it is pending with the same
expression. -/
theorem Loading.pending_eval (hm : m.Loading items) {name : String} (hname : name ∈ m.evaluating)
    (depth : Nat) (e : Expr) :
    ∃ expr, m.pending.get? name = some expr ∧
      ((eval depth e).run m).2.pending.get? name = some expr := by
  obtain ⟨added, h⟩ := grows_eval depth e m
  have hpending : m.pending.get? name ≠ none := Table.mem_names_iff.1 (hm.evaluating name hname)
  obtain ⟨expr, hexpr⟩ := Option.ne_none_iff_exists'.1 hpending
  have hkept : name ∉ added.map Prod.fst := fun hmem => (h.fresh name hmem).2.1 hname
  refine ⟨expr, hexpr, ?_⟩
  rw [h.pending, if_neg hkept, hexpr]

end Machine

/-! ## Visits and how deep they are nested -/

/-- The name that comes first in an expression is looked up before anything else is done. -/
theorem exists_eval_eq_resolve_bind (depth : Nat) {e : Expr} {name : String}
    (h : e.head? = some name) :
    ∃ next, eval (depth + 1) e = resolve (eval depth) name >>= next := by
  cases e with
  | string _ => cases h
  | function _ _ => cases h
  | «variable» first =>
    cases h
    exact ⟨pure, (bind_pure _).symm⟩
  | call first args =>
    by_cases hfirst : first = printName
    · rw [Expr.head?, if_pos hfirst] at h
      cases h
    · rw [Expr.head?, if_neg hfirst] at h
      cases h
      exact ⟨_, eval_call depth hfirst args⟩

/-- The visits that loading some declarations makes, with the number of declarations whose
evaluations each of them is inside of. -/
inductive Nested (depth : Nat) (items : List Declaration) : Nat → Visit → Prop where
  /-- A declaration that is still pending in its turn is evaluated. -/
  | start {before after : List Declaration} {d : Declaration} {expr : Expr} {m : Machine}
      (hitems : items = before ++ d :: after)
      (hbefore : (forceAll depth before).run (Machine.start items) = (.ok (), m))
      (hpending : m.pending.get? d.name = some expr) :
      Nested depth items 1 ⟨depth, expr, m.begun d.name⟩
  /-- A declaration that a visit demands is evaluated inside of those around the visit. -/
  | demand {nested levels : Nat} {e expr : Expr} {m : Machine} {name : String}
      (hvisit : Nested depth items nested ⟨levels + 1, e, m⟩)
      (hdemand : demand? e m = some (name, expr)) :
      Nested depth items (nested + 1) ⟨levels, expr, m.begun name⟩
  /-- Arguments and bodies are visited where the visit is. -/
  | part {nested levels : Nat} {e : Expr} {m : Machine} {next : Visit}
      (hvisit : Nested depth items nested ⟨levels + 1, e, m⟩) (hpart : next ∈ parts levels e m) :
      Nested depth items nested next

/-- Every visit of a loading is nested in some number of declarations. -/
theorem visited_iff_nested {depth : Nat} {items : List Declaration} {visit : Visit} :
    Visited depth items visit ↔ ∃ nested, Nested depth items nested visit := by
  constructor
  · intro h
    induction h with
    | start hitems hbefore hpending => exact ⟨1, .start hitems hbefore hpending⟩
    | @call visit next _ hcalls ih =>
      obtain ⟨nested, hvisit⟩ := ih
      obtain ⟨levels, e, m⟩ := visit
      obtain rfl : levels = next.depth + 1 := hcalls.depth_eq
      rcases calls_iff.1 hcalls with ⟨name, expr, hdemand, hnext⟩ | hpart
      · rw [hnext]
        exact ⟨nested + 1, .demand hvisit hdemand⟩
      · exact ⟨nested, .part hvisit hpart⟩
  · rintro ⟨nested, h⟩
    induction h with
    | start hitems hbefore hpending => exact .start hitems hbefore hpending
    | demand _ hdemand ih => exact .call ih (calls_iff.2 (.inl ⟨_, _, hdemand, rfl⟩))
    | part _ hpart ih => exact .call ih (calls_iff.2 (.inr hpart))

/-- What growth and scopes keep, a visit passes on to its parts. -/
theorem kept_of_mem_parts {P : Machine → Prop} (hgrows : ∀ {m m'}, P m → m.Grows m' → P m')
    (hentered : ∀ {m} bindings, P m → P (m.entered bindings)) {depth : Nat} {e : Expr}
    {m : Machine} {next : Visit} (hm : P m) (h : next ∈ parts depth e m) : P next.machine := by
  have hrow : ∀ {args m}, P m → next ∈ rowVisits depth args m → P next.machine := by
    intro args m hm hmem
    obtain ⟨before, arg, after, values, mid, -, hbefore, rfl⟩ := mem_rowVisits_iff.1 hmem
    have hall := grows_all depth before m
    rw [hbefore] at hall
    exact hgrows hm hall
  cases e with
  | call name args =>
    rw [parts] at h
    by_cases hname : name = printName
    · rw [if_pos hname] at h
      exact hrow hm h
    · rw [if_neg hname] at h
      have hresolve := grows_resolve depth name m
      rcases hrun : (resolve (eval depth) name).run m with ⟨halt | callee, resolved⟩ <;>
        rw [hrun] at h hresolve
      · exact absurd h List.not_mem_nil
      · have hresolved : P resolved := hgrows hm hresolve
        cases callee with
        | function first others =>
          rcases List.mem_append.1 h with hargs | hbody
          · exact hrow hresolved hargs
          · obtain ⟨values, mid, bindings, body, hargs, -, rfl⟩ := mem_bodyVisits_iff.1 hbody
            have hall := grows_all depth args resolved
            rw [hargs] at hall
            exact hentered bindings (hgrows hresolved hall)
        | _ => exact absurd h List.not_mem_nil
  | _ => exact absurd h List.not_mem_nil

section Nested

variable {depth nested : Nat} {items : List Declaration} {visit : Visit}

/-- Between declarations, declared names are bound or pending. -/
theorem loading_forceAll {before : List Declaration} {m : Machine}
    (h : (forceAll depth before).run (Machine.start items) = (.ok (), m)) : m.Loading items := by
  have hgrows := grows_forceAll depth before (Machine.apart_start items)
  rw [h] at hgrows
  exact (Machine.loading_start items).grows hgrows

/-- Every visit of a loading starts from a machine on which declared names are bound or pending. -/
theorem Nested.loading (h : Nested depth items nested visit) : visit.machine.Loading items := by
  induction h with
  | @start before after d expr m hitems hbefore hpending =>
    have hname : d.name ∈ m.pending.names := Table.mem_names_iff.2 (by rw [hpending]; simp)
    exact (loading_forceAll hbefore).begun hname (not_mem_evaluating_forceAll hbefore d.name)
  | @demand nested levels e expr m name _ hdemand ih =>
    have hasks := (demand?_eq_some_iff (levels + 1)).1 hdemand
    have hname : name ∈ m.pending.names := Table.mem_names_iff.2 (by rw [hasks.pending]; simp)
    exact ih.begun hname hasks.fresh
  | part _ hpart ih =>
    exact kept_of_mem_parts (fun hm h => hm.grows h) (fun bindings hm => hm.entered bindings) ih
      hpart

/-- The declarations that a visit is inside of are those that are being evaluated. -/
theorem Nested.eq_length (h : Nested depth items nested visit) :
    nested = visit.machine.evaluating.length := by
  induction h with
  | start _ hbefore _ =>
    have hnone := evaluating_forceAll hbefore
    simp [Machine.begun, hnone]
  | demand _ _ ih => simpa [Machine.begun] using ih
  | @part nested levels e m next _ hpart ih =>
    have hsame : next.machine.evaluating = m.evaluating := by
      refine kept_of_mem_parts (P := fun n => n.evaluating = m.evaluating) ?_ ?_ rfl hpart
      · rintro n n' hn ⟨added, hgrows⟩
        rw [hgrows.evaluating, hn]
      · exact fun _ hn => hn
    rw [hsame]
    exact ih

end Nested

/-! ## The evaluations of declarations -/

/-- While some declarations are loaded, the evaluation of a declared name by an expression begins:
in the turn of a declaration that is still pending, or where a visit demands it. -/
inductive Begins (depth : Nat) (items : List Declaration) : String → Expr → Prop where
  /-- A declaration that is still pending in its turn is evaluated. -/
  | turn {before after : List Declaration} {d : Declaration} {expr : Expr} {m : Machine}
      (hitems : items = before ++ d :: after)
      (hbefore : (forceAll depth before).run (Machine.start items) = (.ok (), m))
      (hpending : m.pending.get? d.name = some expr) : Begins depth items d.name expr
  /-- A pending declaration is evaluated where its name is first needed. -/
  | demand {levels : Nat} {e expr : Expr} {m : Machine} {name : String}
      (hvisit : Visited depth items ⟨levels + 1, e, m⟩)
      (hdemand : demand? e m = some (name, expr)) : Begins depth items name expr

section Begins

variable {depth : Nat} {items : List Declaration} {entry : String × Expr}

/-- What a visit demands begins. -/
theorem begins_of_mem_demands {visit : Visit} (hvisit : Visited depth items visit)
    (h : entry ∈ demands visit.depth visit.expr visit.machine) :
    Begins depth items entry.1 entry.2 := by
  obtain ⟨levels, e, m⟩ := visit
  induction levels generalizing e m with
  | zero => exact absurd h List.not_mem_nil
  | succ levels ih =>
    rcases mem_demands_iff.1 h with ⟨name, expr, hdemand, rfl | hinner⟩ | ⟨part, hpart, hinner⟩
    · exact .demand hvisit hdemand
    · exact ih _ _ (.call hvisit (calls_iff.2 (.inl ⟨name, expr, hdemand, rfl⟩))) hinner
    · have hcalls : Visit.Calls ⟨levels + 1, e, m⟩ part := calls_iff.2 (.inr hpart)
      obtain ⟨levels', e', m'⟩ := part
      obtain rfl : levels = levels' := Nat.succ.inj hcalls.depth_eq
      exact ih _ _ (.call hvisit hcalls) hinner

/-- What a visit of a loading demands, the loading demands. -/
theorem mem_demandsAll_of_visited {visit : Visit} (hvisit : Visited depth items visit)
    (h : entry ∈ demands visit.depth visit.expr visit.machine) :
    entry ∈ demandsAll depth items (Machine.start items) := by
  induction hvisit with
  | @start before after d expr m hitems hbefore hpending =>
    exact mem_demandsAll_iff.2 ⟨before, d, after, expr, m, hitems, hbefore, hpending,
      not_mem_evaluating_forceAll hbefore d.name, .inr h⟩
  | @call visit next _ hcalls ih =>
    obtain ⟨levels, e, m⟩ := visit
    obtain rfl : levels = next.depth + 1 := hcalls.depth_eq
    refine ih (mem_demands_iff.2 ?_)
    rcases calls_iff.1 hcalls with ⟨name, expr, hdemand, hnext⟩ | hpart
    · rw [hnext] at h
      exact .inl ⟨name, expr, hdemand, .inr h⟩
    · exact .inr ⟨next, hpart, h⟩

/-- The list of a loading has just those evaluations of declarations that begin. -/
theorem mem_demandsAll_start_iff {name : String} {expr : Expr} :
    (name, expr) ∈ demandsAll depth items (Machine.start items) ↔
      Begins depth items name expr := by
  constructor
  · intro h
    obtain ⟨before, d, after, found, m, hitems, hbefore, hpending, -, hentry⟩ :=
      mem_demandsAll_iff.1 h
    rcases hentry with hfirst | hinner
    · cases hfirst
      exact .turn hitems hbefore hpending
    · exact begins_of_mem_demands (.start hitems hbefore hpending) hinner
  · intro h
    cases h with
    | @turn before after d expr m hitems hbefore hpending =>
      exact mem_demandsAll_iff.2 ⟨before, d, after, expr, m, hitems, hbefore, hpending,
        not_mem_evaluating_forceAll hbefore d.name, .inl rfl⟩
    | demand hvisit hdemand =>
      exact mem_demandsAll_of_visited hvisit
        (mem_demands_iff.2 (.inl ⟨name, expr, hdemand, .inl rfl⟩))

end Begins

/-! ## The whole loading -/

/-- The entry of a name in a list where no name stands twice is the only one for it. -/
theorem filter_eq_singleton {ds : List (String × Expr)} (hnodup : (ds.map Prod.fst).Nodup)
    {name : String} {expr : Expr} (h : (name, expr) ∈ ds) :
    ds.filter (fun d => d.1 = name) = [(name, expr)] := by
  obtain ⟨before, after, rfl⟩ := List.append_of_mem h
  rw [List.map_append, List.map_cons, List.nodup_append, List.nodup_cons] at hnodup
  obtain ⟨-, ⟨hafter, -⟩, hbefore⟩ := hnodup
  have hnone : ∀ ds : List (String × Expr), name ∉ ds.map Prod.fst →
      ds.filter (fun d => d.1 = name) = [] := by
    intro ds hds
    refine List.filter_eq_nil_iff.2 fun d hd hname => hds ?_
    exact List.mem_map.2 ⟨d, hd, of_decide_eq_true hname⟩
  have hfront : name ∉ before.map Prod.fst := fun hmem =>
    hbefore name hmem name List.mem_cons_self rfl
  rw [List.filter_append, hnone before hfront, List.filter_cons_of_pos (by simp),
    hnone after hafter, List.nil_append]

/-- When a module has been loaded, each name has been evaluated that was pending. -/
theorem mem_demandsAll_of_load {depth : Nat} {program : Module} {m : Machine}
    (h : Machine.load depth program = (.ok (), m)) {name : String} {expr : Expr}
    (hpending : (Machine.start program.items).pending.get? name = some expr) :
    (name, expr) ∈ demandsAll depth program.items (Machine.start program.items) := by
  obtain ⟨hawaits, hdone⟩ := traced_forceAll depth program.items (Machine.start program.items)
  have hnone := (hdone () m h).pending name
  rw [pending_load h, hpending] at hnone
  by_cases hmem : name ∈ (demandsAll depth program.items (Machine.start program.items)).map Prod.fst
  · obtain ⟨d, hd, rfl⟩ := List.mem_map.1 hmem
    have hsame := hawaits.pending d hd
    rw [hpending, Option.some.injEq] at hsame
    rw [hsame]
    exact hd
  · rw [if_neg hmem] at hnone
    cases hnone

/-- Each declaration is evaluated once. At every entry to the evaluator while a module is loaded,
from which a name is then looked up, what is being evaluated is pending, no name is both bound in
the root and pending, and the declared names are those that are one or the other; and what is being
evaluated stays pending, with its expression, until the evaluator is left again. Every entry is
nested in as many declarations as are being evaluated, which are no more than there are names. These
entries, and the evaluations of declarations in the list, are the ones that are logged when the
module is loaded by the evaluator that keeps a log, which does the same besides. When loading
succeeds, nothing is pending or being evaluated, the root binds the declared names, and in the list
of the evaluations of declarations that have begun each name stands once, with the expression of its
last declaration. -/
theorem declarations_evaluated_once (depth : Nat) (program : Module) :
    (∀ visit, Visited depth program.items visit →
      visit.machine.Loading program.items ∧
      (∀ levels name, visit.depth = levels + 1 → visit.expr.head? = some name →
        ∃ next, eval visit.depth visit.expr = resolve (eval levels) name >>= next) ∧
      (∀ name ∈ visit.machine.evaluating, ∃ expr,
        visit.machine.pending.get? name = some expr ∧
        ((eval visit.depth visit.expr).run visit.machine).2.pending.get? name = some expr) ∧
      ∃ nested, Nested depth program.items nested visit) ∧
    (∀ nested visit, Nested depth program.items nested visit →
      nested = visit.machine.evaluating.length ∧
      nested ≤ (program.items.map Declaration.name).dedup.length) ∧
    (∀ name expr, (name, expr) ∈ demandsAll depth program.items (Machine.start program.items) ↔
      Begins depth program.items name expr) ∧
    (∃ log, Logging.load depth program =
        ((Machine.load depth program).1, (Machine.load depth program).2, log) ∧
      (∀ visit, visit ∈ log.visits ↔ Visited depth program.items visit) ∧
      log.begun = demandsAll depth program.items (Machine.start program.items)) ∧
    ∀ m, Machine.load depth program = (.ok (), m) →
      m.pending = .empty ∧ m.evaluating = [] ∧
      (∀ name, name ∈ m.env.root.names ↔ name ∈ program.items.map Declaration.name) ∧
      (∀ entry ∈ demandsAll depth program.items (Machine.start program.items),
        entry.1 ∈ program.items.map Declaration.name) ∧
      ∀ before d after, program.items = before ++ d :: after →
        d.name ∉ after.map Declaration.name →
        (demandsAll depth program.items (Machine.start program.items)).filter
          (fun entry => entry.1 = d.name) = [(d.name, d.value)] := by
  refine ⟨fun visit hvisit => ?_, fun nested visit h => ?_, fun _ _ => mem_demandsAll_start_iff,
    ⟨_, logging_load depth program, fun visit => mem_visitsAll_start_iff, rfl⟩, fun m h => ?_⟩
  · obtain ⟨nested, h⟩ := visited_iff_nested.1 hvisit
    refine ⟨h.loading, fun levels name hdepth hhead => ?_,
      fun name hname => h.loading.pending_eval hname visit.depth visit.expr, nested, h⟩
    rw [hdepth]
    exact exists_eval_eq_resolve_bind levels hhead
  · have hlength := h.loading.length_evaluating_le
    rw [← h.eq_length] at hlength
    exact ⟨h.eq_length, hlength⟩
  · have hpending := pending_load h
    have hgrows := growsBy_load h
    have hloading : m.Loading program.items :=
      (Machine.loading_start program.items).grows ⟨_, hgrows⟩
    have hawaits := (traced_forceAll depth program.items (Machine.start program.items)).1
    refine ⟨hpending, hgrows.evaluating, fun name => ?_, fun entry hentry => ?_, ?_⟩
    · have hdeclared := hloading.declared name
      rw [hpending] at hdeclared
      simpa [Table.names, Table.empty] using hdeclared
    · have hsome : (Machine.start program.items).pending.get? entry.1 ≠ none := by
        rw [hawaits.pending entry hentry]
        simp
      exact List.mem_map.2 (pending_start_ne_none_iff.1 hsome)
    · intro before d after hitems hafter
      have hlast : (Machine.start program.items).pending.get? d.name = some d.value := by
        rw [hitems]
        exact pending_start_of_last hafter
      exact filter_eq_singleton hawaits.nodup (mem_demandsAll_of_load h hlast)

/-- Declares `b` twice, and refers to it before and between. -/
def repeatedModule : Module :=
  ⟨"m", [⟨"a", .call "f" [.variable "b"]⟩, ⟨"b", .variable "x"⟩, ⟨"b", .call "f" [.variable "c"]⟩,
    ⟨"c", .string "s"⟩, ⟨"f", .function (.mk [.bind "x"] (.variable "x")) []⟩]⟩

/-- The second declaration of `b` is evaluated, once, inside of the evaluation of `a` and around
that of `c`. -/
theorem declarations_evaluated_once_repeated :
    ∃ m visit, Machine.load 5 repeatedModule = (.ok (), m) ∧
      Nested 5 repeatedModule.items 3 visit ∧ visit.expr = .string "s" ∧
      visit.machine.evaluating = ["c", "b", "a"] ∧ visit.machine.Loading repeatedModule.items ∧
      m.pending = .empty ∧
      (demandsAll 5 repeatedModule.items (Machine.start repeatedModule.items)).filter
        (fun entry => entry.1 = "b") = [("b", .call "f" [.variable "c"])] := by
  obtain ⟨hvisits, -, -, -, hloaded⟩ := declarations_evaluated_once 5 repeatedModule
  obtain ⟨hpending, -, -, -, honce⟩ := hloaded _ rfl
  have hfirst : repeatedModule.items = [] ++ ⟨"a", _⟩ :: _ := rfl
  have hcall : Nested 5 repeatedModule.items 1 _ := .start hfirst rfl rfl
  -- The argument is visited when the function has been evaluated.
  have hargument : Nested 5 repeatedModule.items 1 _ := .part hcall List.mem_cons_self
  have hdemand : Nested 5 repeatedModule.items 2 _ := .demand hargument rfl
  have hinner : Nested 5 repeatedModule.items 2 _ := .part hdemand List.mem_cons_self
  have hlast : Nested 5 repeatedModule.items 3 _ := .demand hinner rfl
  have hloading := (hvisits _ (visited_iff_nested.2 ⟨3, hlast⟩)).1
  refine ⟨_, _, rfl, hlast, rfl, rfl, hloading, hpending, ?_⟩
  exact honce (repeatedModule.items.take 2) ⟨"b", .call "f" [.variable "c"]⟩
    (repeatedModule.items.drop 3) rfl (by decide)

end QLanguage
