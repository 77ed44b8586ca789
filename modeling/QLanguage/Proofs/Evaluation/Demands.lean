import QLanguage.Proofs.Evaluation.Frame

/-!
# The declarations that are evaluated on the way

`demands` lists the pending declarations that an evaluation evaluates, in the order in which their
evaluations begin. It follows the visits that a visit makes: the name that comes first may be that
of a pending declaration (`demand?`), and arguments and a body are visited behind it (`parts`).
Together these are all the visits there are (`calls_iff`), so nothing is left out of the list.

`Traced` relates such a list to a step. No name is twice in it, each stands there with the
expression that is pending for it, and when the step gives a result exactly the names of the list
are not pending any more. That holds of every part of an evaluation, and of the whole.
-/

namespace QLanguage

open Step Eval

/-! ## The visits in their order -/

/-- The pending declaration that an expression needs first, if its evaluation has not begun. -/
def demand? (e : Expr) (m : Machine) : Option (String × Expr) :=
  match e.head? with
  | none => none
  | some name =>
    match m.env.lookup? name, m.pending.get? name with
    | none, some expr => if name ∈ m.evaluating then none else some (name, expr)
    | _, _ => none

/-- A demand is what a visit asks for. -/
theorem demand?_eq_some_iff (depth : Nat) {e expr : Expr} {m : Machine} {name : String} :
    demand? e m = some (name, expr) ↔ Visit.Asks ⟨depth, e, m⟩ name expr := by
  constructor
  · intro h
    rcases hhead : e.head? with _ | first
    · simp [demand?, hhead] at h
    · rcases hlookup : m.env.lookup? first with _ | value
      · rcases hpending : m.pending.get? first with _ | found
        · simp [demand?, hhead, hlookup, hpending] at h
        · by_cases hmem : first ∈ m.evaluating
          · simp [demand?, hhead, hlookup, hpending, hmem] at h
          · obtain ⟨rfl, rfl⟩ : first = name ∧ found = expr := by
              simpa [demand?, hhead, hlookup, hpending, hmem] using h
            exact ⟨hhead, hlookup, hpending, hmem⟩
      · simp [demand?, hhead, hlookup] at h
  · rintro ⟨hhead, hlookup, hpending, hmem⟩
    dsimp only at hhead hlookup hpending hmem
    simp [demand?, hhead, hlookup, hpending, hmem]

/-- The visits to expressions in a row, up to the first one that halts. -/
def rowVisits (depth : Nat) : List Expr → Machine → List Visit
  | [], _ => []
  | arg :: more, m =>
    ⟨depth, arg, m⟩ ::
      match (eval depth arg).run m with
      | (.ok _, mid) => rowVisits depth more mid
      | (.error _, _) => []

/-- The visit to the body of the clause that accepts some arguments, behind the visits to them. -/
def bodyVisits (depth : Nat) (clauses : List Clause) (args : List Expr) (m : Machine) :
    List Visit :=
  match (all (eval depth) args).run m with
  | (.ok values, mid) =>
    match selectClause? clauses values with
    | some (bindings, body) => [⟨depth, body, mid.entered bindings⟩]
    | none => []
  | (.error _, _) => []

/-- The visits to arguments and a body that a visit makes. -/
def parts (depth : Nat) (e : Expr) (m : Machine) : List Visit :=
  match e with
  | .call name args =>
    if name = printName then rowVisits depth args m
    else
      match (resolve (eval depth) name).run m with
      | (.ok (.function first others), resolved) =>
        rowVisits depth args resolved ++ bodyVisits depth (first :: others) args resolved
      | _ => []
  | _ => []

/-- An expression in a row is visited from where those before it have been evaluated. -/
theorem mem_rowVisits_iff {depth : Nat} {args : List Expr} {m : Machine} {next : Visit} :
    next ∈ rowVisits depth args m ↔ ∃ before arg after values mid, args = before ++ arg :: after ∧
      (all (eval depth) before).run m = (.ok values, mid) ∧ next = ⟨depth, arg, mid⟩ := by
  induction args generalizing m with
  | nil => simp [rowVisits]
  | cons e es ih =>
    rw [rowVisits, List.mem_cons]
    constructor
    · rintro (rfl | hmem)
      · exact ⟨[], e, es, [], m, rfl, rfl, rfl⟩
      · rcases hrun : (eval depth e).run m with ⟨halt | value, mid⟩ <;> rw [hrun] at hmem
        · exact absurd hmem List.not_mem_nil
        · obtain ⟨before, arg, after, values, last, rfl, hbefore, rfl⟩ := ih.1 hmem
          refine ⟨e :: before, arg, after, value :: values, last, rfl, ?_, rfl⟩
          exact run_all_cons_eq_ok_iff.2 ⟨value, mid, values, hrun, hbefore, rfl⟩
    · rintro ⟨before, arg, after, values, last, hargs, hbefore, rfl⟩
      cases before with
      | nil =>
        cases hargs
        cases hbefore
        exact .inl rfl
      | cons first before =>
        cases hargs
        obtain ⟨value, mid, others, hrun, hothers, rfl⟩ := run_all_cons_eq_ok_iff.1 hbefore
        right
        rw [hrun]
        exact ih.2 ⟨before, arg, after, others, last, rfl, hothers, rfl⟩

/-- A body is visited in its scope, from where the arguments have been evaluated. -/
theorem mem_bodyVisits_iff {depth : Nat} {clauses : List Clause} {args : List Expr} {m : Machine}
    {next : Visit} :
    next ∈ bodyVisits depth clauses args m ↔ ∃ values mid bindings body,
      (all (eval depth) args).run m = (.ok values, mid) ∧
      selectClause? clauses values = some (bindings, body) ∧
      next = ⟨depth, body, mid.entered bindings⟩ := by
  rw [bodyVisits]
  constructor
  · intro hmem
    rcases hargs : (all (eval depth) args).run m with ⟨halt | values, mid⟩ <;> rw [hargs] at hmem
    · exact absurd hmem List.not_mem_nil
    · dsimp only at hmem
      rcases hclause : selectClause? clauses values with _ | ⟨bindings, body⟩ <;>
        rw [hclause] at hmem
      · exact absurd hmem List.not_mem_nil
      · exact ⟨values, mid, bindings, body, rfl, hclause, List.mem_singleton.1 hmem⟩
  · rintro ⟨values, mid, bindings, body, hargs, hclause, rfl⟩
    rw [hargs]
    dsimp only
    rw [hclause]
    exact List.mem_singleton.2 rfl

/-- A visit first makes the visit that it demands, and then those to its parts. -/
theorem calls_iff {depth : Nat} {e : Expr} {m : Machine} {next : Visit} :
    Visit.Calls ⟨depth + 1, e, m⟩ next ↔
      (∃ name expr, demand? e m = some (name, expr) ∧ next = ⟨depth, expr, m.begun name⟩) ∨
      next ∈ parts depth e m := by
  constructor
  · intro h
    cases h with
    | pending asks => exact .inl ⟨_, _, (demand?_eq_some_iff _).2 asks, rfl⟩
    | @printed _ before after values arg _ mid hbefore =>
      right
      rw [parts, if_pos rfl]
      exact mem_rowVisits_iff.2 ⟨before, arg, after, values, mid, rfl, hbefore, rfl⟩
    | @argument _ name before after values arg first others _ resolved mid hname hresolve hbefore =>
      right
      rw [parts, if_neg hname, hresolve]
      refine List.mem_append_left _ ?_
      exact mem_rowVisits_iff.2 ⟨before, arg, after, values, mid, rfl, hbefore, rfl⟩
    | @body _ name args values first others bindings body _ resolved mid hname hresolve hargs
        hclause =>
      right
      rw [parts, if_neg hname, hresolve]
      refine List.mem_append_right _ ?_
      exact mem_bodyVisits_iff.2 ⟨values, mid, bindings, body, hargs, hclause, rfl⟩
  · rintro (⟨name, expr, hdemand, rfl⟩ | hpart)
    · exact .pending ((demand?_eq_some_iff _).1 hdemand)
    · cases e with
      | call name args =>
        rw [parts] at hpart
        by_cases hname : name = printName
        · subst hname
          rw [if_pos rfl] at hpart
          obtain ⟨before, arg, after, values, mid, rfl, hbefore, rfl⟩ := mem_rowVisits_iff.1 hpart
          exact .printed hbefore
        · rw [if_neg hname] at hpart
          rcases hresolve : (resolve (eval depth) name).run m with ⟨halt | callee, resolved⟩ <;>
            rw [hresolve] at hpart
          · exact absurd hpart List.not_mem_nil
          · -- Only a function has its arguments and a body visited.
            cases callee with
            | function first others =>
              rcases List.mem_append.1 hpart with hrow | hbody
              · obtain ⟨before, arg, after, values, mid, rfl, hbefore, rfl⟩ :=
                  mem_rowVisits_iff.1 hrow
                exact .argument hname hresolve hbefore
              · obtain ⟨values, mid, bindings, body, hargs, hclause, rfl⟩ :=
                  mem_bodyVisits_iff.1 hbody
                exact .body hname hresolve hargs hclause
            | _ => exact absurd hpart List.not_mem_nil
      | _ => exact absurd hpart List.not_mem_nil

/-! ## The list of declarations -/

/-- The declarations that are evaluated when an expression has its first name looked up: the one
that it demands, and behind it what the evaluation of that demands in turn. -/
def headDemands (next : Expr → Machine → List (String × Expr)) (e : Expr) (m : Machine) :
    List (String × Expr) :=
  match demand? e m with
  | some (name, expr) => (name, expr) :: next expr (m.begun name)
  | none => []

/-- The pending declarations that an evaluation evaluates, in the order in which that begins. -/
def demands : Nat → Expr → Machine → List (String × Expr)
  | 0, _, _ => []
  | depth + 1, e, m =>
    headDemands (demands depth) e m ++
      (parts depth e m).flatMap fun part => demands depth part.expr part.machine

/-- The declarations that are evaluated when some are evaluated in their turn: each of them that is
still pending, and behind it what its evaluation demands. -/
def demandsAll (depth : Nat) : List Declaration → Machine → List (String × Expr)
  | [], _ => []
  | d :: ds, m =>
    match m.pending.get? d.name with
    | none => demandsAll depth ds m
    | some expr =>
      if d.name ∈ m.evaluating then []
      else
        (d.name, expr) :: demands depth expr (m.begun d.name) ++
          match (force (eval depth) d.name expr).run m with
          | (.ok _, mid) => demandsAll depth ds mid
          | (.error _, _) => []

/-- An evaluation demands what its first name demands, and then what its parts demand. -/
theorem mem_demands_iff {depth : Nat} {e : Expr} {m : Machine} {entry : String × Expr} :
    entry ∈ demands (depth + 1) e m ↔
      (∃ name expr, demand? e m = some (name, expr) ∧
        (entry = (name, expr) ∨ entry ∈ demands depth expr (m.begun name))) ∨
      ∃ part ∈ parts depth e m, entry ∈ demands depth part.expr part.machine := by
  rw [demands, List.mem_append, List.mem_flatMap, headDemands]
  refine or_congr_left ?_
  rcases demand? e m with _ | ⟨name, expr⟩
  · simp
  · constructor
    · intro h
      exact ⟨name, expr, rfl, List.mem_cons.1 h⟩
    · rintro ⟨_, _, ⟨⟩, h⟩
      exact List.mem_cons.2 h

/-- The visits that are made in the turns of declarations, with the names of these: one for each
declaration that is still pending when its turn comes. -/
def turns (depth : Nat) : List Declaration → Machine → List (String × Visit)
  | [], _ => []
  | d :: ds, m =>
    match m.pending.get? d.name with
    | none => turns depth ds m
    | some expr =>
      if d.name ∈ m.evaluating then []
      else
        (d.name, ⟨depth, expr, m.begun d.name⟩) ::
          match (force (eval depth) d.name expr).run m with
          | (.ok _, mid) => turns depth ds mid
          | (.error _, _) => []

/-- A declaration has its turn where those before it have been evaluated. -/
theorem mem_turns_iff {depth : Nat} {items : List Declaration} {m : Machine}
    {turn : String × Visit} :
    turn ∈ turns depth items m ↔ ∃ before d after expr mid, items = before ++ d :: after ∧
      (forceAll depth before).run m = (.ok (), mid) ∧ mid.pending.get? d.name = some expr ∧
      d.name ∉ mid.evaluating ∧ turn = (d.name, ⟨depth, expr, mid.begun d.name⟩) := by
  induction items generalizing m with
  | nil => simp [turns]
  | cons d ds ih =>
    rw [turns]
    constructor
    · intro hmem
      rcases hpending : m.pending.get? d.name with _ | expr <;> rw [hpending] at hmem
      · obtain ⟨before, other, after, expr, mid, rfl, hbefore, hrest⟩ := ih.1 hmem
        exact ⟨d :: before, other, after, expr, mid, rfl,
          (run_forceAll_done hpending).trans hbefore, hrest⟩
      · dsimp only at hmem
        by_cases hfresh : d.name ∈ m.evaluating
        · rw [if_pos hfresh] at hmem
          exact absurd hmem List.not_mem_nil
        · rw [if_neg hfresh] at hmem
          rcases List.mem_cons.1 hmem with hfirst | hlater
          · exact ⟨[], d, ds, expr, m, rfl, rfl, hpending, hfresh, hfirst⟩
          · rcases hforce : (force (eval depth) d.name expr).run m with ⟨halt | value, next⟩ <;>
              rw [hforce] at hlater
            · exact absurd hlater List.not_mem_nil
            · obtain ⟨before, other, after, expr', mid, rfl, hbefore, hrest⟩ := ih.1 hlater
              refine ⟨d :: before, other, after, expr', mid, rfl, ?_, hrest⟩
              rw [run_forceAll_pending hpending, run_bind_ok hforce]
              exact hbefore
    · rintro ⟨before, other, after, expr, mid, hitems, hbefore, hother, hfresh, hturn⟩
      cases before with
      | nil =>
        cases hitems
        cases hbefore
        rw [hother]
        dsimp only
        rw [if_neg hfresh, hturn]
        exact List.mem_cons_self
      | cons first before =>
        cases hitems
        rcases hpending : m.pending.get? d.name with _ | found
        · rw [run_forceAll_done hpending] at hbefore
          exact ih.2 ⟨before, other, after, expr, mid, rfl, hbefore, hother, hfresh, hturn⟩
        · rw [run_forceAll_pending hpending, run_bind_eq_ok_iff] at hbefore
          obtain ⟨value, next, hforce, hbefore⟩ := hbefore
          have hbegun : d.name ∉ m.evaluating := (run_force_eq_ok_iff.1 hforce).1
          dsimp only
          rw [if_neg hbegun, hforce]
          refine List.mem_cons_of_mem _ ?_
          exact ih.2 ⟨before, other, after, expr, mid, rfl, hbefore, hother, hfresh, hturn⟩

/-- Declarations demand themselves in their turns, and then what their evaluations demand. -/
theorem demandsAll_eq (depth : Nat) (items : List Declaration) (m : Machine) :
    demandsAll depth items m = (turns depth items m).flatMap fun (name, visit) =>
      (name, visit.expr) :: demands depth visit.expr visit.machine := by
  induction items generalizing m with
  | nil => rfl
  | cons d ds ih =>
    rw [demandsAll, turns]
    rcases m.pending.get? d.name with _ | expr
    · exact ih m
    · dsimp only
      split
      · rfl
      · rw [List.flatMap_cons]
        rcases (force (eval depth) d.name expr).run m with ⟨halt | value, mid⟩
        · rfl
        · exact congrArg _ (ih mid)

/-- Declarations that are evaluated in their turn demand themselves, from where those before them
have been evaluated, and what their evaluations demand. -/
theorem mem_demandsAll_iff {depth : Nat} {items : List Declaration} {m : Machine}
    {entry : String × Expr} :
    entry ∈ demandsAll depth items m ↔ ∃ before d after expr mid, items = before ++ d :: after ∧
      (forceAll depth before).run m = (.ok (), mid) ∧ mid.pending.get? d.name = some expr ∧
      d.name ∉ mid.evaluating ∧
      (entry = (d.name, expr) ∨ entry ∈ demands depth expr (mid.begun d.name)) := by
  rw [demandsAll_eq, List.mem_flatMap]
  constructor
  · rintro ⟨turn, hturn, hentry⟩
    obtain ⟨before, d, after, expr, mid, hitems, hbefore, hpending, hfresh, rfl⟩ :=
      mem_turns_iff.1 hturn
    exact ⟨before, d, after, expr, mid, hitems, hbefore, hpending, hfresh, List.mem_cons.1 hentry⟩
  · rintro ⟨before, d, after, expr, mid, hitems, hbefore, hpending, hfresh, hentry⟩
    exact ⟨_, mem_turns_iff.2 ⟨before, d, after, expr, mid, hitems, hbefore, hpending, hfresh, rfl⟩,
      List.mem_cons.2 hentry⟩

/-! ## Lists that belong to a step -/

/-- Declarations that are pending on a machine, each with its expression and none twice, and whose
evaluations have not begun. -/
structure Machine.Awaits (m : Machine) (ds : List (String × Expr)) : Prop where
  /-- No name stands twice in the list. -/
  nodup : (ds.map Prod.fst).Nodup
  /-- Each name stands there with what is pending for it. -/
  pending : ∀ d ∈ ds, m.pending.get? d.1 = some d.2
  /-- None of them is being evaluated. -/
  fresh : ∀ d ∈ ds, d.1 ∉ m.evaluating

/-- Of what is pending on the first machine, just some declarations are not pending on the second
one. -/
structure Machine.Without (ds : List (String × Expr)) (m m' : Machine) : Prop where
  /-- The names in the list are not pending any more, and the others as before. -/
  pending : ∀ name, m'.pending.get? name =
    if name ∈ ds.map Prod.fst then none else m.pending.get? name
  /-- The same declarations are being evaluated. -/
  evaluating : m'.evaluating = m.evaluating

/-- The declarations in the list are pending before the step, and if it gives a result they are the
ones that are not pending after it. -/
def Traced {α : Type} (ds : List (String × Expr)) (step : Eval α) (m : Machine) : Prop :=
  m.Awaits ds ∧ ∀ a m', step.run m = (.ok a, m') → m.Without ds m'

namespace Machine

variable {m mid m' : Machine} {ds more : List (String × Expr)}

/-- Nothing is awaited in vain. -/
theorem awaits_nil (m : Machine) : m.Awaits [] :=
  ⟨List.nodup_nil, fun _ hd => absurd hd List.not_mem_nil, fun _ hd => absurd hd List.not_mem_nil⟩

/-- What is awaited once some declarations are done was awaited before, together with those. -/
theorem Awaits.append (h : m.Awaits ds) (hdone : m.Without ds mid) (hmore : mid.Awaits more) :
    m.Awaits (ds ++ more) := by
  -- A name that is pending afterwards is none of those that are done, and was pending before.
  have hbefore : ∀ d ∈ more, d.1 ∉ ds.map Prod.fst ∧ m.pending.get? d.1 = some d.2 := by
    intro d hd
    have hpending := hmore.pending d hd
    rw [hdone.pending] at hpending
    by_cases hmem : d.1 ∈ ds.map Prod.fst
    · rw [if_pos hmem] at hpending
      cases hpending
    · rw [if_neg hmem] at hpending
      exact ⟨hmem, hpending⟩
  refine ⟨?_, ?_, ?_⟩
  · rw [List.map_append, List.nodup_append]
    refine ⟨h.nodup, hmore.nodup, fun name hname other hother => ?_⟩
    obtain ⟨d, hd, rfl⟩ := List.mem_map.1 hother
    rintro rfl
    exact (hbefore d hd).1 hname
  · exact List.forall_mem_append.2 ⟨h.pending, fun d hd => (hbefore d hd).2⟩
  · refine List.forall_mem_append.2 ⟨h.fresh, fun d hd => ?_⟩
    rw [← hdone.evaluating]
    exact hmore.fresh d hd

/-- Declarations may be done in two goes. -/
theorem Without.trans (h : m.Without ds mid) (h' : mid.Without more m') :
    m.Without (ds ++ more) m' := by
  refine ⟨fun name => ?_, h'.evaluating.trans h.evaluating⟩
  rw [h'.pending, h.pending, List.map_append]
  by_cases hmore : name ∈ more.map Prod.fst <;> by_cases hds : name ∈ ds.map Prod.fst <;>
    simp [hmore, hds]

end Machine

namespace Traced

variable {α β : Type} {m : Machine} {ds more : List (String × Expr)}

/-- A step of its result alone evaluates nothing. -/
theorem pure (a : α) (m : Machine) : Traced [] (Pure.pure a : Eval α) m := by
  refine ⟨m.awaits_nil, fun b m' h => ?_⟩
  cases h
  exact ⟨fun _ => rfl, rfl⟩

/-- An error evaluates nothing. -/
theorem throw (halt : Halt) (m : Machine) : Traced [] (throw halt : Eval α) m :=
  ⟨m.awaits_nil, fun _ _ h => by cases h⟩

/-- Two steps in a row evaluate what the first one does and then what the second one does, which is
nothing if the first one halts. -/
theorem bind {step : Eval α} {next : α → Eval β} (hstep : Traced ds step m)
    (hnext : ∀ a mid, step.run m = (.ok a, mid) → Traced more (next a) mid)
    (hhalt : ∀ halt mid, step.run m = (.error halt, mid) → more = []) :
    Traced (ds ++ more) (step >>= next) m := by
  obtain ⟨hawaits, hdone⟩ := hstep
  rcases hrun : step.run m with ⟨halt | a, mid⟩
  · rw [hhalt halt mid hrun, List.append_nil]
    refine ⟨hawaits, fun b m' h => ?_⟩
    rw [run_bind_error hrun] at h
    cases h
  · obtain ⟨hmore, hlast⟩ := hnext a mid hrun
    have hmid := hdone a mid hrun
    refine ⟨hawaits.append hmid hmore, fun b m' h => ?_⟩
    rw [run_bind_ok hrun] at h
    exact hmid.trans (hlast b m' h)

/-- A step evaluates the same with something behind it that evaluates nothing. -/
theorem bind_nil {step : Eval α} {next : α → Eval β} (hstep : Traced ds step m)
    (hnext : ∀ a mid, Traced [] (next a) mid) : Traced ds (step >>= next) m := by
  have h := hstep.bind (fun a mid _ => hnext a mid) fun _ _ _ => rfl
  rw [List.append_nil] at h
  exact h

end Traced

/-! ## The parts of an evaluation -/

/-- A pending declaration is evaluated first, and what its evaluation demands behind it. Its mark
keeps it from being demanded again. -/
theorem traced_force {depth : Nat} {name : String} {expr : Expr} {m : Machine}
    {ds : List (String × Expr)} (hev : Traced ds (eval depth expr) (m.begun name))
    (hpending : m.pending.get? name = some expr) (hfresh : name ∉ m.evaluating) :
    Traced ((name, expr) :: ds) (force (eval depth) name expr) m := by
  obtain ⟨hawaits, hdone⟩ := hev
  have hmarked : name ∉ ds.map Prod.fst := by
    intro hmem
    obtain ⟨d, hd, rfl⟩ := List.mem_map.1 hmem
    exact hawaits.fresh d hd List.mem_cons_self
  refine ⟨⟨?_, ?_, ?_⟩, fun value m' h => ?_⟩
  · exact List.nodup_cons.2 ⟨hmarked, hawaits.nodup⟩
  · exact List.forall_mem_cons.2 ⟨hpending, hawaits.pending⟩
  · refine List.forall_mem_cons.2 ⟨hfresh, fun d hd hmem => ?_⟩
    exact hawaits.fresh d hd (List.mem_cons_of_mem name hmem)
  · obtain ⟨-, mid, hrun, rfl⟩ := run_force_eq_ok_iff.1 h
    obtain ⟨hleft, hmarks⟩ := hdone value mid hrun
    refine ⟨fun other => ?_, ?_⟩
    · show (mid.pending.erase name).get? other = _
      rw [Table.get?_erase, hleft, List.map_cons]
      by_cases hname : other = name
      · simp [hname]
      · rw [if_neg hname]
        simp only [List.mem_cons, hname, false_or]
        rfl
    · show mid.evaluating.erase name = m.evaluating
      rw [hmarks]
      exact List.erase_cons_head name m.evaluating

section Parts

variable {depth : Nat} (hev : ∀ e m, Traced (demands depth e m) (eval depth e) m)

include hev

/-- Looking a name up evaluates its declaration if that is what the expression demands. -/
theorem traced_resolve {e : Expr} {name : String} (hhead : e.head? = some name) (m : Machine) :
    Traced (headDemands (demands depth) e m) (resolve (eval depth) name) m := by
  rw [headDemands]
  rcases hlookup : m.env.lookup? name with _ | value
  · rcases hpending : m.pending.get? name with _ | expr
    · have hnone : demand? e m = none := by simp [demand?, hhead, hlookup, hpending]
      rw [hnone]
      refine ⟨m.awaits_nil, fun value m' h => ?_⟩
      rw [run_resolve_undefined hlookup hpending] at h
      cases h
    · by_cases hmem : name ∈ m.evaluating
      · have hnone : demand? e m = none := by simp [demand?, hhead, hlookup, hpending, hmem]
        rw [hnone]
        refine ⟨m.awaits_nil, fun value m' h => ?_⟩
        rw [run_resolve_pending hlookup hpending, run_force_cyclic hmem] at h
        cases h
      · have hsome : demand? e m = some (name, expr) := by
          simp [demand?, hhead, hlookup, hpending, hmem]
        rw [hsome]
        have hforce := traced_force (hev expr (m.begun name)) hpending hmem
        refine ⟨hforce.1, fun value m' h => hforce.2 value m' ?_⟩
        rw [← run_resolve_pending hlookup hpending]
        exact h
  · have hnone : demand? e m = none := by simp [demand?, hhead, hlookup]
    rw [hnone]
    refine ⟨m.awaits_nil, fun found m' h => ?_⟩
    rw [run_resolve_bound hlookup] at h
    cases h
    exact ⟨fun _ => rfl, rfl⟩

/-- Expressions in a row evaluate what each of them demands. -/
theorem traced_all (args : List Expr) (m : Machine) :
    Traced ((rowVisits depth args m).flatMap fun part => demands depth part.expr part.machine)
      (all (eval depth) args) m := by
  induction args generalizing m with
  | nil => exact .pure [] m
  | cons e es ih =>
    rw [rowVisits, List.flatMap_cons, all]
    refine (hev e m).bind (fun value mid hrun => ?_) fun halt mid hrun => ?_
    · rw [hrun]
      exact (ih mid).bind_nil fun more last => .pure (value :: more) last
    · rw [hrun]
      rfl

/-- A function evaluates what its arguments demand and then what the body of a clause demands. -/
theorem traced_apply (name : String) (args : List Expr) (first : Clause) (others : List Clause)
    (m : Machine) :
    Traced ((rowVisits depth args m ++ bodyVisits depth (first :: others) args m).flatMap
        fun part => demands depth part.expr part.machine)
      (apply (eval depth) name args (.function first others)) m := by
  rw [List.flatMap_append, apply]
  refine (traced_all hev args m).bind (fun values mid hargs => ?_) fun halt mid hargs => ?_
  · rw [bodyVisits, hargs, dispatch]
    dsimp only
    rcases selectClause? (first :: others) values with _ | ⟨bindings, body⟩
    · exact .throw _ mid
    · dsimp only
      obtain ⟨hawaits, hdone⟩ := hev body (mid.entered bindings)
      rw [List.flatMap_singleton]
      -- A scope around the body has nothing to do with declarations.
      refine ⟨⟨hawaits.nodup, hawaits.pending, hawaits.fresh⟩, fun value m' h => ?_⟩
      rw [run_inScope] at h
      rcases hrun : (eval depth body).run (mid.entered bindings) with ⟨halt | found, last⟩ <;>
        rw [hrun] at h <;> cases h
      have hlast := hdone _ last hrun
      exact ⟨hlast.pending, hlast.evaluating⟩
  · rw [bodyVisits, hargs]
    rfl

end Parts

/-! ## The whole evaluation -/

/-- What an evaluation demands is pending before it, and is what is not pending any more when it
gives a value. -/
theorem traced_eval (depth : Nat) (e : Expr) (m : Machine) :
    Traced (demands depth e m) (eval depth e) m := by
  induction depth generalizing e m with
  | zero => exact .throw _ m
  | succ depth ih =>
    rw [demands]
    cases e with
    | string _ => exact .pure _ m
    | function _ _ => exact .pure _ m
    | «variable» name =>
      have hparts : parts depth (.variable name) m = [] := rfl
      rw [hparts, List.flatMap_nil, List.append_nil]
      exact traced_resolve ih rfl m
    | call name args =>
      by_cases hname : name = printName
      · subst hname
        rw [eval_print, parts, if_pos rfl]
        exact (traced_all ih args m).bind_nil fun values mid =>
          ⟨mid.awaits_nil, fun _ _ h => by cases h; exact ⟨fun _ => rfl, rfl⟩⟩
      · rw [eval_call depth hname, parts, if_neg hname]
        have hhead : (Expr.call name args).head? = some name := if_neg hname
        refine (traced_resolve ih hhead m).bind (fun callee mid hrun => ?_) fun halt mid hrun => ?_
        · rw [hrun]
          cases callee with
          | function first others => exact traced_apply ih name args first others mid
          | _ => exact .throw _ mid
        · rw [hrun]
          rfl

/-- The same for declarations that are evaluated in their turn. -/
theorem traced_forceAll (depth : Nat) (items : List Declaration) (m : Machine) :
    Traced (demandsAll depth items m) (forceAll depth items) m := by
  induction items generalizing m with
  | nil => exact .pure () m
  | cons d ds ih =>
    rw [demandsAll]
    rcases hpending : m.pending.get? d.name with _ | expr
    · obtain ⟨hawaits, hdone⟩ := ih m
      refine ⟨hawaits, fun a m' h => hdone a m' ?_⟩
      rw [← run_forceAll_done hpending]
      exact h
    · dsimp only
      by_cases hmem : d.name ∈ m.evaluating
      · rw [if_pos hmem]
        refine ⟨m.awaits_nil, fun a m' h => ?_⟩
        rw [run_forceAll_pending hpending, run_bind_error (run_force_cyclic hmem)] at h
        cases h
      · rw [if_neg hmem]
        have hforce := traced_force (traced_eval depth expr (m.begun d.name)) hpending hmem
        have hboth : Traced ((d.name, expr) :: demands depth expr (m.begun d.name) ++
              match (force (eval depth) d.name expr).run m with
              | (.ok _, mid) => demandsAll depth ds mid
              | (.error _, _) => [])
            (force (eval depth) d.name expr >>= fun _ => forceAll depth ds) m := by
          refine hforce.bind (fun value mid hrun => ?_) fun halt mid hrun => ?_
          · rw [hrun]
            exact ih mid
          · rw [hrun]
        obtain ⟨hawaits, hdone⟩ := hboth
        refine ⟨hawaits, fun a m' h => hdone a m' ?_⟩
        rw [← run_forceAll_pending hpending]
        exact h

end QLanguage
