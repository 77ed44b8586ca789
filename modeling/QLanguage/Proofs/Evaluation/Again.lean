import QLanguage.Proofs.Evaluation.Demands

/-!
# Evaluating again

An evaluation that gave a value gives it again over all that it has bound: every name it looked up
is bound there, those whose declarations it had to evaluate included, so the second time nothing
pending is touched and the machine stays as it is but for what is printed. More bindings in the root
do not disturb that, and neither do more levels.

Nor does it matter which scopes are open around the evaluation, as long as the names that it looks
up itself (`ownVisits`) are found in them alike. Names that the declarations on the way look up do
not count, as these declarations are bound the second time.
-/

namespace QLanguage

open Step Eval

/-! ## The names that are looked up -/

/-- The visits from which an evaluation itself looks names up: its own and those to its arguments
and bodies. Those to declarations that are evaluated on the way are not among them. -/
def ownVisits : Nat → Expr → Machine → List Visit
  | 0, _, _ => []
  | depth + 1, e, m =>
    ⟨depth + 1, e, m⟩ ::
      (parts depth e m).flatMap fun part => ownVisits depth part.expr part.machine

/-- The names that are looked up from some visits are found alike when the scopes `outer` that are
open around all of these are replaced. -/
def FoundAlike (outer others : List Scope) (visits : List Visit) : Prop :=
  ∀ visit ∈ visits, ∀ name own, visit.expr.head? = some name →
    visit.machine.env.inner = own ++ outer →
    (own ++ others).findSome? (·.get? name) = (own ++ outer).findSome? (·.get? name)

/-- Names are found alike where nothing is replaced. -/
theorem FoundAlike.refl (outer : List Scope) (visits : List Visit) :
    FoundAlike outer outer visits :=
  fun _ _ _ _ _ _ => rfl

/-! ## Over the same bindings -/

variable {depth : Nat} {name : String} {value : Expr} {m m' n : Machine}
  {own outer others : List Scope}

/-- A name that has got a value is bound to it afterwards, wherever it is found alike in the inner
scopes around at least the same root. -/
theorem resolve_again {ev : Expr → Eval Expr} (h : (resolve ev name).run m = (.ok value, m'))
    (hroot : m'.env.root.Within n.env.root)
    (hfound : n.env.inner.findSome? (·.get? name) = m.env.inner.findSome? (·.get? name)) :
    n.env.lookup? name = some value := by
  rcases hlookup : m.env.lookup? name with _ | found
  · rcases hpending : m.pending.get? name with _ | expr
    · rw [run_resolve_undefined hlookup hpending] at h
      cases h
    · rw [run_resolve_pending hlookup hpending] at h
      -- The name was not bound, so its declaration has been evaluated and bound in the root.
      obtain ⟨-, mid, -, rfl⟩ := run_force_eq_ok_iff.1 h
      have hset : ((mid.ended name).bound name value).env.root.get? name = some value := by
        show (mid.env.root.set name value).get? name = some value
        rw [Table.get?_set, if_pos rfl]
      obtain ⟨hnone, -⟩ := Environment.lookup?_eq_none_iff.1 hlookup
      rw [Environment.lookup?, hfound, hnone, hroot name value hset]
      rfl
  · rw [run_resolve_bound hlookup] at h
    cases h
    exact Environment.lookup?_of_within hfound hroot hlookup

/-- The evaluator gives a value again over all that it has bound for it, and then changes nothing
but what is printed. -/
def GivesAgain (depth : Nat) : Prop :=
  ∀ {e value : Expr} {m m' n : Machine} {own outer others : List Scope},
    (eval depth e).run m = (.ok value, m') → m'.env.root.Within n.env.root →
    m.env.inner = own ++ outer → n.env.inner = own ++ others →
    FoundAlike outer others (ownVisits depth e m) →
    ∃ text, (eval depth e).run n = (.ok value, n.printed text)

/-- The same for expressions in a row. -/
theorem GivesAgain.all (hagain : GivesAgain depth) {es values : List Expr} {m m' n : Machine}
    (h : (Eval.all (eval depth) es).run m = (.ok values, m'))
    (hroot : m'.env.root.Within n.env.root) (houter : m.env.inner = own ++ outer)
    (hothers : n.env.inner = own ++ others)
    (halike : FoundAlike outer others
      ((rowVisits depth es m).flatMap fun part => ownVisits depth part.expr part.machine)) :
    ∃ text, (Eval.all (eval depth) es).run n = (.ok values, n.printed text) := by
  induction es generalizing values m n with
  | nil =>
    cases h
    exact ⟨"", by rw [n.printed_empty]; rfl⟩
  | cons e es ih =>
    obtain ⟨value, mid, more, hvalue, hmore, rfl⟩ := run_all_cons_eq_ok_iff.1 h
    rw [rowVisits, hvalue, List.flatMap_cons] at halike
    obtain ⟨hfirstAlike, hothersAlike⟩ := List.forall_mem_append.1 halike
    -- What the first expression bound is still there when the others are done.
    have hfirst := grows_eval depth e m
    have hlast := grows_all depth es mid
    rw [hvalue] at hfirst
    rw [hmore] at hlast
    obtain ⟨text, hagain⟩ :=
      hagain hvalue (hlast.within.trans hroot) houter hothers hfirstAlike
    obtain ⟨rest, hall⟩ :=
      ih (n := n.printed text) hmore hroot (hfirst.inner_eq.trans houter) hothers hothersAlike
    refine ⟨text ++ rest, ?_⟩
    rw [Machine.printed_printed] at hall
    exact run_all_cons_eq_ok_iff.2 ⟨value, n.printed text, more, hagain, hall, rfl⟩

/-- The same for a function that is applied. -/
theorem GivesAgain.apply (hagain : GivesAgain depth) {args : List Expr} {first : Clause}
    {clauses : List Clause}
    (h : (Eval.apply (eval depth) name args (.function first clauses)).run m = (.ok value, m'))
    (hroot : m'.env.root.Within n.env.root) (houter : m.env.inner = own ++ outer)
    (hothers : n.env.inner = own ++ others)
    (halike : FoundAlike outer others
      ((rowVisits depth args m ++ bodyVisits depth (first :: clauses) args m).flatMap
        fun part => ownVisits depth part.expr part.machine)) :
    ∃ text, (Eval.apply (eval depth) name args (.function first clauses)).run n =
      (.ok value, n.printed text) := by
  rw [List.flatMap_append] at halike
  obtain ⟨hargsAlike, hbodyAlike⟩ := List.forall_mem_append.1 halike
  rw [Eval.apply, run_bind_eq_ok_iff] at h
  obtain ⟨values, mid, hargs, hbody⟩ := h
  have hgrows := grows_all depth args m
  rw [hargs] at hgrows
  rw [bodyVisits, hargs] at hbodyAlike
  rw [dispatch] at hbody
  dsimp only at hbodyAlike
  rcases hclause : selectClause? (first :: clauses) values with _ | ⟨bindings, body⟩
  · rw [hclause] at hbody
    cases hbody
  · rw [hclause] at hbody hbodyAlike
    dsimp only at hbody
    rw [List.flatMap_singleton] at hbodyAlike
    rw [run_inScope] at hbody
    rcases hrun : (eval depth body).run (mid.entered bindings) with ⟨halt | found, last⟩
    · rw [hrun] at hbody
      cases hbody
    · rw [hrun] at hbody
      cases hbody
      have hlast := grows_eval depth body (mid.entered bindings)
      rw [hrun] at hlast
      -- The arguments are evaluated again over a root that has what the body bound, too.
      obtain ⟨text, hagainArgs⟩ :=
        hagain.all hargs (hlast.within.trans hroot) houter hothers hargsAlike
      -- The scope of the body is one more of those that stay.
      have hentered : (mid.entered bindings).env.inner =
          (Table.empty.setAll bindings :: own) ++ outer :=
        congrArg (Table.empty.setAll bindings :: ·) (hgrows.inner_eq.trans houter)
      have hagainEntered : ((n.printed text).entered bindings).env.inner =
          (Table.empty.setAll bindings :: own) ++ others :=
        congrArg (Table.empty.setAll bindings :: ·) hothers
      obtain ⟨more, hagainBody⟩ := hagain (n := (n.printed text).entered bindings) hrun hroot
        hentered hagainEntered hbodyAlike
      refine ⟨text ++ more, ?_⟩
      rw [Eval.apply, run_bind_ok hagainArgs, dispatch, hclause]
      dsimp only
      rw [run_inScope, hagainBody, ← Machine.printed_printed]
      rfl

/-- An evaluation that gave a value gives it again over all that it has bound. -/
theorem eval_again (depth : Nat) : GivesAgain depth := by
  induction depth with
  | zero =>
    intro e value m m' n own outer others h
    cases h
  | succ depth ih =>
    intro e value m m' n own outer others h hroot houter hothers halike
    obtain ⟨hown, hparts⟩ := List.forall_mem_cons.1 halike
    -- The name that comes first is found alike, as it is looked up from here.
    have hfound : ∀ name, e.head? = some name →
        n.env.inner.findSome? (·.get? name) = m.env.inner.findSome? (·.get? name) := by
      intro name hhead
      rw [hothers, houter]
      exact hown name own hhead houter
    cases e with
    | string _ =>
      cases h
      exact ⟨"", by rw [n.printed_empty]; rfl⟩
    | function _ _ =>
      cases h
      exact ⟨"", by rw [n.printed_empty]; rfl⟩
    | «variable» name =>
      have hlookup := resolve_again h hroot (hfound name rfl)
      exact ⟨"", by rw [n.printed_empty]; exact run_resolve_bound hlookup⟩
    | call name args =>
      rw [parts] at hparts
      by_cases hname : name = printName
      · subst hname
        rw [if_pos rfl] at hparts
        rw [eval_print, run_print] at h
        rcases hargs : (Eval.all (eval depth) args).run m with ⟨halt | values, mid⟩
        · rw [hargs] at h
          cases h
        · rw [hargs] at h
          cases h
          obtain ⟨text, hagain⟩ := ih.all hargs hroot houter hothers hparts
          refine ⟨text ++ printedLine values, ?_⟩
          rw [eval_print, run_print, hagain]
          dsimp only
          rw [Machine.printed_printed]
      · rw [if_neg hname] at hparts
        rw [eval_call depth hname, run_bind_eq_ok_iff] at h
        obtain ⟨callee, mid, hresolve, happly⟩ := h
        rw [hresolve] at hparts
        -- The second time the name is bound already, and the call goes on from the same machine.
        have hresolved := grows_resolve depth name m
        rw [hresolve] at hresolved
        have happlied := grows_apply depth name args callee mid
        rw [happly] at happlied
        have hhead : (Expr.call name args).head? = some name := if_neg hname
        have hlookup :=
          resolve_again hresolve (happlied.within.trans hroot) (hfound name hhead)
        cases callee with
        | function first clauses =>
          obtain ⟨text, hagain⟩ :=
            ih.apply happly hroot (hresolved.inner_eq.trans houter) hothers hparts
          refine ⟨text, ?_⟩
          rw [eval_call depth hname, run_bind_ok (run_resolve_bound hlookup), hagain]
        | _ => cases happly

/-! ## With more levels -/

/-- Two evaluations do the same unless the first halts for want of levels. -/
abbrev Eval.AgreesUnlessDeep {α : Type} (step step' : Eval α) : Prop :=
  AgreesUnless Halt.tooDeep step step'

section Levels

variable {ev ev' : Expr → Eval Expr}

/-- Expressions in a row agree when each does. -/
theorem agrees_all (h : ∀ e, AgreesUnlessDeep (ev e) (ev' e)) (es : List Expr) :
    AgreesUnlessDeep (all ev es) (all ev' es) := by
  induction es with
  | nil => exact .refl _
  | cons e es ih => exact .bind (h e) fun _ => .bind ih fun _ => .refl _

/-- Pending declarations agree when their expressions do. -/
theorem agrees_force (h : ∀ e, AgreesUnlessDeep (ev e) (ev' e)) (name : String) (expr : Expr) :
    AgreesUnlessDeep (force ev name expr) (force ev' name expr) := by
  unfold force
  -- Whether the declaration is being evaluated does not depend on levels.
  refine .bind (.refl _) fun m => ?_
  split
  · exact .refl _
  · refine .bind (.refl _) fun _ => ?_
    exact .bind (.andThen (h expr) _) fun _ => .refl _

/-- Names agree when pending declarations do. -/
theorem agrees_resolve (h : ∀ e, AgreesUnlessDeep (ev e) (ev' e)) (name : String) :
    AgreesUnlessDeep (resolve ev name) (resolve ev' name) := by
  refine .bind (.refl _) fun m => ?_
  rcases m.env.lookup? name with _ | value
  · rcases m.pending.get? name with _ | expr
    · exact .refl _
    · exact agrees_force h name expr
  · exact .refl _

/-- Applications agree when arguments and bodies do. -/
theorem agrees_apply (h : ∀ e, AgreesUnlessDeep (ev e) (ev' e)) (name : String)
    (args : List Expr) (callee : Expr) :
    AgreesUnlessDeep (apply ev name args callee) (apply ev' name args callee) := by
  cases callee with
  | string _ => exact .refl _
  | «variable» _ => exact .refl _
  | call _ _ => exact .refl _
  | function first others =>
    refine .bind (agrees_all h args) fun values => ?_
    rw [dispatch, dispatch]
    rcases selectClause? (first :: others) values with _ | ⟨bindings, body⟩
    · exact .refl _
    · exact .bind (.refl _) fun _ => .andThen (h body) _

end Levels

/-- One more level changes no finished evaluation. -/
theorem agrees_eval_succ (depth : Nat) (e : Expr) :
    AgreesUnlessDeep (eval depth e) (eval (depth + 1) e) := by
  induction depth generalizing e with
  | zero => exact .throw _
  | succ depth ih =>
    cases e with
    | string _ => exact .refl _
    | function _ _ => exact .refl _
    | «variable» name => exact agrees_resolve ih name
    | call name args =>
      by_cases hname : name = printName
      · subst hname
        rw [eval_print, eval_print]
        exact .bind (agrees_all ih args) fun _ => .refl _
      · rw [eval_call depth hname, eval_call (depth + 1) hname]
        exact .bind (agrees_resolve ih name) fun callee => agrees_apply ih name args callee

/-- More levels change no finished evaluation. -/
theorem agrees_eval {depth levels : Nat} (h : depth ≤ levels) (e : Expr) :
    AgreesUnlessDeep (eval depth e) (eval levels e) := by
  induction h with
  | refl => exact .refl _
  | step _ ih => exact ih.trans (agrees_eval_succ _ e)

end QLanguage
