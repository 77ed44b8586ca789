import QLanguage.Proofs.Evaluation.Again
import QLanguage.Proofs.Evaluation.Loading

/-!
# The record of the root

The entries of the root tell how it came about. Each was made when a pending declaration had its
value, and evaluating the expression of that declaration again, over the entries before it, gives
the value of the entry once more. No scopes have to be open for that, unless the declaration is
captured (`CapturedIn`): asked for inside of calls, with a name in it that is found in the scopes of
these calls. Then those scopes have to be open again.

`Recorded` is this statement as a relation between machines. It holds before and after every visit
of a loading, and so the whole root of a loaded module is recorded.
-/

namespace QLanguage

open Step Eval

/-- The machine with some scopes on which nothing is pending. -/
def Machine.over (root : List (String × Expr)) (inner : List Scope) : Machine :=
  { Machine.empty with env := ⟨⟨root⟩, inner⟩ }

/-- Each of some entries that are added to a root satisfies a condition together with the root it is
added to. -/
def Account (P : List (String × Expr) → String × Expr → Prop) (root : List (String × Expr)) :
    List (String × Expr) → Prop
  | [] => True
  | entry :: more => P root entry ∧ Account P (root ++ [entry]) more

namespace Account

variable {P Q : List (String × Expr) → String × Expr → Prop} {root added : List (String × Expr)}

/-- Entries may be added in two goes. -/
theorem append_iff (more : List (String × Expr)) :
    Account P root (added ++ more) ↔ Account P root added ∧ Account P (root ++ added) more := by
  induction added generalizing root with
  | nil => simp [Account]
  | cons entry rest ih => simp [Account, ih, and_assoc]

/-- A weaker condition has the same account. -/
theorem imp (h : ∀ root entry, P root entry → Q root entry) (hP : Account P root added) :
    Account Q root added := by
  induction added generalizing root with
  | nil => trivial
  | cons entry rest ih => exact ⟨h root entry hP.1, ih hP.2⟩

/-- Every entry satisfies the condition together with the entries before it. -/
theorem entry {before after : List (String × Expr)} {entry : String × Expr}
    (h : Account P root (before ++ entry :: after)) : P (root ++ before) entry :=
  ((append_iff (entry :: after)).1 h).2.1

end Account

/-- The name that a visit looks up first is found in the scopes `outer` that are open around it, as
no scope inside of these binds it. -/
def Visit.FindsIn (visit : Visit) (outer : List Scope) : Prop :=
  ∃ name own, visit.expr.head? = some name ∧ visit.machine.env.inner = own ++ outer ∧
    (∀ scope ∈ own, scope.get? name = none) ∧ ∃ scope ∈ outer, scope.get? name ≠ none

/-- A visit in `A` asks for a declaration while some scopes are open, and its evaluation looks a
name up that it finds in them. -/
inductive CapturedIn (A : Visit → Prop) (name : String) (expr : Expr) (inner : List Scope) :
    Prop where
  /-- The visit that asks, and the one that finds the name. -/
  | intro {levels : Nat} {e : Expr} {m : Machine} {look : Visit} (hvisit : A ⟨levels + 1, e, m⟩)
      (hasks : Visit.Asks ⟨levels + 1, e, m⟩ name expr) (hopen : m.env.inner = inner)
      (hlook : look ∈ ownVisits levels expr (m.begun name)) (hfinds : look.FindsIn inner)

/-- Where no visit finds its name in some scopes, these may as well be closed. -/
theorem foundAlike_nil {outer : List Scope} {visits : List Visit}
    (h : ∀ visit ∈ visits, ¬visit.FindsIn outer) : FoundAlike outer [] visits := by
  intro visit hvisit name own hhead hinner
  rw [List.append_nil, List.findSome?_append]
  rcases hown : own.findSome? (·.get? name) with _ | value <;> rw [hown]
  · rw [Option.none_or]
    refine (List.findSome?_eq_none_iff.2 fun scope hscope => ?_).symm
    by_contra hbinds
    exact h visit hvisit
      ⟨name, own, hhead, hinner, List.findSome?_eq_none_iff.1 hown, scope, hscope, hbinds⟩
  · rfl

/-- The entry of a declaration is accounted for by what was in the root before: the expression gives
the value there, without inner scopes or with those that the declaration is captured in. -/
def BoundFrom (depth : Nat) (A : Visit → Prop) (root : List (String × Expr)) (expr : Expr)
    (entry : String × Expr) : Prop :=
  ∃ inner, ((eval depth expr).run (Machine.over root inner)).1 = .ok entry.2 ∧
    (inner = [] ∨ CapturedIn A entry.1 expr inner)

/-- The second machine is the first one with pending declarations bound in the root, and every new
entry is accounted for. -/
def Recorded (depth : Nat) (A : Visit → Prop) (m m' : Machine) : Prop :=
  ∃ added, m.GrowsBy added m' ∧
    Account (fun root entry => ∃ expr, m.pending.get? entry.1 = some expr ∧
      BoundFrom depth A root expr entry) m.env.root.entries added

section Recorded

variable {depth : Nat} {A : Visit → Prop}

/-- A recorded change is growth. -/
theorem Recorded.grows {m m' : Machine} (h : Recorded depth A m m') : m.Grows m' := by
  obtain ⟨added, hgrows, -⟩ := h
  exact ⟨added, hgrows⟩

instance : Std.Refl (Recorded depth A) := ⟨fun m => ⟨[], .refl m, trivial⟩⟩

instance : Trans (Recorded depth A) (Recorded depth A) (Recorded depth A) where
  trans := by
    rintro m m' m'' ⟨added, hgrows, haccount⟩ ⟨more, hgrows', haccount'⟩
    refine ⟨added ++ more, hgrows.trans hgrows', (Account.append_iff more).2 ⟨haccount, ?_⟩⟩
    rw [← hgrows.root]
    -- What is pending later was pending with the same expression before.
    refine haccount'.imp fun root entry ⟨expr, hpending, hbound⟩ => ⟨expr, ?_, hbound⟩
    rw [hgrows.pending] at hpending
    split at hpending
    · cases hpending
    · exact hpending

variable {name : String} {expr value : Expr} {m m' : Machine}

/-- When the evaluation of a declaration halts, what it has bound is recorded. -/
theorem Recorded.ended (h : Recorded depth A (m.begun name) m') :
    Recorded depth A m (m'.ended name) := by
  obtain ⟨added, hgrows, haccount⟩ := h
  exact ⟨added, hgrows.ended, haccount⟩

/-- When the evaluation of a declaration gives a value, the entry that is made can be recomputed
over what was bound in between. -/
theorem Recorded.bound {levels : Nat} (hlevels : levels ≤ depth)
    (h : Recorded depth A (m.begun name) m')
    (hrun : (eval levels expr).run (m.begun name) = (.ok value, m'))
    (hroot : m.env.root.get? name = none) (hpending : m.pending.get? name = some expr)
    (hfresh : name ∉ m.evaluating)
    (hinner : m.env.inner = [] ∨
      ∃ e, A ⟨levels + 1, e, m⟩ ∧ Visit.Asks ⟨levels + 1, e, m⟩ name expr) :
    Recorded depth A m ((m'.ended name).bound name value) := by
  obtain ⟨added, hgrows, haccount⟩ := h
  refine ⟨added ++ [(name, value)], hgrows.bound value hroot hpending hfresh, ?_⟩
  refine (Account.append_iff [(name, value)]).2 ⟨haccount, ⟨expr, hpending, ?_⟩, trivial⟩
  -- The evaluation had fewer levels than the loading; with all of them it gives the same.
  have hagain : ∀ inner, FoundAlike m.env.inner inner (ownVisits levels expr (m.begun name)) →
      ((eval depth expr).run (Machine.over (m.env.root.entries ++ added) inner)).1 = .ok value := by
    intro inner halike
    have hwithin : m'.env.root.Within
        (Machine.over (m.env.root.entries ++ added) inner).env.root := by
      have hsame : m'.env.root = ⟨m.env.root.entries ++ added⟩ := congrArg Table.mk hgrows.root
      rw [hsame]
      exact Table.Within.refl _
    obtain ⟨text, hagain⟩ := eval_again levels hrun hwithin (List.nil_append _).symm
      (List.nil_append _).symm halike
    rw [(agrees_eval hlevels expr).run_eq (by rw [hagain]; simp), hagain]
  by_cases hfinds : ∃ look ∈ ownVisits levels expr (m.begun name), look.FindsIn m.env.inner
  · refine ⟨m.env.inner, hagain _ (.refl _ _), ?_⟩
    obtain ⟨look, hlook, hfound⟩ := hfinds
    exact hinner.imp_right fun ⟨e, hvisit, hasks⟩ => .intro hvisit hasks rfl hlook hfound
  · refine ⟨[], hagain [] (foundAlike_nil fun look hlook hfound => ?_), .inl rfl⟩
    exact hfinds ⟨look, hlook, hfound⟩

end Recorded

/-! ## Loading -/

/-- Every part of a loading is recorded. -/
theorem framed_recorded (depth : Nat) (items : List Declaration) :
    Framed (Visited depth items) (Recorded depth (Visited depth items)) where
  calls := .call
  printed := fun m text => ⟨[], .printed m text, trivial⟩
  ended := fun _ _ h => h.ended
  bound := by
    intro levels e expr value name m m' hvisited hasks hrun h
    have hlevels := hvisited.depth_le
    have hroot := (Environment.lookup?_eq_none_iff.1 hasks.unbound).2
    exact h.bound (Nat.le_of_succ_le hlevels) hrun hroot hasks.pending hasks.fresh
      (.inr ⟨e, hvisited, hasks⟩)
  left := by
    rintro m m' bindings ⟨added, hgrows, haccount⟩
    exact ⟨added, hgrows.left, haccount⟩

/-- However loading ends, every entry of the root is accounted for. -/
theorem recorded_load {depth : Nat} {program : Module} {result : Except Halt Unit} {m : Machine}
    (h : Machine.load depth program = (result, m)) :
    Recorded depth (Visited depth program.items) (Machine.start program.items) m := by
  have hrun : (forceAll depth program.items).run (Machine.start program.items) = (result, m) := h
  have hapart := Machine.apart_start program.items
  have hm : m = ((forceAll depth program.items).run (Machine.start program.items)).2 := by rw [hrun]
  rw [hm]
  refine forceAll_keeps hapart Recorded.grows ?_
  intro before d after expr mid hitems hbefore hmid hpending
  by_cases hmem : d.name ∈ mid.evaluating
  · rw [run_force_cyclic hmem]
    exact Std.Refl.refl mid
  · have hvisit := (framed_recorded depth program.items).eval depth expr (mid.begun d.name)
      (.start hitems hbefore hpending)
    rw [run_force hmem]
    rcases hforce : (eval depth expr).run (mid.begun d.name) with ⟨halt | value, last⟩ <;>
      rw [hforce] at hvisit
    · exact hvisit.ended
    · have hroot : mid.env.root.get? d.name = none := hmid d.name (by rw [hpending]; simp)
      -- Between declarations no scope is open.
      have hgrows := grows_forceAll depth before hapart
      rw [hbefore] at hgrows
      exact hvisit.bound (Nat.le_refl depth) hforce hroot hpending hmem (.inl hgrows.inner_eq)

end QLanguage
