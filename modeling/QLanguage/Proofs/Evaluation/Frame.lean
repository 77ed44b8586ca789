import QLanguage.Proofs.Evaluation.Visits
import QLanguage.Proofs.Tables

/-!
# What evaluation leaves as it was

An evaluation opens and closes scopes and marks declarations as being evaluated, and however it
ends it has undone all of that. What stays is that declarations which were pending are now bound in
the root: `Machine.GrowsBy added` says so, with the new entries of the root in their order. It holds
before and after every evaluation, from any machine whatever.

A machine on which nothing is pending therefore keeps its environment.
-/

namespace QLanguage

open Step Eval

/-! ## Growth of the root -/

/-- The second machine is the first one with some pending declarations bound in the root. -/
structure Machine.GrowsBy (added : List (String × Expr)) (m m' : Machine) : Prop where
  /-- The inner scopes are the same. -/
  inner : m'.env.inner = m.env.inner
  /-- The same declarations are being evaluated. -/
  evaluating : m'.evaluating = m.evaluating
  /-- The root has the new entries behind the old ones. -/
  root : m'.env.root.entries = m.env.root.entries ++ added
  /-- The names that are bound are not pending any more. -/
  pending : ∀ name, m'.pending.get? name =
    if name ∈ added.map Prod.fst then none else m.pending.get? name
  /-- The names that are bound were pending, not being evaluated, and not bound in the root. -/
  fresh : ∀ name ∈ added.map Prod.fst,
    m.pending.get? name ≠ none ∧ name ∉ m.evaluating ∧ m.env.root.get? name = none

namespace Machine.GrowsBy

variable {m m' m'' : Machine} {added more : List (String × Expr)} {name : String} {expr : Expr}

/-- A machine that stays the same grows by nothing. -/
theorem refl (m : Machine) : m.GrowsBy [] m :=
  ⟨rfl, rfl, (List.append_nil _).symm, fun _ => rfl, fun _ h => absurd h List.not_mem_nil⟩

/-- What the root binds stays bound. -/
theorem within (h : m.GrowsBy added m') : m.env.root.Within m'.env.root := by
  have hroot : m'.env.root = ⟨m.env.root.entries ++ added⟩ := congrArg Table.mk h.root
  rw [hroot]
  exact Table.within_append m.env.root.entries added

/-- A name that is neither in the root nor among the new entries is not in the new root. -/
theorem get?_eq_none (h : m.GrowsBy added m') (hroot : m.env.root.get? name = none)
    (hadded : name ∉ added.map Prod.fst) : m'.env.root.get? name = none := by
  rw [Table.get?_eq_none_iff] at hroot ⊢
  rw [Table.names, h.root, List.map_append, List.mem_append]
  rintro (hmem | hmem)
  · exact hroot hmem
  · exact hadded hmem

/-- A machine that grows and grows again has grown by both. -/
theorem trans (h : m.GrowsBy added m') (h' : m'.GrowsBy more m'') :
    m.GrowsBy (added ++ more) m'' where
  inner := h'.inner.trans h.inner
  evaluating := h'.evaluating.trans h.evaluating
  root := by rw [h'.root, h.root, List.append_assoc]
  pending := by
    intro name
    rw [h'.pending, h.pending, List.map_append]
    -- A name that was bound by either growth is not pending, any other one is as before.
    by_cases hmore : name ∈ more.map Prod.fst <;> by_cases hadded : name ∈ added.map Prod.fst <;>
      simp [hmore, hadded]
  fresh := by
    intro name hname
    rw [List.map_append, List.mem_append] at hname
    rcases hname with hadded | hmore
    · exact h.fresh name hadded
    · obtain ⟨hpending, hevaluating, hroot⟩ := h'.fresh name hmore
      -- What is pending after the first growth was pending before it.
      rw [h.pending] at hpending
      rw [h.evaluating] at hevaluating
      refine ⟨fun hnone => hpending ?_, hevaluating, ?_⟩
      · rw [hnone, ite_self]
      · rw [Table.get?_eq_none_iff] at hroot ⊢
        intro hmem
        refine hroot ?_
        rw [Table.names, h.root, List.map_append]
        exact List.mem_append_left _ hmem

/-- Printing changes neither scopes nor declarations. -/
theorem printed (m : Machine) (text : String) : m.GrowsBy [] (m.printed text) :=
  ⟨rfl, rfl, (List.append_nil _).symm, fun _ => rfl, fun _ h => absurd h List.not_mem_nil⟩

/-- A scope that was opened is closed again. -/
theorem left {bindings : List (String × Expr)} (h : (m.entered bindings).GrowsBy added m') :
    m.GrowsBy added m'.left where
  inner := by
    -- The evaluation inside has left the scope where it was, as the innermost one.
    have hinner : m'.env.inner = Table.empty.setAll bindings :: m.env.inner := h.inner
    show m'.env.inner.drop 1 = m.env.inner
    rw [hinner]
    rfl
  evaluating := h.evaluating
  root := h.root
  pending := h.pending
  fresh := h.fresh

/-- When the evaluation of a declaration halts, its mark is taken off. -/
theorem ended (h : (m.begun name).GrowsBy added m') : m.GrowsBy added (m'.ended name) where
  inner := h.inner
  evaluating := by
    show m'.evaluating.erase name = m.evaluating
    rw [h.evaluating]
    exact List.erase_cons_head name m.evaluating
  root := h.root
  pending := h.pending
  fresh := by
    intro other hother
    obtain ⟨hpending, hevaluating, hroot⟩ := h.fresh other hother
    exact ⟨hpending, fun hmem => hevaluating (List.mem_cons_of_mem name hmem), hroot⟩

/-- When the evaluation of a declaration gives a value, its name goes to the end of the root. The
mark has kept the name from being bound in between. -/
theorem bound (h : (m.begun name).GrowsBy added m') (value : Expr)
    (hroot : m.env.root.get? name = none) (hpending : m.pending.get? name = some expr)
    (hfresh : name ∉ m.evaluating) :
    m.GrowsBy (added ++ [(name, value)]) ((m'.ended name).bound name value) := by
  have hmarked : name ∉ added.map Prod.fst := fun hmem =>
    (h.fresh name hmem).2.1 List.mem_cons_self
  have hended : m.GrowsBy added (m'.ended name) := h.ended
  have hbound : (m'.ended name).GrowsBy [(name, value)] ((m'.ended name).bound name value) := by
    -- So the name is still new to the root when its value is there.
    have hnone : (m'.ended name).env.root.get? name = none := hended.get?_eq_none hroot hmarked
    refine ⟨rfl, rfl, Table.entries_set_of_get?_eq_none value hnone, fun other => ?_, ?_⟩
    · show ((m'.ended name).pending.erase name).get? other = _
      rw [Table.get?_erase]
      simp only [List.map_cons, List.map_nil, List.mem_singleton]
    · intro other hother
      obtain rfl : other = name := by simpa using hother
      refine ⟨?_, ?_, hnone⟩
      · rw [hended.pending, if_neg hmarked, hpending]
        exact Option.some_ne_none expr
      · rw [hended.evaluating]
        exact hfresh
  exact hended.trans hbound

end Machine.GrowsBy

/-- The second machine is the first one with nothing but pending declarations bound in the root. -/
def Machine.Grows (m m' : Machine) : Prop := ∃ added, m.GrowsBy added m'

instance : Std.Refl Machine.Grows := ⟨fun m => ⟨[], .refl m⟩⟩

instance : Trans Machine.Grows Machine.Grows Machine.Grows where
  trans := fun ⟨_, h⟩ ⟨_, h'⟩ => ⟨_, h.trans h'⟩

/-- Every part of an evaluation lets a machine grow. -/
theorem framed_grows : Framed (fun _ => True) Machine.Grows where
  calls := fun _ _ => trivial
  printed := fun m text => ⟨[], .printed m text⟩
  ended := fun _ _ ⟨added, h⟩ => ⟨added, h.ended⟩
  bound := by
    rintro depth e expr value name m m' - asks - ⟨added, h⟩
    have hroot := (Environment.lookup?_eq_none_iff.1 asks.unbound).2
    exact ⟨_, h.bound value hroot asks.pending asks.fresh⟩
  left := fun _ ⟨added, h⟩ => ⟨added, h.left⟩

/-- However an evaluation ends, the machine has grown. -/
theorem grows_eval (depth : Nat) (e : Expr) (m : Machine) :
    m.Grows ((eval depth e).run m).2 := framed_grows.eval depth e m trivial

/-- What an evaluation has bound stays bound. -/
theorem Machine.Grows.within {m m' : Machine} (h : m.Grows m') :
    m.env.root.Within m'.env.root := by
  obtain ⟨added, h⟩ := h
  exact h.within

/-- An evaluation leaves the inner scopes as they were. -/
theorem Machine.Grows.inner_eq {m m' : Machine} (h : m.Grows m') :
    m'.env.inner = m.env.inner := by
  obtain ⟨added, h⟩ := h
  exact h.inner

/-- However the evaluation of some expressions ends, the machine has grown. -/
theorem grows_all (depth : Nat) (es : List Expr) (m : Machine) :
    m.Grows ((all (eval depth) es).run m).2 :=
  all_keeps fun _ arg _ _ mid _ _ => grows_eval depth arg mid

/-- However the look-up of a name ends, the machine has grown. -/
theorem grows_resolve (depth : Nat) (name : String) (m : Machine) :
    m.Grows ((resolve (eval depth) name).run m).2 := grows_eval (depth + 1) (.variable name) m

/-- However the application of a function ends, the machine has grown. -/
theorem grows_apply (depth : Nat) (name : String) (args : List Expr) (callee : Expr) (m : Machine) :
    m.Grows ((Eval.apply (eval depth) name args callee).run m).2 := by
  cases callee with
  | string _ => exact Std.Refl.refl m
  | «variable» _ => exact Std.Refl.refl m
  | call _ _ => exact Std.Refl.refl m
  | function first others =>
    refine run_bind_keeps (grows_all depth args m) fun values mid _ => ?_
    rw [dispatch]
    rcases selectClause? (first :: others) values with _ | ⟨bindings, body⟩
    · exact Std.Refl.refl mid
    · dsimp only
      rw [run_inScope]
      obtain ⟨added, h⟩ := grows_eval depth body (mid.entered bindings)
      exact ⟨added, h.left⟩

/-- A machine on which nothing is pending grows by nothing. -/
theorem Machine.GrowsBy.eq_nil {m m' : Machine} {added : List (String × Expr)}
    (h : m.GrowsBy added m') (hpending : m.pending = .empty) : added = [] := by
  cases added with
  | nil => rfl
  | cons entry more =>
    have hne := (h.fresh entry.1 List.mem_cons_self).1
    rw [hpending] at hne
    exact absurd rfl hne

/-- When nothing is pending, an evaluation changes neither scopes nor declarations. -/
theorem Machine.Grows.unchanged {m m' : Machine} (h : m.Grows m') (hpending : m.pending = .empty) :
    m'.env = m.env ∧ m'.pending = .empty ∧ m'.evaluating = m.evaluating := by
  obtain ⟨added, h⟩ := h
  obtain rfl : added = [] := h.eq_nil hpending
  have hroot : m'.env.root = m.env.root := by
    have hentries := h.root
    rw [List.append_nil] at hentries
    exact congrArg Table.mk hentries
  have henv : m'.env = m.env := by
    calc m'.env = ⟨m'.env.root, m'.env.inner⟩ := rfl
      _ = ⟨m.env.root, m.env.inner⟩ := by rw [hroot, h.inner]
  refine ⟨henv, Table.eq_empty_of_get?_eq_none fun name => ?_, h.evaluating⟩
  rw [h.pending, hpending]
  exact ite_self none

end QLanguage
