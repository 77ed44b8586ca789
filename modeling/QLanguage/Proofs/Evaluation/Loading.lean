import QLanguage.Proofs.Evaluation.Frame
import QLanguage.Proofs.Evaluation.Output

/-!
# Loading

Loading some declarations evaluates them in their turn, and each of them once. As long as it goes
on, no pending name is bound in the root (`Machine.Apart`), so whatever is bound comes new to the
root. When it succeeds, nothing is pending and every declared name is bound.
-/

namespace QLanguage

open Step Eval

/-! ## The machine before loading -/

/-- The last declaration of a name counts. -/
theorem get?_pending_start (items : List Declaration) (name : String) :
    (Machine.start items).pending.get? name =
      (items.map fun d => (d.name, d.value)).reverse.lookup name := by
  have hstart : (Machine.start items).pending =
      Table.empty.setAll (items.map fun d => (d.name, d.value)) := rfl
  rw [hstart, Table.get?_setAll]
  exact Option.or_none

/-- The pending names are those of the declarations. -/
theorem pending_start_ne_none_iff {items : List Declaration} {name : String} :
    (Machine.start items).pending.get? name ≠ none ↔ ∃ d ∈ items, d.name = name := by
  rw [get?_pending_start, ← Option.isSome_iff_ne_none, List.lookup_isSome_iff]
  constructor
  · rintro ⟨entry, hentry, hname⟩
    rw [List.mem_reverse, List.mem_map] at hentry
    obtain ⟨d, hd, rfl⟩ := hentry
    exact ⟨d, hd, (beq_iff_eq.1 hname).symm⟩
  · rintro ⟨d, hd, rfl⟩
    refine ⟨(d.name, d.value), ?_, beq_self_eq_true d.name⟩
    rw [List.mem_reverse]
    exact List.mem_map_of_mem hd

/-- A declaration with none of its name behind it is pending with its value. -/
theorem pending_start_of_last {before after : List Declaration} {d : Declaration}
    (hafter : d.name ∉ after.map Declaration.name) :
    (Machine.start (before ++ d :: after)).pending.get? d.name = some d.value := by
  rw [get?_pending_start, List.lookup_eq_some_iff]
  refine ⟨(after.map fun d => (d.name, d.value)).reverse,
    (before.map fun d => (d.name, d.value)).reverse, by simp, ?_⟩
  intro entry hentry
  rw [List.mem_reverse, List.mem_map] at hentry
  obtain ⟨other, hother, rfl⟩ := hentry
  have hne : d.name ≠ other.name := fun heq => hafter (heq ▸ List.mem_map_of_mem hother)
  simpa using hne

/-- Among declarations with different names, each is pending with its value. -/
theorem pending_start_of_nodup {items : List Declaration}
    (hnodup : (items.map Declaration.name).Nodup) {d : Declaration} (hd : d ∈ items) :
    (Machine.start items).pending.get? d.name = some d.value := by
  obtain ⟨before, after, rfl⟩ := List.append_of_mem hd
  rw [List.map_append, List.map_cons, List.nodup_append, List.nodup_cons] at hnodup
  obtain ⟨-, ⟨hafter, -⟩, -⟩ := hnodup
  exact pending_start_of_last hafter

/-! ## Apart -/

/-- No pending name is bound in the root. -/
def Machine.Apart (m : Machine) : Prop :=
  ∀ name, m.pending.get? name ≠ none → m.env.root.get? name = none

/-- Before loading, nothing is bound. -/
theorem Machine.apart_start (items : List Declaration) : (Machine.start items).Apart :=
  fun _ _ => rfl

/-- What is pending and what is bound stay apart while a machine grows. -/
theorem Machine.Apart.grows {m m' : Machine} (hm : m.Apart) (h : m.Grows m') : m'.Apart := by
  obtain ⟨added, h⟩ := h
  intro name hpending
  rw [h.pending] at hpending
  by_cases hadded : name ∈ added.map Prod.fst
  · rw [if_pos hadded] at hpending
    exact absurd rfl hpending
  · rw [if_neg hadded] at hpending
    exact h.get?_eq_none (hm name hpending) hadded

/-- A relation by which machines grow, and that holds before and after the evaluation of each
declaration in its turn, holds before and after all of them. -/
theorem forceAll_keeps {R : Machine → Machine → Prop} [Std.Refl R] [Trans R R R] {depth : Nat}
    {items : List Declaration} {m : Machine} (hm : m.Apart)
    (hgrows : ∀ {m m'}, R m m' → m.Grows m')
    (h : ∀ before d after expr mid, items = before ++ d :: after →
      (forceAll depth before).run m = (.ok (), mid) → mid.Apart →
      mid.pending.get? d.name = some expr →
      R mid ((force (eval depth) d.name expr).run mid).2) :
    R m ((forceAll depth items).run m).2 := by
  induction items generalizing m with
  | nil => exact Std.Refl.refl m
  | cons d ds ih =>
    rcases hpending : m.pending.get? d.name with _ | expr
    · -- The declaration was evaluated before its turn.
      rw [run_forceAll_done hpending]
      refine ih hm fun before other after expr mid hds hbefore => ?_
      exact h (d :: before) other after expr mid (by rw [hds]; rfl)
        ((run_forceAll_done hpending).trans hbefore)
    · have hfirst := h [] d ds expr m rfl rfl hm hpending
      rw [run_forceAll_pending hpending]
      refine run_bind_keeps hfirst fun value next hforce => ?_
      rw [hforce] at hfirst
      refine ih (hm.grows (hgrows hfirst)) fun before other after expr mid hds hbefore => ?_
      refine h (d :: before) other after expr mid (by rw [hds]; rfl) ?_
      rw [run_forceAll_pending hpending, run_bind_ok hforce]
      exact hbefore

/-- However the evaluation of a pending declaration ends, the machine has grown. -/
theorem grows_force {m : Machine} {name : String} {expr : Expr} (depth : Nat)
    (hroot : m.env.root.get? name = none) (hpending : m.pending.get? name = some expr) :
    m.Grows ((force (eval depth) name expr).run m).2 := by
  by_cases hmem : name ∈ m.evaluating
  · rw [run_force_cyclic hmem]
    exact Std.Refl.refl m
  · obtain ⟨added, h⟩ := grows_eval depth expr (m.begun name)
    rw [run_force hmem]
    rcases hrun : (eval depth expr).run (m.begun name) with ⟨halt | value, m'⟩ <;> rw [hrun] at h
    · exact ⟨added, h.ended⟩
    · exact ⟨_, h.bound value hroot hpending hmem⟩

/-- However the evaluation of declarations ends, the machine has grown. -/
theorem grows_forceAll (depth : Nat) (items : List Declaration) {m : Machine} (hm : m.Apart) :
    m.Grows ((forceAll depth items).run m).2 := by
  refine forceAll_keeps hm id fun _ d _ expr mid _ _ hmid hpending => ?_
  have hroot : mid.env.root.get? d.name = none := hmid d.name (by rw [hpending]; simp)
  exact grows_force depth hroot hpending

/-- Between declarations, nothing is being evaluated. -/
theorem evaluating_forceAll {depth : Nat} {items before : List Declaration} {m : Machine}
    (h : (forceAll depth before).run (Machine.start items) = (.ok (), m)) : m.evaluating = [] := by
  obtain ⟨added, hgrows⟩ := grows_forceAll depth before (Machine.apart_start items)
  rw [h] at hgrows
  exact hgrows.evaluating

/-- So no declaration is, when its turn comes. -/
theorem not_mem_evaluating_forceAll {depth : Nat} {items before : List Declaration} {m : Machine}
    (h : (forceAll depth before).run (Machine.start items) = (.ok (), m)) (name : String) :
    name ∉ m.evaluating := by
  rw [evaluating_forceAll h]
  exact List.not_mem_nil

/-! ## The machine after loading -/

/-- A name that is not pending does not become pending. -/
theorem Machine.Grows.pending_eq_none {m m' : Machine} {name : String} (h : m.Grows m')
    (hnone : m.pending.get? name = none) : m'.pending.get? name = none := by
  obtain ⟨added, h⟩ := h
  rw [h.pending, hnone, ite_self]

/-- When declarations have been evaluated, none of them is pending. -/
theorem pending_forceAll {depth : Nat} {items : List Declaration} {m m' : Machine} (hm : m.Apart)
    (h : (forceAll depth items).run m = (.ok (), m')) :
    ∀ d ∈ items, m'.pending.get? d.name = none := by
  induction items generalizing m with
  | nil => exact fun d hd => absurd hd List.not_mem_nil
  | cons d ds ih =>
    -- The first declaration is not pending before the others are evaluated.
    have hstep : ∃ mid : Machine, mid.Apart ∧ mid.pending.get? d.name = none ∧
        (forceAll depth ds).run mid = (.ok (), m') := by
      rcases hpending : m.pending.get? d.name with _ | expr
      · rw [run_forceAll_done hpending] at h
        exact ⟨m, hm, hpending, h⟩
      · rw [run_forceAll_pending hpending, run_bind_eq_ok_iff] at h
        obtain ⟨value, mid, hforce, hrest⟩ := h
        have hroot : m.env.root.get? d.name = none := hm d.name (by rw [hpending]; simp)
        have hgrows := grows_force depth hroot hpending
        rw [hforce] at hgrows
        refine ⟨mid, hm.grows hgrows, ?_, hrest⟩
        -- Binding it took it out of the pending declarations.
        obtain ⟨-, last, -, rfl⟩ := run_force_eq_ok_iff.1 hforce
        show (last.pending.erase d.name).get? d.name = none
        rw [Table.get?_erase, if_pos rfl]
    obtain ⟨mid, hmid, hnone, hrest⟩ := hstep
    intro other hother
    rcases List.mem_cons.1 hother with rfl | hmem
    · have hgrows := grows_forceAll depth ds hmid
      rw [hrest] at hgrows
      exact hgrows.pending_eq_none hnone
    · exact ih hmid hrest other hmem

/-- However loading ends, the root has the entries that the machine has grown by. -/
theorem growsBy_load {depth : Nat} {program : Module} {result : Except Halt Unit} {m : Machine}
    (h : Machine.load depth program = (result, m)) :
    (Machine.start program.items).GrowsBy m.env.root.entries m := by
  obtain ⟨added, hgrows⟩ := grows_forceAll depth program.items (Machine.apart_start program.items)
  have hrun : (forceAll depth program.items).run (Machine.start program.items) = (result, m) := h
  rw [hrun] at hgrows
  -- The root was empty before.
  have hadded : m.env.root.entries = added := hgrows.root
  rw [hadded]
  exact hgrows

/-- When a module has been loaded, nothing is pending. -/
theorem pending_load {depth : Nat} {program : Module} {m : Machine}
    (h : Machine.load depth program = (.ok (), m)) : m.pending = .empty := by
  refine Table.eq_empty_of_get?_eq_none fun name => ?_
  have hgrows : (Machine.start program.items).Grows m := ⟨_, growsBy_load h⟩
  rcases hstart : (Machine.start program.items).pending.get? name with _ | expr
  · exact hgrows.pending_eq_none hstart
  · obtain ⟨d, hd, rfl⟩ := pending_start_ne_none_iff.1 (by rw [hstart]; simp)
    exact pending_forceAll (Machine.apart_start program.items) h d hd

end QLanguage
