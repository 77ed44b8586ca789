import QLanguage.Proofs.Evaluation.Loading

/-!
# The scopes after an evaluation

However an evaluation ends, the scopes are those there were before, except that the root may have
got new names behind its old ones, and those were pending (`ScopesKept`). Once a module is loaded
nothing is pending, so evaluations leave the environment as it is; and as what has been printed is
never read back, no result depends on what was evaluated, or failed, before.
-/

namespace QLanguage

open Step Eval

/-- The second environment has the scopes of the first, and no new name in the root but pending
ones. -/
structure ScopesKept (pending : Table Expr) (env env' : Environment) : Prop where
  /-- There are as many scopes. -/
  depth : env'.depth = env.depth
  /-- The innermost scope has the same number. -/
  current : env'.current = env.current
  /-- The scopes inside the root have the same bindings. -/
  inner : env'.inner = env.inner
  /-- The root has all its entries, in their places. -/
  entries : env.root.entries <+: env'.root.entries
  /-- What the root binds keeps its value. -/
  root : env.root.Within env'.root
  /-- A name that is new in the root was pending. -/
  new : ∀ name, env.root.get? name = none → env'.root.get? name ≠ none → pending.get? name ≠ none

/-- A machine that grows keeps its scopes. -/
theorem Machine.GrowsBy.scopesKept {added : List (String × Expr)} {m m' : Machine}
    (h : m.GrowsBy added m') : ScopesKept m.pending m.env m'.env := by
  have hdepth : m'.env.depth = m.env.depth := by
    unfold Environment.depth
    rw [h.inner]
  have hcurrent : m'.env.current = m.env.current := by
    unfold Environment.current
    rw [hdepth]
  refine ⟨hdepth, hcurrent, h.inner, ⟨added, h.root.symm⟩, h.within, ?_⟩
  intro name hnone hnew
  by_cases hadded : name ∈ added.map Prod.fst
  · exact (h.fresh name hadded).1
  · exact absurd (h.get?_eq_none hnone hadded) hnew

/-- The machine after some evaluations, each with its levels, whether they gave a value or not. -/
def Machine.after (m : Machine) (history : List (Nat × Expr)) : Machine :=
  history.foldl (fun m past => ((eval past.1 past.2).run m).2) m

/-- When nothing is pending, evaluations leave nothing behind but what they printed. -/
theorem Machine.silent_after {m : Machine} (hm : m.pending = .empty) (history : List (Nat × Expr)) :
    (m.after history).silent = m.silent := by
  induction history generalizing m with
  | nil => rfl
  | cons past more ih =>
    obtain ⟨henv, hpending, hevaluating⟩ := (grows_eval past.1 past.2 m).unchanged hm
    calc (m.after (past :: more)).silent
        = (((eval past.1 past.2).run m).2.after more).silent := rfl
      _ = ((eval past.1 past.2).run m).2.silent := ih hpending
      _ = m.silent := by
        unfold Machine.silent
        rw [henv, hpending, hevaluating, hm]

/-- However an evaluation ends, the scopes are as before but for pending names that are bound in the
root. Once a module is loaded nothing is pending, and then evaluations change no scope at all, and
the result of an expression does not depend on what was evaluated before it. -/
theorem eval_keeps_scopes (depth : Nat) (e : Expr) :
    (∀ m : Machine, ScopesKept m.pending m.env ((eval depth e).run m).2.env) ∧
    (∀ levels program m, Machine.load levels program = (.ok (), m) → m.pending = .empty) ∧
    ∀ m : Machine, m.pending = .empty → ∀ history : List (Nat × Expr),
      (m.after history).env = m.env ∧
      ((eval depth e).run (m.after history)).2.env = m.env ∧
      ((eval depth e).run (m.after history)).1 = ((eval depth e).run m).1 := by
  refine ⟨?_, fun levels program m => pending_load, ?_⟩
  · intro m
    obtain ⟨added, hgrows⟩ := grows_eval depth e m
    exact hgrows.scopesKept
  · intro m hm history
    -- All that is left of the history is what it printed.
    have hsilent : (m.after history).silent = m.silent := Machine.silent_after hm history
    have henv : (m.after history).silent.env = m.silent.env := by rw [hsilent]
    have hpending : (m.after history).silent.pending = m.silent.pending := by rw [hsilent]
    have hkept := ((grows_eval depth e (m.after history)).unchanged (hpending.trans hm)).1
    exact ⟨henv, hkept.trans henv, eval_result_eq_of_silent_eq depth e hsilent⟩

/-- Declares a function that calls its argument. -/
def callingModule : Module := ⟨"m", [⟨"f", .function (.mk [.bind "x"] (.call "x" [])) []⟩]⟩

/-- After a call that failed inside a scope of its own, a loaded module gives the same results. -/
theorem eval_keeps_scopes_after_failure :
    ∃ m, Machine.load 3 callingModule = (.ok (), m) ∧
      ((eval 3 (.call "f" [.string "a"])).run m).1 =
        .error (.error (.notFunction "x" (.string "a"))) ∧
      (m.after [(3, .call "f" [.string "a"])]).env = m.env ∧
      ((eval 3 (.variable "x")).run (m.after [(3, .call "f" [.string "a"])])).1 =
        ((eval 3 (.variable "x")).run m).1 := by
  refine ⟨_, rfl, rfl, ?_⟩
  have hkept := eval_keeps_scopes 3 (.variable "x")
  have hpending := hkept.2.1 3 callingModule _ rfl
  obtain ⟨henv, -, hresult⟩ := hkept.2.2 _ hpending [(3, .call "f" [.string "a"])]
  exact ⟨henv, hresult⟩

end QLanguage
