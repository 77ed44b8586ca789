import QLanguage.Proofs.Evaluation.Parallel

/-!
# Output

What has been printed is never read back: a text in front of it stays there, and no evaluation does
anything else because of it. So two machines that differ in what has been printed alone give the
same result for every expression.
-/

namespace QLanguage

open Step Eval

/-- The machine with a text in front of what has been printed. -/
def Machine.prepend (text : String) (m : Machine) : Machine :=
  { m with output := text ++ m.output }

/-- What is printed stands behind what has been printed. -/
theorem Machine.printed_prepend (m : Machine) (text more : String) :
    (m.prepend text).printed more = (m.printed more).prepend text := by
  simp only [printed, prepend, String.append_assoc]

/-- The machine without what has been printed. -/
def Machine.silent (m : Machine) : Machine := { m with output := "" }

/-- What has been printed stands in front of nothing. -/
theorem Machine.prepend_silent (m : Machine) : m.silent.prepend m.output = m := by
  simp [Machine.silent, Machine.prepend]

/-! ## Evaluations that do not see it -/

/-- A machine and the one with a text in front evaluate all expressions side by side. -/
theorem parallel_prepend (text : String) :
    Parallel (fun _ => True) (fun _ => True) (fun _ => True)
      (fun m m' => m' = m.prepend text) where
  tooDeep := trivial
  undefined _ := trivial
  cyclic _ := trivial
  notFunction _ _ := trivial
  noClause _ := trivial
  done := trivial
  ofVariable _ := trivial
  ofCall _ _ := trivial
  args _ _ _ := trivial
  body _ _ _ := trivial
  evaluating h := by
    rw [h]
    rfl
  lookup h _ := congrArg (Environment.lookup? ·.env _) h
  ofLookup _ _ _ := trivial
  pending h _ := congrArg (Table.get? ·.pending _) h
  ofPending _ _ _ := trivial
  begun h _ := congrArg (Machine.begun · _) h
  ended h _ := congrArg (Machine.ended · _) h
  bound h _ _ := congrArg (Machine.bound · _ _) h
  defined h _ := congrArg (Machine.defined · _ _) h
  entered h _ := congrArg (Machine.entered · _) h
  left h := congrArg Machine.left h
  printed {m _ values} h _ := by rw [h, m.printed_prepend]

/-- An evaluation does not see what has been printed. -/
theorem commutes_eval (text : String) (depth : Nat) (e : Expr) :
    Commutes (Machine.prepend text) (eval depth e) := by
  intro m
  obtain ⟨hend, hstate⟩ := (parallel_prepend text).eval depth (e := e) trivial m _ rfl
  exact Prod.ext hend.eq hstate

/-- Machines that differ in what has been printed alone give the same result. -/
theorem eval_result_eq_of_silent_eq (depth : Nat) (e : Expr) {m n : Machine}
    (h : m.silent = n.silent) : ((eval depth e).run m).1 = ((eval depth e).run n).1 := by
  have hsilent : ∀ m : Machine, ((eval depth e).run m).1 = ((eval depth e).run m.silent).1 := by
    intro m
    have hrun := commutes_eval m.output depth e m.silent
    rw [m.prepend_silent] at hrun
    rw [hrun]
  rw [hsilent m, hsilent n, h]

end QLanguage
