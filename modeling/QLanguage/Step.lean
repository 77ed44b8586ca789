/-!
# Steps

Reading, evaluation and sessions all work in steps: a step may change a state, and it gives a result
or ends with an error. A step that ends with an error keeps what it has changed, so that whoever
catches the error goes on from there.
-/

namespace QLanguage

/-- A step on a state of type `σ` with a result of type `α` or an error of type `ε`. -/
def Step (ε σ α : Type) : Type := σ → Except ε α × σ

namespace Step

variable {ε σ α β : Type}

/-- Takes a step from a state. -/
def run (step : Step ε σ α) (state : σ) : Except ε α × σ := step state

instance : Monad (Step ε σ) where
  pure a := fun state => (.ok a, state)
  bind step next := fun state =>
    match step state with
    | (.ok a, state) => next a state
    | (.error e, state) => (.error e, state)

instance : MonadStateOf σ (Step ε σ) where
  get := fun state => (.ok state, state)
  set state := fun _ => (.ok ⟨⟩, state)
  modifyGet f := fun state =>
    match f state with
    | (a, state) => (.ok a, state)

instance : MonadExceptOf ε (Step ε σ) where
  throw e := fun state => (.error e, state)
  tryCatch step handle := fun state =>
    match step state with
    | (.ok a, state) => (.ok a, state)
    | (.error e, state) => handle e state

/-- A step of its result alone changes nothing. -/
@[simp] theorem run_pure (a : α) (state : σ) :
    (pure a : Step ε σ α).run state = (.ok a, state) := rfl

/-- The second of two steps starts where the first one ended, unless that ended with an error. -/
theorem run_bind (step : Step ε σ α) (next : α → Step ε σ β) (state : σ) :
    (step >>= next).run state =
      match step.run state with
      | (.ok a, state) => (next a).run state
      | (.error e, state) => (.error e, state) := rfl

/-- Reading the state changes nothing. -/
@[simp] theorem run_get (state : σ) : (get : Step ε σ σ).run state = (.ok state, state) := rfl

/-- Setting the state forgets the old one. -/
@[simp] theorem run_set (new state : σ) :
    (set new : Step ε σ PUnit).run state = (.ok ⟨⟩, new) := rfl

/-- Modifying the state applies the change to it. -/
@[simp] theorem run_modify (change : σ → σ) (state : σ) :
    (modify change : Step ε σ PUnit).run state = (.ok ⟨⟩, change state) := rfl

/-- An error changes nothing. -/
@[simp] theorem run_throw (e : ε) (state : σ) :
    (throw e : Step ε σ α).run state = (.error e, state) := rfl

/-- An error is handled from where the step ended. -/
theorem run_tryCatch (step : Step ε σ α) (handle : ε → Step ε σ α) (state : σ) :
    (tryCatch step handle).run state =
      match step.run state with
      | (.ok a, state) => (.ok a, state)
      | (.error e, state) => (handle e).run state := rfl

/-- A step is known by what it does to every state. -/
theorem ext {step step' : Step ε σ α} (h : ∀ state, step.run state = step'.run state) :
    step = step' := funext h

/-- Steps may be grouped freely, and steps of a result alone may be left out. -/
instance : LawfulMonad (Step ε σ) :=
  LawfulMonad.mk' (Step ε σ)
    (fun step => ext fun state => by
      change (match step.run state with
        | (.ok a, state) => (.ok a, state)
        | (.error e, state) => (.error e, state)) = step.run state
      rcases step.run state with ⟨_ | _, _⟩ <;> rfl)
    (fun _ _ => rfl)
    (fun step _ _ => ext fun state => by
      rw [run_bind, run_bind, run_bind]
      rcases step.run state with ⟨_ | _, _⟩ <;> rfl)

/-- Takes a step and then, whether it ended with an error or not, changes the state. -/
def andThen (step : Step ε σ α) (change : σ → σ) : Step ε σ α := fun state =>
  match step state with
  | (result, state) => (result, change state)

/-- The change is made on both ways out. -/
theorem run_andThen (step : Step ε σ α) (change : σ → σ) (state : σ) :
    (step.andThen change).run state = ((step.run state).1, change (step.run state).2) := rfl

end Step

end QLanguage
