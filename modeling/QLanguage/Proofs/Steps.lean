import Mathlib.Control.Monad.Basic
import QLanguage.Step

/-!
# Relations on steps

Six relations carry the proofs about readings, evaluations and sessions. `Keeps R` says that a
step, however it ends, leaves a state that `R` relates to the one it started from. `Simulates view`
says that a step on one sort of state does what another does on what is seen of it, and
`Commutes change` is the special case of one step on a changed state: it does not see the change.
`AgreesUnless limit` says that two steps do the same unless the first one ends with the error
`limit`; with `limit` the error of running out of levels, it says that more levels never change a
finished answer. `Relates R E A` says that two steps from states that `R` relates end alike, and
again in such states. `Maintains I E A` is the special case of one step beside itself: an invariant,
with what is known of the results and of the errors.

They are closed under the ways in which steps are put together, so a function that is made of steps
is proved to keep a relation, or to agree with another, by going through its parts.
-/

namespace QLanguage.Step

variable {ε ε' σ σ' τ α α' β β' : Type}

/-! ## Steps in a row -/

/-- Behind a step that gives a result, the next one goes on from there. -/
theorem run_bind_ok {step : Step ε σ α} {next : α → Step ε σ β} {s t : σ} {a : α}
    (h : step.run s = (.ok a, t)) : (step >>= next).run s = (next a).run t := by
  rw [run_bind, h]

/-- Behind a step that ends with an error, the next one is not taken. -/
theorem run_bind_error {step : Step ε σ α} {next : α → Step ε σ β} {s t : σ} {e : ε}
    (h : step.run s = (.error e, t)) : (step >>= next).run s = (.error e, t) := by
  rw [run_bind, h]

/-- Two steps give a result exactly when the first gives one and the second goes on from there. -/
theorem run_bind_eq_ok_iff {step : Step ε σ α} {next : α → Step ε σ β} {s t : σ} {b : β} :
    (step >>= next).run s = (.ok b, t) ↔
      ∃ a mid, step.run s = (.ok a, mid) ∧ (next a).run mid = (.ok b, t) := by
  constructor
  · intro h
    rcases hstep : step.run s with ⟨e | a, mid⟩
    · rw [run_bind_error hstep] at h
      cases h
    · rw [run_bind_ok hstep] at h
      exact ⟨a, mid, rfl, h⟩
  · rintro ⟨a, mid, hstep, hnext⟩
    rw [run_bind_ok hstep, hnext]

/-! ## What a step keeps -/

/-- What a transitive relation says of a step, and of the next one from where the step ended, it
says of both in a row. -/
theorem run_bind_keeps {R : σ → σ → Prop} [Trans R R R] {step : Step ε σ α}
    {next : α → Step ε σ β} {s : σ} (hstep : R s (step.run s).2)
    (hnext : ∀ a t, step.run s = (.ok a, t) → R t ((next a).run t).2) :
    R s ((step >>= next).run s).2 := by
  rcases hrun : step.run s with ⟨e | a, t⟩ <;> rw [hrun] at hstep
  · rw [run_bind_error hrun]
    exact hstep
  · rw [run_bind_ok hrun]
    exact Trans.trans hstep (hnext a t hrun)

/-- However the step ends, `R` relates the state before it to the state after it. -/
def Keeps (R : σ → σ → Prop) (step : Step ε σ α) : Prop := ∀ s, R s (step.run s).2

namespace Keeps

variable {R : σ → σ → Prop}

/-- A step of its result alone keeps everything. -/
theorem pure [Std.Refl R] (a : α) : Keeps R (Pure.pure a : Step ε σ α) :=
  fun s => Std.Refl.refl s

/-- An error keeps everything. -/
theorem throw [Std.Refl R] (e : ε) : Keeps R (throw e : Step ε σ α) :=
  fun s => Std.Refl.refl s

/-- Reading the state keeps everything. -/
theorem get [Std.Refl R] : Keeps R (get : Step ε σ σ) := fun s => Std.Refl.refl s

/-- Two steps in a row keep what both keep. -/
theorem bind [Trans R R R] {step : Step ε σ α} {next : α → Step ε σ β} (hstep : Keeps R step)
    (hnext : ∀ a, Keeps R (next a)) : Keeps R (step >>= next) :=
  fun s => run_bind_keeps (hstep s) fun a t _ => hnext a t

/-- A handled step keeps what the step and its handler keep. -/
theorem tryCatch [Trans R R R] {step : Step ε σ α} {handle : ε → Step ε σ α}
    (hstep : Keeps R step) (hhandle : ∀ e, Keeps R (handle e)) :
    Keeps R (tryCatch step handle) := by
  intro s
  have hs := hstep s
  rw [run_tryCatch]
  rcases hrun : step.run s with ⟨e | a, t⟩ <;> rw [hrun] at hs
  · exact Trans.trans hs (hhandle e t)
  · exact hs

end Keeps

/-! ## Steps on what is seen of a state -/

/-- The second step does to what is seen of a state what the first does to the state itself. -/
def Simulates (view : σ → τ) (step : Step ε σ α) (step' : Step ε τ α) : Prop :=
  ∀ s, step'.run (view s) = ((step.run s).1, view (step.run s).2)

namespace Simulates

variable {view : σ → τ}

/-- A step of its result alone simulates itself. -/
theorem pure (a : α) :
    Simulates view (Pure.pure a : Step ε σ α) (Pure.pure a : Step ε τ α) := fun _ => rfl

/-- An error simulates itself. -/
theorem throw (e : ε) : Simulates view (throw e : Step ε σ α) (throw e : Step ε τ α) :=
  fun _ => rfl

/-- Steps in a row simulate steps in a row when each simulates its counterpart. -/
theorem bind {step : Step ε σ α} {step' : Step ε τ α} {next : α → Step ε σ β}
    {next' : α → Step ε τ β} (hstep : Simulates view step step')
    (hnext : ∀ a, Simulates view (next a) (next' a)) :
    Simulates view (step >>= next) (step' >>= next') := by
  intro s
  have hs := hstep s
  rcases hrun : step.run s with ⟨e | a, t⟩ <;> rw [hrun] at hs
  · rw [run_bind_error hs, run_bind_error hrun]
  · rw [run_bind_ok hs, run_bind_ok hrun]
    exact hnext a t

end Simulates

/-! ## Changes that a step does not see -/

/-- The step does the same from a changed state, and leaves the change in place. -/
def Commutes (change : σ → σ) (step : Step ε σ α) : Prop :=
  ∀ s, step.run (change s) = ((step.run s).1, change (step.run s).2)

namespace Commutes

variable {change : σ → σ}

/-- A step of its result alone sees no change. -/
theorem pure (a : α) : Commutes change (Pure.pure a : Step ε σ α) := fun _ => rfl

/-- Steps in a row see no change that none of them sees. -/
theorem bind {step : Step ε σ α} {next : α → Step ε σ β} (hstep : Commutes change step)
    (hnext : ∀ a, Commutes change (next a)) : Commutes change (step >>= next) :=
  Simulates.bind hstep hnext

end Commutes

/-! ## Agreement up to a limit -/

/-- The second step does the same as the first, unless that ends with the error `limit`. -/
def AgreesUnless (limit : ε) (step step' : Step ε σ α) : Prop :=
  ∀ s, (step.run s).1 = .error limit ∨ step.run s = step'.run s

namespace AgreesUnless

variable {limit : ε}

/-- A step agrees with itself. -/
theorem refl (step : Step ε σ α) : AgreesUnless limit step step := fun _ => .inr rfl

/-- A step that ends at the limit agrees with every step. -/
theorem throw (step : Step ε σ α) : AgreesUnless limit (throw limit) step := fun _ => .inl rfl

/-- Agreement goes through a step in between. -/
theorem trans {step step' step'' : Step ε σ α} (h : AgreesUnless limit step step')
    (h' : AgreesUnless limit step' step'') : AgreesUnless limit step step'' := by
  intro s
  rcases h s with hlimit | heq
  · exact .inl hlimit
  · rw [heq]
    exact h' s

/-- Steps in a row agree when their parts do. -/
theorem bind {step step' : Step ε σ α} {next next' : α → Step ε σ β}
    (h : AgreesUnless limit step step') (hnext : ∀ a, AgreesUnless limit (next a) (next' a)) :
    AgreesUnless limit (step >>= next) (step' >>= next') := by
  intro s
  rcases h s with hlimit | heq
  · rcases hrun : step.run s with ⟨e | a, t⟩ <;> rw [hrun] at hlimit
    · cases hlimit
      left
      rw [run_bind_error hrun]
    · cases hlimit
  · rcases hrun : step.run s with ⟨e | a, t⟩ <;> rw [hrun] at heq
    · right
      rw [run_bind_error hrun, run_bind_error heq.symm]
    · rw [run_bind_ok hrun, run_bind_ok heq.symm]
      exact hnext a t

/-- A step with a change behind it agrees when the step does. -/
theorem andThen {step step' : Step ε σ α} (h : AgreesUnless limit step step') (change : σ → σ) :
    AgreesUnless limit (step.andThen change) (step'.andThen change) := by
  intro s
  rw [run_andThen, run_andThen]
  rcases h s with hlimit | heq
  · exact .inl hlimit
  · rw [heq]
    exact .inr rfl

/-- Handled steps agree when the steps do and the handler passes the limit on. -/
theorem tryCatch {step step' : Step ε σ α} {handle : ε → Step ε σ α}
    (h : AgreesUnless limit step step') (hlimit : ∀ s, ((handle limit).run s).1 = .error limit) :
    AgreesUnless limit (tryCatch step handle) (tryCatch step' handle) := by
  intro s
  rw [run_tryCatch, run_tryCatch]
  rcases h s with hend | heq
  · rcases hrun : step.run s with ⟨e | a, t⟩ <;> rw [hrun] at hend
    · cases hend
      exact .inl (hlimit t)
    · cases hend
  · rw [heq]
    exact .inr rfl

/-- An answer that does not end at the limit is the other step's answer. -/
theorem run_eq {step step' : Step ε σ α} (h : AgreesUnless limit step step') {s : σ}
    (hs : (step.run s).1 ≠ .error limit) : step'.run s = step.run s := by
  rcases h s with hlimit | heq
  · exact absurd hlimit hs
  · exact heq.symm

end AgreesUnless

/-! ## Steps side by side -/

/-- Two ends of steps are alike: both are results that `A` relates, or both are errors that `E`
relates. -/
inductive Alike (E : ε → ε' → Prop) (A : α → α' → Prop) : Except ε α → Except ε' α' → Prop where
  /-- Both are results. -/
  | ok {a : α} {a' : α'} (h : A a a') : Alike E A (.ok a) (.ok a')
  /-- Both are errors. -/
  | error {e : ε} {e' : ε'} (h : E e e') : Alike E A (.error e) (.error e')

/-- Both are the same, and have a property. -/
def SameWith (P : α → Prop) (a a' : α) : Prop := a' = a ∧ P a

/-- Ends that are alike as the same results and errors are the same. -/
theorem Alike.eq {P : ε → Prop} {Q : α → Prop} {r r' : Except ε α}
    (h : Alike (SameWith P) (SameWith Q) r r') : r' = r := by
  cases h with
  | ok h => rw [h.1]
  | error h => rw [h.1]

/-- From states that `R` relates, both steps end alike, and `R` relates the states that they
leave. -/
def Relates (R : σ → σ' → Prop) (E : ε → ε' → Prop) (A : α → α' → Prop) (step : Step ε σ α)
    (step' : Step ε' σ' α') : Prop :=
  ∀ s s', R s s' →
    Alike E A (step.run s).1 (step'.run s').1 ∧ R (step.run s).2 (step'.run s').2

namespace Relates

variable {R : σ → σ' → Prop} {E : ε → ε' → Prop} {A : α → α' → Prop} {B : β → β' → Prop}

/-- Steps of related results alone are related. -/
theorem pure {a : α} {a' : α'} (h : A a a') :
    Relates R E A (Pure.pure a : Step ε σ α) (Pure.pure a' : Step ε' σ' α') :=
  fun _ _ hs => ⟨.ok h, hs⟩

/-- Related errors are related as steps. -/
theorem throw {e : ε} {e' : ε'} (h : E e e') :
    Relates R E A (throw e : Step ε σ α) (throw e' : Step ε' σ' α') :=
  fun _ _ hs => ⟨.error h, hs⟩

/-- Steps that read the state give related states. -/
theorem get : Relates R E R (get : Step ε σ σ) (get : Step ε' σ' σ') := fun _ _ hs => ⟨.ok hs, hs⟩

/-- Related changes of the state are related as steps. -/
theorem modify {change : σ → σ} {change' : σ' → σ'}
    (h : ∀ s s', R s s' → R (change s) (change' s')) :
    Relates R E (fun _ _ => True) (modify change : Step ε σ PUnit)
      (modify change' : Step ε' σ' PUnit) :=
  fun s s' hs => ⟨.ok trivial, h s s' hs⟩

/-- Related steps both give results, or both end with errors. -/
theorem run_cases {step : Step ε σ α} {step' : Step ε' σ' α'} (h : Relates R E A step step') {s : σ}
    {s' : σ'} (hs : R s s') :
    (∃ a a' t t', step.run s = (.ok a, t) ∧ step'.run s' = (.ok a', t') ∧ A a a' ∧ R t t') ∨
    (∃ e e' t t', step.run s = (.error e, t) ∧ step'.run s' = (.error e', t') ∧ E e e' ∧
      R t t') := by
  obtain ⟨hend, hstate⟩ := h s s' hs
  rcases hrun : step.run s with ⟨end_, t⟩
  rcases hrun' : step'.run s' with ⟨end_', t'⟩
  rw [hrun, hrun'] at hend hstate
  cases hend with
  | ok ha => exact .inl ⟨_, _, t, t', rfl, rfl, ha, hstate⟩
  | error he => exact .inr ⟨_, _, t, t', rfl, rfl, he, hstate⟩

/-- Related steps in a row are related. -/
theorem bind {step : Step ε σ α} {step' : Step ε' σ' α'} {next : α → Step ε σ β}
    {next' : α' → Step ε' σ' β'} (hstep : Relates R E A step step')
    (hnext : ∀ a a', A a a' → Relates R E B (next a) (next' a')) :
    Relates R E B (step >>= next) (step' >>= next') := by
  intro s s' hs
  rcases hstep.run_cases hs with ⟨a, a', t, t', hrun, hrun', ha, hstate⟩ |
    ⟨e, e', t, t', hrun, hrun', he, hstate⟩
  · rw [run_bind_ok hrun, run_bind_ok hrun']
    exact hnext a a' ha t t' hstate
  · rw [run_bind_error hrun, run_bind_error hrun']
    exact ⟨.error he, hstate⟩

/-- Related steps with related handlers are related, as far as the errors of the handlers are. -/
theorem tryCatch {F : ε → ε' → Prop} {step : Step ε σ α} {step' : Step ε' σ' α'}
    {handle : ε → Step ε σ α} {handle' : ε' → Step ε' σ' α'} (hstep : Relates R E A step step')
    (hhandle : ∀ e e', E e e' → Relates R F A (handle e) (handle' e')) :
    Relates R F A (tryCatch step handle) (tryCatch step' handle') := by
  intro s s' hs
  rw [run_tryCatch, run_tryCatch]
  rcases hstep.run_cases hs with ⟨a, a', t, t', hrun, hrun', ha, hstate⟩ |
    ⟨e, e', t, t', hrun, hrun', he, hstate⟩ <;> rw [hrun, hrun']
  · exact ⟨.ok ha, hstate⟩
  · exact hhandle e e' he t t' hstate

end Relates

/-! ## What a step maintains -/

/-- A result is there if what becomes of it is. -/
theorem exists_ok_of_map {result : Except ε α} {f : α → β} {b : β}
    (h : result.map f = .ok b) : ∃ a, result = .ok a ∧ f a = b := by
  cases result with
  | ok a => exact ⟨a, rfl, Except.ok.inj h⟩
  | error e => cases h

/-- The end of a step is a result with one property, or an error with another. -/
def Ends (E : ε → Prop) (A : α → Prop) : Except ε α → Prop
  | .ok a => A a
  | .error e => E e

/-- What follows an end with a property ends as it should. -/
theorem Ends.bind {E : ε → Prop} {A : α → Prop} {B : β → Prop} {result : Except ε α}
    {next : α → Except ε β} (h : Ends E A result) (hnext : ∀ a, A a → Ends E B (next a)) :
    Ends E B (result >>= next) := by
  cases result with
  | ok a => exact hnext a h
  | error e => exact h

/-- From states with `I` the step gives results with `A` or ends with errors with `E`, and leaves
states with `I`: it is related to itself on such states. -/
abbrev Maintains (I : σ → Prop) (E : ε → Prop) (A : α → Prop) (step : Step ε σ α) : Prop :=
  Relates (SameWith I) (SameWith E) (SameWith A) step step

/-- What a step maintains is a matter of single runs. -/
theorem maintains_iff {I : σ → Prop} {E : ε → Prop} {A : α → Prop} {step : Step ε σ α} :
    Maintains I E A step ↔ ∀ s, I s → Ends E A (step.run s).1 ∧ I (step.run s).2 := by
  constructor
  · intro h s hs
    obtain ⟨hend, hstate⟩ := h s s ⟨rfl, hs⟩
    refine ⟨?_, hstate.2⟩
    generalize (step.run s).1 = result at hend
    cases hend with
    | ok ha => exact ha.2
    | error he => exact he.2
  · rintro h _ s ⟨rfl, hs⟩
    obtain ⟨hend, hstate⟩ := h s hs
    refine ⟨?_, rfl, hstate⟩
    generalize (step.run s).1 = result at hend
    cases result with
    | ok a => exact .ok ⟨rfl, hend⟩
    | error e => exact .error ⟨rfl, hend⟩

end QLanguage.Step
