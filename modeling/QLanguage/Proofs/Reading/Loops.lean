import QLanguage.Proofs.Reading.Leaves

/-!
# The loops of a reading

A reading has three loops: over the declarations of a module, over the tokens that recovery skips,
and over the items of a row. Each of them is bounded by the lexemes that are left. `LoopRuns` says
what a loop does without a bound: it makes passes until one of them finds nothing more to do, or
stops. Every pass that gives something takes a lexeme at least, so a loop makes a finite run before
its bound is reached (`loopRuns_passesWithin`), and no bound ever shows.
-/

namespace QLanguage.Reading

variable {α : Type}

/-! ## Passes -/

/-- A finite run of a loop: passes that each give something, and a last one that finds nothing more
to do or stops. -/
inductive LoopRuns (pass : Reading (Option α)) :
    Cursor → Except Stop (List α) → Cursor → Prop where
  /-- The pass finds nothing more to do. -/
  | done {c c' : Cursor} (h : pass.run c = (.ok none, c')) : LoopRuns pass c (.ok []) c'
  /-- The pass stops. -/
  | stop {c c' : Cursor} {stop : Stop} (h : pass.run c = (.error stop, c')) :
      LoopRuns pass c (.error stop) c'
  /-- The pass gives something, and the loop goes on from there. -/
  | more {c mid c' : Cursor} {a : α} {result : Except Stop (List α)}
      (h : pass.run c = (.ok (some a), mid)) (rest : LoopRuns pass mid result c') :
      LoopRuns pass c (result.map (a :: ·)) c'

/-- A loop has one run from a cursor. -/
theorem LoopRuns.unique {pass : Reading (Option α)} {c c₁ c₂ : Cursor}
    {result₁ result₂ : Except Stop (List α)} (h₁ : LoopRuns pass c result₁ c₁)
    (h₂ : LoopRuns pass c result₂ c₂) : (result₁, c₁) = (result₂, c₂) := by
  induction h₁ generalizing result₂ c₂ with
  | done hpass =>
    cases h₂ with
    | done hpass' =>
      rw [hpass] at hpass'
      cases hpass'
      rfl
    | stop hpass' | more hpass' =>
      rw [hpass] at hpass'
      cases hpass'
  | stop hpass =>
    cases h₂ with
    | stop hpass' =>
      rw [hpass] at hpass'
      cases hpass'
      rfl
    | done hpass' | more hpass' =>
      rw [hpass] at hpass'
      cases hpass'
  | more hpass rest ih =>
    cases h₂ with
    | more hpass' rest' =>
      rw [hpass] at hpass'
      cases hpass'
      cases ih rest'
      rfl
    | done hpass' | stop hpass' =>
      rw [hpass] at hpass'
      cases hpass'

/-- A loop that ends with what its passes gave ends at a pass that finds nothing more to do. -/
theorem LoopRuns.exists_done {pass : Reading (Option α)} {c c' : Cursor} {as : List α}
    (h : LoopRuns pass c (.ok as) c') : ∃ last, pass.run last = (.ok none, c') := by
  generalize hresult : Except.ok as = result at h
  induction h generalizing as with
  | done hpass => exact ⟨_, hpass⟩
  | stop _ => cases hresult
  | @more c mid c' a result _ _ ih =>
    cases result with
    | error _ => cases hresult
    | ok _ => exact ih rfl

/-- A loop that stops stops in one of its passes. -/
theorem LoopRuns.exists_stop {pass : Reading (Option α)} {c c' : Cursor} {stop : Stop}
    (h : LoopRuns pass c (.error stop) c') : ∃ last, pass.run last = (.error stop, c') := by
  generalize hresult : Except.error stop = result at h
  induction h with
  | done _ => cases hresult
  | stop hpass =>
    cases hresult
    exact ⟨_, hpass⟩
  | @more c mid c' a result _ _ ih =>
    cases result with
    | error _ =>
      cases hresult
      exact ih rfl
    | ok _ => cases hresult

/-- Makes at most `fuel` passes of a loop. -/
def passesWithin (pass : Reading (Option α)) : Nat → Reading (List α)
  | 0 => return []
  | fuel + 1 => do
    match ← pass with
    | none => return []
    | some a => return a :: (← passesWithin pass fuel)

/-- A pass of a loop takes a lexeme when it gives something, and gives nothing at the end of the
source. -/
structure Shortens (pass : Reading (Option α)) : Prop where
  /-- What is left becomes less. -/
  less : ∀ {c c' : Cursor} {a : α}, pass.run c = (.ok (some a), c') →
    c'.rest.length < c.rest.length
  /-- At the end of the source there is nothing more to do. -/
  nothing : ∀ (span : Span) (length : Nat),
    pass.run ⟨[], span, length⟩ = (.ok none, ⟨[], span, length⟩)

/-- A loop whose bound is no less than what is left makes a finite run. -/
theorem loopRuns_passesWithin {pass : Reading (Option α)} (hpass : Shortens pass) {fuel : Nat}
    {c : Cursor} (hfuel : c.rest.length ≤ fuel) :
    LoopRuns pass c ((passesWithin pass fuel).run c).1 ((passesWithin pass fuel).run c).2 := by
  induction fuel generalizing c with
  | zero =>
    obtain ⟨rest, span, length⟩ := c
    obtain rfl : rest = [] := List.eq_nil_of_length_eq_zero (Nat.le_zero.mp hfuel)
    exact .done (hpass.nothing span length)
  | succ fuel ih =>
    unfold passesWithin
    rcases hrun : pass.run c with ⟨stop | _ | a, mid⟩
    · rw [Step.run_bind_error hrun]
      exact .stop hrun
    · rw [Step.run_bind_ok hrun]
      exact .done hrun
    · have hless := hpass.less hrun
      have hrest := ih (Nat.le_of_lt_succ (Nat.lt_of_lt_of_le hless hfuel))
      rw [Step.run_bind_ok hrun]
      dsimp only
      rcases hmore : (passesWithin pass fuel).run mid with ⟨stop | as, last⟩ <;>
        rw [hmore] at hrest
      · rw [Step.run_bind_error hmore]
        exact .more hrun hrest
      · rw [Step.run_bind_ok hmore]
        exact .more hrun hrest

/-- Makes the passes of a loop. No more of them are made than there are lexemes left. -/
def passes (pass : Reading (Option α)) : Reading (List α) := do
  passesWithin pass (← get).rest.length

/-- Wherever a loop starts, it comes to an end after finitely many passes. -/
def PassesEnd (pass : Reading (Option α)) : Prop :=
  ∀ c : Cursor, LoopRuns pass c ((passes pass).run c).1 ((passes pass).run c).2

/-- A loop whose passes take lexemes comes to an end. -/
theorem Shortens.passesEnd {pass : Reading (Option α)} (hpass : Shortens pass) : PassesEnd pass :=
  fun c => loopRuns_passesWithin hpass (Nat.le_refl c.rest.length)

/-! ## Rows -/

section Rows

variable {mark : Punct} {item : Reading α}

/-- Reads one more item of a row, if a mark comes next. -/
def itemPass (mark : Punct) (item : Reading α) : Reading (Option α) := do
  if ← accept mark then return some (← item) else return none

/-- The items behind marks are read in passes. -/
theorem itemsAfter_eq (fuel : Nat) :
    itemsAfter mark item fuel = passesWithin (itemPass mark item) fuel := by
  induction fuel with
  | zero => rfl
  | succ fuel ih =>
    rw [itemsAfter, passesWithin, ih]
    generalize passesWithin (itemPass mark item) fuel = others
    unfold itemPass
    rw [bind_assoc]
    refine bind_congr fun accepted => ?_
    cases accepted <;> simp

/-- One more item of a row takes its mark at least. -/
theorem shortens_itemPass (hitem : Step.Keeps Cursor.Leaves item) :
    Shortens (itemPass mark item) where
  less {c c' a} h := by
    obtain ⟨accepted, mid, haccept, h⟩ := Step.run_bind_eq_ok_iff.mp h
    cases accepted with
    | false => cases h
    | true =>
      obtain ⟨_, last, hfirst, h⟩ := Step.run_bind_eq_ok_iff.mp h
      cases h
      obtain ⟨t, -, hmark, -⟩ := run_accept_true haccept
      have hless := congrArg List.length hmark
      have hleaves := (hitem mid).1.length_le
      rw [hfirst] at hleaves
      rw [List.length_append, List.length_map, List.length_singleton] at hless
      dsimp only at hleaves
      omega
  nothing _ _ := rfl

/-- The items behind marks are read in a finite run. -/
theorem loopRuns_itemsAfter (hitem : Step.Keeps Cursor.Leaves item) {fuel : Nat} {c : Cursor}
    (hfuel : c.rest.length ≤ fuel) :
    LoopRuns (itemPass mark item) c ((itemsAfter mark item fuel).run c).1
      ((itemsAfter mark item fuel).run c).2 := by
  rw [itemsAfter_eq]
  exact loopRuns_passesWithin (shortens_itemPass hitem) hfuel

/-- A row is its first item and a loop over the others. -/
theorem row_eq : row mark item = (do
    let first ← item
    return first :: (← passes (itemPass mark item))) := by
  unfold row passes
  simp only [itemsAfter_eq, bind_assoc]

end Rows

/-- A function is its first clause and a loop over the others. -/
theorem function_eq (expression : Reading Expr) :
    function expression = (do
      let first ← clause expression
      let more := do
        let _ ← expect (.punct .openParen)
        clause expression
      return .function first (← passes (itemPass .semicolon more))) := by
  unfold function passes
  simp only [itemsAfter_eq, bind_assoc]

/-! ## Skipping -/

/-- Skips one more token, unless a declaration or the end of the source comes next. -/
def skipPass : Reading (Option Unit) := do
  match ← peek with
  | none => return none
  | some _ =>
    if ← atDeclaration then return none
    else
      let _ ← next
      return some ()

/-- Tokens are skipped in passes. -/
theorem skipWithin_eq (fuel : Nat) :
    skipWithin fuel = (do
      let _ ← passesWithin skipPass fuel
      return ()) := by
  induction fuel with
  | zero => rfl
  | succ fuel ih =>
    rw [skipWithin, passesWithin, ih]
    generalize passesWithin skipPass fuel = others
    unfold skipPass
    rw [bind_assoc, bind_assoc]
    refine bind_congr fun found => ?_
    cases found with
    | none => simp
    | some t =>
      simp only [bind_assoc]
      refine bind_congr fun reached => ?_
      cases reached <;> simp

/-- Looking for a declaration moves nothing. -/
theorem run_atDeclaration_ok {c c' : Cursor} {reached : Bool}
    (h : atDeclaration.run c = (.ok reached, c')) : c' = c := by
  unfold atDeclaration at h
  rw [Step.run_bind_ok (Step.run_get c)] at h
  split at h
  · cases h
    rfl
  · split at h
    · cases h
    · cases h
      rfl
  · cases h
    rfl

/-- Skipping one more token takes it. -/
theorem shortens_skipPass : Shortens skipPass where
  less {c c' a} h := by
    obtain ⟨found, mid, hpeek, h⟩ := Step.run_bind_eq_ok_iff.mp h
    cases run_peek_ok hpeek
    cases found with
    | none => cases h
    | some t =>
      obtain ⟨reached, mid, hreached, h⟩ := Step.run_bind_eq_ok_iff.mp h
      cases run_atDeclaration_ok hreached
      cases reached with
      | true => cases h
      | false =>
        obtain ⟨_, last, hnext, h⟩ := Step.run_bind_eq_ok_iff.mp h
        cases h
        have hmoves := congrArg List.length (run_next_ok hnext).1
        rw [List.length_append, List.length_map, List.length_singleton] at hmoves
        omega
  nothing _ _ := rfl

/-- Recovery skips tokens in a loop. -/
theorem skipToDeclaration_eq :
    skipToDeclaration = (do
      let _ ← passes skipPass
      return ()) := by
  unfold skipToDeclaration passes
  simp only [skipWithin_eq, bind_assoc]

/-! ## Declarations -/

/-- A recorded reading leaves the cursor where the reading does. -/
theorem run_recorded_cursor {α : Type} (reading : Reading α) (c : Cursor) :
    ((recorded reading).run c).2 = (reading.run c).2 := by
  unfold recorded
  rw [Step.run_tryCatch, Step.run_bind]
  rcases reading.run c with ⟨stop | a, c'⟩
  · cases stop <;> rfl
  · rfl

/-- A recorded declaration takes a token at least. -/
theorem length_rest_recorded (depth : Nat) (sourceName source : String) (t : Token)
    (rest : List Lexed) (span : Span) (length : Nat) :
    ((recorded (declaration depth sourceName source)).run
      ⟨.token t :: rest, span, length⟩).2.rest.length ≤ rest.length := by
  suffices hleaves : Cursor.Leaves ⟨rest, t.span, length⟩
      ((declaration depth sourceName source).run ⟨.token t :: rest, span, length⟩).2 by
    rw [run_recorded_cursor]
    exact hleaves.1.length_le
  unfold declaration
  rw [Step.run_bind_ok (run_next_token t rest span length)]
  split
  · refine Step.Keeps.bind (keeps_expect _) (fun mark => ?_) _
    exact .bind (keeps_orSkip (keeps_value depth sourceName source _)) fun _ => .pure _
  · exact Step.Keeps.bind keeps_skipToDeclaration (fun _ => .throw _) _

section Declarations

variable {depth : Nat} {sourceName source : String}

/-- Reads one more declaration, unless the end of the source comes next, and keeps its
diagnostic. -/
def entryPass (depth : Nat) (sourceName source : String) : Reading (Option Entry) := do
  match ← peek with
  | none => return none
  | some _ => return some (← recorded (declaration depth sourceName source))

/-- Declarations are read in passes. -/
theorem entriesWithin_eq (fuel : Nat) :
    entriesWithin depth sourceName source fuel =
      passesWithin (entryPass depth sourceName source) fuel := by
  induction fuel with
  | zero => rfl
  | succ fuel ih =>
    rw [entriesWithin, passesWithin, ih]
    generalize passesWithin (entryPass depth sourceName source) fuel = others
    unfold entryPass
    rw [bind_assoc]
    refine bind_congr fun found => ?_
    cases found <;> simp

/-- One more declaration takes a token at least. -/
theorem shortens_entryPass : Shortens (entryPass depth sourceName source) where
  less {c c' entry} h := by
    obtain ⟨found, mid, hpeek, h⟩ := Step.run_bind_eq_ok_iff.mp h
    obtain ⟨_ | ⟨t | ⟨digits, place⟩, rest⟩, span, length⟩ := c
    · cases hpeek
      cases h
    · cases hpeek
      obtain ⟨_, last, hrecorded, h⟩ := Step.run_bind_eq_ok_iff.mp h
      cases h
      have hless := length_rest_recorded depth sourceName source t rest span length
      rw [hrecorded] at hless
      exact Nat.lt_succ_of_le hless
    · cases hpeek
  nothing _ _ := rfl

/-- Declarations are read in a finite run. -/
theorem loopRuns_entriesWithin {fuel : Nat} {c : Cursor} (hfuel : c.rest.length ≤ fuel) :
    LoopRuns (entryPass depth sourceName source) c
      ((entriesWithin depth sourceName source fuel).run c).1
      ((entriesWithin depth sourceName source fuel).run c).2 := by
  rw [entriesWithin_eq]
  exact loopRuns_passesWithin shortens_entryPass hfuel

/-- A module is read in a loop over its declarations. -/
theorem entries_eq :
    entries depth sourceName source = passes (entryPass depth sourceName source) := by
  unfold entries passes
  simp only [entriesWithin_eq]

end Declarations

end QLanguage.Reading
