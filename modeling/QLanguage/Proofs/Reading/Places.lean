import QLanguage.Proofs.Reading.Parallel

/-!
# Diagnostics point at places

A diagnostic is about a token, and points at it, or about the end of the source, and then the reader
knows where that is. So all diagnostics that are recorded with a module are `Placed`.
-/

namespace QLanguage

/-- The diagnostic points at a stretch of the source. -/
def Diagnostic.Placed (d : Diagnostic) : Prop :=
  ∃ start stop, d.start = some start ∧ d.stop = some stop

/-- A source is read side by side with itself, and every diagnostic that is made is placed. -/
theorem companions_placed (sourceName source : String) :
    Companions sourceName source source (fun _ => True) Eq (fun d _ => d.Placed) where
  lexeme h := congrArg Token.lexeme h.symm
  name _ _ := trivial
  text _ _ := trivial
  unexpected _ _ := ⟨_, _, rfl, rfl⟩
  expectedExpression _ := ⟨_, _, rfl, rfl⟩
  expectedPattern _ := ⟨_, _, rfl, rfl⟩
  missingValue _ _ := ⟨_, _, rfl, rfl⟩
  missingAtEnd _ := ⟨_, _, rfl, rfl⟩
  endOfInput := ⟨_, _, rfl, rfl⟩

/-- The diagnostics that are recorded with a module are placed. -/
theorem placed_of_parseModule {depth : Nat} {name source : String} {parsed : Parsed}
    (h : parseModule depth name source = .ok parsed) {d : Diagnostic}
    (hd : d ∈ parsed.diagnostics) : d.Placed := by
  have hend := (companions_placed name source).parseModule depth
    (Cursor.paired_self fun t _ => Eq.refl t)
  rw [h] at hend
  cases hend with
  | ok hparsed => exact List.forall₂_same.1 hparsed.diagnostics d hd

end QLanguage
