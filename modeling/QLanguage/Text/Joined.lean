/-!
# Texts in a row

The characters of texts with a separator between them, and the three ways in which a row of values
is written in debug form.
-/

namespace QLanguage

/-- The characters of texts in a row: the first text, and each further one behind the separator. -/
theorem toList_intercalate_cons (separator text : String) (texts : List String) :
    (separator.intercalate (text :: texts)).toList =
      text.toList ++ texts.flatMap fun t => separator.toList ++ t.toList := by
  induction texts generalizing text with
  | nil => rw [String.intercalate_singleton, List.flatMap_nil, List.append_nil]
  | cons next texts ih =>
    rw [String.intercalate_cons_cons, String.toList_append, String.toList_append, ih,
      List.flatMap_cons, List.append_assoc, List.append_assoc]

/-- A character of texts in a row is one of a text or of the separator. -/
theorem mem_toList_intercalate {separator : String} {texts : List String} {c : Char}
    (h : c ∈ (separator.intercalate texts).toList) :
    c ∈ separator.toList ∨ ∃ text ∈ texts, c ∈ text.toList := by
  cases texts with
  | nil => simp at h
  | cons text texts =>
    rw [toList_intercalate_cons, List.mem_append, List.mem_flatMap] at h
    rcases h with hfirst | ⟨next, hnext, hmem⟩
    · exact .inr ⟨text, List.mem_cons_self, hfirst⟩
    · rcases List.mem_append.1 hmem with hseparator | htext
      · exact .inl hseparator
      · exact .inr ⟨next, List.mem_cons_of_mem _ hnext, htext⟩

/-- A row of fixed length in debug form: a single entry keeps a comma behind it. -/
def tupleText : List String → String
  | [] => "()"
  | [text] => "(" ++ text ++ ",)"
  | texts => "(" ++ ", ".intercalate texts ++ ")"

/-- A list in debug form. -/
def listText (texts : List String) : String := "[" ++ ", ".intercalate texts ++ "]"

/-- A table in debug form, from keys and values that are in debug form. -/
def tableText (entries : List (String × String)) : String :=
  "\x7b" ++ ", ".intercalate (entries.map fun (key, value) => key ++ ": " ++ value) ++ "\x7d"

end QLanguage
