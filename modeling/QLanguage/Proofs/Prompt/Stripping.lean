import Mathlib.Data.List.DropRight
import QLanguage.Text.Blank
import QLanguage.Text.Joined

/-!
# Stripped text

Stripping takes the blanks from both ends of a text and nothing else. What is left has no blank at
either end (`Stripped`), and a text that has none stays as it is. Stripped texts with something
between them are stripped again, so a row of them may be joined and stripped in any order.
-/

namespace QLanguage

/-- The text has no blank at either end. -/
structure Stripped (text : String) : Prop where
  /-- The first character is not blank. -/
  first : ∀ c ∈ text.toList.head?, isBlank c = false
  /-- The last character is not blank. -/
  last : ∀ c ∈ text.toList.getLast?, isBlank c = false

/-- Stripping drops blanks from the left and then from the right. -/
theorem toList_stripBlanks (text : String) :
    (stripBlanks text).toList = (text.toList.dropWhile isBlank).rdropWhile isBlank := by
  rw [stripBlanks, String.toList_ofList]
  rfl

/-- What is left of a text has no blank at either end. -/
theorem stripped_stripBlanks (text : String) : Stripped (stripBlanks text) := by
  constructor
  · intro c hc
    rw [toList_stripBlanks] at hc
    -- What is first in the stripped text is first behind the blanks on the left.
    have hfirst := List.head?_dropWhile_not isBlank text.toList
    have hfront : (text.toList.dropWhile isBlank).rdropWhile isBlank <+:
        text.toList.dropWhile isBlank := List.rdropWhile_prefix _ _
    obtain ⟨more, hmore⟩ := List.head?_eq_some_iff.mp hc
    obtain ⟨rest, hrest⟩ := hfront
    rw [← hrest, hmore] at hfirst
    simpa using hfirst
  · intro c hc
    rw [toList_stripBlanks] at hc
    obtain ⟨hne, rfl⟩ := List.mem_getLast?_eq_getLast hc
    simpa using List.rdropWhile_last_not isBlank _ hne

/-- Blanks around a stripped text are what is stripped. -/
theorem stripBlanks_of_blanks {text core : String} (front back : List Char) (hcore : Stripped core)
    (hfront : ∀ c ∈ front, isBlank c = true) (hback : ∀ c ∈ back, isBlank c = true)
    (htext : text.toList = front ++ core.toList ++ back) : stripBlanks text = core := by
  apply String.toList_injective
  have hright : (core.toList ++ back).rdropWhile isBlank = core.toList := by
    have hself : core.toList.rdropWhile isBlank = core.toList := by
      rw [List.rdropWhile_eq_self_iff]
      intro hne
      rw [Bool.not_eq_true]
      exact hcore.last _ (List.getLast?_eq_some_getLast hne)
    rw [List.rdropWhile, List.reverse_append, List.dropWhile_append_of_pos (by simpa using hback)]
    exact hself
  rw [toList_stripBlanks, htext, List.append_assoc, List.dropWhile_append_of_pos hfront]
  rcases hchars : core.toList with _ | ⟨c, cs⟩
  · have hnone : back.dropWhile isBlank = [] := List.dropWhile_eq_nil_iff.mpr hback
    rw [List.nil_append, hnone]
    rfl
  · have hc : ¬isBlank c = true := by
      rw [Bool.not_eq_true]
      exact hcore.first c (by rw [hchars]; rfl)
    rw [List.cons_append, List.dropWhile_cons_of_neg hc, ← List.cons_append, ← hchars, hright]

/-- A text without blanks at its ends stays as it is. -/
theorem Stripped.stripBlanks_eq {text : String} (h : Stripped text) : stripBlanks text = text :=
  stripBlanks_of_blanks [] [] h (by simp) (by simp) (by simp)

/-- Stripping text twice is stripping it once. -/
theorem stripBlanks_stripBlanks (text : String) :
    stripBlanks (stripBlanks text) = stripBlanks text := (stripped_stripBlanks text).stripBlanks_eq

/-- A blank in front of a text is stripped. -/
theorem stripBlanks_space_append (text : String) :
    stripBlanks (" " ++ text) = stripBlanks text := by
  have hfront : (" " ++ text).toList = ' ' :: text.toList := by
    rw [String.toList_append]
    rfl
  have hdrop : (" " ++ text).toList.dropWhile isBlank = text.toList.dropWhile isBlank := by
    rw [hfront, List.dropWhile_cons_of_pos (by decide)]
  rw [stripBlanks, hdrop, stripBlanks]

/-- Two stripped texts with something between them are stripped. -/
theorem Stripped.append {a b : String} (ha : Stripped a) (hb : Stripped b) (hane : a ≠ "")
    (hbne : b ≠ "") (between : String) : Stripped (a ++ between ++ b) := by
  have hachars : a.toList ≠ [] := fun h => hane (String.toList_eq_nil_iff.mp h)
  have hbchars : b.toList ≠ [] := fun h => hbne (String.toList_eq_nil_iff.mp h)
  constructor
  · intro c hc
    rw [String.toList_append, String.toList_append, List.append_assoc,
      List.head?_append_of_ne_nil _ hachars] at hc
    exact ha.first c hc
  · intro c hc
    rw [String.toList_append, List.getLast?_append_of_ne_nil _ hbchars] at hc
    exact hb.last c hc

/-! ## Characters that stay -/

/-- A character outside of a class is not counted among those of the class. -/
theorem count_eq_zero_of_class {d : Char} {cs : List Char} {p : Char → Bool} (hd : p d = false)
    (h : ∀ c ∈ cs, p c = true) : cs.count d = 0 := by
  refine List.count_eq_zero.mpr fun hmem => ?_
  rw [h d hmem] at hd
  cases hd

/-- Characters of a class in front do not count for a character outside of it. -/
theorem count_dropWhile_of_class {d : Char} {p : Char → Bool} (hd : p d = false) (cs : List Char) :
    (cs.dropWhile p).count d = cs.count d := by
  have hfront : (cs.takeWhile p).count d = 0 :=
    count_eq_zero_of_class hd fun _ => List.mem_takeWhile_imp
  have hsplit := congrArg (List.count d) (List.takeWhile_append_dropWhile (p := p) (l := cs))
  rwa [List.count_append, hfront, Nat.zero_add] at hsplit

/-- Stripping a text takes no character away that is not blank. -/
theorem count_stripBlanks {d : Char} (hblank : isBlank d = false) (text : String) :
    (stripBlanks text).toList.count d = text.toList.count d := by
  rw [stripBlanks, String.toList_ofList, List.count_reverse, count_dropWhile_of_class hblank,
    List.count_reverse, count_dropWhile_of_class hblank]

end QLanguage
