import Mathlib.Data.List.DropRight
import QLanguage.Report.Location

/-!
# A quotation marks a span on its line

An offset into a source lies on one of its lines, which runs from the line feed before the offset to
the one behind it, or to the ends of the source (`locate_isLine`). The quotation of a span shows the
line of its start and, below it, a mark that begins at the column of the start. The mark is as wide
as the span, but it has at least the caret, and it ends with the line (`quotation_marks_span`).

The three parts that the quotation cuts its line into are taken from the line at the column and at
the end of the mark, so that they make up the line again, whatever the width is.
-/

namespace QLanguage

/-! ## Lines of a source -/

/-- A line of a source, without its line end, and what stands before and behind it. -/
structure IsLine (source : String) (before text behind : List Char) : Prop where
  /-- The three make up the source. -/
  split : source.toList = before ++ text ++ behind
  /-- The line has no line feed. -/
  unbroken : '\n' ∉ text
  /-- A line feed stands before the line, if anything does. -/
  start : ∀ c ∈ before.getLast?, c = '\n'
  /-- A line feed stands behind the line, if anything does. -/
  stop : ∀ c ∈ behind.head?, c = '\n'

namespace IsLine

variable {source : String} {before text behind : List Char}

/-- A place on a line has the character of the line, and behind the line stands no character but a
line feed. -/
theorem getElem?_eq (h : IsLine source before text behind) {column : ℕ}
    (hcolumn : column ≤ text.length) :
    text[column]? = source.toList[before.length + column]?.filter (· != '\n') := by
  have hplace : source.toList[before.length + column]? = (text ++ behind)[column]? := by
    rw [h.split, List.append_assoc, List.getElem?_append_right (Nat.le_add_right _ _),
      Nat.add_sub_cancel_left]
  rw [hplace]
  rcases Nat.lt_or_eq_of_le hcolumn with hinside | rfl
  · have hfeed : text[column] ≠ '\n' := fun heq => h.unbroken (heq ▸ List.getElem_mem hinside)
    rw [List.getElem?_append_left hinside, List.getElem?_eq_getElem hinside, Option.filter_some,
      if_pos (bne_iff_ne.mpr hfeed)]
  · have hstop := h.stop
    rw [List.getElem?_append_right (Nat.le_refl _), Nat.sub_self, ← List.head?_eq_getElem?,
      List.getElem?_eq_none (Nat.le_refl _)]
    rcases hbehind : behind.head? with _ | c
    · rfl
    · rw [hstop c hbehind]
      rfl

end IsLine

/-- An offset is located on a line of its source, at a column that the line has, or behind its last
character. -/
theorem locate_isLine (source : String) (offset : ℤ) :
    ∃ before behind column, IsLine source before (locate source offset).line.toList behind ∧
      (locate source offset).column = column + 1 ∧
      column ≤ (locate source offset).line.toList.length ∧
      before.length + column = clampOffset offset source.length := by
  unfold locate
  dsimp only
  rw [String.toList_ofList]
  generalize hplace : clampOffset offset source.length = place
  have hlength : (source.toList.take place).length = place := by
    rw [List.length_take, String.length_toList, ← hplace]
    exact Nat.min_eq_left (Nat.min_le_right _ _)
  have hsplit : source.toList = source.toList.take place ++ source.toList.drop place :=
    (List.take_append_drop _ _).symm
  generalize source.toList.take place = ahead at hlength hsplit ⊢
  generalize source.toList.drop place = rest at hsplit ⊢
  -- Both parts of the line end where a line feed comes, to the left and to the right.
  have hlead : ahead.rdropWhile (· != '\n') ++ ahead.rtakeWhile (· != '\n') = ahead :=
    List.rdropWhile_append_rtakeWhile
  have htrail : rest.takeWhile (· != '\n') ++ rest.dropWhile (· != '\n') = rest :=
    List.takeWhile_append_dropWhile
  refine ⟨ahead.rdropWhile (· != '\n'), rest.dropWhile (· != '\n'),
    (ahead.rtakeWhile (· != '\n')).length, ⟨?_, ?_, ?_, ?_⟩, rfl, ?_, ?_⟩
  · calc source.toList = ahead ++ rest := hsplit
      _ = (ahead.rdropWhile (· != '\n') ++ ahead.rtakeWhile (· != '\n')) ++
          (rest.takeWhile (· != '\n') ++ rest.dropWhile (· != '\n')) := by rw [hlead, htrail]
      _ = ahead.rdropWhile (· != '\n') ++ (ahead.rtakeWhile (· != '\n') ++
          rest.takeWhile (· != '\n')) ++ rest.dropWhile (· != '\n') := by
            simp only [List.append_assoc]
  · intro hmem
    rcases List.mem_append.mp hmem with hmem | hmem
    · exact absurd (List.mem_rtakeWhile_imp hmem) (by decide)
    · exact absurd (List.mem_takeWhile_imp hmem) (by decide)
  · intro c hc
    obtain ⟨hne, rfl⟩ := List.mem_getLast?_eq_getLast hc
    simpa using List.rdropWhile_last_not _ _ hne
  · intro c hc
    have hfirst := List.head?_dropWhile_not (· != '\n') rest
    rw [hc] at hfirst
    simpa using hfirst
  · rw [List.length_append]
    exact Nat.le_add_right _ _
  · rw [← List.length_append, hlead, hlength]

/-! ## The width of a mark -/

/-- A mark is as wide as its span, but at least one character and at most what the line still has,
of which one character counts at its end. -/
theorem markWidth_eq (start stop : ℤ) (length column : ℕ) :
    (markWidth start stop length column : ℤ) =
      min (max (stop - start) 1) (max ((length : ℤ) - column) 1) := by
  unfold markWidth
  omega

/-- A mark on a line ends with the line, or is the caret behind it. -/
theorem add_markWidth_le (start stop : ℤ) {length column : ℕ} (h : column ≤ length) :
    column + markWidth start stop length column ≤ length ∨
      markWidth start stop length column = 1 ∧ column = length := by
  unfold markWidth
  omega

/-! ## Quotations -/

/-- A quotation shows the line of the start of a span. Below it stands the mark, under the character
that the span starts with: a caret, and a tilde for each further character of the span, as far as
the line goes. Behind the end of the line stands a caret at most. With colours, what is painted on
the line is the stretch above the mark, and the parts of the line are still those of the line. -/
theorem quotation_marks_span (paint : Paint) (source : String) (start stop : ℤ) :
    ∃ (before text behind : List Char) (column width : ℕ),
      IsLine source before text behind ∧
      before.length + column = clampOffset start source.length ∧ column ≤ text.length ∧
      (width : ℤ) = min (max (stop - start) 1) (max (text.length - column) 1) ∧
      (quotation false paint source start stop).toList =
        ' ' :: ' ' :: text ++ '\n' ::
          (List.replicate (2 + column) ' ' ++ '^' :: List.replicate (width - 1) '~') ∧
      1 ≤ width ∧ (column + width ≤ text.length ∨ width = 1 ∧ column = text.length) ∧
      text[column]? =
        source.toList[clampOffset start source.length]?.filter (· != '\n') ∧
      ∃ left marked right : List Char, left ++ marked ++ right = text ∧ left.length = column ∧
        marked.length = min width (text.length - column) ∧
        (quotation true paint source start stop).toList =
          ' ' :: ' ' :: left ++ paint.start.toList ++ marked ++ Paint.reset.toList ++ right ++
            '\n' :: (List.replicate (2 + column) ' ' ++ paint.start.toList ++
              '^' :: List.replicate (width - 1) '~' ++ Paint.reset.toList) := by
  obtain ⟨before, behind, column, hline, hcolumn, hle, hplace⟩ := locate_isLine source start
  unfold quotation
  dsimp only
  rw [hcolumn, Nat.add_sub_cancel]
  generalize (locate source start).line.toList = text at hline hle ⊢
  have hwidth := markWidth_eq start stop text.length column
  have hends := add_markWidth_le start stop hle
  generalize markWidth start stop text.length column = width at hwidth hends ⊢
  have hparts : text.take column ++ (text.drop column).take width ++ text.drop (column + width) =
      text := by
    rw [List.append_assoc, ← List.drop_drop, List.take_append_drop, List.take_append_drop]
  have hleft : (text.take column).length = column := by
    rw [List.length_take, Nat.min_eq_left hle]
  have hmarked : ((text.drop column).take width).length = min width (text.length - column) := by
    rw [List.length_take, List.length_drop]
  -- From here on, all that counts is that the three parts make up the line.
  generalize text.take column = left at hparts hleft ⊢
  generalize (text.drop column).take width = marked at hparts hmarked ⊢
  generalize text.drop (column + width) = right at hparts ⊢
  refine ⟨before, text, behind, column, width, hline, hplace, hle, hwidth, ?_, by omega, hends, ?_,
    left, marked, right, hparts, hleft, hmarked, ?_⟩
  · rw [← hparts]
    simp [painted, List.replicate_add]
  · rw [← hplace]
    exact hline.getElem?_eq hle
  · simp [painted, List.replicate_add]

end QLanguage
