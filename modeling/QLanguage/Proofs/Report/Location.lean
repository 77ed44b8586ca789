import Mathlib.Algebra.Ring.Nat
import Mathlib.Order.Monotone.Basic
import Mathlib.Order.Nat
import QLanguage.Proofs.Report.Quotation

/-!
# Lines and columns determine offsets

Cut at its line feeds, a source is a row of lines. A place on one of them, by the number of the line
and a column, has an offset: the lengths of the lines before it, a line feed for each of these, and
the characters before the column (`LiesAt`). `locate` inverts this: the place that it gives for an
offset is the one place of that offset (`locate_eq_iff_liesAt`).

One half is about the line that the offset lies on: what stands before it makes up whole lines, with
a line feed behind each (`IsLine.exists_lines`). The other half is that places of one offset are the
same, since a line starts behind all the places of the lines before it
(`add_length_lt_lineStart`).
-/

namespace QLanguage

/-! ## Lines and their starts -/

/-- Where a line of a row of lines starts: behind the lines before it and a line feed for each. -/
def lineStart (lines : List (List Char)) (index : ℕ) : ℕ :=
  ((lines.take index).map List.length).sum + index

/-- The line behind a line starts behind the line and its line feed. -/
theorem lineStart_succ {lines : List (List Char)} {index : ℕ} {line : List Char}
    (h : lines[index]? = some line) :
    lineStart lines (index + 1) = lineStart lines index + line.length + 1 := by
  unfold lineStart
  rw [List.take_add_one, h, Option.toList_some, List.map_append, List.sum_append]
  simp only [List.map_cons, List.map_nil, List.sum_cons, List.sum_nil]
  omega

/-- A line starts no earlier than the lines before it. -/
theorem lineStart_mono (lines : List (List Char)) : Monotone (lineStart lines) := by
  refine monotone_nat_of_le_succ fun index => ?_
  unfold lineStart
  rw [List.take_add_one, List.map_append, List.sum_append]
  omega

/-- A line starts behind all places of a line before it. -/
theorem add_length_lt_lineStart {lines : List (List Char)} {index next : ℕ} {line : List Char}
    (h : lines[index]? = some line) (hlt : index < next) :
    lineStart lines index + line.length < lineStart lines next := by
  have hsucc := lineStart_succ h
  have hmono := lineStart_mono lines (show index + 1 ≤ next from hlt)
  omega

/-- A text has one line more than it has line feeds. -/
theorem length_splitOn_newline (cs : List Char) :
    (cs.splitOn '\n').length = cs.count '\n' + 1 := by
  induction cs with
  | nil => rfl
  | cons c cs ih =>
    rw [List.splitOn_cons_eq_if_modifyHead, List.count_cons]
    split_ifs
    · rw [List.length_cons, ih]
    · rw [List.length_modifyHead, ih]

/-- The lines of a text and its line feeds make up the text. -/
theorem sum_length_splitOn_newline (cs : List Char) :
    ((cs.splitOn '\n').map List.length).sum + cs.count '\n' = cs.length := by
  induction cs with
  | nil => rfl
  | cons c cs ih =>
    rw [List.splitOn_cons_eq_if_modifyHead, List.count_cons]
    obtain ⟨line, lines, hlines⟩ := List.exists_cons_of_ne_nil (List.splitOn_ne_nil '\n' cs)
    rw [hlines] at ih ⊢
    simp only [List.map_cons, List.sum_cons] at ih
    split_ifs
    · simp only [List.map_cons, List.sum_cons, List.length_nil, List.length_cons]
      omega
    · simp only [List.modifyHead_cons, List.map_cons, List.sum_cons, List.length_cons]
      omega

/-! ## Places -/

/-- A place is on a line of a source, at a column that the line has or behind its last character,
and an offset leads to it. -/
structure LiesAt (source : String) (place : Location) (offset : ℕ) : Prop where
  /-- Lines are counted from one. -/
  one_le_number : 1 ≤ place.number
  /-- The line is the one of its number. -/
  line_eq : (source.toList.splitOn '\n')[place.number - 1]? = some place.line.toList
  /-- Columns are counted from one. -/
  one_le_column : 1 ≤ place.column
  /-- The line goes as far as the column. -/
  column_le : place.column ≤ place.line.length + 1
  /-- The offset leads to the start of the line and on to the column. -/
  offset_eq :
    lineStart (source.toList.splitOn '\n') (place.number - 1) + (place.column - 1) = offset

namespace LiesAt

variable {source : String} {place other : Location} {offset : ℕ}

/-- Of two places of one offset, neither is on a line before the line of the other. -/
theorem number_le (h : LiesAt source place offset) (h' : LiesAt source other offset) :
    place.number ≤ other.number := by
  by_contra hlt
  obtain ⟨-, -, -, -, hoffset⟩ := h
  obtain ⟨hnumber', hline', hcolumn', hle', hoffset'⟩ := h'
  have hbehind := add_length_lt_lineStart hline' (by omega : other.number - 1 < place.number - 1)
  rw [String.length_toList] at hbehind
  omega

/-- An offset leads to one place. -/
theorem unique (h : LiesAt source place offset) (h' : LiesAt source other offset) :
    place = other := by
  have hnumber : place.number = other.number := Nat.le_antisymm (h.number_le h') (h'.number_le h)
  have hline : place.line = other.line := by
    have hlines := h.line_eq
    rw [hnumber, h'.line_eq] at hlines
    exact (String.toList_injective (Option.some.inj hlines)).symm
  have hcolumn : place.column = other.column := by
    have hone := h.one_le_column
    have hone' := h'.one_le_column
    have hoffset := h.offset_eq
    have hoffset' := h'.offset_eq
    rw [hnumber] at hoffset
    omega
  obtain ⟨line, number, column⟩ := place
  obtain ⟨line', number', column'⟩ := other
  simp_all

end LiesAt

/-! ## The line of an offset -/

namespace IsLine

variable {source : String} {before text behind : List Char}

/-- What stands before a line of a source is a row of lines, with a line feed behind each. -/
theorem exists_lines (h : IsLine source before text behind) :
    ∃ lines more, source.toList.splitOn '\n' = lines ++ text :: more ∧
      lines.length = before.count '\n' ∧
      (lines.map List.length).sum + lines.length = before.length := by
  -- The line is the first of what starts with it.
  have hrest : ∃ more, (text ++ behind).splitOn '\n' = text :: more := by
    rcases hbehind : behind.head? with _ | c
    · rw [List.head?_eq_none_iff.mp hbehind, List.append_nil]
      exact ⟨[], List.splitOn_eq_singleton h.unbroken⟩
    · obtain ⟨rest, rfl⟩ := List.head?_eq_some_iff.mp hbehind
      rw [h.stop c hbehind]
      exact ⟨_, List.splitOn_append_cons_self_of_not_mem h.unbroken rest⟩
  obtain ⟨more, hmore⟩ := hrest
  rw [h.split, List.append_assoc]
  rcases hbefore : before.getLast? with _ | c
  · rw [List.getLast?_eq_none_iff.mp hbefore, List.nil_append]
    exact ⟨[], more, hmore, rfl, rfl⟩
  · obtain ⟨front, rfl⟩ := List.getLast?_eq_some_iff.mp hbefore
    rw [h.start c hbefore, List.append_assoc, List.singleton_append,
      List.splitOn_append_cons_self, hmore]
    have hlength := length_splitOn_newline front
    have hsum := sum_length_splitOn_newline front
    refine ⟨_, more, rfl, ?_, ?_⟩
    · rw [List.count_append, List.count_singleton_self, hlength]
    · rw [List.length_append, List.length_singleton, hlength]
      omega

/-- The number of the line that an offset lies on counts the line feeds before the line: on the line
there are none. -/
theorem number_locate (h : IsLine source before text behind) {offset : ℤ} {column : ℕ}
    (hcolumn : column ≤ text.length)
    (hplace : before.length + column = clampOffset offset source.length) :
    (locate source offset).number = before.count '\n' + 1 := by
  have htake : source.toList.take (clampOffset offset source.length) =
      before ++ text.take column := by
    rw [← hplace, h.split, List.append_assoc, List.take_length_add_append,
      List.take_append_of_le_length hcolumn]
  have hfeeds : (text.take column).count '\n' = 0 :=
    List.count_eq_zero.mpr fun hmem => h.unbroken (List.mem_of_mem_take hmem)
  unfold locate
  dsimp only
  rw [htake, List.count_append, hfeeds]

end IsLine

/-! ## Locating offsets -/

/-- The nearest offset inside a source is the one it is clamped to. -/
theorem clampOffset_eq (offset : ℤ) (length : ℕ) :
    (clampOffset offset length : ℤ) = max 0 (min offset length) := by
  unfold clampOffset
  omega

/-- The place that is located for an offset is a place of the offset. -/
theorem liesAt_locate (source : String) (offset : ℤ) :
    LiesAt source (locate source offset) (clampOffset offset source.length) := by
  obtain ⟨before, behind, column, hline, hcolumn, hle, hplace⟩ := locate_isLine source offset
  obtain ⟨lines, more, hlines, hlength, hsum⟩ := hline.exists_lines
  have hindex : (locate source offset).number - 1 = lines.length := by
    rw [hline.number_locate hle hplace, hlength, Nat.add_sub_cancel]
  have hstart : lineStart (source.toList.splitOn '\n') lines.length = before.length := by
    rw [lineStart, hlines, List.take_left, hsum]
  refine ⟨?_, ?_, ?_, ?_, ?_⟩
  · rw [hline.number_locate hle hplace]
    omega
  · rw [hindex, hlines, List.getElem?_append_right (Nat.le_refl _), Nat.sub_self]
    rfl
  · omega
  · rw [String.length_toList] at hle
    omega
  · rw [hindex, hstart, hcolumn, Nat.add_sub_cancel, hplace]

/-- The place that is located for an offset is the only one that the offset, clamped to the source,
leads to, so that the number of the line and the column determine the clamped offset. -/
theorem locate_eq_iff_liesAt (source : String) (offset : ℤ) :
    (clampOffset offset source.length : ℤ) = max 0 (min offset source.length) ∧
      (∀ place, locate source offset = place ↔
        LiesAt source place (clampOffset offset source.length)) ∧
      ∀ other : ℤ, ((locate source other).number = (locate source offset).number ∧
          (locate source other).column = (locate source offset).column) ↔
        clampOffset other source.length = clampOffset offset source.length := by
  have hlies := liesAt_locate source offset
  refine ⟨clampOffset_eq offset source.length, fun place => ⟨?_, ?_⟩, fun other => ⟨?_, ?_⟩⟩
  · rintro rfl
    exact hlies
  · exact hlies.unique
  · rintro ⟨hnumber, hcolumn⟩
    rw [← (liesAt_locate source other).offset_eq, hnumber, hcolumn, hlies.offset_eq]
  · intro hclamp
    have hother := liesAt_locate source other
    rw [hclamp] at hother
    rw [hother.unique hlies]
    exact ⟨rfl, rfl⟩

-- A line feed lies behind the last character of the line that it ends.
example : locate "ab\n\ncd" 2 = ⟨"ab", 1, 3⟩ := by decide

end QLanguage
