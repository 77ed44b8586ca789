import Mathlib.Computability.Language
import Mathlib.Data.List.TakeWhile
import QLanguage.Proofs.Spelling

/-!
# The languages of lexemes

Each kind of lexeme has a language, given by the operations on languages:

    identifier ::= letter letter*
    string     ::= quote (plain | backslash any)* quote
    float      ::= digit* "." digit digit*
    integer    ::= digit digit*

and a punctuation mark is itself. The order in which a cut tries them does not show: what is cut is
the longest word of any of these languages that the source starts with, and it is of one kind only
(`cut_longest`). An invalid character is cut where the source starts with no such word.
-/

namespace QLanguage

open Computability

/-! ## Words -/

/-- The words of one character with a property. -/
def oneOf (p : Char → Prop) : Language Char := {w | ∃ c, p c ∧ w = [c]}

/-- The letters and the low line. -/
def letter : Language Char :=
  oneOf fun c => c = '_' ∨ 'a' ≤ c ∧ c ≤ 'z' ∨ 'A' ≤ c ∧ c ≤ 'Z'

/-- The decimal digits. -/
def digit : Language Char := oneOf fun c => '0' ≤ c ∧ c ≤ '9'

/-- What may stand between quotation marks: a plain character, or any character behind a
backslash. -/
def stringItem : Language Char :=
  oneOf (fun c => c ≠ quotationMark ∧ c ≠ '\\') + {['\\']} * oneOf fun _ => True

/-- The language of a kind of lexeme. -/
def Kind.language : Kind → Language Char
  | .identifier => letter * letter∗
  | .string => {[quotationMark]} * stringItem∗ * {[quotationMark]}
  | .float => digit∗ * {['.']} * (digit * digit∗)
  | .integer => digit * digit∗
  | .punct p => {[p.char]}
  | .invalid | .other _ => 0

/-- Words of characters with a property are all that have only such characters. -/
theorem mem_oneOf_kstar {p : Char → Prop} {w : List Char} : w ∈ (oneOf p)∗ ↔ ∀ c ∈ w, p c := by
  rw [Language.mem_kstar]
  constructor
  · rintro ⟨words, rfl, hwords⟩ c hc
    obtain ⟨word, hword, hmem⟩ := List.mem_flatten.mp hc
    obtain ⟨c', hc', rfl⟩ := hwords word hword
    rw [List.mem_singleton.mp hmem]
    exact hc'
  · intro hall
    refine ⟨w.map fun c => [c], ?_, ?_⟩
    · rw [← List.flatMap_def, List.flatMap_singleton']
    · intro word hword
      obtain ⟨c, hc, rfl⟩ := List.mem_map.mp hword
      exact ⟨c, hall c hc, rfl⟩

/-- Words of one character with a property or more are all but the empty one. -/
theorem mem_oneOf_mul_kstar {p : Char → Prop} {w : List Char} :
    w ∈ oneOf p * (oneOf p)∗ ↔ w ≠ [] ∧ ∀ c ∈ w, p c := by
  rw [Language.mem_mul]
  constructor
  · rintro ⟨_, ⟨c, hc, rfl⟩, more, hmore, rfl⟩
    refine ⟨List.cons_ne_nil c more, ?_⟩
    rw [List.singleton_append, List.forall_mem_cons]
    exact ⟨hc, mem_oneOf_kstar.mp hmore⟩
  · rintro ⟨hne, hall⟩
    obtain ⟨c, more, rfl⟩ := List.exists_cons_of_ne_nil hne
    rw [List.forall_mem_cons] at hall
    exact ⟨[c], ⟨c, hall.1, rfl⟩, more, mem_oneOf_kstar.mpr hall.2, rfl⟩

/-! ## What the words look like -/

/-- The letters are those of a word. -/
theorem isLetter_iff (c : Char) :
    isLetter c = true ↔ c = '_' ∨ 'a' ≤ c ∧ c ≤ 'z' ∨ 'A' ≤ c ∧ c ≤ 'Z' := by
  rw [isLetter_iff_toNat]
  exact or_congr (Char.toNat_inj (d := '_')) Iff.rfl

/-- The digits are those of a number. -/
theorem isDigit_iff (c : Char) : c.isDigit = true ↔ '0' ≤ c ∧ c ≤ '9' := by
  simp [Char.isDigit, Char.le_def]

/-- An identifier has a letter and only letters. -/
theorem mem_identifier {w : List Char} :
    w ∈ Kind.identifier.language ↔ w ≠ [] ∧ ∀ c ∈ w, isLetter c = true := by
  simp only [isLetter_iff]
  exact mem_oneOf_mul_kstar

/-- An integer has a digit and only digits. -/
theorem mem_integer {w : List Char} :
    w ∈ Kind.integer.language ↔ w ≠ [] ∧ ∀ c ∈ w, c.isDigit = true := by
  simp only [isDigit_iff]
  exact mem_oneOf_mul_kstar

/-- A float has digits around a point, of which those before it may be missing. -/
theorem mem_float {w : List Char} :
    w ∈ Kind.float.language ↔ ∃ whole fraction, w = whole ++ '.' :: fraction ∧
      (∀ c ∈ whole, c.isDigit = true) ∧ fraction ≠ [] ∧ ∀ c ∈ fraction, c.isDigit = true := by
  simp only [isDigit_iff]
  constructor
  · rintro ⟨_, ⟨whole, hwhole, _, rfl, rfl⟩, fraction, hfraction, rfl⟩
    exact ⟨whole, fraction, by simp, mem_oneOf_kstar.mp hwhole, mem_oneOf_mul_kstar.mp hfraction⟩
  · rintro ⟨whole, fraction, rfl, hwhole, hfraction⟩
    refine ⟨whole ++ ['.'], ⟨whole, mem_oneOf_kstar.mpr hwhole, ['.'], rfl, rfl⟩, fraction,
      mem_oneOf_mul_kstar.mpr hfraction, by simp⟩

/-- A plain character or an escape in front leaves raw what is raw. -/
theorem isRaw_append_of_mem_stringItem {w : List Char} (h : w ∈ stringItem) (raw : List Char) :
    isRaw (w ++ raw) = isRaw raw := by
  rcases h with ⟨c, ⟨hmark, hslash⟩, rfl⟩ | ⟨_, rfl, _, ⟨c, -, rfl⟩, rfl⟩
  · exact isRaw_cons hmark hslash raw
  · rfl

/-- What stands between quotation marks is raw. -/
theorem mem_stringItem_kstar {raw : List Char} : raw ∈ stringItem∗ ↔ isRaw raw = true := by
  constructor
  · rintro ⟨words, rfl, hwords⟩
    induction words with
    | nil => rfl
    | cons word words ih =>
      rw [List.forall_mem_cons] at hwords
      rw [List.flatten_cons, isRaw_append_of_mem_stringItem hwords.1]
      exact ih hwords.2
  · intro h
    -- The recursion takes off one item at a time.
    have hcons : ∀ {word raw : List Char}, word ∈ stringItem → raw ∈ stringItem∗ →
        word ++ raw ∈ stringItem∗ := by
      rintro word _ hword ⟨words, rfl, hwords⟩
      exact ⟨word :: words, rfl, List.forall_mem_cons.mpr ⟨hword, hwords⟩⟩
    fun_induction isRaw raw with
    | case1 => exact Language.nil_mem_kstar _
    | case2 => cases h
    | case3 => cases h
    | case4 c tail ih => exact hcons (.inr ⟨_, rfl, [c], ⟨c, trivial, rfl⟩, rfl⟩) (ih h)
    | case5 c tail hmark hlast hslash ih =>
      have hc : c ≠ '\\' := ne_backslash hlast hslash
      exact hcons (.inl ⟨c, ⟨hmark, hc⟩, rfl⟩) (ih h)

/-- A string is raw between its quotation marks. -/
theorem mem_string {w : List Char} :
    w ∈ Kind.string.language ↔
      ∃ raw, w = quotationMark :: (raw ++ [quotationMark]) ∧ isRaw raw = true := by
  constructor
  · rintro ⟨_, ⟨_, rfl, raw, hraw, rfl⟩, _, rfl, rfl⟩
    exact ⟨raw, rfl, mem_stringItem_kstar.mp hraw⟩
  · rintro ⟨raw, rfl, hraw⟩
    exact ⟨_, ⟨_, rfl, raw, mem_stringItem_kstar.mpr hraw, rfl⟩, _, rfl, rfl⟩

/-- A punctuation mark is itself. -/
theorem mem_punct {p : Punct} {w : List Char} : w ∈ (Kind.punct p).language ↔ w = [p.char] :=
  Iff.rfl

/-- No word is empty. -/
theorem ne_nil_of_mem_language {kind : Kind} {w : List Char} (h : w ∈ kind.language) : w ≠ [] := by
  cases kind with
  | identifier => exact (mem_identifier.mp h).1
  | integer => exact (mem_integer.mp h).1
  | string =>
    obtain ⟨raw, rfl, -⟩ := mem_string.mp h
    exact List.cons_ne_nil _ _
  | float =>
    obtain ⟨whole, fraction, rfl, -⟩ := mem_float.mp h
    exact List.append_ne_nil_of_right_ne_nil _ (List.cons_ne_nil _ _)
  | punct p =>
    rw [mem_punct.mp h]
    exact List.cons_ne_nil _ _
  | invalid => cases h
  | other label => cases h

/-! ## What a cut does at the first character -/

section Cut

variable {c : Char} {cs : List Char}

/-- At a letter, all letters are cut. -/
theorem cut_letter (h : isLetter c = true) :
    cut c cs = ⟨.identifier, (c :: cs).takeWhile isLetter, (c :: cs).dropWhile isLetter⟩ := by
  unfold cut
  rw [ofChar?_of_isLetter h]
  dsimp only
  rw [if_pos h, List.takeWhile_cons_of_pos h, List.dropWhile_cons_of_pos h]

/-- At a quotation mark with its closing one behind it, a string is cut. -/
theorem cut_quotationMark {raw rest : List Char} (h : closeString? cs = some (raw, rest)) :
    cut quotationMark cs = ⟨.string, quotationMark :: (raw ++ [quotationMark]), rest⟩ := by
  unfold cut
  rw [h]
  rfl

/-- At a punctuation mark, that mark is cut. -/
theorem cut_punct (p : Punct) : cut p.char cs = ⟨.punct p, [p.char], cs⟩ := by
  have hchar : Punct.ofChar? p.char = some p := (Punct.ofChar?_eq_some_iff _ _).mpr rfl
  unfold cut
  rw [hchar]

/-- A digit is no letter. -/
theorem isLetter_of_isDigit (h : c.isDigit = true) : isLetter c = false := by
  rw [Bool.eq_false_iff]
  intro hletter
  simp only [isLetter_iff, isDigit_iff, Char.le_def, UInt32.le_iff_toNat_le] at h hletter
  rcases hletter with rfl | hletter | hletter
  · exact absurd h (by decide)
  · have hlow : 'a'.val.toNat = 97 := rfl
    have hhigh : '9'.val.toNat = 57 := rfl
    omega
  · have hlow : 'A'.val.toNat = 65 := rfl
    have hhigh : '9'.val.toNat = 57 := rfl
    omega

/-- At a digit or a point, a number is cut. -/
theorem cut_number (h : c.isDigit = true ∨ c = '.') : cut c cs = cutNumber c cs := by
  rcases h with h | rfl
  · have hpunct : Punct.ofChar? c = none := by
      cases hp : Punct.ofChar? c with
      | none => rfl
      | some p =>
        rw [Punct.ofChar?_eq_some_iff] at hp
        subst hp
        cases p <;> cases h
    have hmark : (c == quotationMark) = false := by
      rw [beq_eq_false_iff_ne]
      rintro rfl
      cases h
    unfold cut
    rw [hpunct, isLetter_of_isDigit h, hmark]
    rfl
  · rfl

/-- Where digits stand around a point, a float is cut. -/
theorem cutNumber_float {more : List Char} (h : (c :: cs).dropWhile Char.isDigit = '.' :: more)
    (hne : more.takeWhile Char.isDigit ≠ []) :
    cutNumber c cs =
      ⟨.float, (c :: cs).takeWhile Char.isDigit ++ '.' :: more.takeWhile Char.isDigit,
        more.dropWhile Char.isDigit⟩ := by
  have hempty : ¬(more.takeWhile Char.isDigit).isEmpty = true := by rwa [List.isEmpty_iff]
  unfold cutNumber
  rw [h]
  exact if_neg hempty

/-- Digits around a point are cut, and those that follow. -/
theorem cut_float {whole fraction rest : List Char} (hwhole : ∀ c ∈ whole, c.isDigit = true)
    (hne : fraction ≠ []) (hfraction : ∀ c ∈ fraction, c.isDigit = true)
    (h : c :: cs = whole ++ '.' :: (fraction ++ rest)) :
    cut c cs = ⟨.float, whole ++ '.' :: (fraction ++ rest).takeWhile Char.isDigit,
      (fraction ++ rest).dropWhile Char.isDigit⟩ := by
  have hfirst : c.isDigit = true ∨ c = '.' := by
    cases whole with
    | nil => exact .inr (List.cons.inj h).1
    | cons d whole =>
      left
      rw [(List.cons.inj h).1]
      exact hwhole d List.mem_cons_self
  have hdrop : (c :: cs).dropWhile Char.isDigit = '.' :: (fraction ++ rest) := by
    rw [h, List.dropWhile_append_of_pos hwhole]
    rfl
  have htake : (c :: cs).takeWhile Char.isDigit = whole := by
    rw [h, List.takeWhile_append_of_pos hwhole]
    exact List.append_nil whole
  have hdigits : (fraction ++ rest).takeWhile Char.isDigit ≠ [] := by
    rw [List.takeWhile_append_of_pos hfraction]
    exact List.append_ne_nil_of_left_ne_nil hne _
  rw [cut_number hfirst, cutNumber_float hdrop hdigits, htake]

/-- At a digit, all digits are cut, and if a point with digits follows, these as well. -/
theorem cutNumber_digit (cs : List Char) (h : c.isDigit = true) :
    cutNumber c cs =
      ⟨.integer, (c :: cs).takeWhile Char.isDigit, (c :: cs).dropWhile Char.isDigit⟩ ∨
    ∃ more, (c :: cs).dropWhile Char.isDigit = '.' :: more ∧ more.takeWhile Char.isDigit ≠ [] := by
  have hinteger : cutInteger c cs =
      ⟨.integer, (c :: cs).takeWhile Char.isDigit, (c :: cs).dropWhile Char.isDigit⟩ := by
    unfold cutInteger
    rw [if_pos h, List.takeWhile_cons_of_pos h, List.dropWhile_cons_of_pos h]
  unfold cutNumber
  split
  · next more hmore =>
    split
    · exact .inl hinteger
    · next hne => exact .inr ⟨more, hmore, by simpa using hne⟩
  · exact .inl hinteger

end Cut

/-! ## The longest word is cut -/

/-- The front of a text is shorter, or it is the text. -/
theorem lt_length_or_eq {w text : List Char} (h : w <+: text) :
    w.length < text.length ∨ w = text := by
  rcases Nat.lt_or_ge w.length text.length with hlt | hge
  · exact .inl hlt
  · exact .inr (h.eq_of_length_le hge)

/-- The front of a text that has only characters with a property goes no further than these. -/
theorem prefix_takeWhile {p : Char → Bool} {w cs : List Char} (h : w <+: cs)
    (hall : ∀ c ∈ w, p c = true) : w <+: cs.takeWhile p := by
  obtain ⟨rest, rfl⟩ := h
  rw [List.takeWhile_append_of_pos hall]
  exact List.prefix_append w _

/-- Whatever word of a language a source starts with, the cut is longer, or is that word and of the
kind of that language. -/
theorem cut_longest {kind : Kind} {c : Char} {cs w : List Char} (h : w <+: c :: cs)
    (hw : w ∈ kind.language) :
    w.length < (cut c cs).text.length ∨ w = (cut c cs).text ∧ kind = (cut c cs).kind := by
  -- The word has the first character of the source as its own.
  obtain ⟨d, w', rfl⟩ := List.exists_cons_of_ne_nil (ne_nil_of_mem_language hw)
  obtain ⟨rfl, htail⟩ := List.cons_prefix_cons.mp h
  cases kind with
  | identifier =>
    have hall := (mem_identifier.mp hw).2
    rw [cut_letter (hall d List.mem_cons_self)]
    exact (lt_length_or_eq (prefix_takeWhile h hall)).imp_right fun heq => ⟨heq, rfl⟩
  | integer =>
    have hall := (mem_integer.mp hw).2
    have hdigit := hall d List.mem_cons_self
    have hprefix := prefix_takeWhile h hall
    rw [cut_number (.inl hdigit)]
    rcases cutNumber_digit cs hdigit with hinteger | ⟨more, hmore, hne⟩
    · rw [hinteger]
      exact (lt_length_or_eq hprefix).imp_right fun heq => ⟨heq, rfl⟩
    · -- A float is longer than the digits before its point.
      rw [cutNumber_float hmore hne]
      left
      have hle := hprefix.length_le
      calc (d :: w').length ≤ ((d :: cs).takeWhile Char.isDigit).length := hle
        _ < ((d :: cs).takeWhile Char.isDigit ++ '.' :: more.takeWhile Char.isDigit).length := by
          rw [List.length_append, List.length_cons]
          omega
  | float =>
    obtain ⟨whole, fraction, hw', hwhole, hne, hfraction⟩ := mem_float.mp hw
    obtain ⟨rest, hrest⟩ := h
    rw [hw', List.append_assoc, List.cons_append] at hrest
    rw [cut_float hwhole hne hfraction hrest.symm, hw']
    have hprefix := prefix_takeWhile (List.prefix_append fraction rest) hfraction
    have htext : whole ++ '.' :: fraction <+:
        whole ++ '.' :: (fraction ++ rest).takeWhile Char.isDigit :=
      (List.prefix_append_right_inj whole).mpr (List.cons_prefix_cons.mpr ⟨rfl, hprefix⟩)
    exact (lt_length_or_eq htext).imp_right fun heq => ⟨heq, rfl⟩
  | string =>
    obtain ⟨raw, hraw, hisRaw⟩ := mem_string.mp hw
    obtain ⟨rest, hrest⟩ := htail
    rw [List.cons.injEq] at hraw
    obtain ⟨rfl, rfl⟩ := hraw
    have hclose : closeString? cs = some (raw, rest) := by
      rw [← hrest, List.append_assoc]
      exact closeString?_of_isRaw hisRaw rest
    rw [cut_quotationMark hclose]
    exact .inr ⟨rfl, rfl⟩
  | punct p =>
    cases mem_punct.mp hw
    rw [cut_punct p]
    exact .inr ⟨rfl, rfl⟩
  | invalid => cases hw
  | other label => cases hw

/-- What `cutInteger` cuts is a word of the language of its kind, or an invalid character. -/
theorem cutInteger_mem_language (c : Char) (cs : List Char) :
    (cutInteger c cs).text ∈ (cutInteger c cs).kind.language ∨
      (cutInteger c cs).kind = .invalid ∧ (cutInteger c cs).text = [c] := by
  unfold cutInteger
  split
  · next hdigit =>
    left
    refine mem_integer.mpr ⟨List.cons_ne_nil _ _, List.forall_mem_cons.mpr ⟨hdigit, ?_⟩⟩
    exact fun _ => List.mem_takeWhile_imp
  · exact .inr ⟨rfl, rfl⟩

/-- What `cutNumber` cuts is a word of the language of its kind, or an invalid character. -/
theorem cutNumber_mem_language (c : Char) (cs : List Char) :
    (cutNumber c cs).text ∈ (cutNumber c cs).kind.language ∨
      (cutNumber c cs).kind = .invalid ∧ (cutNumber c cs).text = [c] := by
  unfold cutNumber
  split
  · split
    · exact cutInteger_mem_language c cs
    · next more _ hne =>
      left
      rw [List.isEmpty_iff] at hne
      exact mem_float.mpr ⟨_, _, rfl, fun _ => List.mem_takeWhile_imp, hne,
        fun _ => List.mem_takeWhile_imp⟩
  · exact cutInteger_mem_language c cs

/-- What is cut is a word of the language of its kind, or an invalid character. -/
theorem cut_mem_language (c : Char) (cs : List Char) :
    (cut c cs).text ∈ (cut c cs).kind.language ∨
      (cut c cs).kind = .invalid ∧ (cut c cs).text = [c] := by
  unfold cut
  split
  · next p hp =>
    left
    rw [(Punct.ofChar?_eq_some_iff c p).mp hp]
    exact mem_punct.mpr rfl
  · split
    · next hletter =>
      left
      refine mem_identifier.mpr ⟨List.cons_ne_nil _ _, List.forall_mem_cons.mpr ⟨hletter, ?_⟩⟩
      exact fun _ => List.mem_takeWhile_imp
    · split
      · next hmark =>
        split
        · next raw rest hclose =>
          left
          rw [beq_iff_eq] at hmark
          subst hmark
          exact mem_string.mpr ⟨raw, rfl, isRaw_of_closeString? hclose⟩
        · exact .inr ⟨rfl, rfl⟩
      · exact cutNumber_mem_language c cs

end QLanguage
