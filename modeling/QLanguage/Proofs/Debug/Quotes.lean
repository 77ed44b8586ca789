import Mathlib.Algebra.Group.Nat.Defs
import Mathlib.Data.Nat.Init
import Mathlib.Tactic.SplitIfs
import QLanguage.Text.Quoted

/-!
# Quoted texts are read in one way

Inside quotes a character stands for itself, or an escape stands for it: a letter or mark behind a
backslash, and for some letters a fixed number of hexadecimal digits behind that (`IsEscape`). Which
of these it is shows at once, and also where it ends. So the characters are read one after another,
up to the quote, which stands for itself only at the end, and two texts that start with quoted texts
are the same only if these are and what follows them is (`readsOnce_quoted`).
-/

namespace QLanguage

/-! ## Texts that are read in one way -/

/-- A text that starts with what is written for an item starts so for no other item, and what
follows is the same. -/
def ReadsOnce {α : Type} (write : α → List Char) (a : α) : Prop :=
  ∀ ⦃b : α⦄ ⦃r s : List Char⦄, write a ++ r = write b ++ s → a = b ∧ r = s

/-- Items in a row are read one after another, up to a mark that no item starts with. -/
theorem readsOnce_flatMap {α : Type} {write : α → List Char} {mark : Char}
    (hmark : ∀ a r s, write a ++ r ≠ mark :: s) {as : List α} (h : ∀ a ∈ as, ReadsOnce write a) :
    ReadsOnce (fun as => as.flatMap write ++ [mark]) as := by
  intro bs r s heq
  replace heq : as.flatMap write ++ mark :: r = bs.flatMap write ++ mark :: s := by
    simpa using heq
  induction as generalizing bs with
  | nil =>
    cases bs with
    | nil => exact ⟨rfl, (List.cons.inj heq).2⟩
    | cons b bs =>
      rw [List.flatMap_cons, List.append_assoc] at heq
      exact absurd heq.symm (hmark b _ _)
  | cons a as ih =>
    obtain ⟨ha, has⟩ := List.forall_mem_cons.1 h
    rw [List.flatMap_cons, List.append_assoc] at heq
    cases bs with
    | nil => exact absurd heq (hmark a _ _)
    | cons b bs =>
      rw [List.flatMap_cons, List.append_assoc] at heq
      obtain ⟨rfl, hrest⟩ := ha heq
      obtain ⟨rfl, hend⟩ := ih has hrest
      exact ⟨rfl, hend⟩

/-! ## Numbers in hexadecimal digits -/

/-- Of a number in hexadecimal digits, the last digit stands behind those of the sixteenth. -/
theorem hexadecimal_succ {width : ℕ} (hwidth : 1 ≤ width) (n : ℕ) :
    hexadecimal (width + 1) n = hexadecimal width (n / 16) ++ [Nat.digitChar (n % 16)] := by
  unfold hexadecimal
  dsimp only
  rw [Nat.toDigits_eq_if (by decide)]
  split_ifs with hsmall
  · have hzeros : List.replicate width '0' = List.replicate (width - 1) '0' ++ ['0'] := by
      rw [← List.replicate_succ', Nat.sub_add_cancel hwidth]
    rw [Nat.div_eq_of_lt hsmall, Nat.mod_eq_of_lt hsmall]
    simp [hzeros]
  · rw [List.length_append, List.length_singleton, Nat.add_sub_add_right, List.append_assoc]

/-- A number that fits has as many digits as are asked for. -/
theorem length_hexadecimal {width n : ℕ} (hwidth : 1 ≤ width) (h : n < 16 ^ width) :
    (hexadecimal width n).length = width := by
  have hle := (Nat.length_toDigits_le_iff (by decide) hwidth).mpr h
  unfold hexadecimal
  dsimp only
  rw [List.length_append, List.length_replicate, Nat.sub_add_cancel hle]

/-- Numbers that fit are told apart by their digits. -/
theorem hexadecimal_inj {width m n : ℕ} (hwidth : 1 ≤ width) (hm : m < 16 ^ width)
    (hn : n < 16 ^ width) (h : hexadecimal width m = hexadecimal width n) : m = n := by
  have hdigit : ∀ d < 16, ∀ e < 16, Nat.digitChar d = Nat.digitChar e → d = e := by decide
  induction width, hwidth using Nat.le_induction generalizing m n with
  | base =>
    rw [Nat.pow_one] at hm hn
    rw [hexadecimal, hexadecimal, Nat.toDigits_of_lt_base hm, Nat.toDigits_of_lt_base hn] at h
    exact hdigit m hm n hn (List.singleton_inj.1 h)
  | succ width hwidth ih =>
    rw [hexadecimal_succ hwidth, hexadecimal_succ hwidth] at h
    obtain ⟨hfront, hlast⟩ := List.append_inj' h rfl
    have hdiv := ih (by omega) (by omega) hfront
    have hmod := hdigit _ (Nat.mod_lt m (by decide)) _ (Nat.mod_lt n (by decide))
      (List.singleton_inj.1 hlast)
    omega

/-! ## Escapes -/

/-- The letters and marks that stand for one character behind a backslash. -/
def escapeLetters : List Char := [apostrophe, quotationMark, '\\', 'n', 'r', 't']

/-- What such a letter or mark stands for. -/
def escapedBy : Char → Char
  | 'n' => '\n'
  | 'r' => '\r'
  | 't' => '\t'
  | mark => mark

/-- The letters that spell a character by the digits behind them. -/
def spellingLetters : List Char := ['x', 'u', 'U']

/-- How many digits stand behind such a letter. -/
def spelledWidth (letter : Char) : ℕ :=
  if letter = 'x' then 2 else if letter = 'u' then 4 else 8

/-- Behind a backslash, a letter or mark and the digits behind it stand for a character. -/
inductive IsEscape : Char → List Char → Char → Prop where
  /-- Some letters and marks stand for a character without digits. -/
  | mark {letter : Char} (hletter : letter ∈ escapeLetters) : IsEscape letter [] (escapedBy letter)
  /-- Others spell one whose number fits the digits. -/
  | spelling {letter c : Char} (hletter : letter ∈ spellingLetters)
      (hfits : c.toNat < 16 ^ spelledWidth letter) :
      IsEscape letter (hexadecimal (spelledWidth letter) c.toNat) c

/-- A letter stands for a character without digits or spells one, but not both. -/
theorem not_mem_escapeLetters {letter : Char} (h : letter ∈ spellingLetters) :
    letter ∉ escapeLetters := by
  revert letter
  rw [spellingLetters, List.forall_mem_cons, List.forall_mem_cons, List.forall_mem_singleton]
  decide

/-- What is behind a backslash stands for one character and tells where it ends. -/
theorem IsEscape.unique {letter c d : Char} {digits digits' r s : List Char}
    (h : IsEscape letter digits c) (h' : IsEscape letter digits' d)
    (heq : digits ++ r = digits' ++ s) : c = d ∧ r = s := by
  cases h with
  | mark hletter =>
    cases h' with
    | mark _ => exact ⟨rfl, heq⟩
    | spelling hspelling _ => exact absurd hletter (not_mem_escapeLetters hspelling)
  | spelling hspelling hfits =>
    cases h' with
    | mark hletter => exact absurd hletter (not_mem_escapeLetters hspelling)
    | spelling _ hfits' =>
      have hwidth : 1 ≤ spelledWidth letter := by
        unfold spelledWidth
        split_ifs <;> decide
      have hlength : (hexadecimal (spelledWidth letter) c.toNat).length =
          (hexadecimal (spelledWidth letter) d.toNat).length := by
        rw [length_hexadecimal hwidth hfits, length_hexadecimal hwidth hfits']
      obtain ⟨hsame, hrest⟩ := List.append_inj heq hlength
      exact ⟨Char.toNat_inj.1 (hexadecimal_inj hwidth hfits hfits' hsame), hrest⟩

/-- A character that is spelled is escaped. -/
theorem exists_isEscape_spelled (c : Char) :
    ∃ letter digits, IsEscape letter digits c ∧ spelled c = '\\' :: letter :: digits := by
  unfold spelled
  split_ifs with hbyte hpair
  · exact ⟨'x', _, .spelling (by decide) hbyte, rfl⟩
  · exact ⟨'u', _, .spelling (by decide) hpair, rfl⟩
  · exact ⟨'U', _, .spelling (by decide) c.val.toNat_lt, rfl⟩

section Quotes

variable {quote : Char}

/-- Inside quotes a character stands for itself, if it is printable and neither the quote nor the
backslash, or an escape stands for it. -/
theorem escaped_cases (hquote : quote ∈ [apostrophe, quotationMark]) (c : Char) :
    (escaped quote c = [c] ∧ c ≠ quote ∧ c ≠ '\\' ∧ isPrintable c = true) ∨
      ∃ letter digits, IsEscape letter digits c ∧ escaped quote c = '\\' :: letter :: digits := by
  have hmarks : ∀ mark ∈ ['\\', apostrophe, quotationMark],
      mark ∈ escapeLetters ∧ escapedBy mark = mark := by
    rw [List.forall_mem_cons, List.forall_mem_cons, List.forall_mem_singleton]
    decide
  unfold escaped
  split_ifs with hmark hfeed hreturn htab hprintable
  · have hc : c ∈ ['\\', apostrophe, quotationMark] := by
      rcases Bool.or_eq_true_iff.1 hmark with heq | heq
      · exact List.mem_cons_of_mem _ (beq_iff_eq.1 heq ▸ hquote)
      · exact List.mem_cons.2 (.inl (beq_iff_eq.1 heq))
    have hescape := IsEscape.mark (hmarks c hc).1
    rw [(hmarks c hc).2] at hescape
    exact .inr ⟨c, [], hescape, rfl⟩
  · rw [beq_iff_eq.1 hfeed]
    exact .inr ⟨'n', [], .mark (by decide), rfl⟩
  · rw [beq_iff_eq.1 hreturn]
    exact .inr ⟨'r', [], .mark (by decide), rfl⟩
  · rw [beq_iff_eq.1 htab]
    exact .inr ⟨'t', [], .mark (by decide), rfl⟩
  · simp only [Bool.or_eq_true, beq_iff_eq, not_or] at hmark
    exact .inl ⟨rfl, hmark.1, hmark.2, hprintable⟩
  · exact .inr (exists_isEscape_spelled c)

/-- Inside quotes no character starts with the quote. -/
theorem escaped_append_ne (hquote : quote ∈ [apostrophe, quotationMark]) (c : Char)
    (r s : List Char) : escaped quote c ++ r ≠ quote :: s := by
  intro h
  obtain ⟨hself, hc, -, -⟩ | ⟨letter, digits, -, hescape⟩ := escaped_cases hquote c
  · rw [hself] at h
    exact hc (List.cons.inj h).1
  · rw [hescape] at h
    rw [← (List.cons.inj h).1] at hquote
    exact absurd hquote (by decide)

/-- Inside quotes a character is read in one way. -/
theorem readsOnce_escaped (hquote : quote ∈ [apostrophe, quotationMark]) (c : Char) :
    ReadsOnce (escaped quote) c := by
  intro d r s h
  obtain ⟨hself, -, hc, -⟩ | ⟨letter, digits, hstands, hescape⟩ := escaped_cases hquote c <;>
    obtain ⟨hself', -, hd, -⟩ | ⟨letter', digits', hstands', hescape'⟩ := escaped_cases hquote d
  · rw [hself, hself'] at h
    exact List.cons.inj h
  · rw [hself, hescape'] at h
    exact absurd (List.cons.inj h).1 hc
  · rw [hescape, hself'] at h
    exact absurd (List.cons.inj h).1.symm hd
  · rw [hescape, hescape'] at h
    obtain ⟨rfl, hdigits⟩ := List.cons.inj (List.cons.inj h).2
    exact hstands.unique hstands' hdigits

end Quotes

/-! ## Quoted texts -/

/-- A text is written in one of the two quotes. -/
theorem quoteOf_mem (cs : List Char) : quoteOf cs ∈ [apostrophe, quotationMark] := by
  unfold quoteOf
  split_ifs <;> decide

/-- The characters of a text in quotes. -/
theorem toList_quoted (text : String) :
    (quoted text).toList = quoteOf text.toList ::
      (text.toList.flatMap (escaped (quoteOf text.toList)) ++ [quoteOf text.toList]) := by
  rw [quoted, String.toList_ofList, List.cons_append]

/-- A text in quotes is read in one way. -/
theorem readsOnce_quoted (text : String) : ReadsOnce (fun text => (quoted text).toList) text := by
  intro other r s h
  simp only [toList_quoted, List.cons_append, List.cons.injEq] at h
  obtain ⟨hquote, hinside⟩ := h
  rw [← hquote] at hinside
  have hmem := quoteOf_mem text.toList
  obtain ⟨hsame, hrest⟩ :=
    readsOnce_flatMap (escaped_append_ne hmem) (fun c _ => readsOnce_escaped hmem c) hinside
  exact ⟨String.toList_injective hsame, hrest⟩

end QLanguage
