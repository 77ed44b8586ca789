import QLanguage.Proofs.Lexing
import QLanguage.Proofs.Steps
import QLanguage.Token.Cursor

/-!
# What a cursor moves over

A reading that gives a result has moved its cursor over some tokens, `Cursor.Moves`. Each basic
reading has one lemma that says over which tokens it moves when it succeeds, and one that says what
it does before a given token; nothing below needs to open them again. However it ends, a reading
leaves a suffix of what was left to read, `Cursor.Leaves`.
-/

namespace QLanguage

/-! ## Cursors -/

/-- Between a cursor and a later one stand some tokens. -/
def Cursor.Moves (c : Cursor) (ts : List Token) (c' : Cursor) : Prop :=
  c.rest = ts.map .token ++ c'.rest ∧ c'.length = c.length

/-- A later cursor has a suffix of the lexemes left, in the same source. -/
def Cursor.Leaves (c c' : Cursor) : Prop := c'.rest <:+ c.rest ∧ c'.length = c.length

/-- All tokens that are left can be cut from a source. -/
def Cursor.InSource (c : Cursor) : Prop :=
  ∀ t : Token, Lexed.token t ∈ c.rest → t.lexeme.inSource = true

namespace Cursor

variable {c c' c'' : Cursor} {ts ts' : List Token}

/-- A cursor that stays has moved over nothing. -/
theorem Moves.refl (c : Cursor) : c.Moves [] c := ⟨rfl, rfl⟩

/-- Two moves in a row are one move. -/
theorem Moves.trans (h : c.Moves ts c') (h' : c'.Moves ts' c'') : c.Moves (ts ++ ts') c'' := by
  obtain ⟨hrest, hlength⟩ := h
  obtain ⟨hrest', hlength'⟩ := h'
  refine ⟨?_, ?_⟩
  · rw [hrest, hrest', List.map_append, List.append_assoc]
  · rw [hlength', hlength]

/-- A move leaves a suffix. -/
theorem Moves.leaves (h : c.Moves ts c') : c.Leaves c' := ⟨⟨_, h.1.symm⟩, h.2⟩

/-- A cursor that stays leaves everything. -/
theorem Leaves.refl (c : Cursor) : c.Leaves c := ⟨List.suffix_refl _, rfl⟩

instance : Std.Refl Leaves := ⟨Leaves.refl⟩

instance : Trans Leaves Leaves Leaves := ⟨fun h h' => ⟨h'.1.trans h.1, h'.2.trans h.2⟩⟩

/-- What is left of a source can be cut from a source. -/
theorem InSource.leaves (h : c.InSource) (hleaves : c.Leaves c') : c'.InSource :=
  fun t ht => h t (hleaves.1.subset ht)

/-- The tokens that a cursor moves over can be cut from a source. -/
theorem InSource.moves (h : c.InSource) (hmoves : c.Moves ts c') :
    ∀ t ∈ ts, t.lexeme.inSource = true := by
  intro t ht
  apply h t
  rw [hmoves.1]
  exact List.mem_append_left _ (List.mem_map_of_mem ht)

/-- At the start of a source, all tokens can be cut from it. -/
theorem inSource_ofSource (source : String) : (Cursor.ofSource source).InSource :=
  fun _ ht => inSource_of_mem_lexemesFrom ht

end Cursor

namespace Reading

variable {c c' : Cursor}

/-! ## Looking at the next token -/

/-- Looking at the next token leaves the lexemes, or all but an integer that is too long. -/
theorem keeps_peek : Step.Keeps Cursor.Leaves peek := by
  rintro ⟨_ | ⟨token | ⟨digits, place⟩, rest⟩, span, length⟩
  · exact Cursor.Leaves.refl _
  · exact Cursor.Leaves.refl _
  · exact ⟨List.suffix_cons _ _, rfl⟩

/-- A look that gives an answer leaves the cursor where it is. -/
theorem run_peek_ok {answer : Option Token} (h : peek.run c = (.ok answer, c')) : c' = c := by
  obtain ⟨_ | ⟨token | ⟨digits, place⟩, rest⟩, span, length⟩ := c
  · cases h
    rfl
  · cases h
    rfl
  · cases h

/-- A look finds nothing only at the end of the source. -/
theorem run_peek_none (h : peek.run c = (.ok none, c')) : c.rest = [] := by
  obtain ⟨_ | ⟨token | ⟨digits, place⟩, rest⟩, span, length⟩ := c
  · rfl
  · cases h
  · cases h

/-! ## Taking the next token -/

/-- Taking a token leaves the lexemes behind it. -/
theorem keeps_next : Step.Keeps Cursor.Leaves next := by
  rintro ⟨_ | ⟨token | ⟨digits, place⟩, rest⟩, span, length⟩
  · exact Cursor.Leaves.refl _
  · exact ⟨List.suffix_cons _ _, rfl⟩
  · exact ⟨List.suffix_cons _ _, rfl⟩

/-- Taking a token moves over it. -/
theorem run_next_ok {token : Token} (h : next.run c = (.ok token, c')) : c.Moves [token] c' := by
  obtain ⟨_ | ⟨token | ⟨digits, place⟩, rest⟩, span, length⟩ := c
  · cases h
  · rw [run_next_token] at h
    cases h
    exact ⟨rfl, rfl⟩
  · cases h

/-- Asking for a kind leaves the lexemes behind the token that was taken. -/
theorem keeps_expect (kind : Kind) : Step.Keeps Cursor.Leaves (expect kind) := by
  refine Step.Keeps.bind keeps_next fun token => ?_
  split
  · exact Step.Keeps.pure _
  · exact Step.Keeps.throw _

/-- Asking for a kind moves over a token of that kind. -/
theorem run_expect_ok {kind : Kind} {token : Token} (h : (expect kind).run c = (.ok token, c')) :
    token.kind = kind ∧ c.Moves [token] c' := by
  obtain ⟨found, mid, hnext, hcheck⟩ := Step.run_bind_eq_ok_iff.mp h
  by_cases hkind : found.kind = kind
  · rw [if_pos hkind] at hcheck
    cases hcheck
    exact ⟨hkind, run_next_ok hnext⟩
  · rw [if_neg hkind] at hcheck
    cases hcheck

/-- Asking for the kind of the next token takes it. -/
theorem run_expect_token {kind : Kind} {token : Token} (hkind : token.kind = kind)
    (rest : List Lexed) (span : Span) (length : Nat) :
    (expect kind).run ⟨.token token :: rest, span, length⟩ =
      (.ok token, ⟨rest, token.span, length⟩) := by
  unfold expect
  rw [Step.run_bind_ok (run_next_token token rest span length), if_pos hkind]
  rfl

/-- Asking for a kind stops at a token of another kind, which it takes. -/
theorem run_expect_other {kind : Kind} {token : Token} (hkind : token.kind ≠ kind)
    (rest : List Lexed) (span : Span) (length : Nat) :
    (expect kind).run ⟨.token token :: rest, span, length⟩ =
      (.error (.diagnostic (.unexpected kind token)), ⟨rest, token.span, length⟩) := by
  unfold expect
  rw [Step.run_bind_ok (run_next_token token rest span length), if_neg hkind]
  rfl

/-! ## Taking a punctuation mark if it comes next -/

/-- Accepting a mark leaves the lexemes behind it, or all of them. -/
theorem keeps_accept (p : Punct) : Step.Keeps Cursor.Leaves (accept p) := by
  refine Step.Keeps.bind keeps_peek fun found => ?_
  cases found with
  | none => exact Step.Keeps.pure _
  | some token =>
    dsimp only
    split
    · exact Step.Keeps.bind keeps_next fun _ =>
        Step.Keeps.pure _
    · exact Step.Keeps.pure _

/-- The mark that comes next is accepted. -/
theorem run_accept_token {p : Punct} {token : Token} (hkind : token.kind = .punct p)
    (rest : List Lexed) (span : Span) (length : Nat) :
    (accept p).run ⟨.token token :: rest, span, length⟩ =
      (.ok true, ⟨rest, token.span, length⟩) := by
  unfold accept
  rw [Step.run_bind_ok (run_peek_token token rest span length)]
  dsimp only
  rw [if_pos hkind, Step.run_bind_ok (run_next_token token rest span length)]
  rfl

/-- Any other token is not accepted and stays. -/
theorem run_accept_other {p : Punct} {token : Token} (hkind : token.kind ≠ .punct p)
    (rest : List Lexed) (span : Span) (length : Nat) :
    (accept p).run ⟨.token token :: rest, span, length⟩ =
      (.ok false, ⟨.token token :: rest, span, length⟩) := by
  unfold accept
  rw [Step.run_bind_ok (run_peek_token token rest span length)]
  dsimp only
  rw [if_neg hkind]
  rfl

/-- At the end of the source nothing is accepted. -/
theorem run_accept_nil (p : Punct) (span : Span) (length : Nat) :
    (accept p).run ⟨[], span, length⟩ = (.ok false, ⟨[], span, length⟩) := rfl

/-- A mark that is accepted is moved over. -/
theorem run_accept_true {p : Punct} (h : (accept p).run c = (.ok true, c')) :
    ∃ token : Token, token.kind = .punct p ∧ c.Moves [token] c' := by
  obtain ⟨_ | ⟨token | ⟨digits, place⟩, rest⟩, span, length⟩ := c
  · cases h
  · by_cases hkind : token.kind = .punct p
    · rw [run_accept_token hkind] at h
      cases h
      exact ⟨token, hkind, rfl, rfl⟩
    · rw [run_accept_other hkind] at h
      cases h
  · cases h

/-- Where no mark is accepted, the cursor stays. -/
theorem run_accept_false {p : Punct} (h : (accept p).run c = (.ok false, c')) : c' = c := by
  obtain ⟨_ | ⟨token | ⟨digits, place⟩, rest⟩, span, length⟩ := c
  · cases h
    rfl
  · by_cases hkind : token.kind = .punct p
    · rw [run_accept_token hkind] at h
      cases h
    · rw [run_accept_other hkind] at h
      cases h
      rfl
  · cases h

/-! ## Taking all tokens -/

/-- As many tokens as are left are taken, if none of the lexemes is too long. -/
theorem run_takeUpTo_tokens (ts : List Token) (n : Nat) (hn : ts.length ≤ n) (span : Span)
    (length : Nat) : ((takeUpTo n).run ⟨ts.map .token, span, length⟩).1 = .ok ts := by
  induction ts generalizing n span with
  | nil =>
    cases n with
    | zero => rfl
    | succ n => rfl
  | cons t ts ih =>
    cases n with
    | zero => cases hn
    | succ n =>
      have hmore := ih n (Nat.le_of_succ_le_succ hn) t.span
      rcases hrun : (takeUpTo n).run ⟨ts.map .token, t.span, length⟩ with ⟨stop | found, last⟩ <;>
        rw [hrun] at hmore <;> cases hmore
      unfold takeUpTo
      rw [List.map_cons, Step.run_bind_ok (run_peek_token _ _ _ _)]
      dsimp only
      rw [Step.run_bind_ok (run_next_token _ _ _ _), Step.run_bind_ok hrun]
      rfl

/-- Tokens that were taken up to the end are all that was left. -/
theorem rest_eq_of_run_takeUpTo {n : Nat} {ts : List Token} (hn : c.rest.length ≤ n)
    (h : (takeUpTo n).run c = (.ok ts, c')) : c.rest = ts.map .token := by
  induction n generalizing c ts with
  | zero =>
    cases h
    exact List.eq_nil_of_length_eq_zero (Nat.le_zero.mp hn)
  | succ n ih =>
    obtain ⟨found, mid, hpeek, hmore⟩ := Step.run_bind_eq_ok_iff.mp h
    cases run_peek_ok hpeek
    cases found with
    | none =>
      cases hmore
      exact run_peek_none hpeek
    | some token =>
      obtain ⟨taken, mid', hnext, hmore⟩ := Step.run_bind_eq_ok_iff.mp hmore
      obtain ⟨others, mid'', hothers, hlast⟩ := Step.run_bind_eq_ok_iff.mp hmore
      cases hlast
      have hrest : c.rest = .token taken :: mid'.rest := (run_next_ok hnext).1
      have hlength : mid'.rest.length ≤ n := by
        rw [hrest, List.length_cons] at hn
        omega
      rw [hrest, ih hlength hothers, List.map_cons]

end Reading

/-- A source has a list of tokens exactly when all of its lexemes are tokens. -/
theorem tokens_eq_ok_iff {source : String} {ts : List Token} :
    tokens source = .ok ts ↔ lexemes source = ts.map .token := by
  constructor
  · intro h
    rcases hrun : Reading.takeAll.run (Cursor.ofSource source) with ⟨stop | found, last⟩
    · rw [tokens, hrun] at h
      cases h
    · rw [tokens, hrun] at h
      cases h
      exact Reading.rest_eq_of_run_takeUpTo (Nat.le_refl _) hrun
  · intro h
    have hrest : (Cursor.ofSource source).rest = ts.map .token := h
    have hrun := Reading.run_takeUpTo_tokens ts (ts.map Lexed.token).length (by simp) .origin
      source.length
    rw [← h] at hrun
    exact hrun

/-- The tokens of a source can be cut from a source. -/
theorem inSource_of_tokens {source : String} {ts : List Token} (h : tokens source = .ok ts) :
    ∀ t ∈ ts, t.lexeme.inSource = true := by
  intro t ht
  have hmem : Lexed.token t ∈ lexemes source := tokens_eq_ok_iff.mp h ▸ List.mem_map_of_mem ht
  exact inSource_of_mem_lexemesFrom hmem

end QLanguage
