import QLanguage.Proofs.Debug.Printable
import QLanguage.Proofs.Evaluation.Runs

/-!
# Debug forms are unambiguous

What is printed shows the values that were printed: one line for each call, and different lines for
different values (`print_unambiguous`).

The debug form of a tree tells where it ends: if two texts are the same and both start with debug
forms, then these are the forms of one tree and what follows them is the same. In this shape, which
is `ReadsOnce` as for quoted texts, the property carries over from the parts of a tree to the whole.
The entries of a row are read one after another up to the mark that closes the row, which is never
taken for an entry since every entry starts with a capital letter.
-/

namespace QLanguage

/-! ## Rows -/

section Rows

variable {α : Type} {write : α → String} {as : List α}

/-- The characters of an entry behind another one. -/
def furtherEntry (write : α → String) (a : α) : List Char := ',' :: ' ' :: (write a).toList

/-- The characters of a row behind the mark that opens it: the mark that closes it, or the first
entry and what is written behind that. -/
def entriesText (write : α → String) (close : Char) (behind : List α → List Char) :
    List α → List Char
  | [] => [close]
  | a :: as => (write a).toList ++ behind as

/-- What is written behind the first entry of a list. -/
def behindFirst (write : α → String) (close : Char) (as : List α) : List Char :=
  as.flatMap (furtherEntry write) ++ [close]

/-- What is written behind the first entry of a row of fixed length: a comma, also if that is its
only entry. -/
def tupleBehindFirst (write : α → String) : List α → List Char
  | [] => [',', ')']
  | a :: as => behindFirst write ')' (a :: as)

/-- The characters of entries with commas between them. -/
theorem toList_intercalate_map (write : α → String) (a : α) (as : List α) :
    (", ".intercalate ((a :: as).map write)).toList =
      (write a).toList ++ as.flatMap (furtherEntry write) := by
  rw [List.map_cons, toList_intercalate_cons, List.flatMap_map]
  rfl

/-- The characters of a list in debug form. -/
theorem toList_listText (write : α → String) (as : List α) :
    (listText (as.map write)).toList = '[' :: entriesText write ']' (behindFirst write ']') as := by
  cases as with
  | nil => simp [listText, entriesText]
  | cons a as =>
    rw [listText, String.toList_append, String.toList_append, toList_intercalate_map]
    simp [entriesText, behindFirst]

/-- The characters of a row in debug form. -/
theorem toList_tupleText (write : α → String) (as : List α) :
    (tupleText (as.map write)).toList =
      '(' :: entriesText write ')' (tupleBehindFirst write) as := by
  rcases as with _ | ⟨a, _ | ⟨b, bs⟩⟩
  · simp [tupleText, entriesText]
  · simp [tupleText, entriesText, tupleBehindFirst]
  · have htuple : tupleText ((a :: b :: bs).map write) =
        "(" ++ ", ".intercalate ((a :: b :: bs).map write) ++ ")" := rfl
    rw [htuple, String.toList_append, String.toList_append, toList_intercalate_map]
    simp [entriesText, tupleBehindFirst, behindFirst]

/-- What is written for an item starts with a capital letter. -/
def Capitalised (write : α → String) : Prop :=
  ∀ a, ∃ c ∈ (write a).toList.head?, c.isUpper = true

/-- What starts with a capital letter starts with no mark. -/
theorem Capitalised.append_ne (hwrite : Capitalised write) {mark : Char}
    (hmark : mark.isUpper = false) (a : α) (r s : List Char) :
    (write a).toList ++ r ≠ mark :: s := by
  obtain ⟨c, hc, hupper⟩ := hwrite a
  obtain ⟨cs, hcs⟩ := List.head?_eq_some_iff.1 hc
  rw [hcs]
  intro h
  rw [(List.cons.inj h).1, hmark] at hupper
  cases hupper

/-- What is written behind the first entry of a list is read in one way. -/
theorem readsOnce_behindFirst {close : Char} (hclose : close ≠ ',')
    (h : ∀ a ∈ as, ReadsOnce (fun a => (write a).toList) a) :
    ReadsOnce (behindFirst write close) as := by
  refine readsOnce_flatMap (fun a r s heq => hclose (List.cons.inj heq).1.symm) fun a ha => ?_
  intro b r s heq
  exact h a ha (List.cons.inj (List.cons.inj heq).2).2

/-- What is written behind the first entry of a row of fixed length is read in one way. -/
theorem readsOnce_tupleBehindFirst (h : ∀ a ∈ as, ReadsOnce (fun a => (write a).toList) a) :
    ReadsOnce (tupleBehindFirst write) as := by
  -- Behind the comma stands the closing mark or the space before the next entry.
  have hspace : ∀ (a : α) (as : List α) (r s : List Char),
      [',', ')'] ++ r ≠ behindFirst write ')' (a :: as) ++ s := by
    intro a as r s heq
    simp [behindFirst, furtherEntry] at heq
  intro bs r s heq
  rcases as with _ | ⟨a, as⟩ <;> rcases bs with _ | ⟨b, bs⟩
  · exact ⟨rfl, List.append_cancel_left heq⟩
  · exact absurd heq (hspace b bs r s)
  · exact absurd heq.symm (hspace a as s r)
  · exact readsOnce_behindFirst (by decide) h heq

/-- The entries of a row are read in one way when each of them and what is written behind the first
one is. -/
theorem readsOnce_entriesText (hwrite : Capitalised write) {close : Char}
    (hclose : close.isUpper = false) {behind : List α → List Char}
    (hbehind : ∀ as : List α, (∀ a ∈ as, ReadsOnce (fun a => (write a).toList) a) →
      ReadsOnce behind as)
    (h : ∀ a ∈ as, ReadsOnce (fun a => (write a).toList) a) :
    ReadsOnce (entriesText write close behind) as := by
  intro bs r s heq
  rcases as with _ | ⟨a, as⟩ <;> rcases bs with _ | ⟨b, bs⟩
  · exact ⟨rfl, List.append_cancel_left heq⟩
  · rw [entriesText, entriesText, List.append_assoc] at heq
    exact absurd heq.symm (hwrite.append_ne hclose b _ _)
  · rw [entriesText, entriesText, List.append_assoc] at heq
    exact absurd heq (hwrite.append_ne hclose a _ _)
  · obtain ⟨ha, has⟩ := List.forall_mem_cons.1 h
    rw [entriesText, entriesText, List.append_assoc, List.append_assoc] at heq
    obtain ⟨rfl, hothers⟩ := ha heq
    obtain ⟨rfl, hrest⟩ := hbehind as has hothers
    exact ⟨rfl, hrest⟩

/-- A list in debug form is read in one way when its entries are. -/
theorem readsOnce_listText (hwrite : Capitalised write)
    (h : ∀ a ∈ as, ReadsOnce (fun a => (write a).toList) a) :
    ReadsOnce (fun as => (listText (as.map write)).toList) as := by
  intro bs r s heq
  simp only [toList_listText, List.cons_append, List.cons.injEq, true_and] at heq
  exact readsOnce_entriesText hwrite (by decide) (fun _ => readsOnce_behindFirst (by decide)) h heq

/-- A row in debug form is read in one way when its entries are. -/
theorem readsOnce_tupleText (hwrite : Capitalised write)
    (h : ∀ a ∈ as, ReadsOnce (fun a => (write a).toList) a) :
    ReadsOnce (fun as => (tupleText (as.map write)).toList) as := by
  intro bs r s heq
  simp only [toList_tupleText, List.cons_append, List.cons.injEq, true_and] at heq
  exact readsOnce_entriesText hwrite (by decide) (fun _ => readsOnce_tupleBehindFirst) h heq

end Rows

/-! ## Trees -/

/-- A name in debug form is read in one way. -/
theorem readsOnce_nameDebug (name : String) :
    ReadsOnce (fun name => (nameDebug name).toList) name := by
  intro other r s h
  simp only [nameDebug, String.toList_append, List.append_assoc] at h
  obtain ⟨rfl, hrest⟩ := readsOnce_quoted name (List.append_cancel_left h)
  exact ⟨rfl, List.append_cancel_left hrest⟩

/-- The debug forms of expressions are those of each of them. -/
theorem Expr.debugs_eq_map (es : List Expr) : Expr.debugs es = es.map Expr.debug := by
  induction es with
  | nil => rfl
  | cons e es ih => exact congrArg (e.debug :: ·) ih

/-- The debug forms of patterns are those of each of them. -/
theorem Pattern.debugs_eq_map (ps : List Pattern) : Pattern.debugs ps = ps.map Pattern.debug := by
  induction ps with
  | nil => rfl
  | cons p ps ih => exact congrArg (p.debug :: ·) ih

/-- The debug forms of clauses are those of each of them. -/
theorem Clause.debugs_eq_map (cs : List Clause) : Clause.debugs cs = cs.map Clause.debug := by
  induction cs with
  | nil => rfl
  | cons c cs ih => exact congrArg (c.debug :: ·) ih

/-- The parts of an expression in debug form. -/
theorem Expr.toList_debug (e : Expr) :
    e.debug.toList =
      match e with
      | .string text => "LiteralString(value=".toList ++ ((quoted text).toList ++ [')'])
      | .variable name => "Variable(id=".toList ++ ((nameDebug name).toList ++ [')'])
      | .call name args =>
        "Call(id=".toList ++ ((nameDebug name).toList ++ (", args=".toList ++
          ((tupleText (args.map Expr.debug)).toList ++ [')'])))
      | .function first others =>
        "Function(clauses=".toList ++
          ((tupleText ((first :: others).map Clause.debug)).toList ++ [')']) := by
  cases e <;> unfold Expr.debug <;>
    simp [Expr.debugs_eq_map, Clause.debugs_eq_map]

/-- The parts of a pattern in debug form. -/
theorem Pattern.toList_debug (p : Pattern) :
    p.debug.toList =
      match p with
      | .bind name => "Bind(id=".toList ++ ((nameDebug name).toList ++ [')'])
      | .wildcard => "Wildcard()".toList
      | .literal value => "Literal(value=".toList ++ (value.debug.toList ++ [')']) := by
  cases p <;> unfold Pattern.debug <;> simp

/-- The parts of a clause in debug form. -/
theorem Clause.toList_debug (patterns : List Pattern) (body : Expr) :
    (Clause.mk patterns body).debug.toList =
      "FunClause(args=".toList ++ ((tupleText (patterns.map Pattern.debug)).toList ++
        (", body=".toList ++ (body.debug.toList ++ [')']))) := by
  rw [Clause.debug_mk, Pattern.debugs_eq_map]
  simp

/-- Expressions in debug form start with capital letters. -/
theorem Expr.capitalised_debug : Capitalised Expr.debug := by
  intro e
  rw [Expr.toList_debug]
  cases e <;> simp

/-- Patterns in debug form start with capital letters. -/
theorem Pattern.capitalised_debug : Capitalised Pattern.debug := by
  intro p
  rw [Pattern.toList_debug]
  cases p <;> simp

/-- Clauses in debug form start with capital letters. -/
theorem Clause.capitalised_debug : Capitalised Clause.debug := by
  rintro ⟨patterns, body⟩
  rw [Clause.toList_debug]
  simp

mutual

/-- An expression in debug form is read in one way. The first letter tells the kind of node, and the
parts are read one after another. -/
theorem Expr.readsOnce_debug : ∀ e : Expr, ReadsOnce (fun e : Expr => e.debug.toList) e
  | .string text => by
    intro b r s h
    cases b with
    | string other =>
      simp only [Expr.toList_debug, List.append_assoc] at h
      obtain ⟨rfl, hrest⟩ := readsOnce_quoted text (List.append_cancel_left h)
      exact ⟨rfl, List.append_cancel_left hrest⟩
    | _ => simp [Expr.toList_debug] at h
  | .variable name => by
    intro b r s h
    cases b with
    | «variable» other =>
      simp only [Expr.toList_debug, List.append_assoc] at h
      obtain ⟨rfl, hrest⟩ := readsOnce_nameDebug name (List.append_cancel_left h)
      exact ⟨rfl, List.append_cancel_left hrest⟩
    | _ => simp [Expr.toList_debug] at h
  | .call name args => by
    intro b r s h
    cases b with
    | call other others =>
      simp only [Expr.toList_debug, List.append_assoc] at h
      obtain ⟨rfl, hargs⟩ := readsOnce_nameDebug name (List.append_cancel_left h)
      obtain ⟨rfl, hrest⟩ := readsOnce_tupleText Expr.capitalised_debug
        (Expr.readsOnce_debugs args) (List.append_cancel_left hargs)
      exact ⟨rfl, List.append_cancel_left hrest⟩
    | _ => simp [Expr.toList_debug] at h
  | .function first others => by
    intro b r s h
    cases b with
    | function first' others' =>
      simp only [Expr.toList_debug, List.append_assoc] at h
      have hclauses := List.forall_mem_cons.2
        ⟨first.readsOnce_debug, Clause.readsOnce_debugs others⟩
      obtain ⟨hsame, hrest⟩ := readsOnce_tupleText Clause.capitalised_debug hclauses
        (List.append_cancel_left h)
      obtain ⟨rfl, rfl⟩ := List.cons.inj hsame
      exact ⟨rfl, List.append_cancel_left hrest⟩
    | _ => simp [Expr.toList_debug] at h

/-- Expressions in debug form are read in one way. -/
theorem Expr.readsOnce_debugs :
    ∀ es : List Expr, ∀ e ∈ es, ReadsOnce (fun e : Expr => e.debug.toList) e
  | [] => fun _ he => absurd he List.not_mem_nil
  | e :: es => List.forall_mem_cons.2 ⟨e.readsOnce_debug, Expr.readsOnce_debugs es⟩

/-- A pattern in debug form is read in one way. -/
theorem Pattern.readsOnce_debug : ∀ p : Pattern, ReadsOnce (fun p : Pattern => p.debug.toList) p
  | .bind name => by
    intro b r s h
    cases b with
    | bind other =>
      simp only [Pattern.toList_debug, List.append_assoc] at h
      obtain ⟨rfl, hrest⟩ := readsOnce_nameDebug name (List.append_cancel_left h)
      exact ⟨rfl, List.append_cancel_left hrest⟩
    | _ => simp [Pattern.toList_debug] at h
  | .wildcard => by
    intro b r s h
    cases b with
    | wildcard => exact ⟨rfl, List.append_cancel_left h⟩
    | _ => simp [Pattern.toList_debug] at h
  | .literal value => by
    intro b r s h
    cases b with
    | literal other =>
      simp only [Pattern.toList_debug, List.append_assoc] at h
      obtain ⟨rfl, hrest⟩ := value.readsOnce_debug (List.append_cancel_left h)
      exact ⟨rfl, List.append_cancel_left hrest⟩
    | _ => simp [Pattern.toList_debug] at h

/-- Patterns in debug form are read in one way. -/
theorem Pattern.readsOnce_debugs :
    ∀ ps : List Pattern, ∀ p ∈ ps, ReadsOnce (fun p : Pattern => p.debug.toList) p
  | [] => fun _ hp => absurd hp List.not_mem_nil
  | p :: ps => List.forall_mem_cons.2 ⟨p.readsOnce_debug, Pattern.readsOnce_debugs ps⟩

/-- A clause in debug form is read in one way. -/
theorem Clause.readsOnce_debug : ∀ c : Clause, ReadsOnce (fun c : Clause => c.debug.toList) c
  | .mk patterns body => by
    rintro ⟨patterns', body'⟩ r s h
    simp only [Clause.toList_debug, List.append_assoc] at h
    obtain ⟨rfl, hbody⟩ := readsOnce_tupleText Pattern.capitalised_debug
      (Pattern.readsOnce_debugs patterns) (List.append_cancel_left h)
    obtain ⟨rfl, hrest⟩ := body.readsOnce_debug (List.append_cancel_left hbody)
    exact ⟨rfl, List.append_cancel_left hrest⟩

/-- Clauses in debug form are read in one way. -/
theorem Clause.readsOnce_debugs :
    ∀ cs : List Clause, ∀ c ∈ cs, ReadsOnce (fun c : Clause => c.debug.toList) c
  | [] => fun _ hc => absurd hc List.not_mem_nil
  | c :: cs => List.forall_mem_cons.2 ⟨c.readsOnce_debug, Clause.readsOnce_debugs cs⟩

end

/-! ## What is printed -/

open Eval

/-- Values are printed on one line. -/
theorem exists_line_printedLine (values : List Expr) :
    ∃ line : String, printedLine values = line ++ "\n" ∧ '\n' ∉ line.toList := by
  have hprintable := printable_listText (Expr.printable_debugs values)
  exact ⟨_, rfl, fun hfeed => absurd (hprintable _ hfeed) (by decide)⟩

/-- What is printed tells the values. -/
theorem printedLine_injective : Function.Injective printedLine := by
  intro values others h
  have hlists := congrArg String.toList h
  simp only [printedLine, String.toList_append, Expr.debugs_eq_map] at hlists
  exact (readsOnce_listText Expr.capitalised_debug (Expr.readsOnce_debugs values) hlists).1

/-- A call of the built-in function whose arguments have some values prints one line, which ends in
its only line feed, and what it prints for other values is different. -/
theorem print_unambiguous (values : List Expr) :
    (∀ (depth : ℕ) (args : List Expr) (m m' : Machine),
      (all (eval depth) args).run m = (.ok values, m') →
        (eval (depth + 1) (.call printName args)).run m =
          (.ok (.string "ok"), m'.printed (printedLine values))) ∧
      (∃ line : String, printedLine values = line ++ "\n" ∧ '\n' ∉ line.toList) ∧
      ∀ others, printedLine others = printedLine values ↔ others = values := by
  refine ⟨?_, exists_line_printedLine values, fun others => printedLine_injective.eq_iff⟩
  intro depth args m m' hargs
  rw [eval_print, run_print, hargs]

/-- Two strings are not printed like one that looks like both. -/
theorem print_unambiguous_lookalike :
    (all (eval 1) [.string "a", .string "b"]).run .empty =
        (.ok [.string "a", .string "b"], .empty) ∧
      (eval 2 (.call printName [.string "a", .string "b"])).run .empty =
        (.ok (.string "ok"), Machine.empty.printed (printedLine [.string "a", .string "b"])) ∧
      printedLine [.string "a'), LiteralString(value='b"] ≠
        printedLine [.string "a", .string "b"] := by
  have hargs : (all (eval 1) [.string "a", .string "b"]).run .empty =
      (.ok [.string "a", .string "b"], .empty) := rfl
  have hprint := print_unambiguous [.string "a", .string "b"]
  refine ⟨hargs, hprint.1 1 _ .empty .empty hargs, fun h => ?_⟩
  exact absurd ((hprint.2.2 _).1 h) (by simp)

end QLanguage
