import QLanguage.Proofs.Evaluation.Record

/-!
# The order of declarations

A pending declaration is evaluated where its name is first needed, with the scopes of the calls that
are active there. When its evaluation finds a name in one of these scopes, the declaration is
captured, and may get another value than it has at the top level, over what was bound before it.

Where nothing is captured, declarations may stand in any order. More precisely, two orders in which
a module can be loaded give all names the same values exactly when they give them to the captured
ones whose values are not those at the top level. The last section has two orders that do not.
-/

namespace QLanguage

open Step Eval

/-- The value of a declaration in a root is that of its expression at the top level, over the
entries before it. -/
def HasTopLevelValue (depth : Nat) (root : List (String × Expr)) (d : Declaration) : Prop :=
  ∀ before value after, root = before ++ (d.name, value) :: after →
    ((eval depth d.value).run (Machine.over before [])).1 = .ok value

/-- When the module is loaded, the declaration is asked for inside of calls, and its evaluation
finds a name in the scopes of these. -/
def Captured (depth : Nat) (program : Module) (d : Declaration) : Prop :=
  ∃ inner, CapturedIn (Visited depth program.items) d.name d.value inner

/-- Both machines bind the name in the root, to the same value. -/
def SameValue (m n : Machine) (name : String) : Prop :=
  ∃ value, m.env.root.get? name = some value ∧ n.env.root.get? name = some value

/-! ## Values at the top level -/

/-- A value at the top level is the same over more bindings. -/
theorem eval_over_of_within {depth : Nat} {e value : Expr} {root : List (String × Expr)}
    {table : Scope} (h : ((eval depth e).run (Machine.over root [])).1 = .ok value)
    (hwithin : (⟨root⟩ : Scope).Within table) :
    ((eval depth e).run (Machine.over table.entries [])).1 = .ok value := by
  -- Nothing is pending, so the root at the end is the one at the beginning.
  have hunchanged := (grows_eval depth e (Machine.over root [])).unchanged rfl
  rcases hrun : (eval depth e).run (Machine.over root []) with ⟨result, last⟩
  rw [hrun] at h hunchanged
  obtain rfl : result = .ok value := h
  have hroot : last.env.root.Within (Machine.over table.entries []).env.root := by
    rw [hunchanged.1]
    exact hwithin
  obtain ⟨text, hagain⟩ := eval_again depth hrun hroot (List.nil_append []).symm
    (List.nil_append []).symm (.refl [] _)
  rw [hagain]

section Loaded

variable {depth : Nat} {program : Module} {m : Machine} {d : Declaration}

/-- A module that is loaded binds every declared name. -/
theorem exists_value_load (h : Machine.load depth program = (.ok (), m)) (hd : d ∈ program.items) :
    ∃ value, m.env.root.get? d.name = some value := by
  have hstart := pending_start_ne_none_iff.2 ⟨d, hd, rfl⟩
  -- The name was pending before and is not any more, so it is among the entries.
  have hpending := (growsBy_load h).pending d.name
  rw [pending_load h] at hpending
  rcases hvalue : m.env.root.get? d.name with _ | value
  · have hnames : d.name ∉ m.env.root.names := Table.get?_eq_none_iff.1 hvalue
    rw [Table.names] at hnames
    rw [if_neg hnames] at hpending
    exact absurd hpending.symm hstart
  · exact ⟨value, rfl⟩

/-- A declaration has the value of its expression over the entries before it, with the scopes open
that it is captured in if it is. -/
theorem exists_scopes_load (h : Machine.load depth program = (.ok (), m))
    (hnodup : (program.items.map Declaration.name).Nodup) (hd : d ∈ program.items)
    {before after : List (String × Expr)} {value : Expr}
    (hentries : m.env.root.entries = before ++ (d.name, value) :: after) :
    ∃ inner, ((eval depth d.value).run (Machine.over before inner)).1 = .ok value ∧
      (inner = [] ∨ CapturedIn (Visited depth program.items) d.name d.value inner) := by
  obtain ⟨added, hgrows, haccount⟩ := recorded_load h
  have hadded : m.env.root.entries = added := hgrows.root
  rw [← hadded, hentries] at haccount
  obtain ⟨expr, hpending, hbound⟩ := haccount.entry
  -- Names differ, so what was pending under this name is this declaration.
  rw [pending_start_of_nodup hnodup hd] at hpending
  obtain rfl : d.value = expr := Option.some.inj hpending
  exact hbound

/-- A declaration that is not captured has its value at the top level. -/
theorem hasTopLevelValue_or_captured (h : Machine.load depth program = (.ok (), m))
    (hnodup : (program.items.map Declaration.name).Nodup) (hd : d ∈ program.items) :
    HasTopLevelValue depth m.env.root.entries d ∨ Captured depth program d := by
  refine or_iff_not_imp_right.2 fun hcaptured before value after hentries => ?_
  obtain ⟨inner, heval, rfl | hinner⟩ := exists_scopes_load h hnodup hd hentries
  · exact heval
  · exact absurd ⟨inner, hinner⟩ hcaptured

end Loaded

/-! ## Two orders -/

/-- A declaration that has its value at the top level in both orders has the same value in both, as
soon as the entries before it have. -/
theorem get?_eq_of_hasTopLevelValue {depth : Nat} {p q : Module} {m n : Machine}
    (hperm : p.items.Perm q.items) (hq : Machine.load depth q = (.ok (), n)) {d : Declaration}
    (hd : d ∈ p.items) (htop : HasTopLevelValue depth m.env.root.entries d)
    (htop' : HasTopLevelValue depth n.env.root.entries d)
    {before after : List (String × Expr)} {value : Expr}
    (hentries : m.env.root.entries = before ++ (d.name, value) :: after)
    (hbefore : (⟨before⟩ : Scope).Within n.env.root) : n.env.root.get? d.name = some value := by
  obtain ⟨other, hother⟩ := exists_value_load hq (hperm.mem_iff.1 hd)
  obtain ⟨first, rest, hsplit, -⟩ := Table.exists_entry_of_get?_eq_some hother
  -- Both values are the value at the top level over the root of the second order.
  have hwithin : (⟨first⟩ : Scope).Within n.env.root := by
    have happend := Table.within_append first ((d.name, other) :: rest)
    rw [← hsplit] at happend
    exact happend
  have hvalue := eval_over_of_within (htop before value after hentries) hbefore
  rw [eval_over_of_within (htop' first other rest hsplit) hwithin] at hvalue
  obtain rfl : other = value := Except.ok.inj hvalue
  exact hother

/-- Every declaration has the value of its expression over the entries before it, at the top level
or in the scopes that it is captured in. So it has its value at the top level unless it is captured,
and two orders in which a module can be loaded give all declared names the same values exactly when
they give them to the declarations that are captured in one of the orders and have another value
there than at the top level. -/
theorem same_values_iff_of_captured {depth : Nat} {p q : Module} {m n : Machine}
    (hnodup : (p.items.map Declaration.name).Nodup) (hperm : p.items.Perm q.items)
    (hp : Machine.load depth p = (.ok (), m)) (hq : Machine.load depth q = (.ok (), n)) :
    (∀ d ∈ p.items, ∀ before value after,
      m.env.root.entries = before ++ (d.name, value) :: after →
      ∃ inner, ((eval depth d.value).run (Machine.over before inner)).1 = .ok value ∧
        (inner = [] ∨ CapturedIn (Visited depth p.items) d.name d.value inner)) ∧
    (∀ d ∈ p.items, HasTopLevelValue depth m.env.root.entries d ∨ Captured depth p d) ∧
    ((∀ d ∈ p.items, SameValue m n d.name) ↔
      ∀ d ∈ p.items,
        Captured depth p d ∧ ¬HasTopLevelValue depth m.env.root.entries d ∨
          Captured depth q d ∧ ¬HasTopLevelValue depth n.env.root.entries d →
        SameValue m n d.name) := by
  have hnodup' : (q.items.map Declaration.name).Nodup := (hperm.map _).nodup_iff.1 hnodup
  have htop : ∀ d ∈ p.items, HasTopLevelValue depth m.env.root.entries d ∨ Captured depth p d :=
    fun d hd => hasTopLevelValue_or_captured hp hnodup hd
  have htop' : ∀ d ∈ p.items, HasTopLevelValue depth n.env.root.entries d ∨ Captured depth q d :=
    fun d hd => hasTopLevelValue_or_captured hq hnodup' (hperm.mem_iff.1 hd)
  refine ⟨fun d hd before value after => exists_scopes_load hp hnodup hd, htop,
    fun h d hd _ => h d hd, fun h => ?_⟩
  -- Along the first root each entry is in the second, as the entries before it are.
  have hwithin : m.env.root.Within n.env.root := by
    refine Table.within_of_entries fun before name value after hentries hfirst hbefore => ?_
    have hname : name ∈ m.env.root.entries.map Prod.fst := by
      rw [hentries]
      simp
    obtain ⟨d, hd, rfl⟩ := pending_start_ne_none_iff.1 ((growsBy_load hp).fresh name hname).1
    by_cases hboth : HasTopLevelValue depth m.env.root.entries d ∧
        HasTopLevelValue depth n.env.root.entries d
    · exact get?_eq_of_hasTopLevelValue hperm hq hd hboth.1 hboth.2 hentries hbefore
    · have hother := (not_and_or.1 hboth).imp
        (fun hnot => And.intro ((htop d hd).resolve_left hnot) hnot)
        (fun hnot => And.intro ((htop' d hd).resolve_left hnot) hnot)
      obtain ⟨other, hm, hn⟩ := h d hd hother
      have hvalue : m.env.root.get? d.name = some value := List.lookup_eq_some_iff.2
        ⟨before, after, hentries, List.lookup_eq_none_iff.1 hfirst⟩
      rw [hn, ← hm, hvalue]
  intro d hd
  obtain ⟨value, hvalue⟩ := exists_value_load hp hd
  exact ⟨value, hvalue, hwithin d.name value hvalue⟩

/-! ## An order that matters -/

/-- Stands for whatever `x` is. -/
def aliasDeclaration : Declaration := ⟨"y", .variable "x"⟩

/-- Comes to `y` inside a call whose parameter is `x`. -/
def callDeclaration : Declaration := ⟨"a", .call "f" [.string "inner"]⟩

/-- What the two of them refer to. -/
def commonDeclarations : List Declaration :=
  [⟨"x", .string "outer"⟩, ⟨"f", .function (.mk [.bind "x"] (.variable "y")) []⟩]

/-- The order in which `y` is needed before its turn. -/
def callFirst : Module := ⟨"order", commonDeclarations ++ [callDeclaration, aliasDeclaration]⟩

/-- The order in which `y` is evaluated in its turn. -/
def aliasFirst : Module := ⟨"order", commonDeclarations ++ [aliasDeclaration, callDeclaration]⟩

/-- With the call first, `y` is captured and both `y` and `a` get the argument of the call. -/
theorem capture_changes_value :
    callFirst.items.Perm aliasFirst.items ∧
    Machine.load 4 callFirst = (.ok (), (Machine.load 4 callFirst).2) ∧
    Machine.load 4 aliasFirst = (.ok (), (Machine.load 4 aliasFirst).2) ∧
    (Machine.load 4 callFirst).2.env.root.get? "y" = some (.string "inner") ∧
    (Machine.load 4 aliasFirst).2.env.root.get? "y" = some (.string "outer") :=
  ⟨(List.Perm.swap aliasDeclaration callDeclaration []).append_left commonDeclarations,
    rfl, rfl, rfl, rfl⟩

/-- So the two orders differ in a declaration that is captured in one of them. -/
theorem exists_captured_of_callFirst :
    (callFirst.items.map Declaration.name).Nodup ∧
    ∃ d ∈ callFirst.items, (Captured 4 callFirst d ∨ Captured 4 aliasFirst d) ∧
      ¬SameValue (Machine.load 4 callFirst).2 (Machine.load 4 aliasFirst).2 d.name := by
  have hnodup : (callFirst.items.map Declaration.name).Nodup := by decide
  refine ⟨hnodup, ?_⟩
  have hperm : callFirst.items.Perm aliasFirst.items :=
    (List.Perm.swap aliasDeclaration callDeclaration []).append_left commonDeclarations
  have hp : Machine.load 4 callFirst = (.ok (), (Machine.load 4 callFirst).2) := rfl
  have hq : Machine.load 4 aliasFirst = (.ok (), (Machine.load 4 aliasFirst).2) := rfl
  have hiff := (same_values_iff_of_captured hnodup hperm hp hq).2.2
  -- Otherwise the orders would agree on the alias, too.
  refine Classical.byContradiction fun hnone => ?_
  have hall := hiff.2 fun d hd hcaptured => Classical.byContradiction fun hsame =>
    hnone ⟨d, hd, hcaptured.imp And.left And.left, hsame⟩
  have hmem : aliasDeclaration ∈ callFirst.items := List.mem_append_right _ (by simp)
  obtain ⟨value, hinner, houter⟩ := hall aliasDeclaration hmem
  obtain rfl : Expr.string "inner" = value := Option.some.inj hinner
  have heq : Expr.string "outer" = Expr.string "inner" := Option.some.inj houter
  exact absurd heq (by simp)

end QLanguage
