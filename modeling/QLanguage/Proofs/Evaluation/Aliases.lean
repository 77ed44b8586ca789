import Mathlib.Data.List.Nodup
import QLanguage.Proofs.Evaluation.Once

/-!
# Chains of aliases

In a module of strings, functions and variables, a declared variable is an alias, and aliases form
chains. A chain ends at a string or a function, or it reaches a name that is not declared, or it
comes back to a name that it has visited. Loading follows the chain of each declaration in its turn.
What is bound in the root meanwhile are ends of chains (`Machine.Aliasing`), and what is being
evaluated are the names that the chain has visited. So the evaluation of an expression tells where
the chain from there leads (`Led`), by induction on the levels.
-/

namespace QLanguage

open Step Eval

/-! ## Chains -/

/-- From an expression, the declarations of some names lead one after another to an expression. -/
inductive AliasChain (items : List Declaration) : Expr → List String → Expr → Prop where
  /-- Nothing has been followed. -/
  | here (e : Expr) : AliasChain items e [] e
  /-- A variable is followed to what its name is declared as. -/
  | next {name : String} {expr last : Expr} {visited : List String}
      (declared : ⟨name, expr⟩ ∈ items) (more : AliasChain items expr visited last) :
      AliasChain items (.variable name) (name :: visited) last

/-- The chain of a name ends at a string or a function. -/
def AliasEnds (items : List Declaration) (name : String) (value : Expr) : Prop :=
  ∃ visited, AliasChain items (.variable name) visited value ∧ value.isValue = true

/-- The chain of a name reaches a name that is not declared. -/
def AliasDangles (items : List Declaration) (name missing : String) : Prop :=
  ∃ visited, AliasChain items (.variable name) visited (.variable missing) ∧
    missing ∉ items.map Declaration.name

/-- The chain of a name comes back to a name that it has visited, and to none before. -/
def AliasCycles (items : List Declaration) (name repeated : String) : Prop :=
  ∃ visited, AliasChain items (.variable name) visited (.variable repeated) ∧ visited.Nodup ∧
    repeated ∈ visited

namespace AliasChain

variable {items : List Declaration} {e last value : Expr} {visited through : List String}

/-- A chain visits declared names. -/
theorem declared (h : AliasChain items e visited last) :
    ∀ name ∈ visited, name ∈ items.map Declaration.name := by
  induction h with
  | here e => exact fun _ hname => absurd hname List.not_mem_nil
  | next declared more ih => exact List.forall_mem_cons.2 ⟨List.mem_map_of_mem declared, ih⟩

/-- A chain that visits no name twice visits no more than there are declarations. -/
theorem length_le (h : AliasChain items e visited last) (hvisited : visited.Nodup) :
    visited.length ≤ items.length := by
  have hle := (List.subperm_of_subset hvisited h.declared).length_le
  rwa [List.length_map] at hle

/-- From a value, a chain goes nowhere. -/
theorem eq_of_isValue (h : AliasChain items e visited last) (he : e.isValue = true) :
    visited = [] ∧ last = e := by
  cases h with
  | here e => exact ⟨rfl, rfl⟩
  | next declared more => cases he

/-- A chain that visits a name is one to that name and one from there. -/
theorem exists_split (h : AliasChain items e visited last) {name : String}
    (hname : name ∈ visited) :
    ∃ before after, AliasChain items e before (.variable name) ∧
      AliasChain items (.variable name) (name :: after) last ∧
        visited = before ++ name :: after := by
  induction h with
  | here e => cases hname
  | @next other expr last visited declared more ih =>
    by_cases hsame : name = other
    · subst hsame
      exact ⟨[], visited, .here _, .next declared more, rfl⟩
    · obtain ⟨before, after, hbefore, hafter, rfl⟩ :=
        ih ((List.mem_cons.1 hname).resolve_left hsame)
      exact ⟨other :: before, after, .next declared hbefore, hafter, rfl⟩

variable (hnodup : (items.map Declaration.name).Nodup)
  (hend : AliasChain items e through value) (hvalue : value.isValue = true)

include hnodup hend hvalue

/-- Among declarations with different names, a chain that ends goes on to its end from everywhere on
the way. -/
theorem ends_from (h : AliasChain items e visited last) :
    ∃ more, through = visited ++ more ∧ AliasChain items last more value := by
  induction h generalizing through with
  | here e => exact ⟨through, rfl, hend⟩
  | next declared more ih =>
    cases hend with
    | here _ => cases hvalue
    | next declared' hend =>
      -- The name has one declaration, so both chains go the same way.
      cases List.inj_on_of_nodup_map hnodup declared declared' rfl
      obtain ⟨rest, rfl, hrest⟩ := ih hend
      exact ⟨rest, rfl, hrest⟩

/-- A chain has one end. -/
theorem end_unique {value' : Expr} (h : AliasChain items e visited value')
    (hvalue' : value'.isValue = true) : value = value' := by
  obtain ⟨more, -, hmore⟩ := hend.ends_from hnodup hvalue h
  exact (hmore.eq_of_isValue hvalue').2

/-- A chain that ends does not reach a name that is not declared. -/
theorem not_dangles {missing : String} (h : AliasChain items e visited (.variable missing)) :
    missing ∈ items.map Declaration.name := by
  obtain ⟨more, -, hmore⟩ := hend.ends_from hnodup hvalue h
  cases hmore with
  | here _ => cases hvalue
  | next declared _ => exact List.mem_map_of_mem declared

/-- A chain that ends does not come back to a name that it has visited. -/
theorem not_cycles {repeated : String} (h : AliasChain items e visited (.variable repeated)) :
    repeated ∉ visited := by
  intro hrepeated
  obtain ⟨before, after, hbefore, hloop, -⟩ := h.exists_split hrepeated
  -- The end would be as far from the name before the loop as behind it.
  obtain ⟨rest, -, hrest⟩ := hend.ends_from hnodup hvalue hbefore
  obtain ⟨more, hlonger, hmore⟩ := hrest.ends_from hnodup hvalue hloop
  obtain ⟨none, hsame, hnone⟩ := hrest.ends_from hnodup hvalue hmore
  obtain ⟨rfl, -⟩ := hnone.eq_of_isValue hvalue
  have hlength := congrArg List.length (hlonger.symm.trans hsame)
  rw [List.append_nil, List.length_append, List.length_cons] at hlength
  omega

end AliasChain

/-! ## Following chains -/

/-- A string, a function or a variable. -/
def Expr.Plain (e : Expr) : Prop := e.isValue = true ∨ ∃ name, e = .variable name

/-- What holds while chains of aliases are followed. -/
structure Machine.Aliasing (items : List Declaration) (m : Machine) : Prop where
  /-- The declared names are bound or pending. -/
  loading : m.Loading items
  /-- Only the root is open. -/
  inner : m.env.inner = []
  /-- What is pending is so with its declaration. -/
  pending : ∀ name expr, m.pending.get? name = some expr → ⟨name, expr⟩ ∈ items
  /-- What is bound is the end of a chain. -/
  root : ∀ name value, m.env.root.get? name = some value → AliasEnds items name value
  /-- Nothing has been printed. -/
  output : m.output = ""

/-- Where the chain from an expression leads, as the result of an evaluation tells when some names
are being evaluated and some levels are left. -/
def Led (items : List Declaration) (evaluating : List String) (depth : Nat) (e : Expr) :
    Except Halt Expr → Prop
  | .ok value => ∃ visited, AliasChain items e visited value ∧ value.isValue = true
  | .error (.error (.undefined missing)) =>
    ∃ visited, AliasChain items e visited (.variable missing) ∧
      missing ∉ items.map Declaration.name
  | .error (.error (.cyclic repeated)) =>
    ∃ visited, AliasChain items e visited (.variable repeated) ∧
      (visited ++ evaluating).Nodup ∧ repeated ∈ visited ++ evaluating
  | .error .tooDeep =>
    ∃ visited last, AliasChain items e visited last ∧ (visited ++ evaluating).Nodup ∧
      depth ≤ visited.length
  | .error (.error _) => False

section Following

variable {items : List Declaration} {m : Machine} {name : String} {expr : Expr} {depth : Nat}

/-- Where what a name is declared as leads, the name leads. -/
theorem Led.next {evaluating : List String} {result : Except Halt Expr}
    (hdeclared : ⟨name, expr⟩ ∈ items) (h : Led items (name :: evaluating) depth expr result) :
    Led items evaluating (depth + 1) (.variable name) result := by
  -- The name moves from those being evaluated to those that the chain has visited.
  have hmoved : ∀ visited, (visited ++ name :: evaluating).Perm (name :: visited ++ evaluating) :=
    fun _ => List.perm_middle
  match result, h with
  | .ok value, ⟨visited, hchain, hvalue⟩ => exact ⟨_, .next hdeclared hchain, hvalue⟩
  | .error (.error (.undefined missing)), ⟨visited, hchain, hmissing⟩ =>
    exact ⟨_, .next hdeclared hchain, hmissing⟩
  | .error (.error (.cyclic repeated)), ⟨visited, hchain, hnodup, hrepeated⟩ =>
    exact ⟨_, .next hdeclared hchain, (hmoved visited).nodup_iff.1 hnodup,
      (hmoved visited).mem_iff.1 hrepeated⟩
  | .error .tooDeep, ⟨visited, last, hchain, hnodup, hdepth⟩ =>
    exact ⟨_, last, .next hdeclared hchain, (hmoved visited).nodup_iff.1 hnodup,
      Nat.succ_le_succ hdepth⟩

namespace Machine.Aliasing

/-- Before loading, all declarations are pending. -/
theorem start (hnodup : (items.map Declaration.name).Nodup) :
    (Machine.start items).Aliasing items where
  loading := Machine.loading_start items
  inner := rfl
  pending := by
    intro name expr hpending
    obtain ⟨d, hd, rfl⟩ := pending_start_ne_none_iff.1 (by rw [hpending]; simp)
    rw [pending_start_of_nodup hnodup hd] at hpending
    cases hpending
    exact hd
  root := fun _ _ h => by cases h
  output := rfl

variable (hm : m.Aliasing items)

include hm

/-- A pending name is not bound. -/
theorem get?_root (hpending : m.pending.get? name = some expr) : m.env.root.get? name = none := by
  rw [Table.get?_eq_none_iff]
  intro hmem
  exact hm.loading.apart name hmem (Table.mem_names_iff.2 (by rw [hpending]; simp))

/-- A declared name that is not pending is bound. -/
theorem exists_bound (hdeclared : name ∈ items.map Declaration.name)
    (hpending : m.pending.get? name = none) : ∃ value, m.env.root.get? name = some value := by
  rcases (hm.loading.declared name).2 hdeclared with hroot | hmem
  · exact Option.ne_none_iff_exists'.1 (Table.mem_names_iff.1 hroot)
  · exact absurd hpending (Table.mem_names_iff.1 hmem)

/-- The evaluation of a pending declaration may begin. -/
theorem begun (hpending : m.pending.get? name = some expr) (hfresh : name ∉ m.evaluating) :
    (m.begun name).Aliasing items where
  loading := hm.loading.begun (Table.mem_names_iff.2 (by rw [hpending]; simp)) hfresh
  inner := hm.inner
  pending := hm.pending
  root := hm.root
  output := hm.output

/-- When the chain of a name has been followed to its end, the name is bound to that. -/
theorem bound {value : Expr} (hends : AliasEnds items name value)
    (hloading : ((m.ended name).bound name value).Loading items) :
    ((m.ended name).bound name value).Aliasing items where
  loading := hloading
  inner := hm.inner
  pending := by
    intro other expr hother
    have herase : (m.pending.erase name).get? other = some expr := hother
    rw [Table.get?_erase] at herase
    split at herase
    · cases herase
    · exact hm.pending other expr herase
  root := by
    intro other found hother
    have hset : (m.env.root.set name value).get? other = some found := hother
    rw [Table.get?_set] at hset
    split at hset
    · next hname =>
      cases hset
      rw [hname]
      exact hends
    · exact hm.root other found hset
  output := hm.output

end Machine.Aliasing

/-- The evaluation of a pending declaration follows the chain of its name when the evaluation of
what it is declared as does. -/
theorem led_force (hm : m.Aliasing items) (hpending : m.pending.get? name = some expr)
    (hexpr : name ∉ m.evaluating →
      Led items (name :: m.evaluating) depth expr ((eval depth expr).run (m.begun name)).1 ∧
        ∀ value, ((eval depth expr).run (m.begun name)).1 = .ok value →
          ((eval depth expr).run (m.begun name)).2.Aliasing items) :
    Led items m.evaluating (depth + 1) (.variable name)
        ((force (eval depth) name expr).run m).1 ∧
      ∀ value, ((force (eval depth) name expr).run m).1 = .ok value →
        ((force (eval depth) name expr).run m).2.Aliasing items := by
  have hdeclared := hm.pending name expr hpending
  have hgrows := grows_force depth (hm.get?_root hpending) hpending
  by_cases hmem : name ∈ m.evaluating
  · rw [run_force_cyclic hmem]
    refine ⟨⟨[], .here _, hm.loading.nodup, hmem⟩, ?_⟩
    nofun
  · obtain ⟨hled, haliasing⟩ := hexpr hmem
    rw [run_force hmem] at hgrows ⊢
    rcases hrun : (eval depth expr).run (m.begun name) with ⟨halt | value, mid⟩ <;>
      rw [hrun] at hled haliasing hgrows
    · exact ⟨hled.next hdeclared, nofun⟩
    · have hmid := haliasing value rfl
      have hends : AliasEnds items name value := hled.next hdeclared
      exact ⟨hends, fun _ _ => hmid.bound hends (hm.loading.grows hgrows)⟩

/-- The evaluation of a string, a function or a variable follows the chain from there. -/
theorem led_eval (hplain : ∀ d ∈ items, d.value.Plain) (depth : Nat) {m : Machine} {e : Expr}
    (hm : m.Aliasing items) (he : e.Plain) :
    Led items m.evaluating depth e ((eval depth e).run m).1 ∧
      ∀ value, ((eval depth e).run m).1 = .ok value →
        ((eval depth e).run m).2.Aliasing items := by
  induction depth generalizing m e with
  | zero =>
    refine ⟨⟨[], e, .here e, hm.loading.nodup, Nat.le_refl 0⟩, fun value h => ?_⟩
    cases h
  | succ depth ih =>
    rcases he with hvalue | ⟨name, rfl⟩
    · cases e with
      | string text => exact ⟨⟨[], .here _, rfl⟩, fun _ _ => hm⟩
      | function first others => exact ⟨⟨[], .here _, rfl⟩, fun _ _ => hm⟩
      | «variable» name => cases hvalue
      | call name args => cases hvalue
    · rw [eval]
      rcases hlookup : m.env.lookup? name with _ | value
      · rcases hpending : m.pending.get? name with _ | expr
        · rw [run_resolve_undefined hlookup hpending]
          refine ⟨⟨[], .here _, fun hdeclared => ?_⟩, fun value h => ?_⟩
          · obtain ⟨value, hbound⟩ := hm.exists_bound hdeclared hpending
            rw [(Environment.lookup?_eq_none_iff.1 hlookup).2] at hbound
            cases hbound
          · cases h
        · rw [run_resolve_pending hlookup hpending]
          exact led_force hm hpending fun hfresh =>
            ih (hm.begun hpending hfresh) (hplain _ (hm.pending name expr hpending))
      · rw [run_resolve_bound hlookup]
        rw [Environment.lookup?, hm.inner] at hlookup
        obtain ⟨visited, hchain, hvalue⟩ := hm.root name value hlookup
        exact ⟨⟨visited, hchain, hvalue⟩, fun _ _ => hm⟩

/-- In its turn, a declaration has been bound before to the end of its chain, or its chain is
followed now, to its end or up to where that halts. -/
theorem led_turn (hplain : ∀ d ∈ items, d.value.Plain) (hm : m.Aliasing items)
    (hidle : m.evaluating = []) {d : Declaration} (hd : d ∈ items) (ds : List Declaration) :
    (∃ mid, mid.Aliasing items ∧ mid.evaluating = [] ∧ (∃ value, AliasEnds items d.name value) ∧
      (forceAll depth (d :: ds)).run m = (forceAll depth ds).run mid) ∨
    ∃ halt, ((forceAll depth (d :: ds)).run m).1 = .error halt ∧
      Led items [] (depth + 1) (.variable d.name) (.error halt) := by
  rcases hpending : m.pending.get? d.name with _ | expr
  · obtain ⟨value, hbound⟩ := hm.exists_bound (List.mem_map_of_mem hd) hpending
    exact .inl ⟨m, hm, hidle, ⟨value, hm.root _ _ hbound⟩, run_forceAll_done hpending⟩
  · obtain ⟨hled, haliasing⟩ := led_force hm hpending fun hfresh =>
      led_eval hplain depth (hm.begun hpending hfresh) (hplain _ (hm.pending _ _ hpending))
    have hgrows := grows_force depth (hm.get?_root hpending) hpending
    rw [run_forceAll_pending hpending]
    rw [hidle] at hled
    rcases hforce : (force (eval depth) d.name expr).run m with ⟨halt | value, mid⟩ <;>
      rw [hforce] at hled haliasing hgrows
    · rw [run_bind_error hforce]
      exact .inr ⟨halt, rfl, hled⟩
    · obtain ⟨added, hgrows⟩ := hgrows
      rw [run_bind_ok hforce]
      exact .inl ⟨mid, haliasing value rfl, hgrows.evaluating.trans hidle, ⟨value, hled⟩, rfl⟩

/-- Loading follows the chains of the declarations in their order, up to the first that does not
end. -/
theorem led_forceAll (depth : Nat) (hplain : ∀ d ∈ items, d.value.Plain) {ds : List Declaration}
    (hm : m.Aliasing items) (hidle : m.evaluating = []) (hds : ∀ d ∈ ds, d ∈ items) :
    ((∀ d ∈ ds, ∃ value, AliasEnds items d.name value) ∧
      ∃ m', (forceAll depth ds).run m = (.ok (), m') ∧ m'.Aliasing items) ∨
    ∃ before d after halt, ds = before ++ d :: after ∧
      (∀ d' ∈ before, ∃ value, AliasEnds items d'.name value) ∧
      ((forceAll depth ds).run m).1 = .error halt ∧
      Led items [] (depth + 1) (.variable d.name) (.error halt) := by
  induction ds generalizing m with
  | nil => exact .inl ⟨fun d hd => absurd hd List.not_mem_nil, m, rfl, hm⟩
  | cons d ds ih =>
    rw [List.forall_mem_cons] at hds
    rcases led_turn hplain hm hidle hds.1 ds with
      ⟨mid, hmid, hstill, hends, hrun⟩ | ⟨halt, hrun, hled⟩
    · rw [hrun]
      rcases ih hmid hstill hds.2 with
        ⟨hall, hdone⟩ | ⟨before, other, after, halt, rfl, hbefore, hhalt⟩
      · exact .inl ⟨List.forall_mem_cons.2 ⟨hends, hall⟩, hdone⟩
      · exact .inr ⟨d :: before, other, after, halt, rfl,
          List.forall_mem_cons.2 ⟨hends, hbefore⟩, hhalt⟩
    · exact .inr ⟨[], d, ds, halt, rfl, fun _ h => absurd h List.not_mem_nil, hrun, hled⟩

/-- A chain that is followed up to where that halts, with levels enough, does not end. It reaches a
name that is not declared, or comes back to one that it has visited. -/
theorem Led.halted (hnodup : (items.map Declaration.name).Nodup) {halt : Halt}
    (h : Led items [] depth (.variable name) (.error halt)) (hdeep : halt ≠ .tooDeep) :
    (∀ value, ¬AliasEnds items name value) ∧
      ((∃ missing, AliasDangles items name missing ∧ halt = .error (.undefined missing)) ∨
        ∃ repeated, AliasCycles items name repeated ∧ halt = .error (.cyclic repeated)) := by
  match halt, h with
  | .tooDeep, _ => exact absurd rfl hdeep
  | .error (.undefined missing), ⟨visited, hchain, hmissing⟩ =>
    refine ⟨?_, .inl ⟨missing, ⟨visited, hchain, hmissing⟩, rfl⟩⟩
    rintro value ⟨through, hend, hvalue⟩
    exact hmissing (hend.not_dangles hnodup hvalue hchain)
  | .error (.cyclic repeated), ⟨visited, hchain, hvisited, hrepeated⟩ =>
    rw [List.append_nil] at hvisited hrepeated
    refine ⟨?_, .inr ⟨repeated, ⟨visited, hchain, hvisited, hrepeated⟩, rfl⟩⟩
    rintro value ⟨through, hend, hvalue⟩
    exact hend.not_cycles hnodup hvalue hchain hrepeated

/-- When loading has succeeded, the root binds each name to the end of its chain. -/
theorem Machine.Aliasing.get?_root_iff (hm : m.Aliasing items) (hpending : m.pending = .empty)
    (hnodup : (items.map Declaration.name).Nodup) {value : Expr} :
    m.env.root.get? name = some value ↔ AliasEnds items name value := by
  refine ⟨hm.root name value, ?_⟩
  rintro ⟨visited, hchain, hvalue⟩
  have hdeclared : name ∈ items.map Declaration.name := by
    cases hchain with
    | here _ => cases hvalue
    | next declared _ => exact List.mem_map_of_mem declared
  obtain ⟨found, hfound⟩ := hm.exists_bound hdeclared (by rw [hpending]; rfl)
  obtain ⟨visited', hchain', hvalue'⟩ := hm.root name found hfound
  rw [hfound, hchain.end_unique hnodup hvalue hchain' hvalue']

end Following

/-- A module of strings, functions and variables, with different names, is loaded exactly when the
chain of each name ends at a string or a function. The root then binds each name to the end of its
chain, and nothing is printed. Otherwise loading halts for the first declaration whose chain does
not end: for the name that is not declared where the chain reaches one, and else for the first name
that the chain visits twice. As many levels suffice as there are declarations. -/
theorem aliases_resolve (depth : Nat) (program : Module)
    (hnodup : (program.items.map Declaration.name).Nodup)
    (hplain : ∀ d ∈ program.items, d.value.Plain) :
    (program.items.length ≤ depth → (Machine.load depth program).1 ≠ .error .tooDeep) ∧
    ((Machine.load depth program).1 ≠ .error .tooDeep →
      ((Machine.load depth program).1 = .ok () ↔
        ∀ d ∈ program.items, ∃ value, AliasEnds program.items d.name value) ∧
      ((Machine.load depth program).1 = .ok () →
        (∀ name value, (Machine.load depth program).2.env.root.get? name = some value ↔
          AliasEnds program.items name value) ∧
        (Machine.load depth program).2.output = "") ∧
      ((Machine.load depth program).1 ≠ .ok () →
        ∃ before d after, program.items = before ++ d :: after ∧
          (∀ d' ∈ before, ∃ value, AliasEnds program.items d'.name value) ∧
          (∀ value, ¬AliasEnds program.items d.name value) ∧
          ((∃ missing, AliasDangles program.items d.name missing ∧
            (Machine.load depth program).1 = .error (.error (.undefined missing))) ∨
          ∃ repeated, AliasCycles program.items d.name repeated ∧
            (Machine.load depth program).1 = .error (.error (.cyclic repeated))))) := by
  rcases led_forceAll depth hplain (.start hnodup) rfl fun _ hd => hd with
    ⟨hall, m, hload, hm⟩ | ⟨before, d, after, halt, hitems, hbefore, hload, hled⟩
  · have hok : Machine.load depth program = (.ok (), m) := hload
    rw [hok]
    refine ⟨fun _ => nofun, fun _ => ⟨iff_of_true rfl hall, fun _ => ⟨fun name value => ?_,
      hm.output⟩, fun h => absurd rfl h⟩⟩
    exact hm.get?_root_iff (pending_load hok) hnodup
  · have herror : (Machine.load depth program).1 = .error halt := hload
    rw [herror]
    refine ⟨fun hlength hdeep => ?_, fun hdeep => ?_⟩
    · cases hdeep
      obtain ⟨visited, last, hchain, hvisited, hlonger⟩ := hled
      rw [List.append_nil] at hvisited
      have hle := hchain.length_le hvisited
      omega
    · obtain ⟨hbad, hwhy⟩ := hled.halted hnodup fun h => hdeep (by rw [h])
      refine ⟨iff_of_false nofun fun hall => ?_, nofun, fun _ =>
        ⟨before, d, after, hitems, hbefore, hbad, ?_⟩⟩
      · obtain ⟨value, hends⟩ := hall d (by rw [hitems]; exact List.mem_append_cons_self)
        exact hbad value hends
      · rcases hwhy with ⟨missing, hdangles, rfl⟩ | ⟨repeated, hcycles, rfl⟩
        · exact .inl ⟨missing, hdangles, rfl⟩
        · exact .inr ⟨repeated, hcycles, rfl⟩

/-- Two chains of aliases with one end, which is declared last. -/
def sharedModule : Module :=
  ⟨"m", [⟨"a", .variable "b"⟩, ⟨"d", .variable "c"⟩, ⟨"b", .variable "c"⟩, ⟨"c", .string "s"⟩]⟩

/-- All names of the two chains are bound to their end. -/
theorem aliases_resolve_shared :
    (Machine.load 4 sharedModule).1 = .ok () ∧
      (∀ name ∈ ["a", "b", "c", "d"],
        (Machine.load 4 sharedModule).2.env.root.get? name = some (.string "s")) ∧
      (Machine.load 4 sharedModule).2.output = "" := by
  have hc : AliasChain sharedModule.items (.variable "c") ["c"] (.string "s") :=
    .next (by simp [sharedModule]) (.here _)
  have hb : AliasChain sharedModule.items (.variable "b") ["b", "c"] (.string "s") :=
    .next (by simp [sharedModule]) hc
  have hends : ∀ name ∈ ["a", "b", "c", "d"], AliasEnds sharedModule.items name (.string "s") := by
    simp only [List.forall_mem_cons, List.not_mem_nil, false_implies, implies_true, and_true]
    exact ⟨⟨_, .next (by simp [sharedModule]) hb, rfl⟩, ⟨_, hb, rfl⟩, ⟨_, hc, rfl⟩,
      ⟨_, .next (by simp [sharedModule]) hc, rfl⟩⟩
  obtain ⟨hlevels, hloads⟩ := aliases_resolve 4 sharedModule (by decide)
    (by simp [sharedModule, Expr.Plain, Expr.isValue])
  obtain ⟨hiff, hloaded, -⟩ := hloads (hlevels (by decide))
  have hok : (Machine.load 4 sharedModule).1 = .ok () := by
    refine hiff.2 fun d hd => ⟨_, hends d.name ?_⟩
    have hnames : sharedModule.items.map Declaration.name ⊆ ["a", "b", "c", "d"] := by decide
    exact hnames (List.mem_map_of_mem hd)
  obtain ⟨hroot, houtput⟩ := hloaded hok
  exact ⟨hok, fun name hname => (hroot name _).2 (hends name hname), houtput⟩

/-- Where a chain enters a cycle from outside, the name at which it enters is the one that it visits
twice. -/
example : (Machine.load 4 ⟨"m", [⟨"a", .string "s"⟩, ⟨"x", .variable "y"⟩, ⟨"y", .variable "z"⟩,
    ⟨"z", .variable "y"⟩]⟩).1 = .error (.error (.cyclic "y")) := by decide

end QLanguage
