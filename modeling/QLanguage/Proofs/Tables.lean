import Mathlib.Data.List.Induction
import QLanguage.Evaluation.Environment

/-!
# Growing tables

A name that is new to a table goes to its end, so a scope that only ever gets new names keeps all
its entries in their places, and what it binds stays bound. `Table.Within` is the order of that
growth, in terms of look-up alone.
-/

namespace QLanguage

namespace Table

variable {α : Type}

/-- A new name goes behind the entries that are there. -/
theorem setEntries_of_lookup_eq_none (name : String) (value : α) {entries : List (String × α)}
    (h : entries.lookup name = none) :
    setEntries name value entries = entries ++ [(name, value)] := by
  induction entries with
  | nil => rfl
  | cons entry more ih =>
    obtain ⟨key, old⟩ := entry
    have hkey : key ≠ name := by
      rintro rfl
      simp at h
    have hb : (name == key) = false := by simp [hkey.symm]
    rw [List.lookup_cons, hb] at h
    rw [setEntries, if_neg hkey, ih h, List.cons_append]

/-- Setting a new name adds an entry at the end. -/
theorem entries_set_of_get?_eq_none {table : Table α} {name : String} (value : α)
    (h : table.get? name = none) :
    (table.set name value).entries = table.entries ++ [(name, value)] :=
  setEntries_of_lookup_eq_none name value h

/-- A name has no value exactly when no entry is for it. -/
theorem get?_eq_none_iff {table : Table α} {name : String} :
    table.get? name = none ↔ name ∉ table.names := by
  simp only [get?, names, List.lookup_eq_none_iff, List.mem_map, not_exists, not_and]
  constructor
  · intro h entry hentry heq
    have hne := h entry hentry
    simp [heq] at hne
  · intro h entry hentry
    simpa using fun heq => h entry hentry heq.symm

/-- A name has a value exactly when an entry is for it. -/
theorem mem_names_iff {table : Table α} {name : String} :
    name ∈ table.names ↔ table.get? name ≠ none := by
  rw [ne_eq, get?_eq_none_iff, Classical.not_not]

/-- A table in which no name has a value has no entries. -/
theorem eq_empty_of_get?_eq_none {table : Table α} (h : ∀ name, table.get? name = none) :
    table = empty := by
  obtain ⟨entries⟩ := table
  cases entries with
  | nil => rfl
  | cons entry more =>
    have hnone := h entry.1
    simp [get?] at hnone

/-- Every name that one table binds has the same value in the other. -/
def Within (table other : Table α) : Prop :=
  ∀ name value, table.get? name = some value → other.get? name = some value

/-- A table is within itself. -/
theorem Within.refl (table : Table α) : table.Within table := fun _ _ h => h

/-- Being within a table goes through a table in between. -/
theorem Within.trans {a b c : Table α} (hab : a.Within b) (hbc : b.Within c) : a.Within c :=
  fun name value h => hbc name value (hab name value h)

/-- Entries at the end of a table hide nothing in it. -/
theorem within_append (entries added : List (String × α)) :
    (⟨entries⟩ : Table α).Within ⟨entries ++ added⟩ := by
  intro name value h
  simp only [get?] at h ⊢
  rw [List.lookup_append, h]
  rfl

/-- The entry that gives a name its value is the first one for it. -/
theorem exists_entry_of_get?_eq_some {table : Table α} {name : String} {value : α}
    (h : table.get? name = some value) :
    ∃ before after, table.entries = before ++ (name, value) :: after ∧
      (⟨before⟩ : Table α).get? name = none := by
  obtain ⟨before, after, hentries, hbefore⟩ := List.lookup_eq_some_iff.1 h
  exact ⟨before, after, hentries, List.lookup_eq_none_iff.2 hbefore⟩

/-- A table is within another when that has each of its entries which is the first one for its name,
as soon as it has the entries before it. -/
theorem within_of_entries {entries : List (String × α)} {table : Table α}
    (h : ∀ before name value after, entries = before ++ (name, value) :: after →
      (⟨before⟩ : Table α).get? name = none → (⟨before⟩ : Table α).Within table →
      table.get? name = some value) :
    (⟨entries⟩ : Table α).Within table := by
  -- The entries are gone through from the front; `before` holds those that are done.
  suffices hrest : ∀ rest before, entries = before ++ rest → (⟨before⟩ : Table α).Within table →
      (⟨entries⟩ : Table α).Within table by
    exact hrest entries [] rfl fun _ _ hnone => by cases hnone
  intro rest
  induction rest with
  | nil =>
    intro before hentries hbefore
    rw [hentries, List.append_nil]
    exact hbefore
  | cons entry more ih =>
    obtain ⟨name, value⟩ := entry
    intro before hentries hbefore
    refine ih (before ++ [(name, value)]) (by rw [hentries, List.append_assoc]; rfl) ?_
    intro other found hfound
    rw [get?, List.lookup_append, Option.or_eq_some_iff] at hfound
    rcases hfound with hfound | ⟨hnone, hfound⟩
    · exact hbefore other found hfound
    · obtain ⟨rfl, rfl⟩ : other = name ∧ value = found := by
        by_cases hname : other = name
        · simpa [hname] using hfound
        · have hb : (other == name) = false := by simp [hname]
          simp [List.lookup_cons, hb] at hfound
      exact h before other value more hentries hnone hbefore

/-- Among names that are set one after another, the last value of a name counts. -/
theorem get?_setAll (table : Table α) (entries : List (String × α)) (name : String) :
    (table.setAll entries).get? name = (entries.reverse.lookup name).or (table.get? name) := by
  induction entries generalizing table with
  | nil => rfl
  | cons entry more ih =>
    obtain ⟨key, value⟩ := entry
    have hcons : table.setAll ((key, value) :: more) = (table.set key value).setAll more := rfl
    rw [hcons, ih, List.reverse_cons, List.lookup_append, Option.or_assoc, get?_set]
    congr 1
    by_cases hname : name = key
    · simp [hname]
    · have hb : (name == key) = false := by simp [hname]
      simp [hname, List.lookup_cons, hb]

/-- A name has one entry however often it is set. -/
theorem nodup_names_set {table : Table α} (h : table.names.Nodup) (name : String) (value : α) :
    (table.set name value).names.Nodup := by
  rw [names_set]
  split
  · exact h
  · next hnew =>
    refine List.nodup_append.2 ⟨h, List.pairwise_singleton _ name, ?_⟩
    intro known hknown other hother heq
    rw [List.mem_singleton.1 hother] at heq
    exact hnew (heq ▸ hknown)

/-- Names are in the order in which they were first set, and each of them once. -/
theorem names_setAll (entries : List (String × α)) :
    (empty.setAll entries).names = (entries.map Prod.fst).eraseDups ∧
      (empty.setAll entries).names.Nodup := by
  -- The entries are set from the front, so the one that is taken off is the last.
  induction entries using List.reverseRecOn with
  | nil => exact ⟨rfl, List.nodup_nil⟩
  | append_singleton front last ih =>
    obtain ⟨name, value⟩ := last
    obtain ⟨hnames, hnodup⟩ := ih
    have hset : empty.setAll (front ++ [(name, value)]) = (empty.setAll front).set name value := by
      rw [setAll, List.foldl_append]
      rfl
    rw [hset]
    refine ⟨?_, nodup_names_set hnodup name value⟩
    rw [names_set, hnames, List.map_append, List.eraseDups_append]
    by_cases hmem : name ∈ front.map Prod.fst
    · rw [if_pos (List.mem_eraseDups.2 hmem)]
      simp [List.removeAll, hmem]
    · rw [if_neg (fun h => hmem (List.mem_eraseDups.1 h))]
      simp [List.removeAll, hmem, List.eraseDups_cons]

/-- The entry that came in last is the one of the last name. -/
theorem last?_eq {table : Table α} (h : table.names.Nodup) {name : String}
    (hlast : table.names.getLast? = some name) :
    table.last? = (table.get? name).map fun value => (name, value) := by
  obtain ⟨entries⟩ := table
  rcases List.eq_nil_or_concat entries with rfl | ⟨front, ⟨key, value⟩, rfl⟩
  · cases hlast
  · simp only [names, List.concat_eq_append, List.map_append, List.map_cons, List.map_nil,
      List.getLast?_concat, Option.some.injEq] at h hlast
    subst hlast
    have hfront : (⟨front⟩ : Table α).get? key = none := by
      rw [get?_eq_none_iff]
      intro hmem
      exact (List.nodup_append.1 h).2.2 key hmem key (List.mem_singleton_self key) rfl
    have hget : front.lookup key = none := hfront
    simp [last?, get?, List.lookup_append, hget]

end Table

namespace Environment

/-- A name is unbound exactly when neither an inner scope nor the root binds it. -/
theorem lookup?_eq_none_iff {env : Environment} {name : String} :
    env.lookup? name = none ↔
      env.inner.findSome? (·.get? name) = none ∧ env.root.get? name = none := by
  rw [lookup?, Option.or_eq_none_iff]

/-- A larger root hides nothing that was bound, around inner scopes where a name is found alike. -/
theorem lookup?_of_within {env other : Environment} {name : String} {value : Expr}
    (hfound : other.inner.findSome? (·.get? name) = env.inner.findSome? (·.get? name))
    (hroot : env.root.Within other.root) (h : env.lookup? name = some value) :
    other.lookup? name = some value := by
  rw [lookup?] at h ⊢
  rw [hfound]
  rw [Option.or_eq_some_iff] at h ⊢
  rcases h with h | ⟨hnone, h⟩
  · exact .inl h
  · exact .inr ⟨hnone, hroot name value h⟩

end Environment

end QLanguage
