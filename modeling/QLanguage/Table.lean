/-!
# Tables

A table maps names to values and remembers the order in which names first came in. Setting a name
that is there keeps its place.
-/

namespace QLanguage

/-- A map from names to values in the order of arrival. -/
structure Table (α : Type) where
  /-- The entries, in order of arrival. -/
  entries : List (String × α)
deriving Repr, DecidableEq

namespace Table

variable {α : Type}

/-- The table without entries. -/
def empty : Table α := ⟨[]⟩

/-- The value of a name. -/
def get? (table : Table α) (name : String) : Option α := table.entries.lookup name

/-- Whether a name has a value. -/
def contains (table : Table α) (name : String) : Bool := (table.get? name).isSome

/-- The names, in order of arrival. -/
def names (table : Table α) : List String := table.entries.map Prod.fst

/-- The entries after a name is set: its entry changes in place, or is added at the end. -/
def setEntries (name : String) (value : α) : List (String × α) → List (String × α)
  | [] => [(name, value)]
  | entry :: more =>
    if entry.1 = name then (name, value) :: more else entry :: setEntries name value more

/-- Sets the value of a name. -/
def set (table : Table α) (name : String) (value : α) : Table α :=
  ⟨setEntries name value table.entries⟩

/-- Takes a name out. -/
def erase (table : Table α) (name : String) : Table α :=
  ⟨table.entries.filter fun entry => entry.1 ≠ name⟩

/-- Sets names one after another, so that the last value of a name counts. -/
def setAll (table : Table α) (entries : List (String × α)) : Table α :=
  entries.foldl (fun table entry => table.set entry.1 entry.2) table

/-- The entry that came in last. -/
def last? (table : Table α) : Option (String × α) := table.entries.getLast?

/-- Looking up among changed entries finds the new value, and other names as before. -/
theorem lookup_setEntries (name other : String) (value : α) (entries : List (String × α)) :
    (setEntries name value entries).lookup other =
      if other = name then some value else entries.lookup other := by
  induction entries with
  | nil =>
    by_cases h : other = name
    · simp [setEntries, h]
    · have hb : (other == name) = false := by simp [h]
      simp [setEntries, List.lookup_cons, h, hb]
  | cons entry more ih =>
    obtain ⟨key, old⟩ := entry
    by_cases hkey : key = name
    · subst hkey
      by_cases h : other = key
      · simp [setEntries, h]
      · have hb : (other == key) = false := by simp [h]
        simp [setEntries, h, hb, List.lookup_cons]
    · by_cases h : other = key
      · subst h
        simp [setEntries, hkey]
      · have hb : (other == key) = false := by simp [h]
        simp [setEntries, hkey, hb, List.lookup_cons, ih]

/-- Setting a name gives it the value and leaves the other names as they were. -/
theorem get?_set (table : Table α) (name other : String) (value : α) :
    (table.set name value).get? other = if other = name then some value else table.get? other :=
  lookup_setEntries name other value table.entries

/-- A name that is taken out has no value, and the other names keep theirs. -/
theorem get?_erase (table : Table α) (name other : String) :
    (table.erase name).get? other = if other = name then none else table.get? other := by
  obtain ⟨entries⟩ := table
  induction entries with
  | nil => simp [get?, erase]
  | cons entry more ih =>
    obtain ⟨key, old⟩ := entry
    simp only [get?, erase] at ih ⊢
    by_cases hkey : key = name
    · subst hkey
      by_cases h : other = key
      · simpa [h] using ih
      · have hb : (other == key) = false := by simp [h]
        simpa [h, hb, List.lookup_cons] using ih
    · by_cases h : other = key
      · subst h
        simp [hkey]
      · have hb : (other == key) = false := by simp [h]
        simpa [hkey, hb, List.lookup_cons] using ih

/-- Setting a name that is there keeps all names in their places; a new name goes to the end. -/
theorem names_set (table : Table α) (name : String) (value : α) :
    (table.set name value).names =
      if name ∈ table.names then table.names else table.names ++ [name] := by
  obtain ⟨entries⟩ := table
  induction entries with
  | nil => simp [names, set, setEntries]
  | cons entry more ih =>
    simp only [names, set] at ih ⊢
    by_cases hkey : entry.1 = name
    · simp [setEntries, hkey]
    · have hne : ¬name = entry.1 := fun h => hkey h.symm
      by_cases hmem : name ∈ more.map Prod.fst
      · simp [setEntries, hkey, ih, hmem]
      · simp [setEntries, hkey, hne, ih, hmem]

end Table

end QLanguage
