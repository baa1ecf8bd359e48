/-
# Tables of named things

A table from names to values.  Its view is `get?`; a name that is bound again keeps its place.
-/

namespace ScriptVM

/-- A table from names to values, in the order of first binding. -/
structure Bindings (α : Type) where
  /-- The entries. -/
  entries : List (String × α)
deriving Repr, Inhabited

namespace Bindings

variable {α : Type}

/-- The table without entries. -/
def empty : Bindings α :=
  ⟨[]⟩

/-- The entries once `name` is bound to `value`. -/
def insertEntry (name : String) (value : α) : List (String × α) → List (String × α)
  | [] => [(name, value)]
  | (key, old) :: rest =>
    if key = name then (name, value) :: rest else (key, old) :: insertEntry name value rest

/-- What the entries bind `name` to. -/
def findEntry (name : String) : List (String × α) → Option α
  | [] => none
  | (key, value) :: rest => if key = name then some value else findEntry name rest

/-- Binds `name` to `value`. -/
def insert (table : Bindings α) (name : String) (value : α) : Bindings α :=
  ⟨insertEntry name value table.entries⟩

/-- What `name` is bound to. -/
def get? (table : Bindings α) (name : String) : Option α :=
  findEntry name table.entries

/-- Whether `name` is bound. -/
def contains (table : Bindings α) (name : String) : Bool :=
  (table.get? name).isSome

/-- The table with the entries of `other` added; those win. -/
def merge (table other : Bindings α) : Bindings α :=
  other.entries.foldr (fun e t => t.insert e.1 e.2) table

/-- The table of a list of entries; of two with one name the first wins. -/
def ofList (entries : List (String × α)) : Bindings α :=
  merge empty ⟨entries⟩

@[simp] theorem get?_empty (name : String) : (empty : Bindings α).get? name = none := rfl

/-- What a table finds behind an insertion is the new value for the name, and what it had for any
other. -/
theorem findEntry_insertEntry (name key : String) (value : α) (entries : List (String × α)) :
    findEntry key (insertEntry name value entries) =
      if key = name then some value else findEntry key entries := by
  induction entries with
  | nil => simp [insertEntry, findEntry, eq_comm]
  | cons e rest ih =>
    obtain ⟨k, v⟩ := e
    by_cases hk : k = name
    · subst hk
      by_cases h : key = k
      · simp [insertEntry, findEntry, h]
      · simp [insertEntry, findEntry, h, Ne.symm h]
    · by_cases h : k = key
      · subst h
        simp [insertEntry, findEntry, hk]
      · simp [insertEntry, findEntry, hk, h, ih]

/-- A binding is seen under its own name, and changes no other. -/
@[simp] theorem get?_insert (table : Bindings α) (name key : String) (value : α) :
    (table.insert name value).get? key = if key = name then some value else table.get? key :=
  findEntry_insertEntry name key value table.entries

/-- A merged table binds a name as the added table does, or else as before. -/
@[simp] theorem get?_merge (table other : Bindings α) (name : String) :
    (table.merge other).get? name = (other.get? name).or (table.get? name) := by
  obtain ⟨entries⟩ := other
  simp only [merge]
  induction entries with
  | nil => rfl
  | cons e rest ih =>
    obtain ⟨key, value⟩ := e
    by_cases h : key = name
    · subst h
      simp only [List.foldr_cons, get?_insert, if_true]
      simp [get?, findEntry]
    · simp only [List.foldr_cons, get?_insert, Ne.symm h, if_false, ih]
      simp [get?, findEntry, h]

end Bindings

end ScriptVM
