/-!
Contract: a table from names to values, kept in the order of its names.

Owns: `Table` with look-up, insertion, removal and listing, and the laws that
say what each operation does to a look-up.

Does not own: what the names stand for. Environments, variables, mappings and
abbreviations are all tables.
-/

set_option autoImplicit false

namespace ExLine

/-- Entries in increasing order of their names, as insertion leaves them. -/
structure Table (α : Type) where
  entries : List (String × α) := []
  deriving DecidableEq, Repr

namespace Table

variable {α : Type}

/-- The table without entries. -/
def empty : Table α := {}

/-- The value of the first entry of that name. -/
def lookup (name : String) : List (String × α) → Option α
  | [] => none
  | (key, value) :: rest => if key = name then some value else lookup name rest

/-- The entries with `name` bound to `value`: in place of an entry of that
name, or before the first greater one. -/
def place (name : String) (value : α) : List (String × α) → List (String × α)
  | [] => [(name, value)]
  | (key, held) :: rest =>
    if key = name then (name, value) :: rest
    else if name < key then (name, value) :: (key, held) :: rest
    else (key, held) :: place name value rest

/-- The value bound to a name. -/
def get? (table : Table α) (name : String) : Option α :=
  lookup name table.entries

/-- Binds a name, replacing an earlier binding. -/
def insert (table : Table α) (name : String) (value : α) : Table α :=
  ⟨place name value table.entries⟩

/-- Removes a name. -/
def erase (table : Table α) (name : String) : Table α :=
  ⟨table.entries.filter fun entry => entry.1 ≠ name⟩

/-- Whether a name is bound. -/
def contains (table : Table α) (name : String) : Bool :=
  (table.get? name).isSome

/-- The bound names, in increasing order. -/
def names (table : Table α) : List String :=
  table.entries.map (·.1)

/-- The number of bound names. -/
def size (table : Table α) : Nat :=
  table.entries.length

/-- Whether nothing is bound. -/
def isEmpty (table : Table α) : Bool :=
  table.entries.isEmpty

/-- The table of a list of bindings, a later one replacing an earlier one of
the same name. -/
def ofList (bindings : List (String × α)) : Table α :=
  bindings.foldl (fun table binding => table.insert binding.1 binding.2) empty

/-! ## What each operation does to a look-up -/

@[simp]
theorem get?_empty (name : String) : (empty : Table α).get? name = none :=
  rfl

theorem lookup_place_same (name : String) (value : α) (entries : List (String × α)) :
    lookup name (place name value entries) = some value := by
  fun_induction place name value entries <;> simp_all [lookup]

theorem lookup_place_other
    {name other : String}
    (different : other ≠ name)
    (value : α)
    (entries : List (String × α)) :
    lookup other (place name value entries) = lookup other entries := by
  fun_induction place name value entries <;> simp_all [lookup, Ne.symm different]

@[simp]
theorem get?_insert_same (table : Table α) (name : String) (value : α) :
    (table.insert name value).get? name = some value :=
  lookup_place_same name value table.entries

theorem get?_insert_other
    (table : Table α)
    {name other : String}
    (different : other ≠ name)
    (value : α) :
    (table.insert name value).get? other = table.get? other :=
  lookup_place_other different value table.entries

theorem lookup_filter_ne (name other : String) (entries : List (String × α)) :
    lookup other (entries.filter fun entry => entry.1 ≠ name)
      = if other = name then none else lookup other entries := by
  induction entries with
  | nil => simp [lookup]
  | cons entry rest inductionHypothesis =>
    by_cases removed : entry.1 = name <;> by_cases sought : other = name <;>
      simp_all [lookup, Ne.symm]

@[simp]
theorem get?_erase_same (table : Table α) (name : String) :
    (table.erase name).get? name = none := by
  rw [get?, erase, lookup_filter_ne, if_pos rfl]

theorem get?_erase_other (table : Table α) {name other : String} (different : other ≠ name) :
    (table.erase name).get? other = table.get? other := by
  rw [get?, erase, lookup_filter_ne, if_neg different, get?]

end Table

end ExLine
