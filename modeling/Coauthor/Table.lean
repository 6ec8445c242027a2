/-!
# Finite tables

A table keeps its entries in the order in which their keys were first inserted.
Each operation is described by what it does to look-ups; nothing else of the
representation is used elsewhere.
-/

namespace Coauthor

structure Table (Key Value : Type) where
  entries : List (Key × Value)
  deriving Repr

namespace Table

variable {Key Value : Type} [DecidableEq Key]

def empty : Table Key Value := ⟨[]⟩

instance : Inhabited (Table Key Value) := ⟨empty⟩

instance : EmptyCollection (Table Key Value) := ⟨empty⟩

def get? (table : Table Key Value) (key : Key) : Option Value :=
  (table.entries.find? (·.1 = key)).map (·.2)

def contains (table : Table Key Value) (key : Key) : Bool :=
  (table.get? key).isSome

/-- Replaces the entry of a key in its place, or adds a new one at the end. -/
def insertEntry (key : Key) (value : Value) : List (Key × Value) → List (Key × Value)
  | [] => [(key, value)]
  | (other, old) :: rest =>
      if other = key then (key, value) :: rest else (other, old) :: insertEntry key value rest

def insert (table : Table Key Value) (key : Key) (value : Value) : Table Key Value :=
  ⟨insertEntry key value table.entries⟩

def erase (table : Table Key Value) (key : Key) : Table Key Value :=
  ⟨table.entries.filter (·.1 ≠ key)⟩

/-- Inserts every entry of `added`, in order; later entries win. -/
def extend (table added : Table Key Value) : Table Key Value :=
  added.entries.foldl (fun table entry => table.insert entry.1 entry.2) table

def ofList (entries : List (Key × Value)) : Table Key Value :=
  (empty : Table Key Value).extend ⟨entries⟩

def keys (table : Table Key Value) : List Key := table.entries.map (·.1)

def values (table : Table Key Value) : List Value := table.entries.map (·.2)

def size (table : Table Key Value) : Nat := table.entries.length

/-- Changes every value. -/
def mapValues (table : Table Key Value) (change : Key → Value → Value) : Table Key Value :=
  ⟨table.entries.map fun entry => (entry.1, change entry.1 entry.2)⟩

/-- Keeps the entries that pass the test. -/
def filter (table : Table Key Value) (test : Key → Value → Bool) : Table Key Value :=
  ⟨table.entries.filter fun entry => test entry.1 entry.2⟩

@[simp]
theorem get?_empty (key : Key) : (∅ : Table Key Value).get? key = none := rfl

theorem find?_insertEntry (entries : List (Key × Value)) (key probe : Key) (value : Value) :
    ((insertEntry key value entries).find? (·.1 = probe)).map (·.2) =
      if probe = key then some value else (entries.find? (·.1 = probe)).map (·.2) := by
  induction entries with
  | nil => by_cases h : key = probe <;> simp [insertEntry, h, eq_comm]
  | cons entry rest ih =>
    obtain ⟨other, old⟩ := entry
    by_cases h : other = key
    · subst h
      by_cases hprobe : other = probe
      · simp [insertEntry, hprobe]
      · simp [insertEntry, hprobe, Ne.symm hprobe]
    · by_cases hother : other = probe
      · subst hother
        simp [insertEntry, h]
      · simpa [insertEntry, h, hother] using ih

@[simp]
theorem get?_insert (table : Table Key Value) (key probe : Key) (value : Value) :
    (table.insert key value).get? probe =
      if probe = key then some value else table.get? probe :=
  find?_insertEntry table.entries key probe value

theorem contains_insert (table : Table Key Value) (key probe : Key) (value : Value) :
    (table.insert key value).contains probe ↔ probe = key ∨ table.contains probe := by
  rw [contains, get?_insert, contains]
  by_cases hprobe : probe = key <;> simp [hprobe]

@[simp]
theorem get?_erase (table : Table Key Value) (key probe : Key) :
    (table.erase key).get? probe = if probe = key then none else table.get? probe := by
  simp only [get?, erase]
  induction table.entries with
  | nil => simp
  | cons entry rest ih =>
    by_cases hprobe : probe = key
    · subst hprobe
      by_cases hentry : entry.1 = probe <;> simp_all
    · by_cases hentry : entry.1 = key
      · have : entry.1 ≠ probe := by rintro rfl; exact hprobe hentry
        simp_all
      · by_cases hmatch : entry.1 = probe <;> simp_all

@[simp]
theorem get?_mapValues (table : Table Key Value) (change : Key → Value → Value) (key : Key) :
    (table.mapValues change).get? key = (table.get? key).map (change key) := by
  simp only [get?, mapValues]
  induction table.entries with
  | nil => rfl
  | cons entry rest ih =>
    by_cases hentry : entry.1 = key
    · simp [hentry]
    · simpa [hentry] using ih

theorem get?_extend_map (names : List Key) (value : Key → Value) (table : Table Key Value)
    (probe : Key) :
    (table.extend ⟨names.map fun name => (name, value name)⟩).get? probe =
      if probe ∈ names then some (value probe) else table.get? probe := by
  simp only [extend, List.foldl_map]
  induction names generalizing table with
  | nil => simp
  | cons name rest ih =>
    rw [List.foldl_cons, ih, get?_insert]
    by_cases hrest : probe ∈ rest
    · simp [hrest]
    · by_cases hname : probe = name <;> simp [hrest, hname]

/-- A table made from a list of keys gives each of them its value. -/
theorem get?_ofList_map (names : List Key) (value : Key → Value) (probe : Key) :
    (ofList (names.map fun name => (name, value name))).get? probe =
      if probe ∈ names then some (value probe) else none :=
  get?_extend_map names value empty probe

end Table

end Coauthor
