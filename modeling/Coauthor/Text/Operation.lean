/-!
# Text operations

An operation walks a text from start to end; each component retains, inserts or
deletes characters.  A text is a list of characters, so every length and every
position counts characters.

Operations are kept in one normal form: no component is empty, neighbours of one
kind are merged, and an insertion stands before a deletion at the same place.
Components are added one at a time at the end, by `Operation.add`, or all at once, by
`Operation.ofComponents`; nothing else in the library builds an operation from raw
components, so equal effects have equal components.
-/

namespace Coauthor

abbrev Text := List Char

inductive Component where
  | retain (count : Nat)
  | insert (text : Text)
  | delete (count : Nat)
  deriving DecidableEq, Repr, Inhabited

namespace Component

/-- How many characters of the edited text the component consumes. -/
def baseLength : Component → Nat
  | retain count => count
  | insert _ => 0
  | delete count => count

/-- How many characters of the resulting text the component produces. -/
def targetLength : Component → Nat
  | retain count => count
  | insert text => text.length
  | delete _ => 0

/-- How many characters the component speaks of. -/
def size : Component → Nat
  | retain count => count
  | insert text => text.length
  | delete count => count

/-- The sum of a measure of components. -/
def total (measure : Component → Nat) : List Component → Nat
  | [] => 0
  | component :: rest => measure component + total measure rest

/-- The components left to walk once `used` characters of the leading `component`
have been handled. -/
def leave (component : Component) (used : Nat) (rest : List Component) : List Component :=
  if component.size ≤ used then rest
  else match component with
    | retain count => retain (count - used) :: rest
    | insert text => insert (text.drop used) :: rest
    | delete count => delete (count - used) :: rest

theorem length_leave_le (component : Component) (used : Nat) (rest : List Component) :
    (component.leave used rest).length ≤ rest.length + 1 := by
  unfold leave
  split
  · omega
  · cases component <;> simp

theorem leave_of_size_le {component : Component} {used : Nat} (h : component.size ≤ used)
    (rest : List Component) : component.leave used rest = rest := by
  simp [leave, h]

/-- Putting one component in front of a list in normal form, keeping the form. -/
def attach (component : Component) (rest : List Component) : List Component :=
  if component.size = 0 then rest
  else match component, rest with
    | retain count, retain more :: tail => retain (count + more) :: tail
    | insert text, insert more :: tail => insert (text ++ more) :: tail
    | delete count, delete more :: tail => delete (count + more) :: tail
    | delete count, insert text :: delete more :: tail =>
        insert text :: delete (count + more) :: tail
    | delete count, insert text :: tail => insert text :: delete count :: tail
    | _, _ => component :: rest

/-- Puts a component that is not empty behind a list in normal form. -/
def join : List Component → Component → List Component
  | [retain count], retain more => [retain (count + more)]
  | [insert text], insert more => [insert (text ++ more)]
  | [delete count], delete more => [delete (count + more)]
  | [delete count], insert text => [insert text, delete count]
  | [insert text, delete count], insert more => [insert (text ++ more), delete count]
  | first :: rest, component => first :: join rest component
  | [], component => [component]

/-- Putting one component behind a list in normal form, keeping the form. -/
def push (components : List Component) (component : Component) : List Component :=
  if component.size = 0 then components else join components component

/-- Two walks that handle the shorter of their leading components together come
nearer to their end. -/
theorem leave_both_shorter (first second : Component) (firstRest secondRest : List Component) :
    (first.leave (min first.size second.size) firstRest).length +
        (second.leave (min first.size second.size) secondRest).length <
      (first :: firstRest).length + (second :: secondRest).length := by
  have firstBound := first.length_leave_le (min first.size second.size) firstRest
  have secondBound := second.length_leave_le (min first.size second.size) secondRest
  rcases Nat.le_total first.size second.size with h | h
  · rw [leave_of_size_le (by omega)] at firstBound ⊢
    simp only [List.length_cons]
    omega
  · rw [leave_of_size_le (Nat.le_min.2 ⟨h, Nat.le_refl _⟩ : second.size ≤ _)] at secondBound ⊢
    simp only [List.length_cons]
    omega

end Component

/-- A change of one text into another, as a list of components in normal form. -/
structure Operation where
  components : List Component
  deriving DecidableEq, Repr, Inhabited

namespace Operation

/-- The operation with the effect of the given components, taken in order. -/
def ofComponents (components : List Component) : Operation :=
  ⟨components.foldr Component.attach []⟩

/-- The operation on the empty text that leaves it empty. -/
def empty : Operation := ⟨[]⟩

/-- Adds one component at the end. -/
def add (operation : Operation) (component : Component) : Operation :=
  ⟨Component.push operation.components component⟩

def retain (operation : Operation) (count : Nat) : Operation := operation.add (.retain count)

def insert (operation : Operation) (text : Text) : Operation := operation.add (.insert text)

def delete (operation : Operation) (count : Nat) : Operation := operation.add (.delete count)

/-- The length of the texts that the operation applies to. -/
def baseLength (operation : Operation) : Nat :=
  Component.total Component.baseLength operation.components

/-- The length of the texts that the operation produces. -/
def targetLength (operation : Operation) : Nat :=
  Component.total Component.targetLength operation.components

/-- The operation leaves every text of its base length unchanged. -/
def isNoop (operation : Operation) : Bool :=
  match operation.components with
  | [] => true
  | [.retain _] => true
  | _ => false

/-- The operation that keeps a text of the given length as it is. -/
def keep (length : Nat) : Operation := ofComponents [.retain length]

end Operation

end Coauthor
