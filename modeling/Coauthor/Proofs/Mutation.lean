/-!
# Changing a state in place

A mutation works on a state as it goes: it reads, it assigns, and it may fail halfway.  What it
assigned before it failed stays.  It is atomic if it does all that a function of the state says,
or fails and leaves the state as it found it.
-/

namespace Coauthor

def Mutation (State Error Value : Type) : Type := State → Except Error Value × State

namespace Mutation

variable {State Error Value Result : Type} {state later : State} {error : Error} {value : Value}

instance : Monad (Mutation State Error) where
  pure value := fun state => (.ok value, state)
  bind mutation next := fun state =>
    match mutation state with
    | (.ok value, later) => next value later
    | (.error error, later) => (.error error, later)

def read : Mutation State Error State := fun state => (.ok state, state)

def assign (change : State → State) : Mutation State Error Unit :=
  fun state => (.ok (), change state)

/-- Goes on with the value of a result, or fails with its error. -/
def attempt (result : Except Error Value) : Mutation State Error Value :=
  fun state => (result, state)

/-- The mutation that does all of what the function says, or nothing. -/
def atomic (function : State → Except Error (State × Value)) : Mutation State Error Value :=
  fun state =>
    match function state with
    | .ok (later, value) => (.ok value, later)
    | .error error => (.error error, state)

/-- The mutation that does all of what the function says, or nothing, and answers nothing. -/
def update (function : State → Except Error State) : Mutation State Error Unit :=
  atomic fun state => (function state).map (·, ())

/-! ## Step by step -/

theorem read_bind (next : State → Mutation State Error Result) (state : State) :
    (read >>= next) state = next state state := rfl

theorem bind_apply (mutation : Mutation State Error Value)
    (next : Value → Mutation State Error Result) (state : State) : (mutation >>= next) state =
      match mutation state with
      | (.ok value, later) => next value later
      | (.error error, later) => (.error error, later) := rfl

/-! ## All or nothing -/

variable {function : State → Except Error (State × Value)}

theorem atomic_of_ok (h : function state = .ok (later, value)) :
    atomic function state = (.ok value, later) := by
  rw [atomic, h]

theorem atomic_of_error (h : function state = .error error) :
    atomic function state = (.error error, state) := by
  rw [atomic, h]

theorem atomic_eq_ok_iff :
    atomic function state = (.ok value, later) ↔ function state = .ok (later, value) := by
  unfold atomic
  cases function state with
  | error error => simp
  | ok done => simp [Prod.ext_iff, and_comm]

theorem atomic_eq_error_iff :
    atomic function state = (.error error, later) ↔
      function state = .error error ∧ later = state := by
  unfold atomic
  cases function state with
  | error error => simp [eq_comm]
  | ok done => simp

/-- A step that may fail may come first, as nothing is assigned yet. -/
theorem attempt_bind_eq_atomic {result : Except Error Value}
    {next : Value → Mutation State Error Result}
    {steps : Value → Except Error (State × Result)}
    (h : ∀ value, next value state = atomic (fun _ => steps value) state) :
    (attempt result >>= next) state = atomic (fun _ => result >>= steps) state := by
  cases result with
  | error error => rfl
  | ok value => exact h value

variable {change : State → Except Error State}

theorem update_of_ok (h : change state = .ok later) : update change state = (.ok (), later) :=
  atomic_of_ok (by rw [h]; rfl)

theorem update_of_error (h : change state = .error error) :
    update change state = (.error error, state) :=
  atomic_of_error (by rw [h]; rfl)

theorem attempt_bind_eq_update {result : Except Error Value}
    {next : Value → Mutation State Error Unit} {steps : Value → Except Error State}
    (h : ∀ value, next value state = update (fun _ => steps value) state) :
    (attempt result >>= next) state = update (fun _ => result >>= steps) state := by
  cases result with
  | error error => rfl
  | ok value => exact h value

theorem update_eq_ok_iff : update change state = (.ok (), later) ↔ change state = .ok later := by
  cases h : change state with
  | error error => simp [update_of_error h]
  | ok done => simp [update_of_ok h]

theorem update_eq_error_iff :
    update change state = (.error error, later) ↔ change state = .error error ∧ later = state := by
  cases h : change state with
  | error error => simp [update_of_error h, eq_comm]
  | ok done => simp [update_of_ok h]

theorem fst_update_eq_ok_iff :
    (update change state).1 = .ok () ↔ ∃ later, change state = .ok later := by
  cases h : change state with
  | error error => simp [update_of_error h]
  | ok done => simp [update_of_ok h]

/-- What holds of the state, and of every state that a change makes of it, holds behind it. -/
theorem update_preserves {property : State → Prop} (h : property state)
    (hchange : ∀ later, change state = .ok later → property later) :
    property (update change state).2 := by
  cases hstate : change state with
  | error error => rwa [update_of_error hstate]
  | ok later =>
      rw [update_of_ok hstate]
      exact hchange later hstate

end Mutation

end Coauthor
