import Coauthor.Json.Token
import Coauthor.Simulation.Scenario

/-!
# Command lines

A command line changes the default scenario.  An option is named behind two dashes;
the number of clients also has a letter, behind one.  Its value stands behind an equals
sign, right behind the letter, or is the next argument, which then must not look like an
option.  Flags have no value.  No option is given twice, and nothing else is accepted,
but two dashes alone may end the line.
-/

namespace Coauthor

structure CommandLine where
  scenario : Scenario
  /-- The directory that may hold a settings file. -/
  directory : String
  /-- The report is wanted as JSON. -/
  asJson : Bool
  deriving DecidableEq, Repr

/-- What an option of a command line sets. -/
inductive Parameter where
  | clients
  | commits
  | edits
  | merge
  | disconnect
  | config
  | timeout
  | json
  deriving DecidableEq, Repr, Inhabited

namespace Parameter

def all : List Parameter :=
  [clients, commits, edits, merge, disconnect, config, timeout, json]

def name : Parameter → String
  | clients => "clients"
  | commits => "commits"
  | edits => "edits"
  | merge => "merge"
  | disconnect => "disconnect"
  | config => "config"
  | timeout => "timeout"
  | json => "json"

def isFlag : Parameter → Bool
  | merge | disconnect | json => true
  | clients | commits | edits | config | timeout => false

def ofName? (name : List Char) : Option Parameter :=
  all.find? fun parameter => parameter.name.toList = name

/-- The option that an argument names, and the value that it carries. -/
def ofArgument? : List Char → Option (Parameter × Option (List Char))
  | '-' :: '-' :: text =>
      let value := match text.dropWhile (· ≠ '=') with
        | [] => none
        | _ :: value => some value
      (ofName? (text.takeWhile (· ≠ '='))).map (·, value)
  | ['-', 'c'] => some (clients, none)
  | '-' :: 'c' :: '=' :: value => some (clients, some value)
  | '-' :: 'c' :: value => some (clients, some value)
  | _ => none

end Parameter

namespace CommandLine

def default : CommandLine := { scenario := .default, directory := ".", asJson := false }

instance : Inhabited CommandLine := ⟨default⟩

/-- An unsigned 64-bit number, which may have a plus sign. -/
def number? (text : List Char) : Option Nat :=
  let digits := match text with
    | '+' :: digits => digits
    | digits => digits
  if digits.isEmpty || !digits.all Char.isDigit then none
  else
    let value := Json.Token.natOfDigits digits
    if value < 0x10000000000000000 then some value else none

/-- An argument that starts with a dash is no value, unless it is only the dash. -/
def looksLikeOption : List Char → Bool
  | '-' :: _ :: _ => true
  | _ => false

def set (line : CommandLine) (parameter : Parameter) (value : List Char) : Option CommandLine :=
  let scenario := line.scenario
  match parameter with
  | .clients => (number? value).map fun clients =>
      { line with scenario := { scenario with clients } }
  | .commits => (number? value).map fun commits =>
      { line with scenario := { scenario with commits } }
  | .edits => (number? value).map fun edits =>
      { line with scenario := { scenario with edits } }
  | .timeout => (number? value).map fun timeout =>
      { line with scenario := { scenario with timeout } }
  | .merge => some { line with scenario := { scenario with merge := true } }
  | .disconnect => some { line with scenario := { scenario with disconnect := true } }
  | .json => some { line with asJson := true }
  | .config => if value.isEmpty then none else some { line with directory := String.ofList value }

/-- Reads arguments behind those of the options `given`. -/
def readFrom (given : List Parameter) (line : CommandLine) : List (List Char) → Option CommandLine
  | [] => some line
  | [['-', '-']] => some line
  | argument :: rest =>
      match Parameter.ofArgument? argument with
      | none => none
      | some (parameter, attached) =>
          if parameter ∈ given then none
          else match parameter.isFlag, attached, rest with
            | true, none, rest => do
                readFrom (parameter :: given) (← line.set parameter []) rest
            | true, some _, _ => none
            | false, some value, rest => do
                readFrom (parameter :: given) (← line.set parameter value) rest
            | false, none, value :: rest => do
                if looksLikeOption value then none
                else readFrom (parameter :: given) (← line.set parameter value) rest
            | false, none, [] => none

def read? (arguments : List String) : Option CommandLine :=
  readFrom [] default (arguments.map String.toList)

end CommandLine

end Coauthor
