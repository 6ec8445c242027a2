import Coauthor.Json.Parser
import Coauthor.Json.Printer
import Coauthor.Json.Record

/-!
# Settings

What a client and a server can be configured with.  A settings file is a record in
which a setting may not be given twice; a setting that is left out has its default.
-/

namespace Coauthor

structure Settings where
  /-- How many commands of a session may wait. -/
  commandCapacity : Nat
  /-- A room without operations for this long is closed, in milliseconds. -/
  inactivityTimeout : Nat
  /-- How often rooms are checked, in milliseconds. -/
  reaperInterval : Nat
  deriving DecidableEq, Repr

namespace Settings

def default : Settings :=
  { commandCapacity := 64, inactivityTimeout := 600000, reaperInterval := 30000 }

instance : Inhabited Settings := ⟨default⟩

def fieldNames : List String :=
  ["commandCapacity", "documentInactivityTimeoutMs", "reaperIntervalMs"]

def toJson (settings : Settings) : Json :=
  .object [
    ("commandCapacity", .nat settings.commandCapacity),
    ("documentInactivityTimeoutMs", .nat settings.inactivityTimeout),
    ("reaperIntervalMs", .nat settings.reaperInterval)]

def ofJson? (value : Json) : Option Settings := do
  let fields ← value.fields? fieldNames
  return {
    commandCapacity :=
      ← Json.defaulted fields "commandCapacity" default.commandCapacity Json.nat64?
    inactivityTimeout :=
      ← Json.defaulted fields "documentInactivityTimeoutMs" default.inactivityTimeout Json.nat64?
    reaperInterval :=
      ← Json.defaulted fields "reaperIntervalMs" default.reaperInterval Json.nat64? }

/-- No setting is given twice. -/
def isUnambiguous : Json → Bool
  | .object entries => fieldNames.all fun name => (entries.countP (·.1 = name)) ≤ 1
  | _ => true

/-- The name under which a directory holds its settings. -/
def fileName : String := "tandem.config.json"

def ofText? (text : String) : Option Settings := do
  let value ← Json.parse? text
  if isUnambiguous value then ofJson? value else none

/-- The settings of a directory, given the text of its settings file, if it has one. -/
def ofFile? : Option String → Option Settings
  | none => some default
  | some text => ofText? text

end Settings

end Coauthor
