import Coauthor.Commit.Data
import Coauthor.Text.Operation

/-!
# Scenarios

What the clients of a simulation do.  They work in rounds on one branch and one
document: in each round every client commits on top of its head and types a character,
as long as its share lasts.
-/

namespace Coauthor

structure Scenario where
  clients : Nat
  /-- How many commits each client makes. -/
  commits : Nat
  /-- How many characters each client types. -/
  edits : Nat
  /-- The server merges commits that do not fit its head. -/
  merge : Bool
  /-- The first client loses its connection halfway. -/
  disconnect : Bool
  /-- A simulation that takes longer is given up, in seconds. -/
  timeout : Nat
  deriving DecidableEq, Repr

namespace Scenario

def default : Scenario :=
  { clients := 3, commits := 5, edits := 10, merge := false, disconnect := false, timeout := 30 }

instance : Inhabited Scenario := ⟨default⟩

def project : ProjectId := "simulation"

def branch : BranchName := "master"

def document : DocumentId := "notes"

/-- The first commit of the project. -/
def root : CommitData :=
  { projectId := project
    branchName := some branch
    commit := Commit.sealed {
      id := "", root := "#root", parents := [], updater := [], time := 0, message := "initial"
      branchName := none }
    coreObjects := ∅
    oldHash := none }

def clientName (index : Nat) : ClientId := "client-" ++ toString index

def clientNames (scenario : Scenario) : List ClientId :=
  (List.range scenario.clients).map clientName

def rounds (scenario : Scenario) : Nat := max scenario.commits scenario.edits

/-- The first client loses its connection at the end of this round. -/
def interruption (scenario : Scenario) : Nat := scenario.rounds / 2

/-- What a client commits in a round, on top of a head. -/
def change (index round : Nat) (head : CommitHash) (time : Nat) : CommitData :=
  let name := clientName index
  { projectId := project
    branchName := some branch
    commit := Commit.sealed {
      id := "", root := "#root", parents := [head], updater := [name], time := time
      message := name ++ " change " ++ toString round
      branchName := some branch }
    coreObjects := .ofList [(name ++ "-" ++ toString round, Json.nat round)]
    oldHash := none }

/-- The character that a client types. -/
def letter (index : Nat) : Char := Char.ofNat ('a'.toNat + index % 26)

/-- What a client does to a text of some length in a round: it types its character, at
a place that moves from round to round. -/
def typing (index round length : Nat) : Operation :=
  let place := (round * 7 + index) % (length + 1)
  .ofComponents [.retain place, .insert [letter index], .retain (length - place)]

end Scenario

end Coauthor
