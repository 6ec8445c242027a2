import Coauthor.Branch.Error
import Coauthor.Branch.Status
import Coauthor.Commit.Data

/-!
# The local model

What a client makes of the commits it is given: a flat table of objects, and a record
of every load.  A model can be told to refuse all loads for a reason.
-/

namespace Coauthor

structure Model where
  objects : CoreObjects
  /-- Every load, oldest first. -/
  loads : List (CommitHash × LoadReason)
  refusal : Option String
  deriving Repr

namespace Model

def empty : Model := { objects := ∅, loads := [], refusal := none }

instance : Inhabited Model := ⟨empty⟩

/-- Takes in a commit made on this client. -/
def applyLocal (model : Model) (data : CommitData) : Model :=
  { model with objects := model.objects.extend data.coreObjects }

def load (model : Model) (data : CommitData) (reason : LoadReason) :
    Model × Except DeliveryError Unit :=
  match model.refusal with
  | some refusal => (model, .error (.rejected refusal))
  | none =>
      ({ model.applyLocal data with loads := model.loads ++ [(data.hash, reason)] }, .ok ())

end Model

end Coauthor
