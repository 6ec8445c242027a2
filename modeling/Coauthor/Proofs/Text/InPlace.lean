import Coauthor.Proofs.Mutation
import Coauthor.Text.Document

/-!
# Documents in place

A document takes its unacknowledged operations out of its state while it works on them, assigns
its text, its numbers and its revision one after the other, and queues a message as soon as it is
issued.  An edit, an operation of another client and an acknowledgement are nevertheless all or
nothing: whatever fails either comes before the first assignment, or is made good.
-/

namespace Coauthor.Document

def setPending (pending : Pending) : Mutation Document OperationError Unit :=
  .assign fun document => { document with client := { document.client with pending } }

/-- Takes the pending operations out and leaves none. -/
def takePending : Mutation Document OperationError Pending := do
  let document ← .read
  setPending .synchronized
  return document.client.pending

def countRevision : Mutation Document OperationError Unit :=
  .assign fun document =>
    { document with client := { document.client with revision := document.client.revision + 1 } }

/-- Gives the operation the next number. -/
def issueInPlace (operation : Operation) : Mutation Document OperationError Outstanding := do
  let document ← .read
  .assign fun document =>
    { document with client := { document.client with nextSeq := document.client.nextSeq + 1 } }
  return { seq := document.client.nextSeq, operation }

/-- Queues an operation with the revision that the client has reached. -/
def sendInPlace (outstanding : Outstanding) : Mutation Document OperationError Unit :=
  .assign fun document => document.post (some { revision := document.client.revision, outstanding })

/-- Puts an operation behind the pending ones. -/
def appendPending (operation : Operation) : Mutation Document OperationError Unit := do
  match ← takePending with
  | .synchronized =>
      let outstanding ← issueInPlace operation
      sendInPlace outstanding
      setPending (.awaitingConfirm outstanding)
  | .awaitingConfirm outstanding => setPending (.awaitingWithBuffer outstanding operation)
  | .awaitingWithBuffer outstanding buffer =>
      match buffer.compose operation with
      | .ok composed => setPending (.awaitingWithBuffer outstanding composed)
      | .error error =>
          setPending (.awaitingWithBuffer outstanding buffer)
          .attempt (.error error)

def editInPlace (operation : Operation) : Mutation Document OperationError Unit := do
  let content ← .attempt (operation.apply (← .read).content)
  appendPending operation
  .assign ({ · with content })
  .assign announce

/-- What waits behind an operation of another client, and that operation as it applies to the
local text. -/
def carryPending (operation : Operation) :
    Pending → Except OperationError (Pending × Operation)
  | .synchronized => .ok (.synchronized, operation)
  | .awaitingConfirm outstanding => do
      let (waiting, visible) ← outstanding.operation.transform operation
      return (.awaitingConfirm { outstanding with operation := waiting }, visible)
  | .awaitingWithBuffer outstanding buffer => do
      let (waiting, behind) ← outstanding.operation.transform operation
      let (buffer, visible) ← buffer.transform behind
      return (.awaitingWithBuffer { outstanding with operation := waiting } buffer, visible)

/-- Applies an operation to the text and answers whether the text was assigned. -/
def applyInPlace (operation : Operation) : Mutation Document OperationError Bool := do
  let content ← .attempt (operation.apply (← .read).content)
  .assign ({ · with content })
  return true

def applyRemoteInPlace (operation : Operation) : Mutation Document OperationError Unit := do
  let (pending, visible) ← .attempt (carryPending operation (← .read).client.pending)
  let changed ← applyInPlace visible
  setPending pending
  countRevision
  if changed then .assign announce

def acknowledgeInPlace : Mutation Document OperationError Unit := do
  match ← takePending with
  | .synchronized => .attempt (.error .unexpectedAck)
  | .awaitingConfirm _ =>
      countRevision
      setPending .synchronized
  | .awaitingWithBuffer _ buffer =>
      countRevision
      let outstanding ← issueInPlace buffer
      sendInPlace outstanding
      setPending (.awaitingConfirm outstanding)

/-- Takes in missed entries in order and stops at the first that does not fit. -/
def catchUpInPlace : List AppliedOperation → Mutation Document OperationError Unit
  | [] => return
  | applied :: missed => do
      let document ← .read
      if applied.revision ≤ document.revision then catchUpInPlace missed
      else if applied.clientId = document.clientId ∧ document.isOutstanding applied.seq then
        acknowledgeInPlace
        catchUpInPlace missed
      else
        applyRemoteInPlace applied.operation
        catchUpInPlace missed

variable {Value : Type} {document : Document} {operation : Operation}

theorem takePending_bind (next : Pending → Mutation Document OperationError Value)
    (document : Document) : (takePending >>= next) document =
      next document.client.pending
        { document with client := { document.client with pending := .synchronized } } := rfl

/-- What was taken out of the state is put back if it cannot be composed. -/
theorem appendPending_eq (operation : Operation) :
    appendPending operation = .update fun document =>
      (document.client.applyLocal operation).map fun (client, submission) =>
        { document with client }.post submission := by
  funext document
  obtain ⟨id, clientId, content, ⟨revision, nextSeq, pending⟩, outbox, listeners, changes⟩ :=
    document
  cases pending with
  | synchronized => rfl
  | awaitingConfirm outstanding => rfl
  | awaitingWithBuffer outstanding buffer =>
      rw [appendPending, takePending_bind, Mutation.update, Mutation.atomic, EditClient.applyLocal]
      dsimp only
      cases buffer.compose operation <;> rfl

theorem editInPlace_eq (operation : Operation) :
    editInPlace operation = .update (·.edit operation) := by
  funext document
  change _ = Mutation.update (fun _ => document.edit operation) document
  rw [editInPlace, Mutation.read_bind, edit]
  refine Mutation.attempt_bind_eq_update fun content => ?_
  rw [Mutation.bind_apply, appendPending_eq, Mutation.update, Mutation.atomic]
  cases document.client.applyLocal operation with
  | error error => rfl
  | ok moved =>
      obtain ⟨client, submission⟩ := moved
      cases submission <;> rfl

theorem applyRemote_eq_map (client : EditClient) (operation : Operation) :
    client.applyRemote operation =
      (fun (pending, visible) =>
        ({ client with revision := client.revision + 1, pending }, visible)) <$>
        carryPending operation client.pending := by
  obtain ⟨revision, nextSeq, pending⟩ := client
  cases pending with
  | synchronized => rfl
  | awaitingConfirm outstanding | awaitingWithBuffer outstanding buffer =>
      rw [EditClient.applyRemote, carryPending]
      simp only [map_bind]
      rfl

theorem applyRemoteInPlace_eq (operation : Operation) :
    applyRemoteInPlace operation = .update (·.applyRemote operation) := by
  funext document
  change _ = Mutation.update (fun _ => document.applyRemote operation) document
  rw [applyRemoteInPlace, Mutation.read_bind, applyRemote, applyRemote_eq_map, bind_map_left]
  refine Mutation.attempt_bind_eq_update fun carried => ?_
  obtain ⟨pending, visible⟩ := carried
  dsimp only
  rw [Mutation.bind_apply, applyInPlace, Mutation.read_bind]
  cases visible.apply document.content <;> rfl

theorem acknowledgeInPlace_eq : acknowledgeInPlace = .update acknowledge := by
  funext document
  obtain ⟨id, clientId, content, ⟨revision, nextSeq, pending⟩, outbox, listeners, changes⟩ :=
    document
  cases pending <;> rfl

theorem catchUpInPlace_eq (missed : List AppliedOperation) (document : Document) :
    catchUpInPlace missed document =
      ((document.catchUp missed).2, (document.catchUp missed).1) := by
  induction missed generalizing document with
  | nil => rfl
  | cons applied missed ih =>
      rw [catchUpInPlace, Mutation.read_bind, catchUp, catchUpWith]
      split
      · exact ih document
      · split
        · rw [Mutation.bind_apply, acknowledgeInPlace_eq]
          cases hacknowledge : document.acknowledge with
          | error error => rw [Mutation.update_of_error hacknowledge]
          | ok moved =>
              rw [Mutation.update_of_ok hacknowledge]
              exact ih moved
        · rw [Mutation.bind_apply, applyRemoteInPlace_eq]
          cases hremote : document.applyRemote applied.operation with
          | error error => rw [Mutation.update_of_error hremote]
          | ok moved =>
              rw [Mutation.update_of_ok hremote]
              exact ih moved

end Coauthor.Document
