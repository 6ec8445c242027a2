import Coauthor.Report.Error
import Coauthor.Text.Network
import Coauthor.Text.Wire

/-!
# Reports of texts and operations

What can be seen of an operation, of a client that edits and of a document.
-/

namespace Coauthor

/-- A text as a JSON string. -/
def Text.toJson (text : Text) : Json := .string (String.ofList text)

namespace Component

def report : Component → Json
  | retain count => .object [("retain", .nat count)]
  | insert text => .object [("insert", text.toJson)]
  | delete count => .object [("delete", .nat count)]

end Component

namespace Operation

def reportEntries (operation : Operation) : List (String × Json) :=
  [("wire", operation.toJson), ("base", .nat operation.baseLength),
    ("target", .nat operation.targetLength), ("noop", .bool operation.isNoop)]

def report (operation : Operation) : Json := .object operation.reportEntries

end Operation

namespace Pending

def reportOutstanding (outstanding : Outstanding) : Json :=
  .object [("seq", .nat outstanding.seq), ("operation", outstanding.operation.report)]

def report : Pending → Json
  | synchronized => .object [("state", .string "Synchronized")]
  | awaitingConfirm outstanding =>
      .object [("state", .string "AwaitingConfirm"),
        ("outstanding", reportOutstanding outstanding)]
  | awaitingWithBuffer outstanding buffer =>
      .object [("state", .string "AwaitingWithBuffer"),
        ("outstanding", reportOutstanding outstanding), ("buffer", buffer.report)]

end Pending

namespace Submission

def report (submission : Submission) : Json :=
  .object [("revision", .nat submission.revision), ("seq", .nat submission.outstanding.seq),
    ("operation", submission.outstanding.operation.toJson)]

end Submission

namespace Received

def report : Received → Json
  | applied entry => .object [("applied", entry.toJson)]
  | duplicate seq revision =>
      .object [("duplicate", .object [("seq", .nat seq), ("revision", .nat revision)])]

end Received

namespace History

def reportEntries (history : History) : List (String × Json) :=
  [("content", history.content.toJson), ("revision", .nat history.revision)]

def report (history : History) : Json := .object history.reportEntries

end History

namespace Document

def reportEntries (document : Document) : List (String × Json) :=
  [("content", document.content.toJson), ("revision", .nat document.revision),
    ("client", document.client.pending.report)]

end Document

namespace Editor

def report (editor : Editor) : Json :=
  .object (editor.document.reportEntries ++
    [("outbox", .nat editor.outbox.length), ("inbox", .nat editor.inbox.length)])

end Editor

end Coauthor
