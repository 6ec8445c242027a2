import Coauthor.Identifier
import Coauthor.Json.Printer
import Coauthor.Json.Record
import Coauthor.Commit.Sha1

/-!
# Commits

A commit is an immutable node of a project's history.  Its id is `#` and the digest
of the compact JSON text of all its other fields, in the order of their names, so
two peers that build the same commit name it alike.
-/

namespace Coauthor

structure Commit where
  id : CommitHash
  /-- The hash of the root object of the snapshot. -/
  root : String
  /-- The first parent is the commit that this one was built on. -/
  parents : List CommitHash
  /-- The users who contributed. -/
  updater : List String
  /-- Milliseconds since the epoch, a signed 64-bit number. -/
  time : Int
  message : String
  branchName : Option BranchName
  deriving DecidableEq, Repr, Inhabited

namespace Commit

def parent? (commit : Commit) : Option CommitHash := commit.parents.head?

/-- The value whose text the id is a digest of. -/
def content (commit : Commit) : Json :=
  .object [
    ("branchName", Json.ofOption .string commit.branchName),
    ("message", .string commit.message),
    ("parents", Json.strings commit.parents),
    ("root", .string commit.root),
    ("time", .int commit.time),
    ("updater", Json.strings commit.updater)]

def contentText (commit : Commit) : List Char := commit.content.write

def utf8Bytes (text : List Char) : List UInt8 := (String.ofList text).toUTF8.data.toList

def computedId (commit : Commit) : CommitHash :=
  "#" ++ Sha1.hexDigest (utf8Bytes commit.contentText)

/-- The id fits the content. -/
def isIntact (commit : Commit) : Bool := commit.id = commit.computedId

/-- The commit under the id that fits its content. -/
def sealed (commit : Commit) : Commit := { commit with id := commit.computedId }

def fieldNames : List String :=
  ["_id", "root", "parents", "updater", "time", "message", "branchName"]

def toJson (commit : Commit) : Json :=
  .object ([
    ("_id", .string commit.id),
    ("root", .string commit.root),
    ("parents", Json.strings commit.parents),
    ("updater", Json.strings commit.updater),
    ("time", .int commit.time),
    ("message", .string commit.message)] ++
    Json.optionalEntry "branchName" commit.branchName)

def ofJson? (value : Json) : Option Commit := do
  let fields ← value.fields? fieldNames
  return {
    id := ← Json.required fields "_id" Json.string?
    root := ← Json.required fields "root" Json.string?
    parents := ← Json.required fields "parents" Json.strings?
    updater := ← Json.defaulted fields "updater" [] Json.strings?
    time := ← Json.required fields "time" Json.int64?
    message := ← Json.defaulted fields "message" "" Json.string?
    branchName := ← Json.optional fields "branchName" Json.string? }

end Commit

end Coauthor
