import Coauthor.Branch.Branch
import Coauthor.Branch.Coordinator
import Coauthor.Branch.Error
import Coauthor.Branch.Exchange
import Coauthor.Branch.Resolution
import Coauthor.Branch.Status
import Coauthor.Commit.Commit
import Coauthor.Commit.Data
import Coauthor.Commit.Response
import Coauthor.Commit.Sha1
import Coauthor.Connection
import Coauthor.Identifier
import Coauthor.Json.Parser
import Coauthor.Json.Pretty
import Coauthor.Json.Printer
import Coauthor.Json.Record
import Coauthor.Json.Token
import Coauthor.Json.Value
import Coauthor.Link
import Coauthor.Main
import Coauthor.Model
import Coauthor.Proofs.Text.NormalForm
import Coauthor.Quoted.Glyphless
import Coauthor.Quoted.Text
import Coauthor.Remote
import Coauthor.Report.Branch
import Coauthor.Report.Error
import Coauthor.Report.Simulation
import Coauthor.Report.Site
import Coauthor.Report.Text
import Coauthor.Room.Event
import Coauthor.Room.Rooms
import Coauthor.Server
import Coauthor.Session.Branch
import Coauthor.Session.Broadcast
import Coauthor.Session.Document
import Coauthor.Session.Error
import Coauthor.Session.Rehearsal
import Coauthor.Settings
import Coauthor.Simulation.CommandLine
import Coauthor.Simulation.Report
import Coauthor.Simulation.Scenario
import Coauthor.Simulation.Simulation
import Coauthor.Site.Calls
import Coauthor.Site.Site
import Coauthor.Store.Ancestry
import Coauthor.Store.Merger
import Coauthor.Store.Store
import Coauthor.Subscription
import Coauthor.Table
import Coauthor.Text.Apply
import Coauthor.Text.Chain
import Coauthor.Text.Compose
import Coauthor.Text.Desk
import Coauthor.Text.Document
import Coauthor.Text.EditClient
import Coauthor.Text.Error
import Coauthor.Text.History
import Coauthor.Text.Message
import Coauthor.Text.Network
import Coauthor.Text.Notice
import Coauthor.Text.Operation
import Coauthor.Text.Transform
import Coauthor.Text.Wire
import Coauthor.Proofs.Text.Effect
import Coauthor.Proofs.Text.Builder
import Coauthor.Proofs.Text.Composition
import Coauthor.Proofs.Text.Canonical
import Coauthor.Proofs.Text.Merge
import Coauthor.Proofs.Text.History
import Coauthor.Proofs.Text.Pending
import Coauthor.Proofs.Text.Tracking
import Coauthor.Proofs.Text.Editor
import Coauthor.Proofs.Text.Traffic
import Coauthor.Proofs.Text.Convergence
import Coauthor.Proofs.Store.Ancestry
import Coauthor.Proofs.Store.Heads
import Coauthor.Proofs.Branch.Attachment
import Coauthor.Proofs.Branch.Dialogue
import Coauthor.Proofs.Branch.SingleFlight
import Coauthor.Proofs.Branch.Resolution
import Coauthor.Proofs.Branch.Rejoin
import Coauthor.Proofs.Store.Growth
import Coauthor.Proofs.Branch.Acknowledgement
import Coauthor.Proofs.Branch.Fleet
import Coauthor.Proofs.Branch.Order
import Coauthor.Proofs.Branch.Balance
import Coauthor.Proofs.Branch.Repush
import Coauthor.Proofs.Branch.Diligence
import Coauthor.Proofs.Branch.Echo
import Coauthor.Proofs.Text.Numbering
import Coauthor.Proofs.Room.Stream
import Coauthor.Proofs.Room.Attendance
import Coauthor.Proofs.Room.Record
import Coauthor.Proofs.Room.Reopening
import Coauthor.Proofs.Branch.Footing
import Coauthor.Proofs.Branch.Opening
import Coauthor.Proofs.Room.Feed
import Coauthor.Proofs.Room.Turns
import Coauthor.Proofs.Room.Broadcast
import Coauthor.Proofs.Room.Tail
import Coauthor.Proofs.Room.Return
import Coauthor.Proofs.Commit.Text
import Coauthor.Proofs.Store.Push
import Coauthor.Proofs.Store.Turns
import Coauthor.Proofs.Store.Announcements
import Coauthor.Proofs.Store.Overwriting
import Coauthor.Proofs.Store.History
import Coauthor.Proofs.Branch.Halts
import Coauthor.Proofs.Store.Sound
import Coauthor.Proofs.Text.Inversion
import Coauthor.Proofs.Mutation
import Coauthor.Proofs.Text.Replay
import Coauthor.Proofs.Text.InPlace
import Coauthor.Proofs.Text.Acceptance
import Coauthor.Proofs.Branch.Pursuit
import Coauthor.Proofs.Text.Admission
import Coauthor.Proofs.Text.StopAndWait
import Coauthor.Proofs.Text.CatchUp
import Coauthor.Proofs.Store.Refusal
import Coauthor.Proofs.Branch.Workers
import Coauthor.Proofs.Text.Grammar
import Coauthor.Proofs.Branch.Attempt
import Coauthor.Proofs.Branch.Interruption
import Coauthor.Proofs.Branch.Retry
import Coauthor.Proofs.Text.ReadBack
import Coauthor.Proofs.Store.Nearest
import Coauthor.Proofs.Json.Text
import Coauthor.Proofs.Json.Fields
import Coauthor.Proofs.Wire
import Coauthor.Proofs.Commit.Content
