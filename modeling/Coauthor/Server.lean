import Coauthor.Room.Rooms
import Coauthor.Store.Store

/-!
# The server

Everything that all clients share: the commit store, the document rooms and a clock
in milliseconds.
-/

namespace Coauthor

structure Server where
  store : Store
  rooms : Rooms
  now : Nat
  deriving Inhabited

namespace Server

def start (merger : Merger) (inactivityTimeout : Nat) : Server :=
  { store := .start merger, rooms := .start inactivityTimeout, now := 0 }

/-- Forgets what a client listens to and watches. -/
def detach (server : Server) (client : ClientId) : Server :=
  { server with store := server.store.detach client, rooms := server.rooms.detach client }

def reap (server : Server) : Server × List DocumentId :=
  let (rooms, closed) := server.rooms.reap server.now
  ({ server with rooms }, closed)

end Server

end Coauthor
