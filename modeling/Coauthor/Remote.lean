/-!
# Failures of a remote peer

Two of the failures are faults of the transport, after which a client rejoins; the
others are answers of a server that was reached.
-/

namespace Coauthor

inductive RemoteError where
  | disconnected
  | timeout
  | notFound (what : String)
  | rejected (reason : String)
  deriving DecidableEq, Repr, Inhabited

namespace RemoteError

def isTransport : RemoteError → Bool
  | disconnected | timeout => true
  | notFound _ | rejected _ => false

def message : RemoteError → String
  | disconnected => "Transport disconnected"
  | timeout => "Request timed out"
  | notFound what => "Not found: " ++ what
  | rejected reason => "Rejected by server: " ++ reason

end RemoteError

end Coauthor
