import ReplicaCensus.Text.Hex
import ReplicaCensus.Census.Failure
/-!
# Transport -- what comes back for a URL

A transport answers a request for a URL with a response or a failure, after some seconds.
-/

namespace ReplicaCensus

/-- A status and the bytes of a body. -/
structure Response where
  status : Nat
  body : Bytes
  deriving DecidableEq, Repr

/-- What comes back, and after how many seconds. -/
structure Reply where
  delay : Rat
  result : Except Failure Response

abbrev Transport := String → Reply

namespace Transport

/-- The kinds of failure that belong to the exchange of messages itself. -/
def failureKinds : List String :=
  ["HTTPError", "RequestError", "TransportError", "TimeoutException", "ConnectTimeout",
    "ReadTimeout", "WriteTimeout", "PoolTimeout", "NetworkError", "ConnectError", "ReadError",
    "WriteError", "CloseError", "ProtocolError", "LocalProtocolError", "RemoteProtocolError",
    "ProxyError", "UnsupportedProtocol", "DecodingError", "TooManyRedirects", "HTTPStatusError"]

def isExchangeFailure : Failure → Bool
  | .raised kind _ => failureKinds.contains kind
  | _ => false

def refused : Reply := ⟨0, .error (.raised "ConnectError" "connection refused")⟩

def notFound : Reply := ⟨0, .ok ⟨404, []⟩⟩

end Transport

end ReplicaCensus
