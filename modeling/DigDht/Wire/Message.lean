/-
DigDht.Wire.Message — the four requests and their responses
(`src/wire.rs`).
-/
import DigDht.Routing.RoutingTable

namespace DigDht.Wire

open Record Routing

inductive DhtRequest where
  | findNode (target : String)
  | findProviders (contentKey : String)
  | addProvider (record : ProviderRecord)
  | ping (nonce : UInt64)
  deriving DecidableEq

inductive DhtResponse where
  | nodes (nodes : List Contact)
  | providers (providers : List ProviderRecord) (closer : List Contact)
  | addProviderOk
  | pong (nonce : UInt64)
  | error (code : UInt32) (message : String)
  deriving DecidableEq

/-- The contacts a response names. -/
def DhtResponse.contacts : DhtResponse → List Contact
  | .nodes cs => cs
  | .providers _ closer => closer
  | _ => []

/-- The provider records a response carries. -/
def DhtResponse.records : DhtResponse → List ProviderRecord
  | .providers rs _ => rs
  | _ => []

end DigDht.Wire
