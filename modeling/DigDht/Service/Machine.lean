/-
DigDht.Service.Machine — a service as one state machine.

An `Input` is a public operation with what two observers of the node can
agree on: its arguments, the clock readings, the order in which the map
of announced keys is iterated. A `World` is everything else the node
meets while it runs the operation: the transport's answers and the random
bytes. `step` runs the operation and reports what it replied, every RPC
it sent, and the records it put into its own authoritative store on its
own behalf.
-/
import DigDht.Service.Service

namespace DigDht.Service

open Keyspace Record Routing Lookup Store Wire Content

/-- The public operations with their arguments. -/
inductive Op where
  | bootstrap (peers : List BootstrapPeer)
  | addPeer (peerId : PeerId) (addresses : List CandidateAddr)
  | removePeer (peerIdHex : String)
  | findNode (peerId : PeerId)
  | findProviders (content : ContentId)
  | cachedProviders (content : ContentId)
  | forgetDiscovered (content : ContentId)
  | announceProviderWithCollateral (content : ContentId) (unverifiedMirrorCoinId : Option Bytes32)
  | withdrawProvider (content : ContentId)
  | ingestVerifiedProvider (record : ProviderRecord)
  | removeProviderRecord (contentKey providerPeerId : String)
  | providerSnapshot (maxKeys : Nat)
  | retractOwnProvider (content : ContentId)
  | holdersOf (content : ContentId)
  | republish
  | refreshBuckets
  | gc
  | ping (peer : Contact)
  | handleRequestFrom (caller : Option Contact) (request : DhtRequest)
  | knownClosest (target : Key)
  | routingLen

/-- `announce_provider`: an announce without a pointer. -/
def Op.announceProvider (content : ContentId) : Op :=
  .announceProviderWithCollateral content none

/-- `handle_request`: a request from a caller nobody vouches for. -/
def Op.handleRequest (request : DhtRequest) : Op :=
  .handleRequestFrom none request

structure Input where
  op : Op
  clock : Nat → Nat
  keyOrder : List String → List String
  keyOrder_perm : ∀ keys, (keyOrder keys).Perm keys

/-- An operation at an instant, keys in the order of the map. -/
def Input.at (now : Nat) (op : Op) : Input where
  op := op
  clock _ := now
  keyOrder keys := keys
  keyOrder_perm := List.Perm.refl

structure World where
  swarms : Nat → Swarm
  random : Nat → Bytes32
  nonce : UInt64

inductive Reply where
  | unit
  | flag (b : Bool)
  | count (n : Nat)
  | records (rs : List ProviderRecord)
  | contacts (cs : List Contact)
  | holders (ps : List PeerId)
  | put (outcome : PutOutcome)
  | snapshot (s : ProviderSnapshot)
  | response (r : DhtResponse)
  | noPeers
  | panicked
  deriving DecidableEq

structure Output where
  reply : Reply
  sent : List Sent
  offered : List ProviderRecord
  deriving DecidableEq

/-- An output of an operation that stays off the network. -/
def Output.quiet (reply : Reply) : Output where
  reply := reply
  sent := []
  offered := []

variable [Deps]

def step (svc : DhtService) (input : Input) (world : World) : DhtService × Output :=
  let now := input.clock 0
  let swarm := world.swarms 0
  match input.op with
  | .bootstrap peers =>
    let (svc, known, sent) := svc.bootstrap swarm peers
    (svc, ⟨(known.map Reply.count).getD .panicked, sent, []⟩)
  | .addPeer peerId addresses =>
    match svc.routing.insert (Contact.new peerId addresses) with
    | (routing, .panicked) => ({ svc with routing }, .quiet .panicked)
    | (routing, _) => ({ svc with routing }, .quiet .unit)
  | .removePeer peerIdHex =>
    let (routing, removed) := svc.routing.remove peerIdHex
    ({ svc with routing }, .quiet (.flag removed))
  | .findNode peerId =>
    let (svc, found, sent) := svc.findNode swarm peerId
    (svc, ⟨(found.map Reply.contacts).getD .noPeers, sent, []⟩)
  | .findProviders content =>
    let (svc, records, sent) := svc.findProviders input.clock swarm content
    (svc, ⟨.records records, sent, []⟩)
  | .cachedProviders content => (svc, .quiet (.records (svc.cachedProviders now content)))
  | .forgetDiscovered content =>
    let (svc, dropped) := svc.forgetDiscovered content
    (svc, .quiet (.count dropped))
  | .announceProviderWithCollateral content coin =>
    let record := svc.announcedRecord content coin now
    let (svc, accepted, sent) := svc.announceProviderWithCollateral input.clock swarm content coin
    (svc, ⟨.count accepted, sent, [record]⟩)
  | .withdrawProvider content =>
    let (svc, was) := svc.withdrawProvider content
    (svc, .quiet (.flag was))
  | .ingestVerifiedProvider record =>
    let (svc, outcome) := svc.admitVerifiedRecord record now
    (svc, .quiet ((outcome.map Reply.put).getD .panicked))
  | .removeProviderRecord contentKey providerPeerId =>
    let (svc, removed) := svc.removeProviderRecord contentKey providerPeerId
    (svc, .quiet (.flag removed))
  | .providerSnapshot maxKeys => (svc, .quiet (.snapshot (svc.providers.snapshot now maxKeys)))
  | .retractOwnProvider content =>
    let (svc, was) := svc.retractOwnProvider content
    (svc, .quiet (.flag was))
  | .holdersOf content =>
    let (svc, holders, sent) := svc.holdersOf input.clock swarm content
    (svc, ⟨.holders holders, sent, []⟩)
  | .republish =>
    let keys := input.keyOrder svc.providers.localAnnouncements
    let (svc, count, records, sent) := svc.republish input.clock world.swarms keys
    (svc, ⟨.count count, sent, records⟩)
  | .refreshBuckets =>
    let (svc, count, sent) := svc.refreshBuckets world.random world.swarms
    (svc, ⟨.count count, sent, []⟩)
  | .gc =>
    let (svc, removed) := svc.gc now
    (svc, .quiet (.count removed))
  | .ping peer =>
    let (svc, alive) := svc.ping swarm peer world.nonce
    (svc, ⟨.flag alive, [(peer, .ping world.nonce)], []⟩)
  | .handleRequestFrom caller request =>
    let (svc, response) := svc.handleRequestFrom now caller request
    (svc, .quiet ((response.map Reply.response).getD .panicked))
  | .knownClosest target => (svc, .quiet (.contacts (svc.routing.closest target)))
  | .routingLen => (svc, .quiet (.count svc.routing.len))

/-- `step` on one step's inputs taken together, outputs dropped. -/
def stepState (svc : DhtService) (x : Input × World) : DhtService :=
  (step svc x.1 x.2).1

end DigDht.Service
