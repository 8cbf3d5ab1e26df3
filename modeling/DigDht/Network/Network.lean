/-
DigDht.Network.Network — many nodes and the messages between them
(`src/transport.rs`, and the router of `tests/swarm.rs`).

A network maps ids to nodes; each node runs one lock window at a time
(`DigDht.Service.Interleaving`). Two kinds of event interleave: a node
acts, or a request reaches the node it is for. `rpc` is not one event.
The request is delivered and answered at the callee whenever the
schedule says so, and the caller reads the answer in a later event of
its own, out of its `World`. So messages are delayed, reordered, repeated
and lost as the schedule likes.

The caller of a delivery may be anybody: a node of the network, or
somebody else altogether. What mTLS rules out is said where it is used
(`DigDht.Network.ProvenanceTheorems`).

`answered` is every exchange so far, `announced` every announce that a
node's own client made. Both are ghosts.
-/
import DigDht.Service.Interleaving
import DigDht.Wire.RoundTripTheorems

namespace DigDht.Network

open Keyspace Record Routing Lookup Store Wire Content Service

/-- A request that was answered. -/
structure Exchange where
  caller : Contact
  callee : String
  request : DhtRequest
  response : DhtResponse
  deriving DecidableEq

/-- An announce as a node's client made it. -/
structure Announcement where
  peerId : String
  content : ContentId
  unverifiedMirrorCoinId : Option Bytes32
  deriving DecidableEq

structure SwarmRouter where
  nodes : FMap String Node
  answered : List Exchange
  announced : List Announcement
  deriving DecidableEq

inductive SwarmEvent where
  /-- The node acts on its own: its client, its maintenance, an answer
  that came back. -/
  | act (peerId : String) (e : Event)
  /-- A request reaches the node it is for. -/
  | deliver (caller : Contact) (peerId : String) (request : DhtRequest) (now : Nat)

/-- `SwarmRouter::new`. -/
def SwarmRouter.new : SwarmRouter where
  nodes := ∅
  answered := []
  announced := []

/-- The request an operation serves. -/
def servedBy : Op → Option DhtRequest
  | .handleRequestFrom _ request => some request
  | _ => none

/-- The record an operation ingests. -/
def ingestedBy : Op → Option ProviderRecord
  | .ingestVerifiedProvider record => some record
  | _ => none

/-- The announces an event of the node makes. -/
def announcements (peerId : String) : Event → List Announcement
  | .call x =>
    match x.1.op with
    | .announceProviderWithCollateral content coin => [⟨peerId, content, coin⟩]
    | _ => []
  | .startAnnounce content coin _ _ => [⟨peerId, content, coin⟩]
  | _ => []

variable [Deps]

/-- A request, decoded, at the node it is for. -/
def serveAt (node : Node) (caller : Contact) (request : DhtRequest) (now : Nat) :
    Node × Option DhtResponse :=
  let (svc, response) := node.svc.handleRequestFrom now (some caller) request.norm
  ({ node with svc, time := node.time + 1 }, response)

namespace SwarmRouter

/-- `SwarmRouter::add`. -/
def add (net : SwarmRouter) (service : DhtService) : SwarmRouter :=
  { net with nodes := net.nodes.insert service.selfId (Node.start service) }

def step (net : SwarmRouter) : SwarmEvent → SwarmRouter
  | .act peerId e =>
    match net.nodes.lookup peerId with
    | none => net
    | some node =>
      { net with
        nodes := net.nodes.insert peerId (node.step e)
        announced := net.announced ++ announcements peerId e }
  | .deliver caller peerId request now =>
    match net.nodes.lookup peerId with
    -- No route.
    | none => net
    | some node =>
      let (node, response) := serveAt node caller request now
      { net with
        nodes := net.nodes.insert peerId node
        answered := net.answered ++
          response.toList.map fun res => ⟨caller, peerId, request, res⟩ }

/-- A transport that hands out what nodes answered, the last answer first. -/
def relay (net : SwarmRouter) : Swarm where
  rpc _ c request :=
    (net.answered.reverse.find? fun e => e.callee = c.peerId ∧ e.request = request).map
      fun e => e.response.norm
  arrival _ batch := batch
  arrival_perm _ := List.Perm.refl

/-- Services under their own ids, with nothing running and nothing said. -/
structure Fresh (net : SwarmRouter) : Prop where
  nodes : ∀ peerId node, net.nodes.lookup peerId = some node →
    ∃ localId addresses config, peerId = Deps.toHex localId ∧
      node = Node.start (DhtService.new localId addresses config)
  answered : net.answered = []
  announced : net.announced = []

theorem fresh_new : SwarmRouter.new.Fresh :=
  ⟨by simp [SwarmRouter.new], rfl, rfl⟩

theorem Fresh.add {net : SwarmRouter} (h : net.Fresh) (localId : PeerId)
    (addresses : List CandidateAddr) (config : DhtConfig) :
    (net.add (DhtService.new localId addresses config)).Fresh := by
  refine ⟨?_, h.answered, h.announced⟩
  intro peerId node hnode
  by_cases hid : peerId = (DhtService.new localId addresses config).selfId
  · subst hid
    rw [SwarmRouter.add, AList.lookup_insert] at hnode
    cases hnode
    exact ⟨localId, addresses, config, rfl, rfl⟩
  · rw [SwarmRouter.add, AList.lookup_insert_ne hid] at hnode
    exact h.nodes peerId node hnode

end SwarmRouter

end DigDht.Network
