/-
DigDht.Service.Interleaving — announces and republishes, one lock window
at a time (`src/service.rs`).

`republish` holds the store lock for single accesses only: it takes the
list of announced keys, and then for each key reads the remembered
pointer, puts the rebuilt record, and goes to the network. Between any
two of these another task of the node may run. A `Publication` is a
running `republish`: the keys it has not reached, and where it stands
with the present one. An announce stores and marks in ONE window; what is
left of it is a publication with no further keys.

`Node.step` runs one event: a window of a publication, or a whole
operation of `DigDht.Service.Machine` in between (an inbound request, a
retract, a sweep). `time` counts events and stamps each record when it is
built; `posted` is every AddProvider sent so far. Both are ghosts.
-/
import DigDht.Service.Machine

namespace DigDht.Service

open Keyspace Record Routing Lookup Store Wire Content

/-- Where a publication stands with one key. -/
inductive Stage where
  /-- At the head of the loop. -/
  | idle
  /-- The record is built, its pointer attached. -/
  | built (target : Key) (record : ProviderRecord) (builtAt : Nat)
  | stored (target : Key) (record : ProviderRecord) (builtAt : Nat)
  /-- The lookup is back. -/
  | found (target : Key) (record : ProviderRecord) (builtAt : Nat) (closest : List Contact)
  /-- PUTs still to be sent. -/
  | sending (target : Key) (record : ProviderRecord) (builtAt : Nat) (peers : List Contact)
  deriving DecidableEq

structure Publication where
  pending : List String
  stage : Stage
  deriving DecidableEq

/-- An AddProvider that was sent. -/
structure Posted where
  peer : Contact
  record : ProviderRecord
  builtAt : Nat
  deriving DecidableEq

/-- A service with its running publications. -/
structure Node where
  svc : DhtService
  running : List Publication
  posted : List Posted
  time : Nat
  deriving DecidableEq

inductive Event where
  /-- A whole operation. -/
  | call (x : Input × World)
  /-- `republish` takes its work list, in the order the map yields it. -/
  | startRepublish (keyOrder : List String → List String)
      (keyOrder_perm : ∀ keys, (keyOrder keys).Perm keys)
  /-- The store window of an announce: clock readings for the record and
  for the put. -/
  | startAnnounce (content : ContentId) (unverifiedMirrorCoinId : Option Bytes32)
      (now now' : Nat)
  /-- The next window of the `i`-th publication. -/
  | advance (i : Nat) (now : Nat) (swarm : Swarm)

/-- The AddProvider requests among what was sent. -/
def addProviders (sent : List Sent) : List (Contact × ProviderRecord) :=
  sent.filterMap fun m =>
    match m.2 with
    | .addProvider record => some (m.1, record)
    | _ => none

/-- The AddProvider requests among what was sent, stamped. -/
def stamped (sent : List Sent) (builtAt : Nat) : List Posted :=
  (addProviders sent).map fun m => ⟨m.1, m.2, builtAt⟩

variable [Deps]

/-- One lock window of a publication: the service, the publication, and
the AddProvider sent, if one is. -/
def Publication.window (svc : DhtService) (time now : Nat) (swarm : Swarm) (p : Publication) :
    DhtService × Publication × List Posted :=
  match p.stage with
  | .idle =>
    match p.pending with
    | [] => (svc, p, [])
    | hex :: rest =>
      match parseKey hex with
      | none => (svc, ⟨rest, .idle⟩, [])
      | some target =>
        let record := svc.republishedRecord (svc.providers.announcedCollateral hex) target now
        (svc, ⟨rest, .built target record time⟩, [])
  | .built target record builtAt =>
    ({ svc with providers := (svc.providers.putAt record now).1 },
      ⟨p.pending, .stored target record builtAt⟩, [])
  | .stored target record builtAt =>
    let seeds := svc.seedContacts target
    if seeds = [] then (svc, ⟨p.pending, .idle⟩, [])
    else
      let w := (svc.runLookup swarm target seeds false).1
      (svc, ⟨p.pending, .found target record builtAt (w.result svc.config.k).closest⟩, [])
  | .found target record builtAt closest =>
    (svc.absorbContacts closest,
      ⟨p.pending, .sending target record builtAt (svc.putTargets closest)⟩, [])
  | .sending _ _ _ [] => (svc, ⟨p.pending, .idle⟩, [])
  | .sending target record builtAt (peer :: peers) =>
    (svc, ⟨p.pending, .sending target record builtAt peers⟩, [⟨peer, record, builtAt⟩])

namespace Node

/-- A service with nothing running. -/
def start (svc : DhtService) : Node where
  svc := svc
  running := []
  posted := []
  time := 0

def step (s : Node) : Event → Node
  | .call x =>
    let (svc, out) := Service.step s.svc x.1 x.2
    { s with svc, posted := s.posted ++ stamped out.sent s.time, time := s.time + 1 }
  | .startRepublish keyOrder _ =>
    { s with
      running := s.running ++ [⟨keyOrder s.svc.providers.localAnnouncements, .idle⟩]
      time := s.time + 1 }
  | .startAnnounce content coin now now' =>
    let target := content.toKey
    let record := s.svc.announcedRecord content coin now
    { s with
      svc := s.svc.storeAnnounced target.toHex record now'
      running := s.running ++ [⟨[], .stored target record s.time⟩]
      time := s.time + 1 }
  | .advance i now swarm =>
    match s.running[i]? with
    | none => { s with time := s.time + 1 }
    | some p =>
      let (svc, p, posted) := p.window s.svc s.time now swarm
      { svc
        running := s.running.set i p
        posted := s.posted ++ posted
        time := s.time + 1 }

end Node

end DigDht.Service
