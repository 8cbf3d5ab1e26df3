/-
DigDht.Routing.RoutingTable — contacts, k-buckets and the routing table
(`src/routing.rs`).

256 buckets of at most `k` contacts each, the least recently seen at the
FRONT. `insert` refreshes, appends, or reports the front contact of a
full bucket; `replace` is the second half of that protocol, run after
the front contact failed a ping: it evicts the front if it is still the
reported one and appends the candidate.

The bucket array has its length in its type. Rust's `contacts[0]` in
`offer` panics on a bucket of capacity 0; that is the outcome
`.panicked`, and it leaves the table as it is.

`RoutingOp` and `step` are the three mutating operations as inputs of
one state machine.
-/
import Mathlib.Algebra.BigOperators.Group.List.Basic
import Mathlib.Algebra.GroupWithZero.Nat
import Mathlib.Data.Vector.Basic
import DigDht.Lib.Runs
import DigDht.Record.DialCandidates

namespace DigDht.Routing

open Keyspace Record Selection

/-- A known peer: `{ peer_id, addresses }`. -/
structure Contact where
  peerId : String
  addresses : List CandidateAddr
  deriving DecidableEq

namespace Contact

variable [Deps]

def new (peerId : PeerId) (addresses : List CandidateAddr) : Contact where
  peerId := Deps.toHex peerId
  addresses := sortAndCapAddresses addresses

/-- `peer_id()`: the identity, decoded. -/
def peer (c : Contact) : Option PeerId :=
  Deps.fromHex c.peerId

def key (c : Contact) : Option Key :=
  c.peer.map Key.fromPeerId

/-- The address cap of an ingress boundary, applied in place. -/
def capped (c : Contact) : Contact :=
  { c with addresses := sortAndCapAddresses c.addresses }

def dialCandidates [IpText] (c : Contact) : List CandidateAddr :=
  Record.dialCandidates c.addresses

@[simp] theorem capped_new (peerId : PeerId) (addresses : List CandidateAddr) :
    (new peerId addresses).capped = new peerId addresses := by
  simp [new, capped]

@[simp] theorem key_capped (c : Contact) : c.capped.key = c.key := rfl

end Contact

/-- What happened to a contact offered to a bucket. -/
inductive InsertOutcome where
  | inserted
  | full (lru : Contact)
  | panicked
  deriving DecidableEq

structure KBucket where
  contacts : List Contact
  capacity : Nat
  deriving DecidableEq

namespace KBucket

def new (capacity : Nat) : KBucket where
  contacts := []
  capacity := capacity

/-- `contacts.iter().any(|c| c.peer_id == peerId)`. -/
def holds (b : KBucket) (peerId : String) : Bool :=
  b.contacts.any (·.peerId == peerId)

/-- The contacts without the first one named `peerId`. -/
def without (b : KBucket) (peerId : String) : List Contact :=
  b.contacts.eraseP (·.peerId == peerId)

def offer (b : KBucket) (contact : Contact) : KBucket × InsertOutcome :=
  if b.holds contact.peerId then
    ({ b with contacts := b.without contact.peerId ++ [contact] }, .inserted)
  else if b.contacts.length < b.capacity then
    ({ b with contacts := b.contacts ++ [contact] }, .inserted)
  else
    match b.contacts with
    | [] => (b, .panicked)
    | lru :: _ => (b, .full lru)

/-- Evict the front contact if it is still the one named. -/
def replace (b : KBucket) (lruPeerId : String) (candidate : Contact) : KBucket × Bool :=
  match b.contacts with
  | [] => (b, false)
  | front :: rest =>
    if front.peerId = lruPeerId then ({ b with contacts := rest ++ [candidate] }, true)
    else (b, false)

def remove (b : KBucket) (peerId : String) : KBucket × Bool :=
  if b.holds peerId then ({ b with contacts := b.without peerId }, true) else (b, false)

end KBucket

structure RoutingTable where
  localKey : Key
  buckets : List.Vector KBucket 256
  k : Nat
  deriving DecidableEq

namespace RoutingTable

def new (localId : PeerId) (k : Nat) : RoutingTable where
  localKey := Key.fromPeerId localId
  buckets := List.Vector.replicate 256 (KBucket.new k)
  k := k

/-- The bucket a key falls in, `none` for this node's own key. -/
def bucketFor (t : RoutingTable) (key : Key) : Option (Fin 256) :=
  (t.localKey.distance key).bucketIndex

def bucket (t : RoutingTable) (i : Fin 256) : KBucket :=
  t.buckets.get i

def setBucket (t : RoutingTable) (i : Fin 256) (b : KBucket) : RoutingTable :=
  { t with buckets := t.buckets.set i b }

/-- Every stored contact, bucket by bucket. -/
def contacts (t : RoutingTable) : List Contact :=
  t.buckets.toList.flatMap KBucket.contacts

def len (t : RoutingTable) : Nat :=
  (t.buckets.toList.map fun b => b.contacts.length).sum

def nonEmptyBucketIndices (t : RoutingTable) : List (Fin 256) :=
  (List.finRange 256).filter fun i => !(t.bucket i).contacts.isEmpty

variable [Deps]

/-- The bucket a contact falls in; none for a malformed id or our own. -/
def bucketOf (t : RoutingTable) (c : Contact) : Option (Fin 256) :=
  c.key.bind t.bucketFor

def insert (t : RoutingTable) (contact : Contact) : RoutingTable × InsertOutcome :=
  match t.bucketOf contact with
  | none => (t, .inserted)
  | some idx =>
    let (b, outcome) := (t.bucket idx).offer contact
    (t.setBucket idx b, outcome)

def replace (t : RoutingTable) (lru candidate : Contact) : RoutingTable × Bool :=
  match t.bucketOf candidate with
  | none => (t, false)
  | some idx =>
    let (b, evicted) := (t.bucket idx).replace lru.peerId candidate
    (t.setBucket idx b, evicted)

def remove (t : RoutingTable) (peerId : String) : RoutingTable × Bool :=
  match (Deps.fromHex peerId).bind fun p => t.bucketFor (Key.fromPeerId p) with
  | none => (t, false)
  | some idx =>
    let (b, removed) := (t.bucket idx).remove peerId
    (t.setBucket idx b, removed)

/-- The `k` stored contacts nearest `target`, nearest first. -/
def closest (t : RoutingTable) (target : Key) : List Contact :=
  let all := t.contacts.filterMap fun c => c.key.map fun key => (c, target.distance key)
  ((sortByKey Prod.snd all).take t.k).map Prod.fst

end RoutingTable

/-! ## The table as a state machine -/

inductive RoutingOp where
  | insert (contact : Contact)
  | replace (lru candidate : Contact)
  | remove (peerId : String)
  deriving DecidableEq

/-- The table after an operation. -/
def step [Deps] (t : RoutingTable) : RoutingOp → RoutingTable
  | .insert contact => (t.insert contact).1
  | .replace lru candidate => (t.replace lru candidate).1
  | .remove peerId => (t.remove peerId).1

end DigDht.Routing
